import AndroidProjects.Foundation.Progress
import Mathlib.Algebra.BigOperators.Group.Finset.Basic
import Mathlib.Algebra.Order.BigOperators.Group.Finset
import Mathlib.Data.Fintype.Card
import Mathlib.Logic.Function.Basic

namespace Message
open Machine

inductive Who (T : Type*) where
  | thread
  | caller (t : T)
  deriving DecidableEq, Repr

inductive ThreadPc where
  | new
  | prepare
  | enter
  | assign
  | notify
  | leave
  | loop
  | dead
  deriving DecidableEq, Repr

inductive CallerPc (Looper : Type*) where
  | check
  | enter
  | testAlive
  | testLooper
  | wait
  | reacquire
  | leave
  | read
  | returned (looper : Option Looper)
  deriving DecidableEq, Repr

variable {T Looper : Type*}

structure State (T Looper : Type*) where
  thread : ThreadPc
  looper : Option Looper
  owner : Option (Who T)
  callers : T → CallerPc Looper

inductive Event (T : Type*) where
  | turn (w : Who T)
  | start
  | exit
  -- an InterruptedException or a spurious wakeup
  | wake (t : T)
  deriving DecidableEq, Repr

def isAlive : ThreadPc → Bool
  | .new => false
  | .dead => false
  | _ => true

def CallerPc.notified : CallerPc Looper → CallerPc Looper
  | .wait => .reacquire
  | pc => pc

section
variable (mine : Looper)

def initial : State T Looper := ⟨.new,none,none,fun _ => .check⟩

-- MyThread.run, where mine is what Looper.myLooper gives after Looper.prepare
def run (s : State T Looper) : State T Looper :=
  match s.thread with
  | .prepare => {s with thread := .enter}
  | .enter =>
    match s.owner with
    | none => {s with thread := .assign, owner := some .thread}
    | some _ => s
  | .assign => {s with thread := .notify, looper := some mine}
  | .notify => {s with thread := .leave, callers := fun t => (s.callers t).notified}
  | .leave => {s with thread := .loop, owner := none}
  | _ => s

variable [DecidableEq T]

def State.put (s : State T Looper) (t : T) (pc : CallerPc Looper) (owner : Option (Who T)) :
    State T Looper := {s with callers := Function.update s.callers t pc, owner := owner}

def getLooper (t : T) (s : State T Looper) : State T Looper :=
  match s.callers t with
  | .check => s.put t (if isAlive s.thread then .enter else .returned none) s.owner
  | .enter =>
    match s.owner with
    | none => s.put t .testAlive (some (.caller t))
    | some _ => s
  | .testAlive => s.put t (if isAlive s.thread then .testLooper else .leave) s.owner
  | .testLooper =>
    match s.looper with
    | none => s.put t .wait none
    | some _ => s.put t .leave s.owner
  | .reacquire =>
    match s.owner with
    | none => s.put t .testAlive (some (.caller t))
    | some _ => s
  | .leave => s.put t .read none
  | .read => s.put t (.returned s.looper) s.owner
  | _ => s

def turn (s : State T Looper) : Who T → State T Looper
  | .thread => run mine s
  | .caller t => getLooper t s

def step (s : State T Looper) : Event T → State T Looper
  | .turn w => turn mine s w
  | .start =>
    match s.thread with
    | .new => {s with thread := .prepare}
    | _ => s
  -- Looper.loop comes back after a quit, and prepare may throw
  | .exit =>
    match s.thread with
    | .prepare => {s with thread := .dead}
    | .loop => {s with thread := .dead}
    | _ => s
  | .wake t => s.put t (s.callers t).notified s.owner

end

def ThreadPc.inside : ThreadPc → Bool
  | .assign => true
  | .notify => true
  | .leave => true
  | _ => false

def ThreadPc.stored : ThreadPc → Bool
  | .notify => true
  | .leave => true
  | .loop => true
  | _ => false

def CallerPc.inside : CallerPc Looper → Bool
  | .testAlive => true
  | .testLooper => true
  | .leave => true
  | _ => false

def inside (s : State T Looper) : Who T → Bool
  | .thread => s.thread.inside
  | .caller t => (s.callers t).inside

structure Sound (mine : Looper) (s : State T Looper) : Prop where
  owner : ∀ w, s.owner = some w ↔ inside s w = true
  looper : ∀ l, s.looper = some l → l = mine
  stored : s.thread.stored = true → s.looper = some mine
  waiters : ∀ t, s.callers t = .wait → s.looper = none ∨ s.thread = .notify
  returned : ∀ t l, s.callers t = .returned (some l) → l = mine

theorem sound_initial (mine : Looper) : Sound mine (initial : State T Looper) where
  owner w := by cases w <;> simp [initial,inside,ThreadPc.inside,CallerPc.inside]
  looper l h := by simp [initial] at h
  stored h := by simp [initial,ThreadPc.stored] at h
  waiters t h := by simp [initial] at h
  returned t l h := by simp [initial] at h

@[simp] theorem notified_inside (pc : CallerPc Looper) : pc.notified.inside = pc.inside := by
  cases pc <;> rfl

theorem notified_ne_wait (pc : CallerPc Looper) : pc.notified ≠ .wait := by
  cases pc <;> simp [CallerPc.notified]

theorem notified_returned {pc : CallerPc Looper} {r : Option Looper} :
    pc.notified = .returned r ↔ pc = .returned r := by
  cases pc <;> simp [CallerPc.notified]

section Steps
variable {mine : Looper} {s : State T Looper}

theorem Sound.thread_moves (h : Sound mine s) {pc : ThreadPc} (hin : pc.inside = s.thread.inside)
    (hstored : pc.stored = true → s.thread.stored = true) (hnotify : s.thread ≠ .notify) :
    Sound mine {s with thread := pc} where
  owner w := by
    cases w with
    | thread => simpa [inside,hin] using h.owner .thread
    | caller t => exact h.owner (.caller t)
  looper := h.looper
  stored hpc := h.stored (hstored hpc)
  waiters t ht := .inl ((h.waiters t ht).resolve_right hnotify)
  returned := h.returned

theorem Sound.run (h : Sound mine s) : Sound mine (run mine s) := by
  rw [Message.run]
  cases hpc : s.thread with
  | new => exact h
  | prepare =>
    exact h.thread_moves (by rw [hpc]; rfl) (by simp [ThreadPc.stored]) (by simp [hpc])
  | enter =>
    cases ho : s.owner with
    | some w => exact h
    | none =>
      refine ⟨fun w => ?_,h.looper,by simp [ThreadPc.stored],fun t ht => ?_,h.returned⟩
      · cases w with
        | thread => simp [inside,ThreadPc.inside]
        | caller t =>
          have hout := h.owner (.caller t)
          simpa [ho,inside] using hout
      · exact .inl ((h.waiters t ht).resolve_right (by simp [hpc]))
  | assign =>
    refine ⟨fun w => ?_,by simp,by simp,fun t _ => .inr rfl,h.returned⟩
    cases w with
    | thread => simpa [hpc,inside,ThreadPc.inside] using h.owner .thread
    | caller t => exact h.owner (.caller t)
  | notify =>
    have hstored := h.stored (by simp [hpc,ThreadPc.stored])
    refine ⟨fun w => ?_,h.looper,fun _ => hstored,fun t ht => ?_,fun t l ht => ?_⟩
    · cases w with
      | thread => simpa [hpc,inside,ThreadPc.inside] using h.owner .thread
      | caller t => simpa [inside] using h.owner (.caller t)
    · exact absurd ht (notified_ne_wait _)
    · exact h.returned t l (notified_returned.mp ht)
  | leave =>
    have hstored := h.stored (by simp [hpc,ThreadPc.stored])
    have howner : s.owner = some .thread :=
      (h.owner .thread).mpr (by simp [inside,hpc,ThreadPc.inside])
    refine ⟨fun w => ?_,h.looper,fun _ => hstored,fun t ht => ?_,h.returned⟩
    · cases w with
      | thread => simp [inside,ThreadPc.inside]
      | caller t =>
        have hout := h.owner (.caller t)
        simpa [howner,inside] using hout
    · exact .inl ((h.waiters t ht).resolve_right (by simp [hpc]))
  | loop => exact h
  | dead => exact h

variable [DecidableEq T]

theorem Sound.put (h : Sound mine s) {t : T} {pc : CallerPc Looper} {o : Option (Who T)}
    (hself : o = some (.caller t) ↔ pc.inside = true)
    (hothers : ∀ w, w ≠ .caller t → (o = some w ↔ s.owner = some w))
    (hwait : pc = .wait → s.looper = none ∨ s.thread = .notify)
    (hret : ∀ l, pc = .returned (some l) → l = mine) : Sound mine (s.put t pc o) := by
  refine ⟨fun w => ?_,h.looper,h.stored,fun u hu => ?_,fun u l hu => ?_⟩
  · cases w with
    | thread => exact (hothers _ (by simp)).trans (h.owner .thread)
    | caller u =>
      by_cases hut : u = t
      · subst hut
        simpa [State.put,inside] using hself
      · simpa [State.put,inside,hut] using (hothers (.caller u) (by simp [hut])).trans
          (h.owner (.caller u))
  · by_cases hut : u = t
    · subst hut
      exact hwait (by simpa [State.put] using hu)
    · exact h.waiters u (by simpa [State.put,hut] using hu)
  · by_cases hut : u = t
    · subst hut
      exact hret l (by simpa [State.put] using hu)
    · exact h.returned u l (by simpa [State.put,hut] using hu)

theorem Sound.stays (h : Sound mine s) {t : T} {pc : CallerPc Looper}
    (hin : pc.inside = (s.callers t).inside)
    (hwait : pc = .wait → s.looper = none ∨ s.thread = .notify)
    (hret : ∀ l, pc = .returned (some l) → l = mine) : Sound mine (s.put t pc s.owner) := by
  refine h.put ?_ (fun _ _ => Iff.rfl) hwait hret
  rw [hin]
  exact h.owner (.caller t)

theorem Sound.enters (h : Sound mine s) {t : T} {pc : CallerPc Looper} (hin : pc.inside = true)
    (hfree : s.owner = none) : Sound mine (s.put t pc (some (.caller t))) := by
  refine h.put (by simp [hin]) (fun w hw => ?_) (fun hpc => ?_) (fun l hpc => ?_)
  · simp [hfree,hw.symm]
  · simp [hpc,CallerPc.inside] at hin
  · simp [hpc,CallerPc.inside] at hin

theorem Sound.leaves (h : Sound mine s) {t : T} {pc : CallerPc Looper} (hout : pc.inside = false)
    (hin : (s.callers t).inside = true) (hwait : pc = .wait → s.looper = none ∨ s.thread = .notify)
    (hret : ∀ l, pc = .returned (some l) → l = mine) : Sound mine (s.put t pc none) := by
  have howner : s.owner = some (.caller t) := (h.owner (.caller t)).mpr hin
  refine h.put (by simp [hout]) (fun w hw => ?_) hwait hret
  simp [howner,hw.symm]

theorem Sound.getLooper (h : Sound mine s) (t : T) : Sound mine (getLooper t s) := by
  rw [Message.getLooper]
  cases hpc : s.callers t with
  | check =>
    cases halive : isAlive s.thread with
    | true => exact h.stays (by simp [hpc,CallerPc.inside]) (by simp) (by simp)
    | false => exact h.stays (by simp [hpc,CallerPc.inside]) (by simp) (by simp)
  | enter =>
    cases ho : s.owner with
    | none => exact h.enters rfl ho
    | some w => exact h
  | reacquire =>
    cases ho : s.owner with
    | none => exact h.enters rfl ho
    | some w => exact h
  | testAlive =>
    cases halive : isAlive s.thread with
    | true => exact h.stays (by simp [hpc,CallerPc.inside]) (by simp) (by simp)
    | false => exact h.stays (by simp [hpc,CallerPc.inside]) (by simp) (by simp)
  | testLooper =>
    cases hl : s.looper with
    | none => exact h.leaves rfl (by simp [hpc,CallerPc.inside]) (fun _ => .inl hl) (by simp)
    | some l => exact h.stays (by simp [hpc,CallerPc.inside]) (by simp) (by simp)
  | leave => exact h.leaves rfl (by simp [hpc,CallerPc.inside]) (by simp) (by simp)
  | read =>
    refine h.stays (by simp [hpc,CallerPc.inside]) (by simp) (fun l hl => ?_)
    exact h.looper l (CallerPc.returned.inj hl)
  | wait => exact h
  | returned r => exact h

theorem Sound.turn (h : Sound mine s) (w : Who T) : Sound mine (turn mine s w) := by
  cases w with
  | thread => exact h.run
  | caller t => exact h.getLooper t

theorem Sound.step (h : Sound mine s) (e : Event T) : Sound mine (step mine s e) := by
  cases e with
  | turn w => exact h.turn w
  | start =>
    rw [Message.step]
    cases hpc : s.thread with
    | new => exact h.thread_moves (by rw [hpc]; rfl) (by simp [ThreadPc.stored]) (by simp [hpc])
    | _ => exact h
  | exit =>
    rw [Message.step]
    cases hpc : s.thread with
    | prepare => exact h.thread_moves (by rw [hpc]; rfl) (by simp [ThreadPc.stored]) (by simp [hpc])
    | loop => exact h.thread_moves (by rw [hpc]; rfl) (by simp [ThreadPc.stored]) (by simp [hpc])
    | _ => exact h
  | wake t =>
    refine h.stays (by simp) (fun hw => absurd hw (notified_ne_wait _)) (fun l hl => ?_)
    exact h.returned t l (notified_returned.mp hl)

end Steps

structure Safe (mine : Looper) (s : State T Looper) : Prop where
  exclusive : ∀ v w, inside s v = true → inside s w = true → v = w
  returned : ∀ t l, s.callers t = .returned (some l) → l = mine
  woken : ∀ t, s.callers t = .wait → s.looper = none ∨ s.thread = .notify

theorem Sound.safe {mine : Looper} {s : State T Looper} (h : Sound mine s) : Safe mine s where
  exclusive v w hv hw := by
    have hown := (h.owner v).mpr hv
    rw [(h.owner w).mpr hw] at hown
    exact (Option.some.inj hown).symm
  returned := h.returned
  woken := h.waiters

inductive Promised (t : T) (s : State T Looper) : Prop
  | ended (h : s.thread = .dead)
  | kept (alive : isAlive s.thread = true) (looper : s.callers t ≠ .returned none)
      (leave : s.callers t = .leave → s.looper ≠ none)
      (read : s.callers t = .read → s.looper ≠ none)

section Promises
variable {mine : Looper} {s : State T Looper} {t : T}

theorem promised_of_check (hpc : s.callers t = .check) (halive : isAlive s.thread = true) :
    Promised t s := .kept halive (by simp [hpc]) (by simp [hpc]) (by simp [hpc])

theorem Promised.thread_moves (h : Promised t s) (hdead : s.thread ≠ .dead)
    {pc : ThreadPc} (halive : isAlive pc = true) {l : Option Looper}
    (hl : s.looper ≠ none → l ≠ none)
    (o : Option (Who T)) : Promised t {s with thread := pc, looper := l, owner := o} := by
  cases h with
  | ended h => exact absurd h hdead
  | kept alive looper leave read =>
    exact .kept halive looper (fun ht => hl (leave ht)) (fun ht => hl (read ht))

theorem Promised.notified (h : Promised t s) (hdead : s.thread ≠ .dead) {pc : ThreadPc}
    (halive : isAlive pc = true) :
    Promised t {s with thread := pc, callers := fun u => (s.callers u).notified} := by
  cases h with
  | ended h => exact absurd h hdead
  | kept alive looper leave read =>
    refine .kept halive (fun ht => looper (notified_returned.mp ht)) (fun ht => ?_) (fun ht => ?_)
    · cases hpc : s.callers t <;> simp [hpc,CallerPc.notified] at ht
      exact leave hpc
    · cases hpc : s.callers t <;> simp [hpc,CallerPc.notified] at ht
      exact read hpc

theorem Promised.run (h : Promised t s) : Promised t (run mine s) := by
  rw [Message.run]
  cases hpc : s.thread with
  | new => exact h
  | prepare => exact h.thread_moves (by simp [hpc]) rfl id s.owner
  | enter =>
    cases ho : s.owner with
    | none => exact h.thread_moves (by simp [hpc]) rfl id _
    | some w => exact h
  | assign => exact h.thread_moves (by simp [hpc]) rfl (fun _ => by simp) s.owner
  | notify => exact h.notified (by simp [hpc]) rfl
  | leave => exact h.thread_moves (by simp [hpc]) rfl id none
  | loop => exact h
  | dead => exact h

variable [DecidableEq T]

theorem Promised.put (h : Promised t s) {u : T} {pc : CallerPc Looper} {o : Option (Who T)}
    (hpc : isAlive s.thread = true → u = t → pc ≠ .returned none ∧
      (pc = .leave → s.looper ≠ none) ∧ (pc = .read → s.looper ≠ none)) :
    Promised t (s.put u pc o) := by
  cases h with
  | ended h => exact .ended h
  | kept alive looper leave read =>
    by_cases hut : u = t
    · obtain ⟨hret,hleave,hread⟩ := hpc alive hut
      subst hut
      exact .kept alive (by simpa [State.put] using hret) (by simpa [State.put] using hleave)
        (by simpa [State.put] using hread)
    · have hsame : (s.put u pc o).callers t = s.callers t := by
        simp [State.put,Ne.symm hut]
      exact .kept alive (by rwa [hsame]) (by rwa [hsame]) (by rwa [hsame])

theorem Promised.getLooper (h : Promised t s) (u : T) : Promised t (getLooper u s) := by
  rw [Message.getLooper]
  cases hpc : s.callers u with
  | check => exact h.put fun halive _ => by simp [halive]
  | enter =>
    cases ho : s.owner with
    | none => exact h.put fun _ _ => by simp
    | some w => exact h
  | reacquire =>
    cases ho : s.owner with
    | none => exact h.put fun _ _ => by simp
    | some w => exact h
  | testAlive => exact h.put fun halive _ => by simp [halive]
  | testLooper =>
    cases hl : s.looper with
    | none => exact h.put fun _ _ => by simp
    | some l => exact h.put fun _ _ => by simp [hl]
  | leave =>
    cases h with
    | ended h => exact .ended h
    | kept alive looper leave read =>
      refine (Promised.kept alive looper leave read).put fun _ hut => ?_
      have hl := leave (hut ▸ hpc)
      simp [hl]
  | read =>
    cases h with
    | ended h => exact .ended h
    | kept alive looper leave read =>
      refine (Promised.kept alive looper leave read).put fun _ hut => ?_
      have hl := read (hut ▸ hpc)
      simp [hl]
  | wait => exact h
  | returned r => exact h

theorem Promised.turn (h : Promised t s) (w : Who T) : Promised t (turn mine s w) := by
  cases w with
  | thread => exact h.run
  | caller u => exact h.getLooper u

theorem Promised.step (h : Promised t s) (e : Event T) : Promised t (step mine s e) := by
  cases e with
  | turn w => exact h.turn w
  | start =>
    rw [Message.step]
    cases hpc : s.thread with
    | new => exact h.thread_moves (by simp [hpc]) rfl id s.owner
    | _ => exact h
  | exit =>
    rw [Message.step]
    cases hpc : s.thread with
    | prepare => exact .ended rfl
    | loop => exact .ended rfl
    | _ => exact h
  | wake u =>
    refine h.put fun halive hut => ?_
    cases h with
    | ended h => simp [h,isAlive] at halive
    | kept alive looper leave read =>
      subst hut
      cases hpc : s.callers u <;> simp_all [CallerPc.notified]

end Promises

section Outcomes
variable [DecidableEq T] (mine : Looper)

abbrev reached (es : List (Event T)) : State T Looper := Machine.run (step mine) initial es

theorem reached_sound (es : List (Event T)) : Sound mine (reached mine es) :=
  run_invariant (I := Sound mine) (step mine) (fun _ e h => h.step e) (sound_initial mine) es

theorem getLooper_safe (es : List (Event T)) :
    Always (step mine) (Safe mine) initial es ∧
      ∀ (fs : List (Event T)) t r, (reached mine es).callers t = .check →
        isAlive (reached mine es).thread = true → isAlive (reached mine (es ++ fs)).thread = true →
          (reached mine (es ++ fs)).callers t = .returned r → r = some mine := by
  refine ⟨?_,fun fs t r hcheck halive hlater hret => ?_⟩
  · exact always_of_invariant (I := Sound mine) (fun _ h => h.safe) (fun _ e h => h.step e)
      (sound_initial mine) es
  · have hpromise : Promised t (reached mine (es ++ fs)) := by
      rw [reached,run_append]
      exact run_invariant (I := Promised t) (step mine) (fun _ e h => h.step e)
        (promised_of_check hcheck halive) fs
    cases hpromise with
    | ended h => simp [h,isAlive] at hlater
    | kept _ looper _ _ =>
      cases r with
      | none => exact absurd hret looper
      | some l => rw [(reached_sound mine (es ++ fs)).returned t l hret]

theorem getLooper_safe_started : ∃ r,
    (reached 7 ([.start] ++ List.replicate 5 (.turn .thread) ++
      List.replicate 6 (.turn (.caller ())))).callers () = .returned r ∧ r = some 7 := by
  refine ⟨some 7,by decide,?_⟩
  exact (getLooper_safe 7 [.start]).2 (List.replicate 5 (.turn .thread) ++
    List.replicate 6 (.turn (.caller ()))) () _ (by decide) (by decide) (by decide) (by decide)

end Outcomes

section Moves
variable {mine : Looper} {s : State T Looper}

theorem run_ne_of_inside (h : s.thread.inside = true) : run mine s ≠ s := by
  intro heq
  have hpc := congrArg State.thread heq
  rw [Message.run] at hpc
  cases ht : s.thread <;> simp [ht,ThreadPc.inside] at h hpc

theorem run_alive (halive : isAlive s.thread = true) : isAlive (run mine s).thread = true := by
  rw [Message.run]
  cases hpc : s.thread with
  | enter =>
    cases s.owner with
    | none => rfl
    | some v => exact halive
  | new => exact halive
  | loop => exact halive
  | dead => exact halive
  | _ => rfl

theorem run_returned {t : T} {r : Option Looper} (h : s.callers t = .returned r) :
    (run mine s).callers t = .returned r := by
  rw [Message.run]
  cases hpc : s.thread with
  | enter => cases s.owner <;> exact h
  | notify => exact notified_returned.mpr h
  | _ => exact h

variable [DecidableEq T]

theorem put_ne {t : T} {pc : CallerPc Looper} {o : Option (Who T)} (h : pc ≠ s.callers t) :
    s.put t pc o ≠ s := by
  intro heq
  have hpc := congrArg (fun s => s.callers t) heq
  simp only [State.put,Function.update_self] at hpc
  exact h hpc

theorem getLooper_ne_of_inside {t : T} (h : (s.callers t).inside = true) : getLooper t s ≠ s := by
  rw [Message.getLooper]
  cases hpc : s.callers t with
  | testAlive =>
    refine put_ne ?_
    cases isAlive s.thread <;> simp [hpc]
  | testLooper => cases s.looper <;> exact put_ne (by simp [hpc])
  | leave => exact put_ne (by simp [hpc])
  | _ => simp [hpc,CallerPc.inside] at h

def AllReturned (s : State T Looper) : Prop := ∀ t, ∃ r, s.callers t = .returned r

theorem moves_on (h : Sound mine s) (halive : isAlive s.thread = true) (hleft : ¬ AllReturned s) :
    ∃ w, turn mine s w ≠ s := by
  cases ho : s.owner with
  | some w =>
    have hin := (h.owner w).mp ho
    cases w with
    | thread => exact ⟨.thread,run_ne_of_inside hin⟩
    | caller t => exact ⟨.caller t,getLooper_ne_of_inside hin⟩
  | none =>
    have hfree : ∀ w, inside s w ≠ true := by
      intro w hw
      rw [(h.owner w).mpr hw] at ho
      cases ho
    have hthread := hfree .thread
    cases hpc : s.thread with
    | new => simp [hpc,isAlive] at halive
    | dead => simp [hpc,isAlive] at halive
    | prepare =>
      exact ⟨.thread,fun heq => by simpa [turn,Message.run,hpc] using congrArg State.thread heq⟩
    | enter =>
      exact ⟨.thread,fun heq => by
        simpa [turn,Message.run,hpc,ho] using congrArg State.thread heq⟩
    | assign => simp [inside,hpc,ThreadPc.inside] at hthread
    | notify => simp [inside,hpc,ThreadPc.inside] at hthread
    | leave => simp [inside,hpc,ThreadPc.inside] at hthread
    | loop =>
      rw [AllReturned,not_forall] at hleft
      obtain ⟨t,ht⟩ := hleft
      have hout := hfree (.caller t)
      refine ⟨.caller t,?_⟩
      rw [turn,Message.getLooper]
      cases hc : s.callers t with
      | check =>
        refine put_ne ?_
        cases isAlive s.thread <;> simp [hc]
      | enter =>
        simp only [ho]
        exact put_ne (by simp [hc])
      | reacquire =>
        simp only [ho]
        exact put_ne (by simp [hc])
      | testAlive => simp [inside,hc,CallerPc.inside] at hout
      | testLooper => simp [inside,hc,CallerPc.inside] at hout
      | leave => simp [inside,hc,CallerPc.inside] at hout
      | read => exact put_ne (by simp [hc])
      | wait =>
        have hstored := h.stored (by simp [hpc,ThreadPc.stored])
        have hwoken := h.waiters t hc
        simp [hstored,hpc] at hwoken
      | returned r => exact absurd ⟨r,hc⟩ ht

theorem getLooper_thread (t : T) (s : State T Looper) : (getLooper t s).thread = s.thread := by
  rw [Message.getLooper]
  cases s.callers t with
  | enter => cases s.owner <;> rfl
  | reacquire => cases s.owner <;> rfl
  | testLooper => cases s.looper <;> rfl
  | _ => rfl

theorem put_returned {t u : T} {r : Option Looper} (h : s.callers t = .returned r)
    (hu : ∀ r, s.callers u ≠ .returned r) (pc : CallerPc Looper) (o : Option (Who T)) :
    (s.put u pc o).callers t = .returned r := by
  have hne : t ≠ u := by
    rintro rfl
    exact hu r h
  simpa [State.put,hne] using h

theorem getLooper_returned {t u : T} {r : Option Looper} (h : s.callers t = .returned r) :
    (getLooper u s).callers t = .returned r := by
  rw [Message.getLooper]
  cases hu : s.callers u with
  | enter => cases s.owner <;> first | exact h | exact put_returned h (by simp [hu]) _ _
  | reacquire => cases s.owner <;> first | exact h | exact put_returned h (by simp [hu]) _ _
  | testLooper => cases s.looper <;> exact put_returned h (by simp [hu]) _ _
  | wait => exact h
  | returned v => exact h
  | _ => exact put_returned h (by simp [hu]) _ _

theorem turn_alive (halive : isAlive s.thread = true) (w : Who T) :
    isAlive (turn mine s w).thread = true := by
  cases w with
  | thread => exact run_alive halive
  | caller t => rwa [turn,getLooper_thread]

theorem turn_returned (h : AllReturned s) (w : Who T) : AllReturned (turn mine s w) := by
  intro t
  obtain ⟨r,hr⟩ := h t
  cases w with
  | thread => exact ⟨r,run_returned hr⟩
  | caller u => exact ⟨r,getLooper_returned hr⟩

end Moves

def threadRank : ThreadPc → ℕ
  | .prepare => 5
  | .enter => 4
  | .assign => 3
  | .notify => 2
  | .leave => 1
  | _ => 0

def callerRank : CallerPc Looper → ℕ
  | .check => 7
  | .enter => 6
  | .reacquire => 6
  | .testAlive => 5
  | .testLooper => 4
  | .wait => 3
  | .leave => 2
  | .read => 1
  | .returned _ => 0

section Liveness
variable [Fintype T]

-- a notifyAll puts every caller back by at most three steps
def remaining (s : State T Looper) : ℕ :=
  (3 * Fintype.card T + 1) * threadRank s.thread + ∑ t, callerRank (s.callers t)

theorem remaining_le (s : State T Looper) : remaining s ≤ 22 * Fintype.card T + 5 := by
  have hthread : threadRank s.thread ≤ 5 := by
    cases s.thread <;> simp [threadRank]
  have hcaller : ∀ pc : CallerPc Looper, callerRank pc ≤ 7 := by
    intro pc
    cases pc <;> simp [callerRank]
  have hsum : ∑ t, callerRank (s.callers t) ≤ ∑ _t : T, 7 :=
    Finset.sum_le_sum fun t _ => hcaller (s.callers t)
  rw [Finset.sum_const,Finset.card_univ,Nat.nsmul_eq_mul] at hsum
  have hmul := Nat.mul_le_mul_left (3 * Fintype.card T + 1) hthread
  rw [remaining]
  omega

theorem notified_rank (callers : T → CallerPc Looper) :
    ∑ t, callerRank (callers t).notified ≤ ∑ t, callerRank (callers t) + 3 * Fintype.card T := by
  have hone : ∀ pc : CallerPc Looper, callerRank pc.notified ≤ callerRank pc + 3 := by
    intro pc
    cases pc <;> simp [CallerPc.notified,callerRank]
  calc ∑ t, callerRank (callers t).notified
      ≤ ∑ t, (callerRank (callers t) + 3) := Finset.sum_le_sum fun t _ => hone (callers t)
    _ = ∑ t, callerRank (callers t) + 3 * Fintype.card T := by
      rw [Finset.sum_add_distrib,Finset.sum_const,Finset.card_univ,Nat.nsmul_eq_mul,Nat.mul_comm]

variable {mine : Looper} {s : State T Looper}

theorem remaining_run : run mine s = s ∨ remaining (run mine s) < remaining s := by
  rw [Message.run]
  cases hpc : s.thread with
  | prepare => exact .inr (by simp [remaining,threadRank,hpc])
  | enter =>
    cases ho : s.owner with
    | none => exact .inr (by simp [remaining,threadRank,hpc])
    | some w => exact .inl rfl
  | assign => exact .inr (by simp [remaining,threadRank,hpc])
  | notify =>
    have hraise := notified_rank s.callers
    refine .inr ?_
    simp only [remaining,threadRank,hpc]
    omega
  | leave => exact .inr (by simp [remaining,threadRank,hpc])
  | _ => exact .inl rfl

variable [DecidableEq T]

theorem remaining_put {t : T} {pc : CallerPc Looper} (o : Option (Who T))
    (hlt : callerRank pc < callerRank (s.callers t)) : remaining (s.put t pc o) < remaining s := by
  have hsum : ∑ u, callerRank (Function.update s.callers t pc u) <
      ∑ u, callerRank (s.callers u) := by
    refine Finset.sum_lt_sum (fun u _ => ?_) ⟨t,Finset.mem_univ t,by simpa using hlt⟩
    by_cases hut : u = t
    · subst hut
      simpa using hlt.le
    · simp [hut]
  simp only [remaining,State.put]
  omega

theorem remaining_getLooper (t : T) :
    getLooper t s = s ∨ remaining (getLooper t s) < remaining s := by
  rw [Message.getLooper]
  cases hpc : s.callers t with
  | check =>
    refine .inr (remaining_put _ ?_)
    cases isAlive s.thread <;> simp [callerRank,hpc]
  | enter =>
    cases ho : s.owner with
    | none => exact .inr (remaining_put _ (by simp [callerRank,hpc]))
    | some w => exact .inl rfl
  | reacquire =>
    cases ho : s.owner with
    | none => exact .inr (remaining_put _ (by simp [callerRank,hpc]))
    | some w => exact .inl rfl
  | testAlive =>
    refine .inr (remaining_put _ ?_)
    cases isAlive s.thread <;> simp [callerRank,hpc]
  | testLooper =>
    cases hl : s.looper with
    | none => exact .inr (remaining_put _ (by simp [callerRank,hpc]))
    | some l => exact .inr (remaining_put _ (by simp [callerRank,hpc]))
  | leave => exact .inr (remaining_put _ (by simp [callerRank,hpc]))
  | read => exact .inr (remaining_put _ (by simp [callerRank,hpc]))
  | wait => exact .inl rfl
  | returned r => exact .inl rfl

theorem remaining_turn (w : Who T) :
    turn mine s w = s ∨ remaining (turn mine s w) < remaining s := by
  cases w with
  | thread => exact remaining_run
  | caller t => exact remaining_getLooper t

-- no wakeup is lost: with the MyThread started, every call in progress comes back
theorem getLooper_returns (mine : Looper) {all : List (Who T)} (hall : ∀ w, w ∈ all)
    (es : List (Event T)) (halive : isAlive (reached mine es).thread = true) {ws : List (Who T)}
    (hrounds : Rounds all (22 * Fintype.card T + 5) ws) (t : T) :
    ∃ r, (Machine.run (turn mine) (reached mine es) ws).callers t = .returned r ∧
      ((reached mine es).callers t = .check → r = some mine) := by
  have hsound := reached_sound mine es
  have hkeep : ∀ (s : State T Looper) (w : Who T), (Sound mine s ∧ isAlive s.thread = true) →
      Sound mine (turn mine s w) ∧ isAlive (turn mine s w).thread = true :=
    fun s w h => ⟨h.1.turn w,turn_alive h.2 w⟩
  have hall : AllReturned (Machine.run (turn mine) (reached mine es) ws) := by
    refine reaches_of_strict (G := AllReturned) (μ := remaining) hkeep
      (fun s w _ hs => turn_returned hs w) (fun s w _ => remaining_turn w) (fun s h hleft => ?_)
      ⟨hsound,halive⟩ hrounds (remaining_le _)
    obtain ⟨w,hw⟩ := moves_on h.1 h.2 hleft
    exact ⟨w,hall w,hw⟩
  obtain ⟨r,hr⟩ := hall t
  refine ⟨r,hr,fun hcheck => ?_⟩
  have hend := run_invariant (turn mine) hkeep ⟨hsound,halive⟩ ws
  have hpromise : Promised t (Machine.run (turn mine) (reached mine es) ws) :=
    run_invariant (I := Promised t) (turn mine) (fun _ w h => h.turn w)
      (promised_of_check hcheck halive) ws
  cases hpromise with
  | ended h => simp [h,isAlive] at hend
  | kept _ looper _ _ =>
    cases r with
    | none => exact absurd hr looper
    | some l => rw [hend.1.returned t l hr]

theorem getLooper_returns_started : ∃ r,
    (Machine.run (turn 7) (reached 7 [.start])
      (List.replicate 27 [Who.thread,.caller ()]).flatten).callers () = .returned r ∧
        r = some 7 := by
  have hall : ∀ w : Who Unit, w ∈ [Who.thread,.caller ()] := by
    rintro (_ | ⟨⟩) <;> simp
  obtain ⟨r,hr,hmine⟩ := getLooper_returns 7 hall [.start] (by decide)
    (rounds_replicate [Who.thread,.caller ()] 27) ()
  exact ⟨r,hr,hmine (by decide)⟩

end Liveness

end Message
