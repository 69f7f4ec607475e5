import Mathlib.Data.List.Perm.Basic
import Mathlib.Data.List.Range
import Mathlib.Logic.Function.Basic

namespace Leds

structure LedDesc where
  gpio : Int32
  name : List Char
  deriving DecidableEq, Repr

-- LED_OFF, LED_FULL and LED_CORE_SUSPENDRESUME of linux/leds.h
def ledOff : Int32 := 0
def ledFull : Int32 := 255
def ledCoreSuspendresume : Int32 := 0x10000

-- ENOMEM of asm-generic/errno-base.h
def enomem : Int32 := 12

structure LedClassdev4412 where
  maxBrightness : Int32
  flags : Int32
  name : List Char
  brightness : Int32
  gpio : Int32
  deriving DecidableEq, Repr

-- what is done with led_devs; a registration together with what it returned
inductive Event where
  | configure (i : ℕ)
  | register (i : ℕ) (ret : Int32)
  | unregister (i : ℕ)
  | kfree
  deriving DecidableEq, Repr

structure Driver where
  ledDevs : ℕ → Option LedClassdev4412
  pins : Int32 → Option Int32
  registered : List ℕ
  calls : ℕ
  log : List Event

def unloaded : Driver := ⟨fun _ => none,fun _ => none,[],0,[]⟩

def classdev (desc : LedDesc) : LedClassdev4412 :=
  ⟨ledFull,ledCoreSuspendresume,desc.name,ledOff,desc.gpio⟩

namespace Driver

def configure (table : List LedDesc) (i : ℕ) (d : Driver) : Driver :=
  match table[i]? with
  | none => d
  | some desc =>
    {d with
      pins := Function.update d.pins desc.gpio (some 1)
      ledDevs := Function.update d.ledDevs i (some (classdev desc))
      log := d.log ++ [.configure i]}

-- outcomes gives the value that each call of led_classdev_register returns
def ledClassdevRegister (outcomes : ℕ → Int32) (i : ℕ) (d : Driver) : Int32 × Driver :=
  let ret := outcomes d.calls
  (ret,{d with
    registered := if ret = 0 then d.registered ++ [i] else d.registered
    calls := d.calls + 1
    log := d.log ++ [.register i ret]})

def ledClassdevUnregister (i : ℕ) (d : Driver) : Driver :=
  {d with registered := d.registered.erase i, log := d.log ++ [.unregister i]}

def kfree (d : Driver) : Driver := {d with log := d.log ++ [.kfree]}

-- i--; while (i>=0) led_classdev_unregister, i--
def rollback : ℕ → Driver → Driver
  | 0, d => d
  | i+1, d => rollback i (ledClassdevUnregister i d)

end Driver

open Driver

section
variable (table : List LedDesc) (outcomes : ℕ → Int32)

-- after a failure the while loop leaves i = -1, which the i++ of the for makes 0
def iteration (i : ℕ) (d : Driver) : ℕ × Driver :=
  let (ret,d) := ledClassdevRegister outcomes i (configure table i d)
  if ret ≠ 0 then (0,kfree (rollback i d)) else (i+1,d)

def registerLoop : ℕ → ℕ → Driver → Option (Int32 × Driver)
  | 0, _, _ => none
  | fuel+1, i, d =>
    if i < table.length then
      registerLoop fuel (iteration table outcomes i d).1 (iteration table outcomes i d).2
    else some (0,d)

-- memory: whether kzalloc found any
def ledsInit (memory : Bool) (fuel : ℕ) : Option (Int32 × Driver) :=
  if memory then registerLoop table outcomes fuel 0 unloaded else some (-enomem,unloaded)

def ledsExit (d : Driver) : Driver :=
  kfree ((List.range table.length).foldl (fun d i => ledClassdevUnregister i d) d)

end

def Event.accesses : Event → Prop
  | .kfree => False
  | _ => True

def UsedAfterFree (log : List Event) : Prop :=
  ∃ us ws e, log = us ++ .kfree :: ws ∧ e ∈ ws ∧ e.accesses

def Failed (d : Driver) : Prop := ∃ i ret, .register i ret ∈ d.log ∧ ret ≠ 0

structure Loaded (table : List LedDesc) (ret : Int32) (d : Driver) : Prop where
  ret : ret = 0
  registered : d.registered.Perm (List.range table.length)

structure Undone (ret : Int32) (d : Driver) : Prop where
  ret : ret ≠ 0
  registered : d.registered = []
  unregistered : ∀ i, d.log.count (.unregister i) = d.log.count (.register i 0)
  freed : d.log.count .kfree = 1
  untouched : ¬ UsedAfterFree d.log

def LeavesNothingBehind (table : List LedDesc) (outcomes : ℕ → Int32) : Prop :=
  ∃ fuel ret d, ledsInit table outcomes true fuel = some (ret,d) ∧
    (¬ Failed d → Loaded table ret d) ∧ (Failed d → Undone ret d)

namespace Driver

theorem configure_log {table : List LedDesc} {i : ℕ} (hi : i < table.length) (d : Driver) :
    (configure table i d).log = d.log ++ [.configure i] := by
  rw [configure,List.getElem?_eq_getElem hi]

theorem configure_devs {table : List LedDesc} {i : ℕ} (hi : i < table.length) {d : Driver}
    (h : ∀ j < i, d.ledDevs j = table[j]?.map classdev) :
    ∀ j < i + 1, (configure table i d).ledDevs j = table[j]?.map classdev := by
  intro j hj
  rw [configure,List.getElem?_eq_getElem hi]
  change Function.update d.ledDevs i (some (classdev table[i])) j = _
  rcases Nat.lt_succ_iff_lt_or_eq.mp hj with hlt | rfl
  · rw [Function.update_of_ne hlt.ne]
    exact h j hlt
  · rw [Function.update_self,List.getElem?_eq_getElem hi]
    rfl

theorem configure_kept (table : List LedDesc) (i : ℕ) (d : Driver) :
    (configure table i d).registered = d.registered ∧ (configure table i d).calls = d.calls := by
  rw [configure]
  cases table[i]? with
  | none => exact ⟨rfl,rfl⟩
  | some desc => exact ⟨rfl,rfl⟩

theorem rollback_log (i : ℕ) (d : Driver) : d.log <+: (rollback i d).log := by
  induction i generalizing d with
  | zero => exact List.prefix_refl _
  | succ i ih =>
    have hstep : d.log <+: (ledClassdevUnregister i d).log := List.prefix_append _ _
    exact hstep.trans (ih _)

theorem rollback_calls (i : ℕ) (d : Driver) : (rollback i d).calls = d.calls := by
  induction i generalizing d with
  | zero => rfl
  | succ i ih => exact ih _

end Driver

theorem Failed.of_prefix {d d' : Driver} (h : Failed d) (hlog : d.log <+: d'.log) : Failed d' := by
  obtain ⟨i,ret,hmem,hret⟩ := h
  exact ⟨i,ret,hlog.subset hmem,hret⟩

theorem UsedAfterFree.of_prefix {us ws : List Event} (h : UsedAfterFree us) (hlog : us <+: ws) :
    UsedAfterFree ws := by
  obtain ⟨xs,ys,e,rfl,hmem,he⟩ := h
  obtain ⟨zs,rfl⟩ := hlog
  exact ⟨xs,ys ++ zs,e,by rw [List.append_assoc,List.cons_append],List.mem_append_left zs hmem,he⟩

section Loop
variable {table : List LedDesc} {outcomes : ℕ → Int32}

abbrev attempted (table : List LedDesc) (outcomes : ℕ → Int32) (i : ℕ) (d : Driver) : Driver :=
  (ledClassdevRegister outcomes i (configure table i d)).2

theorem attempted_log {i : ℕ} (hi : i < table.length) (d : Driver) :
    (attempted table outcomes i d).log =
      d.log ++ [.configure i,.register i (outcomes d.calls)] := by
  change (configure table i d).log ++ [.register i (outcomes (configure table i d).calls)] = _
  rw [configure_log hi,(configure_kept table i d).2,List.append_assoc]
  rfl

theorem iteration_success {i : ℕ} {d : Driver} (h : outcomes d.calls = 0) :
    iteration table outcomes i d = (i+1,attempted table outcomes i d) := by
  rw [← (configure_kept table i d).2] at h
  exact if_neg (not_not.mpr h)

theorem iteration_failure {i : ℕ} {d : Driver} (h : outcomes d.calls ≠ 0) :
    iteration table outcomes i d = (0,kfree (rollback i (attempted table outcomes i d))) := by
  rw [← (configure_kept table i d).2] at h
  exact if_pos h

theorem attempted_calls (i : ℕ) (d : Driver) :
    (attempted table outcomes i d).calls = d.calls + 1 :=
  congrArg (· + 1) (configure_kept table i d).2

theorem attempted_registered {i : ℕ} {d : Driver} (h : outcomes d.calls = 0) :
    (attempted table outcomes i d).registered = d.registered ++ [i] := by
  obtain ⟨hreg,hcalls⟩ := configure_kept table i d
  rw [← hcalls] at h
  change (if outcomes (configure table i d).calls = 0 then (configure table i d).registered ++ [i]
    else (configure table i d).registered) = _
  rw [if_pos h,hreg]

theorem iteration_calls (i : ℕ) (d : Driver) :
    (iteration table outcomes i d).2.calls = d.calls + 1 := by
  by_cases h : outcomes d.calls = 0
  · rw [iteration_success h,attempted_calls]
  · rw [iteration_failure h]
    exact (rollback_calls i _).trans (attempted_calls i d)

theorem iteration_log (i : ℕ) (d : Driver) :
    (attempted table outcomes i d).log <+: (iteration table outcomes i d).2.log := by
  by_cases h : outcomes d.calls = 0
  · refine ⟨[],?_⟩
    rw [iteration_success h,List.append_nil]
  · rw [iteration_failure h]
    exact (rollback_log i _).trans (List.prefix_append _ _)

theorem loop_next {fuel i : ℕ} {d : Driver} (hi : i < table.length) :
    registerLoop table outcomes (fuel+1) i d = registerLoop table outcomes fuel
      (iteration table outcomes i d).1 (iteration table outcomes i d).2 := if_pos hi

theorem loop_done {fuel i : ℕ} {d : Driver} (hi : table.length ≤ i) :
    registerLoop table outcomes (fuel+1) i d = some (0,d) := if_neg (Nat.not_lt.mpr hi)

theorem loop_log {fuel i : ℕ} {d d' : Driver} {ret : Int32}
    (h : registerLoop table outcomes fuel i d = some (ret,d')) : ret = 0 ∧ d.log <+: d'.log := by
  induction fuel generalizing i d with
  | zero => cases h
  | succ fuel ih =>
    by_cases hi : i < table.length
    · rw [loop_next hi] at h
      obtain ⟨hret,hlog⟩ := ih h
      have hgrow : d.log <+: (attempted table outcomes i d).log :=
        ⟨_,(attempted_log hi d).symm⟩
      exact ⟨hret,(hgrow.trans (iteration_log i d)).trans hlog⟩
    · rw [loop_done (Nat.not_lt.mp hi)] at h
      cases h
      exact ⟨rfl,List.prefix_refl _⟩

theorem loop_unfailed {fuel i : ℕ} {d d' : Driver} {ret : Int32}
    (h : registerLoop table outcomes fuel i d = some (ret,d')) (hclean : ¬ Failed d') :
    ∀ j < table.length - i, outcomes (d.calls + j) = 0 := by
  induction fuel generalizing i d with
  | zero => cases h
  | succ fuel ih =>
    intro j hj
    have hi : i < table.length := by omega
    rw [loop_next hi] at h
    have hzero : outcomes d.calls = 0 := by
      by_contra hne
      refine hclean (Failed.of_prefix ⟨i,outcomes d.calls,?_,hne⟩
        ((iteration_log i d).trans (loop_log h).2))
      rw [attempted_log hi]
      simp
    cases j with
    | zero => exact hzero
    | succ j =>
      rw [iteration_success hzero] at h
      have hrest := ih h j (by omega)
      rw [attempted_calls] at hrest
      rw [← hrest]
      congr 1
      omega

theorem Failed.of_attempted {i : ℕ} {d : Driver} (hi : i < table.length)
    (hnow : outcomes d.calls = 0) (h : Failed (attempted table outcomes i d)) : Failed d := by
  obtain ⟨i',ret,hmem,hret⟩ := h
  rw [attempted_log hi] at hmem
  rcases List.mem_append.mp hmem with hold | hnew
  · exact ⟨i',ret,hold,hret⟩
  · have hevent : Event.register i' ret = .register i (outcomes d.calls) := by
      simpa using hnew
    exact absurd ((Event.register.inj hevent).2.trans hnow) hret

theorem loop_succeeds {k i : ℕ} {d : Driver} (hk : i + k = table.length)
    (hzero : ∀ j < k, outcomes (d.calls + j) = 0) :
    ∃ d', registerLoop table outcomes (k+1) i d = some (0,d') ∧ (Failed d' → Failed d) ∧
      d'.registered = d.registered ++ List.range' i k ∧
      ((∀ j < i, d.ledDevs j = table[j]?.map classdev) →
        ∀ j < table.length, d'.ledDevs j = table[j]?.map classdev) := by
  induction k generalizing i d with
  | zero => exact ⟨d,loop_done hk.ge,id,(List.append_nil _).symm,hk ▸ id⟩
  | succ k ih =>
    have hi : i < table.length := by omega
    have hnow : outcomes d.calls = 0 := hzero 0 (Nat.zero_lt_succ k)
    have hlater : ∀ j < k, outcomes ((attempted table outcomes i d).calls + j) = 0 := by
      intro j hj
      rw [attempted_calls,Nat.add_assoc,Nat.add_comm 1]
      exact hzero (j+1) (Nat.succ_lt_succ hj)
    obtain ⟨d',hrun,hfailed,hreg,hdevs⟩ := ih (i := i+1) (by omega) hlater
    refine ⟨d',?_,fun h => Failed.of_attempted hi hnow (hfailed h),?_,?_⟩
    · rw [loop_next hi,iteration_success hnow]
      exact hrun
    · rw [hreg,attempted_registered hnow,List.append_assoc,List.range'_succ]
      rfl
    · exact fun h => hdevs (configure_devs hi h)

theorem zeros_of_clean (h : LeavesNothingBehind table outcomes) :
    ∀ k < table.length, outcomes k = 0 := by
  obtain ⟨fuel,ret,d,hrun,-,hundone⟩ := h
  have hclean : ¬ Failed d := fun hf => (hundone hf).ret (loop_log hrun).1
  intro k hk
  have hzero := loop_unfailed hrun hclean k hk
  rwa [show unloaded.calls + k = k from Nat.zero_add k] at hzero

theorem load_succeeds (hzero : ∀ k < table.length, outcomes k = 0) :
    ∃ d, ledsInit table outcomes true (table.length+1) = some (0,d) ∧ ¬ Failed d ∧
      Loaded table 0 d ∧ ∀ j < table.length, d.ledDevs j = table[j]?.map classdev := by
  have hcalls : ∀ j < table.length, outcomes (unloaded.calls + j) = 0 := by
    intro j hj
    rw [show unloaded.calls + j = j from Nat.zero_add j]
    exact hzero j hj
  obtain ⟨d,hrun,hfailed,hreg,hdevs⟩ := loop_succeeds (Nat.zero_add _) hcalls
  have hrange : d.registered = List.range table.length := by
    rw [hreg,List.range_eq_range']
    rfl
  refine ⟨d,hrun,fun hd => ?_,⟨rfl,hrange ▸ List.Perm.refl _⟩,hdevs ?_⟩
  · obtain ⟨i,ret,hmem,-⟩ := hfailed hd
    exact absurd hmem List.not_mem_nil
  · exact fun j hj => absurd hj (Nat.not_lt_zero j)

theorem leaves_nothing_iff (table : List LedDesc) (outcomes : ℕ → Int32) :
    LeavesNothingBehind table outcomes ↔ ∀ k < table.length, outcomes k = 0 := by
  refine ⟨zeros_of_clean,fun hzero => ?_⟩
  obtain ⟨d,hrun,hclean,hloaded,-⟩ := load_succeeds hzero
  exact ⟨_,0,d,hrun,fun _ => hloaded,fun hd => absurd hd hclean⟩

theorem failure_uses_freed {fuel i : ℕ} {d d' : Driver} {ret : Int32}
    (h : registerLoop table outcomes fuel i d = some (ret,d')) (hold : ¬ Failed d)
    (hfailed : Failed d') : UsedAfterFree d'.log := by
  induction fuel generalizing i d with
  | zero => cases h
  | succ fuel ih =>
    by_cases hi : i < table.length
    swap
    · rw [loop_done (Nat.not_lt.mp hi)] at h
      cases h
      exact absurd hfailed hold
    rw [loop_next hi] at h
    by_cases hnow : outcomes d.calls = 0
    · rw [iteration_success hnow] at h
      exact ih h (fun hf => hold (Failed.of_attempted hi hnow hf))
    · rw [iteration_failure hnow] at h
      have hfirst : 0 < table.length := Nat.zero_lt_of_lt hi
      cases fuel with
      | zero => cases h
      | succ fuel =>
        rw [loop_next hfirst] at h
        have hgrow := (iteration_log 0 _).trans (loop_log h).2
        rw [attempted_log hfirst] at hgrow
        refine UsedAfterFree.of_prefix ?_ hgrow
        exact ⟨_,_,.configure 0,List.append_assoc _ _ _,List.mem_cons_self,trivial⟩

theorem window_of_return {fuel i : ℕ} {d : Driver} {r : Int32 × Driver}
    (h : registerLoop table outcomes fuel i d = some r) (hi : i ≤ table.length)
    (hcalls : i ≤ d.calls) (hpast : ∀ j < i, outcomes (d.calls - i + j) = 0) :
    ∃ m, ∀ j < table.length, outcomes (m + j) = 0 := by
  induction fuel generalizing i d with
  | zero => cases h
  | succ fuel ih =>
    rcases Nat.lt_or_eq_of_le hi with hlt | rfl
    swap
    · exact ⟨d.calls - table.length,hpast⟩
    rw [loop_next hlt] at h
    by_cases hnow : outcomes d.calls = 0
    · rw [iteration_success hnow] at h
      refine ih h hlt ?_ fun j hj => ?_
      · rw [attempted_calls]
        exact Nat.succ_le_succ hcalls
      · rw [attempted_calls,Nat.add_sub_add_right]
        rcases Nat.lt_succ_iff_lt_or_eq.mp hj with hj' | rfl
        · exact hpast j hj'
        · rw [Nat.sub_add_cancel hcalls]
          exact hnow
    · rw [iteration_failure hnow] at h
      exact ih h (Nat.zero_le _) (Nat.zero_le _) (fun j hj => absurd hj (Nat.not_lt_zero j))

theorem return_of_window {k m i : ℕ} {d : Driver} (hm : d.calls + k = m) (hi : i ≤ table.length)
    (h : ∀ j < table.length, outcomes (m + j) = 0) :
    ∃ fuel r, registerLoop table outcomes fuel i d = some r := by
  induction k generalizing i d with
  | zero =>
    obtain ⟨d',hrun,-⟩ := loop_succeeds (d := d) (Nat.add_sub_cancel' hi) (fun j hj => by
      rw [show d.calls = m from hm]
      exact h j (by omega))
    exact ⟨_,_,hrun⟩
  | succ k ih =>
    rcases Nat.lt_or_eq_of_le hi with hlt | heq
    · have hcalls : (iteration table outcomes i d).2.calls + k = m := by
        rw [iteration_calls]
        omega
      have hnext : (iteration table outcomes i d).1 ≤ table.length := by
        by_cases hnow : outcomes d.calls = 0
        · rw [iteration_success hnow]
          exact hlt
        · rw [iteration_failure hnow]
          exact Nat.zero_le _
      obtain ⟨fuel,r,hrun⟩ := ih hcalls hnext
      exact ⟨fuel+1,r,(loop_next hlt).trans hrun⟩
    · exact ⟨1,_,loop_done heq.ge⟩

theorem init_returns_iff :
    (∃ fuel r, ledsInit table outcomes true fuel = some r) ↔
      ∃ m, ∀ j < table.length, outcomes (m + j) = 0 := by
  constructor
  · rintro ⟨fuel,r,hrun⟩
    exact window_of_return hrun (Nat.zero_le _) (Nat.zero_le _)
      (fun j hj => absurd hj (Nat.not_lt_zero j))
  · rintro ⟨m,h⟩
    exact return_of_window (Nat.zero_add m) (Nat.zero_le _) h

end Loop

theorem unregistered_all (is : List ℕ) {d : Driver} (h : d.registered.Perm is) :
    (is.foldl (fun d i => ledClassdevUnregister i d) d).registered = [] := by
  induction is generalizing d with
  | nil => exact h.eq_nil
  | cons i is ih =>
    have hrest := h.erase i
    rw [List.erase_cons_head] at hrest
    exact ih hrest

theorem exit_after_load {table : List LedDesc} {ret : Int32} {d : Driver} (h : Loaded table ret d) :
    (ledsExit table d).registered = [] := unregistered_all _ h.registered

-- the table of the source, whatever numbers EXYNOS4212_GPM4 gives its pins
def ledGpios (gpm4 : ℕ → Int32) : List LedDesc :=
  [⟨gpm4 0,['l','e','d','1']⟩,⟨gpm4 1,['l','e','d','2']⟩,⟨gpm4 2,['l','e','d','3']⟩,
    ⟨gpm4 3,['l','e','d','4']⟩]

-- the second registration answers -EBUSY
def busyOnce : ℕ → Int32 := fun k => if k = 1 then -16 else 0

theorem busy_led_uses_freed :
    ¬ ∀ (table : List LedDesc) (outcomes : ℕ → Int32), LeavesNothingBehind table outcomes := by
  intro hall
  have hzero := zeros_of_clean (hall (ledGpios fun _ => 0) busyOnce) 1 (by decide)
  exact absurd hzero (by decide)

end Leds
