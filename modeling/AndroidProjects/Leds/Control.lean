import AndroidProjects.Foundation.Machine
import Mathlib.Logic.Function.Basic
import Mathlib.Order.Fin.Basic

namespace Leds.Control
open Machine

structure Lines where
  output : Int32 → Bool
  level : Int32 → UInt32

-- led_gpios, and the memory behind its four entries
structure LedGpios where
  gpio : ℕ → Int32
  distinct : ∀ i < 4, ∀ j < 4, gpio i = gpio j → i = j

-- EINVAL of asm-generic/errno-base.h
def einval : Int32 := 22

structure FileOperations where
  opening : Option (Lines → Int32 × Lines)
  unlockedIoctl : Option (UInt32 → UInt32 → Lines → Int32 × Lines)

section
variable (g : LedGpios)

def ledsOpen (l : Lines) : Int32 × Lines :=
  (0,(List.range 4).foldl
    (fun l i => {l with output := Function.update l.output (g.gpio i) true}) l)

def ledsIoctl (cmd arg : UInt32) (l : Lines) : Int32 × Lines :=
  if cmd ≠ 0 ∧ cmd ≠ 1 then (-einval,l)
  else if arg < 0 ∧ arg > 3 then (-einval,l)
  else (0,{l with level := Function.update l.level (g.gpio (arg &&& 0x0f).toNat) cmd})

def ledsOps : FileOperations := ⟨some (ledsOpen g),none⟩

end

structure Native where
  fd : Int32
  lines : Lines

-- what becomes of one invoke: it throws before or after the service has served it
inductive Invoked where
  | returned
  | lost
  | served
  deriving DecidableEq, Repr

structure App where
  proxy : Bool
  running : Bool
  ledon : Bool
  boxes : Fin 4 → Bool
  native : Native
  -- the newest first
  requests : List (Fin 4 × Int32)
  replies : List Int32

inductive Event where
  | button (outs : Fin 4 → Invoked)
  | box (i : Fin 4) (out : Invoked)

def onOff (checked : Bool) : Int32 := if checked then 1 else 0

section
variable (ops : FileOperations)

-- found is what open gives for /dev/leds
def ledopen (found : Int32) (l : Lines) : Int32 × Native :=
  if found < 0 then (-1,⟨found,l⟩)
  else
    match ops.opening with
    | none => (0,⟨found,l⟩)
    | some f => if (f l).1 < 0 then (-1,⟨(f l).1,(f l).2⟩) else (0,⟨found,(f l).2⟩)

-- a bad descriptor is EBADF, a driver without the handler ENOTTY
def ioctl (fd : Int32) (cmd arg : UInt32) (l : Lines) : Int32 × Lines :=
  if fd < 0 then (-1,l)
  else
    match ops.unlockedIoctl with
    | none => (-1,l)
    | some f => (if (f cmd arg l).1 < 0 then -1 else (f cmd arg l).1,(f cmd arg l).2)

def ledctrl (which status : Int32) (n : Native) : Int32 × Native :=
  let ret := ioctl ops n.fd status.toUInt32 which.toUInt32 n.lines
  (0,{n with lines := ret.2})

-- ledCtrl.invoke(proxy,i,status); without the proxy its exception ends the app
def invoke (i : Fin 4) (status : Int32) (out : Invoked) (s : App) : App :=
  if s.proxy = false then {s with running := false}
  else if out = .lost then s
  else
    let reply := ledctrl ops (Int32.ofNat i) status s.native
    {s with
      native := reply.2
      requests := (i,status) :: s.requests
      replies := reply.1 :: s.replies}

def invokeAll (status : Int32) (outs : Fin 4 → Invoked) : List (Fin 4) → App → App
  | [], s => s
  | i :: is, s =>
    if s.proxy = true ∧ outs i = .returned then
      invokeAll status outs is (invoke ops i status (outs i) s)
    else invoke ops i status (outs i) s

def onClick (outs : Fin 4 → Invoked) (s : App) : App :=
  let ledon := !s.ledon
  invokeAll ops (onOff ledon) outs [0,1,2,3] {s with ledon := ledon, boxes := fun _ => ledon}

-- the view has changed its check mark before
def onCheckboxClicked (i : Fin 4) (out : Invoked) (s : App) : App :=
  let boxes := Function.update s.boxes i (!s.boxes i)
  invoke ops i (onOff (boxes i)) out {s with boxes := boxes}

def step (s : App) (e : Event) : App :=
  if s.running = false then s
  else
    match e with
    | .button outs => onClick ops outs s
    | .box i out => onCheckboxClicked ops i out s

def created (proxy : Bool) (found : Int32) (boxes : Fin 4 → Bool) (l : Lines) : App :=
  ⟨proxy,true,false,boxes,(ledopen ops found l).2,[],[]⟩

end

namespace Event

def touches (i : Fin 4) : Event → Prop
  | button _ => True
  | box j _ => j = i

def reaches (i : Fin 4) : Event → Prop
  | button outs => outs i ≠ .lost ∧ ∀ j < i, outs j = .returned
  | box j out => j = i ∧ out ≠ .lost

instance (i : Fin 4) (e : Event) : Decidable (e.reaches i) := by
  cases e <;> exact inferInstanceAs (Decidable (_ ∧ _))

theorem touches_of_reaches {i : Fin 4} {e : Event} (h : e.reaches i) : e.touches i := by
  cases e with
  | button outs => trivial
  | box j out => exact h.1

end Event

def lastRequest (requests : List (Fin 4 × Int32)) (i : Fin 4) : Option Int32 :=
  (requests.find? fun r => r.1 = i).map Prod.snd

def asked (s : App) (i : Fin 4) : Option Int32 := lastRequest s.requests i

def Served (outs : Fin 4 → Invoked) (is : List (Fin 4)) (i : Fin 4) : Prop :=
  i ∈ is ∧ outs i ≠ .lost ∧ ∀ j ∈ is, j < i → outs j = .returned

instance (outs : Fin 4 → Invoked) (is : List (Fin 4)) (i : Fin 4) : Decidable (Served outs is i) :=
  inferInstanceAs (Decidable (_ ∧ _))

theorem served_cons {outs : Fin 4 → Invoked} {k i : Fin 4} {is : List (Fin 4)}
    (hsorted : (k :: is).Pairwise (· < ·)) : Served outs (k :: is) i ↔
      k = i ∧ outs i ≠ .lost ∨ outs k = .returned ∧ Served outs is i := by
  obtain ⟨hbelow,-⟩ := List.pairwise_cons.mp hsorted
  constructor
  · rintro ⟨hi,hlost,hall⟩
    rcases List.mem_cons.mp hi with rfl | hi
    · exact .inl ⟨rfl,hlost⟩
    · refine .inr ⟨hall k List.mem_cons_self (hbelow i hi),hi,hlost,fun j hj => ?_⟩
      exact hall j (List.mem_cons_of_mem k hj)
  · rintro (⟨rfl,hlost⟩ | ⟨hreturned,hi,hlost,hall⟩)
    · refine ⟨List.mem_cons_self,hlost,fun j hj hlt => ?_⟩
      rcases List.mem_cons.mp hj with rfl | hj
      · exact absurd hlt (lt_irrefl j)
      · exact absurd (hbelow j hj) (not_lt.mpr hlt.le)
    · refine ⟨List.mem_cons_of_mem k hi,hlost,fun j hj hlt => ?_⟩
      rcases List.mem_cons.mp hj with rfl | hj
      · exact hreturned
      · exact hall j hj hlt

section
variable (ops : FileOperations) {s : App} (hproxy : s.proxy = true)
include hproxy

theorem invoke_asked (i j : Fin 4) (status : Int32) (out : Invoked) :
    asked (invoke ops j status out s) i =
      if j = i ∧ out ≠ .lost then some status else asked s i := by
  have hfound : ¬ s.proxy = false := by simp [hproxy]
  by_cases hlost : out = .lost
  · simp [invoke,hfound,hlost]
  · by_cases hji : j = i
    · simp [invoke,hfound,hlost,hji,asked,lastRequest]
    · simp [invoke,hfound,hlost,hji,asked,lastRequest]

theorem invoke_same (j : Fin 4) (status : Int32) (out : Invoked) :
    (invoke ops j status out s).boxes = s.boxes ∧ (invoke ops j status out s).proxy = s.proxy ∧
      (invoke ops j status out s).running = s.running := by
  have hfound : ¬ s.proxy = false := by simp [hproxy]
  by_cases hlost : out = .lost
  · simp [invoke,hfound,hlost]
  · simp [invoke,hfound,hlost]

theorem invokeAll_same (status : Int32) (outs : Fin 4 → Invoked) (is : List (Fin 4)) :
    (invokeAll ops status outs is s).boxes = s.boxes ∧
      (invokeAll ops status outs is s).proxy = s.proxy ∧
      (invokeAll ops status outs is s).running = s.running := by
  induction is generalizing s with
  | nil => exact ⟨rfl,rfl,rfl⟩
  | cons j is ih =>
    obtain ⟨hboxes,hkept,hrunning⟩ := invoke_same ops hproxy j status (outs j)
    rw [invokeAll]
    by_cases hreturned : s.proxy = true ∧ outs j = .returned
    · obtain ⟨hb,hp,hr⟩ := ih (hkept.trans hproxy)
      rw [if_pos hreturned]
      exact ⟨hb.trans hboxes,hp.trans hkept,hr.trans hrunning⟩
    · rw [if_neg hreturned]
      exact ⟨hboxes,hkept,hrunning⟩

theorem invokeAll_asked (i : Fin 4) (status : Int32) (outs : Fin 4 → Invoked) {is : List (Fin 4)}
    (hsorted : is.Pairwise (· < ·)) : asked (invokeAll ops status outs is s) i =
      if Served outs is i then some status else asked s i := by
  induction is generalizing s with
  | nil => simp [invokeAll,Served]
  | cons k is ih =>
    have hrest := (List.pairwise_cons.mp hsorted).2
    have hfirst := invoke_asked ops hproxy i k status (outs k)
    obtain ⟨-,hkept,-⟩ := invoke_same ops hproxy k status (outs k)
    rw [invokeAll]
    by_cases hreturned : outs k = .returned
    · have hnext := ih (hkept.trans hproxy) hrest
      rw [if_pos ⟨hproxy,hreturned⟩,hnext,hfirst]
      by_cases hlater : Served outs is i
      · simp [served_cons hsorted,hlater,hreturned]
      · by_cases hki : k = i
        · subst hki
          simp [served_cons hsorted,hlater,hreturned]
        · simp [served_cons hsorted,hlater,hki]
    · rw [if_neg fun h => hreturned h.2,hfirst]
      by_cases hki : k = i
      · subst hki
        simp [served_cons hsorted,hreturned]
      · simp [served_cons hsorted,hreturned,hki]

variable (hrunning : s.running = true)
include hrunning

theorem step_same (e : Event) :
    (step ops s e).proxy = true ∧ (step ops s e).running = true := by
  have hup : ¬ s.running = false := by simp [hrunning]
  cases e with
  | button outs =>
    rw [step,if_neg hup]
    obtain ⟨-,hkept,hrun⟩ := invokeAll_same ops
      (s := {s with ledon := !s.ledon, boxes := fun _ => !s.ledon}) hproxy (onOff !s.ledon) outs
      [0,1,2,3]
    exact ⟨hkept.trans hproxy,hrun.trans hrunning⟩
  | box j out =>
    rw [step,if_neg hup]
    obtain ⟨-,hkept,hrun⟩ := invoke_same ops
      (s := {s with boxes := Function.update s.boxes j (!s.boxes j)}) hproxy j
      (onOff (Function.update s.boxes j (!s.boxes j) j)) out
    exact ⟨hkept.trans hproxy,hrun.trans hrunning⟩

theorem step_asked (e : Event) (i : Fin 4) : asked (step ops s e) i =
    if e.reaches i then some (onOff ((step ops s e).boxes i)) else asked s i := by
  have hup : ¬ s.running = false := by simp [hrunning]
  cases e with
  | button outs =>
    rw [step,if_neg hup]
    have hsorted : ([0,1,2,3] : List (Fin 4)).Pairwise (· < ·) := by decide
    have hall : ∀ j : Fin 4, j ∈ ([0,1,2,3] : List (Fin 4)) := by decide
    have hreaches : Served outs [0,1,2,3] i ↔ (Event.button outs).reaches i := by
      simp only [Served,Event.reaches,hall,true_and,forall_const]
    have hasked := invokeAll_asked ops
      (s := {s with ledon := !s.ledon, boxes := fun _ => !s.ledon}) hproxy i (onOff !s.ledon) outs
      hsorted
    obtain ⟨hboxes,-,-⟩ := invokeAll_same ops
      (s := {s with ledon := !s.ledon, boxes := fun _ => !s.ledon}) hproxy (onOff !s.ledon) outs
      [0,1,2,3]
    simp only [hreaches] at hasked
    simp only [onClick,hboxes]
    exact hasked
  | box j out =>
    rw [step,if_neg hup]
    have hasked := invoke_asked ops
      (s := {s with boxes := Function.update s.boxes j (!s.boxes j)}) hproxy i j
      (onOff (Function.update s.boxes j (!s.boxes j) j)) out
    obtain ⟨hboxes,-,-⟩ := invoke_same ops
      (s := {s with boxes := Function.update s.boxes j (!s.boxes j)}) hproxy j
      (onOff (Function.update s.boxes j (!s.boxes j) j)) out
    simp only [onCheckboxClicked,hboxes]
    rw [hasked]
    by_cases hji : j = i
    · subst hji
      simp only [Event.reaches]
      rfl
    · simp only [Event.reaches,hji,false_and,if_false]
      rfl

theorem step_boxes {e : Event} {i : Fin 4} (h : ¬ e.touches i) :
    (step ops s e).boxes i = s.boxes i := by
  have hup : ¬ s.running = false := by simp [hrunning]
  cases e with
  | button outs => exact absurd trivial h
  | box j out =>
    have hne : i ≠ j := fun hij => h hij.symm
    obtain ⟨hboxes,-,-⟩ := invoke_same ops
      (s := {s with boxes := Function.update s.boxes j (!s.boxes j)}) hproxy j
      (onOff (Function.update s.boxes j (!s.boxes j) j)) out
    rw [step,if_neg hup]
    simp only [onCheckboxClicked,hboxes]
    exact Function.update_of_ne hne _ _

theorem run_same (es : List Event) :
    (run (step ops) s es).proxy = true ∧ (run (step ops) s es).running = true :=
  run_invariant (step ops) (I := fun s => s.proxy = true ∧ s.running = true)
    (fun _ e h => step_same ops h.1 h.2 e) ⟨hproxy,hrunning⟩ es

theorem untouched_run {i : Fin 4} {vs : List Event} (h : ∀ v ∈ vs, ¬ v.touches i) :
    asked (run (step ops) s vs) i = asked s i ∧ (run (step ops) s vs).boxes i = s.boxes i := by
  induction vs generalizing s with
  | nil => exact ⟨rfl,rfl⟩
  | cons v vs ih =>
    have hv := h v List.mem_cons_self
    obtain ⟨hkept,hrun⟩ := step_same ops hproxy hrunning v
    obtain ⟨hasked,hboxes⟩ := ih hkept hrun fun w hw => h w (List.mem_cons_of_mem v hw)
    have hnone := step_asked ops hproxy hrunning v i
    rw [if_neg fun hreaches => hv (Event.touches_of_reaches hreaches)] at hnone
    exact ⟨hasked.trans hnone,hboxes.trans (step_boxes ops hproxy hrunning hv)⟩

theorem last_asked (us vs : List Event) {e : Event} {i : Fin 4} (h : ∀ v ∈ vs, ¬ v.touches i) :
    asked (run (step ops) s (us ++ e :: vs)) i =
      if e.reaches i then some (onOff ((run (step ops) s (us ++ e :: vs)).boxes i))
      else asked (run (step ops) s us) i := by
  obtain ⟨hkept,hrun⟩ := run_same ops hproxy hrunning us
  obtain ⟨hkept',hrun'⟩ := step_same ops hkept hrun e
  obtain ⟨hasked,hboxes⟩ := untouched_run ops hkept' hrun' h
  rw [run_append,run_cons,hasked,hboxes,step_asked ops hkept hrun]

end

section
variable (ops : FileOperations) {J : Native → List (Fin 4 × Int32) → List Int32 → Prop}
  (keep : ∀ (i : Fin 4) (checked : Bool) (n : Native) requests replies, J n requests replies →
    J (ledctrl ops (Int32.ofNat i) (onOff checked) n).2 ((i,onOff checked) :: requests)
      ((ledctrl ops (Int32.ofNat i) (onOff checked) n).1 :: replies))
include keep

theorem invoke_keeps (i : Fin 4) (checked : Bool) (out : Invoked) {s : App}
    (h : J s.native s.requests s.replies) :
    let t := invoke ops i (onOff checked) out s
    J t.native t.requests t.replies := by
  intro t
  by_cases hproxy : s.proxy = false
  · simpa only [t,invoke,if_pos hproxy] using h
  · by_cases hlost : out = .lost
    · simpa only [t,invoke,if_neg hproxy,if_pos hlost] using h
    · simpa only [t,invoke,if_neg hproxy,if_neg hlost] using keep i checked _ _ _ h

theorem invokeAll_keeps (checked : Bool) (outs : Fin 4 → Invoked) (is : List (Fin 4)) {s : App}
    (h : J s.native s.requests s.replies) :
    let t := invokeAll ops (onOff checked) outs is s
    J t.native t.requests t.replies := by
  induction is generalizing s with
  | nil => exact h
  | cons i is ih =>
    have hnext := invoke_keeps ops keep i checked (outs i) h
    by_cases hreturned : s.proxy = true ∧ outs i = .returned
    · simpa only [invokeAll,if_pos hreturned] using ih hnext
    · simpa only [invokeAll,if_neg hreturned] using hnext

theorem run_keeps {s : App} (h : J s.native s.requests s.replies) (es : List Event) :
    let t := run (step ops) s es
    J t.native t.requests t.replies := by
  refine run_invariant (step ops) (I := fun s => J s.native s.requests s.replies) ?_ h es
  intro s e hs
  cases e with
  | button outs =>
    rw [step]
    by_cases hdead : s.running = false
    · rw [if_pos hdead]
      exact hs
    · rw [if_neg hdead]
      exact invokeAll_keeps ops keep (!s.ledon) outs [0,1,2,3]
        (s := {s with ledon := !s.ledon, boxes := fun _ => !s.ledon}) hs
  | box j out =>
    rw [step]
    by_cases hdead : s.running = false
    · rw [if_pos hdead]
      exact hs
    · rw [if_neg hdead]
      exact invoke_keeps ops keep j (Function.update s.boxes j (!s.boxes j) j) out
        (s := {s with boxes := Function.update s.boxes j (!s.boxes j)}) hs

end

theorem ledctrl_unhandled {ops : FileOperations} (h : ops.unlockedIoctl = none)
    (which status : Int32) (n : Native) : ledctrl ops which status n = (0,n) := by
  have hignored : ioctl ops n.fd status.toUInt32 which.toUInt32 n.lines = (-1,n.lines) := by
    by_cases hfd : n.fd < 0
    · rw [ioctl,if_pos hfd]
    · rw [ioctl,if_neg hfd,h]
  rw [ledctrl,hignored]

theorem control_idle (g : LedGpios) (found : Int32) (boxes : Fin 4 → Bool) (l : Lines)
    (us vs : List Event) {e : Event} {i : Fin 4} (h : ∀ v ∈ vs, ¬ v.touches i) :
    let app := run (step (ledsOps g)) (created (ledsOps g) true found boxes l)
    asked (app (us ++ e :: vs)) i =
        (if e.reaches i then some (onOff ((app (us ++ e :: vs)).boxes i)) else asked (app us) i) ∧
      (app (us ++ e :: vs)).native.lines.level = l.level ∧
      (app (us ++ e :: vs)).replies = (app (us ++ e :: vs)).requests.map fun _ => 0 := by
  intro app
  refine ⟨last_asked (ledsOps g) rfl rfl us vs h,?_⟩
  have hstart : (ledopen (ledsOps g) found l).2.lines.level = l.level := by
    by_cases hfound : found < 0
    · rw [ledopen,if_pos hfound]
    · rw [ledopen,if_neg hfound]
      rfl
  refine run_keeps (ledsOps g) (J := fun n requests replies => n.lines.level = l.level ∧
    replies = requests.map fun _ => 0) ?_ ⟨hstart,rfl⟩ (us ++ e :: vs)
  rintro i checked n requests replies ⟨hlevel,hreplies⟩
  rw [ledctrl_unhandled rfl,hreplies]
  exact ⟨hlevel,rfl⟩

def plainGpios : LedGpios := ⟨Int32.ofNat,by decide⟩

def dark : Lines := ⟨fun _ => false,fun _ => 0⟩

def cutShort : Event := .button fun i => if i = 2 then .lost else .returned

theorem control_idle_cut : asked (run (step (ledsOps plainGpios))
    (created (ledsOps plainGpios) true 3 (fun _ => false) dark) [cutShort,.box 2 .returned]) 2 =
      some 0 :=
  (control_idle plainGpios 3 (fun _ => false) dark [cutShort] [] (e := .box 2 .returned) (i := 2)
    (by simp)).1.trans (by decide)

-- leds_ops with the handler that leds_ioctl is written to be
def handledOps (g : LedGpios) : FileOperations := ⟨some (ledsOpen g),some (ledsIoctl g)⟩

structure Shown (g : LedGpios) (l : Lines) (n : Native) (requests : List (Fin 4 × Int32)) :
    Prop where
  fd : ¬ n.fd < 0
  leds : ∀ i : Fin 4, n.lines.level (g.gpio i) =
    ((lastRequest requests i).map Int32.toUInt32).getD (l.level (g.gpio i))
  others : ∀ line, (∀ i < 4, line ≠ g.gpio i) → n.lines.level line = l.level line

theorem ledsIoctl_request (g : LedGpios) (i : Fin 4) (checked : Bool) (l : Lines) :
    ledsIoctl g (onOff checked).toUInt32 (Int32.ofNat i).toUInt32 l =
      (0,{l with level := Function.update l.level (g.gpio i) (onOff checked).toUInt32}) := by
  have hcmd : ¬ ((onOff checked).toUInt32 ≠ 0 ∧ (onOff checked).toUInt32 ≠ 1) := by
    cases checked <;> decide
  have harg : ¬ ((Int32.ofNat i).toUInt32 < 0 ∧ (Int32.ofNat i).toUInt32 > 3) := by
    revert i
    decide
  have hindex : ((Int32.ofNat i).toUInt32 &&& 0x0f).toNat = i := by
    revert i
    decide
  rw [ledsIoctl,if_neg hcmd,if_neg harg,hindex]

theorem shown_request {g : LedGpios} {l : Lines} {n : Native} {requests : List (Fin 4 × Int32)}
    (h : Shown g l n requests) (i : Fin 4) (checked : Bool) :
    Shown g l (ledctrl (handledOps g) (Int32.ofNat i) (onOff checked) n).2
      ((i,onOff checked) :: requests) := by
  have hset : (ioctl (handledOps g) n.fd (onOff checked).toUInt32 (Int32.ofNat i).toUInt32
      n.lines).2 =
        {n.lines with
          level := Function.update n.lines.level (g.gpio i) (onOff checked).toUInt32} := by
    rw [ioctl,if_neg h.fd]
    simp only [handledOps,ledsIoctl_request]
  rw [ledctrl]
  simp only [hset]
  refine ⟨h.fd,fun j => ?_,fun line hline => ?_⟩
  · by_cases hji : i = j
    · subst hji
      simp [lastRequest]
    · have hgpio : g.gpio j ≠ g.gpio i := by
        intro hsame
        exact hji (Fin.ext (g.distinct j j.isLt i i.isLt hsame).symm)
      have hlevel : Function.update n.lines.level (g.gpio i) (onOff checked).toUInt32 (g.gpio j) =
          n.lines.level (g.gpio j) := Function.update_of_ne hgpio _ _
      have hlast : lastRequest ((i,onOff checked) :: requests) j = lastRequest requests j := by
        simp [lastRequest,hji]
      rw [hlast]
      exact hlevel.trans (h.leds j)
  · have hlevel : Function.update n.lines.level (g.gpio i) (onOff checked).toUInt32 line =
        n.lines.level line := Function.update_of_ne (hline i i.isLt) _ _
    exact hlevel.trans (h.others line hline)

theorem control_shown (g : LedGpios) (proxy : Bool) {found : Int32} (hfound : ¬ found < 0)
    (boxes : Fin 4 → Bool) (l : Lines) (es : List Event) :
    let app := run (step (handledOps g)) (created (handledOps g) proxy found boxes l) es
    Shown g l app.native app.requests := by
  have hstart : Shown g l (ledopen (handledOps g) found l).2 [] := by
    have hopen : (ledopen (handledOps g) found l).2 = ⟨found,(ledsOpen g l).2⟩ := by
      rw [ledopen,if_neg hfound]
      rfl
    rw [hopen]
    exact ⟨hfound,fun i => rfl,fun line _ => rfl⟩
  exact run_keeps (handledOps g) (J := fun n requests _ => Shown g l n requests)
    (fun i checked _ _ _ h => shown_request h i checked) hstart es

theorem control_shown_cut : Shown plainGpios dark
    (run (step (handledOps plainGpios))
      (created (handledOps plainGpios) true 3 (fun _ => false) dark)
      [cutShort]).native [(1,1),(0,1)] :=
  control_shown plainGpios true (by decide) (fun _ => false) dark [cutShort]

end Leds.Control
