import AndroidProjects.Foundation.Machine

namespace Mutex
open Machine

-- code that changes a shared state step by step and looks at it between the steps
inductive Code (S : Type*) where
  | done
  | act (f : S → S) (next : S → Code S)

namespace Code
variable {S : Type*}

def exec : Code S → S → S
  | done, s => s
  | act f next, s => exec (next (f s)) (f s)

def acts : List (S → S) → Code S
  | [] => done
  | f :: fs => act f fun _ => acts fs

theorem exec_acts (fs : List (S → S)) (s : S) : (acts fs).exec s = run (fun s f => f s) s fs := by
  induction fs generalizing s with
  | nil => rfl
  | cons f fs ih => exact ih (f s)

end Code

variable {T C S : Type*}

structure Guarded (T C S : Type*) where
  shared : S
  holder : Option (T × Code S)
  -- the calls in the order in which they took the lock
  entered : List C

inductive Step (T C : Type*) where
  | lock (t : T) (c : C)
  | act (t : T)
  | unlock (t : T)

def start (s : S) : Guarded T C S := ⟨s,none,[]⟩

def Free (g : Guarded T C S) : Prop := g.holder = none

def settled (g : Guarded T C S) : S :=
  match g.holder with
  | none => g.shared
  | some (_,k) => k.exec g.shared

theorem settled_of_free {g : Guarded T C S} (h : Free g) : settled g = g.shared := by
  rw [settled,h]

section Serial
variable (body : C → Code S)

def whole (s : S) (c : C) : S := (body c).exec s

def Serial (s : S) (g : Guarded T C S) : Prop := settled g = run (whole body) s g.entered

theorem serial_start (s : S) : Serial body s (start s : Guarded T C S) := rfl

theorem shared_of_serial {s : S} {g : Guarded T C S} (h : Serial body s g) (hfree : Free g) :
    g.shared = run (whole body) s g.entered := (settled_of_free hfree).symm.trans h

variable [DecidableEq T]

def step (g : Guarded T C S) : Step T C → Guarded T C S
  | .lock t c =>
    match g.holder with
    | none => {g with holder := some (t,body c), entered := g.entered ++ [c]}
    | some _ => g
  | .act t =>
    match g.holder with
    | some (u,.act f next) =>
      if u = t then {g with shared := f g.shared, holder := some (u,next (f g.shared))} else g
    | _ => g
  | .unlock t =>
    match g.holder with
    | some (u,.done) => if u = t then {g with holder := none} else g
    | _ => g

theorem serial_step {s : S} {g : Guarded T C S} (h : Serial body s g) (l : Step T C) :
    Serial body s (step body g l) := by
  obtain ⟨shared,holder,entered⟩ := g
  cases l with
  | lock t c =>
    cases holder with
    | none =>
      change (body c).exec shared = run (whole body) s (entered ++ [c])
      rw [run_append,← h]
      rfl
    | some held => exact h
  | act t =>
    match holder with
    | none => exact h
    | some (u,.done) => exact h
    | some (u,.act f next) =>
      change Serial body s (if u = t then _ else _)
      split_ifs
      · exact h
      · exact h
  | unlock t =>
    match holder with
    | none => exact h
    | some (u,.act f next) => exact h
    | some (u,.done) =>
      change Serial body s (if u = t then _ else _)
      split_ifs
      · exact h
      · exact h

-- every interleaving of locked calls amounts to the calls one after another
theorem serial_run (s : S) (ls : List (Step T C)) :
    Serial body s (run (step body) (start s) ls) :=
  run_invariant (I := Serial body s) (step body) (fun _ l h => serial_step body h l)
    (serial_start body s) ls

theorem always_of_serial {P : S → List C → Prop} {s : S}
    (hP : ∀ cs, P (run (whole body) s cs) cs) (ls : List (Step T C)) :
    Always (step body) (fun g => Free g → P g.shared g.entered) (start s) ls := by
  have safe : ∀ g : Guarded T C S, Serial body s g → Free g → P g.shared g.entered := by
    intro g h hfree
    rw [shared_of_serial body h hfree]
    exact hP g.entered
  exact always_of_invariant safe (fun _ l h => serial_step body h l) (serial_start body s) ls

end Serial

end Mutex
