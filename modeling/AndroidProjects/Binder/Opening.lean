import AndroidProjects.Binder.Parse
import AndroidProjects.Foundation.Ledger
import AndroidProjects.Foundation.Machine

namespace Binder
open Ledger Machine

namespace Opening

structure Answers where
  block : Option ℕ
  fd : Int
  version : Option Int32
  mapped : Option ℕ
  deriving DecidableEq, Repr

structure Resources where
  blocks : Book ℕ
  fds : Book Int
  maps : Book (ℕ × ℕ)

abbrev Pointer := ℕ × BinderState

def binderCurrentProtocolVersion (A : Abi) : Int32 :=
  match A.binderSizeT with
  | .four => 7
  | .eight => 8

section
variable (A : Abi)

def binderOpen (os : Answers) (mapsize : ℕ) (r : Resources) : Option Pointer × Resources :=
  match os.block with
  | none => (none,r)
  | some bs =>
    let r := {r with blocks := r.blocks.take bs}
    if os.fd < 0 then (none,{r with blocks := r.blocks.release bs})
    else
      let r := {r with fds := r.fds.take os.fd}
      -- fail_open does not close the descriptor
      if os.version ≠ some (binderCurrentProtocolVersion A) then
        (none,{r with blocks := r.blocks.release bs})
      else
        match os.mapped with
        | none => (none,{r with fds := r.fds.release os.fd, blocks := r.blocks.release bs})
        | some mapped =>
          (some (bs,⟨os.fd,mapped,mapsize⟩),{r with maps := r.maps.take (mapped,mapsize)})

def binderClose (bs : Pointer) (r : Resources) : Resources where
  blocks := r.blocks.release bs.1
  fds := r.fds.release bs.2.fd
  maps := r.maps.release (bs.2.mapped,bs.2.mapsize)

structure State where
  opened : List Pointer
  resources : Resources

inductive Event where
  | opens (os : Answers) (mapsize : ℕ)
  | closes (i : ℕ)
  deriving DecidableEq, Repr

def start : State := ⟨[],⟨empty,empty,empty⟩⟩

def step (s : State) : Event → State
  | .opens os mapsize =>
    match binderOpen A os mapsize s.resources with
    | (some bs,r) => ⟨bs :: s.opened,r⟩
    | (none,r) => ⟨s.opened,r⟩
  | .closes i =>
    match s.opened[i]? with
    | some bs => ⟨s.opened.eraseIdx i,binderClose bs s.resources⟩
    | none => s

def leaked : Event → List Int
  | .opens os _ =>
    if os.block.isSome ∧ 0 ≤ os.fd ∧ os.version ≠ some (binderCurrentProtocolVersion A) then [os.fd]
    else []
  | .closes _ => []

structure Accounted (s : State) (lost : List Int) : Prop where
  blocks : Holds s.resources.blocks (s.opened.map Prod.fst)
  fds : Holds s.resources.fds (s.opened.map (fun bs => bs.2.fd) ++ lost)
  maps : Holds s.resources.maps (s.opened.map fun bs => (bs.2.mapped,bs.2.mapsize))

variable {A} {s : State} {lost : List Int}

theorem open_accounted (h : Accounted s lost) (os : Answers) (mapsize : ℕ) :
    Accounted (step A s (.opens os mapsize)) (leaked A (.opens os mapsize) ++ lost) := by
  obtain ⟨hblocks,hfds,hmaps⟩ := h
  rw [step,binderOpen,leaked]
  cases hblock : os.block with
  | none => exact ⟨hblocks,hfds,hmaps⟩
  | some bs =>
    by_cases hfd : os.fd < 0
    · have hfd' : ¬ 0 ≤ os.fd := not_le.mpr hfd
      simp only [if_pos hfd,hfd',false_and,and_false,if_false]
      exact ⟨hblocks.take.release,hfds,hmaps⟩
    · have hfd' : 0 ≤ os.fd := not_lt.mp hfd
      by_cases hversion : os.version = some (binderCurrentProtocolVersion A)
      · simp only [if_neg hfd,hversion,ne_eq,not_true,and_false,if_false]
        cases os.mapped with
        | none => exact ⟨hblocks.take.release,hfds.take.release,hmaps⟩
        | some mapped => exact ⟨hblocks.take,hfds.take,hmaps.take⟩
      · simp only [if_neg hfd,ne_eq,hversion,not_false_eq_true,if_true,hfd',Option.isSome_some,
          true_and]
        exact ⟨hblocks.take.release,hfds.take.perm List.perm_middle.symm,hmaps⟩

theorem close_accounted (h : Accounted s lost) (i : ℕ) : Accounted (step A s (.closes i)) lost := by
  rw [step]
  cases hi : s.opened[i]? with
  | none => exact h
  | some bs =>
    obtain ⟨hlt,rfl⟩ := List.getElem?_eq_some_iff.mp hi
    have hperm := (List.getElem_cons_eraseIdx_perm hlt).symm
    obtain ⟨hblocks,hfds,hmaps⟩ := h
    refine ⟨(hblocks.perm (hperm.map _)).release,?_,(hmaps.perm (hperm.map _)).release⟩
    exact (hfds.perm ((hperm.map _).append_right lost)).release

theorem run_accounted (h : Accounted s lost) (es : List Event) :
    Accounted (run (step A) s es) (es.reverse.flatMap (leaked A) ++ lost) := by
  induction es generalizing s lost with
  | nil => exact h
  | cons e es ih =>
    have hstep : Accounted (step A s e) (leaked A e ++ lost) := by
      cases e with
      | opens os mapsize => exact open_accounted h os mapsize
      | closes i => exact close_accounted h i
    have hrest := ih hstep
    rw [run_cons,List.reverse_cons,List.flatMap_append,List.flatMap_singleton,List.append_assoc]
    exact hrest

theorem opened_accounted (es : List Event) :
    Accounted (run (step A) start es) (es.flatMap (leaked A)) := by
  have hall : Accounted start [] := ⟨holds_empty,holds_empty,holds_empty⟩
  obtain ⟨hblocks,hfds,hmaps⟩ := run_accounted (A := A) hall es
  refine ⟨hblocks,hfds.perm (List.Perm.append_left _ ?_),hmaps⟩
  rw [List.append_nil]
  exact (List.reverse_perm es).flatMap_right _

end

end Opening

end Binder
