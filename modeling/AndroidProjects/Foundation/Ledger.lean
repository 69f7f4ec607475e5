import Mathlib.Data.List.Perm.Basic

namespace Ledger

-- what a process holds of one kind, and how often it gave back what it did not hold
structure Book (α : Type*) where
  things : List α
  astray : ℕ

variable {α : Type*}

def empty : Book α := ⟨[],0⟩

def Book.take (h : Book α) (x : α) : Book α := {h with things := x :: h.things}

def Book.release [DecidableEq α] (h : Book α) (x : α) : Book α :=
  if x ∈ h.things then {h with things := h.things.erase x} else {h with astray := h.astray + 1}

structure Holds (h : Book α) (xs : List α) : Prop where
  things : h.things.Perm xs
  astray : h.astray = 0

theorem holds_empty : Holds (empty : Book α) [] := ⟨.refl [],rfl⟩

namespace Holds
variable {h : Book α} {x : α} {xs ys : List α}

theorem perm (hh : Holds h xs) (hp : xs.Perm ys) : Holds h ys := ⟨hh.things.trans hp,hh.astray⟩

theorem take (hh : Holds h xs) : Holds (h.take x) (x :: xs) := ⟨hh.things.cons x,hh.astray⟩

theorem release [DecidableEq α] (hh : Holds h (x :: xs)) : Holds (h.release x) xs := by
  have hmem : x ∈ h.things := hh.things.mem_iff.mpr List.mem_cons_self
  have herase := hh.things.erase x
  rw [List.erase_cons_head] at herase
  rw [Book.release,if_pos hmem]
  exact ⟨herase,hh.astray⟩

end Holds

end Ledger
