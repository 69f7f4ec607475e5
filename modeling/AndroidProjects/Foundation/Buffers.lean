import Mathlib.Data.Int.Order.Basic
import Mathlib.Data.List.TakeWhile

namespace Buffers

-- an array of n cells; an access outside of it has no result
structure Buffer (α : Type*) (n : ℕ) where
  cells : List α
  size : cells.length = n
  deriving DecidableEq, Repr

namespace Buffer
variable {α : Type*} {n : ℕ}

def filled (a : α) (n : ℕ) : Buffer α n := ⟨List.replicate n a,List.length_replicate⟩

def put (xs : List α) (b : Buffer α n) : Option (Buffer α n) :=
  if h : xs.length ≤ n then
    some ⟨xs ++ b.cells.drop xs.length,by
      rw [List.length_append,List.length_drop,b.size,Nat.add_sub_cancel' h]⟩
  else none

def set (i : ℤ) (a : α) (b : Buffer α n) : Option (Buffer α n) :=
  if 0 ≤ i ∧ i < n then some ⟨b.cells.set i.toNat a,by rw [List.length_set,b.size]⟩ else none

def front (k : ℕ) (b : Buffer α n) : List α := b.cells.take k

def text [DecidableEq α] (nul : α) (b : Buffer α n) : Option (List α) :=
  if nul ∈ b.cells then some (b.cells.takeWhile (· ≠ nul)) else none

theorem put_cells {xs : List α} {b c : Buffer α n} (h : b.put xs = some c) :
    c.cells = xs ++ b.cells.drop xs.length := by
  rw [put] at h
  split_ifs at h
  cases h
  rfl

theorem put_of_le {xs : List α} (h : xs.length ≤ n) (b : Buffer α n) :
    ∃ c, b.put xs = some c := by
  rw [put,dif_pos h]
  exact ⟨_,rfl⟩

theorem front_put {xs ys : List α} {b c : Buffer α n} (h : b.put (xs ++ ys) = some c) :
    c.front xs.length = xs := by
  rw [front,put_cells h,List.append_assoc,List.take_left]

section Strings
variable [DecidableEq α] {nul : α}

theorem takeWhile_ended {xs : List α} (ys : List α) :
    (xs ++ nul :: ys).takeWhile (· ≠ nul) = xs.takeWhile (· ≠ nul) := by
  induction xs with
  | nil => simp
  | cons x xs ih =>
    by_cases hx : x = nul
    · simp [hx]
    · simpa [hx] using ih

theorem takeWhile_of_not_mem {xs : List α} (h : nul ∉ xs) : xs.takeWhile (· ≠ nul) = xs := by
  refine List.takeWhile_eq_self_iff.mpr fun x hx => ?_
  exact decide_eq_true fun heq => h (heq ▸ hx)

theorem text_ended (nul : α) {xs : List α} {b c : Buffer α n} (h : b.put xs = some c)
    (hlt : xs.length < n) :
    ∃ d, c.set xs.length nul = some d ∧ d.text nul = some (xs.takeWhile (· ≠ nul)) := by
  have hbound : (0 : ℤ) ≤ xs.length ∧ (xs.length : ℤ) < n := ⟨Int.natCast_nonneg _,by omega⟩
  have hdrop : ∃ y ys, b.cells.drop xs.length = y :: ys := by
    refine List.exists_cons_of_ne_nil fun hnil => ?_
    rw [List.drop_eq_nil_iff,b.size] at hnil
    omega
  obtain ⟨y,ys,hys⟩ := hdrop
  have hcells : c.cells.set xs.length nul = xs ++ nul :: ys := by
    rw [put_cells h,hys,List.set_append_right _ _ (Nat.le_refl _),Nat.sub_self]
    rfl
  refine ⟨_,if_pos hbound,?_⟩
  rw [text]
  simp only [Int.toNat_natCast]
  rw [hcells,if_pos (List.mem_append_right _ List.mem_cons_self),takeWhile_ended]

end Strings

end Buffer

end Buffers
