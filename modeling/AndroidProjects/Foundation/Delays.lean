import Mathlib.Data.List.Sort

namespace Delays

structure Timed (α : Type*) where
  due : ℕ
  task : α
  deriving DecidableEq, Repr

variable {α : Type*} {m n : Timed α} {q : List (Timed α)} {b c : ℕ}

-- behind all that is due no later
def enqueue (m : Timed α) (q : List (Timed α)) : List (Timed α) :=
  q.orderedInsert (fun m n => m.due < n.due) m

def Within (b : ℕ) (q : List (Timed α)) : Prop := ∀ m ∈ q, m.due ≤ b

def From (b : ℕ) (q : List (Timed α)) : Prop := ∀ m ∈ q, b ≤ m.due

theorem within_mono (h : Within b q) (hb : b ≤ c) : Within c q := fun m hm => (h m hm).trans hb

theorem within_tail (h : Within b (m :: q)) : Within b q :=
  fun n hn => h n (List.mem_cons_of_mem m hn)

theorem from_tail (h : From b (m :: q)) : From b q := fun n hn => h n (List.mem_cons_of_mem m hn)

theorem mem_enqueue : n ∈ enqueue m q ↔ n = m ∨ n ∈ q := List.mem_orderedInsert _

theorem from_enqueue (h : From b q) (hm : b ≤ m.due) : From b (enqueue m q) := by
  intro n hn
  rcases mem_enqueue.mp hn with rfl | hn
  · exact hm
  · exact h n hn

theorem enqueue_within (h : Within m.due q) : enqueue m q = q ++ [m] := by
  induction q with
  | nil => rfl
  | cons n q ih =>
    have hn := h n List.mem_cons_self
    have hq := ih (within_tail h)
    rw [enqueue] at hq ⊢
    rw [List.orderedInsert_of_not_le _ q (Nat.not_lt.mpr hn),hq,List.cons_append]

theorem within_enqueue (h : Within m.due q) : Within m.due (enqueue m q) := by
  intro n hn
  rcases mem_enqueue.mp hn with rfl | hn
  · exact le_rfl
  · exact h n hn

theorem last_enqueue (h : Within m.due q) : (enqueue m q).getLast? = some m := by
  rw [enqueue_within h,List.getLast?_concat]

theorem last_cons (h : (m :: q).getLast? = some n) : q = [] ∧ m = n ∨ q.getLast? = some n := by
  cases q with
  | nil => exact .inl ⟨rfl,by simpa using h⟩
  | cons k q => exact .inr (by simpa using h)

theorem caught_up (hlast : q.getLast? = some m) (hdue : m.due ≤ b) : ∃ n ∈ q, n.due ≤ b :=
  ⟨m,List.mem_of_getLast? hlast,hdue⟩

end Delays
