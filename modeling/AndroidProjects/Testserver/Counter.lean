import AndroidProjects.Foundation.Machine
import AndroidProjects.Testserver.Services
import Mathlib.Algebra.BigOperators.Group.List.Basic
import Mathlib.Data.List.Range
import Mathlib.Tactic.Linarith
import Mathlib.Tactic.Ring

namespace Testserver
open Binder Machine

structure Counters where
  say : Int32
  sayTo : Int32
  deriving DecidableEq, Repr

-- sayhello and sayhello_to, each with its static counter
def counted : Implementation Counters where
  say c := {c with say := c.say + 1}
  sayTo _ c := (c.sayTo + 1,{c with sayTo := c.sayTo + 1})

structure Counting (T : Type) where
  cnt : Int32
  pending : ℕ
  taken : List T
  incremented : List T
  returned : List Int32
  deriving DecidableEq, Repr

inductive CountStep (T : Type) where
  | request
  | take (t : T)
  | increment (t : T)
  | reply (t : T)

namespace Counting
variable {T : Type}

def start : Counting T := ⟨0,0,[],[],[]⟩

def Quiet (s : Counting T) : Prop := s.taken = [] ∧ s.incremented = []

def upTo (k : ℕ) : List Int := (List.range k).map fun i : ℕ => (i : Int) + 1

structure Right (s : Counting T) : Prop where
  distinct : s.returned.Nodup
  exact : s.Quiet → (s.returned.map Int32.toInt).Perm (upTo s.returned.length)

def increments (s : Counting T) : ℕ := s.returned.length + s.incremented.length

theorem upTo_succ (k : ℕ) : upTo (k+1) = upTo k ++ [(k : Int) + 1] := by
  rw [upTo,List.range_succ,List.map_append]
  rfl

theorem upTo_nodup (k : ℕ) : (upTo k).Nodup := by
  refine List.nodup_range.map fun i j h => ?_
  exact Nat.cast_injective (add_right_cancel h)

theorem upTo_sum (k : ℕ) : 2 * (upTo k).sum = k * (k+1) := by
  induction k with
  | zero => rfl
  | succ k ih =>
    rw [upTo_succ,List.sum_append,List.sum_singleton,Int.mul_add,ih]
    push_cast
    ring

theorem upTo_small {k : ℕ} {l : List Int32} (h : (l.map Int32.toInt).Perm (upTo k)) :
    k < 2 ^ 31 := by
  cases k with
  | zero => decide
  | succ k =>
    have hmem : (k : Int) + 1 ∈ upTo (k+1) := by
      rw [upTo_succ]
      exact List.mem_append_right _ List.mem_cons_self
    obtain ⟨c,-,hc⟩ := List.mem_map.mp (h.mem_iff.mpr hmem)
    have hlt := c.toInt_lt
    omega

theorem toInt_succ {c : Int32} (h : c.toInt < 2 ^ 31 - 1) : (c+1).toInt = c.toInt + 1 := by
  have hone : (1 : Int32).toInt = 1 := rfl
  have hle := c.le_toInt
  rw [Int32.toInt_add,hone]
  exact Int.bmod_eq_of_le (by omega) (by omega)

structure InOrder (s : Counting T) : Prop where
  cnt : s.cnt.toInt = s.increments
  alone : s.incremented.length ≤ 1
  returned : s.returned.map Int32.toInt = upTo s.returned.length

theorem inOrder_start : InOrder (start : Counting T) := ⟨rfl,Nat.zero_le 1,rfl⟩

theorem InOrder.right {s : Counting T} (h : InOrder s) : Right s := by
  refine ⟨List.Nodup.of_map Int32.toInt ?_,fun _ => h.returned ▸ List.Perm.refl _⟩
  rw [h.returned]
  exact upTo_nodup _

def excess (s : Counting T) : Int :=
  2 * (s.returned.map Int32.toInt).sum + 2 * s.incremented.length * s.increments -
    s.increments * (s.increments + 1)

theorem excess_quiet {s : Counting T} (hq : s.Quiet) (h : Right s) : excess s = 0 := by
  have hsum := congrArg (2 * ·) (h.exact hq).sum_eq
  simp only [upTo_sum] at hsum
  simp only [excess,increments,hq.2,hsum,List.length_nil]
  push_cast
  ring

variable [DecidableEq T]

def step (s : Counting T) : CountStep T → Counting T
  | .request => {s with pending := s.pending + 1}
  | .take t =>
    if 0 < s.pending ∧ t ∉ s.taken ∧ t ∉ s.incremented then
      {s with pending := s.pending - 1, taken := t :: s.taken}
    else s
  | .increment t =>
    if t ∈ s.taken then
      {s with
        cnt := s.cnt + 1
        taken := s.taken.erase t
        incremented := t :: s.incremented}
    else s
  | .reply t =>
    if t ∈ s.incremented then
      {s with
        incremented := s.incremented.erase t
        returned := s.returned ++ [s.cnt]}
    else s

-- no thread increments while another is between its increment and its read, or past INT_MAX
def Undisturbed (s : Counting T) : CountStep T → Prop
  | .increment t => t ∈ s.taken → s.incremented = [] ∧ s.cnt.toInt < 2 ^ 31 - 1
  | _ => True

theorem served_alone (s : Counting T) {t : T} (hp : 0 < s.pending) (ht : t ∉ s.taken)
    (hi : t ∉ s.incremented) (say : Int32) (name : List UInt8) :
    run step s [.take t,.increment t,.reply t] =
      {s with
        cnt := (counted.sayTo name ⟨say,s.cnt⟩).2.sayTo
        pending := s.pending - 1
        returned := s.returned ++ [(counted.sayTo name ⟨say,s.cnt⟩).1]} := by
  simp [step,hp,ht,hi,counted]

inductive Moved (s : Counting T) : CountStep T → Counting T → Prop
  | still (l : CountStep T) (p : ℕ) (ts : List T) : Moved s l {s with pending := p, taken := ts}
  | increment {t : T} (ht : t ∈ s.taken) : Moved s (.increment t) {s with
      cnt := s.cnt + 1
      taken := s.taken.erase t
      incremented := t :: s.incremented}
  | reply {t : T} (ht : t ∈ s.incremented) : Moved s (.reply t) {s with
      incremented := s.incremented.erase t
      returned := s.returned ++ [s.cnt]}

theorem step_moved (s : Counting T) (l : CountStep T) : Moved s l (step s l) := by
  cases l with
  | request => exact .still _ (s.pending + 1) s.taken
  | take t =>
    rw [step]
    split_ifs
    · exact .still _ (s.pending - 1) (t :: s.taken)
    · exact .still _ s.pending s.taken
  | increment t =>
    rw [step]
    split_ifs with ht
    · exact .increment ht
    · exact .still _ s.pending s.taken
  | reply t =>
    rw [step]
    split_ifs with ht
    · exact .reply ht
    · exact .still _ s.pending s.taken

theorem increments_reply {s : Counting T} {t : T} (ht : t ∈ s.incremented) :
    (s.returned ++ [s.cnt]).length + (s.incremented.erase t).length = s.increments := by
  have hpos := List.length_pos_of_mem ht
  rw [increments,List.length_erase_of_mem ht,List.length_append,List.length_singleton]
  omega

theorem inOrder_step {s : Counting T} (h : InOrder s) (l : CountStep T) (hl : Undisturbed s l) :
    InOrder (step s l) := by
  obtain ⟨hcnt,halone,hret⟩ := h
  have hm := step_moved s l
  generalize step s l = s' at hm ⊢
  cases hm with
  | still p ts => exact ⟨hcnt,halone,hret⟩
  | increment ht =>
    obtain ⟨hnone,hroom⟩ := hl ht
    refine ⟨?_,?_,hret⟩
    · rw [toInt_succ hroom,hcnt,increments,increments,List.length_cons]
      push_cast
      ring
    · rw [hnone]
      exact le_rfl
  | @reply t ht =>
    have hpos := List.length_pos_of_mem ht
    have hone : s.incremented.length = 1 := by omega
    refine ⟨hcnt.trans (congrArg _ (increments_reply ht).symm),?_,?_⟩
    · exact (List.length_erase_le).trans halone
    · rw [increments,hone] at hcnt
      rw [List.map_append,hret,List.length_append,List.length_singleton,upTo_succ,
        List.map_singleton,hcnt]
      rfl

theorem increments_step (s : Counting T) (l : CountStep T) :
    increments s ≤ increments (step s l) := by
  have hm := step_moved s l
  generalize step s l = s' at hm ⊢
  cases hm with
  | still p ts => exact le_rfl
  | increment ht => exact Nat.add_le_add_left (Nat.le_succ _) _
  | reply ht => exact (increments_reply ht).ge

def Exact (s : Counting T) : Prop := s.cnt.toInt = s.increments

theorem exact_step {s : Counting T} (h : Exact s) (l : CountStep T)
    (hroom : increments (step s l) < 2 ^ 31) : Exact (step s l) := by
  have hm := step_moved s l
  generalize step s l = s' at hm hroom ⊢
  cases hm with
  | still p ts => exact h
  | increment ht =>
    have hsucc : s.cnt.toInt < 2 ^ 31 - 1 := by
      rw [h]
      simp only [increments,List.length_cons] at hroom ⊢
      omega
    rw [Exact,toInt_succ hsucc,h,increments,increments,List.length_cons]
    push_cast
    ring
  | reply ht => exact h.trans (congrArg _ (increments_reply ht).symm)

theorem excess_step {s : Counting T} (h : Exact s) (l : CountStep T) :
    excess (step s l) = excess s ∨
      (∃ t ∈ s.taken, l = .increment t) ∧
        excess (step s l) = excess s + 2 * s.incremented.length := by
  have hm := step_moved s l
  generalize step s l = s' at hm ⊢
  cases hm with
  | still p ts => exact .inl rfl
  | increment ht =>
    refine .inr ⟨⟨_,ht,rfl⟩,?_⟩
    simp only [excess,increments,List.length_cons]
    push_cast
    ring
  | reply ht =>
    obtain ⟨n,hn⟩ : ∃ n, s.incremented.length = n + 1 :=
      Nat.exists_eq_succ_of_ne_zero (List.length_pos_of_mem ht).ne'
    have herase := List.length_erase_of_mem ht
    rw [Exact,increments,hn] at h
    left
    simp only [excess,increments,herase,hn,List.map_append,List.map_singleton,List.sum_append,
      List.sum_singleton,List.length_append,List.length_singleton,h,Nat.add_sub_cancel]
    push_cast
    ring

theorem undisturbed_of_calm {s : Counting T} (h : Exact s) (l : CountStep T)
    (hroom : increments (step s l) < 2 ^ 31) (hcalm : excess (step s l) = excess s) :
    Undisturbed s l := by
  cases l with
  | increment t =>
    intro ht
    have hstep : step s (.increment t) = {s with
        cnt := s.cnt + 1
        taken := s.taken.erase t
        incremented := t :: s.incremented} := if_pos ht
    rw [hstep] at hroom hcalm
    have hnone : (s.incremented.length : Int) = 0 := by
      simp only [excess,increments,List.length_cons] at hcalm
      push_cast at hcalm
      linarith
    refine ⟨List.length_eq_zero_iff.mp (Int.ofNat_eq_zero.mp hnone),?_⟩
    rw [h]
    simp only [increments,List.length_cons] at hroom ⊢
    omega
  | _ => trivial

theorem counts_right_iff_undisturbed (ls : List (CountStep T)) :
    (Along step Undisturbed start ls → Always step Right start ls) ∧
    ((run step start ls).Quiet → Right (run step start ls) → Along step Undisturbed start ls) := by
  constructor
  · have safe : ∀ s : Counting T, InOrder s → Right s := fun _ h => h.right
    exact always_of_along safe (fun _ l h => inOrder_step h l) inOrder_start
  · intro hq hright
    have hroom : increments (run step start ls) < 2 ^ 31 := by
      rw [increments,hq.2]
      exact upTo_small (hright.exact hq)
    have hgrow : ∀ (s : Counting T) (l : CountStep T), increments s ≤ increments (step s l) :=
      increments_step
    have hbounded := along_of_bound hgrow hroom
    have keep : ∀ (s : Counting T) (l : CountStep T), Exact s → increments (step s l) < 2 ^ 31 →
        Exact (step s l) := fun _ l h hg => exact_step h l hg
    have mono : ∀ (s : Counting T) (l : CountStep T), Exact s → increments (step s l) < 2 ^ 31 →
        excess s ≤ excess (step s l) := by
      intro s l h _
      rcases excess_step h l with heq | ⟨-,heq⟩
      · exact heq.ge
      · omega
    have strict : ∀ (s : Counting T) (l : CountStep T), Exact s →
        increments (step s l) < 2 ^ 31 → ¬ Undisturbed s l → excess s < excess (step s l) := by
      intro s l h hg hd
      refine lt_of_le_of_ne (mono s l h hg) fun heq => ?_
      exact hd (undisturbed_of_calm h l hg heq.symm)
    have hstart : Exact (start : Counting T) := rfl
    exact along_of_measure keep mono strict hstart hbounded
      (excess_quiet hq hright).le

end Counting

def twoClients : List (CountStep Bool) :=
  [.request,.request,.take true,.take false,.increment true,.increment false,.reply true,
    .reply false]

theorem overlapping_counts_equal :
    ¬ ∀ (T : Type) [DecidableEq T] (ls : List (CountStep T)),
      Always Counting.step Counting.Right Counting.start ls := by
  intro hall
  have hright := (hall Bool twoClients).final.distinct
  exact absurd hright (by decide +kernel)

end Testserver
