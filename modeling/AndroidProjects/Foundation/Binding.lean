import Mathlib.Data.List.Basic

namespace Binding

variable {N V : Type*} [DecidableEq N]

inductive Event (N V : Type*) where
  | bind (n : N) (v : V)
  | drop (n : N)
  | skip

def latest (n : N) : List (Event N V) → Option V
  | [] => none
  | .bind k v :: h => if k = n then some v else latest n h
  | .drop _ :: h => latest n h
  | .skip :: h => latest n h

def live (n : N) : List (Event N V) → Option V
  | [] => none
  | .bind k v :: h => if k = n then some v else live n h
  | .drop k :: h => if k = n then none else live n h
  | .skip :: h => live n h

@[simp] theorem latest_nil (n : N) : latest n ([] : List (Event N V)) = none := rfl
@[simp] theorem latest_bind (n k : N) (v : V) (h : List (Event N V)) :
    latest n (.bind k v :: h) = if k = n then some v else latest n h := rfl
@[simp] theorem latest_drop (n k : N) (h : List (Event N V)) :
    latest n (.drop k :: h) = latest n h := rfl
@[simp] theorem latest_skip (n : N) (h : List (Event N V)) :
    latest n (.skip :: h) = latest n h := rfl

@[simp] theorem live_nil (n : N) : live n ([] : List (Event N V)) = none := rfl
@[simp] theorem live_bind (n k : N) (v : V) (h : List (Event N V)) :
    live n (.bind k v :: h) = if k = n then some v else live n h := rfl
@[simp] theorem live_drop (n k : N) (h : List (Event N V)) :
    live n (.drop k :: h) = if k = n then none else live n h := rfl
@[simp] theorem live_skip (n : N) (h : List (Event N V)) : live n (.skip :: h) = live n h := rfl

theorem latest_eq_none {n : N} {h : List (Event N V)} :
    latest n h = none ↔ ∀ v, .bind n v ∉ h := by
  induction h with
  | nil => simp
  | cons e h ih =>
    cases e with
    | bind k w =>
      rw [latest_bind]
      split_ifs with hk
      · subst hk
        exact ⟨fun hn => absurd hn (by simp),fun hn => absurd List.mem_cons_self (hn w)⟩
      · rw [ih]
        refine forall_congr' fun v => not_congr ?_
        simp [Ne.symm hk]
    | drop k => simp [ih]
    | skip => simp [ih]

theorem mem_of_latest {n : N} {v : V} {h : List (Event N V)} (hl : latest n h = some v) :
    .bind n v ∈ h := by
  induction h with
  | nil => cases hl
  | cons e h ih =>
    cases e with
    | bind k w =>
      rw [latest_bind] at hl
      split_ifs at hl with hk
      · rw [hk,Option.some.inj hl]
        exact List.mem_cons_self
      · exact List.mem_cons_of_mem _ (ih hl)
    | drop k => exact List.mem_cons_of_mem _ (ih hl)
    | skip => exact List.mem_cons_of_mem _ (ih hl)

theorem latest_of_live {n : N} {v : V} {h : List (Event N V)} (hl : live n h = some v) :
    latest n h = some v := by
  induction h with
  | nil => simp at hl
  | cons e h ih =>
    cases e with
    | bind k w =>
      rw [live_bind] at hl
      rw [latest_bind]
      split_ifs at hl ⊢
      · exact hl
      · exact ih hl
    | drop k =>
      rw [live_drop] at hl
      split_ifs at hl
      exact ih hl
    | skip => exact ih hl

end Binding
