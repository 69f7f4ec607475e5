import Mathlib.Data.List.Basic
import Mathlib.Data.List.Count

namespace Layout

variable {V : Type*} (size : V → ℕ) (marked : V → Bool)

def extent : List V → ℕ
  | [] => 0
  | v :: vs => size v + extent vs

def marks : ℕ → List V → List ℕ
  | _, [] => []
  | p, v :: vs => if marked v then p :: marks (p + size v) vs else marks (p + size v) vs

def Placed (P : ℕ → V → Prop) : ℕ → List V → Prop
  | _, [] => True
  | p, v :: vs => P p v ∧ Placed P (p + size v) vs

@[simp] theorem extent_nil : extent size ([] : List V) = 0 := rfl

@[simp] theorem extent_cons (v : V) (vs : List V) :
    extent size (v :: vs) = size v + extent size vs := rfl

@[simp] theorem extent_append (us vs : List V) :
    extent size (us ++ vs) = extent size us + extent size vs := by
  induction us with
  | nil => simp
  | cons u us ih => rw [List.cons_append,extent_cons,extent_cons,ih,Nat.add_assoc]

theorem marks_append (p : ℕ) (us vs : List V) :
    marks size marked p (us ++ vs) =
      marks size marked p us ++ marks size marked (p + extent size us) vs := by
  induction us generalizing p with
  | nil => rfl
  | cons u us ih =>
    rw [List.cons_append,marks,marks,ih,extent_cons,Nat.add_assoc]
    split_ifs
    · rfl
    · rfl

theorem marks_length (p : ℕ) (vs : List V) :
    (marks size marked p vs).length = vs.countP marked := by
  induction vs generalizing p with
  | nil => rfl
  | cons v vs ih =>
    rw [marks,List.countP_cons]
    split_ifs
    · rw [List.length_cons,ih]
    · exact ih _

theorem marks_getElem? (p : ℕ) (us : List V) {v : V} (hv : marked v = true) (ws : List V) :
    (marks size marked p (us ++ v :: ws))[us.countP marked]? = some (p + extent size us) := by
  have hlen := marks_length size marked p us
  rw [marks_append,List.getElem?_append_right (Nat.le_of_eq hlen),hlen,Nat.sub_self,marks,if_pos hv]
  rfl

variable {size marked}

theorem mem_marks {p off : ℕ} {vs : List V} (h : off ∈ marks size marked p vs) :
    ∃ v ∈ vs, marked v = true ∧ p ≤ off ∧ off + size v ≤ p + extent size vs := by
  induction vs generalizing p with
  | nil => exact absurd h List.not_mem_nil
  | cons v vs ih =>
    have hrest : off ∈ marks size marked (p + size v) vs →
        ∃ u ∈ v :: vs, marked u = true ∧ p ≤ off ∧ off + size u ≤ p + extent size (v :: vs) := by
      intro hm
      obtain ⟨u,hu,hmu,hle,hend⟩ := ih hm
      refine ⟨u,List.mem_cons_of_mem v hu,hmu,by omega,?_⟩
      rw [extent_cons]
      omega
    rw [marks] at h
    split_ifs at h with hv
    · rcases List.mem_cons.mp h with rfl | hm
      · refine ⟨v,List.mem_cons_self,hv,Nat.le_refl _,?_⟩
        rw [extent_cons]
        omega
      · exact hrest hm
    · exact hrest h

theorem marks_apart {p off : ℕ} {us ws : List V} {v : V} (hv : marked v = false)
    (h : off ∈ marks size marked p (us ++ v :: ws)) :
    (∃ u ∈ us, marked u = true ∧ off + size u ≤ p + extent size us) ∨
      p + extent size us + size v ≤ off := by
  rw [marks_append,marks,if_neg (by simp [hv]),List.mem_append] at h
  rcases h with h | h
  · obtain ⟨u,hu,hm,-,hend⟩ := mem_marks h
    exact .inl ⟨u,hu,hm,hend⟩
  · obtain ⟨-,-,-,hle,-⟩ := mem_marks h
    exact .inr hle

theorem placed_append {P : ℕ → V → Prop} {p : ℕ} {us vs : List V} :
    Placed size P p (us ++ vs) ↔ Placed size P p us ∧ Placed size P (p + extent size us) vs := by
  induction us generalizing p with
  | nil => simp [Placed]
  | cons u us ih =>
    rw [List.cons_append,Placed,Placed,ih,extent_cons,and_assoc,Nat.add_assoc]

theorem placed_shift {P : ℕ → V → Prop} {d p : ℕ} {vs : List V} :
    Placed size (fun q => P (d + q)) p vs ↔ Placed size P (d + p) vs := by
  induction vs generalizing p with
  | nil => exact Iff.rfl
  | cons v vs ih => rw [Placed,Placed,ih,Nat.add_assoc]

theorem placed_of_forall {P : ℕ → V → Prop} (h : ∀ q v, P q v) (p : ℕ) (vs : List V) :
    Placed size P p vs := by
  induction vs generalizing p with
  | nil => trivial
  | cons v vs ih => exact ⟨h p v,ih _⟩

theorem placed_and {P Q : ℕ → V → Prop} {p : ℕ} {vs : List V} :
    Placed size (fun q v => P q v ∧ Q q v) p vs ↔ Placed size P p vs ∧ Placed size Q p vs := by
  induction vs generalizing p with
  | nil => simp [Placed]
  | cons v vs ih => rw [Placed,Placed,Placed,ih,and_and_and_comm]

theorem Placed.imp {P Q : ℕ → V → Prop} {p : ℕ} {vs : List V} (h : Placed size P p vs)
    (hpq : ∀ q, ∀ v ∈ vs, p ≤ q → q + size v ≤ p + extent size vs → P q v → Q q v) :
    Placed size Q p vs := by
  induction vs generalizing p with
  | nil => trivial
  | cons v vs ih =>
    rw [extent_cons] at hpq
    refine ⟨hpq p v List.mem_cons_self (Nat.le_refl p) (by omega) h.1,ih h.2 ?_⟩
    intro q u hu hq hend
    exact hpq q u (List.mem_cons_of_mem v hu) (by omega) (by omega)

end Layout
