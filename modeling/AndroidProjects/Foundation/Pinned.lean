import Mathlib.Data.List.Nodup
import Mathlib.Data.List.Count

namespace Pinned

variable {α κ : Type*} [DecidableEq κ] (key : α → κ)

def assign (k : κ) (f : α → α) (l : List α) : List α :=
  l.map fun a => if key a = k then f a else a

@[simp] theorem assign_nil (k : κ) (f : α → α) : assign key k f [] = [] := rfl

@[simp] theorem assign_cons (k : κ) (f : α → α) (a : α) (l : List α) :
    assign key k f (a :: l) = (if key a = k then f a else a) :: assign key k f l := rfl

variable {key}

theorem map_assign {β : Type*} {g : α → β} {k : κ} {f : α → α} (hf : ∀ a, g (f a) = g a)
    (l : List α) : (assign key k f l).map g = l.map g := by
  simp only [assign,List.map_map]
  apply List.map_congr_left
  intro a _
  simp only [Function.comp_apply]
  split_ifs
  · exact hf a
  · rfl

theorem assign_of_not_mem {k : κ} {f : α → α} {l : List α} (h : k ∉ l.map key) :
    assign key k f l = l := by
  have hid : ∀ a ∈ l, (if key a = k then f a else a) = a := by
    intro a ha
    exact if_neg fun he => h (List.mem_map.mpr ⟨a,ha,he⟩)
  simpa [assign] using List.map_congr_left hid

theorem assign_assign {k : κ} {f g : α → α} (hg : ∀ a, key (g a) = key a) (l : List α) :
    assign key k f (assign key k g l) = assign key k (f ∘ g) l := by
  simp only [assign,List.map_map]
  apply List.map_congr_left
  intro a _
  by_cases h : key a = k <;> simp [h,hg]

theorem find?_assign {p : α → Bool} {k : κ} {f : α → α} (hp : ∀ a, p (f a) = p a) (l : List α) :
    (assign key k f l).find? p = (l.find? p).map fun a => if key a = k then f a else a := by
  induction l with
  | nil => rfl
  | cons a l ih =>
    have ha : p (if key a = k then f a else a) = p a := by
      split_ifs
      · exact hp a
      · rfl
    rw [assign_cons,List.find?_cons,List.find?_cons,ha]
    cases p a with
    | true => rfl
    | false => exact ih

theorem find?_key_iff {l : List α} (h : (l.map key).Nodup) (k : κ) (a : α) :
    l.find? (fun b => key b = k) = some a ↔ a ∈ l ∧ key a = k := by
  constructor
  · intro hf
    exact ⟨List.mem_of_find?_eq_some hf,by simpa using List.find?_some hf⟩
  · rintro ⟨ha,hk⟩
    have hs : (l.find? fun b => key b = k).isSome := List.find?_isSome.mpr ⟨a,ha,by simpa using hk⟩
    obtain ⟨b,hb⟩ := Option.isSome_iff_exists.mp hs
    have hbk : key b = k := by simpa using List.find?_some hb
    rw [hb,List.inj_on_of_nodup_map h (List.mem_of_find?_eq_some hb) ha (hbk.trans hk.symm)]

theorem mem_assign {k : κ} {f : α → α} {l : List α} (h : (l.map key).Nodup) {a : α} (ha : a ∈ l)
    (hk : key a = k) (b : α) :
    b ∈ assign key k f l ↔ b = f a ∨ (b ∈ l ∧ key b ≠ k) := by
  simp only [assign,List.mem_map]
  constructor
  · rintro ⟨c,hc,rfl⟩
    by_cases he : key c = k
    · rw [if_pos he,List.inj_on_of_nodup_map h hc ha (he.trans hk.symm)]
      exact .inl rfl
    · rw [if_neg he]
      exact .inr ⟨hc,he⟩
  · rintro (rfl | ⟨hb,he⟩)
    · exact ⟨a,ha,if_pos hk⟩
    · exact ⟨b,hb,if_neg he⟩

theorem assign_middle {k : κ} {f : α → α} {pre post : List α} {a : α}
    (h : ((pre ++ a :: post).map key).Nodup) (hk : key a = k) :
    assign key k f (pre ++ a :: post) = pre ++ f a :: post := by
  rw [List.map_append,List.map_cons,hk] at h
  have hn := (List.nodup_middle.mp h)
  rw [List.nodup_cons,List.mem_append,not_or] at hn
  have hsplit : assign key k f (pre ++ a :: post) =
      assign key k f pre ++ assign key k f (a :: post) := List.map_append
  rw [hsplit,assign_of_not_mem hn.1.1,assign_cons,if_pos hk,assign_of_not_mem hn.1.2]

theorem countP_assign {q : α → Bool} {k : κ} {f : α → α} {l : List α} (h : (l.map key).Nodup)
    {a : α} (ha : a ∈ l) (hk : key a = k) :
    (assign key k f l).countP q + (if q a then 1 else 0) =
      l.countP q + (if q (f a) then 1 else 0) := by
  induction l with
  | nil => cases ha
  | cons b l ih =>
    rw [List.map_cons,List.nodup_cons] at h
    rw [assign_cons,List.countP_cons,List.countP_cons]
    rcases List.mem_cons.mp ha with rfl | hl
    · have hn : k ∉ l.map key := hk ▸ h.1
      rw [assign_of_not_mem hn,if_pos hk]
      omega
    · have hb : key b ≠ k := fun he => h.1 (he ▸ hk ▸ List.mem_map_of_mem hl)
      have hi := ih h.2 hl
      rw [if_neg hb]
      omega

end Pinned
