import Mathlib.Data.List.Basic

namespace Framing

structure PrefixCode (C B : Type*) where
  encode : C → List B
  encode_ne_nil : ∀ c, encode c ≠ []
  prefix_free : ∀ c d, encode c <+: encode d → c = d

namespace PrefixCode
variable {C B : Type*} (K : PrefixCode C B)

def encodeAll (cs : List C) : List B := cs.flatMap K.encode

def Incomplete (bs : List B) : Prop := ∀ c, ¬ K.encode c <+: bs

@[simp] theorem encodeAll_nil : K.encodeAll [] = [] := rfl

@[simp] theorem encodeAll_cons (c : C) (cs : List C) :
    K.encodeAll (c :: cs) = K.encode c ++ K.encodeAll cs := List.flatMap_cons

variable {K}

theorem incomplete_nil : K.Incomplete [] := fun c h => K.encode_ne_nil c (List.prefix_nil.mp h)

theorem encode_unique {c d : C} {bs : List B} (hc : K.encode c <+: bs) (hd : K.encode d <+: bs) :
    c = d := by
  rcases Nat.le_total (K.encode c).length (K.encode d).length with h | h
  · exact K.prefix_free c d (List.prefix_of_prefix_length_le hc hd h)
  · exact (K.prefix_free d c (List.prefix_of_prefix_length_le hd hc h)).symm

theorem incomplete_of_cut {c : C} {bs : List B} (h : bs <+: K.encode c) (hne : bs ≠ K.encode c) :
    K.Incomplete bs := by
  intro d hd
  obtain rfl := K.prefix_free d c (hd.trans h)
  exact hne (h.eq_of_length (Nat.le_antisymm h.length_le hd.length_le))

theorem encodeAll_append_inj {cs ds : List C} {xs ys : List B} (hx : K.Incomplete xs)
    (hy : K.Incomplete ys) (h : K.encodeAll cs ++ xs = K.encodeAll ds ++ ys) :
    cs = ds ∧ xs = ys := by
  induction cs generalizing ds with
  | nil =>
    cases ds with
    | nil => exact ⟨rfl,h⟩
    | cons d ds =>
      rw [encodeAll_cons,List.append_assoc] at h
      exact absurd ⟨_,h.symm⟩ (hx d)
  | cons c cs ih =>
    rw [encodeAll_cons,List.append_assoc] at h
    cases ds with
    | nil => exact absurd ⟨_,h⟩ (hy c)
    | cons d ds =>
      rw [encodeAll_cons,List.append_assoc] at h
      obtain rfl := encode_unique ⟨_,rfl⟩ ⟨_,h.symm⟩
      obtain ⟨hcs,hxs⟩ := ih (List.append_cancel_left h)
      exact ⟨congrArg _ hcs,hxs⟩

variable (K)

theorem exists_frames (bs : List B) :
    ∃ cs rest, bs = K.encodeAll cs ++ rest ∧ K.Incomplete rest := by
  induction hn : bs.length using Nat.strongRecOn generalizing bs with
  | _ n ih =>
    by_cases h : K.Incomplete bs
    · exact ⟨[],bs,rfl,h⟩
    · obtain ⟨c,es,rfl⟩ := not_forall_not.mp h
      have hpos := List.length_pos_of_ne_nil (K.encode_ne_nil c)
      rw [List.length_append] at hn
      obtain ⟨cs,rest,rfl,hrest⟩ := ih es.length (by omega) es rfl
      exact ⟨c :: cs,rest,by rw [encodeAll_cons,List.append_assoc],hrest⟩

end PrefixCode

end Framing
