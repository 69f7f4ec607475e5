import Mathlib.Data.List.Basic

namespace Unicode

def utf8 (cs : List Char) : List UInt8 := cs.flatMap String.utf8EncodeChar

def utf16Char (c : Char) : List UInt16 :=
  if c.toNat < 0x10000 then [UInt16.ofNat c.toNat]
  else [UInt16.ofNat (0xd800 + (c.toNat - 0x10000) / 0x400),
    UInt16.ofNat (0xdc00 + (c.toNat - 0x10000) % 0x400)]

def utf16 (cs : List Char) : List UInt16 := cs.flatMap utf16Char

def latin1 (b : UInt8) : Char := Char.ofNat b.toNat

def Ascii (cs : List Char) : Prop := ∀ c ∈ cs, c.toNat < 128

instance (cs : List Char) : Decidable (Ascii cs) := List.decidableBAll _ cs

theorem char_lt (c : Char) : c.toNat < 0x110000 ∧ ¬ (0xd800 ≤ c.toNat ∧ c.toNat < 0xe000) := by
  have hv : c.val.toNat.isValidChar := c.valid
  simp only [Nat.isValidChar] at hv
  have hc : c.val.toNat = c.toNat := rfl
  omega

theorem utf8EncodeChar_ascii {c : Char} (h : c.toNat < 128) :
    String.utf8EncodeChar c = [UInt8.ofNat c.toNat] := by
  have hc : c.val.toNat ≤ 0x7f := Nat.le_of_lt_succ h
  rw [String.utf8EncodeChar]
  exact if_pos hc

theorem utf16Char_ascii {c : Char} (h : c.toNat < 128) :
    utf16Char c = [UInt16.ofNat c.toNat] := if_pos (Nat.lt_trans h (by decide))

theorem utf8EncodeChar_long {c : Char} (h : 128 ≤ c.toNat) :
    2 ≤ (String.utf8EncodeChar c).length := by
  have hc : ¬ c.val.toNat ≤ 0x7f := Nat.not_le.mpr (Nat.lt_of_succ_le h)
  simp only [String.utf8EncodeChar,if_neg hc]
  split_ifs <;> simp

theorem utf8EncodeChar_bytes {c : Char} (h : 128 ≤ c.toNat) :
    ∀ b ∈ String.utf8EncodeChar c, 128 ≤ b.toNat := by
  have hc : ¬ c.val.toNat ≤ 0x7f := Nat.not_le.mpr (Nat.lt_of_succ_le h)
  have hbyte : ∀ n, 128 ≤ n → n < 256 → 128 ≤ (UInt8.ofNat n).toNat := by
    intro n hn hlt
    rw [UInt8.toNat_ofNat_of_lt' hlt]
    exact hn
  simp only [String.utf8EncodeChar,if_neg hc]
  intro b hb
  split_ifs at hb
  all_goals
    simp only [List.mem_cons,List.not_mem_nil,or_false] at hb
    rcases hb with rfl | hb
    · exact hbyte _ (by omega) (by omega)
  · exact hb ▸ hbyte _ (by omega) (by omega)
  · rcases hb with rfl | rfl
    · exact hbyte _ (by omega) (by omega)
    · exact hbyte _ (by omega) (by omega)
  · rcases hb with rfl | rfl | rfl
    · exact hbyte _ (by omega) (by omega)
    · exact hbyte _ (by omega) (by omega)
    · exact hbyte _ (by omega) (by omega)

theorem utf8_ascii {cs : List Char} (h : Ascii cs) :
    utf8 cs = cs.map fun c => UInt8.ofNat c.toNat := by
  induction cs with
  | nil => rfl
  | cons c cs ih =>
    have hc := utf8EncodeChar_ascii (h c List.mem_cons_self)
    have hcs := ih fun d hd => h d (List.mem_cons_of_mem c hd)
    rw [utf8,List.flatMap_cons,hc,List.map_cons]
    exact congrArg (_ :: ·) hcs

theorem utf16_ascii {cs : List Char} (h : Ascii cs) :
    utf16 cs = cs.map fun c => UInt16.ofNat c.toNat := by
  induction cs with
  | nil => rfl
  | cons c cs ih =>
    have hc := utf16Char_ascii (h c List.mem_cons_self)
    have hcs := ih fun d hd => h d (List.mem_cons_of_mem c hd)
    rw [utf16,List.flatMap_cons,hc,List.map_cons]
    exact congrArg (_ :: ·) hcs

theorem utf8_bytes_ascii {cs : List Char} : (∀ b ∈ utf8 cs, b.toNat < 128) ↔ Ascii cs := by
  constructor
  · intro h c hc
    by_contra hn
    obtain ⟨b,hb⟩ : ∃ b, b ∈ String.utf8EncodeChar c := by
      have hlen := utf8EncodeChar_long (Nat.not_lt.mp hn)
      exact List.exists_mem_of_length_pos (by omega)
    have hlt := h b (List.mem_flatMap.mpr ⟨c,hc,hb⟩)
    have hge := utf8EncodeChar_bytes (Nat.not_lt.mp hn) b hb
    omega
  · intro h b hb
    rw [utf8_ascii h,List.mem_map] at hb
    obtain ⟨c,hc,rfl⟩ := hb
    have hlt := h c hc
    rw [UInt8.toNat_ofNat_of_lt' (Nat.lt_trans hlt (by decide))]
    exact hlt

theorem utf8_nonzero {cs : List Char} (h : '\x00' ∉ cs) : 0 ∉ utf8 cs := by
  intro hzero
  obtain ⟨c,hc,hb⟩ := List.mem_flatMap.mp hzero
  rcases Nat.lt_or_ge c.toNat 128 with hlt | hge
  · rw [utf8EncodeChar_ascii hlt,List.mem_singleton] at hb
    have hn := congrArg UInt8.toNat hb
    rw [UInt8.toNat_ofNat_of_lt' (Nat.lt_trans hlt (by decide))] at hn
    have hnul : c = '\x00' := Char.toNat_inj.mp hn.symm
    exact h (hnul ▸ hc)
  · exact absurd (utf8EncodeChar_bytes hge 0 hb) (by decide)

theorem utf16_shorter (c : Char) : (utf16Char c).length ≤ (String.utf8EncodeChar c).length ∧
    (128 ≤ c.toNat → (utf16Char c).length < (String.utf8EncodeChar c).length) := by
  have hc : c.val.toNat = c.toNat := rfl
  simp only [utf16Char,String.utf8EncodeChar,hc]
  split_ifs <;> simp only [List.length_cons,List.length_nil] <;> omega

theorem utf16_length_le (cs : List Char) : (utf16 cs).length ≤ (utf8 cs).length := by
  induction cs with
  | nil => exact Nat.le_refl 0
  | cons c cs ih =>
    have hc := (utf16_shorter c).1
    simp only [utf16,utf8,List.flatMap_cons,List.length_append] at ih ⊢
    omega

theorem utf16_length_lt {cs : List Char} (h : ¬ Ascii cs) :
    (utf16 cs).length < (utf8 cs).length := by
  induction cs with
  | nil => exact absurd (fun c hc => absurd hc List.not_mem_nil) h
  | cons c cs ih =>
    obtain ⟨hle,hlt⟩ := utf16_shorter c
    have hrest := utf16_length_le cs
    simp only [utf16,utf8,List.flatMap_cons,List.length_append] at ih hrest ⊢
    by_cases hc : c.toNat < 128
    · have hcs : ¬ Ascii cs := fun hcs => h (List.forall_mem_cons.mpr ⟨hc,hcs⟩)
      have hrest := ih hcs
      omega
    · have hchar := hlt (Nat.not_lt.mp hc)
      omega

theorem latin1_toNat (b : UInt8) : (latin1 b).toNat = b.toNat := by
  have hb := b.toNat_lt
  have hvalid : b.toNat.isValidChar := .inl (by omega)
  rw [latin1,Char.ofNat,dif_pos hvalid]
  rfl

theorem utf16_latin1 (bs : List UInt8) : utf16 (bs.map latin1) = bs.map UInt8.toUInt16 := by
  induction bs with
  | nil => rfl
  | cons b bs ih =>
    have hb := b.toNat_lt
    have hc : utf16Char (latin1 b) = [b.toUInt16] := by
      have hwide := UInt8.toUInt16_ofNat' hb
      rw [UInt8.ofNat_toNat] at hwide
      rw [utf16Char,latin1_toNat,if_pos (by omega),hwide]
    rw [List.map_cons,List.map_cons,utf16,List.flatMap_cons,hc]
    exact congrArg (b.toUInt16 :: ·) ih

theorem utf8_latin1_length (bs : List UInt8) : bs.length ≤ (utf8 (bs.map latin1)).length ∧
    ((∃ b ∈ bs, 128 ≤ b.toNat) → bs.length < (utf8 (bs.map latin1)).length) := by
  induction bs with
  | nil => exact ⟨Nat.le_refl 0,fun ⟨_,hb,_⟩ => absurd hb List.not_mem_nil⟩
  | cons b bs ih =>
    obtain ⟨hle,hlt⟩ := ih
    have hc : 1 ≤ (String.utf8EncodeChar (latin1 b)).length := by
      rw [String.length_utf8EncodeChar]
      exact Char.utf8Size_pos _
    simp only [utf8,List.map_cons,List.flatMap_cons,List.length_append,List.length_cons]
      at hle hlt ⊢
    refine ⟨by omega,?_⟩
    rintro ⟨d,hd,hge⟩
    rcases List.mem_cons.mp hd with rfl | hd
    · have hlong := utf8EncodeChar_long (c := latin1 d) (by rw [latin1_toNat]; exact hge)
      omega
    · have hrest := hlt ⟨d,hd,hge⟩
      omega

theorem utf8_latin1_nonzero {bs : List UInt8} (h : 0 ∉ bs) : 0 ∉ utf8 (bs.map latin1) := by
  refine utf8_nonzero fun hzero => ?_
  obtain ⟨b,hb,hnul⟩ := List.mem_map.mp hzero
  have hn : b.toNat = 0 := by rw [← latin1_toNat,hnul]; rfl
  have hz : b = 0 := UInt8.toNat_inj.mp hn
  exact h (hz ▸ hb)

-- a high surrogate takes the unit after it, a missing one ends the text
def decodeUtf16 : List UInt16 → List Char
  | [] => []
  | u :: us =>
    if 0xd800 ≤ u.toNat ∧ u.toNat < 0xdc00 then
      match us with
      | [] => []
      | v :: vs =>
        Char.ofNat (0x10000 + (u.toNat - 0xd800) * 0x400 + (v.toNat - 0xdc00)) :: decodeUtf16 vs
    else Char.ofNat u.toNat :: decodeUtf16 us

theorem decodeUtf16_char (c : Char) (us : List UInt16) :
    decodeUtf16 (utf16Char c ++ us) = c :: decodeUtf16 us := by
  obtain ⟨hmax,hscalar⟩ := char_lt c
  rw [utf16Char]
  split_ifs with h
  · have hn : (UInt16.ofNat c.toNat).toNat = c.toNat := UInt16.toNat_ofNat_of_lt' h
    rw [List.singleton_append,decodeUtf16.eq_def]
    simp only [hn]
    rw [if_neg (by omega),Char.ofNat_toNat]
  · have hhigh : (UInt16.ofNat (0xd800 + (c.toNat - 0x10000) / 0x400)).toNat =
        0xd800 + (c.toNat - 0x10000) / 0x400 :=
      UInt16.toNat_ofNat_of_lt' (Nat.lt_of_le_of_lt (m := 0xdbff) (by omega) (by decide))
    have hlow : (UInt16.ofNat (0xdc00 + (c.toNat - 0x10000) % 0x400)).toNat =
        0xdc00 + (c.toNat - 0x10000) % 0x400 :=
      UInt16.toNat_ofNat_of_lt' (Nat.lt_of_le_of_lt (m := 0xdfff) (by omega) (by decide))
    have hsum : 0x10000 + (0xd800 + (c.toNat - 0x10000) / 0x400 - 0xd800) * 0x400 +
        (0xdc00 + (c.toNat - 0x10000) % 0x400 - 0xdc00) = c.toNat := by omega
    rw [List.cons_append,List.singleton_append,decodeUtf16.eq_def]
    simp only [hhigh]
    rw [if_pos (by omega)]
    simp only [hlow,hsum,Char.ofNat_toNat]

theorem decodeUtf16_utf16 (cs : List Char) : decodeUtf16 (utf16 cs) = cs := by
  induction cs with
  | nil => rfl
  | cons c cs ih =>
    rw [utf16,List.flatMap_cons,decodeUtf16_char]
    exact congrArg (c :: ·) ih

def decodeUtf8 (bs : List UInt8) : List Char := (bs.toByteArray.utf8Decode?.getD #[]).toList

theorem decodeUtf8_utf8 (cs : List Char) : decodeUtf8 (utf8 cs) = cs := by
  have hdecode : (utf8 cs).toByteArray.utf8Decode? = some cs.toArray := List.utf8Decode?_utf8Encode
  rw [decodeUtf8,hdecode]
  rfl

end Unicode
