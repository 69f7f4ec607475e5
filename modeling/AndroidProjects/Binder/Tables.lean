import AndroidProjects.Binder.Puts
import AndroidProjects.Binder.Parse

namespace Binder
open ByteMemory Layout

section
variable {A : Abi}

def recordedOffsets (A : Abi) (io : BinderIo) : ℕ := io.offsBytes.length / A.binderSizeT.bytes

structure LayoutConsistent (A : Abi) (io : BinderIo) : Prop where
  apart : ∀ x, io.offs0 ≤ x → x < io.offs → x < io.data0 ∨ io.data ≤ x
  counted : ∀ (m : Mem) (txn : BinderTransactionData A),
    txn.offsetsSize.toNat = io.offsBytes.length →
      (bioInitFromTxn A m txn).offsAvail = recordedOffsets A io

section
variable {maxdata maxoffs : A.Uintptr} {vs : List (Put A)}
  (h : PutsFit A maxdata maxoffs vs) (io : BinderIo) (m : Mem) (data : ℕ)
include h

theorem filled_offsBytes : (filled A io m data maxdata maxoffs vs).offsBytes.length =
    A.binderSizeT.bytes * pieceSlots (vs.flatMap Put.pieces) := by
  rw [offsBytes_filled h,slice_length]

theorem filled_recorded : recordedOffsets A (filled A io m data maxdata maxoffs vs) =
    pieceSlots (vs.flatMap Put.pieces) := by
  have hb := A.binderSizeT.bytes_pos
  rw [recordedOffsets,filled_offsBytes h,Nat.mul_div_cancel_left _ hb]

omit io m data

theorem slots_small : 16 * pieceSlots (vs.flatMap Put.pieces) < A.sizeT.modulus := by
  have hle := slots_extent (vs.flatMap Put.pieces)
  have hmax := toNat_lt_pow maxdata
  have hm : A.sizeT.modulus = 256 ^ A.sizeT.bytes := rfl
  obtain ⟨-,hfit,-⟩ := h
  omega

end

theorem exists_offsetsSize {n : ℕ} (h : n < 2 ^ (8 * A.binderSizeT.bytes)) :
    ∃ txn : BinderTransactionData A, txn.offsetsSize.toNat = n := by
  refine ⟨⟨0,0,0,0,0,0,0,BitVec.ofNat _ n,4096,4096⟩,?_⟩
  rw [BitVec.toNat_ofNat]
  exact Nat.mod_eq_of_lt h

def TablesFit (A : Abi) (maxoffs : A.Uintptr) (vs : List (Put A)) : Prop :=
  pieceSlots (vs.flatMap Put.pieces) = 0 ∨
    A.sizeT = A.binderSizeT ∧
      A.binderSizeT.bytes * pieceSlots (vs.flatMap Put.pieces) ≤ reserved A maxoffs

theorem counted_of_eq (hs : A.sizeT = A.binderSizeT) {k : ℕ} (hk : 16 * k < A.sizeT.modulus) :
    A.sizeT.wrap (A.binderSizeT.bytes * k / A.sizeT.bytes) = k := by
  have hb := A.sizeT.bytes_pos
  rw [← hs,Nat.mul_div_cancel_left _ hb]
  exact Word.wrap_of_lt (by omega)

theorem counted_of_ne (hs : A.sizeT ≠ A.binderSizeT) {k : ℕ} (hk : 16 * k < A.sizeT.modulus) :
    A.sizeT.wrap (A.binderSizeT.bytes * k / A.sizeT.bytes) = 2 * k := by
  obtain ⟨h4,h8⟩ := binderSizeT_of_ne hs
  have hhalf : 8 * k / 4 = 2 * k := by omega
  rw [h4,h8,hhalf]
  exact Word.wrap_of_lt (by omega)

section
variable {maxdata maxoffs : A.Uintptr} {vs : List (Put A)}
  (h : PutsFit A maxdata maxoffs vs) (io : BinderIo) (m : Mem) (data : ℕ)
include h

theorem counted_tables (hk : pieceSlots (vs.flatMap Put.pieces) ≠ 0)
    (hc : LayoutConsistent A (filled A io m data maxdata maxoffs vs)) :
    A.sizeT = A.binderSizeT := by
  have hsmall := slots_small h
  have hlen := filled_offsBytes h io m data
  have hb := A.binderSizeT.bytes_le_eight
  have hmul := Nat.mul_le_mul_right (pieceSlots (vs.flatMap Put.pieces)) hb
  have hle : A.sizeT.modulus ≤ 2 ^ (8 * A.binderSizeT.bytes) := by
    rw [Word.modulus,Nat.pow_mul]
    exact Nat.pow_le_pow_right (by decide) A.sizeT_le
  by_contra hs
  obtain ⟨txn,htxn⟩ := exists_offsetsSize (A := A)
    (n := A.binderSizeT.bytes * pieceSlots (vs.flatMap Put.pieces)) (by omega)
  have hcount : A.sizeT.wrap (txn.offsetsSize.toNat / A.sizeT.bytes) = _ :=
    hc.counted m txn (htxn.trans hlen.symm)
  rw [filled_recorded h,htxn,counted_of_ne hs hsmall] at hcount
  omega

theorem apart_iff_reserved (hk : pieceSlots (vs.flatMap Put.pieces) ≠ 0) :
    (∀ x, (filled A io m data maxdata maxoffs vs).offs0 ≤ x →
      x < (filled A io m data maxdata maxoffs vs).offs →
        x < (filled A io m data maxdata maxoffs vs).data0 ∨
          (filled A io m data maxdata maxoffs vs).data ≤ x) ↔
      A.binderSizeT.bytes * pieceSlots (vs.flatMap Put.pieces) ≤ reserved A maxoffs := by
  obtain ⟨hdata0,hdata⟩ := filled_data h io m data
  obtain ⟨hoffs0,hoffs⟩ := filled_offs h io m data
  have hext := slots_extent (vs.flatMap Put.pieces)
  rw [hdata0,hdata,hoffs0,hoffs]
  constructor
  · intro hapart
    by_contra hgt
    have hx := hapart (data + reserved A maxoffs) (Nat.le_add_right _ _) (by omega)
    omega
  · intro hle x h1 h2
    exact .inl (by omega)

end

theorem layout_consistent_iff_tables_fit (io : BinderIo) (m : Mem) (data : ℕ)
    (maxdata maxoffs : A.Uintptr) (vs : List (Put A)) :
    let msg := filled A io m data maxdata maxoffs vs
    (¬ msg.overflow → LayoutConsistent A msg) ↔
      (PutsFit A maxdata maxoffs vs → TablesFit A maxoffs vs) := by
  intro msg
  have hover : ¬ msg.overflow ↔ PutsFit A maxdata maxoffs vs := by
    rw [filled_overflow_iff,not_not]
  rw [hover]
  refine forall_congr' fun hfit => ?_
  constructor
  · intro hc
    rw [TablesFit,or_iff_not_imp_left]
    intro hk
    exact ⟨counted_tables hfit io m data hk hc,
      (apart_iff_reserved hfit io m data hk).mp hc.apart⟩
  · intro ht
    obtain ⟨hoffs0,hoffs⟩ := filled_offs hfit io m data
    refine ⟨?_,fun m' txn htxn => ?_⟩
    · by_cases hk : pieceSlots (vs.flatMap Put.pieces) = 0
      · intro x h1 h2
        rw [hoffs0] at h1
        rw [hoffs,hk] at h2
        omega
      · exact (apart_iff_reserved hfit io m data hk).mpr (ht.resolve_left hk).2
    · change A.sizeT.wrap (txn.offsetsSize.toNat / A.sizeT.bytes) = _
      rw [filled_recorded hfit,htxn,filled_offsBytes hfit]
      rcases ht with hk | ⟨hs,-⟩
      · rw [hk,Nat.mul_zero,Nat.zero_div,Word.wrap,Nat.zero_mod]
      · exact counted_of_eq hs (slots_small hfit)

end

def mixedAbi : Abi := ⟨.four,.eight,by decide⟩

theorem mixed_build_miscounts :
    ¬ ∀ (A : Abi) (io : BinderIo) (m : Mem) (data : ℕ) (maxdata maxoffs : A.Uintptr)
      (vs : List (Put A)), ¬ (filled A io m data maxdata maxoffs vs).overflow →
      LayoutConsistent A (filled A io m data maxdata maxoffs vs) := by
  intro hall
  have hc := hall mixedAbi ⟨fun _ => 0,0,0,0,0,0,0,0⟩ (fun _ => 0) 0 64 4 [.obj 16]
    (by rw [filled_overflow_iff]; decide)
  have hcount := hc.counted (fun _ => 0) ⟨0,0,0,0,0,0,0,8,4096,4096⟩ (by decide)
  exact absurd hcount (by decide)

end Binder
