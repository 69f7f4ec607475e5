import AndroidProjects.Binder.Reader
import AndroidProjects.Foundation.Machine

namespace Binder
open ByteMemory

inductive Get where
  | uint32
  | string16
  | ref
  deriving DecidableEq, Repr

section
variable (A : Abi)

namespace Get

def run (io : BinderIo) : Get → BinderIo
  | uint32 => (bioGetUint32 A io).2
  | string16 => (bioGetString16 A io).2.2
  | ref => (bioGetRef A io).2

end Get

def readTo (m : Mem) (txn : BinderTransactionData A) (gs : List Get) : BinderIo :=
  Machine.run (Get.run A) (bioInitFromTxn A m txn) gs

-- where the string of a non-null answer lies, in the data left after its length
def StringInside (io : BinderIo) : Prop :=
  let rest := (bioGetUint32 A io).2
  let len := (bioGetString16 A io).2.1
  ∀ p, (bioGetString16 A io).1 = some p →
    p = rest.data ∧ 2 * (len+1) ≤ rest.dataAvail ∧
      (bioGetString16 A io).2.2.data = p + (2 * (len+1) + 3) / 4 * 4

-- the length at the cursor: small enough for size_t, or too large for what is left when it wraps
def LengthHonest (io : BinderIo) : Prop :=
  let n := 2 * ((load32 io.mem io.data).toNat + 1) + 3
  n < A.sizeT.modulus ∨ io.dataAvail < 4 + n % A.sizeT.modulus / 4 * 4

end

section
variable {A : Abi}

theorem Stable.get {I : BinderIo → Prop} (hs : Stable I) {io : BinderIo} (h : I io) (g : Get) :
    I (g.run A io) := by
  cases g with
  | uint32 => exact hs.uint32 h
  | string16 => exact hs.string16 h
  | ref => exact hs.ref h

theorem Stable.gets {I : BinderIo → Prop} (hs : Stable I) {io : BinderIo} (h : I io)
    (gs : List Get) : I (Machine.run (Get.run A) io gs) := by
  have keep : ∀ io g, I io → I (Get.run A io g) := fun _ g h => hs.get h g
  exact Machine.run_invariant (Get.run A) keep h gs

theorem reads_readTo (m : Mem) (txn : BinderTransactionData A) (gs : List Get) :
    Reads A m txn (readTo A m txn gs) := reads_stable.gets (reads_init m txn) gs

theorem reads_small {m : Mem} {txn : BinderTransactionData A} {io : BinderIo}
    (hr : Reads A m txn io) : io.dataAvail < A.sizeT.modulus := by
  have hw := hr.within
  have hlt : A.sizeT.wrap txn.dataSize.toNat < A.sizeT.modulus :=
    Nat.mod_lt _ (Nat.pow_pos (by decide))
  omega

theorem roundUp_sizeofUnits (len : ℕ) :
    roundUp A (sizeofUnits A len) = (2 * (len+1) + 3) % A.sizeT.modulus / 4 * 4 := by
  have hunits : sizeofUnits A len = 2 * (len+1) % A.sizeT.modulus := by
    rw [sizeofUnits,Word.wrap,Word.wrap,Nat.mod_mul_mod,Nat.mul_comm]
  rw [roundUp,hunits,Word.wrap,Nat.mod_add_mod]

theorem bioGetUint32_short {io : BinderIo} (h : io.dataAvail < 4) : bioGetUint32 A io =
    (0,{io with dataAvail := 0, flags := io.flags ||| bioFOverflow}) := by
  have hfour : roundUp A 4 = 4 := roundUp_of_lt (by omega)
  rw [bioGetUint32,bioGet,hfour,if_pos h]

theorem bioGetUint32_long {io : BinderIo} (h : 4 ≤ io.dataAvail) : bioGetUint32 A io =
    (load32 io.mem io.data,{io with data := io.data + 4, dataAvail := io.dataAvail - 4}) := by
  have hfour : roundUp A 4 = 4 := roundUp_of_lt (by omega)
  rw [bioGetUint32,bioGet,hfour,if_neg (Nat.not_lt.mpr h)]

theorem bioGetString16_short {io : BinderIo} (h : io.dataAvail < 4) :
    (bioGetString16 A io).1 = none := by
  have hm := A.sizeT.modulus_ge
  have hzero : (0 : UInt32).toNat = 0 := rfl
  have htwo : roundUp A (sizeofUnits A 0) = 4 := by
    rw [roundUp_sizeofUnits,Nat.mod_eq_of_lt (by omega)]
  rw [bioGetString16,bioGetUint32_short h]
  simp only [hzero,bioGet,htwo]
  rfl

theorem bioGetString16_long {io : BinderIo} (h : 4 ≤ io.dataAvail) :
    let rest : BinderIo := {io with data := io.data + 4, dataAvail := io.dataAvail - 4}
    let len := (load32 io.mem io.data).toNat
    bioGetString16 A io =
      ((bioGet A rest (sizeofUnits A len)).1,len,(bioGet A rest (sizeofUnits A len)).2) := by
  rw [bioGetString16,bioGetUint32_long h]

theorem string_inside_iff_length_honest (m : Mem) (txn : BinderTransactionData A)
    (gs : List Get) :
    StringInside A (readTo A m txn gs) ↔ LengthHonest A (readTo A m txn gs) := by
  have hsmall := reads_small (reads_readTo m txn gs)
  generalize readTo A m txn gs = io at hsmall ⊢
  rcases Nat.lt_or_ge io.dataAvail 4 with hshort | hlong
  · have hnone := bioGetString16_short (A := A) hshort
    refine iff_of_true (fun p hp => ?_) (.inr (by omega))
    rw [hnone] at hp
    cases hp
  have hstring := bioGetString16_long (A := A) hlong
  rw [StringInside,LengthHonest,hstring,bioGetUint32_long hlong]
  simp only []
  generalize (load32 io.mem io.data).toNat = len
  have hg := bioGet_got (A := A) {io with data := io.data + 4, dataAvail := io.dataAvail - 4}
    (sizeofUnits A len)
  generalize bioGet A _ (sizeofUnits A len) = out at hg ⊢
  cases hg with
  | short h =>
    rw [roundUp_sizeofUnits] at h
    simp only [] at h
    refine iff_of_true (fun p hp => ?_) (.inr (by omega))
    cases hp
  | taken h =>
    rw [roundUp_sizeofUnits] at h ⊢
    simp only [] at h
    constructor
    · intro hin
      obtain ⟨-,hfit,-⟩ := hin _ rfl
      exact .inl (by omega)
    · rintro (hexact | hbad) p hp
      · rw [Nat.mod_eq_of_lt hexact] at h ⊢
        cases hp
        exact ⟨rfl,by omega,rfl⟩
      · omega

theorem length_honest_of_eight (h : A.sizeT = .eight) (io : BinderIo) : LengthHonest A io := by
  have hlen := (load32 io.mem io.data).toNat_lt
  refine .inl ?_
  rw [h,Word.modulus,Word.bytes]
  omega

end

def endlessLength : Mem := fun _ => 255

def endlessTxn : BinderTransactionData (Abi.uniform .four) :=
  ⟨0,0,0,0,0,0,4,0,4096,4100⟩

theorem endless_string_accepted :
    ¬ ∀ (A : Abi) (m : Mem) (txn : BinderTransactionData A) (gs : List Get),
      StringInside A (readTo A m txn gs) := by
  intro hall
  obtain ⟨-,hfit,-⟩ := hall (Abi.uniform .four) endlessLength endlessTxn [] 4100
    (by decide +kernel)
  exact absurd hfit (by decide +kernel)

end Binder
