import AndroidProjects.Binder.Parcel

namespace Binder
open ByteMemory

section
variable {A : Abi}

structure Reads (A : Abi) (m : Mem) (txn : BinderTransactionData A) (io : BinderIo) : Prop where
  mem : io.mem = m
  data0 : io.data0 = A.sizeT.wrap txn.buffer.toNat
  offs : io.offs = A.sizeT.wrap txn.offsets.toNat
  offsAvail : io.offsAvail = A.sizeT.wrap (txn.offsetsSize.toNat / A.sizeT.bytes)
  start : io.data0 ≤ io.data
  within : io.data - io.data0 + io.dataAvail ≤ A.sizeT.wrap txn.dataSize.toNat

theorem reads_init (m : Mem) (txn : BinderTransactionData A) :
    Reads A m txn (bioInitFromTxn A m txn) where
  mem := rfl
  data0 := rfl
  offs := rfl
  offsAvail := rfl
  start := le_rfl
  within := by simp [bioInitFromTxn]

inductive Got (A : Abi) (io : BinderIo) (size : ℕ) : Option ℕ × BinderIo → Prop
  | short (h : io.dataAvail < roundUp A size) :
      Got A io size (none,{io with dataAvail := 0, flags := io.flags ||| bioFOverflow})
  | taken (h : roundUp A size ≤ io.dataAvail) :
      Got A io size (some io.data,{io with
        data := io.data + roundUp A size
        dataAvail := io.dataAvail - roundUp A size})

theorem bioGet_got (io : BinderIo) (size : ℕ) : Got A io size (bioGet A io size) := by
  rw [bioGet]
  split_ifs with h
  · exact .short h
  · exact .taken (Nat.not_lt.mp h)

theorem bioGetUint32_state (io : BinderIo) : (bioGetUint32 A io).2 = (bioGet A io 4).2 := by
  rw [bioGetUint32]
  generalize bioGet A io 4 = out
  obtain ⟨p,io'⟩ := out
  cases p with
  | none => rfl
  | some p => rfl

theorem bioGetRef_state (io : BinderIo) : (bioGetRef A io).2 = (bioGetObj A io).2 := by
  rw [bioGetRef]
  generalize bioGetObj A io = out
  obtain ⟨obj,io'⟩ := out
  cases obj with
  | none => rfl
  | some obj =>
    simp only []
    split_ifs
    · rfl
    · rfl

-- all that a get does to a reader: it takes bytes off the front of the data, or ends it
structure Stable (I : BinderIo → Prop) : Prop where
  exhaust {io : BinderIo} : I io → I {io with dataAvail := 0, flags := io.flags ||| bioFOverflow}
  take {io : BinderIo} {n : ℕ} : n ≤ io.dataAvail → I io →
    I {io with data := io.data + n, dataAvail := io.dataAvail - n}

namespace Stable
variable {I : BinderIo → Prop} (hs : Stable I) {io : BinderIo} (h : I io)
include hs h

theorem bytes (size : ℕ) : I (bioGet A io size).2 := by
  have hg := bioGet_got (A := A) io size
  generalize bioGet A io size = out at hg ⊢
  cases hg with
  | short _ => exact hs.exhaust h
  | taken hfit => exact hs.take hfit h

theorem uint32 : I (bioGetUint32 A io).2 := by
  rw [bioGetUint32_state]
  exact hs.bytes h 4

theorem string16 : I (bioGetString16 A io).2.2 := hs.bytes (hs.uint32 h) _

theorem ref : I (bioGetRef A io).2 := by
  rw [bioGetRef_state,bioGetObj]
  split_ifs
  · exact hs.bytes h _
  · exact hs.exhaust h

end Stable

theorem reads_stable {m : Mem} {txn : BinderTransactionData A} : Stable (Reads A m txn) where
  exhaust hr := by
    refine {hr with within := ?_}
    exact (Nat.le_add_right _ 0).trans (Nat.le_of_add_right_le hr.within)
  take hfit hr := by
    have hs := hr.start
    have hw := hr.within
    refine {hr with start := ?_, within := ?_}
    all_goals
      simp only []
      omega

theorem roundUp_of_lt {n : ℕ} (h : n + 3 < 2 ^ 32) : roundUp A n = (n+3)/4*4 := by
  rw [roundUp,Word.wrap_of_lt (h.trans_le A.sizeT.modulus_ge)]

theorem binderSizeT_of_ne (h : A.sizeT ≠ A.binderSizeT) :
    A.sizeT.bytes = 4 ∧ A.binderSizeT.bytes = 8 := by
  obtain ⟨s,b,hle⟩ := A
  cases s <;> cases b
  · exact absurd rfl h
  · exact ⟨rfl,rfl⟩
  · exact absurd hle (by decide)
  · exact absurd rfl h

theorem sizeofFlatBinderObject_cases (A : Abi) :
    A.sizeofFlatBinderObject = 16 ∨ A.sizeofFlatBinderObject = 24 := by
  obtain ⟨a,b,h⟩ := A
  cases b
  · exact .inl rfl
  · exact .inr rfl

theorem roundUp_sizeofFlatBinderObject (A : Abi) :
    roundUp A A.sizeofFlatBinderObject = A.sizeofFlatBinderObject := by
  rcases sizeofFlatBinderObject_cases A with h | h <;> rw [h,roundUp_of_lt (by omega)]

def Listed (A : Abi) (io : BinderIo) (off : ℕ) : Prop :=
  ∃ n < io.offsAvail,
    load io.mem (io.offs + n * A.binderSizeT.bytes) A.binderSizeT.bytes = off

theorem bioGetObj_some {io io' : BinderIo} {obj : ℕ} (h : bioGetObj A io = (some obj,io')) :
    Listed A io (io.data - io.data0) ∧ A.sizeofFlatBinderObject ≤ io.dataAvail ∧
      obj = io.data ∧ io'.mem = io.mem := by
  rw [bioGetObj] at h
  simp only [List.any_eq_true,List.mem_range,beq_iff_eq] at h
  split_ifs at h with hl
  · have hg := bioGet_got (A := A) io A.sizeofFlatBinderObject
    rw [h] at hg
    cases hg with
    | taken ht =>
      rw [roundUp_sizeofFlatBinderObject] at ht
      exact ⟨hl,ht,rfl,rfl⟩
  · cases h

theorem bioGetRef_ne_zero {io : BinderIo} (h : (bioGetRef A io).1 ≠ 0) :
    Listed A io (io.data - io.data0) ∧ A.sizeofFlatBinderObject ≤ io.dataAvail ∧
      load32 io.mem io.data = binderTypeHandle ∧
          load32 io.mem (io.data+8) = (bioGetRef A io).1 := by
  rw [bioGetRef] at h ⊢
  generalize hout : bioGetObj A io = out at h ⊢
  obtain ⟨obj,io'⟩ := out
  cases obj with
  | none => exact absurd rfl h
  | some obj =>
    obtain ⟨hl,hsize,rfl,hmem⟩ := bioGetObj_some hout
    simp only [hmem] at h ⊢
    split_ifs at h ⊢ with hty
    · exact ⟨hl,hsize,hty,rfl⟩
    · exact absurd rfl h

end

section
variable {w : Word}

theorem wrap_toNat (v : (Abi.uniform w).BinderUintptr) : w.wrap v.toNat = v.toNat :=
  Word.wrap_of_lt (toNat_lt_pow v)

theorem wrap_div_toNat (v : (Abi.uniform w).BinderUintptr) (k : ℕ) :
    w.wrap (v.toNat / k) = v.toNat / k :=
  Word.wrap_of_lt ((Nat.div_le_self _ _).trans_lt (toNat_lt_pow v))

def objectAt (w : Word) (m : Mem) (txn : BinderTransactionData (Abi.uniform w)) (n : ℕ) : ℕ :=
  load m (txn.offsets.toNat + n * w.bytes) w.bytes

def HandleAt (w : Word) (m : Mem) (txn : BinderTransactionData (Abi.uniform w)) (off : ℕ) : Prop :=
  off + (Abi.uniform w).sizeofFlatBinderObject ≤ txn.dataSize.toNat ∧
    load32 m (txn.buffer.toNat + off) = binderTypeHandle

instance (w : Word) (m : Mem) (txn : BinderTransactionData (Abi.uniform w)) (off : ℕ) :
    Decidable (HandleAt w m txn off) := inferInstanceAs (Decidable (_ ∧ _))

def heldHandles (w : Word) (m : Mem) (txn : BinderTransactionData (Abi.uniform w)) : List UInt32 :=
  (List.range (txn.offsetsSize.toNat / w.bytes)).filterMap fun n =>
    if HandleAt w m txn (objectAt w m txn n) then
      some (load32 m (txn.buffer.toNat + objectAt w m txn n + 8))
    else none

theorem mem_heldHandles {m : Mem} {txn : BinderTransactionData (Abi.uniform w)} {h : UInt32} :
    h ∈ heldHandles w m txn ↔ ∃ n < txn.offsetsSize.toNat / w.bytes,
      HandleAt w m txn (objectAt w m txn n) ∧
        load32 m (txn.buffer.toNat + objectAt w m txn n + 8) = h := by
  simp only [heldHandles,List.mem_filterMap,List.mem_range]
  constructor
  · rintro ⟨n,hn,he⟩
    split_ifs at he with hat
    exact ⟨n,hn,hat,Option.some.inj he⟩
  · rintro ⟨n,hn,hat,he⟩
    exact ⟨n,hn,by rw [if_pos hat,he]⟩

section
variable {m : Mem} {txn : BinderTransactionData (Abi.uniform w)} {io : BinderIo}
  (hr : Reads (Abi.uniform w) m txn io)
include hr

theorem Reads.buffer : io.data0 = txn.buffer.toNat := hr.data0.trans (wrap_toNat txn.buffer)

theorem Reads.offsets : io.offs = txn.offsets.toNat := hr.offs.trans (wrap_toNat txn.offsets)

theorem Reads.entries : io.offsAvail = txn.offsetsSize.toNat / w.bytes :=
  hr.offsAvail.trans (wrap_div_toNat txn.offsetsSize w.bytes)

theorem Reads.bound : io.data - io.data0 + io.dataAvail ≤ txn.dataSize.toNat :=
  hr.within.trans_eq (wrap_toNat txn.dataSize)

end

theorem bioGetRef_held {m : Mem} {txn : BinderTransactionData (Abi.uniform w)} {io : BinderIo}
    (hr : Reads (Abi.uniform w) m txn io) (h : (bioGetRef (Abi.uniform w) io).1 ≠ 0) :
    (bioGetRef (Abi.uniform w) io).1 ∈ heldHandles w m txn := by
  obtain ⟨⟨n,hn,hoff⟩,hsize,hty,hh⟩ := bioGetRef_ne_zero h
  have hwithin := hr.bound
  have hbase : txn.buffer.toNat + (io.data - io.data0) = io.data := by
    rw [← hr.buffer]
    exact Nat.add_sub_cancel' hr.start
  have hentry : objectAt w m txn n = io.data - io.data0 := by
    rw [hr.mem,hr.offsets] at hoff
    exact hoff
  rw [hr.mem] at hty hh
  rw [hr.entries] at hn
  refine mem_heldHandles.mpr ⟨n,hn,⟨?_,?_⟩,?_⟩
  · rw [hentry]
    omega
  · rw [hentry,hbase]
    exact hty
  · rw [hentry,hbase]
    exact hh

end

end Binder
