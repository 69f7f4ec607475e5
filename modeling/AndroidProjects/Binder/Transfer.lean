import AndroidProjects.Binder.Parse
import AndroidProjects.Binder.Writer

namespace Binder
open ByteMemory Layout

section
variable {A : Abi}

structure Readable (A : Abi) (m : Mem) (txn : BinderTransactionData A) (vs : List (Item A)) :
    Prop where
  dataSize : A.sizeT.wrap txn.dataSize.toNat = extent Item.size vs
  table : ∀ n off, (marks Item.size Item.isObject 0 vs)[n]? = some off →
    n < A.sizeT.wrap (txn.offsetsSize.toNat / A.sizeT.bytes) ∧
    load m (A.sizeT.wrap txn.offsets.toNat + n * A.binderSizeT.bytes) A.binderSizeT.bytes = off
  placed : Placed Item.size (fun p v => v.At m p) (A.sizeT.wrap txn.buffer.toNat) vs

structure Reading (A : Abi) (m : Mem) (txn : BinderTransactionData A) (us ws : List (Item A))
    (io : BinderIo) : Prop where
  mem : io.mem = m
  data0 : io.data0 = A.sizeT.wrap txn.buffer.toNat
  offs : io.offs = A.sizeT.wrap txn.offsets.toNat
  offsAvail : io.offsAvail = A.sizeT.wrap (txn.offsetsSize.toNat / A.sizeT.bytes)
  data : io.data = A.sizeT.wrap txn.buffer.toNat + extent Item.size us
  dataAvail : io.dataAvail = extent Item.size ws
  flags : io.flags = bioFShared

theorem reading_init {m : Mem} {txn : BinderTransactionData A} {vs : List (Item A)}
    (hr : Readable A m txn vs) : Reading A m txn [] vs (bioInitFromTxn A m txn) where
  mem := rfl
  data0 := rfl
  offs := rfl
  offsAvail := rfl
  data := rfl
  dataAvail := hr.dataSize
  flags := rfl

section
variable {m : Mem} {txn : BinderTransactionData A} {us ws : List (Item A)} {io : BinderIo}

theorem reading_at {v : Item A} (hr : Readable A m txn (us ++ v :: ws))
    (hio : Reading A m txn us (v :: ws) io) : v.At m io.data := by
  have hp := (placed_append.mp hr.placed).2.1
  rw [hio.data]
  exact hp

theorem reading_get {v : Item A} (hio : Reading A m txn us (v :: ws) io) (size : ℕ)
    (hsize : roundUp A size = v.size) :
    (bioGet A io size).1 = some io.data ∧ Reading A m txn (us ++ [v]) ws (bioGet A io size).2 := by
  have havail := hio.dataAvail
  rw [extent_cons] at havail
  have hg := bioGet_got (A := A) io size
  generalize bioGet A io size = out at hg ⊢
  cases hg with
  | short h =>
    rw [hsize] at h
    omega
  | taken h =>
    refine ⟨rfl,⟨hio.mem,hio.data0,hio.offs,hio.offsAvail,?_,?_,hio.flags⟩⟩
    · simp only [extent_append,extent_cons,extent_nil,hsize,hio.data]
      omega
    · simp only [hsize]
      omega

theorem reading_uint32 {n : UInt32} (hr : Readable A m txn (us ++ .uint32 n :: ws))
    (hio : Reading A m txn us (.uint32 n :: ws) io) :
    (bioGetUint32 A io).1 = n ∧ Reading A m txn (us ++ [.uint32 n]) ws (bioGetUint32 A io).2 := by
  have hat := reading_at hr hio
  obtain ⟨hptr,hnext⟩ := reading_get hio 4 (roundUp_of_lt (by omega))
  rw [bioGetUint32]
  generalize bioGet A io 4 = out at hptr hnext ⊢
  obtain ⟨ptr,io'⟩ := out
  subst hptr
  refine ⟨?_,hnext⟩
  change load32 io'.mem io.data = n
  rw [hnext.mem]
  exact hat

theorem reading_string16 {str : List UInt16} (hlen : str.length < maxBioSize / 2)
    (hr : Readable A m txn (us ++ .uint32 (UInt32.ofNat str.length) :: .units str :: ws))
    (hio : Reading A m txn us (.uint32 (UInt32.ofNat str.length) :: .units str :: ws) io) :
    ∃ p, (bioGetString16 A io).1 = some p ∧ (bioGetString16 A io).2.1 = str.length ∧
      loadUnits m p str.length = str ∧
      Reading A m txn (us ++ [.uint32 (UInt32.ofNat str.length),.units str]) ws
        (bioGetString16 A io).2.2 := by
  obtain ⟨hval,hnext⟩ := reading_uint32 hr hio
  have hn : (bioGetUint32 A io).1.toNat = str.length := by
    rw [hval]
    exact UInt32.toNat_ofNat_of_lt' (hlen.trans (by decide))
  have hsplit : us ++ .uint32 (UInt32.ofNat str.length) :: .units str :: ws =
      (us ++ [.uint32 (UInt32.ofNat str.length)]) ++ .units str :: ws := by simp
  rw [hsplit] at hr
  have hat := reading_at hr hnext
  obtain ⟨hptr,hlast⟩ := reading_get hnext (sizeofUnits A str.length) rfl
  rw [List.append_assoc] at hlast
  simp only [bioGetString16,hn]
  exact ⟨_,hptr,trivial,hat,hlast⟩

theorem reading_ref {h : UInt32} (hr : Readable A m txn (us ++ .object (.handle h) :: ws))
    (hio : Reading A m txn us (.object (.handle h) :: ws) io) :
    (bioGetRef A io).1 = h ∧
      Reading A m txn (us ++ [.object (.handle h)]) ws (bioGetRef A io).2 := by
  obtain ⟨hty,hval⟩ := reading_at hr hio
  have hmark := marks_getElem? Item.size Item.isObject 0 us (v := .object (.handle h)) rfl ws
  obtain ⟨hlt,hload⟩ := hr.table _ _ hmark
  obtain ⟨hptr,hnext⟩ := reading_get hio A.sizeofFlatBinderObject
    (roundUp_sizeofFlatBinderObject A)
  have hlisted : (List.range io.offsAvail).any (fun n =>
      load io.mem (io.offs + n * A.binderSizeT.bytes) A.binderSizeT.bytes ==
        io.data - io.data0) = true := by
    rw [List.any_eq_true]
    refine ⟨us.countP Item.isObject,List.mem_range.mpr (hio.offsAvail ▸ hlt),?_⟩
    rw [beq_iff_eq,hio.mem,hio.offs,hload,hio.data,hio.data0]
    omega
  rw [bioGetRef,bioGetObj]
  simp only [hlisted,if_true]
  generalize bioGet A io A.sizeofFlatBinderObject = out at hptr hnext ⊢
  obtain ⟨ptr,io'⟩ := out
  subst hptr
  have hm : io'.mem = m := hnext.mem
  have hcond : load32 io'.mem io.data = binderTypeHandle := by rw [hm]; exact hty
  simp only [if_pos hcond]
  refine ⟨?_,hnext⟩
  rw [hm]
  exact hval

theorem read_uint32 {n : UInt32} {ws : List (Item A)} (hr : Readable A m txn (.uint32 n :: ws)) :
    (bioGetUint32 A (bioInitFromTxn A m txn)).1 = n ∧
      Reading A m txn [.uint32 n] ws (bioGetUint32 A (bioInitFromTxn A m txn)).2 := by
  have hsplit : .uint32 n :: ws = [] ++ .uint32 n :: ws := rfl
  rw [hsplit] at hr
  exact reading_uint32 hr (reading_init hr)

theorem read_string16 {str : List UInt16} (hlen : str.length < maxBioSize / 2)
    {ws : List (Item A)}
    (hr : Readable A m txn (.uint32 (UInt32.ofNat str.length) :: .units str :: ws)) :
    ∃ p, (bioGetString16 A (bioInitFromTxn A m txn)).1 = some p ∧
      (bioGetString16 A (bioInitFromTxn A m txn)).2.1 = str.length ∧
      loadUnits m p str.length = str := by
  have hall : Readable A m txn
      ([] ++ .uint32 (UInt32.ofNat str.length) :: .units str :: ws) := hr
  obtain ⟨p,hptr,hsz,hunits,-⟩ := reading_string16 hlen hall (reading_init hr)
  exact ⟨p,hptr,hsz,hunits⟩

theorem read_ref {h : UInt32} (hr : Readable A m txn [.object (.handle h)]) :
    (bioGetRef A (bioInitFromTxn A m txn)).1 = h := by
  have hsplit : [.object (.handle h)] = [] ++ [(Item.object (.handle h) : Item A)] := rfl
  rw [hsplit] at hr
  exact (reading_ref hr (reading_init hr)).1

end

def objectTable (A : Abi) (out : Outgoing) : List ℕ :=
  (List.range (out.offsets.length / A.binderSizeT.bytes)).map fun n =>
    leNat ((out.offsets.drop (A.binderSizeT.bytes * n)).take A.binderSizeT.bytes)

-- the driver copies data and offsets and turns each listed object into a HANDLE in place
structure Delivered (A : Abi) (out : Outgoing) (handles : ℕ → UInt32) (m : Mem)
    (txn : BinderTransactionData A) : Prop where
  dataSize : txn.dataSize.toNat = out.data.length
  offsetsSize : txn.offsetsSize.toNat = out.offsets.length
  offsets : slice m txn.offsets.toNat out.offsets.length = out.offsets
  data : ∀ x b, out.data[x]? = some b →
    (∀ off ∈ objectTable A out, x < off ∨ off + A.sizeofFlatBinderObject ≤ x) →
    m (txn.buffer.toNat + x) = b
  objects : ∀ n off, (objectTable A out)[n]? = some off →
    load32 m (txn.buffer.toNat + off) = binderTypeHandle ∧
    load32 m (txn.buffer.toNat + off + 8) = handles n

theorem delivered_of_checks {out : Outgoing} {handles : ℕ → UInt32} {m : Mem}
    {txn : BinderTransactionData A} (hsize : txn.dataSize.toNat = out.data.length)
    (hoffsets : txn.offsetsSize.toNat = out.offsets.length)
    (htable : slice m txn.offsets.toNat out.offsets.length = out.offsets)
    (hcopy : ∀ x < out.data.length,
      (∀ off ∈ objectTable A out, x < off ∨ off + A.sizeofFlatBinderObject ≤ x) →
      out.data[x]? = some (m (txn.buffer.toNat + x)))
    (hobjects : ∀ n < (objectTable A out).length, ∀ off ∈ (objectTable A out)[n]?,
      load32 m (txn.buffer.toNat + off) = binderTypeHandle ∧
      load32 m (txn.buffer.toNat + off + 8) = handles n) : Delivered A out handles m txn where
  dataSize := hsize
  offsetsSize := hoffsets
  offsets := htable
  data x b hx hout := by
    have hlt := (List.getElem?_eq_some_iff.mp hx).1
    exact Option.some.inj ((hcopy x hlt hout).symm.trans hx)
  objects n off hn := hobjects n (List.getElem?_eq_some_iff.mp hn).1 off hn

def deliver (handles : ℕ → UInt32) : ℕ → List (Item A) → List (Item A)
  | _, [] => []
  | k, .object _ :: vs => .object (.handle (handles k)) :: deliver handles (k+1) vs
  | k, .uint32 n :: vs => .uint32 n :: deliver handles k vs
  | k, .units us :: vs => .units us :: deliver handles k vs

theorem deliver_append (handles : ℕ → UInt32) (k : ℕ) (us vs : List (Item A)) :
    deliver handles k (us ++ vs) =
      deliver handles k us ++ deliver handles (k + us.countP Item.isObject) vs := by
  induction us generalizing k with
  | nil => rfl
  | cons u us ih =>
    cases u with
    | uint32 n => exact congrArg (Item.uint32 n :: ·) (ih k)
    | units str => exact congrArg (Item.units str :: ·) (ih k)
    | object o =>
      have hnext : k + (.object o :: us).countP Item.isObject =
          k + 1 + us.countP Item.isObject := by
        rw [List.countP_cons]
        simp only [Item.isObject,if_true]
        omega
      rw [hnext]
      exact congrArg (_ :: ·) (ih (k+1))

theorem deliver_plain {us : List (Item A)} (h : us.countP Item.isObject = 0)
    (handles : ℕ → UInt32) (k : ℕ) : deliver handles k us = us := by
  induction us with
  | nil => rfl
  | cons u us ih =>
    have hrest := ih (List.countP_eq_zero.mpr fun v hv =>
      List.countP_eq_zero.mp h v (List.mem_cons_of_mem u hv))
    cases u with
    | uint32 n => exact congrArg (Item.uint32 n :: ·) hrest
    | units str => exact congrArg (Item.units str :: ·) hrest
    | object o => exact absurd rfl (List.countP_eq_zero.mp h _ List.mem_cons_self)

theorem deliver_after {us : List (Item A)} (h : us.countP Item.isObject = 0)
    (handles : ℕ → UInt32) (k : ℕ) (vs : List (Item A)) :
    deliver handles k (us ++ vs) = us ++ deliver handles k vs := by
  rw [deliver_append,deliver_plain h,h,Nat.add_zero]

theorem deliver_layout (handles : ℕ → UInt32) (k p : ℕ) (vs : List (Item A)) :
    extent Item.size (deliver handles k vs) = extent Item.size vs ∧
      marks Item.size Item.isObject p (deliver handles k vs) =
        marks Item.size Item.isObject p vs := by
  induction vs generalizing k p with
  | nil => exact ⟨rfl,rfl⟩
  | cons v vs ih =>
    cases v with
    | uint32 n =>
      obtain ⟨he,hm⟩ := ih k (p+4)
      exact ⟨by rw [deliver,extent_cons,extent_cons,he],hm⟩
    | units us =>
      obtain ⟨he,hm⟩ := ih k (p+(Item.units us : Item A).size)
      exact ⟨by rw [deliver,extent_cons,extent_cons,he],hm⟩
    | object o =>
      obtain ⟨he,hm⟩ := ih (k+1) (p+A.sizeofFlatBinderObject)
      refine ⟨?_,congrArg (p :: ·) hm⟩
      rw [deliver,extent_cons,extent_cons,he]
      rfl

section
variable {start io : BinderIo} {vs : List (Item A)} {target code flags : UInt32}

theorem offsBytes_length (hw : Wrote A start io vs) :
    io.offsBytes.length = A.binderSizeT.bytes * vs.countP Item.isObject := by
  rw [BinderIo.offsBytes,slice_length,hw.offs,hw.offs0,Nat.add_sub_cancel_left]

theorem dataBytes_length (hw : Wrote A start io vs) :
    io.dataBytes.length = extent Item.size vs := by
  rw [BinderIo.dataBytes,slice_length,hw.data,hw.data0,Nat.add_sub_cancel_left]

theorem offsBytes_entry (hw : Wrote A start io vs) {n : ℕ} (hn : n < vs.countP Item.isObject) :
    (io.offsBytes.drop (A.binderSizeT.bytes * n)).take A.binderSizeT.bytes =
      slice io.mem (start.offs + A.binderSizeT.bytes * n) A.binderSizeT.bytes := by
  have hslot : A.binderSizeT.bytes * n + A.binderSizeT.bytes ≤
      A.binderSizeT.bytes * vs.countP Item.isObject := Nat.mul_le_mul_left _ hn
  rw [BinderIo.offsBytes,hw.offs,hw.offs0,Nat.add_sub_cancel_left]
  exact slice_drop_take io.mem start.offs hslot

theorem objectTable_wrote (hw : Wrote A start io vs) :
    objectTable A ⟨target,code,flags,io.dataBytes,io.offsBytes⟩ =
      marks Item.size Item.isObject 0 vs := by
  have hb := A.binderSizeT.bytes_pos
  have hlen := marks_length Item.size Item.isObject 0 vs
  rw [objectTable]
  simp only [offsBytes_length hw,Nat.mul_div_cancel_left _ hb]
  apply List.ext_getElem?
  intro n
  rcases Nat.lt_or_ge n (vs.countP Item.isObject) with hn | hn
  · obtain ⟨off,hoff⟩ : ∃ off, (marks Item.size Item.isObject 0 vs)[n]? = some off :=
      ⟨_,List.getElem?_eq_getElem (hlen ▸ hn)⟩
    rw [hoff,List.getElem?_map,List.getElem?_range hn,Option.map_some,offsBytes_entry hw hn]
    exact congrArg some (hw.table n off hoff)
  · rw [List.getElem?_eq_none (by simpa using hn),List.getElem?_eq_none (by omega)]

theorem delivered_placed (hw : Wrote A start io vs) (hvalid : ∀ v ∈ vs, v.Valid)
    {handles : ℕ → UInt32} {m : Mem} {txn : BinderTransactionData A}
    (hd : Delivered A ⟨target,code,flags,io.dataBytes,io.offsBytes⟩ handles m txn)
    (us ws : List (Item A)) (hsplit : vs = us ++ ws) :
    Placed Item.size (fun p v => v.At m p) (txn.buffer.toNat + extent Item.size us)
      (deliver handles (us.countP Item.isObject) ws) := by
  have htable : objectTable A ⟨target,code,flags,io.dataBytes,io.offsBytes⟩ =
      marks Item.size Item.isObject 0 vs := objectTable_wrote hw
  induction ws generalizing us with
  | nil => trivial
  | cons v ws ih =>
    have hnext := ih (us ++ [v]) (by rw [hsplit,List.append_assoc,List.singleton_append])
    rw [extent_append,extent_cons,extent_nil,Nat.add_zero,List.countP_append,
      List.countP_singleton,← Nat.add_assoc] at hnext
    have hv : v.Valid := hvalid v (by simp [hsplit])
    have hold : v.At io.mem (start.data + extent Item.size us) := by
      have hp := hw.placed
      rw [hsplit] at hp
      exact (placed_append.mp hp).2.1
    have hkeep : v.isObject = false → v.At m (txn.buffer.toNat + extent Item.size us) := by
      intro hno
      refine at_shift hv (fun i hi => ?_) hold
      have hx : extent Item.size us + i < extent Item.size vs := by
        rw [hsplit,extent_append,extent_cons]
        omega
      rw [Nat.add_assoc,Nat.add_assoc]
      refine (hd.data (extent Item.size us + i) _ ?_ ?_).symm
      · rw [BinderIo.dataBytes,hw.data,hw.data0,Nat.add_sub_cancel_left]
        exact slice_getElem? io.mem hx
      · intro off hoff
        rw [htable,hsplit] at hoff
        rcases marks_apart hno hoff with ⟨u,-,hu,hend⟩ | hafter
        · have hsize : u.size = A.sizeofFlatBinderObject := by
            cases u with
            | object o => rfl
            | uint32 n => cases hu
            | units us => cases hu
          omega
        · omega
    cases v with
    | uint32 n => exact ⟨hkeep rfl,hnext⟩
    | units us => exact ⟨hkeep rfl,hnext⟩
    | object o =>
      have hmark := marks_getElem? Item.size Item.isObject 0 us (v := .object o) rfl ws
      rw [Nat.zero_add,← hsplit,← htable] at hmark
      exact ⟨hd.objects _ _ hmark,hnext⟩

theorem delivered_readable (hw : Wrote A start io vs) (hvalid : ∀ v ∈ vs, v.Valid)
    (hfit : start.dataAvail < A.sizeT.modulus)
    (htable : A.binderSizeT.bytes * vs.countP Item.isObject < A.sizeT.modulus)
    {handles : ℕ → UInt32} {m : Mem} {txn : BinderTransactionData A}
    (hd : Delivered A ⟨target,code,flags,io.dataBytes,io.offsBytes⟩ handles m txn)
    (hbuffer : A.sizeT.wrap txn.buffer.toNat = txn.buffer.toNat)
    (hoffsets : A.sizeT.wrap txn.offsets.toNat = txn.offsets.toNat) :
    Readable A m txn (deliver handles 0 vs) := by
  obtain ⟨hextent,hmarks⟩ := deliver_layout handles 0 0 vs
  have hlen := marks_length Item.size Item.isObject 0 vs
  have hda := hw.dataAvail
  refine ⟨?_,?_,?_⟩
  · rw [hd.dataSize,dataBytes_length hw,hextent]
    exact Word.wrap_of_lt (by omega)
  · intro n off hn
    rw [hmarks] at hn
    have hlt : n < vs.countP Item.isObject := hlen ▸ (List.getElem?_eq_some_iff.mp hn).1
    have hs := A.sizeT.bytes_pos
    constructor
    · rw [hd.offsetsSize,offsBytes_length hw,
        Word.wrap_of_lt ((Nat.div_le_self _ _).trans_lt htable)]
      refine hlt.trans_le ((Nat.le_div_iff_mul_le hs).mpr ?_)
      rw [Nat.mul_comm]
      exact Nat.mul_le_mul_right _ A.sizeT_le
    · have hslot : A.binderSizeT.bytes * n + A.binderSizeT.bytes ≤
          A.binderSizeT.bytes * vs.countP Item.isObject := Nat.mul_le_mul_left _ hlt
      have hsame : slice m (txn.offsets.toNat + A.binderSizeT.bytes * n) A.binderSizeT.bytes =
          slice io.mem (start.offs + A.binderSizeT.bytes * n) A.binderSizeT.bytes := by
        have hcopy : slice m txn.offsets.toNat io.offsBytes.length = io.offsBytes := hd.offsets
        rw [← offsBytes_entry hw hlt,← hcopy]
        exact (slice_drop_take m _ (by rw [offsBytes_length hw]; exact hslot)).symm
      rw [hoffsets,Nat.mul_comm n,load,hsame]
      exact hw.table n off hn
  · rw [hbuffer]
    exact delivered_placed hw hvalid hd [] vs rfl

end

end

end Binder
