import AndroidProjects.Binder.Cursor
import Mathlib.Order.Interval.Basic

namespace ByteMemory

def range (p n : ℕ) : NonemptyInterval ℕ := ⟨(p,p+n),Nat.le_add_right p n⟩

theorem range_le_range {p n q k : ℕ} : range p n ≤ range q k ↔ q ≤ p ∧ p + n ≤ q + k := Iff.rfl

def Agree (m m' : Mem) (r : NonemptyInterval ℕ) : Prop := ∀ x, r.fst ≤ x → x < r.snd → m x = m' x

theorem Agree.mono {m m' : Mem} {r s : NonemptyInterval ℕ} (h : Agree m m' s) (hle : r ≤ s) :
    Agree m m' r := fun x h1 h2 => h x (hle.1.trans h1) (h2.trans_le hle.2)

theorem Agree.load {m m' : Mem} {p n : ℕ} (h : Agree m m' (range p n)) : load m p n = load m' p n :=
  load_congr h

theorem Agree.load32 {m m' : Mem} {p : ℕ} (h : Agree m m' (range p 4)) : load32 m p = load32 m' p :=
  congrArg UInt32.ofNat h.load

end ByteMemory

namespace Binder
open ByteMemory

inductive Fetch where
  | integer (p : ℕ)
  | object (p : ℕ)
  | entry (p : ℕ)
  deriving DecidableEq, Repr

inductive Returned where
  | uint32 (n : UInt32)
  | string16 (p : Option ℕ) (sz : ℕ)
  | ref (handle : UInt32)
  deriving DecidableEq, Repr

section
variable (A : Abi)

def Fetch.range : Fetch → NonemptyInterval ℕ
  | integer p => ByteMemory.range p 4
  | object p => ByteMemory.range p A.sizeofFlatBinderObject
  | entry p => ByteMemory.range p A.binderSizeT.bytes

def uint32Fetches (io : BinderIo) : List Fetch := (bioGet A io 4).1.toList.map .integer

-- the loop of _bio_get_obj over the n entries from p on, which the first match ends
def entryFetches (m : Mem) (off : ℕ) : ℕ → ℕ → List Fetch
  | _, 0 => []
  | p, n+1 => .entry p ::
    if load m p A.binderSizeT.bytes = off then []
    else entryFetches m off (p + A.binderSizeT.bytes) n

def refFetches (io : BinderIo) : List Fetch :=
  entryFetches A io.mem (io.data - io.data0) io.offs io.offsAvail ++
    (bioGetObj A io).1.toList.map .object

namespace Get

def fetches (io : BinderIo) : Get → List Fetch
  | uint32 => uint32Fetches A io
  | string16 => uint32Fetches A io
  | ref => refFetches A io

def returns (io : BinderIo) : Get → Returned
  | uint32 => .uint32 (bioGetUint32 A io).1
  | string16 => .string16 (bioGetString16 A io).1 (bioGetString16 A io).2.1
  | ref => .ref (bioGetRef A io).1

def nothing : Get → Returned
  | uint32 => .uint32 0
  | string16 => .string16 none 0
  | ref => .ref 0

end Get

end

namespace BinderIo

def window (io : BinderIo) : NonemptyInterval ℕ := range io.data io.dataAvail

def table (A : Abi) (io : BinderIo) : NonemptyInterval ℕ :=
  range io.offs (io.offsAvail * A.binderSizeT.bytes)

def withMem (io : BinderIo) (m : Mem) : BinderIo := {io with mem := m}

end BinderIo

namespace BinderTransactionData
variable {A : Abi}

def dataRange (txn : BinderTransactionData A) : NonemptyInterval ℕ :=
  range txn.buffer.toNat txn.dataSize.toNat

def offsRange (txn : BinderTransactionData A) : NonemptyInterval ℕ :=
  range txn.offsets.toNat txn.offsetsSize.toNat

end BinderTransactionData

def Fetch.Inside {A : Abi} (txn : BinderTransactionData A) : Fetch → Prop
  | integer p => (integer p).range A ≤ txn.dataRange
  | object p => (object p).range A ≤ txn.dataRange
  | entry p => (entry p).range A ≤ txn.offsRange

section
variable {A : Abi}

theorem window_stable (r : NonemptyInterval ℕ) : Stable fun io => io.window ≤ r where
  exhaust {io} h := by
    have hempty : range io.data 0 ≤ io.window :=
      range_le_range.mpr ⟨le_rfl,Nat.add_le_add_left (Nat.zero_le _) _⟩
    exact hempty.trans h
  take {io n} hfit h := by
    have hnarrow : range (io.data + n) (io.dataAvail - n) ≤ io.window :=
      range_le_range.mpr ⟨Nat.le_add_right _ _,by omega⟩
    exact hnarrow.trans h

theorem readTo_append (m : Mem) (txn : BinderTransactionData A) (gs hs : List Get) :
    readTo A m txn (gs ++ hs) = Machine.run (Get.run A) (readTo A m txn gs) hs :=
  Machine.run_append _ _ gs hs

section
variable {io : BinderIo}

theorem integer_in_window {a : Fetch} (h : a ∈ uint32Fetches A io) :
    ∃ p, a = .integer p ∧ a.range A ≤ io.window := by
  have hg := bioGet_got (A := A) io 4
  rw [uint32Fetches] at h
  generalize bioGet A io 4 = out at hg h
  cases hg with
  | short _ => cases h
  | taken hfit =>
    rw [roundUp_of_lt (by omega)] at hfit
    rw [List.mem_singleton.mp h]
    exact ⟨_,rfl,le_rfl,Nat.add_le_add_left hfit _⟩

theorem object_in_window {a : Fetch} (h : a ∈ (bioGetObj A io).1.toList.map Fetch.object) :
    ∃ p, a = .object p ∧ a.range A ≤ io.window := by
  generalize hout : bioGetObj A io = out at h
  obtain ⟨obj,io'⟩ := out
  cases obj with
  | none => cases h
  | some obj =>
    obtain ⟨-,hfit,rfl,-⟩ := bioGetObj_some hout
    rw [List.mem_singleton.mp h]
    exact ⟨_,rfl,le_rfl,Nat.add_le_add_left hfit _⟩

theorem entry_in_table {m : Mem} {off p n : ℕ} {a : Fetch} (h : a ∈ entryFetches A m off p n) :
    ∃ q, a = .entry q ∧ a.range A ≤ range p (n * A.binderSizeT.bytes) := by
  induction n generalizing p with
  | zero => cases h
  | succ n ih =>
    have hsize : (n+1) * A.binderSizeT.bytes = n * A.binderSizeT.bytes + A.binderSizeT.bytes :=
      Nat.succ_mul _ _
    rw [entryFetches] at h
    rcases List.mem_cons.mp h with rfl | h
    · refine ⟨p,rfl,range_le_range.mpr ⟨le_rfl,?_⟩⟩
      omega
    · split_ifs at h
      · cases h
      · obtain ⟨q,rfl,hle⟩ := ih h
        refine ⟨q,rfl,hle.trans (range_le_range.mpr ⟨Nat.le_add_right _ _,?_⟩)⟩
        omega

end

-- BIO_F_OVERFLOW is only set where data_avail is zeroed
def Drained (io : BinderIo) : Prop := io.overflow → io.dataAvail = 0

theorem drained_stable : Stable Drained where
  exhaust _ := fun _ => rfl
  take hfit h := fun ho => by
    rw [h ho,Nat.zero_sub]

theorem readTo_drained (m : Mem) (txn : BinderTransactionData A) (gs : List Get) :
    Drained (readTo A m txn gs) := by
  have hstart : Drained (bioInitFromTxn A m txn) :=
    fun ho => absurd ho (BinderIo.clear_of_shared rfl)
  exact drained_stable.gets hstart gs

theorem overflow_again {io : BinderIo} (h : io.overflow) :
    io.flags ||| bioFOverflow = io.flags := by
  have hmask : bioFOverflow.toBitVec = BitVec.twoPow 32 1 := by decide
  have hset : io.flags &&& bioFOverflow = bioFOverflow := by
    have hand := BitVec.and_twoPow io.flags.toBitVec 1
    rw [← hmask] at hand
    split_ifs at hand
    · exact UInt32.toBitVec_inj.mp hand
    · exact absurd (UInt32.toBitVec_inj.mp hand) h
  rw [← hset]
  refine UInt32.toBitVec_inj.mp (BitVec.eq_of_getLsbD_eq fun i _ => ?_)
  rw [UInt32.toBitVec_or,UInt32.toBitVec_and,BitVec.getLsbD_or,BitVec.getLsbD_and]
  exact sup_inf_self

theorem exhaust_again {io : BinderIo} (h : io.overflow) (hzero : io.dataAvail = 0) :
    {io with dataAvail := 0, flags := io.flags ||| bioFOverflow} = io := by
  rw [overflow_again h,← hzero]

section
variable {io : BinderIo} (h : io.overflow) (hzero : io.dataAvail = 0)
include h hzero

theorem bioGet_nothing {size : ℕ} (hsize : 0 < roundUp A size) : bioGet A io size = (none,io) := by
  rw [bioGet,if_pos (hzero ▸ hsize),exhaust_again h hzero]

theorem bioGetUint32_nothing : bioGetUint32 A io = (0,io) := by
  have hfour : roundUp A 4 = 4 := roundUp_of_lt (by omega)
  rw [bioGetUint32,bioGet_nothing h hzero (by omega)]

theorem bioGetString16_nothing : bioGetString16 A io = (none,0,io) := by
  have hm := A.sizeT.modulus_ge
  have hzero' : (0 : UInt32).toNat = 0 := rfl
  have htwo : roundUp A (sizeofUnits A 0) = 4 := by
    rw [roundUp_sizeofUnits,Nat.mod_eq_of_lt (by omega)]
  simp only [bioGetString16,bioGetUint32_nothing h hzero,hzero']
  rw [bioGet_nothing h hzero (by omega)]

theorem bioGetObj_nothing : bioGetObj A io = (none,io) := by
  have hsize : 0 < roundUp A A.sizeofFlatBinderObject := by
    rw [roundUp_sizeofFlatBinderObject,Abi.sizeofFlatBinderObject]
    omega
  rw [bioGetObj]
  split_ifs
  · exact bioGet_nothing h hzero hsize
  · rw [exhaust_again h hzero]

theorem bioGetRef_nothing : bioGetRef A io = (0,io) := by
  rw [bioGetRef,bioGetObj_nothing h hzero]

theorem get_nothing (g : Get) : g.run A io = io ∧ g.returns A io = g.nothing := by
  cases g with
  | uint32 =>
    rw [Get.run,Get.returns,bioGetUint32_nothing h hzero]
    exact ⟨rfl,rfl⟩
  | string16 =>
    rw [Get.run,Get.returns,bioGetString16_nothing h hzero]
    exact ⟨rfl,rfl⟩
  | ref =>
    rw [Get.run,Get.returns,bioGetRef_nothing h hzero]
    exact ⟨rfl,rfl⟩

end

theorem bioGetRef_failed {io : BinderIo} (h : Drained io) (ho : (bioGetRef A io).2.overflow) :
    (bioGetRef A io).1 = 0 := by
  by_cases hbefore : io.overflow
  · rw [bioGetRef_nothing hbefore (h hbefore)]
  · rw [bioGetRef_state,bioGetObj] at ho
    rw [bioGetRef,bioGetObj]
    split_ifs at ho ⊢
    · have hg := bioGet_got (A := A) io A.sizeofFlatBinderObject
      generalize bioGet A io A.sizeofFlatBinderObject = out at hg ho ⊢
      cases hg with
      | short _ => rfl
      | taken _ => exact absurd ho hbefore
    · rfl

section
variable {m' : Mem}

theorem bioGet_withMem (io : BinderIo) (size : ℕ) : bioGet A (io.withMem m') size =
    ((bioGet A io size).1,(bioGet A io size).2.withMem m') := by
  rw [bioGet,bioGet]
  by_cases hshort : io.dataAvail < roundUp A size
  · rw [if_pos hshort]
    exact if_pos hshort
  · rw [if_neg hshort]
    exact if_neg hshort

theorem bioGetUint32_withMem {io : BinderIo}
    (h : ∀ a ∈ uint32Fetches A io, Agree io.mem m' (a.range A)) :
    bioGetUint32 A (io.withMem m') =
      ((bioGetUint32 A io).1,(bioGetUint32 A io).2.withMem m') := by
  have hg := bioGet_got (A := A) io 4
  rw [bioGetUint32,bioGetUint32,bioGet_withMem]
  rw [uint32Fetches] at h
  generalize bioGet A io 4 = out at hg h ⊢
  cases hg with
  | short _ => rfl
  | taken _ =>
    have hword := (h _ List.mem_cons_self).load32
    exact congrArg (·,_) hword.symm

theorem bioGetString16_withMem {io : BinderIo}
    (h : ∀ a ∈ uint32Fetches A io, Agree io.mem m' (a.range A)) :
    bioGetString16 A (io.withMem m') = ((bioGetString16 A io).1,(bioGetString16 A io).2.1,
      (bioGetString16 A io).2.2.withMem m') := by
  simp only [bioGetString16,bioGetUint32_withMem h,bioGet_withMem]

theorem search_succ (m : Mem) (off p n : ℕ) :
    (List.range (n+1)).any
        (fun k => load m (p + k * A.binderSizeT.bytes) A.binderSizeT.bytes == off) =
      (load m p A.binderSizeT.bytes == off || (List.range n).any
        fun k => load m (p + A.binderSizeT.bytes + k * A.binderSizeT.bytes)
          A.binderSizeT.bytes == off) := by
  have hnext : ∀ k, p + (k+1) * A.binderSizeT.bytes =
      p + A.binderSizeT.bytes + k * A.binderSizeT.bytes := fun k => by
    rw [Nat.succ_mul]
    omega
  rw [List.range_succ_eq_map,List.any_cons,List.any_map,Nat.zero_mul,Nat.add_zero]
  simp only [Function.comp_def,Nat.succ_eq_add_one,hnext]

theorem search_agree {m : Mem} {off p n : ℕ}
    (h : ∀ a ∈ entryFetches A m off p n, Agree m m' (a.range A)) :
    (List.range n).any
        (fun k => load m' (p + k * A.binderSizeT.bytes) A.binderSizeT.bytes == off) =
      (List.range n).any
        (fun k => load m (p + k * A.binderSizeT.bytes) A.binderSizeT.bytes == off) := by
  induction n generalizing p with
  | zero => rfl
  | succ n ih =>
    rw [entryFetches,List.forall_mem_cons] at h
    obtain ⟨hfirst,hrest⟩ := h
    have hload : load m p A.binderSizeT.bytes = load m' p A.binderSizeT.bytes := hfirst.load
    rw [search_succ,search_succ,← hload]
    split_ifs at hrest with hmatch
    · rw [hmatch,beq_self_eq_true,Bool.true_or,Bool.true_or]
    · rw [ih hrest]

theorem bioGetObj_withMem {io : BinderIo}
    (h : ∀ a ∈ entryFetches A io.mem (io.data - io.data0) io.offs io.offsAvail,
      Agree io.mem m' (a.range A)) :
    bioGetObj A (io.withMem m') = ((bioGetObj A io).1,(bioGetObj A io).2.withMem m') := by
  have hsearch := search_agree h
  rw [bioGetObj,bioGetObj]
  simp only [bioGet_withMem]
  simp only [BinderIo.withMem,hsearch]
  split_ifs
  · rfl
  · rfl

theorem bioGetRef_withMem {io : BinderIo}
    (h : ∀ a ∈ refFetches A io, Agree io.mem m' (a.range A)) :
    bioGetRef A (io.withMem m') = ((bioGetRef A io).1,(bioGetRef A io).2.withMem m') := by
  rw [refFetches,List.forall_mem_append] at h
  obtain ⟨hentries,hobject⟩ := h
  rw [bioGetRef,bioGetRef,bioGetObj_withMem hentries]
  generalize hout : bioGetObj A io = out at hobject ⊢
  obtain ⟨obj,io'⟩ := out
  cases obj with
  | none => rfl
  | some obj =>
    obtain ⟨-,-,-,hmem⟩ := bioGetObj_some hout
    have hsame : Agree io.mem m' (range obj A.sizeofFlatBinderObject) :=
      hobject (.object obj) List.mem_cons_self
    have hsize : 12 ≤ A.sizeofFlatBinderObject := by
      rcases sizeofFlatBinderObject_cases A with hs | hs <;> omega
    have htype : load32 io.mem obj = load32 m' obj :=
      (hsame.mono (range_le_range.mpr ⟨le_rfl,by omega⟩)).load32
    have hhandle : load32 io.mem (obj+8) = load32 m' (obj+8) :=
      (hsame.mono (range_le_range.mpr ⟨Nat.le_add_right _ _,by omega⟩)).load32
    by_cases hty : load32 io.mem obj = binderTypeHandle
    · simp only [BinderIo.withMem,hmem,← htype,← hhandle,if_pos hty]
    · simp only [BinderIo.withMem,hmem,← htype,if_neg hty]

theorem get_withMem {io : BinderIo} {g : Get}
    (h : ∀ a ∈ g.fetches A io, Agree io.mem m' (a.range A)) :
    g.run A (io.withMem m') = (g.run A io).withMem m' ∧
      g.returns A (io.withMem m') = g.returns A io := by
  cases g with
  | uint32 =>
    have hword := bioGetUint32_withMem h
    exact ⟨congrArg Prod.snd hword,by rw [Get.returns,hword,Get.returns]⟩
  | string16 =>
    have hstring := bioGetString16_withMem h
    exact ⟨congrArg (·.2.2) hstring,by rw [Get.returns,hstring,Get.returns]⟩
  | ref =>
    have href := bioGetRef_withMem h
    exact ⟨congrArg Prod.snd href,by rw [Get.returns,href,Get.returns]⟩

end

end

section
variable {w : Word} {m : Mem} {txn : BinderTransactionData (Abi.uniform w)}

section
variable {io : BinderIo} (hr : Reads (Abi.uniform w) m txn io)
include hr

theorem window_inside : io.window ≤ txn.dataRange := by
  have hdata0 := hr.buffer
  have hstart := hr.start
  have hbound := hr.bound
  exact range_le_range.mpr ⟨by omega,by omega⟩

theorem table_inside : io.table (Abi.uniform w) ≤ txn.offsRange := by
  have hsize : txn.offsetsSize.toNat / w.bytes * w.bytes ≤ txn.offsetsSize.toNat :=
    Nat.div_mul_le_self _ _
  rw [BinderIo.table,hr.offsets,hr.entries]
  exact range_le_range.mpr ⟨le_rfl,Nat.add_le_add_left hsize _⟩

theorem fetches_inside (g : Get) : ∀ a ∈ g.fetches (Abi.uniform w) io, a.Inside txn := by
  have hinteger : ∀ a ∈ uint32Fetches (Abi.uniform w) io, a.Inside txn := by
    intro a ha
    obtain ⟨p,rfl,hle⟩ := integer_in_window ha
    exact hle.trans (window_inside hr)
  cases g with
  | uint32 => exact hinteger
  | string16 => exact hinteger
  | ref =>
    intro a ha
    rcases List.mem_append.mp ha with ha | ha
    · obtain ⟨q,rfl,hle⟩ := entry_in_table ha
      exact hle.trans (table_inside hr)
    · obtain ⟨p,rfl,hle⟩ := object_in_window ha
      exact hle.trans (window_inside hr)

end

theorem fetch_agree {m' : Mem} (hdata : Agree m m' txn.dataRange) (hoffs : Agree m m' txn.offsRange)
    {a : Fetch} (h : a.Inside txn) : Agree m m' (a.range (Abi.uniform w)) := by
  cases a with
  | integer p => exact hdata.mono h
  | object p => exact hdata.mono h
  | entry p => exact hoffs.mono h

def transcript (A : Abi) (m : Mem) (txn : BinderTransactionData A) (gs : List Get) :
    List Returned :=
  Machine.trace (Get.run A) (Get.returns A) (bioInitFromTxn A m txn) gs

theorem transcript_agree {m' : Mem} (hdata : Agree m m' txn.dataRange)
    (hoffs : Agree m m' txn.offsRange) (gs : List Get) :
    transcript (Abi.uniform w) m txn gs = transcript (Abi.uniform w) m' txn gs := by
  have hsame : ∀ io io' (g : Get), Reads (Abi.uniform w) m txn io ∧ io' = io.withMem m' →
      g.run (Abi.uniform w) io' = (g.run (Abi.uniform w) io).withMem m' ∧
        g.returns (Abi.uniform w) io' = g.returns (Abi.uniform w) io := by
    rintro io io' g ⟨hr,rfl⟩
    refine get_withMem fun a ha => ?_
    rw [hr.mem]
    exact fetch_agree hdata hoffs (fetches_inside hr g a ha)
  have keep : ∀ io io' (g : Get), Reads (Abi.uniform w) m txn io ∧ io' = io.withMem m' →
      Reads (Abi.uniform w) m txn (g.run (Abi.uniform w) io) ∧
        g.run (Abi.uniform w) io' = (g.run (Abi.uniform w) io).withMem m' :=
    fun io io' g h => ⟨reads_stable.get h.1 g,(hsame io io' g h).1⟩
  exact Machine.trace_congr keep (fun io io' g h => (hsame io io' g h).2.symm)
    ⟨reads_init m txn,rfl⟩ gs

structure Confined (w : Word) (txn : BinderTransactionData (Abi.uniform w)) (io : BinderIo) :
    Prop where
  data0 : io.data0 = txn.buffer.toNat
  start : io.data0 ≤ io.data
  bound : io.data - io.data0 + io.dataAvail ≤ txn.dataSize.toNat
  inside : ∀ g : Get, ∀ a ∈ g.fetches (Abi.uniform w) io, a.Inside txn

structure Continues (A : Abi) (io io' : BinderIo) : Prop where
  forward : io.data - io.data0 ≤ io'.data - io'.data0
  failed : io.overflow → io' = io ∧ ∀ g : Get, g.returns A io = g.nothing

theorem reads_confined {io : BinderIo} (hr : Reads (Abi.uniform w) m txn io) : Confined w txn io :=
  ⟨hr.buffer,hr.start,hr.bound,fetches_inside hr⟩

theorem readTo_continues (A : Abi) (m : Mem) (txn : BinderTransactionData A) (gs hs : List Get) :
    Continues A (readTo A m txn gs) (readTo A m txn (gs ++ hs)) := by
  have hr := reads_readTo m txn gs
  have hr' := reads_readTo m txn (gs ++ hs)
  have hdrained := readTo_drained m txn gs
  have hsame : (readTo A m txn (gs ++ hs)).data0 = (readTo A m txn gs).data0 :=
    hr'.data0.trans hr.data0.symm
  rw [readTo_append] at hsame ⊢
  refine ⟨?_,fun ho => ?_⟩
  · rw [hsame]
    exact Nat.sub_le_sub_right ((window_stable _).gets le_rfl hs).1 _
  · have hstep := get_nothing (A := A) ho (hdrained ho)
    exact ⟨Machine.run_fixed (Get.run A) (fun g => (hstep g).1) hs,fun g => (hstep g).2⟩

-- gs are the gets so far, hs any that follow
theorem reader_invariant (w : Word) (m : Mem) (txn : BinderTransactionData (Abi.uniform w))
    (gs hs : List Get) :
    Confined w txn (readTo (Abi.uniform w) m txn gs) ∧
      Continues (Abi.uniform w) (readTo (Abi.uniform w) m txn gs)
        (readTo (Abi.uniform w) m txn (gs ++ hs)) :=
  ⟨reads_confined (reads_readTo m txn gs),readTo_continues (Abi.uniform w) m txn gs hs⟩

end

-- a message of one word, read on past its end
example : transcript (Abi.uniform .four) (fun _ => 1) ⟨0,0,0,0,0,0,4,0,4096,4100⟩
    [.uint32,.ref,.string16,.uint32,.ref] =
      [.uint32 0x01010101,.ref 0,.string16 none 0,.uint32 0,.ref 0] := by decide +kernel

end Binder
