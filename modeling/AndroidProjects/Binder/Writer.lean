import AndroidProjects.Binder.Reader
import AndroidProjects.Foundation.Layout

namespace Binder
open ByteMemory Layout

inductive FlatObject (A : Abi) where
  | binder (ptr : A.Uintptr)
  | handle (h : UInt32)
  deriving DecidableEq, Repr

inductive Item (A : Abi) where
  | uint32 (n : UInt32)
  | units (us : List UInt16)
  | object (o : FlatObject A)
  deriving DecidableEq, Repr

section
variable {A : Abi}

namespace Item

def size : Item A → ℕ
  | uint32 _ => 4
  | units us => roundUp A (sizeofUnits A us.length)
  | object _ => A.sizeofFlatBinderObject

def isObject : Item A → Bool
  | object _ => true
  | _ => false

def At (m : Mem) (p : ℕ) : Item A → Prop
  | uint32 n => load32 m p = n
  | units us => loadUnits m p us.length = us
  | object (.binder ptr) =>
    load32 m p = binderTypeBinder ∧ loadBits A.binderSizeT.bytes m (p+8) = ptr.setWidth _
  | object (.handle h) => load32 m p = binderTypeHandle ∧ load32 m (p+8) = h

def Valid : Item A → Prop
  | uint32 _ => True
  | units us => us.length < maxBioSize / 2
  | object (.binder _) => True
  | object (.handle h) => h ≠ 0

def put (io : BinderIo) : Item A → BinderIo
  | uint32 n => bioPutUint32 A io n
  | units us => bioPutUnits A io us
  | object (.binder ptr) => bioPutObj A io ptr
  | object (.handle h) => bioPutRef A io h

end Item

theorem loadUnits_shift {m m' : Mem} {p p' len : ℕ}
    (h : ∀ i < 2*len, m (p+i) = m' (p'+i)) : loadUnits m p len = loadUnits m' p' len := by
  apply List.map_congr_left
  intro i hi
  rw [List.mem_range] at hi
  refine congrArg UInt16.ofNat (load_shift fun j hj => ?_)
  rw [Nat.add_assoc,Nat.add_assoc]
  exact h (2*i+j) (by omega)

theorem loadUnits_of_slice {m : Mem} {p : ℕ} {us : List UInt16}
    (h : slice m p (unitBytes us).length = unitBytes us) : loadUnits m p us.length = us := by
  induction us generalizing p with
  | nil => rfl
  | cons u us ih =>
    have hsplit : unitBytes (u :: us) = leBytes 2 u.toNat ++ unitBytes us := rfl
    rw [hsplit] at h
    obtain ⟨hu,hus⟩ := slice_split h
    rw [leBytes_length] at hu hus
    have hrest : ∀ i, load16 m (p+2*(i+1)) = load16 m (p+2+2*i) := fun i =>
      congrArg (load16 m) (by omega)
    have hi := ih hus
    simp only [loadUnits] at hi ⊢
    rw [List.length_cons,List.range_succ_eq_map,List.map_cons,List.map_map]
    simp only [Function.comp_def,Nat.succ_eq_add_one,hrest,hi]
    rw [Nat.mul_zero,Nat.add_zero,load16_of_slice hu]

theorem sizeofUnits_eq {len : ℕ} (h : len < maxBioSize / 2) :
    sizeofUnits A len = 2 * (len+1) := by
  have hm := A.sizeT.modulus_ge
  simp only [maxBioSize] at h
  have hlen : A.sizeT.wrap (len+1) = len+1 := Word.wrap_of_lt (by omega)
  rw [sizeofUnits,hlen,Word.wrap_of_lt (by omega),Nat.mul_comm]

theorem units_size_ge {us : List UInt16} (h : us.length < maxBioSize / 2) :
    2 * (us.length + 1) ≤ (Item.units us : Item A).size := by
  rw [Item.size,sizeofUnits_eq h,roundUp_of_lt (by simp only [maxBioSize] at h; omega)]
  omega

theorem at_shift {m m' : Mem} {p p' : ℕ} {v : Item A} (hv : v.Valid)
    (h : ∀ i < v.size, m (p+i) = m' (p'+i)) (hat : v.At m p) : v.At m' p' := by
  cases v with
  | uint32 n => exact (load32_shift h).symm.trans hat
  | units us =>
    have hs := units_size_ge (A := A) hv
    exact (loadUnits_shift fun i hi => h i (by omega)).symm.trans hat
  | object o =>
    have hs : (Item.object o).size = 8 + 2 * A.binderSizeT.bytes := rfl
    have hb := A.binderSizeT.four_le_bytes
    have h0 : load32 m p = load32 m' p' := load32_shift fun i hi => h i (by omega)
    have h8 : ∀ i < A.binderSizeT.bytes, m (p+8+i) = m' (p'+8+i) := by
      intro i hi
      rw [Nat.add_assoc,Nat.add_assoc]
      exact h (8+i) (by omega)
    cases o with
    | binder ptr =>
      have hptr : loadBits A.binderSizeT.bytes m (p+8) = loadBits A.binderSizeT.bytes m' (p'+8) :=
        congrArg (BitVec.ofNat _) (load_shift h8)
      exact ⟨h0.symm.trans hat.1,hptr.symm.trans hat.2⟩
    | handle k =>
      have hk : load32 m (p+8) = load32 m' (p'+8) := load32_shift fun i hi => h8 i (by omega)
      exact ⟨h0.symm.trans hat.1,hk.symm.trans hat.2⟩

inductive Alloced (A : Abi) (io : BinderIo) (size : ℕ) : Option ℕ × BinderIo → Prop
  | full : Alloced A io size (none,{io with flags := io.flags ||| bioFOverflow})
  | taken (h : roundUp A size ≤ io.dataAvail) :
      Alloced A io size (some io.data,{io with
        data := io.data + roundUp A size
        dataAvail := io.dataAvail - roundUp A size})

theorem bioAlloc_alloced (io : BinderIo) (size : ℕ) : Alloced A io size (bioAlloc A io size) := by
  rw [bioAlloc]
  split_ifs with h
  · exact .full
  · exact .taken (Nat.not_lt.mp h)

theorem overflow_set (io : BinderIo) :
    BinderIo.overflow {io with flags := io.flags ||| bioFOverflow} := by
  intro h
  have hbit := congrArg (fun v : UInt32 => v.toBitVec.getLsbD 1) h
  simp [bioFOverflow] at hbit

structure Wrote (A : Abi) (start io : BinderIo) (vs : List (Item A)) : Prop where
  data0 : io.data0 = start.data
  offs0 : io.offs0 = start.offs
  data : io.data = start.data + extent Item.size vs
  offs : io.offs = start.offs + A.binderSizeT.bytes * vs.countP Item.isObject
  dataAvail : extent Item.size vs + io.dataAvail = start.dataAvail
  offsAvail : vs.countP Item.isObject + io.offsAvail = start.offsAvail
  placed : Placed Item.size (fun p v => v.At io.mem p) start.data vs
  table : ∀ n off, (marks Item.size Item.isObject 0 vs)[n]? = some off →
    load io.mem (start.offs + A.binderSizeT.bytes * n) A.binderSizeT.bytes = off

def Roomy (A : Abi) (start : BinderIo) (n : ℕ) : Prop :=
  start.offs + A.binderSizeT.bytes * min n start.offsAvail ≤ start.data

theorem Roomy.mono {start : BinderIo} {n k : ℕ} (h : Roomy A start n) (hk : k ≤ n) :
    Roomy A start k := by
  have hmin : min k start.offsAvail ≤ min n start.offsAvail := by omega
  exact (Nat.add_le_add_left (Nat.mul_le_mul_left _ hmin) _).trans h

theorem Roomy.recorded {start : BinderIo} {n : ℕ} (h : Roomy A start n)
    (hn : n ≤ start.offsAvail) : start.offs + A.binderSizeT.bytes * n ≤ start.data := by
  rwa [Roomy,Nat.min_eq_left hn] at h

def slots (v : Item A) : ℕ := if v.isObject then 1 else 0

theorem wrote_extend {start io io' : BinderIo} {vs : List (Item A)} (hw : Wrote A start io vs)
    (hvalid : ∀ v ∈ vs, v.Valid) {v : Item A}
    (hroom : start.offs + A.binderSizeT.bytes * (vs.countP Item.isObject + slots v) ≤ start.data)
    (hdata0 : io'.data0 = io.data0) (hoffs0 : io'.offs0 = io.offs0)
    (hdata : io'.data = io.data + v.size) (havail : v.size + io'.dataAvail = io.dataAvail)
    (hoffs : io'.offs = io.offs + A.binderSizeT.bytes * slots v)
    (hleft : slots v + io'.offsAvail = io.offsAvail)
    (hmem : ∀ x < io.data, x < io.offs ∨ io.offs + A.binderSizeT.bytes * slots v ≤ x →
      io.mem x = io'.mem x)
    (hat : v.At io'.mem io.data)
    (hentry : v.isObject → load io'.mem io.offs A.binderSizeT.bytes = extent Item.size vs) :
    Wrote A start io' (vs ++ [v]) := by
  have hcount : (vs ++ [v]).countP Item.isObject = vs.countP Item.isObject + slots v := by
    rw [List.countP_append,List.countP_singleton]
    rfl
  have hdist : A.binderSizeT.bytes * (vs.countP Item.isObject + slots v) =
      A.binderSizeT.bytes * vs.countP Item.isObject + A.binderSizeT.bytes * slots v :=
    Nat.mul_add _ _ _
  have hd := hw.data
  have ho := hw.offs
  have hda := hw.dataAvail
  have hoa := hw.offsAvail
  refine ⟨hdata0.trans hw.data0,hoffs0.trans hw.offs0,?_,?_,?_,?_,?_,?_⟩
  · rw [extent_append,extent_cons,extent_nil]
    omega
  · rw [hcount]
    omega
  · rw [extent_append,extent_cons,extent_nil]
    omega
  · rw [hcount]
    omega
  · rw [placed_append]
    refine ⟨hw.placed.imp fun q u hu hq hend hold => ?_,⟨hd ▸ hat,trivial⟩⟩
    exact at_shift (hvalid u hu) (fun i hi => hmem (q+i) (by omega) (.inr (by omega))) hold
  · intro n off hn
    have hlen := marks_length Item.size Item.isObject 0 vs
    rw [marks_append] at hn
    rcases Nat.lt_or_ge n (vs.countP Item.isObject) with hlt | hge
    · rw [List.getElem?_append_left (hlen ▸ hlt)] at hn
      have hslot : A.binderSizeT.bytes * n + A.binderSizeT.bytes ≤
          A.binderSizeT.bytes * vs.countP Item.isObject := Nat.mul_le_mul_left _ hlt
      rw [← hw.table n off hn]
      exact (load_congr fun x h1 h2 => hmem x (by omega) (.inl (by omega))).symm
    · rw [List.getElem?_append_right (hlen ▸ hge),hlen,marks] at hn
      split_ifs at hn with hv
      · have hn0 : n = vs.countP Item.isObject := by
          have hlt := (List.getElem?_eq_some_iff.mp hn).1
          simp only [marks,List.length_cons,List.length_nil] at hlt
          omega
        have hoff : 0 + extent Item.size vs = off := by
          rw [hn0,Nat.sub_self] at hn
          exact Option.some.inj hn
        rw [hn0,← ho,hentry hv,← hoff,Nat.zero_add]
      · exact absurd hn (by simp [marks])

theorem wrote_recorded {start io : BinderIo} {vs : List (Item A)} (hw : Wrote A start io vs)
    (hroom : Roomy A start (vs.countP Item.isObject)) :
    start.offs + A.binderSizeT.bytes * vs.countP Item.isObject ≤ start.data := by
  have hleft := hw.offsAvail
  exact hroom.recorded (by omega)

section
variable {start io : BinderIo} {vs : List (Item A)} (hw : Wrote A start io vs)
  (hvalid : ∀ v ∈ vs, v.Valid)
include hw hvalid

theorem put_uint32_wrote (n : UInt32) (hroom : Roomy A start (vs.countP Item.isObject)) :
    (bioPutUint32 A io n).overflow ∨ Wrote A start (bioPutUint32 A io n) (vs ++ [.uint32 n]) := by
  have hsize : roundUp A 4 = 4 := roundUp_of_lt (by omega)
  generalize halloc : bioAlloc A io 4 = out
  have ha := bioAlloc_alloced (A := A) io 4
  rw [halloc] at ha
  rw [bioPutUint32,halloc]
  cases ha with
  | full => exact .inl (overflow_set io)
  | taken h =>
    rw [hsize] at h
    refine .inr (wrote_extend hw hvalid (wrote_recorded hw hroom) rfl rfl ?_ ?_ rfl ?_ ?_ ?_ ?_)
    · exact congrArg (io.data + ·) hsize
    · simp only [BinderIo.store,hsize,Item.size]
      omega
    · exact Nat.zero_add _
    · exact fun x hx _ => (write_apply_of_lt _ _ hx).symm
    · exact load32_write _ _ n
    · exact fun h => absurd h (by simp [Item.isObject])

theorem put_units_wrote (us : List UInt16) (hroom : Roomy A start (vs.countP Item.isObject)) :
    (bioPutUnits A io us).overflow ∨ Wrote A start (bioPutUnits A io us) (vs ++ [.units us]) := by
  generalize halloc : bioAlloc A io (sizeofUnits A us.length) = out
  have ha := bioAlloc_alloced (A := A) io (sizeofUnits A us.length)
  rw [halloc] at ha
  rw [bioPutUnits,halloc]
  cases ha with
  | full => exact .inl (overflow_set io)
  | taken h =>
    refine .inr (wrote_extend hw hvalid (wrote_recorded hw hroom) rfl rfl rfl ?_ rfl ?_ ?_ ?_ ?_)
    · simp only [BinderIo.store,Item.size]
      omega
    · exact Nat.zero_add _
    · exact fun x hx _ => (write_apply_of_lt _ _ hx).symm
    · have hsplit : unitBytes (us ++ [0]) = unitBytes us ++ unitBytes [0] := List.flatMap_append
      have hs : slice (write io.mem io.data (unitBytes (us ++ [0]))) io.data
          (unitBytes us ++ unitBytes [0]).length = unitBytes us ++ unitBytes [0] := by
        rw [← hsplit]
        exact slice_write _ _ _
      exact loadUnits_of_slice (slice_split hs).1
    · exact fun h => absurd h (by simp [Item.isObject])

theorem object_wrote (o : FlatObject A) {mem : Mem}
    (hroom : Roomy A start (vs.countP Item.isObject + 1))
    (hfit : start.dataAvail < A.binderSizeT.modulus)
    (hsize : A.sizeofFlatBinderObject ≤ io.dataAvail) (hslot : io.offsAvail ≠ 0)
    (hbelow : ∀ x < io.data,
      mem x = write io.mem io.offs (leBytes A.binderSizeT.bytes (io.data - io.data0)) x)
    (hat : (Item.object o).At mem io.data) :
    Wrote A start {io with
      data := io.data + A.sizeofFlatBinderObject
      dataAvail := io.dataAvail - A.sizeofFlatBinderObject
      offsAvail := io.offsAvail - 1
      offs := io.offs + A.binderSizeT.bytes
      mem := mem} (vs ++ [.object o]) := by
  have hd := hw.data
  have hd0 := hw.data0
  have ho := hw.offs
  have hda := hw.dataAvail
  have hleft := hw.offsAvail
  have hrec := hroom.recorded (by omega)
  have hdist : A.binderSizeT.bytes * (vs.countP Item.isObject + 1) =
      A.binderSizeT.bytes * vs.countP Item.isObject + A.binderSizeT.bytes := Nat.mul_succ _ _
  have hlen := leBytes_length A.binderSizeT.bytes (io.data - io.data0)
  refine wrote_extend hw hvalid hrec rfl rfl rfl ?_ ?_ ?_ ?_ hat ?_
  · simp only [Item.size]
    omega
  · exact congrArg (io.offs + ·) (Nat.mul_one _).symm
  · change 1 + (io.offsAvail - 1) = io.offsAvail
    omega
  · intro x hx hout
    change x < io.offs ∨ io.offs + A.binderSizeT.bytes * 1 ≤ x at hout
    change io.mem x = mem x
    rw [hbelow x hx]
    rcases hout with h | h
    · exact (write_apply_of_lt _ _ h).symm
    · exact (write_apply_of_le _ (by omega)).symm
  · intro _
    have hsame := load_congr (n := A.binderSizeT.bytes) (a := io.offs)
      fun x _ h2 => hbelow x (by omega)
    have hpos : io.data - io.data0 = extent Item.size vs := by omega
    change load mem io.offs A.binderSizeT.bytes = _
    rw [hsame,hpos]
    exact load_write _ (lt_of_le_of_lt (by omega) hfit)

end

inductive AllocedObj (A : Abi) (io : BinderIo) : Option ℕ × BinderIo → Prop
  | full {io' : BinderIo} (h : io'.overflow) : AllocedObj A io (none,io')
  | taken (hsize : A.sizeofFlatBinderObject ≤ io.dataAvail) (hslot : io.offsAvail ≠ 0) :
      AllocedObj A io (some io.data,{io with
        data := io.data + A.sizeofFlatBinderObject
        dataAvail := io.dataAvail - A.sizeofFlatBinderObject
        offsAvail := io.offsAvail - 1
        offs := io.offs + A.binderSizeT.bytes
        mem := write io.mem io.offs (leBytes A.binderSizeT.bytes (io.data - io.data0))})

theorem bioAllocObj_alloced (io : BinderIo) : AllocedObj A io (bioAllocObj A io) := by
  generalize halloc : bioAlloc A io A.sizeofFlatBinderObject = out
  have ha := bioAlloc_alloced (A := A) io A.sizeofFlatBinderObject
  rw [halloc] at ha
  rw [bioAllocObj,halloc]
  cases ha with
  | full => exact .full (overflow_set _)
  | taken h =>
    rw [roundUp_sizeofFlatBinderObject] at h ⊢
    simp only []
    split_ifs with hs
    · exact .taken h hs
    · exact .full (overflow_set _)

def writeObject (m : Mem) (p k : ℕ) (type : UInt32) (payload : List UInt8) : Mem :=
  write (write (write (write m (p+4) (leBytes 4 objFlags.toNat)) p (leBytes 4 type.toNat))
    (p+8) payload) (p+8+k) (leBytes k 0)

theorem writeObject_below (m : Mem) {p k x : ℕ} (type : UInt32) (payload : List UInt8)
    (h : x < p) : writeObject m p k type payload x = m x := by
  rw [writeObject,write_apply_of_lt _ _ (by omega),write_apply_of_lt _ _ (by omega),
    write_apply_of_lt _ _ h,write_apply_of_lt _ _ (by omega)]

theorem writeObject_type (m : Mem) (p k : ℕ) (type : UInt32) (payload : List UInt8) :
    load32 (writeObject m p k type payload) p = type := by
  rw [writeObject,load32_write_disjoint _ (.inl (by omega)),
    load32_write_disjoint _ (.inl (by omega))]
  exact load32_write _ _ _

theorem bioPutObj_eq (io : BinderIo) (ptr : A.Uintptr) : bioPutObj A io ptr =
    match bioAllocObj A io with
    | (some obj,io) =>
      {io with
        mem := writeObject io.mem obj A.binderSizeT.bytes binderTypeBinder
          (leBytes A.binderSizeT.bytes ptr.toNat)}
    | (none,io) => io := rfl

theorem bioPutRef_eq (io : BinderIo) {h : UInt32} (hn : h ≠ 0) : bioPutRef A io h =
    match bioAllocObj A io with
    | (some obj,io) =>
      {io with
        mem := writeObject io.mem obj A.binderSizeT.bytes binderTypeHandle
          (leBytes 4 h.toNat)}
    | (none,io) => io := by
  rw [bioPutRef,if_pos hn]
  rfl

section
variable {start io : BinderIo} {vs : List (Item A)} (hw : Wrote A start io vs)
  (hvalid : ∀ v ∈ vs, v.Valid)
include hw hvalid

theorem put_binder_wrote (ptr : A.Uintptr)
    (hroom : Roomy A start (vs.countP Item.isObject + 1))
    (hfit : start.dataAvail < A.binderSizeT.modulus) :
    (bioPutObj A io ptr).overflow ∨
      Wrote A start (bioPutObj A io ptr) (vs ++ [.object (.binder ptr)]) := by
  have ha := bioAllocObj_alloced (A := A) io
  rw [bioPutObj_eq]
  generalize bioAllocObj A io = out at ha ⊢
  cases ha with
  | full h => exact .inl h
  | taken hsize hslot =>
    refine .inr (object_wrote hw hvalid (.binder ptr) hroom hfit hsize hslot ?_ ⟨?_,?_⟩)
    · exact fun x hx => writeObject_below _ _ _ hx
    · exact writeObject_type _ _ _ _ _
    · have hfits : ptr.toNat < 256 ^ A.binderSizeT.bytes :=
        (toNat_lt_pow ptr).trans_le (Nat.pow_le_pow_right (by decide) A.sizeT_le)
      have hval : ptr.toNat = (ptr.setWidth (8 * A.binderSizeT.bytes)).toNat := by
        rw [BitVec.toNat_setWidth,Nat.pow_mul,Nat.mod_eq_of_lt hfits]
      rw [writeObject,loadBits_write_disjoint _ (.inl (Nat.le_refl _)),hval]
      exact loadBits_write _ _ _

theorem put_handle_wrote {h : UInt32} (hn : h ≠ 0)
    (hroom : Roomy A start (vs.countP Item.isObject + 1))
    (hfit : start.dataAvail < A.binderSizeT.modulus) :
    (bioPutRef A io h).overflow ∨
      Wrote A start (bioPutRef A io h) (vs ++ [.object (.handle h)]) := by
  have ha := bioAllocObj_alloced (A := A) io
  rw [bioPutRef_eq io hn]
  generalize bioAllocObj A io = out at ha ⊢
  cases ha with
  | full h => exact .inl h
  | taken hsize hslot =>
    refine .inr (object_wrote hw hvalid (.handle h) hroom hfit hsize hslot ?_ ⟨?_,?_⟩)
    · exact fun x hx => writeObject_below _ _ _ hx
    · exact writeObject_type _ _ _ _ _
    · have hb := A.binderSizeT.four_le_bytes
      rw [writeObject,load32_write_disjoint _ (.inl (by omega))]
      exact load32_write _ _ _

theorem put_wrote {v : Item A} (hv : v.Valid)
    (hroom : Roomy A start (vs.countP Item.isObject + slots v))
    (hfit : start.dataAvail < A.binderSizeT.modulus) :
    (v.put io).overflow ∨ Wrote A start (v.put io) (vs ++ [v]) := by
  cases v with
  | uint32 n => exact put_uint32_wrote hw hvalid n hroom
  | units us => exact put_units_wrote hw hvalid us hroom
  | object o =>
    cases o with
    | binder ptr => exact put_binder_wrote hw hvalid ptr hroom hfit
    | handle h => exact put_handle_wrote hw hvalid hv hroom hfit

end

theorem bioAlloc_sticky {io : BinderIo} (h : io.overflow) (size : ℕ) :
    (bioAlloc A io size).2.overflow := by
  have ha := bioAlloc_alloced (A := A) io size
  generalize bioAlloc A io size = out at ha ⊢
  cases ha with
  | full => exact overflow_set io
  | taken _ => exact h

theorem bioAllocObj_sticky {io : BinderIo} (h : io.overflow) :
    (bioAllocObj A io).2.overflow := by
  have ha := bioAllocObj_alloced (A := A) io
  generalize bioAllocObj A io = out at ha ⊢
  cases ha with
  | full ho => exact ho
  | taken _ _ => exact h

theorem put_sticky {io : BinderIo} (h : io.overflow) {v : Item A} (hv : v.Valid) :
    (v.put io).overflow := by
  cases v with
  | uint32 n =>
    have hs := bioAlloc_sticky (A := A) h 4
    rw [Item.put,bioPutUint32]
    split <;> simp_all [BinderIo.overflow,BinderIo.store]
  | units us =>
    have hs := bioAlloc_sticky (A := A) h (sizeofUnits A us.length)
    rw [Item.put,bioPutUnits]
    split <;> simp_all [BinderIo.overflow,BinderIo.store]
  | object o =>
    have hs := bioAllocObj_sticky (A := A) h
    cases o with
    | binder ptr =>
      rw [Item.put,bioPutObj_eq]
      split <;> simp_all [BinderIo.overflow]
    | handle k =>
      rw [Item.put,bioPutRef_eq _ hv]
      split <;> simp_all [BinderIo.overflow]

def putAll (io : BinderIo) (vs : List (Item A)) : BinderIo := vs.foldl Item.put io

theorem putAll_sticky {io : BinderIo} (h : io.overflow) {vs : List (Item A)}
    (hvalid : ∀ v ∈ vs, v.Valid) : (putAll io vs).overflow := by
  induction vs generalizing io with
  | nil => exact h
  | cons v vs ih =>
    exact ih (put_sticky h (hvalid v List.mem_cons_self))
      fun u hu => hvalid u (List.mem_cons_of_mem v hu)

theorem putAll_wrote {start io : BinderIo} {us vs : List (Item A)} (hw : Wrote A start io us)
    (hvalid : ∀ v ∈ us ++ vs, v.Valid)
    (hroom : Roomy A start ((us ++ vs).countP Item.isObject))
    (hfit : start.dataAvail < A.binderSizeT.modulus) :
    (putAll io vs).overflow ∨ Wrote A start (putAll io vs) (us ++ vs) := by
  induction vs generalizing io us with
  | nil =>
    rw [List.append_nil]
    exact .inr hw
  | cons v vs ih =>
    have hsplit : us ++ v :: vs = (us ++ [v]) ++ vs := by simp
    rw [hsplit] at hvalid hroom ⊢
    have hus : ∀ u ∈ us, u.Valid := fun u hu =>
      hvalid u (List.mem_append_left _ (List.mem_append_left _ hu))
    have hv : v.Valid := hvalid v (List.mem_append_left _ (List.mem_append_right _ (by simp)))
    have hcount : us.countP Item.isObject + slots v ≤
        ((us ++ [v]) ++ vs).countP Item.isObject := by
      rw [List.countP_append,List.countP_append,List.countP_singleton]
      exact Nat.le_add_right _ _
    rcases put_wrote hw hus hv (hroom.mono hcount) hfit with ho | hw'
    · exact .inl (putAll_sticky ho fun u hu => hvalid u (List.mem_append_right _ hu))
    · exact ih hw' hvalid hroom

theorem put_fits {io : BinderIo} (h : ¬ io.overflow) {v : Item A} (hv : v.Valid)
    (hsize : v.size ≤ io.dataAvail) (hslot : slots v ≤ io.offsAvail) :
    ¬ (v.put io).overflow ∧ (v.put io).dataAvail = io.dataAvail - v.size ∧
      (v.put io).offsAvail = io.offsAvail - slots v := by
  have hobject : ∀ o : FlatObject A, v = .object o →
      bioAllocObj A io = (some io.data,{io with
        data := io.data + A.sizeofFlatBinderObject
        dataAvail := io.dataAvail - A.sizeofFlatBinderObject
        offsAvail := io.offsAvail - 1
        offs := io.offs + A.binderSizeT.bytes
        mem := write io.mem io.offs (leBytes A.binderSizeT.bytes (io.data - io.data0))}) := by
    rintro o rfl
    have hs : ¬ roundUp A A.sizeofFlatBinderObject > io.dataAvail := by
      rw [roundUp_sizeofFlatBinderObject]
      exact Nat.not_lt.mpr hsize
    have hoffs : io.offsAvail ≠ 0 := by
      have hone : slots (Item.object o) = 1 := rfl
      omega
    rw [bioAllocObj,bioAlloc,if_neg hs,roundUp_sizeofFlatBinderObject]
    simp only [if_pos hoffs]
  cases v with
  | uint32 n =>
    have hfour : roundUp A 4 = 4 := roundUp_of_lt (by omega)
    have hs : ¬ roundUp A 4 > io.dataAvail := by
      rw [hfour]
      exact Nat.not_lt.mpr hsize
    rw [Item.put,bioPutUint32,bioAlloc,if_neg hs,hfour]
    exact ⟨h,rfl,rfl⟩
  | units us =>
    have hs : ¬ roundUp A (sizeofUnits A us.length) > io.dataAvail := Nat.not_lt.mpr hsize
    rw [Item.put,bioPutUnits,bioAlloc,if_neg hs]
    exact ⟨h,rfl,rfl⟩
  | object o =>
    have ho := hobject o rfl
    cases o with
    | binder ptr =>
      rw [Item.put,bioPutObj_eq,ho]
      exact ⟨h,rfl,rfl⟩
    | handle k =>
      rw [Item.put,bioPutRef_eq io hv,ho]
      exact ⟨h,rfl,rfl⟩

theorem putAll_fits {io : BinderIo} (h : ¬ io.overflow) {vs : List (Item A)}
    (hvalid : ∀ v ∈ vs, v.Valid) (hsize : extent Item.size vs ≤ io.dataAvail)
    (hslots : vs.countP Item.isObject ≤ io.offsAvail) : ¬ (putAll io vs).overflow := by
  induction vs generalizing io with
  | nil => exact h
  | cons v vs ih =>
    have hcount : (v :: vs).countP Item.isObject = slots v + vs.countP Item.isObject := by
      rw [List.countP_cons,Nat.add_comm]
      rfl
    rw [extent_cons] at hsize
    rw [hcount] at hslots
    obtain ⟨hno,havail,hoffs⟩ := put_fits h (hvalid v List.mem_cons_self) (by omega) (by omega)
    exact ih hno (fun u hu => hvalid u (List.mem_cons_of_mem v hu)) (by omega) (by omega)

end

end Binder
