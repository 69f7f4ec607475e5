import AndroidProjects.Binder.Writer
import AndroidProjects.Foundation.Stores

namespace Binder
open ByteMemory Layout

inductive Put (A : Abi) where
  | uint32 (n : UInt32)
  | obj (ptr : A.Uintptr)
  | ref (handle : UInt32)
  | string16 (str : Option (List UInt16))
  | string16X (str : Option (List UInt8))
  deriving DecidableEq, Repr

-- what one bio_alloc or bio_alloc_obj of a put makes room for
inductive Piece (A : Abi) where
  | word (n : UInt32)
  | units (us : List UInt16) (short : us.length < maxBioSize / 2)
  | object (o : FlatObject A) (listed : Bool)

section
variable {A : Abi}

namespace FlatObject

def type : FlatObject A → UInt32
  | binder _ => binderTypeBinder
  | handle _ => binderTypeHandle

def payload : FlatObject A → List UInt8
  | binder ptr => leBytes A.binderSizeT.bytes ptr.toNat
  | handle h => leBytes 4 h.toNat

end FlatObject

namespace Piece

def size : Piece A → ℕ
  | word _ => 4
  | units us _ => roundUp A (sizeofUnits A us.length)
  | object _ _ => A.sizeofFlatBinderObject

def listed : Piece A → Bool
  | object _ listed => listed
  | _ => false

def stores : Piece A → List Store
  | word n => [(0,leBytes 4 n.toNat)]
  | units us _ => [(0,unitBytes (us ++ [0]))]
  | object o _ => [(4,leBytes 4 objFlags.toNat),(0,leBytes 4 o.type.toNat),(8,o.payload),
      (8+A.binderSizeT.bytes,leBytes A.binderSizeT.bytes 0)]

def alloc (io : BinderIo) : Piece A → Option ℕ × BinderIo
  | word _ => bioAlloc A io 4
  | units us _ => bioAlloc A io (sizeofUnits A us.length)
  | object _ listed =>
    if listed then bioAllocObj A io else bioAlloc A io A.sizeofFlatBinderObject

def put (io : BinderIo) (c : Piece A) : BinderIo :=
  match c.alloc io with
  | (some p,io) => {io with mem := ByteMemory.stores io.mem (c.stores.map (Store.shift p))}
  | (none,io) => io

def putAll (io : BinderIo) (cs : List (Piece A)) : BinderIo := cs.foldl put io

def Fits (io : BinderIo) (c : Piece A) : Prop :=
  c.size ≤ io.dataAvail ∧ (c.listed = true → io.offsAvail ≠ 0)

def string (us : List UInt16) : List (Piece A) :=
  if h : us.length < maxBioSize / 2 then [word (UInt32.ofNat us.length),units us h]
  else [word 0xffffffff]

end Piece

namespace Put

def run (io : BinderIo) : Put A → BinderIo
  | uint32 n => bioPutUint32 A io n
  | obj ptr => bioPutObj A io ptr
  | ref handle => bioPutRef A io handle
  | string16 str => bioPutString16 A io str
  | string16X str => bioPutString16X A io str

def runAll (io : BinderIo) (vs : List (Put A)) : BinderIo := vs.foldl run io

def pieces : Put A → List (Piece A)
  | uint32 n => [.word n]
  | obj ptr => [.object (.binder ptr) true]
  | ref handle => [.object (.handle handle) (handle ≠ 0)]
  | string16 none => [.word 0xffffffff]
  | string16 (some str) => Piece.string (str.takeWhile (· ≠ 0))
  | string16X none => [.word 0xffffffff]
  | string16X (some str) => Piece.string ((str.takeWhile (· ≠ 0)).map UInt8.toUInt16)

theorem take_takeWhile {α : Type} (p : α → Bool) (l : List α) :
    l.take (l.takeWhile p).length = l.takeWhile p :=
  (List.prefix_iff_eq_take.mp (List.takeWhile_prefix p)).symm

theorem string_putAll (io : BinderIo) (us : List UInt16) :
    Piece.putAll io (Piece.string (A := A) us) =
      if us.length ≥ maxBioSize / 2 then bioPutUint32 A io 0xffffffff
      else bioPutUnits A (bioPutUint32 A io (UInt32.ofNat us.length)) us := by
  rw [Piece.string]
  by_cases h : us.length < maxBioSize / 2
  · rw [dif_pos h,if_neg (Nat.not_le.mpr h)]
    rfl
  · rw [dif_neg h,if_pos (Nat.not_lt.mp h)]
    rfl

theorem stores_object (m : Mem) (p : ℕ) (o : FlatObject A) (listed : Bool) :
    ByteMemory.stores m ((Piece.object o listed).stores.map (Store.shift p)) =
      writeObject m p A.binderSizeT.bytes o.type o.payload := by
  simp only [Piece.stores,Store.shift,List.map_cons,List.map_nil,stores_cons,stores_nil,
    writeObject,Nat.add_zero,Nat.add_assoc]

theorem put_object (io : BinderIo) (o : FlatObject A) (listed : Bool) :
    (Piece.object o listed).put io =
      match (if listed then bioAllocObj A io else bioAlloc A io A.sizeofFlatBinderObject) with
      | (some p,io) =>
        {io with mem := writeObject io.mem p A.binderSizeT.bytes o.type o.payload}
      | (none,io) => io := by
  simp only [Piece.put,Piece.alloc,stores_object]

theorem run_pieces (io : BinderIo) (v : Put A) : v.run io = Piece.putAll io v.pieces := by
  cases v with
  | uint32 n => rfl
  | obj ptr => exact (bioPutObj_eq io ptr).trans (put_object io (.binder ptr) true).symm
  | ref handle =>
    rw [pieces,Piece.putAll,List.foldl_cons,List.foldl_nil,put_object]
    simp only [decide_eq_true_eq]
    rfl
  | string16 str =>
    cases str with
    | none => rfl
    | some str =>
      rw [run,bioPutString16,pieces,string_putAll,strlen16,take_takeWhile]
  | string16X str =>
    cases str with
    | none => rfl
    | some str =>
      rw [run,bioPutString16X,pieces,string_putAll,strlen,take_takeWhile,List.length_map]

theorem runAll_pieces (io : BinderIo) (vs : List (Put A)) :
    runAll io vs = Piece.putAll io (vs.flatMap pieces) := by
  induction vs generalizing io with
  | nil => rfl
  | cons v vs ih =>
    have hv := ih (v.run io)
    rw [runAll,List.foldl_cons,List.flatMap_cons,Piece.putAll,List.foldl_append]
    rw [run_pieces] at hv ⊢
    exact hv

end Put

namespace Piece

def slots (c : Piece A) : ℕ := if c.listed then 1 else 0

def taken (io : BinderIo) (c : Piece A) : BinderIo :=
  {io with
    data := io.data + c.size
    dataAvail := io.dataAvail - c.size
    offs := io.offs + A.binderSizeT.bytes * c.slots
    offsAvail := io.offsAvail - c.slots}

def entry (base p q : ℕ) (c : Piece A) : List Store :=
  if c.listed then [(q,leBytes A.binderSizeT.bytes (p - base))] else []

end Piece

inductive Allotted (io : BinderIo) (c : Piece A) : Option ℕ × BinderIo → Prop
  | short (h : io.dataAvail < c.size) :
      Allotted io c (none,{io with flags := io.flags ||| bioFOverflow})
  | unlisted (h : c.size ≤ io.dataAvail) (hl : c.listed = true) (hs : io.offsAvail = 0) :
      Allotted io c (none,{io with
        data := io.data + c.size
        dataAvail := io.dataAvail - c.size
        flags := io.flags ||| bioFOverflow})
  | taken (h : c.Fits io) :
      Allotted io c (some io.data,{c.taken io with
        mem := stores io.mem (c.entry io.data0 io.data io.offs)})

theorem alloc_plain {io : BinderIo} {c : Piece A} {size : ℕ} (hsize : roundUp A size = c.size)
    (hl : c.listed = false) : Allotted io c (bioAlloc A io size) := by
  have ht : {c.taken io with mem := stores io.mem (c.entry io.data0 io.data io.offs)} =
      {io with data := io.data + c.size, dataAvail := io.dataAvail - c.size} := by
    simp [Piece.taken,Piece.slots,Piece.entry,hl]
  rw [bioAlloc,hsize]
  split_ifs with h
  · exact .short h
  · rw [← ht]
    exact .taken ⟨Nat.not_lt.mp h,fun h' => absurd (hl.symm.trans h') Bool.false_ne_true⟩

theorem alloc_object (io : BinderIo) (o : FlatObject A) :
    Allotted io (.object o true) (bioAllocObj A io) := by
  have hsize : (Piece.object o true).size = A.sizeofFlatBinderObject := rfl
  rw [bioAllocObj,bioAlloc,roundUp_sizeofFlatBinderObject]
  by_cases h : A.sizeofFlatBinderObject > io.dataAvail
  · rw [if_pos h]
    have hflags : io.flags ||| bioFOverflow ||| bioFOverflow = io.flags ||| bioFOverflow := by
      rw [UInt32.or_assoc,UInt32.or_self]
    simp only [hflags]
    exact .short h
  · rw [if_neg h]
    by_cases hs : io.offsAvail = 0
    · simp only [hs,ne_eq,not_true_eq_false,if_false]
      exact hs ▸ .unlisted (Nat.not_lt.mp h) rfl hs
    · simp only [ne_eq,hs,not_false_eq_true,if_true]
      have ht := Allotted.taken (c := Piece.object o true) ⟨Nat.not_lt.mp h,fun _ => hs⟩
      simpa [Piece.taken,Piece.slots,Piece.entry,Piece.listed,hsize] using ht

theorem alloc_allotted (io : BinderIo) (c : Piece A) : Allotted io c (c.alloc io) := by
  cases c with
  | word n => exact alloc_plain (roundUp_of_lt (by omega)) rfl
  | units us short => exact alloc_plain rfl rfl
  | object o listed =>
    cases listed with
    | false => exact alloc_plain (roundUp_sizeofFlatBinderObject A) rfl
    | true => exact alloc_object io o

def laidStores (base : ℕ) : ℕ → ℕ → List (Piece A) → List Store
  | _, _, [] => []
  | p, q, c :: cs => c.entry base p q ++ (c.stores.map (Store.shift p) ++
      laidStores base (p + c.size) (q + A.binderSizeT.bytes * c.slots) cs)

def pieceSlots (cs : List (Piece A)) : ℕ := cs.countP Piece.listed

@[simp] theorem pieceSlots_nil : pieceSlots ([] : List (Piece A)) = 0 := rfl

@[simp] theorem pieceSlots_cons (c : Piece A) (cs : List (Piece A)) :
    pieceSlots (c :: cs) = c.slots + pieceSlots cs := by
  rw [pieceSlots,List.countP_cons,Nat.add_comm]
  rfl

structure Spent (A : Abi) (start io : BinderIo) : Prop where
  data0 : io.data0 = start.data0
  offs0 : io.offs0 = start.offs0
  data : io.data + io.dataAvail = start.data + start.dataAvail
  offs : io.offs + A.binderSizeT.bytes * io.offsAvail =
    start.offs + A.binderSizeT.bytes * start.offsAvail
  le : start.data ≤ io.data
  sticky : start.overflow → io.overflow

structure Laid (A : Abi) (start io : BinderIo) (cs : List (Piece A)) : Prop where
  data0 : io.data0 = start.data0
  offs0 : io.offs0 = start.offs0
  data : io.data = start.data + extent Piece.size cs
  offs : io.offs = start.offs + A.binderSizeT.bytes * pieceSlots cs
  dataAvail : extent Piece.size cs + io.dataAvail = start.dataAvail
  offsAvail : pieceSlots cs + io.offsAvail = start.offsAvail
  flags : io.flags = start.flags
  mem : io.mem = stores start.mem (laidStores start.data0 start.data start.offs cs)

theorem slots_le_avail {io : BinderIo} {c : Piece A} (h : c.Fits io) : c.slots ≤ io.offsAvail := by
  rw [Piece.slots]
  split_ifs with hl
  · exact Nat.pos_of_ne_zero (h.2 hl)
  · exact Nat.zero_le _

theorem put_spent (io : BinderIo) (c : Piece A) : Spent A io (c.put io) := by
  have ha := alloc_allotted io c
  rw [Piece.put]
  generalize c.alloc io = out at ha ⊢
  cases ha with
  | short h => exact ⟨rfl,rfl,rfl,rfl,le_rfl,fun _ => overflow_set io⟩
  | unlisted h hl hs =>
    refine ⟨rfl,rfl,?_,rfl,Nat.le_add_right _ _,fun _ => overflow_set io⟩
    simp only []
    omega
  | taken h =>
    refine ⟨rfl,rfl,?_,?_,Nat.le_add_right _ _,fun ho => ho⟩
    · have hsize := h.1
      simp only [Piece.taken]
      omega
    · have hs := slots_le_avail h
      simp only [Piece.taken]
      rw [Nat.add_assoc,← Nat.mul_add,Nat.add_sub_cancel' hs]

theorem put_full {io : BinderIo} {c : Piece A} (h : ¬ c.Fits io) : (c.put io).overflow := by
  have ha := alloc_allotted io c
  rw [Piece.put]
  generalize c.alloc io = out at ha ⊢
  cases ha with
  | short _ => exact overflow_set io
  | unlisted _ _ _ => exact overflow_set io
  | taken hfit => exact absurd hfit h

theorem put_laid {io : BinderIo} {c : Piece A} (h : c.Fits io) : Laid A io (c.put io) [c] := by
  have hs := slots_le_avail h
  have hsize := h.1
  have ha := alloc_allotted io c
  rw [Piece.put]
  generalize c.alloc io = out at ha ⊢
  cases ha with
  | short hshort => omega
  | unlisted _ hl hnone => exact absurd hnone (h.2 hl)
  | taken _ =>
    refine ⟨rfl,rfl,rfl,?_,?_,?_,rfl,?_⟩
    · rw [pieceSlots_cons,pieceSlots_nil]
      rfl
    · simp only [Piece.taken,extent_cons,extent_nil]
      omega
    · simp only [Piece.taken,pieceSlots_cons,pieceSlots_nil]
      omega
    · simp only [laidStores,List.append_nil,stores_append]

theorem Spent.trans {a b c : BinderIo} (h : Spent A a b) (k : Spent A b c) : Spent A a c where
  data0 := k.data0.trans h.data0
  offs0 := k.offs0.trans h.offs0
  data := k.data.trans h.data
  offs := k.offs.trans h.offs
  le := h.le.trans k.le
  sticky ho := k.sticky (h.sticky ho)

theorem putAll_spent (io : BinderIo) (cs : List (Piece A)) : Spent A io (Piece.putAll io cs) := by
  induction cs generalizing io with
  | nil => exact ⟨rfl,rfl,rfl,rfl,le_rfl,fun ho => ho⟩
  | cons c cs ih => exact (put_spent io c).trans (ih (c.put io))

theorem laid_cons {a b d : BinderIo} {c : Piece A} {cs : List (Piece A)} (h : Laid A a b [c])
    (k : Laid A b d cs) : Laid A a d (c :: cs) := by
  have hdata := h.data
  have hoffs := h.offs
  have havail := h.dataAvail
  have hslots := h.offsAvail
  have kavail := k.dataAvail
  have kslots := k.offsAvail
  simp only [extent_cons,extent_nil,pieceSlots_cons,pieceSlots_nil,Nat.add_zero] at hdata hoffs
  simp only [extent_cons,extent_nil,pieceSlots_cons,pieceSlots_nil] at havail hslots
  refine ⟨k.data0.trans h.data0,k.offs0.trans h.offs0,?_,?_,?_,?_,k.flags.trans h.flags,?_⟩
  · rw [k.data,hdata,extent_cons,Nat.add_assoc]
  · rw [k.offs,hoffs,pieceSlots_cons,Nat.mul_add,Nat.add_assoc]
  · rw [extent_cons]
    omega
  · rw [pieceSlots_cons]
    omega
  · rw [k.mem,h.mem,h.data0,hdata,hoffs]
    simp only [laidStores,List.append_nil,stores_append]

theorem laid_nil (io : BinderIo) : Laid A io io [] :=
  ⟨rfl,rfl,rfl,rfl,Nat.zero_add _,Nat.zero_add _,rfl,rfl⟩

def Room (io : BinderIo) (cs : List (Piece A)) : Prop :=
  extent Piece.size cs ≤ io.dataAvail ∧ pieceSlots cs ≤ io.offsAvail

instance (io : BinderIo) (cs : List (Piece A)) : Decidable (Room io cs) :=
  inferInstanceAs (Decidable (_ ∧ _))

theorem putAll_laid {io : BinderIo} {cs : List (Piece A)} (h : Room io cs) :
    Laid A io (Piece.putAll io cs) cs := by
  induction cs generalizing io with
  | nil => exact laid_nil io
  | cons c cs ih =>
    obtain ⟨hsize,hslots⟩ := h
    rw [extent_cons] at hsize
    rw [pieceSlots_cons] at hslots
    have hfit : c.Fits io := by
      refine ⟨by omega,fun hl hz => ?_⟩
      simp only [Piece.slots,hl,if_true] at hslots
      omega
    have hc := put_laid hfit
    have havail := hc.dataAvail
    have hleft := hc.offsAvail
    simp only [extent_cons,extent_nil,pieceSlots_cons,pieceSlots_nil] at havail hleft
    exact laid_cons hc (ih ⟨by omega,by omega⟩)

theorem putAll_overflow_iff {io : BinderIo} (h : ¬ io.overflow) (cs : List (Piece A)) :
    (Piece.putAll io cs).overflow ↔ ¬ Room io cs := by
  constructor
  · intro ho hroom
    apply h
    rw [BinderIo.overflow,← (putAll_laid hroom).flags]
    exact ho
  · intro hroom
    induction cs generalizing io with
    | nil => exact absurd ⟨Nat.zero_le _,Nat.zero_le _⟩ hroom
    | cons c cs ih =>
      by_cases hfit : c.Fits io
      · have hc := put_laid hfit
        have havail := hc.dataAvail
        have hleft := hc.offsAvail
        simp only [extent_cons,extent_nil,pieceSlots_cons,pieceSlots_nil] at havail hleft
        have hkeep : ¬ (c.put io).overflow := by
          rw [BinderIo.overflow,hc.flags]
          exact h
        refine ih hkeep fun hrest => hroom ?_
        · obtain ⟨hsize,hslots⟩ := hrest
          rw [Room,extent_cons,pieceSlots_cons]
          omega
      · exact (putAll_spent (c.put io) cs).sticky (put_full hfit)

theorem slots_size (c : Piece A) : 16 * c.slots ≤ c.size := by
  rw [Piece.slots]
  split_ifs with hl
  · cases c with
    | word n => cases hl
    | units us short => cases hl
    | object o listed =>
      rw [Piece.size]
      rcases sizeofFlatBinderObject_cases A with h | h
      · rw [h]
      · rw [h]
        omega
  · exact Nat.zero_le _

theorem slots_extent (cs : List (Piece A)) : 16 * pieceSlots cs ≤ extent Piece.size cs := by
  induction cs with
  | nil => exact Nat.le_refl 0
  | cons c cs ih =>
    have hc := slots_size c
    rw [extent_cons,pieceSlots_cons]
    omega

end

section
variable (A : Abi)

def reserved (maxoffs : A.Uintptr) : ℕ := A.sizeT.wrap (maxoffs.toNat * A.sizeT.bytes)

def filled (io : BinderIo) (m : Mem) (data : ℕ) (maxdata maxoffs : A.Uintptr)
    (vs : List (Put A)) : BinderIo :=
  Put.runAll (bioInit A io m data maxdata.toNat maxoffs.toNat) vs

def PutsFit (maxdata maxoffs : A.Uintptr) (vs : List (Put A)) : Prop :=
  reserved A maxoffs ≤ maxdata.toNat ∧
  extent Piece.size (vs.flatMap Put.pieces) ≤ maxdata.toNat - reserved A maxoffs ∧
  pieceSlots (vs.flatMap Put.pieces) ≤ maxoffs.toNat

instance (maxdata maxoffs : A.Uintptr) (vs : List (Put A)) :
    Decidable (PutsFit A maxdata maxoffs vs) := inferInstanceAs (Decidable (_ ∧ _))

variable {A} {maxdata maxoffs : A.Uintptr}

theorem bioInit_accepted (h : reserved A maxoffs ≤ maxdata.toNat) (io : BinderIo) (m : Mem)
    (data : ℕ) : bioInit A io m data maxdata.toNat maxoffs.toNat =
      ⟨m,data + reserved A maxoffs,data,maxdata.toNat - reserved A maxoffs,maxoffs.toNat,
        data + reserved A maxoffs,data,0⟩ := by
  rw [reserved] at h ⊢
  rw [bioInit,if_neg (Nat.not_lt.mpr h)]

theorem filled_laid {vs : List (Put A)} (h : PutsFit A maxdata maxoffs vs) (io : BinderIo) (m : Mem)
    (data : ℕ) : Laid A (bioInit A io m data maxdata.toNat maxoffs.toNat)
      (filled A io m data maxdata maxoffs vs) (vs.flatMap Put.pieces) := by
  rw [filled,Put.runAll_pieces]
  apply putAll_laid
  rw [bioInit_accepted h.1]
  exact h.2

theorem filled_overflow_iff (io : BinderIo) (m : Mem) (data : ℕ) (vs : List (Put A)) :
    (filled A io m data maxdata maxoffs vs).overflow ↔ ¬ PutsFit A maxdata maxoffs vs := by
  rw [filled,Put.runAll_pieces]
  by_cases h : reserved A maxoffs ≤ maxdata.toNat
  · have hclear : ¬ (bioInit A io m data maxdata.toNat maxoffs.toNat).overflow := by
      rw [bioInit_accepted h]
      exact BinderIo.clear_of_zero rfl
    rw [putAll_overflow_iff hclear,bioInit_accepted h]
    exact not_congr (and_iff_right h).symm
  · have hfull : (bioInit A io m data maxdata.toNat maxoffs.toNat).overflow := by
      have hset : bioFOverflow &&& bioFOverflow ≠ 0 := by decide
      rw [reserved] at h
      rw [bioInit,if_pos (Nat.not_le.mp h)]
      exact hset
    exact iff_of_true ((putAll_spent _ _).sticky hfull) fun hfit => h hfit.1

section
variable {vs : List (Put A)} (h : PutsFit A maxdata maxoffs vs) (io : BinderIo) (m : Mem) (data : ℕ)
include h

theorem filled_data : (filled A io m data maxdata maxoffs vs).data0 = data + reserved A maxoffs ∧
    (filled A io m data maxdata maxoffs vs).data =
      data + reserved A maxoffs + extent Piece.size (vs.flatMap Put.pieces) := by
  have hl := filled_laid h io m data
  have hdata := hl.data
  have hdata0 := hl.data0
  rw [bioInit_accepted h.1] at hdata hdata0
  exact ⟨hdata0,hdata⟩

theorem filled_offs : (filled A io m data maxdata maxoffs vs).offs0 = data ∧
    (filled A io m data maxdata maxoffs vs).offs =
      data + A.binderSizeT.bytes * pieceSlots (vs.flatMap Put.pieces) := by
  have hl := filled_laid h io m data
  have hoffs := hl.offs
  have hoffs0 := hl.offs0
  rw [bioInit_accepted h.1] at hoffs hoffs0
  exact ⟨hoffs0,hoffs⟩

theorem filled_mem : (filled A io m data maxdata maxoffs vs).mem =
    stores m (laidStores (data + reserved A maxoffs) (data + reserved A maxoffs) data
      (vs.flatMap Put.pieces)) := by
  have hmem := (filled_laid h io m data).mem
  rwa [bioInit_accepted h.1] at hmem

theorem dataBytes_filled : (filled A io m data maxdata maxoffs vs).dataBytes =
    slice (filled A io m data maxdata maxoffs vs).mem (data + reserved A maxoffs)
      (extent Piece.size (vs.flatMap Put.pieces)) := by
  obtain ⟨hdata0,hdata⟩ := filled_data h io m data
  rw [BinderIo.dataBytes,hdata0,hdata,Nat.add_sub_cancel_left]

theorem offsBytes_filled : (filled A io m data maxdata maxoffs vs).offsBytes =
    slice (filled A io m data maxdata maxoffs vs).mem data
      (A.binderSizeT.bytes * pieceSlots (vs.flatMap Put.pieces)) := by
  obtain ⟨hoffs0,hoffs⟩ := filled_offs h io m data
  rw [BinderIo.offsBytes,hoffs0,hoffs,Nat.add_sub_cancel_left]

end

end

end Binder
