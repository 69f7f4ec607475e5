import AndroidProjects.Binder.Footprint
import AndroidProjects.Binder.Tables

namespace Binder
open ByteMemory

section
variable {A : Abi}

variable (A) in
def offsetTable (io : BinderIo) : List ℕ :=
  (List.range (recordedOffsets A io)).map fun n =>
    load io.mem (io.offs0 + A.binderSizeT.bytes * n) A.binderSizeT.bytes

variable (A) in
def objectBytes (io : BinderIo) (off : ℕ) : List UInt8 :=
  slice io.mem (io.data0 + off) A.sizeofFlatBinderObject

variable (A) in
def ObjectAt (m : Mem) (p : ℕ) : Prop :=
  ∃ o : FlatObject A, ∀ w ∈ (Piece.object o true).stores, slice m (p + w.1) w.2.length = w.2

-- start is the binder_io as bio_init left it
structure Represents (A : Abi) (start io : BinderIo) : Prop where
  data0 : io.data0 = start.data
  offs0 : io.offs0 = start.offs
  le : io.data0 ≤ io.data
  data : io.data - io.data0 + io.dataAvail = start.dataAvail
  table : io.offs = io.offs0 + A.binderSizeT.bytes * recordedOffsets A io
  offs : recordedOffsets A io + io.offsAvail = start.offsAvail
  aligned : 4 ∣ io.data - io.data0
  apart : (offsetTable A io).Pairwise fun p q => p + A.sizeofFlatBinderObject ≤ q
  inside : ∀ off ∈ offsetTable A io, off + A.sizeofFlatBinderObject ≤ io.data - io.data0
  objects : ∀ off ∈ offsetTable A io, ObjectAt A io.mem (io.data0 + off)

structure Preserved (A : Abi) (io io' : BinderIo) : Prop where
  sticky : io.overflow → io'.overflow
  recorded : offsetTable A io <+: offsetTable A io'
  unchanged : ∀ off ∈ offsetTable A io, objectBytes A io' off = objectBytes A io off

theorem Preserved.refl (io : BinderIo) : Preserved A io io :=
  ⟨id,List.prefix_refl _,fun _ _ => rfl⟩

theorem Preserved.trans {a b c : BinderIo} (h : Preserved A a b) (k : Preserved A b c) :
    Preserved A a c where
  sticky ho := k.sticky (h.sticky ho)
  recorded := h.recorded.trans k.recorded
  unchanged off hoff := (k.unchanged off (h.recorded.subset hoff)).trans (h.unchanged off hoff)

theorem Represents.increasing {start io : BinderIo} (h : Represents A start io) :
    (offsetTable A io).Pairwise (· < ·) := by
  refine h.apart.imp fun hle => ?_
  have hpos : 0 < A.sizeofFlatBinderObject := by
    rcases sizeofFlatBinderObject_cases A with h | h <;> omega
  omega

theorem size_aligned (c : Piece A) : 4 ∣ c.size := by
  cases c with
  | word n => exact dvd_rfl
  | units us short => exact ⟨_,Nat.mul_comm _ _⟩
  | object o listed =>
    rcases sizeofFlatBinderObject_cases A with h | h
    · exact ⟨4,h⟩
    · exact ⟨6,h⟩

theorem size_listed {c : Piece A} (h : c.listed = true) : c.size = A.sizeofFlatBinderObject := by
  cases c with
  | word n => cases h
  | units us short => cases h
  | object o listed => rfl

theorem objectAt_congr {m m' : Mem} {p : ℕ}
    (h : ∀ x, p ≤ x → x < p + A.sizeofFlatBinderObject → m x = m' x) (ho : ObjectAt A m p) :
    ObjectAt A m' p := by
  obtain ⟨o,ho⟩ := ho
  refine ⟨o,fun w hw => ?_⟩
  have hin : w.1 + w.2.length ≤ A.sizeofFlatBinderObject := store_within hw
  have hkeep : slice m (p + w.1) w.2.length = slice m' (p + w.1) w.2.length :=
    slice_congr fun x h1 h2 => h x (by omega) (by omega)
  exact hkeep.symm.trans (ho w hw)

theorem represents_skip {start io : BinderIo} (h : Represents A start io) {b : ℕ}
    (hb : b ≤ io.dataAvail) (h4 : 4 ∣ b) (f : UInt32) :
    Represents A start {io with
      data := io.data + b
      dataAvail := io.dataAvail - b
      flags := f} := by
  have hle := h.le
  have hdata := h.data
  have hgap : io.data + b - io.data0 = io.data - io.data0 + b := by omega
  refine ⟨h.data0,h.offs0,?_,?_,h.table,h.offs,?_,h.apart,fun off hoff => ?_,h.objects⟩
  · exact hle.trans (Nat.le_add_right _ _)
  · simp only [hgap]
    omega
  · rw [hgap]
    exact Nat.dvd_add h.aligned h4
  · have hin := h.inside off hoff
    simp only [hgap]
    omega

theorem recordedOffsets_eq (io : BinderIo) :
    recordedOffsets A io = (io.offs - io.offs0) / A.binderSizeT.bytes := by
  rw [recordedOffsets,BinderIo.offsBytes,slice_length]

structure Ready (A : Abi) (start : BinderIo) : Prop where
  table : start.offs + A.binderSizeT.bytes * start.offsAvail ≤ start.data
  small : start.dataAvail < A.binderSizeT.modulus

abbrev Piece.placed (io : BinderIo) (c : Piece A) : Mem :=
  ByteMemory.stores (ByteMemory.stores io.mem (c.entry io.data0 io.data io.offs))
    (c.stores.map (Store.shift io.data))

abbrev Piece.laid (io : BinderIo) (c : Piece A) : BinderIo := {c.taken io with mem := c.placed io}

theorem placed_frame {io : BinderIo} {c : Piece A} {x : ℕ} (hx : x < io.data)
    (hout : x < io.offs ∨ io.offs + A.binderSizeT.bytes * c.slots ≤ x) :
    c.placed io x = io.mem x := by
  have hpiece : ¬ Touches (c.stores.map (Store.shift io.data)) x := by
    rw [touches_placed]
    omega
  have hentry : ¬ Touches (c.entry io.data0 io.data io.offs) x := by
    rw [touches_entry]
    omega
  rw [Piece.placed,stores_untouched hpiece,stores_untouched hentry]

theorem placed_entry {io : BinderIo} {c : Piece A} (hl : c.listed = true)
    (hbelow : io.offs + A.binderSizeT.bytes ≤ io.data)
    (hsmall : io.data - io.data0 < A.binderSizeT.modulus) :
    load (c.placed io) io.offs A.binderSizeT.bytes = io.data - io.data0 := by
  have hpiece : ∀ x, io.offs ≤ x → x < io.offs + A.binderSizeT.bytes →
      ¬ Touches (c.stores.map (Store.shift io.data)) x := by
    intro x h1 h2
    rw [touches_placed]
    omega
  have hentry : c.entry io.data0 io.data io.offs =
      [(io.offs,leBytes A.binderSizeT.bytes (io.data - io.data0))] := if_pos hl
  rw [Piece.placed,load,slice_stores_apart hpiece,hentry]
  exact load_write io.mem hsmall

theorem placed_object {io : BinderIo} {c : Piece A} (hl : c.listed = true) :
    ObjectAt A (c.placed io) io.data := by
  cases c with
  | word n => cases hl
  | units us short => cases hl
  | object o listed =>
    refine ⟨o,fun w hw => ?_⟩
    have hapart := apart_shift (piece_apart (Piece.object o true)) io.data
    exact slice_of_apart hapart (List.mem_map_of_mem hw) _

section
variable {start io : BinderIo} {c : Piece A} (hready : Ready A start) (h : Represents A start io)
  (hfit : c.Fits io)
include hready h hfit

theorem offs_below : io.offs + A.binderSizeT.bytes * c.slots ≤ io.data0 := by
  have htable := hready.table
  have hslots : recordedOffsets A io + c.slots ≤ start.offsAvail := by
    have hs := slots_le_avail hfit
    have hoffs := h.offs
    omega
  have hmul := Nat.mul_le_mul_left A.binderSizeT.bytes hslots
  rw [Nat.mul_add] at hmul
  have hdata0 := h.data0
  have hoffs0 := h.offs0
  have hfill := h.table
  omega

omit hready hfit in
theorem laid_recordedOffsets : recordedOffsets A (c.laid io) = recordedOffsets A io + c.slots := by
  have hfill := h.table
  have hgap : io.offs + A.binderSizeT.bytes * c.slots - io.offs0 =
      io.offs - io.offs0 + A.binderSizeT.bytes * c.slots := by omega
  rw [recordedOffsets_eq,recordedOffsets_eq]
  change (io.offs + A.binderSizeT.bytes * c.slots - io.offs0) / _ = _
  rw [hgap,Nat.add_mul_div_left _ _ A.binderSizeT.bytes_pos]

theorem laid_offsetTable : offsetTable A (c.laid io) =
    offsetTable A io ++ if c.listed then [io.data - io.data0] else [] := by
  have hbelow := offs_below hready h hfit
  have hle := h.le
  have hfill := h.table
  have hold : ∀ n < recordedOffsets A io,
      load (c.placed io) (io.offs0 + A.binderSizeT.bytes * n) A.binderSizeT.bytes =
        load io.mem (io.offs0 + A.binderSizeT.bytes * n) A.binderSizeT.bytes := by
    intro n hn
    have hslot : A.binderSizeT.bytes * n + A.binderSizeT.bytes ≤
        A.binderSizeT.bytes * recordedOffsets A io := Nat.mul_le_mul_left _ hn
    exact load_congr fun x h1 h2 => placed_frame (by omega) (.inl (by omega))
  have hkept : (List.range (recordedOffsets A io)).map (fun n =>
      load (c.placed io) (io.offs0 + A.binderSizeT.bytes * n) A.binderSizeT.bytes) =
        offsetTable A io :=
    List.map_congr_left fun n hn => hold n (List.mem_range.mp hn)
  rw [offsetTable,laid_recordedOffsets h,Piece.slots]
  change (List.range _).map (fun n =>
    load (c.placed io) (io.offs0 + A.binderSizeT.bytes * n) A.binderSizeT.bytes) = _
  by_cases hl : c.listed = true
  · have hone : c.slots = 1 := if_pos hl
    rw [hone,Nat.mul_one] at hbelow
    have hsmall : io.data - io.data0 < A.binderSizeT.modulus := by
      have hsum := h.data
      have hlimit := hready.small
      omega
    rw [if_pos hl,if_pos hl,List.range_succ,List.map_append,hkept,List.map_singleton,← hfill,
      placed_entry hl (hbelow.trans hle) hsmall]
  · rw [if_neg hl,if_neg hl,Nat.add_zero,hkept,List.append_nil]

theorem laid_object_kept {off : ℕ} (hoff : off ∈ offsetTable A io) {x : ℕ}
    (h1 : io.data0 + off ≤ x) (h2 : x < io.data0 + off + A.sizeofFlatBinderObject) :
    c.placed io x = io.mem x := by
  have hbelow := offs_below hready h hfit
  have hin := h.inside off hoff
  have hle := h.le
  exact placed_frame (by omega) (.inr (by omega))

theorem mem_laid_offsetTable {off : ℕ} (hoff : off ∈ offsetTable A (c.laid io)) :
    off ∈ offsetTable A io ∨ c.listed = true ∧ off = io.data - io.data0 := by
  rw [laid_offsetTable hready h hfit] at hoff
  rcases List.mem_append.mp hoff with hold | hlast
  · exact .inl hold
  · split_ifs at hlast with hl
    · exact .inr ⟨hl,List.mem_singleton.mp hlast⟩
    · cases hlast

theorem laid_apart : (offsetTable A (c.laid io)).Pairwise fun p q =>
    p + A.sizeofFlatBinderObject ≤ q := by
  rw [laid_offsetTable hready h hfit,List.pairwise_append]
  refine ⟨h.apart,?_,fun p hp q hq => ?_⟩
  · split_ifs
    · exact List.pairwise_singleton _ _
    · exact List.Pairwise.nil
  · have hin := h.inside p hp
    split_ifs at hq
    · rw [List.mem_singleton.mp hq]
      exact hin
    · cases hq

theorem laid_inside {off : ℕ} (hoff : off ∈ offsetTable A (c.laid io)) :
    off + A.sizeofFlatBinderObject ≤ io.data + c.size - io.data0 := by
  have hle := h.le
  rcases mem_laid_offsetTable hready h hfit hoff with hold | ⟨hl,rfl⟩
  · have hin := h.inside off hold
    omega
  · have hobject := size_listed hl
    omega

theorem laid_objectAt {off : ℕ} (hoff : off ∈ offsetTable A (c.laid io)) :
    ObjectAt A (c.placed io) (io.data0 + off) := by
  rcases mem_laid_offsetTable hready h hfit hoff with hold | ⟨hl,rfl⟩
  · refine objectAt_congr (fun x h1 h2 => ?_) (h.objects off hold)
    exact (laid_object_kept hready h hfit hold h1 h2).symm
  · rw [Nat.add_sub_cancel' h.le]
    exact placed_object hl

theorem laid_represents : Represents A start (c.laid io) := by
  have hle := h.le
  have hsum := h.data
  have hsize := hfit.1
  have hslots := slots_le_avail hfit
  have hoffs := h.offs
  have hcount := laid_recordedOffsets (c := c) h
  have hgap : io.data + c.size - io.data0 = io.data - io.data0 + c.size := by omega
  refine ⟨h.data0,h.offs0,hle.trans (Nat.le_add_right _ _),?_,?_,?_,?_,
    laid_apart hready h hfit,fun _ => laid_inside hready h hfit,
    fun _ => laid_objectAt hready h hfit⟩
  · change io.data + c.size - io.data0 + (io.dataAvail - c.size) = _
    omega
  · rw [hcount,Nat.mul_add,← Nat.add_assoc]
    exact congrArg (· + A.binderSizeT.bytes * c.slots) h.table
  · rw [hcount]
    change recordedOffsets A io + c.slots + (io.offsAvail - c.slots) = _
    omega
  · change 4 ∣ io.data + c.size - io.data0
    rw [hgap]
    exact Nat.dvd_add h.aligned (size_aligned c)

theorem laid_preserved : Preserved A io (c.laid io) where
  sticky ho := ho
  recorded := ⟨_,(laid_offsetTable hready h hfit).symm⟩
  unchanged _ hoff :=
    slice_congr fun _ h1 h2 => laid_object_kept hready h hfit hoff h1 h2

end

theorem put_represents {start io : BinderIo} (hready : Ready A start) (h : Represents A start io)
    (c : Piece A) : Represents A start (c.put io) ∧ Preserved A io (c.put io) := by
  have ha := alloc_allotted io c
  rw [Piece.put]
  generalize c.alloc io = out at ha ⊢
  cases ha with
  | short hshort =>
    have hskip := represents_skip h (Nat.zero_le _) (dvd_zero 4) (io.flags ||| bioFOverflow)
    exact ⟨hskip,fun _ => overflow_set io,List.prefix_refl _,fun _ _ => rfl⟩
  | unlisted hsize _ _ =>
    have hskip := represents_skip h hsize (size_aligned c) (io.flags ||| bioFOverflow)
    exact ⟨hskip,fun _ => overflow_set io,List.prefix_refl _,fun _ _ => rfl⟩
  | taken hfit => exact ⟨laid_represents hready h hfit,laid_preserved hready h hfit⟩

theorem putAll_represents {start io : BinderIo} (hready : Ready A start)
    (h : Represents A start io) (cs : List (Piece A)) :
    Represents A start (Piece.putAll io cs) ∧ Preserved A io (Piece.putAll io cs) := by
  induction cs generalizing io with
  | nil => exact ⟨h,Preserved.refl io⟩
  | cons c cs ih =>
    obtain ⟨hstep,hkept⟩ := put_represents hready h c
    obtain ⟨hrest,hlater⟩ := ih hstep
    exact ⟨hrest,hkept.trans hlater⟩

theorem runAll_represents {start io : BinderIo} (hready : Ready A start)
    (h : Represents A start io) (vs : List (Put A)) :
    Represents A start (Put.runAll io vs) ∧ Preserved A io (Put.runAll io vs) := by
  rw [Put.runAll_pieces]
  exact putAll_represents hready h _

theorem represents_start {start : BinderIo} (hdata : start.data0 = start.data)
    (hoffs : start.offs0 = start.offs) : Represents A start start := by
  have hnone : recordedOffsets A start = 0 := by
    rw [recordedOffsets_eq,hoffs,Nat.sub_self,Nat.zero_div]
  have hempty : offsetTable A start = [] := by
    rw [offsetTable,hnone]
    rfl
  refine ⟨hdata,hoffs,hdata.le,?_,?_,?_,?_,?_,?_,?_⟩
  · rw [hdata,Nat.sub_self,Nat.zero_add]
  · rw [hnone,hoffs,Nat.mul_zero,Nat.add_zero]
  · rw [hnone,Nat.zero_add]
  · rw [hdata,Nat.sub_self]
    exact dvd_zero 4
  · rw [hempty]
    exact List.Pairwise.nil
  · rw [hempty]
    exact fun _ h => absurd h List.not_mem_nil
  · rw [hempty]
    exact fun _ h => absurd h List.not_mem_nil

end

section
variable {w : Word} {maxdata maxoffs : (Abi.uniform w).Uintptr}

theorem reserved_uniform (h : maxoffs.toNat * w.bytes ≤ maxdata.toNat) :
    reserved (Abi.uniform w) maxoffs = maxoffs.toNat * w.bytes :=
  Word.wrap_of_lt (h.trans_lt (toNat_lt_pow maxdata))

theorem bioInit_ready (h : maxoffs.toNat * w.bytes ≤ maxdata.toNat) (io : BinderIo) (m : Mem)
    (data : ℕ) :
    Ready (Abi.uniform w) (bioInit (Abi.uniform w) io m data maxdata.toNat maxoffs.toNat) := by
  have hres := reserved_uniform h
  rw [bioInit_accepted (hres.trans_le h),hres]
  refine ⟨(congrArg (data + ·) (Nat.mul_comm _ _)).le,?_⟩
  exact (Nat.sub_le _ _).trans_lt (toNat_lt_pow maxdata)

theorem bioInit_represents (h : maxoffs.toNat * w.bytes ≤ maxdata.toNat) (io : BinderIo) (m : Mem)
    (data : ℕ) : Represents (Abi.uniform w)
      (bioInit (Abi.uniform w) io m data maxdata.toNat maxoffs.toNat)
      (bioInit (Abi.uniform w) io m data maxdata.toNat maxoffs.toNat) := by
  have hres := reserved_uniform h
  rw [bioInit_accepted (hres.trans_le h)]
  exact represents_start rfl rfl

-- vs are the puts so far, ws any that follow
theorem writer_invariant (h : maxoffs.toNat * w.bytes ≤ maxdata.toNat) (io : BinderIo) (m : Mem)
    (data : ℕ) (vs ws : List (Put (Abi.uniform w))) :
    let start := bioInit (Abi.uniform w) io m data maxdata.toNat maxoffs.toNat
    Represents (Abi.uniform w) start (Put.runAll start vs) ∧
      (offsetTable (Abi.uniform w) (Put.runAll start vs)).Pairwise (· < ·) ∧
      Preserved (Abi.uniform w) (Put.runAll start vs) (Put.runAll start (vs ++ ws)) := by
  intro start
  have hready : Ready (Abi.uniform w) start := bioInit_ready h io m data
  obtain ⟨hrep,-⟩ := runAll_represents hready (bioInit_represents h io m data) vs
  refine ⟨hrep,hrep.increasing,?_⟩
  have hsplit : Put.runAll start (vs ++ ws) = Put.runAll (Put.runAll start vs) ws :=
    List.foldl_append
  rw [hsplit]
  exact (runAll_represents hready hrep ws).2

end

-- room for two entries, and the third object takes bytes without one
def crowded : List (Put (Abi.uniform .four)) := [.uint32 7,.obj 5,.ref 3]

def crowdedStart : BinderIo :=
  bioInit (Abi.uniform .four) ⟨fun _ => 0,0,0,0,0,0,0,0⟩ (fun _ => 0) 1000 128 2

theorem crowded_invariant :
    offsetTable (Abi.uniform .four) (Put.runAll crowdedStart crowded) = [4,20] ∧
      Represents (Abi.uniform .four) crowdedStart (Put.runAll crowdedStart crowded) ∧
      Preserved (Abi.uniform .four) (Put.runAll crowdedStart crowded)
        (Put.runAll crowdedStart (crowded ++ [.ref 9,.string16 none])) := by
  have hfit : (2 : (Abi.uniform .four).Uintptr).toNat * Word.four.bytes ≤
      (128 : (Abi.uniform .four).Uintptr).toNat := by decide
  have hinv := writer_invariant hfit ⟨fun _ => 0,0,0,0,0,0,0,0⟩ (fun _ => 0) 1000 crowded
    [.ref 9,.string16 none]
  exact ⟨by decide +kernel,hinv.1,hinv.2.2⟩

end Binder
