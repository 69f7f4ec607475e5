import AndroidProjects.Binder.Cursor
import AndroidProjects.Binder.Puts
import AndroidProjects.Binder.RoundTrip

namespace Binder
open ByteMemory Layout

section
variable {A : Abi}

def Item.piece : (v : Item A) → v.Valid → Piece A
  | .uint32 n, _ => .word n
  | .units us, h => .units us h
  | .object o, _ => .object o true

theorem item_put_piece (io : BinderIo) (v : Item A) (hv : v.Valid) :
    v.put io = (v.piece hv).put io := by
  cases v with
  | uint32 n => rfl
  | units us => rfl
  | object o =>
    rw [Item.piece,Put.put_object]
    cases o with
    | binder ptr => exact bioPutObj_eq io ptr
    | handle h => exact bioPutRef_eq io hv

theorem piece_size (v : Item A) (hv : v.Valid) : (v.piece hv).size = v.size := by
  cases v <;> rfl

theorem piece_slots (v : Item A) (hv : v.Valid) : (v.piece hv).slots = slots v := by
  cases v <;> rfl

theorem laid_flags {io b b₀ : BinderIo} {f : UInt32} {cs : List (Piece A)} (h : Laid A io b cs)
    (h₀ : Laid A {io with flags := f} b₀ cs) : b = {b₀ with flags := b.flags} := by
  have havail := h.dataAvail.trans h₀.dataAvail.symm
  have hleft := h.offsAvail.trans h₀.offsAvail.symm
  have hdata : b.data = b₀.data := h.data.trans h₀.data.symm
  have hoffs : b.offs = b₀.offs := h.offs.trans h₀.offs.symm
  have hdata0 : b.data0 = b₀.data0 := h.data0.trans h₀.data0.symm
  have hoffs0 : b.offs0 = b₀.offs0 := h.offs0.trans h₀.offs0.symm
  have hmem : b.mem = b₀.mem := h.mem.trans h₀.mem.symm
  have hda : b.dataAvail = b₀.dataAvail := by omega
  have hoa : b.offsAvail = b₀.offsAvail := by omega
  cases b
  simp only [BinderIo.mk.injEq,and_true]
  exact ⟨hmem,hdata,hoffs,hda,hoa,hdata0,hoffs0⟩

def wordsAt (m : Mem) (p n : ℕ) : List UInt32 := (List.range n).map fun i => load32 m (p + 4 * i)

theorem writeObject_handle (m : Mem) (p : ℕ) {k : ℕ} (hk : 4 ≤ k) (type handle : UInt32) :
    load32 (writeObject m p k type (leBytes 4 handle.toNat)) (p+8) = handle := by
  rw [writeObject,load32_write_disjoint _ (.inl (by omega))]
  exact load32_write _ _ _

theorem words_valid (ns : List UInt32) : ∀ v ∈ ns.map (Item.uint32 (A := A)), v.Valid := by
  intro v hv
  obtain ⟨n,-,rfl⟩ := List.mem_map.mp hv
  trivial

theorem words_plain (ns : List UInt32) :
    (ns.map (Item.uint32 (A := A))).countP Item.isObject = 0 := by
  rw [List.countP_map,List.countP_eq_zero]
  exact fun _ _ => Bool.false_ne_true

section
variable {start io : BinderIo} {us : List (Item A)} (hw : Wrote A start io us)
include hw

theorem wrote_flags (f : UInt32) : Wrote A start {io with flags := f} us :=
  ⟨hw.data0,hw.offs0,hw.data,hw.offs,hw.dataAvail,hw.offsAvail,hw.placed,hw.table⟩

variable (hvalid : ∀ u ∈ us, u.Valid)
include hvalid

theorem put_wrote_fits {v : Item A} (hv : v.Valid) (hroom : Roomy A start
    (us.countP Item.isObject + slots v)) (hfit : start.dataAvail < A.binderSizeT.modulus)
    (h : (v.piece hv).Fits io) : Wrote A start (v.put io) (us ++ [v]) := by
  have hclear : ¬ BinderIo.overflow {io with flags := 0} := BinderIo.clear_of_zero rfl
  have hsize : v.size ≤ io.dataAvail := piece_size v hv ▸ h.1
  have hslots : slots v ≤ io.offsAvail := piece_slots v hv ▸ slots_le_avail h
  have hno := (put_fits hclear hv hsize hslots).1
  have hl : Laid A io (v.put io) [v.piece hv] := by
    rw [item_put_piece io v hv]
    exact put_laid h
  have hl₀ : Laid A {io with flags := 0} (v.put {io with flags := 0}) [v.piece hv] := by
    rw [item_put_piece _ v hv]
    exact put_laid h
  rw [laid_flags hl hl₀]
  rcases put_wrote (wrote_flags hw 0) hvalid hv hroom hfit with ho | hdone
  · exact absurd ho hno
  · exact wrote_flags hdone _

theorem wrote_skip (n : ℕ) (hroom : Roomy A start (us.countP Item.isObject))
    (h : 4 * n ≤ io.dataAvail) : Wrote A start {io with
        data := io.data + 4 * n
        dataAvail := io.dataAvail - 4 * n}
      (us ++ (wordsAt io.mem io.data n).map (Item.uint32 (A := A))) := by
  induction n with
  | zero => rwa [wordsAt,List.range_zero,List.map_nil,List.map_nil,List.append_nil]
  | succ n ih =>
    have hns := ih (by omega)
    have hall : ∀ u ∈ us ++ (wordsAt io.mem io.data n).map (Item.uint32 (A := A)), u.Valid :=
      List.forall_mem_append.mpr ⟨hvalid,words_valid _⟩
    have hrec := wrote_recorded hw hroom
    have hsum : (us ++ (wordsAt io.mem io.data n).map (Item.uint32 (A := A))).countP
        Item.isObject = us.countP Item.isObject := by
      rw [List.countP_append,words_plain,Nat.add_zero]
    have hlast : wordsAt io.mem io.data (n+1) =
        wordsAt io.mem io.data n ++ [load32 io.mem (io.data + 4 * n)] := by
      rw [wordsAt,List.range_succ,List.map_append]
      rfl
    rw [hlast,List.map_append,← List.append_assoc]
    refine wrote_extend hns hall (by rw [hsum]; exact hrec) rfl rfl ?_ ?_ rfl (Nat.zero_add _)
      (fun _ _ _ => rfl) rfl fun ho => absurd ho (by simp [Item.isObject])
    · simp only [Item.size]
      omega
    · simp only [Item.size]
      omega

theorem put_unlisted_wrote (handle : UInt32) (hroom : Roomy A start (us.countP Item.isObject))
    (h : A.sizeofFlatBinderObject ≤ io.dataAvail) :
    ∃ n n' ns, 4 * (n :: n' :: handle :: ns).length = A.sizeofFlatBinderObject ∧
      Wrote A start ((Piece.object (A := A) (.handle handle) false).put io)
        (us ++ (n :: n' :: handle :: ns).map (Item.uint32 (A := A))) := by
  rw [Put.put_object]
  simp only [Bool.false_eq_true,if_false]
  rw [bioAlloc,roundUp_sizeofFlatBinderObject,if_neg (Nat.not_lt.mpr h)]
  simp only []
  generalize hmem : writeObject io.mem io.data A.binderSizeT.bytes _ _ = mem
  obtain ⟨j,hj⟩ : ∃ j, A.sizeofFlatBinderObject = 4 * (j+3) := by
    rcases sizeofFlatBinderObject_cases A with hs | hs
    · exact ⟨1,hs⟩
    · exact ⟨3,hs⟩
  rw [hj] at h ⊢
  have hfirst : Wrote A start {io with
      data := io.data + 4
      dataAvail := io.dataAvail - 4
      mem := mem} (us ++ [.uint32 (load32 mem io.data)]) := by
    refine wrote_extend hw hvalid (wrote_recorded hw hroom) rfl rfl rfl ?_ rfl (Nat.zero_add _)
      ?_ rfl fun ho => absurd ho (by simp [Item.isObject])
    · simp only [Item.size]
      omega
    · intro x hx _
      rw [← hmem]
      exact (writeObject_below _ _ _ hx).symm
  have hall : ∀ u ∈ us ++ [.uint32 (load32 mem io.data)], u.Valid :=
    List.forall_mem_append.mpr ⟨hvalid,words_valid [load32 mem io.data]⟩
  have hns := wrote_skip hfirst hall (j+2) (by rwa [List.countP_append])
    (by simp only []; omega)
  have hthird : load32 mem (io.data + 8) = handle := by
    rw [← hmem]
    exact writeObject_handle _ _ A.binderSizeT.four_le_bytes _ handle
  have hwords : wordsAt mem (io.data + 4) (j+2) = load32 mem (io.data + 4) :: handle ::
      (List.range j).map fun i => load32 mem (io.data + 4 + 4 * (i+2)) := by
    rw [wordsAt,List.range_succ_eq_map,List.range_succ_eq_map,List.map_cons,List.map_map,
      List.map_cons,List.map_map]
    exact congrArg₂ List.cons rfl (congrArg₂ List.cons hthird rfl)
  have hdata : io.data + 4 + 4 * (j+2) = io.data + 4 * (j+3) := by omega
  have havail : io.dataAvail - 4 - 4 * (j+2) = io.dataAvail - 4 * (j+3) := by omega
  simp only [hdata,havail,hwords,List.append_assoc,List.singleton_append] at hns
  refine ⟨load32 mem io.data,load32 mem (io.data + 4),_,?_,hns⟩
  simp only [List.length_cons,List.length_map,List.length_range]

end

-- the start of a message: the area below its data holds one size_t for each entry
structure Prepared (A : Abi) (start : BinderIo) : Prop where
  data : start.data = start.offs + start.offsAvail * A.sizeT.bytes
  some_entry : 0 < start.offsAvail

theorem prepared_full {start io : BinderIo} {us : List (Item A)} (hp : Prepared A start)
    (hw : Wrote A start io us) (hroom : Roomy A start (us.countP Item.isObject))
    (h : io.offsAvail = 0) : A.sizeT = A.binderSizeT := by
  have hrec := wrote_recorded hw hroom
  have hdata := hp.data
  have hleft := hw.offsAvail
  have hpos := hp.some_entry
  have hall : us.countP Item.isObject = start.offsAvail := by omega
  have hmul : A.binderSizeT.bytes * start.offsAvail ≤ A.sizeT.bytes * start.offsAvail := by
    rw [hall] at hrec
    rw [Nat.mul_comm A.sizeT.bytes]
    omega
  have hle := Nat.le_of_mul_le_mul_right hmul hpos
  by_contra hne
  obtain ⟨h4,h8⟩ := binderSizeT_of_ne hne
  omega

theorem piece_words (c : Piece A) (h : c.listed = true) : c.size = 4 * (c.size / 4) := by
  cases c with
  | word n => cases h
  | units us short => cases h
  | object o listed =>
    rw [Piece.size]
    rcases sizeofFlatBinderObject_cases A with hs | hs <;> rw [hs]

-- the pieces of puts: only a handle 0 goes in without an entry
def Piece.Sound : Piece A → Prop
  | .object (.binder _) listed => listed = true
  | .object (.handle h) listed => listed = true ↔ h ≠ 0
  | _ => True

theorem put_sound (v : Put A) : ∀ c ∈ v.pieces, c.Sound := by
  have hstring : ∀ us : List UInt16, ∀ c ∈ Piece.string (A := A) us, c.Sound := by
    intro us c hc
    rw [Piece.string] at hc
    split_ifs at hc
    · rcases List.mem_cons.mp hc with rfl | hc
      · trivial
      · exact List.mem_singleton.mp hc ▸ trivial
    · exact List.mem_singleton.mp hc ▸ trivial
  intro c hc
  cases v with
  | uint32 n => exact List.mem_singleton.mp hc ▸ trivial
  | obj ptr =>
    obtain rfl := List.mem_singleton.mp hc
    exact (rfl : true = true)
  | ref handle =>
    obtain rfl := List.mem_singleton.mp hc
    exact decide_eq_true_iff
  | string16 str =>
    cases str with
    | none => exact List.mem_singleton.mp hc ▸ trivial
    | some str => exact hstring _ c hc
  | string16X str =>
    cases str with
    | none => exact List.mem_singleton.mp hc ▸ trivial
    | some str => exact hstring _ c hc

theorem puts_sound (vs : List (Put A)) : ∀ c ∈ vs.flatMap Put.pieces, c.Sound := by
  intro c hc
  obtain ⟨v,-,hv⟩ := List.mem_flatMap.mp hc
  exact put_sound v c hv

inductive Lies (A : Abi) : Piece A → List (Item A) → Prop
  | word (n : UInt32) : Lies A (.word n) [.uint32 n]
  | units (us : List UInt16) (short : us.length < maxBioSize / 2) :
      Lies A (.units us short) [.units us]
  | listed (o : FlatObject A) : Lies A (.object o true) [.object o]
  | unlisted (h n n' : UInt32) (ns : List UInt32)
      (hlen : 4 * (n :: n' :: h :: ns).length = A.sizeofFlatBinderObject) :
      Lies A (.object (.handle h) false) ((n :: n' :: h :: ns).map Item.uint32)

theorem words_extent (ns : List UInt32) :
    extent Item.size (ns.map (Item.uint32 (A := A))) = 4 * ns.length := by
  induction ns with
  | nil => rfl
  | cons n ns ih =>
    rw [List.map_cons,extent_cons,ih,List.length_cons,Item.size]
    omega

theorem lies_layout {c : Piece A} {js : List (Item A)} (h : Lies A c js) :
    extent Item.size js = c.size ∧ js.countP Item.isObject = c.slots := by
  cases h with
  | word n => exact ⟨rfl,rfl⟩
  | units us short => exact ⟨rfl,rfl⟩
  | listed o => exact ⟨rfl,rfl⟩
  | unlisted h n n' ns hlen => exact ⟨(words_extent _).trans hlen,words_plain _⟩

theorem lies_valid {c : Piece A} {js : List (Item A)} (h : Lies A c js) (hc : c.Sound) :
    ∀ j ∈ js, j.Valid := by
  cases h with
  | word n => exact words_valid [n]
  | units us short => exact fun j hj => List.mem_singleton.mp hj ▸ short
  | listed o =>
    intro j hj
    obtain rfl := List.mem_singleton.mp hj
    cases o with
    | binder ptr => trivial
    | handle h => exact hc.mp rfl
  | unlisted h n n' ns hlen => exact words_valid _

-- cs as they were put, ks as they lie in a buffer that may have been too small for them
inductive Cut (A : Abi) : List (Piece A) → List (Item A) → Prop
  | nil : Cut A [] []
  | keep {c js cs ks} (hc : Lies A c js) (h : Cut A cs ks) : Cut A (c :: cs) (js ++ ks)
  | short {c cs ks} (h : extent Item.size ks < c.size) : Cut A (c :: cs) ks
  | unlisted {c cs ks} (h : c.listed = true) (hs : A.sizeT = A.binderSizeT)
      (hk : ks.countP Item.isObject = 0) : Cut A (c :: cs) ks

section
variable {start io : BinderIo} {us : List (Item A)} (hw : Wrote A start io us)
  (hvalid : ∀ u ∈ us, u.Valid) (hfit : start.dataAvail < A.binderSizeT.modulus)
include hw hvalid hfit

theorem put_lies {c : Piece A} (hc : c.Sound)
    (hroom : Roomy A start (us.countP Item.isObject + c.slots)) (h : c.Fits io) :
    ∃ js, Lies A c js ∧ Wrote A start (c.put io) (us ++ js) := by
  have hitem : ∀ (v : Item A) (hv : v.Valid), v.piece hv = c → Wrote A start (c.put io)
      (us ++ [v]) := by
    rintro v hv rfl
    rw [piece_slots] at hroom
    rw [← item_put_piece]
    exact put_wrote_fits hw hvalid hv hroom hfit h
  cases c with
  | word n => exact ⟨_,.word n,hitem (.uint32 n) trivial rfl⟩
  | units str short => exact ⟨_,.units str short,hitem (.units str) short rfl⟩
  | object o listed =>
    cases o with
    | binder ptr =>
      obtain rfl : listed = true := hc
      exact ⟨_,.listed _,hitem (.object (.binder ptr)) trivial rfl⟩
    | handle k =>
      cases listed with
      | true => exact ⟨_,.listed _,hitem (.object (.handle k)) (hc.mp rfl) rfl⟩
      | false =>
        obtain ⟨n,n',ns,hlen,hns⟩ := put_unlisted_wrote hw hvalid k hroom h.1
        exact ⟨_,.unlisted k n n' ns hlen,hns⟩

theorem put_kept {c : Piece A} (hc : c.Sound)
    (hroom : Roomy A start (us.countP Item.isObject + c.slots)) :
    ∃ ks, Wrote A start (c.put io) (us ++ ks) ∧ (∀ k ∈ ks, k.Valid) ∧
      ks.countP Item.isObject ≤ c.slots := by
  by_cases hf : c.Fits io
  · obtain ⟨js,hjs,hdone⟩ := put_lies hw hvalid hfit hc hroom hf
    exact ⟨js,hdone,lies_valid hjs hc,(lies_layout hjs).2.le⟩
  · have ha := alloc_allotted io c
    rw [Piece.put]
    generalize c.alloc io = out at ha ⊢
    cases ha with
    | short h =>
      refine ⟨[],?_,fun k hk => absurd hk List.not_mem_nil,Nat.zero_le _⟩
      rw [List.append_nil]
      exact wrote_flags hw _
    | unlisted h hl hs =>
      rw [piece_words c hl] at h ⊢
      have hns := wrote_skip hw hvalid _ (hroom.mono (Nat.le_add_right _ c.slots)) h
      exact ⟨_,wrote_flags hns _,words_valid _,(words_plain _).trans_le (Nat.zero_le _)⟩
    | taken h => exact absurd h hf

theorem putAll_kept {cs : List (Piece A)} (hcs : ∀ c ∈ cs, c.Sound)
    (hroom : Roomy A start (us.countP Item.isObject + pieceSlots cs)) :
    ∃ ks, Wrote A start (Piece.putAll io cs) (us ++ ks) ∧ (∀ k ∈ ks, k.Valid) ∧
      ks.countP Item.isObject ≤ pieceSlots cs := by
  induction cs generalizing io us with
  | nil =>
    refine ⟨[],?_,fun k hk => absurd hk List.not_mem_nil,Nat.le_refl _⟩
    rwa [List.append_nil]
  | cons c cs ih =>
    rw [pieceSlots_cons] at hroom ⊢
    obtain ⟨js,hjs,hjv,hj⟩ := put_kept hw hvalid hfit (hcs c List.mem_cons_self)
      (hroom.mono (by omega))
    obtain ⟨ks,hks,hkv,hk⟩ := ih hjs (List.forall_mem_append.mpr ⟨hvalid,hjv⟩)
      (fun d hd => hcs d (List.mem_cons_of_mem c hd))
      (hroom.mono (by rw [List.countP_append]; omega))
    rw [List.append_assoc] at hks
    refine ⟨js ++ ks,hks,List.forall_mem_append.mpr ⟨hjv,hkv⟩,?_⟩
    rw [List.countP_append]
    omega

theorem putAll_cut (hp : Prepared A start) {cs : List (Piece A)} (hcs : ∀ c ∈ cs, c.Sound)
    (hroom : Roomy A start (us.countP Item.isObject + pieceSlots cs)) :
    ∃ ks, Wrote A start (Piece.putAll io cs) (us ++ ks) ∧ (∀ k ∈ ks, k.Valid) ∧ Cut A cs ks := by
  induction cs generalizing io us with
  | nil =>
    refine ⟨[],?_,fun k hk => absurd hk List.not_mem_nil,.nil⟩
    rwa [List.append_nil]
  | cons c cs ih =>
    have hc := hcs c List.mem_cons_self
    by_cases hf : c.Fits io
    · rw [pieceSlots_cons] at hroom
      obtain ⟨js,hjs,hstep⟩ := put_lies hw hvalid hfit hc (hroom.mono (by omega)) hf
      have hjv := lies_valid hjs hc
      obtain ⟨ks,hks,hkv,hcut⟩ := ih hstep (List.forall_mem_append.mpr ⟨hvalid,hjv⟩)
        (fun d hd => hcs d (List.mem_cons_of_mem c hd))
        (hroom.mono (by rw [List.countP_append,(lies_layout hjs).2]; omega))
      rw [List.append_assoc] at hks
      exact ⟨js ++ ks,hks,List.forall_mem_append.mpr ⟨hjv,hkv⟩,.keep hjs hcut⟩
    · obtain ⟨ks,hks,hkv,-⟩ := putAll_kept hw hvalid hfit hcs hroom
      refine ⟨ks,hks,hkv,?_⟩
      have hda := hks.dataAvail
      have hoa := hks.offsAvail
      have hda' := hw.dataAvail
      have hoa' := hw.offsAvail
      rw [extent_append] at hda
      rw [List.countP_append] at hoa
      rw [Piece.Fits,not_and_or] at hf
      rcases hf with hsize | hslot
      · exact .short (by omega)
      · rw [Classical.not_imp,not_not] at hslot
        have hroom' := hroom.mono (Nat.le_add_right _ (pieceSlots (c :: cs)))
        exact .unlisted hslot.1 (prepared_full hp hw hroom' hslot.2) (by omega)

end

theorem overflow_stable : Stable BinderIo.overflow := ⟨fun _ => overflow_set _,fun _ h => h⟩

theorem bioGet_short {io : BinderIo} {size : ℕ} (h : io.dataAvail < roundUp A size) :
    (bioGet A io size).2.overflow := by
  rw [bioGet,if_pos h]
  exact overflow_set io

theorem bioGetObj_absent {io : BinderIo}
    (h : ¬ Listed A io (io.data - io.data0) ∨ io.dataAvail < A.sizeofFlatBinderObject) :
    (bioGetObj A io).2.overflow := by
  rw [bioGetObj]
  split_ifs with hl
  · rcases h with h | h
    · simp only [List.any_eq_true,List.mem_range,beq_iff_eq] at hl
      exact absurd hl h
    · exact bioGet_short (by rwa [roundUp_sizeofFlatBinderObject])
  · exact overflow_set io

-- bio_get's size for a string of 0xffffffff units, its terminator counted in size_t
theorem null_size (A : Abi) : roundUp A (sizeofUnits A 0xffffffff) =
    if A.sizeT = .eight then 2 ^ 33 else 0 := by
  rw [roundUp_sizeofUnits,Word.modulus]
  cases A.sizeT <;> decide

section
variable {m : Mem} {txn : BinderTransactionData A} {us ks : List (Item A)} {io : BinderIo}

def EntriesExact (A : Abi) (txn : BinderTransactionData A) (vs : List (Item A)) : Prop :=
  A.sizeT = A.binderSizeT →
    A.sizeT.wrap (txn.offsetsSize.toNat / A.sizeT.bytes) = vs.countP Item.isObject

theorem object_size {v : Item A} (hv : v.isObject = true) : 16 ≤ v.size := by
  cases v with
  | uint32 n => cases hv
  | units us => cases hv
  | object o =>
    rcases sizeofFlatBinderObject_cases A with h | h <;> rw [Item.size,h]
    omega

theorem delivered_entries {start io : BinderIo} {ks : List (Item A)} {target code flags : UInt32}
    (hw : Wrote A start io ks) (hfew : start.offsAvail < A.sizeT.modulus)
    {handles : ℕ → UInt32} {m : Mem} {txn : BinderTransactionData A}
    (hd : Delivered A ⟨target,code,flags,io.dataBytes,io.offsBytes⟩ handles m txn) :
    EntriesExact A txn (deliver handles 0 ks) := by
  intro hs
  have hb := A.sizeT.bytes_pos
  have hleft := hw.offsAvail
  have hcount := congrArg List.length (deliver_layout handles 0 0 ks).2
  rw [marks_length,marks_length] at hcount
  rw [hd.offsetsSize,offsBytes_length hw,hcount,← hs,Nat.mul_div_cancel_left _ hb]
  exact Word.wrap_of_lt (by omega)

theorem reading_plain_unlisted {v : Item A} {ws : List (Item A)} (hv : v.isObject = false)
    (hsize : 0 < v.size) (hr : Readable A m txn (us ++ v :: ws))
    (hio : Reading A m txn us (v :: ws) io) (he : EntriesExact A txn (us ++ v :: ws))
    (hs : A.sizeT = A.binderSizeT) : ¬ Listed A io (io.data - io.data0) := by
  rintro ⟨n,hn,hload⟩
  have hlen := marks_length Item.size Item.isObject 0 (us ++ v :: ws)
  rw [hio.offsAvail,he hs,← hlen] at hn
  obtain ⟨off,hoff⟩ : ∃ off, (marks Item.size Item.isObject 0 (us ++ v :: ws))[n]? = some off :=
    ⟨_,List.getElem?_eq_getElem hn⟩
  obtain ⟨-,hentry⟩ := hr.table n off hoff
  rw [hio.mem,hio.offs,hentry,hio.data,hio.data0] at hload
  rcases marks_apart hv (List.mem_of_getElem? hoff) with ⟨u,-,hu,hend⟩ | hafter
  · have husize := object_size hu
    omega
  · omega

theorem reading_unlisted (hr : Readable A m txn (us ++ ks)) (hio : Reading A m txn us ks io)
    (he : EntriesExact A txn (us ++ ks)) (hs : A.sizeT = A.binderSizeT)
    (hk : ks.countP Item.isObject = 0) : ¬ Listed A io (io.data - io.data0) := by
  rintro ⟨n,hn,hload⟩
  have hlen := marks_length Item.size Item.isObject 0 (us ++ ks)
  rw [hio.offsAvail,he hs,← hlen] at hn
  obtain ⟨off,hoff⟩ : ∃ off, (marks Item.size Item.isObject 0 (us ++ ks))[n]? = some off :=
    ⟨_,List.getElem?_eq_getElem hn⟩
  obtain ⟨-,hentry⟩ := hr.table n off hoff
  rw [hio.mem,hio.offs,hentry,hio.data,hio.data0] at hload
  have hnone : marks Item.size Item.isObject (0 + extent Item.size us) ks = [] :=
    List.length_eq_zero_iff.mp ((marks_length _ _ _ ks).trans hk)
  have hmem := List.mem_of_getElem? hoff
  rw [marks_append,hnone,List.append_nil] at hmem
  obtain ⟨v,-,hv,-,hend⟩ := mem_marks hmem
  have hsize := object_size hv
  omega

end

end

end Binder
