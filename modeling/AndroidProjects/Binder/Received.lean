import AndroidProjects.Binder.Kept

namespace Binder
open ByteMemory Layout

-- what a put means to its reader: strings end at their NUL and come in units
inductive Content (A : Abi) where
  | uint32 (n : UInt32)
  | text (str : Option (List UInt16))
  | object (o : FlatObject A)
  | zeroRef

section
variable {A : Abi}

def Put.content : Put A → Content A
  | uint32 n => .uint32 n
  | obj ptr => .object (.binder ptr)
  | ref handle => if handle = 0 then .zeroRef else .object (.handle handle)
  | string16 str => .text (str.map fun us => us.takeWhile (· ≠ 0))
  | string16X str => .text (str.map fun cs => (cs.takeWhile (· ≠ 0)).map UInt8.toUInt16)

namespace Content

def kind : Content A → Get
  | uint32 _ => .uint32
  | text _ => .string16
  | object _ => .ref
  | zeroRef => .ref

def slots : Content A → ℕ
  | object _ => 1
  | _ => 0

def pieces : Content A → List (Piece A)
  | uint32 n => [.word n]
  | text none => [.word 0xffffffff]
  | text (some us) => Piece.string us
  | object o => [.object o true]
  | zeroRef => [.object (.handle 0) false]

-- null or too long: the put leaves 0xffffffff in place of a length
def Marked : Content A → Prop
  | text none => True
  | text (some us) => maxBioSize / 2 ≤ us.length
  | _ => False

def Addressable : Content A → Prop
  | text (some us) => us.length + 1 < A.sizeT.modulus
  | _ => True

def Answers (handles : ℕ → UInt32) (k : ℕ) (a : Answered) : Content A → Prop
  | uint32 n => a = .uint32 n
  | text none => ∃ sz, a = .string16 none sz
  | text (some us) => a = .string16 (some us) us.length
  | object _ => a = .ref (handles k)
  | zeroRef => a = .ref 0

def Stops (A : Abi) (c : Content A) : Prop := c = .zeroRef ∨ A.sizeT = .eight ∧ c.Marked

end Content

theorem pieces_content (v : Put A) : v.pieces = v.content.pieces := by
  cases v with
  | uint32 n => rfl
  | obj ptr => rfl
  | ref handle =>
    rw [Put.content]
    split_ifs with h
    · rw [h]
      rfl
    · rw [Put.pieces,decide_eq_true h]
      rfl
  | string16 str => cases str <;> rfl
  | string16X str => cases str <;> rfl

theorem puts_content (vs : List (Put A)) :
    vs.flatMap Put.pieces = (vs.map Put.content).flatMap Content.pieces := by
  rw [List.flatMap_map]
  exact congrArg (vs.flatMap ·) (funext pieces_content)

variable (A) in
def Get.answer (io : BinderIo) : Get → Answered
  | uint32 => .uint32 (bioGetUint32 A io).1
  | string16 => (Value.get.getString (A := A) io).1
  | ref => .ref (bioGetRef A io).1

def Heard (handles : ℕ → UInt32) : ℕ → BinderIo → List (Content A) → Prop
  | _, _, [] => True
  | k, io, c :: cs =>
    c.Answers handles k (c.kind.answer A io) ∧ Heard handles (k + c.slots) (c.kind.run A io) cs

inductive Lain (A : Abi) : List (Piece A) → List (Item A) → Prop
  | nil : Lain A [] []
  | cons {c js cs ks} (hc : Lies A c js) (h : Lain A cs ks) : Lain A (c :: cs) (js ++ ks)

theorem lain_layout {cs : List (Piece A)} {ks : List (Item A)} (h : Lain A cs ks) :
    extent Item.size ks = extent Piece.size cs ∧ ks.countP Item.isObject = pieceSlots cs := by
  induction h with
  | nil => exact ⟨rfl,rfl⟩
  | cons hc _ ih =>
    obtain ⟨hsize,hslots⟩ := lies_layout hc
    rw [extent_append,List.countP_append,extent_cons,pieceSlots_cons,hsize,hslots,ih.1,ih.2]
    exact ⟨rfl,rfl⟩

theorem lain_append {cs ds : List (Piece A)} {js ks : List (Item A)} (h : Lain A cs js)
    (h' : Lain A ds ks) : Lain A (cs ++ ds) (js ++ ks) := by
  induction h with
  | nil => exact h'
  | cons hc _ ih =>
    rw [List.append_assoc]
    exact .cons hc ih

theorem lain_split {cs ds : List (Piece A)} {ks : List (Item A)} (h : Lain A (cs ++ ds) ks) :
    ∃ js js', ks = js ++ js' ∧ Lain A cs js ∧ Lain A ds js' := by
  induction cs generalizing ks with
  | nil => exact ⟨[],ks,rfl,.nil,h⟩
  | cons c cs ih =>
    cases h with
    | cons hc hrest =>
      obtain ⟨js,js',rfl,hjs,hjs'⟩ := ih hrest
      exact ⟨_,js',(List.append_assoc ..).symm,.cons hc hjs,hjs'⟩

theorem lain_one {c : Piece A} {js : List (Item A)} : Lain A [c] js ↔ Lies A c js := by
  constructor
  · rintro (_ | ⟨hc,⟨⟩⟩)
    rwa [List.append_nil]
  · intro hc
    rw [← List.append_nil js]
    exact .cons hc .nil

theorem content_slots {c : Content A} : pieceSlots c.pieces = c.slots := by
  cases c with
  | text str =>
    cases str with
    | none => rfl
    | some us =>
      rw [Content.pieces,Piece.string]
      split_ifs <;> rfl
  | _ => rfl

theorem putAll_lain {start io : BinderIo} {us : List (Item A)} (hw : Wrote A start io us)
    (hvalid : ∀ u ∈ us, u.Valid) (hfit : start.dataAvail < A.binderSizeT.modulus)
    {cs : List (Piece A)} (hcs : ∀ c ∈ cs, c.Sound)
    (hroom : Roomy A start (us.countP Item.isObject + pieceSlots cs)) (h : Room io cs) :
    ∃ ks, Wrote A start (Piece.putAll io cs) (us ++ ks) ∧ (∀ k ∈ ks, k.Valid) ∧ Lain A cs ks := by
  induction cs generalizing io us with
  | nil =>
    refine ⟨[],?_,fun k hk => absurd hk List.not_mem_nil,.nil⟩
    rwa [List.append_nil]
  | cons c cs ih =>
    have hc := hcs c List.mem_cons_self
    obtain ⟨hsize,hslots⟩ := h
    rw [extent_cons] at hsize
    rw [pieceSlots_cons] at hslots hroom
    have hf : c.Fits io := by
      refine ⟨by omega,fun hl hz => ?_⟩
      simp only [Piece.slots,hl,if_true] at hslots
      omega
    obtain ⟨js,hjs,hstep⟩ := put_lies hw hvalid hfit hc (hroom.mono (by omega)) hf
    obtain ⟨hext,hcount⟩ := lies_layout hjs
    have hjv := lies_valid hjs hc
    have hda := hstep.dataAvail
    have hoa := hstep.offsAvail
    have hda' := hw.dataAvail
    have hoa' := hw.offsAvail
    rw [extent_append] at hda
    rw [List.countP_append] at hoa
    obtain ⟨ks,hks,hkv,hlain⟩ := ih hstep (List.forall_mem_append.mpr ⟨hvalid,hjv⟩)
      (fun d hd => hcs d (List.mem_cons_of_mem c hd))
      (hroom.mono (by rw [List.countP_append,hcount]; omega)) ⟨by omega,by omega⟩
    rw [List.append_assoc] at hks
    exact ⟨js ++ ks,hks,List.forall_mem_append.mpr ⟨hjv,hkv⟩,.cons hjs hlain⟩

section
variable {m : Mem} {txn : BinderTransactionData A} {us js ks : List (Item A)} {io : BinderIo}
  {handles : ℕ → UInt32} {k : ℕ}

theorem marker_read (hr : Readable A m txn (us ++ .uint32 0xffffffff :: ks))
    (hio : Reading A m txn us (.uint32 0xffffffff :: ks) io)
    (hsmall : extent Item.size ks < 2 ^ 33) :
    A.sizeT = .eight ∧ (Get.string16.run A io).overflow ∨
      A.sizeT = .four ∧ Reading A m txn (us ++ [.uint32 0xffffffff]) ks (Get.string16.run A io) ∧
        ∃ str, Get.string16.answer A io = .string16 (some str) 0xffffffff := by
  obtain ⟨hval,hnext⟩ := reading_uint32 hr hio
  have hlen : (bioGetUint32 A io).1.toNat = 0xffffffff := congrArg UInt32.toNat hval
  have hnull := null_size A
  have havail := hnext.dataAvail
  simp only [Get.run,Get.answer,Value.get.getString,bioGetString16,hlen]
  cases hs : A.sizeT with
  | eight =>
    rw [hs,if_pos rfl] at hnull
    exact .inl ⟨rfl,bioGet_short (by rw [hnull]; omega)⟩
  | four =>
    rw [hs,if_neg (by decide)] at hnull
    have hg := bioGet_got (A := A) (bioGetUint32 A io).2 (sizeofUnits A 0xffffffff)
    generalize bioGet A (bioGetUint32 A io).2 (sizeofUnits A 0xffffffff) = out at hg ⊢
    cases hg with
    | short h =>
      rw [hnull] at h
      exact absurd h (Nat.not_lt_zero _)
    | taken h =>
      rw [hnull]
      exact .inr ⟨rfl,hnext,_,rfl⟩

theorem text_read {str : List UInt16} (hlen : str.length < maxBioSize / 2)
    (hr : Readable A m txn (us ++ (Value.stringItems str ++ ks)))
    (hio : Reading A m txn us (Value.stringItems str ++ ks) io) :
    Get.string16.answer A io = .string16 (some str) str.length ∧
      Reading A m txn (us ++ Value.stringItems str) ks (Get.string16.run A io) :=
  getString_answered hlen hr hio

theorem unlisted_read {n n' : UInt32} {ns : List UInt32}
    (hlen : 4 * (n :: n' :: 0 :: ns).length = A.sizeofFlatBinderObject)
    (hr : Readable A m txn (us ++ ((n :: n' :: 0 :: ns).map Item.uint32 ++ ks)))
    (hio : Reading A m txn us ((n :: n' :: 0 :: ns).map Item.uint32 ++ ks) io)
    (he : EntriesExact A txn (us ++ ((n :: n' :: 0 :: ns).map Item.uint32 ++ ks))) :
    (Get.ref.run A io).overflow ∨ A.sizeT ≠ A.binderSizeT ∧
      Get.ref.answer A io = .ref 0 ∧
      Reading A m txn (us ++ (n :: n' :: 0 :: ns).map Item.uint32) ks (Get.ref.run A io) := by
  have hwords := words_extent (A := A) (n :: n' :: 0 :: ns)
  rw [hlen] at hwords
  by_cases hl : Listed A io (io.data - io.data0)
  · right
    have hsize : 0 < (Item.uint32 n : Item A).size := Nat.zero_lt_succ 3
    refine ⟨fun hs => reading_plain_unlisted rfl hsize hr hio he hs hl,?_⟩
    have havail := hio.dataAvail
    rw [extent_append,hwords] at havail
    have hhandle : load32 io.mem (io.data + 8) = 0 := by
      have hsplit : us ++ ((n :: n' :: 0 :: ns).map Item.uint32 ++ ks) =
          (us ++ [.uint32 n,.uint32 n']) ++ .uint32 0 :: (ns.map Item.uint32 ++ ks) := by simp
      have hplaced := hr.placed
      rw [hsplit] at hplaced
      have hat := (placed_append.mp hplaced).2.1
      have hpos : A.sizeT.wrap txn.buffer.toNat + extent Item.size (us ++ [.uint32 n,.uint32 n']) =
          io.data + 8 := by
        rw [hio.data,extent_append]
        rfl
      rw [hpos] at hat
      rw [hio.mem]
      exact hat
    have hobj : bioGetObj A io = bioGet A io A.sizeofFlatBinderObject := by
      rw [bioGetObj]
      refine if_pos ?_
      simp only [List.any_eq_true,List.mem_range,beq_iff_eq]
      exact hl
    have hg := bioGet_got (A := A) io A.sizeofFlatBinderObject
    rw [Get.run,Get.answer,bioGetRef,hobj]
    generalize bioGet A io A.sizeofFlatBinderObject = out at hg ⊢
    cases hg with
    | short h =>
      rw [roundUp_sizeofFlatBinderObject] at h
      omega
    | taken h =>
      have hstate : Reading A m txn (us ++ (n :: n' :: 0 :: ns).map Item.uint32) ks {io with
          data := io.data + roundUp A A.sizeofFlatBinderObject
          dataAvail := io.dataAvail - roundUp A A.sizeofFlatBinderObject} := by
        rw [roundUp_sizeofFlatBinderObject]
        refine ⟨hio.mem,hio.data0,hio.offs,hio.offsAvail,?_,?_,hio.flags⟩
        · rw [extent_append,hwords]
          exact (congrArg (· + _) hio.data).trans (Nat.add_assoc ..)
        · simp only []
          omega
      simp only [hhandle]
      split_ifs
      · exact ⟨rfl,hstate⟩
      · exact ⟨rfl,hstate⟩
  · left
    rw [Get.run,bioGetRef_state]
    exact bioGetObj_absent (.inl hl)

inductive ContentRead (handles : ℕ → UInt32) (k : ℕ) (m : Mem) (txn : BinderTransactionData A)
    (us js ks : List (Item A)) (io : BinderIo) (c : Content A) : Prop
  | stopped (ho : (c.kind.run A io).overflow) (h : c.Stops A)
  | read (next : Reading A m txn (us ++ deliver handles k js) (deliver handles (k + c.slots) ks)
        (c.kind.run A io)) (mixed : c = .zeroRef → A.sizeT ≠ A.binderSizeT)
      (narrow : c.Marked → A.sizeT = .four)
      (answers : c.Answers handles k (c.kind.answer A io) ↔ ¬ c.Marked)

theorem marked_read {str : Option (List UInt16)} (hm : (Content.text (A := A) str).Marked)
    (hr : Readable A m txn (us ++ .uint32 0xffffffff :: deliver handles k ks))
    (hio : Reading A m txn us (.uint32 0xffffffff :: deliver handles k ks) io)
    (hsmall : extent Item.size (deliver handles k ks) < 2 ^ 33)
    (haddr : (Content.text (A := A) str).Addressable) :
    ContentRead handles k m txn us [.uint32 0xffffffff] ks io (.text str) := by
  rcases marker_read hr hio hsmall with ⟨hs,ho⟩ | ⟨hs,hnext,units,hval⟩
  · exact .stopped ho (.inr ⟨hs,hm⟩)
  · refine .read hnext (by simp) (fun _ => hs) (iff_of_false (fun ha => ?_) (not_not.mpr hm))
    have hread : Get.string16.answer A io = .string16 (some units) 0xffffffff := hval
    cases str with
    | none =>
      obtain ⟨sz,hsz⟩ := ha
      cases hread.symm.trans hsz
    | some str =>
      have hsame := (Answered.string16.inj (hread.symm.trans ha)).2
      have hlt : str.length + 1 < A.sizeT.modulus := haddr
      have hmod : Word.four.modulus = 2 ^ 32 := rfl
      rw [hs,hmod] at hlt
      omega

theorem content_read {c : Content A} (hjs : Lain A c.pieces js)
    (hr : Readable A m txn (us ++ deliver handles k (js ++ ks)))
    (hio : Reading A m txn us (deliver handles k (js ++ ks)) io)
    (he : EntriesExact A txn (us ++ deliver handles k (js ++ ks)))
    (hsmall : extent Item.size ks < 2 ^ 33) (haddr : c.Addressable) :
    ContentRead handles k m txn us js ks io c := by
  have hext : extent Item.size (deliver handles k ks) < 2 ^ 33 :=
    (deliver_layout handles k 0 ks).1.trans_lt hsmall
  cases c with
  | uint32 n =>
    cases lain_one.mp hjs
    obtain ⟨hval,hnext⟩ := reading_uint32 hr hio
    exact .read hnext (by simp) False.elim (iff_of_true (congrArg Answered.uint32 hval) id)
  | object o =>
    cases lain_one.mp hjs
    obtain ⟨hval,hnext⟩ := reading_ref hr hio
    exact .read hnext (by simp) False.elim (iff_of_true (congrArg Answered.ref hval) id)
  | zeroRef =>
    have hlies := lain_one.mp hjs
    cases hlies with
    | unlisted _ n n' ns hlen =>
      rw [deliver_after (words_plain _)] at hr hio he
      rcases unlisted_read hlen hr hio he with ho | ⟨hs,hval,hnext⟩
      · exact .stopped ho (.inl rfl)
      · refine .read ?_ (fun _ => hs) False.elim (iff_of_true hval id)
        rw [deliver_plain (words_plain _)]
        exact hnext
  | text str =>
    cases str with
    | none =>
      cases lain_one.mp hjs
      exact marked_read trivial hr hio hext haddr
    | some str =>
      rw [Content.pieces,Piece.string] at hjs
      split_ifs at hjs with hshort
      · have hboth : Lain A ([.word (UInt32.ofNat str.length)] ++ [.units str hshort]) js := hjs
        obtain ⟨js₁,js₂,rfl,hlen,hunits⟩ := lain_split hboth
        cases lain_one.mp hlen
        cases lain_one.mp hunits
        obtain ⟨hval,hnext⟩ := text_read hshort hr hio
        exact .read hnext (by simp) (fun hm => absurd hshort (Nat.not_lt.mpr hm))
          (iff_of_true hval (Nat.not_le.mpr hshort))
      · cases lain_one.mp hjs
        exact marked_read (Nat.not_lt.mp hshort) hr hio hext haddr

theorem cut_piece {c : Piece A} {cs : List (Piece A)} (h : Cut A (c :: cs) ks) :
    (∃ js js', ks = js ++ js' ∧ Lies A c js ∧ Cut A cs js') ∨ extent Item.size ks < c.size ∨
      c.listed = true ∧ A.sizeT = A.binderSizeT ∧ ks.countP Item.isObject = 0 := by
  cases h with
  | keep hc hrest => exact .inl ⟨_,_,rfl,hc,hrest⟩
  | short hsize => exact .inr (.inl hsize)
  | unlisted hl hs hk => exact .inr (.inr ⟨hl,hs,hk⟩)

theorem word_short (hio : Reading A m txn us (deliver handles k ks) io)
    (h : extent Item.size ks < 4) : (bioGetUint32 A io).2.overflow := by
  rw [bioGetUint32_state]
  refine bioGet_short ?_
  rw [hio.dataAvail,(deliver_layout handles k 0 ks).1,roundUp_of_lt (by omega)]
  omega

theorem cut_word {n : UInt32} {cs : List (Piece A)}
    (hio : Reading A m txn us (deliver handles k ks) io) (h : Cut A (.word n :: cs) ks) :
    (∃ js, ks = .uint32 n :: js ∧ Cut A cs js) ∨ (bioGetUint32 A io).2.overflow := by
  rcases cut_piece h with ⟨js,js',rfl,hc,hrest⟩ | hsize | ⟨hl,-⟩
  · cases hc
    exact .inl ⟨js',rfl,hrest⟩
  · exact .inr (word_short hio hsize)
  · cases hl

theorem cut_string {str : List UInt16} (hlen : str.length < maxBioSize / 2) {cs : List (Piece A)}
    (hr : Readable A m txn (us ++ deliver handles k ks))
    (hio : Reading A m txn us (deliver handles k ks) io)
    (h : Cut A (.word (UInt32.ofNat str.length) :: .units str hlen :: cs) ks) :
    (∃ js, ks = Value.stringItems str ++ js ∧ Cut A cs js) ∨
      (bioGetString16 A io).2.2.overflow := by
  rcases cut_word hio h with ⟨js,rfl,hrest⟩ | ho
  · obtain ⟨hval,hnext⟩ := reading_uint32 hr hio
    have hn : (bioGetUint32 A io).1.toNat = str.length := by
      rw [hval]
      exact UInt32.toNat_ofNat_of_lt' (hlen.trans (by decide))
    rcases cut_piece hrest with ⟨is,is',rfl,hc,hlast⟩ | hsize | ⟨hl,-⟩
    · cases hc
      exact .inl ⟨is',rfl,hlast⟩
    · right
      simp only [bioGetString16,hn]
      refine bioGet_short ?_
      rw [hnext.dataAvail,(deliver_layout handles k 0 js).1]
      exact hsize
    · cases hl
  · exact .inr (overflow_stable.bytes ho _)

theorem cut_object {o : FlatObject A} {listed : Bool} {cs : List (Piece A)}
    (hr : Readable A m txn (us ++ deliver handles k ks))
    (hio : Reading A m txn us (deliver handles k ks) io)
    (he : EntriesExact A txn (us ++ deliver handles k ks)) (h : Cut A (.object o listed :: cs) ks) :
    (∃ js js', ks = js ++ js' ∧ Lies A (.object o listed) js ∧ Cut A cs js') ∨
      (bioGetRef A io).2.overflow := by
  obtain ⟨hext,hmarks⟩ := deliver_layout handles k 0 ks
  rw [bioGetRef_state]
  rcases cut_piece h with hkeep | hsize | ⟨-,hs,hk⟩
  · exact .inl hkeep
  · right
    refine bioGetObj_absent (.inr ?_)
    rw [hio.dataAvail,hext]
    exact hsize
  · right
    have hcount := congrArg List.length hmarks
    rw [marks_length,marks_length,hk] at hcount
    exact bioGetObj_absent (.inl (reading_unlisted hr hio he hs hcount))

theorem cut_content {c : Content A} {cs : List (Piece A)}
    (hr : Readable A m txn (us ++ deliver handles k ks))
    (hio : Reading A m txn us (deliver handles k ks) io)
    (he : EntriesExact A txn (us ++ deliver handles k ks)) (h : Cut A (c.pieces ++ cs) ks) :
    (∃ js js', ks = js ++ js' ∧ Lain A c.pieces js ∧ Cut A cs js') ∨
      (c.kind.run A io).overflow := by
  have hword : ∀ n, Cut A ([.word n] ++ cs) ks →
      (∃ js js', ks = js ++ js' ∧ Lain A [.word n] js ∧ Cut A cs js') ∨
        (bioGetUint32 A io).2.overflow := by
    intro n hn
    refine (cut_word hio hn).imp_left ?_
    rintro ⟨js,rfl,hrest⟩
    exact ⟨[.uint32 n],js,rfl,lain_one.mpr (.word n),hrest⟩
  cases c with
  | uint32 n => exact hword n h
  | object o =>
    refine (cut_object hr hio he h).imp_left ?_
    rintro ⟨js,js',rfl,hc,hrest⟩
    exact ⟨js,js',rfl,lain_one.mpr hc,hrest⟩
  | zeroRef =>
    refine (cut_object hr hio he h).imp_left ?_
    rintro ⟨js,js',rfl,hc,hrest⟩
    exact ⟨js,js',rfl,lain_one.mpr hc,hrest⟩
  | text str =>
    cases str with
    | none => exact (hword _ h).imp_right fun ho => overflow_stable.bytes ho _
    | some str =>
      rw [Content.pieces,Piece.string] at h ⊢
      split_ifs at h ⊢ with hshort
      · refine (cut_string hshort hr hio h).imp_left ?_
        rintro ⟨js,rfl,hrest⟩
        exact ⟨Value.stringItems str,js,rfl,
          .cons (.word _) (.cons (.units str hshort) .nil),hrest⟩
      · exact (hword _ h).imp_right fun ho => overflow_stable.bytes ho _

theorem reading_cut {cs : List (Content A)} {ds : List (Piece A)}
    (hr : Readable A m txn (us ++ deliver handles k ks))
    (hio : Reading A m txn us (deliver handles k ks) io)
    (he : EntriesExact A txn (us ++ deliver handles k ks)) (hsmall : extent Item.size ks < 2 ^ 33)
    (haddr : ∀ c ∈ cs, c.Addressable) (h : Cut A (cs.flatMap Content.pieces ++ ds) ks) :
    (∃ js js', ks = js ++ js' ∧ Lain A (cs.flatMap Content.pieces) js) ∨
      (Machine.run (Get.run A) io (cs.map Content.kind)).overflow := by
  induction cs generalizing k us ks io with
  | nil => exact .inl ⟨[],ks,rfl,.nil⟩
  | cons c cs ih =>
    rw [List.flatMap_cons,List.append_assoc] at h
    rw [List.flatMap_cons,List.map_cons,Machine.run_cons]
    rcases cut_content hr hio he h with ⟨js,js',rfl,hjs,hrest⟩ | ho
    · rw [extent_append] at hsmall
      have hslots := (lain_layout hjs).2.trans content_slots
      cases content_read hjs hr hio he (by omega) (haddr c List.mem_cons_self) with
      | stopped ho _ => exact .inr (overflow_stable.gets ho _)
      | read hnext _ _ _ =>
        rw [deliver_append,hslots,← List.append_assoc] at hr he
        refine (ih hr hnext he (by omega) (fun d hd => haddr d (List.mem_cons_of_mem c hd))
          hrest).imp_left ?_
        rintro ⟨is,is',rfl,his⟩
        exact ⟨js ++ is,is',(List.append_assoc ..).symm,lain_append hjs his⟩
    · exact .inr (overflow_stable.gets ho _)

structure Read (handles : ℕ → UInt32) (k : ℕ) (io : BinderIo) (cs : List (Content A)) : Prop where
  clear : ¬ (Machine.run (Get.run A) io (cs.map Content.kind)).overflow
  mixed : .zeroRef ∈ cs → A.sizeT ≠ A.binderSizeT
  narrow : ∀ c ∈ cs, c.Marked → A.sizeT = .four
  heard : Heard handles k io cs ↔ ∀ c ∈ cs, ¬ c.Marked

theorem reading_lain {cs : List (Content A)} {ls : List (Item A)}
    (hr : Readable A m txn (us ++ deliver handles k (ks ++ ls)))
    (hio : Reading A m txn us (deliver handles k (ks ++ ls)) io)
    (he : EntriesExact A txn (us ++ deliver handles k (ks ++ ls)))
    (hsmall : extent Item.size (ks ++ ls) < 2 ^ 33) (haddr : ∀ c ∈ cs, c.Addressable)
    (h : Lain A (cs.flatMap Content.pieces) ks) :
    (Machine.run (Get.run A) io (cs.map Content.kind)).overflow ∧ (∃ c ∈ cs, c.Stops A) ∨
      Read handles k io cs := by
  induction cs generalizing k us ks io with
  | nil =>
    refine .inr ⟨BinderIo.clear_of_shared hio.flags,fun hc => absurd hc List.not_mem_nil,
      fun c hc => absurd hc List.not_mem_nil,?_⟩
    exact iff_of_true trivial fun c hc => absurd hc List.not_mem_nil
  | cons c cs ih =>
    rw [List.flatMap_cons] at h
    obtain ⟨js,js',rfl,hjs,hrest⟩ := lain_split h
    rw [List.append_assoc] at hr hio he hsmall
    rw [extent_append] at hsmall
    have hslots := (lain_layout hjs).2.trans content_slots
    cases content_read hjs hr hio he (by omega) (haddr c List.mem_cons_self) with
    | stopped ho hstop =>
      exact .inl ⟨overflow_stable.gets ho _,c,List.mem_cons_self,hstop⟩
    | read hnext hmixed hnarrow hanswers =>
      rw [deliver_append,hslots,← List.append_assoc] at hr he
      rcases ih hr hnext he (by omega) (fun d hd => haddr d (List.mem_cons_of_mem c hd)) hrest
        with ⟨ho,d,hd,hstop⟩ | hread
      · exact .inl ⟨ho,d,List.mem_cons_of_mem c hd,hstop⟩
      · right
        refine ⟨hread.clear,fun hc => ?_,List.forall_mem_cons.mpr ⟨hnarrow,hread.narrow⟩,?_⟩
        · rcases List.mem_cons.mp hc with hc | hc
          · exact hmixed hc.symm
          · exact hread.mixed hc
        · rw [Heard,List.forall_mem_cons,hanswers,hread.heard]

end

end

end Binder
