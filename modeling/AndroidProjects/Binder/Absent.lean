import AndroidProjects.Binder.Kept

namespace Binder
open ByteMemory Layout

inductive Field (A : Abi) where
  | value (v : Value A)
  | nullString16
  | nullString16X
  | zeroRef

section
variable {A : Abi}

def Value.toPut : Value A → Put A
  | uint32 n => .uint32 n
  | string16 str => .string16 (some str.chars)
  | string16X str => .string16X (some str.chars)
  | obj ptr => .obj ptr
  | ref handle => .ref handle

namespace Field

def toPut : Field A → Put A
  | value v => v.toPut
  | nullString16 => .string16 none
  | nullString16X => .string16X none
  | zeroRef => .ref 0

def get (io : BinderIo) : Field A → Answered × BinderIo
  | value v => v.get io
  | nullString16 => Value.get.getString (A := A) io
  | nullString16X => Value.get.getString (A := A) io
  | zeroRef => (.ref (bioGetRef A io).1,(bioGetRef A io).2)

def slots : Field A → ℕ
  | value v => v.slots
  | _ => 0

def size : Field A → ℕ
  | value v => extent Item.size v.items
  | zeroRef => A.sizeofFlatBinderObject
  | _ => 4

def Answers (handles : ℕ → UInt32) (k : ℕ) (a : Answered) : Field A → Prop
  | value v => a = v.answer handles k
  | zeroRef => a = .ref 0
  | _ => ∃ sz, a = .string16 none sz

-- the fields that a reader with nothing left answers as they were put
def Blank (handles : ℕ → UInt32) (k : ℕ) : Field A → Prop
  | value (.uint32 n) => n = 0
  | value (.string16 _) => False
  | value (.string16X _) => False
  | value (.obj _) => handles k = 0
  | value (.ref _) => handles k = 0
  | _ => True

end Field

def putFields (io : BinderIo) (fs : List (Field A)) : BinderIo := Put.runAll io (fs.map Field.toPut)

def Restored (handles : ℕ → UInt32) : ℕ → BinderIo → List (Field A) → Prop
  | _, _, [] => True
  | k, io, f :: fs =>
    f.Answers handles k (f.get io).1 ∧ Restored handles (k + f.slots) (f.get io).2 fs

def AllBlank (handles : ℕ → UInt32) : ℕ → List (Field A) → Prop
  | _, [] => True
  | k, f :: fs => f.Blank handles k ∧ AllBlank handles (k + f.slots) fs

def Legible (handles : ℕ → UInt32) : ℕ → List (Field A) → Prop
  | _, [] => True
  | k, .value v :: fs => Legible handles (k + v.slots) fs
  | k, .zeroRef :: fs => AllBlank handles k fs
  | k, .nullString16 :: fs =>
    (A.sizeT = .eight ∧ extent Field.size fs < 2 ^ 33) ∧ AllBlank handles k fs
  | k, .nullString16X :: fs =>
    (A.sizeT = .eight ∧ extent Field.size fs < 2 ^ 33) ∧ AllBlank handles k fs

inductive Written (A : Abi) : List (Field A) → List (Item A) → Prop
  | nil : Written A [] []
  | value (v : Value A) {fs ks} (h : Written A fs ks) : Written A (.value v :: fs) (v.items ++ ks)
  | nullString16 {fs ks} (h : Written A fs ks) :
      Written A (.nullString16 :: fs) (.uint32 0xffffffff :: ks)
  | nullString16X {fs ks} (h : Written A fs ks) :
      Written A (.nullString16X :: fs) (.uint32 0xffffffff :: ks)
  | zeroRef (n : UInt32) (ns : List UInt32) {fs ks}
      (hlen : 4 * (n :: ns).length = A.sizeofFlatBinderObject) (h : Written A fs ks) :
      Written A (.zeroRef :: fs) ((n :: ns).map (Item.uint32 (A := A)) ++ ks)

theorem written_extent {fs : List (Field A)} {ks : List (Item A)} (h : Written A fs ks) :
    extent Item.size ks = extent Field.size fs := by
  induction h with
  | nil => rfl
  | value v _ ih => rw [extent_append,extent_cons,ih,Field.size]
  | nullString16 _ ih => exact congrArg (4 + ·) ih
  | nullString16X _ ih => exact congrArg (4 + ·) ih
  | zeroRef n ns hlen _ ih => rw [extent_append,words_extent,hlen,ih,extent_cons,Field.size]

theorem written_valid {fs : List (Field A)} {ks : List (Item A)} (h : Written A fs ks) :
    ∀ k ∈ ks, k.Valid := by
  induction h with
  | nil => exact fun k hk => absurd hk List.not_mem_nil
  | value v _ ih => exact List.forall_mem_append.mpr ⟨v.items_valid,ih⟩
  | nullString16 _ ih => exact List.forall_mem_cons.mpr ⟨trivial,ih⟩
  | nullString16X _ ih => exact List.forall_mem_cons.mpr ⟨trivial,ih⟩
  | zeroRef n ns _ _ ih => exact List.forall_mem_append.mpr ⟨words_valid (n :: ns),ih⟩

theorem toPut_value (io : BinderIo) (v : Value A) : v.toPut.run io = v.put io := by
  cases v <;> rfl

theorem putFields_sticky {io : BinderIo} (h : io.overflow) (fs : List (Field A)) :
    (putFields io fs).overflow := by
  rw [putFields,Put.runAll_pieces]
  exact (putAll_spent io _).sticky h

section
variable {start io : BinderIo} {us : List (Item A)} (hw : Wrote A start io us)
  (hvalid : ∀ u ∈ us, u.Valid) (hroom : ∀ n, Roomy A start n)
include hw hvalid hroom

theorem put_zeroRef_wrote : (bioPutRef A io 0).overflow ∨
    ∃ n ns, 4 * (n :: ns).length = A.sizeofFlatBinderObject ∧
      Wrote A start (bioPutRef A io 0) (us ++ (n :: ns).map (Item.uint32 (A := A))) := by
  have hput : bioPutRef A io 0 = (Piece.object (.handle 0) false).put io :=
    Put.run_pieces io (.ref 0)
  rw [hput]
  by_cases h : A.sizeofFlatBinderObject ≤ io.dataAvail
  · obtain ⟨n,n',ns,hlen,hns⟩ := put_unlisted_wrote hw hvalid 0 (hroom _) h
    exact .inr ⟨n,_,hlen,hns⟩
  · exact .inl (put_full fun hfits => h hfits.1)

theorem put_field_wrote (hfit : start.dataAvail < A.binderSizeT.modulus) (f : Field A) :
    (f.toPut.run io).overflow ∨
      ∃ ks, Wrote A start (f.toPut.run io) (us ++ ks) ∧ (∀ k ∈ ks, k.Valid) ∧
        ∀ fs js, Written A fs js → Written A (f :: fs) (ks ++ js) := by
  cases f with
  | value v =>
    have hput : (putAll io v.items).overflow ∨ _ :=
      putAll_wrote hw (List.forall_mem_append.mpr ⟨hvalid,v.items_valid⟩) (hroom _) hfit
    rw [← value_put_items,← toPut_value] at hput
    exact hput.imp_right fun h => ⟨v.items,h,v.items_valid,fun fs js => .value v⟩
  | nullString16 =>
    exact (put_uint32_wrote hw hvalid _ (hroom _)).imp_right fun h =>
      ⟨_,h,words_valid [0xffffffff],fun fs js => .nullString16⟩
  | nullString16X =>
    exact (put_uint32_wrote hw hvalid _ (hroom _)).imp_right fun h =>
      ⟨_,h,words_valid [0xffffffff],fun fs js => .nullString16X⟩
  | zeroRef =>
    refine (put_zeroRef_wrote hw hvalid hroom).imp_right ?_
    rintro ⟨n,ns,hlen,h⟩
    exact ⟨_,h,words_valid (n :: ns),fun fs js => .zeroRef n ns hlen⟩

theorem putFields_wrote (hfit : start.dataAvail < A.binderSizeT.modulus) (fs : List (Field A)) :
    (putFields io fs).overflow ∨
      ∃ ks, Wrote A start (putFields io fs) (us ++ ks) ∧ Written A fs ks := by
  induction fs generalizing io us with
  | nil => exact .inr ⟨[],by rwa [List.append_nil],.nil⟩
  | cons f fs ih =>
    rcases put_field_wrote hw hvalid hroom hfit f with ho | ⟨ks,hks,hkv,hwritten⟩
    · exact .inl (putFields_sticky ho fs)
    · refine (ih hks (List.forall_mem_append.mpr ⟨hvalid,hkv⟩)).imp_right ?_
      rintro ⟨js,hjs,hfs⟩
      rw [List.append_assoc] at hjs
      exact ⟨ks ++ js,hjs,hwritten fs js hfs⟩

end

theorem exhausted_stable : Stable fun io => io.dataAvail = 0 :=
  ⟨fun _ => rfl,fun _ h => by rw [h,Nat.zero_sub]⟩

theorem bioGetRef_exhausted {io : BinderIo} (h : io.dataAvail = 0) : (bioGetRef A io).1 = 0 := by
  have hpos : 0 < A.sizeofFlatBinderObject := by
    rw [Abi.sizeofFlatBinderObject]
    omega
  by_contra hne
  have hsize := (bioGetRef_ne_zero hne).2.1
  omega

theorem getString_exhausted {io : BinderIo} (h : io.dataAvail = 0) :
    ∃ sz, (Value.get.getString (A := A) io).1 = .string16 none sz := by
  have hnone : (bioGetString16 A io).1 = none := bioGetString16_short (by omega)
  refine ⟨(bioGetString16 A io).2.1,?_⟩
  rw [Value.get.getString,hnone,Option.map_none]

theorem field_exhausted {io : BinderIo} (h : io.dataAvail = 0) (handles : ℕ → UInt32) (k : ℕ)
    (f : Field A) : (f.Answers handles k (f.get io).1 ↔ f.Blank handles k) ∧
      (f.get io).2.dataAvail = 0 := by
  have hword : bioGetUint32 A io = _ := bioGetUint32_short (by omega)
  obtain ⟨sz,hnone⟩ := getString_exhausted (A := A) h
  have hzero := bioGetRef_exhausted (A := A) h
  have hstring : (bioGetString16 A io).2.2.dataAvail = 0 := exhausted_stable.string16 h
  have href : (bioGetRef A io).2.dataAvail = 0 := exhausted_stable.ref h
  cases f with
  | value v =>
    cases v with
    | uint32 n =>
      refine ⟨?_,by rw [Field.get,Value.get,hword]⟩
      simp only [Field.Answers,Field.get,Value.get,Value.answer,Field.Blank,hword,
        Answered.uint32.injEq,eq_comm]
    | string16 str =>
      refine ⟨iff_of_false (fun ha => ?_) id,hstring⟩
      have hsame := hnone.symm.trans ha
      cases hsame
    | string16X str =>
      refine ⟨iff_of_false (fun ha => ?_) id,hstring⟩
      have hsame := hnone.symm.trans ha
      cases hsame
    | obj ptr =>
      refine ⟨?_,href⟩
      simp only [Field.Answers,Field.get,Value.get,Value.answer,Field.Blank,hzero,
        Answered.ref.injEq,eq_comm]
    | ref handle =>
      refine ⟨?_,href⟩
      simp only [Field.Answers,Field.get,Value.get,Value.answer,Field.Blank,hzero,
        Answered.ref.injEq,eq_comm]
  | nullString16 => exact ⟨iff_of_true ⟨sz,hnone⟩ trivial,hstring⟩
  | nullString16X => exact ⟨iff_of_true ⟨sz,hnone⟩ trivial,hstring⟩
  | zeroRef => exact ⟨iff_of_true (congrArg Answered.ref hzero) trivial,href⟩

theorem restored_exhausted {io : BinderIo} (h : io.dataAvail = 0) (handles : ℕ → UInt32) (k : ℕ)
    (fs : List (Field A)) : Restored handles k io fs ↔ AllBlank handles k fs := by
  induction fs generalizing k io with
  | nil => exact Iff.rfl
  | cons f fs ih =>
    obtain ⟨hanswer,hnext⟩ := field_exhausted h handles k f
    rw [Restored,AllBlank,hanswer,ih hnext]

section
variable {m : Mem} {txn : BinderTransactionData A} {us ks : List (Item A)} {io : BinderIo}

theorem reading_null (hr : Readable A m txn (us ++ .uint32 0xffffffff :: ks))
    (hio : Reading A m txn us (.uint32 0xffffffff :: ks) io) :
    if A.sizeT = .eight ∧ extent Item.size ks < 2 ^ 33 then
      (∃ sz, (Value.get.getString (A := A) io).1 = .string16 none sz) ∧
        (Value.get.getString (A := A) io).2.dataAvail = 0
    else ∀ sz, (Value.get.getString (A := A) io).1 ≠ .string16 none sz := by
  obtain ⟨hval,hnext⟩ := reading_uint32 hr hio
  have hlen : (bioGetUint32 A io).1.toNat = 0xffffffff := congrArg UInt32.toNat hval
  have hnull := null_size A
  have hg := bioGet_got (A := A) (bioGetUint32 A io).2 (sizeofUnits A 0xffffffff)
  simp only [Value.get.getString,bioGetString16,hlen]
  rw [← hnext.dataAvail]
  generalize bioGet A (bioGetUint32 A io).2 (sizeofUnits A 0xffffffff) = out at hg ⊢
  cases hg with
  | short h =>
    rw [hnull] at h
    split_ifs at h with hw
    · rw [if_pos ⟨hw,h⟩]
      exact ⟨⟨_,rfl⟩,rfl⟩
    · exact absurd h (Nat.not_lt_zero _)
  | taken h =>
    have hno : ¬ (A.sizeT = .eight ∧ (bioGetUint32 A io).2.dataAvail < 2 ^ 33) := by
      rintro ⟨hw,hlt⟩
      rw [hnull,if_pos hw] at h
      omega
    rw [if_neg hno]
    rintro sz ⟨⟩

theorem reading_zeroRef {n : UInt32} (hr : Readable A m txn (us ++ .uint32 n :: ks))
    (hio : Reading A m txn us (.uint32 n :: ks) io)
    (he : EntriesExact A txn (us ++ .uint32 n :: ks)) (hs : A.sizeT = A.binderSizeT) :
    (bioGetRef A io).1 = 0 ∧ (bioGetRef A io).2.dataAvail = 0 := by
  have hsize : 0 < (Item.uint32 n : Item A).size := Nat.zero_lt_succ 3
  have hout := reading_plain_unlisted rfl hsize hr hio he hs
  have habsent : bioGetObj A io =
      (none,{io with dataAvail := 0, flags := io.flags ||| bioFOverflow}) := by
    rw [bioGetObj,if_neg]
    simpa [Listed] using hout
  rw [bioGetRef,habsent]
  exact ⟨rfl,rfl⟩

theorem null_restored {handles : ℕ → UInt32} {fs : List (Field A)} {k : ℕ} (h : Written A fs ks)
    (hr : Readable A m txn (us ++ .uint32 0xffffffff :: deliver handles k ks))
    (hio : Reading A m txn us (.uint32 0xffffffff :: deliver handles k ks) io) :
    ((∃ sz, (Value.get.getString (A := A) io).1 = .string16 none sz) ∧
        Restored handles k (Value.get.getString (A := A) io).2 fs) ↔
      (A.sizeT = .eight ∧ extent Field.size fs < 2 ^ 33) ∧ AllBlank handles k fs := by
  have hnull := reading_null hr hio
  rw [(deliver_layout handles k 0 ks).1,written_extent h] at hnull
  split_ifs at hnull with hshort
  · rw [and_iff_right hshort]
    exact (and_iff_right hnull.1).trans (restored_exhausted hnull.2 handles k fs)
  · exact iff_of_false (fun hr => hnull _ hr.1.choose_spec) fun hl => hshort hl.1

theorem restored_written {handles : ℕ → UInt32} {fs : List (Field A)} {k : ℕ}
    (hs : A.sizeT = A.binderSizeT) (h : Written A fs ks)
    (hr : Readable A m txn (us ++ deliver handles k ks))
    (hio : Reading A m txn us (deliver handles k ks) io)
    (he : EntriesExact A txn (us ++ deliver handles k ks)) :
    Restored handles k io fs ↔ Legible handles k fs := by
  induction h generalizing k us io with
  | nil => exact Iff.rfl
  | value v h ih =>
    obtain ⟨hval,hnext⟩ := value_read v hr hio
    rw [value_deliver,← List.append_assoc] at hr he
    rw [Restored,Legible]
    exact (and_iff_right hval).trans (ih hr hnext he)
  | nullString16 h ih => exact null_restored h hr hio
  | nullString16X h ih => exact null_restored h hr hio
  | @zeroRef n ns fs js hlen h ih =>
    rw [deliver_after (words_plain _)] at hr hio he
    obtain ⟨hzero,hleft⟩ := reading_zeroRef hr hio he hs
    rw [Restored,Legible]
    exact (and_iff_right (congrArg Answered.ref hzero)).trans
      (restored_exhausted hleft handles k fs)

end

end

section
variable {w : Word}

theorem restored_iff_legible {maxdata maxoffs : ℕ} (h : BioInitAccepts w maxdata maxoffs)
    (io : BinderIo) (m : Mem) (data : ℕ) (fs : List (Field (Abi.uniform w))) (target code : UInt32)
    {handles : ℕ → UInt32} {m' : Mem} {txn : BinderTransactionData (Abi.uniform w)} :
    let msg := putFields (bioInit (Abi.uniform w) io m data maxdata maxoffs) fs
    ¬ msg.overflow →
      Delivered (Abi.uniform w) (callTransaction msg target code) handles m' txn →
      (Restored handles 0 (bioInitFromTxn (Abi.uniform w) m' txn) fs ↔ Legible handles 0 fs) := by
  intro msg hclear hd
  have hroom : ∀ n, Roomy (Abi.uniform w)
      (bioInit (Abi.uniform w) io m data maxdata maxoffs) n := fun n =>
    (bioInit_roomy h io m data n).1
  obtain ⟨-,hfit,hoffs⟩ := bioInit_roomy h io m data 0
  have hstart : Wrote (Abi.uniform w) (bioInit (Abi.uniform w) io m data maxdata maxoffs) _ [] :=
    bioInit_wrote io m ((Nat.mod_le _ _).trans h.offsets)
  obtain ⟨ks,hw,hwritten⟩ := (putFields_wrote hstart (fun u hu => absurd hu List.not_mem_nil)
    hroom hfit fs).resolve_left hclear
  rw [List.nil_append] at hw
  have hleft := hw.offsAvail
  have hcount : ks.countP Item.isObject ≤ maxoffs := by omega
  have htable : w.bytes * ks.countP Item.isObject < w.modulus := by
    have hmul := Nat.mul_le_mul_left w.bytes hcount
    rw [Nat.mul_comm w.bytes maxoffs] at hmul
    exact (hmul.trans h.offsets).trans_lt h.size
  have hfew : maxoffs < w.modulus :=
    ((Nat.le_mul_of_pos_right maxoffs w.bytes_pos).trans h.offsets).trans_lt h.size
  have hr := delivered_readable hw (written_valid hwritten) hfit htable hd (wrap_toNat txn.buffer)
    (wrap_toNat txn.offsets)
  have hall : Readable (Abi.uniform w) m' txn ([] ++ deliver handles 0 ks) := hr
  exact restored_written rfl hwritten hall (reading_init hr)
    (delivered_entries hw (hoffs.trans_lt hfew) hd)

end

def absentMsg (fs : List (Field (Abi.uniform .four))) : BinderIo :=
  putFields (bioInit (Abi.uniform .four) ⟨fun _ => 0,0,0,0,0,0,0,0⟩ (fun _ => 0) 0 64 2) fs

def absentMem (fs : List (Field (Abi.uniform .four))) : Mem :=
  write (fun _ => 0) 100 (absentMsg fs).dataBytes

def absentTxn (size : (Abi.uniform .four).BinderUintptr) :
    BinderTransactionData (Abi.uniform .four) := ⟨0,0,1,0,0,0,size,0,100,200⟩

def trailingAbsent : List (Field (Abi.uniform .four)) :=
  [.value (.uint32 7),.zeroRef,.nullString16]

def leadingAbsent : List (Field (Abi.uniform .four)) := [.zeroRef,.value (.uint32 7)]

theorem trailingAbsent_restored : Restored (fun _ => 1) 0
    (bioInitFromTxn (Abi.uniform .four) (absentMem trailingAbsent) (absentTxn 24))
    trailingAbsent := by
  have haccept : BioInitAccepts .four 64 2 := ⟨by decide,by decide⟩
  have hclear : ¬ (absentMsg trailingAbsent).overflow := by decide +kernel
  have hd : Delivered (Abi.uniform .four) (callTransaction (absentMsg trailingAbsent) 0 1)
      (fun _ => 1) (absentMem trailingAbsent) (absentTxn 24) := by
    apply delivered_of_checks <;> decide +kernel
  exact (restored_iff_legible haccept _ _ 0 trailingAbsent 0 1 hclear hd).mpr ⟨trivial,trivial⟩

theorem leadingAbsent_derails :
    ¬ ∀ (w : Word) (maxdata maxoffs : ℕ) (_ : BioInitAccepts w maxdata maxoffs) (io : BinderIo)
      (m : Mem) (data : ℕ) (fs : List (Field (Abi.uniform w))) (target code : UInt32)
      (handles : ℕ → UInt32) (m' : Mem) (txn : BinderTransactionData (Abi.uniform w)),
      let msg := putFields (bioInit (Abi.uniform w) io m data maxdata maxoffs) fs
      ¬ msg.overflow →
        Delivered (Abi.uniform w) (callTransaction msg target code) handles m' txn →
        Restored handles 0 (bioInitFromTxn (Abi.uniform w) m' txn) fs := by
  intro hall
  have hclear : ¬ (absentMsg leadingAbsent).overflow := by decide +kernel
  have hd : Delivered (Abi.uniform .four) (callTransaction (absentMsg leadingAbsent) 0 1)
      (fun _ => 1) (absentMem leadingAbsent) (absentTxn 20) := by
    apply delivered_of_checks <;> decide +kernel
  have hread := hall .four 64 2 ⟨by decide,by decide⟩ _ _ 0 leadingAbsent 0 1 _ _ _ hclear hd
  have hseven : (Value.get (bioGetRef (Abi.uniform .four) (bioInitFromTxn (Abi.uniform .four)
      (absentMem leadingAbsent) (absentTxn 20))).2 (.uint32 7)).1 = .uint32 7 := hread.2.1
  exact absurd hseven (by decide +kernel)

end Binder
