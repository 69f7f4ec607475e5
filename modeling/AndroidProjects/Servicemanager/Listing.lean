import AndroidProjects.Binder.Outcomes
import AndroidProjects.Servicemanager.Serving

namespace Servicemanager
open Binder ByteMemory Layout

-- the order LIST_SERVICES counts in: an override keeps the place of the first registration
def firstRegistered : History → List (List UInt16)
  | [] => []
  | .bind n _ :: h => if n ∈ firstRegistered h then firstRegistered h else n :: firstRegistered h
  | _ :: h => firstRegistered h

def stringRead (A : Abi) (m : Mem) (txn : BinderTransactionData A) : Option (List UInt16) :=
  let str := bioGetString16 A (bioInitFromTxn A m txn)
  str.1.map fun s => units (ptrUnits m s) str.2.1

def stringSize (len : ℕ) : ℕ := 4 + (2 * (len + 1) + 3) / 4 * 4

-- no zero unit, and the encoding fits what bio_init leaves of the 256 bytes of rdata
def Listable (A : Abi) (name : List UInt16) : Prop :=
  0 ∉ name ∧ stringSize name.length ≤ 256 - 4 * A.sizeT.bytes

instance (A : Abi) (name : List UInt16) : Decidable (Listable A name) :=
  inferInstanceAs (Decidable (_ ∧ _))

structure ListRequest (A : Abi) (n : UInt32) where
  mem : Mem
  txn : BinderTransactionData A
  policy : UInt32
  rest : List (Item A)
  readable : Readable A mem txn
    ((.uint32 policy :: Value.stringItems svcmgrId) ++ .uint32 n :: rest)
  target : txn.handle = svcmgrHandle
  code : txn.code = svcMgrListServices

section
variable {A : Abi}

structure Listed (l : Svclist A) (h : History) : Prop where
  names : l.entries.map Svcinfo.name = firstRegistered h
  short : ∀ n ∈ firstRegistered h, n.length ≤ 127

theorem setHandle_names (l : Svclist A) (a : A.Uintptr) (k : UInt32) :
    (l.setHandle a k).entries.map Svcinfo.name = l.entries.map Svcinfo.name :=
  Pinned.map_assign (Svcinfo.withHandle_name k) _

theorem svcinfoDeath_names (p : Manager A) (ptr : A.Uintptr) :
    (svcinfoDeath p ptr).svclist.entries.map Svcinfo.name =
      p.svclist.entries.map Svcinfo.name := by
  rw [svcinfoDeath]
  cases p.svclist.deref ptr with
  | none => rfl
  | some si =>
    simp only []
    split_ifs
    · exact setHandle_names _ _ _
    · rfl

theorem listed_added {p p' : Manager A} {s : ℕ → UInt16} {len : ℕ} {handle : UInt32}
    {allowIsolated : Int} {h : History} (ht : Listed p.svclist h)
    (hadd : Added p s len handle allowIsolated (0,p')) :
    Listed p'.svclist (.bind (units s len) ⟨handle,allowIsolated⟩ :: h) := by
  cases hadd with
  | @overridden p' si valid hf hl hw hc =>
    have hmem : units s len ∈ firstRegistered h := by
      rw [← ht.names,List.mem_map]
      rw [findSvc_eq] at hf
      exact ⟨si,List.mem_of_find?_eq_some hf,by simpa using List.find?_some hf⟩
    have hkeep : firstRegistered (.bind (units s len) ⟨handle,allowIsolated⟩ :: h) =
        firstRegistered h := if_pos hmem
    rw [hl]
    exact ⟨by rw [setHandle_names,hkeep,ht.names],hkeep ▸ ht.short⟩
  | @pushed p' a valid hf fresh hl hw hc halloc =>
    have hnew : units s len ∉ firstRegistered h := by
      rw [← ht.names,List.mem_map]
      rintro ⟨si,hsi,hname⟩
      rw [findSvc_eq] at hf
      exact absurd hname (by simpa using List.find?_eq_none.mp hf si hsi)
    have hgrow : firstRegistered (.bind (units s len) ⟨handle,allowIsolated⟩ :: h) =
        units s len :: firstRegistered h := if_neg hnew
    rw [hl]
    refine ⟨hgrow ▸ congrArg (units s len :: ·) ht.names,hgrow ▸ fun n hn => ?_⟩
    rcases List.mem_cons.mp hn with rfl | hn
    · rw [units,List.length_map,List.length_range]
      exact valid.2.2
    · exact ht.short n hn

theorem listed_step {p : Manager A} {h : History} (ht : Listed p.svclist h)
    (c : RegistryCall A) : Listed (registryStep p c).svclist (registryEvent p c :: h) := by
  have hm := registry_moved p c
  generalize registryStep p c = p' at hm ⊢
  generalize registryEvent p c = e at hm ⊢
  cases hm with
  | kept c hl =>
    rw [hl]
    exact ⟨ht.names,ht.short⟩
  | died hs => exact ⟨(svcinfoDeath_names p _).trans ht.names,ht.short⟩
  | bound hadd => exact listed_added ht hadd

theorem listed_run (heap : ℕ → Option A.Uintptr) (calls : List (RegistryCall A)) :
    Listed (Machine.run registryStep (started heap) calls).svclist (history heap calls) := by
  have hs : Listed (started heap,([] : History)).1.svclist [] :=
    ⟨rfl,fun n hn => absurd hn List.not_mem_nil⟩
  have h := Machine.run_invariant recordedStep (I := fun s => Listed s.1.svclist s.2)
    (fun s c ht => listed_step ht c) (s := (started heap,[])) hs calls
  rw [recordedStep,Machine.run_recorded] at h
  simpa [history] using h

theorem list_answer {n : UInt32} (req : ListRequest A n) (p : Manager A) (rdata : Mem) :
    answerOf (invoked (svcmgrHandler A) req.mem p req.txn rdata) =
      match p.svclist.entries[n.toNat]? with
      | some si => dataReply (bioPutString16 A (blankReply A rdata) (some si.name))
      | none => statusReply (-1) := by
  have hping : req.txn.code ≠ pingTransaction := by
    rw [req.code]
    decide
  have hget : ¬ (req.txn.code = svcMgrGetService ∨ req.txn.code = svcMgrCheckService) := by
    rw [req.code]
    decide
  have hadd : ¬ req.txn.code = svcMgrAddService := by
    rw [req.code]
    decide
  obtain ⟨io,hio,hswitch⟩ :=
    svcmgrHandler_token req.readable req.target hping p (blankReply A rdata)
  obtain ⟨hn,-⟩ := reading_uint32 req.readable hio
  have hhandled : invoked (svcmgrHandler A) req.mem p req.txn rdata =
      svcmgrList A p req.txn io (blankReply A rdata) := by
    rw [svcmgrSwitch,if_neg hget,if_neg hadd,if_pos req.code] at hswitch
    exact hswitch
  have hcan : (!svcCanList req.txn.senderPid) = false := rfl
  rw [hhandled,svcmgrList,hn,hcan,if_neg Bool.false_ne_true,List.head?_drop]
  cases p.svclist.entries[n.toNat]? <;> rfl

theorem bioGetString16_room {io : BinderIo} {s : ℕ} (h : (bioGetString16 A io).1 = some s)
    (hlen : (bioGetString16 A io).2.1 < maxBioSize / 2) :
    stringSize (bioGetString16 A io).2.1 ≤ io.dataAvail := by
  have hround : roundUp A (sizeofUnits A (bioGetString16 A io).2.1) =
      (2 * ((bioGetString16 A io).2.1 + 1) + 3) / 4 * 4 := by
    rw [sizeofUnits_eq hlen,roundUp_of_lt (by simp only [maxBioSize] at hlen; omega)]
  have hfour : roundUp A 4 = 4 := roundUp_of_lt (by omega)
  have hfirst : (bioGetUint32 A io).2 = (bioGet A io 4).2 := bioGetUint32_state io
  have hsecond : roundUp A (sizeofUnits A (bioGetString16 A io).2.1) ≤
      (bioGet A io 4).2.dataAvail := by
    by_contra hshort
    rw [← hfirst] at hshort
    change (bioGet A (bioGetUint32 A io).2 (sizeofUnits A (bioGetString16 A io).2.1)).1 = _ at h
    rw [bioGet,if_pos (Nat.not_le.mp hshort)] at h
    cases h
  have hg := bioGet_got (A := A) io 4
  generalize bioGet A io 4 = out at hg hsecond
  rw [stringSize]
  cases hg with
  | short hs =>
    simp only [] at hsecond
    omega
  | taken ht =>
    simp only [hfour] at hsecond ht
    omega

theorem shown_short {name : List UInt16} (hlen : name.length ≤ 127) :
    (name.takeWhile (· ≠ 0)).length < maxBioSize / 2 := by
  have hle := (List.takeWhile_prefix (l := name) (· ≠ 0)).length_le
  simp only [maxBioSize]
  omega

theorem stringItems_valid {us : List UInt16} (h : us.length < maxBioSize / 2) :
    ∀ v ∈ Value.stringItems (A := A) us, v.Valid := by
  intro v hv
  rcases List.mem_cons.mp hv with rfl | hv
  · trivial
  · exact List.mem_singleton.mp hv ▸ h

section
variable {name : List UInt16} (hlen : name.length ≤ 127)
include hlen

theorem listed_items (io : BinderIo) : bioPutString16 A io (some name) =
    putAll io (Value.stringItems (A := A) (name.takeWhile (· ≠ 0))) := by
  have hshort : ¬ strlen16 name ≥ maxBioSize / 2 := Nat.not_le.mpr (shown_short hlen)
  have htake := Put.take_takeWhile (· ≠ 0) name
  rw [bioPutString16]
  simp only [if_neg hshort]
  rw [strlen16,htake]
  rfl

variable {rdata m : Mem} {handles : ℕ → UInt32} {txn : BinderTransactionData A}
  (hd : Delivered A (dataReply (bioPutString16 A (blankReply A rdata) (some name))) handles m txn)
include hd

theorem listed_room (h : stringRead A m txn = some name) :
    stringSize name.length ≤ 256 - 4 * A.sizeT.bytes := by
  obtain ⟨s,hptr,hname⟩ := Option.map_eq_some_iff.mp h
  have hsz : (bioGetString16 A (bioInitFromTxn A m txn)).2.1 = name.length := by
    rw [← hname,units,List.length_map,List.length_range]
  have hroom := bioGetString16_room hptr (by simp only [hsz,maxBioSize]; omega)
  rw [hsz] at hroom
  have hsent := (reply_bounded rdata [Put.string16 (A := A) (some name)]).1
  rw [replyFilled_eq] at hsent
  exact hroom.trans ((Nat.mod_le _ _).trans (hd.dataSize.trans_le hsent))

variable (hbuffer : A.sizeT.wrap txn.buffer.toNat = txn.buffer.toNat)
  (hoffsets : A.sizeT.wrap txn.offsets.toNat = txn.offsets.toNat)
include hbuffer hoffsets

theorem listed_cut
    (hfit : stringSize (name.takeWhile (· ≠ 0)).length ≤ 256 - 4 * A.sizeT.bytes) :
    stringRead A m txn = some (name.takeWhile (· ≠ 0)) := by
  have hshort := shown_short hlen
  have hvalid := stringItems_valid (A := A) hshort
  have hb := blankReply_blank A rdata
  have hroom : (blankReply A rdata).dataAvail = 256 - 4 * A.sizeT.bytes :=
    congrArg BinderIo.dataAvail (replyStart_eq rdata)
  have hm := A.sizeT.modulus_ge
  rw [stringSize,← stringItems_extent (A := A) hshort] at hfit
  rw [listed_items hlen] at hd
  rcases blank_wrote hb hvalid (Nat.zero_le 1) with ho | hw
  · exact absurd ho (putAll_fits hb.clear hvalid (hroom ▸ hfit) (Nat.zero_le _))
  · have hr : Readable A m txn (Value.stringItems (name.takeWhile (· ≠ 0))) :=
      delivered_readable hw hvalid (by omega) (Nat.pow_pos (by decide)) hd hbuffer hoffsets
    obtain ⟨s,hptr,hsz,hunits⟩ := read_string16 hshort hr
    simp only [stringRead,hptr,hsz,Option.map_some]
    exact congrArg some hunits

theorem listed_iff : stringRead A m txn = some name ↔ Listable A name := by
  constructor
  · intro h
    have hroom := listed_room hlen hd h
    have hle := (List.takeWhile_prefix (l := name) (· ≠ 0)).length_le
    have hcut := listed_cut hlen hd hbuffer hoffsets
      (by simp only [stringSize] at hroom ⊢; omega)
    have hsame : name.takeWhile (· ≠ 0) = name := Option.some.inj (hcut.symm.trans h)
    refine ⟨fun hzero => ?_,hroom⟩
    exact absurd (List.mem_takeWhile_imp (hsame.symm ▸ hzero)) (by simp)
  · rintro ⟨hzero,hfit⟩
    have hsame := takeWhile_nonzero hzero
    have hcut := listed_cut hlen hd hbuffer hoffsets (by rwa [hsame])
    rwa [hsame] at hcut

end

theorem listed_plain (name : List UInt16) (rdata : Mem) :
    let sent := dataReply (bioPutString16 A (blankReply A rdata) (some name))
    sent.offsets = [] ∧ sent.data.length < 2 ^ 32 := by
  intro sent
  have hb := blankReply_blank A rdata
  have hm := A.binderSizeT.modulus_ge
  have hput : bioPutString16 A (blankReply A rdata) (some name) =
      Piece.putAll (blankReply A rdata) (Put.pieces (.string16 (some name))) :=
    Put.run_pieces _ (.string16 (some name))
  have hnone : pieceSlots (Put.pieces (A := A) (.string16 (some name))) = 0 := by
    rw [Put.pieces,Piece.string]
    split_ifs <;> rfl
  obtain ⟨ks,hks,-,hcount⟩ := putAll_kept hb.wrote (fun u hu => absurd hu List.not_mem_nil)
    (hb.small.trans_le hm) (put_sound (.string16 (some name)))
    (hb.roomy.mono (by rw [hnone]; exact Nat.zero_le 1))
  rw [← hput,List.nil_append] at hks
  rw [hnone] at hcount
  constructor
  · refine List.length_eq_zero_iff.mp ?_
    have hoffs : sent.offsets.length = _ := offsBytes_length hks
    rw [hoffs,Nat.le_zero.mp hcount,Nat.mul_zero]
  · have hsent := (reply_bounded rdata [Put.string16 (A := A) (some name)]).1
    rw [replyFilled_eq] at hsent
    exact hsent.trans_lt (by omega)

theorem every_listed_iff {name : List UInt16} (hlen : name.length ≤ 127) {rdata : Mem}
    {sent : Outgoing} (h : sent = dataReply (bioPutString16 A (blankReply A rdata) (some name))) :
    (∀ carried : Carried A sent .reply,
      stringRead A carried.read.mem carried.txn = some name) ↔ Listable A name := by
  subst h
  obtain ⟨hoffs,hdata⟩ := listed_plain (A := A) name rdata
  constructor
  · intro hall
    let carried := carryPlain (A := A) .reply 0 _ hoffs hdata
    exact (listed_iff hlen carried.delivered carried.buffer carried.offsets).mp (hall carried)
  · intro hlist carried
    exact (listed_iff hlen carried.delivered carried.buffer carried.offsets).mpr hlist

theorem list_faithful_iff_listable (st : BinderState) (heap : ℕ → Option A.Uintptr)
    (calls : List (RegistryCall A)) (reads : ℕ → Mem) {n : UInt32} (req : ListRequest A n)
    (rdata : Mem) :
    let p := Machine.run registryStep (started heap) calls
    let out := invoked (svcmgrHandler A) req.mem p req.txn rdata
    (serveTransaction (svcmgrServer A st reads) req.mem p req.txn rdata).written =
        out.2.2.written ++ [.freeBuffer req.txn.buffer,.reply (answerOf out)] ∧
      match (firstRegistered (history heap calls))[n.toNat]? with
      | none => answerOf out = statusReply (-1)
      | some name => (∀ carried : Carried A (answerOf out) .reply,
          stringRead A carried.read.mem carried.txn = some name) ↔ Listable A name := by
  intro p out
  have hl := listed_run heap calls
  have hout : answerOf out = _ := list_answer req p rdata
  refine ⟨rfl,?_⟩
  rw [← hl.names,List.getElem?_map]
  cases hsi : p.svclist.entries[n.toNat]? with
  | none =>
    rw [hsi] at hout
    exact hout
  | some si =>
    rw [hsi] at hout
    have hshort : si.name.length ≤ 127 := by
      refine hl.short _ (hl.names ▸ ?_)
      exact List.mem_map_of_mem (List.mem_of_getElem? hsi)
    exact every_listed_iff hshort hout

def listItems (n : UInt32) : List (Item A) := tokenItems ++ [.uint32 n]

def listMsg (A : Abi) (n : UInt32) : BinderIo :=
  putAll (bioInit A ⟨fun _ => 0,0,0,0,0,0,0,0⟩ (fun _ => 0) 0 512 4) (listItems (A := A) n)

theorem listItems_plain (n : UInt32) : (∀ v ∈ listItems (A := A) n, v.Valid) ∧
    (listItems (A := A) n).countP Item.isObject = 0 ∧
    extent Item.size (listItems (A := A) n) = 68 := by
  have hid : svcmgrId.length = 26 := by decide
  have htoken : extent Item.size (Value.stringItems (A := A) svcmgrId) = 60 := by
    rw [stringItems_extent (by rw [hid]; decide),hid]
  refine ⟨fun v hv => ?_,rfl,?_⟩
  · rcases List.mem_append.mp hv with hv | hv
    · rcases List.mem_cons.mp hv with rfl | hv
      · trivial
      · exact stringItems_valid (by rw [hid]; decide) v hv
    · exact List.mem_singleton.mp hv ▸ trivial
  · rw [listItems,extent_append,tokenItems,extent_cons,htoken]
    rfl

theorem listStart_blank (A : Abi) :
    Blank A 512 (bioInit A ⟨fun _ => 0,0,0,0,0,0,0,0⟩ (fun _ => 0) 0 512 4) :=
  bioInit_blank _ _ _ (by omega) (by omega)

theorem listMsg_wrote (A : Abi) (n : UInt32) :
    Wrote A (bioInit A ⟨fun _ => 0,0,0,0,0,0,0,0⟩ (fun _ => 0) 0 512 4) (listMsg A n)
      (listItems n) := by
  have hb := listStart_blank A
  obtain ⟨hvalid,hnone,hsize⟩ := listItems_plain (A := A) n
  exact (blank_wrote hb hvalid (by omega)).resolve_left (blank_fits hb hvalid (by omega) (by omega))

theorem listMsg_data (A : Abi) (n : UInt32) :
    (listMsg A n).offsBytes = [] ∧ (listMsg A n).dataBytes.length < 2 ^ 32 := by
  have hw := listMsg_wrote A n
  obtain ⟨-,hnone,hsize⟩ := listItems_plain (A := A) n
  constructor
  · refine List.length_eq_zero_iff.mp ?_
    rw [offsBytes_length hw,hnone,Nat.mul_zero]
  · rw [dataBytes_length hw]
    omega

def plainListRequest (A : Abi) (n : UInt32) : ListRequest A n :=
  let sent := callTransaction (listMsg A n) svcmgrHandle svcMgrListServices
  let mail := carryPlain .transaction 0 sent (listMsg_data A n).1 (listMsg_data A n).2
  { mem := mail.read.mem
    txn := mail.txn
    policy := 0
    rest := []
    readable := delivered_readable (listMsg_wrote A n) (listItems_plain n).1
      ((listStart_blank A).small.trans_le A.sizeT.modulus_ge) (Nat.pow_pos (by decide))
      mail.delivered mail.buffer mail.offsets
    target := rfl
    code := rfl }

end

def longCall : RegistryCall (Abi.uniform .four) := .doAddService (fun _ => 97) 127 1 0 0 0

theorem long_name_not_listed :
    ¬ ∀ (A : Abi) (heap : ℕ → Option A.Uintptr) (calls : List (RegistryCall A)) (n : UInt32)
      (req : ListRequest A n) (rdata : Mem) (name : List UInt16),
      (firstRegistered (history heap calls))[n.toNat]? = some name →
      ∀ carried : Carried A (answerOf (invoked (svcmgrHandler A) req.mem
        (Machine.run registryStep (started heap) calls) req.txn rdata)) .reply,
        stringRead A carried.read.mem carried.txn = some name := by
  intro hall
  have hout := list_answer (plainListRequest (Abi.uniform .four) 0)
    (Machine.run registryStep (started fun _ => some 4096) [longCall]) (fun _ => 0)
  have hentry : (Machine.run registryStep (started fun _ => some 4096)
      [longCall]).svclist.entries[(0 : UInt32).toNat]?.map Svcinfo.name =
        some (List.replicate 127 97) := by decide +kernel
  obtain ⟨si,hsi,hname⟩ := Option.map_eq_some_iff.mp hentry
  simp only [hsi,hname] at hout
  have hlen : (List.replicate 127 (97 : UInt16)).length = 127 := List.length_replicate
  obtain ⟨-,hfit⟩ := (every_listed_iff hlen.le hout).mp
    (hall (Abi.uniform .four) (fun _ => some 4096) [longCall] 0
      (plainListRequest (Abi.uniform .four) 0) (fun _ => 0) (List.replicate 127 97)
      (by decide +kernel))
  rw [hlen] at hfit
  exact absurd hfit (by decide)

end Servicemanager
