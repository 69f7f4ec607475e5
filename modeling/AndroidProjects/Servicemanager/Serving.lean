import AndroidProjects.Servicemanager.Clients
import AndroidProjects.Servicemanager.Directory

namespace Servicemanager
open Binder ByteMemory Layout

section
variable {A : Abi}

theorem units_ptrUnits (m : Mem) (p len : ℕ) : units (ptrUnits m p) len = loadUnits m p len := rfl

def tokenItems : List (Item A) := .uint32 0 :: Value.stringItems svcmgrId

section
variable {m : Mem} {txn : BinderTransactionData A} {us ws : List (Item A)} {io : BinderIo}

theorem svcmgrHandler_token {policy : UInt32}
    (hr : Readable A m txn ((.uint32 policy :: Value.stringItems svcmgrId) ++ ws))
    (htarget : txn.handle = svcmgrHandle) (hping : txn.code ≠ pingTransaction) (p : Manager A)
    (reply : BinderIo) :
    ∃ io, Reading A m txn (.uint32 policy :: Value.stringItems svcmgrId) ws io ∧
      svcmgrHandler A p txn (bioInitFromTxn A m txn) reply = svcmgrSwitch A p txn io reply := by
  have hid : svcmgrId.length < maxBioSize / 2 := by decide
  obtain ⟨-,hfirst⟩ := read_uint32 hr
  obtain ⟨s,hptr,hlen,hunits,hnext⟩ := reading_string16 hid hr hfirst
  refine ⟨_,hnext,?_⟩
  have hsame : ¬ (svcmgrId.length ≠ svcmgrId.length ∨
      units (ptrUnits m s) svcmgrId.length ≠ svcmgrId) := by
    rw [units_ptrUnits,hunits]
    simp
  rw [svcmgrHandler,if_neg (not_not.mpr htarget),if_neg hping]
  simp only [hptr,hlen]
  exact if_neg hsame

theorem svcmgrHandler_switch (hr : Readable A m txn (tokenItems ++ ws))
    (htarget : txn.handle = svcmgrHandle) (hping : txn.code ≠ pingTransaction) (p : Manager A)
    (reply : BinderIo) : ∃ io, Reading A m txn tokenItems ws io ∧
      svcmgrHandler A p txn (bioInitFromTxn A m txn) reply = svcmgrSwitch A p txn io reply :=
  svcmgrHandler_token hr htarget hping p reply

theorem svcmgrAdd_named {name : List UInt16} {h : UInt32} (hlen : name.length < maxBioSize / 2)
    (hr : Readable A m txn (us ++ (Value.stringItems name ++ [.object (.handle h)])))
    (hio : Reading A m txn us (Value.stringItems name ++ [.object (.handle h)]) io)
    (p : Manager A) (reply : BinderIo) : ∃ s allow res p', units s name.length = name ∧
      Added p s name.length h allow (res,p') ∧
      svcmgrAdd A p txn io reply =
        if res ≠ 0 then (-1,reply,p') else (0,bioPutUint32 A reply 0,p') := by
  obtain ⟨s,hptr,hsz,hunits,hnext⟩ := reading_string16 hlen hr hio
  rw [← List.append_assoc] at hr
  obtain ⟨hval,-⟩ := reading_ref hr hnext
  rw [svcmgrAdd,hptr]
  simp only [hsz,hval,hio.mem]
  exact ⟨_,_,_,_,hunits,doAddService_added p _ _ h txn.senderEuid _ txn.senderPid,rfl⟩

theorem overlong_length (hr : Readable A m txn (us ++ .uint32 0xffffffff :: ws))
    (hio : Reading A m txn us (.uint32 0xffffffff :: ws) io) :
    (bioGetString16 A io).2.1 = 2 ^ 32 - 1 := by
  obtain ⟨hval,-⟩ := reading_uint32 hr hio
  rw [bioGetString16,hval]
  rfl

theorem svcmgrAdd_overlong (hr : Readable A m txn (us ++ .uint32 0xffffffff :: ws))
    (hio : Reading A m txn us (.uint32 0xffffffff :: ws) io) (p : Manager A) (reply : BinderIo) :
    svcmgrAdd A p txn io reply = (-1,reply,p) := by
  have hlen := overlong_length hr hio
  have hrefused : ∀ s handle allow,
      doAddService p s (2 ^ 32 - 1) handle txn.senderEuid allow txn.senderPid = (-1,p) := by
    intro s handle allow
    rw [doAddService,if_pos]
    right
    right
    decide
  rw [svcmgrAdd]
  cases hs : (bioGetString16 A io).1 with
  | none => rfl
  | some s =>
    simp only [hlen,hrefused]
    rfl

end

inductive Looked (A : Abi) (p : Manager A) (reply : BinderIo) (h : UInt32) :
    Int × BinderIo × Manager A → Prop
  | given (hn : h ≠ 0) : Looked A p reply h (0,bioPutRef A reply h,p)
  | unknown (hz : h = 0) : Looked A p reply h (0,bioPutUint32 A reply 0,p)
  | unreadable (hz : h = 0) : Looked A p reply h (-1,reply,p)

theorem svcmgrGet_looked (p : Manager A) (txn : BinderTransactionData A) (io reply : BinderIo) :
    ∃ h, Looked A p reply h (svcmgrGet A p txn io reply) ∧
      (∀ s, (bioGetString16 A io).1 = some s → h = doFindService p.svclist (ptrUnits io.mem s)
        (bioGetString16 A io).2.1 txn.senderEuid txn.senderPid) := by
  rw [svcmgrGet]
  cases hs : (bioGetString16 A io).1 with
  | none => exact ⟨0,.unreadable rfl,fun s h => absurd h (by simp)⟩
  | some s =>
    refine ⟨doFindService p.svclist (ptrUnits io.mem s) (bioGetString16 A io).2.1 txn.senderEuid
      txn.senderPid,?_,fun s' h => by rw [Option.some.inj h]⟩
    simp only []
    split_ifs with hz
    · exact .unknown hz
    · exact .given hz

section
variable {m : Mem} {txn : BinderTransactionData A} {us : List (Item A)} {io : BinderIo}

theorem svcmgrGet_named {chars : List UInt8} {p : Manager A}
    (hshort : ∀ si ∈ p.svclist.entries, si.name.length ≤ 127)
    (hr : Readable A m txn (us ++ nameItems chars)) (hio : Reading A m txn us (nameItems chars) io)
    (hu : isolated txn.senderEuid = false) (reply : BinderIo) :
    Looked A p reply (p.svclist.handleOf (wide chars)) (svcmgrGet A p txn io reply) := by
  obtain ⟨h,hlooked,hfound⟩ := svcmgrGet_looked p txn io reply
  have hnamed : ∀ n : List UInt16, 127 < n.length → p.svclist.handleOf n = 0 := by
    intro n hn
    have hnone : p.svclist.named n = none := by
      refine List.find?_eq_none.mpr fun si hsi => ?_
      have hle := hshort si hsi
      simp only [decide_eq_true_eq]
      rintro rfl
      omega
    rw [Svclist.handleOf,hnone]
  rw [nameItems] at hr hio
  split_ifs at hr hio with hlen
  · have hwide : (wide chars).length < maxBioSize / 2 := by rwa [wide_length]
    rw [← List.append_nil (Value.stringItems (wide chars))] at hr hio
    obtain ⟨s,hptr,hsz,hunits,-⟩ := reading_string16 hwide hr hio
    have heq := hfound s hptr
    rw [doFindService_eq _ _ _ hu,hsz,hio.mem,units_ptrUnits,hunits] at heq
    rw [← heq]
    exact hlooked
  · have hsz := overlong_length hr hio
    have hzero : p.svclist.handleOf (wide chars) = 0 := by
      apply hnamed
      rw [wide_length]
      simp only [maxBioSize] at hlen
      omega
    have hnone : h = 0 := by
      cases hs : (bioGetString16 A io).1 with
      | none =>
        rw [svcmgrGet,hs] at hlooked
        cases hlooked
        assumption
      | some s =>
        rw [hfound s hs,doFindService_eq _ _ _ hu,hsz]
        apply hnamed
        rw [units,List.length_map,List.length_range]
        decide
    rw [hzero,← hnone]
    exact hlooked

end

section
variable {p : Manager A} {m : Mem} {txn : BinderTransactionData A}

theorem publish_handled {name : CName} {h : UInt32} (hh : h ≠ 0)
    (hmalloc : p.globals.malloc ≠ none)
    (hr : Readable A m txn (lookupItems name ++ [.object (.handle h)]))
    (htarget : txn.handle = svcmgrHandle) (hcode : txn.code = svcMgrAddService)
    (reply : BinderIo) : ∃ (res : Int) (p' : Manager A),
      svcmgrHandler A p txn (bioInitFromTxn A m txn) reply =
        (res,if res ≠ 0 then reply else bioPutUint32 A reply 0,p') ∧
      ((res = 0 ∧ (1 ≤ name.chars.length ∧ name.chars.length ≤ 127) ∧
        ∃ s allow, units s name.chars.length = wide name.chars ∧
          Added p s name.chars.length h allow (0,p')) ∨
      (res = -1 ∧ ¬ (1 ≤ name.chars.length ∧ name.chars.length ≤ 127) ∧
        p'.svclist = p.svclist)) := by
  have hping : txn.code ≠ pingTransaction := by
    rw [hcode]
    decide
  have hget : ¬ (txn.code = svcMgrGetService ∨ txn.code = svcMgrCheckService) := by
    rw [hcode]
    decide
  rw [lookupItems,List.append_assoc] at hr
  obtain ⟨io,hio,hswitch⟩ := svcmgrHandler_switch hr htarget hping p reply
  rw [hswitch,svcmgrSwitch,if_neg hget,if_pos hcode]
  rw [nameItems] at hr hio
  split_ifs at hr hio with hlen
  · have hwide : (wide name.chars).length < maxBioSize / 2 := by rwa [wide_length]
    obtain ⟨s,allow,res,p',hunits,hadd,hout⟩ := svcmgrAdd_named hwide hr hio p reply
    rw [wide_length] at hunits hadd
    rw [hout]
    cases hadd with
    | refused reason hl hw hc =>
      refine ⟨-1,p',rfl,.inr ⟨rfl,?_,hl⟩⟩
      rintro ⟨hpos,hmax⟩
      rcases reason with hreg | ⟨-,hnone⟩
      · exact hreg ⟨hh,by omega,hmax⟩
      · exact hmalloc hnone
    | overridden valid hf hl hw hc =>
      have hbounds := valid.2
      exact ⟨0,p',rfl,.inl ⟨rfl,⟨by omega,by omega⟩,s,allow,hunits,.overridden valid hf hl hw hc⟩⟩
    | pushed valid hf fresh hl hw hc halloc =>
      have hbounds := valid.2
      exact ⟨0,p',rfl,.inl ⟨rfl,⟨by omega,by omega⟩,s,allow,hunits,
        .pushed valid hf fresh hl hw hc halloc⟩⟩
  · rw [svcmgrAdd_overlong hr hio p reply]
    refine ⟨-1,p,rfl,.inr ⟨rfl,?_,rfl⟩⟩
    simp only [maxBioSize] at hlen
    omega

theorem lookup_handled {name : CName} (hshort : ∀ si ∈ p.svclist.entries, si.name.length ≤ 127)
    (hr : Readable A m txn (lookupItems name)) (htarget : txn.handle = svcmgrHandle)
    (hcode : txn.code = svcMgrCheckService) (hu : isolated txn.senderEuid = false)
    (reply : BinderIo) : Looked A p reply (p.svclist.handleOf (wide name.chars))
      (svcmgrHandler A p txn (bioInitFromTxn A m txn) reply) := by
  have hping : txn.code ≠ pingTransaction := by
    rw [hcode]
    decide
  obtain ⟨io,hio,hswitch⟩ := svcmgrHandler_switch hr htarget hping p reply
  rw [hswitch,svcmgrSwitch,if_pos (.inr hcode)]
  exact svcmgrGet_named hshort hr hio hu reply

theorem lookup_keeps (hcode : txn.code = svcMgrCheckService) (reply : BinderIo) :
    (svcmgrHandler A p txn (bioInitFromTxn A m txn) reply).2.2 = p := by
  have hh := svcmgrHandler_handled p (reads_init m txn) reply
  generalize svcmgrHandler A p txn _ reply = out at hh ⊢
  cases hh with
  | untouched h => rfl
  | added hadd =>
    rw [hcode] at hadd
    exact absurd hadd (by decide)

end

def lastReply {σ : Type} (p : Proc A σ) : Option Outgoing :=
  match p.written.getLast? with
  | some (.reply out) => some out
  | _ => none

def blankReply (A : Abi) (rdata : Mem) : BinderIo := bioInit A ⟨rdata,0,0,0,0,0,0,0⟩ rdata 0 256 4

theorem serveTransaction_svcmgr (st : BinderState) (rdata : ℕ → Mem) (m : Mem) (p : Manager A)
    (txn : BinderTransactionData A) (r : Mem) {res : Int} {reply : BinderIo} {p' : Manager A}
    (h : svcmgrHandler A p txn (bioInitFromTxn A m txn) (blankReply A r) = (res,reply,p')) :
    Manager.svclist (serveTransaction (svcmgrServer A st rdata) m p txn r) = p'.svclist ∧
      lastReply (serveTransaction (svcmgrServer A st rdata) m p txn r) =
        some (if res ≠ 0 then statusReply res else dataReply reply) := by
  have hserve : serveTransaction (svcmgrServer A st rdata) m p txn r =
      binderSendReply p' reply txn.buffer res := by
    have hout : serveTransaction (svcmgrServer A st rdata) m p txn r =
        binderSendReply (svcmgrHandler A p txn (bioInitFromTxn A m txn) (blankReply A r)).2.2
          (svcmgrHandler A p txn (bioInitFromTxn A m txn) (blankReply A r)).2.1 txn.buffer
          (svcmgrHandler A p txn (bioInitFromTxn A m txn) (blankReply A r)).1 := rfl
    rw [hout,h]
  rw [hserve]
  refine ⟨rfl,?_⟩
  rw [lastReply,binderSendReply,binderWrite_written]
  simp

section
variable {d : HandleTable A} {sender receiver : Party} {mail : Mail A}
  {c : BinderTransactionData A → BinderReturn A}

theorem blankReply_blank (A : Abi) (rdata : Mem) : Blank A 256 (blankReply A rdata) :=
  bioInit_blank _ rdata 0 (by omega) (by omega)

theorem statusReply_readable (hp : Posted d sender receiver (statusReply (-1)) c mail) :
    Readable A mail.read.mem mail.txn [.uint32 0xffffffff] ∧ mail.txn.offsetsSize.toNat = 0 := by
  have htable : objectTable A (statusReply (-1)) = [] := by
    rw [objectTable]
    simp [statusReply]
  have hd := hp.copied (foreign_of_empty htable)
  have hm := A.sizeT.modulus_ge
  refine ⟨⟨?_,?_,?_,trivial⟩,hd.offsetsSize⟩
  · have hsize : mail.txn.dataSize.toNat = 4 := hd.dataSize
    rw [hsize]
    exact Word.wrap_of_lt (by omega)
  · exact fun n off hn => absurd hn (by simp [marks,Item.isObject])
  · have hslice := (slice_eq_iff mail.read.mem mail.txn.buffer.toNat
        (leBytes 4 (0xffffffff : UInt32).toNat)).mpr fun i hi => by
      obtain ⟨b,hb⟩ : ∃ b, (leBytes 4 (0xffffffff : UInt32).toNat)[i]? = some b :=
        ⟨_,List.getElem?_eq_getElem hi⟩
      rw [hb,hd.data i b hb (fun off hoff => absurd (htable ▸ hoff) List.not_mem_nil)]
    rw [leBytes_length] at hslice
    change load32 mail.read.mem (A.sizeT.wrap mail.txn.buffer.toNat) = 0xffffffff
    rw [hp.buffer]
    exact load32_of_slice hslice

theorem okReply_readable {rdata : Mem}
    (hp : Posted d sender receiver (dataReply (bioPutUint32 A (blankReply A rdata) 0)) c mail) :
    Readable A mail.read.mem mail.txn [.uint32 0] ∧ mail.txn.offsetsSize.toNat = 0 := by
  have hb := blankReply_blank A rdata
  have hvalid : ∀ v ∈ [(Item.uint32 0 : Item A)], v.Valid := by
    intro v hv
    exact List.mem_singleton.mp hv ▸ trivial
  have hfour : extent Item.size [(Item.uint32 0 : Item A)] = 4 := rfl
  have hfits := blank_fits hb hvalid (Nat.zero_le 1) (by rw [hfour]; omega)
  rcases blank_wrote hb hvalid (Nat.zero_le 1) with ho | hw
  · exact absurd ho hfits
  · have htable : objectTable A (dataReply (bioPutUint32 A (blankReply A rdata) 0)) = [] :=
      objectTable_none hw rfl
    have hlen := offsBytes_length hw
    have hf : Foreign d sender receiver (dataReply (bioPutUint32 A (blankReply A rdata) 0)) :=
      foreign_of_empty htable
    have hd := hp.copied hf
    exact ⟨posted_readable hw hvalid (Nat.zero_le 1) hb.small hp hf,hd.offsetsSize.trans hlen⟩

theorem handleReply_readable {rdata : Mem} {h : UInt32} (hn : h ≠ 0) {node : Node A}
    (hnode : d sender h = some node) (howner : node.owner ≠ receiver)
    (hp : Posted d sender receiver (dataReply (bioPutRef A (blankReply A rdata) h)) c mail) :
    Readable A mail.read.mem mail.txn [.object (.handle (mail.handles 0))] ∧
      mail.handles 0 ≠ 0 ∧ mail.table receiver (mail.handles 0) = some node := by
  have hb := blankReply_blank A rdata
  have hvalid : ∀ v ∈ [(Item.object (.handle h) : Item A)], v.Valid := by
    intro v hv
    exact List.mem_singleton.mp hv ▸ hn
  have hsize : extent Item.size [(Item.object (.handle h) : Item A)] ≤ 24 := by
    rw [extent_cons,extent_nil]
    rcases sizeofFlatBinderObject_cases A with hs | hs <;> simp only [Item.size,hs] <;> omega
  have hfits := blank_fits hb hvalid (Nat.le_refl 1) (by omega)
  rcases blank_wrote hb hvalid (Nat.le_refl 1) with ho | hw
  · exact absurd ho hfits
  · rw [← List.nil_append [Item.object (.handle h)]] at hw
    have htable : objectTable A (dataReply (bioPutRef A (blankReply A rdata) h)) = [0] :=
      objectTable_one hw rfl
    have hs : sentNode d sender (dataReply (bioPutRef A (blankReply A rdata) h)) 0 = d sender h :=
      sentNode_wrote hw d sender
    have hsent := hs.trans hnode
    have hf := foreign_one htable hsent howner
    refine ⟨posted_readable hw hvalid (Nat.le_refl 1) hb.small hp hf,?_⟩
    refine hp.translated.objects 0 _ node ?_ hsent howner
    exact congrArg (fun l => l[0]?) htable

theorem noObject_ref {m : Mem} {txn : BinderTransactionData A} (h : txn.offsetsSize.toNat = 0) :
    (bioGetRef A (bioInitFromTxn A m txn)).1 = 0 := by
  have havail : (bioInitFromTxn A m txn).offsAvail = 0 := by
    change A.sizeT.wrap (txn.offsetsSize.toNat / A.sizeT.bytes) = 0
    rw [h,Nat.zero_div,Word.wrap,Nat.zero_mod]
  by_contra hne
  obtain ⟨⟨n,hlt,-⟩,-⟩ := bioGetRef_ne_zero hne
  omega

end

section
variable {uid : Party → UInt32}

theorem called_manager {d : HandleTable A} {sender : Party} {out : Outgoing} {mail : Mail A}
    (h : Called uid d sender ⟨.contextManager,0⟩ out mail) :
    mail.txn.handle = svcmgrHandle := by
  rw [BinderTransactionData.handle,h.target]
  rfl

theorem publish_request {d : HandleTable A} {pid : ℕ} {f : Frame} {name : CName} {ptr : A.Uintptr}
    {out : Outgoing} (hsent : callSent (publishMsg A f name ptr) binderServiceManager
      svcMgrAddService = some out) {mail : Mail A}
    (hc : Called uid d (.process pid) ⟨.contextManager,0⟩ out mail) :
    ∃ k, k ≠ 0 ∧ mail.table .contextManager k = some ⟨.process pid,ptr.setWidth _⟩ ∧
      Readable A mail.read.mem mail.txn (lookupItems name ++ [.object (.handle k)]) := by
  obtain ⟨hno,rfl⟩ := callSent_some hsent
  have hb := iodata_blank A f
  have hitems := publishMsg_items f name ptr
  have hcount : (lookupItems name ++ [(Item.object (.binder ptr) : Item A)]).countP
      Item.isObject = 1 := by
    rw [List.countP_append,lookupItems_noObject]
    rfl
  have hvalid := publishItems_valid name ptr
  rcases blank_wrote hb hvalid (Nat.le_of_eq hcount) with ho | hw
  · rw [← hitems] at ho
    exact absurd ho hno
  rw [← hitems] at hw
  have htable : objectTable A (callTransaction (publishMsg A f name ptr) binderServiceManager
      svcMgrAddService) = [extent Item.size (lookupItems (A := A) name)] :=
    objectTable_one hw (lookupItems_noObject name)
  have hnode : sentNode d (.process pid) (callTransaction (publishMsg A f name ptr)
      binderServiceManager svcMgrAddService) (extent Item.size (lookupItems (A := A) name)) =
        some ⟨.process pid,ptr.setWidth _⟩ := sentNode_wrote hw d (.process pid)
  have howner : Party.process pid ≠ .contextManager := by simp
  have hf := foreign_one htable hnode howner
  obtain ⟨hk,hdenotes⟩ := hc.posted.translated.objects 0 _ _
    (congrArg (fun l => l[0]?) htable) hnode howner
  have hr := posted_readable hw hvalid (Nat.le_of_eq hcount) hb.small hc.posted hf
  rw [deliver_after (lookupItems_noObject name)] at hr
  exact ⟨mail.handles 0,hk,hdenotes,hr⟩

theorem lookup_request {d : HandleTable A} {pid : ℕ} {f : Frame} {name : CName} {out : Outgoing}
    (hsent : callSent (lookupMsg A f name) binderServiceManager svcMgrCheckService = some out)
    {mail : Mail A} (hc : Called uid d (.process pid) ⟨.contextManager,0⟩ out mail) :
    Readable A mail.read.mem mail.txn (lookupItems name) := by
  obtain ⟨hno,rfl⟩ := callSent_some hsent
  have hb := iodata_blank A f
  have hitems := lookupMsg_items (A := A) f name
  have hcount := lookupItems_noObject (A := A) name
  have hvalid := lookupItems_valid (A := A) name
  rcases blank_wrote hb hvalid (by omega) with ho | hw
  · rw [← hitems] at ho
    exact absurd ho hno
  rw [← hitems] at hw
  have htable : objectTable A (callTransaction (lookupMsg A f name) binderServiceManager
      svcMgrCheckService) = [] := objectTable_none hw hcount
  have hr := posted_readable hw hvalid (by omega) hb.small hc.posted (foreign_of_empty htable)
  have hkeep := deliver_after hcount mail.handles 0 []
  rw [List.append_nil] at hkeep
  rw [hkeep] at hr
  rwa [deliver,List.append_nil] at hr

theorem publish_sent {f : Frame} {name : CName} {ptr : A.Uintptr} {target : UInt32}
    (h : callSent (publishMsg A f name ptr) target svcMgrAddService = none) :
    ¬ name.chars.length ≤ 127 := by
  intro hlen
  have hb := iodata_blank A f
  have hcount : (lookupItems name ++ [(Item.object (.binder ptr) : Item A)]).countP
      Item.isObject ≤ 1 := by
    rw [List.countP_append,lookupItems_noObject]
    exact Nat.le_refl 1
  have hfits := blank_fits hb (publishItems_valid name ptr) hcount (publishItems_fit hlen ptr)
  rw [← publishMsg_items] at hfits
  exact hfits (callSent_none h)

theorem lookup_sent {f : Frame} {name : CName} {target : UInt32}
    (h : callSent (lookupMsg A f name) target svcMgrCheckService = none) :
    ¬ name.chars.length ≤ 127 := by
  intro hlen
  have hb := iodata_blank A f
  have hcount := lookupItems_noObject (A := A) name
  have hfit := publishItems_fit hlen (0 : A.Uintptr)
  rw [extent_append] at hfit
  have hfits := blank_fits hb (lookupItems_valid name) (by omega) (by omega)
  rw [← lookupMsg_items] at hfits
  exact hfits (callSent_none h)

end

end

end Servicemanager
