import AndroidProjects.Binder.Fetches
import AndroidProjects.Servicemanager.Handler

namespace Servicemanager
open Binder ByteMemory

section
variable {A : Abi}

inductive Stored (l : Svclist A) (handle : UInt32) : Svclist A → Prop
  | old {si : Svcinfo A} (hs : si ∈ l.entries) : Stored l handle (l.setHandle si.addr handle)
  | new {si : Svcinfo A} (fresh : si.addr ∉ l.addrs) (hh : si.handle = handle) :
      Stored l handle (l.push si fresh)

theorem added_stored {p : Manager A} {s : ℕ → UInt16} {len : ℕ} {handle : UInt32}
    {allowIsolated : Int} {out : Int × Manager A} (h : Added p s len handle allowIsolated out) :
    out.2.svclist = p.svclist ∨ handle ≠ 0 ∧ Stored p.svclist handle out.2.svclist := by
  cases h with
  | refused reason hl hw hc => exact .inl hl
  | overridden valid hf hl hw hc =>
    rw [hl]
    exact .inr ⟨valid.1,.old (findSvc_mem hf)⟩
  | pushed valid hf fresh hl hw hc =>
    rw [hl]
    exact .inr ⟨valid.1,.new fresh rfl⟩

def InPlace (p : Manager A) (name : List UInt16) (handle : UInt32) (p' : Manager A) : Prop :=
  ∃ pre si post, si.name = name ∧ (∀ sj ∈ pre, sj.name ≠ name) ∧
    p.svclist.entries = pre ++ si :: post ∧
    p'.svclist.entries = pre ++ si.withHandle handle :: post ∧
    p'.written = p.written ++ ((if si.handle ≠ 0 then [.release si.handle] else []) ++
      [.acquire handle,.requestDeathNotification handle (si.deathAddr.setWidth _)])

def AtHead (p : Manager A) (name : List UInt16) (handle : UInt32) (allowIsolated : Int)
    (p' : Manager A) : Prop :=
  ∃ si, si.name = name ∧ si.handle = handle ∧ si.allowIsolated = allowIsolated ∧
    si.death = ⟨.svcinfoDeath,si.addr⟩ ∧ si.addr ∉ p.svclist.addrs ∧
    (∀ sj ∈ p.svclist.entries, sj.name ≠ name) ∧
    p'.svclist.entries = si :: p.svclist.entries ∧
    p'.written = p.written ++
      [.acquire handle,.requestDeathNotification handle (si.deathAddr.setWidth _)]

theorem added_places {p p' : Manager A} {s : ℕ → UInt16} {len : ℕ} {handle : UInt32}
    {allowIsolated : Int} {res : Int} (h : Added p s len handle allowIsolated (res,p')) :
    (res ≠ 0 → p'.svclist = p.svclist ∧ p'.written = p.written) ∧
    (res = 0 → handle ≠ 0 ∧ (InPlace p (units s len) handle p' ∨
      AtHead p (units s len) handle allowIsolated p')) := by
  cases h with
  | refused reason hl hw hc => exact ⟨fun _ => ⟨hl,hw⟩,fun hz => absurd hz (by decide)⟩
  | @overridden p' si valid hf hl hw hc =>
    refine ⟨fun hn => absurd rfl hn,fun _ => ⟨valid.1,.inl ?_⟩⟩
    rw [findSvc_eq] at hf
    obtain ⟨hname,pre,post,hentries,hothers⟩ := List.find?_eq_some_iff_append.mp hf
    have hnodup := hentries ▸ p.svclist.addrs_nodup
    refine ⟨pre,si,post,by simpa using hname,by simpa using hothers,hentries,?_,hw⟩
    rw [hl]
    exact (congrArg _ hentries).trans (Pinned.assign_middle hnodup rfl)
  | @pushed p' a valid hf fresh hl hw hc =>
    refine ⟨fun hn => absurd rfl hn,fun _ => ⟨valid.1,.inr ?_⟩⟩
    refine ⟨newSvcinfo a s len handle allowIsolated,rfl,rfl,rfl,rfl,fresh,?_,?_,hw⟩
    · intro sj hj
      rw [findSvc_eq] at hf
      simpa using List.find?_eq_none.mp hf sj hj
    · rw [hl]
      rfl

theorem handled_effect {m : Mem} {p : Manager A} {txn : BinderTransactionData A} {msg : BinderIo}
    {out : Int × BinderIo × Manager A} (hh : Handled A m p txn msg out) :
    (out.1 ≠ 0 ∨ txn.code ≠ svcMgrAddService →
      Manager.svclist out.2.2 = p.svclist ∧ out.2.2.written = p.written) ∧
    (out.1 = 0 → txn.code = svcMgrAddService → decodedHandle A msg ≠ 0 ∧
      (InPlace p (decodedName A msg) (decodedHandle A msg) out.2.2 ∨
        AtHead p (decodedName A msg) (decodedHandle A msg) (decodedAllow A msg) out.2.2)) := by
  cases hh with
  | untouched h =>
    refine ⟨fun _ => ⟨rfl,rfl⟩,fun hz hc => ?_⟩
    rcases h with h | h
    · exact absurd hz h
    · exact absurd hc h
  | added hcode hname hio hadd =>
    obtain ⟨hfail,hdone⟩ := added_places hadd
    rw [hname] at hdone
    refine ⟨?_,fun hz _ => hdone hz⟩
    rintro (hn | hn)
    · exact hfail hn
    · exact absurd hcode hn

theorem request_effect (m : Mem) (p : Manager A) (txn : BinderTransactionData A)
    (reply : BinderIo) :
    let msg := bioInitFromTxn A m txn
    let out := svcmgrHandler A p txn msg reply
    (out.1 ≠ 0 ∨ txn.code ≠ svcMgrAddService →
      Manager.svclist out.2.2 = p.svclist ∧ out.2.2.written = p.written) ∧
    (out.1 = 0 → txn.code = svcMgrAddService → decodedHandle A msg ≠ 0 ∧
      (InPlace p (decodedName A msg) (decodedHandle A msg) out.2.2 ∨
        AtHead p (decodedName A msg) (decodedHandle A msg) (decodedAllow A msg) out.2.2)) :=
  handled_effect (svcmgrHandler_handled p (reads_init m txn) reply)

theorem minus_one_ne : (-1 : Int) ≠ 0 := by decide

theorem added_zero {p : Manager A} {s : ℕ → UInt16} {len : ℕ} {allowIsolated : Int}
    {out : Int × Manager A} (h : Added p s len 0 allowIsolated out) :
    out.1 ≠ 0 ∧ out.2.svclist = p.svclist ∧ out.2.written = p.written := by
  cases h with
  | refused reason hl hw hc => exact ⟨minus_one_ne,hl,hw⟩
  | overridden valid hf hl hw hc => exact absurd rfl valid.1
  | pushed valid hf fresh hl hw hc => exact absurd rfl valid.1

theorem svcmgrAdd_unfinished (p : Manager A) (txn : BinderTransactionData A) {msg : BinderIo}
    (hdrained : Drained (bioGetString16 A msg).2.2)
    (ho : (bioGetRef A (bioGetString16 A msg).2.2).2.overflow) (reply : BinderIo) :
    let out := svcmgrAdd A p txn msg reply
    out.1 ≠ 0 ∧ Manager.svclist out.2.2 = p.svclist ∧ out.2.2.written = p.written := by
  simp only [svcmgrAdd]
  cases hs : (bioGetString16 A msg).1 with
  | none => exact ⟨minus_one_ne,rfl,rfl⟩
  | some s =>
    have hzero := bioGetRef_failed hdrained ho
    simp only [hzero]
    generalize hallow : (if (bioGetUint32 A (bioGetRef A (bioGetString16 A msg).2.2).2).1 ≠ 0
      then (1 : Int) else 0) = allow
    have hadd := added_zero (doAddService_added p (ptrUnits msg.mem s) (bioGetString16 A msg).2.1
      0 txn.senderEuid allow txn.senderPid)
    rw [if_pos hadd.1]
    exact ⟨minus_one_ne,hadd.2⟩

-- svcmgr_handler reads on without a check; a request that ends before its handle adds nothing
theorem unfinished_add_refused (m : Mem) (p : Manager A) (txn : BinderTransactionData A)
    (hcode : txn.code = svcMgrAddService)
    (ho : (readTo A m txn [.uint32,.string16,.string16,.ref]).overflow) (reply : BinderIo) :
    let out := svcmgrHandler A p txn (bioInitFromTxn A m txn) reply
    out.1 ≠ 0 ∧ Manager.svclist out.2.2 = p.svclist ∧ out.2.2.written = p.written := by
  have hdrained := readTo_drained m txn [.uint32,.string16,.string16]
  have hping : txn.code ≠ pingTransaction := by
    rw [hcode]
    decide
  simp only [svcmgrHandler,if_neg hping]
  split_ifs
  · exact ⟨minus_one_ne,rfl,rfl⟩
  split
  · exact ⟨minus_one_ne,rfl,rfl⟩
  split_ifs
  · exact ⟨minus_one_ne,rfl,rfl⟩
  rw [svcmgrSwitch,if_neg (by rw [hcode]; decide),if_pos hcode]
  exact svcmgrAdd_unfinished p txn hdrained ho reply

end

section
variable {w : Word}

def Given (w : Word) (m : Mem) (txn : BinderTransactionData (Abi.uniform w)) (h : UInt32) : Prop :=
  ∃ n < txn.offsetsSize.toNat / w.bytes, HandleAt w m txn (objectAt w m txn n) ∧
    load32 m (txn.buffer.toNat + objectAt w m txn n + 8) = h

theorem registered_handle_given (m : Mem) (p : Manager (Abi.uniform w))
    (txn : BinderTransactionData (Abi.uniform w)) (reply : BinderIo) :
    let out := svcmgrHandler (Abi.uniform w) p txn (bioInitFromTxn (Abi.uniform w) m txn) reply
    Manager.svclist out.2.2 = p.svclist ∨
      ∃ h, Given w m txn h ∧ Stored p.svclist h (Manager.svclist out.2.2) := by
  have hh := svcmgrHandler_handled p (reads_init m txn) reply
  generalize svcmgrHandler (Abi.uniform w) p txn _ reply = out at hh ⊢
  cases hh with
  | untouched h => exact .inl rfl
  | added hcode hname hio hadd =>
    rcases added_stored hadd with hl | ⟨hz,hst⟩
    · exact .inl hl
    · exact .inr ⟨_,mem_heldHandles.mp (bioGetRef_held hio hz),hst⟩

end

end Servicemanager
