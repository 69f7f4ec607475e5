import AndroidProjects.Binder.Reader
import AndroidProjects.Servicemanager.Registry

namespace Servicemanager
open Binder ByteMemory

def svcmgrHandle : UInt32 := binderServiceManager

def svcmgrId : List UInt16 :=
  ['a','n','d','r','o','i','d','.','o','s','.',
   'I','S','e','r','v','i','c','e','M','a','n','a','g','e','r'].map fun c => UInt16.ofNat c.toNat

def ptrUnits (m : Mem) (p : ℕ) : ℕ → UInt16 := fun i => load16 m (p+2*i)

section
variable (A : Abi)

def svcmgrGet (p : Manager A) (txn : BinderTransactionData A) (msg reply : BinderIo) :
    Int × BinderIo × Manager A :=
  let str := bioGetString16 A msg
  match str.1 with
  | none => (-1,reply,p)
  | some s =>
    let handle := doFindService p.svclist (ptrUnits msg.mem s) str.2.1 txn.senderEuid txn.senderPid
    if handle = 0 then (0,bioPutUint32 A reply 0,p) else (0,bioPutRef A reply handle,p)

def svcmgrAdd (p : Manager A) (txn : BinderTransactionData A) (msg reply : BinderIo) :
    Int × BinderIo × Manager A :=
  let str := bioGetString16 A msg
  match str.1 with
  | none => (-1,reply,p)
  | some s =>
    let ref := bioGetRef A str.2.2
    let allowIsolated : Int := if (bioGetUint32 A ref.2).1 ≠ 0 then 1 else 0
    let out := doAddService p (ptrUnits msg.mem s) str.2.1 ref.1 txn.senderEuid allowIsolated
      txn.senderPid
    if out.1 ≠ 0 then (-1,reply,out.2) else (0,bioPutUint32 A reply 0,out.2)

def svcmgrList (p : Manager A) (txn : BinderTransactionData A) (msg reply : BinderIo) :
    Int × BinderIo × Manager A :=
  let n := (bioGetUint32 A msg).1
  if !svcCanList txn.senderPid then (-1,reply,p)
  else match (p.svclist.entries.drop n.toNat).head? with
  | some si => (0,bioPutString16 A reply (some si.name),p)
  | none => (-1,reply,p)

def svcmgrSwitch (p : Manager A) (txn : BinderTransactionData A) (msg reply : BinderIo) :
    Int × BinderIo × Manager A :=
  if txn.code = svcMgrGetService ∨ txn.code = svcMgrCheckService then svcmgrGet A p txn msg reply
  else if txn.code = svcMgrAddService then svcmgrAdd A p txn msg reply
  else if txn.code = svcMgrListServices then svcmgrList A p txn msg reply
  else (-1,reply,p)

def svcmgrHandler : BinderHandler A (Svcmgr A) := fun p txn msg reply =>
  if txn.handle ≠ svcmgrHandle then (-1,reply,p)
  else if txn.code = pingTransaction then (0,reply,p)
  else
    let str := bioGetString16 A (bioGetUint32 A msg).2
    match str.1 with
    | none => (-1,reply,p)
    | some s =>
      if str.2.1 ≠ svcmgrId.length ∨ units (ptrUnits msg.mem s) svcmgrId.length ≠ svcmgrId then
        (-1,reply,p)
      else svcmgrSwitch A p txn str.2.2 reply

def svcmgrServer (bs : BinderState) (rdata : ℕ → Mem) : Server A (Svcmgr A) where
  bs := bs
  func := some (svcmgrHandler A)
  rdata := rdata
  death := svcmgrDeath

def decodedName (msg : BinderIo) : List UInt16 :=
  let token := bioGetString16 A (bioGetUint32 A msg).2
  let str := bioGetString16 A token.2.2
  units (ptrUnits msg.mem (str.1.getD 0)) str.2.1

def afterName (msg : BinderIo) : BinderIo :=
  let token := bioGetString16 A (bioGetUint32 A msg).2
  (bioGetString16 A token.2.2).2.2

def decodedHandle (msg : BinderIo) : UInt32 := (bioGetRef A (afterName A msg)).1

def decodedAllow (msg : BinderIo) : Int :=
  if (bioGetUint32 A (bioGetRef A (afterName A msg)).2).1 ≠ 0 then 1 else 0

end

section
variable {A : Abi}

@[simp] theorem bioGet_mem (io : BinderIo) (size : ℕ) : (bioGet A io size).2.mem = io.mem := by
  rw [bioGet]
  split_ifs <;> rfl

@[simp] theorem bioGetUint32_mem (io : BinderIo) : (bioGetUint32 A io).2.mem = io.mem := by
  have h := bioGet_mem (A := A) io 4
  rw [bioGetUint32]
  split <;> simp_all

@[simp] theorem bioGetString16_mem (io : BinderIo) : (bioGetString16 A io).2.2.mem = io.mem := by
  simp [bioGetString16]

inductive Handled (A : Abi) (m : Mem) (p : Manager A) (txn : BinderTransactionData A)
    (msg : BinderIo) : Int × BinderIo × Manager A → Prop
  | untouched {res : Int} {reply : BinderIo} (h : res ≠ 0 ∨ txn.code ≠ svcMgrAddService) :
      Handled A m p txn msg (res,reply,p)
  | added {res : Int} {reply : BinderIo} {p' : Manager A} {s : ℕ → UInt16} {len : ℕ}
      (hcode : txn.code = svcMgrAddService) (hname : units s len = decodedName A msg)
      (hio : Reads A m txn (afterName A msg))
      (hadd : Added p s len (decodedHandle A msg) (decodedAllow A msg) (res,p')) :
      Handled A m p txn msg (res,reply,p')

theorem added_refused {p p' : Manager A} {s : ℕ → UInt16} {len : ℕ} {handle : UInt32}
    {allowIsolated res : Int} (h : Added p s len handle allowIsolated (res,p')) (hz : res ≠ 0) :
    Added p s len handle allowIsolated (-1,p') := by
  cases h with
  | refused reason hl hw hc => exact .refused reason hl hw hc
  | overridden valid hf hl hw hc => exact absurd rfl hz
  | pushed valid hf fresh hl hw hc => exact absurd rfl hz

theorem svcmgrAdd_handled {m : Mem} (p : Manager A) {txn : BinderTransactionData A}
    {msg : BinderIo} (hcode : txn.code = svcMgrAddService) (hr : Reads A m txn msg)
    (reply : BinderIo) : Handled A m p txn msg
      (svcmgrAdd A p txn (bioGetString16 A (bioGetUint32 A msg).2).2.2 reply) := by
  have hio : Reads A m txn (afterName A msg) :=
    reads_stable.string16 (reads_stable.string16 (reads_stable.uint32 hr))
  cases hs : (bioGetString16 A (bioGetString16 A (bioGetUint32 A msg).2).2.2).1 with
  | none =>
    rw [svcmgrAdd,hs]
    exact .untouched (.inl (by decide))
  | some s =>
    have hadd := doAddService_added p (ptrUnits msg.mem s)
      (bioGetString16 A (bioGetString16 A (bioGetUint32 A msg).2).2.2).2.1 (decodedHandle A msg)
      txn.senderEuid (decodedAllow A msg) txn.senderPid
    have hname : units (ptrUnits msg.mem s)
        (bioGetString16 A (bioGetString16 A (bioGetUint32 A msg).2).2.2).2.1 =
          decodedName A msg := by
      simp only [decodedName,hs,Option.getD_some]
    have hout : svcmgrAdd A p txn (bioGetString16 A (bioGetUint32 A msg).2).2.2 reply =
        let out := doAddService p (ptrUnits msg.mem s)
          (bioGetString16 A (bioGetString16 A (bioGetUint32 A msg).2).2.2).2.1
          (decodedHandle A msg) txn.senderEuid (decodedAllow A msg) txn.senderPid
        if out.1 ≠ 0 then (-1,reply,out.2) else (0,bioPutUint32 A reply 0,out.2) := by
      simp only [svcmgrAdd,hs,bioGetString16_mem,bioGetUint32_mem]
      rfl
    rw [hout]
    generalize doAddService p _ _ _ _ _ _ = out at hadd ⊢
    obtain ⟨res,p'⟩ := out
    simp only []
    split_ifs with hz
    · exact .added hcode hname hio (added_refused hadd hz)
    · rw [not_not.mp hz] at hadd
      exact .added hcode hname hio hadd

theorem svcmgrHandler_handled {m : Mem} (p : Manager A) {txn : BinderTransactionData A}
    {msg : BinderIo} (hr : Reads A m txn msg) (reply : BinderIo) :
    Handled A m p txn msg (svcmgrHandler A p txn msg reply) := by
  simp only [svcmgrHandler]
  split_ifs with h1 h2
  · exact .untouched (.inl (by decide))
  · exact .untouched (.inr (by rw [h2]; decide))
  cases ht : (bioGetString16 A (bioGetUint32 A msg).2).1 with
  | none => exact .untouched (.inl (by decide))
  | some token =>
    simp only []
    split_ifs with h3
    · exact .untouched (.inl (by decide))
    rw [svcmgrSwitch]
    split_ifs with h4 h5 h6
    · have hne : txn.code ≠ svcMgrAddService := by
        rcases h4 with h | h <;> rw [h] <;> decide
      rw [svcmgrGet]
      split
      · exact .untouched (.inr hne)
      · simp only []
        split_ifs <;> exact .untouched (.inr hne)
    · exact svcmgrAdd_handled p h5 hr reply
    · have hne : txn.code ≠ svcMgrAddService := by rw [h6]; decide
      rw [svcmgrList]
      simp only [svcCanList,checkMacPerms,Bool.not_true,Bool.false_eq_true,if_false]
      split <;> exact .untouched (.inr hne)
    · exact .untouched (.inr h5)

end

end Servicemanager
