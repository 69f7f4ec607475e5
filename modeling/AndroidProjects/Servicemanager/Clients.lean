import AndroidProjects.Binder.RoundTrip
import AndroidProjects.Binder.Transport
import AndroidProjects.Servicemanager.Handler

namespace Servicemanager
open Binder ByteMemory Layout

structure CName where
  chars : List UInt8
  nonzero : (0 : UInt8) ∉ chars
  deriving DecidableEq

structure Frame where
  mem : Mem
  iodata : ℕ
  msg : BinderIo
  reply : BinderIo

def svcMgrName : List UInt8 :=
  ['a','n','d','r','o','i','d','.','o','s','.',
   'I','S','e','r','v','i','c','e','M','a','n','a','g','e','r'].map fun c => UInt8.ofNat c.toNat

section
variable (A : Abi)

def lookupMsg (f : Frame) (name : CName) : BinderIo :=
  let msg := bioInit A f.msg f.mem f.iodata 512 4
  let msg := bioPutUint32 A msg 0
  let msg := bioPutString16X A msg (some svcMgrName)
  bioPutString16X A msg (some name.chars)

def publishMsg (f : Frame) (name : CName) (ptr : A.Uintptr) : BinderIo :=
  let msg := bioInit A f.msg f.mem f.iodata 512 4
  let msg := bioPutUint32 A msg 0
  let msg := bioPutString16X A msg (some svcMgrName)
  let msg := bioPutString16X A msg (some name.chars)
  bioPutObj A msg ptr

end

section
variable {A : Abi} {σ : Type}

def svcmgrPublish (V : Server A σ) (p : Proc A σ) (f : Frame) (target : UInt32) (name : CName)
    (ptr : A.Uintptr) (rounds : List CallRound) : Option (Int × Proc A σ) :=
  match binderCall V p (publishMsg A f name ptr) f.reply target svcMgrAddService rounds with
  | none => none
  | some (res,reply,p) =>
    if res ≠ 0 then some (-1,p)
    else
      let status := bioGetUint32 A reply
      some (status.1.toInt32.toInt,(binderDone p status.2).2)

def svcmgrLookup (V : Server A σ) (p : Proc A σ) (f : Frame) (target : UInt32) (name : CName)
    (rounds : List CallRound) : Option (UInt32 × Proc A σ) :=
  match binderCall V p (lookupMsg A f name) f.reply target svcMgrCheckService rounds with
  | none => none
  | some (res,reply,p) =>
    if res ≠ 0 then some (0,p)
    else
      let handle := bioGetRef A reply
      let p := if handle.1 ≠ 0 then binderAcquire p handle.1 else p
      some (handle.1,(binderDone p handle.2).2)

theorem svcmgrPublish_overflow {V : Server A σ} {f : Frame} {target : UInt32} {name : CName}
    {ptr : A.Uintptr} (h : callSent (publishMsg A f name ptr) target svcMgrAddService = none)
    (p : Proc A σ) (rounds : List CallRound) :
    svcmgrPublish V p f target name ptr rounds = some (-1,p) := by
  have hover := callSent_none h
  rw [svcmgrPublish,binderCall_overflow V hover]
  rfl

theorem svcmgrLookup_overflow {V : Server A σ} {f : Frame} {target : UInt32} {name : CName}
    (h : callSent (lookupMsg A f name) target svcMgrCheckService = none) (p : Proc A σ)
    (rounds : List CallRound) : svcmgrLookup V p f target name rounds = some (0,p) := by
  have hover := callSent_none h
  rw [svcmgrLookup,binderCall_overflow V hover]
  rfl

section
variable {waits : List (Delivery A)} {δ : Delivery A} {txn : BinderTransactionData A}
  (hwaits : ∀ w ∈ waits, ∀ c ∈ w.cmds, c.quiet = true) (hread : Surrounded δ.cmds (.reply txn))
  {out : Outgoing} {f : Frame} {target : UInt32} {name : CName}
include hwaits hread

theorem svcmgrPublish_replied {ptr : A.Uintptr}
    (h : callSent (publishMsg A f name ptr) target svcMgrAddService = some out) (V : Server A σ)
    (p : Proc A σ) : ∃ p', svcmgrPublish V p f target name ptr (waitRounds waits δ) =
      some ((bioGetUint32 A (bioInitFromTxn A δ.mem txn)).1.toInt32.toInt,p') := by
  obtain ⟨n,hcall⟩ := binderCall_replied V hwaits hread h p f.reply
  rw [svcmgrPublish,hcall]
  exact ⟨_,rfl⟩

theorem svcmgrLookup_replied
    (h : callSent (lookupMsg A f name) target svcMgrCheckService = some out)
    (V : Server A σ) (p : Proc A σ) :
    ∃ p', svcmgrLookup V p f target name (waitRounds waits δ) =
      some ((bioGetRef A (bioInitFromTxn A δ.mem txn)).1,p') := by
  obtain ⟨n,hcall⟩ := binderCall_replied V hwaits hread h p f.reply
  rw [svcmgrLookup,hcall]
  exact ⟨_,rfl⟩

end

section
variable {V : Server A σ} (hdeath : ∀ ptr q, submissions (V.death ptr q) = submissions q)
  {f : Frame} {target : UInt32} {name : CName} {out : Outgoing} {r : CallRound}
  (hr : r.consumes = true) {rest : List CallRound} {p p' : Proc A σ}
include hdeath hr

theorem svcmgrPublish_submits {ptr : A.Uintptr} {res : Int}
    (hsent : callSent (publishMsg A f name ptr) target svcMgrAddService = some out)
    (h : svcmgrPublish V p f target name ptr (r :: rest) = some (res,p')) :
    submissions p' = submissions p ++ [out] := by
  rw [svcmgrPublish] at h
  split at h
  · cases h
  · rename_i n reply q hcall
    have hq := binderCall_submissions hdeath hsent hr hcall
    split_ifs at h
    · simp only [Option.some.injEq,Prod.mk.injEq] at h
      exact h.2 ▸ hq
    · simp only [Option.some.injEq,Prod.mk.injEq] at h
      rw [← h.2,binderDone_submissions]
      exact hq

theorem svcmgrLookup_submits {k : UInt32}
    (hsent : callSent (lookupMsg A f name) target svcMgrCheckService = some out)
    (h : svcmgrLookup V p f target name (r :: rest) = some (k,p')) :
    submissions p' = submissions p ++ [out] := by
  rw [svcmgrLookup] at h
  split at h
  · cases h
  · rename_i n reply q hcall
    have hq := binderCall_submissions hdeath hsent hr hcall
    have hacquire : submissions (binderAcquire q (bioGetRef A reply).1) = submissions q :=
      List.filterMap_append.trans (List.append_nil _)
    split_ifs at h
    · simp only [Option.some.injEq,Prod.mk.injEq] at h
      exact h.2 ▸ hq
    · simp only [Option.some.injEq,Prod.mk.injEq] at h
      rw [← h.2,binderDone_submissions]
      split_ifs
      · exact hacquire.trans hq
      · exact hq

end

-- text is what the addresses of the process's functions hold
def testServerHandler (text : A.Uintptr → BinderHandler A σ) : BinderHandler A σ :=
  fun p txn msg reply => text (txn.target.setWidth _) p txn msg reply

def wide (chars : List UInt8) : List UInt16 := chars.map UInt8.toUInt16

@[simp] theorem wide_length (chars : List UInt8) : (wide chars).length = chars.length :=
  List.length_map _

theorem wide_inj {xs ys : List UInt8} (h : wide xs = wide ys) : xs = ys := by
  refine List.map_injective_iff.mpr (fun a b hab => ?_) h
  have hn := congrArg UInt16.toNat hab
  exact UInt8.toNat_inj.mp (by simpa using hn)

def nameItems (chars : List UInt8) : List (Item A) :=
  if chars.length < maxBioSize / 2 then Value.stringItems (wide chars) else [.uint32 0xffffffff]

def lookupItems (name : CName) : List (Item A) :=
  (.uint32 0 :: Value.stringItems svcmgrId) ++ nameItems name.chars

theorem nameItems_valid (chars : List UInt8) : ∀ v ∈ nameItems (A := A) chars, v.Valid := by
  intro v hv
  rw [nameItems] at hv
  split_ifs at hv with hlen
  · rcases List.mem_cons.mp hv with rfl | hv
    · trivial
    · refine List.mem_singleton.mp hv ▸ ?_
      simpa only [Item.Valid,wide_length] using hlen
  · exact List.mem_singleton.mp hv ▸ trivial

theorem lookupItems_valid (name : CName) : ∀ v ∈ lookupItems (A := A) name, v.Valid := by
  intro v hv
  rcases List.mem_append.mp hv with hv | hv
  · rcases List.mem_cons.mp hv with rfl | hv
    · trivial
    · rcases List.mem_cons.mp hv with rfl | hv
      · trivial
      · refine List.mem_singleton.mp hv ▸ ?_
        change svcmgrId.length < maxBioSize / 2
        decide
  · exact nameItems_valid name.chars v hv

theorem publishItems_valid (name : CName) (ptr : A.Uintptr) :
    ∀ v ∈ lookupItems (A := A) name ++ [.object (.binder ptr)], v.Valid := by
  intro v hv
  rcases List.mem_append.mp hv with hv | hv
  · exact lookupItems_valid name v hv
  · exact List.mem_singleton.mp hv ▸ trivial

theorem lookupItems_noObject (name : CName) :
    (lookupItems (A := A) name).countP Item.isObject = 0 := by
  have hname : (nameItems (A := A) name.chars).countP Item.isObject = 0 := by
    rw [nameItems]
    split_ifs <;> rfl
  rw [lookupItems,List.countP_append,hname]
  rfl

theorem bioPutString16X_items (io : BinderIo) {chars : List UInt8} (h : (0 : UInt8) ∉ chars) :
    bioPutString16X A io (some chars) = putAll io (nameItems (A := A) chars) := by
  have hlen : strlen chars = chars.length := congrArg List.length (takeWhile_nonzero h)
  simp only [bioPutString16X,nameItems,hlen]
  by_cases hlong : chars.length ≥ maxBioSize / 2
  · rw [if_pos hlong,if_neg (Nat.not_lt.mpr hlong)]
    rfl
  · rw [if_neg hlong,if_pos (Nat.not_le.mp hlong),List.take_length,Value.stringItems,wide_length]
    rfl

theorem lookupMsg_items (f : Frame) (name : CName) :
    lookupMsg A f name =
      putAll (bioInit A f.msg f.mem f.iodata 512 4) (lookupItems (A := A) name) := by
  have hwide : wide svcMgrName = svcmgrId := by decide
  have hshort : svcMgrName.length < maxBioSize / 2 := by decide
  have htoken : nameItems (A := A) svcMgrName = Value.stringItems svcmgrId := by
    rw [nameItems,if_pos hshort,hwide]
  have hnul : (0 : UInt8) ∉ svcMgrName := by decide
  simp only [lookupMsg]
  rw [bioPutString16X_items _ name.nonzero,bioPutString16X_items _ hnul,htoken,lookupItems,
    putAll,putAll,putAll,List.foldl_append]
  rfl

theorem publishMsg_items (f : Frame) (name : CName) (ptr : A.Uintptr) :
    publishMsg A f name ptr = putAll (bioInit A f.msg f.mem f.iodata 512 4)
      (lookupItems name ++ [.object (.binder ptr)]) := by
  have hmsg : publishMsg A f name ptr = bioPutObj A (lookupMsg A f name) ptr := rfl
  rw [hmsg,lookupMsg_items,putAll,putAll,List.foldl_append]
  rfl

structure Blank (A : Abi) (size : ℕ) (start : BinderIo) : Prop where
  wrote : Wrote A start start []
  roomy : Roomy A start 1
  small : start.dataAvail < 2 ^ 32
  large : size - 32 ≤ start.dataAvail
  slots : start.offsAvail = 4
  clear : ¬ start.overflow

theorem bioInit_blank (io : BinderIo) (m : Mem) (data : ℕ) {size : ℕ} (h : 32 ≤ size)
    (hmax : size < 2 ^ 32) : Blank A size (bioInit A io m data size 4) := by
  have hm := A.sizeT.modulus_ge
  have hcases : A.sizeT.bytes = 4 ∨ A.sizeT.bytes = 8 := by
    cases A.sizeT
    · exact .inl rfl
    · exact .inr rfl
  have hb := A.binderSizeT.bytes_le_eight
  have hwrap := A.sizeT.wrap_four
  have haccept : ¬ 4 * A.sizeT.bytes > size := by omega
  have hwrote : Wrote A (bioInit A io m data size 4) (bioInit A io m data size 4) [] :=
    bioInit_wrote io m (by omega)
  rw [bioInit,hwrap,if_neg haccept] at hwrote ⊢
  refine ⟨hwrote,?_,?_,?_,rfl,BinderIo.clear_of_zero rfl⟩
  · change data + A.binderSizeT.bytes * 1 ≤ data + 4 * A.sizeT.bytes
    omega
  · change size - 4 * A.sizeT.bytes < 2 ^ 32
    omega
  · change size - 32 ≤ size - 4 * A.sizeT.bytes
    omega

theorem iodata_blank (A : Abi) (f : Frame) : Blank A 512 (bioInit A f.msg f.mem f.iodata 512 4) :=
  bioInit_blank f.msg f.mem f.iodata (by omega) (by omega)

section
variable {size : ℕ} {start : BinderIo} (hb : Blank A size start) {vs : List (Item A)}
  (hvalid : ∀ v ∈ vs, v.Valid)
include hb hvalid

theorem blank_wrote (hone : vs.countP Item.isObject ≤ 1) :
    (putAll start vs).overflow ∨ Wrote A start (putAll start vs) vs := by
  have hsmall := hb.small
  have hm := A.binderSizeT.modulus_ge
  exact putAll_wrote hb.wrote hvalid (hb.roomy.mono hone) (by omega)

theorem blank_fits (hone : vs.countP Item.isObject ≤ 1) (hfit : extent Item.size vs ≤ size - 32) :
    ¬ (putAll start vs).overflow := by
  have hlarge := hb.large
  have hslots := hb.slots
  exact putAll_fits hb.clear hvalid (by omega) (by omega)

end

theorem stringItems_extent {us : List UInt16} (h : us.length < maxBioSize / 2) :
    extent Item.size (Value.stringItems (A := A) us) = 4 + (2 * (us.length + 1) + 3) / 4 * 4 := by
  have hsize : (Item.units us : Item A).size = (2 * (us.length + 1) + 3) / 4 * 4 := by
    rw [Item.size,sizeofUnits_eq h,roundUp_of_lt (by simp only [maxBioSize] at h; omega)]
  rw [Value.stringItems,extent_cons,extent_cons,hsize]
  rfl

theorem publishItems_fit {name : CName} (h : name.chars.length ≤ 127) (ptr : A.Uintptr) :
    extent Item.size (lookupItems name ++ [.object (.binder ptr)]) ≤ 512 - 32 := by
  have hobj : (Item.object (.binder ptr) : Item A).size ≤ 24 := by
    rcases sizeofFlatBinderObject_cases A with hs | hs <;> simp only [Item.size,hs] <;> omega
  have hid : svcmgrId.length = 26 := by decide
  have htoken : extent Item.size (Value.stringItems (A := A) svcmgrId) = 60 := by
    rw [stringItems_extent (by rw [hid]; decide),hid]
  have hshort : name.chars.length < maxBioSize / 2 := by
    simp only [maxBioSize]
    omega
  have hname : extent Item.size (nameItems (A := A) name.chars) ≤ 260 := by
    rw [nameItems,if_pos hshort,stringItems_extent (by rwa [wide_length]),wide_length]
    omega
  have hzero : (Item.uint32 0 : Item A).size = 4 := rfl
  rw [extent_append,lookupItems,extent_append,extent_cons,extent_cons,extent_nil,htoken,hzero]
  omega

end

end Servicemanager
