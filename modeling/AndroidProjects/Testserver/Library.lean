import AndroidProjects.Testserver.Messages

namespace Testserver
open Binder ByteMemory Unicode

-- libutils and libbinder: a Parcel is its data, read or written in order
structure AndroidLibrary (A : Abi) where
  string16 : List UInt8 → List UInt16
  string8 : List UInt16 → List UInt8
  writeInt32 : List UInt8 → Int32 → List UInt8
  writeString16 : List UInt8 → List UInt16 → List UInt8
  readInt32 : List UInt8 → Int32 × List UInt8
  readString16 : List UInt8 → List UInt16 × List UInt8
  transact : UInt32 → UInt32 → List UInt8 → Outgoing
  sendReply : Int32 → List UInt8 → Outgoing
  received : Mem → BinderTransactionData A → List UInt8
  onTransact : UInt32 → List UInt8 → List UInt8 → Int32 × List UInt8

structure Documented {A : Abi} (lib : AndroidLibrary A) : Prop where
  string16_utf8 : ∀ cs : List Char, '\x00' ∉ cs → lib.string16 (utf8 cs) = utf16 cs
  string8_utf16 : ∀ cs : List Char, lib.string8 (utf16 cs) = utf8 cs
  writeInt32_data : ∀ data n, lib.writeInt32 data n = data ++ leBytes 4 n.toUInt32.toNat
  writeString16_data : ∀ data us, us.length < 2 ^ 30 → ∃ pad : List UInt8,
    pad.length = unitPadding us.length ∧ lib.writeString16 data us = data ++ stringData us pad
  readInt32_data : ∀ (n : Int32) data, lib.readInt32 (leBytes 4 n.toUInt32.toNat ++ data) = (n,data)
  readString16_data : ∀ us pad data, us.length < 2 ^ 30 → pad.length = unitPadding us.length →
    lib.readString16 (stringData us pad ++ data) = (us,data)
  transact_sent : ∀ handle code data, (lib.transact handle code data).code = code ∧
    (lib.transact handle code data).flags &&& tfStatusCode = 0 ∧
    (lib.transact handle code data).data = data ∧ (lib.transact handle code data).offsets = []
  sendReply_sent : ∀ data, (lib.sendReply 0 data).flags &&& tfStatusCode = 0 ∧
    (lib.sendReply 0 data).data = data ∧ (lib.sendReply 0 data).offsets = []
  received_data : ∀ out handles m txn, Delivered A out handles m txn → out.offsets = [] →
    txn.flags &&& tfStatusCode = 0 → A.sizeT.wrap txn.buffer.toNat = txn.buffer.toNat →
    lib.received m txn = out.data

def goodbyeSvrCmdSaygoodbye : UInt32 := 0

def goodbyeSvrCmdSaygoodbyeTo : UInt32 := 1

section
variable {A : Abi} {σ : Type} (lib : AndroidLibrary A)

def bnOnTransact (cmdSay cmdSayTo : UInt32) (impl : Implementation σ) (code : UInt32)
    (data reply : List UInt8) (s : σ) : Int32 × List UInt8 × σ :=
  if code = cmdSay then (0,reply,impl.say s)
  else if code = cmdSayTo then
    let policy := lib.readInt32 data
    let name16 := lib.readString16 policy.2
    let name8 := lib.string8 name16.1
    let out := impl.sayTo (cString name8) s
    (0,lib.writeInt32 reply out.1,out.2)
  else
    let out := lib.onTransact code data reply
    (out.1,out.2,s)

def bnHelloServiceOnTransact : Implementation σ → UInt32 → List UInt8 → List UInt8 → σ →
    Int32 × List UInt8 × σ := bnOnTransact lib helloSvrCmdSayhello helloSvrCmdSayhelloTo

def bnGoodbyeServiceOnTransact : Implementation σ → UInt32 → List UInt8 → List UInt8 → σ →
    Int32 × List UInt8 × σ := bnOnTransact lib goodbyeSvrCmdSaygoodbye goodbyeSvrCmdSaygoodbyeTo

def bpSayTo (cmdSayTo remote : UInt32) (name : List UInt8) : Outgoing :=
  let data := lib.writeInt32 [] 0
  let data := lib.writeString16 data (lib.string16 name)
  lib.transact remote cmdSayTo data

def bpHelloServiceSayhelloTo : UInt32 → List UInt8 → Outgoing :=
  bpSayTo lib helloSvrCmdSayhelloTo

def bpGoodbyeServiceSaygoodbyeTo : UInt32 → List UInt8 → Outgoing :=
  bpSayTo lib goodbyeSvrCmdSaygoodbyeTo

-- return reply.readInt32()
def bpReturned (m : Mem) (txn : BinderTransactionData A) : Int32 :=
  (lib.readInt32 (lib.received m txn)).1

variable {lib} (h : Documented lib)
include h

theorem bpSayTo_message {cs : List Char} (hzero : '\x00' ∉ cs) (hfit : FitsIodata A (utf8 cs))
    (cmdSayTo remote : UInt32) :
    StringMessage (utf16 cs) (bpSayTo lib cmdSayTo remote (utf8 cs)) := by
  have hlt := (utf16_length_le cs).trans_lt (fitsIodata_short hfit)
  obtain ⟨-,hflags,hdata,hoffs⟩ := h.transact_sent remote cmdSayTo
    (lib.writeString16 (lib.writeInt32 [] 0) (lib.string16 (utf8 cs)))
  refine ⟨hoffs,hflags,?_⟩
  obtain ⟨pad,hpad,hwrite⟩ := h.writeString16_data (lib.writeInt32 [] 0) (utf16 cs)
    (hlt.trans (by decide))
  rw [h.writeInt32_data,List.nil_append] at hwrite
  refine ⟨pad,hpad,hdata.trans ?_⟩
  rw [h.string16_utf8 cs hzero,h.writeInt32_data,List.nil_append]
  exact hwrite

section
variable {m : Mem} {txn : BinderTransactionData A} {out : Outgoing} {handles : ℕ → UInt32}
  (hd : Delivered A out handles m txn) (hflags : txn.flags = out.flags)
  (hbuffer : A.sizeT.wrap txn.buffer.toNat = txn.buffer.toNat)
include hd hflags hbuffer

theorem bnOnTransact_hears_policy (policy : Int32) {us : List UInt16} {pad : List UInt8}
    (hoffs : out.offsets = []) (hclear : out.flags &&& tfStatusCode = 0)
    (hpad : pad.length = unitPadding us.length)
    (hdata : out.data = leBytes 4 policy.toUInt32.toNat ++ stringData us pad)
    (hlen : us.length < 512)
    {cmdSay cmdSayTo : UInt32} (hsay : txn.code ≠ cmdSay) (hsayTo : txn.code = cmdSayTo)
    (impl : Implementation σ) (s : σ) :
    let heard := impl.sayTo (cString (lib.string8 us)) s
    bnOnTransact lib cmdSay cmdSayTo impl txn.code (lib.received m txn) [] s =
      (0,leBytes 4 heard.1.toUInt32.toNat,heard.2) := by
  intro heard
  have hin := h.received_data out handles m txn hd hoffs (hflags ▸ hclear) hbuffer
  have hpolicy := h.readInt32_data policy (stringData us pad)
  have hstring := h.readString16_data us pad [] (hlen.trans (by decide)) hpad
  rw [List.append_nil] at hstring
  have hread : lib.readInt32 (lib.received m txn) = (policy,stringData us pad) := by
    rw [hin,hdata]
    exact hpolicy
  rw [bnOnTransact,if_neg hsay,if_pos hsayTo]
  simp only [hread,hstring,h.writeInt32_data,List.nil_append]
  rfl

theorem bpReturned_word {n : Int32} {rest : List UInt8} (hoffs : out.offsets = [])
    (hclear : out.flags &&& tfStatusCode = 0)
    (hdata : out.data = leBytes 4 n.toUInt32.toNat ++ rest) : bpReturned lib m txn = n := by
  have hin := h.received_data out handles m txn hd hoffs (hflags ▸ hclear) hbuffer
  rw [bpReturned,hin,hdata,h.readInt32_data n rest]

end

theorem sendReply_count (n : Int32) :
    CountMessage n (lib.sendReply 0 (leBytes 4 n.toUInt32.toNat)) := by
  obtain ⟨hflags,hdata,hoffs⟩ := h.sendReply_sent (leBytes 4 n.toUInt32.toNat)
  exact ⟨hoffs,hflags,hdata⟩

end

def tfAcceptFds : UInt32 := 0x10

def unknownTransaction : Int32 := -74

def parcelMem (data : List UInt8) : Mem := write (fun _ => 0) 0 data

def referenceLibrary (A : Abi) : AndroidLibrary A where
  string16 bytes := utf16 (decodeUtf8 bytes)
  string8 us := utf8 (decodeUtf16 us)
  writeInt32 data n := data ++ leBytes 4 n.toUInt32.toNat
  writeString16 data us := data ++ stringData us (List.replicate (unitPadding us.length) 0)
  readInt32 data := ((load32 (parcelMem data) 0).toInt32,data.drop 4)
  readString16 data :=
    let len := (load32 (parcelMem data) 0).toNat
    (loadUnits (parcelMem data) 4 len,data.drop (4 + (2 * (len + 1) + 3) / 4 * 4))
  transact handle code data := ⟨handle,code,tfAcceptFds,data,[]⟩
  sendReply status data :=
    if status = 0 then ⟨0,0,0,data,[]⟩ else statusReply status.toInt
  received m txn := slice m txn.buffer.toNat txn.dataSize.toNat
  onTransact _ _ reply := (unknownTransaction,reply)

section
variable (A : Abi)

theorem reference_readString16 (us : List UInt16) (pad data : List UInt8)
    (hlen : us.length < 2 ^ 30) (hpad : pad.length = unitPadding us.length) :
    (referenceLibrary A).readString16 (stringData us pad ++ data) = (us,data) := by
  have hs : slice (parcelMem (stringData us pad ++ data)) 0 (stringData us pad ++ data).length =
      stringData us pad ++ data := slice_write _ _ _
  obtain ⟨hstring,-⟩ := slice_split hs
  have hcount : (UInt32.ofNat us.length).toNat = us.length :=
    UInt32.toNat_ofNat_of_lt' (hlen.trans (by decide))
  have hterm : unitBytes (us ++ [0]) = unitBytes us ++ unitBytes [0] := List.flatMap_append
  have hdrop : (stringData us pad ++ data).drop (4 + (2 * (us.length + 1) + 3) / 4 * 4) = data := by
    rw [← stringData_length us hpad]
    exact List.drop_left
  simp only [referenceLibrary]
  generalize parcelMem (stringData us pad ++ data) = m at hstring
  rw [stringData,hterm] at hstring
  obtain ⟨hfirst,hrest⟩ := slice_split hstring
  obtain ⟨hunits,-⟩ := slice_split hrest
  obtain ⟨hbody,-⟩ := slice_split hunits
  rw [leBytes_length] at hfirst hbody
  have hload : load32 m 0 = UInt32.ofNat us.length :=
    load32_of_slice (by rw [hcount]; exact hfirst)
  rw [hload,hcount,hdrop]
  exact congrArg (·,data) (loadUnits_of_slice hbody)

theorem reference_readInt32 (n : Int32) (data : List UInt8) :
    (referenceLibrary A).readInt32 (leBytes 4 n.toUInt32.toNat ++ data) = (n,data) := by
  have hs : slice (parcelMem (leBytes 4 n.toUInt32.toNat ++ data)) 0
      (leBytes 4 n.toUInt32.toNat ++ data).length = leBytes 4 n.toUInt32.toNat ++ data :=
    slice_write _ _ _
  obtain ⟨hfirst,-⟩ := slice_split hs
  rw [leBytes_length] at hfirst
  have hload := load32_of_slice hfirst
  have hdrop : (leBytes 4 n.toUInt32.toNat ++ data).drop 4 = data :=
    (congrArg (fun k => List.drop k (leBytes 4 n.toUInt32.toNat ++ data))
      (leBytes_length 4 n.toUInt32.toNat).symm).trans List.drop_left
  simp only [referenceLibrary,hload,hdrop]
  exact congrArg (·,data) (Int32.toInt32_toUInt32 n)

theorem reference_documented : Documented (referenceLibrary A) where
  string16_utf8 cs _ := congrArg utf16 (decodeUtf8_utf8 cs)
  string8_utf16 cs := congrArg utf8 (decodeUtf16_utf16 cs)
  writeInt32_data _ _ := rfl
  writeString16_data data us _ := ⟨List.replicate (unitPadding us.length) 0,
    List.length_replicate,rfl⟩
  readInt32_data := reference_readInt32 A
  readString16_data := reference_readString16 A
  transact_sent _ _ _ := by
    have hclear : tfAcceptFds &&& tfStatusCode = 0 := by decide
    exact ⟨rfl,hclear,rfl,rfl⟩
  sendReply_sent _ := ⟨noStatus,rfl,rfl⟩
  received_data out handles m txn hd hoffs _ _ := by
    have hslice := delivered_slice hd hoffs
    rw [← hd.dataSize] at hslice
    exact hslice

end

end Testserver
