import AndroidProjects.Binder.Transport

namespace Binder
open ByteMemory

-- one message on its way through the driver, as the receiving thread reads it
structure Carried (A : Abi) (sent : Outgoing) (c : BinderTransactionData A → BinderReturn A) where
  read : Delivery A
  txn : BinderTransactionData A
  handles : ℕ → UInt32
  surrounded : Surrounded read.cmds (c txn)
  code : txn.code = sent.code
  flags : txn.flags = sent.flags
  delivered : Delivered A sent handles read.mem txn
  buffer : A.sizeT.wrap txn.buffer.toNat = txn.buffer.toNat
  offsets : A.sizeT.wrap txn.offsets.toNat = txn.offsets.toNat

structure Relay (A : Abi) (sent : Outgoing) where
  carried : Carried A sent .reply
  waits : List (Delivery A)
  quiet : ∀ w ∈ waits, ∀ c ∈ w.cmds, c.quiet = true

def Relay.rounds {A : Abi} {sent : Outgoing} (relay : Relay A sent) : List CallRound :=
  waitRounds relay.waits relay.carried.read

section
variable {A : Abi}

theorem Relay.called {σ : Type} {sent : Outgoing} (relay : Relay A sent) (V : Server A σ)
    (p : Proc A σ) {msg : BinderIo} (h : ¬ msg.overflow) (reply : BinderIo)
    (target code : UInt32) : ∃ p', binderCall V p msg reply target code relay.rounds =
      some (0,bioInitFromTxn A relay.carried.read.mem relay.carried.txn,p') := by
  have hsent : callSent msg target code = some (callTransaction msg target code) := if_neg h
  obtain ⟨n,hcall⟩ := binderCall_replied V relay.quiet relay.carried.surrounded hsent p reply
  exact ⟨_,hcall⟩

def plainTxn (A : Abi) (target : A.BinderUintptr) (sent : Outgoing) : BinderTransactionData A where
  target := target
  cookie := 0
  code := sent.code
  flags := sent.flags
  senderPid := 0
  senderEuid := 0
  dataSize := BitVec.ofNat _ sent.data.length
  offsetsSize := 0
  buffer := BitVec.ofNat _ 1024
  offsets := 0

theorem payload_small (cmd : BinderReturn A) : cmd.payload.length ≤ 64 := by
  have hb := A.binderSizeT.bytes_le_eight
  have htxn : A.sizeofBinderTransactionData ≤ 64 := by
    rw [Abi.sizeofBinderTransactionData]
    omega
  have hcookie : A.sizeofBinderPtrCookie ≤ 64 := by
    rw [Abi.sizeofBinderPtrCookie]
    omega
  cases cmd with
  | increfs ptr cookie => exact (BinderReturn.ptrCookie_length ptr cookie).trans_le hcookie
  | acquire ptr cookie => exact (BinderReturn.ptrCookie_length ptr cookie).trans_le hcookie
  | release ptr cookie => exact (BinderReturn.ptrCookie_length ptr cookie).trans_le hcookie
  | decrefs ptr cookie => exact (BinderReturn.ptrCookie_length ptr cookie).trans_le hcookie
  | transaction txn => exact txn.encode_length.trans_le htxn
  | reply txn => exact txn.encode_length.trans_le htxn
  | deadBinder cookie => exact (leBytes_length _ _).trans_le (by omega)
  | _ => exact Nat.zero_le 64

theorem encode_small (cmd : BinderReturn A) : (BinderReturn.encodeAll [cmd]).length ≤ 68 := by
  have hp := payload_small cmd
  rw [BinderReturn.encodeAll,List.flatMap_singleton,BinderReturn.encode_length]
  omega

theorem one_command_fits (cmd : BinderReturn A) :
    (BinderReturn.encodeAll [cmd]).length < A.sizeT.modulus := by
  have hm := A.sizeT.modulus_ge
  exact (encode_small cmd).trans_lt (by omega)

def plainRead (sent : Outgoing) (cmd : BinderReturn A) : Delivery A where
  base := write (fun _ => 0) 1024 sent.data
  ptr := 0
  cmds := [cmd]
  rdata := fun _ _ => 0
  fits := one_command_fits cmd

theorem plain_delivered {sent : Outgoing} (hoffs : sent.offsets = [])
    (hlen : sent.data.length < 2 ^ 32) (target : A.BinderUintptr) (cmd : BinderReturn A) :
    Delivered A sent (fun _ => 0) (plainRead sent cmd).mem (plainTxn A target sent) := by
  have hm := A.binderSizeT.modulus_ge
  have htable : objectTable A sent = [] := by
    rw [objectTable,hoffs]
    simp
  have hbuffer : (plainTxn A target sent).buffer.toNat = 1024 := by
    rw [plainTxn,BitVec.toNat_ofNat,Nat.pow_mul]
    exact Nat.mod_eq_of_lt (lt_of_lt_of_le (by decide) hm)
  refine ⟨?_,?_,?_,?_,?_⟩
  · rw [plainTxn,BitVec.toNat_ofNat,Nat.pow_mul]
    exact Nat.mod_eq_of_lt (hlen.trans_le hm)
  · rw [hoffs]
    rfl
  · rw [hoffs]
    rfl
  · intro x b hx _
    have hlt := (List.getElem?_eq_some_iff.mp hx).1
    have hsmall := encode_small cmd
    rw [hbuffer,Delivery.mem,write_apply_of_le _ (by simp only [plainRead]; omega)]
    have hcopy := write_apply (fun _ => 0) (a := 1024) hlt
    exact Option.some.inj (hcopy.symm.trans hx)
  · intro n off hn
    rw [htable] at hn
    cases hn

def carryPlain (c : BinderTransactionData A → BinderReturn A) (target : A.BinderUintptr)
    (sent : Outgoing) (hoffs : sent.offsets = []) (hlen : sent.data.length < 2 ^ 32) :
    Carried A sent c where
  read := plainRead sent (c (plainTxn A target sent))
  txn := plainTxn A target sent
  handles := fun _ => 0
  surrounded := ⟨[],[],rfl,fun _ hu => absurd hu List.not_mem_nil,
    fun _ hv => absurd hv List.not_mem_nil⟩
  code := rfl
  flags := rfl
  delivered := plain_delivered hoffs hlen target _
  buffer := by
    have hm := A.sizeT.modulus_ge
    have hle : (plainTxn A target sent).buffer.toNat ≤ 1024 := by
      rw [plainTxn,BitVec.toNat_ofNat]
      exact Nat.mod_le _ _
    exact Word.wrap_of_lt (by omega)
  offsets := Word.wrap_of_lt (Nat.pow_pos (by decide))

def relayPlain (sent : Outgoing) (hoffs : sent.offsets = []) (hlen : sent.data.length < 2 ^ 32) :
    Relay A sent where
  carried := carryPlain .reply 0 sent hoffs hlen
  waits := []
  quiet := fun _ hw => absurd hw List.not_mem_nil

end

end Binder
