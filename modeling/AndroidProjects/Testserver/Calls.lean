import AndroidProjects.Binder.Outcomes
import AndroidProjects.Testserver.Client
import AndroidProjects.Testserver.Counter
import AndroidProjects.Testserver.Pairings

namespace Testserver
open Binder ByteMemory Layout Machine Servicemanager

inductive NativeCall (A : Abi) where
  | say
  | sayTo (name : ClientName A)

def NativeCall.isSayTo {A : Abi} : NativeCall A → Bool
  | .say => false
  | .sayTo _ => true

section
variable {A : Abi} {σ : Type} (lib : AndroidLibrary A)

def bpSay (cmdSay remote : UInt32) : Outgoing := lib.transact remote cmdSay (lib.writeInt32 [] 0)

def bpHelloServiceSayhello : UInt32 → Outgoing := bpSay lib helloSvrCmdSayhello

def bpGoodbyeServiceSaygoodbye : UInt32 → Outgoing := bpSay lib goodbyeSvrCmdSaygoodbye

namespace Service

def cmdSay : Service → UInt32
  | hello => helloSvrCmdSayhello
  | goodbye => helloSvrCmdSaygoodbye

def transactSay : Service → UInt32 → Outgoing
  | hello => bpHelloServiceSayhello lib
  | goodbye => bpGoodbyeServiceSaygoodbye lib

theorem cmdSay_eq (service : Service) : service.cmdSay = 0 := by cases service <;> rfl

theorem transactSay_eq (service : Service) : service.transactSay lib = bpSay lib 0 := by
  cases service <;> rfl

end Service

namespace NativeCall

def sent (service : Service) (client : Language) (f : Frame) (handle : UInt32) :
    NativeCall A → Outgoing
  | .say =>
    match client with
    | .c => callTransaction (sayMsg A f) handle service.cmdSay
    | .cpp => service.transactSay lib handle
  | .sayTo name => requestSent lib service client f handle name.bytes

-- say has no result
def returned (service : Service) (client : Language) (V : Server A Unit) (q : Proc A Unit)
    (f : Frame) (handle : UInt32) {out : Outgoing} (relay : Relay A out) : NativeCall A → Option Int32
  | .say => none
  | .sayTo name => Testserver.returned lib service client V q f handle name.bytes relay

def direct (server : Language) (impl : Implementation σ) (client : Language) (s : σ) :
    NativeCall A → Option Int32 × σ
  | .say => (none,impl.say s)
  | .sayTo name =>
    let out := impl.sayTo (hears lib server (unitsOf client name.chars)) s
    (some out.1,out.2)

end NativeCall

def NativeCalled (service : Service) (server : Language) (impl : Implementation σ) (handle : UInt32)
    (s : σ) (c : Language × NativeCall A) (count : Option Int32) (s' : σ) : Prop :=
  ∃ (f : Frame) (V : Server A Unit) (q : Proc A Unit) (smashed : BinderHandler A σ) (p : Proc A σ)
    (rdata : Mem) (request : Carried A (c.2.sent lib service c.1 f handle) .transaction)
    (relay : Relay A
      (served lib service server impl smashed request.read.mem p request.txn rdata).1),
    p.globals = s ∧ c.2.returned lib service c.1 V q f handle relay = count ∧
      (served lib service server impl smashed request.read.mem p request.txn rdata).2 = s'

variable {lib}

theorem initReply_small (rdata : Mem) :
    (dataReply (bioInit A ⟨rdata,0,0,0,0,0,0,0⟩ rdata 0 256 4)).offsets = [] ∧
      (dataReply (bioInit A ⟨rdata,0,0,0,0,0,0,0⟩ rdata 0 256 4)).data.length < 2 ^ 32 := by
  have hs := A.sizeT.bytes_le_eight
  rw [replyStart_eq]
  simp [dataReply,BinderIo.offsBytes,BinderIo.dataBytes,slice]

theorem sayMsg_small (f : Frame) (handle code : UInt32) :
    (callTransaction (sayMsg A f) handle code).offsets = [] ∧
      (callTransaction (sayMsg A f) handle code).data.length < 2 ^ 32 := by
  have hs := A.sizeT.bytes_le_eight
  have hfour : extent Piece.size ([Put.uint32 (A := A) 0].flatMap Put.pieces) = 4 := rfl
  have hnone : pieceSlots ([Put.uint32 (A := A) 0].flatMap Put.pieces) = 0 := rfl
  have hputs : PutsFit A (BitVec.ofNat _ 512) (BitVec.ofNat _ 4) [.uint32 0] := by
    rw [PutsFit,reserved_four,toNat_ofNat_small (by decide),toNat_ofNat_small (by decide),
      hfour,hnone]
    exact ⟨by omega,by omega,Nat.zero_le 4⟩
  have hw := filled_whole hputs f.msg f.mem f.iodata
    (harmless_of_apart (by rw [hnone]; exact Nat.zero_le _)) handle code 0
  rw [filled,toNat_ofNat_small (by decide),toNat_ofNat_small (by decide)] at hw
  change Whole A _ (callTransaction (sayMsg A f) handle code) at hw
  have hlen := hw.data
  refine ⟨List.length_eq_zero_iff.mp ?_,?_⟩
  · rw [hw.offsets,entryBytes_length,hnone,Nat.mul_zero]
  · rw [hlen,hfour]
    decide

variable (h : Documented lib)
include h

theorem code_say (service : Service) {client : Language} {f : Frame} {handle : UInt32}
    (request : Carried A (NativeCall.say.sent lib service client f handle) .transaction) :
    request.txn.code = 0 := by
  refine request.code.trans ?_
  cases client with
  | c => exact service.cmdSay_eq
  | cpp =>
    rw [NativeCall.sent,Service.transactSay_eq]
    exact (h.transact_sent handle 0 (lib.writeInt32 [] 0)).1

theorem say_served (service : Service) (server : Language) (impl : Implementation σ)
    (smashed : BinderHandler A σ) (m : Mem) (p : Proc A σ) {txn : BinderTransactionData A}
    (hcode : txn.code = 0) (rdata : Mem) :
    let reply := served lib service server impl smashed m p txn rdata
    reply.2 = impl.say p.globals ∧ reply.1.offsets = [] ∧ reply.1.data.length < 2 ^ 32 := by
  intro reply
  cases server with
  | c =>
    have hreply : reply = (dataReply (bioInit A ⟨rdata,0,0,0,0,0,0,0⟩ rdata 0 256 4),
        impl.say p.globals) := by
      simp only [reply,served,invoked,Service.handler_eq,serviceHandler,if_pos hcode]
      rfl
    rw [hreply]
    exact ⟨rfl,initReply_small rdata⟩
  | cpp =>
    have hreply : reply = (lib.sendReply 0 [],impl.say p.globals) := by
      simp only [reply,served,Service.onTransact_eq,bnOnTransact,if_pos hcode]
    obtain ⟨-,hdata,hoffs⟩ := h.sendReply_sent []
    rw [hreply,hdata]
    exact ⟨rfl,hoffs,by decide⟩

theorem nativeCalled_direct (service : Service) {server : Language} {impl : Implementation σ}
    {handle : UInt32} {s s' : σ} {c : Language × NativeCall A} {count : Option Int32}
    (hcall : NativeCalled lib service server impl handle s c count s') :
    (c.2.direct lib server impl c.1 s).1 = count ∧ (c.2.direct lib server impl c.1 s).2 = s' := by
  obtain ⟨f,V,q,smashed,p,rdata,request,relay,rfl,rfl,rfl⟩ := hcall
  obtain ⟨client,call⟩ := c
  cases call with
  | say =>
    have hcode := code_say h service request
    obtain ⟨hstate,-⟩ := say_served h service server impl smashed request.read.mem p hcode rdata
    exact ⟨rfl,hstate.symm⟩
  | sayTo name =>
    obtain ⟨hcount,hstate⟩ :=
      served_hears h service name client server f handle request impl smashed p rdata
    exact ⟨(returned_count h service name client V q f handle hcount relay).symm,hstate.symm⟩

theorem sent_small (service : Service) (client : Language) (f : Frame) (handle : UInt32)
    (call : NativeCall A) : (call.sent lib service client f handle).offsets = [] ∧
      (call.sent lib service client f handle).data.length < 2 ^ 32 := by
  cases call with
  | say =>
    cases client with
    | c => exact sayMsg_small f handle service.cmdSay
    | cpp =>
      obtain ⟨-,-,hdata,hoffs⟩ := h.transact_sent handle 0 (lib.writeInt32 [] 0)
      simp only [NativeCall.sent,Service.transactSay_eq,bpSay]
      refine ⟨hoffs,?_⟩
      rw [hdata,h.writeInt32_data,List.nil_append,leBytes_length]
      decide
  | sayTo name =>
    obtain ⟨hmsg,-⟩ := request_message h service name client f handle
    obtain ⟨pad,hpad,hdata⟩ := hmsg.data
    have hlen := unitsOf_short name client
    refine ⟨hmsg.offsets,?_⟩
    rw [NativeCall.sent,hdata,List.length_append,leBytes_length,stringData_length _ hpad]
    omega

theorem direct_nativeCalled (service : Service) (server : Language) (impl : Implementation σ)
    (handle : UInt32) (s : σ) (c : Language × NativeCall A) :
    NativeCalled lib service server impl handle s c (c.2.direct lib server impl c.1 s).1
      (c.2.direct lib server impl c.1 s).2 := by
  obtain ⟨client,call⟩ := c
  obtain ⟨hoffs,hlen⟩ := sent_small h service client emptyFrame handle call
  let request := carryPlain .transaction (A := A) 0 _ hoffs hlen
  let smashed : BinderHandler A σ := fun p _ _ reply => (-1,reply,p)
  let p : Proc A σ := ⟨s,[],0⟩
  have hreply : (served lib service server impl smashed request.read.mem p request.txn
      fun _ => 0).1.offsets = [] ∧ (served lib service server impl smashed request.read.mem p
        request.txn fun _ => 0).1.data.length < 2 ^ 32 := by
    cases call with
    | say =>
      have hcode := code_say h service request
      exact (say_served h service server impl smashed request.read.mem p hcode fun _ => 0).2
    | sayTo name =>
      obtain ⟨hcount,-⟩ := served_hears h service name client server emptyFrame handle request impl
        smashed p fun _ => 0
      refine ⟨hcount.offsets,?_⟩
      rw [hcount.data,leBytes_length]
      decide
  let relay := relayPlain (A := A) _ hreply.1 hreply.2
  have hcall : NativeCalled lib service server impl handle s (client,call) _ _ :=
    ⟨emptyFrame,⟨⟨3,0,0⟩,none,fun _ _ => 0,fun _ p => p⟩,⟨(),[],0⟩,smashed,p,
      fun _ => 0,request,relay,
      rfl,rfl,rfl⟩
  obtain ⟨hcount,hstate⟩ := nativeCalled_direct h service hcall
  rw [hcount,hstate]
  exact hcall

omit h in
theorem upTo_cons (k : ℕ) : Counting.upTo (k+1) = 1 :: (Counting.upTo k).map (1 + ·) := by
  rw [Counting.upTo,List.range_succ_eq_map,List.map_cons,List.map_map,Counting.upTo,List.map_map]
  refine congrArg _ (List.map_congr_left fun n _ => ?_)
  simp [Int.add_comm]

omit h in
theorem counted_trace (server : Language) (c : Counters) (cs : List (Language × NativeCall A))
    (hsmall : c.sayTo.toInt + cs.countP (fun c => c.2.isSayTo) < 2 ^ 31) :
    ((trace (fun s c => (c.2.direct lib server counted c.1 s).2)
        (fun s c => (c.2.direct lib server counted c.1 s).1) c cs).filterMap id).map Int32.toInt =
      (Counting.upTo (cs.countP fun c => c.2.isSayTo)).map (c.sayTo.toInt + ·) := by
  induction cs generalizing c with
  | nil => rfl
  | cons call cs ih =>
    obtain ⟨client,call⟩ := call
    rw [List.countP_cons] at hsmall ⊢
    cases call with
    | say => exact ih _ hsmall
    | sayTo name =>
      have hone : (if (NativeCall.sayTo name).isSayTo = true then 1 else 0) = 1 := rfl
      rw [hone] at hsmall ⊢
      push_cast at hsmall
      have hnext : (c.sayTo + 1).toInt = c.sayTo.toInt + 1 := Counting.toInt_succ (by omega)
      have hrest := ih {c with sayTo := c.sayTo + 1} (by simp only [hnext]; omega)
      rw [hnext] at hrest
      rw [trace,upTo_cons]
      simp only [NativeCall.direct,counted,List.filterMap_cons,id,List.map_cons,List.map_map,hnext]
      refine congrArg _ (hrest.trans (List.map_congr_left fun n _ => ?_))
      exact Int.add_assoc _ _ _

end

def mixedCalls : List (Language × NativeCall (Abi.uniform .four)) :=
  [(.c,.sayTo plainName),(.cpp,.say),(.cpp,.sayTo accentedName),(.c,.sayTo accentedName)]

theorem mixedCalls_session : Session
    (NativeCalled (referenceLibrary (Abi.uniform .four)) .hello .c counted 1) ⟨0,0⟩ mixedCalls
      [some 1,none,some 2,some 3] ⟨1,3⟩ :=
  run_session (direct_nativeCalled (reference_documented (Abi.uniform .four)) .hello .c counted 1)
    ⟨0,0⟩ mixedCalls

end Testserver
