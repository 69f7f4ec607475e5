import AndroidProjects.Testserver.Aidl
import AndroidProjects.Testserver.Calls

namespace Testserver
open Binder ByteMemory Machine Servicemanager Unicode

def interfaceChars : List Char := ['I','H','e','l','l','o','S','e','r','v','i','c','e']

def interfaceName : List UInt8 := utf8 interfaceChars

theorem interface_units (client : Language) : unitsOf client interfaceChars = descriptor.val := by
  cases client <;> decide

theorem unitsOf_injective {client : Language} {cs ds : List Char} (hcs : '\x00' ∉ cs)
    (hds : '\x00' ∉ ds) (hsame : unitsOf client cs = unitsOf client ds) : cs = ds := by
  cases client with
  | c =>
    have hbytes := congrArg narrowed hsame
    simp only [unitsOf,narrowed_wide (utf8_nonzero hcs),narrowed_wide (utf8_nonzero hds)] at hbytes
    rw [← decodeUtf8_utf8 cs,hbytes,decodeUtf8_utf8]
  | cpp =>
    have hchars := congrArg decodeUtf16 hsame
    simpa only [unitsOf,decodeUtf16_utf16] using hchars

-- codes of an interface start at 1 and go to 0xffffff; BBinder knows none of them
structure Refusing {A : Abi} (lib : AndroidLibrary A) : Prop where
  onTransact_unknown : ∀ (code : UInt32) data reply, 1 ≤ code → code ≤ 0xffffff →
    (lib.onTransact code data reply).1 = unknownTransaction
  sendReply_status : ∀ (status : Int32) data, status ≠ 0 →
    (lib.sendReply status data).flags &&& tfStatusCode ≠ 0 ∧
      (lib.sendReply status data).offsets = [] ∧
      (lib.sendReply status data).data = leBytes 4 status.toUInt32.toNat

theorem status_set : tfStatusCode &&& tfStatusCode ≠ 0 := by decide

theorem status_bytes (status : Int32) :
    (statusReply status.toInt).data = leBytes 4 status.toUInt32.toNat := by
  have hmod : (status.toInt % 2 ^ 32).toNat = status.toUInt32.toNat := by
    have hlt : (status.toUInt32.toNat : Int) < 2 ^ 32 := mod_cast status.toUInt32.toNat_lt
    have hint : status.toInt = (status.toUInt32.toNat : Int).bmod (2 ^ 32) :=
      BitVec.toInt_eq_toNat_bmod status.toBitVec
    have hbmod := @Int.bmod_emod status.toUInt32.toNat (2 ^ 32)
    rw [hint]
    norm_num at hbmod hlt ⊢
    omega
  rw [statusReply,hmod]

theorem reference_refusing (A : Abi) : Refusing (referenceLibrary A) where
  onTransact_unknown _ _ _ _ _ := rfl
  sendReply_status status data hne := by
    have hsent : (referenceLibrary A).sendReply status data = statusReply status.toInt := if_neg hne
    rw [hsent]
    exact ⟨status_set,rfl,status_bytes status⟩

section
variable {A : Abi} {σ K E : Type} (j : JavaLibrary A K E)

-- a Java client's call at the hello service of test_server; no result stands for an exception
def CalledNative (server : Language) (impl : Implementation σ) (remote : UInt32) (s : σ)
    (m : Method) (result : Option (Option Int32)) (s' : σ) : Prop :=
  ∃ (smashed : BinderHandler A σ) (p : Proc A σ) (rdata : Mem)
    (request : Carried A (m.transact j remote) .transaction)
    (reply : Carried A
      (served j.lib .hello server impl smashed request.read.mem p request.txn rdata).1 .reply),
    p.globals = s ∧ (m.returned j reply.read.mem reply.txn).toOption = result ∧
      (served j.lib .hello server impl smashed request.read.mem p request.txn rdata).2 = s'

-- the count of a sayhello_to where an exception's code is expected
def countAsCode (count : Int32) : Option (Option Int32) :=
  if count ≠ 0 ∧ count ≠ exHasReplyHeader then none else some none

def refusal : Language → Int32
  | .c => -1
  | .cpp => unknownTransaction

def Method.misheard (server : Language) (impl : Implementation σ) (s : σ) :
    Method → Option (Option Int32) × σ
  | .sayhello =>
    let out := impl.sayTo interfaceName s
    (countAsCode out.1,out.2)
  | .sayhelloTo _ => (if refusal server = unknownTransaction then some (some 0) else none,s)

variable {j} (h : JavaDocumented j) (hrefusing : Refusing j.lib)
include h

theorem hears_interface (server : Language) :
    hears j.lib server descriptor.val = interfaceName := by
  rw [← interface_units server]
  exact hears_own h.lib server (by decide)

theorem sayhello_received {remote : UInt32} (server : Language) (impl : Implementation σ)
    (smashed : BinderHandler A σ) (p : Proc A σ) (rdata : Mem)
    (request : Carried A (Method.sayhello.transact j remote) .transaction) :
    let out := impl.sayTo interfaceName p.globals
    let reply := served j.lib .hello server impl smashed request.read.mem p request.txn rdata
    CountMessage out.1 reply.1 ∧ reply.2 = out.2 := by
  obtain ⟨pad,hpad,htoken⟩ := h.writeInterfaceToken_data [] descriptor
  obtain ⟨hcode,hflags,hdata,hoffs⟩ := h.lib.transact_sent remote transactionSayhello
    (j.writeInterfaceToken [] descriptor)
  have hpolicy : j.strictMode.toInt32.toUInt32 = j.strictMode := UInt32.toUInt32_toInt32 _
  rw [List.nil_append] at htoken
  have hheard := served_hears_policy h.lib .hello j.strictMode.toInt32 hoffs hflags hpad
    (by rw [hpolicy,hdata,htoken]) hcode (by decide) server request impl smashed p rdata
  rw [hears_interface h] at hheard
  exact hheard

theorem count_returned {n : Int32} {sent : Outgoing} (hsent : CountMessage n sent)
    (reply : Carried A sent .reply) :
    (Method.sayhello.returned j reply.read.mem reply.txn).toOption = countAsCode n := by
  have hclear : reply.txn.flags &&& tfStatusCode = 0 := reply.flags ▸ hsent.flags
  have hreplied : replied j reply.read.mem reply.txn = .ok (leBytes 4 n.toUInt32.toNat) := by
    rw [replied,if_pos hclear,
      h.lib.received_data _ _ _ _ reply.delivered hsent.offsets hclear reply.buffer,hsent.data]
  rw [Method.returned,hreplied,Except.bind,Method.read,countAsCode]
  by_cases hcode : n ≠ 0 ∧ n ≠ exHasReplyHeader
  · obtain ⟨e,hthrown⟩ := h.readException_code n hcode.1 hcode.2
    rw [if_pos hcode,hthrown]
    rfl
  · rw [if_neg hcode]
    have hsome : ∃ data, j.readException (leBytes 4 n.toUInt32.toNat) = .ok data := by
      by_cases hzero : n = 0
      · have hnone := h.readException_none []
        rw [List.append_nil] at hnone
        exact ⟨[],hzero ▸ hnone⟩
      · have hheader : n = exHasReplyHeader := by
          by_contra hne
          exact hcode ⟨hzero,hne⟩
        exact hheader ▸ h.readException_header
    obtain ⟨data,hread⟩ := hsome
    rw [hread]
    rfl

theorem status_returned {name : Option JString} {n : Int32} {sent : Outgoing}
    (hflags : sent.flags &&& tfStatusCode ≠ 0) (hoffs : sent.offsets = [])
    (hdata : sent.data = leBytes 4 n.toUInt32.toNat) (reply : Carried A sent .reply) :
    ((Method.sayhelloTo name).returned j reply.read.mem reply.txn).toOption =
      if n = unknownTransaction then some (some 0) else none := by
  have hset : ¬ reply.txn.flags &&& tfStatusCode = 0 := reply.flags ▸ hflags
  have hstatus := h.status_data _ _ _ _ n reply.delivered hoffs reply.buffer hdata
  rw [Method.returned,replied,if_neg hset,hstatus]
  by_cases hunknown : n = unknownTransaction
  · rw [if_pos hunknown,if_pos hunknown,Except.bind,Method.read,h.readException_end]
    simp only [Except.map,h.readInt32_end]
    rfl
  · rw [if_neg hunknown,if_neg hunknown]
    rfl

include hrefusing

theorem sayhelloTo_refused {remote : UInt32} {name : Option JString} (server : Language)
    (impl : Implementation σ) (smashed : BinderHandler A σ) (p : Proc A σ) (rdata : Mem)
    (request : Carried A ((Method.sayhelloTo name).transact j remote) .transaction) :
    let reply := served j.lib .hello server impl smashed request.read.mem p request.txn rdata
    reply.1.flags &&& tfStatusCode ≠ 0 ∧ reply.1.offsets = [] ∧
      reply.1.data = leBytes 4 (refusal server).toUInt32.toNat ∧ reply.2 = p.globals := by
  intro reply
  have hcode : request.txn.code = 2 := (request_received h request).1
  cases server with
  | c =>
    have hrun : helloServiceHandler impl smashed p request.txn
        (bioInitFromTxn A request.read.mem request.txn)
        (bioInit A ⟨rdata,0,0,0,0,0,0,0⟩ rdata 0 256 4) =
          (-1,bioInit A ⟨rdata,0,0,0,0,0,0,0⟩ rdata 0 256 4,p) := by
      have hsay : request.txn.code ≠ helloSvrCmdSayhello := by rw [hcode]; decide
      have hsayTo : request.txn.code ≠ helloSvrCmdSayhelloTo := by rw [hcode]; decide
      rw [helloServiceHandler,serviceHandler]
      simp only [if_neg hsay,if_neg hsayTo]
    have hreply : reply = (statusReply (-1),p.globals) := by
      simp only [reply,served,invoked,Service.handler,hrun]
      rfl
    rw [hreply]
    exact ⟨status_set,rfl,rfl,rfl⟩
  | cpp =>
    have hunknown := hrefusing.onTransact_unknown request.txn.code
      (j.lib.received request.read.mem request.txn) [] (by rw [hcode]; decide)
      (by rw [hcode]; decide)
    have hsay : request.txn.code ≠ helloSvrCmdSayhello := by rw [hcode]; decide
    have hsayTo : request.txn.code ≠ helloSvrCmdSayhelloTo := by rw [hcode]; decide
    have hreply : reply = (j.lib.sendReply unknownTransaction (j.lib.onTransact request.txn.code
        (j.lib.received request.read.mem request.txn) []).2,p.globals) := by
      simp only [reply,served,Service.onTransact,bnHelloServiceOnTransact,bnOnTransact,if_neg hsay,
        if_neg hsayTo,hunknown]
    obtain ⟨hstatus,hoffs,hdata⟩ := hrefusing.sendReply_status unknownTransaction
      (j.lib.onTransact request.txn.code (j.lib.received request.read.mem request.txn) []).2
      (by decide)
    rw [hreply]
    exact ⟨hstatus,hoffs,hdata,rfl⟩

theorem called_misheard {server : Language} {impl : Implementation σ} {remote : UInt32} {s s' : σ}
    {m : Method} {result : Option (Option Int32)}
    (hcall : CalledNative j server impl remote s m result s') :
    (m.misheard server impl s).1 = result ∧ (m.misheard server impl s).2 = s' := by
  obtain ⟨smashed,p,rdata,request,reply,rfl,rfl,rfl⟩ := hcall
  cases m with
  | sayhello =>
    obtain ⟨hcount,hstate⟩ := sayhello_received h server impl smashed p rdata request
    exact ⟨(count_returned h hcount reply).symm,hstate.symm⟩
  | sayhelloTo name =>
    obtain ⟨hstatus,hoffs,hdata,hstate⟩ :=
      sayhelloTo_refused h hrefusing server impl smashed p rdata request
    exact ⟨(status_returned h hstatus hoffs hdata reply).symm,hstate.symm⟩

theorem misheard_called (server : Language) (impl : Implementation σ) (remote : UInt32) (s : σ)
    (m : Method) : CalledNative j server impl remote s m (m.misheard server impl s).1
      (m.misheard server impl s).2 := by
  obtain ⟨hoffs,hlen⟩ := request_small h remote m
  let request := carryPlain .transaction (A := A) 0 (m.transact j remote) hoffs hlen
  let smashed : BinderHandler A σ := fun p _ _ reply => (-1,reply,p)
  let p : Proc A σ := ⟨s,[],0⟩
  have hsent : (served j.lib .hello server impl smashed request.read.mem p request.txn
      fun _ => 0).1.offsets = [] ∧ (served j.lib .hello server impl smashed request.read.mem p
        request.txn fun _ => 0).1.data.length < 2 ^ 32 := by
    cases m with
    | sayhello =>
      obtain ⟨hcount,-⟩ := sayhello_received h server impl smashed p (fun _ => 0) request
      refine ⟨hcount.offsets,?_⟩
      rw [hcount.data,leBytes_length]
      decide
    | sayhelloTo name =>
      obtain ⟨-,hnone,hdata,-⟩ := sayhelloTo_refused h hrefusing server impl smashed p (fun _ => 0)
        request
      refine ⟨hnone,?_⟩
      rw [hdata,leBytes_length]
      decide
  let reply := carryPlain .reply (A := A) 0 _ hsent.1 hsent.2
  have hcall : CalledNative j server impl remote s m _ _ :=
    ⟨smashed,p,fun _ => 0,request,reply,rfl,rfl,rfl⟩
  obtain ⟨hresult,hstate⟩ := called_misheard h hrefusing hcall
  rw [hresult,hstate]
  exact hcall

theorem java_on_native (server : Language) (impl : Implementation σ) (remote : UInt32) (s s' : σ)
    (ms : List Method) (results : List (Option (Option Int32))) :
    Session (CalledNative j server impl remote) s ms results s' ↔
      trace (fun s m => (m.misheard server impl s).2)
          (fun s m => (m.misheard server impl s).1) s ms = results ∧
        run (fun s m => (m.misheard server impl s).2) s ms = s' :=
  session_iff (fun _ _ _ _ hcall => called_misheard h hrefusing hcall)
    fun s => misheard_called h hrefusing server impl remote s

end

theorem java_on_native_counted : Session
    (CalledNative (referenceJava (Abi.uniform .four)) .cpp counted 1) ⟨0,0⟩
      [.sayhello,.sayhelloTo none,.sayhello] [none,some (some 0),none] ⟨0,2⟩ :=
  (java_on_native (referenceJava_documented (Abi.uniform .four))
    (reference_refusing (Abi.uniform .four)) .cpp counted 1 ⟨0,0⟩ ⟨0,2⟩
    [.sayhello,.sayhelloTo none,.sayhello] [none,some (some 0),none]).mpr (by decide)

section
variable {A : Abi} {σ K E : Type} (j : JavaLibrary A K E)

def NativeCall.misheard (impl : IHelloService σ K) (s : σ) : NativeCall A → Option Int32 × σ
  | .say => (none,s)
  | .sayTo name =>
    if name.chars = interfaceChars then
      match impl.sayhello s with
      | (.ok _,s) => (some 0,s)
      | (.error e,s) => (some (j.exceptionCode e),s)
    else (some (j.exceptionCode j.denied),s)

def CalledJava (impl : IHelloService σ K) (handle : UInt32) (s : σ) (c : NativeCall A)
    (count : Option Int32) (s' : σ) : Prop :=
  ∃ (client : Language) (f : Frame) (V : Server A Unit) (q : Proc A Unit)
    (request : Carried A (c.sent j.lib .hello client f handle) .transaction)
    (relay : Relay A (stubServed j impl request.read.mem request.txn s).1),
    c.returned j.lib .hello client V q f handle relay = count ∧
      (stubServed j impl request.read.mem request.txn s).2 = s'

variable {j}

theorem stub_unknown (impl : IHelloService σ K) (s : σ) (data : List UInt8) :
    stubOnTransact j impl 0 data [] s = (.ok (j.onTransact 0 data []),s) := by
  have hinterface : (0 : UInt32) ≠ interfaceTransaction := by decide
  have hsayhello : (0 : UInt32) ≠ transactionSayhello := by decide
  have hsayhelloTo : (0 : UInt32) ≠ transactionSayhelloTo := by decide
  rw [stubOnTransact,if_neg hinterface,if_neg hsayhello,if_neg hsayhelloTo]

def misheardAnswer (impl : IHelloService σ K) (s : σ) (cs : List Char) :
    Except K (List UInt8) × σ :=
  if cs = interfaceChars then (Method.sayhello.answered impl s,(impl.sayhello s).2)
  else (.error j.denied,s)

variable (h : JavaDocumented j)
include h

theorem sayhelloTo_misheard {name : ClientName A} {client : Language} {f : Frame} {handle : UInt32}
    (request : Carried A ((NativeCall.sayTo name).sent j.lib .hello client f handle) .transaction)
    (impl : IHelloService σ K) (s : σ) : stubServed j impl request.read.mem request.txn s =
      (j.answer ((misheardAnswer (j := j) impl s name.chars).1.map fun data => (true,data)),
        (misheardAnswer (j := j) impl s name.chars).2) := by
  obtain ⟨hmsg,hsent⟩ := request_message h.lib .hello name client f handle
  obtain ⟨pad,hpad,hdata⟩ := hmsg.data
  have hcode : request.txn.code = transactionSayhello := request.code.trans hsent
  have hin : j.lib.received request.read.mem request.txn =
      leBytes 4 0 ++ stringData (unitsOf client name.chars) pad := by
    have hclear : request.txn.flags &&& tfStatusCode = 0 := request.flags ▸ hmsg.flags
    exact (h.lib.received_data _ _ _ _ request.delivered hmsg.offsets hclear request.buffer).trans
      hdata
  have hshort := (unitsOf_short name client).trans (by decide : 512 < 2 ^ 30)
  have henforced := h.enforceInterface_data 0 ⟨unitsOf client name.chars,hshort⟩ descriptor pad []
    hpad
  have hzero : (0 : UInt32).toNat = 0 := rfl
  rw [hzero,List.append_nil,← hin] at henforced
  have hsame : (⟨unitsOf client name.chars,hshort⟩ : JString) = descriptor ↔
      name.chars = interfaceChars := by
    rw [Subtype.ext_iff,← interface_units client]
    refine ⟨unitsOf_injective name.nonzero (by decide),fun heq => ?_⟩
    exact congrArg (unitsOf client) heq
  have hother : transactionSayhello ≠ interfaceTransaction := by decide
  have hnone := h.writeNoException_data []
  rw [List.nil_append] at hnone
  rw [stubServed,stubOnTransact,hcode,if_neg hother,if_pos rfl,henforced,hnone]
  simp only [hsame,misheardAnswer]
  by_cases hinterface : name.chars = interfaceChars
  · simp only [if_pos hinterface,Method.answered]
    obtain ⟨result,s'⟩ := impl.sayhello s
    cases result with
    | error e => rfl
    | ok u => rfl
  · simp only [if_neg hinterface]
    rfl

section
variable (name : ClientName A) (client : Language) (V : Server A Unit) (q : Proc A Unit) (f : Frame)
  (handle : UInt32)

theorem thrown_returned {e : K} (relay : Relay A (j.answer (.error e))) :
    returned j.lib .hello client V q f handle name.bytes relay = some (j.exceptionCode e) := by
  obtain ⟨message,hsent,-,hlen⟩ := h.answer_thrown e
  obtain ⟨hflags,hdata,hoffs⟩ := h.lib.sendReply_sent
    (leBytes 4 (j.exceptionCode e).toUInt32.toNat ++ message)
  rw [← hsent] at hflags hdata hoffs
  exact returned_word h.lib .hello name client V q f handle hoffs hflags hdata (hdata ▸ hlen) relay

theorem done_returned (relay : Relay A (j.answer (.ok (true,leBytes 4 0)))) :
    returned j.lib .hello client V q f handle name.bytes relay = some 0 := by
  have hcount : CountMessage 0 (j.answer (.ok (true,leBytes 4 0))) := by
    rw [h.answer_done]
    exact sendReply_count h.lib 0
  exact returned_count h.lib .hello name client V q f handle hcount relay

end

theorem answer_returned (impl : IHelloService σ K) (s : σ) (name : ClientName A)
    (client : Language) (V : Server A Unit) (q : Proc A Unit) (f : Frame) (handle : UInt32)
    (relay : Relay A (j.answer ((misheardAnswer (j := j) impl s name.chars).1.map
      fun data => (true,data)))) :
    returned j.lib .hello client V q f handle name.bytes relay =
        ((NativeCall.sayTo name).misheard j impl s).1 ∧
      (misheardAnswer (j := j) impl s name.chars).2 =
        ((NativeCall.sayTo name).misheard j impl s).2 := by
  revert relay
  by_cases hinterface : name.chars = interfaceChars
  · have hout : misheardAnswer (j := j) impl s name.chars =
        (Method.sayhello.answered impl s,(impl.sayhello s).2) := if_pos hinterface
    rw [hout,NativeCall.misheard,if_pos hinterface,Method.answered]
    obtain ⟨result,s'⟩ := impl.sayhello s
    cases result with
    | error e => exact fun relay => ⟨thrown_returned h name client V q f handle relay,rfl⟩
    | ok u => exact fun relay => ⟨done_returned h name client V q f handle relay,rfl⟩
  · have hout : misheardAnswer (j := j) impl s name.chars = (.error j.denied,s) := if_neg hinterface
    rw [hout,NativeCall.misheard,if_neg hinterface]
    exact fun relay => ⟨thrown_returned h name client V q f handle relay,rfl⟩

theorem calledJava_misheard {impl : IHelloService σ K} {handle : UInt32} {s s' : σ}
    {c : NativeCall A} {count : Option Int32} (hcall : CalledJava j impl handle s c count s') :
    (c.misheard j impl s).1 = count ∧ (c.misheard j impl s).2 = s' := by
  obtain ⟨client,f,V,q,request,relay,rfl,rfl⟩ := hcall
  cases c with
  | say =>
    have hcode := code_say h.lib .hello request
    refine ⟨rfl,?_⟩
    rw [stubServed,hcode,stub_unknown]
    rfl
  | sayTo name =>
    have hserved := sayhelloTo_misheard h request impl s
    rw [NativeCall.returned]
    generalize stubServed j impl request.read.mem request.txn s = reply at hserved relay ⊢
    subst hserved
    obtain ⟨hcount,hstate⟩ := answer_returned h impl s name client V q f handle relay
    exact ⟨hcount.symm,hstate.symm⟩

omit h in
theorem misheardAnswer_short (impl : IHelloService σ K) (s : σ) (cs : List Char) (data : List UInt8)
    (hdata : (misheardAnswer (j := j) impl s cs).1 = .ok data) : data.length < 2 ^ 32 := by
  rw [misheardAnswer] at hdata
  by_cases hinterface : cs = interfaceChars
  · rw [if_pos hinterface] at hdata
    exact answered_short impl s .sayhello data hdata
  · rw [if_neg hinterface] at hdata
    cases hdata

theorem misheard_calledJava (hrefusing : Refusing j.lib) (impl : IHelloService σ K)
    (handle : UInt32) (s : σ) (c : NativeCall A) :
    CalledJava j impl handle s c (c.misheard j impl s).1 (c.misheard j impl s).2 := by
  obtain ⟨hoffs,hlen⟩ := sent_small h.lib .hello .cpp emptyFrame handle c
  let request := carryPlain .transaction (A := A) 0 _ hoffs hlen
  have hreply : (stubServed j impl request.read.mem request.txn s).1.offsets = [] ∧
      (stubServed j impl request.read.mem request.txn s).1.data.length < 2 ^ 32 := by
    cases c with
    | say =>
      have hcode := code_say h.lib .hello request
      have hunknown := h.onTransact_unknown 0 (j.lib.received request.read.mem request.txn) []
        (by decide)
      obtain ⟨-,hoffs,hdata⟩ := hrefusing.sendReply_status unknownTransaction
        (j.onTransact 0 (j.lib.received request.read.mem request.txn) []).2 (by decide)
      rw [stubServed,hcode,stub_unknown]
      simp only []
      rw [← Prod.eta (j.onTransact 0 _ []),hunknown,h.answer_unknown]
      refine ⟨hoffs,?_⟩
      rw [hdata,leBytes_length]
      decide
    | sayTo name =>
      rw [sayhelloTo_misheard h request impl s]
      exact answer_small h _ (misheardAnswer_short impl s name.chars)
  let relay := relayPlain (A := A) _ hreply.1 hreply.2
  have hcall : CalledJava j impl handle s c _ _ :=
    ⟨.cpp,emptyFrame,⟨⟨3,0,0⟩,none,fun _ _ => 0,fun _ p => p⟩,⟨(),[],0⟩,request,relay,rfl,rfl⟩
  obtain ⟨hcount,hstate⟩ := calledJava_misheard h hcall
  rw [hcount,hstate]
  exact hcall

end

def interfaceClient : ClientName (Abi.uniform .four) := ⟨interfaceChars,by decide,by decide⟩

end Testserver
