import AndroidProjects.Testserver.Library

namespace Testserver
open Binder ByteMemory Unicode Servicemanager

inductive Language where
  | c
  | cpp
  deriving DecidableEq, Repr

inductive Service where
  | hello
  | goodbye
  deriving DecidableEq, Repr

-- a UTF-8 text without NUL that the C client's buffer has room for
structure ClientName (A : Abi) where
  chars : List Char
  nonzero : '\x00' ∉ chars
  fits : FitsIodata A (utf8 chars)

def ClientName.bytes {A : Abi} (name : ClientName A) : List UInt8 := utf8 name.chars

section
variable {A : Abi} {σ τ : Type} (lib : AndroidLibrary A)

namespace Service

def handler : Service → Implementation σ → BinderHandler A σ → BinderHandler A σ
  | hello => helloServiceHandler
  | goodbye => goodbyeServiceHandler

def onTransact : Service → Implementation σ → UInt32 → List UInt8 → List UInt8 → σ →
    Int32 × List UInt8 × σ
  | hello => bnHelloServiceOnTransact lib
  | goodbye => bnGoodbyeServiceOnTransact lib

def call : Service → Server A τ → Proc A τ → Frame → UInt32 → List UInt8 → List CallRound →
    Option (Int32 × Proc A τ)
  | hello => sayhelloTo
  | goodbye => saygoodbyeTo

def cmdSayTo : Service → UInt32
  | hello => helloSvrCmdSayhelloTo
  | goodbye => helloSvrCmdSaygoodbyeTo

def transact : Service → UInt32 → List UInt8 → Outgoing
  | hello => bpHelloServiceSayhelloTo lib
  | goodbye => bpGoodbyeServiceSaygoodbyeTo lib

theorem handler_eq (service : Service) :
    service.handler (A := A) (σ := σ) = serviceHandler 0 1 := by cases service <;> rfl

theorem onTransact_eq (service : Service) :
    service.onTransact (σ := σ) lib = bnOnTransact lib 0 1 := by cases service <;> rfl

theorem call_eq (service : Service) : service.call (A := A) (τ := τ) = sayTo 1 := by
  cases service <;> rfl

theorem cmdSayTo_eq (service : Service) : service.cmdSayTo = 1 := by cases service <;> rfl

theorem transact_eq (service : Service) : service.transact lib = bpSayTo lib 1 := by
  cases service <;> rfl

end Service

def requestSent (service : Service) (client : Language) (f : Frame) (handle : UInt32)
    (name : List UInt8) : Outgoing :=
  match client with
  | .c => callTransaction (sayToMsg A f name) handle service.cmdSayTo
  | .cpp => service.transact lib handle name

def served (service : Service) (server : Language) (impl : Implementation σ)
    (smashed : BinderHandler A σ) (m : Mem) (p : Proc A σ) (txn : BinderTransactionData A)
    (rdata : Mem) : Outgoing × σ :=
  match server with
  | .c =>
    let out := invoked (service.handler impl smashed) m p txn rdata
    (answerOf out,out.2.2.globals)
  | .cpp =>
    let out := service.onTransact lib impl txn.code (lib.received m txn) [] p.globals
    (lib.sendReply out.1 out.2.1,out.2.2)

def returned (service : Service) (client : Language) (V : Server A τ) (q : Proc A τ) (f : Frame)
    (handle : UInt32) (name : List UInt8) {sent : Outgoing} (relay : Relay A sent) : Option Int32 :=
  match client with
  | .c => (service.call V q f handle name relay.rounds).map Prod.fst
  | .cpp => some (bpReturned lib relay.carried.read.mem relay.carried.txn)

def unitsOf (client : Language) (cs : List Char) : List UInt16 :=
  match client with
  | .c => wide (utf8 cs)
  | .cpp => utf16 cs

def hears (server : Language) (us : List UInt16) : List UInt8 :=
  match server with
  | .c => narrowed us
  | .cpp => cString (lib.string8 us)

theorem unitsOf_ascii {cs : List Char} (hascii : Ascii cs) :
    unitsOf .c cs = unitsOf .cpp cs := by
  rw [unitsOf,unitsOf,wide,utf8_ascii hascii,utf16_ascii hascii,List.map_map]
  refine List.map_congr_left fun c hc => ?_
  exact UInt8.toUInt16_ofNat' (Nat.lt_trans (hascii c hc) (by decide))

section
variable {lib} (h : Documented lib) (service : Service) (name : ClientName A)
include h

theorem request_message (client : Language) (f : Frame) (handle : UInt32) :
    StringMessage (unitsOf client name.chars) (requestSent lib service client f handle name.bytes) ∧
      (requestSent lib service client f handle name.bytes).code = 1 := by
  cases client with
  | c =>
    exact ⟨sayToMsg_message (utf8_nonzero name.nonzero) name.fits f handle service.cmdSayTo,
      service.cmdSayTo_eq⟩
  | cpp =>
    rw [requestSent,Service.transact_eq]
    exact ⟨bpSayTo_message h name.nonzero name.fits 1 handle,(h.transact_sent handle 1 _).1⟩

omit h in
theorem unitsOf_short (client : Language) : (unitsOf client name.chars).length < 512 := by
  have hlt := fitsIodata_short name.fits
  cases client with
  | c => exact (wide_length _).trans_lt hlt
  | cpp => exact (utf16_length_le name.chars).trans_lt hlt

omit h in
theorem request_submits {V : Server A τ}
    (hdeath : ∀ ptr q, submissions (V.death ptr q) = submissions q) {q q' : Proc A τ} {f : Frame}
    {handle : UInt32} {r : CallRound} (hr : r.consumes = true) {rest : List CallRound} {n : Int32}
    (hcall : service.call V q f handle name.bytes (r :: rest) = some (n,q')) :
    submissions q' = submissions q ++ [requestSent lib service .c f handle name.bytes] := by
  have hclear := sayToMsg_clear (A := A) (utf8_nonzero name.nonzero) name.fits f
  have hsent : callSent (sayToMsg A f name.bytes) handle 1 =
      some (requestSent lib service .c f handle name.bytes) := by
    rw [callSent,ClientName.bytes,if_neg hclear,requestSent,Service.cmdSayTo_eq]
  rw [Service.call_eq,sayTo] at hcall
  split at hcall
  · cases hcall
  · rename_i res reply p hround
    have hp := binderCall_submissions hdeath hsent hr hround
    split_ifs at hcall
    · simp only [Option.some.injEq,Prod.mk.injEq] at hcall
      exact hcall.2 ▸ hp
    · simp only [Option.some.injEq,Prod.mk.injEq] at hcall
      rw [← hcall.2,binderDone_submissions]
      exact hp

omit name in
theorem served_hears_policy (policy : Int32) {sent : Outgoing} {us : List UInt16} {pad : List UInt8}
    (hoffs : sent.offsets = []) (hclear : sent.flags &&& tfStatusCode = 0)
    (hpad : pad.length = unitPadding us.length)
    (hdata : sent.data = leBytes 4 policy.toUInt32.toNat ++ stringData us pad)
    (hcode : sent.code = 1) (hlen : us.length < 512) (server : Language)
    (request : Carried A sent .transaction) (impl : Implementation σ) (smashed : BinderHandler A σ)
    (p : Proc A σ) (rdata : Mem) :
    let out := impl.sayTo (hears lib server us) p.globals
    let reply := served lib service server impl smashed request.read.mem p request.txn rdata
    CountMessage out.1 reply.1 ∧ reply.2 = out.2 := by
  intro out reply
  have hsayTo : request.txn.code = 1 := request.code.trans hcode
  have hsay : request.txn.code ≠ 0 := by
    rw [hsayTo]
    decide
  cases server with
  | c =>
    have hr := policy_readable request.delivered hoffs request.buffer policy.toUInt32 hlen hpad
      hdata
    have hrun := serviceHandler_hears_policy policy.toUInt32 hlen hr hsay hsayTo impl smashed p
      (bioInit A ⟨rdata,0,0,0,0,0,0,0⟩ rdata 0 256 4)
    have hreply : reply = (dataReply (bioPutUint32 A (bioInit A ⟨rdata,0,0,0,0,0,0,0⟩ rdata 0 256
        4) out.1.toUInt32),out.2) := by
      simp only [reply,served,invoked,Service.handler_eq,hrun]
      rfl
    rw [hreply]
    exact ⟨countReply out.1 rdata,rfl⟩
  | cpp =>
    have hrun := bnOnTransact_hears_policy h request.delivered request.flags request.buffer policy
      hoffs hclear hpad hdata hlen hsay hsayTo impl p.globals
    have hreply : reply = (lib.sendReply 0 (leBytes 4 out.1.toUInt32.toNat),out.2) := by
      simp only [reply,served,Service.onTransact_eq,hrun]
      rfl
    rw [hreply]
    exact ⟨sendReply_count h out.1,rfl⟩

theorem served_hears (client server : Language) (f : Frame) (handle : UInt32)
    (request : Carried A (requestSent lib service client f handle name.bytes) .transaction)
    (impl : Implementation σ) (smashed : BinderHandler A σ) (p : Proc A σ) (rdata : Mem) :
    let out := impl.sayTo (hears lib server (unitsOf client name.chars)) p.globals
    let reply := served lib service server impl smashed request.read.mem p request.txn rdata
    CountMessage out.1 reply.1 ∧ reply.2 = out.2 := by
  obtain ⟨hmsg,hcode⟩ := request_message h service name client f handle
  obtain ⟨pad,hpad,hdata⟩ := hmsg.data
  exact served_hears_policy h service 0 hmsg.offsets hmsg.flags hpad hdata hcode
    (unitsOf_short name client) server request impl smashed p rdata

theorem returned_word (client : Language) (V : Server A τ) (q : Proc A τ) (f : Frame)
    (handle : UInt32) {sent : Outgoing} {n : Int32} {rest : List UInt8} (hoffs : sent.offsets = [])
    (hclear : sent.flags &&& tfStatusCode = 0)
    (hdata : sent.data = leBytes 4 n.toUInt32.toNat ++ rest) (hlen : sent.data.length < 2 ^ 32)
    (relay : Relay A sent) :
    returned lib service client V q f handle name.bytes relay = some n := by
  have hd := relay.carried.delivered
  cases client with
  | cpp =>
    exact congrArg some (bpReturned_word h hd relay.carried.flags relay.carried.buffer hoffs hclear
      hdata)
  | c =>
    have hmsg := sayToMsg_clear (A := A) (utf8_nonzero name.nonzero) name.fits f
    have hval := first_word hd hoffs relay.carried.buffer hdata hlen
    obtain ⟨q',hcall⟩ := relay.called V q hmsg f.reply handle 1
    have hround : n.toUInt32.toInt32 = n := Int32.toInt32_toUInt32 n
    rw [returned,Service.call_eq,sayTo,ClientName.bytes,hcall]
    simp only [hval,hround]
    rfl

theorem returned_count (client : Language) (V : Server A τ) (q : Proc A τ) (f : Frame)
    (handle : UInt32) {sent : Outgoing} {n : Int32} (hsent : CountMessage n sent)
    (relay : Relay A sent) :
    returned lib service client V q f handle name.bytes relay = some n := by
  have hdata : sent.data = leBytes 4 n.toUInt32.toNat ++ [] := by
    rw [hsent.data,List.append_nil]
  refine returned_word h service name client V q f handle hsent.offsets hsent.flags hdata ?_ relay
  rw [hsent.data,leBytes_length]
  decide

theorem hears_own (client : Language) {cs : List Char} (hzero : '\x00' ∉ cs) :
    hears lib client (unitsOf client cs) = utf8 cs := by
  cases client with
  | c => exact narrowed_wide (utf8_nonzero hzero)
  | cpp =>
    rw [hears,unitsOf,h.string8_utf16]
    exact cString_nonzero (utf8_nonzero hzero)

theorem hears_other {client server : Language} (hne : client ≠ server) {cs : List Char}
    (hzero : '\x00' ∉ cs) (hascii : ¬ Ascii cs) :
    hears lib server (unitsOf client cs) ≠ utf8 cs := by
  intro hsame
  have hlen := congrArg List.length hsame
  cases client with
  | c =>
    cases server with
    | c => exact hne rfl
    | cpp =>
      have hbytes : ∃ b ∈ utf8 cs, 128 ≤ b.toNat := by
        by_contra hnone
        simp only [not_exists,not_and,Nat.not_le] at hnone
        exact hascii (utf8_bytes_ascii.mp hnone)
      have hmore := (utf8_latin1_length (utf8 cs)).2 hbytes
      have hheard : hears lib .cpp (unitsOf .c cs) = utf8 ((utf8 cs).map latin1) := by
        rw [hears,unitsOf,wide,← utf16_latin1,h.string8_utf16]
        exact cString_nonzero (utf8_latin1_nonzero (utf8_nonzero hzero))
      rw [hheard] at hlen
      omega
  | cpp =>
    cases server with
    | cpp => exact hne rfl
    | c =>
      have hfewer := utf16_length_lt hascii
      have hle := (List.takeWhile_prefix (l := (utf16 cs).map UInt16.toUInt8) (· ≠ 0)).length_le
      rw [List.length_map] at hle
      change ((utf16 cs).map UInt16.toUInt8 |>.takeWhile (· ≠ 0)).length = _ at hlen
      omega

theorem hears_iff (client server : Language) :
    hears lib server (unitsOf client name.chars) = name.bytes ↔
      client = server ∨ Ascii name.chars := by
  constructor
  · intro hsame
    by_contra hn
    rw [not_or] at hn
    exact hears_other h hn.1 name.nonzero hn.2 hsame
  · rintro (rfl | hascii)
    · exact hears_own h client name.nonzero
    · have hunits : unitsOf client name.chars = unitsOf server name.chars := by
        have hsame := unitsOf_ascii hascii
        cases client <;> cases server <;> first | rfl | exact hsame | exact hsame.symm
      rw [hunits]
      exact hears_own h server name.nonzero

end

-- whatever the driver delivers, the implementation gets the client's bytes and the client its count
def Faithful (service : Service) (client server : Language) (name : ClientName A)
    (f : Frame) (handle : UInt32) (V : Server A τ) (q : Proc A τ) (smashed : BinderHandler A σ)
    (p : Proc A σ) : Prop :=
  ∀ (impl : Implementation σ)
    (request : Carried A (requestSent lib service client f handle name.bytes) .transaction)
    (rdata : Mem) (relay : Relay A
      (served lib service server impl smashed request.read.mem p request.txn rdata).1),
    (served lib service server impl smashed request.read.mem p request.txn rdata).2 =
        (impl.sayTo name.bytes p.globals).2 ∧
      returned lib service client V q f handle name.bytes relay =
        some (impl.sayTo name.bytes p.globals).1

variable {lib}

theorem faithful_iff_hears (h : Documented lib) (service : Service) (client server : Language)
    (name : ClientName A) (f : Frame) (handle : UInt32) (V : Server A τ) (q : Proc A τ)
    (smashed : BinderHandler A σ) (p : Proc A σ) :
    Faithful lib service client server name f handle V q smashed p ↔
      hears lib server (unitsOf client name.chars) = name.bytes := by
  constructor
  · intro hfaithful
    obtain ⟨hmsg,-⟩ := request_message h service name client f handle
    obtain ⟨pad,hpad,hdata⟩ := hmsg.data
    have hlen := unitsOf_short name client
    have hsize := stringData_length (unitsOf client name.chars) hpad
    let request := carryPlain .transaction (A := A) 0
      (requestSent lib service client f handle name.bytes) hmsg.offsets
      (by rw [hdata,List.length_append,hsize,leBytes_length]; omega)
    let impl : Implementation σ := ⟨id,fun n s => (if n = name.bytes then 1 else 0,s)⟩
    obtain ⟨hcount,-⟩ := served_hears h service name client server f handle request impl smashed p
      (fun _ => 0)
    let relay := relayPlain (A := A) _ hcount.offsets
      (by rw [hcount.data,leBytes_length]; decide)
    obtain ⟨-,hret⟩ := hfaithful impl request (fun _ => 0) relay
    rw [returned_count h service name client V q f handle hcount relay] at hret
    by_contra hne
    have hzero : (impl.sayTo (hears lib server (unitsOf client name.chars)) p.globals).1 = 0 :=
      if_neg hne
    have hone : (impl.sayTo name.bytes p.globals).1 = 1 := if_pos rfl
    rw [hzero,hone] at hret
    exact absurd hret (by decide)
  · intro hsame impl request rdata relay
    obtain ⟨hcount,hstate⟩ := served_hears h service name client server f handle request impl
      smashed p rdata
    rw [hsame] at hcount hstate
    exact ⟨hstate,returned_count h service name client V q f handle hcount relay⟩

theorem pairing_faithful_iff (h : Documented lib) (service : Service) (client server : Language)
    (name : ClientName A) (f : Frame) (handle : UInt32) (V : Server A τ) (q : Proc A τ)
    (smashed : BinderHandler A σ) (p : Proc A σ) :
    Faithful lib service client server name f handle V q smashed p ↔
      client = server ∨ Ascii name.chars :=
  (faithful_iff_hears h service client server name f handle V q smashed p).trans
    (hears_iff h name client server)

end

def emptyFrame : Frame := ⟨fun _ => 0,0,⟨fun _ => 0,0,0,0,0,0,0,0⟩,⟨fun _ => 0,0,0,0,0,0,0,0⟩⟩

def stopped : BinderHandler (Abi.uniform .four) Unit := fun p _ _ reply => (-1,reply,p)

def plainName : ClientName (Abi.uniform .four) := ⟨['h','i'],by decide,by decide⟩

theorem plainName_faithful : Faithful (referenceLibrary (Abi.uniform .four)) .goodbye .c .cpp
    plainName emptyFrame 1 idleServer ⟨(),[],0⟩ stopped ⟨(),[],0⟩ :=
  (pairing_faithful_iff (reference_documented (Abi.uniform .four)) .goodbye .c .cpp plainName
    emptyFrame 1 idleServer ⟨(),[],0⟩ stopped ⟨(),[],0⟩).mpr (.inr (by decide))

def accentedName : ClientName (Abi.uniform .four) := ⟨['\u00e9'],by decide,by decide⟩

theorem accentedName_garbled :
    ¬ ∀ (A : Abi) (lib : AndroidLibrary A), Documented lib → ∀ (service : Service)
      (client server : Language) (name : ClientName A) (f : Frame) (handle : UInt32)
      (V : Server A Unit) (q : Proc A Unit) (smashed : BinderHandler A Unit) (p : Proc A Unit),
      Faithful lib service client server name f handle V q smashed p := by
  intro hall
  have hlib := reference_documented (Abi.uniform .four)
  have hfaithful := hall _ _ hlib .hello .cpp .c accentedName emptyFrame 1 idleServer ⟨(),[],0⟩
    stopped ⟨(),[],0⟩
  have hheard := (faithful_iff_hears hlib .hello .cpp .c accentedName emptyFrame 1 idleServer
    ⟨(),[],0⟩ stopped ⟨(),[],0⟩).mp hfaithful
  exact absurd ((hears_iff hlib accentedName .cpp .c).mp hheard) (by decide)

end Testserver
