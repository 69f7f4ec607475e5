import AndroidProjects.Testserver.Pairings

namespace Testserver
open Binder ByteMemory Machine

-- a string that one transaction can hold
abbrev JString := {us : List UInt16 // us.length < 2 ^ 30}

-- android.os.Parcel, Binder and BinderProxy; of the exceptions E, Parcel.writeException knows the K
structure JavaLibrary (A : Abi) (K E : Type) where
  lib : AndroidLibrary A
  strictMode : UInt32
  writeInterfaceToken : List UInt8 → JString → List UInt8
  enforceInterface : List UInt8 → JString → Except K (List UInt8)
  writeString : List UInt8 → Option JString → List UInt8
  readString : List UInt8 → Option JString × List UInt8
  writeNoException : List UInt8 → List UInt8
  readException : List UInt8 → Except E (List UInt8)
  raise : K → E
  exceptionCode : K → Int32
  denied : K
  -- a reply that is a status, and what transact throws for it
  status : Mem → BinderTransactionData A → Int32
  statusError : Int32 → E
  onTransact : UInt32 → List UInt8 → List UInt8 → Bool × List UInt8
  -- execTransact and the native side: what becomes of the outcome of onTransact
  answer : Except K (Bool × List UInt8) → Outgoing

def descriptor : JString :=
  ⟨['I','H','e','l','l','o','S','e','r','v','i','c','e'].map
    fun c => UInt16.ofNat c.toNat,by decide⟩

-- the code that announces a header of StrictMode violations instead of an exception
def exHasReplyHeader : Int32 := -128

-- no StrictMode violation is gathered
structure JavaDocumented {A : Abi} {K E : Type} (j : JavaLibrary A K E) : Prop where
  lib : Documented j.lib
  writeInterfaceToken_data : ∀ data d, ∃ pad : List UInt8, pad.length = unitPadding d.val.length ∧
    j.writeInterfaceToken data d = data ++ (leBytes 4 j.strictMode.toNat ++ stringData d.val pad)
  enforceInterface_data : ∀ (policy : UInt32) (us d : JString) pad data,
    pad.length = unitPadding us.val.length →
      j.enforceInterface (leBytes 4 policy.toNat ++ (stringData us.val pad ++ data)) d =
        if us = d then .ok data else .error j.denied
  writeString_some : ∀ data (us : JString), ∃ pad : List UInt8,
    pad.length = unitPadding us.val.length ∧
      j.writeString data (some us) = data ++ stringData us.val pad
  readString_some : ∀ (us : JString) pad data, pad.length = unitPadding us.val.length →
    j.readString (stringData us.val pad ++ data) = (some us,data)
  writeString_null : ∀ data, j.writeString data none = data ++ leBytes 4 (2 ^ 32 - 1)
  readString_null : ∀ data, j.readString (leBytes 4 (2 ^ 32 - 1) ++ data) = (none,data)
  writeNoException_data : ∀ data, j.writeNoException data = data ++ leBytes 4 0
  readException_none : ∀ data, j.readException (leBytes 4 0 ++ data) = .ok data
  readException_code : ∀ code : Int32, code ≠ 0 → code ≠ exHasReplyHeader →
    ∃ e, j.readException (leBytes 4 code.toUInt32.toNat) = .error e
  readException_header :
    ∃ data, j.readException (leBytes 4 exHasReplyHeader.toUInt32.toNat) = .ok data
  -- past the end of a Parcel an int is 0
  readException_end : j.readException [] = .ok []
  readInt32_end : (j.lib.readInt32 []).1 = 0
  status_data : ∀ out handles m txn (n : Int32), Delivered A out handles m txn → out.offsets = [] →
    A.sizeT.wrap txn.buffer.toNat = txn.buffer.toNat →
    out.data = leBytes 4 n.toUInt32.toNat → j.status m txn = n
  onTransact_unknown : ∀ (code : UInt32) data reply, code ≤ 0xffffff →
    (j.onTransact code data reply).1 = false
  answer_unknown : ∀ reply, j.answer (.ok (false,reply)) = j.lib.sendReply unknownTransaction reply
  answer_done : ∀ reply, j.answer (.ok (true,reply)) = j.lib.sendReply 0 reply
  answer_thrown : ∀ k, ∃ message : List UInt8,
    let reply := leBytes 4 (j.exceptionCode k).toUInt32.toNat ++ message
    j.answer (.error k) = j.lib.sendReply 0 reply ∧ j.readException reply = .error (j.raise k) ∧
      reply.length < 2 ^ 32

-- IBinder.FIRST_CALL_TRANSACTION and INTERFACE_TRANSACTION
def firstCallTransaction : UInt32 := 1

def interfaceTransaction : UInt32 := 0x5f4e5446

def transactionSayhello : UInt32 := firstCallTransaction + 0

def transactionSayhelloTo : UInt32 := firstCallTransaction + 1

structure IHelloService (σ K : Type) where
  sayhello : σ → Except K Unit × σ
  sayhelloTo : Option JString → σ → Except K Int32 × σ

def helloService (K : Type) : IHelloService Int32 K where
  sayhello cnt := (.ok (),cnt + 1)
  sayhelloTo _ cnt := (.ok (cnt + 1),cnt + 1)

section
variable {A : Abi} {σ K E : Type} (j : JavaLibrary A K E)

def stubOnTransact (impl : IHelloService σ K) (code : UInt32) (data reply : List UInt8) (s : σ) :
    Except K (Bool × List UInt8) × σ :=
  if code = interfaceTransaction then (.ok (true,j.writeString reply (some descriptor)),s)
  else if code = transactionSayhello then
    match j.enforceInterface data descriptor with
    | .error e => (.error e,s)
    | .ok _ =>
      match impl.sayhello s with
      | (.error e,s) => (.error e,s)
      | (.ok _,s) => (.ok (true,j.writeNoException reply),s)
  else if code = transactionSayhelloTo then
    match j.enforceInterface data descriptor with
    | .error e => (.error e,s)
    | .ok data =>
      match impl.sayhelloTo (j.readString data).1 s with
      | (.error e,s) => (.error e,s)
      | (.ok result,s) => (.ok (true,j.lib.writeInt32 (j.writeNoException reply) result),s)
  else (.ok (j.onTransact code data reply),s)

inductive Method where
  | sayhello
  | sayhelloTo (name : Option JString)

-- _data of the proxy's method and its call of mRemote.transact
def Method.transact (remote : UInt32) : Method → Outgoing
  | .sayhello => j.lib.transact remote transactionSayhello (j.writeInterfaceToken [] descriptor)
  | .sayhelloTo name => j.lib.transact remote transactionSayhelloTo
      (j.writeString (j.writeInterfaceToken [] descriptor) name)

-- _reply after transact; for UNKNOWN_TRANSACTION that returns false, which the proxy ignores
def replied (m : Mem) (txn : BinderTransactionData A) : Except E (List UInt8) :=
  if txn.flags &&& tfStatusCode = 0 then .ok (j.lib.received m txn)
  else if j.status m txn = unknownTransaction then .ok []
  else .error (j.statusError (j.status m txn))

-- what the proxy's method makes of _reply; sayhello has no result
def Method.read : Method → List UInt8 → Except E (Option Int32)
  | .sayhello, data => (j.readException data).map fun _ => none
  | .sayhelloTo _, data => (j.readException data).map fun data => some (j.lib.readInt32 data).1

def Method.returned (method : Method) (m : Mem) (txn : BinderTransactionData A) :
    Except E (Option Int32) :=
  (replied j m txn).bind (method.read j)

def Method.direct (impl : IHelloService σ K) (s : σ) : Method → Except K (Option Int32) × σ
  | .sayhello => ((impl.sayhello s).1.map fun _ => none,(impl.sayhello s).2)
  | .sayhelloTo name => ((impl.sayhelloTo name s).1.map some,(impl.sayhelloTo name s).2)

def Method.answered (impl : IHelloService σ K) (s : σ) : Method → Except K (List UInt8)
  | .sayhello => (impl.sayhello s).1.map fun _ => leBytes 4 0
  | .sayhelloTo name =>
    (impl.sayhelloTo name s).1.map fun n => leBytes 4 0 ++ leBytes 4 n.toUInt32.toNat

def stubServed (impl : IHelloService σ K) (m : Mem) (txn : BinderTransactionData A) (s : σ) :
    Outgoing × σ :=
  let out := stubOnTransact j impl txn.code (j.lib.received m txn) [] s
  (j.answer out.1,out.2)

variable {j} (h : JavaDocumented j)
include h

theorem token_enforced (data : List UInt8) :
    j.enforceInterface (j.writeInterfaceToken [] descriptor ++ data) descriptor = .ok data := by
  obtain ⟨pad,hpad,htoken⟩ := h.writeInterfaceToken_data [] descriptor
  have hsame := h.enforceInterface_data j.strictMode descriptor descriptor pad data hpad
  rw [htoken,List.nil_append,List.append_assoc,hsame,if_pos rfl]

theorem string_read (data : List UInt8) (name : Option JString) : ∃ bytes,
    j.writeString data name = data ++ bytes ∧ (j.readString bytes).1 = name := by
  cases name with
  | none =>
    have hnull := h.readString_null []
    rw [List.append_nil] at hnull
    exact ⟨_,h.writeString_null data,congrArg Prod.fst hnull⟩
  | some us =>
    obtain ⟨pad,hpad,hstring⟩ := h.writeString_some data us
    have hread := h.readString_some us pad [] hpad
    rw [List.append_nil] at hread
    exact ⟨_,hstring,congrArg Prod.fst hread⟩

theorem request_received {remote code : UInt32} {data : List UInt8}
    (request : Carried A (j.lib.transact remote code data) .transaction) :
    request.txn.code = code ∧ j.lib.received request.read.mem request.txn = data := by
  obtain ⟨hcode,hflags,hdata,hoffs⟩ := h.lib.transact_sent remote code data
  refine ⟨request.code.trans hcode,?_⟩
  rw [h.lib.received_data _ _ _ _ request.delivered hoffs (request.flags ▸ hflags) request.buffer,
    hdata]

theorem reply_received {sent : Outgoing} {data : List UInt8} (hsent : sent = j.lib.sendReply 0 data)
    (reply : Carried A sent .reply) : replied j reply.read.mem reply.txn = .ok data := by
  obtain ⟨hflags,hdata,hoffs⟩ := h.lib.sendReply_sent data
  rw [← hsent] at hflags hdata hoffs
  have hclear : reply.txn.flags &&& tfStatusCode = 0 := reply.flags ▸ hflags
  rw [replied,if_pos hclear,
    h.lib.received_data _ _ _ _ reply.delivered hoffs hclear reply.buffer,hdata]

variable (impl : IHelloService σ K) (s : σ)

theorem stub_sayhello : stubOnTransact j impl transactionSayhello
    (j.writeInterfaceToken [] descriptor) [] s =
      ((Method.sayhello.answered impl s).map fun data => (true,data),(impl.sayhello s).2) := by
  have htoken := token_enforced h []
  have hnone := h.writeNoException_data []
  rw [List.append_nil] at htoken
  rw [List.nil_append] at hnone
  have hother : transactionSayhello ≠ interfaceTransaction := by decide
  rw [stubOnTransact,if_neg hother,if_pos rfl,htoken,hnone,Method.answered]
  obtain ⟨result,s'⟩ := impl.sayhello s
  cases result with
  | error e => rfl
  | ok u => rfl

theorem stub_sayhelloTo (name : Option JString) : stubOnTransact j impl transactionSayhelloTo
    (j.writeString (j.writeInterfaceToken [] descriptor) name) [] s =
      (((Method.sayhelloTo name).answered impl s).map fun data => (true,data),
        (impl.sayhelloTo name s).2) := by
  obtain ⟨bytes,hwrite,hread⟩ := string_read h (j.writeInterfaceToken [] descriptor) name
  have htoken := token_enforced h bytes
  have hnone := h.writeNoException_data []
  rw [List.nil_append] at hnone
  have hother : transactionSayhelloTo ≠ interfaceTransaction := by decide
  have hsayhello : transactionSayhelloTo ≠ transactionSayhello := by decide
  rw [stubOnTransact,if_neg hother,if_neg hsayhello,if_pos rfl,hwrite,htoken,Method.answered]
  simp only [hread,hnone,h.lib.writeInt32_data]
  obtain ⟨result,s'⟩ := impl.sayhelloTo name s
  cases result with
  | error e => rfl
  | ok n => rfl

theorem stubServed_eq {remote : UInt32} {m : Method}
    (request : Carried A (m.transact j remote) .transaction) :
    stubServed j impl request.read.mem request.txn s =
      (j.answer ((m.answered impl s).map fun data => (true,data)),(m.direct impl s).2) := by
  cases m with
  | sayhello =>
    obtain ⟨hcode,hin⟩ := request_received h request
    rw [stubServed,hcode,hin,stub_sayhello h]
    rfl
  | sayhelloTo name =>
    obtain ⟨hcode,hin⟩ := request_received h request
    rw [stubServed,hcode,hin,stub_sayhelloTo h]
    rfl

theorem returned_answered {m : Method}
    (reply : Carried A (j.answer ((m.answered impl s).map fun data => (true,data))) .reply) :
    m.returned j reply.read.mem reply.txn = (m.direct impl s).1.mapError j.raise := by
  cases m with
  | sayhello =>
    revert reply
    rw [Method.direct,Method.answered]
    generalize (impl.sayhello s).1 = result
    intro reply
    cases result with
    | error e =>
      obtain ⟨message,hsent,hthrown,-⟩ := h.answer_thrown e
      rw [Method.returned,reply_received h hsent reply,Except.bind,Method.read,hthrown]
      rfl
    | ok u =>
      have hnone := h.readException_none []
      rw [List.append_nil] at hnone
      rw [Method.returned,reply_received h (h.answer_done _) reply,Except.bind,Method.read,hnone]
      rfl
  | sayhelloTo name =>
    revert reply
    rw [Method.direct,Method.answered]
    generalize (impl.sayhelloTo name s).1 = result
    intro reply
    cases result with
    | error e =>
      obtain ⟨message,hsent,hthrown,-⟩ := h.answer_thrown e
      rw [Method.returned,reply_received h hsent reply,Except.bind,Method.read,hthrown]
      rfl
    | ok n =>
      have hnone := h.readException_none (leBytes 4 n.toUInt32.toNat)
      have hcount := h.lib.readInt32_data n []
      rw [List.append_nil] at hcount
      rw [Method.returned,reply_received h (h.answer_done _) reply,Except.bind,Method.read,hnone]
      simp only [Except.map,hcount]
      rfl

theorem stub_served {remote : UInt32} {m : Method}
    (request : Carried A (m.transact j remote) .transaction)
    (reply : Carried A (stubServed j impl request.read.mem request.txn s).1 .reply) :
    (stubServed j impl request.read.mem request.txn s).2 = (m.direct impl s).2 ∧
      m.returned j reply.read.mem reply.txn = (m.direct impl s).1.mapError j.raise := by
  have hserved := stubServed_eq h impl s request
  generalize stubServed j impl request.read.mem request.txn s = served at reply hserved ⊢
  subst hserved
  exact ⟨rfl,returned_answered h impl s reply⟩

def Called (j : JavaLibrary A K E) (impl : IHelloService σ K) (remote : UInt32) (s : σ) (m : Method)
    (result : Except E (Option Int32)) (s' : σ) : Prop :=
  ∃ (request : Carried A (m.transact j remote) .transaction)
    (reply : Carried A (stubServed j impl request.read.mem request.txn s).1 .reply),
    m.returned j reply.read.mem reply.txn = result ∧
      (stubServed j impl request.read.mem request.txn s).2 = s'

theorem called_direct {remote : UInt32} {m : Method} {result : Except E (Option Int32)} {s' : σ}
    (hcall : Called j impl remote s m result s') :
    (m.direct impl s).1.mapError j.raise = result ∧ (m.direct impl s).2 = s' := by
  obtain ⟨request,reply,rfl,rfl⟩ := hcall
  obtain ⟨hstate,hreturned⟩ := stub_served h impl s request reply
  exact ⟨hreturned.symm,hstate.symm⟩

theorem token_length : (j.writeInterfaceToken [] descriptor).length = 36 := by
  obtain ⟨pad,hpad,htoken⟩ := h.writeInterfaceToken_data [] descriptor
  rw [htoken,List.nil_append,List.length_append,leBytes_length,stringData_length _ hpad]
  rfl

theorem request_small (remote : UInt32) (m : Method) : (m.transact j remote).offsets = [] ∧
    (m.transact j remote).data.length < 2 ^ 32 := by
  have htoken := token_length h
  cases m with
  | sayhello =>
    obtain ⟨-,-,hdata,hoffs⟩ := h.lib.transact_sent remote transactionSayhello
      (j.writeInterfaceToken [] descriptor)
    rw [Method.transact,hdata,htoken]
    exact ⟨hoffs,by decide⟩
  | sayhelloTo name =>
    obtain ⟨-,-,hdata,hoffs⟩ := h.lib.transact_sent remote transactionSayhelloTo
      (j.writeString (j.writeInterfaceToken [] descriptor) name)
    rw [Method.transact,hdata]
    refine ⟨hoffs,?_⟩
    cases name with
    | none =>
      rw [h.writeString_null,List.length_append,htoken,leBytes_length]
      decide
    | some us =>
      obtain ⟨pad,hpad,hstring⟩ := h.writeString_some (j.writeInterfaceToken [] descriptor) us
      have hshort := us.property
      rw [hstring,List.length_append,htoken,stringData_length _ hpad]
      omega

omit impl s in
theorem answer_small (result : Except K (List UInt8))
    (hshort : ∀ data, result = .ok data → data.length < 2 ^ 32) :
    (j.answer (result.map fun data => (true,data))).offsets = [] ∧
      (j.answer (result.map fun data => (true,data))).data.length < 2 ^ 32 := by
  have hsent : ∀ data : List UInt8, data.length < 2 ^ 32 →
      (j.lib.sendReply 0 data).offsets = [] ∧ (j.lib.sendReply 0 data).data.length < 2 ^ 32 := by
    intro data hlen
    obtain ⟨-,hdata,hoffs⟩ := h.lib.sendReply_sent data
    rw [hdata]
    exact ⟨hoffs,hlen⟩
  cases result with
  | error e =>
    obtain ⟨message,hreply,-,hlen⟩ := h.answer_thrown e
    rw [Except.map,hreply]
    exact hsent _ hlen
  | ok data =>
    rw [Except.map,h.answer_done]
    exact hsent data (hshort data rfl)

omit h in
theorem answered_short (m : Method) (data : List UInt8) (hdata : m.answered impl s = .ok data) :
    data.length < 2 ^ 32 := by
  cases m with
  | sayhello =>
    rw [Method.answered] at hdata
    cases hresult : (impl.sayhello s).1 <;> rw [hresult] at hdata <;> cases hdata
    rw [leBytes_length]
    decide
  | sayhelloTo name =>
    rw [Method.answered] at hdata
    cases hresult : (impl.sayhelloTo name s).1 <;> rw [hresult] at hdata <;> cases hdata
    rw [List.length_append,leBytes_length,leBytes_length]
    decide

theorem direct_called (remote : UInt32) (m : Method) :
    Called j impl remote s m ((m.direct impl s).1.mapError j.raise) (m.direct impl s).2 := by
  obtain ⟨hoffs,hlen⟩ := request_small h remote m
  let request := carryPlain .transaction (A := A) 0 (m.transact j remote) hoffs hlen
  have hserved := stubServed_eq h impl s request
  obtain ⟨hoffs',hlen'⟩ := answer_small h (m.answered impl s) (answered_short impl s m)
  have hsent : (stubServed j impl request.read.mem request.txn s).1 =
      j.answer ((m.answered impl s).map fun data => (true,data)) := congrArg Prod.fst hserved
  rw [← hsent] at hoffs' hlen'
  let reply := carryPlain .reply (A := A) 0 _ hoffs' hlen'
  obtain ⟨hstate,hreturned⟩ := stub_served h impl s request reply
  exact ⟨request,reply,hreturned,hstate⟩

theorem aidl_transparent (remote : UInt32) (ms : List Method) (rs : List (Except E (Option Int32)))
    (s' : σ) : Session (Called j impl remote) s ms rs s' ↔
      trace (fun s m => (m.direct impl s).2)
          (fun s m => (m.direct impl s).1.mapError j.raise) s ms = rs ∧
        run (fun s m => (m.direct impl s).2) s ms = s' :=
  session_iff (fun s _ _ _ hcall => called_direct h impl s hcall)
    fun s => direct_called h impl s remote

end

abbrev Known := {code : Int32 // code ≠ 0 ∧ code ≠ exHasReplyHeader}

def exSecurity : Known := ⟨-1,by decide⟩

def exceptionReply (e : Known) : List UInt8 :=
  leBytes 4 e.val.toUInt32.toNat ++ leBytes 4 (2 ^ 32 - 1)

def referenceJava (A : Abi) : JavaLibrary A Known Int32 where
  lib := referenceLibrary A
  strictMode := 0x100
  writeInterfaceToken data d := (referenceLibrary A).writeString16 (data ++ leBytes 4 0x100) d.val
  enforceInterface data d :=
    let us := (referenceLibrary A).readString16 (data.drop 4)
    if us.1 = d.val then .ok us.2 else .error exSecurity
  writeString data
    | none => data ++ leBytes 4 (2 ^ 32 - 1)
    | some us => (referenceLibrary A).writeString16 data us.val
  readString data :=
    if data.take 4 = leBytes 4 (2 ^ 32 - 1) then (none,data.drop 4)
    else
      let us := (referenceLibrary A).readString16 data
      if hlen : us.1.length < 2 ^ 30 then (some ⟨us.1,hlen⟩,us.2) else (none,us.2)
  writeNoException data := data ++ leBytes 4 0
  readException data :=
    let code := (referenceLibrary A).readInt32 data
    if code.1 ≠ 0 ∧ code.1 ≠ exHasReplyHeader then .error code.1 else .ok code.2
  raise := Subtype.val
  exceptionCode := Subtype.val
  denied := exSecurity
  status m txn := (load32 m txn.buffer.toNat).toInt32
  statusError status := status
  onTransact _ _ reply := (false,reply)
  answer
    | .ok (true,reply) => (referenceLibrary A).sendReply 0 reply
    | .ok (false,reply) => (referenceLibrary A).sendReply unknownTransaction reply
    | .error e => (referenceLibrary A).sendReply 0 (exceptionReply e)

section
variable (A : Abi)

theorem leBytes_drop (v : ℕ) (data : List UInt8) : (leBytes 4 v ++ data).drop 4 = data :=
  (congrArg (fun k => List.drop k (leBytes 4 v ++ data)) (leBytes_length 4 v).symm).trans
    List.drop_left

theorem leBytes_take (v : ℕ) (data : List UInt8) : (leBytes 4 v ++ data).take 4 = leBytes 4 v :=
  (congrArg (fun k => List.take k (leBytes 4 v ++ data)) (leBytes_length 4 v).symm).trans
    List.take_left

theorem reference_readString (us : JString) (pad data : List UInt8)
    (hpad : pad.length = unitPadding us.val.length) :
    (referenceJava A).readString (stringData us.val pad ++ data) = (some us,data) := by
  have hlen := us.property
  have hread := reference_readString16 A us.val pad data hlen hpad
  have hsome : ¬ (stringData us.val pad ++ data).take 4 = leBytes 4 (2 ^ 32 - 1) := by
    rw [stringData,List.append_assoc,leBytes_take]
    intro hsame
    have hnat := congrArg leNat hsame
    rw [leNat_leBytes_of_lt (by omega),leNat_leBytes_of_lt (by decide)] at hnat
    omega
  have hshort : ((referenceLibrary A).readString16 (stringData us.val pad ++ data)).1.length <
      2 ^ 30 := by
    rw [hread]
    exact hlen
  simp only [referenceJava]
  rw [if_neg hsome,dif_pos hshort]
  simp only [hread,Subtype.coe_eta]

theorem reference_readException (code : Int32) (data : List UInt8) :
    (referenceJava A).readException (leBytes 4 code.toUInt32.toNat ++ data) =
      if code ≠ 0 ∧ code ≠ exHasReplyHeader then .error code else .ok data := by
  simp only [referenceJava,reference_readInt32 A code data]

theorem referenceJava_documented : JavaDocumented (referenceJava A) where
  lib := reference_documented A
  writeInterfaceToken_data data d := ⟨List.replicate (unitPadding d.val.length) 0,
    List.length_replicate,List.append_assoc _ _ _⟩
  enforceInterface_data policy us d pad data hpad := by
    simp only [referenceJava,leBytes_drop,reference_readString16 A us.val pad data us.property hpad,
      Subtype.ext_iff]
  writeString_some data us := ⟨List.replicate (unitPadding us.val.length) 0,
    List.length_replicate,rfl⟩
  readString_some us pad data := reference_readString A us pad data
  writeString_null _ := rfl
  readString_null data := by
    simp only [referenceJava,leBytes_take,leBytes_drop,if_true]
  writeNoException_data _ := rfl
  readException_none := reference_readException A 0
  readException_code code hzero hheader := by
    have hread := reference_readException A code []
    rw [List.append_nil,if_pos ⟨hzero,hheader⟩] at hread
    exact ⟨code,hread⟩
  readException_header := by
    have hread := reference_readException A exHasReplyHeader []
    rw [List.append_nil,if_neg (by decide)] at hread
    exact ⟨[],hread⟩
  readException_end := rfl
  readInt32_end := rfl
  status_data out handles m txn n hd hoffs _ hdata := by
    have hslice := delivered_slice hd hoffs
    rw [hdata,leBytes_length] at hslice
    have hload : load32 m txn.buffer.toNat = n.toUInt32 := load32_of_slice hslice
    simp only [referenceJava,hload]
    exact Int32.toInt32_toUInt32 n
  onTransact_unknown _ _ _ _ := rfl
  answer_unknown _ := rfl
  answer_done _ := rfl
  answer_thrown e := by
    have hread := reference_readException A e.val (leBytes 4 (2 ^ 32 - 1))
    refine ⟨leBytes 4 (2 ^ 32 - 1),rfl,hread.trans (if_pos e.property),?_⟩
    rw [List.length_append,leBytes_length,leBytes_length]
    decide

end

theorem helloService_transparent : Session (Called (referenceJava (Abi.uniform .four))
    (helloService Known) 1) 0 [.sayhello,.sayhelloTo (some descriptor),.sayhelloTo none]
      [.ok none,.ok (some 2),.ok (some 3)] 3 :=
  (aidl_transparent (referenceJava_documented (Abi.uniform .four)) (helloService Known) 0 1
    [.sayhello,.sayhelloTo (some descriptor),.sayhelloTo none]
    [.ok none,.ok (some 2),.ok (some 3)] 3).mpr ⟨rfl,rfl⟩

end Testserver
