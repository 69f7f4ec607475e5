import AndroidProjects.Foundation.Binding
import AndroidProjects.Foundation.Machine
import AndroidProjects.Servicemanager.Serving

namespace Servicemanager
open Binder ByteMemory Layout

inductive ClientCall (A : Abi) where
  | publish (name : CName) (ptr : {p : A.Uintptr // p ≠ 0})
  | lookup (name : CName)

structure Exchange (A : Abi) where
  pid : ℕ
  call : ClientCall A
  frame : Frame
  request : Mail A
  waits : List (Delivery A)
  reply : Mail A

inductive Returned where
  | status (r : Int)
  | handle (h : UInt32)
  deriving DecidableEq, Repr

structure World (A : Abi) (σ : Type) where
  manager : Looper A (Svcmgr A)
  procs : ℕ → Proc A σ
  table : HandleTable A

section
variable {A : Abi}

namespace ClientCall

def msg (f : Frame) : ClientCall A → BinderIo
  | publish name ptr => publishMsg A f name ptr.1
  | lookup name => lookupMsg A f name

def code : ClientCall A → UInt32
  | publish _ _ => svcMgrAddService
  | lookup _ => svcMgrCheckService

end ClientCall

namespace Exchange

def sent (e : Exchange A) : Option Outgoing :=
  callSent (e.call.msg e.frame) binderServiceManager e.call.code

def rounds (e : Exchange A) : List CallRound := waitRounds e.waits e.reply.read

end Exchange

section
variable {σ : Type} (V : ℕ → Server A σ) (uid : Party → UInt32) (st : BinderState)

def returned (w : World A σ) (e : Exchange A) : Option (Returned × Proc A σ) :=
  match e.call with
  | .publish name ptr =>
    (svcmgrPublish (V e.pid) (w.procs e.pid) e.frame binderServiceManager name ptr.1 e.rounds).map
      fun out => (.status out.1,out.2)
  | .lookup name =>
    (svcmgrLookup (V e.pid) (w.procs e.pid) e.frame binderServiceManager name e.rounds).map
      fun out => (.handle out.1,out.2)

def managerRound (w : World A σ) (e : Exchange A) : Looper A (Svcmgr A) :=
  loopRound (svcmgrServer A st e.request.read.rdata) w.manager (some e.request.read.read)

def exchange (w : World A σ) (e : Exchange A) : World A σ where
  manager := if e.sent.isSome then managerRound st w e else w.manager
  procs := fun q =>
    match returned V w e with
    | some out => if q = e.pid then out.2 else w.procs q
    | none => w.procs q
  table := if e.sent.isSome then e.reply.table else w.table

structure Conveyed (w : World A σ) (e : Exchange A) (out : Outgoing) : Prop where
  malloc : w.manager.proc.globals.malloc ≠ none
  request : Called uid w.table (.process e.pid) ⟨.contextManager,0⟩ out e.request
  reply : ∀ back, lastReply (managerRound st w e).proc = some back →
    Posted e.request.table .contextManager (.process e.pid) back .reply e.reply
  waits : ∀ δ ∈ e.waits, ∀ c ∈ δ.cmds, c.quiet = true

def DriverServes (w : World A σ) (e : Exchange A) : Prop :=
  ∀ out, e.sent = some out → Conveyed uid st w e out

def published (w : World A σ) (e : Exchange A) : Binding.Event (List UInt8) (ℕ × A.Uintptr) :=
  match e.call, returned V w e with
  | .publish name ptr, some (.status r,_) =>
    if r = 0 then .bind name.chars (e.pid,ptr.1) else .skip
  | _, _ => .skip

def World.svclist (w : World A σ) : Svclist A := Manager.svclist w.manager.proc

def worldStart (heap : ℕ → Option A.Uintptr) (procs : ℕ → Proc A σ) (table : HandleTable A) :
    World A σ :=
  ⟨binderLoop (svcmgrServer A st fun _ _ => 0) (started heap) [],procs,table⟩

abbrev Log (A : Abi) := List (Binding.Event (List UInt8) (ℕ × A.Uintptr))

def log (w : World A σ) (es : List (Exchange A)) : Log A :=
  (Machine.trace (exchange V st) (published V) w es).reverse

structure Agrees (w : World A σ) (h : Log A) : Prop where
  running : w.manager.running = true
  names : w.svclist.NamesNodup
  short : ∀ si ∈ w.svclist.entries, si.name.length ≤ 127
  found : ∀ n v, Binding.latest n h = some v → ∃ si, w.svclist.named (wide n) = some si ∧
    si.handle ≠ 0 ∧ w.table .contextManager si.handle = some ⟨.process v.1,v.2.setWidth _⟩
  absent : ∀ n, Binding.latest n h = none → w.svclist.named (wide n) = none

def PublishAnswered (w : World A σ) (e : Exchange A) (h : Log A) (name : CName) : Prop :=
  ∃ r p, returned V w e = some (.status r,p) ∧
    (r = 0 ↔ 1 ≤ name.chars.length ∧ name.chars.length ≤ 127) ∧
    (r ≠ 0 → (exchange V st w e).svclist = w.svclist) ∧
    Agrees (exchange V st w e) (published V w e :: h)

def LookupAnswered (w : World A σ) (e : Exchange A) (h : Log A) (name : CName) : Prop :=
  ∃ k p, returned V w e = some (.handle k,p) ∧
    (k = 0 ∧ Binding.latest name.chars h = none ∨
      k ≠ 0 ∧ ∃ v, Binding.latest name.chars h = some v ∧
        (exchange V st w e).table (.process e.pid) k = some ⟨.process v.1,v.2.setWidth _⟩)

variable {V uid st}

theorem agrees_listed {w : World A σ} {h : Log A} (ha : Agrees w h) {n : List UInt8}
    (hn : w.svclist.handleOf (wide n) ≠ 0) : ∃ v, Binding.latest n h = some v ∧
      w.table .contextManager (w.svclist.handleOf (wide n)) =
        some ⟨.process v.1,v.2.setWidth _⟩ := by
  cases hl : Binding.latest n h with
  | none =>
    rw [Svclist.handleOf,ha.absent n hl] at hn
    exact absurd rfl hn
  | some v =>
    obtain ⟨si,hsi,-,hnode⟩ := ha.found n v hl
    rw [Svclist.handleOf,hsi]
    exact ⟨v,rfl,hnode⟩

theorem agrees_unlisted {w : World A σ} {h : Log A} (ha : Agrees w h) {n : List UInt8}
    (hz : w.svclist.handleOf (wide n) = 0) : Binding.latest n h = none := by
  cases hl : Binding.latest n h with
  | none => rfl
  | some v =>
    obtain ⟨si,hsi,hn,-⟩ := ha.found n v hl
    rw [Svclist.handleOf,hsi] at hz
    exact absurd hz hn

theorem agrees_long {w : World A σ} {h : Log A} (ha : Agrees w h) {n : List UInt8}
    (hlong : ¬ n.length ≤ 127) : Binding.latest n h = none := by
  cases hl : Binding.latest n h with
  | none => rfl
  | some v =>
    obtain ⟨si,hsi,-,-⟩ := ha.found n v hl
    obtain ⟨hmem,hname⟩ := (Svclist.named_eq_some ha.names).mp hsi
    have hshort := ha.short si hmem
    rw [hname,wide_length] at hshort
    exact absurd hshort hlong

theorem agrees_same {w w' : World A σ} {h : Log A} (ha : Agrees w h)
    (hrun : w'.manager.running = true) (hl : w'.svclist = w.svclist)
    (hkeep : ∀ q k node, w.table q k = some node → w'.table q k = some node) :
    Agrees w' (.skip :: h) where
  running := hrun
  names := hl ▸ ha.names
  short := hl ▸ ha.short
  found n v hv := by
    obtain ⟨si,hsi,hn,hnode⟩ := ha.found n v hv
    exact ⟨si,hl ▸ hsi,hn,hkeep _ _ _ hnode⟩
  absent n hv := hl ▸ ha.absent n hv

theorem agrees_installed {w w' : World A σ} {h : Log A} (ha : Agrees w h)
    (hrun : w'.manager.running = true) {p p' : Manager A} {s : ℕ → UInt16} {len : ℕ} {k : UInt32}
    {allow : Int} (hadd : Added p s len k allow (0,p')) (hp : p.svclist = w.svclist)
    (hl : w'.svclist = p'.svclist) {chars : List UInt8} (hname : units s len = wide chars)
    (hlen : chars.length ≤ 127) (hk : k ≠ 0) {pid : ℕ} {ptr : A.Uintptr}
    (hnode : w'.table .contextManager k = some ⟨.process pid,ptr.setWidth _⟩)
    (hkeep : ∀ q k node, w.table q k = some node → w'.table q k = some node) :
    Agrees w' (.bind chars (pid,ptr) :: h) := by
  have hold : p.svclist.NamesNodup := hp ▸ ha.names
  have hnodup := added_names hold hadd
  obtain ⟨⟨si,hsi,hnamed⟩,hentries⟩ := added_named hold hadd
  rw [hp] at hnamed hentries
  rw [← hl] at hnodup hnamed hentries
  have hother : ∀ n, n ≠ chars → w'.svclist.named (wide n) = w.svclist.named (wide n) := by
    intro n hn
    rw [hnamed,hname,if_neg fun hw => hn (wide_inj hw)]
  refine ⟨hrun,hnodup,fun sj hj => ?_,fun n v hv => ?_,fun n hv => ?_⟩
  · rcases hentries sj hj with hs | ⟨sk,hk',hs⟩
    · rw [hs,hname,wide_length]
      exact hlen
    · rw [← hs]
      exact ha.short sk hk'
  · rw [Binding.latest_bind] at hv
    split_ifs at hv with hc
    · subst hc
      obtain rfl := Option.some.inj hv
      refine ⟨si,?_,hsi ▸ hk,hsi ▸ hnode⟩
      rw [hnamed,hname,if_pos rfl]
    · obtain ⟨sj,hj,hn,hnode'⟩ := ha.found n v hv
      refine ⟨sj,?_,hn,hkeep _ _ _ hnode'⟩
      rw [hother n (Ne.symm hc)]
      exact hj
  · rw [Binding.latest_bind] at hv
    split_ifs at hv with hc
    rw [hother n (Ne.symm hc)]
    exact ha.absent n hv

theorem managerRound_served (st : BinderState) {w : World A σ} {e : Exchange A}
    (hrun : w.manager.running = true)
    (hread : Surrounded e.request.read.cmds (.transaction e.request.txn)) :
    ∃ (p : Manager A) (r : Mem), p.globals = w.manager.proc.globals ∧
      ∀ res reply p', svcmgrHandler A p e.request.txn
          (bioInitFromTxn A e.request.read.mem e.request.txn) (blankReply A r) = (res,reply,p') →
        (managerRound st w e).running = true ∧
        Manager.svclist (managerRound st w e).proc = Manager.svclist p' ∧
        lastReply (managerRound st w e).proc =
          some (if res ≠ 0 then statusReply res else dataReply reply) := by
  obtain ⟨at',k,n,hround⟩ := loopRound_transaction
    (svcmgrServer A st e.request.read.rdata) hrun hread
  refine ⟨spawned w.manager.proc k,e.request.read.rdata at',rfl,fun res reply p' hout => ?_⟩
  obtain ⟨hl,hreply⟩ := serveTransaction_svcmgr st e.request.read.rdata e.request.read.mem _
    e.request.txn _ hout
  rw [managerRound,hround]
  exact ⟨rfl,hl,hreply⟩

section
variable (V st) (w : World A σ) {e : Exchange A}

theorem exchange_sent {out : Outgoing} (hs : e.sent = some out) :
    (exchange V st w e).manager = managerRound st w e ∧
      (exchange V st w e).table = e.reply.table := by
  simp only [exchange,hs,Option.isSome_some,if_true]
  exact ⟨trivial,trivial⟩

theorem exchange_unsent (hs : e.sent = none) : (exchange V st w e).manager = w.manager ∧
    (exchange V st w e).table = w.table := by
  simp only [exchange,hs,Option.isSome_none,Bool.false_eq_true,if_false]
  exact ⟨trivial,trivial⟩

end

section
variable {w : World A σ} {e : Exchange A} {h : Log A}

theorem conveyed_keeps {out back : Outgoing} (hv : Conveyed uid st w e out)
    (hback : lastReply (managerRound st w e).proc = some back) {q : Party} {k : UInt32}
    {node : Node A} (hk : w.table q k = some node) :
    e.request.table q k = some node ∧ e.reply.table q k = some node := by
  have hrequest := hv.request.posted.translated.keeps q k node hk
  exact ⟨hrequest,(hv.reply back hback).translated.keeps q k node hrequest⟩

theorem agrees_unsent (ha : Agrees w h) (hs : e.sent = none) :
    (exchange V st w e).svclist = w.svclist ∧ Agrees (exchange V st w e) (.skip :: h) := by
  obtain ⟨hm,ht⟩ := exchange_unsent V st w hs
  have hl : (exchange V st w e).svclist = w.svclist := by rw [World.svclist,hm,World.svclist]
  refine ⟨hl,agrees_same ha ?_ hl ?_⟩
  · rw [hm]
    exact ha.running
  · intro q k node hk
    rw [ht]
    exact hk

theorem agrees_unchanged (ha : Agrees w h) {out back : Outgoing} (hs : e.sent = some out)
    (hv : Conveyed uid st w e out)
    (hback : lastReply (managerRound st w e).proc = some back)
    (hrun : (managerRound st w e).running = true)
    (hl : Manager.svclist (managerRound st w e).proc = w.svclist) :
    (exchange V st w e).svclist = w.svclist ∧ Agrees (exchange V st w e) (.skip :: h) := by
  obtain ⟨hm,ht⟩ := exchange_sent V st w hs
  have hsame : (exchange V st w e).svclist = w.svclist := by rw [World.svclist,hm,hl]
  refine ⟨hsame,agrees_same ha ?_ hsame ?_⟩
  · rw [hm]
    exact hrun
  · intro q k node hk
    rw [ht]
    exact (conveyed_keeps hv hback hk).2

theorem published_status {name : CName} {ptr : {p : A.Uintptr // p ≠ 0}}
    (he : e.call = .publish name ptr) {r : Int} {p : Proc A σ}
    (hret : returned V w e = some (.status r,p)) :
    published V w e = if r = 0 then .bind name.chars (e.pid,ptr.1) else .skip := by
  simp only [published,he,hret]

theorem published_lookup {name : CName} (he : e.call = .lookup name) : published V w e = .skip := by
  simp only [published,he]

theorem returned_publish {name : CName} {ptr : {p : A.Uintptr // p ≠ 0}}
    (he : e.call = .publish name ptr) {r : Int} {p : Proc A σ} (hr : svcmgrPublish (V e.pid)
      (w.procs e.pid) e.frame binderServiceManager name ptr.1 e.rounds = some (r,p)) :
    returned V w e = some (.status r,p) := by
  simp only [returned,he,hr,Option.map_some]

theorem returned_lookup {name : CName} (he : e.call = .lookup name) {k : UInt32} {p : Proc A σ}
    (hk : svcmgrLookup (V e.pid) (w.procs e.pid) e.frame binderServiceManager name e.rounds =
      some (k,p)) : returned V w e = some (.handle k,p) := by
  simp only [returned,he,hk,Option.map_some]

theorem exchange_submits
    (hdeath : ∀ ptr q, submissions ((V e.pid).death ptr q) = submissions q) {out : Outgoing}
    (hsent : e.sent = some out) {ret : Returned} {p : Proc A σ}
    (h : returned V w e = some (ret,p)) :
    submissions p = submissions (w.procs e.pid) ++ [out] := by
  obtain ⟨r,rest,hrounds,hr⟩ : ∃ r rest, e.rounds = r :: rest ∧ r.consumes = true := by
    rw [Exchange.rounds,waitRounds]
    cases e.waits with
    | nil => exact ⟨_,_,rfl,rfl⟩
    | cons δ waits => exact ⟨_,_,rfl,rfl⟩
  rw [returned,hrounds] at h
  rw [Exchange.sent] at hsent
  split at h
  · rename_i name ptr he
    rw [he] at hsent
    obtain ⟨x,hcall,hx⟩ := Option.map_eq_some_iff.mp h
    simp only [Prod.mk.injEq] at hx
    exact hx.2 ▸ svcmgrPublish_submits hdeath hr hsent hcall
  · rename_i name he
    rw [he] at hsent
    obtain ⟨x,hcall,hx⟩ := Option.map_eq_some_iff.mp h
    simp only [Prod.mk.injEq] at hx
    exact hx.2 ▸ svcmgrLookup_submits hdeath hr hsent hcall

theorem publish_refused {name : CName} {ptr : {p : A.Uintptr // p ≠ 0}}
    (he : e.call = .publish name ptr) {r : Int} {p : Proc A σ}
    (hret : returned V w e = some (.status r,p)) (hr : r ≠ 0)
    (hrange : ¬ (1 ≤ name.chars.length ∧ name.chars.length ≤ 127))
    (hsame : (exchange V st w e).svclist = w.svclist ∧ Agrees (exchange V st w e) (.skip :: h)) :
    PublishAnswered V st w e h name := by
  obtain ⟨hl,hagrees⟩ := hsame
  refine ⟨r,p,hret,⟨fun hz => absurd hz hr,fun hin => absurd hin hrange⟩,fun _ => hl,?_⟩
  rw [published_status he hret,if_neg hr]
  exact hagrees

theorem publish_step (ha : Agrees w h) {name : CName} {ptr : {p : A.Uintptr // p ≠ 0}}
    (he : e.call = .publish name ptr) (hs : DriverServes uid st w e) :
    PublishAnswered V st w e h name := by
  have hcall : e.sent = callSent (publishMsg A e.frame name ptr.1) binderServiceManager
      svcMgrAddService := by
    simp only [Exchange.sent,he,ClientCall.msg,ClientCall.code]
  cases hsent : e.sent with
  | none =>
    rw [hcall] at hsent
    have hret := returned_publish (V := V) he
      (svcmgrPublish_overflow hsent (w.procs e.pid) e.rounds)
    have hlong := publish_sent hsent
    exact publish_refused he hret (by decide) (fun hin => hlong hin.2)
      (agrees_unsent ha (hcall.trans hsent))
  | some out =>
    have hv := hs out hsent
    have hcode : out.code = svcMgrAddService := by
      rw [(callSent_some (hcall.symm.trans hsent)).2]
      rfl
    obtain ⟨p,r,hglobals,hround⟩ := managerRound_served st ha.running hv.request.posted.read
    obtain ⟨k,hk,hdenotes,hr⟩ := publish_request (hcall.symm.trans hsent) hv.request
    obtain ⟨res,p',hout,hcases⟩ := publish_handled hk (hglobals ▸ hv.malloc) hr
      (called_manager hv.request) (hv.request.code.trans hcode) (blankReply A r)
    obtain ⟨hrun,hl,hlast⟩ := hround _ _ _ hout
    have hposted := hv.reply _ hlast
    obtain ⟨q,hpublish⟩ := svcmgrPublish_replied hv.waits hposted.read (hcall.symm.trans hsent)
      (V e.pid) (w.procs e.pid)
    have hret := returned_publish he hpublish
    have hp : Manager.svclist p = w.svclist := congrArg Svcmgr.svclist hglobals
    rcases hcases with ⟨rfl,hrange,s,allow,hunits,hadd⟩ | ⟨rfl,hrange,hsame⟩
    · have hread := (okReply_readable hposted).1
      rw [(read_uint32 hread).1] at hret
      obtain ⟨hm,ht⟩ := exchange_sent V st w hsent
      refine ⟨_,_,hret,⟨fun _ => hrange,fun _ => by decide⟩,fun hn => absurd (by decide) hn,?_⟩
      rw [published_status he hret,if_pos (by decide)]
      refine agrees_installed ha (hm ▸ hrun) hadd hp ?_ hunits hrange.2 hk ?_ ?_
      · rw [World.svclist,hm,hl]
      · rw [ht]
        exact hposted.translated.keeps _ _ _ hdenotes
      · intro q k node hq
        rw [ht]
        exact (conveyed_keeps hv hlast hq).2
    · have hread := (statusReply_readable hposted).1
      rw [(read_uint32 hread).1] at hret
      exact publish_refused he hret (by decide) hrange
        (agrees_unchanged ha hsent hv hlast hrun ((hl.trans hsame).trans hp))

theorem lookup_agrees (ha : Agrees w h) {name : CName} (he : e.call = .lookup name)
    (hs : DriverServes uid st w e) : Agrees (exchange V st w e) (published V w e :: h) := by
  rw [published_lookup he]
  cases hsent : e.sent with
  | none => exact (agrees_unsent ha hsent).2
  | some out =>
    have hv := hs out hsent
    have hcode : out.code = svcMgrCheckService := by
      rw [(callSent_some hsent).2,he]
      rfl
    obtain ⟨p,r,hglobals,hround⟩ := managerRound_served st ha.running hv.request.posted.read
    have hkeep := lookup_keeps (p := p) (m := e.request.read.mem) (hv.request.code.trans hcode)
      (blankReply A r)
    rcases hout : svcmgrHandler A p e.request.txn
      (bioInitFromTxn A e.request.read.mem e.request.txn) (blankReply A r) with ⟨res,reply,p'⟩
    obtain ⟨hrun,hl,hlast⟩ := hround _ _ _ hout
    rw [hout] at hkeep
    rw [show p' = p from hkeep] at hl
    exact (agrees_unchanged ha hsent hv hlast hrun
      (hl.trans (congrArg Svcmgr.svclist hglobals))).2

theorem lookup_missing {name : CName} (he : e.call = .lookup name) {out back : Outgoing}
    (hsent : callSent (lookupMsg A e.frame name) binderServiceManager svcMgrCheckService = some out)
    (hv : Conveyed uid st w e out) (hback : lastReply (managerRound st w e).proc = some back)
    (hsize : e.reply.txn.offsetsSize.toNat = 0) (hnone : Binding.latest name.chars h = none) :
    LookupAnswered V st w e h name := by
  obtain ⟨q,hlookup⟩ := svcmgrLookup_replied hv.waits (hv.reply back hback).read hsent (V e.pid)
    (w.procs e.pid)
  rw [noObject_ref hsize] at hlookup
  exact ⟨_,_,returned_lookup he hlookup,.inl ⟨rfl,hnone⟩⟩

theorem lookup_step (ha : Agrees w h) {name : CName} (he : e.call = .lookup name)
    (hs : DriverServes uid st w e) (hu : isolated (uid (.process e.pid)) = false)
    (hother : ∀ ptr, .bind name.chars (e.pid,ptr) ∉ h) : LookupAnswered V st w e h name := by
  have hcall : e.sent = callSent (lookupMsg A e.frame name) binderServiceManager
      svcMgrCheckService := by
    simp only [Exchange.sent,he,ClientCall.msg,ClientCall.code]
  cases hsent : e.sent with
  | none =>
    rw [hcall] at hsent
    exact ⟨_,_,returned_lookup he (svcmgrLookup_overflow hsent (w.procs e.pid) e.rounds),
      .inl ⟨rfl,agrees_long ha (lookup_sent hsent)⟩⟩
  | some out =>
    have hv := hs out hsent
    have hcode : out.code = svcMgrCheckService := by
      rw [(callSent_some (hcall.symm.trans hsent)).2]
      rfl
    obtain ⟨p,r,hglobals,hround⟩ := managerRound_served st ha.running hv.request.posted.read
    have hr := lookup_request (hcall.symm.trans hsent) hv.request
    have hp : Manager.svclist p = w.svclist := congrArg Svcmgr.svclist hglobals
    have hlooked := lookup_handled (hp ▸ ha.short) hr (called_manager hv.request)
      (hv.request.code.trans hcode) (hv.request.sender ▸ hu) (blankReply A r)
    rw [hp] at hlooked
    generalize hout : svcmgrHandler A p e.request.txn
      (bioInitFromTxn A e.request.read.mem e.request.txn) (blankReply A r) = o at hlooked
    cases hlooked with
    | given hn =>
      obtain ⟨-,-,hlast⟩ := hround _ _ _ hout
      have hposted := hv.reply _ hlast
      obtain ⟨q,hlookup⟩ := svcmgrLookup_replied hv.waits hposted.read (hcall.symm.trans hsent)
        (V e.pid) (w.procs e.pid)
      obtain ⟨v,hl,hnode⟩ := agrees_listed ha hn
      have howner : Party.process v.1 ≠ .process e.pid := by
        intro hsame
        have hmem := Binding.mem_of_latest hl
        rw [← Party.process.inj hsame] at hother
        exact hother v.2 hmem
      obtain ⟨hread,hk,hdenotes⟩ := handleReply_readable hn (conveyed_keeps hv hlast hnode).1
        howner hposted
      rw [read_ref hread] at hlookup
      refine ⟨_,_,returned_lookup he hlookup,.inr ⟨hk,v,hl,?_⟩⟩
      rw [(exchange_sent V st w hsent).2]
      exact hdenotes
    | unknown hz =>
      obtain ⟨-,-,hlast⟩ := hround _ _ _ hout
      exact lookup_missing he (hcall.symm.trans hsent) hv hlast
        (okReply_readable (hv.reply _ hlast)).2 (agrees_unlisted ha hz)
    | unreadable hz =>
      obtain ⟨-,-,hlast⟩ := hround _ _ _ hout
      exact lookup_missing he (hcall.symm.trans hsent) hv hlast
        (statusReply_readable (hv.reply _ hlast)).2 (agrees_unlisted ha hz)

end

theorem agrees_start (heap : ℕ → Option A.Uintptr) (procs : ℕ → Proc A σ) (table : HandleTable A) :
    Agrees (worldStart st heap procs table) [] where
  running := rfl
  names := List.nodup_nil
  short _ hsi := absurd hsi List.not_mem_nil
  found _ _ hv := absurd hv (by simp)
  absent _ _ := rfl

theorem agrees_run {w : World A σ} (ha : Agrees w []) {es : List (Exchange A)}
    (hrun : Machine.Along (exchange V st) (DriverServes uid st) w es) :
    Agrees (Machine.run (exchange V st) w es) (log V st w es) := by
  have keep : ∀ (s : World A σ × Log A) (e : Exchange A), Agrees s.1 s.2 →
      DriverServes uid st s.1 e →
      Agrees (Machine.recorded (exchange V st) (published V) s e).1
        (Machine.recorded (exchange V st) (published V) s e).2 := by
    intro s e hs he
    cases hcall : e.call with
    | publish name ptr =>
      obtain ⟨r,p,-,-,-,hagrees⟩ := publish_step hs hcall he
      exact hagrees
    | lookup name => exact lookup_agrees hs hcall he
  have h := Machine.run_invariant_along (I := fun s : World A σ × Log A => Agrees s.1 s.2)
    (C := fun s e => DriverServes uid st s.1 e) keep (s := (w,[])) ha
    (Machine.along_recorded.mpr hrun)
  rw [Machine.run_recorded] at h
  simpa only [log,List.append_nil] using h

theorem call_dispatched {d : HandleTable A} {sender : Party} {node : Node A} {out : Outgoing}
    {mail : Mail A} (hc : Called uid d sender node out mail) {ptr : A.Uintptr}
    (hptr : node.ptr = ptr.setWidth _) (text : A.Uintptr → BinderHandler A σ) (S : Server A σ)
    (s : Looper A σ) :
    loopRound {S with func := some (testServerHandler text)} s (some mail.read.read) =
      loopRound {S with func := some (text ptr)} s (some mail.read.read) := by
  have htext : mail.txn.target.setWidth (8 * A.sizeT.bytes) = ptr := by
    have hle : 8 * A.sizeT.bytes ≤ 8 * A.binderSizeT.bytes := Nat.mul_le_mul_left 8 A.sizeT_le
    rw [hc.target,hptr,BitVec.setWidth_setWidth_of_le _ hle,BitVec.setWidth_eq]
  apply loopRound_congr
  · rfl
  · intro txn htxn p rdata
    rw [surrounded_transaction hc.posted.read htxn]
    simp only [serveTransaction,testServerHandler,htext]

theorem publish_lookup_call_agree {V : ℕ → Server A σ} {uid : Party → UInt32} {st : BinderState}
    (heap : ℕ → Option A.Uintptr) (procs : ℕ → Proc A σ) (table : HandleTable A)
    {es : List (Exchange A)} (hrun : Machine.Along (exchange V st) (DriverServes uid st)
      (worldStart st heap procs table) es) :
    let w := Machine.run (exchange V st) (worldStart st heap procs table) es
    let h := log V st (worldStart st heap procs table) es
    (∀ e name ptr, e.call = .publish name ptr → DriverServes uid st w e →
      ∃ r p, returned V w e = some (.status r,p) ∧
        (r = 0 ↔ 1 ≤ name.chars.length ∧ name.chars.length ≤ 127) ∧
        (r ≠ 0 → (exchange V st w e).svclist = w.svclist)) ∧
    (∀ e name, e.call = .lookup name → DriverServes uid st w e →
      isolated (uid (.process e.pid)) = false → (∀ ptr, .bind name.chars (e.pid,ptr) ∉ h) →
      ∃ k p, returned V w e = some (.handle k,p) ∧
        (k ≠ 0 ↔ ∃ v, .bind name.chars v ∈ h) ∧
        (k ≠ 0 → ∃ pid ptr, Binding.latest name.chars h = some (pid,ptr) ∧
          ∀ d, (∀ q j node, (exchange V st w e).table q j = some node → d q j = some node) →
          ∀ msg code out, callSent msg k code = some out → ∀ node mail,
            Called uid d (.process e.pid) node out mail → node.owner = .process pid ∧
            ∀ (text : A.Uintptr → BinderHandler A σ) (S : Server A σ) (s : Looper A σ),
              loopRound {S with func := some (testServerHandler text)} s (some mail.read.read) =
                loopRound {S with func := some (text ptr)} s (some mail.read.read))) := by
  intro w h
  have ha : Agrees w h := agrees_run (agrees_start heap procs table) hrun
  refine ⟨fun e name ptr he hs => ?_,fun e name he hs hu hother => ?_⟩
  · obtain ⟨r,p,hret,hstatus,hkeep,-⟩ := publish_step ha he hs
    exact ⟨r,p,hret,hstatus,hkeep⟩
  · obtain ⟨k,p,hret,hcases⟩ := lookup_step ha he hs hu hother
    refine ⟨k,p,hret,?_⟩
    rcases hcases with ⟨hk,hnone⟩ | ⟨hk,v,hv,hnode⟩
    · refine ⟨⟨fun hn => absurd hk hn,?_⟩,fun hn => absurd hk hn⟩
      rintro ⟨v,hv⟩
      exact absurd hv (Binding.latest_eq_none.mp hnone v)
    · refine ⟨⟨fun _ => ⟨v,Binding.mem_of_latest hv⟩,fun _ => hk⟩,fun _ => ⟨v.1,v.2,hv,?_⟩⟩
      intro d hd msg code out hsent node mail hc
      have hcallee := hc.callee
      have hmanager : k ≠ binderServiceManager := hk
      rw [(callSent_some hsent).2,callee] at hcallee
      simp only [callTransaction,if_neg hmanager,hd _ _ _ hnode,Option.some_inj] at hcallee
      subst hcallee
      exact ⟨rfl,call_dispatched hc rfl⟩

end

end

abbrev Sample := Abi.uniform .four

def sampleName : CName := ⟨[97],by decide⟩

def zeroIo : BinderIo := ⟨fun _ => 0,0,0,0,0,0,0,0⟩

def sampleFrame : Frame := ⟨fun _ => 0,0,zeroIo,zeroIo⟩

def postBytes (out : Outgoing) (k : UInt32) : Mem :=
  (objectTable Sample out).foldl
    (fun m off => write (write m (1000+off) (leBytes 4 binderTypeHandle.toNat)) (1000+off+8)
      (leBytes 4 k.toNat))
    (write (write (fun _ => 0) 1000 out.data) 2000 out.offsets)

def postTxn (out : Outgoing) : BinderTransactionData Sample where
  target := 0
  cookie := 0
  code := out.code
  flags := out.flags
  senderPid := 0
  senderEuid := 1000
  dataSize := BitVec.ofNat _ out.data.length
  offsetsSize := BitVec.ofNat _ out.offsets.length
  buffer := 1000
  offsets := 2000

def post (b : Bool) (out : Outgoing) (k : UInt32) (table : HandleTable Sample) : Mail Sample where
  read := {
    base := postBytes out k
    ptr := 4000
    cmds := [.noop,if b then .reply (postTxn out) else .transaction (postTxn out)]
    rdata := fun _ _ => 0
    fits := by
      have hlen := (postTxn out).encode_length
      cases b <;> simp [BinderReturn.encodeAll,BinderReturn.encode_length,BinderReturn.payload,hlen]
      all_goals decide }
  txn := postTxn out
  handles := fun _ => k
  table := table

section
variable {b : Bool} {out : Outgoing} {k : UInt32} {d table : HandleTable Sample}

theorem post_posted {sender receiver : Party}
    (hkeep : ∀ q h node, d q h = some node → table q h = some node)
    (hobjects : ∀ off ∈ objectTable Sample out, ∀ node ∈ sentNode d sender out off,
      k ≠ 0 ∧ table receiver k = some node)
    (hd : Delivered Sample out (fun _ => k) (post b out k table).read.mem (postTxn out)) :
    Posted d sender receiver out (if b then .reply else .transaction) (post b out k table) where
  read := ⟨[.noop],[],by cases b <;> rfl,by decide,by decide⟩
  translated := ⟨hkeep,fun _ off node hoff hnode _ =>
    hobjects off (List.mem_of_getElem? hoff) node hnode⟩
  copied _ := hd
  buffer := wrap_toNat _
  offsets := wrap_toNat _

theorem post_delivered (hdata : out.data.length < 2 ^ 32) (hoffs : out.offsets.length < 2 ^ 32)
    (hslice : slice (post b out k table).read.mem 2000 out.offsets.length = out.offsets)
    (hcopy : ∀ x < out.data.length, (∀ off ∈ objectTable Sample out, x < off ∨ off + 16 ≤ x) →
      out.data[x]? = some ((post b out k table).read.mem (1000 + x)))
    (hobjects : ∀ n < (objectTable Sample out).length, ∀ off ∈ (objectTable Sample out)[n]?,
      load32 (post b out k table).read.mem (1000 + off) = binderTypeHandle ∧
      load32 (post b out k table).read.mem (1000 + off + 8) = k) :
    Delivered Sample out (fun _ => k) (post b out k table).read.mem (postTxn out) := by
  apply delivered_of_checks
  · exact Nat.mod_eq_of_lt hdata
  · exact Nat.mod_eq_of_lt hoffs
  · exact hslice
  · exact hcopy
  · exact hobjects

end

def sampleState : BinderState := ⟨3,0,0⟩

def sampleServer (_ : ℕ) : Server Sample Unit := ⟨sampleState,none,fun _ _ => 0,fun _ p => p⟩

def sampleUid (_ : Party) : UInt32 := 1000

def sampleStart : World Sample Unit :=
  worldStart sampleState (fun n => some (BitVec.ofNat _ (256*(n+1)))) (fun _ => ⟨(),[],0⟩)
    fun _ _ => none

def publishOut : Outgoing :=
  callTransaction (publishMsg Sample sampleFrame sampleName 0x2000) 0 svcMgrAddService

def lookupOut : Outgoing :=
  callTransaction (lookupMsg Sample sampleFrame sampleName) 0 svcMgrCheckService

def doneReply : Outgoing := dataReply (bioPutUint32 Sample (blankReply Sample fun _ => 0) 0)

def foundReply : Outgoing := dataReply (bioPutRef Sample (blankReply Sample fun _ => 0) 5)

def publishTable (q : Party) (h : UInt32) : Option (Node Sample) :=
  if q = .contextManager ∧ h = 5 then some ⟨.process 1,0x2000⟩ else none

def lookupTable (q : Party) (h : UInt32) : Option (Node Sample) :=
  if q = .process 2 ∧ h = 7 then some ⟨.process 1,0x2000⟩ else publishTable q h

def samplePublish : Exchange Sample where
  pid := 1
  call := .publish sampleName ⟨0x2000,by decide⟩
  frame := sampleFrame
  request := post false publishOut 5 publishTable
  waits := []
  reply := post true doneReply 0 publishTable

def sampleLookup : Exchange Sample where
  pid := 2
  call := .lookup sampleName
  frame := sampleFrame
  request := post false lookupOut 0 publishTable
  waits := []
  reply := post true foundReply 7 lookupTable

def sampleManager : Manager Sample :=
  (performRead (svcmgrServer Sample sampleState fun _ _ => 0) sampleStart.manager.proc
    samplePublish.request.read).proc

def sampleWorld : World Sample Unit := exchange sampleServer sampleState sampleStart samplePublish

theorem samplePublish_round :
    managerRound sampleState sampleStart samplePublish = ⟨sampleManager,true⟩ := by
  rw [managerRound,loopRound_read _ rfl]
  rfl

theorem samplePublish_serves : DriverServes sampleUid sampleState sampleStart samplePublish := by
  intro out hout
  obtain rfl : out = publishOut := (callSent_some hout).2
  have hmalloc : sampleStart.manager.proc.globals.malloc.isSome = true := by decide +kernel
  have hlast : lastReply sampleManager = some doneReply := by decide +kernel
  refine ⟨Option.isSome_iff_ne_none.mp hmalloc,⟨rfl,post_posted (b := false) ?_ ?_ ?_,rfl,rfl,rfl⟩,
    fun back hback => ?_,fun δ hδ => absurd hδ List.not_mem_nil⟩
  · intro q h node hn
    cases hn
  · decide +kernel
  · apply post_delivered <;> decide +kernel
  · rw [samplePublish_round,hlast,Option.some_inj] at hback
    subst hback
    apply post_posted (b := true)
    · exact fun _ _ _ hn => hn
    · decide +kernel
    · apply post_delivered <;> decide +kernel

theorem sampleWorld_parts :
    sampleWorld.manager = ⟨sampleManager,true⟩ ∧ sampleWorld.table = publishTable := by
  have hsent : samplePublish.sent = some publishOut := by decide +kernel
  obtain ⟨hm,ht⟩ := exchange_sent sampleServer sampleState sampleStart hsent
  exact ⟨hm.trans samplePublish_round,ht⟩

theorem sampleLookup_serves : DriverServes sampleUid sampleState sampleWorld sampleLookup := by
  obtain ⟨hm,ht⟩ := sampleWorld_parts
  intro out hout
  obtain rfl : out = lookupOut := (callSent_some hout).2
  have hmalloc : sampleManager.globals.malloc.isSome = true := by decide +kernel
  have hlast : lastReply (performRead (svcmgrServer Sample sampleState fun _ _ => 0) sampleManager
      sampleLookup.request.read).proc = some foundReply := by decide +kernel
  have hround : managerRound sampleState sampleWorld sampleLookup =
      ⟨(performRead (svcmgrServer Sample sampleState fun _ _ => 0) sampleManager
        sampleLookup.request.read).proc,true⟩ := by
    rw [managerRound,hm,loopRound_read _ rfl]
    rfl
  refine ⟨?_,⟨rfl,post_posted (b := false) ?_ ?_ ?_,rfl,rfl,rfl⟩,fun back hback => ?_,
    fun δ hδ => absurd hδ List.not_mem_nil⟩
  · rw [hm]
    exact Option.isSome_iff_ne_none.mp hmalloc
  · rw [ht]
    exact fun _ _ _ hn => hn
  · rw [ht]
    decide +kernel
  · apply post_delivered <;> decide +kernel
  · rw [hround,hlast,Option.some_inj] at hback
    subst hback
    apply post_posted (b := true)
    · intro q h node hn
      change publishTable q h = some node at hn
      rw [lookupTable,if_neg]
      · exact hn
      · rintro ⟨rfl,-⟩
        cases hn
    · decide +kernel
    · apply post_delivered <;> decide +kernel

def helloMsg : BinderIo := bioPutUint32 Sample (bioInit Sample zeroIo (fun _ => 0) 0 512 4) 0

def helloOut (k : UInt32) : Outgoing := callTransaction helloMsg k 1

def helloTxn : BinderTransactionData Sample := {postTxn (helloOut 7) with target := 0x2000}

def helloMail : Mail Sample where
  read := {
    base := postBytes (helloOut 7) 0
    ptr := 4000
    cmds := [.noop,.transaction helloTxn]
    rdata := fun _ _ => 0
    fits := by
      have hlen := helloTxn.encode_length
      simp [BinderReturn.encodeAll,BinderReturn.encode_length,BinderReturn.payload,hlen]
      decide }
  txn := helloTxn
  handles := fun _ => 0
  table := lookupTable

theorem hello_called :
    Called sampleUid lookupTable (.process 2) ⟨.process 1,0x2000⟩ (helloOut 7) helloMail where
  callee := by decide +kernel
  posted := {
    read := ⟨[.noop],[],rfl,by decide,by decide⟩
    translated := ⟨fun _ _ _ hn => hn,fun n off node hoff => by
      have hnone : objectTable Sample (helloOut 7) = [] := by decide +kernel
      rw [hnone] at hoff
      cases hoff⟩
    copied := fun _ => by apply delivered_of_checks <;> decide +kernel
    buffer := wrap_toNat _
    offsets := wrap_toNat _ }
  target := rfl
  code := rfl
  sender := rfl

theorem sampleLookup_returned :
    ∃ q, returned sampleServer sampleWorld sampleLookup = some (.handle 7,q) := by
  have hsent : callSent (lookupMsg Sample sampleFrame sampleName) 0 svcMgrCheckService =
      some lookupOut := by decide +kernel
  have hseven : (bioGetRef Sample (bioInitFromTxn Sample sampleLookup.reply.read.mem
      sampleLookup.reply.txn)).1 = 7 := by decide +kernel
  obtain ⟨q,hlookup⟩ : ∃ q, svcmgrLookup (sampleServer 2) (sampleWorld.procs 2) sampleFrame 0
      sampleName sampleLookup.rounds = some ((bioGetRef Sample (bioInitFromTxn Sample
        sampleLookup.reply.read.mem sampleLookup.reply.txn)).1,q) :=
    svcmgrLookup_replied (fun δ hδ => absurd hδ List.not_mem_nil)
      ⟨[.noop],[],rfl,by decide,by decide⟩ hsent _ _
  rw [hseven] at hlookup
  exact ⟨q,returned_lookup rfl hlookup⟩

theorem publish_lookup_call_agree_sample :
    ∃ k p, returned sampleServer sampleWorld sampleLookup = some (.handle k,p) ∧ k ≠ 0 ∧
      Called sampleUid lookupTable (.process 2) ⟨.process 1,0x2000⟩ (helloOut k) helloMail ∧
      ∀ (text : Sample.Uintptr → BinderHandler Sample Unit) (S : Server Sample Unit)
        (s : Looper Sample Unit),
        loopRound {S with func := some (testServerHandler text)} s (some helloMail.read.read) =
          loopRound {S with func := some (text 0x2000)} s (some helloMail.read.read) := by
  have hrun : Machine.Along (exchange sampleServer sampleState) (DriverServes sampleUid sampleState)
      sampleStart [samplePublish] := ⟨samplePublish_serves,trivial⟩
  have hlog : log sampleServer sampleState sampleStart [samplePublish] =
      [.bind [97] (1,0x2000)] := by
    obtain ⟨r,p,hret,hstatus,-⟩ := publish_step (V := sampleServer) (agrees_start _ _ _) rfl
      samplePublish_serves
    have hp := published_status rfl hret
    rw [if_pos (hstatus.mpr (by decide))] at hp
    rw [log,Machine.trace,Machine.trace,List.reverse_singleton]
    exact congrArg (fun x => [x]) hp
  have hother : ∀ ptr, .bind [97] (2,ptr) ∉
      log sampleServer sampleState sampleStart [samplePublish] := by
    intro ptr
    rw [hlog]
    simp
  have hmember : .bind [97] (1,0x2000) ∈
      log sampleServer sampleState sampleStart [samplePublish] := by
    rw [hlog]
    exact List.mem_singleton_self _
  obtain ⟨-,hlookup⟩ := publish_lookup_call_agree _ _ _ hrun
  obtain ⟨k,p,hret,hfound,hdispatch⟩ := hlookup sampleLookup sampleName rfl sampleLookup_serves
    (by decide) hother
  have hk := hfound.mpr ⟨_,hmember⟩
  obtain ⟨q,hseven⟩ := sampleLookup_returned
  obtain rfl : k = 7 := by
    have hsame := hret.symm.trans hseven
    simpa using congrArg (Option.map Prod.fst) hsame
  obtain ⟨pid,ptr,hlatest,hcalled⟩ := hdispatch hk
  have hpair : (pid,ptr) = (1,0x2000) := by
    have hfirst : Binding.latest [97] (log sampleServer sampleState sampleStart [samplePublish]) =
        some (pid,ptr) := hlatest
    rw [hlog] at hfirst
    exact (Option.some.inj hfirst).symm
  obtain ⟨rfl,rfl⟩ := Prod.mk.inj hpair
  have htable : (exchange sampleServer sampleState sampleWorld sampleLookup).table = lookupTable :=
    (exchange_sent sampleServer sampleState sampleWorld (by decide +kernel :
      sampleLookup.sent = some lookupOut)).2
  have hkeeps : ∀ q j node,
      (exchange sampleServer sampleState sampleWorld sampleLookup).table q j = some node →
        lookupTable q j = some node := by
    intro q j node hn
    rwa [htable] at hn
  have hclear : callSent helloMsg 7 1 = some (helloOut 7) := by decide +kernel
  exact ⟨7,p,hret,hk,hello_called,
    (hcalled lookupTable hkeeps helloMsg 1 _ hclear _ helloMail hello_called).2⟩

end Servicemanager
