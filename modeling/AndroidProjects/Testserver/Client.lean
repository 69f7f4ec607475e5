import AndroidProjects.Binder.Driver
import AndroidProjects.Testserver.Services

namespace Testserver
open Binder ByteMemory Machine Servicemanager

section
variable {A : Abi} {σ : Type}

def sayMsg (A : Abi) (f : Frame) : BinderIo :=
  bioPutUint32 A (bioInit A f.msg f.mem f.iodata 512 4) 0

def say (cmdSay : UInt32) (V : Server A σ) (p : Proc A σ) (f : Frame) (handle : UInt32)
    (rounds : List CallRound) : Option (Proc A σ) :=
  match binderCall V p (sayMsg A f) f.reply handle cmdSay rounds with
  | none => none
  | some (res,reply,p) => if res ≠ 0 then some p else some (binderDone p reply).2

def sayhello (V : Server A σ) : Proc A σ → Frame → UInt32 → List CallRound → Option (Proc A σ) :=
  say helloSvrCmdSayhello V

def saygoodbye (V : Server A σ) : Proc A σ → Frame → UInt32 → List CallRound → Option (Proc A σ) :=
  say helloSvrCmdSaygoodbye V

def helloName : CName := ⟨['h','e','l','l','o'].map fun c => UInt8.ofNat c.toNat,by decide⟩

def goodbyeName : CName :=
  ⟨['g','o','o','d','b','y','e'].map fun c => UInt8.ofNat c.toNat,by decide⟩

def demand (V : Server A σ) (p : Proc A σ) (f : Frame) (hello goodbye : UInt32)
    (cmd : List UInt8) (rest : List (List UInt8)) (rounds : List CallRound) : Option (Proc A σ) :=
  if cString cmd = helloName.chars then
    match rest with
    | [] => sayhello V p f hello rounds
    | [name] => (sayhelloTo V p f hello name rounds).map Prod.snd
    | _ => some p
  else
    match rest with
    | [] => saygoodbye V p f goodbye rounds
    | [name] => (saygoodbyeTo V p f goodbye name rounds).map Prod.snd
    | _ => some p

-- argv without the program's name; the binder is open
def testClientMain (V : Server A σ) (p : Proc A σ) (argv : List (List UInt8)) (f : Frame)
    (first second third : List CallRound) : Option (Int × Proc A σ) :=
  match argv with
  | [] => some (-1,p)
  | cmd :: rest =>
    match svcmgrLookup V p f binderServiceManager goodbyeName first with
    | none => none
    | some (goodbye,p) =>
      match svcmgrLookup V p f binderServiceManager helloName second with
      | none => none
      | some (handle,p) =>
        if handle = 0 then some (-1,p)
        else (demand V p f handle goodbye cmd rest third).map fun p => (0,binderRelease p handle)

end

-- the reads of one call: nothing for this thread, then what ends the call
def isAnswer {A : Abi} : BinderReturn A → Bool
  | .reply _ => true
  | .failedReply => true
  | .deadReply => true
  | _ => false

structure Awaited (w : Word) where
  waits : List (Delivery (Abi.uniform w))
  read : Delivery (Abi.uniform w)
  answer : BinderReturn (Abi.uniform w)
  quiet : ∀ d ∈ waits, ∀ c ∈ d.cmds, c.quiet = true
  answered : Surrounded read.cmds answer
  last : isAnswer answer = true

def Awaited.rounds {w : Word} (a : Awaited w) : List CallRound := waitRounds a.waits a.read

def Awaited.bufs {w : Word} (a : Awaited w) : List (Held (Abi.uniform w)) :=
  match a.answer with
  | .reply txn => [(txn.buffer,heldHandles w a.read.mem txn)]
  | _ => []

section Calls
variable {A : Abi} {σ : Type} (V : Server A σ)

theorem parseReply_fails {δ : Delivery A} {c : BinderReturn A}
    (hc : c = .failedReply ∨ c = .deadReply) (h : Surrounded δ.cmds c) (p : Proc A σ)
    (reply : BinderIo) : (parseReply V p reply δ.read).1 = -1 ∧
      ∃ n, (parseReply V p reply δ.read).2.proc = spawned p n := by
  have hparse := parseReply_read V p reply δ
  obtain ⟨s₀,q,b,n,⟨-,-,-,k,hproc⟩,hall⟩ := performAll_carries
    {V with func := none, rdata := δ.rdata} δ.mem h ⟨δ.ptr,1,true,reply,none,p⟩
  simp only [hall] at hparse
  rw [hparse]
  rcases hc with rfl | rfl
  · exact ⟨rfl,n,by simp [perform,hproc,spawned]⟩
  · exact ⟨rfl,n,by simp [perform,hproc,spawned]⟩

theorem binderCall_failed {waits : List (Delivery A)} {δ : Delivery A} {c : BinderReturn A}
    (hwaits : ∀ w ∈ waits, ∀ c ∈ w.cmds, c.quiet = true)
    (hc : c = .failedReply ∨ c = .deadReply) (h : Surrounded δ.cmds c) (out : Outgoing)
    (unsent : Bool) (p : Proc A σ) (reply : BinderIo) :
    ∃ rio n, binderCallLoop V out unsent p reply (waitRounds waits δ) =
      some (-1,rio,spawned (if unsent then binderWrite p [.transaction out] else p) n) := by
  induction waits generalizing unsent p reply with
  | nil =>
    obtain ⟨hres,n,hproc⟩ := parseReply_fails V hc h
      (if unsent then binderWrite p [.transaction out] else p) reply
    refine ⟨ioError (parseReply V (if unsent then binderWrite p [.transaction out] else p) reply
      δ.read).2.reply,n,?_⟩
    have hrounds : waitRounds [] δ = [⟨true,some δ.read⟩] := rfl
    have hfailed : ¬ (-1 : Int) = 0 ∧ (-1 : Int) < 0 := by omega
    rw [hrounds]
    simp only [binderCallLoop,Bool.and_true,hres,hproc,hfailed,if_true,if_false]
  | cons w waits ih =>
    obtain ⟨hres,hreply,k,hproc⟩ := parseReply_quiet V (hwaits w List.mem_cons_self)
      (if unsent then binderWrite p [.transaction out] else p) reply
    obtain ⟨rio,n,hrest⟩ := ih (fun u hu => hwaits u (List.mem_cons_of_mem w hu)) false
      (spawned (if unsent then binderWrite p [.transaction out] else p) k) reply
    refine ⟨rio,n,?_⟩
    have hrounds : waitRounds (w :: waits) δ = ⟨true,some w.read⟩ :: waitRounds waits δ := rfl
    have hwaiting : ¬ (1 : Int) = 0 ∧ ¬ (1 : Int) < 0 := by omega
    rw [hrounds]
    simp only [binderCallLoop,Bool.and_true,hres,hreply,hproc,hwaiting,if_false,Bool.not_true,
      Bool.and_false]
    exact hrest

end Calls

section References
variable {w : Word} {σ : Type}

theorem binderCall_awaited (V : Server (Abi.uniform w) σ) (a : Awaited w) {msg : BinderIo}
    (ho : ¬ msg.overflow) (p : Proc (Abi.uniform w) σ) (reply : BinderIo) (target code : UInt32) :
    ∃ res rio n, binderCall V p msg reply target code a.rounds =
        some (res,rio,spawned (binderWrite p [.transaction (callTransaction msg target code)]) n) ∧
      ((∃ txn, a.answer = .reply txn ∧ res = 0 ∧ rio = bioInitFromTxn _ a.read.mem txn) ∨
        a.bufs = [] ∧ res = -1) := by
  have hlast := a.last
  have hanswered := a.answered
  rw [binderCall,if_neg ho]
  cases hans : a.answer with
  | reply txn =>
    rw [hans] at hanswered
    obtain ⟨n,hcall⟩ := binderCallLoop_waits V a.quiet hanswered
      (callTransaction msg target code) true p reply
    exact ⟨_,_,n,hcall,.inl ⟨txn,rfl,rfl,rfl⟩⟩
  | failedReply =>
    rw [hans] at hanswered
    obtain ⟨rio,n,hcall⟩ := binderCall_failed V a.quiet (.inl rfl) hanswered
      (callTransaction msg target code) true p reply
    exact ⟨_,rio,n,hcall,.inr ⟨by rw [Awaited.bufs,hans],rfl⟩⟩
  | deadReply =>
    rw [hans] at hanswered
    obtain ⟨rio,n,hcall⟩ := binderCall_failed V a.quiet (.inr rfl) hanswered
      (callTransaction msg target code) true p reply
    exact ⟨_,rio,n,hcall,.inr ⟨by rw [Awaited.bufs,hans],rfl⟩⟩
  | _ => simp [hans,isAnswer] at hlast

def Frees (txn : BinderTransactionData (Abi.uniform w)) (io : BinderIo) : Prop :=
  io.data0 = txn.buffer.toNat ∧ io.flags &&& bioFShared ≠ 0

theorem shared_kept (f : UInt32) : (f ||| bioFOverflow) &&& bioFShared = f &&& bioFShared := by
  have hbits : bioFOverflow.toNat &&& bioFShared.toNat = 0 := by decide
  rw [← UInt32.toNat_inj,UInt32.toNat_and,UInt32.toNat_or,UInt32.toNat_and,
    Nat.and_or_distrib_right,hbits,Nat.or_zero]

theorem frees_stable (txn : BinderTransactionData (Abi.uniform w)) : Stable (Frees txn) where
  exhaust h := ⟨h.1,by rw [shared_kept]; exact h.2⟩
  take _ h := h

theorem frees_init (m : Mem) (txn : BinderTransactionData (Abi.uniform w)) :
    Frees txn (bioInitFromTxn (Abi.uniform w) m txn) := by
  have hshared : bioFShared &&& bioFShared ≠ 0 := by decide
  exact ⟨wrap_toNat txn.buffer,hshared⟩

theorem binderDone_frees {txn : BinderTransactionData (Abi.uniform w)} {io : BinderIo}
    (h : Frees txn io) (p : Proc (Abi.uniform w) σ) :
    (binderDone p io).2 = binderWrite p [.freeBuffer txn.buffer] := by
  have hbuffer : BitVec.ofNat _ txn.buffer.toNat = txn.buffer :=
    BitVec.ofNat_toNat _ _ ▸ BitVec.setWidth_eq _
  rw [binderDone,if_pos h.2,h.1,hbuffer]

def acquired (h : UInt32) : List (BinderCommand (Abi.uniform w)) :=
  if h = 0 then [] else [.acquire h]

-- what a step of the client writes, and the reply buffers that reach it in between
inductive OpWrote : List (Held (Abi.uniform w)) → UInt32 → List UInt32 →
    List (BinderCommand (Abi.uniform w)) → Prop
  | unsent : OpWrote [] 0 [] []
  | failed (out : Outgoing) : OpWrote [] 0 [] [.transaction out]
  | replied (out : Outgoing) (b : Held (Abi.uniform w)) (h : UInt32) (held : h ≠ 0 → h ∈ b.2) :
      OpWrote [b] h [] (.transaction out :: (acquired h ++ [.freeBuffer b.1]))
  | released (h : UInt32) : OpWrote [] 0 [h] [.release h]

inductive Op (w : Word) where
  | lookup (f : Frame) (target : UInt32) (name : CName) (a : Awaited w)
  | sayTo (code : UInt32) (f : Frame) (handle : UInt32) (name : List UInt8) (a : Awaited w)
  | say (code : UInt32) (f : Frame) (handle : UInt32) (a : Awaited w)
  | release (handle : UInt32)

-- the handle it brings, 0 for none
def Op.exec (V : Server (Abi.uniform w) σ) (p : Proc (Abi.uniform w) σ) :
    Op w → Option (UInt32 × Proc (Abi.uniform w) σ)
  | .lookup f target name a => svcmgrLookup V p f target name a.rounds
  | .sayTo code f handle name a =>
    (Testserver.sayTo code V p f handle name a.rounds).map fun r => (0,r.2)
  | .say code f handle a => (Testserver.say code V p f handle a.rounds).map fun p => (0,p)
  | .release handle => some (0,binderRelease p handle)

def sentBufs (msg : BinderIo) (a : Awaited w) : List (Held (Abi.uniform w)) :=
  if msg.overflow then [] else a.bufs

def Op.bufs : Op w → List (Held (Abi.uniform w))
  | .lookup f _ name a => sentBufs (lookupMsg (Abi.uniform w) f name) a
  | .sayTo _ f _ name a => sentBufs (sayToMsg (Abi.uniform w) f name) a
  | .say _ f _ a => sentBufs (sayMsg (Abi.uniform w) f) a
  | .release _ => []

def Op.dropped : Op w → List UInt32
  | .release handle => [handle]
  | _ => []

variable (V : Server (Abi.uniform w) σ) (p : Proc (Abi.uniform w) σ)

theorem lookup_wrote (f : Frame) (target : UInt32) (name : CName) (a : Awaited w) :
    ∃ h p' cmds, svcmgrLookup V p f target name a.rounds = some (h,p') ∧
      p'.written = p.written ++ cmds ∧
      OpWrote (sentBufs (lookupMsg (Abi.uniform w) f name) a) h [] cmds := by
  rw [svcmgrLookup,sentBufs]
  by_cases ho : (lookupMsg (Abi.uniform w) f name).overflow
  · rw [binderCall_overflow V ho,if_pos ho]
    exact ⟨0,p,[],rfl,(List.append_nil _).symm,.unsent⟩
  · obtain ⟨res,rio,n,hcall,hout⟩ := binderCall_awaited V a ho p f.reply target svcMgrCheckService
    rw [hcall,if_neg ho]
    rcases hout with ⟨txn,hans,rfl,rfl⟩ | ⟨hbufs,rfl⟩
    · have hfrees := (frees_stable txn).ref (A := Abi.uniform w) (frees_init a.read.mem txn)
      have hheld := bioGetRef_held (reads_init a.read.mem txn)
      simp only [Awaited.bufs,hans,ne_eq,not_true_eq_false,if_false]
      generalize bioGetRef (Abi.uniform w) (bioInitFromTxn _ a.read.mem txn) = got at hfrees hheld
      refine ⟨got.1,_,_,rfl,?_,.replied (callTransaction (lookupMsg
        (Abi.uniform w) f name) target svcMgrCheckService) (txn.buffer,heldHandles w a.read.mem txn)
        got.1 hheld⟩
      simp only [binderDone_frees hfrees]
      by_cases hz : got.1 = 0
      · simp [hz,acquired,binderWrite,spawned]
      · simp [hz,acquired,binderWrite,binderAcquire,spawned]
    · rw [hbufs]
      exact ⟨0,_,_,rfl,rfl,.failed _⟩

theorem sayTo_wrote (code : UInt32) (f : Frame) (handle : UInt32) (name : List UInt8)
    (a : Awaited w) : ∃ r p' cmds, Testserver.sayTo code V p f handle name a.rounds = some (r,p') ∧
      p'.written = p.written ++ cmds ∧
      OpWrote (sentBufs (sayToMsg (Abi.uniform w) f name) a) 0 [] cmds := by
  rw [Testserver.sayTo,sentBufs]
  by_cases ho : (sayToMsg (Abi.uniform w) f name).overflow
  · rw [binderCall_overflow V ho,if_pos ho]
    exact ⟨0,p,[],rfl,(List.append_nil _).symm,.unsent⟩
  · obtain ⟨res,rio,n,hcall,hout⟩ := binderCall_awaited V a ho p f.reply handle code
    rw [hcall,if_neg ho]
    rcases hout with ⟨txn,hans,rfl,rfl⟩ | ⟨hbufs,rfl⟩
    · have hfrees := (frees_stable txn).uint32 (A := Abi.uniform w) (frees_init a.read.mem txn)
      simp only [Awaited.bufs,hans,ne_eq,not_true_eq_false,if_false]
      refine ⟨_,_,_,rfl,?_,.replied (callTransaction (sayToMsg (Abi.uniform w) f name) handle code)
        (txn.buffer,heldHandles w a.read.mem txn) 0 (absurd rfl)⟩
      simp [binderDone_frees hfrees,acquired,binderWrite,spawned]
    · rw [hbufs]
      exact ⟨0,_,_,rfl,rfl,.failed _⟩

theorem say_wrote (code : UInt32) (f : Frame) (handle : UInt32) (a : Awaited w) :
    ∃ p' cmds, Testserver.say code V p f handle a.rounds = some p' ∧
      p'.written = p.written ++ cmds ∧
      OpWrote (sentBufs (sayMsg (Abi.uniform w) f) a) 0 [] cmds := by
  rw [Testserver.say,sentBufs]
  by_cases ho : (sayMsg (Abi.uniform w) f).overflow
  · rw [binderCall_overflow V ho,if_pos ho]
    exact ⟨p,[],rfl,(List.append_nil _).symm,.unsent⟩
  · obtain ⟨res,rio,n,hcall,hout⟩ := binderCall_awaited V a ho p f.reply handle code
    rw [hcall,if_neg ho]
    rcases hout with ⟨txn,hans,rfl,rfl⟩ | ⟨hbufs,rfl⟩
    · have hfrees := frees_init a.read.mem txn
      rw [Awaited.bufs,hans]
      refine ⟨_,_,rfl,?_,.replied (callTransaction (sayMsg (Abi.uniform w) f) handle code)
        (txn.buffer,heldHandles w a.read.mem txn) 0 (absurd rfl)⟩
      simp [binderDone_frees hfrees,acquired,binderWrite,spawned]
    · rw [hbufs]
      exact ⟨_,_,rfl,rfl,.failed _⟩

theorem exec_wrote (op : Op w) : ∃ h p' cmds, op.exec V p = some (h,p') ∧
    p'.written = p.written ++ cmds ∧ OpWrote op.bufs h op.dropped cmds := by
  cases op with
  | lookup f target name a => exact lookup_wrote V p f target name a
  | sayTo code f handle name a =>
    obtain ⟨r,p',cmds,hcall,hrest⟩ := sayTo_wrote V p code f handle name a
    exact ⟨0,p',cmds,by rw [Op.exec,hcall]; rfl,hrest⟩
  | say code f handle a =>
    obtain ⟨p',cmds,hcall,hrest⟩ := say_wrote V p code f handle a
    exact ⟨0,p',cmds,by rw [Op.exec,hcall]; rfl,hrest⟩
  | release handle => exact ⟨0,_,_,rfl,rfl,.released handle⟩

-- the command that sends does not touch the tables, so the reply may as well have come first
def settle (d : Driver (Abi.uniform w)) (bufs : List (Held (Abi.uniform w)))
    (cmds : List (BinderCommand (Abi.uniform w))) : Driver (Abi.uniform w) :=
  run Driver.issue (bufs.foldl Driver.carry d) cmds

theorem freed {d : Driver (Abi.uniform w)} {b : Held (Abi.uniform w)} (hb : d.bufs = [b]) :
    (d.issue (.freeBuffer b.1)).bufs = [] ∧
      ∀ k, (d.issue (.freeBuffer b.1)).strong k = d.strong k - b.2.count k := by
  rw [Driver.issue_freeBuffer hb]
  exact ⟨rfl,fun _ => rfl⟩

theorem wrote_settles {bufs : List (Held (Abi.uniform w))} {h : UInt32} {dropped : List UInt32}
    {cmds : List (BinderCommand (Abi.uniform w))} (hw : OpWrote bufs h dropped cmds)
    {d : Driver (Abi.uniform w)} (hd : d.bufs = []) (hheld : ∀ k ∈ dropped, 0 < d.strong k) :
    Along Driver.issue Driver.Counted (bufs.foldl Driver.carry d) cmds ∧
      (settle d bufs cmds).bufs = [] ∧ ∀ k, k ≠ 0 →
        (settle d bufs cmds).strong k + dropped.count k = d.strong k + [h].count k := by
  have hzero : ∀ k : UInt32, k ≠ 0 → [(0 : UInt32)].count k = 0 := fun k hk => by
    simp [hk.symm]
  cases hw with
  | unsent => exact ⟨trivial,hd,fun k hk => by rw [hzero k hk]; rfl⟩
  | failed out => exact ⟨⟨trivial,trivial⟩,hd,fun k hk => by rw [hzero k hk]; rfl⟩
  | replied out b h held =>
    have hbufs : (d.carry b).bufs = [b] := by rw [Driver.carry,hd]; rfl
    have hcarry : ∀ k, (d.carry b).strong k = d.strong k + b.2.count k := fun _ => rfl
    by_cases hz : h = 0
    · obtain ⟨hnone,hstrong⟩ := freed hbufs
      rw [acquired,if_pos hz]
      refine ⟨⟨trivial,trivial,trivial⟩,hnone,fun k hk => ?_⟩
      have hback : (settle d [b] [.transaction out,.freeBuffer b.1]).strong k = _ := hstrong k
      have hk' := hcarry k
      rw [hz,hzero k hk,List.nil_append,hback,List.count_nil]
      omega
    · have hlent := List.count_pos_iff.mpr (held hz)
      have htaken := hcarry h
      obtain ⟨hnone,hstrong⟩ := freed (d := (d.carry b).issue (.acquire h)) hbufs
      rw [acquired,if_neg hz]
      refine ⟨⟨trivial,?_,trivial,trivial⟩,hnone,fun k _ => ?_⟩
      · change 0 < (d.carry b).strong h
        omega
      · have hback : (settle d [b] [.transaction out,.acquire h,.freeBuffer b.1]).strong k =
          d.strong k + b.2.count k + [h].count k - b.2.count k := hstrong k
        rw [List.singleton_append,hback,List.count_nil]
        omega
  | released h =>
    have hpos := hheld h List.mem_cons_self
    have hdrop : ∀ k, (settle d [] [.release h]).strong k = d.strong k - [h].count k :=
      fun _ => rfl
    refine ⟨⟨hpos,trivial⟩,hd,fun k hk => ?_⟩
    rw [hdrop,hzero k hk]
    by_cases hkh : h = k
    · subst hkh
      simp
      omega
    · simp [hkh]

structure Client (w : Word) (σ : Type) where
  proc : Proc (Abi.uniform w) σ
  driver : Driver (Abi.uniform w)
  returned : List UInt32
  released : List UInt32

namespace Client

def start (p : Proc (Abi.uniform w) σ) : Client w σ := ⟨p,Driver.idle,[],[]⟩

def since (p p' : Proc (Abi.uniform w) σ) : List (BinderCommand (Abi.uniform w)) :=
  p'.written.drop p.written.length

def step (V : Server (Abi.uniform w) σ) (c : Client w σ) (op : Op w) : Client w σ :=
  match op.exec V c.proc with
  | none => c
  | some (h,p) =>
    ⟨p,settle c.driver op.bufs (since c.proc p),h :: c.returned,op.dropped ++ c.released⟩

def Allowed (c : Client w σ) (op : Op w) : Prop :=
  ∀ h ∈ op.dropped, h ≠ 0 ∧ c.released.count h < c.returned.count h

def Counts (V : Server (Abi.uniform w) σ) (c : Client w σ) (op : Op w) : Prop :=
  ∀ h p, op.exec V c.proc = some (h,p) →
    Along Driver.issue Driver.Counted (op.bufs.foldl Driver.carry c.driver) (since c.proc p)

structure Balanced (c : Client w σ) : Prop where
  freed : c.driver.bufs = []
  strong : ∀ h, h ≠ 0 → c.driver.strong h + c.released.count h = c.returned.count h

theorem start_balanced (p : Proc (Abi.uniform w) σ) : (start p).Balanced := ⟨rfl,fun _ _ => rfl⟩

theorem step_balanced (V : Server (Abi.uniform w) σ) {c : Client w σ} {op : Op w}
    (hb : c.Balanced) (ha : c.Allowed op) : c.Counts V op ∧ (c.step V op).Balanced := by
  obtain ⟨h,p,cmds,hexec,hwritten,hwrote⟩ := exec_wrote V c.proc op
  have hsince : since c.proc p = cmds := by
    rw [since,hwritten,List.drop_left]
  have hheld : ∀ k ∈ op.dropped, 0 < c.driver.strong k := by
    intro k hk
    obtain ⟨hz,hlt⟩ := ha k hk
    have hstrong := hb.strong k hz
    omega
  obtain ⟨hcounted,hfreed,hstrong⟩ := wrote_settles hwrote hb.freed hheld
  constructor
  · intro h' p' hexec'
    obtain ⟨-,rfl⟩ := Prod.mk.inj (Option.some.inj (hexec.symm.trans hexec'))
    rw [hsince]
    exact hcounted
  · have hstep : c.step V op =
        ⟨p,settle c.driver op.bufs cmds,h :: c.returned,op.dropped ++ c.released⟩ := by
      simp only [step,hexec,hsince]
    rw [hstep]
    refine ⟨hfreed,fun k hk => ?_⟩
    have hnow := hstrong k hk
    have hbefore := hb.strong k hk
    have hreturned : ([h] ++ c.returned).count k = [h].count k + c.returned.count k :=
      List.count_append
    rw [List.singleton_append] at hreturned
    simp only [List.count_append,hreturned]
    omega

end Client

theorem Client.step_exec {V : Server (Abi.uniform w) σ} {c : Client w σ} {op : Op w} {h : UInt32}
    {p : Proc (Abi.uniform w) σ} (hexec : op.exec V c.proc = some (h,p)) :
    (c.step V op).proc = p ∧ (c.step V op).returned = h :: c.returned ∧
      (c.step V op).released = op.dropped ++ c.released := by
  rw [step,hexec]
  exact ⟨rfl,rfl,rfl⟩

theorem client_references (V : Server (Abi.uniform w) σ) (p : Proc (Abi.uniform w) σ)
    {ops : List (Op w)} (h : Along (Client.step V) Client.Allowed (.start p) ops) :
    Along (Client.step V) (Client.Counts V) (.start p) ops ∧
      Always (Client.step V) Client.Balanced (.start p) ops := by
  have hkeep : ∀ c op, Client.Balanced c → c.Allowed op → (c.step V op).Balanced :=
    fun c op hb ha => (Client.step_balanced V hb ha).2
  refine ⟨?_,always_of_along (fun _ hb => hb) hkeep (Client.start_balanced p) h⟩
  exact along_of_along (fun c op hb ha => (Client.step_balanced V hb ha).1) hkeep
    (Client.start_balanced p) h

def demanded (f : Frame) (hello goodbye : UInt32) (cmd : List UInt8) (rest : List (List UInt8))
    (a : Awaited w) : List (Op w) :=
  if cString cmd = helloName.chars then
    match rest with
    | [] => [.say helloSvrCmdSayhello f hello a]
    | [name] => [.sayTo helloSvrCmdSayhelloTo f hello name a]
    | _ => []
  else
    match rest with
    | [] => [.say helloSvrCmdSaygoodbye f goodbye a]
    | [name] => [.sayTo helloSvrCmdSaygoodbyeTo f goodbye name a]
    | _ => []

theorem demand_exec (f : Frame) (hello goodbye : UInt32) (cmd : List UInt8)
    (rest : List (List UInt8)) (a : Awaited w) :
    ∃ p', demand V p f hello goodbye cmd rest a.rounds = some p' ∧
      (demanded f hello goodbye cmd rest a = [] ∧ p' = p ∨
        ∃ op, demanded f hello goodbye cmd rest a = [op] ∧ op.exec V p = some (0,p') ∧
          op.dropped = []) := by
  have hsay : ∀ code handle, ∃ p', Testserver.say code V p f handle a.rounds = some p' ∧
      (Op.say code f handle a).exec V p = some (0,p') := by
    intro code handle
    obtain ⟨p',cmds,hcall,-⟩ := say_wrote V p code f handle a
    exact ⟨p',hcall,by rw [Op.exec,hcall]; rfl⟩
  have hsayTo : ∀ code handle name, ∃ p',
      (Testserver.sayTo code V p f handle name a.rounds).map Prod.snd = some p' ∧
        (Op.sayTo code f handle name a).exec V p = some (0,p') := by
    intro code handle name
    obtain ⟨r,p',cmds,hcall,-⟩ := sayTo_wrote V p code f handle name a
    exact ⟨p',by rw [hcall]; rfl,by rw [Op.exec,hcall]; rfl⟩
  by_cases hcmd : cString cmd = helloName.chars
  · match rest with
    | [] =>
      obtain ⟨p',hcall,hexec⟩ := hsay helloSvrCmdSayhello hello
      simp only [demand,demanded,hcmd,if_true]
      exact ⟨p',hcall,.inr ⟨_,rfl,hexec,rfl⟩⟩
    | [name] =>
      obtain ⟨p',hcall,hexec⟩ := hsayTo helloSvrCmdSayhelloTo hello name
      simp only [demand,demanded,hcmd,if_true]
      exact ⟨p',hcall,.inr ⟨_,rfl,hexec,rfl⟩⟩
    | _ :: _ :: _ => exact ⟨p,by simp [demand],.inl ⟨by simp [demanded],rfl⟩⟩
  · match rest with
    | [] =>
      obtain ⟨p',hcall,hexec⟩ := hsay helloSvrCmdSaygoodbye goodbye
      simp only [demand,demanded,hcmd,if_false]
      exact ⟨p',hcall,.inr ⟨_,rfl,hexec,rfl⟩⟩
    | [name] =>
      obtain ⟨p',hcall,hexec⟩ := hsayTo helloSvrCmdSaygoodbyeTo goodbye name
      simp only [demand,demanded,hcmd,if_false]
      exact ⟨p',hcall,.inr ⟨_,rfl,hexec,rfl⟩⟩
    | _ :: _ :: _ => exact ⟨p,by simp [demand],.inl ⟨by simp [demanded],rfl⟩⟩

theorem demanded_run (c : Client w σ) (f : Frame) (hello goodbye : UInt32) (cmd : List UInt8)
    (rest : List (List UInt8)) (a : Awaited w) :
    ∃ p', demand V c.proc f hello goodbye cmd rest a.rounds = some p' ∧
      Along (Client.step V) Client.Allowed c (demanded f hello goodbye cmd rest a) ∧
      (let c' := run (Client.step V) c (demanded f hello goodbye cmd rest a)
      c'.proc = p' ∧ c'.released = c.released ∧
        ∀ k, k ≠ 0 → c'.returned.count k = c.returned.count k) := by
  obtain ⟨p',hdemand,⟨hops,rfl⟩ | ⟨op,hops,hexec,hdropped⟩⟩ :=
    demand_exec V c.proc f hello goodbye cmd rest a
  · rw [hops]
    exact ⟨_,hdemand,trivial,rfl,rfl,fun _ _ => rfl⟩
  · obtain ⟨hproc,hreturned,hreleased⟩ := Client.step_exec hexec
    have hallowed : c.Allowed op := by simp [Client.Allowed,hdropped]
    rw [hops]
    refine ⟨p',hdemand,⟨hallowed,trivial⟩,hproc,?_,fun k hk => ?_⟩
    · rw [run_cons,run_nil,hreleased,hdropped,List.nil_append]
    · rw [run_cons,run_nil,hreturned,List.count_cons_of_ne hk.symm]

def mainOps (f : Frame) (goodbye hello : UInt32) (cmd : List UInt8) (rest : List (List UInt8))
    (first second third : Awaited w) : List (Op w) :=
  [.lookup f binderServiceManager goodbyeName first,
      .lookup f binderServiceManager helloName second] ++
    if hello = 0 then []
    else demanded f hello goodbye cmd rest third ++ [.release hello]

section
variable {f : Frame} {cmd : List UInt8} {rest : List (List UInt8)} {first second third : Awaited w}
  {goodbye hello : UInt32} {p₁ p₂ : Proc (Abi.uniform w) σ}

-- what main returns, and that of its references only the one to goodbye is left
def MainRan (V : Server (Abi.uniform w) σ) (p : Proc (Abi.uniform w) σ) (f : Frame)
    (goodbye hello : UInt32) (cmd : List UInt8) (rest : List (List UInt8))
    (first second third : Awaited w) : Prop :=
  ∃ res p', testClientMain V p (cmd :: rest) f first.rounds second.rounds third.rounds =
      some (res,p') ∧
    (let ops := mainOps f goodbye hello cmd rest first second third
    let c := run (Client.step V) (.start p) ops
    Along (Client.step V) Client.Allowed (.start p) ops ∧ c.proc = p' ∧
      ∀ k, k ≠ 0 → c.returned.count k = c.released.count k + [goodbye].count k)

theorem lookup_allowed (c : Client w σ) (name : CName) (a : Awaited w) :
    c.Allowed (.lookup f binderServiceManager name a) := fun _ hh => absurd hh List.not_mem_nil

variable (hfirst : svcmgrLookup V p f binderServiceManager goodbyeName first.rounds =
    some (goodbye,p₁))
  (hsecond : svcmgrLookup V p₁ f binderServiceManager helloName second.rounds = some (hello,p₂))
include hfirst hsecond

theorem lookups_run :
    let c := run (Client.step V) (.start p) [.lookup f binderServiceManager goodbyeName first,
      .lookup f binderServiceManager helloName second]
    c.proc = p₂ ∧ c.returned = [hello,goodbye] ∧ c.released = [] := by
  intro c
  have hexec₁ : (Op.lookup f binderServiceManager goodbyeName first).exec V
      (Client.start p).proc = some (goodbye,p₁) := hfirst
  obtain ⟨hp,hr,hd⟩ := Client.step_exec hexec₁
  have hexec : (Op.lookup f binderServiceManager helloName second).exec V
      (Client.step V (.start p) (.lookup f binderServiceManager goodbyeName first)).proc =
        some (hello,p₂) := by
    rw [hp]
    exact hsecond
  have hboth := Client.step_exec hexec
  rw [hr,hd] at hboth
  exact hboth

theorem main_without_hello (hz : hello = 0) :
    MainRan V p f goodbye hello cmd rest first second third := by
  obtain ⟨hp,hr,hd⟩ := lookups_run V p hfirst hsecond
  refine ⟨-1,p₂,?_,?_⟩
  · rw [testClientMain,hfirst]
    simp only [hsecond,hz,if_true]
  · rw [mainOps,if_pos hz,List.append_nil]
    refine ⟨⟨lookup_allowed _ _ _,lookup_allowed _ _ _,trivial⟩,hp,fun k hk => ?_⟩
    rw [hr,hd,hz,List.count_cons_of_ne hk.symm,List.count_nil,Nat.zero_add]

theorem main_with_hello (hz : hello ≠ 0) :
    MainRan V p f goodbye hello cmd rest first second third := by
  obtain ⟨hp,hr,hd⟩ := lookups_run V p hfirst hsecond
  obtain ⟨p₃,hdemand,hasked,hp₃,hd₃,hr₃⟩ := demanded_run V (run (Client.step V) (.start p)
    [.lookup f binderServiceManager goodbyeName first,
      .lookup f binderServiceManager helloName second]) f hello goodbye cmd rest third
  rw [hp] at hdemand
  refine ⟨0,binderRelease p₃ hello,?_,?_⟩
  · rw [testClientMain,hfirst]
    simp only [hsecond,hz,if_false,hdemand,Option.map_some]
  · simp only [mainOps,if_neg hz,← List.append_assoc,run_append]
    refine ⟨along_append.mpr ⟨along_append.mpr ⟨⟨lookup_allowed _ _ _,lookup_allowed _ _ _,
      trivial⟩,hasked⟩,?_,trivial⟩,congrArg (binderRelease · hello) hp₃,fun k hk => ?_⟩
    · intro h hh
      rw [run_append,List.mem_singleton.mp hh,hd₃,hd,hr₃ hello hz,hr]
      exact ⟨hz,by simp⟩
    · change List.count k (0 :: Client.returned _) = List.count k (hello :: Client.released _) + _
      rw [hd₃,hd,List.count_cons_of_ne hk.symm,hr₃ k hk,hr]
      exact (List.count_append : List.count k ([hello] ++ [goodbye]) = _)

end

-- the reference to goodbye outlives main, the one to hello does not
theorem testClientMain_references (f : Frame) (cmd : List UInt8) (rest : List (List UInt8))
    (first second third : Awaited w) :
    ∃ goodbye p₁ hello p₂ res p', svcmgrLookup V p f binderServiceManager goodbyeName first.rounds =
        some (goodbye,p₁) ∧
      svcmgrLookup V p₁ f binderServiceManager helloName second.rounds = some (hello,p₂) ∧
      testClientMain V p (cmd :: rest) f first.rounds second.rounds third.rounds = some (res,p') ∧
      (let ops := mainOps f goodbye hello cmd rest first second third
      let c := run (Client.step V) (.start p) ops
      Along (Client.step V) (Client.Counts V) (.start p) ops ∧ c.proc = p' ∧ c.driver.bufs = [] ∧
        ∀ k, k ≠ 0 → c.driver.strong k = [goodbye].count k) := by
  obtain ⟨goodbye,p₁,-,hfirst,-⟩ := lookup_wrote V p f binderServiceManager goodbyeName first
  obtain ⟨hello,p₂,-,hsecond,-⟩ := lookup_wrote V p₁ f binderServiceManager helloName second
  have hmain : MainRan V p f goodbye hello cmd rest first second third := by
    by_cases hz : hello = 0
    · exact main_without_hello V p hfirst hsecond hz
    · exact main_with_hello V p hfirst hsecond hz
  obtain ⟨res,p',hres,hallowed,hproc,hleft⟩ := hmain
  obtain ⟨hcounts,hbalanced⟩ := client_references V p hallowed
  have hfinal := hbalanced.final
  refine ⟨goodbye,p₁,hello,p₂,res,p',hfirst,hsecond,hres,hcounts,hproc,hfinal.freed,
    fun k hk => ?_⟩
  have hstrong := hfinal.strong k hk
  have hcount := hleft k hk
  omega

end References

def helloReply : BinderTransactionData (Abi.uniform .four) := ⟨0,0,0,0,0,0,16,4,256,272⟩

def helloRead : Delivery (Abi.uniform .four) where
  base := write (fun _ => 0) 256 (leBytes 4 binderTypeHandle.toNat ++ leBytes 4 0 ++ leBytes 4 5)
  ptr := 1024
  cmds := [.reply helloReply]
  rdata := fun _ _ => 0
  fits := by decide

def helloAwaited : Awaited .four where
  waits := []
  read := helloRead
  answer := .reply helloReply
  quiet := by simp
  answered := ⟨[],[],rfl,by simp,by simp⟩
  last := rfl

def helloFrame : Frame :=
  ⟨fun _ => 0,0,⟨fun _ => 0,0,0,0,0,0,0,0⟩,⟨fun _ => 0,0,0,0,0,0,0,0⟩⟩

def helloOps : List (Op .four) :=
  [.lookup helloFrame binderServiceManager helloName helloAwaited,.release 5]

theorem helloLookup_returned :
    ((Op.lookup helloFrame binderServiceManager helloName helloAwaited).exec idleServer
      ⟨(),[],0⟩).map Prod.fst = some 5 := by decide +kernel

theorem client_references_hello :
    Along (Client.step idleServer) (Client.Counts idleServer) (.start ⟨(),[],0⟩) helloOps ∧
      Always (Client.step idleServer) Client.Balanced (.start ⟨(),[],0⟩) helloOps := by
  obtain ⟨r,hexec,hfive⟩ := Option.map_eq_some_iff.mp helloLookup_returned
  obtain ⟨-,hreturned,hreleased⟩ := Client.step_exec (c := .start ⟨(),[],0⟩) hexec
  have hlookup : (Client.start ⟨(),[],0⟩).Allowed
      (.lookup helloFrame binderServiceManager helloName helloAwaited) := fun h hh => nomatch hh
  have hrelease : ((Client.start ⟨(),[],0⟩).step idleServer
      (.lookup helloFrame binderServiceManager helloName helloAwaited)).Allowed (.release 5) := by
    intro h hh
    rw [List.mem_singleton.mp hh,hreturned,hreleased,hfive]
    decide
  exact client_references idleServer ⟨(),[],0⟩ ⟨hlookup,hrelease,trivial⟩

end Testserver
