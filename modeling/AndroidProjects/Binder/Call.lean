import AndroidProjects.Binder.Loop
import Mathlib.Logic.Relation

namespace Binder
open ByteMemory

def callTransaction (msg : BinderIo) (target code : UInt32) : Outgoing where
  target := target
  code := code
  flags := 0
  data := msg.dataBytes
  offsets := msg.offsBytes

def callSent (msg : BinderIo) (target code : UInt32) : Option Outgoing :=
  if msg.overflow then none else some (callTransaction msg target code)

theorem callSent_none {msg : BinderIo} {target code : UInt32}
    (h : callSent msg target code = none) : msg.overflow := by
  rw [callSent] at h
  split_ifs at h with ho
  exact ho

theorem callSent_some {msg : BinderIo} {target code : UInt32} {out : Outgoing}
    (h : callSent msg target code = some out) :
    ¬ msg.overflow ∧ out = callTransaction msg target code := by
  rw [callSent] at h
  split_ifs at h with ho
  exact ⟨ho,(Option.some.inj h).symm⟩

-- one ioctl: whether it consumes the write buffer, and what it reads (none: it fails)
structure CallRound where
  consumes : Bool
  read : Option ReadBuffer

def ioError (reply : BinderIo) : BinderIo := ⟨reply.mem,0,0,0,0,0,0,bioFIoerror⟩

section
variable {A : Abi} {σ : Type} (V : Server A σ)

def parseReply (p : Proc A σ) (reply : BinderIo) (b : ReadBuffer) : Int × ParseState A σ :=
  binderParse {V with func := none, rdata := b.rdata} b.mem p (some reply) b.ptr b.consumed

theorem parseReply_read (p : Proc A σ) (reply : BinderIo) (δ : Delivery A) :
    parseReply V p reply δ.read =
      let s := performAll {V with func := none, rdata := δ.rdata} δ.mem
        ⟨δ.ptr,1,true,reply,none,p⟩ δ.cmds
      (s.r,s) :=
  binderParse_encodeAll {V with func := none, rdata := δ.rdata} δ.mem p (some reply) δ.ptr δ.cmds
    (slice_write _ _ _) δ.fits

-- none: binder_call has not returned when the rounds are used up
def binderCallLoop (txn : Outgoing) (unsent : Bool) (p : Proc A σ) (reply : BinderIo) :
    List CallRound → Option (Int × BinderIo × Proc A σ)
  | [] => none
  | r :: rounds =>
    let p := if unsent && r.consumes then binderWrite p [.transaction txn] else p
    match r.read with
    | none => some (-1,ioError reply,p)
    | some b =>
      let out := parseReply V p reply b
      if out.1 = 0 then some (0,out.2.reply,out.2.proc)
      else if out.1 < 0 then some (-1,ioError out.2.reply,out.2.proc)
      else binderCallLoop txn (unsent && !r.consumes) out.2.proc out.2.reply rounds

def binderCall (p : Proc A σ) (msg reply : BinderIo) (target code : UInt32)
    (rounds : List CallRound) : Option (Int × BinderIo × Proc A σ) :=
  if msg.overflow then some (-1,ioError reply,p)
  else binderCallLoop V (callTransaction msg target code) true p reply rounds

def submissions (p : Proc A σ) : List Outgoing :=
  p.written.filterMap fun
    | .transaction txn => some txn
    | _ => none

def binderDone (p : Proc A σ) (reply : BinderIo) : BinderIo × Proc A σ :=
  if reply.flags &&& bioFShared ≠ 0 then
    ({reply with flags := 0},binderWrite p [.freeBuffer (BitVec.ofNat _ reply.data0)])
  else (reply,p)

theorem binderCall_overflow {msg : BinderIo} (h : msg.overflow) (p : Proc A σ) (reply : BinderIo)
    (target code : UInt32) (rounds : List CallRound) :
    binderCall V p msg reply target code rounds = some (-1,ioError reply,p) := by
  rw [binderCall,if_pos h]

theorem submissions_write (p : Proc A σ) (txn : Outgoing) :
    submissions (binderWrite p [.transaction txn]) = submissions p ++ [txn] :=
  List.filterMap_append

theorem binderDone_submissions (p : Proc A σ) (reply : BinderIo) :
    submissions (binderDone p reply).2 = submissions p := by
  rw [binderDone]
  split_ifs
  · exact List.filterMap_append.trans (List.append_nil _)
  · rfl

-- all that a read without a handler does to the process
inductive WaitStep (death : A.Uintptr → Proc A σ → Proc A σ) : Proc A σ → Proc A σ → Prop
  | spawned (p : Proc A σ) : WaitStep death p {p with created := p.created + 1}
  | died (ptr : A.Uintptr) (p : Proc A σ) : WaitStep death p (death ptr p)

def Waited : Proc A σ → Proc A σ → Prop := Relation.ReflTransGen (WaitStep V.death)

variable {V}

theorem waited_kept {β : Type} (f : Proc A σ → β)
    (hspawn : ∀ q : Proc A σ, f {q with created := q.created + 1} = f q)
    (hdeath : ∀ ptr q, f (V.death ptr q) = f q) {p q : Proc A σ} (h : Waited V p q) :
    f q = f p := by
  induction h with
  | refl => rfl
  | tail _ hstep ih =>
    cases hstep with
    | spawned => exact (hspawn _).trans ih
    | died ptr => exact (hdeath ptr _).trans ih

theorem parseCommand_waited (hfunc : V.func = none) (m : Mem) (endp : ℕ) {p : Proc A σ}
    {s : ParseState A σ} (h : Waited V p s.proc) :
    (∀ s', parseCommand V m endp s = .next s' → Waited V p s'.proc) ∧
      ∀ r s', parseCommand V m endp s = .ret r s' → Waited V p s'.proc := by
  have hserve : ∀ txn rdata, serveTransaction V m s.proc txn rdata = s.proc := by
    intro txn rdata
    rw [serveTransaction,hfunc]
  have hspawn : Waited V p {s.proc with created := s.proc.created + 1} :=
    h.tail (.spawned s.proc)
  have hdied : ∀ ptr, Waited V p (V.death ptr s.proc) := fun ptr => h.tail (.died ptr s.proc)
  constructor
  · intro s' hnext
    simp only [parseCommand,hserve] at hnext
    split_ifs at hnext <;> cases hnext <;> first | exact h | exact hspawn | exact hdied _
  · intro r s' hret
    simp only [parseCommand,hserve] at hret
    split_ifs at hret <;> cases hret <;> exact h

theorem binderParseLoop_waited (hfunc : V.func = none) (m : Mem) (endp : ℕ) {p : Proc A σ}
    (s : ParseState A σ) (h : Waited V p s.proc) :
    Waited V p (binderParseLoop V m endp s).2.proc := by
  induction s using binderParseLoop.induct V m endp with
  | case1 s hlt s' hnext ih =>
    rw [binderParseLoop_next V m hlt hnext]
    exact ih ((parseCommand_waited hfunc m endp h).1 s' hnext)
  | case2 s hlt r s' hret =>
    rw [binderParseLoop_ret V m hlt hret]
    exact (parseCommand_waited hfunc m endp h).2 r s' hret
  | case3 s hge =>
    rw [binderParseLoop_done V m (Nat.not_lt.mp hge)]
    exact h

theorem parseReply_waited (p : Proc A σ) (reply : BinderIo) (b : ReadBuffer) :
    Waited V p (parseReply V p reply b).2.proc :=
  binderParseLoop_waited (V := {V with func := none, rdata := b.rdata}) rfl b.mem _ _ .refl

section
variable {txn : Outgoing} {p p' : Proc A σ} {reply rio : BinderIo} {res : Int}

theorem binderCallLoop_sent {unsent : Bool} {rounds : List CallRound}
    (hsent : unsent = false ∨ ∀ r ∈ rounds, r.consumes = false)
    (h : binderCallLoop V txn unsent p reply rounds = some (res,rio,p')) : Waited V p p' := by
  induction rounds generalizing unsent p reply with
  | nil => cases h
  | cons r rounds ih =>
    have hkeeps : (unsent && r.consumes) = false := by
      rcases hsent with hsent | hsent
      · rw [hsent,Bool.false_and]
      · rw [hsent r List.mem_cons_self,Bool.and_false]
    have hrest : (unsent && !r.consumes) = false ∨ ∀ u ∈ rounds, u.consumes = false := by
      rcases hsent with hsent | hsent
      · exact .inl (by rw [hsent,Bool.false_and])
      · exact .inr fun u hu => hsent u (List.mem_cons_of_mem r hu)
    simp only [binderCallLoop,hkeeps,Bool.false_eq_true,if_false] at h
    cases hread : r.read with
    | none =>
      simp only [hread,Option.some.injEq,Prod.mk.injEq] at h
      exact h.2.2 ▸ .refl
    | some b =>
      have hwaited := parseReply_waited (V := V) p reply b
      simp only [hread] at h
      split_ifs at h
      · simp only [Option.some.injEq,Prod.mk.injEq] at h
        exact h.2.2 ▸ hwaited
      · simp only [Option.some.injEq,Prod.mk.injEq] at h
        exact h.2.2 ▸ hwaited
      · exact hwaited.trans (ih hrest h)

theorem binderCallLoop_submits {idle rest : List CallRound} {r : CallRound}
    (hidle : ∀ u ∈ idle, u.consumes = false) (hr : r.consumes = true)
    (hopen : binderCallLoop V txn true p reply idle = none)
    (h : binderCallLoop V txn true p reply (idle ++ r :: rest) = some (res,rio,p')) :
    ∃ q, Waited V p q ∧ Waited V (binderWrite q [.transaction txn]) p' := by
  induction idle generalizing p reply with
  | nil =>
    refine ⟨p,.refl,?_⟩
    simp only [List.nil_append,binderCallLoop,hr,Bool.and_true,if_true,Bool.not_true,
      Bool.and_false] at h
    cases hread : r.read with
    | none =>
      simp only [hread,Option.some.injEq,Prod.mk.injEq] at h
      exact h.2.2 ▸ .refl
    | some b =>
      have hwaited := parseReply_waited (V := V) (binderWrite p [.transaction txn]) reply b
      simp only [hread] at h
      split_ifs at h
      · simp only [Option.some.injEq,Prod.mk.injEq] at h
        exact h.2.2 ▸ hwaited
      · simp only [Option.some.injEq,Prod.mk.injEq] at h
        exact h.2.2 ▸ hwaited
      · exact hwaited.trans (binderCallLoop_sent (.inl rfl) h)
  | cons u idle ih =>
    have hu := hidle u List.mem_cons_self
    simp only [List.cons_append,binderCallLoop,hu,Bool.and_false,Bool.false_eq_true,if_false,
      Bool.not_false,Bool.and_self] at h hopen
    cases hread : u.read with
    | none =>
      simp only [hread] at hopen
      cases hopen
    | some b =>
      simp only [hread] at h hopen
      split_ifs at h hopen
      obtain ⟨q,hbefore,hafter⟩ := ih (fun v hv => hidle v (List.mem_cons_of_mem u hv)) hopen h
      exact ⟨q,(parseReply_waited p reply b).trans hbefore,hafter⟩

end

-- the calls that return, by the round in which the driver takes the write buffer (r)
structure Submits (V : Server A σ) (p : Proc A σ) (msg reply : BinderIo) (target code : UInt32) :
    Prop where
  waiting : ∀ idle res rio p', (∀ u ∈ idle, u.consumes = false) →
    binderCall V p msg reply target code idle = some (res,rio,p') → Waited V p p'
  taken : ∀ idle r rest res rio p', (∀ u ∈ idle, u.consumes = false) → r.consumes = true →
    binderCall V p msg reply target code idle = none →
    binderCall V p msg reply target code (idle ++ r :: rest) = some (res,rio,p') →
    ∃ q, Waited V p q ∧
      Waited V (binderWrite q [.transaction (callTransaction msg target code)]) p'

theorem binderCall_submits {msg : BinderIo} (h : ¬ msg.overflow) (p : Proc A σ) (reply : BinderIo)
    (target code : UInt32) : Submits V p msg reply target code where
  waiting idle res rio p' hidle hcall := by
    rw [binderCall,if_neg h] at hcall
    exact binderCallLoop_sent (.inr hidle) hcall
  taken idle r rest res rio p' hidle hr hopen hcall := by
    rw [binderCall,if_neg h] at hopen hcall
    exact binderCallLoop_submits hidle hr hopen hcall

theorem binderCall_submissions (hdeath : ∀ ptr q, submissions (V.death ptr q) = submissions q)
    {msg : BinderIo} {target code : UInt32} {out : Outgoing}
    (hsent : callSent msg target code = some out) {r : CallRound} (hr : r.consumes = true)
    {rest : List CallRound} {p p' : Proc A σ} {reply rio : BinderIo} {res : Int}
    (hcall : binderCall V p msg reply target code (r :: rest) = some (res,rio,p')) :
    submissions p' = submissions p ++ [out] := by
  obtain ⟨hfits,rfl⟩ := callSent_some hsent
  have hopen : binderCall V p msg reply target code [] = none := if_neg hfits
  obtain ⟨q,hbefore,hafter⟩ := (binderCall_submits hfits p reply target code).taken [] r rest
    res rio p' (fun _ hu => absurd hu List.not_mem_nil) hr hopen hcall
  rw [waited_kept submissions (fun _ => rfl) hdeath hafter,submissions_write,
    waited_kept submissions (fun _ => rfl) hdeath hbefore]

end

end Binder
