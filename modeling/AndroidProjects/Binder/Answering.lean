import AndroidProjects.Binder.Call
import AndroidProjects.Binder.Replies

namespace Binder
open ByteMemory

def BinderCommand.isReply {A : Abi} : BinderCommand A → Bool
  | reply _ => true
  | _ => false

def BinderCommand.isFree {A : Abi} : BinderCommand A → Bool
  | freeBuffer _ => true
  | _ => false

def Unanswering {A : Abi} (own : List (BinderCommand A)) : Prop :=
  ∀ c ∈ own, c.isReply = false ∧ c.isFree = false

-- a process's handler and death callbacks; runs reads off the globals which transactions it handled
structure Responder (A : Abi) (σ : Type) where
  func : BinderHandler A σ
  death : A.Uintptr → Proc A σ → Proc A σ
  runs : σ → List (BinderTransactionData A)
  func_writes : ∀ p txn msg reply, ∃ own, (func p txn msg reply).2.2.written = p.written ++ own ∧
    (∀ c ∈ own, c.isReply = false) ∧ .freeBuffer txn.buffer ∉ own
  func_runs : ∀ p txn msg reply,
    runs (func p txn msg reply).2.2.globals = runs p.globals ++ [txn]
  death_writes : ∀ a p, ∃ own, (death a p).written = p.written ++ own ∧ Unanswering own
  death_runs : ∀ a p, runs (death a p).globals = runs p.globals

inductive Answers {A : Abi} : List (BinderTransactionData A) → List (BinderCommand A) → Prop
  | nil : Answers [] []
  | idle {own ts cs} (hown : Unanswering own) (h : Answers ts cs) : Answers ts (own ++ cs)
  | served {own ts cs} (t : BinderTransactionData A) (reply : Outgoing)
      (hown : ∀ c ∈ own, c.isReply = false) (hfree : .freeBuffer t.buffer ∉ own)
      (h : Answers ts cs) :
      Answers (t :: ts) (own ++ ([.freeBuffer t.buffer,.reply reply] ++ cs))

section
variable {A : Abi} {σ : Type}

namespace Responder

def server (S : Responder A σ) (bs : BinderState) : Server A σ where
  bs := bs
  func := some S.func
  rdata := fun _ _ => 0
  death := S.death

def recording (func : BinderHandler A σ) (death : A.Uintptr → Proc A σ → Proc A σ)
    (hfunc : ∀ p txn msg reply, ∃ own, (func p txn msg reply).2.2.written = p.written ++ own ∧
      (∀ c ∈ own, c.isReply = false) ∧ .freeBuffer txn.buffer ∉ own)
    (hdeath : ∀ a p, ∃ own, (death a p).written = p.written ++ own ∧ Unanswering own) :
    Responder A (σ × List (BinderTransactionData A)) where
  func p txn msg reply :=
    let out := func ⟨p.globals.1,p.written,p.created⟩ txn msg reply
    (out.1,out.2.1,⟨(out.2.2.globals,p.globals.2 ++ [txn]),out.2.2.written,out.2.2.created⟩)
  death a p :=
    let p' := death a ⟨p.globals.1,p.written,p.created⟩
    ⟨(p'.globals,p.globals.2),p'.written,p'.created⟩
  runs := Prod.snd
  func_writes p := hfunc ⟨p.globals.1,p.written,p.created⟩
  func_runs _ _ _ _ := rfl
  death_writes a p := hdeath a ⟨p.globals.1,p.written,p.created⟩
  death_runs _ _ := rfl

end Responder

structure AnsweredOnce (S : Responder A σ) (ts : List (BinderTransactionData A))
    (p p' : Proc A σ) : Prop where
  written : ∃ cs, p'.written = p.written ++ cs ∧ Answers ts cs
  handled : S.runs p'.globals = S.runs p.globals ++ ts

def transactionsIn (cs : List (BinderReturn A)) : List (BinderTransactionData A) :=
  cs.filterMap fun
    | .transaction txn => some txn
    | _ => none

def transactionsRead : List (Option (Delivery A)) → List (BinderTransactionData A)
  | [] => []
  | none :: _ => []
  | some δ :: rounds => transactionsIn δ.cmds ++
    if 0 < δ.cmds.foldl BinderReturn.status 1 then transactionsRead rounds else []

theorem Answers.append {ts us : List (BinderTransactionData A)} {cs ds : List (BinderCommand A)}
    (h : Answers ts cs) (k : Answers us ds) : Answers (ts ++ us) (cs ++ ds) := by
  induction h with
  | nil => exact k
  | idle hown _ ih =>
    rw [List.append_assoc]
    exact .idle hown ih
  | served t reply hown hfree _ ih =>
    rw [List.append_assoc,List.append_assoc]
    exact .served t reply hown hfree ih

theorem answers_idle {own : List (BinderCommand A)} (h : Unanswering own) : Answers [] own := by
  have hi := Answers.idle h .nil
  rwa [List.append_nil] at hi

theorem Answers.replies {ts : List (BinderTransactionData A)} {cs : List (BinderCommand A)}
    (h : Answers ts cs) : cs.countP BinderCommand.isReply = ts.length := by
  have hnone : ∀ own : List (BinderCommand A), (∀ c ∈ own, c.isReply = false) →
      own.countP BinderCommand.isReply = 0 := by
    intro own hown
    rw [List.countP_eq_zero]
    intro c hc
    rw [hown c hc]
    exact Bool.false_ne_true
  induction h with
  | nil => rfl
  | idle hown _ ih => rw [List.countP_append,hnone _ fun c hc => (hown c hc).1,ih,Nat.zero_add]
  | served t reply hown hfree _ ih =>
    have hone : [BinderCommand.freeBuffer t.buffer,.reply reply].countP BinderCommand.isReply = 1 :=
      rfl
    rw [List.countP_append,List.countP_append,hnone _ hown,hone,ih,List.length_cons]
    omega

theorem AnsweredOnce.trans {S : Responder A σ} {ts us : List (BinderTransactionData A)}
    {p q r : Proc A σ} (h : AnsweredOnce S ts p q) (k : AnsweredOnce S us q r) :
    AnsweredOnce S (ts ++ us) p r := by
  obtain ⟨⟨cs,hcs,ha⟩,hruns⟩ := h
  obtain ⟨⟨ds,hds,hb⟩,hmore⟩ := k
  refine ⟨⟨cs ++ ds,?_,ha.append hb⟩,?_⟩
  · rw [hds,hcs,List.append_assoc]
  · rw [hmore,hruns,List.append_assoc]

theorem AnsweredOnce.refl (S : Responder A σ) (p : Proc A σ) : AnsweredOnce S [] p p :=
  ⟨⟨[],(List.append_nil _).symm,.nil⟩,(List.append_nil _).symm⟩

structure PassedOver (S : Responder A σ) (p p' : Proc A σ) : Prop where
  written : ∃ cs, p'.written = p.written ++ cs ∧ Unanswering cs
  handled : S.runs p'.globals = S.runs p.globals

theorem PassedOver.trans {S : Responder A σ} {p q r : Proc A σ} (h : PassedOver S p q)
    (k : PassedOver S q r) : PassedOver S p r := by
  obtain ⟨⟨cs,hcs,hno⟩,hruns⟩ := h
  obtain ⟨⟨ds,hds,hmore⟩,hsame⟩ := k
  refine ⟨⟨cs ++ ds,?_,fun c hc => ?_⟩,hsame.trans hruns⟩
  · rw [hds,hcs,List.append_assoc]
  · rcases List.mem_append.mp hc with hc | hc
    · exact hno c hc
    · exact hmore c hc

theorem passedOver_of_same {S : Responder A σ} {p p' : Proc A σ} (hw : p'.written = p.written)
    (hg : p'.globals = p.globals) : PassedOver S p p' :=
  ⟨⟨[],hw.trans (List.append_nil _).symm,fun _ hc => absurd hc List.not_mem_nil⟩,
    congrArg S.runs hg⟩

section
variable (S : Responder A σ) (bs : BinderState)

theorem serveTransaction_once (m : Mem) (p : Proc A σ) (txn : BinderTransactionData A) (r : Mem) :
    AnsweredOnce S [txn] p (serveTransaction (S.server bs) m p txn r) := by
  obtain ⟨own,hown,hno,hfree⟩ := S.func_writes p txn (bioInitFromTxn A m txn)
    (bioInit A ⟨r,0,0,0,0,0,0,0⟩ r 0 256 4)
  have hserve := serveTransaction_answered (S.server bs) S.func m p txn r
  refine ⟨⟨_,?_,.served txn (answerOf (invoked S.func m p txn r)) hno hfree .nil⟩,
    S.func_runs _ _ _ _⟩
  rw [← List.append_assoc,← hown,List.append_nil]
  exact congrArg Proc.written hserve

theorem perform_once (rdata : ℕ → Mem) (m : Mem) (s : ParseState A σ) (c : BinderReturn A) :
    AnsweredOnce S (transactionsIn [c]) s.proc
      (perform {S.server bs with rdata := rdata} m s c).proc := by
  cases c with
  | transaction txn => exact serveTransaction_once S bs m s.proc txn _
  | deadBinder cookie =>
    obtain ⟨own,hown,hno⟩ := S.death_writes (cookie.setWidth _) s.proc
    exact ⟨⟨own,hown,answers_idle hno⟩,(S.death_runs _ _).trans (List.append_nil _).symm⟩
  | _ => exact ⟨⟨[],(List.append_nil _).symm,.nil⟩,(List.append_nil _).symm⟩

theorem performAll_once (rdata : ℕ → Mem) (m : Mem) (s : ParseState A σ)
    (cs : List (BinderReturn A)) : AnsweredOnce S (transactionsIn cs) s.proc
      (performAll {S.server bs with rdata := rdata} m s cs).proc := by
  induction cs generalizing s with
  | nil => exact AnsweredOnce.refl S s.proc
  | cons c cs ih =>
    have hsplit : transactionsIn ([c] ++ cs) = transactionsIn [c] ++ transactionsIn cs :=
      List.filterMap_append
    rw [List.singleton_append] at hsplit
    rw [hsplit]
    exact (perform_once S bs rdata m s c).trans (ih _)

theorem loopRounds_stopped (V : Server A σ) (ioctls : List (Option ReadBuffer)) (s : Looper A σ)
    (h : s.running = false) : ioctls.foldl (loopRound V) s = s := by
  induction ioctls with
  | nil => rfl
  | cons ioctl ioctls ih => rw [List.foldl_cons,loopRound_stopped V h,ih]

theorem loopRounds_once (rounds : List (Option (Delivery A))) (s : Looper A σ)
    (hrun : s.running = true) : AnsweredOnce S (transactionsRead rounds) s.proc
      ((rounds.map (Option.map Delivery.read)).foldl (loopRound (S.server bs)) s).proc := by
  induction rounds generalizing s with
  | nil => exact AnsweredOnce.refl S s.proc
  | cons r rounds ih =>
    rw [List.map_cons,List.foldl_cons]
    cases r with
    | none =>
      have hfail : loopRound (S.server bs) s none = {s with running := false} := if_pos hrun
      rw [Option.map_none,hfail,loopRounds_stopped _ _ _ rfl]
      exact AnsweredOnce.refl S s.proc
    | some δ =>
      have hδ : AnsweredOnce S (transactionsIn δ.cmds) s.proc
          (performRead (S.server bs) s.proc δ).proc :=
        performAll_once S bs δ.rdata δ.mem
          ⟨δ.ptr,1,false,⟨δ.mem,0,0,0,0,0,0,0⟩,none,s.proc⟩ δ.cmds
      rw [Option.map_some,loopRound_read _ hrun,transactionsRead]
      refine hδ.trans ?_
      split_ifs with hr
      · rw [decide_eq_true hr]
        exact ih ⟨_,true⟩ rfl
      · rw [decide_eq_false hr,loopRounds_stopped _ _ _ rfl]
        exact AnsweredOnce.refl S _

theorem perform_passes (rdata : ℕ → Mem) (m : Mem) (s : ParseState A σ) (c : BinderReturn A) :
    PassedOver S s.proc
      (perform {S.server bs with func := none, rdata := rdata} m s c).proc := by
  cases c with
  | deadBinder cookie => exact ⟨S.death_writes (cookie.setWidth _) s.proc,S.death_runs _ _⟩
  | _ => exact passedOver_of_same rfl rfl

theorem performAll_passes (rdata : ℕ → Mem) (m : Mem) (s : ParseState A σ)
    (cs : List (BinderReturn A)) : PassedOver S s.proc
      (performAll {S.server bs with func := none, rdata := rdata} m s cs).proc := by
  induction cs generalizing s with
  | nil => exact passedOver_of_same rfl rfl
  | cons c cs ih => exact (perform_passes S bs rdata m s c).trans (ih _)

def callRounds (rounds : List (Bool × Option (Delivery A))) : List CallRound :=
  rounds.map fun r => ⟨r.1,r.2.map Delivery.read⟩

theorem parseReply_passes (p : Proc A σ) (reply : BinderIo) (δ : Delivery A) :
    PassedOver S p (parseReply (S.server bs) p reply δ.read).2.proc := by
  rw [parseReply_read]
  exact performAll_passes S bs δ.rdata δ.mem ⟨δ.ptr,1,true,reply,none,p⟩ δ.cmds

theorem submit_passes (p : Proc A σ) (txn : Outgoing) (b : Bool) :
    PassedOver S p (if b then binderWrite p [.transaction txn] else p) := by
  cases b with
  | false => exact passedOver_of_same rfl rfl
  | true =>
    refine ⟨⟨[.transaction txn],rfl,fun c hc => ?_⟩,rfl⟩
    rw [List.mem_singleton.mp hc]
    exact ⟨rfl,rfl⟩

theorem binderCallLoop_passes (txn : Outgoing) (rounds : List (Bool × Option (Delivery A)))
    {unsent : Bool} {p p' : Proc A σ} {reply rio : BinderIo} {res : Int}
    (h : binderCallLoop (S.server bs) txn unsent p reply (callRounds rounds) =
      some (res,rio,p')) : PassedOver S p p' := by
  induction rounds generalizing unsent p reply with
  | nil => cases h
  | cons r rounds ih =>
    obtain ⟨consumes,read⟩ := r
    have hsent := submit_passes S p txn (unsent && consumes)
    rw [callRounds,List.map_cons,binderCallLoop] at h
    generalize (if (unsent && consumes) = true then binderWrite p [.transaction txn] else p) = q
      at h hsent
    cases read with
    | none =>
      simp only [Option.map_none,Option.some.injEq,Prod.mk.injEq] at h
      exact h.2.2 ▸ hsent
    | some δ =>
      have hread := hsent.trans (parseReply_passes S bs q reply δ)
      simp only [Option.map_some] at h
      split_ifs at h
      · simp only [Option.some.injEq,Prod.mk.injEq] at h
        exact h.2.2 ▸ hread
      · simp only [Option.some.injEq,Prod.mk.injEq] at h
        exact h.2.2 ▸ hread
      · exact hread.trans (ih h)

theorem binderCall_passes (msg : BinderIo) (target code : UInt32)
    (rounds : List (Bool × Option (Delivery A))) {p p' : Proc A σ} {reply rio : BinderIo}
    {res : Int} (h : binderCall (S.server bs) p msg reply target code (callRounds rounds) =
      some (res,rio,p')) : PassedOver S p p' := by
  rw [binderCall] at h
  split_ifs at h
  · simp only [Option.some.injEq,Prod.mk.injEq] at h
    exact h.2.2 ▸ passedOver_of_same rfl rfl
  · exact binderCallLoop_passes S bs _ rounds h

end

theorem looperLoop_once (S : Responder A σ) (bs : BinderState) (first : BinderCommand A)
    (hfirst : Unanswering [first]) (p : Proc A σ) (rounds : List (Option (Delivery A))) :
    AnsweredOnce S (transactionsRead rounds) p
      (looperLoop (S.server bs) first p (rounds.map (Option.map Delivery.read))).proc := by
  have hstart : AnsweredOnce S [] p (binderWrite p [first]) :=
    ⟨⟨[first],rfl,answers_idle hfirst⟩,(List.append_nil _).symm⟩
  exact hstart.trans (loopRounds_once S bs rounds ⟨binderWrite p [first],true⟩ rfl)

theorem two_way_answered_by_loops (S : Responder A σ) (bs : BinderState) (p : Proc A σ) :
    (∀ rounds : List (Option (Delivery A)), AnsweredOnce S (transactionsRead rounds) p
      (binderLoop (S.server bs) p (rounds.map (Option.map Delivery.read))).proc) ∧
    (∀ rounds : List (Option (Delivery A)), AnsweredOnce S (transactionsRead rounds) p
      (binderThreadLoop (S.server bs) p (rounds.map (Option.map Delivery.read))).proc) ∧
    ∀ (msg reply rio : BinderIo) (target code : UInt32)
      (rounds : List (Bool × Option (Delivery A))) (res : Int) (p' : Proc A σ),
      binderCall (S.server bs) p msg reply target code (callRounds rounds) = some (res,rio,p') →
        PassedOver S p p' := by
  have hplain : ∀ c : BinderCommand A, c.isReply = false → c.isFree = false → Unanswering [c] := by
    intro c hr hf c' hc
    exact List.mem_singleton.mp hc ▸ ⟨hr,hf⟩
  refine ⟨looperLoop_once S bs .enterLooper (hplain _ rfl rfl) p,
    looperLoop_once S bs .registerLooper (hplain _ rfl rfl) p,?_⟩
  intro msg reply rio target code rounds res p' h
  exact binderCall_passes S bs msg target code rounds h

theorem binderCall_one (V : Server A σ) (p : Proc A σ) {msg : BinderIo} (hmsg : ¬ msg.overflow)
    (reply : BinderIo) (target code : UInt32) {δ : Delivery A}
    (h : δ.cmds.foldl BinderReturn.status 1 = 0) : ∃ rio p',
      binderCall V p msg reply target code (callRounds [(true,some δ)]) = some (0,rio,p') := by
  obtain ⟨s,hparse,hr⟩ : ∃ s : ParseState A σ, parseReply V
      (binderWrite p [.transaction (callTransaction msg target code)]) reply δ.read = (s.r,s) ∧
      s.r = δ.cmds.foldl BinderReturn.status 1 :=
    ⟨_,parseReply_read V _ reply δ,performAll_r _ _ _ _⟩
  refine ⟨s.reply,s.proc,?_⟩
  rw [binderCall,if_neg hmsg,callRounds,List.map_singleton,binderCallLoop]
  simp only [Option.map_some,Bool.and_self,if_true,hparse]
  exact if_pos (hr.trans h)

end

def nestedTxn : BinderTransactionData (Abi.uniform .four) := ⟨0,0,1,0,0,0,0,0,64,0⟩

def nestedRead : Delivery (Abi.uniform .four) where
  base := fun _ => 0
  ptr := 1024
  cmds := [.transaction nestedTxn,.reply nestedTxn]
  rdata := fun _ _ => 0
  fits := by decide

def acknowledging : Responder (Abi.uniform .four)
    (Unit × List (BinderTransactionData (Abi.uniform .four))) :=
  .recording (fun p _ _ reply => (0,reply,p)) (fun _ p => p)
    (fun p _ _ _ => ⟨[],(List.append_nil p.written).symm,fun _ hc => absurd hc List.not_mem_nil,
      List.not_mem_nil⟩)
    fun _ p => ⟨[],(List.append_nil p.written).symm,fun _ hc => absurd hc List.not_mem_nil⟩

theorem nested_transaction_unanswered :
    ¬ ∀ (A : Abi) (σ : Type) (S : Responder A σ) (bs : BinderState) (p p' : Proc A σ)
      (msg reply rio : BinderIo) (target code : UInt32) (δ : Delivery A),
      (∀ txn ∈ transactionsIn δ.cmds, txn.oneWay = false) →
      binderCall (S.server bs) p msg reply target code (callRounds [(true,some δ)]) =
        some (0,rio,p') → AnsweredOnce S (transactionsIn δ.cmds) p p' := by
  intro hall
  have hclear : ¬ BinderIo.overflow ⟨fun _ => 0,0,0,0,0,0,0,0⟩ := BinderIo.clear_of_zero rfl
  obtain ⟨rio,p',hcall⟩ := binderCall_one (acknowledging.server ⟨3,0,0⟩) ⟨((),[]),[],0⟩ hclear
    ⟨fun _ => 0,0,0,0,0,0,0,0⟩ 0 1 (δ := nestedRead) rfl
  have htwoWay : ∀ txn ∈ transactionsIn nestedRead.cmds, txn.oneWay = false := by
    intro txn htxn
    rw [List.mem_singleton.mp htxn]
    decide
  obtain ⟨⟨cs,hcs,hanswers⟩,-⟩ := hall _ _ acknowledging _ _ _ _ _ _ _ _ nestedRead htwoWay hcall
  obtain ⟨⟨own,hown,hno⟩,-⟩ := binderCall_passes acknowledging ⟨3,0,0⟩ _ 0 1 _ hcall
  have hsame : cs = own := List.append_cancel_left (hcs.symm.trans hown)
  have hone := hanswers.replies
  have hidle := (answers_idle hno).replies
  rw [hsame,hidle] at hone
  exact absurd hone (by decide)

end Binder
