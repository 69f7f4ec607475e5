import AndroidProjects.Binder.Loop
import AndroidProjects.Servicemanager.Directory
import AndroidProjects.Servicemanager.Handler

namespace Servicemanager
open Binder ByteMemory

inductive Answer where
  | transactionComplete
  | failedReply
  deriving DecidableEq, Repr

def Answer.command {A : Abi} : Answer → BinderReturn A
  | transactionComplete => .transactionComplete
  | failedReply => .failedReply

structure LoopRead (A : Abi) where
  base : Mem
  ptr : ℕ
  rdata : ℕ → Mem
  taken : ℕ
  txn : Option (BinderTransactionData A)
  fits : 4 + 4 * taken + (4 + A.sizeofBinderTransactionData) ≤ sizeofReadbuf

structure Service (A : Abi) where
  looper : Looper A (Svcmgr A)
  pending : ℕ
  answers : List Answer

section
variable {A : Abi}

namespace LoopRead

def cmds (r : LoopRead A) (answers : List Answer) : List (BinderReturn A) :=
  .noop :: ((answers.take r.taken).map Answer.command ++ r.txn.toList.map .transaction)

theorem encodeAll_answers (as : List Answer) :
    (BinderReturn.encodeAll (as.map (Answer.command (A := A)))).length = 4 * as.length := by
  induction as with
  | nil => rfl
  | cons a as ih =>
    rw [BinderReturn.encodeAll] at ih ⊢
    rw [List.map_cons,List.flatMap_cons,List.length_append,ih,List.length_cons]
    cases a <;> simp [Answer.command,BinderReturn.encode_length,BinderReturn.payload] <;> omega

theorem fits_readbuf (r : LoopRead A) (answers : List Answer) :
    (BinderReturn.encodeAll (r.cmds answers)).length ≤ sizeofReadbuf := by
  have hf := r.fits
  have ha := encodeAll_answers (A := A) (answers.take r.taken)
  have ht : (BinderReturn.encodeAll (r.txn.toList.map .transaction)).length ≤
      4 + A.sizeofBinderTransactionData := by
    cases r.txn with
    | none => exact Nat.zero_le _
    | some t =>
      simp [BinderReturn.encodeAll,BinderReturn.encode_length,BinderReturn.payload,
        BinderTransactionData.encode_length]
  have hmin := List.length_take_le r.taken answers
  simp only [cmds,BinderReturn.encodeAll,List.flatMap_cons,List.flatMap_append,
    List.length_append,BinderReturn.encode_length,BinderReturn.payload] at ha ht ⊢
  simp only [List.length_nil]
  omega

def deliver (r : LoopRead A) (answers : List Answer) : Delivery A where
  base := r.base
  ptr := r.ptr
  cmds := r.cmds answers
  rdata := r.rdata
  fits := by
    have hm := A.sizeT.modulus_ge
    have hf := r.fits_readbuf answers
    simp only [sizeofReadbuf] at hf
    omega

end LoopRead

def replied : ℕ × List Answer → ℕ × List Answer
  | (0,as) => (0,as ++ [.failedReply])
  | (n+1,as) => (n,as ++ [.transactionComplete])

def answer (d : ℕ × List Answer) : BinderCommand A → ℕ × List Answer
  | .reply _ => replied d
  | _ => d

def awaited (r : LoopRead A) : ℕ := (r.txn.toList.filter fun t => !t.oneWay).length

def serve (st : BinderState) (s : Service A) (r : LoopRead A) : Service A :=
  if s.looper.running then
    let looper := loopRound (svcmgrServer A st r.rdata) s.looper (some (r.deliver s.answers).read)
    let issued := looper.proc.written.drop s.looper.proc.written.length
    let d := issued.foldl answer (s.pending + awaited r,s.answers.drop r.taken)
    ⟨looper,d.1,d.2⟩
  else s

def serviceStart (st : BinderState) (heap : ℕ → Option A.Uintptr) : Service A where
  looper := binderLoop (svcmgrServer A st fun _ _ => 0) (started heap) []
  pending := 0
  answers := []

def NoReply (cmds : List (BinderCommand A)) : Prop := ∀ o, .reply o ∉ cmds

theorem foldl_answer_noReply {cmds : List (BinderCommand A)} (h : NoReply cmds)
    (d : ℕ × List Answer) : cmds.foldl answer d = d := by
  induction cmds with
  | nil => rfl
  | cons c cmds ih =>
    have hc : answer d c = d := by
      cases c with
      | reply o => exact absurd List.mem_cons_self (h o)
      | _ => rfl
    rw [List.foldl_cons,hc]
    exact ih fun o ho => h o (List.mem_cons_of_mem _ ho)

theorem added_noReply {p p' : Manager A} {s : ℕ → UInt16} {len : ℕ} {handle : UInt32}
    {allowIsolated res : Int} (h : Added p s len handle allowIsolated (res,p')) :
    ∃ cmds, p'.written = p.written ++ cmds ∧ NoReply cmds := by
  cases h with
  | refused reason hl hw hc =>
    exact ⟨[],hw.trans (List.append_nil _).symm,fun o => List.not_mem_nil⟩
  | overridden valid hf hl hw hc =>
    refine ⟨_,hw,fun o ho => ?_⟩
    split_ifs at ho <;> simp at ho
  | pushed valid hf fresh hl hw hc =>
    refine ⟨_,hw,fun o ho => ?_⟩
    simp at ho

theorem serveTransaction_answer (st : BinderState) (rdata : ℕ → Mem) (m rd : Mem)
    (p : Manager A) (txn : BinderTransactionData A) :
    ∃ cmds, (serveTransaction (svcmgrServer A st rdata) m p txn rd).written = p.written ++ cmds ∧
      ∀ d, cmds.foldl answer d = replied d := by
  have hh := svcmgrHandler_handled p (reads_init m txn) (bioInit A ⟨rd,0,0,0,0,0,0,0⟩ rd 0 256 4)
  simp only [serveTransaction,svcmgrServer,binderSendReply,binderWrite_written]
  generalize svcmgrHandler A p txn _ _ = out at hh ⊢
  have hwritten : ∃ cmds, out.2.2.written = p.written ++ cmds ∧ NoReply cmds := by
    cases hh with
    | untouched h => exact ⟨[],(List.append_nil _).symm,fun o => List.not_mem_nil⟩
    | added hcode hname hio hadd => exact added_noReply hadd
  obtain ⟨cmds,hw,hn⟩ := hwritten
  refine ⟨_,by rw [hw,List.append_assoc],fun d => ?_⟩
  rw [List.foldl_append,foldl_answer_noReply hn]
  rfl

theorem performAll_answers {σ : Type} (V : Server A σ) (m : Mem) (s : ParseState A σ)
    (as : List Answer) : (performAll V m s (as.map Answer.command)).proc = s.proc := by
  induction as generalizing s with
  | nil => rfl
  | cons a as ih =>
    have hp : (perform V m s a.command).proc = s.proc := by cases a <;> rfl
    exact (ih _).trans hp

theorem foldl_status_answers (r : Int) (as : List Answer) :
    (as.map (Answer.command (A := A))).foldl BinderReturn.status r =
      if .failedReply ∈ as then -1 else r := by
  induction as generalizing r with
  | nil => rfl
  | cons a as ih =>
    rw [List.map_cons,List.foldl_cons,ih]
    cases a <;> simp [Answer.command,BinderReturn.status]

theorem cmds_status (r : LoopRead A) (answers : List Answer) :
    (r.cmds answers).foldl BinderReturn.status 1 =
      if .failedReply ∈ answers.take r.taken then -1 else 1 := by
  have htxn : ∀ i : Int, (r.txn.toList.map BinderReturn.transaction).foldl
      BinderReturn.status i = i := by
    intro i
    cases r.txn <;> rfl
  rw [LoopRead.cmds,List.foldl_cons,List.foldl_append,htxn,foldl_status_answers]
  rfl

def answerTo (t : BinderTransactionData A) : Answer :=
  if t.oneWay then .failedReply else .transactionComplete

theorem performAll_answer (st : BinderState) (rdata : ℕ → Mem) (m : Mem)
    (s : ParseState A (Svcmgr A)) (as : List Answer) (txn : Option (BinderTransactionData A)) :
    ∃ cmds, (performAll (svcmgrServer A st rdata) m s
        (.noop :: (as.map Answer.command ++ txn.toList.map .transaction))).proc.written =
        s.proc.written ++ cmds ∧
      ∀ d, cmds.foldl answer d = txn.toList.foldl (fun d _ => replied d) d := by
  have hproc := performAll_answers (svcmgrServer A st rdata) m
    (perform (svcmgrServer A st rdata) m s .noop) as
  change _ = s.proc at hproc
  have hsplit := performAll_append (svcmgrServer A st rdata) m
    (perform (svcmgrServer A st rdata) m s .noop) (as.map Answer.command)
    (txn.toList.map .transaction)
  generalize performAll (svcmgrServer A st rdata) m _ (as.map Answer.command) = t at hproc hsplit
  change ∃ cmds, (performAll (svcmgrServer A st rdata) m
    (perform (svcmgrServer A st rdata) m s .noop)
    (as.map Answer.command ++ txn.toList.map .transaction)).proc.written = _ ∧ _
  rw [hsplit,← hproc]
  cases txn with
  | none => exact ⟨[],(List.append_nil _).symm,fun _ => rfl⟩
  | some txn => exact serveTransaction_answer st rdata m (rdata (t.ptr+4)) t.proc txn

structure Served (s : Service A) (r : LoopRead A) (s' : Service A) : Prop where
  running : s'.looper.running = decide (.failedReply ∉ s.answers.take r.taken)
  pending : s'.pending = 0
  answers : s'.answers = s.answers.drop r.taken ++ r.txn.toList.map answerTo

theorem serve_served (st : BinderState) {s : Service A} (hrun : s.looper.running = true)
    (hp : s.pending = 0) (r : LoopRead A) : Served s r (serve st s r) := by
  have hround := loopRound_read (svcmgrServer A st r.rdata) hrun (r.deliver s.answers)
  obtain ⟨cmds,hw,hd⟩ := performAll_answer st r.rdata (r.deliver s.answers).mem
    ⟨r.ptr,1,false,⟨(r.deliver s.answers).mem,0,0,0,0,0,0,0⟩,none,s.looper.proc⟩
    (s.answers.take r.taken) r.txn
  have hs : serve st s r = ⟨loopRound (svcmgrServer A st r.rdata) s.looper
      (some (r.deliver s.answers).read),(r.txn.toList.foldl (fun d _ => replied d)
        (awaited r,s.answers.drop r.taken)).1,(r.txn.toList.foldl (fun d _ => replied d)
        (awaited r,s.answers.drop r.taken)).2⟩ := by
    have hcmds : (loopRound (svcmgrServer A st r.rdata) s.looper
        (some (r.deliver s.answers).read)).proc.written.drop s.looper.proc.written.length =
          cmds := by
      rw [hround]
      exact (congrArg (List.drop _) hw).trans List.drop_left
    rw [serve,if_pos hrun]
    simp only [hcmds,hd,hp,Nat.zero_add]
  have htxn : r.txn.toList.foldl (fun d _ => replied d) (awaited r,s.answers.drop r.taken) =
      (0,s.answers.drop r.taken ++ r.txn.toList.map answerTo) := by
    simp only [awaited]
    cases r.txn with
    | none => simp
    | some t =>
      cases ht : t.oneWay <;> simp [answerTo,ht,replied]
  rw [hs,htxn]
  refine ⟨?_,rfl,rfl⟩
  rw [hround]
  change decide (0 < (r.cmds s.answers).foldl BinderReturn.status 1) = _
  rw [cmds_status]
  split_ifs with hf <;> simp [hf]

theorem serve_stopped (st : BinderState) {s : Service A} (h : s.looper.running = false)
    (r : LoopRead A) : serve st s r = s := by
  simp only [serve,h,Bool.false_eq_true,if_false]

theorem run_stopped (st : BinderState) {s : Service A} (h : s.looper.running = false)
    (rs : List (LoopRead A)) : Machine.run (serve st) s rs = s := by
  induction rs with
  | nil => rfl
  | cons r rs ih => rw [Machine.run_cons,serve_stopped st h,ih]

theorem running_of_run (st : BinderState) {s : Service A} (rs : List (LoopRead A))
    (h : (Machine.run (serve st) s rs).looper.running = true) : s.looper.running = true := by
  by_contra hs
  rw [run_stopped st (Bool.not_eq_true _ ▸ hs)] at h
  exact hs h

def TwoWay (r : LoopRead A) : Prop := ∀ t, r.txn = some t → t.oneWay = false

structure Answering (s : Service A) : Prop where
  running : s.looper.running = true
  pending : s.pending = 0
  noFailure : .failedReply ∉ s.answers

theorem answering_serve (st : BinderState) {s : Service A} (hs : Answering s) {r : LoopRead A}
    (hr : TwoWay r) : Answering (serve st s r) := by
  have hd := serve_served st hs.running hs.pending r
  refine ⟨?_,hd.pending,?_⟩
  · rw [hd.running,decide_eq_true_eq]
    exact fun hf => hs.noFailure (List.mem_of_mem_take hf)
  · rw [hd.answers,List.mem_append,not_or]
    refine ⟨fun hf => hs.noFailure (List.mem_of_mem_drop hf),fun hf => ?_⟩
    obtain ⟨t,ht,he⟩ := List.mem_map.mp hf
    have hone := hr t (Option.mem_toList.mp ht)
    simp [answerTo,hone] at he

theorem failure_owed (st : BinderState) {s : Service A} (hp : s.pending = 0)
    {rs : List (LoopRead A)} (hrun : (Machine.run (serve st) s rs).looper.running = true)
    (howed : .failedReply ∈ s.answers ∨ ∃ r ∈ rs, ¬ TwoWay r) :
    (Machine.run (serve st) s rs).pending = 0 ∧
      .failedReply ∈ (Machine.run (serve st) s rs).answers := by
  induction rs generalizing s with
  | nil =>
    rcases howed with h | ⟨r,hr,-⟩
    · exact ⟨hp,h⟩
    · exact absurd hr List.not_mem_nil
  | cons r rs ih =>
    have hnow := running_of_run st (r :: rs) hrun
    have hnext : (serve st s r).looper.running = true := running_of_run st rs hrun
    have hd := serve_served st hnow hp r
    rw [hd.running,decide_eq_true_eq] at hnext
    refine ih hd.pending hrun ?_
    rw [hd.answers]
    rcases howed with h | ⟨k,hk,hone⟩
    · rw [← List.take_append_drop r.taken s.answers,List.mem_append] at h
      rcases h with h | h
      · exact absurd h hnext
      · exact .inl (List.mem_append_left _ h)
    · rcases List.mem_cons.mp hk with rfl | hk
      · simp only [TwoWay,not_forall,Bool.not_eq_false] at hone
        obtain ⟨t,ht,ho⟩ := hone
        exact .inl (List.mem_append_right _ (by simp [ht,answerTo,ho]))
      · exact .inr ⟨k,hk,hone⟩

def quietRead (A : Abi) : LoopRead A where
  base _ := 0
  ptr := 0
  rdata _ _ := 0
  taken := 1
  txn := none
  fits := by
    simp only [Abi.sizeofBinderTransactionData]
    cases A.binderSizeT <;> decide

theorem failure_read (st : BinderState) (s : Service A) (hp : s.pending = 0)
    (hf : .failedReply ∈ s.answers) : ∃ more, (∀ r ∈ more, r.txn = none) ∧
      (Machine.run (serve st) s more).looper.running = false := by
  generalize has : s.answers = as at hf
  induction as generalizing s with
  | nil => exact absurd hf List.not_mem_nil
  | cons a as ih =>
    cases hrun : s.looper.running with
    | false => exact ⟨[],fun r hr => absurd hr List.not_mem_nil,hrun⟩
    | true =>
      have hd := serve_served st hrun hp (quietRead A)
      have hstop := hd.running
      have hrest := hd.answers
      rw [has] at hstop hrest
      cases a with
      | failedReply => exact ⟨[quietRead A],by simp [quietRead],hstop⟩
      | transactionComplete =>
        have hmem : Answer.failedReply ∈ as := by simpa using hf
        obtain ⟨more,hquiet,hstop⟩ := ih (serve st s (quietRead A)) hd.pending
          (hrest.trans (List.append_nil _)) hmem
        refine ⟨quietRead A :: more,?_,hstop⟩
        intro r hr
        rcases List.mem_cons.mp hr with rfl | hr
        · rfl
        · exact hquiet r hr

def StaysInLoop (st : BinderState) (heap : ℕ → Option A.Uintptr) (rs : List (LoopRead A)) : Prop :=
  ∀ more, (∀ r ∈ more, r.txn = none) →
    (Machine.run (serve st) (serviceStart st heap) (rs ++ more)).looper.running = true

theorem stays_in_loop_iff_two_way (st : BinderState) (heap : ℕ → Option A.Uintptr)
    (rs : List (LoopRead A)) : StaysInLoop st heap rs ↔ ∀ r ∈ rs, TwoWay r := by
  constructor
  · intro hstay r hr
    by_contra hone
    have hrun := hstay [] fun r hr => absurd hr List.not_mem_nil
    rw [List.append_nil] at hrun
    obtain ⟨hp,hf⟩ := failure_owed st rfl hrun (.inr ⟨r,hr,hone⟩)
    obtain ⟨more,hquiet,hstop⟩ := failure_read st _ hp hf
    have hmore := hstay more hquiet
    rw [Machine.run_append,hstop] at hmore
    exact Bool.false_ne_true hmore
  · intro htwo more hquiet
    have hall : ∀ r ∈ rs ++ more, TwoWay r := by
      intro r hr
      rcases List.mem_append.mp hr with hr | hr
      · exact htwo r hr
      · intro t ht
        rw [hquiet r hr] at ht
        cases ht
    have hstart : Answering (serviceStart st heap) := ⟨rfl,rfl,List.not_mem_nil⟩
    have hend : Answering (Machine.run (serve st) (serviceStart st heap) (rs ++ more)) :=
      Machine.run_invariant_along (I := Answering)
        (fun s r hs hr => answering_serve st hs hr) hstart (Machine.along_of_forall hall _)
    exact hend.running

end

def oneWayPing : BinderTransactionData (Abi.uniform .four) where
  target := 0
  cookie := 0
  code := pingTransaction
  flags := tfOneWay
  senderPid := 0
  senderEuid := 0
  dataSize := 0
  offsetsSize := 0
  buffer := 4096
  offsets := 4096

theorem one_way_stops_loop :
    ¬ ∀ (st : BinderState) (heap : ℕ → Option (Abi.uniform .four).Uintptr)
      (rs : List (LoopRead (Abi.uniform .four))), StaysInLoop st heap rs := by
  intro hall
  have hstay := hall ⟨0,0,0⟩ (fun _ => none) [{quietRead _ with txn := some oneWayPing}]
    [quietRead _] (by simp [quietRead])
  have hping := serve_served ⟨0,0,0⟩ (s := serviceStart ⟨0,0,0⟩ fun _ => none) rfl rfl
    {quietRead _ with txn := some oneWayPing}
  have hrun := hping.running
  have hlater := (serve_served ⟨0,0,0⟩ (hrun.trans (by decide)) hping.pending (quietRead _)).running
  rw [hping.answers] at hlater
  exact Bool.false_ne_true ((hlater.trans (by decide)).symm.trans hstay)

end Servicemanager
