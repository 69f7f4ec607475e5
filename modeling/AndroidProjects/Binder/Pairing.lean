import AndroidProjects.Binder.Carried

namespace Binder
open ByteMemory

-- a read round whose commands carry the transaction of the thread they settle
structure TaggedRead (A : Abi) where
  base : Mem
  ptr : ℕ
  rdata : ℕ → Mem
  cmds : List (BinderReturn A × Option ℕ)
  fits : (BinderReturn.encodeAll (cmds.map Prod.fst)).length < A.sizeT.modulus

structure PendingCall (A : Abi) where
  msg : BinderIo
  reply : BinderIo
  target : UInt32
  code : UInt32
  rounds : List (Bool × Option (TaggedRead A))

-- owed: the thread's submitted transactions the driver has still to settle
structure CallerThread (A : Abi) (σ : Type) where
  proc : Proc A σ
  owed : List ℕ

section
variable {A : Abi} {σ : Type}

def TaggedRead.delivery (r : TaggedRead A) : Delivery A :=
  ⟨r.base,r.ptr,r.cmds.map Prod.fst,r.rdata,r.fits⟩

def TaggedRead.status (r : TaggedRead A) : Int :=
  (r.cmds.map Prod.fst).foldl BinderReturn.status 1

def BinderReturn.isReply : BinderReturn A → Bool
  | reply _ => true
  | _ => false

def BinderReturn.settling : BinderReturn A → Bool
  | reply _ => true
  | failedReply => true
  | deadReply => true
  | _ => false

-- what is owed after cmds, none if one of them settles a transaction that is not owed
def settle : List ℕ → List (BinderReturn A × Option ℕ) → Option (List ℕ)
  | owed, [] => some owed
  | owed, (c,some n) :: cs =>
    if c.settling = true ∧ n ∈ owed then settle (owed.erase n) cs else none
  | owed, (c,none) :: cs => if c.isReply = true then none else settle owed cs

-- what is owed once the call returns; none if it does not or the driver breaks its rules
def drive (id : ℕ) : Bool → List ℕ → List (Bool × Option (TaggedRead A)) → Option (List ℕ)
  | _, _, [] => none
  | unsent, owed, (consumes,read) :: rounds =>
    let owed := if unsent && consumes then owed ++ [id] else owed
    match read with
    | none => some owed
    | some r =>
      match settle owed r.cmds with
      | none => none
      | some owed => if r.status ≤ 0 then some owed else drive id (unsent && !consumes) owed rounds

def firstReply : List (BinderReturn A × Option ℕ) → Option (BinderTransactionData A × Option ℕ)
  | [] => none
  | (.reply txn,tag) :: _ => some (txn,tag)
  | _ :: cs => firstReply cs

def received : List (Bool × Option (TaggedRead A)) →
    Option (Mem × BinderTransactionData A × Option ℕ)
  | [] => none
  | (_,none) :: _ => none
  | (_,some r) :: rounds =>
    if r.status ≤ 0 then (firstReply r.cmds).map fun t => (r.delivery.mem,t.1,t.2)
    else received rounds

def PendingCall.callRounds (e : PendingCall A) : List CallRound :=
  e.rounds.map fun r => ⟨r.1,r.2.map fun t => t.delivery.read⟩

-- a server whose death callbacks submit no transactions of their own
structure Calling (A : Abi) (σ : Type) where
  server : Server A σ
  death_submits : ∀ a p, submissions (server.death a p) = submissions p

section
variable (V : Calling A σ)

def callResult (s : CallerThread A σ) (e : PendingCall A) : Option (Int × BinderIo × Proc A σ) :=
  binderCall V.server s.proc e.msg e.reply e.target e.code e.callRounds

def driven (s : CallerThread A σ) (e : PendingCall A) : Option (List ℕ) :=
  if e.msg.overflow then some s.owed
  else drive (submissions s.proc).length true s.owed e.rounds

def callStep (s : CallerThread A σ) (e : PendingCall A) : CallerThread A σ :=
  match driven s e,callResult V s e with
  | some owed,some out => ⟨out.2.2,owed⟩
  | _,_ => s

structure OwnAnswer (s : CallerThread A σ) (e : PendingCall A) (rio : BinderIo)
    (p' : Proc A σ) : Prop where
  once : submissions p' = submissions s.proc ++ [callTransaction e.msg e.target e.code]
  own : ∃ m txn, received e.rounds = some (m,txn,some (submissions s.proc).length) ∧
    rio = bioInitFromTxn A m txn

def CallsPaired (s : CallerThread A σ) : Prop :=
  ∀ e rio p', (driven s e).isSome → callResult V s e = some (0,rio,p') → OwnAnswer s e rio p'

def SettledInTime (s : CallerThread A σ) (e : PendingCall A) : Prop :=
  ∀ owed, driven s e = some owed → owed = []

theorem perform_submits (rdata : ℕ → Mem) (m : Mem) (s : ParseState A σ) (c : BinderReturn A) :
    submissions (perform {V.server with func := none, rdata := rdata} m s c).proc =
      submissions s.proc := by
  cases c with
  | deadBinder cookie => exact V.death_submits _ _
  | _ => rfl

theorem performAll_submits (rdata : ℕ → Mem) (m : Mem) (s : ParseState A σ)
    (cs : List (BinderReturn A)) :
    submissions (performAll {V.server with func := none, rdata := rdata} m s cs).proc =
      submissions s.proc := by
  induction cs generalizing s with
  | nil => rfl
  | cons c cs ih => exact (ih _).trans (perform_submits V rdata m s c)

end

theorem performAll_replied (V : Server A σ) (m : Mem) (s : ParseState A σ) (h : s.bio = false)
    (cs : List (BinderReturn A)) : (performAll V m s cs).reply = s.reply := by
  induction cs generalizing s with
  | nil => rfl
  | cons c cs ih =>
    have hc : (perform V m s c).bio = false ∧ (perform V m s c).reply = s.reply := by
      cases c with
      | reply txn => simp [perform,h]
      | _ => exact ⟨h,rfl⟩
    exact (ih _ hc.1).trans hc.2

theorem performAll_first (V : Server A σ) (m : Mem) (s : ParseState A σ) (h : s.bio = true)
    {cs : List (BinderReturn A × Option ℕ)} {txn : BinderTransactionData A} {tag : Option ℕ}
    (hfirst : firstReply cs = some (txn,tag)) :
    (performAll V m s (cs.map Prod.fst)).reply = bioInitFromTxn A m txn := by
  induction cs generalizing s with
  | nil => cases hfirst
  | cons c cs ih =>
    obtain ⟨c,t⟩ := c
    cases c with
    | reply txn' =>
      simp only [firstReply,Option.some.injEq,Prod.mk.injEq] at hfirst
      have hdone : (perform V m s (.reply txn')).reply = bioInitFromTxn A m txn := by
        simp [perform,h,hfirst.1]
      exact (performAll_replied V m (perform V m s (.reply txn')) rfl _).trans hdone
    | _ => exact ih (perform V m s _) h hfirst

theorem parseReply_tagged (V : Calling A σ) (p : Proc A σ) (reply : BinderIo) (r : TaggedRead A) :
    ∃ st, parseReply V.server p reply r.delivery.read = (r.status,st) ∧
      submissions st.proc = submissions p ∧
      ∀ txn tag, firstReply r.cmds = some (txn,tag) →
        st.reply = bioInitFromTxn A r.delivery.mem txn := by
  have hparse := parseReply_read V.server p reply r.delivery
  have hr := performAll_r {V.server with func := none, rdata := r.rdata} r.delivery.mem
    ⟨r.ptr,1,true,reply,none,p⟩ (r.cmds.map Prod.fst)
  refine ⟨_,hparse.trans (Prod.ext hr rfl),performAll_submits V _ _ _ _,fun txn tag hfirst => ?_⟩
  exact performAll_first _ _ _ rfl hfirst

theorem neg_one_not_pos : ¬ (0 : Int) < -1 := by decide

theorem status_reply {cs : List (BinderReturn A × Option ℕ)} {r : Int}
    (h : (cs.map Prod.fst).foldl BinderReturn.status r = 0) :
    r = 0 ∨ ∃ txn tag, firstReply cs = some (txn,tag) := by
  induction cs generalizing r with
  | nil => exact .inl h
  | cons c cs ih =>
    obtain ⟨c,t⟩ := c
    cases c with
    | reply txn => exact .inr ⟨txn,t,rfl⟩
    | failedReply => exact .inr ((ih h).resolve_left (by simp [BinderReturn.status]))
    | deadReply => exact .inr ((ih h).resolve_left (by simp [BinderReturn.status]))
    | _ => exact ih h

theorem status_settling {cs : List (BinderReturn A × Option ℕ)} {r : Int}
    (h : 0 < (cs.map Prod.fst).foldl BinderReturn.status r) :
    0 < r ∧ ∀ c ∈ cs, c.1.settling = false := by
  induction cs generalizing r with
  | nil => exact ⟨h,fun _ hc => absurd hc List.not_mem_nil⟩
  | cons c cs ih =>
    obtain ⟨c,t⟩ := c
    obtain ⟨hpos,hcs⟩ := ih h
    cases c with
    | reply txn => exact absurd hpos (Int.lt_irrefl 0)
    | failedReply => exact absurd hpos neg_one_not_pos
    | deadReply => exact absurd hpos neg_one_not_pos
    | _ => exact ⟨hpos,by simpa using ⟨rfl,fun c t hc => hcs (c,t) hc⟩⟩

theorem settle_keeps {cs : List (BinderReturn A × Option ℕ)} {owed owed' : List ℕ}
    (h : settle owed cs = some owed') (hcs : ∀ c ∈ cs, c.1.settling = false) : owed' = owed := by
  induction cs with
  | nil => exact (Option.some.inj h).symm
  | cons c cs ih =>
    obtain ⟨c,tag⟩ := c
    have hc : c.settling = false := hcs (c,tag) List.mem_cons_self
    cases tag with
    | none =>
      rw [settle] at h
      split_ifs at h
      exact ih h fun d hd => hcs d (List.mem_cons_of_mem _ hd)
    | some n =>
      rw [settle,if_neg (by simp [hc])] at h
      cases h

theorem settle_owed {cs : List (BinderReturn A × Option ℕ)} {owed owed' : List ℕ}
    (h : settle owed cs = some owed') : owed'.Sublist owed ∧
      ∀ txn tag, firstReply cs = some (txn,tag) → ∃ n ∈ owed, tag = some n := by
  induction cs generalizing owed with
  | nil =>
    refine ⟨?_,fun _ _ hf => by cases hf⟩
    rw [Option.some.inj h]
  | cons c cs ih =>
    obtain ⟨c,tag⟩ := c
    cases tag with
    | none =>
      rw [settle] at h
      split_ifs at h with hr
      obtain ⟨hsub,hfirst⟩ := ih h
      refine ⟨hsub,fun txn tag hf => ?_⟩
      cases c with
      | reply t => exact absurd rfl hr
      | _ => exact hfirst txn tag hf
    | some k =>
      rw [settle] at h
      split_ifs at h with hk
      obtain ⟨hsub,hfirst⟩ := ih h
      refine ⟨hsub.trans List.erase_sublist,fun txn tag hf => ?_⟩
      cases c with
      | reply t =>
        simp only [firstReply,Option.some.injEq,Prod.mk.injEq] at hf
        exact ⟨k,hk.2,hf.2.symm⟩
      | _ =>
        obtain ⟨n,hn,htag⟩ := hfirst txn tag hf
        exact ⟨n,List.mem_of_mem_erase hn,htag⟩

theorem owed_submitted (id : ℕ) (unsent consumes : Bool) :
    (if (unsent && consumes) = true then (if unsent then [] else [id]) ++ [id]
      else if unsent then [] else [id]) = if (unsent && !consumes) then [] else [id] := by
  cases unsent <;> cases consumes <;> rfl

theorem submissions_submitted {txn : Outgoing} {before : List Outgoing} {unsent : Bool}
    (consumes : Bool) {p : Proc A σ}
    (h : submissions p = if unsent then before else before ++ [txn]) :
    submissions (if (unsent && consumes) = true then binderWrite p [.transaction txn] else p) =
      if (unsent && !consumes) then before else before ++ [txn] := by
  cases unsent with
  | false => exact h
  | true =>
    cases consumes with
    | false => exact h
    | true => exact (submissions_write p txn).trans (congrArg (· ++ [txn]) h)

theorem answering_round {id : ℕ} {left : Bool} {owed' : List ℕ} {b : Bool} {r : TaggedRead A}
    (rounds : List (Bool × Option (TaggedRead A))) (hzero : r.status = 0)
    (hsettle : settle (if left then [] else [id]) r.cmds = some owed') :
    left = false ∧ ∃ t, firstReply r.cmds = some (t,some id) ∧
      received ((b,some r) :: rounds) = some (r.delivery.mem,t,some id) := by
  obtain ⟨t,tag,hf⟩ := (status_reply hzero).resolve_left (by decide)
  obtain ⟨n,hn,rfl⟩ := (settle_owed hsettle).2 t tag hf
  cases left with
  | true => cases hn
  | false =>
    obtain rfl : n = id := List.mem_singleton.mp hn
    refine ⟨rfl,t,hf,?_⟩
    rw [received,if_pos (Int.le_of_eq hzero),hf]
    rfl

theorem last_round {id : ℕ} {txn : Outgoing} {before : List Outgoing} {unsent : Bool}
    {owed owed' : List ℕ} (howed : owed = if unsent then [] else [id]) {q p' : Proc A σ}
    (hq : submissions q = if unsent then before else before ++ [txn])
    (hp' : submissions p' = submissions q) (hsub : owed'.Sublist owed) (h : owed' ≠ []) :
    owed' = [id] ∧ submissions p' = before ++ [txn] := by
  cases unsent with
  | true =>
    rw [howed] at hsub
    exact absurd (List.sublist_nil.mp hsub) h
  | false =>
    rw [howed] at hsub
    refine ⟨?_,hp'.trans hq⟩
    rcases List.sublist_cons_iff.mp hsub with hnil | ⟨r,rfl,hr⟩
    · exact absurd (List.sublist_nil.mp hnil) h
    · rw [List.sublist_nil.mp hr]

theorem drive_sound (V : Calling A σ) {id : ℕ} {txn : Outgoing} {before : List Outgoing}
    (rounds : List (Bool × Option (TaggedRead A))) {unsent : Bool} {owed' : List ℕ} {p : Proc A σ}
    (reply : BinderIo)
    (hdrive : drive id unsent (if unsent then [] else [id]) rounds = some owed')
    (hsub : submissions p = if unsent then before else before ++ [txn]) :
    ∃ res rio p', binderCallLoop V.server txn unsent p reply
        (rounds.map fun r => ⟨r.1,r.2.map fun t => t.delivery.read⟩) = some (res,rio,p') ∧
      (res = 0 → submissions p' = before ++ [txn] ∧
        ∃ m t, received rounds = some (m,t,some id) ∧ rio = bioInitFromTxn A m t) ∧
      (owed' ≠ [] → owed' = [id] ∧ submissions p' = before ++ [txn]) := by
  induction rounds generalizing unsent p reply with
  | nil => cases hdrive
  | cons r rounds ih =>
    obtain ⟨consumes,read⟩ := r
    have hq := submissions_submitted consumes hsub
    rw [drive.eq_def] at hdrive
    simp only [owed_submitted] at hdrive
    rw [List.map_cons,binderCallLoop]
    generalize (if (unsent && consumes) = true then binderWrite p [.transaction txn] else p) = q
      at hq ⊢
    generalize (unsent && !consumes) = left at hdrive hq ⊢
    cases read with
    | none =>
      rw [← Option.some.inj hdrive]
      exact ⟨-1,_,q,rfl,fun h => absurd h (by decide),
        last_round rfl hq rfl (List.Sublist.refl _)⟩
    | some r =>
      obtain ⟨st,hparse,hst,hreply⟩ := parseReply_tagged V q reply r
      simp only [Option.map_some,hparse]
      cases hsettle : settle (if left then [] else [id]) r.cmds with
      | none =>
        simp only [hsettle] at hdrive
        cases hdrive
      | some owed₁ =>
        have hsublist := (settle_owed hsettle).1
        simp only [hsettle] at hdrive
        rcases Int.lt_trichotomy r.status 0 with hneg | hzero | hpos
        · rw [if_pos (Int.le_of_lt hneg)] at hdrive
          rw [if_neg (Int.ne_of_lt hneg),if_pos hneg]
          rw [← Option.some.inj hdrive]
          exact ⟨-1,_,st.proc,rfl,fun h => absurd h (by decide),last_round rfl hq hst hsublist⟩
        · rw [if_pos (Int.le_of_eq hzero)] at hdrive
          rw [if_pos hzero]
          rw [← Option.some.inj hdrive]
          refine ⟨0,_,st.proc,rfl,fun _ => ?_,last_round rfl hq hst hsublist⟩
          obtain ⟨rfl,t,hf,hreceived⟩ := answering_round rounds hzero hsettle
          exact ⟨hst.trans hq,r.delivery.mem,t,hreceived,hreply t _ hf⟩
        · rw [if_neg (Int.not_le.mpr hpos)] at hdrive
          rw [if_neg (Int.ne_of_gt hpos),if_neg (Int.not_lt.mpr (Int.le_of_lt hpos))]
          rw [settle_keeps hsettle (status_settling hpos).2] at hdrive
          rw [received,if_neg (Int.not_le.mpr hpos)]
          exact ih st.reply hdrive (hst.trans hq)

section
variable {V : Calling A σ} {s : CallerThread A σ} {e : PendingCall A}

theorem driven_result (h : s.owed = []) {owed : List ℕ} (hdriven : driven s e = some owed)
    (hmsg : ¬ e.msg.overflow) : ∃ res rio p', callResult V s e = some (res,rio,p') ∧
      (res = 0 → OwnAnswer s e rio p') ∧
      (owed ≠ [] → owed = [(submissions s.proc).length] ∧
        submissions p' = submissions s.proc ++ [callTransaction e.msg e.target e.code]) := by
  rw [driven,if_neg hmsg,h] at hdriven
  obtain ⟨res,rio,p',hloop,hown,hleft⟩ := drive_sound V e.rounds e.reply hdriven rfl
  refine ⟨res,rio,p',(if_neg hmsg).trans hloop,fun hz => ?_,hleft⟩
  obtain ⟨honce,hreply⟩ := hown hz
  exact ⟨honce,hreply⟩

theorem calls_paired_of_nothing_owed (h : s.owed = []) : CallsPaired V s := by
  intro e rio p' hdriven hres
  have hmsg : ¬ e.msg.overflow := by
    intro ho
    rw [callResult,binderCall_overflow _ ho] at hres
    cases hres
  obtain ⟨owed,howed⟩ := Option.isSome_iff_exists.mp hdriven
  obtain ⟨res,rio₁,p₁,hresult,hown,-⟩ := driven_result (V := V) h howed hmsg
  rw [hresult] at hres
  cases hres
  exact hown rfl

def staleRead (A : Abi) (id : ℕ) : TaggedRead A where
  base := fun _ => 0
  ptr := 0
  rdata := fun _ _ => 0
  cmds := [(.reply (plainTxn A 0 ⟨0,0,0,[],[]⟩),some id)]
  fits := one_command_fits _

def staleCall (A : Abi) (id : ℕ) : PendingCall A where
  msg := ⟨fun _ => 0,0,0,0,0,0,0,0⟩
  reply := ⟨fun _ => 0,0,0,0,0,0,0,0⟩
  target := 0
  code := 0
  rounds := [(true,some (staleRead A id))]

theorem staleCall_clear (A : Abi) (id : ℕ) : ¬ (staleCall A id).msg.overflow :=
  BinderIo.clear_of_zero rfl

theorem staleCall_returns (V : Calling A σ) (s : CallerThread A σ) (id : ℕ) :
    ∃ rio p', callResult V s (staleCall A id) = some (0,rio,p') := by
  obtain ⟨st,hparse,-,-⟩ := parseReply_tagged V (binderWrite s.proc
    [.transaction (callTransaction (staleCall A id).msg 0 0)]) (staleCall A id).reply
    (staleRead A id)
  refine ⟨st.reply,st.proc,?_⟩
  rw [callResult,binderCall,if_neg (staleCall_clear A id),PendingCall.callRounds,staleCall,
    List.map_singleton,binderCallLoop]
  simp only [Option.map_some,Bool.and_self,if_true]
  rw [staleCall] at hparse
  simp only [hparse]
  exact if_pos rfl

theorem not_paired_of_owed {id : ℕ} (h : s.owed = [id]) (hid : id < (submissions s.proc).length) :
    ¬ CallsPaired V s := by
  intro hpaired
  obtain ⟨rio,p',hres⟩ := staleCall_returns V s id
  have hdriven : (driven s (staleCall A id)).isSome := by
    rw [driven,if_neg (staleCall_clear A id),h]
    have hsettle : settle [id,(submissions s.proc).length] (staleRead A id).cmds =
        some [(submissions s.proc).length] := by
      simp [settle,staleRead,BinderReturn.settling]
    have hstatus : (staleRead A id).status ≤ 0 := Int.le_refl 0
    simp [staleCall,drive,hsettle,hstatus]
  obtain ⟨m,txn,hreceived,-⟩ := (hpaired _ _ _ hdriven hres).own
  have htag : some id = some (submissions s.proc).length := by
    have hstatus : (staleRead A id).status ≤ 0 := Int.le_refl 0
    rw [staleCall,received,if_pos hstatus] at hreceived
    exact congrArg (fun t => t.2.2) (Option.some.inj hreceived)
  exact absurd (Option.some.inj htag) (Nat.ne_of_lt hid)

end

theorem calls_paired_iff_settled_in_time (V : Calling A σ) (p : Proc A σ)
    (es : List (PendingCall A)) :
    Machine.Always (callStep V) (CallsPaired V) ⟨p,[]⟩ es ↔
      Machine.Along (callStep V) SettledInTime ⟨p,[]⟩ es := by
  have keep : ∀ s e, s.owed = [] → SettledInTime s e → (callStep V s e).owed = [] := by
    intro s e hs hc
    rw [callStep]
    cases hd : driven s e with
    | none => exact hs
    | some owed =>
      cases hr : callResult V s e with
      | none => exact hs
      | some out => exact hc owed hd
  have fail : ∀ s e, s.owed = [] → ¬ SettledInTime s e → ¬ CallsPaired V (callStep V s e) := by
    intro s e hs hc
    simp only [SettledInTime,not_forall] at hc
    obtain ⟨owed,hd,hne⟩ := hc
    have hmsg : ¬ e.msg.overflow := by
      intro ho
      rw [driven,if_pos ho] at hd
      exact hne ((Option.some.inj hd).symm.trans hs)
    obtain ⟨res,rio,p',hres,-,hleft⟩ := driven_result (V := V) hs hd hmsg
    obtain ⟨howed,hsub⟩ := hleft hne
    have hstep : callStep V s e = ⟨p',owed⟩ := by
      rw [callStep,hd,hres]
    rw [hstep]
    refine not_paired_of_owed howed ?_
    rw [hsub,List.length_append,List.length_singleton]
    exact Nat.lt_succ_self _
  exact Machine.always_iff_along (fun _ hs => calls_paired_of_nothing_owed hs) keep fail rfl es

def idleCaller : Calling (Abi.uniform .four) Unit :=
  ⟨⟨⟨3,0,0⟩,none,fun _ _ => 0,fun _ p => p⟩,fun _ _ => rfl⟩

-- the driver takes the transaction and the ioctl then fails, as on EINTR
def interruptedCall : PendingCall (Abi.uniform .four) :=
  {staleCall (Abi.uniform .four) 0 with rounds := [(true,none)]}

theorem interrupted_call_answers_the_next :
    ¬ ∀ (A : Abi) (V : Calling A Unit) (p : Proc A Unit) (es : List (PendingCall A)),
      Machine.Always (callStep V) (CallsPaired V) ⟨p,[]⟩ es := by
  intro hall
  have hpaired := (hall _ idleCaller ⟨(),[],0⟩ [interruptedCall]).final
  have howed : (Machine.run (callStep idleCaller) ⟨⟨(),[],0⟩,[]⟩ [interruptedCall]).owed = [0] :=
    rfl
  exact not_paired_of_owed howed (by decide +kernel) hpaired

end

end Binder
