import AndroidProjects.Binder.Answering
import AndroidProjects.Binder.Decoding
import Mathlib.Data.List.Count

namespace Binder
open ByteMemory BinderReturn

section
variable {A : Abi} {σ : Type}

def BinderCommand.freed : BinderCommand A → Option A.BinderUintptr
  | freeBuffer buffer => some buffer
  | _ => none

def frees (p : Proc A σ) : List A.BinderUintptr := p.written.filterMap BinderCommand.freed

-- a server whose death callbacks free no buffers
structure Sparing (A : Abi) (σ : Type) where
  server : Server A σ
  death_frees : ∀ a p, frees (server.death a p) = frees p

def doneTimes : ℕ → BinderIo × Proc A σ → BinderIo × Proc A σ
  | 0, s => s
  | n+1, s => doneTimes n (binderDone s.2 s.1)

structure ReleasedOnce (p p' : Proc A σ) (delivered : List A.BinderUintptr)
    (fs : List A.BinderUintptr) : Prop where
  written : frees p' = frees p ++ fs
  once : ∀ b ∈ delivered, fs.count b = 1
  only : ∀ b ∈ fs, b ∈ delivered

def repliesIn (cs : List (BinderReturn A)) : List A.BinderUintptr :=
  (cs.filterMap answer).map BinderTransactionData.buffer

def delivered : List (Bool × Option (Delivery A)) → List A.BinderUintptr
  | [] => []
  | (_,none) :: _ => []
  | (_,some δ) :: rounds =>
    repliesIn δ.cmds ++ if 0 < verdictOf δ.cmds then delivered rounds else []

def deliveredTo (msg : BinderIo) (rounds : List (Bool × Option (Delivery A))) :
    List A.BinderUintptr := if msg.overflow then [] else delivered rounds

def BuffersReleased (V : Server A σ) (p : Proc A σ) (msg reply : BinderIo) (target code : UInt32)
    (rounds : List (Bool × Option (Delivery A))) : Prop :=
  ∀ n res rio p', binderCall V p msg reply target code (callRounds rounds) = some (res,rio,p') →
    ∃ fs, ReleasedOnce p (doneTimes (n+1) (rio,p')).2 (deliveredTo msg rounds) fs

-- the batch that ends the call: no reply in it, or the last word is a reply's and all of them
-- bring the same buffer
def SoleReply : List (Bool × Option (Delivery A)) → Prop
  | [] => True
  | (_,none) :: _ => True
  | (_,some δ) :: rounds =>
    if 0 < verdictOf δ.cmds then SoleReply rounds
    else repliesIn δ.cmds = [] ∨ verdictOf δ.cmds = 0 ∧
      ∀ b ∈ repliesIn δ.cmds, ∀ c ∈ repliesIn δ.cmds, b = c

theorem verdict_values {cs : List (BinderReturn A)} {v : Int} (h : v ∈ cs.filterMap verdict) :
    v = 0 ∨ v = -1 := by
  obtain ⟨c,-,hc⟩ := List.mem_filterMap.mp h
  cases c <;> simp [verdict] at hc <;> omega

theorem verdictOf_cases (cs : List (BinderReturn A)) :
    cs.filterMap verdict = [] ∧ verdictOf cs = 1 ∨
      verdictOf cs ∈ cs.filterMap verdict ∧ (verdictOf cs = 0 ∨ verdictOf cs = -1) := by
  rw [verdictOf]
  cases h : (cs.filterMap verdict).getLast? with
  | none => exact .inl ⟨List.getLast?_eq_none_iff.mp h,rfl⟩
  | some v =>
    have hmem := List.mem_of_getLast? h
    exact .inr ⟨hmem,verdict_values hmem⟩

theorem replies_nil_of_open {cs : List (BinderReturn A)} (h : 0 < verdictOf cs) :
    repliesIn cs = [] := by
  rcases verdictOf_cases cs with ⟨hnil,-⟩ | ⟨-,hv⟩
  · rw [repliesIn,List.map_eq_nil_iff,List.filterMap_eq_nil_iff]
    rw [List.filterMap_eq_nil_iff] at hnil
    intro c hc
    have hnone := hnil c hc
    cases c with
    | reply txn => cases hnone
    | _ => rfl
  · omega

theorem first_reply_of_zero {cs : List (BinderReturn A)} (h : verdictOf cs = 0) :
    ∃ txn, (cs.filterMap answer).head? = some txn := by
  rcases verdictOf_cases cs with ⟨-,hone⟩ | ⟨hmem,-⟩
  · rw [h] at hone
    cases hone
  · rw [h] at hmem
    obtain ⟨c,hc,hv⟩ := List.mem_filterMap.mp hmem
    cases c with
    | reply txn =>
      have hne : cs.filterMap answer ≠ [] :=
        List.ne_nil_of_mem (List.mem_filterMap.mpr ⟨_,hc,rfl⟩)
      exact ⟨_,List.head?_eq_some_head hne⟩
    | _ => simp [verdict] at hv

theorem frees_write (p : Proc A σ) (cmds : List (BinderCommand A)) :
    frees (binderWrite p cmds) = frees p ++ cmds.filterMap BinderCommand.freed :=
  List.filterMap_append

theorem doneTimes_private (n : ℕ) {rio : BinderIo} (h : rio.flags &&& bioFShared = 0)
    (p : Proc A σ) : doneTimes n (rio,p) = (rio,p) := by
  have hdone : binderDone p rio = (rio,p) := if_neg (not_not.mpr h)
  induction n with
  | zero => rfl
  | succ n ih => rw [doneTimes,hdone,ih]

theorem ioError_private (reply : BinderIo) : (ioError reply).flags &&& bioFShared = 0 := by
  have hzero : bioFIoerror &&& bioFShared = 0 := by decide
  exact hzero

theorem doneTimes_shared (n : ℕ) {rio : BinderIo} (h : rio.flags &&& bioFShared ≠ 0)
    (p : Proc A σ) : frees (doneTimes (n+1) (rio,p)).2 = frees p ++ [BitVec.ofNat _ rio.data0] := by
  have hclear : (0 : UInt32) &&& bioFShared = 0 := by decide
  rw [doneTimes,binderDone,if_pos h,doneTimes_private n hclear]
  exact frees_write p _

section
variable (V : Sparing A σ) (m : Mem) (rdata : ℕ → Mem)

theorem perform_frees (s : ParseState A σ) (c : BinderReturn A) :
    frees (perform {V.server with func := none, rdata := rdata} m s c).proc = frees s.proc := by
  cases c with
  | deadBinder cookie => exact V.death_frees _ _
  | _ => rfl

theorem performAll_frees (s : ParseState A σ) (cs : List (BinderReturn A)) :
    frees (performAll {V.server with func := none, rdata := rdata} m s cs).proc =
      frees s.proc := by
  induction cs generalizing s with
  | nil => rfl
  | cons c cs ih => exact (ih _).trans (perform_frees V m rdata s c)

theorem parseReply_outcome (p : Proc A σ) (reply : BinderIo) (δ : Delivery A) :
    (parseReply V.server p reply δ.read).1 = verdictOf δ.cmds ∧
    frees (parseReply V.server p reply δ.read).2.proc = frees p ∧
    ∀ txn, (δ.cmds.filterMap answer).head? = some txn →
      (parseReply V.server p reply δ.read).2.reply = bioInitFromTxn A δ.mem txn := by
  rw [parseReply_read]
  refine ⟨?_,performAll_frees V δ.mem δ.rdata _ δ.cmds,fun txn h => ?_⟩
  · simp only [performAll_r,foldl_status]
    rfl
  · simp only []
    rw [performAll_reply _ _ rfl,h]
    rfl

end

theorem released_iff {p p' : Proc A σ} {bs fs : List A.BinderUintptr}
    (h : frees p' = frees p ++ fs) :
    (∃ gs, ReleasedOnce p p' bs gs) ↔ (∀ b ∈ bs, fs.count b = 1) ∧ ∀ b ∈ fs, b ∈ bs := by
  constructor
  · rintro ⟨gs,hgs⟩
    obtain rfl : fs = gs := List.append_cancel_left (h.symm.trans hgs.written)
    exact ⟨hgs.once,hgs.only⟩
  · exact fun hfs => ⟨fs,h,hfs.1,hfs.2⟩

theorem released_congr {p q r : Proc A σ} (h : frees q = frees p) {bs fs : List A.BinderUintptr} :
    ReleasedOnce p r bs fs ↔ ReleasedOnce q r bs fs :=
  ⟨fun k => ⟨h ▸ k.written,k.once,k.only⟩,fun k => ⟨h ▸ k.written,k.once,k.only⟩⟩

theorem released_none_iff {p p' : Proc A σ} {bs : List A.BinderUintptr} (h : frees p' = frees p) :
    (∃ gs, ReleasedOnce p p' bs gs) ↔ bs = [] := by
  have hnil : frees p' = frees p ++ [] := h.trans (List.append_nil _).symm
  rw [released_iff hnil]
  constructor
  · rintro ⟨hone,-⟩
    exact List.eq_nil_iff_forall_not_mem.mpr fun b hb => absurd (hone b hb) (by simp)
  · rintro rfl
    exact ⟨fun b hb => absurd hb List.not_mem_nil,fun b hb => absurd hb List.not_mem_nil⟩

theorem released_one_iff {p p' : Proc A σ} {bs : List A.BinderUintptr} {b : A.BinderUintptr}
    (hb : b ∈ bs) (h : frees p' = frees p ++ [b]) :
    (∃ gs, ReleasedOnce p p' bs gs) ↔ ∀ c ∈ bs, ∀ d ∈ bs, c = d := by
  rw [released_iff h]
  constructor
  · rintro ⟨hone,-⟩ c hc d hd
    have hsame : ∀ e ∈ bs, e = b := fun e he =>
      List.mem_singleton.mp (List.count_pos_iff.mp (by rw [hone e he]; exact Nat.one_pos))
    rw [hsame c hc,hsame d hd]
  · intro hall
    refine ⟨fun c hc => ?_,fun c hc => List.mem_singleton.mp hc ▸ hb⟩
    rw [hall c hc b hb,List.count_singleton_self]

end

section
variable {w : Word} {σ : Type} (V : Sparing (Abi.uniform w) σ)

theorem shared_frees (m : Mem) (txn : BinderTransactionData (Abi.uniform w)) (n : ℕ)
    (p : Proc (Abi.uniform w) σ) :
    frees (doneTimes (n+1) (bioInitFromTxn (Abi.uniform w) m txn,p)).2 =
      frees p ++ [txn.buffer] := by
  have hshared : bioFShared &&& bioFShared ≠ 0 := by decide
  have hbuffer : BitVec.ofNat _ ((Abi.uniform w).sizeT.wrap txn.buffer.toNat) = txn.buffer := by
    rw [show (Abi.uniform w).sizeT.wrap txn.buffer.toNat = txn.buffer.toNat from
      wrap_toNat txn.buffer]
    exact BitVec.ofNat_toNat _ _ ▸ BitVec.setWidth_eq _
  rw [doneTimes_shared n hshared,bioInitFromTxn,hbuffer]

theorem every_done_iff {p q : Proc (Abi.uniform w) σ} {res : Int} {rio : BinderIo}
    {bs : List (Abi.uniform w).BinderUintptr} {P : Prop}
    (h : ∀ n, (∃ fs, ReleasedOnce p (doneTimes (n+1) (rio,q)).2 bs fs) ↔ P) :
    (∀ n res' rio' p', some (res,rio,q) = some (res',rio',p') →
      ∃ fs, ReleasedOnce p (doneTimes (n+1) (rio',p')).2 bs fs) ↔ P := by
  constructor
  · exact fun hall => (h 0).mp (hall 0 _ _ _ rfl)
  · intro hp n res' rio' p' heq
    simp only [Option.some.injEq,Prod.mk.injEq] at heq
    obtain ⟨-,rfl,rfl⟩ := heq
    exact (h n).mpr hp

theorem loop_released_iff (txn : Outgoing)
    (rounds : List (Bool × Option (Delivery (Abi.uniform w))))
    (unsent : Bool) (p : Proc (Abi.uniform w) σ) (reply : BinderIo) :
    (∀ n res rio p', binderCallLoop V.server txn unsent p reply (callRounds rounds) =
        some (res,rio,p') →
      ∃ fs, ReleasedOnce p (doneTimes (n+1) (rio,p')).2 (delivered rounds) fs) ↔
      SoleReply rounds := by
  induction rounds generalizing unsent p reply with
  | nil => exact iff_of_true (fun n res rio p' h => by cases h) trivial
  | cons r rounds ih =>
    obtain ⟨consumes,read⟩ := r
    rw [callRounds,List.map_cons]
    simp only [binderCallLoop]
    have hsent : frees
        (if (unsent && consumes) = true then binderWrite p [.transaction txn] else p) =
        frees p := by
      split_ifs
      · exact (frees_write p _).trans (List.append_nil _)
      · rfl
    generalize (if (unsent && consumes) = true then binderWrite p [.transaction txn] else p) = q
      at hsent
    cases read with
    | none =>
      refine every_done_iff fun n => ?_
      rw [doneTimes_private _ (ioError_private _),released_none_iff hsent]
      exact iff_of_true rfl trivial
    | some δ =>
      obtain ⟨hres,hfrees,hreply⟩ := parseReply_outcome V q reply δ
      rw [hsent] at hfrees
      simp only [Option.map_some,hres,SoleReply,delivered]
      generalize parseReply V.server q reply δ.read = out at hfrees hreply
      rcases verdictOf_cases δ.cmds with ⟨-,hone⟩ | ⟨-,hzero | hfail⟩
      · have hnil : repliesIn δ.cmds = [] := replies_nil_of_open (by omega)
        have hnext := ih (unsent && !consumes) out.2.proc out.2.reply
        simp only [hone,hnil,List.nil_append,one_ne_zero,if_false,Int.zero_lt_one,if_true,
          show ¬ (1 : Int) < 0 by decide]
        refine Iff.trans ?_ hnext
        simp only [released_congr hfrees]
        rfl
      · obtain ⟨t,ht⟩ := first_reply_of_zero hzero
        have hb : t.buffer ∈ repliesIn δ.cmds :=
          List.mem_map_of_mem (List.mem_of_mem_head? ht)
        simp only [hzero,if_true,lt_irrefl,if_false,List.append_nil,true_and]
        rw [or_iff_right (List.ne_nil_of_mem hb)]
        refine every_done_iff fun n => released_one_iff hb ?_
        rw [hreply t ht,shared_frees,hfrees]
      · simp only [hfail,show ¬ (-1 : Int) = 0 by decide,show ¬ (0 : Int) < -1 by decide,
          show (-1 : Int) < 0 by decide,if_true,if_false,List.append_nil,false_and,or_false]
        refine every_done_iff fun n => released_none_iff ?_
        rw [doneTimes_private _ (ioError_private _),hfrees]

theorem released_iff_of_clear {msg : BinderIo} (ho : ¬ msg.overflow)
    (p : Proc (Abi.uniform w) σ) (reply : BinderIo) (target code : UInt32)
    (rounds : List (Bool × Option (Delivery (Abi.uniform w)))) :
    BuffersReleased V.server p msg reply target code rounds ↔ SoleReply rounds := by
  simp only [BuffersReleased,deliveredTo,if_neg ho,binderCall]
  exact loop_released_iff V _ rounds true p reply

theorem buffers_released_iff_sole (p : Proc (Abi.uniform w) σ) (msg reply : BinderIo)
    (target code : UInt32) (rounds : List (Bool × Option (Delivery (Abi.uniform w)))) :
    BuffersReleased V.server p msg reply target code rounds ↔
      (¬ msg.overflow → SoleReply rounds) := by
  by_cases ho : msg.overflow
  · refine iff_of_true (fun n res rio p' h => ?_) fun hno => absurd ho hno
    rw [binderCall_overflow _ ho] at h
    simp only [Option.some.injEq,Prod.mk.injEq] at h
    obtain ⟨-,rfl,rfl⟩ := h
    rw [doneTimes_private _ (ioError_private reply),deliveredTo,if_pos ho,released_none_iff rfl]
  · rw [released_iff_of_clear V ho]
    exact ⟨fun h _ => h,fun h => h ho⟩

end

def twoReplies : Delivery (Abi.uniform .four) where
  base := fun _ => 0
  ptr := 1024
  cmds := [.reply ⟨0,0,0,0,0,0,4,0,64,64⟩,.reply ⟨0,0,0,0,0,0,4,0,128,128⟩]
  rdata := fun _ _ => 0
  fits := by decide

def sparingServer : Sparing (Abi.uniform .four) Unit where
  server := idleServer
  death_frees := fun _ _ => rfl

theorem second_reply_leaks :
    ¬ ∀ (w : Word) (σ : Type) (V : Sparing (Abi.uniform w) σ) (p : Proc (Abi.uniform w) σ)
      (msg reply : BinderIo) (target code : UInt32)
      (rounds : List (Bool × Option (Delivery (Abi.uniform w)))),
      BuffersReleased V.server p msg reply target code rounds := by
  intro hall
  have hclear : ¬ BinderIo.overflow ⟨fun _ => 0,0,0,0,0,0,0,0⟩ := BinderIo.clear_of_zero rfl
  have hsole := (released_iff_of_clear sparingServer hclear ⟨(),[],0⟩ ⟨fun _ => 0,0,0,0,0,0,0,0⟩ 0 1
    [(true,some twoReplies)]).mp (hall .four Unit sparingServer _ _ _ 0 1 _)
  rw [SoleReply,if_neg (by decide)] at hsole
  rcases hsole with hnil | ⟨-,hsame⟩
  · cases hnil
  · exact absurd (hsame 64 (by decide) 128 (by decide)) (by decide)

end Binder
