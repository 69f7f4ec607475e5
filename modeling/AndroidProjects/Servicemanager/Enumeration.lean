import AndroidProjects.Servicemanager.Listing
import AndroidProjects.Servicemanager.Requests
import Mathlib.Logic.Relation

namespace Servicemanager
open Binder ByteMemory

structure Enumeration (A : Abi) where
  manager : Manager A
  next : UInt32
  returned : List (List UInt16)
  ended : Bool

def PlainName (name : List UInt16) : Prop := name.length ≤ 100 ∧ 0 ∉ name

section
variable {A : Abi}

def begun (p : Manager A) : Enumeration A := ⟨p,0,[],false⟩

def Svclist.names (l : Svclist A) : List (List UInt16) := l.entries.map Svcinfo.name

namespace Enumeration

def names (s : Enumeration A) : List (List UInt16) := s.manager.svclist.names

def answered (s : Enumeration A) (manager : Manager A) (m : Mem) (txn : BinderTransactionData A) :
    Enumeration A :=
  if txn.flags &&& tfStatusCode ≠ 0 then {s with manager := manager, ended := true}
  else {s with
    manager := manager
    next := s.next + 1
    returned := (stringRead A m txn).toList ++ s.returned}

def Plain (s : Enumeration A) : Prop := ∀ name ∈ s.names, PlainName name

end Enumeration

section
variable (st : BinderState) (reads : ℕ → Mem)

-- request is any transaction of any client, death any death callback
inductive Turn : Enumeration A → Enumeration A → Prop
  | list {s} (running : s.ended = false) (req : ListRequest A s.next) (rdata : Mem)
      (carried : Carried A
        (answerOf (invoked (svcmgrHandler A) req.mem s.manager req.txn rdata)) .reply) :
      Turn s (s.answered
        (serveTransaction (svcmgrServer A st reads) req.mem s.manager req.txn rdata)
        carried.read.mem carried.txn)
  | request {s} (m : Mem) (txn : BinderTransactionData A) (rdata : Mem) :
      Turn s {s with
        manager := serveTransaction (svcmgrServer A st reads) m s.manager txn rdata}
  | death {s} (death : A.Uintptr) : Turn s {s with manager := svcmgrDeath death s.manager}

theorem request_svclist (m : Mem) (p : Manager A) (txn : BinderTransactionData A) (rdata : Mem) :
    Manager.svclist (serveTransaction (svcmgrServer A st reads) m p txn rdata) =
      Manager.svclist (invoked (svcmgrHandler A) m p txn rdata).2.2 := rfl

theorem request_grows (m : Mem) (p : Manager A) (txn : BinderTransactionData A) (rdata : Mem) :
    p.svclist.names <:+
      (Manager.svclist (serveTransaction (svcmgrServer A st reads) m p txn rdata)).names := by
  rw [request_svclist]
  have hh := svcmgrHandler_handled p (reads_init m txn) (blankReply A rdata)
  change Handled A m p txn _ (invoked (svcmgrHandler A) m p txn rdata) at hh
  generalize invoked (svcmgrHandler A) m p txn rdata = out at hh ⊢
  cases hh with
  | untouched h => exact List.suffix_rfl
  | added hcode hname hio hadd =>
    cases hadd with
    | refused reason hl hw hc =>
      simp only [hl]
      exact List.suffix_rfl
    | overridden valid hf hl hw hc =>
      simp only [hl,Svclist.names]
      rw [setHandle_names]
    | pushed valid hf fresh hl hw hc halloc =>
      simp only [hl]
      exact List.suffix_cons _ _

theorem death_grows (death : A.Uintptr) (p : Manager A) :
    p.svclist.names <:+ (svcmgrDeath death p).svclist.names := by
  rw [svcmgrDeath]
  cases p.svclist.entries.find? fun si => si.deathAddr = death with
  | none => exact List.suffix_rfl
  | some si =>
    have hkeep : (svcinfoDeath p si.death.ptr).svclist.names = p.svclist.names :=
      svcinfoDeath_names p si.death.ptr
    cases si.death.func with
    | svcinfoDeath => exact (congrArg (p.svclist.names <:+ ·) hkeep).mpr List.suffix_rfl

structure Covered (names : List (List UInt16)) (s : Enumeration A) : Prop where
  passed : ∃ new, s.names = new ++ names ∧
    ∀ (i : ℕ) (name : List UInt16), names[i]? = some name → new.length + i < s.next.toNat →
      name ∈ s.returned
  complete : s.ended = true → ∀ name ∈ names, name ∈ s.returned

theorem covered_begun (p : Manager A) : Covered p.svclist.names (begun p) where
  passed := ⟨[],rfl,fun _ _ _ hlt => absurd hlt (Nat.not_lt_zero _)⟩
  complete h := absurd h Bool.false_ne_true

theorem covered_grows {names : List (List UInt16)} {s : Enumeration A} (hc : Covered names s)
    {p : Manager A} (h : s.names <:+ p.svclist.names) :
    Covered names {s with manager := p} := by
  obtain ⟨new,hnames,hpassed⟩ := hc.passed
  obtain ⟨more,hmore⟩ := h
  refine ⟨⟨more ++ new,?_,fun i name hi hlt => hpassed i name hi ?_⟩,hc.complete⟩
  · rw [List.append_assoc,← hnames]
    exact hmore.symm
  · rw [List.length_append] at hlt
    simp only [] at hlt
    omega

section
variable {s : Enumeration A} (req : ListRequest A s.next) {rdata : Mem}
  (carried : Carried A
    (answerOf (invoked (svcmgrHandler A) req.mem s.manager req.txn rdata)) .reply)
  (p : Manager A)

theorem answered_end (h : s.manager.svclist.entries[s.next.toNat]? = none) :
    s.answered p carried.read.mem carried.txn = {s with manager := p, ended := true} := by
  have hout := list_answer req s.manager rdata
  rw [h] at hout
  have hset : tfStatusCode &&& tfStatusCode ≠ 0 := by decide
  have hflags : carried.txn.flags &&& tfStatusCode ≠ 0 := by
    rw [carried.flags,hout]
    exact hset
  rw [Enumeration.answered,if_pos hflags]

theorem answered_entry {si : Svcinfo A} (h : s.manager.svclist.entries[s.next.toNat]? = some si)
    (hplain : PlainName si.name) : s.answered p carried.read.mem carried.txn =
      {s with manager := p, next := s.next + 1, returned := si.name :: s.returned} := by
  have hout := list_answer req s.manager rdata
  rw [h] at hout
  have hclear : (0 : UInt32) &&& tfStatusCode = 0 := by decide
  have hflags : ¬ carried.txn.flags &&& tfStatusCode ≠ 0 := by
    rw [carried.flags,hout]
    exact not_not.mpr hclear
  have hs := A.sizeT.bytes_le_eight
  have hlist : Listable A si.name := by
    refine ⟨hplain.2,?_⟩
    have hlen := hplain.1
    rw [stringSize]
    omega
  have hread : stringRead A carried.read.mem carried.txn = some si.name :=
    (every_listed_iff (hplain.1.trans (by omega)) hout).mpr hlist carried
  rw [Enumeration.answered,if_neg hflags,hread]
  rfl

theorem covered_answered {names : List (List UInt16)} (hc : Covered names s) (hplain : s.Plain) :
    Covered names (s.answered s.manager carried.read.mem carried.txn) := by
  obtain ⟨new,hnames,hpassed⟩ := hc.passed
  have hat : ∀ (i : ℕ) (name : List UInt16), names[i]? = some name →
      (s.manager.svclist.entries[new.length + i]?).map Svcinfo.name = some name := by
    intro i name hi
    have hget : s.names[new.length + i]? = some name := by
      rw [hnames,List.getElem?_append_right (Nat.le_add_right _ _),Nat.add_sub_cancel_left]
      exact hi
    rw [← hget]
    exact (List.getElem?_map ..).symm
  cases hentry : s.manager.svclist.entries[s.next.toNat]? with
  | none =>
    rw [answered_end req carried s.manager hentry]
    refine ⟨⟨new,hnames,hpassed⟩,fun _ name hname => ?_⟩
    obtain ⟨i,hi⟩ := List.mem_iff_getElem?.mp hname
    refine hpassed i name hi (Nat.not_le.mp fun hle => ?_)
    have hlen := List.getElem?_eq_none_iff.mp hentry
    have hnone := List.getElem?_eq_none_iff.mpr (hlen.trans hle)
    exact absurd (hat i name hi) (by simp [hnone])
  | some si =>
    have hmem : si.name ∈ s.names := List.mem_map_of_mem (List.mem_of_getElem? hentry)
    rw [answered_entry req carried s.manager hentry (hplain _ hmem)]
    refine ⟨⟨new,hnames,fun i name hi hlt => ?_⟩,fun hend name hname =>
      List.mem_cons_of_mem _ (hc.complete hend name hname)⟩
    have hstep : (s.next + 1).toNat ≤ s.next.toNat + 1 := by
      rw [UInt32.toNat_add]
      exact Nat.mod_le _ _
    rcases Nat.lt_succ_iff_lt_or_eq.mp (hlt.trans_le hstep) with hbelow | heq
    · exact List.mem_cons_of_mem _ (hpassed i name hi hbelow)
    · have hname := hat i name hi
      rw [heq,hentry] at hname
      exact Option.some.inj hname ▸ List.mem_cons_self

end

variable {st reads}

theorem answered_names (s : Enumeration A) (p : Manager A) (m : Mem)
    (txn : BinderTransactionData A) : (s.answered p m txn).names = p.svclist.names := by
  rw [Enumeration.answered]
  split_ifs <;> rfl

theorem turn_grows {s s' : Enumeration A} (h : Turn st reads s s') : s.names <:+ s'.names := by
  cases h with
  | list running req rdata carried =>
    rw [answered_names]
    exact request_grows st reads _ _ _ _
  | request m txn rdata => exact request_grows st reads _ _ _ _
  | death death => exact death_grows death s.manager

theorem turn_covered {names : List (List UInt16)} {s s' : Enumeration A} (hc : Covered names s)
    (hplain : s.Plain) (h : Turn st reads s s') : Covered names s' := by
  cases h with
  | request m txn rdata => exact covered_grows hc (request_grows st reads _ _ _ _)
  | death death => exact covered_grows hc (death_grows death s.manager)
  | list running req rdata carried =>
    have hdone := covered_answered req carried hc hplain
    have hgrow := covered_grows hdone (p := serveTransaction (svcmgrServer A st reads) req.mem
      s.manager req.txn rdata) (by rw [answered_names]; exact request_grows st reads _ _ _ _)
    rw [Enumeration.answered] at hgrow ⊢
    split_ifs at hgrow ⊢ <;> exact hgrow

theorem run_covered {p : Manager A} {s : Enumeration A}
    (run : Relation.ReflTransGen (Turn st reads) (begun p) s) (hplain : s.Plain) :
    Covered p.svclist.names s := by
  induction run with
  | refl => exact covered_begun p
  | tail _ hturn ih =>
    have hbefore := fun name hname => hplain name ((turn_grows hturn).subset hname)
    exact turn_covered (ih hbefore) hbefore hturn

-- names are never dropped, so names plain in the end were plain throughout
theorem enumeration_misses_nothing {p : Manager A} {s : Enumeration A}
    (run : Relation.ReflTransGen (Turn st reads) (begun p) s) (hplain : s.Plain)
    (hend : s.ended = true) : ∀ si ∈ p.svclist.entries, si.name ∈ s.returned :=
  fun _ hsi => (run_covered run hplain).complete hend _ (List.mem_map_of_mem hsi)

end

end

section
abbrev Small := Abi.uniform .four

def twoServices : Manager Small :=
  Machine.run registryStep (started fun n => some (BitVec.ofNat _ (4096*(n+1))))
    [.doAddService (fun _ => 97) 1 1 0 0 0,.doAddService (fun _ => 98) 1 2 0 0 0]

def smallServer : Server Small (Svcmgr Small) := svcmgrServer Small ⟨3,0,0⟩ fun _ _ => 0

def listAnswer (s : Enumeration Small) : Outgoing :=
  let req := plainListRequest Small s.next
  answerOf (invoked (svcmgrHandler Small) req.mem s.manager req.txn fun _ => 0)

def listed (s : Enumeration Small) : Enumeration Small :=
  let req := plainListRequest Small s.next
  let txn := plainTxn Small 0 (listAnswer s)
  s.answered (serveTransaction smallServer req.mem s.manager req.txn fun _ => 0)
    (plainRead (listAnswer s) (.reply txn)).mem txn

def newcomerData : List UInt8 :=
  leBytes 4 0 ++ leBytes 4 26 ++ svcmgrId.flatMap (fun u => leBytes 2 u.toNat) ++ [0,0,0,0] ++
    leBytes 4 1 ++ [99,0,0,0] ++ leBytes 4 binderTypeHandle.toNat ++ leBytes 4 0 ++ leBytes 4 7 ++
    leBytes 4 0

def newcomerMem : Mem := write (write (fun _ => 0) 1024 newcomerData) 2048 (leBytes 4 72)

def newcomerTxn : BinderTransactionData Small where
  target := 0
  cookie := 0
  code := svcMgrAddService
  flags := 0
  senderPid := 0
  senderEuid := 0
  dataSize := BitVec.ofNat _ newcomerData.length
  offsetsSize := 4
  buffer := 1024
  offsets := 2048

def newcomerAdded (s : Enumeration Small) : Enumeration Small :=
  {s with manager := serveTransaction smallServer newcomerMem s.manager newcomerTxn fun _ => 0}

def firstDied (s : Enumeration Small) : Enumeration Small :=
  {s with manager := svcmgrDeath (4096 + 8) s.manager}

def firstTurn : Enumeration Small := listed (begun twoServices)

def secondTurn : Enumeration Small := newcomerAdded firstTurn

def thirdTurn : Enumeration Small := listed secondTurn

def fourthTurn : Enumeration Small := firstDied thirdTurn

def fifthTurn : Enumeration Small := listed fourthTurn

def sixthTurn : Enumeration Small := listed fifthTurn

def seen (s : Enumeration Small) : List (List UInt16) × List UInt32 × Bool × List UInt8 × ℕ :=
  (s.names,s.manager.svclist.entries.map Svcinfo.handle,s.ended,(listAnswer s).offsets,
    (listAnswer s).data.length)

-- a new name goes in at the head between n = 0 and n = 1, and a handle dies before n = 2
theorem turns_seen :
    [begun twoServices,firstTurn,secondTurn,thirdTurn,fourthTurn,fifthTurn,sixthTurn].map seen =
      [([[98],[97]],[2,1],false,[],8),([[98],[97]],[2,1],false,[],8),
       ([[99],[98],[97]],[7,2,1],false,[],8),([[99],[98],[97]],[7,2,1],false,[],8),
       ([[99],[98],[97]],[7,2,0],false,[],8),([[99],[98],[97]],[7,2,0],false,[],4),
       ([[99],[98],[97]],[7,2,0],true,[],4)] := by decide +kernel

theorem listed_seen {s : Enumeration Small} {names : List (List UInt16)} {handles : List UInt32}
    {n : ℕ} (h : seen s = (names,handles,false,[],n)) (hn : n ≤ 8) :
    Turn ⟨3,0,0⟩ (fun _ _ => 0) s (listed s) := by
  simp only [seen,Prod.mk.injEq] at h
  obtain ⟨-,-,running,hoffs,hlen⟩ := h
  exact .list running _ _ (carryPlain .reply 0 (listAnswer s) hoffs (by omega))

theorem twoServices_enumerated :
    List.IsChain (Turn ⟨3,0,0⟩ fun _ _ => 0)
      [begun twoServices,firstTurn,secondTurn,thirdTurn,fourthTurn,fifthTurn,sixthTurn] ∧
    firstTurn.names = [[98],[97]] ∧ secondTurn.names = [[99],[98],[97]] ∧
    thirdTurn.manager.svclist.entries.map Svcinfo.handle = [7,2,1] ∧
    fourthTurn.manager.svclist.entries.map Svcinfo.handle = [7,2,0] ∧ sixthTurn.ended = true ∧
    ∀ si ∈ twoServices.svclist.entries, si.name ∈ sixthTurn.returned := by
  have hseen := turns_seen
  simp only [List.map_cons,List.map_nil,List.cons.injEq,and_true] at hseen
  obtain ⟨h₀,h₁,h₂,h₃,h₄,h₅,h₆⟩ := hseen
  have t₁ : Turn ⟨3,0,0⟩ (fun _ _ => 0) _ firstTurn := listed_seen h₀ (by omega)
  have t₂ : Turn ⟨3,0,0⟩ (fun _ _ => 0) firstTurn secondTurn := .request newcomerMem newcomerTxn _
  have t₃ : Turn ⟨3,0,0⟩ (fun _ _ => 0) _ thirdTurn := listed_seen h₂ (by omega)
  have t₄ : Turn ⟨3,0,0⟩ (fun _ _ => 0) thirdTurn fourthTurn := .death _
  have t₅ : Turn ⟨3,0,0⟩ (fun _ _ => 0) _ fifthTurn := listed_seen h₄ (by omega)
  have t₆ : Turn ⟨3,0,0⟩ (fun _ _ => 0) _ sixthTurn := listed_seen h₅ (by omega)
  have hrun := (((((Relation.ReflTransGen.single t₁).tail t₂).tail t₃).tail t₄).tail t₅).tail t₆
  simp only [seen,Prod.mk.injEq] at h₁ h₂ h₃ h₄ h₆
  have hplain : sixthTurn.Plain := by
    intro name hname
    rw [h₆.1] at hname
    simp only [List.mem_cons,List.not_mem_nil,or_false] at hname
    rcases hname with rfl | rfl | rfl <;> exact ⟨by decide,by decide⟩
  refine ⟨?_,h₁.1,h₂.1,h₃.2.1,h₄.2.1,h₆.2.2.1,enumeration_misses_nothing hrun hplain h₆.2.2.1⟩
  simp only [List.isChain_cons_cons,List.IsChain.singleton,and_true]
  exact ⟨t₁,t₂,t₃,t₄,t₅,t₆⟩

end

end Servicemanager
