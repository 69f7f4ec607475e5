import AndroidProjects.Binder.Driver
import AndroidProjects.Servicemanager.Directory
import AndroidProjects.Servicemanager.Requests

namespace Servicemanager
open Binder ByteMemory

section
variable {A : Abi}

def Holds (h : UInt32) (si : Svcinfo A) : Bool := si.handle ≠ 0 ∧ si.handle = h

def Svclist.holders (l : Svclist A) (h : UInt32) : ℕ := l.entries.countP (Holds h)

structure Balanced (l : Svclist A) (bs : List (Held A)) (d : Driver A) : Prop where
  bufs : d.bufs = bs
  strong : ∀ h, d.strong h = l.holders h + Driver.carried bs h

theorem holders_pos {l : Svclist A} {si : Svcinfo A} (hs : si ∈ l.entries) (hn : si.handle ≠ 0) :
    0 < l.holders si.handle := List.countP_pos_iff.mpr ⟨si,hs,by simp [Holds,hn]⟩

theorem count_one (h k : UInt32) : [h].count k = if h = k then 1 else 0 := by
  simp [List.count_singleton]

theorem holders_setHandle {l : Svclist A} {si : Svcinfo A} (hs : si ∈ l.entries)
    (handle h : UInt32) :
    (l.setHandle si.addr handle).holders h + (if si.handle ≠ 0 then [si.handle].count h else 0) =
      l.holders h + (if handle ≠ 0 then [handle].count h else 0) := by
  have hc := Pinned.countP_assign (q := Holds h) (f := Svcinfo.withHandle handle) l.addrs_nodup
    hs rfl
  have hone : ∀ k : UInt32, (if k ≠ 0 then [k].count h else 0) =
      if decide (k ≠ 0 ∧ k = h) = true then 1 else 0 := by
    intro k
    rw [count_one]
    split_ifs <;> simp_all
  rw [hone,hone]
  exact hc

theorem holders_push (l : Svclist A) (si : Svcinfo A) (fresh : si.addr ∉ l.addrs)
    (hn : si.handle ≠ 0) (h : UInt32) :
    (l.push si fresh).holders h = l.holders h + [si.handle].count h := by
  have hone : [si.handle].count h = if Holds h si = true then 1 else 0 := by
    rw [count_one]
    simp [Holds,hn]
  rw [hone]
  exact List.countP_cons

theorem balanced_acquire {l l' : Svclist A} {bs : List (Held A)} {d : Driver A} {h : UInt32}
    (hb : Balanced l bs d) (hl : ∀ k, l'.holders k = l.holders k + [h].count k) :
    Balanced l' bs (d.issue (.acquire h)) := by
  refine ⟨hb.bufs,fun k => ?_⟩
  have hk := hb.strong k
  have hk' := hl k
  simp only [Driver.issue]
  omega

theorem balanced_release {l l' : Svclist A} {bs : List (Held A)} {d : Driver A} {h : UInt32}
    (hb : Balanced l bs d) (hl : ∀ k, l'.holders k + [h].count k = l.holders k) :
    Balanced l' bs (d.issue (.release h)) := by
  refine ⟨hb.bufs,fun k => ?_⟩
  have hk := hb.strong k
  have hk' := hl k
  simp only [Driver.issue,Driver.drop]
  omega

theorem balanced_link {l : Svclist A} {bs : List (Held A)} {d : Driver A} (hb : Balanced l bs d)
    (h : UInt32) (cookie : A.BinderUintptr) :
    Balanced l bs (d.issue (.requestDeathNotification h cookie)) := ⟨hb.bufs,hb.strong⟩

theorem balanced_freeBuffer {l : Svclist A} {b : Held A} {bs : List (Held A)} {d : Driver A}
    (hb : Balanced l (b :: bs) d) : Balanced l bs (d.issue (.freeBuffer b.1)) := by
  rw [Driver.issue_freeBuffer hb.bufs]
  refine ⟨rfl,fun h => ?_⟩
  have hh := hb.strong h
  rw [Driver.carried_cons] at hh
  simp only [Driver.drop]
  omega

abbrev released (si : Svcinfo A) : List (BinderCommand A) :=
  if si.handle ≠ 0 then [.release si.handle] else []

theorem svcinfoDeath_written {p : Manager A} {si : Svcinfo A} (hs : si ∈ p.svclist.entries) :
    (svcinfoDeath p si.addr).written = p.written ++ released si := by
  rw [svcinfoDeath_of_mem hs,released]
  split_ifs
  · rfl
  · exact (List.append_nil _).symm

theorem svcinfoDeath_holders {p : Manager A} {si : Svcinfo A} (hs : si ∈ p.svclist.entries)
    (h : UInt32) : (svcinfoDeath p si.addr).svclist.holders h +
      (if si.handle ≠ 0 then [si.handle].count h else 0) = p.svclist.holders h := by
  rw [svcinfoDeath_of_mem hs]
  split_ifs with hn
  · have hk := holders_setHandle hs 0 h
    rw [if_pos hn,if_neg (by simp)] at hk
    exact hk
  · rfl

theorem svcinfoDeath_balanced {p : Manager A} {bs : List (Held A)} {d : Driver A}
    (hb : Balanced p.svclist bs d) {si : Svcinfo A} (hs : si ∈ p.svclist.entries) :
    Balanced (svcinfoDeath p si.addr).svclist bs (Machine.run Driver.issue d (released si)) ∧
      Machine.Along Driver.issue Driver.Counted d (released si) := by
  have hh := svcinfoDeath_holders hs
  rw [released]
  split_ifs at hh ⊢ with hn
  · have hpos := holders_pos hs hn
    have hk := hb.strong si.handle
    refine ⟨balanced_release hb hh,?_,trivial⟩
    change 0 < d.strong si.handle
    omega
  · exact ⟨⟨hb.bufs,fun k => (hb.strong k).trans (by rw [← hh k]; rfl)⟩,trivial⟩

theorem added_balanced {p p' : Manager A} {bs : List (Held A)} {d : Driver A}
    (hb : Balanced p.svclist bs d) {s : ℕ → UInt16} {len : ℕ} {handle : UInt32}
    {allowIsolated res : Int} (h : Added p s len handle allowIsolated (res,p')) :
    ∃ cmds, p'.written = p.written ++ cmds ∧
      Balanced p'.svclist bs (Machine.run Driver.issue d cmds) ∧
      ((handle ≠ 0 → 0 < Driver.carried bs handle) →
        Machine.Along Driver.issue Driver.Counted d cmds) := by
  cases h with
  | refused reason hl hw hc =>
    rw [hl]
    exact ⟨[],hw.trans (List.append_nil _).symm,hb,fun _ => trivial⟩
  | @overridden p' si valid hf hl hw hc =>
    have hs := findSvc_mem hf
    obtain ⟨hb',hcount⟩ := svcinfoDeath_balanced hb hs
    refine ⟨_,hw,?_,fun hpos => ?_⟩
    · rw [Machine.run_append,hl]
      refine balanced_link (balanced_acquire hb' fun k => ?_) _ _
      have hset := holders_setHandle hs handle k
      have hdead := svcinfoDeath_holders hs k
      rw [if_pos valid.1] at hset
      omega
    · rw [Machine.along_append]
      refine ⟨hcount,?_,trivial,trivial⟩
      have hk := hb'.strong handle
      have hc := hpos valid.1
      change 0 < (Machine.run Driver.issue d (released si)).strong handle
      omega
  | pushed valid hf fresh hl hw hc =>
    refine ⟨_,hw,?_,fun hpos => ⟨?_,trivial,trivial⟩⟩
    · rw [hl]
      exact balanced_link (balanced_acquire hb fun k =>
        holders_push p.svclist _ fresh valid.1 k) _ _
    · have hk := hb.strong handle
      have hc := hpos valid.1
      change 0 < d.strong handle
      omega

theorem svcmgrDeath_cases (death : A.Uintptr) (p : Manager A) :
    svcmgrDeath death p = p ∨
      ∃ si ∈ p.svclist.entries, si.deathAddr = death ∧
        svcmgrDeath death p = svcinfoDeath p si.addr := by
  rw [svcmgrDeath]
  cases hf : p.svclist.entries.find? fun si => si.deathAddr = death with
  | none => exact .inl rfl
  | some si =>
    refine .inr ⟨si,List.mem_of_find?_eq_some hf,by simpa using List.find?_some hf,?_⟩
    rw [← si.death_ptr]

structure Accounted (d : Driver A) (bs : List (Held A)) (p : Manager A) : Prop where
  balanced : Balanced p.svclist bs (Machine.run Driver.issue d p.written)
  counted : Machine.Along Driver.issue Driver.Counted d p.written

theorem accounted_extend {d : Driver A} {bs bs' : List (Held A)} {p p' : Manager A}
    (ha : Accounted d bs p) {cmds : List (BinderCommand A)}
    (hw : p'.written = p.written ++ cmds)
    (hb : Balanced p'.svclist bs'
      (Machine.run Driver.issue (Machine.run Driver.issue d p.written) cmds))
    (hc : Machine.Along Driver.issue Driver.Counted (Machine.run Driver.issue d p.written) cmds) :
    Accounted d bs' p' := by
  constructor
  · rw [hw,Machine.run_append]
    exact hb
  · rw [hw,Machine.along_append]
    exact ⟨ha.counted,hc⟩

theorem svcmgrDeath_accounted {d : Driver A} {bs : List (Held A)} {p : Manager A}
    (ha : Accounted d bs p) (death : A.Uintptr) : Accounted d bs (svcmgrDeath death p) := by
  rcases svcmgrDeath_cases death p with h | ⟨si,hs,-,h⟩
  · rw [h]
    exact ha
  · obtain ⟨hb,hc⟩ := svcinfoDeath_balanced ha.balanced hs
    rw [h]
    exact accounted_extend ha (svcinfoDeath_written hs) hb hc

end

section
variable {w : Word}

theorem svcmgrHandler_accounted {m : Mem} {d : Driver (Abi.uniform w)}
    {txn : BinderTransactionData (Abi.uniform w)} {bs : List (Held (Abi.uniform w))}
    {p : Manager (Abi.uniform w)} (ha : Accounted d ((txn.buffer,heldHandles w m txn) :: bs) p)
    (reply : BinderIo) :
    Accounted d ((txn.buffer,heldHandles w m txn) :: bs)
      (svcmgrHandler _ p txn (bioInitFromTxn _ m txn) reply).2.2 := by
  have hh := svcmgrHandler_handled p (reads_init m txn) reply
  generalize svcmgrHandler _ p txn _ reply = out at hh ⊢
  cases hh with
  | untouched h => exact ha
  | added hcode hname hio hadd =>
    obtain ⟨cmds,hw,hb,hc⟩ := added_balanced ha.balanced hadd
    refine accounted_extend ha hw hb (hc fun hz => ?_)
    have hpos : 0 < (heldHandles w m txn).count
        (decodedHandle (Abi.uniform w) (bioInitFromTxn (Abi.uniform w) m txn)) :=
      List.count_pos_iff.mpr (bioGetRef_held hio hz)
    exact Nat.add_pos_left hpos _

theorem serveTransaction_accounted {m rd : Mem} {d : Driver (Abi.uniform w)}
    {txn : BinderTransactionData (Abi.uniform w)} {bs : List (Held (Abi.uniform w))}
    {p : Manager (Abi.uniform w)} (ha : Accounted d ((txn.buffer,heldHandles w m txn) :: bs) p)
    (st : BinderState) (rdata : ℕ → Mem) :
    Accounted d bs (serveTransaction (svcmgrServer _ st rdata) m p txn rd) := by
  have hh := svcmgrHandler_accounted ha (bioInit (Abi.uniform w) ⟨rd,0,0,0,0,0,0,0⟩ rd 0 256 4)
  exact accounted_extend hh rfl (balanced_freeBuffer hh.balanced) ⟨trivial,trivial,trivial⟩

theorem perform_accounted {m : Mem} {d : Driver (Abi.uniform w)} (st : BinderState)
    (rdata : ℕ → Mem) {s : ParseState (Abi.uniform w) (Svcmgr (Abi.uniform w))}
    {c : BinderReturn (Abi.uniform w)} {cs : List (BinderReturn (Abi.uniform w))}
    (ha : Accounted d (buffersOf w m (c :: cs)) s.proc) :
    Accounted d (buffersOf w m cs) (perform (svcmgrServer _ st rdata) m s c).proc := by
  cases c with
  | transaction txn => exact serveTransaction_accounted ha st rdata
  | deadBinder cookie => exact svcmgrDeath_accounted ha _
  | spawnLooper => exact ⟨ha.balanced,ha.counted⟩
  | _ => exact ha

theorem performAll_accounted {m : Mem} {d : Driver (Abi.uniform w)} (st : BinderState)
    (rdata : ℕ → Mem) {s : ParseState (Abi.uniform w) (Svcmgr (Abi.uniform w))}
    {cs : List (BinderReturn (Abi.uniform w))} (ha : Accounted d (buffersOf w m cs) s.proc) :
    Accounted d [] (performAll (svcmgrServer _ st rdata) m s cs).proc := by
  induction cs generalizing s with
  | nil => exact ha
  | cons c cs ih => exact ih (perform_accounted st rdata ha)

variable (st : BinderState)

def arrive (d : Driver (Abi.uniform w)) (δ : Delivery (Abi.uniform w)) : Driver (Abi.uniform w) :=
  (buffersOf w δ.mem δ.cmds).foldl Driver.carry d

def handled (p : Manager (Abi.uniform w)) (δ : Delivery (Abi.uniform w)) :
    Manager (Abi.uniform w) :=
  (δ.parse (svcmgrServer (Abi.uniform w) st δ.rdata) {p with written := []}).2.proc

def round (s : Manager (Abi.uniform w) × Driver (Abi.uniform w)) (δ : Delivery (Abi.uniform w)) :
    Manager (Abi.uniform w) × Driver (Abi.uniform w) :=
  (handled st s.1 δ,Machine.run Driver.issue (arrive s.2 δ) (handled st s.1 δ).written)

def MatchesAt (s : Manager (Abi.uniform w) × Driver (Abi.uniform w)) (h : UInt32) : Prop :=
  s.2.strong h = s.1.svclist.entries.countP fun si => si.handle = h

def Matches (s : Manager (Abi.uniform w) × Driver (Abi.uniform w)) : Prop :=
  (∀ h, h ≠ 0 → MatchesAt s h) ∧ s.2.strong 0 = 0

def IssuesCounted (s : Manager (Abi.uniform w) × Driver (Abi.uniform w))
    (δ : Delivery (Abi.uniform w)) : Prop :=
  Machine.Along Driver.issue Driver.Counted (arrive s.2 δ) (handled st s.1 δ).written

theorem arrive_balanced {l : Svclist (Abi.uniform w)} {d : Driver (Abi.uniform w)}
    (hb : Balanced l [] d) (δ : Delivery (Abi.uniform w)) :
    Balanced l (buffersOf w δ.mem δ.cmds) (arrive d δ) := by
  refine ⟨?_,fun h => ?_⟩
  · rw [arrive,Driver.foldl_carry_bufs,hb.bufs,List.nil_append]
  · rw [arrive,Driver.foldl_carry_strong,hb.strong,Driver.carried_nil,Nat.add_zero]

theorem round_accounted {s : Manager (Abi.uniform w) × Driver (Abi.uniform w)}
    (hb : Balanced s.1.svclist [] s.2) (δ : Delivery (Abi.uniform w)) :
    Accounted (arrive s.2 δ) [] (handled st s.1 δ) := by
  rw [handled,Delivery.parse_eq]
  exact performAll_accounted st δ.rdata ⟨arrive_balanced hb δ,trivial⟩

theorem balanced_matches {s : Manager (Abi.uniform w) × Driver (Abi.uniform w)}
    (hb : Balanced s.1.svclist [] s.2) :
    Matches s := by
  refine ⟨fun h hn => ?_,?_⟩
  · rw [MatchesAt,hb.strong,Driver.carried_nil,Nat.add_zero]
    refine List.countP_congr fun si _ => ?_
    simp only [Holds,decide_eq_true_eq]
    exact ⟨fun he => he.2,fun he => ⟨he ▸ hn,he⟩⟩
  · rw [hb.strong,Driver.carried_nil,Nat.add_zero]
    refine List.countP_eq_zero.mpr fun si _ => ?_
    simp [Holds]

theorem references_balanced (heap : ℕ → Option (Abi.uniform w).Uintptr)
    (ds : List (Delivery (Abi.uniform w))) :
    Machine.Always (round st) Matches (started heap,Driver.idle) ds ∧
      Machine.Along (round st) (IssuesCounted st) (started heap,Driver.idle) ds := by
  have hstart : Balanced (started heap : Manager (Abi.uniform w)).svclist [] Driver.idle :=
    ⟨rfl,fun _ => rfl⟩
  have hkeep : ∀ (s : Manager (Abi.uniform w) × Driver (Abi.uniform w)) δ,
      Balanced s.1.svclist [] s.2 → IssuesCounted st s δ ∧
      Balanced (round st s δ).1.svclist [] (round st s δ).2 := by
    intro s δ hb
    have ha := round_accounted st hb δ
    exact ⟨ha.counted,ha.balanced⟩
  constructor
  · exact Machine.always_of_invariant (fun s hb => balanced_matches hb)
      (fun s δ hb => (hkeep s δ hb).2) hstart ds
  · exact Machine.along_of_invariant hkeep hstart ds

end

def addMessage (name : List UInt16) (handle : UInt32) : List UInt8 :=
  leBytes 4 0 ++ leBytes 4 26 ++ unitBytes (svcmgrId ++ [0,0]) ++
  leBytes 4 name.length ++ unitBytes (name ++ [0]) ++
  (leBytes 4 binderTypeHandle.toNat ++ leBytes 4 0 ++ leBytes 4 handle.toNat ++ leBytes 4 0) ++
  leBytes 4 0

def addTxn : BinderTransactionData (Abi.uniform .four) where
  target := 0
  cookie := 0
  code := svcMgrAddService
  flags := 0
  senderPid := 0
  senderEuid := 0
  dataSize := 92
  offsetsSize := 4
  buffer := 1004
  offsets := 1000

def addBase : Mem := write (fun _ => 0) 1000 (leBytes 4 72 ++ addMessage [97] 5)

def addThenDie : List (Delivery (Abi.uniform .four)) :=
  [⟨addBase,0,[.transaction addTxn],fun _ _ => 0,by decide⟩,
   ⟨fun _ => 0,0,[.deadBinder 24],fun _ _ => 0,by decide⟩]

theorem dead_entry_unmatched :
    ¬ ∀ (st : BinderState) (heap : ℕ → Option (Abi.uniform .four).Uintptr)
      (ds : List (Delivery (Abi.uniform .four))) (h : UInt32),
      MatchesAt (Machine.run (round st) (started heap,Driver.idle) ds) h := by
  intro hall
  have hm := hall ⟨0,0,0⟩ (fun _ => some 16) addThenDie 0
  simp only [MatchesAt,addThenDie,Machine.run_cons,Machine.run_nil,round,handled,
    Delivery.parse_eq] at hm
  revert hm
  decide +kernel

end Servicemanager
