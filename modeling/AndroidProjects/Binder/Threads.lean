import AndroidProjects.Binder.Stream
import AndroidProjects.Foundation.Machine

namespace Binder
open ByteMemory

-- one call of binder_parse; its btd lives until the call returns
structure ParseCall (A : Abi) (σ : Type) where
  server : Server A σ
  mem : Mem
  endp : ℕ
  state : ParseState A σ
  live : Bool

-- a created thread: the call whose btd it was handed, and what its first step read
structure SpawnedThread (A : Abi) (σ : Type) where
  creator : ℕ
  started : Option (Option (BinderThreadDesc A σ))

structure Process (A : Abi) (σ : Type) where
  proc : Proc A σ
  calls : List (ParseCall A σ)
  threads : List (SpawnedThread A σ)

inductive Caller where
  | binderLoop
  | binderThreadLoop
  | binderCall
  deriving DecidableEq, Repr

inductive ThreadEvent where
  | enter (caller : Caller) (bs : BinderState) (rdata : ℕ → Mem) (mem : Mem)
      (bio : Option BinderIo) (ptr size : ℕ)
  | parse (call : ℕ)
  | start (thread : ℕ)

section
variable {A : Abi} {σ : Type}

def Caller.func (handler : BinderHandler A σ) : Caller → Option (BinderHandler A σ)
  | binderLoop => some handler
  | binderThreadLoop => some handler
  | binderCall => none

namespace ParseCall

def slot (c : ParseCall A σ) : Option (BinderThreadDesc A σ) := if c.live then c.state.btd else none

def Spawns (c : ParseCall A σ) : Prop :=
  c.state.ptr < c.endp ∧ load32 c.mem c.state.ptr = brSpawnLooper

instance (c : ParseCall A σ) : Decidable c.Spawns := inferInstanceAs (Decidable (_ ∧ _))

def next (c : ParseCall A σ) (p : Proc A σ) : Control A σ :=
  let s := {c.state with proc := p}
  if s.ptr < c.endp then parseCommand c.server c.mem c.endp s else .ret s.r s

def Returns (c : ParseCall A σ) (p : Proc A σ) : Prop := ∃ r s, c.next p = .ret r s

end ParseCall

def enterCall (handler : BinderHandler A σ) (death : A.Uintptr → Proc A σ → Proc A σ)
    (p : Proc A σ) (caller : Caller) (bs : BinderState) (rdata : ℕ → Mem) (mem : Mem)
    (bio : Option BinderIo) (ptr size : ℕ) : ParseCall A σ where
  server := ⟨bs,caller.func handler,rdata,death⟩
  mem := mem
  endp := ptr + size
  state := ⟨ptr,1,bio.isSome,bio.getD ⟨mem,0,0,0,0,0,0,0⟩,none,p⟩
  live := true

def parseStep (P : Process A σ) (i : ℕ) (c : ParseCall A σ) : Process A σ :=
  match c.next P.proc with
  | .next s => ⟨s.proc,P.calls.set i {c with state := s},
      if c.Spawns then P.threads ++ [⟨i,none⟩] else P.threads⟩
  | .ret _ s => ⟨s.proc,P.calls.set i {c with state := s, live := false},P.threads⟩

def readSlot (P : Process A σ) (t : SpawnedThread A σ) : Option (BinderThreadDesc A σ) :=
  match P.calls[t.creator]? with
  | some c => c.slot
  | none => none

def threadStep (handler : BinderHandler A σ) (death : A.Uintptr → Proc A σ → Proc A σ)
    (P : Process A σ) : ThreadEvent → Process A σ
  | .enter caller bs rdata mem bio ptr size =>
    {P with calls := P.calls ++ [enterCall handler death P.proc caller bs rdata mem bio ptr size]}
  | .parse i =>
    match P.calls[i]? with
    | some c => if c.live then parseStep P i c else P
    | none => P
  | .start i =>
    match P.threads[i]? with
    | some t =>
      if t.started.isNone then
        {P with threads := P.threads.set i {t with started := some (readSlot P t)}}
      else P
    | none => P

def reads (P : Process A σ) (t : SpawnedThread A σ) : Option (BinderThreadDesc A σ) :=
  t.started.getD (readSlot P t)

def ThreadsValid (handler : BinderHandler A σ) (P : Process A σ) : Prop :=
  ∀ t ∈ P.threads, ∃ c, P.calls[t.creator]? = some c ∧
    reads P t = some ⟨c.server.bs,some handler⟩

def SpawnsInTime (P : Process A σ) : ThreadEvent → Prop
  | .parse i => ∀ c, P.calls[i]? = some c → c.live = true →
      (c.Spawns → c.server.func ≠ none) ∧
      (c.Returns P.proc → ∀ t ∈ P.threads, t.creator = i → t.started ≠ none)
  | _ => True

theorem parseCommand_btd {V : Server A σ} {m : Mem} {endp : ℕ} {s s' : ParseState A σ}
    (h : parseCommand V m endp s = .next s') :
    s'.btd = if load32 m s.ptr = brSpawnLooper then some ⟨V.bs,V.func⟩ else s.btd := by
  have hne := words_nodup (A := A)
  simp only [List.nodup_cons,List.mem_cons,List.not_mem_nil,not_or,or_false] at hne
  by_cases hspawn : load32 m s.ptr = brSpawnLooper
  · simp only [parseCommand,hspawn,hne,false_or,if_false,if_true,Control.next.injEq] at h
    rw [if_pos hspawn,← h]
  · simp only [parseCommand] at h
    rw [if_neg hspawn]
    split_ifs at h <;> cases h <;> rfl

theorem parseCommand_spawn {V : Server A σ} {m : Mem} {endp : ℕ} {s : ParseState A σ}
    (h : load32 m s.ptr = brSpawnLooper) : ∃ s', parseCommand V m endp s = .next s' := by
  have hne := words_nodup (A := A)
  simp only [List.nodup_cons,List.mem_cons,List.not_mem_nil,not_or,or_false] at hne
  simp only [parseCommand,h,hne,false_or,if_false,if_true]
  exact ⟨_,rfl⟩

theorem next_btd {c : ParseCall A σ} {p : Proc A σ} {s : ParseState A σ}
    (h : c.next p = .next s) :
    s.btd = if c.Spawns then some ⟨c.server.bs,c.server.func⟩ else c.state.btd := by
  simp only [ParseCall.next] at h
  split_ifs at h with hlt
  rw [parseCommand_btd h]
  simp only [ParseCall.Spawns,hlt,true_and]

section
variable {P : Process A σ} {i : ℕ} {c : ParseCall A σ} (hc : P.calls[i]? = some c)
include hc

theorem calls_set_same (c' : ParseCall A σ) : (P.calls.set i c')[i]? = some c' := by
  obtain ⟨hlt,-⟩ := List.getElem?_eq_some_iff.mp hc
  rw [List.getElem?_set_self hlt]

theorem reads_set {p : Proc A σ} {c' : ParseCall A σ} {ts : List (SpawnedThread A σ)}
    (t : SpawnedThread A σ) (h : t.creator = i → t.started = none → c'.slot = c.slot) :
    reads ⟨p,P.calls.set i c',ts⟩ t = reads P t := by
  rcases hs : t.started with _ | d
  · simp only [reads,hs,Option.getD_none,readSlot]
    by_cases hi : t.creator = i
    · rw [hi,calls_set_same hc,hc]
      exact h hi hs
    · rw [List.getElem?_set_ne (Ne.symm hi)]
  · simp only [reads,hs,Option.getD_some]

end

structure Served (handler : BinderHandler A σ) (P : Process A σ) : Prop where
  valid : ThreadsValid handler P
  func : ∀ c ∈ P.calls, c.server.func = none ∨ c.server.func = some handler

section
variable {handler : BinderHandler A σ} {P : Process A σ}

theorem reads_enter (t : SpawnedThread A σ) {c : ParseCall A σ}
    (hc : P.calls[t.creator]? = some c) (c' : ParseCall A σ) :
    (P.calls ++ [c'])[t.creator]? = some c ∧
      reads {P with calls := P.calls ++ [c']} t = reads P t := by
  obtain ⟨hlt,-⟩ := List.getElem?_eq_some_iff.mp hc
  have hsame : (P.calls ++ [c'])[t.creator]? = P.calls[t.creator]? := List.getElem?_append_left hlt
  refine ⟨hsame.trans hc,?_⟩
  simp only [reads,readSlot,hsame]

theorem slot_next (hs : Served handler P) {i : ℕ} {c : ParseCall A σ}
    (hc : P.calls[i]? = some c) (hlive : c.live = true) (hfunc : c.Spawns → c.server.func ≠ none)
    {s : ParseState A σ} (hnext : c.next P.proc = .next s) :
    (c.Spawns → ({c with state := s} : ParseCall A σ).slot = some ⟨c.server.bs,some handler⟩) ∧
    (c.slot = some ⟨c.server.bs,some handler⟩ →
      ({c with state := s} : ParseCall A σ).slot = some ⟨c.server.bs,some handler⟩) := by
  have hbtd := next_btd hnext
  have hspawned : c.Spawns → s.btd = some ⟨c.server.bs,some handler⟩ := by
    intro hsp
    rw [hbtd,if_pos hsp]
    rcases hs.func c (List.mem_of_getElem? hc) with h | h
    · exact absurd h (hfunc hsp)
    · rw [h]
  simp only [ParseCall.slot,hlive,if_true]
  refine ⟨hspawned,fun hslot => ?_⟩
  by_cases hsp : c.Spawns
  · exact hspawned hsp
  · rw [hbtd,if_neg hsp]
    exact hslot

theorem parse_served (hs : Served handler P) {i : ℕ} {c : ParseCall A σ}
    (hc : P.calls[i]? = some c) (hlive : c.live = true) (hok : SpawnsInTime P (.parse i)) :
    Served handler (parseStep P i c) := by
  obtain ⟨hfunc,hret⟩ := hok c hc hlive
  have hown : ∀ t ∈ P.threads, t.creator = i → t.started = none →
      c.slot = some ⟨c.server.bs,some handler⟩ := by
    intro t ht hi hn
    obtain ⟨ct,hct,hread⟩ := hs.valid t ht
    rw [hi,hc,Option.some_inj] at hct
    subst hct
    simpa only [reads,hn,Option.getD_none,readSlot,hi,hc] using hread
  have hset : ∀ (c' : ParseCall A σ) (q : Proc A σ) ts, c'.server = c.server →
      (∀ t ∈ P.threads, t.creator = i → t.started = none → c'.slot = c.slot) →
      (∀ t ∈ P.threads, ∃ ct, (P.calls.set i c')[t.creator]? = some ct ∧
        reads ⟨q,P.calls.set i c',ts⟩ t = some ⟨ct.server.bs,some handler⟩) ∧
      ∀ ct ∈ P.calls.set i c', ct.server.func = none ∨ ct.server.func = some handler := by
    intro c' q ts hserver hslot
    refine ⟨fun t ht => ?_,fun ct hct => ?_⟩
    · obtain ⟨ct,hct,hread⟩ := hs.valid t ht
      rw [reads_set hc t (hslot t ht)]
      by_cases hi : t.creator = i
      · rw [hi,hc,Option.some_inj] at hct
        subst hct
        exact ⟨c',by rw [hi,calls_set_same hc],by rw [hserver]; exact hread⟩
      · exact ⟨ct,by rw [List.getElem?_set_ne (Ne.symm hi)]; exact hct,hread⟩
    · rcases List.mem_or_eq_of_mem_set hct with h | rfl
      · exact hs.func ct h
      · rw [hserver]
        exact hs.func c (List.mem_of_getElem? hc)
  rw [parseStep]
  cases hnext : c.next P.proc with
  | ret r s =>
    obtain ⟨hvalid,hfuncs⟩ := hset {c with state := s, live := false} s.proc P.threads rfl
      fun t ht hi hn => absurd hn (hret ⟨r,s,hnext⟩ t ht hi)
    exact ⟨hvalid,hfuncs⟩
  | next s =>
    obtain ⟨hnew,hkeep⟩ := slot_next hs hc hlive hfunc hnext
    have hslots : ∀ t ∈ P.threads, t.creator = i → t.started = none →
        ({c with state := s} : ParseCall A σ).slot = c.slot := fun t ht hi hn =>
      (hkeep (hown t ht hi hn)).trans (hown t ht hi hn).symm
    simp only []
    split_ifs with hsp
    · obtain ⟨hvalid,hfuncs⟩ := hset {c with state := s} s.proc (P.threads ++ [⟨i,none⟩]) rfl hslots
      refine ⟨fun t ht => ?_,hfuncs⟩
      rcases List.mem_append.mp ht with ht | ht
      · exact hvalid t ht
      · rw [List.mem_singleton] at ht
        subst ht
        refine ⟨{c with state := s},calls_set_same hc _,?_⟩
        simp only [reads,Option.getD_none,readSlot,calls_set_same hc]
        exact hnew hsp
    · obtain ⟨hvalid,hfuncs⟩ := hset {c with state := s} s.proc P.threads rfl hslots
      exact ⟨hvalid,hfuncs⟩

theorem start_served (hs : Served handler P) {i : ℕ} {t : SpawnedThread A σ}
    (ht : P.threads[i]? = some t) (hn : t.started = none) :
    Served handler {P with threads := P.threads.set i {t with started := some (readSlot P t)}} := by
  refine ⟨fun u hu => ?_,hs.func⟩
  rcases List.mem_or_eq_of_mem_set hu with hu | rfl
  · exact hs.valid u hu
  · obtain ⟨c,hc,hread⟩ := hs.valid t (List.mem_of_getElem? ht)
    rw [reads,hn,Option.getD_none] at hread
    exact ⟨c,hc,hread⟩

variable (death : A.Uintptr → Proc A σ → Proc A σ)

theorem threadStep_served (hs : Served handler P) {e : ThreadEvent} (hok : SpawnsInTime P e) :
    Served handler (threadStep handler death P e) := by
  cases e with
  | enter caller bs rdata mem bio ptr size =>
    refine ⟨fun t ht => ?_,fun c hc => ?_⟩
    · obtain ⟨c,hc,hread⟩ := hs.valid t ht
      obtain ⟨hc',hsame⟩ := reads_enter t hc
        (enterCall handler death P.proc caller bs rdata mem bio ptr size)
      exact ⟨c,hc',hsame.trans hread⟩
    · rcases List.mem_append.mp hc with hc | hc
      · exact hs.func c hc
      · rw [List.mem_singleton] at hc
        subst hc
        cases caller
        · exact .inr rfl
        · exact .inr rfl
        · exact .inl rfl
  | parse i =>
    rw [threadStep]
    cases hc : P.calls[i]? with
    | none => exact hs
    | some c =>
      simp only []
      split_ifs with hlive
      · exact parse_served hs hc hlive hok
      · exact hs
  | start i =>
    rw [threadStep]
    cases ht : P.threads[i]? with
    | none => exact hs
    | some t =>
      simp only []
      split_ifs with hn
      · exact start_served hs ht (Option.isNone_iff_eq_none.mp hn)
      · exact hs

theorem late_spawn_invalid {e : ThreadEvent} (hok : ¬ SpawnsInTime P e) :
    ¬ ThreadsValid handler (threadStep handler death P e) := by
  cases e with
  | enter caller bs rdata mem bio ptr size => exact absurd trivial hok
  | start i => exact absurd trivial hok
  | parse i =>
    simp only [SpawnsInTime,not_forall] at hok
    obtain ⟨c,hc,hlive,hbad⟩ := hok
    have hstep : threadStep handler death P (.parse i) = parseStep P i c := by
      simp only [threadStep,hc,hlive,if_true]
    rw [hstep,parseStep]
    intro hvalid
    refine hbad ⟨fun hsp hnone => ?_,fun hret t ht hi hn => ?_⟩
    · have hnext : ∃ s, c.next P.proc = .next s := by
        rw [ParseCall.next]
        simp only [hsp.1,if_true]
        exact parseCommand_spawn hsp.2
      obtain ⟨s,hnext⟩ := hnext
      have hbtd := next_btd hnext
      rw [if_pos hsp,hnone] at hbtd
      simp only [hnext,if_pos hsp] at hvalid
      obtain ⟨c',hc',hread⟩ := hvalid ⟨i,none⟩ (List.mem_append_right _ (List.mem_singleton_self _))
      simp only [reads,Option.getD_none,readSlot,calls_set_same hc,ParseCall.slot,hlive,if_true,
        hbtd,Option.some_inj] at hread
      have hfunc := congrArg BinderThreadDesc.func hread
      cases hfunc
    · obtain ⟨r,s,hnext⟩ := hret
      simp only [hnext] at hvalid
      obtain ⟨c',hc',hread⟩ := hvalid t ht
      simp only [reads,hn,Option.getD_none,readSlot,hi,calls_set_same hc,ParseCall.slot] at hread
      simp at hread

end

def processStart (p : Proc A σ) : Process A σ := ⟨p,[],[]⟩

theorem threads_valid_iff_spawns_in_time (handler : BinderHandler A σ)
    (death : A.Uintptr → Proc A σ → Proc A σ) (p : Proc A σ) (es : List ThreadEvent) :
    Machine.Always (threadStep handler death) (ThreadsValid handler) (processStart p) es ↔
      Machine.Along (threadStep handler death) SpawnsInTime (processStart p) es := by
  have hstart : Served handler (processStart p) :=
    ⟨fun t ht => absurd ht List.not_mem_nil,fun c hc => absurd hc List.not_mem_nil⟩
  exact Machine.always_iff_along (I := Served handler) (fun _ hs => hs.valid)
    (fun _ _ hs hok => threadStep_served death hs hok)
    (fun _ _ _ hok => late_spawn_invalid death hok) hstart es

end

def echo : BinderHandler (Abi.uniform .four) Unit := fun p _ _ reply => (0,reply,p)

def spawnBuffer : Mem := fun a => (leBytes 4 brSpawnLooper.toNat).getD a 0

def lateSpawn : List ThreadEvent :=
  [.enter .binderLoop ⟨3,0,0⟩ (fun _ => spawnBuffer) spawnBuffer none 0 4,.parse 0,.parse 0]

theorem spawned_thread_reads_dead_slot : ¬ ∀ es : List ThreadEvent,
    Machine.Always (threadStep echo fun _ p => p) (ThreadsValid echo)
      (processStart ⟨(),[],0⟩) es := by
  intro h
  have hend := (h lateSpawn).final
  have hthreads : (Machine.run (threadStep echo fun _ p => p) (processStart ⟨(),[],0⟩)
      lateSpawn).threads = [⟨0,none⟩] := by rfl
  obtain ⟨c,-,hread⟩ := hend ⟨0,none⟩ (by rw [hthreads]; exact List.mem_singleton_self _)
  have hdead : reads (Machine.run (threadStep echo fun _ p => p) (processStart ⟨(),[],0⟩) lateSpawn)
      ⟨0,none⟩ = none := by rfl
  rw [hdead] at hread
  cases hread

end Binder
