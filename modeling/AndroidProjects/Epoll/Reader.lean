import AndroidProjects.Foundation.Buffers
import AndroidProjects.Foundation.Machine
import Mathlib.Data.UInt
import Mathlib.Logic.Function.Basic

namespace Epoll
open Machine Buffers

def epollMaxEvents : ℕ := 16
def dataMaxLen : ℕ := 500

inductive Reader where
  | waiting
  -- mPendingEventItems[0..pollRes] and the i of the for loop
  | serving (events : List ℕ) (i : ℕ)
  | overrun
  deriving DecidableEq, Repr

-- one pass of the inner loop: what read gave and what printf was handed
structure Entry where
  index : ℕ
  fd : ℕ
  bytes : List UInt8
  text : List UInt8
  deriving DecidableEq, Repr

variable {P : Type*}

structure State (P : Type*) where
  reader : Reader
  buf : Buffer UInt8 dataMaxLen
  unread : P → List UInt8
  written : P → List UInt8
  log : List Entry

inductive Event (P : Type*) where
  | write (p : P) (bytes : List UInt8)
  | epollWait (events : List ℕ)
  | serve
  deriving DecidableEq, Repr

def initial (buf : Buffer UInt8 dataMaxLen) : State P := ⟨.waiting,buf,fun _ => [],fun _ => [],[]⟩

section
-- the fifo that open gave for each file of the command line; a failed open gets no descriptor
variable (files : List (Option P))

def fifo (fd : ℕ) : Option P := files[fd]?.join

def ready (s : State P) (fd : ℕ) : Bool :=
  match fifo files fd with
  | some p => !(s.unread p).isEmpty
  | none => false

-- level triggered: any of the ready files, each once
def Reported (s : State P) (events : List ℕ) : Prop :=
  events ≠ [] ∧ events.Nodup ∧ events.length ≤ epollMaxEvents ∧
    ∀ fd ∈ events, ready files s fd = true

instance (s : State P) (events : List ℕ) : Decidable (Reported files s events) :=
  inferInstanceAs (Decidable (_ ∧ _ ∧ _ ∧ _))

variable [DecidableEq P]

-- len = read(fd, buf, DATA_MAX_LEN); buf[len] = 0; printf("file%d get data:%s", i, buf)
def readAndPrint (p : P) (fd i : ℕ) (events : List ℕ) (s : State P) : State P :=
  let bytes := (s.unread p).take dataMaxLen
  let t := {s with unread := Function.update s.unread p ((s.unread p).drop dataMaxLen)}
  match (s.buf.put bytes).bind fun b => b.set bytes.length 0 with
  | none => {t with reader := .overrun, log := s.log ++ [⟨i,fd,bytes,[]⟩]}
  | some b =>
    {t with
      reader := .serving events (i+1)
      buf := b
      log := s.log ++ [⟨i,fd,bytes,(b.text 0).getD []⟩]}

def step (s : State P) : Event P → State P
  | .write p bytes =>
    {s with
      unread := Function.update s.unread p (s.unread p ++ bytes)
      written := Function.update s.written p (s.written p ++ bytes)}
  | .epollWait events =>
    match s.reader with
    | .waiting => if Reported files s events then {s with reader := .serving events 0} else s
    | _ => s
  | .serve =>
    match s.reader with
    | .serving events i =>
      match events[i]? with
      | none => {s with reader := .waiting}
      | some fd =>
        match fifo files fd with
        | none => s
        | some p => if s.unread p = [] then s else readAndPrint p fd i events s
    | _ => s

end

def received (files : List (Option P)) [DecidableEq P] (p : P) (s : State P) : List UInt8 :=
  (s.log.filter fun e => fifo files e.fd = some p).flatMap Entry.bytes

def printed (files : List (Option P)) [DecidableEq P] (p : P) (s : State P) : List UInt8 :=
  (s.log.filter fun e => fifo files e.fd = some p).flatMap Entry.text

theorem ready_iff {files : List (Option P)} {s : State P} {fd : ℕ} :
    ready files s fd = true ↔ ∃ p, fifo files fd = some p ∧ s.unread p ≠ [] := by
  rw [ready]
  cases fifo files fd with
  | none => simp
  | some p => simp

section Steps
variable {files : List (Option P)} [DecidableEq P]

theorem readAndPrint_short {p : P} {s : State P} (h : (s.unread p).length < dataMaxLen) (fd i : ℕ)
    (events : List ℕ) : ∃ b, readAndPrint p fd i events s =
      {s with
        reader := .serving events (i+1)
        buf := b
        unread := Function.update s.unread p []
        log := s.log ++ [⟨i,fd,s.unread p,(s.unread p).takeWhile (· ≠ 0)⟩]} := by
  have htake : (s.unread p).take dataMaxLen = s.unread p := List.take_of_length_le h.le
  have hdrop : (s.unread p).drop dataMaxLen = [] := List.drop_eq_nil_of_le h.le
  obtain ⟨c,hc⟩ := s.buf.put_of_le h.le
  obtain ⟨b,hb,htext⟩ := Buffer.text_ended 0 hc h
  refine ⟨b,?_⟩
  simp only [readAndPrint,htake,hdrop,hc,hb,htext,Option.bind_some,Option.getD_some]

theorem readAndPrint_long {p : P} {s : State P} (h : dataMaxLen ≤ (s.unread p).length) (fd i : ℕ)
    (events : List ℕ) : (readAndPrint p fd i events s).reader = .overrun := by
  have htake : ((s.unread p).take dataMaxLen).length = dataMaxLen := List.length_take_of_le h
  obtain ⟨c,hc⟩ := s.buf.put_of_le htake.le
  have hset : c.set ((s.unread p).take dataMaxLen).length 0 = none := by
    rw [Buffer.set,htake]
    exact if_neg (by simp)
  simp only [readAndPrint,hc,hset,Option.bind_some]

theorem readAndPrint_reads (p : P) (fd i : ℕ) (events : List ℕ) (s : State P) :
    ∃ text, (readAndPrint p fd i events s).log =
        s.log ++ [⟨i,fd,(s.unread p).take dataMaxLen,text⟩] ∧
      (readAndPrint p fd i events s).unread =
        Function.update s.unread p ((s.unread p).drop dataMaxLen) ∧
      (readAndPrint p fd i events s).written = s.written := by
  rw [readAndPrint]
  cases (s.buf.put ((s.unread p).take dataMaxLen)).bind
      fun b => b.set ((s.unread p).take dataMaxLen).length 0 with
  | none => exact ⟨_,rfl,rfl,rfl⟩
  | some b => exact ⟨_,rfl,rfl,rfl⟩

theorem serve_cases (s : State P) : step files s .serve = s ∨
    step files s .serve = {s with reader := .waiting} ∨
    ∃ events i fd p, s.reader = .serving events i ∧ events[i]? = some fd ∧
      fifo files fd = some p ∧ s.unread p ≠ [] ∧
      step files s .serve = readAndPrint p fd i events s := by
  simp only [step]
  cases hr : s.reader with
  | waiting => exact .inl rfl
  | overrun => exact .inl rfl
  | serving events i =>
    cases he : events[i]? with
    | none => exact .inr (.inl (by simp [he]))
    | some fd =>
      cases hp : fifo files fd with
      | none => exact .inl (by simp [he,hp])
      | some p =>
        by_cases hu : s.unread p = []
        · exact .inl (by simp [he,hp,hu])
        · exact .inr (.inr ⟨events,i,fd,p,rfl,he,hp,hu,by simp [he,hp,hu]⟩)

def Conserved (files : List (Option P)) (s : State P) : Prop :=
  ∀ p, received files p s ++ s.unread p = s.written p

theorem conserved_read {s : State P} (h : Conserved files s) {p : P} {fd : ℕ}
    (hp : fifo files fd = some p) (i : ℕ) (events : List ℕ) :
    Conserved files (readAndPrint p fd i events s) := by
  intro q
  obtain ⟨text,hlog,hunread,hwritten⟩ := readAndPrint_reads p fd i events s
  have hq := h q
  rw [received] at hq
  rw [received,hlog,hunread,hwritten,List.filter_append,List.flatMap_append]
  by_cases hqp : q = p
  · subst hqp
    simpa [hp] using hq
  · have hpq : p ≠ q := Ne.symm hqp
    simpa [hp,hpq,hqp] using hq

theorem conserved_step {s : State P} (h : Conserved files s) (e : Event P) :
    Conserved files (step files s e) := by
  cases e with
  | write p bytes =>
    intro q
    have hq := h q
    by_cases hqp : q = p
    · subst hqp
      simp only [step,received,Function.update_self] at hq ⊢
      rw [← List.append_assoc,hq]
    · simpa [step,received,hqp] using hq
  | epollWait events =>
    simp only [step]
    cases s.reader with
    | waiting =>
      by_cases hrep : Reported files s events
      · simp only [hrep,if_true]
        exact h
      · simp only [hrep,if_false]
        exact h
    | _ => exact h
  | serve =>
    rcases serve_cases s with hsame | hend | ⟨events,i,fd,p,-,-,hp,-,hread⟩
    · rwa [hsame]
    · rw [hend]
      exact h
    · rw [hread]
      exact conserved_read h hp i events

def Distinct (files : List (Option P)) : Prop :=
  ∀ fd fd' p, fifo files fd = some p → fifo files fd' = some p → fd = fd'

def Pending (files : List (Option P)) (s : State P) : Prop :=
  ∀ events i, s.reader = .serving events i →
    events.Nodup ∧ events.length ≤ epollMaxEvents ∧
      ∀ j fd, i ≤ j → events[j]? = some fd → ready files s fd = true

theorem pending_write {s : State P} (h : Pending files s) (p : P) (bytes : List UInt8) :
    Pending files (step files s (.write p bytes)) := by
  intro events i hr
  obtain ⟨hnodup,hmax,hready⟩ := h events i hr
  refine ⟨hnodup,hmax,fun j fd hij hj => ?_⟩
  obtain ⟨q,hq,hunread⟩ := ready_iff.mp (hready j fd hij hj)
  refine ready_iff.mpr ⟨q,hq,?_⟩
  by_cases hqp : q = p
  · subst hqp
    simp [step,hunread]
  · simpa [step,hqp] using hunread

theorem pending_read (hdistinct : Distinct files) {s : State P} (h : Pending files s)
    {events : List ℕ} {i fd : ℕ} {p : P} (hr : s.reader = .serving events i)
    (he : events[i]? = some fd) (hp : fifo files fd = some p) :
    Pending files (readAndPrint p fd i events s) := by
  obtain ⟨hnodup,hmax,hready⟩ := h events i hr
  have hnext : ∀ events' i', (readAndPrint p fd i events s).reader = .serving events' i' →
      events' = events ∧ i' = i + 1 := by
    intro events' i' hr'
    rw [readAndPrint] at hr'
    split at hr'
    · cases hr'
    · cases hr'
      exact ⟨rfl,rfl⟩
  intro events' i' hr'
  obtain ⟨rfl,rfl⟩ := hnext events' i' hr'
  refine ⟨hnodup,hmax,fun j fd' hij hj => ?_⟩
  obtain ⟨q,hq,hunread⟩ := ready_iff.mp (hready j fd' (by omega) hj)
  have hqp : q ≠ p := by
    rintro rfl
    have hfd := hdistinct fd fd' q hp hq
    subst hfd
    obtain ⟨hlt,-⟩ := List.getElem?_eq_some_iff.mp he
    have hij' := (List.getElem?_inj hlt hnodup).mp (he.trans hj.symm)
    omega
  obtain ⟨text,-,hafter,-⟩ := readAndPrint_reads p fd i events' s
  refine ready_iff.mpr ⟨q,hq,?_⟩
  rw [hafter,Function.update_of_ne hqp]
  exact hunread

theorem pending_step (hdistinct : Distinct files) {s : State P} (h : Pending files s)
    (e : Event P) : Pending files (step files s e) := by
  cases e with
  | write p bytes => exact pending_write h p bytes
  | epollWait events =>
    simp only [step]
    cases hr : s.reader with
    | waiting =>
      by_cases hrep : Reported files s events
      · simp only [hrep,if_true]
        obtain ⟨-,hnodup,hmax,hready⟩ := hrep
        intro events' i hr'
        cases hr'
        exact ⟨hnodup,hmax,fun j fd _ hj => hready fd (List.mem_of_getElem? hj)⟩
      · simpa only [hrep,if_false] using h
    | _ => exact h
  | serve =>
    rcases serve_cases s with hsame | hend | ⟨events,i,fd,p,hr,he,hp,-,hread⟩
    · rwa [hsame]
    · rw [hend]
      intro events i hr
      cases hr
    · rw [hread]
      exact pending_read hdistinct h hr he hp

end Steps

structure Faithful (files : List (Option P)) [DecidableEq P] (s : State P) : Prop where
  conserved : Conserved files s
  neverBlocks : ∀ events i fd, s.reader = .serving events i → events[i]? = some fd →
    ready files s fd = true
  drained : s.reader = .waiting → (∀ events, ¬ Reported files s events) →
    ∀ fd p, fifo files fd = some p → received files p s = s.written p

section Runs
variable {files : List (Option P)} [DecidableEq P]

theorem faithful_of_kept {s : State P} (hc : Conserved files s) (hp : Pending files s) :
    Faithful files s where
  conserved := hc
  neverBlocks events i fd hr he := (hp events i hr).2.2 i fd le_rfl he
  drained _ hidle fd p hfd := by
    have hempty : s.unread p = [] := by
      by_contra hne
      have hready : ready files s fd = true := ready_iff.mpr ⟨p,hfd,hne⟩
      exact hidle [fd] ⟨by simp,by simp,by simp [epollMaxEvents],by simpa using hready⟩
    have hall := hc p
    rwa [hempty,List.append_nil] at hall

theorem nothing_lost (hdistinct : Distinct files) (buf : Buffer UInt8 dataMaxLen)
    (es : List (Event P)) : Always (step files) (Faithful files) (initial buf) es := by
  have hstart : Conserved files (initial buf) ∧ Pending files (initial buf) := by
    refine ⟨fun p => rfl,fun events i hr => ?_⟩
    cases hr
  exact always_of_invariant (I := fun s => Conserved files s ∧ Pending files s)
    (fun s h => faithful_of_kept h.1 h.2)
    (fun s e h => ⟨conserved_step h.1 e,pending_step hdistinct h.2 e⟩) hstart es

theorem nothing_lost_once : Always (step [some ()]) (Faithful [some ()])
    (initial (.filled 0 dataMaxLen)) [.write () [97,98],.epollWait [0],.serve,.serve] := by
  have hdistinct : Distinct [some ()] := by
    intro fd fd' p hfd hfd'
    have hzero : ∀ k, fifo [some ()] k = some p → k = 0 := by
      intro k hk
      cases k with
      | zero => rfl
      | succ k => simp [fifo] at hk
    rw [hzero fd hfd,hzero fd' hfd']
  exact nothing_lost hdistinct _ _

def Short (files : List (Option P)) (s : State P) (e : Event P) : Prop :=
  e = .serve → ∀ events i fd p, s.reader = .serving events i → events[i]? = some fd →
    fifo files fd = some p → (s.unread p).length < dataMaxLen

structure Printing (files : List (Option P)) (s : State P) : Prop where
  inside : s.reader ≠ .overrun
  texts : ∀ e ∈ s.log, e.text = e.bytes.takeWhile (· ≠ 0)
  whole : ∀ p, 0 ∉ s.written p → printed files p s ++ s.unread p = s.written p

structure Kept (files : List (Option P)) (s : State P) : Prop where
  conserved : Conserved files s
  inside : s.reader ≠ .overrun
  texts : ∀ e ∈ s.log, e.text = e.bytes.takeWhile (· ≠ 0)

theorem Kept.printing {s : State P} (h : Kept files s) : Printing files s where
  inside := h.inside
  texts := h.texts
  whole p hplain := by
    have hall := h.conserved p
    have hsame : printed files p s = received files p s := by
      refine List.flatMap_congr fun e he => ?_
      rw [h.texts e (List.mem_of_mem_filter he)]
      refine Buffer.takeWhile_of_not_mem fun hnul => hplain ?_
      rw [← hall]
      exact List.mem_append_left _ (List.mem_flatMap.mpr ⟨e,he,hnul⟩)
    rw [hsame]
    exact hall

theorem kept_step {s : State P} (h : Kept files s) {e : Event P} (hshort : Short files s e) :
    Kept files (step files s e) := by
  refine ⟨conserved_step h.conserved e,?_,?_⟩
  · cases e with
    | write p bytes => exact h.inside
    | epollWait events =>
      simp only [step]
      cases hr : s.reader with
      | waiting => by_cases hrep : Reported files s events <;> simp [hrep,hr]
      | serving events i => simp [hr]
      | overrun => exact absurd hr h.inside
    | serve =>
      rcases serve_cases s with hsame | hend | ⟨events,i,fd,p,hr,he,hp,-,hread⟩
      · rw [hsame]
        exact h.inside
      · simp [hend]
      · obtain ⟨b,hb⟩ := readAndPrint_short (hshort rfl events i fd p hr he hp) fd i events
        simp [hread,hb]
  · cases e with
    | write p bytes => exact h.texts
    | epollWait events =>
      simp only [step]
      cases hr : s.reader with
      | waiting => by_cases hrep : Reported files s events <;> simpa [hrep] using h.texts
      | _ => exact h.texts
    | serve =>
      rcases serve_cases s with hsame | hend | ⟨events,i,fd,p,hr,he,hp,-,hread⟩
      · rw [hsame]
        exact h.texts
      · rw [hend]
        exact h.texts
      · obtain ⟨b,hb⟩ := readAndPrint_short (hshort rfl events i fd p hr he hp) fd i events
        rw [hread,hb]
        intro e he
        rcases List.mem_append.mp he with hold | hnew
        · exact h.texts e hold
        · rw [List.mem_singleton.mp hnew]

theorem overrun_of_long {s : State P} {e : Event P} (hlong : ¬ Short files s e) :
    ¬ Printing files (step files s e) := by
  simp only [Short,Classical.not_imp,not_forall,not_lt] at hlong
  obtain ⟨rfl,events,i,fd,p,hr,he,hp,hlen⟩ := hlong
  have hne : s.unread p ≠ [] := by
    intro hnil
    rw [hnil] at hlen
    exact absurd hlen (by decide)
  intro hprint
  refine hprint.inside ?_
  simp only [step,hr,he,hp,hne,if_false]
  exact readAndPrint_long hlen fd i events

theorem prints_iff (files : List (Option P)) (buf : Buffer UInt8 dataMaxLen)
    (es : List (Event P)) : Always (step files) (Printing files) (initial buf) es ↔
      Along (step files) (Short files) (initial buf) es := by
  have hstart : Kept files (initial buf) := ⟨fun p => rfl,by simp [initial],by simp [initial]⟩
  exact always_iff_along (I := Kept files) (C := Short files) (fun _ h => h.printing)
    (fun _ _ h hs => kept_step h hs) (fun _ _ _ hl => overrun_of_long hl) hstart es

end Runs

end Epoll
