import AndroidProjects.Foundation.Buffers
import AndroidProjects.Foundation.Progress
import AndroidProjects.Leds.Lights

namespace Socketpair
open Machine Buffers
open Leds (decimal decimal_length)

abbrev Message := List Char

def nul : Char := '\x00'

-- SOCKET_BUFFER_SIZE, and the size of the char buf of either thread
def socketBufferSize : ℕ := 32768
def bufSize : ℕ := 500

-- a format with one %d, as sprintf fills it in
structure Format where
  text : Int32 → Message
  fits : ∀ v, (text v).length < bufSize
  plain : ∀ v, nul ∉ text v

theorem decimal_plain (v : Int) : nul ∉ decimal v := by
  have hdigits : ∀ n, nul ∉ Nat.toDigits 10 n := by
    intro n hn
    exact absurd (Nat.isDigit_of_mem_toDigits (by decide) (by decide) hn) (by decide)
  cases v with
  | ofNat n => exact hdigits n
  | negSucc n => exact List.not_mem_cons_of_ne_of_not_mem (by decide) (hdigits (n+1))

def format (before after : Message) (hfit : before.length + after.length + 11 < bufSize)
    (hbefore : nul ∉ before) (hafter : nul ∉ after) : Format where
  text v := before ++ decimal v.toInt ++ after
  fits v := by
    have h := decimal_length v
    rw [List.length_append,List.length_append]
    omega
  plain v := by
    simp only [List.mem_append,not_or]
    exact ⟨⟨hbefore,decimal_plain v.toInt⟩,hafter⟩

def helloMian : Format :=
  format "Hello mian Thread, cnt = ".toList [] (by decide) (by decide) (by decide)

def helloThread1 : Format :=
  format "Hello Thread1, cnt = ".toList ['\n'] (by decide) (by decide) (by decide)

inductive Pc where
  | compose
  | send
  | receive
  | terminate
  | print
  | sleep
  | fault
  deriving DecidableEq, Repr

structure Thread where
  pc : Pc
  buf : Buffer Char bufSize
  len : ℤ
  cnt : Int32
  printed : List Message
  deriving DecidableEq, Repr

namespace Thread

-- len = sprintf(buf, format, cnt++)
def compose (f : Format) (t : Thread) : Thread :=
  match t.buf.put (f.text t.cnt ++ [nul]) with
  | some b => {t with pc := .send, buf := b, len := (f.text t.cnt).length, cnt := t.cnt + 1}
  | none => {t with pc := .fault}

-- write(fd, buf, len): waits while the unread messages leave no room
def write (t : Thread) (outbox : List Message) : Option (Thread × List Message) :=
  let message := t.buf.front t.len.toNat
  if outbox.flatten.length + message.length ≤ socketBufferSize then
    some ({t with pc := .receive},outbox ++ [message])
  else none

-- len = read(fd, buf, 500): one message, what does not fit is lost
def read (t : Thread) : List Message → Option (Thread × List Message)
  | [] => none
  | message :: inbox =>
    match t.buf.put (message.take bufSize) with
    | some b =>
      some ({t with pc := .terminate, buf := b, len := (message.take bufSize).length},inbox)
    | none => some ({t with pc := .fault},inbox)

-- buf[len] = 0
def terminate (t : Thread) : Thread :=
  match t.buf.set t.len nul with
  | some b => {t with pc := .print, buf := b}
  | none => {t with pc := .fault}

-- printf("%s\n", buf)
def print (next : Pc) (t : Thread) : Thread :=
  match t.buf.text nul with
  | some s => {t with pc := next, printed := t.printed ++ [s ++ ['\n']]}
  | none => {t with pc := .fault}

def advance (f : Format) (next : Pc) (t : Thread) (inbox outbox : List Message) :
    Option (Thread × List Message × List Message) :=
  match t.pc with
  | .compose => some (t.compose f,inbox,outbox)
  | .send => (t.write outbox).map fun r => (r.1,inbox,r.2)
  | .receive => (t.read inbox).map fun r => (r.1,r.2,outbox)
  | .terminate => some (t.terminate,inbox,outbox)
  | .print => some (t.print next,inbox,outbox)
  | .sleep => some ({t with pc := .compose},inbox,outbox)
  | .fault => none

end Thread

def functionThread1 : Thread → List Message → List Message →
    Option (Thread × List Message × List Message) := Thread.advance helloMian .sleep

def main : Thread → List Message → List Message →
    Option (Thread × List Message × List Message) := Thread.advance helloThread1 .compose

structure State where
  main : Thread
  thread1 : Thread
  toMain : List Message
  toThread1 : List Message
  deriving DecidableEq, Repr

inductive Who where
  | main
  | thread1
  deriving DecidableEq, Repr

def attempt (s : State) : Who → Option State
  | .main => (main s.main s.toMain s.toThread1).map fun r => ⟨r.1,s.thread1,r.2.1,r.2.2⟩
  | .thread1 =>
    (functionThread1 s.thread1 s.toThread1 s.toMain).map fun r => ⟨s.main,r.1,r.2.2,r.2.1⟩

-- a thread that has to wait stays where it is
def move (s : State) (w : Who) : State := (attempt s w).getD s

def initial : State :=
  ⟨⟨.receive,.filled nul bufSize,0,0,[]⟩,⟨.compose,.filled nul bufSize,0,0,[]⟩,[],[]⟩

def cntAfter (k : ℕ) : Int32 := Int32.ofNat k

def lines (f : Format) (k : ℕ) : List Message :=
  (List.range k).map fun i => f.text (cntAfter i) ++ ['\n']

structure InStep (s : State) : Prop where
  inside : s.main.pc ≠ .fault ∧ s.thread1.pc ≠ .fault
  single : s.toMain.length + s.toThread1.length ≤ 1
  turns : s.thread1.printed.length ≤ s.main.printed.length ∧
    s.main.printed.length ≤ s.thread1.printed.length + 1
  main : s.main.printed = lines helloMian s.main.printed.length
  thread1 : s.thread1.printed = lines helloThread1 s.thread1.printed.length
  moves : ∃! w, (attempt s w).isSome = true

namespace Thread

def Holds (b : Buffer Char bufSize) (len : ℤ) (message : Message) : Prop :=
  ∃ c, b.set len nul = some c ∧ c.text nul = some message

theorem compose_eq (f : Format) (t : Thread) : ∃ b len,
    t.compose f = {t with pc := .send, buf := b, len := len, cnt := t.cnt + 1} ∧
      b.front len.toNat = f.text t.cnt := by
  have hfit : (f.text t.cnt ++ [nul]).length ≤ bufSize := by
    have h := f.fits t.cnt
    rw [List.length_append,List.length_singleton]
    omega
  obtain ⟨b,hb⟩ := t.buf.put_of_le hfit
  refine ⟨b,(f.text t.cnt).length,?_,Buffer.front_put hb⟩
  rw [compose,hb]

theorem write_eq {t : Thread} {message : Message} (h : t.buf.front t.len.toNat = message)
    (hlen : message.length < bufSize) : t.write [] = some ({t with pc := .receive},[message]) := by
  have hroom : ([] : List Message).flatten.length + message.length ≤ socketBufferSize := by
    simp only [List.flatten_nil,List.length_nil,Nat.zero_add]
    exact hlen.le.trans (by decide)
  rw [write,h]
  exact if_pos hroom

theorem read_eq (t : Thread) {message : Message} (hlen : message.length < bufSize)
    (hplain : nul ∉ message) : ∃ b len,
      t.read [message] = some ({t with pc := .terminate, buf := b, len := len},[]) ∧
        Holds b len message := by
  obtain ⟨b,hb⟩ := t.buf.put_of_le hlen.le
  obtain ⟨c,hc,htext⟩ := Buffer.text_ended nul hb hlen
  rw [Buffer.takeWhile_of_not_mem hplain] at htext
  refine ⟨b,message.length,?_,c,hc,htext⟩
  rw [read,List.take_of_length_le hlen.le,hb]

theorem terminate_eq {t : Thread} {message : Message} (h : Holds t.buf t.len message) : ∃ b,
    t.terminate = {t with pc := .print, buf := b} ∧ b.text nul = some message := by
  obtain ⟨c,hc,htext⟩ := h
  refine ⟨c,?_,htext⟩
  rw [terminate,hc]

theorem print_eq {t : Thread} {message : Message} (next : Pc) (h : t.buf.text nul = some message) :
    t.print next = {t with pc := next, printed := t.printed ++ [message ++ ['\n']]} := by
  rw [print,h]

end Thread

theorem lines_succ (f : Format) (k : ℕ) :
    lines f (k+1) = lines f k ++ [f.text (cntAfter k) ++ ['\n']] := by
  rw [lines,List.range_succ,List.map_append]
  rfl

@[simp] theorem lines_length (f : Format) (k : ℕ) : (lines f k).length = k := by
  simp [lines]

theorem lines_mono (f : Format) {n k : ℕ} (h : n ≤ k) : lines f n <+: lines f k := by
  induction k,h using Nat.le_induction with
  | base => exact List.prefix_refl _
  | succ k _ ih =>
    rw [lines_succ]
    exact ih.trans (List.prefix_append _ _)

inductive At (k : ℕ) : ℕ → State → Prop
  | asking {mb tb : Buffer Char bufSize} {ml tl : ℤ} :
      At k 0 ⟨⟨.receive,mb,ml,cntAfter k,lines helloMian k⟩,
        ⟨.compose,tb,tl,cntAfter k,lines helloThread1 k⟩,[],[]⟩
  | composed {mb tb : Buffer Char bufSize} {ml tl : ℤ}
      (h : tb.front tl.toNat = helloMian.text (cntAfter k)) :
      At k 1 ⟨⟨.receive,mb,ml,cntAfter k,lines helloMian k⟩,
        ⟨.send,tb,tl,cntAfter (k+1),lines helloThread1 k⟩,[],[]⟩
  | asked {mb tb : Buffer Char bufSize} {ml tl : ℤ} :
      At k 2 ⟨⟨.receive,mb,ml,cntAfter k,lines helloMian k⟩,
        ⟨.receive,tb,tl,cntAfter (k+1),lines helloThread1 k⟩,[helloMian.text (cntAfter k)],[]⟩
  | heard {mb tb : Buffer Char bufSize} {ml tl : ℤ}
      (h : Thread.Holds mb ml (helloMian.text (cntAfter k))) :
      At k 3 ⟨⟨.terminate,mb,ml,cntAfter k,lines helloMian k⟩,
        ⟨.receive,tb,tl,cntAfter (k+1),lines helloThread1 k⟩,[],[]⟩
  | ended {mb tb : Buffer Char bufSize} {ml tl : ℤ}
      (h : mb.text nul = some (helloMian.text (cntAfter k))) :
      At k 4 ⟨⟨.print,mb,ml,cntAfter k,lines helloMian k⟩,
        ⟨.receive,tb,tl,cntAfter (k+1),lines helloThread1 k⟩,[],[]⟩
  | answering {mb tb : Buffer Char bufSize} {ml tl : ℤ} :
      At k 5 ⟨⟨.compose,mb,ml,cntAfter k,lines helloMian (k+1)⟩,
        ⟨.receive,tb,tl,cntAfter (k+1),lines helloThread1 k⟩,[],[]⟩
  | answerComposed {mb tb : Buffer Char bufSize} {ml tl : ℤ}
      (h : mb.front ml.toNat = helloThread1.text (cntAfter k)) :
      At k 6 ⟨⟨.send,mb,ml,cntAfter (k+1),lines helloMian (k+1)⟩,
        ⟨.receive,tb,tl,cntAfter (k+1),lines helloThread1 k⟩,[],[]⟩
  | answered {mb tb : Buffer Char bufSize} {ml tl : ℤ} :
      At k 7 ⟨⟨.receive,mb,ml,cntAfter (k+1),lines helloMian (k+1)⟩,
        ⟨.receive,tb,tl,cntAfter (k+1),lines helloThread1 k⟩,[],
        [helloThread1.text (cntAfter k)]⟩
  | answerHeard {mb tb : Buffer Char bufSize} {ml tl : ℤ}
      (h : Thread.Holds tb tl (helloThread1.text (cntAfter k))) :
      At k 8 ⟨⟨.receive,mb,ml,cntAfter (k+1),lines helloMian (k+1)⟩,
        ⟨.terminate,tb,tl,cntAfter (k+1),lines helloThread1 k⟩,[],[]⟩
  | answerEnded {mb tb : Buffer Char bufSize} {ml tl : ℤ}
      (h : tb.text nul = some (helloThread1.text (cntAfter k))) :
      At k 9 ⟨⟨.receive,mb,ml,cntAfter (k+1),lines helloMian (k+1)⟩,
        ⟨.print,tb,tl,cntAfter (k+1),lines helloThread1 k⟩,[],[]⟩
  | asleep {mb tb : Buffer Char bufSize} {ml tl : ℤ} :
      At k 10 ⟨⟨.receive,mb,ml,cntAfter (k+1),lines helloMian (k+1)⟩,
        ⟨.sleep,tb,tl,cntAfter (k+1),lines helloThread1 (k+1)⟩,[],[]⟩

def mover (station : ℕ) : Who := if 2 ≤ station ∧ station ≤ 6 then .main else .thread1

def Reached (n : ℕ) (s : State) : Prop := At (n / 11) (n % 11) s

theorem next_cnt (k : ℕ) : cntAfter k + 1 = cntAfter (k+1) := (Int32.ofNat_add k 1).symm

theorem at_waits {k i : ℕ} {s : State} (h : At k i s) {w : Who} (hw : w ≠ mover i) :
    attempt s w = none := by
  cases w with
  | main => cases h <;> first | rfl | exact absurd rfl hw
  | thread1 => cases h <;> first | rfl | exact absurd rfl hw

theorem at_step {k i : ℕ} {s : State} (h : At k i s) :
    ∃ s', attempt s (mover i) = some s' ∧ (At k (i+1) s' ∨ i = 10 ∧ At (k+1) 0 s') := by
  cases h with
  | @asking mb tb ml tl =>
    obtain ⟨b,len,hb,hfront⟩ := Thread.compose_eq helloMian
      ⟨.compose,tb,tl,cntAfter k,lines helloThread1 k⟩
    rw [next_cnt] at hb
    refine ⟨⟨⟨_,mb,ml,_,_⟩,⟨_,b,len,_,_⟩,_,_⟩,?_,.inl (.composed hfront)⟩
    simp [attempt,mover,functionThread1,Thread.advance,hb]
  | @composed mb tb ml tl h =>
    have hwrite := Thread.write_eq (t := ⟨.send,tb,tl,cntAfter (k+1),lines helloThread1 k⟩) h
      (helloMian.fits _)
    refine ⟨⟨⟨_,mb,ml,_,_⟩,⟨_,tb,tl,_,_⟩,_,_⟩,?_,.inl .asked⟩
    simp [attempt,mover,functionThread1,Thread.advance,hwrite]
  | @asked mb tb ml tl =>
    obtain ⟨b,len,hb,hholds⟩ := Thread.read_eq ⟨.receive,mb,ml,cntAfter k,lines helloMian k⟩
      (helloMian.fits (cntAfter k)) (helloMian.plain _)
    refine ⟨⟨⟨_,b,len,_,_⟩,⟨_,tb,tl,_,_⟩,_,_⟩,?_,.inl (.heard hholds)⟩
    simp [attempt,mover,main,Thread.advance,hb]
  | @heard mb tb ml tl h =>
    obtain ⟨b,hb,htext⟩ := Thread.terminate_eq
      (t := ⟨.terminate,mb,ml,cntAfter k,lines helloMian k⟩) h
    refine ⟨⟨⟨_,b,ml,_,_⟩,⟨_,tb,tl,_,_⟩,_,_⟩,?_,.inl (.ended htext)⟩
    simp [attempt,mover,main,Thread.advance,hb]
  | @ended mb tb ml tl h =>
    have hprint := Thread.print_eq (t := ⟨.print,mb,ml,cntAfter k,lines helloMian k⟩) .compose h
    rw [← lines_succ] at hprint
    refine ⟨⟨⟨_,mb,ml,_,_⟩,⟨_,tb,tl,_,_⟩,_,_⟩,?_,.inl .answering⟩
    simp [attempt,mover,main,Thread.advance,hprint]
  | @answering mb tb ml tl =>
    obtain ⟨b,len,hb,hfront⟩ := Thread.compose_eq helloThread1
      ⟨.compose,mb,ml,cntAfter k,lines helloMian (k+1)⟩
    rw [next_cnt] at hb
    refine ⟨⟨⟨_,b,len,_,_⟩,⟨_,tb,tl,_,_⟩,_,_⟩,?_,.inl (.answerComposed hfront)⟩
    simp [attempt,mover,main,Thread.advance,hb]
  | @answerComposed mb tb ml tl h =>
    have hwrite := Thread.write_eq (t := ⟨.send,mb,ml,cntAfter (k+1),lines helloMian (k+1)⟩) h
      (helloThread1.fits _)
    refine ⟨⟨⟨_,mb,ml,_,_⟩,⟨_,tb,tl,_,_⟩,_,_⟩,?_,.inl .answered⟩
    simp [attempt,mover,main,Thread.advance,hwrite]
  | @answered mb tb ml tl =>
    obtain ⟨b,len,hb,hholds⟩ := Thread.read_eq
      ⟨.receive,tb,tl,cntAfter (k+1),lines helloThread1 k⟩
      (helloThread1.fits (cntAfter k)) (helloThread1.plain _)
    refine ⟨⟨⟨_,mb,ml,_,_⟩,⟨_,b,len,_,_⟩,_,_⟩,?_,.inl (.answerHeard hholds)⟩
    simp [attempt,mover,functionThread1,Thread.advance,hb]
  | @answerHeard mb tb ml tl h =>
    obtain ⟨b,hb,htext⟩ := Thread.terminate_eq
      (t := ⟨.terminate,tb,tl,cntAfter (k+1),lines helloThread1 k⟩) h
    refine ⟨⟨⟨_,mb,ml,_,_⟩,⟨_,b,tl,_,_⟩,_,_⟩,?_,.inl (.answerEnded htext)⟩
    simp [attempt,mover,functionThread1,Thread.advance,hb]
  | @answerEnded mb tb ml tl h =>
    have hprint := Thread.print_eq
      (t := ⟨.print,tb,tl,cntAfter (k+1),lines helloThread1 k⟩) .sleep h
    rw [← lines_succ] at hprint
    refine ⟨⟨⟨_,mb,ml,_,_⟩,⟨_,tb,tl,_,_⟩,_,_⟩,?_,.inl .asleep⟩
    simp [attempt,mover,functionThread1,Thread.advance,hprint]
  | @asleep mb tb ml tl => exact ⟨⟨⟨_,mb,ml,_,_⟩,⟨_,tb,tl,_,_⟩,_,_⟩,rfl,.inr ⟨rfl,.asking⟩⟩

theorem at_station {k i : ℕ} {s : State} (h : At k i s) : i ≤ 10 := by
  cases h <;> decide

theorem reached_initial : Reached 0 initial := .asking

theorem reached_step {n : ℕ} {s : State} (h : Reached n s) :
    ∃ s', attempt s (mover (n % 11)) = some s' ∧ Reached (n+1) s' := by
  obtain ⟨s',hstep,hnext | ⟨hlast,hnext⟩⟩ := at_step h
  · have hstation : n % 11 + 1 ≤ 10 := at_station hnext
    have hround : (n+1) / 11 = n / 11 := by omega
    have hrest : (n+1) % 11 = n % 11 + 1 := by omega
    refine ⟨s',hstep,?_⟩
    rw [Reached,hround,hrest]
    exact hnext
  · have hround : (n+1) / 11 = n / 11 + 1 := by omega
    have hrest : (n+1) % 11 = 0 := by omega
    refine ⟨s',hstep,?_⟩
    rw [Reached,hround,hrest]
    exact hnext

theorem reached_mover {n : ℕ} {s : State} (h : Reached n s) :
    Reached (n+1) (move s (mover (n % 11))) := by
  obtain ⟨s',hstep,hnext⟩ := reached_step h
  rw [move,hstep]
  exact hnext

theorem reached_other {n : ℕ} {s : State} (h : Reached n s) {w : Who} (hw : w ≠ mover (n % 11)) :
    Reached n (move s w) := by
  rw [move,at_waits h hw]
  exact h

theorem reached_move {n : ℕ} {s : State} (h : Reached n s) (w : Who) :
    ∃ m, n ≤ m ∧ Reached m (move s w) := by
  by_cases hw : w = mover (n % 11)
  · rw [hw]
    exact ⟨n+1,Nat.le_succ n,reached_mover h⟩
  · exact ⟨n,le_rfl,reached_other h hw⟩

theorem at_in_step {k i : ℕ} {s : State} (h : At k i s) : InStep s := by
  have hmoves : ∃! w, (attempt s w).isSome = true := by
    obtain ⟨s',hstep,-⟩ := at_step h
    refine ⟨mover i,by simp [hstep],fun w hw => ?_⟩
    by_contra hne
    simp [at_waits h hne] at hw
  cases h <;> exact ⟨by simp,by simp,by simp,by simp,by simp,hmoves⟩

theorem always_in_step (ws : List Who) : Always move InStep initial ws := by
  have hsafe : ∀ s, (∃ n, Reached n s) → InStep s := by
    rintro s ⟨n,hn⟩
    exact at_in_step hn
  have hkeep : ∀ s w, (∃ n, Reached n s) → ∃ n, Reached n (move s w) := by
    rintro s w ⟨n,hn⟩
    obtain ⟨m,-,hm⟩ := reached_move hn w
    exact ⟨m,hm⟩
  exact always_of_invariant hsafe hkeep ⟨0,reached_initial⟩ ws

theorem at_printed {k i : ℕ} {s : State} (h : At k i s) : k ≤ s.thread1.printed.length := by
  cases h <;> simp

def Past (n : ℕ) (s : State) : Prop := ∃ m, n ≤ m ∧ Reached m s

theorem past_helped (n : ℕ) : Helped move [Who.main,.thread1] Reached (Past n) (n - ·)
    (fun m => mover (m % 11)) where
  stay m s w hs hg := by
    obtain ⟨p,hp,hreach⟩ := hg
    obtain ⟨q,hq,hnext⟩ := reached_move hreach w
    exact ⟨q,hnext,q,hp.trans hq,hnext⟩
  listed m s _ _ := by
    cases mover (m % 11) <;> simp
  down m s hs hg := by
    have hlt : m < n := by
      by_contra hle
      exact hg ⟨m,Nat.not_lt.mp hle,hs⟩
    exact ⟨m+1,reached_mover hs,by omega⟩
  wait m s w hs hg := by
    have hlt : m < n := by
      by_contra hle
      exact hg ⟨m,Nat.not_lt.mp hle,hs⟩
    by_cases hw : w = mover (m % 11)
    · rw [hw]
      exact ⟨m+1,reached_mover hs,.inl (by omega)⟩
    · exact ⟨m,reached_other hs hw,.inr ⟨rfl,rfl⟩⟩

theorem both_print {n : ℕ} {ws : List Who} (h : Rounds [Who.main,.thread1] (11*n) ws) :
    lines helloMian n <+: (run move initial ws).main.printed ∧
      lines helloThread1 n <+: (run move initial ws).thread1.printed := by
  have hpast : Past (11*n) (run move initial ws) :=
    (past_helped (11*n)).reaches reached_initial h (Nat.sub_le _ _)
  obtain ⟨m,hm,hreach⟩ := hpast
  have hprinted := at_printed hreach
  obtain ⟨-,-,hturns,hmain,hthread,-⟩ := at_in_step hreach
  have hn : n ≤ (run move initial ws).thread1.printed.length := by omega
  rw [hmain,hthread]
  exact ⟨lines_mono helloMian (hn.trans hturns.1),lines_mono helloThread1 hn⟩

theorem both_print_once :
    lines helloMian 1 <+:
        (run move initial (List.replicate 11 [.main,.thread1]).flatten).main.printed ∧
      lines helloThread1 1 <+:
        (run move initial (List.replicate 11 [.main,.thread1]).flatten).thread1.printed :=
  both_print (n := 1) (rounds_replicate _ 11)

end Socketpair
