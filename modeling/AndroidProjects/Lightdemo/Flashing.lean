import AndroidProjects.Foundation.Delays
import AndroidProjects.Foundation.Machine

namespace Lightdemo
open Delays Machine

structure Notification where
  ledARGB : UInt32
  flags : Int32
  ledOnMS : Int32
  ledOffMS : Int32
  deriving DecidableEq, Repr

structure Activity where
  alive : Bool
  flashing : Bool
  button : String
  seekBar : Int32

-- the main thread's queue holds the runnables by their activities, also those of the destroyed
structure Device where
  uptime : ℕ
  queue : List (Timed ℕ)
  activities : List Activity
  notification : Option Notification
  screenBrightness : Option Int32
  screenBrightnessMode : Option Int32

inductive Event where
  | create
  | recreate (i : ℕ)
  | click (i : ℕ)
  | progress (i : ℕ) (p : Int32)
  | wait (ms : ℕ)
  | deliver
  | setting (b : Option Int32)
  | finish (i : ℕ)
  | killed

def flashingText : String := "Stop Flashing the Light"

def restingText : String := "Flashing Light at 20S"

def text (flashing : Bool) : String := if flashing then flashingText else restingText

def flagShowLights : Int32 := 1

def notif : Notification := ⟨0xffff00ff,flagShowLights,100,100⟩

def lit (flashing : Bool) : Option Notification := if flashing then some notif else none

def flashingLight (d : Device) : Device := {d with notification := some notif}

def clearLED (d : Device) : Device := {d with notification := none}

def lightRunnable (a : Activity) (d : Device) : Device :=
  if a.flashing then flashingLight d else clearLED d

def delay : ℕ := 20000

def Device.screen (d : Device) (i : ℕ) : Option Activity := d.activities[i]?.filter Activity.alive

def onClick (i : ℕ) (d : Device) : Device :=
  match d.screen i with
  | none => d
  | some a =>
    let flashing := !a.flashing
    {d with
      activities := d.activities.set i {a with flashing := flashing, button := text flashing}
      queue := enqueue ⟨d.uptime + delay,i⟩ d.queue}

def deliver (d : Device) : Device :=
  match d.queue with
  | [] => d
  | m :: q =>
    if m.due ≤ d.uptime then
      match d.activities[m.task]? with
      | none => {d with queue := q}
      | some a => lightRunnable a {d with queue := q}
    else d

-- android:max of the seek bar is 100
def constrained (p : Int32) : Int32 := if p < 0 then 0 else if 100 < p then 100 else p

def onProgressChanged (getProgress : Int32) (d : Device) : Device :=
  {d with screenBrightness := some (getProgress * 255 / 100)}

-- the listener hears of a new position only
def setProgress (i : ℕ) (p : Int32) (d : Device) : Device :=
  match d.screen i with
  | none => d
  | some a =>
    if constrained p = a.seekBar then d
    else
      onProgressChanged (constrained p)
        {d with activities := d.activities.set i {a with seekBar := constrained p}}

-- android:progress of the seek bar is 50, and the listener is not set before
def opening (d : Device) : Int32 :=
  match d.screenBrightness with
  | none => 50
  | some b => constrained (b * 100 / 255)

-- SCREEN_BRIGHTNESS_MODE_MANUAL is 0
def onCreate (d : Device) : Device :=
  {d with
    screenBrightnessMode := some 0
    activities := d.activities ++ [⟨true,false,restingText,opening d⟩]}

def finish (i : ℕ) (d : Device) : Device :=
  match d.screen i with
  | none => d
  | some a => {d with activities := d.activities.set i {a with alive := false}}

-- the new screen restores the position of the one it takes the place of
def recreate (i : ℕ) (d : Device) : Device :=
  match d.screen i with
  | none => d
  | some a => setProgress d.activities.length a.seekBar (onCreate (finish i d))

def step (d : Device) : Event → Device
  | .create => onCreate d
  | .recreate i => recreate i d
  | .click i => onClick i d
  | .progress i p => setProgress i p d
  | .wait ms => {d with uptime := d.uptime + ms}
  | .deliver => deliver d
  | .setting b => {d with screenBrightness := b}
  | .finish i => finish i d
  | .killed => {d with queue := [], activities := []}

theorem screen_eq_some {d : Device} {i : ℕ} {a : Activity} :
    d.screen i = some a ↔ d.activities[i]? = some a ∧ a.alive = true := Option.filter_eq_some_iff

theorem lightRunnable_eq (a : Activity) (d : Device) :
    lightRunnable a d = {d with notification := lit a.flashing} := by
  rw [lightRunnable,lit]
  split_ifs <;> rfl

def SameTexts (d d' : Device) : Prop :=
  ∀ (i : ℕ) (a : Activity), d.activities[i]? = some a →
    ∃ a' : Activity, d'.activities[i]? = some a' ∧ a'.flashing = a.flashing ∧ a'.button = a.button

theorem SameTexts.of_eq {d d' : Device} (h : d'.activities = d.activities) : SameTexts d d' :=
  fun _ a ha => ⟨a,h ▸ ha,rfl,rfl⟩

theorem SameTexts.trans {d d' d'' : Device} (h : SameTexts d d') (h' : SameTexts d' d'') :
    SameTexts d d'' := by
  intro i a ha
  obtain ⟨a',ha',hf,hb⟩ := h i a ha
  obtain ⟨a'',ha'',hf',hb'⟩ := h' i a' ha'
  exact ⟨a'',ha'',hf'.trans hf,hb'.trans hb⟩

theorem sameTexts_set {d d' : Device} {i : ℕ} {a : Activity} (ha : d.activities[i]? = some a)
    (a' : Activity) (hf : a'.flashing = a.flashing) (hb : a'.button = a.button)
    (hs : d'.activities = d.activities.set i a') : SameTexts d d' := by
  intro j c hc
  obtain ⟨hi,-⟩ := List.getElem?_eq_some_iff.mp ha
  rw [hs]
  by_cases hij : i = j
  · subst hij
    obtain rfl : a = c := Option.some.inj (ha.symm.trans hc)
    exact ⟨a',List.getElem?_set_self hi,hf,hb⟩
  · exact ⟨c,by rw [List.getElem?_set_ne hij,hc],rfl,rfl⟩

theorem sameTexts_create (d : Device) : SameTexts d (onCreate d) := by
  intro i a ha
  obtain ⟨hi,-⟩ := List.getElem?_eq_some_iff.mp ha
  exact ⟨a,(List.getElem?_append_left hi).trans ha,rfl,rfl⟩

structure Apart (d d' : Device) : Prop where
  uptime : d'.uptime = d.uptime
  queue : d'.queue = d.queue
  notification : d'.notification = d.notification
  texts : SameTexts d d'

theorem Apart.rfl {d : Device} : Apart d d := ⟨Eq.refl _,Eq.refl _,Eq.refl _,.of_eq (Eq.refl _)⟩

theorem Apart.trans {d d' d'' : Device} (h : Apart d d') (h' : Apart d' d'') : Apart d d'' where
  uptime := h'.uptime.trans h.uptime
  queue := h'.queue.trans h.queue
  notification := h'.notification.trans h.notification
  texts := h.texts.trans h'.texts

theorem create_apart (d : Device) : Apart d (onCreate d) := ⟨rfl,rfl,rfl,sameTexts_create d⟩

theorem progress_apart (i : ℕ) (p : Int32) (d : Device) : Apart d (setProgress i p d) := by
  rw [setProgress]
  cases hs : d.screen i with
  | none => exact .rfl
  | some a =>
    dsimp only
    split_ifs with hp
    · exact .rfl
    · exact ⟨rfl,rfl,rfl,sameTexts_set (screen_eq_some.mp hs).1
        {a with seekBar := constrained p} rfl rfl rfl⟩

theorem finish_apart (i : ℕ) (d : Device) : Apart d (finish i d) := by
  rw [finish]
  cases hs : d.screen i with
  | none => exact .rfl
  | some a =>
    exact ⟨rfl,rfl,rfl,sameTexts_set (screen_eq_some.mp hs).1 {a with alive := false} rfl rfl rfl⟩

theorem recreate_apart (i : ℕ) (d : Device) : Apart d (recreate i d) := by
  rw [recreate]
  cases d.screen i with
  | none => exact .rfl
  | some a => exact ((finish_apart i d).trans (create_apart _)).trans (progress_apart _ _ _)

inductive Stepped (d : Device) : Event → Device → Prop
  | apart {e d'} (h : Apart d d') : Stepped d e d'
  | waited (ms : ℕ) : Stepped d (.wait ms) {d with uptime := d.uptime + ms}
  | clicked {i a} (hs : d.screen i = some a) :
      Stepped d (.click i)
        {d with
          activities := d.activities.set i
            {a with flashing := !a.flashing, button := text !a.flashing}
          queue := enqueue ⟨d.uptime + delay,i⟩ d.queue}
  | passed {m q} (hq : d.queue = m :: q) (hdue : m.due ≤ d.uptime)
      (hnone : d.activities[m.task]? = none) : Stepped d .deliver {d with queue := q}
  | ran {m q a} (hq : d.queue = m :: q) (hdue : m.due ≤ d.uptime)
      (ha : d.activities[m.task]? = some a) :
      Stepped d .deliver {d with queue := q, notification := lit a.flashing}
  | killed : Stepped d .killed {d with queue := [], activities := []}

theorem stepped (d : Device) (e : Event) : Stepped d e (step d e) := by
  cases e with
  | create => exact .apart (create_apart d)
  | recreate i => exact .apart (recreate_apart i d)
  | progress i p => exact .apart (progress_apart i p d)
  | wait ms => exact .waited ms
  | setting b => exact .apart ⟨rfl,rfl,rfl,.of_eq rfl⟩
  | finish i => exact .apart (finish_apart i d)
  | killed => exact .killed
  | click i =>
    rw [step,onClick]
    cases hs : d.screen i with
    | none => exact .apart .rfl
    | some a => exact .clicked hs
  | deliver =>
    rw [step,deliver]
    cases hq : d.queue with
    | nil => exact .apart .rfl
    | cons m q =>
      dsimp only
      split_ifs with hdue
      · cases ha : d.activities[m.task]? with
        | none => exact .passed hq hdue ha
        | some a =>
          dsimp only
          rw [lightRunnable_eq]
          exact .ran hq hdue ha
      · exact .apart .rfl

def Posted (d : Device) : Prop := Within (d.uptime + delay) d.queue

theorem posted_step (d : Device) (e : Event) (h : Posted d) : Posted (step d e) := by
  have hs := stepped d e
  generalize step d e = d' at hs ⊢
  cases hs with
  | apart ha => rwa [Posted,ha.uptime,ha.queue]
  | waited ms => exact within_mono h (by dsimp only; omega)
  | clicked ha => exact within_enqueue h
  | passed hq hdue hnone =>
    rw [Posted,hq] at h
    exact within_tail h
  | ran hq hdue ha =>
    rw [Posted,hq] at h
    exact within_tail h
  | killed => exact fun m hm => absurd hm List.not_mem_nil

structure Waiting (t : ℕ) (n : Option Notification) (d : Device) : Prop where
  later : t ≤ d.uptime
  queued : From (t + delay) d.queue
  same : d.uptime < t + delay → d.notification = n

theorem waiting_step {t : ℕ} {n : Option Notification} (d : Device) (e : Event)
    (h : Waiting t n d) : Waiting t n (step d e) := by
  have hs := stepped d e
  generalize step d e = d' at hs ⊢
  cases hs with
  | apart ha =>
    refine ⟨ha.uptime ▸ h.later,ha.queue ▸ h.queued,fun hlt => ?_⟩
    rw [ha.uptime] at hlt
    exact ha.notification.trans (h.same hlt)
  | waited ms =>
    have hlater := h.later
    exact ⟨hlater.trans (Nat.le_add_right _ _),h.queued,
      fun hlt => h.same ((Nat.le_add_right _ _).trans_lt hlt)⟩
  | clicked ha =>
    exact ⟨h.later,from_enqueue h.queued (Nat.add_le_add_right h.later delay),h.same⟩
  | passed hq hdue hnone => exact ⟨h.later,from_tail (hq ▸ h.queued),h.same⟩
  | @ran m q a hq hdue ha =>
    have hm : t + delay ≤ m.due := h.queued m (hq ▸ List.mem_cons_self)
    exact ⟨h.later,from_tail (hq ▸ h.queued),fun hlt => absurd (hm.trans hdue) (Nat.not_le.mpr hlt)⟩
  | killed => exact ⟨h.later,fun m hm => absurd hm List.not_mem_nil,h.same⟩

structure Settling (i t : ℕ) (flashing : Bool) (d : Device) : Prop where
  queued : Within (t + delay) d.queue
  screen : ∃ a, d.activities[i]? = some a ∧ a.flashing = flashing ∧ a.button = text flashing
  last : d.queue.getLast? = some ⟨t + delay,i⟩ ∨ d.queue = [] ∧ d.notification = lit flashing

def Event.quiet : Event → Prop
  | click _ | killed => False
  | create | recreate _ | progress _ _ | wait _ | deliver | setting _ | finish _ => True

theorem settling_step {i t : ℕ} {flashing : Bool} (d : Device) (e : Event)
    (h : Settling i t flashing d) (hquiet : e.quiet) : Settling i t flashing (step d e) := by
  have hs := stepped d e
  generalize step d e = d' at hs ⊢
  obtain ⟨a,ha,hf,hb⟩ := h.screen
  cases hs with
  | apart hd =>
    obtain ⟨a',ha',hf',hb'⟩ := hd.texts i a ha
    refine ⟨hd.queue ▸ h.queued,⟨a',ha',hf'.trans hf,hb'.trans hb⟩,?_⟩
    rw [hd.queue,hd.notification]
    exact h.last
  | waited ms => exact ⟨h.queued,h.screen,h.last⟩
  | clicked ha => exact hquiet.elim
  | killed => exact hquiet.elim
  | @passed m q hq hdue hnone =>
    rcases h.last with hlast | ⟨hnil,-⟩
    · rcases last_cons (hq ▸ hlast) with ⟨-,rfl⟩ | hlast
      · exact absurd (ha.symm.trans hnone) (Option.some_ne_none a)
      · exact ⟨within_tail (hq ▸ h.queued),h.screen,.inl hlast⟩
    · exact absurd (hq.symm.trans hnil) (List.cons_ne_nil m q)
  | @ran m q c hq hdue hc =>
    rcases h.last with hlast | ⟨hnil,-⟩
    · rcases last_cons (hq ▸ hlast) with ⟨rfl,rfl⟩ | hlast
      · obtain rfl : a = c := Option.some.inj (ha.symm.trans hc)
        exact ⟨within_tail (hq ▸ h.queued),h.screen,.inr ⟨rfl,by rw [hf]⟩⟩
      · exact ⟨within_tail (hq ▸ h.queued),h.screen,.inl hlast⟩
    · exact absurd (hq.symm.trans hnil) (List.cons_ne_nil m q)

theorem settling_click {d : Device} (h : Posted d) {i : ℕ} {a : Activity}
    (hs : d.screen i = some a) : Settling i d.uptime (!a.flashing) (onClick i d) := by
  obtain ⟨hi,-⟩ := List.getElem?_eq_some_iff.mp (screen_eq_some.mp hs).1
  rw [onClick,hs]
  exact ⟨within_enqueue h,⟨_,List.getElem?_set_self hi,rfl,rfl⟩,.inl (last_enqueue h)⟩

def booted (uptime : ℕ) (notification : Option Notification) (brightness mode : Option Int32) :
    Device :=
  ⟨uptime,[],[],notification,brightness,mode⟩

theorem posted_run (uptime : ℕ) (notification : Option Notification)
    (brightness mode : Option Int32) (es : List Event) :
    Posted (run step (booted uptime notification brightness mode) es) := by
  have hstart : Posted (booted uptime notification brightness mode) :=
    fun m hm => absurd hm List.not_mem_nil
  exact run_invariant step posted_step hstart es

theorem light_follows (uptime : ℕ) (notification : Option Notification)
    (brightness mode : Option Int32) (es post : List Event) (i : ℕ) (a : Activity) :
    let d := run step (booted uptime notification brightness mode) es
    let d' := run step (onClick i d) post
    d.screen i = some a →
    (d.queue = [] → d'.uptime < d.uptime + delay → d'.notification = d.notification) ∧
    ((∀ e ∈ post, e.quiet) → d.uptime + delay ≤ d'.uptime → (∀ m ∈ d'.queue, d'.uptime < m.due) →
      d'.queue = [] ∧ ∃ a', d'.activities[i]? = some a' ∧ a'.flashing = !a.flashing ∧
        a'.button = text a'.flashing ∧ d'.notification = lit a'.flashing) := by
  intro d d' hs
  have hposted : Posted d := posted_run uptime notification brightness mode es
  refine ⟨fun hnil hearly => ?_,fun hquiet hlate hserved => ?_⟩
  · have hstart : Waiting d.uptime d.notification d :=
      ⟨le_rfl,fun m hm => absurd (hnil ▸ hm) List.not_mem_nil,fun _ => rfl⟩
    have hclick := waiting_step d (.click i) hstart
    exact (run_invariant step waiting_step hclick post).same hearly
  · have hclick := settling_click hposted hs
    have hrun : Settling i d.uptime (!a.flashing) d' :=
      run_invariant_along settling_step hclick (along_of_forall hquiet _)
    obtain ⟨a',ha',hf,hb⟩ := hrun.screen
    rcases hrun.last with hlast | ⟨hnil,hn⟩
    · obtain ⟨m,hm,hdue⟩ := caught_up hlast hlate
      exact absurd hdue (Nat.not_le.mpr (hserved m hm))
    · exact ⟨hnil,a',ha',hf,by rw [hb,hf],by rw [hn,hf]⟩

theorem light_follows_one :
    let d := run step (booted 7 none none none) [.create]
    let d' := run step (onClick 0 d) [.wait delay,.finish 0,.deliver]
    d'.queue = [] ∧ d'.notification = some notif := by
  intro d d'
  have hfollows := light_follows 7 none none none [.create] [.wait delay,.finish 0,.deliver] 0
    ⟨true,false,restingText,50⟩ rfl
  have hrest := hfollows.2 (by simp [Event.quiet]) (by decide) (by decide)
  obtain ⟨hnil,a',-,hf,-,hn⟩ := hrest
  exact ⟨hnil,by rw [hn,hf]; rfl⟩

def shown (q : Int32) : Int32 := constrained (q * 255 / 100 * 100 / 255)

theorem positions : ∀ n : Fin 101, let q := Int32.ofNat n
    0 ≤ q * 255 / 100 ∧ q * 255 / 100 ≤ 255 ∧ constrained q = q ∧ constrained (shown q) = shown q ∧
      (shown q = q ∨ q % 20 ≠ 0 ∧ shown q = q - 1) := by
  decide +kernel

theorem constrained_position (p : Int32) : ∃ n : Fin 101, constrained p = Int32.ofNat n := by
  rw [constrained]
  split_ifs with hneg hbig
  · exact ⟨0,rfl⟩
  · exact ⟨100,rfl⟩
  · have h0 : 0 ≤ p.toInt := Int32.le_iff_toInt_le.mp (Int32.not_lt.mp hneg)
    have h1 : p.toInt ≤ 100 := Int32.le_iff_toInt_le.mp (Int32.not_lt.mp hbig)
    refine ⟨⟨p.toInt.toNat,by omega⟩,?_⟩
    rw [← Int32.toInt_inj,Int32.toInt_ofNat_of_lt (by dsimp only; omega)]
    exact (Int.toNat_of_nonneg h0).symm

structure Chosen (q : Int32) (d : Device) : Prop where
  setting : d.screenBrightness = some (q * 255 / 100)
  bars : ∀ i a, d.screen i = some a → a.seekBar = q ∨ a.seekBar = shown q

def Event.leaves : Event → Prop
  | progress _ _ | setting _ => False
  | create | recreate _ | click _ | wait _ | deliver | finish _ | killed => True

theorem screen_set {d d' : Device} {i j : ℕ} {a b : Activity}
    (hset : d'.activities = d.activities.set i a) (hb : d'.screen j = some b) :
    j = i ∧ b = a ∨ j ≠ i ∧ d.screen j = some b := by
  obtain ⟨hget,halive⟩ := screen_eq_some.mp hb
  rw [hset,List.getElem?_set] at hget
  split_ifs at hget with hij hi
  · exact .inl ⟨hij.symm,(Option.some.inj hget).symm⟩
  · exact .inr ⟨Ne.symm hij,screen_eq_some.mpr ⟨hget,halive⟩⟩

theorem screen_create {d : Device} {j : ℕ} {b : Activity} (hb : (onCreate d).screen j = some b) :
    d.screen j = some b ∨ b = ⟨true,false,restingText,opening d⟩ := by
  obtain ⟨hget,halive⟩ := screen_eq_some.mp hb
  rw [onCreate,List.getElem?_append] at hget
  split_ifs at hget with hj
  · exact .inl (screen_eq_some.mpr ⟨hget,halive⟩)
  · have hmem := List.mem_of_getElem? hget
    exact .inr (List.mem_singleton.mp hmem)

theorem created_screen (d : Device) :
    (onCreate d).screen d.activities.length = some ⟨true,false,restingText,opening d⟩ := by
  refine screen_eq_some.mpr ⟨?_,rfl⟩
  rw [onCreate,List.getElem?_concat_length]

theorem finish_length (i : ℕ) (d : Device) :
    (finish i d).activities.length = d.activities.length := by
  rw [finish]
  cases d.screen i with
  | none => rfl
  | some a => exact List.length_set

theorem setProgress_moved {d : Device} {i : ℕ} {p : Int32} {a : Activity}
    (hs : d.screen i = some a) (hp : constrained p ≠ a.seekBar) :
    setProgress i p d = onProgressChanged (constrained p)
      {d with activities := d.activities.set i {a with seekBar := constrained p}} := by
  rw [setProgress,hs]
  exact if_neg hp

theorem setProgress_same {d : Device} {i : ℕ} {p : Int32} {a : Activity}
    (hs : d.screen i = some a) (hp : constrained p = a.seekBar) : setProgress i p d = d := by
  rw [setProgress,hs]
  exact if_pos hp

theorem chosen_moved {q p : Int32} {d : Device} {i : ℕ} {a : Activity} (hs : d.screen i = some a)
    (hq : constrained p = q) (hp : constrained p ≠ a.seekBar)
    (others : ∀ j b, d.screen j = some b → j = i ∨ b.seekBar = q ∨ b.seekBar = shown q) :
    Chosen q (setProgress i p d) := by
  rw [setProgress_moved hs hp,hq]
  refine ⟨rfl,fun j b hb => ?_⟩
  rcases screen_set rfl hb with ⟨-,rfl⟩ | ⟨hj,hb⟩
  · exact .inl rfl
  · exact (others j b hb).resolve_left hj

theorem chosen_set {q : Int32} {d d' : Device} (h : Chosen q d) {i : ℕ} {a : Activity}
    (hsetting : d'.screenBrightness = d.screenBrightness)
    (hset : d'.activities = d.activities.set i a)
    (ha : a.alive = true → a.seekBar = q ∨ a.seekBar = shown q) : Chosen q d' := by
  refine ⟨hsetting.trans h.setting,fun j b hb => ?_⟩
  rcases screen_set hset hb with ⟨-,rfl⟩ | ⟨-,hold⟩
  · exact ha (screen_eq_some.mp hb).2
  · exact h.bars j b hold

theorem chosen_create {q : Int32} {d : Device} (h : Chosen q d) : Chosen q (onCreate d) := by
  refine ⟨h.setting,fun j b hb => ?_⟩
  rcases screen_create hb with hold | rfl
  · exact h.bars j b hold
  · right
    simp only [opening,h.setting,shown]

theorem chosen_finish {q : Int32} {d : Device} (h : Chosen q d) (i : ℕ) :
    Chosen q (finish i d) := by
  rw [finish]
  cases d.screen i with
  | none => exact h
  | some a =>
    exact @chosen_set q d _ h i {a with alive := false} rfl rfl fun halive =>
      absurd halive Bool.false_ne_true

theorem chosen_click {q : Int32} {d : Device} (h : Chosen q d) (i : ℕ) :
    Chosen q (onClick i d) := by
  rw [onClick]
  cases hs : d.screen i with
  | none => exact h
  | some a => exact chosen_set h rfl rfl fun _ => h.bars i a hs

theorem chosen_deliver {q : Int32} {d : Device} (h : Chosen q d) : Chosen q (deliver d) := by
  rw [deliver]
  cases d.queue with
  | nil => exact h
  | cons m qs =>
    dsimp only
    split_ifs with hdue
    · cases d.activities[m.task]? with
      | none => exact ⟨h.setting,h.bars⟩
      | some a =>
        dsimp only
        rw [lightRunnable_eq]
        exact ⟨h.setting,h.bars⟩
    · exact h

-- the new screen opens at shown q; only a bar that stood at q moves it, and writes what is set
theorem chosen_recreate {q : Int32} (hq : constrained q = q)
    (hshown : constrained (shown q) = shown q)
    {d : Device} (h : Chosen q d) (i : ℕ) : Chosen q (recreate i d) := by
  rw [recreate]
  cases hs : d.screen i with
  | none => exact h
  | some a =>
    have hfin := chosen_finish h i
    have hnew := created_screen (finish i d)
    have hopen : opening (finish i d) = shown q := by simp only [opening,hfin.setting,shown]
    rw [finish_length,hopen] at hnew
    have hcreated := chosen_create hfin
    dsimp only
    by_cases hsame : constrained a.seekBar = shown q
    · rwa [setProgress_same hnew hsame]
    · rcases h.bars i a hs with hbar | hbar
      · rw [hbar,hq] at hsame
        rw [hbar]
        exact chosen_moved hnew hq (by rwa [hq]) fun j b hb => .inr (hcreated.bars j b hb)
      · exact absurd (hbar ▸ hshown) hsame

theorem chosen_step {q : Int32} (hq : constrained q = q) (hshown : constrained (shown q) = shown q)
    (d : Device) (e : Event) (h : Chosen q d) (hleaves : e.leaves) : Chosen q (step d e) := by
  cases e with
  | create => exact chosen_create h
  | recreate i => exact chosen_recreate hq hshown h i
  | click i => exact chosen_click h i
  | wait ms => exact ⟨h.setting,h.bars⟩
  | deliver => exact chosen_deliver h
  | finish i => exact chosen_finish h i
  | progress i p => exact hleaves.elim
  | setting b => exact hleaves.elim
  | killed => exact ⟨h.setting,fun i a ha => nomatch ha⟩

theorem brightness_kept (d : Device) (es : List Event) (i : ℕ) (p : Int32) (a : Activity) :
    let q := constrained p
    let d' := run step (setProgress i p d) es
    d.screen i = some a → q ≠ a.seekBar → (∀ j b, d.screen j = some b → j = i) →
    (∀ e ∈ es, e.leaves) →
    0 ≤ q * 255 / 100 ∧ q * 255 / 100 ≤ 255 ∧ d'.screenBrightness = some (q * 255 / 100) ∧
    ∀ j b, d'.screen j = some b → b.seekBar = q ∨ q % 20 ≠ 0 ∧ b.seekBar = q - 1 := by
  intro q d' hs hmoved hsole hleaves
  obtain ⟨n,hn⟩ := constrained_position p
  obtain ⟨hlow,hhigh,hq,hshown,hposition⟩ := positions n
  rw [← hn] at hlow hhigh hq hshown hposition
  have hstart : Chosen q (setProgress i p d) :=
    chosen_moved hs rfl hmoved fun j b hb => .inl (hsole j b hb)
  have hrun : Chosen q d' :=
    run_invariant_along (chosen_step hq hshown) hstart (along_of_forall hleaves _)
  refine ⟨hlow,hhigh,hrun.setting,fun j b hb => ?_⟩
  rcases hrun.bars j b hb with hbar | hbar
  · exact .inl hbar
  · rcases hposition with hsame | ⟨hodd,hless⟩
    · exact .inl (hbar.trans hsame)
    · exact .inr ⟨hodd,hbar.trans hless⟩

theorem brightness_kept_rotated :
    let d := onCreate (booted 0 none (some 128) none)
    let d' := run step (setProgress 0 77 d) [.recreate 0,.click 1,.recreate 1,.killed,.create]
    d'.screenBrightness = some 196 ∧
      ∀ j b, d'.screen j = some b → b.seekBar = 77 ∨ b.seekBar = 76 := by
  intro d d'
  have hsole : ∀ j b, d.screen j = some b → j = 0 := by
    intro j b hb
    cases j with
    | zero => rfl
    | succ j => exact nomatch hb
  have hkept := brightness_kept d [.recreate 0,.click 1,.recreate 1,.killed,.create] 0 77
    ⟨true,false,restingText,50⟩ rfl (by decide) hsole (by simp [Event.leaves])
  obtain ⟨-,-,hsetting,hbars⟩ := hkept
  exact ⟨hsetting,fun j b hb => (hbars j b hb).imp_right And.right⟩

end Lightdemo
