import AndroidProjects.Leds.Loading
import AndroidProjects.Leds.Failures

namespace Leds
open Machine Driver
open Mutex (whole)

def pinLevel (value : Int32) : Int32 := if value ≠ ledOff then 0 else 1

-- led_cdev points into led_devs: i is the device it belongs to
def brightnessSet4412 (i : ℕ) (value : Int32) (d : Driver) : Driver :=
  match d.ledDevs i with
  | none => d
  | some dev =>
    {d with
      ledDevs := Function.update d.ledDevs i (some {dev with brightness := value})
      pins := Function.update d.pins dev.gpio (some (pinLevel value))}

section Driver
variable {table : List LedDesc}

def LedClassdev4412.lit (dev : LedClassdev4412) (value : Int32) : LedClassdev4412 :=
  {dev with brightness := value}

structure Wired (d : Driver) (j : ℕ) (desc : LedDesc) (value : Int32) : Prop where
  dev : d.ledDevs j = some ((classdev desc).lit value)
  pin : d.pins desc.gpio = some (pinLevel value)

def Configured (table : List LedDesc) (i : ℕ) (d : Driver) : Prop :=
  ∀ j < i, ∀ desc ∈ table[j]?, Wired d j desc ledOff

theorem configured_configure {i : ℕ} {d : Driver} (h : Configured table i d) :
    Configured table (i+1) (configure table i d) := by
  intro j hj desc hdesc
  rw [configure]
  rcases Nat.lt_succ_iff_lt_or_eq.mp hj with hlt | rfl
  · obtain ⟨hdev,hpin⟩ := h j hlt desc hdesc
    cases hi : table[i]? with
    | none => exact ⟨hdev,hpin⟩
    | some desc' =>
      refine ⟨(Function.update_of_ne hlt.ne _ _).trans hdev,?_⟩
      by_cases hsame : desc.gpio = desc'.gpio
      · rw [hsame]
        exact Function.update_self _ _ _
      · exact (Function.update_of_ne hsame _ _).trans hpin
  · rw [Option.mem_def.mp hdesc]
    exact ⟨Function.update_self _ _ _,Function.update_self _ _ _⟩

theorem configured_next {outcomes : ℕ → Int32} {i : ℕ} {d : Driver} (h : Configured table i d) :
    Configured table (iteration table outcomes i d).1 (iteration table outcomes i d).2 := by
  by_cases hnow : outcomes d.calls = 0
  · rw [iteration_success hnow]
    intro j hj desc hdesc
    obtain ⟨hdev,hpin⟩ := configured_configure h j hj desc hdesc
    exact ⟨hdev,hpin⟩
  · rw [iteration_failure hnow]
    exact fun j hj => absurd hj (Nat.not_lt_zero j)

theorem configured_loop {outcomes : ℕ → Int32} {fuel i : ℕ} {d d' : Driver} {ret : Int32}
    (h : Configured table i d) (hrun : registerLoop table outcomes fuel i d = some (ret,d')) :
    Configured table table.length d' := by
  induction fuel generalizing i d with
  | zero => cases hrun
  | succ fuel ih =>
    by_cases hi : i < table.length
    · rw [loop_next hi] at hrun
      exact ih (configured_next h) hrun
    · rw [loop_done (Nat.not_lt.mp hi)] at hrun
      cases hrun
      exact fun j hj => h j (hj.trans_le (Nat.not_lt.mp hi))

theorem configured_init {outcomes : ℕ → Int32} {fuel : ℕ} {d : Driver}
    (hrun : ledsInit table outcomes true fuel = some (0,d)) : Configured table table.length d :=
  configured_loop (fun j hj => absurd hj (Nat.not_lt_zero j)) hrun

abbrev Demand (table : List LedDesc) := Fin table.length × Int32

def brighten (d : Driver) (r : Demand table) : Driver := brightnessSet4412 r.1 r.2 d

def shown (rs : List (Demand table)) (j : ℕ) : Int32 :=
  ((rs.filter fun r => r.1 = j).map Prod.snd).getLastD ledOff

theorem wired_same {d : Driver} {j : ℕ} {desc : LedDesc} {value : Int32} (h : Wired d j desc value)
    (v : Int32) : Wired (brightnessSet4412 j v d) j desc v := by
  rw [brightnessSet4412,h.dev]
  exact ⟨Function.update_self _ _ _,Function.update_self _ _ _⟩

theorem wired_other {d : Driver} {i j : ℕ} {desc desc' : LedDesc} {value value' : Int32}
    (h : Wired d j desc value) (h' : Wired d i desc' value') (hij : j ≠ i)
    (hgpio : desc.gpio ≠ desc'.gpio) (v : Int32) :
    Wired (brightnessSet4412 i v d) j desc value := by
  rw [brightnessSet4412,h'.dev]
  exact ⟨(Function.update_of_ne hij _ _).trans h.dev,(Function.update_of_ne hgpio _ _).trans h.pin⟩

theorem gpio_inj (hnodup : (table.map LedDesc.gpio).Nodup) {i j : ℕ} {a b : LedDesc}
    (ha : table[i]? = some a) (hb : table[j]? = some b) (hsame : a.gpio = b.gpio) : i = j := by
  have hlt : i < (table.map LedDesc.gpio).length := by
    rw [List.length_map]
    exact (List.getElem?_eq_some_iff.mp ha).1
  refine (List.getElem?_inj hlt hnodup).mp ?_
  rw [List.getElem?_map,List.getElem?_map,ha,hb,Option.map_some,Option.map_some,hsame]

theorem shown_append (rs : List (Demand table)) (r : Demand table) (j : ℕ) :
    shown (rs ++ [r]) j = if r.1 = j then r.2 else shown rs j := by
  rw [shown,List.filter_append]
  by_cases hr : r.1 = j
  · simp [hr]
  · simp [shown,hr]

theorem untouched_pin {d : Driver} {i : ℕ} {desc : LedDesc} {value : Int32}
    (h : Wired d i desc value) {gpio : Int32} (hne : gpio ≠ desc.gpio) (v : Int32) :
    (brightnessSet4412 i v d).pins gpio = d.pins gpio := by
  rw [brightnessSet4412,h.dev]
  exact Function.update_of_ne hne _ _

structure Shown (d₀ d : Driver) (rs : List (Demand table)) : Prop where
  wired : ∀ j desc, table[j]? = some desc → Wired d j desc (shown rs j)
  others : ∀ gpio, gpio ∉ table.map LedDesc.gpio → d.pins gpio = d₀.pins gpio

theorem shown_step (hnodup : (table.map LedDesc.gpio).Nodup) {d₀ d : Driver}
    {rs : List (Demand table)} (h : Shown d₀ d rs) (r : Demand table) :
    Shown d₀ (brighten d r) (rs ++ [r]) := by
  have hr : table[r.1.val]? = some table[r.1] := List.getElem?_eq_getElem r.1.isLt
  have hwired := h.wired r.1 _ hr
  refine ⟨fun j desc hdesc => ?_,fun gpio hgpio => ?_⟩
  · rw [shown_append]
    by_cases hj : r.1.val = j
    · subst hj
      rw [if_pos rfl]
      obtain rfl : table[r.1] = desc := Option.some.inj (hr.symm.trans hdesc)
      exact wired_same hwired r.2
    · rw [if_neg hj]
      have hgpio : desc.gpio ≠ table[r.1].gpio := fun hsame =>
        hj (gpio_inj hnodup hr hdesc hsame.symm)
      exact wired_other (h.wired j desc hdesc) hwired (Ne.symm hj) hgpio r.2
  · have hne : gpio ≠ table[r.1].gpio := fun heq =>
      hgpio (heq ▸ List.mem_map_of_mem (List.getElem_mem r.1.isLt))
    exact (untouched_pin hwired hne r.2).trans (h.others gpio hgpio)

theorem run_shown (hnodup : (table.map LedDesc.gpio).Nodup) {d : Driver}
    (hoff : Configured table table.length d) (rs : List (Demand table)) :
    Shown d (run brighten d rs) rs := by
  induction rs using List.reverseRecOn with
  | nil =>
    refine ⟨fun j desc hdesc => ?_,fun _ _ => rfl⟩
    exact hoff j (List.getElem?_eq_some_iff.mp hdesc).1 desc hdesc
  | append_singleton rs r ih =>
    rw [run_append]
    exact shown_step hnodup ih r

theorem brightness_shown (hnodup : (table.map LedDesc.gpio).Nodup) {outcomes : ℕ → Int32}
    (hzero : ∀ k < table.length, outcomes k = 0) :
    ∃ d, ledsInit table outcomes true (table.length+1) = some (0,d) ∧
      ∀ rs : List (Demand table), Shown d (run brighten d rs) rs := by
  obtain ⟨d,hrun,-⟩ := load_succeeds hzero
  exact ⟨d,hrun,run_shown hnodup (configured_init hrun)⟩

end Driver

theorem brightness_shown_four : ∃ d,
    ledsInit (ledGpios Int32.ofNat) (fun _ => 0) true 5 = some (0,d) ∧
      ∀ rs : List (Demand (ledGpios Int32.ofNat)), Shown d (run brighten d rs) rs :=
  brightness_shown (by decide) fun _ _ => rfl

-- the attribute files of a led; the display has none
def File.led? : File → Option Led
  | .brightness l => some l
  | .trigger l => some l
  | .delayOn l => some l
  | .delayOff l => some l
  | .backlight => none

-- /sys/class/leds/led1 is red, led2 green, led3 blue
def Led.index : Led → ℕ
  | .red => 0
  | .green => 1
  | .blue => 2

def setOn (l : Led) (values : List Int32) (d : Driver) : Driver :=
  run (fun d value => brightnessSet4412 l.index value d) d values

-- led-class.c and the triggers of the kernel: what a write to an attribute does to the driver
structure LedCore where
  store : File → Text → Driver → Driver

structure LedCore.Documented (core : LedCore) : Prop where
  brightness : ∀ l (n : ℕ) t d, n ≤ 255 → t.chars = decimal n ++ ['\n'] →
    core.store (.brightness l) t d = brightnessSet4412 l.index (.ofNat n) d
  -- a led is lit or put out through its brightness_set alone
  own : ∀ (f : File) t d, match f.led? with
    | none => core.store f t d = d
    | some l => ∃ values, core.store f t d = setOn l values d

structure Board where
  files : Files
  driver : Driver

inductive BoardEvent where
  | write (w : Write File)
  | blink (l : Led) (value : Int32)

namespace Board
variable (core : LedCore)

def step (b : Board) : BoardEvent → Board
  | .write w => ⟨put b.files w,core.store w.path w.text b.driver⟩
  | .blink l value => {b with driver := brightnessSet4412 l.index value b.driver}

def Allowed (b : Board) : BoardEvent → Prop
  | .write _ => True
  | .blink l _ => b.files (.trigger l) = Text.string timer

def written : List BoardEvent → List (Write File) :=
  List.filterMap fun
    | .write w => some w
    | .blink _ _ => none

end Board

section Pins
variable (gpm4 : ℕ → Int32)

def Led.desc (l : Led) : LedDesc :=
  match l with
  | .red => ⟨gpm4 0,['l','e','d','1']⟩
  | .green => ⟨gpm4 1,['l','e','d','2']⟩
  | .blue => ⟨gpm4 2,['l','e','d','3']⟩

theorem desc_listed (l : Led) : (ledGpios gpm4)[l.index]? = some (l.desc gpm4) := by
  cases l with
  | red => rfl
  | green => rfl
  | blue => rfl

theorem desc_gpio (l : Led) : (l.desc gpm4).gpio = gpm4 l.index := by
  cases l with
  | red => rfl
  | green => rfl
  | blue => rfl

def Lit (d : Driver) (l : Led) (value : Int32) : Prop := Wired d l.index (l.desc gpm4) value

def Wiring (d : Driver) : Prop := ∀ l, ∃ value, Lit gpm4 d l value

variable {gpm4} (hnodup : ((ledGpios gpm4).map LedDesc.gpio).Nodup)

theorem index_ne {l l' : Led} (h : l ≠ l') : l.index ≠ l'.index := by
  cases l <;> cases l' <;> simp_all [Led.index]

include hnodup

theorem lit_other {d : Driver} {l l' : Led} {value value' : Int32} (h : Lit gpm4 d l value)
    (h' : Lit gpm4 d l' value') (hne : l ≠ l') (v : Int32) :
    Lit gpm4 (brightnessSet4412 l'.index v d) l value := by
  refine wired_other h h' (index_ne hne) (fun hsame => index_ne hne ?_) v
  exact gpio_inj hnodup (desc_listed gpm4 l) (desc_listed gpm4 l') hsame

theorem wiring_set {d : Driver} (h : Wiring gpm4 d) (l : Led) (v : Int32) :
    Wiring gpm4 (brightnessSet4412 l.index v d) := by
  obtain ⟨old,hold⟩ := h l
  intro l'
  by_cases hl : l' = l
  · rw [hl]
    exact ⟨v,wired_same hold v⟩
  · obtain ⟨value,hvalue⟩ := h l'
    exact ⟨value,lit_other hnodup hvalue hold hl v⟩

theorem setOn_wiring {d : Driver} (h : Wiring gpm4 d) (l : Led) (values : List Int32) :
    Wiring gpm4 (setOn l values d) :=
  run_invariant (I := Wiring gpm4) _ (fun _ v h => wiring_set hnodup h l v) h values

theorem setOn_other {d : Driver} (hw : Wiring gpm4 d) {l l' : Led} {value : Int32}
    (h : Lit gpm4 d l value) (hne : l ≠ l') (values : List Int32) :
    Lit gpm4 (setOn l' values d) l value := by
  have hkeep : ∀ d v, Wiring gpm4 d ∧ Lit gpm4 d l value →
      Wiring gpm4 (brightnessSet4412 l'.index v d) ∧
        Lit gpm4 (brightnessSet4412 l'.index v d) l value := by
    intro d v ⟨hw,h⟩
    obtain ⟨old,hold⟩ := hw l'
    exact ⟨wiring_set hnodup hw l' v,lit_other hnodup h hold hne v⟩
  exact (run_invariant (I := fun d => Wiring gpm4 d ∧ Lit gpm4 d l value) _ hkeep ⟨hw,h⟩ values).2

end Pins

namespace Board
variable {core : LedCore}

theorem run_files (b : Board) (es : List BoardEvent) :
    (run (step core) b es).files = run put b.files (written es) := by
  induction es generalizing b with
  | nil => rfl
  | cons e es ih =>
    cases e with
    | write w => exact ih (step core b (.write w))
    | blink l value => exact ih (step core b (.blink l value))

theorem written_append (es es' : List BoardEvent) :
    written (es ++ es') = written es ++ written es' := List.filterMap_append

theorem shared_split {s : LightState} (hflash : s.flashMode = lightFlashNone) (l : Led) :
    ∃ ws v ws', sharedWrites s = ws ++ .int (.brightness l) v :: ws' ∧
      v.toInt = (channel s.color l : ℤ) ∧
      (∀ files, run put files ws (.trigger l) = Text.string noTrigger) ∧
      ∀ w ∈ ws', w.path.led? ≠ some l := by
  rw [sharedWrites,if_neg (not_not.mpr hflash)]
  cases l with
  | red =>
    have hred := shifted_byte s.color (k := 16) (by decide)
    exact ⟨[_,_,_],_,[_,_],rfl,hred,fun _ => rfl,by simp [Write.path,File.led?]⟩
  | green =>
    have hgreen := shifted_byte s.color (k := 8) (by decide)
    exact ⟨[_,_,_,_],_,[_],rfl,hgreen,fun _ => rfl,by simp [Write.path,File.led?]⟩
  | blue => exact ⟨[_,_,_,_,_],_,[],rfl,byte_toInt s.color,fun _ => rfl,by simp⟩

section
variable (hcore : core.Documented) {gpm4 : ℕ → Int32}
  (hnodup : ((ledGpios gpm4).map LedDesc.gpio).Nodup)
include hcore hnodup

theorem store_wiring {d : Driver} (h : Wiring gpm4 d) (f : File) (t : Text) :
    Wiring gpm4 (core.store f t d) := by
  have hown := hcore.own f t d
  cases hf : f.led? with
  | none =>
    rw [hf] at hown
    have hsame : core.store f t d = d := hown
    rw [hsame]
    exact h
  | some l =>
    rw [hf] at hown
    obtain ⟨values,hstore⟩ := hown
    rw [hstore]
    exact setOn_wiring hnodup h l values

theorem step_wiring {b : Board} (h : Wiring gpm4 b.driver) (e : BoardEvent) :
    Wiring gpm4 (step core b e).driver := by
  cases e with
  | write w => exact store_wiring hcore hnodup h w.path w.text
  | blink l value => exact wiring_set hnodup h l value

theorem run_wiring {b : Board} (h : Wiring gpm4 b.driver) (es : List BoardEvent) :
    Wiring gpm4 (run (step core) b es).driver :=
  run_invariant (I := fun b : Board => Wiring gpm4 b.driver) _
    (fun _ e h => step_wiring hcore hnodup h e) h es

theorem store_other {d : Driver} (hw : Wiring gpm4 d) {l : Led} {value : Int32}
    (h : Lit gpm4 d l value) {f : File} (hf : f.led? ≠ some l) (t : Text) :
    Lit gpm4 (core.store f t d) l value := by
  have hown := hcore.own f t d
  cases hled : f.led? with
  | none =>
    rw [hled] at hown
    have hsame : core.store f t d = d := hown
    rw [hsame]
    exact h
  | some l' =>
    rw [hled] at hown hf
    obtain ⟨values,hstore⟩ := hown
    rw [hstore]
    exact setOn_other hnodup hw h (fun heq => hf (congrArg some heq.symm)) values

structure Steady (gpm4 : ℕ → Int32) (l : Led) (value : Int32) (b : Board) : Prop where
  wiring : Wiring gpm4 b.driver
  lit : Lit gpm4 b.driver l value
  trigger : b.files (.trigger l) = Text.string noTrigger

theorem step_steady {b : Board} {l : Led} {value : Int32} (h : Steady gpm4 l value b)
    {e : BoardEvent} (hallowed : Allowed b e) (he : ∀ w ∈ written [e], w.path.led? ≠ some l) :
    Steady gpm4 l value (step core b e) := by
  refine ⟨step_wiring hcore hnodup h.wiring e,?_,?_⟩
  · cases e with
    | write w => exact store_other hcore hnodup h.wiring h.lit (he w List.mem_cons_self) w.text
    | blink l' v =>
      obtain ⟨old,hold⟩ := h.wiring l'
      refine lit_other hnodup h.lit hold (fun heq => ?_) v
      subst heq
      exact timer_ne (hallowed.symm.trans h.trigger)
  · cases e with
    | write w =>
      have hne : File.trigger l ≠ w.path := fun heq =>
        he w List.mem_cons_self (by rw [← heq]; rfl)
      exact (Function.update_of_ne hne _ _).trans h.trigger
    | blink l' v => exact h.trigger

theorem run_steady {b : Board} {l : Led} {value : Int32} (h : Steady gpm4 l value b)
    {es : List BoardEvent} (hallowed : Along (step core) Allowed b es)
    (hes : ∀ w ∈ written es, w.path.led? ≠ some l) :
    Steady gpm4 l value (run (step core) b es) := by
  induction es generalizing b with
  | nil => exact h
  | cons e es ih =>
    have hsplit : written (e :: es) = written [e] ++ written es := List.filterMap_append (l := [e])
    rw [hsplit] at hes
    have hnext := step_steady hcore hnodup h hallowed.1
      fun w hw => hes w (List.mem_append_left _ hw)
    exact ih hnext hallowed.2 fun w hw => hes w (List.mem_append_right _ hw)

theorem shared_steady {b : Board} (hw : Wiring gpm4 b.driver) {s : LightState}
    (hflash : s.flashMode = lightFlashNone) {es : List BoardEvent}
    (hes : written es = sharedWrites s) (hallowed : Along (step core) Allowed b es) (l : Led) :
    Steady gpm4 l (.ofNat (channel s.color l)) (run (step core) b es) := by
  obtain ⟨ws,v,ws',hsplit,hv,htrigger,hafter⟩ := shared_split hflash l
  obtain ⟨es₁,es₂,rfl,hes₁,hes₂⟩ := List.filterMap_eq_append_iff.mp (hes.trans hsplit)
  obtain ⟨qs,e,es₃,rfl,hqs,he,hes₃⟩ := List.filterMap_eq_cons_iff.mp hes₂
  cases e with
  | blink l' u => cases he
  | write w =>
    obtain rfl : w = .int (.brightness l) v := Option.some.inj he
    rw [← List.append_assoc] at hallowed ⊢
    rw [along_append] at hallowed
    rw [run_append,run_cons]
    generalize hbefore : run (step core) b (es₁ ++ qs) = c at hallowed ⊢
    have hwc : Wiring gpm4 c.driver := hbefore ▸ run_wiring hcore hnodup hw _
    have hnone : written (es₁ ++ qs) = ws := by
      have hquiet : written qs = [] := List.filterMap_eq_nil_iff.mpr hqs
      rw [written_append,hquiet,List.append_nil]
      exact hes₁
    have hfile : c.files (.trigger l) = Text.string noTrigger := by
      rw [← hbefore,run_files,hnone,htrigger]
    have hle := Nat.le_of_lt_succ (channel_lt s.color l)
    have hset := hcore.brightness l (channel s.color l) (.int v) c.driver hle (int_chars hv)
    obtain ⟨old,hold⟩ := hwc l
    refine run_steady hcore hnodup ⟨?_,?_,?_⟩ hallowed.2.2 fun w hw => hafter w (hes₃ ▸ hw)
    · exact step_wiring hcore hnodup hwc _
    · change Wired (core.store (.brightness l) (.int v) c.driver) _ _ _
      rw [hset]
      exact wired_same hold _
    · have hne : File.trigger l ≠ .brightness l := File.noConfusion
      have hput : put c.files (.int (.brightness l) v) (.trigger l) = c.files (.trigger l) :=
        Function.update_of_ne hne _ _
      exact hput.trans hfile

structure Calm (gpm4 : ℕ → Int32) (cs : List Call) (b : Board) : Prop where
  wiring : Wiring gpm4 b.driver
  steady : cs.any Call.shared → (due cs).flashMode = lightFlashNone →
    ∀ l, Steady gpm4 l (.ofNat (channel (due cs).color l)) b

theorem call_calm {b : Board} {cs : List Call} (h : Calm gpm4 cs b) (c : Call)
    {es : List BoardEvent} (hes : written es = Failing.asked cs c)
    (hallowed : Along (step core) Allowed b es) :
    Calm gpm4 (cs ++ [c]) (run (step core) b es) := by
  refine ⟨run_wiring hcore hnodup h.wiring es,fun hany hflash l => ?_⟩
  cases c with
  | backlight s =>
    have hold : cs.any Call.shared := by
      rw [List.any_append,Bool.or_eq_true] at hany
      exact hany.resolve_right fun h => absurd h Bool.false_ne_true
    have hdue : due (cs ++ [.backlight s]) = due cs := by
      rw [due,due,latest_append,latest_append]
      rfl
    rw [hdue] at hflash ⊢
    refine run_steady hcore hnodup (h.steady hold hflash l) hallowed fun w hw => ?_
    rw [hes] at hw
    rw [List.mem_singleton.mp hw]
    exact Option.some_ne_none l |>.symm
  | battery s => exact shared_steady hcore hnodup h.wiring hflash hes hallowed l
  | notifications s => exact shared_steady hcore hnodup h.wiring hflash hes hallowed l

end

def askedFrom (pre : List Call) : List Call → List (Write File)
  | [] => []
  | c :: cs => Failing.asked pre c ++ askedFrom (pre ++ [c]) cs

theorem askedFrom_append (pre cs : List Call) (c : Call) :
    askedFrom pre (cs ++ [c]) = askedFrom pre cs ++ Failing.asked (pre ++ cs) c := by
  induction cs generalizing pre with
  | nil => simp [askedFrom]
  | cons d cs ih =>
    rw [List.cons_append,askedFrom,ih,askedFrom,List.append_assoc,List.append_assoc]
    rfl

theorem asked_files {h : Hal} {cs : List Call} (hr : Remembers h cs) (c : Call) :
    (whole setLight h c).files = run put h.files (Failing.asked cs c) := by
  have hn := latest_append Call.notification? cs c
  have hb := latest_append Call.battery? cs c
  cases c with
  | backlight s => rfl
  | battery s =>
    have hdue := handled_due (h := {h with battery := s}) (hr.notification.trans hn.symm) hb.symm
    change ((handleSharedBatteryLocked {h with battery := s}).exec {h with battery := s}).files = _
    rw [hdue,sharedWrites_exec]
    rfl
  | notifications s =>
    have hdue := handled_due (h := {h with notification := s}) hn.symm (hr.battery.trans hb.symm)
    change ((handleSharedBatteryLocked {h with notification := s}).exec
      {h with notification := s}).files = _
    rw [hdue,sharedWrites_exec]
    rfl

theorem calls_files (files : Files) (cs : List Call) :
    (run (whole setLight) (initial files) cs).files = run put files (askedFrom [] cs) := by
  induction cs using List.reverseRecOn with
  | nil => rfl
  | append_singleton cs c ih =>
    have hstep := asked_files (remembers_calls files cs) c
    rw [run_append,askedFrom_append,run_append,← ih]
    exact hstep

theorem calls_calm (hcore : core.Documented) {gpm4 : ℕ → Int32}
    (hnodup : ((ledGpios gpm4).map LedDesc.gpio).Nodup) {b : Board} (hw : Wiring gpm4 b.driver)
    {cs : List Call} {es : List BoardEvent} (hes : written es = askedFrom [] cs)
    (hallowed : Along (step core) Allowed b es) : Calm gpm4 cs (run (step core) b es) := by
  induction cs using List.reverseRecOn generalizing es with
  | nil => exact ⟨run_wiring hcore hnodup hw es,fun hany => absurd hany Bool.false_ne_true⟩
  | append_singleton cs c ih =>
    rw [askedFrom_append] at hes
    obtain ⟨es₁,es₂,rfl,hes₁,hes₂⟩ := List.filterMap_eq_append_iff.mp hes
    rw [along_append] at hallowed
    rw [run_append]
    exact call_calm hcore hnodup (ih hes₁ hallowed.1) c hes₂ hallowed.2

end Board

theorem wiring_init {gpm4 : ℕ → Int32} {outcomes : ℕ → Int32} {fuel : ℕ} {d : Driver}
    (hrun : ledsInit (ledGpios gpm4) outcomes true fuel = some (0,d)) : Wiring gpm4 d := by
  intro l
  have hlisted := desc_listed gpm4 l
  exact ⟨ledOff,configured_init hrun l.index (List.getElem?_eq_some_iff.mp hlisted).1 _ hlisted⟩

theorem pinLevel_ofNat {n : ℕ} (h : n < 2 ^ 8) : pinLevel (.ofNat n) = if n ≠ 0 then 0 else 1 := by
  have hzero : Int32.ofNat n = ledOff ↔ n = 0 := by
    constructor
    · intro heq
      have hint := congrArg Int32.toInt heq
      rw [Int32.toInt_ofNat_of_lt (by omega)] at hint
      exact Int.natCast_eq_zero.mp hint
    · rintro rfl
      rfl
  rw [pinLevel]
  simp only [ne_eq,hzero]

theorem pins_follow_due {core : LedCore} (hcore : core.Documented) {gpm4 : ℕ → Int32}
    (hnodup : ((ledGpios gpm4).map LedDesc.gpio).Nodup) {outcomes : ℕ → Int32}
    (hzero : ∀ k < 4, outcomes k = 0) :
    ∃ d, ledsInit (ledGpios gpm4) outcomes true 5 = some (0,d) ∧ ∀ files cs es,
      Board.written es = Board.askedFrom [] cs →
        Along (Board.step core) Board.Allowed ⟨files,d⟩ es →
          (run (Board.step core) ⟨files,d⟩ es).files =
              (run (whole setLight) (initial files) cs).files ∧
            (cs.any Call.shared → (due cs).flashMode = lightFlashNone → ∀ l : Led,
              (run (Board.step core) ⟨files,d⟩ es).driver.pins (gpm4 l.index) =
                some (if channel (due cs).color l ≠ 0 then 0 else 1)) := by
  obtain ⟨d,hrun,-⟩ := @load_succeeds (ledGpios gpm4) outcomes hzero
  refine ⟨d,hrun,fun files cs es hes hallowed => ⟨?_,fun hany hflash l => ?_⟩⟩
  · rw [Board.run_files,hes,Board.calls_files]
  · have hcalm := Board.calls_calm (b := ⟨files,d⟩) hcore hnodup (wiring_init hrun) hes hallowed
    have hpin := (hcalm.steady hany hflash l).lit.pin
    have hlt := channel_lt (due cs).color l
    rw [desc_gpio] at hpin
    rw [hpin,pinLevel_ofNat hlt]

def digitsRead (cs : List Char) : ℕ :=
  (cs.takeWhile Char.isDigit).foldl (fun n c => 10 * n + (c.toNat - '0'.toNat)) 0

theorem digitsRead_decimal : ∀ n < 256, digitsRead (decimal (n : ℕ) ++ ['\n']) = n := by
  decide +kernel

def plainCore : LedCore where
  store f t d :=
    match f with
    | .brightness l => brightnessSet4412 l.index (.ofNat (digitsRead t.chars)) d
    | _ => d

theorem plainCore_documented : plainCore.Documented where
  brightness l n t d hn ht := by
    simp only [plainCore,ht,digitsRead_decimal n (Nat.lt_succ_of_le hn)]
  own f t d := by
    cases f with
    | brightness l => exact ⟨[_],rfl⟩
    | trigger l => exact ⟨[],rfl⟩
    | delayOn l => exact ⟨[],rfl⟩
    | delayOff l => exact ⟨[],rfl⟩
    | backlight => rfl

theorem along_writes (core : LedCore) (b : Board) (ws : List (Write File)) :
    Along (Board.step core) Board.Allowed b (ws.map .write) := by
  induction ws generalizing b with
  | nil => trivial
  | cons w ws ih => exact ⟨trivial,ih _⟩

def flashing : List Call := [.notifications ⟨0xff0000,1,500,500⟩]
def shining : List Call := flashing ++ [.notifications ⟨0x00ff00,0,0,0⟩]

def shiningEvents : List BoardEvent :=
  (Failing.asked [] (.notifications ⟨0xff0000,1,500,500⟩)).map .write ++
    .blink .red 255 :: (Failing.asked flashing (.notifications ⟨0x00ff00,0,0,0⟩)).map .write

def dark : Files := fun _ => Text.int 0

theorem shining_allowed (d : Driver) :
    Along (Board.step plainCore) Board.Allowed ⟨dark,d⟩ shiningEvents := by
  refine along_append.mpr ⟨along_writes _ _ _,?_,along_writes _ _ _⟩
  rw [Board.Allowed,Board.run_files]
  rfl

theorem pins_follow_due_shining : ∃ d,
    ledsInit (ledGpios Int32.ofNat) (fun _ => 0) true 5 = some (0,d) ∧
      (run (Board.step plainCore) ⟨dark,d⟩ shiningEvents).driver.pins 1 = some 0 ∧
      (run (Board.step plainCore) ⟨dark,d⟩ shiningEvents).driver.pins 0 = some 1 := by
  obtain ⟨d,hrun,hall⟩ := @pins_follow_due plainCore plainCore_documented Int32.ofNat (by decide)
    (fun _ => 0) fun _ _ => rfl
  obtain ⟨-,hpins⟩ := hall dark shining shiningEvents rfl (shining_allowed d)
  exact ⟨d,hrun,hpins rfl rfl .green,hpins rfl rfl .red⟩

end Leds
