import AndroidProjects.Foundation.Mutex
import Mathlib.Data.UInt
import Mathlib.Logic.Function.Basic
import Mathlib.Tactic.Linarith

namespace Leds
open Machine Mutex

-- what snprintf leaves in the char buffer[20] that write_int and write_string hand to write
structure Text where
  chars : List Char
  fits : chars.length < 20
  deriving DecidableEq, Repr

def decimal : Int → List Char
  | .ofNat n => Nat.toDigits 10 n
  | .negSucc n => '-' :: Nat.toDigits 10 (n+1)

theorem digits_length {n : ℕ} (h : n < 10 ^ 10) : (Nat.toDigits 10 n).length ≤ 10 :=
  (Nat.length_toDigits_le_iff (by decide) (by decide)).mpr h

theorem decimal_length (v : Int32) : (decimal v.toInt).length ≤ 11 := by
  have hlt := v.toInt_lt
  have hle := v.le_toInt
  cases hv : v.toInt with
  | ofNat n =>
    have hn : n < 10 ^ 10 := by
      rw [hv,Int.ofNat_eq_natCast] at hlt
      omega
    exact (digits_length hn).trans (Nat.le_succ 10)
  | negSucc n =>
    have hn : n + 1 < 10 ^ 10 := by
      rw [hv] at hle
      omega
    exact Nat.succ_le_succ (digits_length hn)

def Text.int (v : Int32) : Text where
  chars := decimal v.toInt ++ ['\n']
  fits := by
    have h := decimal_length v
    rw [List.length_append,List.length_singleton]
    omega

abbrev Line := {s : List Char // s.length < 19}

def Text.string (s : Line) : Text where
  chars := s.val ++ ['\n']
  fits := by
    have h := s.property
    rw [List.length_append,List.length_singleton]
    omega

inductive Led where
  | red
  | green
  | blue
  deriving DecidableEq, Repr

inductive File where
  | brightness (l : Led)
  | trigger (l : Led)
  | delayOn (l : Led)
  | delayOff (l : Led)
  | backlight
  deriving DecidableEq, Repr

abbrev Files := File → Text

structure LightState where
  color : UInt32
  flashMode : Int32
  flashOnMS : Int32
  flashOffMS : Int32
  deriving DecidableEq, Repr

def zeroed : LightState := ⟨0,0,0,0⟩

-- LIGHT_FLASH_NONE of hardware/lights.h
def lightFlashNone : Int32 := 0

structure Hal where
  notification : LightState
  battery : LightState
  files : Files

def writeInt (path : File) (value : Int32) (h : Hal) : Hal :=
  {h with files := Function.update h.files path (Text.int value)}

def writeString (path : File) (value : Line) (h : Hal) : Hal :=
  {h with files := Function.update h.files path (Text.string value)}

def timer : Line := ⟨['t','i','m','e','r'],by decide⟩
def noTrigger : Line := ⟨['n','o','n','e'],by decide⟩

def isLit (state : LightState) : Bool := state.color &&& 0x00ffffff != 0

def rgbToBrightness (state : LightState) : Int32 :=
  let color := (state.color &&& 0x00ffffff).toInt32
  let r : Int32 := (color >>> 16) &&& 0x00ff
  let g : Int32 := (color >>> 8) &&& 0x00ff
  let b : Int32 := color &&& 0x00ff
  let sum : Int32 := 77 * r + 150 * g + 29 * b
  sum >>> 8

def setLightBacklight (state : LightState) : Code Hal :=
  .acts [writeInt .backlight (rgbToBrightness state / 2)]

def setSharedLightLocked (state : LightState) : Code Hal :=
  let r := ((state.color >>> 16) &&& 0xff).toInt32
  let g := ((state.color >>> 8) &&& 0xff).toInt32
  let b := (state.color &&& 0xff).toInt32
  let delayOn := state.flashOnMS
  let delayOff := state.flashOffMS
  let colors := [writeInt (.brightness .red) r,writeInt (.brightness .green) g,
    writeInt (.brightness .blue) b]
  if state.flashMode ≠ lightFlashNone then
    .acts ([writeString (.trigger .red) timer,writeString (.trigger .green) timer,
      writeString (.trigger .blue) timer,writeInt (.delayOn .red) delayOn,
      writeInt (.delayOn .green) delayOn,writeInt (.delayOn .blue) delayOn,
      writeInt (.delayOff .red) delayOff,writeInt (.delayOff .green) delayOff,
      writeInt (.delayOff .blue) delayOff] ++ colors)
  else
    .acts ([writeString (.trigger .red) noTrigger,writeString (.trigger .green) noTrigger,
      writeString (.trigger .blue) noTrigger] ++ colors)

def handleSharedBatteryLocked (h : Hal) : Code Hal :=
  if isLit h.notification then setSharedLightLocked h.notification
  else setSharedLightLocked h.battery

def setLightBattery (state : LightState) : Code Hal :=
  .act (fun h => {h with battery := state}) handleSharedBatteryLocked

def setLightNotifications (state : LightState) : Code Hal :=
  .act (fun h => {h with notification := state}) handleSharedBatteryLocked

inductive Call where
  | backlight (state : LightState)
  | battery (state : LightState)
  | notifications (state : LightState)
  deriving DecidableEq, Repr

-- what the call does between pthread_mutex_lock and pthread_mutex_unlock of g_lock
def setLight : Call → Code Hal
  | .backlight state => setLightBacklight state
  | .battery state => setLightBattery state
  | .notifications state => setLightNotifications state

def initial (files : Files) : Hal := ⟨zeroed,zeroed,files⟩

def Call.battery? : Call → Option LightState
  | .battery state => some state
  | _ => none

def Call.notification? : Call → Option LightState
  | .notifications state => some state
  | _ => none

def Call.shared (c : Call) : Bool := c.battery?.isSome || c.notification?.isSome

def latest (source : Call → Option LightState) (cs : List Call) : LightState :=
  (cs.filterMap source).getLastD zeroed

def rgb (color : UInt32) : ℕ := color.toNat % 2 ^ 24

def channel (color : UInt32) : Led → ℕ
  | .red => color.toNat / 2 ^ 16 % 2 ^ 8
  | .green => color.toNat / 2 ^ 8 % 2 ^ 8
  | .blue => color.toNat % 2 ^ 8

def due (cs : List Call) : LightState :=
  if rgb (latest Call.notification? cs).color ≠ 0 then latest Call.notification? cs
  else latest Call.battery? cs

structure Shows (files : Files) (s : LightState) : Prop where
  brightness : ∀ l, (files (.brightness l)).chars = decimal (channel s.color l) ++ ['\n']
  trigger : ∀ l, files (.trigger l) =
    if s.flashMode ≠ lightFlashNone then Text.string timer else Text.string noTrigger
  delays : s.flashMode ≠ lightFlashNone →
    ∀ l, files (.delayOn l) = Text.int s.flashOnMS ∧ files (.delayOff l) = Text.int s.flashOffMS

theorem timer_ne : Text.string timer ≠ Text.string noTrigger := by decide

theorem isLit_iff (s : LightState) : isLit s = true ↔ rgb s.color ≠ 0 := by
  have h : (s.color &&& 0x00ffffff).toNat = rgb s.color := Nat.and_two_pow_sub_one_eq_mod _ 24
  rw [isLit,bne_iff_ne,ne_eq,← UInt32.toNat_inj,h]
  rfl

theorem byte_toInt (v : UInt32) : (v &&& 0xff).toInt32.toInt = (v.toNat % 2 ^ 8 : ℕ) := by
  have h : (v &&& 0xff).toNat = v.toNat % 2 ^ 8 := Nat.and_two_pow_sub_one_eq_mod _ 8
  have hlt : 2 * (v &&& 0xff).toBitVec.toNat < 2 ^ 32 := by
    change 2 * (v &&& 0xff).toNat < 2 ^ 32
    omega
  calc (v &&& 0xff).toInt32.toInt
      = (v &&& 0xff).toNat := BitVec.toInt_eq_toNat_of_lt hlt
    _ = (v.toNat % 2 ^ 8 : ℕ) := by rw [h]

theorem shifted_byte (v : UInt32) {k : UInt32} (hk : k.toNat < 32) :
    ((v >>> k) &&& 0xff).toInt32.toInt = (v.toNat / 2 ^ k.toNat % 2 ^ 8 : ℕ) := by
  rw [byte_toInt,UInt32.toNat_shiftRight,Nat.mod_eq_of_lt hk,Nat.shiftRight_eq_div_pow]

@[simp] theorem writeInt_files (path : File) (v : Int32) (h : Hal) :
    (writeInt path v h).files = Function.update h.files path (Text.int v) := rfl

@[simp] theorem writeString_files (path : File) (s : Line) (h : Hal) :
    (writeString path s h).files = Function.update h.files path (Text.string s) := rfl

@[simp] theorem writeInt_sources (path : File) (v : Int32) (h : Hal) :
    (writeInt path v h).notification = h.notification ∧ (writeInt path v h).battery = h.battery :=
  ⟨rfl,rfl⟩

@[simp] theorem writeString_sources (path : File) (s : Line) (h : Hal) :
    (writeString path s h).notification = h.notification ∧
      (writeString path s h).battery = h.battery := ⟨rfl,rfl⟩

theorem int_chars {v : Int32} {n : ℕ} (h : v.toInt = n) :
    (Text.int v).chars = decimal n ++ ['\n'] :=
  congrArg (decimal · ++ ['\n']) h

section Shared
variable (s : LightState) (h : Hal)

theorem shared_brightness (l : Led) :
    (((setSharedLightLocked s).exec h).files (.brightness l)).chars =
      decimal (channel s.color l) ++ ['\n'] := by
  rw [setSharedLightLocked]
  cases l with
  | red =>
    have hred := int_chars (shifted_byte s.color (k := 16) (by decide))
    split_ifs <;> simpa [Code.exec_acts,Function.update,channel] using hred
  | green =>
    have hgreen := int_chars (shifted_byte s.color (k := 8) (by decide))
    split_ifs <;> simpa [Code.exec_acts,Function.update,channel] using hgreen
  | blue =>
    have hblue := int_chars (byte_toInt s.color)
    split_ifs <;> simpa [Code.exec_acts,Function.update,channel] using hblue

theorem shared_trigger (l : Led) : ((setSharedLightLocked s).exec h).files (.trigger l) =
    if s.flashMode ≠ lightFlashNone then Text.string timer else Text.string noTrigger := by
  rw [setSharedLightLocked]
  split_ifs
  · cases l <;> simp [Code.exec_acts,Function.update]
  · cases l <;> simp [Code.exec_acts,Function.update]

theorem shared_delays (hflash : s.flashMode ≠ lightFlashNone) (l : Led) :
    ((setSharedLightLocked s).exec h).files (.delayOn l) = Text.int s.flashOnMS ∧
      ((setSharedLightLocked s).exec h).files (.delayOff l) = Text.int s.flashOffMS := by
  rw [setSharedLightLocked,if_pos hflash]
  cases l <;> simp [Code.exec_acts,Function.update]

theorem shared_shows : Shows ((setSharedLightLocked s).exec h).files s :=
  ⟨shared_brightness s h,shared_trigger s h,shared_delays s h⟩

theorem shared_sources :
    ((setSharedLightLocked s).exec h).notification = h.notification ∧
      ((setSharedLightLocked s).exec h).battery = h.battery := by
  rw [setSharedLightLocked]
  split_ifs
  · simp [Code.exec_acts]
  · simp [Code.exec_acts]

end Shared

structure Remembers (h : Hal) (cs : List Call) : Prop where
  notification : h.notification = latest Call.notification? cs
  battery : h.battery = latest Call.battery? cs
  shows : cs.any Call.shared → Shows h.files (due cs)

theorem handled_due {h : Hal} {cs : List Call} (hn : h.notification = latest Call.notification? cs)
    (hb : h.battery = latest Call.battery? cs) :
    handleSharedBatteryLocked h = setSharedLightLocked (due cs) := by
  have hlit := isLit_iff h.notification
  rw [handleSharedBatteryLocked,due,← hn,← hb]
  by_cases hl : isLit h.notification = true
  · rw [if_pos hl,if_pos (hlit.mp hl)]
  · rw [if_neg hl,if_neg (fun hne => hl (hlit.mpr hne))]

theorem handled_remembers {h : Hal} {cs : List Call}
    (hn : h.notification = latest Call.notification? cs)
    (hb : h.battery = latest Call.battery? cs) :
    Remembers ((handleSharedBatteryLocked h).exec h) cs := by
  rw [handled_due hn hb]
  obtain ⟨hn',hb'⟩ := shared_sources (due cs) h
  exact ⟨hn'.trans hn,hb'.trans hb,fun _ => shared_shows (due cs) h⟩

theorem latest_append (source : Call → Option LightState) (cs : List Call) (c : Call) :
    latest source (cs ++ [c]) = (source c).getD (latest source cs) := by
  rw [latest,List.filterMap_append]
  cases h : source c with
  | none => simp [latest,h]
  | some s => simp [h]

theorem remembers_step {h : Hal} {cs : List Call} (hr : Remembers h cs) (c : Call) :
    Remembers (whole setLight h c) (cs ++ [c]) := by
  have hn := latest_append Call.notification? cs c
  have hb := latest_append Call.battery? cs c
  cases c with
  | backlight s =>
    refine ⟨hr.notification.trans hn.symm,hr.battery.trans hb.symm,fun hany => ?_⟩
    have hold : cs.any Call.shared := by
      rw [List.any_append,Bool.or_eq_true] at hany
      exact hany.resolve_right (fun h => absurd h Bool.false_ne_true)
    have hdue : due (cs ++ [.backlight s]) = due cs := by
      rw [due,due,hn,hb]
      rfl
    obtain ⟨hbright,htrigger,hdelays⟩ := hr.shows hold
    rw [hdue]
    exact ⟨hbright,htrigger,hdelays⟩
  | battery s => exact handled_remembers (hr.notification.trans hn.symm) hb.symm
  | notifications s => exact handled_remembers hn.symm (hr.battery.trans hb.symm)

theorem remembers_calls (files : Files) (cs : List Call) :
    Remembers (run (whole setLight) (initial files) cs) cs := by
  induction cs using List.reverseRecOn with
  | nil => exact ⟨rfl,rfl,fun h => absurd h (by decide)⟩
  | append_singleton cs c ih =>
    rw [run_append]
    exact remembers_step ih c

def visible (files : Files) (l : Led) : Text × Text × Option (Text × Text) :=
  (files (.brightness l),files (.trigger l),
    if files (.trigger l) = Text.string timer
      then some (files (.delayOn l),files (.delayOff l)) else none)

theorem Shows.visible_eq {files files' : Files} {s : LightState} (h : Shows files s)
    (h' : Shows files' s) (l : Led) : visible files l = visible files' l := by
  have hbright : files (.brightness l) = files' (.brightness l) := by
    rw [Text.mk.injEq,h.brightness,h'.brightness]
  have htrigger := (h.trigger l).trans (h'.trigger l).symm
  by_cases hflash : s.flashMode ≠ lightFlashNone
  · obtain ⟨hon,hoff⟩ := h.delays hflash l
    obtain ⟨hon',hoff'⟩ := h'.delays hflash l
    rw [visible,visible,hbright,htrigger,hon,hoff,hon',hoff']
  · have hnone : files' (.trigger l) = Text.string noTrigger := (h'.trigger l).trans (if_neg hflash)
    rw [visible,visible,hbright,htrigger,hnone,if_neg timer_ne.symm,if_neg timer_ne.symm]

def ShowsDue (files : Files) (cs : List Call) : Prop := cs.any Call.shared → Shows files (due cs)

section Interleavings
variable {T : Type} [DecidableEq T]

abbrev served (files : Files) (ls : List (Step T Call)) : Guarded T Call Hal :=
  run (step setLight) (start (initial files)) ls

theorem served_remembers (files : Files) {ls : List (Step T Call)}
    (hfree : Free (served files ls)) :
    Remembers (served files ls).shared (served files ls).entered := by
  have hserial : Serial setLight (initial files) (served files ls) := serial_run setLight _ ls
  rw [shared_of_serial setLight hserial hfree]
  exact remembers_calls files _

def OrderUnseen (g g' : Guarded T Call Hal) : Prop :=
  Free g → Free g' → g.entered.any Call.shared → g'.entered.any Call.shared →
    latest Call.notification? g.entered = latest Call.notification? g'.entered →
      latest Call.battery? g.entered = latest Call.battery? g'.entered →
        ∀ l, visible g.shared.files l = visible g'.shared.files l

theorem order_unseen (files files' : Files) (ls ls' : List (Step T Call)) :
    OrderUnseen (served files ls) (served files' ls') := by
  intro hfree hfree' hany hany' hn hb l
  have hdue : due (served files ls).entered = due (served files' ls').entered := by
    rw [due,due,hn,hb]
  have hshows := (served_remembers files hfree).shows hany
  rw [hdue] at hshows
  exact hshows.visible_eq ((served_remembers files' hfree').shows hany') l

theorem shared_led_shows_due (files files' : Files) (ls ls' : List (Step T Call)) :
    Always (step setLight) (fun g => Free g → ShowsDue g.shared.files g.entered)
        (start (initial files)) ls ∧
      OrderUnseen (served files ls) (served files' ls') := by
  refine ⟨?_,order_unseen files files' ls ls'⟩
  exact always_of_serial (P := fun h cs => ShowsDue h.files cs) setLight
    (fun cs => (remembers_calls files cs).shows) ls

end Interleavings

end Leds
