import AndroidProjects.Leds.Writes

namespace Leds
open Machine Mutex

def sharedWrites (state : LightState) : List (Write File) :=
  let r := ((state.color >>> 16) &&& 0xff).toInt32
  let g := ((state.color >>> 8) &&& 0xff).toInt32
  let b := (state.color &&& 0xff).toInt32
  let delayOn := state.flashOnMS
  let delayOff := state.flashOffMS
  let colors := [.int (.brightness .red) r,.int (.brightness .green) g,.int (.brightness .blue) b]
  if state.flashMode ≠ lightFlashNone then
    [.string (.trigger .red) timer,.string (.trigger .green) timer,.string (.trigger .blue) timer,
      .int (.delayOn .red) delayOn,.int (.delayOn .green) delayOn,.int (.delayOn .blue) delayOn,
      .int (.delayOff .red) delayOff,.int (.delayOff .green) delayOff,
      .int (.delayOff .blue) delayOff] ++ colors
  else
    [.string (.trigger .red) noTrigger,.string (.trigger .green) noTrigger,
      .string (.trigger .blue) noTrigger] ++ colors

theorem channel_lt (color : UInt32) (l : Led) : channel color l < 2 ^ 8 := by
  cases l with
  | red => exact Nat.mod_lt _ (by decide)
  | green => exact Nat.mod_lt _ (by decide)
  | blue => exact Nat.mod_lt _ (by decide)

theorem sharedWrites_exec (s : LightState) (h : Hal) :
    ((setSharedLightLocked s).exec h).files = run put h.files (sharedWrites s) := by
  rw [setSharedLightLocked,sharedWrites]
  split_ifs
  · rfl
  · rfl

theorem sharedWrites_shows (s : LightState) (files : Files) :
    Shows (run put files (sharedWrites s)) s := by
  have hshows := shared_shows s ⟨zeroed,zeroed,files⟩
  rw [sharedWrites_exec] at hshows
  exact hshows

structure Failing where
  notification : LightState
  battery : LightState
  dev : Tried File

namespace Failing
variable (outcome : ℕ → Outcome)

def attempt (h : Failing) : Write File → Failing
  | .int path value => {h with dev := (tryWriteInt outcome path value h.dev).2}
  | .string path value => {h with dev := (tryWriteString outcome path value h.dev).2}

theorem attempt_eq (h : Failing) (w : Write File) :
    attempt outcome h w = {h with dev := (tryWrite outcome w h.dev).2} := by
  cases w with
  | int path value => rfl
  | string path value => rfl

def setLightBacklight (state : LightState) : Code Failing :=
  .acts [fun h => attempt outcome h (.int .backlight (rgbToBrightness state / 2))]

def setSharedLightLocked (state : LightState) : Code Failing :=
  .acts ((sharedWrites state).map fun w h => attempt outcome h w)

def handleSharedBatteryLocked (h : Failing) : Code Failing :=
  if isLit h.notification then setSharedLightLocked outcome h.notification
  else setSharedLightLocked outcome h.battery

def setLightBattery (state : LightState) : Code Failing :=
  .act (fun h => {h with battery := state}) (handleSharedBatteryLocked outcome)

def setLightNotifications (state : LightState) : Code Failing :=
  .act (fun h => {h with notification := state}) (handleSharedBatteryLocked outcome)

def setLight : Call → Code Failing
  | .backlight state => setLightBacklight outcome state
  | .battery state => setLightBattery outcome state
  | .notifications state => setLightNotifications outcome state

def initial (files : Files) : Failing := ⟨zeroed,zeroed,started files⟩

def asked (cs : List Call) : Call → List (Write File)
  | .backlight state => [.int .backlight (rgbToBrightness state / 2)]
  | .battery state => sharedWrites (due (cs ++ [.battery state]))
  | .notifications state => sharedWrites (due (cs ++ [.notifications state]))

def after (files : Files) (cs : List Call) : Failing :=
  run (whole (setLight outcome)) (initial files) cs

structure Sound (files : Files) (h : Failing) (cs : List Call) : Prop where
  notification : h.notification = latest Call.notification? cs
  battery : h.battery = latest Call.battery? cs
  warns : Warns h.dev
  texts : ∀ f, h.dev.files f = files f ∨ ∃ cs' c, cs' ++ [c] <+: cs ∧
    ∃ w ∈ asked cs' c, w.path = f ∧ h.dev.files f = w.text

def Heals (files : Files) (h : Failing) (cs : List Call) : Prop :=
  ∀ cs' c bs, cs = cs' ++ c :: bs → c.shared = true → bs.any Call.shared = false →
    AllWritten outcome (after outcome files cs').dev.tries
      (after outcome files (cs' ++ [c])).dev.tries → Shows h.dev.files (due cs)

theorem exec_attempts (ws : List (Write File)) (h : Failing) :
    (Code.acts (ws.map fun w h => attempt outcome h w)).exec h =
      {h with dev := writes outcome h.dev ws} := by
  induction ws generalizing h with
  | nil => rfl
  | cons w ws ih =>
    have hrest := ih (attempt outcome h w)
    rw [attempt_eq] at hrest
    rw [List.map_cons,Code.acts,Code.exec,attempt_eq]
    exact hrest

theorem handled_asked {h : Failing} {cs : List Call}
    (hn : h.notification = latest Call.notification? cs)
    (hb : h.battery = latest Call.battery? cs) :
    handleSharedBatteryLocked outcome h = setSharedLightLocked outcome (due cs) := by
  have hlit := isLit_iff h.notification
  rw [handleSharedBatteryLocked,due,← hn,← hb]
  by_cases hl : isLit h.notification = true
  · rw [if_pos hl,if_pos (hlit.mp hl)]
  · rw [if_neg hl,if_neg fun hne => hl (hlit.mpr hne)]

theorem whole_asked {h : Failing} {cs : List Call}
    (hn : h.notification = latest Call.notification? cs)
    (hb : h.battery = latest Call.battery? cs) (c : Call) :
    whole (setLight outcome) h c = ⟨latest Call.notification? (cs ++ [c]),
      latest Call.battery? (cs ++ [c]),writes outcome h.dev (asked cs c)⟩ := by
  have hn' := latest_append Call.notification? cs c
  have hb' := latest_append Call.battery? cs c
  cases c with
  | backlight s =>
    rw [hn',hb']
    change (⟨h.notification,h.battery,_⟩ : Failing) = ⟨latest _ cs,latest _ cs,_⟩
    rw [hn,hb]
    rfl
  | battery s =>
    change (handleSharedBatteryLocked outcome {h with battery := s}).exec {h with battery := s} = _
    rw [handled_asked outcome (h := {h with battery := s}) (hn.trans hn'.symm) hb'.symm,
      setSharedLightLocked,exec_attempts,hn',hb',hn]
    rfl
  | notifications s =>
    change (handleSharedBatteryLocked outcome {h with notification := s}).exec
      {h with notification := s} = _
    rw [handled_asked outcome (h := {h with notification := s}) hn'.symm (hb.trans hb'.symm),
      setSharedLightLocked,exec_attempts,hn',hb',hb]
    rfl

theorem sound_initial (files : Files) : Sound files (initial files) [] where
  notification := rfl
  battery := rfl
  warns _ := ⟨rfl,rfl⟩
  texts _ := .inl rfl

theorem sound_step {files : Files} {h : Failing} {cs : List Call} (hs : Sound files h cs)
    (c : Call) : Sound files (whole (setLight outcome) h c) (cs ++ [c]) := by
  rw [whole_asked outcome hs.notification hs.battery]
  refine ⟨rfl,rfl,writes_warns outcome hs.warns (asked cs c),fun f => ?_⟩
  rcases writes_files outcome h.dev (asked cs c) f with hkept | hnew
  · rcases hs.texts f with hinit | ⟨cs',d,hpre,w,hw,hpath,htext⟩
    · exact .inl (hkept.trans hinit)
    · exact .inr ⟨cs',d,hpre.trans (List.prefix_append cs [c]),w,hw,hpath,hkept.trans htext⟩
  · exact .inr ⟨cs,c,List.prefix_rfl,hnew⟩

theorem after_append (files : Files) (cs : List Call) (c : Call) :
    after outcome files (cs ++ [c]) = whole (setLight outcome) (after outcome files cs) c :=
  run_append _ _ cs [c]

theorem after_sound (files : Files) (cs : List Call) : Sound files (after outcome files cs) cs := by
  induction cs using List.reverseRecOn with
  | nil => exact sound_initial files
  | append_singleton cs c ih =>
    rw [after_append]
    exact sound_step outcome ih c

theorem after_asked (files : Files) (cs : List Call) (c : Call) :
    (after outcome files (cs ++ [c])).dev =
    writes outcome (after outcome files cs).dev (asked cs c) := by
  have hs := after_sound outcome files cs
  rw [after_append,whole_asked outcome hs.notification hs.battery]

theorem asked_shows {c : Call} (hc : c.shared = true) (cs : List Call) (files : Files) :
    Shows (run put files (asked cs c)) (due (cs ++ [c])) := by
  cases c with
  | backlight s => cases hc
  | battery s => exact sharedWrites_shows _ files
  | notifications s => exact sharedWrites_shows _ files

theorem backlight_shows {files : Files} {cs : List Call} {c : Call} (hc : c.shared = false)
    (h : Shows (after outcome files cs).dev.files (due cs)) :
    Shows (after outcome files (cs ++ [c])).dev.files (due (cs ++ [c])) := by
  cases c with
  | battery s => cases hc
  | notifications s => cases hc
  | backlight s =>
    have hdue : due (cs ++ [.backlight s]) = due cs := by
      rw [due,due,latest_append,latest_append]
      rfl
    have hkept : ∀ f, f ≠ .backlight → (after outcome files (cs ++ [.backlight s])).dev.files f =
        (after outcome files cs).dev.files f := by
      intro f hf
      rw [after_asked]
      rcases writes_files outcome (after outcome files cs).dev (asked cs (.backlight s)) f with
        hkept | ⟨w,hw,hpath,-⟩
      · exact hkept
      · rw [List.mem_singleton.mp hw] at hpath
        exact absurd hpath.symm hf
    rw [hdue]
    refine ⟨fun l => ?_,fun l => ?_,fun hflash l => ?_⟩
    · rw [hkept _ File.noConfusion,h.brightness]
    · rw [hkept _ File.noConfusion,h.trigger]
    · rw [hkept _ File.noConfusion,hkept _ File.noConfusion]
      exact h.delays hflash l

theorem after_heals (files : Files) (cs : List Call) :
    Heals outcome files (after outcome files cs) cs := by
  intro cs' c bs hcs hc hbs hwritten
  subst hcs
  induction bs using List.reverseRecOn with
  | nil =>
    have htries := congrArg Tried.tries (after_asked outcome files cs' c)
    rw [writes_tries] at htries
    rw [htries] at hwritten
    rw [after_asked,writes_written outcome hwritten]
    exact asked_shows hc cs' _
  | append_singleton bs b ih =>
    rw [List.any_append,Bool.or_eq_false_iff] at hbs
    have hb : b.shared = false := by simpa using hbs.2
    have hsplit : cs' ++ c :: (bs ++ [b]) = (cs' ++ c :: bs) ++ [b] := by simp
    rw [hsplit]
    exact backlight_shows outcome hb (ih hbs.1)

section Interleavings
variable {T : Type} [DecidableEq T]

theorem failures_heal (files : Files) (ls : List (Step T Call)) :
    Always (step (setLight outcome)) (fun g => Free g →
      Sound files g.shared g.entered ∧ Heals outcome files g.shared g.entered)
      (start (initial files)) ls :=
  always_of_serial (P := fun h cs => Sound files h cs ∧ Heals outcome files h cs) (setLight outcome)
    (fun cs => ⟨after_sound outcome files cs,after_heals outcome files cs⟩) ls

end Interleavings

end Failing

end Leds
