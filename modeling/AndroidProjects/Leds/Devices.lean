import AndroidProjects.Foundation.Binding
import AndroidProjects.Foundation.Ledger
import AndroidProjects.Leds.Sony

namespace Leds.Devices
open Ledger Machine Mutex

-- undefined: something happened for which POSIX or the C standard promises nothing
structure HalModule (T A P C S : Type*) where
  once : Bool
  memory : Book A
  device : A → Option (P → C)
  waiting : List (T × C)
  guarded : Guarded T C S
  undefined : Bool

inductive Event (T A P : Type*) where
  | opens (name : String) (malloc : Option A)
  | closes (dev : Option A)
  | sets (t : T) (dev : A) (state : P)
  | enters (i : ℕ)
  | acts (t : T)
  | leaves (t : T)

-- EINVAL of asm-generic/errno-base.h
def einval : Int32 := 22

section
variable {T A P C S : Type*} [DecidableEq A]
variable (setLightOf : String → Option (P → C)) (body : C → Code S)

-- pthread_mutex_init is not for a mutex that is held
def initGlobals (m : HalModule T A P C S) : HalModule T A P C S :=
  {m with once := true, undefined := m.undefined || m.guarded.holder.isSome}

def pthreadOnce (m : HalModule T A P C S) : HalModule T A P C S :=
  if m.once then m else initGlobals m

-- nothing is returned where memset gets the null pointer of malloc
def openLights (name : String) (malloc : Option A) (m : HalModule T A P C S) :
    Option Int32 × HalModule T A P C S :=
  match setLightOf name with
  | none => (some (-einval),m)
  | some setLight =>
    let m := pthreadOnce m
    match malloc with
    | none => (none,{m with undefined := true})
    | some dev =>
      (some 0,{m with
        memory := m.memory.take dev
        device := Function.update m.device dev (some setLight)})

def closeLights (dev : Option A) (m : HalModule T A P C S) : Int32 × HalModule T A P C S :=
  match dev with
  | none => (0,m)
  | some dev =>
    (0,{m with memory := m.memory.release dev, device := Function.update m.device dev none})

def call (t : T) (dev : A) (state : P) (m : HalModule T A P C S) : HalModule T A P C S :=
  match m.device dev with
  | none => {m with undefined := true}
  | some setLight => {m with waiting := (t,setLight state) :: m.waiting}

def enter [DecidableEq T] (i : ℕ) (m : HalModule T A P C S) : HalModule T A P C S :=
  match m.waiting[i]? with
  | none => m
  | some (t,c) =>
    if m.guarded.holder.isSome then m
    else
      {m with
        waiting := m.waiting.eraseIdx i
        guarded := Mutex.step body m.guarded (.lock t c)}

def step [DecidableEq T] (m : HalModule T A P C S) (e : Event T A P) : HalModule T A P C S :=
  if m.undefined then m
  else
    match e with
    | .opens name malloc => (openLights setLightOf name malloc m).2
    | .closes dev => (closeLights dev m).2
    | .sets t dev state => call t dev state m
    | .enters i => enter body i m
    | .acts t => {m with guarded := Mutex.step body m.guarded (.act t)}
    | .leaves t => {m with guarded := Mutex.step body m.guarded (.unlock t)}

def loaded (s : S) : HalModule T A P C S := ⟨false,empty,fun _ => none,[],start s,false⟩

def binding : Event T A P → Binding.Event A String
  | .opens name (some dev) => if (setLightOf name).isSome then .bind dev name else .skip
  | .closes (some dev) => .drop dev
  | _ => .skip

-- of a history, the newest event first
def openAs (h : List (Event T A P)) (dev : A) : Option String :=
  Binding.live dev (h.map (binding setLightOf))

def handler (h : List (Event T A P)) (dev : A) : Option (P → C) :=
  (openAs setLightOf h dev).bind setLightOf

def asked : List (Event T A P) → List C
  | [] => []
  | .sets _ dev state :: h => ((handler setLightOf h dev).map fun f => f state).toList ++ asked h
  | _ :: h => asked h

def Allowed (m : HalModule T A P C S) : Event T A P → Prop
  | .opens _ (some dev) => m.device dev = none
  | .closes (some dev) => (m.device dev).isSome
  | .sets _ dev _ => (m.device dev).isSome
  | _ => True

def starved : Event T A P → Prop
  | .opens name none => (setLightOf name).isSome
  | _ => False

structure Sound (s : S) (h : List (Event T A P)) (m : HalModule T A P C S) : Prop where
  defined : m.undefined = false
  astray : m.memory.astray = 0
  nodup : m.memory.things.Nodup
  blocks : ∀ a, a ∈ m.memory.things ↔ (openAs setLightOf h a).isSome
  device : ∀ a, m.device a = handler setLightOf h a
  calls : (m.guarded.entered ++ m.waiting.map Prod.snd).Perm (asked setLightOf h)
  serial : Serial body s m.guarded
  idle : m.once = false → m.guarded.holder = none ∧ m.waiting = [] ∧ ∀ a, m.device a = none

variable {setLightOf body} {s : S} {h : List (Event T A P)} {m : HalModule T A P C S}

theorem sound_loaded (s : S) : Sound setLightOf body s [] (loaded s : HalModule T A P C S) where
  defined := rfl
  astray := rfl
  nodup := List.nodup_nil
  blocks _ := ⟨fun hmem => absurd hmem List.not_mem_nil,fun hsome => nomatch hsome⟩
  device _ := rfl
  calls := .refl []
  serial := serial_start body s
  idle _ := ⟨rfl,rfl,fun _ => rfl⟩

theorem openAs_skip {e : Event T A P} (hskip : binding setLightOf e = .skip) :
    openAs setLightOf (e :: h) = openAs setLightOf h := by
  funext a
  rw [openAs,List.map_cons,hskip,Binding.live_skip,openAs]

theorem openAs_known {a : A} {name : String} (hopen : openAs setLightOf h a = some name) :
    (setLightOf name).isSome := by
  induction h with
  | nil => exact nomatch hopen
  | cons e h ih =>
    match e with
    | .opens n (some dev) =>
      by_cases hn : (setLightOf n).isSome
      · rw [openAs,List.map_cons,binding,if_pos hn,Binding.live_bind] at hopen
        split_ifs at hopen with hdev
        · exact Option.some.inj hopen ▸ hn
        · exact ih hopen
      · have hskip : binding setLightOf (.opens n (some dev) : Event T A P) = .skip := if_neg hn
        rw [openAs_skip hskip] at hopen
        exact ih hopen
    | .closes (some dev) =>
      rw [openAs,List.map_cons,binding,Binding.live_drop] at hopen
      split_ifs at hopen with hdev
      exact ih hopen
    | .opens n none | .closes none | .sets t dev state | .enters i | .acts t | .leaves t =>
      exact ih hopen

theorem handler_isSome (a : A) :
    (handler setLightOf h a).isSome ↔ (openAs setLightOf h a).isSome := by
  rw [handler]
  cases hopen : openAs setLightOf h a with
  | none => rfl
  | some name => simpa using openAs_known hopen

theorem Sound.once (hs : Sound setLightOf body s h m) {a : A} (hdev : (m.device a).isSome) :
    m.once = true := by
  by_contra honce
  have hnone := (hs.idle (Bool.eq_false_of_not_eq_true honce)).2.2 a
  rw [hnone] at hdev
  exact nomatch hdev

theorem pthreadOnce_sound (hs : Sound setLightOf body s h m) :
    pthreadOnce m = {m with once := true} := by
  rw [pthreadOnce]
  split_ifs with honce
  · rw [← honce]
  · have hfree := (hs.idle (Bool.eq_false_of_not_eq_true honce)).1
    rw [initGlobals,hfree,Option.isSome_none,Bool.or_false]

theorem open_sound (hs : Sound setLightOf body s h m) {name : String} {malloc : Option A}
    (hallowed : Allowed m (.opens name malloc : Event T A P))
    (hfed : ¬ starved setLightOf (.opens name malloc : Event T A P)) :
    Sound setLightOf body s (.opens name malloc :: h) (openLights setLightOf name malloc m).2 := by
  rw [openLights]
  cases hname : setLightOf name with
  | none =>
    have hskip : binding setLightOf (.opens name malloc : Event T A P) = .skip := by
      cases malloc with
      | none => rfl
      | some dev => exact if_neg (by rw [hname]; exact Bool.false_ne_true)
    have hopen := openAs_skip (h := h) hskip
    refine ⟨hs.defined,hs.astray,hs.nodup,fun a => ?_,fun a => ?_,hs.calls,hs.serial,hs.idle⟩
    · rw [hopen,hs.blocks]
    · rw [handler,hopen,hs.device,handler]
  | some setLight =>
    cases malloc with
    | none => exact absurd (by rw [starved,hname]; rfl) hfed
    | some dev =>
      have hbind : ∀ a, openAs setLightOf (.opens name (some dev) :: h) a =
          if dev = a then some name else openAs setLightOf h a := by
        intro a
        rw [openAs,List.map_cons,binding,if_pos (by rw [hname]; rfl),Binding.live_bind,openAs]
      have hfresh : dev ∉ m.memory.things := by
        rw [hs.blocks,← handler_isSome,← hs.device,hallowed]
        exact Bool.false_ne_true
      dsimp only
      rw [pthreadOnce_sound hs]
      refine ⟨hs.defined,hs.astray,List.nodup_cons.mpr ⟨hfresh,hs.nodup⟩,fun a => ?_,fun a => ?_,
        hs.calls,hs.serial,fun honce => nomatch honce⟩
      · rw [hbind,Book.take,List.mem_cons,hs.blocks]
        by_cases ha : dev = a
        · simp [ha]
        · simp [ha,Ne.symm ha]
      · rw [handler,hbind]
        dsimp only
        by_cases ha : dev = a
        · rw [← ha,Function.update_self,if_pos rfl,Option.bind_some,hname]
        · rw [Function.update_of_ne (Ne.symm ha),if_neg ha,hs.device,handler]

theorem close_sound (hs : Sound setLightOf body s h m) {dev : Option A}
    (hallowed : Allowed m (.closes dev : Event T A P)) :
    Sound setLightOf body s (.closes dev :: h) (closeLights dev m).2 := by
  cases dev with
  | none => exact ⟨hs.defined,hs.astray,hs.nodup,hs.blocks,hs.device,hs.calls,hs.serial,hs.idle⟩
  | some dev =>
    have hdrop : ∀ a, openAs setLightOf (.closes (some dev) :: h) a =
        if dev = a then none else openAs setLightOf h a := by
      intro a
      rw [openAs,List.map_cons,binding,Binding.live_drop,openAs]
    have hlive : dev ∈ m.memory.things := by
      rw [hs.blocks,← handler_isSome,← hs.device]
      exact hallowed
    rw [closeLights]
    have hrelease : m.memory.release dev = {m.memory with things := m.memory.things.erase dev} :=
      if_pos hlive
    dsimp only
    rw [hrelease]
    refine ⟨hs.defined,hs.astray,hs.nodup.erase dev,fun a => ?_,fun a => ?_,hs.calls,hs.serial,
      fun honce => absurd (hs.once hallowed) (by rw [honce]; exact Bool.false_ne_true)⟩
    · rw [hdrop,hs.nodup.mem_erase_iff,hs.blocks]
      by_cases ha : dev = a
      · simp [ha]
      · simp [ha,Ne.symm ha]
    · rw [handler,hdrop]
      dsimp only
      by_cases ha : dev = a
      · rw [← ha,Function.update_self,if_pos rfl]
        rfl
      · rw [Function.update_of_ne (Ne.symm ha),if_neg ha,hs.device,handler]

theorem call_sound (hs : Sound setLightOf body s h m) {t : T} {dev : A} {state : P}
    (hallowed : Allowed m (.sets t dev state : Event T A P)) :
    Sound setLightOf body s (.sets t dev state :: h) (call t dev state m) := by
  obtain ⟨setLight,hdev⟩ := Option.isSome_iff_exists.mp hallowed
  have hask : asked setLightOf (.sets t dev state :: h) = setLight state :: asked setLightOf h := by
    rw [asked,← hs.device,hdev]
    rfl
  rw [call,hdev]
  refine ⟨hs.defined,hs.astray,hs.nodup,hs.blocks,hs.device,?_,hs.serial,
    fun honce => absurd (hs.once hallowed) (by rw [honce]; exact Bool.false_ne_true)⟩
  rw [hask,List.map_cons]
  exact List.perm_middle.trans (hs.calls.cons _)

variable [DecidableEq T]

theorem enter_sound (hs : Sound setLightOf body s h m) (i : ℕ) :
    Sound setLightOf body s (.enters i :: h) (enter body i m) := by
  have hkept : Sound setLightOf body s (.enters i :: h) m :=
    ⟨hs.defined,hs.astray,hs.nodup,hs.blocks,hs.device,hs.calls,hs.serial,hs.idle⟩
  rw [enter]
  cases hi : m.waiting[i]? with
  | none => exact hkept
  | some tc =>
    obtain ⟨t,c⟩ := tc
    dsimp only
    split_ifs with hheld
    · exact hkept
    · obtain ⟨hlt,hget⟩ := List.getElem?_eq_some_iff.mp hi
      have hfree : m.guarded.holder = none := Option.not_isSome_iff_eq_none.mp hheld
      have hentered : (Mutex.step body m.guarded (.lock t c)).entered =
          m.guarded.entered ++ [c] := by
        rw [Mutex.step,hfree]
      have hperm := (List.getElem_cons_eraseIdx_perm hlt).map Prod.snd
      rw [hget,List.map_cons] at hperm
      refine ⟨hs.defined,hs.astray,hs.nodup,hs.blocks,hs.device,?_,serial_step body hs.serial _,
        fun honce => ?_⟩
      · rw [hentered,List.append_assoc]
        exact (hperm.append_left _).trans hs.calls
      · rw [(hs.idle honce).2.1] at hlt
        exact absurd hlt (Nat.not_lt_zero i)

theorem inside_sound (hs : Sound setLightOf body s h m) {e : Event T A P}
    (hopen : openAs setLightOf (e :: h) = openAs setLightOf h)
    (hask : asked setLightOf (e :: h) = asked setLightOf h) {l : Step T C}
    (hentered : (Mutex.step body m.guarded l).entered = m.guarded.entered)
    (hfree : m.guarded.holder = none → (Mutex.step body m.guarded l).holder = none) :
    Sound setLightOf body s (e :: h) {m with guarded := Mutex.step body m.guarded l} where
  defined := hs.defined
  astray := hs.astray
  nodup := hs.nodup
  blocks a := by rw [hopen,hs.blocks]
  device a := by rw [handler,hopen,hs.device,handler]
  calls := by
    rw [hask,hentered]
    exact hs.calls
  serial := serial_step body hs.serial l
  idle honce := (hs.idle honce).imp_left hfree

theorem act_kept (g : Guarded T C S) (t : T) :
    (Mutex.step body g (.act t)).entered = g.entered ∧
      (g.holder = none → (Mutex.step body g (.act t)).holder = none) := by
  rw [Mutex.step]
  cases hg : g.holder with
  | none => exact ⟨rfl,fun _ => hg⟩
  | some held =>
    refine ⟨?_,nofun⟩
    match held with
    | (u,.done) => rfl
    | (u,.act f next) =>
      dsimp only
      split_ifs
      · rfl
      · rfl

theorem unlock_kept (g : Guarded T C S) (t : T) :
    (Mutex.step body g (.unlock t)).entered = g.entered ∧
      (g.holder = none → (Mutex.step body g (.unlock t)).holder = none) := by
  rw [Mutex.step]
  cases hg : g.holder with
  | none => exact ⟨rfl,fun _ => hg⟩
  | some held =>
    refine ⟨?_,nofun⟩
    match held with
    | (u,.act f next) => rfl
    | (u,.done) =>
      dsimp only
      split_ifs
      · rfl
      · rfl

theorem step_sound (hs : Sound setLightOf body s h m) {e : Event T A P} (hallowed : Allowed m e)
    (hfed : ¬ starved setLightOf e) :
    Sound setLightOf body s (e :: h) (step setLightOf body m e) := by
  rw [step.eq_def,if_neg (by rw [hs.defined]; exact Bool.false_ne_true)]
  cases e with
  | opens name malloc => exact open_sound hs hallowed hfed
  | closes dev => exact close_sound hs hallowed
  | sets t dev state => exact call_sound hs hallowed
  | enters i => exact enter_sound hs i
  | acts t =>
    obtain ⟨hentered,hfree⟩ := act_kept m.guarded t
    exact inside_sound hs rfl rfl hentered hfree
  | leaves t =>
    obtain ⟨hentered,hfree⟩ := unlock_kept m.guarded t
    exact inside_sound hs rfl rfl hentered hfree

theorem step_starved (hs : Sound setLightOf body s h m) {e : Event T A P}
    (hstarved : starved setLightOf e) : (step setLightOf body m e).undefined = true := by
  match e with
  | .opens name none =>
    obtain ⟨setLight,hname⟩ := Option.isSome_iff_exists.mp hstarved
    rw [step,if_neg (by rw [hs.defined]; exact Bool.false_ne_true),openLights,hname]

theorem run_sound (hs : Sound setLightOf body s h m) {es : List (Event T A P)}
    (hobeys : Along (step setLightOf body) Allowed m es) :
    ((run (step setLightOf body) m es).undefined = true ↔ ∃ e ∈ es, starved setLightOf e) ∧
      ((run (step setLightOf body) m es).undefined = false →
        Sound setLightOf body s (es.reverse ++ h) (run (step setLightOf body) m es)) := by
  induction es generalizing m h with
  | nil =>
    refine ⟨⟨fun hu => ?_,fun ⟨e,he,_⟩ => absurd he List.not_mem_nil⟩,fun _ => hs⟩
    exact absurd (hu.symm.trans hs.defined) Bool.noConfusion
  | cons e es ih =>
    rw [run_cons]
    by_cases hstarved : starved setLightOf e
    · have hu := step_starved hs hstarved
      have hstays : ∀ l, step setLightOf body (step setLightOf body m e) l =
          step setLightOf body m e := fun l => by rw [step.eq_def,if_pos hu]
      rw [run_fixed _ hstays es]
      exact ⟨⟨fun _ => ⟨e,List.mem_cons_self,hstarved⟩,fun _ => hu⟩,
        fun hd => absurd (hu.symm.trans hd) Bool.noConfusion⟩
    · obtain ⟨hallowed,hrest⟩ := hobeys
      obtain ⟨hiff,hsound⟩ := ih (step_sound hs hallowed hstarved) hrest
      refine ⟨hiff.trans ?_,fun hd => ?_⟩
      · simp [hstarved]
      · rw [List.reverse_cons,List.append_assoc,List.singleton_append]
        exact hsound hd

theorem loaded_sound (s : S) {es : List (Event T A P)}
    (hobeys : Along (step setLightOf body) Allowed (loaded s) es) :
    ((run (step setLightOf body) (loaded s) es).undefined = true ↔ ∃ e ∈ es, starved setLightOf e) ∧
      ((run (step setLightOf body) (loaded s) es).undefined = false →
        Sound setLightOf body s es.reverse (run (step setLightOf body) (loaded s) es)) := by
  have hrun := run_sound (sound_loaded s) hobeys
  rwa [List.append_nil] at hrun

end

def lights (name : String) : Option (LightState → Call) :=
  if name = "backlight" then some .backlight
  else if name = "battery" then some .battery
  else if name = "notifications" then some .notifications
  else none

def sonyLights (name : String) : Option (Sony.State → Sony.Request) :=
  if name = "backlight" then some .backlight
  else if name = "buttons" then some .buttons
  else if name = "battery" then some .battery
  else if name = "notifications" then some .notifications
  else none

section
variable {T A : Type} [DecidableEq T] [DecidableEq A]

theorem sony_opened (files : Sony.Path → Text) (es : List (Event T A Sony.State))
    (hobeys : Along (step sonyLights Sony.setLight) Allowed (loaded (Sony.initial files)) es) :
    let m := run (step sonyLights Sony.setLight) (loaded (Sony.initial files)) es
    (m.undefined = true ↔ ∃ e ∈ es, starved sonyLights e) ∧
    (m.undefined = false → Sound sonyLights Sony.setLight (Sony.initial files) es.reverse m ∧
      (Free m.guarded → Sony.Agrees m.guarded.entered m.guarded.shared
        (run (whole setLight) (initial fun f => files (.common f))
          (Sony.calls m.guarded.entered)))) := by
  intro m
  obtain ⟨hiff,hsound⟩ := loaded_sound (Sony.initial files) hobeys
  refine ⟨hiff,fun hdefined => ⟨hsound hdefined,fun hfree => ?_⟩⟩
  rw [shared_of_serial Sony.setLight (hsound hdefined).serial hfree]
  exact Sony.run_agrees files m.guarded.entered

end

end Leds.Devices
