import AndroidProjects.Leds.Lights

namespace Leds
open Machine

-- the two functions that open a file, each with an already_warned of its own
inductive Writer where
  | writeInt
  | writeString
  deriving DecidableEq, Repr

inductive Write (P : Type) where
  | int (path : P) (value : Int32)
  | string (path : P) (value : Line)
  deriving DecidableEq

inductive Outcome where
  | notOpened (errno : Int32)
  | notWritten (errno : Int32)
  | written
  deriving DecidableEq, Repr

structure Tried (P : Type) where
  files : P → Text
  tries : ℕ
  alreadyWarned : Writer → Bool
  log : List (Writer × P)
  -- every open that failed, whether it was logged or not
  failed : List (Writer × P)

section
variable {P : Type}

namespace Write

def writer : Write P → Writer
  | int _ _ => .writeInt
  | string _ _ => .writeString

def path : Write P → P
  | int path _ => path
  | string path _ => path

def text : Write P → Text
  | int _ value => .int value
  | string _ value => .string value

end Write

variable [DecidableEq P]

def put (files : P → Text) (w : Write P) : P → Text := Function.update files w.path w.text

theorem put_kept (files : P → Text) {ws : List (Write P)} {f : P} (h : ∀ w ∈ ws, f ≠ w.path) :
    run put files ws f = files f := by
  induction ws generalizing files with
  | nil => rfl
  | cons w ws ih =>
    have hrest := ih (put files w) fun v hv => h v (List.mem_cons_of_mem w hv)
    rw [run_cons,hrest,put,Function.update_of_ne (h w List.mem_cons_self)]

theorem put_congr {files files' : P → Text} {f : P} (h : files f = files' f) (ws : List (Write P)) :
    run put files ws f = run put files' ws f := by
  induction ws generalizing files files' with
  | nil => exact h
  | cons w ws ih =>
    refine ih ?_
    by_cases hf : f = w.path
    · rw [put,put,hf,Function.update_self,Function.update_self]
    · rw [put,put,Function.update_of_ne hf,Function.update_of_ne hf,h]

def warn (k : Writer) (path : P) (s : Tried P) : Tried P :=
  if s.alreadyWarned k = false then
    {s with log := s.log ++ [(k,path)], alreadyWarned := Function.update s.alreadyWarned k true}
  else s

-- the common body of write_int and write_string, with what it returns
def tryWrite (outcome : ℕ → Outcome) (w : Write P) (s : Tried P) : Int32 × Tried P :=
  match outcome s.tries with
  | .notOpened errno =>
    (-errno,warn w.writer w.path
      {s with tries := s.tries + 1, failed := s.failed ++ [(w.writer,w.path)]})
  | .notWritten errno => (-errno,{s with tries := s.tries + 1})
  | .written => (0,{s with tries := s.tries + 1, files := put s.files w})

def tryWriteInt (outcome : ℕ → Outcome) (path : P) (value : Int32) : Tried P → Int32 × Tried P :=
  tryWrite outcome (.int path value)

def tryWriteString (outcome : ℕ → Outcome) (path : P) (value : Line) : Tried P → Int32 × Tried P :=
  tryWrite outcome (.string path value)

def started (files : P → Text) : Tried P := ⟨files,0,fun _ => false,[],[]⟩

omit [DecidableEq P] in
theorem warn_same (k : Writer) (path : P) (s : Tried P) :
    (warn k path s).files = s.files ∧ (warn k path s).tries = s.tries := by
  rw [warn]
  split_ifs
  · exact ⟨rfl,rfl⟩
  · exact ⟨rfl,rfl⟩

def firstOf (k : Writer) (es : List (Writer × P)) : Option (Writer × P) := es.find? fun e => e.1 = k

def Warns (s : Tried P) : Prop :=
  ∀ k, s.log.filter (fun e => e.1 = k) = (firstOf k s.failed).toList ∧
  s.alreadyWarned k = (firstOf k s.failed).isSome

omit [DecidableEq P] in
theorem firstOf_append (j k : Writer) (path : P) (es : List (Writer × P)) :
    firstOf j (es ++ [(k,path)]) = (firstOf j es).or (if k = j then some (k,path) else none) := by
  rw [firstOf,List.find?_append]
  by_cases hk : k = j
  · simp [firstOf,hk]
  · simp [firstOf,hk]

omit [DecidableEq P] in
theorem warn_warns {k : Writer} (path : P) {s t : Tried P} (h : Warns s) (hlog : t.log = s.log)
    (hwarned : t.alreadyWarned = s.alreadyWarned) (hfailed : t.failed = s.failed ++ [(k,path)]) :
    Warns (warn k path t) := by
  intro j
  obtain ⟨hlogged,hsome⟩ := h j
  have hnow := firstOf_append j k path s.failed
  rw [warn,hwarned,hlog]
  by_cases hk : k = j
  · subst hk
    cases hf : firstOf k s.failed with
    | none =>
      rw [hf] at hlogged hsome hnow
      have hnew : s.alreadyWarned k = false := hsome
      rw [if_pos hnew,hfailed,hnow,List.filter_append,hlogged]
      simp
    | some e =>
      rw [hf] at hlogged hsome hnow
      have hold : ¬ s.alreadyWarned k = false := by simp [hsome]
      rw [if_neg hold,hfailed,hnow,hlog,hwarned]
      exact ⟨hlogged,hsome⟩
  · rw [if_neg hk,Option.or_none] at hnow
    split_ifs
    · rw [hfailed,hnow,List.filter_append,hlogged]
      refine ⟨by simp [hk],?_⟩
      rw [← hsome]
      exact Function.update_of_ne (Ne.symm hk) _ _
    · rw [hfailed,hnow,hlog,hwarned]
      exact ⟨hlogged,hsome⟩

section
variable (outcome : ℕ → Outcome)

-- no caller looks at what write_int and write_string return
def writes (s : Tried P) (ws : List (Write P)) : Tried P :=
  run (fun s w => (tryWrite outcome w s).2) s ws

def AllWritten (m n : ℕ) : Prop := ∀ i, m ≤ i → i < n → outcome i = .written

theorem tryWrite_tries (w : Write P) (s : Tried P) :
    (tryWrite outcome w s).2.tries = s.tries + 1 := by
  rw [tryWrite]
  split
  · exact (warn_same _ _ _).2
  · rfl
  · rfl

theorem tryWrite_files (w : Write P) (s : Tried P) :
    (tryWrite outcome w s).2.files = s.files ∨ (tryWrite outcome w s).2.files = put s.files w := by
  rw [tryWrite]
  split
  · exact .inl (warn_same _ _ _).1
  · exact .inl rfl
  · exact .inr rfl

theorem tryWrite_written {w : Write P} {s : Tried P} (h : outcome s.tries = .written) :
    (tryWrite outcome w s).2.files = put s.files w := by
  rw [tryWrite,h]

theorem tryWrite_warns (w : Write P) {s : Tried P} (h : Warns s) :
    Warns (tryWrite outcome w s).2 := by
  rw [tryWrite]
  split
  · exact warn_warns w.path h rfl rfl rfl
  · exact h
  · exact h

theorem writes_tries (s : Tried P) (ws : List (Write P)) :
    (writes outcome s ws).tries = s.tries + ws.length := by
  induction ws generalizing s with
  | nil => rfl
  | cons w ws ih =>
    have hrest := ih (tryWrite outcome w s).2
    rw [tryWrite_tries] at hrest
    rw [List.length_cons]
    exact hrest.trans (by omega)

theorem writes_warns {s : Tried P} (h : Warns s) (ws : List (Write P)) :
    Warns (writes outcome s ws) :=
  run_invariant (I := Warns) _ (fun _ w => tryWrite_warns outcome w) h ws

theorem writes_files (s : Tried P) (ws : List (Write P)) (f : P) :
    (writes outcome s ws).files f = s.files f ∨
      ∃ w ∈ ws, w.path = f ∧ (writes outcome s ws).files f = w.text := by
  induction ws generalizing s with
  | nil => exact .inl rfl
  | cons w ws ih =>
    change (writes outcome (tryWrite outcome w s).2 ws).files f = s.files f ∨ _
    rcases ih (tryWrite outcome w s).2 with hkept | ⟨v,hv,hpath,htext⟩
    · rcases tryWrite_files outcome w s with hsame | hput
      · exact .inl (hkept.trans (congrFun hsame f))
      · by_cases hf : f = w.path
        · refine .inr ⟨w,List.mem_cons_self,hf.symm,hkept.trans ?_⟩
          rw [hput,put,hf,Function.update_self]
        · refine .inl (hkept.trans ?_)
          rw [hput,put,Function.update_of_ne hf]
    · exact .inr ⟨v,List.mem_cons_of_mem w hv,hpath,htext⟩

theorem writes_written {s : Tried P} {ws : List (Write P)}
    (h : AllWritten outcome s.tries (s.tries + ws.length)) :
    (writes outcome s ws).files = run put s.files ws := by
  induction ws generalizing s with
  | nil => rfl
  | cons w ws ih =>
    rw [List.length_cons] at h
    have hfirst := tryWrite_written outcome (w := w) (h s.tries le_rfl (by omega))
    have htries := tryWrite_tries outcome w s
    have hrest := ih (s := (tryWrite outcome w s).2) fun i hlow hhigh => h i (by omega) (by omega)
    rw [run_cons,← hfirst]
    exact hrest

end

end

end Leds
