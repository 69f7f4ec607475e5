import Mathlib.Algebra.Order.Ring.Int
import Mathlib.Data.List.Basic

namespace Machine

variable {S T L M : Type*}

def run (step : S → L → S) (s : S) (ls : List L) : S := ls.foldl step s

section Runs
variable (step : S → L → S)

@[simp] theorem run_nil (s : S) : run step s [] = s := rfl

@[simp] theorem run_cons (s : S) (l : L) (ls : List L) :
    run step s (l :: ls) = run step (step s l) ls := rfl

theorem run_append (s : S) (ks ls : List L) :
    run step s (ks ++ ls) = run step (run step s ks) ls := by
  simp [run,List.foldl_append]

theorem run_invariant {I : S → Prop} (keep : ∀ s l, I s → I (step s l))
    {s : S} (hs : I s) (ls : List L) : I (run step s ls) := by
  induction ls generalizing s with
  | nil => exact hs
  | cons l ls ih => exact ih (keep s l hs)

theorem run_fixed {s : S} (fixed : ∀ l, step s l = s) (ls : List L) : run step s ls = s := by
  induction ls with
  | nil => rfl
  | cons l ls ih => rw [run_cons,fixed l,ih]

theorem run_le {β : Type*} [Preorder β] {κ : S → β} (step_le : ∀ s l, κ (step s l) ≤ κ s) (s : S)
    (ls : List L) : κ (run step s ls) ≤ κ s := by
  induction ls generalizing s with
  | nil => exact le_rfl
  | cons l ls ih => exact (ih (step s l)).trans (step_le s l)

def Along (C : S → L → Prop) : S → List L → Prop
  | _, [] => True
  | s, l :: ls => C s l ∧ Along C (step s l) ls

def Always (P : S → Prop) : S → List L → Prop
  | s, [] => P s
  | s, l :: ls => P s ∧ Always P (step s l) ls

variable {step}

theorem Always.head {P : S → Prop} {s : S} {ls : List L} (h : Always step P s ls) : P s := by
  cases ls with
  | nil => exact h
  | cons l ls => exact h.1

theorem Always.final {P : S → Prop} {s : S} {ls : List L} (h : Always step P s ls) :
    P (run step s ls) := by
  induction ls generalizing s with
  | nil => exact h
  | cons l ls ih => exact ih h.2

theorem always_of_along {I P : S → Prop} {C : S → L → Prop}
    (safe : ∀ s, I s → P s) (keep : ∀ s l, I s → C s l → I (step s l))
    {s : S} (hs : I s) {ls : List L} (h : Along step C s ls) : Always step P s ls := by
  induction ls generalizing s with
  | nil => exact safe s hs
  | cons l ls ih => exact ⟨safe s hs,ih (keep s l hs h.1) h.2⟩

theorem run_invariant_along {I : S → Prop} {C : S → L → Prop}
    (keep : ∀ s l, I s → C s l → I (step s l))
    {s : S} (hs : I s) {ls : List L} (h : Along step C s ls) : I (run step s ls) :=
  (always_of_along (fun _ hi => hi) keep hs h).final

theorem along_of_invariant {I : S → Prop} {C : S → L → Prop}
    (keep : ∀ s l, I s → C s l ∧ I (step s l)) {s : S} (hs : I s) (ls : List L) :
    Along step C s ls := by
  induction ls generalizing s with
  | nil => trivial
  | cons l ls ih =>
    obtain ⟨hc,hi⟩ := keep s l hs
    exact ⟨hc,ih hi⟩

theorem along_of_along {I : S → Prop} {G C : S → L → Prop} (grant : ∀ s l, I s → G s l → C s l)
    (keep : ∀ s l, I s → G s l → I (step s l)) {s : S} (hs : I s) {ls : List L}
    (h : Along step G s ls) : Along step C s ls := by
  induction ls generalizing s with
  | nil => trivial
  | cons l ls ih => exact ⟨grant s l hs h.1,ih (keep s l hs h.1) h.2⟩

theorem along_of_forall {C : L → Prop} {ls : List L} (h : ∀ l ∈ ls, C l) (s : S) :
    Along step (fun _ l => C l) s ls := by
  induction ls generalizing s with
  | nil => trivial
  | cons l ls ih =>
    exact ⟨h l List.mem_cons_self,ih (fun k hk => h k (List.mem_cons_of_mem l hk)) (step s l)⟩

-- a measure that no step lowers and every step against C raises stays put only along C
theorem along_of_measure {I : S → Prop} {G C : S → L → Prop} {μ : S → ℤ}
    (keep : ∀ s l, I s → G s l → I (step s l))
    (mono : ∀ s l, I s → G s l → μ s ≤ μ (step s l))
    (strict : ∀ s l, I s → G s l → ¬ C s l → μ s < μ (step s l))
    {s : S} (hs : I s) {ls : List L} (hg : Along step G s ls) (h : μ (run step s ls) ≤ μ s) :
    Along step C s ls := by
  have climb : ∀ ls s, I s → Along step G s ls → μ s ≤ μ (run step s ls) := by
    intro ls
    induction ls with
    | nil => exact fun s _ _ => le_rfl
    | cons l ls ih => exact fun s hs hg => (mono s l hs hg.1).trans (ih _ (keep s l hs hg.1) hg.2)
  induction ls generalizing s with
  | nil => trivial
  | cons l ls ih =>
    have hnext := keep s l hs hg.1
    have hstep := mono s l hs hg.1
    have hrest := climb ls _ hnext hg.2
    rw [run_cons] at h
    refine ⟨?_,ih hnext hg.2 (h.trans hstep)⟩
    by_contra hc
    exact absurd ((strict s l hs hg.1 hc).trans_le (hrest.trans h)) (lt_irrefl _)

theorem along_of_bound {κ : S → ℕ} (mono : ∀ s l, κ s ≤ κ (step s l)) {s : S} {ls : List L} {n : ℕ}
    (h : κ (run step s ls) < n) : Along step (fun s l => κ (step s l) < n) s ls := by
  have climb : ∀ s ls, κ s ≤ κ (run step s ls) := run_le (β := ℕᵒᵈ) step mono
  induction ls generalizing s with
  | nil => trivial
  | cons l ls ih => exact ⟨(climb _ ls).trans_lt h,ih h⟩

theorem always_of_invariant {I P : S → Prop} (safe : ∀ s, I s → P s)
    (keep : ∀ s l, I s → I (step s l)) {s : S} (hs : I s) (ls : List L) : Always step P s ls := by
  have hfree : Along step (fun _ _ => True) s ls :=
    along_of_invariant (fun s l hi => ⟨trivial,keep s l hi⟩) hs ls
  exact always_of_along safe (fun s l hi _ => keep s l hi) hs hfree

theorem along_append {C : S → L → Prop} {s : S} {ks ls : List L} :
    Along step C s (ks ++ ls) ↔ Along step C s ks ∧ Along step C (run step s ks) ls := by
  induction ks generalizing s with
  | nil => simp [Along]
  | cons k ks ih => simp only [List.cons_append,Along,run_cons,ih,and_assoc]

theorem always_iff_along {I P : S → Prop} {C : S → L → Prop}
    (safe : ∀ s, I s → P s) (keep : ∀ s l, I s → C s l → I (step s l))
    (fail : ∀ s l, I s → ¬ C s l → ¬ P (step s l))
    {s : S} (hs : I s) (ls : List L) : Always step P s ls ↔ Along step C s ls := by
  refine ⟨fun h => ?_,always_of_along safe keep hs⟩
  induction ls generalizing s with
  | nil => trivial
  | cons l ls ih =>
    have hc : C s l := by
      by_contra hn
      exact fail s l hs hn h.2.head
    exact ⟨hc,ih (keep s l hs hc) h.2⟩

end Runs

section Refinement
variable {step : S → L → S} {astep : T → M → T} {obs : S → L → M}

def trace (step : S → L → S) (obs : S → L → M) : S → List L → List M
  | _, [] => []
  | s, l :: ls => obs s l :: trace step obs (step s l) ls

theorem trace_congr {R : S → S → Prop} (keep : ∀ s t l, R s t → R (step s l) (step t l))
    (same : ∀ s t l, R s t → obs s l = obs t l) {s t : S} (h : R s t) (ls : List L) :
    trace step obs s ls = trace step obs t ls := by
  induction ls generalizing s t with
  | nil => rfl
  | cons l ls ih => rw [trace,trace,same s t l h,ih (keep s t l h)]

def recorded (step : S → L → S) (obs : S → L → M) (sh : S × List M) (l : L) : S × List M :=
  (step sh.1 l,obs sh.1 l :: sh.2)

theorem run_recorded (s : S) (h : List M) (ls : List L) :
    run (recorded step obs) (s,h) ls = (run step s ls,(trace step obs s ls).reverse ++ h) := by
  induction ls generalizing s h with
  | nil => simp [trace]
  | cons l ls ih => simp [recorded,trace,ih]

theorem along_recorded {C : S → L → Prop} {s : S} {h : List M} {ls : List L} :
    Along (recorded step obs) (fun sh l => C sh.1 l) (s,h) ls ↔ Along step C s ls := by
  induction ls generalizing s h with
  | nil => exact Iff.rfl
  | cons l ls ih => exact and_congr_right' ih

-- requests answered one after the other, where R is what one exchange may do
inductive Session (R : S → L → M → S → Prop) : S → List L → List M → S → Prop
  | done (s : S) : Session R s [] [] s
  | call {s t u : S} {l : L} {m : M} {ls : List L} {ms : List M} (first : R s l m t)
      (rest : Session R t ls ms u) : Session R s (l :: ls) (m :: ms) u

theorem session_run {R : S → L → M → S → Prop}
    (sound : ∀ s l m t, R s l m t → obs s l = m ∧ step s l = t) {s t : S} {ls : List L}
    {ms : List M} (h : Session R s ls ms t) : trace step obs s ls = ms ∧ run step s ls = t := by
  induction h with
  | done s => exact ⟨rfl,rfl⟩
  | call first rest ih =>
    obtain ⟨rfl,rfl⟩ := sound _ _ _ _ first
    exact ⟨congrArg _ ih.1,ih.2⟩

theorem run_session {R : S → L → M → S → Prop}
    (complete : ∀ s l, R s l (obs s l) (step s l)) (s : S)
    (ls : List L) : Session R s ls (trace step obs s ls) (run step s ls) := by
  induction ls generalizing s with
  | nil => exact .done s
  | cons l ls ih => exact .call (complete s l) (ih (step s l))

theorem session_iff {R : S → L → M → S → Prop}
    (sound : ∀ s l m t, R s l m t → obs s l = m ∧ step s l = t)
    (complete : ∀ s l, R s l (obs s l) (step s l)) {s t : S} {ls : List L} {ms : List M} :
    Session R s ls ms t ↔ trace step obs s ls = ms ∧ run step s ls = t := by
  constructor
  · exact session_run sound
  · rintro ⟨rfl,rfl⟩
    exact run_session complete s ls

end Refinement

end Machine
