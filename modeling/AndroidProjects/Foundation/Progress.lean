import AndroidProjects.Foundation.Machine

namespace Machine

variable {S L ι : Type*} {step : S → L → S}

-- a schedule that gives every label of ts a turn, n times over
inductive Rounds (ts : List L) : ℕ → List L → Prop
  | none (ls : List L) : Rounds ts 0 ls
  | next {n : ℕ} {ks ls : List L} (turns : ∀ t ∈ ts, t ∈ ks) (rest : Rounds ts n ls) :
      Rounds ts (n+1) (ks ++ ls)

theorem rounds_replicate (ts : List L) (n : ℕ) : Rounds ts n (List.replicate n ts).flatten := by
  induction n with
  | zero => exact .none _
  | succ n ih =>
    rw [List.replicate_succ,List.flatten_cons]
    exact .next (fun _ ht => ht) ih

-- as long as the goal is not reached, the turn of one label brings it nearer, and the
-- other labels neither take the run back nor change which label that is
structure Helped (step : S → L → S) (ts : List L) (R : ι → S → Prop) (G : S → Prop) (μ : ι → ℕ)
    (next : ι → L) : Prop where
  stay : ∀ i s l, R i s → G s → ∃ j, R j (step s l) ∧ G (step s l)
  listed : ∀ i s, R i s → ¬ G s → next i ∈ ts
  down : ∀ i s, R i s → ¬ G s → ∃ j, R j (step s (next i)) ∧ μ j < μ i
  wait : ∀ i s l, R i s → ¬ G s →
    ∃ j, R j (step s l) ∧ (μ j < μ i ∨ μ j = μ i ∧ next j = next i)

namespace Helped
variable {ts : List L} {R : ι → S → Prop} {G : S → Prop} {μ : ι → ℕ} {next : ι → L}

theorem goal_of_zero (h : Helped step ts R G μ next) {i : ι} {s : S} (hs : R i s) (hz : μ i = 0) :
    G s := by
  by_contra hg
  obtain ⟨j,-,hlt⟩ := h.down i s hs hg
  omega

theorem goal_stays (h : Helped step ts R G μ next) {i : ι} {s : S} (hs : R i s) (hg : G s)
    (ls : List L) : ∃ j, R j (run step s ls) ∧ G (run step s ls) := by
  induction ls generalizing i s with
  | nil => exact ⟨i,hs,hg⟩
  | cons l ls ih =>
    obtain ⟨j,hj,hnext⟩ := h.stay i s l hs hg
    exact ih hj hnext

theorem run_stays (h : Helped step ts R G μ next) {i : ι} {s : S} (hs : R i s) (ls : List L) :
    ∃ j, R j (run step s ls) ∧ (G (run step s ls) ∨ μ j ≤ μ i) := by
  induction ls generalizing i s with
  | nil => exact ⟨i,hs,.inr le_rfl⟩
  | cons l ls ih =>
    by_cases hg : G s
    · obtain ⟨j,hj,hgoal⟩ := h.goal_stays hs hg (l :: ls)
      exact ⟨j,hj,.inl hgoal⟩
    · obtain ⟨j,hj,hmove⟩ := h.wait i s l hs hg
      have hle : μ j ≤ μ i := by
        rcases hmove with hlt | ⟨heq,-⟩
        · exact hlt.le
        · exact heq.le
      obtain ⟨m,hm,hrest⟩ := ih hj
      exact ⟨m,hm,hrest.imp_right fun hrest => hrest.trans hle⟩

theorem turn_descends (h : Helped step ts R G μ next) {i : ι} {s : S} (hs : R i s) {ks : List L}
    (hturn : next i ∈ ks) : ∃ j, R j (run step s ks) ∧ (G (run step s ks) ∨ μ j < μ i) := by
  induction ks generalizing i s with
  | nil => exact absurd hturn List.not_mem_nil
  | cons k ks ih =>
    by_cases hg : G s
    · obtain ⟨j,hj,hgoal⟩ := h.goal_stays hs hg (k :: ks)
      exact ⟨j,hj,.inl hgoal⟩
    · have hdrop : ∀ j, R j (step s k) → μ j < μ i → ∃ m, R m (run step s (k :: ks)) ∧
          (G (run step s (k :: ks)) ∨ μ m < μ i) := by
        intro j hj hlt
        obtain ⟨m,hm,hrest⟩ := h.run_stays hj ks
        exact ⟨m,hm,hrest.imp_right fun hrest => hrest.trans_lt hlt⟩
      by_cases hk : next i = k
      · obtain ⟨j,hj,hlt⟩ := h.down i s hs hg
        rw [hk] at hj
        exact hdrop j hj hlt
      · obtain ⟨j,hj,hlt | ⟨hsame,hhelp⟩⟩ := h.wait i s k hs hg
        · exact hdrop j hj hlt
        · have hin : next j ∈ ks := by
            rw [hhelp]
            exact List.mem_of_ne_of_mem hk hturn
          obtain ⟨m,hm,hrest⟩ := ih hj hin
          exact ⟨m,hm,hrest.imp_right fun hrest => hrest.trans_eq hsame⟩

theorem reaches (h : Helped step ts R G μ next) {i : ι} {s : S} (hs : R i s) {n : ℕ} {ls : List L}
    (hrounds : Rounds ts n ls) (hn : μ i ≤ n) : G (run step s ls) := by
  have hstays : ∀ {i s ls}, R i s → G s → G (run step s ls) := by
    intro i s ls hs hg
    obtain ⟨_,-,hgoal⟩ := h.goal_stays hs hg ls
    exact hgoal
  induction hrounds generalizing i s with
  | none ls => exact hstays hs (h.goal_of_zero hs (Nat.le_zero.mp hn))
  | @next n ks ls turns _ ih =>
    by_cases hg : G s
    · exact hstays hs hg
    · rw [run_append]
      obtain ⟨j,hj,hgoal | hlt⟩ := h.turn_descends hs (turns _ (h.listed i s hs hg))
      · exact hstays hj hgoal
      · exact ih hj (by omega)

end Helped

theorem reaches_of_strict {I G : S → Prop} {μ : S → ℕ} {ts : List L}
    (keep : ∀ s l, I s → I (step s l)) (stay : ∀ s l, I s → G s → G (step s l))
    (strict : ∀ s l, I s → step s l = s ∨ μ (step s l) < μ s)
    (live : ∀ s, I s → ¬ G s → ∃ t ∈ ts, step s t ≠ s) {s : S} (hs : I s) {n : ℕ} {ls : List L}
    (hrounds : Rounds ts n ls) (hn : μ s ≤ n) : G (run step s ls) := by
  classical
  by_cases hg : G s
  · have hboth := run_invariant (I := fun s => I s ∧ G s) step
      (fun s l h => ⟨keep s l h.1,stay s l h.1 h.2⟩) ⟨hs,hg⟩ ls
    exact hboth.2
  obtain ⟨first,-,-⟩ := live s hs hg
  let next : S → L := fun i => if h : ∃ t ∈ ts, step i t ≠ i then h.choose else first
  have hnext : ∀ i, I i → ¬ G i → next i ∈ ts ∧ step i (next i) ≠ i := by
    intro i hi hgi
    have h := live i hi hgi
    have hchosen : next i = h.choose := dif_pos h
    rw [hchosen]
    exact h.choose_spec
  have helped : Helped step ts (fun i s => i = s ∧ I s) G μ next := by
    refine ⟨?_,?_,?_,?_⟩
    · rintro i s l ⟨rfl,hi⟩ hgi
      exact ⟨_,⟨rfl,keep i l hi⟩,stay i l hi hgi⟩
    · rintro i s ⟨rfl,hi⟩ hgi
      exact (hnext i hi hgi).1
    · rintro i s ⟨rfl,hi⟩ hgi
      exact ⟨_,⟨rfl,keep i _ hi⟩,(strict i _ hi).resolve_left (hnext i hi hgi).2⟩
    · rintro i s l ⟨rfl,hi⟩ hgi
      refine ⟨_,⟨rfl,keep i l hi⟩,?_⟩
      rcases strict i l hi with hsame | hlt
      · exact .inr ⟨congrArg μ hsame,congrArg next hsame⟩
      · exact .inl hlt
  exact helped.reaches ⟨rfl,hs⟩ hrounds hn

end Machine
