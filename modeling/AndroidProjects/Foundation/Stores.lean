import AndroidProjects.Foundation.ByteMemory

namespace ByteMemory

abbrev Store := ℕ × List UInt8

def Store.shift (p : ℕ) (w : Store) : Store := (p + w.1,w.2)

def Store.covers (w : Store) (x : ℕ) : Prop := w.1 ≤ x ∧ x < w.1 + w.2.length

def stores (m : Mem) (ws : List Store) : Mem := ws.foldl (fun m w => write m w.1 w.2) m

def Touches (ws : List Store) (x : ℕ) : Prop := ∃ w ∈ ws, w.covers x

@[simp] theorem stores_nil (m : Mem) : stores m [] = m := rfl

@[simp] theorem stores_cons (m : Mem) (w : Store) (ws : List Store) :
    stores m (w :: ws) = stores (write m w.1 w.2) ws := rfl

theorem stores_append (m : Mem) (us ws : List Store) :
    stores m (us ++ ws) = stores (stores m us) ws := List.foldl_append

@[simp] theorem not_touches_nil (x : ℕ) : ¬ Touches [] x := by
  rintro ⟨w,hw,-⟩
  exact List.not_mem_nil hw

@[simp] theorem touches_cons (w : Store) (ws : List Store) (x : ℕ) :
    Touches (w :: ws) x ↔ w.covers x ∨ Touches ws x := by
  simp [Touches]

theorem touches_append (us ws : List Store) (x : ℕ) :
    Touches (us ++ ws) x ↔ Touches us x ∨ Touches ws x := by
  simp [Touches,or_and_right,exists_or]

theorem touches_shift (p : ℕ) (ws : List Store) (x : ℕ) :
    Touches (ws.map (Store.shift p)) (p+x) ↔ Touches ws x := by
  induction ws with
  | nil => simp
  | cons w ws ih =>
    rw [List.map_cons,touches_cons,touches_cons,ih]
    refine or_congr_left ?_
    simp only [Store.covers,Store.shift]
    omega

theorem write_covered {w : Store} {x : ℕ} (h : w.covers x) (m m' : Mem) :
    write m w.1 w.2 x = write m' w.1 w.2 x := by
  obtain ⟨hle,hlt⟩ := h
  obtain ⟨i,rfl⟩ := Nat.exists_eq_add_of_le hle
  have hi : i < w.2.length := by omega
  exact Option.some.inj ((write_apply m hi).symm.trans (write_apply m' hi))

theorem write_uncovered {w : Store} {x : ℕ} (h : ¬ w.covers x) (m : Mem) :
    write m w.1 w.2 x = m x := by
  rw [Store.covers,not_and_or] at h
  rcases h with h | h
  · exact write_apply_of_lt m w.2 (by omega)
  · exact write_apply_of_le m (by omega)

theorem stores_untouched {ws : List Store} {x : ℕ} (h : ¬ Touches ws x) (m : Mem) :
    stores m ws x = m x := by
  induction ws generalizing m with
  | nil => rfl
  | cons w ws ih =>
    rw [touches_cons,not_or] at h
    rw [stores_cons,ih h.2,write_uncovered h.1]

theorem stores_touched {ws : List Store} {x : ℕ} (h : Touches ws x) (m m' : Mem) :
    stores m ws x = stores m' ws x := by
  induction ws generalizing m m' with
  | nil => exact absurd h (not_touches_nil x)
  | cons w ws ih =>
    by_cases hs : Touches ws x
    · exact ih hs _ _
    · rw [touches_cons,or_iff_left hs] at h
      rw [stores_cons,stores_cons,stores_untouched hs,stores_untouched hs]
      exact write_covered h m m'

theorem slice_stores_apart {ws : List Store} {a n : ℕ}
    (h : ∀ x, a ≤ x → x < a + n → ¬ Touches ws x) (m : Mem) :
    slice (stores m ws) a n = slice m a n :=
  slice_congr fun x h1 h2 => stores_untouched (h x h1 h2) m

def Apart (ws : List Store) : Prop :=
  ws.Pairwise fun u w => ∀ x, u.covers x → ¬ w.covers x

theorem slice_of_apart {ws : List Store} (h : Apart ws) {w : Store} (hw : w ∈ ws) (m : Mem) :
    slice (stores m ws) w.1 w.2.length = w.2 := by
  induction ws generalizing m with
  | nil => cases hw
  | cons u ws ih =>
    obtain ⟨hu,hws⟩ := List.pairwise_cons.mp h
    rcases List.mem_cons.mp hw with rfl | hw
    · have hkeep : ∀ x, w.1 ≤ x → x < w.1 + w.2.length → ¬ Touches ws x := by
        rintro x h1 h2 ⟨v,hv,hx⟩
        exact hu v hv x ⟨h1,h2⟩ hx
      rw [stores_cons,slice_stores_apart hkeep]
      exact slice_write m w.1 w.2
    · exact ih hws hw _

theorem apart_append {us ws : List Store} :
    Apart (us ++ ws) ↔ Apart us ∧ Apart ws ∧ ∀ x, Touches us x → ¬ Touches ws x := by
  rw [Apart,List.pairwise_append]
  refine and_congr_right fun _ => and_congr_right fun _ => ⟨?_,?_⟩
  · rintro h x ⟨u,hu,hux⟩ ⟨w,hw,hwx⟩
    exact h u hu w hw x hux hwx
  · intro h u hu w hw x hux hwx
    exact h x ⟨u,hu,hux⟩ ⟨w,hw,hwx⟩

theorem apart_shift {ws : List Store} (h : Apart ws) (p : ℕ) : Apart (ws.map (Store.shift p)) := by
  rw [Apart,List.pairwise_map]
  refine h.imp fun {u w} hd x hu hw => hd (x - p) ?_ ?_
  · simp only [Store.covers,Store.shift] at hu ⊢
    omega
  · simp only [Store.covers,Store.shift] at hw ⊢
    omega

end ByteMemory
