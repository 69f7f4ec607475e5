import AndroidProjects.Binder.Puts

namespace Binder
open ByteMemory Layout

section
variable {A : Abi}

namespace Piece

def blanks : Piece A → List ℕ
  | word _ => []
  | units us _ => if us.length % 2 = 0 then [2*us.length+2,2*us.length+3] else []
  | object (.binder _) _ => []
  | object (.handle _) _ => if A.binderSizeT = .eight then [12,13,14,15] else []

end Piece

def unwritten : ℕ → List (Piece A) → List ℕ
  | _, [] => []
  | p, c :: cs => c.blanks.map (p + ·) ++ unwritten (p + c.size) cs

theorem units_size {us : List UInt16} (short : us.length < maxBioSize / 2) :
    (Piece.units us short : Piece A).size = (2 * us.length + 5) / 4 * 4 := by
  rw [Piece.size,sizeofUnits_eq short]
  rw [roundUp_of_lt (by simp only [maxBioSize] at short; omega)]
  omega

theorem unitBytes_length (us : List UInt16) : (unitBytes us).length = 2 * us.length := by
  induction us with
  | nil => rfl
  | cons u us ih =>
    have hcons : unitBytes (u :: us) = leBytes 2 u.toNat ++ unitBytes us := rfl
    rw [hcons,List.length_append,leBytes_length,ih,List.length_cons]
    omega

theorem touches_store (p x : ℕ) (bs : List UInt8) (ws : List Store) :
    Touches ((p,bs) :: ws) x ↔ p ≤ x ∧ x < p + bs.length ∨ Touches ws x := touches_cons (p,bs) ws x

theorem touches_piece (c : Piece A) (x : ℕ) :
    Touches c.stores x ↔ x < c.size ∧ x ∉ c.blanks := by
  cases c with
  | word n =>
    simp only [Piece.stores,Piece.size,Piece.blanks,touches_store,not_touches_nil,or_false,
      leBytes_length,List.not_mem_nil,not_false_eq_true,and_true]
    omega
  | units us short =>
    rw [units_size short]
    simp only [Piece.stores,Piece.blanks,touches_store,not_touches_nil,or_false,
      unitBytes_length,List.length_append,List.length_singleton]
    split_ifs with heven
    · simp only [List.mem_cons,List.not_mem_nil,or_false]
      omega
    · simp only [List.not_mem_nil,not_false_eq_true,and_true]
      omega
  | object o listed =>
    have hb : A.binderSizeT.bytes = if A.binderSizeT = .eight then 8 else 4 := by
      cases A.binderSizeT <;> rfl
    cases o with
    | binder ptr =>
      simp only [Piece.stores,Piece.size,Piece.blanks,touches_store,not_touches_nil,or_false,
        FlatObject.payload,leBytes_length,List.not_mem_nil,not_false_eq_true,and_true,
        Abi.sizeofFlatBinderObject]
      split_ifs at hb <;> omega
    | handle h =>
      simp only [Piece.stores,Piece.size,Piece.blanks,touches_store,not_touches_nil,or_false,
        FlatObject.payload,leBytes_length,Abi.sizeofFlatBinderObject]
      split_ifs at hb ⊢
      · simp only [List.mem_cons,List.not_mem_nil,or_false]
        omega
      · simp only [List.not_mem_nil,not_false_eq_true,and_true]
        omega

theorem store_nonempty {c : Piece A} {w : Store} (hw : w ∈ c.stores) : 0 < w.2.length := by
  have hb := A.binderSizeT.bytes_pos
  cases c with
  | word n =>
    rw [List.mem_singleton.mp hw,leBytes_length]
    decide
  | units us short =>
    rw [List.mem_singleton.mp hw,unitBytes_length,List.length_append,List.length_singleton]
    omega
  | object o listed =>
    have hpay : 0 < o.payload.length := by
      cases o with
      | binder ptr => exact (leBytes_length _ _).symm ▸ hb
      | handle h => exact (leBytes_length _ _).symm ▸ by decide
    rw [Piece.stores] at hw
    rcases List.mem_cons.mp hw with rfl | hw
    · exact (leBytes_length _ _).symm ▸ by decide
    rcases List.mem_cons.mp hw with rfl | hw
    · exact (leBytes_length _ _).symm ▸ by decide
    rcases List.mem_cons.mp hw with rfl | hw
    · exact hpay
    · rw [List.mem_singleton.mp hw,leBytes_length]
      exact hb

theorem store_within {c : Piece A} {w : Store} (hw : w ∈ c.stores) :
    w.1 + w.2.length ≤ c.size := by
  have hpos := store_nonempty hw
  have hlast : Touches c.stores (w.1 + w.2.length - 1) := ⟨w,hw,by omega,by omega⟩
  have hlt := ((touches_piece c _).mp hlast).1
  omega

theorem touches_entry (base p q : ℕ) (c : Piece A) (x : ℕ) :
    Touches (c.entry base p q) x ↔ q ≤ x ∧ x < q + A.binderSizeT.bytes * c.slots := by
  rw [Piece.entry,Piece.slots]
  split_ifs with hl
  · simp only [touches_store,not_touches_nil,or_false,leBytes_length,Nat.mul_one]
  · exact iff_of_false (not_touches_nil x) (by omega)

theorem blanks_lt {c : Piece A} {x : ℕ} (h : x ∈ c.blanks) : x < c.size := by
  cases c with
  | word n => cases h
  | units us short =>
    rw [units_size short]
    rw [Piece.blanks] at h
    split_ifs at h with heven
    · simp only [List.mem_cons,List.not_mem_nil,or_false] at h
      omega
    · cases h
  | object o listed =>
    cases o with
    | binder ptr => cases h
    | handle k =>
      rw [Piece.blanks] at h
      split_ifs at h with hb
      · simp only [Piece.size,Abi.sizeofFlatBinderObject,hb,Word.bytes]
        simp only [List.mem_cons,List.not_mem_nil,or_false] at h
        omega
      · cases h

theorem unwritten_bounds {p x : ℕ} {cs : List (Piece A)} (h : x ∈ unwritten p cs) :
    p ≤ x ∧ x < p + extent Piece.size cs := by
  induction cs generalizing p with
  | nil => cases h
  | cons c cs ih =>
    rw [extent_cons]
    rcases List.mem_append.mp h with h | h
    · obtain ⟨y,hy,rfl⟩ := List.mem_map.mp h
      have hlt := blanks_lt hy
      omega
    · have hrest := ih h
      omega

theorem unwritten_shift (d p : ℕ) (cs : List (Piece A)) (x : ℕ) :
    d + x ∈ unwritten (d+p) cs ↔ x ∈ unwritten p cs := by
  induction cs generalizing p with
  | nil => simp [unwritten]
  | cons c cs ih =>
    have hrest := ih (p + c.size)
    rw [← Nat.add_assoc] at hrest
    rw [unwritten,unwritten,List.mem_append,List.mem_append,hrest]
    refine or_congr_left ?_
    simp only [List.mem_map]
    refine exists_congr fun y => and_congr_right fun _ => ?_
    omega

theorem touches_placed (p : ℕ) (c : Piece A) (x : ℕ) :
    Touches (c.stores.map (Store.shift p)) x ↔
      p ≤ x ∧ x < p + c.size ∧ x ∉ c.blanks.map (p + ·) := by
  rcases Nat.lt_or_ge x p with hlt | hge
  · have hlow : ∀ ws : List Store, ¬ Touches (ws.map (Store.shift p)) x := by
      rintro ws ⟨w,hw,hle,-⟩
      obtain ⟨u,-,rfl⟩ := List.mem_map.mp hw
      simp only [Store.shift] at hle
      omega
    exact iff_of_false (hlow _) fun h => by omega
  · obtain ⟨y,rfl⟩ := Nat.exists_eq_add_of_le hge
    have hmem : p + y ∈ c.blanks.map (p + ·) ↔ y ∈ c.blanks := by
      simp [List.mem_map]
    rw [touches_shift,touches_piece,hmem,Nat.add_lt_add_iff_left]
    exact (and_iff_right (Nat.le_add_right p y)).symm

theorem touches_laid (base p q : ℕ) (cs : List (Piece A)) (x : ℕ) :
    Touches (laidStores base p q cs) x ↔
      (q ≤ x ∧ x < q + A.binderSizeT.bytes * pieceSlots cs) ∨
      (p ≤ x ∧ x < p + extent Piece.size cs ∧ x ∉ unwritten p cs) := by
  induction cs generalizing p q with
  | nil =>
    refine iff_of_false (not_touches_nil x) ?_
    rw [pieceSlots_nil,extent_nil]
    omega
  | cons c cs ih =>
    have hrest : x ∈ unwritten (p + c.size) cs → p + c.size ≤ x := fun hx =>
      (unwritten_bounds hx).1
    have hown : x ∈ c.blanks.map (p + ·) → x < p + c.size := by
      intro hx
      obtain ⟨z,hz,rfl⟩ := List.mem_map.mp hx
      have hlt := blanks_lt hz
      omega
    rw [laidStores,touches_append,touches_append,touches_entry,touches_placed,ih,extent_cons,
      pieceSlots_cons,unwritten,List.mem_append,Nat.mul_add]
    constructor
    · rintro (h | ⟨h1,h2,h3⟩ | h | ⟨h1,h2,h3⟩)
      · exact .inl (by omega)
      · exact .inr ⟨h1,by omega,not_or.mpr ⟨h3,fun hx => by have := hrest hx; omega⟩⟩
      · exact .inl (by omega)
      · exact .inr ⟨by omega,by omega,not_or.mpr ⟨fun hx => by have := hown hx; omega,h3⟩⟩
    · rintro (h | ⟨h1,h2,h3⟩)
      · omega
      · rw [not_or] at h3
        rcases Nat.lt_or_ge x (p + c.size) with hx | hx
        · exact .inr (.inl ⟨h1,hx,h3.1⟩)
        · exact .inr (.inr (.inr ⟨hx,by omega,h3.2⟩))

theorem piece_apart (c : Piece A) : Apart c.stores := by
  cases c with
  | word n => exact List.pairwise_singleton _ _
  | units us short => exact List.pairwise_singleton _ _
  | object o listed =>
    have hpay : o.payload.length ≤ A.binderSizeT.bytes := by
      have hb := A.binderSizeT.four_le_bytes
      cases o with
      | binder ptr => simp [FlatObject.payload]
      | handle h => simpa [FlatObject.payload] using hb
    have hlast : Apart [(8,o.payload),(8+A.binderSizeT.bytes,leBytes A.binderSizeT.bytes 0)] := by
      refine List.pairwise_pair.mpr fun x hx hx' => ?_
      simp only [Store.covers] at hx hx'
      omega
    have hhead : Apart [(4,leBytes 4 objFlags.toNat),(0,leBytes 4 o.type.toNat)] := by
      refine List.pairwise_pair.mpr fun x hx hx' => ?_
      simp only [Store.covers,leBytes_length] at hx hx'
      omega
    refine apart_append.mpr ⟨hhead,hlast,fun x hx hx' => ?_⟩
    simp only [touches_store,not_touches_nil,or_false,leBytes_length] at hx hx'
    omega

theorem stores_laid (m : Mem) (base p q : ℕ) (c : Piece A) (cs : List (Piece A)) :
    ByteMemory.stores m (laidStores base p q (c :: cs)) =
      ByteMemory.stores (ByteMemory.stores (ByteMemory.stores m (c.entry base p q))
        (c.stores.map (Store.shift p)))
        (laidStores base (p + c.size) (q + A.binderSizeT.bytes * c.slots) cs) := by
  rw [laidStores,stores_append,stores_append]

-- an entry is written before the bytes of its object, and those lie past it
theorem laid_entries {base p q : ℕ} {cs : List (Piece A)} (hbase : base ≤ p)
    (hbelow : q + A.binderSizeT.bytes ≤ p) (m : Mem) :
    slice (ByteMemory.stores m (laidStores base p q cs)) q (A.binderSizeT.bytes * pieceSlots cs) =
      (marks Piece.size Piece.listed (p - base) cs).flatMap (leBytes A.binderSizeT.bytes) := by
  induction cs generalizing p q m with
  | nil => rfl
  | cons c cs ih =>
    have hb := A.binderSizeT.bytes_le_eight
    have hpos : p + c.size - base = p - base + c.size := by omega
    have hsize := slots_size c
    have hmul := Nat.mul_le_mul_right c.slots hb
    have hrest := ih (p := p + c.size) (q := q + A.binderSizeT.bytes * c.slots) (by omega)
      (by omega) (ByteMemory.stores (ByteMemory.stores m (c.entry base p q))
        (c.stores.map (Store.shift p)))
    rw [hpos] at hrest
    rw [stores_laid,pieceSlots_cons,Nat.mul_add,slice_append,hrest,marks]
    by_cases hl : c.listed = true
    · have hslots : c.slots = 1 := if_pos hl
      have hlater : ∀ x, q ≤ x → x < q + A.binderSizeT.bytes → ¬ Touches
          (laidStores base (p + c.size) (q + A.binderSizeT.bytes * c.slots) cs) x := by
        intro x h1 h2
        rw [touches_laid,hslots]
        omega
      have hown : ∀ x, q ≤ x → x < q + A.binderSizeT.bytes →
          ¬ Touches (c.stores.map (Store.shift p)) x := by
        intro x h1 h2
        rw [touches_placed]
        omega
      have hentry := slice_write m q (leBytes A.binderSizeT.bytes (p - base))
      rw [leBytes_length] at hentry
      rw [hslots,Nat.mul_one] at hlater ⊢
      rw [if_pos hl,slice_stores_apart hlater,slice_stores_apart hown,Piece.entry,if_pos hl,
        List.flatMap_cons,stores_cons,stores_nil,hentry]
    · rw [if_neg hl,Piece.slots,if_neg hl]
      rfl

theorem laid_payload (base : ℕ) {p q lo hi : ℕ} {cs : List (Piece A)} (hlo : lo ≤ q)
    (hhi : q + A.binderSizeT.bytes * pieceSlots cs ≤ hi) (m : Mem) :
    Placed Piece.size (fun a c => ∀ w ∈ c.stores, ∀ i b, w.2[i]? = some b →
      (a + w.1 + i < lo ∨ hi ≤ a + w.1 + i) →
        ByteMemory.stores m (laidStores base p q cs) (a + w.1 + i) = b) p cs := by
  induction cs generalizing p q m with
  | nil => trivial
  | cons c cs ih =>
    rw [pieceSlots_cons,Nat.mul_add] at hhi
    rw [stores_laid]
    refine ⟨fun w hw i b hb hx => ?_,ih (by omega) (by omega) _⟩
    have hi := (List.getElem?_eq_some_iff.mp hb).1
    have hin := store_within hw
    have hlater : ¬ Touches (laidStores base (p + c.size)
        (q + A.binderSizeT.bytes * c.slots) cs) (p + w.1 + i) := by
      rw [touches_laid]
      omega
    have hown := slice_of_apart (apart_shift (piece_apart c) p) (List.mem_map_of_mem hw)
      (ByteMemory.stores m (c.entry base p q))
    have hat := (slice_eq_iff _ _ _).mp hown i hi
    simp only [Store.shift] at hat
    rw [stores_untouched hlater]
    exact Option.some.inj (hat.symm.trans hb)

end

end Binder
