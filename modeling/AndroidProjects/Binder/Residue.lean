import AndroidProjects.Binder.Call
import AndroidProjects.Binder.Footprint

namespace Binder
open ByteMemory Layout

section
variable {A : Abi}

def NoResidue (A : Abi) (data : ℕ) (maxdata maxoffs : A.Uintptr) (vs : List (Put A)) : Prop :=
  ∀ (io io' : BinderIo) (m m' : Mem),
    (∀ x, x < data ∨ data + maxdata.toNat ≤ x → m x = m' x) →
    let msg := filled A io m data maxdata maxoffs vs
    let msg' := filled A io' m' data maxdata maxoffs vs
    ¬ msg.overflow → ¬ msg'.overflow →
      (∀ target code, callTransaction msg target code = callTransaction msg' target code) ∧
      dataReply msg = dataReply msg'

-- positions count from the start of the buffer, where the offset entries lie
def PaddingWritten (A : Abi) (maxoffs : A.Uintptr) (vs : List (Put A)) : Prop :=
  ∀ x ∈ unwritten (reserved A maxoffs) (vs.flatMap Put.pieces),
    x < A.binderSizeT.bytes * pieceSlots (vs.flatMap Put.pieces)

instance (maxoffs : A.Uintptr) (vs : List (Put A)) : Decidable (PaddingWritten A maxoffs vs) :=
  inferInstanceAs (Decidable (∀ _ ∈ _, _))

section
variable {maxdata maxoffs : A.Uintptr} {vs : List (Put A)} (h : PutsFit A maxdata maxoffs vs)
include h

theorem filled_touched {data x : ℕ} (hx : Touches (laidStores (data + reserved A maxoffs)
    (data + reserved A maxoffs) data (vs.flatMap Put.pieces)) x) (io io' : BinderIo) (m m' : Mem) :
    (filled A io m data maxdata maxoffs vs).mem x =
      (filled A io' m' data maxdata maxoffs vs).mem x := by
  rw [filled_mem h,filled_mem h]
  exact stores_touched hx m m'

theorem filled_data_same (hpad : PaddingWritten A maxoffs vs) (io io' : BinderIo) (m m' : Mem)
    (data : ℕ) : (filled A io m data maxdata maxoffs vs).dataBytes =
      (filled A io' m' data maxdata maxoffs vs).dataBytes := by
  rw [dataBytes_filled h,dataBytes_filled h]
  refine slice_congr fun x h1 h2 => filled_touched h ?_ io io' m m'
  rw [touches_laid]
  by_cases hx : x ∈ unwritten (data + reserved A maxoffs) (vs.flatMap Put.pieces)
  · obtain ⟨y,rfl⟩ := Nat.exists_eq_add_of_le ((Nat.le_add_right _ _).trans h1)
    rw [unwritten_shift] at hx
    have hentry := hpad y hx
    exact .inl (by omega)
  · exact .inr ⟨h1,h2,hx⟩

theorem filled_offs_same (io io' : BinderIo) (m m' : Mem) (data : ℕ) :
    (filled A io m data maxdata maxoffs vs).offsBytes =
      (filled A io' m' data maxdata maxoffs vs).offsBytes := by
  rw [offsBytes_filled h,offsBytes_filled h]
  refine slice_congr fun x h1 h2 => filled_touched h ?_ io io' m m'
  rw [touches_laid]
  exact .inl ⟨h1,h2⟩

theorem residue_of_gap {x : ℕ} (hx : x ∈ unwritten (reserved A maxoffs) (vs.flatMap Put.pieces))
    (hgap : ¬ x < A.binderSizeT.bytes * pieceSlots (vs.flatMap Put.pieces)) (data : ℕ) :
    ¬ NoResidue A data maxdata maxoffs vs := by
  intro hsame
  have hbounds := unwritten_bounds hx
  obtain ⟨hres,hroom,-⟩ := id h
  have hclear : ∀ io m, ¬ (filled A io m data maxdata maxoffs vs).overflow := fun io m => by
    rw [filled_overflow_iff,not_not]
    exact h
  have hbare : ¬ Touches (laidStores (data + reserved A maxoffs) (data + reserved A maxoffs) data
      (vs.flatMap Put.pieces)) (data + x) := by
    rw [touches_laid,unwritten_shift]
    rintro (h | ⟨-,-,h⟩)
    · omega
    · exact h hx
  obtain ⟨-,hreply⟩ := hsame ⟨fun _ => 0,0,0,0,0,0,0,0⟩ ⟨fun _ => 0,0,0,0,0,0,0,0⟩ (fun _ => 0)
    (fun y => if y = data + x then 1 else 0) (fun y hy => (if_neg (by omega)).symm)
    (hclear _ _) (hclear _ _)
  have hbytes := congrArg (fun out => out.data[x - reserved A maxoffs]?) hreply
  have hat : data + reserved A maxoffs + (x - reserved A maxoffs) = data + x := by omega
  simp only [dataReply,dataBytes_filled h] at hbytes
  rw [slice_getElem? _ (by omega),slice_getElem? _ (by omega),hat,filled_mem h,filled_mem h,
    stores_untouched hbare,stores_untouched hbare,if_pos rfl] at hbytes
  exact absurd hbytes (by decide)

end

theorem no_residue_iff_padding_written (data : ℕ) (maxdata maxoffs : A.Uintptr)
    (vs : List (Put A)) :
    NoResidue A data maxdata maxoffs vs ↔
      (PutsFit A maxdata maxoffs vs → PaddingWritten A maxoffs vs) := by
  constructor
  · intro hsame hfit x hx
    by_contra hgap
    exact residue_of_gap hfit hx hgap data hsame
  · intro hpad io io' m m' _ msg msg' hmsg _
    rw [filled_overflow_iff,not_not] at hmsg
    have hdata : msg.dataBytes = msg'.dataBytes :=
      filled_data_same hmsg (hpad hmsg) io io' m m' data
    have hoffs : msg.offsBytes = msg'.offsBytes := filled_offs_same hmsg io io' m m' data
    refine ⟨fun target code => ?_,?_⟩
    · rw [callTransaction,callTransaction,hdata,hoffs]
    · rw [dataReply,dataReply,hdata,hoffs]

end

theorem string_padding_leaks :
    ¬ ∀ (A : Abi) (data : ℕ) (maxdata maxoffs : A.Uintptr) (vs : List (Put A)),
      NoResidue A data maxdata maxoffs vs := by
  intro hall
  have hsize : (64 : (Abi.uniform .four).Uintptr).toNat = 64 := rfl
  have hsame := hall (Abi.uniform .four) 0 64 4 [.string16X (some [104,105])]
    ⟨fun _ => 0,0,0,0,0,0,0,0⟩ ⟨fun _ => 0,0,0,0,0,0,0,0⟩ (fun _ => 0)
    (fun y => if y = 26 then 1 else 0) (fun y hy => (if_neg (by rw [hsize] at hy; omega)).symm)
    (by decide +kernel) (by decide +kernel)
  exact absurd hsame.2 (by decide +kernel)

end Binder
