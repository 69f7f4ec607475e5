import Mathlib.Data.List.Basic
import Mathlib.Tactic.Ring

namespace ByteMemory

abbrev Mem := ℕ → UInt8

def leBytes : ℕ → ℕ → List UInt8
  | 0, _ => []
  | n+1, v => UInt8.ofNat v :: leBytes n (v / 256)

def leNat : List UInt8 → ℕ
  | [] => 0
  | b :: bs => b.toNat + 256 * leNat bs

@[simp] theorem leBytes_length (n v : ℕ) : (leBytes n v).length = n := by
  induction n generalizing v with
  | zero => rfl
  | succ n ih => simp [leBytes,ih]

theorem leNat_leBytes (n v : ℕ) : leNat (leBytes n v) = v % 256 ^ n := by
  induction n generalizing v with
  | zero => simp [leBytes,leNat,Nat.mod_one]
  | succ n ih =>
    have hb : (UInt8.ofNat v).toNat = v % 256 := by simp
    rw [leBytes,leNat,ih,hb,pow_succ',Nat.mod_mul]

theorem leNat_leBytes_of_lt {n v : ℕ} (h : v < 256 ^ n) : leNat (leBytes n v) = v := by
  rw [leNat_leBytes,Nat.mod_eq_of_lt h]

theorem leNat_lt (bs : List UInt8) : leNat bs < 256 ^ bs.length := by
  induction bs with
  | nil => simp [leNat]
  | cons b bs ih =>
    have hb : b.toNat < 256 := b.toNat_lt
    simp only [leNat,List.length_cons,pow_succ]
    omega

theorem leBytes_leNat (bs : List UInt8) : leBytes bs.length (leNat bs) = bs := by
  induction bs with
  | nil => rfl
  | cons b bs ih =>
    have hb : b.toNat < 256 := b.toNat_lt
    have hdiv : (b.toNat + 256 * leNat bs) / 256 = leNat bs := by omega
    have hmod : UInt8.ofNat (b.toNat + 256 * leNat bs) = b := by
      rw [← UInt8.toNat_inj,UInt8.toNat_ofNat']
      omega
    rw [leNat,List.length_cons,leBytes,hdiv,hmod,ih]

def slice (m : Mem) : ℕ → ℕ → List UInt8
  | _, 0 => []
  | a, n+1 => m a :: slice m (a+1) n

def load (m : Mem) (a n : ℕ) : ℕ := leNat (slice m a n)

def write (m : Mem) (a : ℕ) (bs : List UInt8) : Mem := fun x =>
  if a ≤ x then (bs[x-a]?).getD (m x) else m x

@[simp] theorem slice_length (m : Mem) (a n : ℕ) : (slice m a n).length = n := by
  induction n generalizing a with
  | zero => rfl
  | succ n ih => simp [slice,ih]

theorem slice_append (m : Mem) (a n k : ℕ) :
    slice m a (n+k) = slice m a n ++ slice m (a+n) k := by
  induction n generalizing a with
  | zero => simp [slice]
  | succ n ih =>
    rw [show n+1+k = (n+k)+1 by omega,slice,slice,ih,List.cons_append]
    rw [show a+1+n = a+(n+1) by omega]

theorem slice_congr {m m' : Mem} {a n : ℕ}
    (h : ∀ x, a ≤ x → x < a+n → m x = m' x) : slice m a n = slice m' a n := by
  induction n generalizing a with
  | zero => rfl
  | succ n ih =>
    rw [slice,slice,h a le_rfl (by omega)]
    exact congrArg _ (ih fun x h1 h2 => h x (by omega) (by omega))

theorem slice_shift {m m' : Mem} {a b n : ℕ} (h : ∀ i < n, m (a+i) = m' (b+i)) :
    slice m a n = slice m' b n := by
  induction n generalizing a b with
  | zero => rfl
  | succ n ih =>
    have hrest : ∀ i < n, m (a+1+i) = m' (b+1+i) := by
      intro i hi
      have hs := h (i+1) (by omega)
      rwa [Nat.add_comm i 1,← Nat.add_assoc,← Nat.add_assoc] at hs
    rw [slice,slice,ih hrest]
    exact congrArg (· :: _) (h 0 (by omega))

theorem slice_drop_take (m : Mem) (a : ℕ) {n i k : ℕ} (h : i + k ≤ n) :
    ((slice m a n).drop i).take k = slice m (a+i) k := by
  obtain ⟨j,rfl⟩ := Nat.exists_eq_add_of_le h
  rw [Nat.add_assoc,slice_append,List.drop_left' (slice_length m a i),slice_append,
    List.take_left' (slice_length m (a+i) k)]

theorem slice_getElem? (m : Mem) {a n i : ℕ} (h : i < n) :
    (slice m a n)[i]? = some (m (a+i)) := by
  induction n generalizing a i with
  | zero => omega
  | succ n ih =>
    cases i with
    | zero => simp [slice]
    | succ i =>
      simp only [slice,List.getElem?_cons_succ]
      rw [ih (by omega),show a+1+i = a+(i+1) by omega]

theorem slice_eq_iff (m : Mem) (a : ℕ) (bs : List UInt8) :
    slice m a bs.length = bs ↔ ∀ i < bs.length, bs[i]? = some (m (a+i)) := by
  constructor
  · intro h i hi
    rw [← h]
    exact slice_getElem? m hi
  · intro h
    apply List.ext_getElem?
    intro i
    rcases Nat.lt_or_ge i bs.length with hi | hi
    · rw [h i hi,slice_getElem? m hi]
    · rw [List.getElem?_eq_none hi,List.getElem?_eq_none (by simpa using hi)]

theorem slice_part_iff (m : Mem) (a : ℕ) {n k : ℕ} {bs : List UInt8} (h : k + bs.length ≤ n) :
    ((slice m a n).drop k).take bs.length = bs ↔
      ∀ i b, bs[i]? = some b → m (a + (k + i)) = b := by
  rw [slice_drop_take m a h,slice_eq_iff]
  constructor
  · intro hbytes i b hb
    have hi := (List.getElem?_eq_some_iff.mp hb).1
    rw [← Nat.add_assoc]
    exact Option.some.inj ((hbytes i hi).symm.trans hb)
  · intro hbytes i hi
    have hb := List.getElem?_eq_getElem hi
    rw [hb,Nat.add_assoc,hbytes i _ hb]

theorem write_apply_of_lt (m : Mem) {a x : ℕ} (bs : List UInt8) (h : x < a) :
    write m a bs x = m x := by
  simp [write,Nat.not_le.mpr h]

theorem write_apply_of_le (m : Mem) {a x : ℕ} {bs : List UInt8} (h : a + bs.length ≤ x) :
    write m a bs x = m x := by
  have hn : bs[x-a]? = none := List.getElem?_eq_none (by omega)
  simp [write,hn]

theorem write_apply (m : Mem) {a i : ℕ} {bs : List UInt8} (h : i < bs.length) :
    bs[i]? = some (write m a bs (a+i)) := by
  simp [write,h]

theorem slice_write (m : Mem) (a : ℕ) (bs : List UInt8) :
    slice (write m a bs) a bs.length = bs := by
  rw [slice_eq_iff]
  intro i h
  exact write_apply m h

theorem slice_write_disjoint (m : Mem) {a b n : ℕ} {bs : List UInt8}
    (h : a + n ≤ b ∨ b + bs.length ≤ a) : slice (write m b bs) a n = slice m a n := by
  apply slice_congr
  intro x h1 h2
  rcases h with h | h
  · exact write_apply_of_lt m bs (by omega)
  · exact write_apply_of_le m (by omega)

theorem load_congr {m m' : Mem} {a n : ℕ}
    (h : ∀ x, a ≤ x → x < a+n → m x = m' x) : load m a n = load m' a n := by
  rw [load,load,slice_congr h]

theorem load_shift {m m' : Mem} {a b n : ℕ} (h : ∀ i < n, m (a+i) = m' (b+i)) :
    load m a n = load m' b n := by
  rw [load,load,slice_shift h]

theorem leBytes_load (m : Mem) (a n : ℕ) : leBytes n (load m a n) = slice m a n := by
  have h := leBytes_leNat (slice m a n)
  rwa [slice_length] at h

theorem load_of_slice {m : Mem} {a n v : ℕ} (h : slice m a n = leBytes n v) (hv : v < 256 ^ n) :
    load m a n = v := by
  rw [load,h,leNat_leBytes_of_lt hv]

theorem slice_split {m : Mem} {a : ℕ} {xs ys : List UInt8}
    (h : slice m a (xs ++ ys).length = xs ++ ys) :
    slice m a xs.length = xs ∧ slice m (a+xs.length) ys.length = ys := by
  rw [List.length_append,slice_append] at h
  exact List.append_inj h (by simp)

theorem slice_eq_append {m : Mem} {a n : ℕ} {xs ys : List UInt8} (h : slice m a n = xs ++ ys) :
    n = xs.length + ys.length ∧ slice m a xs.length = xs ∧
      slice m (a+xs.length) ys.length = ys := by
  have hlen : n = (xs ++ ys).length := by rw [← h,slice_length]
  rw [hlen] at h
  exact ⟨hlen.trans List.length_append,slice_split h⟩

theorem load_write (m : Mem) {a n v : ℕ} (h : v < 256 ^ n) :
    load (write m a (leBytes n v)) a n = v := by
  have hs := slice_write m a (leBytes n v)
  rw [leBytes_length] at hs
  exact load_of_slice hs h

theorem load_write_disjoint (m : Mem) {a b n : ℕ} {bs : List UInt8}
    (h : a + n ≤ b ∨ b + bs.length ≤ a) : load (write m b bs) a n = load m a n := by
  rw [load,load,slice_write_disjoint m h]

def load16 (m : Mem) (a : ℕ) : UInt16 := UInt16.ofNat (load m a 2)

def load32 (m : Mem) (a : ℕ) : UInt32 := UInt32.ofNat (load m a 4)

def loadBits (n : ℕ) (m : Mem) (a : ℕ) : BitVec (8*n) := BitVec.ofNat _ (load m a n)

theorem load32_shift {m m' : Mem} {a b : ℕ} (h : ∀ i < 4, m (a+i) = m' (b+i)) :
    load32 m a = load32 m' b := by
  rw [load32,load32,load_shift h]

theorem load16_of_slice {m : Mem} {a : ℕ} {v : UInt16}
    (h : slice m a 2 = leBytes 2 v.toNat) : load16 m a = v := by
  rw [load16,load_of_slice h (by simpa using v.toNat_lt),UInt16.ofNat_toNat]

theorem load32_of_slice {m : Mem} {a : ℕ} {v : UInt32}
    (h : slice m a 4 = leBytes 4 v.toNat) : load32 m a = v := by
  rw [load32,load_of_slice h (by simpa using v.toNat_lt),UInt32.ofNat_toNat]

theorem load32_write (m : Mem) (a : ℕ) (v : UInt32) :
    load32 (write m a (leBytes 4 v.toNat)) a = v := by
  have hs := slice_write m a (leBytes 4 v.toNat)
  rw [leBytes_length] at hs
  exact load32_of_slice hs

theorem load32_write_disjoint (m : Mem) {a b : ℕ} {bs : List UInt8}
    (h : a + 4 ≤ b ∨ b + bs.length ≤ a) : load32 (write m b bs) a = load32 m a := by
  rw [load32,load32,load_write_disjoint m h]

theorem toNat_lt_pow {n : ℕ} (v : BitVec (8*n)) : v.toNat < 256 ^ n := by
  have h := v.isLt
  rwa [Nat.pow_mul] at h

theorem load_lt (m : Mem) (a n : ℕ) : load m a n < 256 ^ n := by
  have h := leNat_lt (slice m a n)
  rwa [slice_length] at h

theorem leBytes_load32 (m : Mem) (a : ℕ) : leBytes 4 (load32 m a).toNat = slice m a 4 := by
  rw [← leBytes_load,load32,UInt32.toNat_ofNat_of_lt' (load_lt m a 4)]

theorem loadBits_toNat (n : ℕ) (m : Mem) (a : ℕ) : (loadBits n m a).toNat = load m a n := by
  rw [loadBits,BitVec.toNat_ofNat,Nat.pow_mul]
  exact Nat.mod_eq_of_lt (load_lt m a n)

theorem leBytes_loadBits (n : ℕ) (m : Mem) (a : ℕ) :
    leBytes n (loadBits n m a).toNat = slice m a n := by
  rw [loadBits_toNat,leBytes_load]

theorem loadBits_of_slice {n : ℕ} {m : Mem} {a : ℕ} {v : BitVec (8*n)}
    (h : slice m a n = leBytes n v.toNat) : loadBits n m a = v := by
  rw [loadBits,load_of_slice h (toNat_lt_pow v),BitVec.ofNat_toNat,BitVec.setWidth_eq]

theorem loadBits_write {n : ℕ} (m : Mem) (a : ℕ) (v : BitVec (8*n)) :
    loadBits n (write m a (leBytes n v.toNat)) a = v := by
  have hs := slice_write m a (leBytes n v.toNat)
  rw [leBytes_length] at hs
  exact loadBits_of_slice hs

theorem loadBits_write_disjoint {n : ℕ} (m : Mem) {a b : ℕ} {bs : List UInt8}
    (h : a + n ≤ b ∨ b + bs.length ≤ a) : loadBits n (write m b bs) a = loadBits n m a := by
  rw [loadBits,loadBits,load_write_disjoint m h]

end ByteMemory
