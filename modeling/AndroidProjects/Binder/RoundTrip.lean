import AndroidProjects.Binder.Call
import AndroidProjects.Binder.Transfer
import Mathlib.Data.List.TakeWhile
import Mathlib.Data.UInt

namespace Binder
open ByteMemory Layout

structure CString (α : Type) [Zero α] where
  chars : List α
  nonzero : (0 : α) ∉ chars
  short : chars.length < maxBioSize / 2

inductive Value (A : Abi) where
  | uint32 (n : UInt32)
  | string16 (str : CString UInt16)
  | string16X (str : CString UInt8)
  | obj (ptr : A.Uintptr)
  | ref (handle : {h : UInt32 // h ≠ 0})

inductive Answered where
  | uint32 (n : UInt32)
  | string16 (str : Option (List UInt16)) (sz : ℕ)
  | ref (handle : UInt32)
  deriving DecidableEq, Repr

section
variable {A : Abi}

namespace Value

def put (io : BinderIo) : Value A → BinderIo
  | uint32 n => bioPutUint32 A io n
  | string16 str => bioPutString16 A io (some str.chars)
  | string16X str => bioPutString16X A io (some str.chars)
  | obj ptr => bioPutObj A io ptr
  | ref handle => bioPutRef A io handle

def get (io : BinderIo) : Value A → Answered × BinderIo
  | uint32 _ => (.uint32 (bioGetUint32 A io).1,(bioGetUint32 A io).2)
  | string16 _ => getString io
  | string16X _ => getString io
  | obj _ => (.ref (bioGetRef A io).1,(bioGetRef A io).2)
  | ref _ => (.ref (bioGetRef A io).1,(bioGetRef A io).2)
where
  getString (io : BinderIo) : Answered × BinderIo :=
    let r := bioGetString16 A io
    (.string16 (r.1.map fun p => loadUnits r.2.2.mem p r.2.1) r.2.1,r.2.2)

def putAll (io : BinderIo) (vs : List (Value A)) : BinderIo := vs.foldl put io

def getAll : BinderIo → List (Value A) → List Answered
  | _, [] => []
  | io, v :: vs => (get io v).1 :: getAll (get io v).2 vs

def answered (handles : ℕ → UInt32) : ℕ → List (Value A) → List Answered
  | _, [] => []
  | k, uint32 n :: vs => .uint32 n :: answered handles k vs
  | k, string16 str :: vs =>
    .string16 (some str.chars) str.chars.length :: answered handles k vs
  | k, string16X str :: vs =>
    .string16 (some (str.chars.map UInt8.toUInt16)) str.chars.length :: answered handles k vs
  | k, obj _ :: vs => .ref (handles k) :: answered handles (k+1) vs
  | k, ref _ :: vs => .ref (handles k) :: answered handles (k+1) vs

def answer (handles : ℕ → UInt32) (k : ℕ) : Value A → Answered
  | uint32 n => .uint32 n
  | string16 str => .string16 (some str.chars) str.chars.length
  | string16X str => .string16 (some (str.chars.map UInt8.toUInt16)) str.chars.length
  | obj _ => .ref (handles k)
  | ref _ => .ref (handles k)

def slots : Value A → ℕ
  | obj _ => 1
  | ref _ => 1
  | _ => 0

theorem answered_cons (handles : ℕ → UInt32) (k : ℕ) (v : Value A) (vs : List (Value A)) :
    answered handles k (v :: vs) = v.answer handles k :: answered handles (k + v.slots) vs := by
  cases v <;> rfl

def stringItems (us : List UInt16) : List (Item A) := [.uint32 (UInt32.ofNat us.length),.units us]

def items : Value A → List (Item A)
  | uint32 n => [.uint32 n]
  | string16 str => stringItems str.chars
  | string16X str => stringItems (str.chars.map UInt8.toUInt16)
  | obj ptr => [.object (.binder ptr)]
  | ref handle => [.object (.handle handle)]

theorem items_valid (v : Value A) : ∀ i ∈ v.items, i.Valid := by
  intro i hi
  cases v with
  | uint32 n =>
    rw [items,List.mem_singleton] at hi
    exact hi ▸ trivial
  | string16 str =>
    rcases List.mem_cons.mp hi with rfl | hi
    · trivial
    · exact List.mem_singleton.mp hi ▸ str.short
  | string16X str =>
    rcases List.mem_cons.mp hi with rfl | hi
    · trivial
    · refine List.mem_singleton.mp hi ▸ ?_
      simpa only [Item.Valid,List.length_map] using str.short
  | obj ptr =>
    rw [items,List.mem_singleton] at hi
    exact hi ▸ trivial
  | ref handle =>
    rw [items,List.mem_singleton] at hi
    exact hi ▸ handle.2

end Value

theorem values_valid (vs : List (Value A)) : ∀ i ∈ vs.flatMap Value.items, i.Valid := by
  intro i hi
  obtain ⟨v,-,hv⟩ := List.mem_flatMap.mp hi
  exact v.items_valid i hv

theorem takeWhile_nonzero {α : Type} [Zero α] [DecidableEq α] {chars : List α}
    (h : (0 : α) ∉ chars) : chars.takeWhile (· ≠ 0) = chars := by
  rw [List.takeWhile_eq_self_iff]
  intro a ha
  rw [decide_eq_true_eq]
  rintro rfl
  exact h ha

theorem value_put_items (io : BinderIo) (v : Value A) : v.put io = putAll io v.items := by
  cases v with
  | uint32 n => rfl
  | obj ptr => rfl
  | ref handle => rfl
  | string16 str =>
    have hlen : strlen16 str.chars = str.chars.length :=
      congrArg List.length (takeWhile_nonzero str.nonzero)
    have hshort := str.short
    simp only [Value.put,bioPutString16,hlen,if_neg (Nat.not_le.mpr hshort),List.take_length]
    rfl
  | string16X str =>
    have hlen : strlen str.chars = str.chars.length :=
      congrArg List.length (takeWhile_nonzero str.nonzero)
    have hshort := str.short
    simp only [Value.put,bioPutString16X,hlen,if_neg (Nat.not_le.mpr hshort),List.take_length]
    rw [Value.items,Value.stringItems,List.length_map]
    rfl

theorem value_putAll_items (io : BinderIo) (vs : List (Value A)) :
    Value.putAll io vs = putAll io (vs.flatMap Value.items) := by
  induction vs generalizing io with
  | nil => rfl
  | cons v vs ih =>
    have hv := ih (v.put io)
    rw [Value.putAll,List.foldl_cons,List.flatMap_cons,putAll,List.foldl_append]
    rw [value_put_items] at hv ⊢
    exact hv

theorem bioInit_wrote (io : BinderIo) (m : Mem) {data maxdata maxoffs : ℕ}
    (h : A.sizeT.wrap (maxoffs * A.sizeT.bytes) ≤ maxdata) :
    Wrote A (bioInit A io m data maxdata maxoffs) (bioInit A io m data maxdata maxoffs) [] := by
  rw [bioInit,if_neg (Nat.not_lt.mpr h)]
  refine ⟨rfl,rfl,rfl,rfl,Nat.zero_add _,Nat.zero_add _,trivial,fun n off hn => ?_⟩
  exact absurd hn (by simp [marks])

theorem getString_answered {m : Mem} {txn : BinderTransactionData A} {us ws : List (Item A)}
    {io : BinderIo} {str : List UInt16} (hlen : str.length < maxBioSize / 2)
    (hr : Readable A m txn (us ++ (Value.stringItems str ++ ws)))
    (hio : Reading A m txn us (Value.stringItems str ++ ws) io) :
    (Value.get.getString (A := A) io).1 = .string16 (some str) str.length ∧
      Reading A m txn (us ++ Value.stringItems str) ws (Value.get.getString (A := A) io).2 := by
  obtain ⟨p,hptr,hsz,hunits,hnext⟩ := reading_string16 hlen hr hio
  refine ⟨?_,hnext⟩
  simp only [Value.get.getString,hptr,hsz,hnext.mem,Option.map_some,hunits]

theorem value_deliver (handles : ℕ → UInt32) (k : ℕ) (v : Value A) (ks : List (Item A)) :
    deliver handles k (v.items ++ ks) =
      deliver handles k v.items ++ deliver handles (k + v.slots) ks := by
  cases v <;> rfl

theorem value_read {m : Mem} {txn : BinderTransactionData A} {handles : ℕ → UInt32} (v : Value A)
    {k : ℕ} {us ks : List (Item A)} {io : BinderIo}
    (hr : Readable A m txn (us ++ deliver handles k (v.items ++ ks)))
    (hio : Reading A m txn us (deliver handles k (v.items ++ ks)) io) :
    (Value.get io v).1 = v.answer handles k ∧
      Reading A m txn (us ++ deliver handles k v.items) (deliver handles (k + v.slots) ks)
        (Value.get io v).2 := by
  cases v with
  | uint32 n =>
    obtain ⟨hval,hnext⟩ := reading_uint32 hr hio
    exact ⟨congrArg Answered.uint32 hval,hnext⟩
  | string16 str => exact getString_answered str.short hr hio
  | string16X str =>
    have hlen : (str.chars.map UInt8.toUInt16).length = str.chars.length := List.length_map _
    have hread := getString_answered (hlen ▸ str.short) hr hio
    rw [hlen] at hread
    exact hread
  | obj ptr =>
    obtain ⟨hval,hnext⟩ := reading_ref hr hio
    exact ⟨congrArg Answered.ref hval,hnext⟩
  | ref handle =>
    obtain ⟨hval,hnext⟩ := reading_ref hr hio
    exact ⟨congrArg Answered.ref hval,hnext⟩

theorem getAll_answered {m : Mem} {txn : BinderTransactionData A} (handles : ℕ → UInt32)
    (vs : List (Value A)) {k : ℕ} {us : List (Item A)} {io : BinderIo}
    (hr : Readable A m txn (us ++ deliver handles k (vs.flatMap Value.items)))
    (hio : Reading A m txn us (deliver handles k (vs.flatMap Value.items)) io) :
    Value.getAll io vs = Value.answered handles k vs := by
  induction vs generalizing k us io with
  | nil => rfl
  | cons v vs ih =>
    rw [List.flatMap_cons] at hr hio
    obtain ⟨hval,hnext⟩ := value_read v hr hio
    rw [value_deliver,← List.append_assoc] at hr
    rw [Value.getAll,Value.answered_cons,hval,ih hr hnext]

end

structure BioInitAccepts (w : Word) (maxdata maxoffs : ℕ) : Prop where
  offsets : maxoffs * w.bytes ≤ maxdata
  size : maxdata < w.modulus

section
variable {w : Word}

theorem bioInit_roomy {maxdata maxoffs : ℕ} (h : BioInitAccepts w maxdata maxoffs) (io : BinderIo)
    (m : Mem) (data n : ℕ) :
    Roomy (Abi.uniform w) (bioInit (Abi.uniform w) io m data maxdata maxoffs) n ∧
      (bioInit (Abi.uniform w) io m data maxdata maxoffs).dataAvail < w.modulus ∧
      (bioInit (Abi.uniform w) io m data maxdata maxoffs).offsAvail = maxoffs := by
  have hw : (Abi.uniform w).sizeT.wrap (maxoffs * (Abi.uniform w).sizeT.bytes) =
      maxoffs * w.bytes := Word.wrap_of_lt (h.offsets.trans_lt h.size)
  have hn : ¬ maxoffs * w.bytes > maxdata := Nat.not_lt.mpr h.offsets
  have hs := h.size
  rw [bioInit,hw,if_neg hn]
  refine ⟨?_,?_,rfl⟩
  · have hmin := Nat.mul_le_mul_left w.bytes (Nat.min_le_right n maxoffs)
    rw [Nat.mul_comm w.bytes maxoffs] at hmin
    exact Nat.add_le_add_left hmin data
  · simp only []
    omega

theorem parcel_round_trip {maxdata maxoffs : ℕ} (h : BioInitAccepts w maxdata maxoffs)
    (io : BinderIo) (m : Mem) (data : ℕ) (vs : List (Value (Abi.uniform w))) {σ : Type}
    (V : Server (Abi.uniform w) σ) (p : Proc (Abi.uniform w) σ) (reply : BinderIo)
    (target code : UInt32) :
    let msg := Value.putAll (bioInit (Abi.uniform w) io m data maxdata maxoffs) vs
    (∀ rounds, binderCall V p msg reply target code rounds = some (-1,ioError reply,p)) ∨
    Submits V p msg reply target code ∧
    ∀ handles m' txn, Delivered (Abi.uniform w) (callTransaction msg target code) handles m' txn →
      Value.getAll (bioInitFromTxn (Abi.uniform w) m' txn) vs = Value.answered handles 0 vs := by
  intro msg
  have hvalid := values_valid vs
  obtain ⟨hroom,hfit,hoffs⟩ := bioInit_roomy h io m data
    (([] ++ vs.flatMap Value.items).countP Item.isObject)
  have haccept : (Abi.uniform w).sizeT.wrap (maxoffs * (Abi.uniform w).sizeT.bytes) ≤ maxdata :=
    (Nat.mod_le _ _).trans h.offsets
  have hmsg : msg = putAll _ (vs.flatMap Value.items) := value_putAll_items _ vs
  by_cases ho : msg.overflow
  · exact .inl fun rounds => binderCall_overflow V ho p reply target code rounds
  · refine .inr ⟨binderCall_submits ho p reply target code,fun handles m' txn hd => ?_⟩
    have hw : Wrote (Abi.uniform w) (bioInit (Abi.uniform w) io m data maxdata maxoffs) msg
        (vs.flatMap Value.items) := by
      rw [hmsg] at ho ⊢
      exact (putAll_wrote (bioInit_wrote io m haccept) hvalid hroom hfit).resolve_left ho
    have htable : w.bytes * (vs.flatMap Value.items).countP Item.isObject < w.modulus := by
      have hleft := hw.offsAvail
      rw [hoffs] at hleft
      have hcount : (vs.flatMap Value.items).countP Item.isObject ≤ maxoffs := by omega
      have hmul := Nat.mul_le_mul_left w.bytes hcount
      rw [Nat.mul_comm w.bytes maxoffs] at hmul
      exact (hmul.trans h.offsets).trans_lt h.size
    have hr := delivered_readable hw hvalid hfit htable hd (wrap_toNat txn.buffer)
      (wrap_toNat txn.offsets)
    exact getAll_answered handles vs hr (reading_init hr)

end

def sampleValues : List (Value (Abi.uniform .four)) :=
  [.string16X ⟨[104,105],by decide,by decide⟩,.obj 16,.uint32 7,.ref ⟨3,by decide⟩]

def sampleMsg : BinderIo :=
  Value.putAll (bioInit (Abi.uniform .four) ⟨fun _ => 0,0,0,0,0,0,0,0⟩ (fun _ => 0) 0 64 2)
    sampleValues

def sampleMem : Mem :=
  write (write (write (write (write (fun _ => 0) 100 sampleMsg.dataBytes)
    112 (leBytes 4 binderTypeHandle.toNat)) 120 (leBytes 4 40)) 140 (leBytes 4 41))
    200 sampleMsg.offsBytes

def sampleTxn : BinderTransactionData (Abi.uniform .four) where
  target := 0
  cookie := 0
  code := 1
  flags := 0
  senderPid := 0
  senderEuid := 0
  dataSize := 48
  offsetsSize := 8
  buffer := 100
  offsets := 200

def quietServer : Server (Abi.uniform .four) Unit := ⟨⟨0,0,0⟩,none,fun _ _ => 0,fun _ p => p⟩

-- the driver takes the message and the wait for the reply fails
def takenRounds : List CallRound := [⟨true,none⟩]

theorem parcel_round_trip_sample :
    (∃ rio p', binderCall quietServer ⟨(),[],0⟩ sampleMsg ⟨fun _ => 0,0,0,0,0,0,0,0⟩ 0 1
      takenRounds = some (-1,rio,p') ∧
        p'.written = [.transaction (callTransaction sampleMsg 0 1)]) ∧
    Value.getAll (bioInitFromTxn (Abi.uniform .four) sampleMem sampleTxn) sampleValues =
      [.string16 (some [104,105]) 2,.ref 40,.uint32 7,.ref 41] := by
  have haccept : BioInitAccepts .four 64 2 := ⟨by decide,by decide⟩
  have hfits : ¬ sampleMsg.overflow := by decide +kernel
  have hd : Delivered (Abi.uniform .four) (callTransaction sampleMsg 0 1)
      (fun n => UInt32.ofNat (40+n)) sampleMem sampleTxn := by
    apply delivered_of_checks <;> decide +kernel
  have hcall : binderCall quietServer ⟨(),[],0⟩ sampleMsg ⟨fun _ => 0,0,0,0,0,0,0,0⟩ 0 1
      takenRounds = some (-1,ioError ⟨fun _ => 0,0,0,0,0,0,0,0⟩,
        binderWrite ⟨(),[],0⟩ [.transaction (callTransaction sampleMsg 0 1)]) := if_neg hfits
  rcases parcel_round_trip haccept ⟨fun _ => 0,0,0,0,0,0,0,0⟩ (fun _ => 0) 0 sampleValues
    quietServer ⟨(),[],0⟩ ⟨fun _ => 0,0,0,0,0,0,0,0⟩ 0 1 with hfail | ⟨hsub,hread⟩
  · have hsent := (hfail []).symm.trans (if_neg hfits)
    cases hsent
  · refine ⟨⟨_,_,hcall,?_⟩,hread _ _ _ hd⟩
    obtain ⟨q,hbefore,hafter⟩ := hsub.taken [] ⟨true,none⟩ [] _ _ _
      (fun _ hu => absurd hu List.not_mem_nil) rfl (if_neg hfits) hcall
    have hkept : ∀ {p q}, Waited quietServer p q → q.written = p.written := fun hq =>
      waited_kept Proc.written (fun _ => rfl) (fun _ _ => rfl) hq
    rw [hkept hafter,binderWrite_written,hkept hbefore]
    rfl

end Binder
