import AndroidProjects.Binder.Footprint
import AndroidProjects.Binder.Stream

namespace Binder
open ByteMemory Layout

section
variable {A : Abi} {σ : Type}

def invoked (handler : BinderHandler A σ) (m : Mem) (p : Proc A σ)
    (txn : BinderTransactionData A) (rdata : Mem) : Int × BinderIo × Proc A σ :=
  handler p txn (bioInitFromTxn A m txn) (bioInit A ⟨rdata,0,0,0,0,0,0,0⟩ rdata 0 256 4)

def answerOf (out : Int × BinderIo × Proc A σ) : Outgoing :=
  if out.1 ≠ 0 then statusReply out.1 else dataReply out.2.1

theorem serveTransaction_answered (V : Server A σ) (handler : BinderHandler A σ) (m : Mem)
    (p : Proc A σ) (txn : BinderTransactionData A) (rdata : Mem) :
    serveTransaction {V with func := some handler} m p txn rdata =
      binderWrite (invoked handler m p txn rdata).2.2
        [.freeBuffer txn.buffer,.reply (answerOf (invoked handler m p txn rdata))] := rfl

def filling (puts : Proc A σ → BinderTransactionData A → BinderIo → List (Put A) × Proc A σ) :
    BinderHandler A σ := fun p txn msg reply =>
  (0,Put.runAll reply (puts p txn msg).1,(puts p txn msg).2)

def ReplyFits (A : Abi) (vs : List (Put A)) : Prop :=
  extent Piece.size (vs.flatMap Put.pieces) ≤ 256 - 4 * A.sizeT.bytes ∧
    pieceSlots (vs.flatMap Put.pieces) ≤ 4

instance (vs : List (Put A)) : Decidable (ReplyFits A vs) :=
  inferInstanceAs (Decidable (_ ∧ _))

def entryBytes (A : Abi) (vs : List (Put A)) : List UInt8 :=
  (marks Piece.size Piece.listed 0 (vs.flatMap Put.pieces)).flatMap (leBytes A.binderSizeT.bytes)

-- an entry past the area bio_init sets aside for four of them repeats the payload it covers
def EntriesHarmless (A : Abi) (vs : List (Put A)) : Prop :=
  Placed Piece.size (fun p c => ∀ w ∈ c.stores, ∀ i b e, w.2[i]? = some b →
    (entryBytes A vs)[4 * A.sizeT.bytes + (p + w.1 + i)]? = some e → e = b) 0
    (vs.flatMap Put.pieces)

structure Whole (A : Abi) (vs : List (Put A)) (sent : Outgoing) : Prop where
  data : sent.data.length = extent Piece.size (vs.flatMap Put.pieces)
  encoded : Placed Piece.size
    (fun p c => ∀ w ∈ c.stores, (sent.data.drop (p + w.1)).take w.2.length = w.2) 0
    (vs.flatMap Put.pieces)
  offsets : sent.offsets = entryBytes A vs

theorem entryBytes_length (vs : List (Put A)) : (entryBytes A vs).length =
    A.binderSizeT.bytes * pieceSlots (vs.flatMap Put.pieces) := by
  have hmarks := marks_length Piece.size Piece.listed 0 (vs.flatMap Put.pieces)
  rw [entryBytes,pieceSlots,← hmarks]
  generalize marks Piece.size Piece.listed 0 (vs.flatMap Put.pieces) = ps
  induction ps with
  | nil => rfl
  | cons p ps ih =>
    rw [List.flatMap_cons,List.length_append,leBytes_length,ih,List.length_cons]
    ring

theorem harmless_of_apart {vs : List (Put A)}
    (h : A.binderSizeT.bytes * pieceSlots (vs.flatMap Put.pieces) ≤ 4 * A.sizeT.bytes) :
    EntriesHarmless A vs := by
  have hnone : ∀ n, (entryBytes A vs)[4 * A.sizeT.bytes + n]? = none := fun n =>
    List.getElem?_eq_none (by rw [entryBytes_length]; omega)
  refine placed_of_forall (fun p c w _ i b e _ he => ?_) 0 _
  rw [hnone] at he
  cases he

theorem harmless_of_eq (hs : A.sizeT = A.binderSizeT) {vs : List (Put A)} (h : ReplyFits A vs) :
    EntriesHarmless A vs := by
  refine harmless_of_apart ?_
  rw [hs,Nat.mul_comm 4]
  exact Nat.mul_le_mul_left _ h.2

theorem toNat_ofNat_small {n : ℕ} (h : n < 2 ^ 32) :
    (BitVec.ofNat (8 * A.sizeT.bytes) n).toNat = n := by
  have hm := A.sizeT.modulus_ge
  rw [Word.modulus] at hm
  rw [BitVec.toNat_ofNat,Nat.pow_mul]
  exact Nat.mod_eq_of_lt (h.trans_le hm)

theorem reserved_four (A : Abi) : reserved A (BitVec.ofNat _ 4) = 4 * A.sizeT.bytes := by
  rw [reserved,toNat_ofNat_small (by decide)]
  exact A.sizeT.wrap_four

def replyFilled (A : Abi) (rdata : Mem) (vs : List (Put A)) : BinderIo :=
  filled A ⟨rdata,0,0,0,0,0,0,0⟩ rdata 0 (BitVec.ofNat _ 256) (BitVec.ofNat _ 4) vs

theorem replyFilled_eq (rdata : Mem) (vs : List (Put A)) : replyFilled A rdata vs =
    Put.runAll (bioInit A ⟨rdata,0,0,0,0,0,0,0⟩ rdata 0 256 4) vs := by
  rw [replyFilled,filled,toNat_ofNat_small (by decide),toNat_ofNat_small (by decide)]

theorem putsFit_reply (vs : List (Put A)) :
    PutsFit A (BitVec.ofNat _ 256) (BitVec.ofNat _ 4) vs ↔ ReplyFits A vs := by
  have hs := A.sizeT.bytes_le_eight
  rw [PutsFit,reserved_four,toNat_ofNat_small (by decide),toNat_ofNat_small (by decide),ReplyFits]
  exact and_iff_right (by omega)

section
variable {vs : List (Put A)} {maxdata : A.Uintptr}
  (h : PutsFit A maxdata (BitVec.ofNat _ 4) vs) (io : BinderIo) (m : Mem) (data : ℕ)
include h

theorem filled_entries :
    (filled A io m data maxdata (BitVec.ofNat _ 4) vs).offsBytes = entryBytes A vs := by
  have hs := A.sizeT.four_le_bytes
  have hb := A.binderSizeT.bytes_le_eight
  have hentries : slice (stores m (laidStores (data + 4 * A.sizeT.bytes)
      (data + 4 * A.sizeT.bytes) data (vs.flatMap Put.pieces))) data
      (A.binderSizeT.bytes * pieceSlots (vs.flatMap Put.pieces)) = _ :=
    laid_entries (Nat.le_refl _) (by omega) m
  rw [Nat.sub_self] at hentries
  rw [offsBytes_filled h,filled_mem h,reserved_four,hentries,entryBytes]

theorem filled_entry {n : ℕ} {e : UInt8} (he : (entryBytes A vs)[n]? = some e) :
    (filled A io m data maxdata (BitVec.ofNat _ 4) vs).mem (data + n) = e := by
  have hn := (List.getElem?_eq_some_iff.mp he).1
  rw [entryBytes_length] at hn
  rw [← filled_entries h io m data,offsBytes_filled h,slice_getElem? _ hn] at he
  exact Option.some.inj he

theorem filled_payload : Placed Piece.size (fun p c => ∀ w ∈ c.stores, ∀ i b,
    w.2[i]? = some b → (entryBytes A vs)[4 * A.sizeT.bytes + (p + w.1 + i)]? = none →
      (filled A io m data maxdata (BitVec.ofNat _ 4) vs).mem
        (data + 4 * A.sizeT.bytes + (p + w.1 + i)) = b) 0 (vs.flatMap Put.pieces) := by
  have hlaid : Placed Piece.size _ (data + 4 * A.sizeT.bytes + 0) (vs.flatMap Put.pieces) :=
    laid_payload (data + 4 * A.sizeT.bytes) (Nat.le_refl data) (Nat.le_refl _) m
  refine (placed_shift.mpr hlaid).imp fun q c _ _ _ hc w hw i b hb hnone => ?_
  rw [List.getElem?_eq_none_iff,entryBytes_length] at hnone
  have hat := hc w hw i b hb (.inr (by omega))
  rw [filled_mem h,reserved_four]
  simpa only [Nat.add_assoc,Nat.add_zero] using hat

theorem filled_encoded_iff : Placed Piece.size (fun p c => ∀ w ∈ c.stores,
      ((filled A io m data maxdata (BitVec.ofNat _ 4) vs).dataBytes.drop (p + w.1)).take
        w.2.length = w.2) 0 (vs.flatMap Put.pieces) ↔ EntriesHarmless A vs := by
  have hpart : ∀ p c w, w ∈ Piece.stores (A := A) c →
      p + c.size ≤ 0 + extent Piece.size (vs.flatMap Put.pieces) →
      (((filled A io m data maxdata (BitVec.ofNat _ 4) vs).dataBytes.drop (p + w.1)).take
        w.2.length = w.2 ↔ ∀ i b, w.2[i]? = some b →
          (filled A io m data maxdata (BitVec.ofNat _ 4) vs).mem
            (data + 4 * A.sizeT.bytes + (p + w.1 + i)) = b) := by
    intro p c w hw hend
    have hin := store_within hw
    rw [dataBytes_filled h,reserved_four]
    exact slice_part_iff _ _ (by omega)
  constructor
  · intro hencoded
    refine hencoded.imp fun q c _ _ hend hc w hw i b e hb he => ?_
    have hbyte := (hpart q c w hw hend).mp (hc w hw) i b hb
    rw [← filled_entry h io m data he,← Nat.add_assoc data]
    exact hbyte
  · intro hharmless
    refine (placed_and.mpr ⟨hharmless,filled_payload h io m data⟩).imp
      fun q c _ _ hend hc w hw => ?_
    rw [hpart q c w hw hend]
    intro i b hb
    rcases he : (entryBytes A vs)[4 * A.sizeT.bytes + (q + w.1 + i)]? with _ | e
    · exact hc.2 w hw i b hb he
    · rw [← hc.1 w hw i b e hb he,← filled_entry h io m data he,Nat.add_assoc data]

theorem filled_whole (hharmless : EntriesHarmless A vs) (target code flags : UInt32) : Whole A vs
    ⟨target,code,flags,(filled A io m data maxdata (BitVec.ofNat _ 4) vs).dataBytes,
      (filled A io m data maxdata (BitVec.ofNat _ 4) vs).offsBytes⟩ := by
  refine ⟨?_,(filled_encoded_iff h io m data).mpr hharmless,filled_entries h io m data⟩
  simp only [dataBytes_filled h,slice_length]

end

theorem reply_whole {vs : List (Put A)} (h : ReplyFits A vs) (hharmless : EntriesHarmless A vs)
    (rdata : Mem) : Whole A vs (dataReply (replyFilled A rdata vs)) :=
  filled_whole ((putsFit_reply vs).mpr h) _ _ _ hharmless _ _ _

theorem reply_bounded (rdata : Mem) (vs : List (Put A)) :
    (dataReply (replyFilled A rdata vs)).data.length ≤ 256 - 4 * A.sizeT.bytes ∧
    (dataReply (replyFilled A rdata vs)).offsets.length ≤ A.binderSizeT.bytes * 4 := by
  have hs := A.sizeT.bytes_le_eight
  have hres := reserved_four A
  have haccept : reserved A (BitVec.ofNat _ 4) ≤ (BitVec.ofNat (8 * A.sizeT.bytes) 256).toNat := by
    rw [hres,toNat_ofNat_small (by decide)]
    omega
  have hspent := putAll_spent (bioInit A ⟨rdata,0,0,0,0,0,0,0⟩ rdata 0
    (BitVec.ofNat (8 * A.sizeT.bytes) 256).toNat (BitVec.ofNat (8 * A.sizeT.bytes) 4).toNat)
    (vs.flatMap Put.pieces)
  rw [← Put.runAll_pieces] at hspent
  change Spent A _ (replyFilled A rdata vs) at hspent
  rw [bioInit_accepted haccept,hres,toNat_ofNat_small (by decide),
    toNat_ofNat_small (by decide)] at hspent
  have hdata := hspent.data
  have hdata0 := hspent.data0
  have hoffs := hspent.offs
  have hoffs0 := hspent.offs0
  simp only [] at hdata hdata0 hoffs hoffs0
  simp only [dataReply,BinderIo.dataBytes,BinderIo.offsBytes,slice_length]
  constructor
  · omega
  · omega

theorem success_whole_iff_fits (V : Server A σ)
    (puts : Proc A σ → BinderTransactionData A → BinderIo → List (Put A) × Proc A σ) (m : Mem)
    (p : Proc A σ) (txn : BinderTransactionData A) (rdata : Mem) :
    let out := puts p txn (bioInitFromTxn A m txn)
    ∃ sent, (serveTransaction {V with func := some (filling puts)} m p txn rdata).written =
        out.2.written ++ [.freeBuffer txn.buffer,.reply sent] ∧
      ((sent.flags = 0 → Whole A out.1 sent) ↔ ReplyFits A out.1 ∧ EntriesHarmless A out.1) := by
  intro out
  refine ⟨dataReply (replyFilled A rdata out.1),?_,?_⟩
  · rw [serveTransaction_answered,replyFilled_eq]
    rfl
  · constructor
    · intro hwhole
      have hw := hwhole rfl
      obtain ⟨hdata,hoffs⟩ := reply_bounded rdata out.1
      rw [hw.data] at hdata
      rw [hw.offsets,entryBytes_length] at hoffs
      have hb := A.binderSizeT.bytes_pos
      have hfit : ReplyFits A out.1 := ⟨hdata,Nat.le_of_mul_le_mul_left hoffs hb⟩
      exact ⟨hfit,(filled_encoded_iff ((putsFit_reply _).mpr hfit) _ _ _).mp hw.encoded⟩
    · rintro ⟨hfit,hharmless⟩ _
      exact reply_whole hfit hharmless rdata

end

def longPuts (p : Proc (Abi.uniform .four) Unit) (_ : BinderTransactionData (Abi.uniform .four))
    (_ : BinderIo) : List (Put (Abi.uniform .four)) × Proc (Abi.uniform .four) Unit :=
  ([.string16X (some (List.replicate 200 97))],p)

def idleServer : Server (Abi.uniform .four) Unit := ⟨⟨3,0,0⟩,none,fun _ _ => 0,fun _ p => p⟩

theorem truncated_reply_succeeds :
    ¬ ∀ (A : Abi) (V : Server A Unit)
      (puts : Proc A Unit → BinderTransactionData A → BinderIo → List (Put A) × Proc A Unit)
      (m : Mem) (p : Proc A Unit) (txn : BinderTransactionData A) (rdata : Mem) (sent : Outgoing),
      (serveTransaction {V with func := some (filling puts)} m p txn rdata).written =
        (puts p txn (bioInitFromTxn A m txn)).2.written ++ [.freeBuffer txn.buffer,.reply sent] →
      sent.flags = 0 → Whole A (puts p txn (bioInitFromTxn A m txn)).1 sent := by
  intro hall
  have hw := hall (Abi.uniform .four) idleServer longPuts (fun _ => 0) ⟨(),[],0⟩
    ⟨0,0,1,0,0,0,0,0,4096,4096⟩ (fun _ => 0) _ rfl rfl
  exact absurd hw.data (by decide +kernel)

end Binder
