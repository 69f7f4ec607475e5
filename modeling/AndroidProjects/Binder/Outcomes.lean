import AndroidProjects.Binder.Carried
import AndroidProjects.Binder.Received
import AndroidProjects.Binder.Replies

namespace Binder
open ByteMemory Layout

section
variable {A : Abi} {σ : Type}

def Put.kind (v : Put A) : Get := v.content.kind

-- the entries of a reply stay in the area bio_init sets aside
def EntriesKept (A : Abi) (vs : List (Put A)) : Prop :=
  A.binderSizeT.bytes * min (pieceSlots (vs.flatMap Put.pieces)) 4 ≤ 4 * A.sizeT.bytes

theorem entriesKept_of_eq (h : A.sizeT = A.binderSizeT) (vs : List (Put A)) :
    EntriesKept A vs := by
  rw [EntriesKept,h,Nat.mul_comm 4]
  exact Nat.mul_le_mul_left _ (Nat.min_le_right _ _)

-- a string without a length reaches a 32-bit caller who has found every put before it
def Garbles (A : Abi) (vs : List (Put A)) : Prop :=
  A.sizeT = .four ∧ ∃ us, us <+: vs ∧ ReplyFits A us ∧ (∃ v ∈ us, v.content.Marked) ∧ .ref 0 ∉ us

-- what a caller may conclude from a reply he could read as far as gs
def ReadTruly {sent : Outgoing} (relay : Relay A sent) (vs : List (Put A))
    (out : Int × BinderIo × Proc A σ) (rio : BinderIo) : Prop :=
  ∀ gs : List Get, ¬ (Machine.run (Get.run A) rio gs).overflow → out.1 = 0 ∧
    ∀ us, us <+: vs → us.map Put.kind = gs →
      Heard relay.carried.handles 0 rio (us.map Put.content)

def replyStart (A : Abi) (rdata : Mem) : BinderIo :=
  ⟨rdata,4 * A.sizeT.bytes,0,256 - 4 * A.sizeT.bytes,4,4 * A.sizeT.bytes,0,0⟩

theorem replyStart_eq (rdata : Mem) : bioInit A ⟨rdata,0,0,0,0,0,0,0⟩ rdata 0 256 4 =
    ⟨rdata,4 * A.sizeT.bytes,0,256 - 4 * A.sizeT.bytes,4,4 * A.sizeT.bytes,0,0⟩ := by
  have hs := A.sizeT.bytes_le_eight
  rw [bioInit,A.sizeT.wrap_four,if_neg (by omega),Nat.zero_add]

theorem zeroRef_content {v : Put A} (h : v.content = .zeroRef) : v = .ref 0 := by
  cases v with
  | ref handle =>
    rw [Put.content] at h
    split_ifs at h with hz
    rw [hz]
  | uint32 n => cases h
  | obj ptr => cases h
  | string16 str => cases h
  | string16X str => cases h

theorem map_kind (us : List (Put A)) :
    us.map Put.kind = (us.map Put.content).map Content.kind := (List.map_map ..).symm

section
variable {vs us : List (Put A)} {rdata : Mem}

theorem contents_addressable (haddr : ∀ v ∈ vs, v.content.Addressable) (hus : us <+: vs) :
    ∀ c ∈ us.map Put.content, c.Addressable := by
  intro c hc
  obtain ⟨v,hv,rfl⟩ := List.mem_map.mp hc
  exact haddr v (hus.subset hv)

theorem replyStart_wrote : Wrote A (replyStart A rdata) (replyStart A rdata) [] := by
  have hs := A.sizeT.bytes_le_eight
  have hm := A.sizeT.modulus_ge
  have hwrap := A.sizeT.wrap_four
  have hinit : Wrote A (bioInit A ⟨rdata,0,0,0,0,0,0,0⟩ rdata 0 256 4)
      (bioInit A ⟨rdata,0,0,0,0,0,0,0⟩ rdata 0 256 4) [] := bioInit_wrote _ _ (by omega)
  rwa [replyStart_eq] at hinit

theorem replyStart_roomy (rdata : Mem) (h : EntriesKept A vs) :
    Roomy A (replyStart A rdata) (pieceSlots (vs.flatMap Put.pieces)) := by
  rw [EntriesKept] at h
  simpa [Roomy,replyStart] using h

theorem replyStart_fit : (replyStart A rdata).dataAvail < A.binderSizeT.modulus := by
  have hbm := A.binderSizeT.modulus_ge
  simp only [replyStart]
  omega

theorem reply_fits_of_lain {ks ls : List (Item A)} {io : BinderIo}
    (hw : Wrote A (replyStart A rdata) io (ks ++ ls)) (h : Lain A (us.flatMap Put.pieces) ks) :
    ReplyFits A us := by
  obtain ⟨hsize,hslots⟩ := lain_layout h
  have hdata := hw.dataAvail
  have hoffs := hw.offsAvail
  rw [extent_append,hsize] at hdata
  rw [List.countP_append,hslots] at hoffs
  simp only [replyStart] at hdata hoffs
  exact ⟨by omega,by omega⟩

variable {handles : ℕ → UInt32} {m : Mem} {txn : BinderTransactionData A}
  (hd : Delivered A (dataReply (Put.runAll (replyStart A rdata) vs)) handles m txn)
  (hbuffer : A.sizeT.wrap txn.buffer.toNat = txn.buffer.toNat)
  (hoffsets : A.sizeT.wrap txn.offsets.toNat = txn.offsets.toNat)
include hd hbuffer hoffsets

theorem reply_readable {ks : List (Item A)}
    (hw : Wrote A (replyStart A rdata) (Put.runAll (replyStart A rdata) vs) ks)
    (hvalid : ∀ k ∈ ks, k.Valid) :
    Readable A m txn (deliver handles 0 ks) ∧ EntriesExact A txn (deliver handles 0 ks) ∧
      extent Item.size ks < 2 ^ 33 := by
  have hm := A.sizeT.modulus_ge
  have hb := A.binderSizeT.bytes_le_eight
  have hdata := hw.dataAvail
  have hoffs := hw.offsAvail
  simp only [replyStart] at hdata hoffs
  have hcount : ks.countP Item.isObject ≤ 4 := by omega
  have htable := Nat.mul_le_mul hb hcount
  refine ⟨?_,delivered_entries hw (by simp only [replyStart]; omega) hd,by omega⟩
  exact delivered_readable hw hvalid (by simp only [replyStart]; omega) (by omega) hd hbuffer
    hoffsets

variable (hkept : EntriesKept A vs) (haddr : ∀ v ∈ vs, v.content.Addressable) (hus : us <+: vs)
include hkept haddr hus

theorem reply_read
    (hclear : ¬ (Machine.run (Get.run A) (bioInitFromTxn A m txn) (us.map Put.kind)).overflow) :
    ReplyFits A us ∧ Read handles 0 (bioInitFromTxn A m txn) (us.map Put.content) := by
  have hroom := replyStart_roomy rdata hkept
  obtain ⟨ks,hks,hkv,hcut⟩ := putAll_cut replyStart_wrote
    (fun u hu => absurd hu List.not_mem_nil) replyStart_fit
    ⟨(Nat.zero_add _).symm,Nat.zero_lt_succ 3⟩ (puts_sound vs) (by simpa using hroom)
  rw [List.nil_append,← Put.runAll_pieces] at hks
  obtain ⟨hr,he,hsmall⟩ := reply_readable hd hbuffer hoffsets hks hkv
  have haddr' := contents_addressable haddr hus
  obtain ⟨ws,rfl⟩ := hus
  rw [List.flatMap_append,puts_content us] at hcut
  rw [map_kind] at hclear
  have hall : Readable A m txn ([] ++ deliver handles 0 ks) := hr
  have hentries : EntriesExact A txn ([] ++ deliver handles 0 ks) := he
  rcases reading_cut hall (reading_init hr) hentries hsmall haddr' hcut with
    ⟨js,js',rfl,hjs⟩ | ho
  · rcases reading_lain hall (reading_init hr) hentries hsmall haddr' hjs with ⟨ho,-⟩ | hread
    · exact absurd ho hclear
    · rw [← puts_content] at hjs
      exact ⟨reply_fits_of_lain hks hjs,hread⟩
  · exact absurd ho hclear

theorem reply_fitting (hfit : ReplyFits A us) :
    (∃ c ∈ us.map Put.content, c.Stops A) ∨
      Read handles 0 (bioInitFromTxn A m txn) (us.map Put.content) := by
  have hroom := replyStart_roomy rdata hkept
  have haddr' := contents_addressable haddr hus
  obtain ⟨ws,rfl⟩ := hus
  have hslots : pieceSlots ((us ++ ws).flatMap Put.pieces) =
      pieceSlots (us.flatMap Put.pieces) + pieceSlots (ws.flatMap Put.pieces) := by
    rw [List.flatMap_append,pieceSlots,List.countP_append]
    rfl
  rw [hslots] at hroom
  obtain ⟨js,hjs,hjv,hlain⟩ := putAll_lain replyStart_wrote
    (fun u hu => absurd hu List.not_mem_nil) replyStart_fit (puts_sound us)
    (hroom.mono (by simp)) hfit
  rw [List.nil_append] at hjs
  obtain ⟨ls,hls,hlv,-⟩ := putAll_kept hjs hjv replyStart_fit (puts_sound ws)
    (hroom.mono (by rw [(lain_layout hlain).2]))
  have hrun : Piece.putAll (Piece.putAll (replyStart A rdata) (us.flatMap Put.pieces))
      (ws.flatMap Put.pieces) = Put.runAll (replyStart A rdata) (us ++ ws) := by
    rw [Put.runAll_pieces,List.flatMap_append]
    exact List.foldl_append.symm
  rw [hrun] at hls
  obtain ⟨hr,he,hsmall⟩ := reply_readable hd hbuffer hoffsets hls
    (List.forall_mem_append.mpr ⟨hjv,hlv⟩)
  have hall : Readable A m txn ([] ++ deliver handles 0 (js ++ ls)) := hr
  have hentries : EntriesExact A txn ([] ++ deliver handles 0 (js ++ ls)) := he
  rw [puts_content] at hlain
  exact (reading_lain hall (reading_init hr) hentries hsmall haddr' hlain).imp_left And.right

end

section
variable {τ : Type} {handler : BinderHandler A σ} {m : Mem} {p : Proc A σ}
  {txn : BinderTransactionData A} {rdata : Mem}
  (relay : Relay A (answerOf (invoked handler m p txn rdata))) (W : Server A τ) (q : Proc A τ)
  (vs : List (Put A))

def ReceivedTruly : Prop :=
  ∀ (msg reply rio : BinderIo) (target code : UInt32) (q' : Proc A τ),
    binderCall W q msg reply target code relay.rounds = some (0,rio,q') →
      ReadTruly relay vs (invoked handler m p txn rdata) rio

theorem receivedTruly_iff_read : ReceivedTruly relay W q vs ↔
    ReadTruly relay vs (invoked handler m p txn rdata)
      (bioInitFromTxn A relay.carried.read.mem relay.carried.txn) := by
  constructor
  · intro h
    have hmsg : ¬ BinderIo.overflow ⟨rdata,0,0,0,0,0,0,0⟩ := BinderIo.clear_of_zero rfl
    obtain ⟨q',hcall⟩ := relay.called W q hmsg ⟨rdata,0,0,0,0,0,0,0⟩ 0 0
    exact h _ _ _ 0 0 q' hcall
  · intro h msg reply rio target code q' hcall
    have hno : ¬ msg.overflow := by
      intro ho
      rw [binderCall_overflow W ho] at hcall
      cases hcall
    obtain ⟨q₀,hcalled⟩ := relay.called W q hno reply target code
    rw [hcalled] at hcall
    cases hcall
    exact h

variable {relay W q vs}

theorem status_of_receivedTruly (h : ReceivedTruly relay W q vs) :
    (invoked handler m p txn rdata).1 = 0 := by
  have hread := (receivedTruly_iff_read relay W q vs).mp h []
  exact (hread (BinderIo.clear_of_shared rfl)).1

variable (relay) in
theorem relayed_reply (hz : (invoked handler m p txn rdata).1 = 0)
    (hvs : (invoked handler m p txn rdata).2.1 =
      Put.runAll (bioInit A ⟨rdata,0,0,0,0,0,0,0⟩ rdata 0 256 4) vs) :
    Delivered A (dataReply (Put.runAll (replyStart A rdata) vs)) relay.carried.handles
      relay.carried.read.mem relay.carried.txn := by
  have hsent : answerOf (invoked handler m p txn rdata) =
      dataReply (Put.runAll (replyStart A rdata) vs) := by
    rw [answerOf,if_neg (not_not.mpr hz),hvs,replyStart_eq]
    rfl
  exact (congrArg (fun sent => Delivered A sent relay.carried.handles
    relay.carried.read.mem relay.carried.txn) hsent).mp relay.carried.delivered

theorem receivedTruly_iff (hz : (invoked handler m p txn rdata).1 = 0)
    (hvs : (invoked handler m p txn rdata).2.1 =
      Put.runAll (bioInit A ⟨rdata,0,0,0,0,0,0,0⟩ rdata 0 256 4) vs)
    (haddr : ∀ v ∈ vs, v.content.Addressable) (hkept : EntriesKept A vs)
    (happart : A.sizeT = A.binderSizeT ∨ .ref 0 ∉ vs ∨ ∀ v ∈ vs, ¬ v.content.Marked) :
    ReceivedTruly relay W q vs ↔ ¬ Garbles A vs := by
  have hd := relayed_reply relay hz hvs
  have hbuffer := relay.carried.buffer
  have hoffsets := relay.carried.offsets
  rw [receivedTruly_iff_read]
  constructor
  · rintro htruly ⟨hs,us,hus,hfit,⟨v,hv,hmark⟩,hzero⟩
    rcases reply_fitting hd hbuffer hoffsets hkept haddr hus hfit with ⟨c,hc,hstop⟩ | hread
    · obtain ⟨u,hu,rfl⟩ := List.mem_map.mp hc
      rcases hstop with h | ⟨h,-⟩
      · exact hzero (zeroRef_content h ▸ hu)
      · cases hs.symm.trans h
    · have hclear := hread.clear
      rw [← map_kind] at hclear
      exact hread.heard.mp ((htruly _ hclear).2 us hus rfl) _ (List.mem_map_of_mem hv) hmark
  · rintro hgood gs hclear
    refine ⟨hz,?_⟩
    rintro us hus rfl
    obtain ⟨hfit,hread⟩ := reply_read hd hbuffer hoffsets hkept haddr hus hclear
    refine hread.heard.mpr fun c hc hmark => ?_
    obtain ⟨v,hv,rfl⟩ := List.mem_map.mp hc
    have hs := hread.narrow _ hc hmark
    by_cases hzero : .ref 0 ∈ us
    · have hmixed := hread.mixed (List.mem_map.mpr ⟨_,hzero,rfl⟩)
      rcases happart with h | h | h
      · exact hmixed h
      · exact h (hus.subset hzero)
      · exact h v (hus.subset hv) hmark
    · exact hgood ⟨hs,us,hus,hfit,⟨v,hv,hmark⟩,hzero⟩

end

end

def answering (vs : List (Put (Abi.uniform .four))) : BinderHandler (Abi.uniform .four) Unit :=
  filling fun p _ _ => (vs,p)

def answered (vs : List (Put (Abi.uniform .four))) : Outgoing :=
  answerOf (invoked (answering vs) (fun _ => 0) ⟨(),[],0⟩ ⟨0,0,1,0,0,0,0,0,1024,0⟩ (fun _ => 0))

def answerRelay (vs : List (Put (Abi.uniform .four))) (hoffs : (answered vs).offsets = [])
    (hlen : (answered vs).data.length < 2 ^ 32) : Relay (Abi.uniform .four)
      (answerOf (invoked (answering vs) (fun _ => 0) ⟨(),[],0⟩ ⟨0,0,1,0,0,0,0,0,1024,0⟩
        (fun _ => 0))) :=
  relayPlain (answered vs) hoffs hlen

def refusing (p : Proc (Abi.uniform .four) Unit) (_ : BinderTransactionData (Abi.uniform .four))
    (_ reply : BinderIo) : Int × BinderIo × Proc (Abi.uniform .four) Unit := (-1,reply,p)

end Binder
