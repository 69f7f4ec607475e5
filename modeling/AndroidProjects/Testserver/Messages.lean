import AndroidProjects.Binder.Cursor
import AndroidProjects.Testserver.Services

namespace Testserver
open Binder ByteMemory Layout Servicemanager

def unitPadding (len : ℕ) : ℕ := (2 * (len + 1) + 3) / 4 * 4 - 2 * (len + 1)

def stringData (us : List UInt16) (pad : List UInt8) : List UInt8 :=
  leBytes 4 us.length ++ (unitBytes (us ++ [0]) ++ pad)

-- a request: the policy word, then the string with its zero and its padding
structure StringMessage (us : List UInt16) (out : Outgoing) : Prop where
  offsets : out.offsets = []
  flags : out.flags &&& tfStatusCode = 0
  data : ∃ pad : List UInt8, pad.length = unitPadding us.length ∧
    out.data = leBytes 4 0 ++ stringData us pad

structure CountMessage (n : Int32) (out : Outgoing) : Prop where
  offsets : out.offsets = []
  flags : out.flags &&& tfStatusCode = 0
  data : out.data = leBytes 4 n.toUInt32.toNat

theorem noStatus : (0 : UInt32) &&& tfStatusCode = 0 := by decide

section
variable {A : Abi}

theorem stringData_length (us : List UInt16) {pad : List UInt8}
    (h : pad.length = unitPadding us.length) :
    (stringData us pad).length = 4 + (2 * (us.length + 1) + 3) / 4 * 4 := by
  rw [stringData,List.length_append,List.length_append,leBytes_length,unitBytes_length,
    List.length_append,List.length_singleton,h,unitPadding]
  omega

section
variable {out : Outgoing} {handles : ℕ → UInt32} {m : Mem} {txn : BinderTransactionData A}
  (hd : Delivered A out handles m txn) (hoffs : out.offsets = [])
include hd hoffs

theorem delivered_slice : slice m txn.buffer.toNat out.data.length = out.data := by
  have htable : objectTable A out = [] := by
    rw [objectTable,hoffs]
    simp
  refine (slice_eq_iff m txn.buffer.toNat out.data).mpr fun i hi => ?_
  rw [List.getElem?_eq_getElem hi]
  exact congrArg some (hd.data i _ (List.getElem?_eq_getElem hi)
    (fun off hoff => absurd (htable ▸ hoff) List.not_mem_nil)).symm

variable (hbuffer : A.sizeT.wrap txn.buffer.toNat = txn.buffer.toNat)
include hbuffer

theorem plain_readable {vs : List (Item A)} (hplain : vs.countP Item.isObject = 0)
    (hsize : out.data.length = extent Item.size vs) (hsmall : extent Item.size vs < 2 ^ 32)
    (hplaced : slice m txn.buffer.toNat out.data.length = out.data →
      Placed Item.size (fun p v => v.At m p) txn.buffer.toNat vs) : Readable A m txn vs := by
  have hm := A.sizeT.modulus_ge
  refine ⟨?_,fun n off hn => ?_,?_⟩
  · rw [hd.dataSize,hsize]
    exact Word.wrap_of_lt (by omega)
  · have hlen := marks_length Item.size Item.isObject 0 vs
    rw [hplain,List.length_eq_zero_iff] at hlen
    rw [hlen] at hn
    cases hn
  · rw [hbuffer]
    exact hplaced (delivered_slice hd hoffs)

theorem first_word {n : UInt32} {rest : List UInt8} (h : out.data = leBytes 4 n.toNat ++ rest)
    (hlen : out.data.length < 2 ^ 32) : (bioGetUint32 A (bioInitFromTxn A m txn)).1 = n := by
  have hm := A.sizeT.modulus_ge
  have hs := delivered_slice hd hoffs
  have hlong : 4 ≤ out.data.length := by
    rw [h,List.length_append,leBytes_length]
    exact Nat.le_add_right 4 _
  have havail : (bioInitFromTxn A m txn).dataAvail = out.data.length := by
    rw [bioInitFromTxn,hd.dataSize]
    exact Word.wrap_of_lt (by omega)
  have hdata : (bioInitFromTxn A m txn).data = txn.buffer.toNat := hbuffer
  rw [h] at hs
  obtain ⟨hword,-⟩ := slice_split hs
  rw [leBytes_length] at hword
  rw [bioGetUint32_long (havail ▸ hlong),hdata]
  exact load32_of_slice hword

theorem policy_readable (policy : UInt32) {us : List UInt16} (hlen : us.length < 512)
    {pad : List UInt8} (hpad : pad.length = unitPadding us.length)
    (h : out.data = leBytes 4 policy.toNat ++ stringData us pad) :
    Readable A m txn (.uint32 policy :: Value.stringItems us) := by
  have hshort : us.length < maxBioSize / 2 := hlen.trans (by decide)
  have hextent : extent Item.size (.uint32 policy :: Value.stringItems (A := A) us) =
      8 + (2 * (us.length + 1) + 3) / 4 * 4 := by
    have hword : (Item.uint32 policy : Item A).size = 4 := rfl
    rw [extent_cons,stringItems_extent hshort,hword]
    omega
  refine plain_readable hd hoffs hbuffer rfl ?_ (by omega) fun hs => ?_
  · rw [h,List.length_append,leBytes_length,stringData_length us hpad,hextent]
    omega
  · rw [h] at hs
    obtain ⟨hpolicy,hstring⟩ := slice_split hs
    obtain ⟨hcount,hrest⟩ := slice_split hstring
    obtain ⟨hunits,-⟩ := slice_split hrest
    have hterm : unitBytes (us ++ [0]) = unitBytes us ++ unitBytes [0] := List.flatMap_append
    rw [hterm] at hunits
    obtain ⟨hbody,-⟩ := slice_split hunits
    rw [leBytes_length] at hpolicy hcount hbody
    rw [leBytes_length] at hcount hbody
    have hlenNat : (UInt32.ofNat us.length).toNat = us.length :=
      UInt32.toNat_ofNat_of_lt' (hlen.trans (by decide))
    refine ⟨load32_of_slice hpolicy,load32_of_slice ?_,loadUnits_of_slice hbody,trivial⟩
    rw [hlenNat]
    exact hcount

end

-- what the client's buffer of 512 bytes leaves for the name
def FitsIodata (A : Abi) (name : List UInt8) : Prop :=
  8 + (2 * (name.length + 1) + 3) / 4 * 4 ≤ 512 - 4 * A.sizeT.bytes

instance (A : Abi) (name : List UInt8) : Decidable (FitsIodata A name) :=
  inferInstanceAs (Decidable (_ ≤ _))

theorem fitsIodata_short {name : List UInt8} (h : FitsIodata A name) : name.length < 512 := by
  rw [FitsIodata] at h
  omega

def sayToPuts (name : List UInt8) : List (Put A) := [.uint32 0,.string16X (some name)]

theorem sayToMsg_filled (f : Frame) (name : List UInt8) : sayToMsg A f name =
    filled A f.msg f.mem f.iodata (BitVec.ofNat _ 512) (BitVec.ofNat _ 4) (sayToPuts name) := by
  rw [filled,toNat_ofNat_small (by decide),toNat_ofNat_small (by decide)]
  rfl

section
variable {name : List UInt8} (hzero : 0 ∉ name) (hfit : FitsIodata A name)
include hzero hfit

theorem sayToPuts_pieces : ∃ h : (wide name).length < maxBioSize / 2,
    (sayToPuts (A := A) name).flatMap Put.pieces =
      [.word 0,.word (UInt32.ofNat name.length),.units (wide name) h] := by
  have hshort : (wide name).length < maxBioSize / 2 := by
    rw [wide_length]
    exact (fitsIodata_short hfit).trans (by decide)
  refine ⟨hshort,?_⟩
  have hall : name.takeWhile (· ≠ 0) = name := takeWhile_nonzero hzero
  simp only [sayToPuts,List.flatMap_cons,List.flatMap_nil,Put.pieces,hall]
  change [Piece.word 0] ++ (Piece.string (wide name) ++ []) = _
  rw [Piece.string,dif_pos hshort,wide_length]
  rfl

theorem sayToMsg_fits : PutsFit A (BitVec.ofNat _ 512) (BitVec.ofNat _ 4) (sayToPuts name) ∧
    extent Piece.size ((sayToPuts (A := A) name).flatMap Put.pieces) =
      8 + (2 * (name.length + 1) + 3) / 4 * 4 := by
  obtain ⟨hshort,hpieces⟩ := sayToPuts_pieces (A := A) hzero hfit
  have hs := A.sizeT.bytes_le_eight
  have hround : (Piece.units (wide name) hshort : Piece A).size =
      (2 * (name.length + 1) + 3) / 4 * 4 := by
    have hlt := fitsIodata_short hfit
    rw [Piece.size,sizeofUnits_eq hshort,wide_length,roundUp_of_lt (by omega)]
  have hextent : extent Piece.size ((sayToPuts (A := A) name).flatMap Put.pieces) =
      8 + (2 * (name.length + 1) + 3) / 4 * 4 := by
    have hword : ∀ n, (Piece.word n : Piece A).size = 4 := fun _ => rfl
    rw [hpieces,extent_cons,extent_cons,extent_cons,extent_nil,hround,hword,hword]
    omega
  refine ⟨?_,hextent⟩
  rw [FitsIodata] at hfit
  rw [PutsFit,reserved_four,toNat_ofNat_small (by decide),toNat_ofNat_small (by decide),hextent,
    hpieces]
  exact ⟨by omega,by omega,Nat.zero_le 4⟩

theorem sayToMsg_clear (f : Frame) : ¬ (sayToMsg A f name).overflow := by
  rw [sayToMsg_filled,filled_overflow_iff]
  exact not_not.mpr (sayToMsg_fits hzero hfit).1

theorem sayToMsg_message (f : Frame) (handle code : UInt32) :
    StringMessage (wide name) (callTransaction (sayToMsg A f name) handle code) := by
  obtain ⟨hshort,hpieces⟩ := sayToPuts_pieces (A := A) hzero hfit
  obtain ⟨hputs,hextent⟩ := sayToMsg_fits (A := A) hzero hfit
  have hnone : pieceSlots ((sayToPuts (A := A) name).flatMap Put.pieces) = 0 := by
    rw [hpieces]
    rfl
  have hharmless : EntriesHarmless A (sayToPuts name) :=
    harmless_of_apart (by rw [hnone]; exact Nat.zero_le _)
  have hw := filled_whole hputs f.msg f.mem f.iodata hharmless handle code 0
  rw [← sayToMsg_filled] at hw
  change Whole A _ (callTransaction (sayToMsg A f name) handle code) at hw
  have hplaced := hw.encoded
  have hlen := hw.data
  rw [hpieces] at hplaced
  rw [hextent] at hlen
  obtain ⟨hpolicy,hcount,hunits,-⟩ := hplaced
  have hbytes : (leBytes 4 (UInt32.ofNat name.length).toNat) = leBytes 4 name.length := by
    rw [UInt32.toNat_ofNat_of_lt' ((fitsIodata_short hfit).trans (by decide))]
  have hpolicy := hpolicy _ List.mem_cons_self
  have hcount := hcount _ List.mem_cons_self
  have hunits := hunits _ List.mem_cons_self
  simp only [Piece.size,Nat.add_zero,Nat.zero_add,leBytes_length,hbytes] at hpolicy hcount hunits
  refine ⟨List.length_eq_zero_iff.mp ?_,noStatus,?_⟩
  · rw [hw.offsets,entryBytes_length,hnone,Nat.mul_zero]
  generalize (callTransaction (sayToMsg A f name) handle code).data = data at *
  refine ⟨data.drop (8 + (unitBytes (wide name ++ [0])).length),?_,?_⟩
  · rw [List.length_drop,hlen,unitBytes_length,List.length_append,List.length_singleton,
      wide_length,unitPadding]
    omega
  · have hfirst := List.take_append_drop 4 data
    have hsecond := List.take_append_drop 4 (data.drop 4)
    have hthird := List.take_append_drop (unitBytes (wide name ++ [0])).length (data.drop 8)
    rw [List.drop_drop] at hsecond hthird
    rw [hcount] at hsecond
    rw [hunits] at hthird
    rw [List.drop_zero] at hpolicy
    rw [hpolicy,← hsecond,← hthird] at hfirst
    rw [stringData,wide_length]
    exact hfirst.symm

end

theorem countReply (n : Int32) (rdata : Mem) : CountMessage n
    (dataReply (bioPutUint32 A (bioInit A ⟨rdata,0,0,0,0,0,0,0⟩ rdata 0 256 4) n.toUInt32)) := by
  have hs := A.sizeT.bytes_le_eight
  have hfour : extent Piece.size ([Put.uint32 (A := A) n.toUInt32].flatMap Put.pieces) = 4 := rfl
  have hnone : pieceSlots ([Put.uint32 (A := A) n.toUInt32].flatMap Put.pieces) = 0 := rfl
  have hfits : ReplyFits A [.uint32 n.toUInt32] := by
    rw [ReplyFits,hfour,hnone]
    exact ⟨by omega,Nat.zero_le 4⟩
  have hw := reply_whole hfits (harmless_of_apart (by rw [hnone]; exact Nat.zero_le _)) rdata
  rw [replyFilled_eq] at hw
  obtain ⟨hword,-⟩ := hw.encoded
  have hword := hword _ List.mem_cons_self
  have hlen := hw.data
  rw [hfour] at hlen
  simp only [Nat.add_zero,List.drop_zero,leBytes_length] at hword
  refine ⟨List.length_eq_zero_iff.mp ?_,noStatus,?_⟩
  · exact (congrArg List.length hw.offsets).trans (by rw [entryBytes_length,hnone,Nat.mul_zero])
  · rw [List.take_of_length_le hlen.le] at hword
    exact hword

def narrowed (us : List UInt16) : List UInt8 := cString (us.map UInt16.toUInt8)

theorem cString_nonzero {bs : List UInt8} (hzero : 0 ∉ bs) : cString bs = bs :=
  takeWhile_nonzero hzero

theorem narrowed_wide {bs : List UInt8} (hzero : 0 ∉ bs) : narrowed (wide bs) = bs := by
  have hsame : (wide bs).map UInt16.toUInt8 = bs := by
    rw [wide,List.map_map]
    conv_rhs => rw [← List.map_id bs]
    exact List.map_congr_left fun b _ => UInt8.toUInt8_toUInt16 b
  rw [narrowed,hsame,cString_nonzero hzero]

section
variable {m : Mem} {txn : BinderTransactionData A} {us : List UInt16} {σ : Type}

theorem serviceHandler_hears_policy (policy : UInt32) (hlen : us.length < 512)
    (hr : Readable A m txn (.uint32 policy :: Value.stringItems us)) {cmdSay cmdSayTo : UInt32}
    (hsay : txn.code ≠ cmdSay) (hsayTo : txn.code = cmdSayTo) (impl : Implementation σ)
    (smashed : BinderHandler A σ) (p : Proc A σ) (reply : BinderIo) :
    let out := impl.sayTo (narrowed us) p.globals
    serviceHandler cmdSay cmdSayTo impl smashed p txn (bioInitFromTxn A m txn) reply =
      (0,bioPutUint32 A reply out.1.toUInt32,{p with globals := out.2}) := by
  intro out
  have hshort : us.length < maxBioSize / 2 := hlen.trans (by decide)
  obtain ⟨-,hfirst⟩ := read_uint32 hr
  have hall : Readable A m txn
      ([.uint32 policy] ++ .uint32 (UInt32.ofNat us.length) :: .units us :: []) := hr
  obtain ⟨s,hptr,hsz,hunits,-⟩ := reading_string16 hshort hall hfirst
  have hsmall : ¬ us.length ≥ sizeofName := Nat.not_le.mpr hlen
  have hmem : (bioInitFromTxn A m txn).mem = m := rfl
  rw [serviceHandler]
  simp only [if_neg hsay,if_pos hsayTo,hptr,hsz,if_neg hsmall,hmem,hunits]
  rfl

end

end

end Testserver
