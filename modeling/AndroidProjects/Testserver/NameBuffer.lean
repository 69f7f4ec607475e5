import AndroidProjects.Binder.Fetches
import AndroidProjects.Testserver.Services

namespace Testserver
open Binder ByteMemory

inductive Access where
  | message (p size : ℕ)
  | name (i : ℕ)
  deriving DecidableEq, Repr

def Access.Inside (msg : BinderIo) : Access → Prop
  | .message p size => msg.data ≤ p ∧ p + size ≤ msg.data + msg.dataAvail
  | .name i => i < sizeofName

def AllInside (msg : BinderIo) (as : List Access) : Prop := ∀ a ∈ as, a.Inside msg

-- the copy loop and the terminator after it
def copyAccesses (s len : ℕ) : List Access :=
  (List.range len).flatMap (fun i => [.message (s+2*i) 2,.name i]) ++ [.name len]

section
variable (A : Abi)

def wordAccesses (io : BinderIo) : List Access :=
  match (bioGet A io 4).1 with
  | some p => [.message p 4]
  | none => []

def serviceAccesses (cmdSay cmdSayTo : UInt32) (txn : BinderTransactionData A)
    (msg : BinderIo) : List Access :=
  let policy := bioGetUint32 A msg
  wordAccesses A msg ++
    if txn.code = cmdSay then []
    else if txn.code = cmdSayTo then
      let str := bioGetString16 A policy.2
      wordAccesses A policy.2 ++
        match str.1 with
        | none => []
        | some s => copyAccesses s str.2.1
    else []

def helloServiceAccesses : BinderTransactionData A → BinderIo → List Access :=
  serviceAccesses A helloSvrCmdSayhello helloSvrCmdSayhelloTo

def goodbyeServiceAccesses : BinderTransactionData A → BinderIo → List Access :=
  serviceAccesses A helloSvrCmdSaygoodbye helloSvrCmdSaygoodbyeTo

-- the length the client announces, unless the reader's size arithmetic turns it away
def AnnouncesShort (cmdSayTo : UInt32) (txn : BinderTransactionData A) (msg : BinderIo) : Prop :=
  let len := (load32 msg.mem (msg.data+4)).toNat
  txn.code = cmdSayTo → 8 ≤ msg.dataAvail →
    roundUp A (sizeofUnits A len) ≤ msg.dataAvail - 8 → len < sizeofName

instance (cmdSayTo : UInt32) (txn : BinderTransactionData A) (msg : BinderIo) :
    Decidable (AnnouncesShort A cmdSayTo txn msg) := inferInstanceAs (Decidable (_ → _ → _ → _))

end

theorem allInside_append {msg : BinderIo} {as bs : List Access} :
    AllInside msg (as ++ bs) ↔ AllInside msg as ∧ AllInside msg bs := List.forall_mem_append

theorem copy_inside_iff {msg : BinderIo} {s len : ℕ} (hs : msg.data ≤ s)
    (hfit : len < sizeofName → s + 2 * len ≤ msg.data + msg.dataAvail) :
    AllInside msg (copyAccesses s len) ↔ len < sizeofName := by
  rw [copyAccesses,allInside_append]
  constructor
  · rintro ⟨-,hlast⟩
    exact hlast (.name len) List.mem_cons_self
  · intro hlen
    have hend := hfit hlen
    refine ⟨fun a ha => ?_,fun a ha => ?_⟩
    · obtain ⟨i,hi,ha⟩ := List.mem_flatMap.mp ha
      rw [List.mem_range] at hi
      simp only [List.mem_cons,List.not_mem_nil,or_false] at ha
      rcases ha with rfl | rfl
      · exact ⟨by omega,by omega⟩
      · exact hi.trans hlen
    · rw [List.mem_singleton.mp ha]
      exact hlen

section
variable {A : Abi}

theorem wordAccesses_inside {msg io : BinderIo} (hstart : msg.data ≤ io.data)
    (hend : io.data + io.dataAvail ≤ msg.data + msg.dataAvail) :
    AllInside msg (wordAccesses A io) := by
  have hfour : roundUp A 4 = 4 := roundUp_of_lt (by omega)
  have hg := bioGet_got (A := A) io 4
  rw [wordAccesses]
  generalize bioGet A io 4 = out at hg ⊢
  cases hg with
  | short h =>
    rintro a ⟨⟩
  | taken h =>
    rw [hfour] at h
    rintro a ha
    rw [List.mem_singleton.mp ha]
    exact ⟨hstart,by omega⟩

theorem sizeofUnits_short {len : ℕ} (h : len < sizeofName) :
    2 * (len+1) ≤ roundUp A (sizeofUnits A len) := by
  have hm := A.sizeT.modulus_ge
  rw [sizeofName] at h
  rw [roundUp_sizeofUnits,Nat.mod_eq_of_lt (by omega)]
  omega

theorem policy_left (io : BinderIo) : io.data ≤ (bioGetUint32 A io).2.data ∧
    (bioGetUint32 A io).2.data + (bioGetUint32 A io).2.dataAvail ≤ io.data + io.dataAvail :=
  (window_stable io.window).uint32 le_rfl

theorem announced_none {io : BinderIo} (h : io.dataAvail < 8) :
    (bioGetString16 A (bioGetUint32 A io).2).1 = none := by
  refine bioGetString16_short ?_
  rcases Nat.lt_or_ge io.dataAvail 4 with hs | hl
  · rw [bioGetUint32_short hs]
    exact Nat.zero_lt_succ 3
  · rw [bioGetUint32_long hl]
    simp only []
    omega

theorem announced_some {io : BinderIo} (h : 8 ≤ io.dataAvail) :
    let len := (load32 io.mem (io.data+4)).toNat
    let str := bioGetString16 A (bioGetUint32 A io).2
    str.2.1 = len ∧ str.1 =
      if io.dataAvail - 8 < roundUp A (sizeofUnits A len) then none else some (io.data+8) := by
  have hrest : io.dataAvail - 4 - 4 = io.dataAvail - 8 := by omega
  have hlong : 4 ≤ ({io with data := io.data + 4, dataAvail := io.dataAvail - 4} :
      BinderIo).dataAvail := Nat.le_sub_of_add_le h
  have hstr := bioGetString16_long (A := A) hlong
  rw [bioGetUint32_long (by omega)]
  simp only [] at hstr ⊢
  rw [hstr]
  refine ⟨rfl,?_⟩
  simp only [bioGet,hrest]
  split_ifs <;> rfl

theorem service_inside_iff {cmdSay cmdSayTo : UInt32} (hne : cmdSay ≠ cmdSayTo)
    (txn : BinderTransactionData A) (msg : BinderIo) :
    AllInside msg (serviceAccesses A cmdSay cmdSayTo txn msg) ↔
      AnnouncesShort A cmdSayTo txn msg := by
  have hpolicy : AllInside msg (wordAccesses A msg) := wordAccesses_inside le_rfl le_rfl
  obtain ⟨hstart,hend⟩ := policy_left (A := A) msg
  have hlength := wordAccesses_inside (A := A) hstart hend
  rw [serviceAccesses,allInside_append,and_iff_right hpolicy,AnnouncesShort]
  split_ifs with hsay hto
  · exact iff_of_true (fun a ha => absurd ha List.not_mem_nil)
      (fun hto => absurd (hsay.symm.trans hto) hne)
  · rw [allInside_append,and_iff_right hlength]
    rcases Nat.lt_or_ge msg.dataAvail 8 with hshort | hlong
    · rw [announced_none hshort]
      exact iff_of_true (fun a ha => absurd ha List.not_mem_nil)
        (fun _ h => absurd h (Nat.not_le.mpr hshort))
    · obtain ⟨hlen,hstr⟩ := announced_some (A := A) hlong
      rw [hlen,hstr]
      split_ifs with hfit
      · exact iff_of_true (fun a ha => absurd ha List.not_mem_nil)
          (fun _ _ h => absurd h (Nat.not_le.mpr hfit))
      · have hroom : (load32 msg.mem (msg.data+4)).toNat < sizeofName →
            msg.data + 8 + 2 * (load32 msg.mem (msg.data+4)).toNat ≤ msg.data + msg.dataAvail :=
          fun hl => by
            have hunits := sizeofUnits_short (A := A) hl
            omega
        rw [copy_inside_iff (Nat.le_add_right _ _) hroom]
        exact ⟨fun h _ _ _ => h,fun h => h hto hlong (Nat.not_lt.mp hfit)⟩
  · exact iff_of_true (fun a ha => absurd ha List.not_mem_nil) (fun h => absurd h hto)

theorem serviceHandler_inside {σ : Type} {cmdSay cmdSayTo : UInt32}
    {txn : BinderTransactionData A} {msg : BinderIo}
    (h : AllInside msg (serviceAccesses A cmdSay cmdSayTo txn msg)) (impl : Implementation σ)
    (smashed smashed' : BinderHandler A σ) (p : Proc A σ) (reply : BinderIo) :
    serviceHandler cmdSay cmdSayTo impl smashed p txn msg reply =
      serviceHandler cmdSay cmdSayTo impl smashed' p txn msg reply := by
  rw [serviceAccesses,allInside_append] at h
  simp only [serviceHandler]
  by_cases hsay : txn.code = cmdSay
  · rw [if_pos hsay,if_pos hsay]
  rw [if_neg hsay,if_neg hsay]
  by_cases hto : txn.code = cmdSayTo
  swap
  · rw [if_neg hto,if_neg hto]
  rw [if_pos hto,if_pos hto]
  rw [if_neg hsay,if_pos hto,allInside_append] at h
  split
  · rfl
  · rename_i s hs
    rw [hs] at h
    have hlen := h.2.2 (.name _) (List.mem_append_right _ List.mem_cons_self)
    rw [if_neg (Nat.not_le.mpr hlen),if_neg (Nat.not_le.mpr hlen)]

theorem name_inside_iff_announces_short (m : Mem) (txn : BinderTransactionData A) :
    let msg := bioInitFromTxn A m txn
    (AllInside msg (helloServiceAccesses A txn msg) ↔
      AnnouncesShort A helloSvrCmdSayhelloTo txn msg) ∧
    (AllInside msg (goodbyeServiceAccesses A txn msg) ↔
      AnnouncesShort A helloSvrCmdSaygoodbyeTo txn msg) :=
  ⟨service_inside_iff (by decide) txn _,service_inside_iff (by decide) txn _⟩

end

def longName : Mem := fun x => if x = 4101 then 2 else 0

def longNameTxn : BinderTransactionData (Abi.uniform .four) :=
  ⟨0,0,1,0,0,0,1036,0,4096,5132⟩

theorem long_name_overruns :
    ¬ ∀ (A : Abi) (m : Mem) (txn : BinderTransactionData A),
      AllInside (bioInitFromTxn A m txn) (helloServiceAccesses A txn (bioInitFromTxn A m txn)) ∧
      AllInside (bioInitFromTxn A m txn)
        (goodbyeServiceAccesses A txn (bioInitFromTxn A m txn)) := by
  intro hall
  have hshort := (service_inside_iff (by decide) _ _).mp (hall _ longName longNameTxn).1
  exact absurd hshort (by decide +kernel)

end Testserver
