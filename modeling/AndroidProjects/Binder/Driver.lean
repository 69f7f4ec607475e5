import AndroidProjects.Binder.Reader
import AndroidProjects.Binder.Stream
import AndroidProjects.Foundation.Machine

namespace Binder
open ByteMemory

abbrev Held (A : Abi) := A.BinderUintptr × List UInt32

structure Driver (A : Abi) where
  strong : UInt32 → ℕ
  link : UInt32 → Option A.BinderUintptr
  bufs : List (Held A)

namespace Driver
variable {A : Abi}

def idle : Driver A := ⟨fun _ => 0,fun _ => none,[]⟩

def carry (d : Driver A) (b : Held A) : Driver A :=
  {d with strong := fun h => d.strong h + b.2.count h, bufs := d.bufs ++ [b]}

def drop (d : Driver A) (hs : List UInt32) : Driver A :=
  {d with
    strong := fun h => d.strong h - hs.count h
    link := fun h => if d.strong h - hs.count h = 0 then none else d.link h}

def issue (d : Driver A) : BinderCommand A → Driver A
  | .acquire h => {d with strong := fun k => d.strong k + [h].count k}
  | .release h => d.drop [h]
  | .requestDeathNotification h cookie =>
    {d with link := fun k => if k = h ∧ d.link k = none then some cookie else d.link k}
  | .freeBuffer b =>
    match d.bufs.find? fun x => x.1 = b with
    | some x => {d.drop x.2 with bufs := d.bufs.eraseP fun x => x.1 = b}
    | none => d
  | _ => d

def Counted (d : Driver A) : BinderCommand A → Prop
  | .acquire h => 0 < d.strong h
  | .release h => 0 < d.strong h
  | _ => True

def carried (bs : List (Held A)) (h : UInt32) : ℕ := (bs.map fun b => b.2.count h).sum

@[simp] theorem carried_nil (h : UInt32) : carried ([] : List (Held A)) h = 0 := rfl

@[simp] theorem carried_cons (b : Held A) (bs : List (Held A)) (h : UInt32) :
    carried (b :: bs) h = b.2.count h + carried bs h := rfl

theorem foldl_carry_strong (d : Driver A) (bs : List (Held A)) (h : UInt32) :
    (bs.foldl carry d).strong h = d.strong h + carried bs h := by
  induction bs generalizing d with
  | nil => simp
  | cons b bs ih =>
    have hb : (d.carry b).strong h = d.strong h + b.2.count h := rfl
    rw [List.foldl_cons,ih,hb,carried_cons,Nat.add_assoc]

theorem foldl_carry_bufs (d : Driver A) (bs : List (Held A)) :
    (bs.foldl carry d).bufs = d.bufs ++ bs := by
  induction bs generalizing d with
  | nil => simp
  | cons b bs ih => rw [List.foldl_cons,ih,carry,List.append_assoc,List.singleton_append]

theorem issue_freeBuffer {d : Driver A} {b : Held A} {bs : List (Held A)} (h : d.bufs = b :: bs) :
    d.issue (.freeBuffer b.1) = {d.drop b.2 with bufs := bs} := by
  simp [issue,h]

end Driver

structure Delivery (A : Abi) where
  base : Mem
  ptr : ℕ
  cmds : List (BinderReturn A)
  rdata : ℕ → Mem
  fits : (BinderReturn.encodeAll cmds).length < A.sizeT.modulus

namespace Delivery
variable {A : Abi}

def mem (δ : Delivery A) : Mem := write δ.base δ.ptr (BinderReturn.encodeAll δ.cmds)

def parse {σ : Type} (V : Server A σ) (p : Proc A σ) (δ : Delivery A) : Int × ParseState A σ :=
  binderParse V δ.mem p none δ.ptr (BinderReturn.encodeAll δ.cmds).length

theorem parse_eq {σ : Type} (V : Server A σ) (p : Proc A σ) (δ : Delivery A) :
    δ.parse V p =
      let s := performAll V δ.mem ⟨δ.ptr,1,false,⟨δ.mem,0,0,0,0,0,0,0⟩,none,p⟩ δ.cmds
      (s.r,s) :=
  binderParse_encodeAll V δ.mem p none δ.ptr δ.cmds (slice_write _ _ _) δ.fits

end Delivery

section
variable {w : Word}

def buffersOf (w : Word) (m : Mem) (cs : List (BinderReturn (Abi.uniform w))) :
    List (Held (Abi.uniform w)) :=
  cs.filterMap fun
    | .transaction txn => some (txn.buffer,heldHandles w m txn)
    | _ => none

end

end Binder
