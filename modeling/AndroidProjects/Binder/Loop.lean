import AndroidProjects.Binder.Driver

namespace Binder
open ByteMemory

structure ReadBuffer where
  mem : Mem
  ptr : ℕ
  consumed : ℕ
  rdata : ℕ → Mem

def sizeofReadbuf : ℕ := 128

def Delivery.read {A : Abi} (δ : Delivery A) : ReadBuffer :=
  ⟨δ.mem,δ.ptr,(BinderReturn.encodeAll δ.cmds).length,δ.rdata⟩

structure Looper (A : Abi) (σ : Type) where
  proc : Proc A σ
  running : Bool

section
variable {A : Abi} {σ : Type} (V : Server A σ)

def parseRead (p : Proc A σ) (b : ReadBuffer) : Int × ParseState A σ :=
  binderParse {V with rdata := b.rdata} b.mem p none b.ptr b.consumed

-- none is a failing ioctl
def loopRound (s : Looper A σ) (ioctl : Option ReadBuffer) : Looper A σ :=
  if s.running then
    match ioctl with
    | none => {s with running := false}
    | some b =>
      let out := parseRead V s.proc b
      if out.1 = 0 then ⟨out.2.proc,false⟩
      else if out.1 < 0 then ⟨out.2.proc,false⟩
      else ⟨out.2.proc,true⟩
  else s

def looperLoop (first : BinderCommand A) (p : Proc A σ) (ioctls : List (Option ReadBuffer)) :
    Looper A σ :=
  ioctls.foldl (loopRound V) ⟨binderWrite p [first],true⟩

def binderLoop : Proc A σ → List (Option ReadBuffer) → Looper A σ := looperLoop V .enterLooper

def binderThreadLoop : Proc A σ → List (Option ReadBuffer) → Looper A σ :=
  looperLoop V .registerLooper

theorem loopRound_stopped {s : Looper A σ} (h : s.running = false) (ioctl : Option ReadBuffer) :
    loopRound V s ioctl = s := by
  simp only [loopRound,h,Bool.false_eq_true,if_false]

def performRead (p : Proc A σ) (δ : Delivery A) : ParseState A σ :=
  performAll {V with rdata := δ.rdata} δ.mem ⟨δ.ptr,1,false,⟨δ.mem,0,0,0,0,0,0,0⟩,none,p⟩ δ.cmds

theorem loopRound_read {s : Looper A σ} (h : s.running = true) (δ : Delivery A) :
    loopRound V s (some δ.read) =
      ⟨(performRead V s.proc δ).proc,decide (0 < δ.cmds.foldl BinderReturn.status 1)⟩ := by
  have hp : parseRead V s.proc δ.read = ((performRead V s.proc δ).r,performRead V s.proc δ) :=
    δ.parse_eq {V with rdata := δ.rdata} s.proc
  have hr : (performRead V s.proc δ).r = δ.cmds.foldl BinderReturn.status 1 :=
    performAll_r _ _ _ _
  rw [← hr]
  simp only [loopRound,h,if_true,hp]
  split_ifs with h0 h1
  · rw [h0]
    rfl
  · rw [decide_eq_false (by omega)]
  · rw [decide_eq_true (by omega)]

end

end Binder
