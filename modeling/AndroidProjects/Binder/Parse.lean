import AndroidProjects.Binder.Parcel

namespace Binder
open ByteMemory

structure Outgoing where
  target : UInt32
  code : UInt32
  flags : UInt32
  data : List UInt8
  offsets : List UInt8
  deriving DecidableEq, Repr

inductive BinderCommand (A : Abi) where
  | transaction (txn : Outgoing)
  | reply (txn : Outgoing)
  | freeBuffer (buffer : A.BinderUintptr)
  | acquire (target : UInt32)
  | release (target : UInt32)
  | requestDeathNotification (handle : UInt32) (cookie : A.BinderUintptr)
  | enterLooper
  | registerLooper
  deriving DecidableEq, Repr

structure BinderState where
  fd : Int
  mapped : ℕ
  mapsize : ℕ
  deriving DecidableEq, Repr

structure Proc (A : Abi) (σ : Type) where
  globals : σ
  written : List (BinderCommand A)
  created : ℕ

abbrev BinderHandler (A : Abi) (σ : Type) :=
  Proc A σ → BinderTransactionData A → BinderIo → BinderIo → Int × BinderIo × Proc A σ

structure BinderThreadDesc (A : Abi) (σ : Type) where
  bs : BinderState
  func : Option (BinderHandler A σ)

structure Server (A : Abi) (σ : Type) where
  bs : BinderState
  func : Option (BinderHandler A σ)
  rdata : ℕ → Mem
  death : A.Uintptr → Proc A σ → Proc A σ

section
variable {A : Abi} {σ : Type}

def binderWrite (p : Proc A σ) (cmds : List (BinderCommand A)) : Proc A σ :=
  {p with written := p.written ++ cmds}

def binderAcquire (p : Proc A σ) (target : UInt32) : Proc A σ := binderWrite p [.acquire target]

def binderRelease (p : Proc A σ) (target : UInt32) : Proc A σ := binderWrite p [.release target]

def binderLinkToDeath (p : Proc A σ) (target : UInt32) (death : A.Uintptr) : Proc A σ :=
  binderWrite p [.requestDeathNotification target (death.setWidth _)]

def statusReply (status : Int) : Outgoing where
  target := 0
  code := 0
  flags := tfStatusCode
  data := leBytes 4 (status % 2 ^ 32).toNat
  offsets := []

def dataReply (reply : BinderIo) : Outgoing where
  target := 0
  code := 0
  flags := 0
  data := reply.dataBytes
  offsets := reply.offsBytes

def binderSendReply (p : Proc A σ) (reply : BinderIo) (bufferToFree : A.BinderUintptr)
    (status : Int) : Proc A σ :=
  binderWrite p [.freeBuffer bufferToFree,
    .reply (if status ≠ 0 then statusReply status else dataReply reply)]

@[simp] theorem binderWrite_globals (p : Proc A σ) (cmds : List (BinderCommand A)) :
    (binderWrite p cmds).globals = p.globals := rfl

@[simp] theorem binderWrite_written (p : Proc A σ) (cmds : List (BinderCommand A)) :
    (binderWrite p cmds).written = p.written ++ cmds := rfl

@[simp] theorem binderWrite_created (p : Proc A σ) (cmds : List (BinderCommand A)) :
    (binderWrite p cmds).created = p.created := rfl

end

def ior (nr size : ℕ) : UInt32 := UInt32.ofNat (2 * 2 ^ 30 + size * 2 ^ 16 + 114 * 2 ^ 8 + nr)

def ion (nr : ℕ) : UInt32 := UInt32.ofNat (114 * 2 ^ 8 + nr)

section
variable (A : Abi)

def brTransaction : UInt32 := ior 2 A.sizeofBinderTransactionData

def brReply : UInt32 := ior 3 A.sizeofBinderTransactionData

def brDeadReply : UInt32 := ion 5

def brTransactionComplete : UInt32 := ion 6

def brIncrefs : UInt32 := ior 7 A.sizeofBinderPtrCookie

def brAcquire : UInt32 := ior 8 A.sizeofBinderPtrCookie

def brRelease : UInt32 := ior 9 A.sizeofBinderPtrCookie

def brDecrefs : UInt32 := ior 10 A.sizeofBinderPtrCookie

def brNoop : UInt32 := ion 12

def brSpawnLooper : UInt32 := ion 13

def brDeadBinder : UInt32 := ior 15 A.binderSizeT.bytes

def brFailedReply : UInt32 := ion 17

end

structure ParseState (A : Abi) (σ : Type) where
  ptr : ℕ
  r : Int
  bio : Bool
  reply : BinderIo
  btd : Option (BinderThreadDesc A σ)
  proc : Proc A σ

inductive Control (A : Abi) (σ : Type) where
  | next (s : ParseState A σ)
  | ret (r : Int) (s : ParseState A σ)

section
variable {A : Abi} {σ : Type} (V : Server A σ) (m : Mem) (endp : ℕ)

-- end - ptr in uintptr_t
def remaining (A : Abi) (endp ptr : ℕ) : ℕ := A.sizeT.wrap (endp + A.sizeT.modulus - ptr)

def serveTransaction (p : Proc A σ) (txn : BinderTransactionData A) (rdata : Mem) : Proc A σ :=
  match V.func with
  | none => p
  | some func =>
    let reply := bioInit A ⟨rdata,0,0,0,0,0,0,0⟩ rdata 0 256 4
    let msg := bioInitFromTxn A m txn
    let out := func p txn msg reply
    binderSendReply out.2.2 out.2.1 txn.buffer out.1

def parseCommand (s : ParseState A σ) : Control A σ :=
  let cmd := load32 m s.ptr
  let ptr := s.ptr + 4
  if cmd = brNoop ∨ cmd = brTransactionComplete then .next {s with ptr := ptr}
  else if cmd = brIncrefs A ∨ cmd = brAcquire A ∨ cmd = brRelease A ∨ cmd = brDecrefs A then
    .next {s with ptr := ptr + A.sizeofBinderPtrCookie}
  else if cmd = brSpawnLooper then
    .next {s with
      ptr := ptr
      btd := some ⟨V.bs,V.func⟩
      proc := {s.proc with created := s.proc.created + 1}}
  else if cmd = brTransaction A then
    if remaining A endp ptr < A.sizeofBinderTransactionData then .ret (-1) {s with ptr := ptr}
    else .next {s with
      ptr := ptr + A.sizeofBinderTransactionData
      proc := serveTransaction V m s.proc (.load A m ptr) (V.rdata ptr)}
  else if cmd = brReply A then
    if remaining A endp ptr < A.sizeofBinderTransactionData then .ret (-1) {s with ptr := ptr}
    else .next {s with
      ptr := ptr + A.sizeofBinderTransactionData
      reply := if s.bio then bioInitFromTxn A m (.load A m ptr) else s.reply
      bio := false
      r := 0}
  else if cmd = brDeadBinder A then
    .next {s with
      ptr := ptr + A.binderSizeT.bytes
      proc := V.death ((loadBits A.binderSizeT.bytes m ptr).setWidth _) s.proc}
  else if cmd = brFailedReply ∨ cmd = brDeadReply then .next {s with ptr := ptr, r := -1}
  else .ret (-1) {s with ptr := ptr}

theorem parseCommand_ptr {s s' : ParseState A σ} (h : parseCommand V m endp s = .next s') :
    s.ptr < s'.ptr := by
  simp only [parseCommand] at h
  split_ifs at h <;> cases h <;> simp only [] <;> omega

def binderParseLoop (s : ParseState A σ) : Int × ParseState A σ :=
  if s.ptr < endp then
    match _h : parseCommand V m endp s with
    | .next s' => binderParseLoop s'
    | .ret r s' => (r,s')
  else (s.r,s)
termination_by endp - s.ptr
decreasing_by
  have := parseCommand_ptr V m endp _h
  omega

def binderParse (p : Proc A σ) (bio : Option BinderIo) (ptr size : ℕ) :
    Int × ParseState A σ :=
  binderParseLoop V m (ptr+size)
    { ptr := ptr
      r := 1
      bio := bio.isSome
      reply := bio.getD ⟨m,0,0,0,0,0,0,0⟩
      btd := none
      proc := p }

end

end Binder
