import AndroidProjects.Binder.Protocol

namespace Binder
open ByteMemory

structure BinderIo where
  mem : Mem
  data : ℕ
  offs : ℕ
  dataAvail : ℕ
  offsAvail : ℕ
  data0 : ℕ
  offs0 : ℕ
  flags : UInt32

namespace BinderIo

def overflow (io : BinderIo) : Prop := io.flags &&& bioFOverflow ≠ 0

instance (io : BinderIo) : Decidable io.overflow := inferInstanceAs (Decidable (_ ≠ _))

theorem clear_of_zero {io : BinderIo} (h : io.flags = 0) : ¬ io.overflow := by
  have hzero : (0 : UInt32) &&& bioFOverflow = 0 := by decide
  exact fun ho => ho (h ▸ hzero)

theorem clear_of_shared {io : BinderIo} (h : io.flags = bioFShared) : ¬ io.overflow := by
  have hshared : bioFShared &&& bioFOverflow = 0 := by decide
  exact fun ho => ho (h ▸ hshared)

def store (io : BinderIo) (p : ℕ) (bs : List UInt8) : BinderIo :=
  {io with mem := write io.mem p bs}

def dataBytes (io : BinderIo) : List UInt8 := slice io.mem io.data0 (io.data - io.data0)

def offsBytes (io : BinderIo) : List UInt8 := slice io.mem io.offs0 (io.offs - io.offs0)

end BinderIo

def strlen16 (str : List UInt16) : ℕ := (str.takeWhile (· ≠ 0)).length

def strlen (str : List UInt8) : ℕ := (str.takeWhile (· ≠ 0)).length

def unitBytes (us : List UInt16) : List UInt8 := us.flatMap fun u => leBytes 2 u.toNat

def loadUnits (m : Mem) (p len : ℕ) : List UInt16 := (List.range len).map fun i => load16 m (p+2*i)

section
variable (A : Abi)

-- (size + 3) & (~3) in size_t
def roundUp (size : ℕ) : ℕ := A.sizeT.wrap (size+3) / 4 * 4

def sizeofUnits (len : ℕ) : ℕ := A.sizeT.wrap (A.sizeT.wrap (len+1) * 2)

def bioInitFromTxn (m : Mem) (txn : BinderTransactionData A) : BinderIo where
  mem := m
  data := A.sizeT.wrap txn.buffer.toNat
  offs := A.sizeT.wrap txn.offsets.toNat
  dataAvail := A.sizeT.wrap txn.dataSize.toNat
  offsAvail := A.sizeT.wrap (txn.offsetsSize.toNat / A.sizeT.bytes)
  data0 := A.sizeT.wrap txn.buffer.toNat
  offs0 := A.sizeT.wrap txn.offsets.toNat
  flags := bioFShared

def bioInit (io : BinderIo) (m : Mem) (data maxdata maxoffs : ℕ) : BinderIo :=
  let n := A.sizeT.wrap (maxoffs * A.sizeT.bytes)
  if n > maxdata then
    {io with flags := bioFOverflow, dataAvail := 0, offsAvail := 0}
  else
    { mem := m
      data := data + n
      offs := data
      dataAvail := maxdata - n
      offsAvail := maxoffs
      data0 := data + n
      offs0 := data
      flags := 0 }

def bioAlloc (io : BinderIo) (size : ℕ) : Option ℕ × BinderIo :=
  if roundUp A size > io.dataAvail then
    (none,{io with flags := io.flags ||| bioFOverflow})
  else
    (some io.data,{io with
      data := io.data + roundUp A size
      dataAvail := io.dataAvail - roundUp A size})

def bioAllocObj (io : BinderIo) : Option ℕ × BinderIo :=
  match bioAlloc A io A.sizeofFlatBinderObject with
  | (some obj,io) =>
    if io.offsAvail ≠ 0 then
      (some obj,{io with
        offsAvail := io.offsAvail - 1
        mem := write io.mem io.offs (leBytes A.binderSizeT.bytes (obj - io.data0))
        offs := io.offs + A.binderSizeT.bytes})
    else (none,{io with flags := io.flags ||| bioFOverflow})
  | (none,io) => (none,{io with flags := io.flags ||| bioFOverflow})

def bioPutUint32 (io : BinderIo) (n : UInt32) : BinderIo :=
  match bioAlloc A io 4 with
  | (some p,io) => io.store p (leBytes 4 n.toNat)
  | (none,io) => io

def objFlags : UInt32 := 0x7f ||| flatBinderFlagAcceptsFds

def bioPutObj (io : BinderIo) (ptr : A.Uintptr) : BinderIo :=
  match bioAllocObj A io with
  | (some obj,io) =>
    (((io.store (obj+4) (leBytes 4 objFlags.toNat)).store
      obj (leBytes 4 binderTypeBinder.toNat)).store
      (obj+8) (leBytes A.binderSizeT.bytes ptr.toNat)).store
      (obj+8+A.binderSizeT.bytes) (leBytes A.binderSizeT.bytes 0)
  | (none,io) => io

def bioPutRef (io : BinderIo) (handle : UInt32) : BinderIo :=
  let r := if handle ≠ 0 then bioAllocObj A io else bioAlloc A io A.sizeofFlatBinderObject
  match r with
  | (some obj,io) =>
    (((io.store (obj+4) (leBytes 4 objFlags.toNat)).store
      obj (leBytes 4 binderTypeHandle.toNat)).store
      (obj+8) (leBytes 4 handle.toNat)).store
      (obj+8+A.binderSizeT.bytes) (leBytes A.binderSizeT.bytes 0)
  | (none,io) => io

def bioPutUnits (io : BinderIo) (us : List UInt16) : BinderIo :=
  match bioAlloc A io (sizeofUnits A us.length) with
  | (some p,io) => io.store p (unitBytes (us ++ [0]))
  | (none,io) => io

def bioPutString16 (io : BinderIo) : Option (List UInt16) → BinderIo
  | none => bioPutUint32 A io 0xffffffff
  | some str =>
    let len := strlen16 str
    if len ≥ maxBioSize / 2 then bioPutUint32 A io 0xffffffff
    else bioPutUnits A (bioPutUint32 A io (UInt32.ofNat len)) (str.take len)

def bioPutString16X (io : BinderIo) : Option (List UInt8) → BinderIo
  | none => bioPutUint32 A io 0xffffffff
  | some str =>
    let len := strlen str
    if len ≥ maxBioSize / 2 then bioPutUint32 A io 0xffffffff
    else bioPutUnits A (bioPutUint32 A io (UInt32.ofNat len)) ((str.take len).map UInt8.toUInt16)

def bioGet (io : BinderIo) (size : ℕ) : Option ℕ × BinderIo :=
  if io.dataAvail < roundUp A size then
    (none,{io with dataAvail := 0, flags := io.flags ||| bioFOverflow})
  else
    (some io.data,{io with
      data := io.data + roundUp A size
      dataAvail := io.dataAvail - roundUp A size})

def bioGetUint32 (io : BinderIo) : UInt32 × BinderIo :=
  match bioGet A io 4 with
  | (some p,io) => (load32 io.mem p,io)
  | (none,io) => (0,io)

def bioGetString16 (io : BinderIo) : Option ℕ × ℕ × BinderIo :=
  let len := (bioGetUint32 A io).1.toNat
  let r := bioGet A (bioGetUint32 A io).2 (sizeofUnits A len)
  (r.1,len,r.2)

def bioGetObj (io : BinderIo) : Option ℕ × BinderIo :=
  let off := io.data - io.data0
  if (List.range io.offsAvail).any (fun n =>
      load io.mem (io.offs + n * A.binderSizeT.bytes) A.binderSizeT.bytes == off) then
    bioGet A io A.sizeofFlatBinderObject
  else (none,{io with dataAvail := 0, flags := io.flags ||| bioFOverflow})

def bioGetRef (io : BinderIo) : UInt32 × BinderIo :=
  match bioGetObj A io with
  | (some obj,io) =>
    if load32 io.mem obj = binderTypeHandle then (load32 io.mem (obj+8),io) else (0,io)
  | (none,io) => (0,io)

end

end Binder
