import AndroidProjects.Foundation.ByteMemory

namespace Binder
open ByteMemory

inductive Word where
  | four
  | eight
  deriving DecidableEq, Repr

namespace Word

def bytes : Word → ℕ
  | four => 4
  | eight => 8

def modulus (w : Word) : ℕ := 256 ^ w.bytes

def wrap (w : Word) (n : ℕ) : ℕ := n % w.modulus

theorem wrap_of_lt {w : Word} {n : ℕ} (h : n < w.modulus) : w.wrap n = n := Nat.mod_eq_of_lt h

theorem four_le_bytes (w : Word) : 4 ≤ w.bytes := by cases w <;> decide

theorem bytes_le_eight (w : Word) : w.bytes ≤ 8 := by cases w <;> decide

theorem bytes_pos (w : Word) : 0 < w.bytes := Nat.lt_of_lt_of_le (by decide) w.four_le_bytes

theorem modulus_ge (w : Word) : 2 ^ 32 ≤ w.modulus := by cases w <;> decide

theorem wrap_four (w : Word) : w.wrap (4 * w.bytes) = 4 * w.bytes := by cases w <;> decide

end Word

structure Abi where
  sizeT : Word
  binderSizeT : Word
  sizeT_le : sizeT.bytes ≤ binderSizeT.bytes
  deriving DecidableEq, Repr

namespace Abi

def uniform (w : Word) : Abi := ⟨w,w,le_rfl⟩

variable (A : Abi)

abbrev Uintptr := BitVec (8 * A.sizeT.bytes)

abbrev BinderUintptr := BitVec (8 * A.binderSizeT.bytes)

def sizeofFlatBinderObject : ℕ := 8 + 2 * A.binderSizeT.bytes

def sizeofBinderTransactionData : ℕ := 16 + 6 * A.binderSizeT.bytes

def sizeofBinderPtrCookie : ℕ := 2 * A.binderSizeT.bytes

end Abi

def bPackChars (c1 c2 c3 c4 : ℕ) : UInt32 :=
  UInt32.ofNat (c1 * 2 ^ 24 + c2 * 2 ^ 16 + c3 * 2 ^ 8 + c4)

def binderTypeBinder : UInt32 := bPackChars 115 98 42 0x85

def binderTypeHandle : UInt32 := bPackChars 115 104 42 0x85

def flatBinderFlagAcceptsFds : UInt32 := 0x100

def tfOneWay : UInt32 := 0x01

def tfStatusCode : UInt32 := 0x08

def bioFShared : UInt32 := 0x01

def bioFOverflow : UInt32 := 0x02

def bioFIoerror : UInt32 := 0x04

def binderServiceManager : UInt32 := 0

def pingTransaction : UInt32 := bPackChars 95 80 78 71

def svcMgrGetService : UInt32 := 1

def svcMgrCheckService : UInt32 := 2

def svcMgrAddService : UInt32 := 3

def svcMgrListServices : UInt32 := 4

def maxBioSize : ℕ := 2 ^ 30

structure BinderTransactionData (A : Abi) where
  target : A.BinderUintptr
  cookie : A.BinderUintptr
  code : UInt32
  flags : UInt32
  senderPid : UInt32
  senderEuid : UInt32
  dataSize : A.BinderUintptr
  offsetsSize : A.BinderUintptr
  buffer : A.BinderUintptr
  offsets : A.BinderUintptr
  deriving DecidableEq, Repr

namespace BinderTransactionData
variable {A : Abi}

def handle (txn : BinderTransactionData A) : UInt32 := UInt32.ofNat txn.target.toNat

def oneWay (txn : BinderTransactionData A) : Bool := txn.flags &&& tfOneWay ≠ 0

def encode (txn : BinderTransactionData A) : List UInt8 :=
  leBytes A.binderSizeT.bytes txn.target.toNat ++
  (leBytes A.binderSizeT.bytes txn.cookie.toNat ++
  (leBytes 4 txn.code.toNat ++
  (leBytes 4 txn.flags.toNat ++
  (leBytes 4 txn.senderPid.toNat ++
  (leBytes 4 txn.senderEuid.toNat ++
  (leBytes A.binderSizeT.bytes txn.dataSize.toNat ++
  (leBytes A.binderSizeT.bytes txn.offsetsSize.toNat ++
  (leBytes A.binderSizeT.bytes txn.buffer.toNat ++
  leBytes A.binderSizeT.bytes txn.offsets.toNat))))))))

def load (A : Abi) (m : Mem) (p : ℕ) : BinderTransactionData A :=
  let b := A.binderSizeT.bytes
  { target := loadBits b m p
    cookie := loadBits b m (p+b)
    code := load32 m (p+b+b)
    flags := load32 m (p+b+b+4)
    senderPid := load32 m (p+b+b+4+4)
    senderEuid := load32 m (p+b+b+4+4+4)
    dataSize := loadBits b m (p+b+b+4+4+4+4)
    offsetsSize := loadBits b m (p+b+b+4+4+4+4+b)
    buffer := loadBits b m (p+b+b+4+4+4+4+b+b)
    offsets := loadBits b m (p+b+b+4+4+4+4+b+b+b) }

theorem encode_length (txn : BinderTransactionData A) :
    txn.encode.length = A.sizeofBinderTransactionData := by
  simp only [encode,List.length_append,leBytes_length,Abi.sizeofBinderTransactionData]
  omega

theorem encode_load (A : Abi) (m : Mem) (p : ℕ) :
    (load A m p).encode = slice m p A.sizeofBinderTransactionData := by
  have hsize : A.sizeofBinderTransactionData = A.binderSizeT.bytes + (A.binderSizeT.bytes +
      (4 + (4 + (4 + (4 + (A.binderSizeT.bytes + (A.binderSizeT.bytes + (A.binderSizeT.bytes +
        A.binderSizeT.bytes)))))))) := by
    rw [Abi.sizeofBinderTransactionData]
    omega
  simp only [encode,load,leBytes_loadBits,leBytes_load32,hsize,slice_append]

theorem load_of_slice {m : Mem} {p : ℕ} {txn : BinderTransactionData A}
    (h : slice m p txn.encode.length = txn.encode) : load A m p = txn := by
  obtain ⟨h0,h⟩ := slice_split h
  obtain ⟨h1,h⟩ := slice_split h
  obtain ⟨h2,h⟩ := slice_split h
  obtain ⟨h3,h⟩ := slice_split h
  obtain ⟨h4,h⟩ := slice_split h
  obtain ⟨h5,h⟩ := slice_split h
  obtain ⟨h6,h⟩ := slice_split h
  obtain ⟨h7,h⟩ := slice_split h
  obtain ⟨h8,h9⟩ := slice_split h
  simp only [leBytes_length] at h0 h1 h2 h3 h4 h5 h6 h7 h8 h9
  simp only [load,loadBits_of_slice h0,loadBits_of_slice h1,load32_of_slice h2,
    load32_of_slice h3,load32_of_slice h4,load32_of_slice h5,loadBits_of_slice h6,
    loadBits_of_slice h7,loadBits_of_slice h8,loadBits_of_slice h9]

end BinderTransactionData

end Binder
