import AndroidProjects.Binder.Parse

namespace Binder
open ByteMemory

inductive BinderReturn (A : Abi) where
  | noop
  | transactionComplete
  | increfs (ptr cookie : A.BinderUintptr)
  | acquire (ptr cookie : A.BinderUintptr)
  | release (ptr cookie : A.BinderUintptr)
  | decrefs (ptr cookie : A.BinderUintptr)
  | spawnLooper
  | transaction (txn : BinderTransactionData A)
  | reply (txn : BinderTransactionData A)
  | deadBinder (cookie : A.BinderUintptr)
  | failedReply
  | deadReply
  deriving DecidableEq, Repr

namespace BinderReturn
variable {A : Abi}

def word : BinderReturn A → UInt32
  | noop => brNoop
  | transactionComplete => brTransactionComplete
  | increfs _ _ => brIncrefs A
  | acquire _ _ => brAcquire A
  | release _ _ => brRelease A
  | decrefs _ _ => brDecrefs A
  | spawnLooper => brSpawnLooper
  | transaction _ => brTransaction A
  | reply _ => brReply A
  | deadBinder _ => brDeadBinder A
  | failedReply => brFailedReply
  | deadReply => brDeadReply

def ptrCookie (ptr cookie : A.BinderUintptr) : List UInt8 :=
  leBytes A.binderSizeT.bytes ptr.toNat ++ leBytes A.binderSizeT.bytes cookie.toNat

def payload : BinderReturn A → List UInt8
  | increfs p c => ptrCookie p c
  | acquire p c => ptrCookie p c
  | release p c => ptrCookie p c
  | decrefs p c => ptrCookie p c
  | transaction txn => txn.encode
  | reply txn => txn.encode
  | deadBinder c => leBytes A.binderSizeT.bytes c.toNat
  | _ => []

def encode (c : BinderReturn A) : List UInt8 := leBytes 4 c.word.toNat ++ c.payload

def status (r : Int) : BinderReturn A → Int
  | reply _ => 0
  | failedReply => -1
  | deadReply => -1
  | _ => r

def encodeAll (cs : List (BinderReturn A)) : List UInt8 := cs.flatMap encode

theorem encode_length (c : BinderReturn A) : c.encode.length = 4 + c.payload.length := by
  simp [encode]

theorem ptrCookie_length (p c : A.BinderUintptr) :
    (ptrCookie p c).length = A.sizeofBinderPtrCookie := by
  simp only [ptrCookie,List.length_append,leBytes_length,Abi.sizeofBinderPtrCookie]
  omega

end BinderReturn

open BinderReturn

section
variable {A : Abi} {σ : Type} (V : Server A σ) (m : Mem)

def perform (s : ParseState A σ) (c : BinderReturn A) : ParseState A σ :=
  let s' := {s with ptr := s.ptr + c.encode.length}
  match c with
  | .spawnLooper => {s' with
      btd := some ⟨V.bs,V.func⟩
      proc := {s.proc with created := s.proc.created + 1}}
  | .transaction txn => {s' with proc := serveTransaction V m s.proc txn (V.rdata (s.ptr+4))}
  | .reply txn => {s' with
      reply := if s.bio then bioInitFromTxn A m txn else s.reply
      bio := false
      r := 0}
  | .deadBinder cookie => {s' with proc := V.death (cookie.setWidth _) s.proc}
  | .failedReply => {s' with r := -1}
  | .deadReply => {s' with r := -1}
  | _ => s'

def performAll (s : ParseState A σ) (cs : List (BinderReturn A)) : ParseState A σ :=
  cs.foldl (perform V m) s

@[simp] theorem perform_ptr (s : ParseState A σ) (c : BinderReturn A) :
    (perform V m s c).ptr = s.ptr + c.encode.length := by
  cases c <;> rfl

@[simp] theorem perform_r (s : ParseState A σ) (c : BinderReturn A) :
    (perform V m s c).r = c.status s.r := by
  cases c <;> rfl

theorem performAll_r (s : ParseState A σ) (cs : List (BinderReturn A)) :
    (performAll V m s cs).r = cs.foldl status s.r := by
  induction cs generalizing s with
  | nil => rfl
  | cons c cs ih =>
    have h := ih (perform V m s c)
    rwa [perform_r] at h

theorem performAll_append (s : ParseState A σ) (bs cs : List (BinderReturn A)) :
    performAll V m s (bs ++ cs) = performAll V m (performAll V m s bs) cs := List.foldl_append

theorem remaining_of_le {endp ptr : ℕ} (h : ptr ≤ endp) (hb : endp - ptr < A.sizeT.modulus) :
    remaining A endp ptr = endp - ptr := by
  have he : endp + A.sizeT.modulus - ptr = (endp - ptr) + A.sizeT.modulus := by omega
  rw [remaining,he,Word.wrap,Nat.add_mod_right,Nat.mod_eq_of_lt hb]

theorem words_nodup : [brDeadReply,brFailedReply,brDeadBinder A,brReply A,brTransaction A,
    brSpawnLooper,brDecrefs A,brRelease A,brAcquire A,brIncrefs A,brTransactionComplete,
    brNoop].Nodup := by
  obtain ⟨a,b,h⟩ := A
  cases b <;> simp only [brIncrefs,brAcquire,brRelease,brDecrefs,brTransaction,brReply,
    brDeadBinder,Abi.sizeofBinderPtrCookie,Abi.sizeofBinderTransactionData,Word.bytes] <;> decide

theorem parseCommand_encode {endp : ℕ} {s : ParseState A σ} {c : BinderReturn A}
    (h : slice m s.ptr c.encode.length = c.encode)
    (hend : s.ptr + c.encode.length ≤ endp) (hb : endp - s.ptr < A.sizeT.modulus) :
    parseCommand V m endp s = .next (perform V m s c) := by
  obtain ⟨hw,hp⟩ := slice_split h
  rw [leBytes_length] at hw hp
  have hcmd : load32 m s.ptr = c.word := load32_of_slice hw
  have hne := words_nodup (A := A)
  simp only [List.nodup_cons,List.mem_cons,List.not_mem_nil,not_or,or_false] at hne
  rw [encode_length] at hend
  have hrem : remaining A endp (s.ptr+4) = endp - (s.ptr+4) := remaining_of_le (by omega) (by omega)
  have hfit : c.payload.length ≤ endp - (s.ptr+4) := by omega
  cases c with
  | transaction txn =>
    have hload : BinderTransactionData.load A m (s.ptr+4) = txn :=
      BinderTransactionData.load_of_slice hp
    have hlt : ¬ endp - (s.ptr+4) < A.sizeofBinderTransactionData := by
      rw [← txn.encode_length]
      exact Nat.not_lt.mpr hfit
    simp [parseCommand,perform,hcmd,word,hne,hrem,hlt,hload,encode_length,payload,
      txn.encode_length,Nat.add_assoc]
  | reply txn =>
    have hload : BinderTransactionData.load A m (s.ptr+4) = txn :=
      BinderTransactionData.load_of_slice hp
    have hlt : ¬ endp - (s.ptr+4) < A.sizeofBinderTransactionData := by
      rw [← txn.encode_length]
      exact Nat.not_lt.mpr hfit
    simp [parseCommand,perform,hcmd,word,hne,hrem,hlt,hload,encode_length,payload,
      txn.encode_length,Nat.add_assoc]
  | deadBinder cookie =>
    have hload : loadBits A.binderSizeT.bytes m (s.ptr+4) = cookie :=
      loadBits_of_slice (by simpa [payload] using hp)
    simp [parseCommand,perform,hcmd,word,hne,hload,encode_length,payload,Nat.add_assoc]
  | _ =>
    simp [parseCommand,perform,hcmd,word,hne,encode_length,payload,ptrCookie_length,Nat.add_assoc]

theorem binderParseLoop_next {endp : ℕ} {s s' : ParseState A σ} (hlt : s.ptr < endp)
    (h : parseCommand V m endp s = .next s') :
    binderParseLoop V m endp s = binderParseLoop V m endp s' := by
  rw [binderParseLoop,if_pos hlt]
  split
  · rename_i t ht
    rw [h,Control.next.injEq] at ht
    rw [ht]
  · rename_i r t ht
    rw [h] at ht
    cases ht

theorem binderParseLoop_ret {endp : ℕ} {s s' : ParseState A σ} {r : Int} (hlt : s.ptr < endp)
    (h : parseCommand V m endp s = .ret r s') : binderParseLoop V m endp s = (r,s') := by
  rw [binderParseLoop,if_pos hlt]
  split
  · rename_i t ht
    rw [h] at ht
    cases ht
  · rename_i r' t ht
    rw [h,Control.ret.injEq] at ht
    rw [ht.1,ht.2]

theorem binderParseLoop_done {endp : ℕ} {s : ParseState A σ} (h : endp ≤ s.ptr) :
    binderParseLoop V m endp s = (s.r,s) := by
  rw [binderParseLoop,if_neg (Nat.not_lt.mpr h)]

@[simp] theorem performAll_ptr (s : ParseState A σ) (cs : List (BinderReturn A)) :
    (performAll V m s cs).ptr = s.ptr + (encodeAll cs).length := by
  induction cs generalizing s with
  | nil => rfl
  | cons c cs ih =>
    have h := ih (perform V m s c)
    rw [perform_ptr,Nat.add_assoc,← List.length_append] at h
    exact h

theorem performAll_iff {endp lo : ℕ} {F : ParseState A σ → Prop}
    (hstep : ∀ (s : ParseState A σ) (c : BinderReturn A), lo ≤ s.ptr →
      slice m s.ptr c.encode.length = c.encode → s.ptr + c.encode.length ≤ endp →
        endp - s.ptr < A.sizeT.modulus → (F s ↔ F (perform V m s c)))
    (s : ParseState A σ) (cs : List (BinderReturn A))
    (h : slice m s.ptr (encodeAll cs).length = encodeAll cs)
    (hend : s.ptr + (encodeAll cs).length ≤ endp) (hb : endp - s.ptr < A.sizeT.modulus)
    (hlo : lo ≤ s.ptr) : F s ↔ F (performAll V m s cs) := by
  induction cs generalizing s with
  | nil => exact Iff.rfl
  | cons c cs ih =>
    rw [encodeAll,List.flatMap_cons] at h hend
    obtain ⟨hc,hcs⟩ := slice_split h
    rw [List.length_append] at hend
    refine (hstep s c hlo hc (by omega) hb).trans (ih (perform V m s c) ?_ ?_ ?_ ?_)
    · rw [perform_ptr]
      exact hcs
    · rw [perform_ptr,encodeAll]
      omega
    · rw [perform_ptr]
      omega
    · rw [perform_ptr]
      omega

theorem binderParseLoop_performAll {endp : ℕ} (s : ParseState A σ) (cs : List (BinderReturn A))
    (h : slice m s.ptr (encodeAll cs).length = encodeAll cs)
    (hend : s.ptr + (encodeAll cs).length ≤ endp) (hb : endp - s.ptr < A.sizeT.modulus) :
    binderParseLoop V m endp s = binderParseLoop V m endp (performAll V m s cs) := by
  refine (performAll_iff V m (F := fun t => binderParseLoop V m endp t =
    binderParseLoop V m endp (performAll V m s cs)) (fun t c _ hc hfit ht => ?_) s cs h hend hb
      (Nat.zero_le _)).mpr rfl
  have hlen := c.encode_length
  rw [binderParseLoop_next V m (by omega) (parseCommand_encode V m hc hfit ht)]

theorem binderParseLoop_encodeAll {endp : ℕ} (s : ParseState A σ) (cs : List (BinderReturn A))
    (h : slice m s.ptr (encodeAll cs).length = encodeAll cs)
    (hend : s.ptr + (encodeAll cs).length = endp) (hb : endp - s.ptr < A.sizeT.modulus) :
    binderParseLoop V m endp s = ((performAll V m s cs).r,performAll V m s cs) := by
  rw [binderParseLoop_performAll V m s cs h hend.le hb]
  exact binderParseLoop_done V m (by rw [performAll_ptr,hend])

theorem binderParse_encodeAll (p : Proc A σ) (bio : Option BinderIo) (ptr : ℕ)
    (cs : List (BinderReturn A)) (h : slice m ptr (encodeAll cs).length = encodeAll cs)
    (hb : (encodeAll cs).length < A.sizeT.modulus) :
    binderParse V m p bio ptr (encodeAll cs).length =
      let s := performAll V m
        ⟨ptr,1,bio.isSome,bio.getD ⟨m,0,0,0,0,0,0,0⟩,none,p⟩ cs
      (s.r,s) :=
  binderParseLoop_encodeAll V m _ cs h rfl (by simpa using hb)

end

end Binder
