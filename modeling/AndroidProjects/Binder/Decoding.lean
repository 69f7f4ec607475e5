import AndroidProjects.Binder.Stream
import AndroidProjects.Foundation.Framing
import Mathlib.Data.List.Nodup

namespace Binder
open ByteMemory BinderReturn

def words (A : Abi) : List UInt32 := [brDeadReply,brFailedReply,brDeadBinder A,brReply A,
  brTransaction A,brSpawnLooper,brDecrefs A,brRelease A,brAcquire A,brIncrefs A,
  brTransactionComplete,brNoop]

section
variable (A : Abi)

def candidates (m : Mem) (p : ℕ) : List (BinderReturn A) :=
  let ptr := loadBits A.binderSizeT.bytes m (p+4)
  let cookie := loadBits A.binderSizeT.bytes m (p+4+A.binderSizeT.bytes)
  let txn := .load A m (p+4)
  [.deadReply,.failedReply,.deadBinder ptr,.reply txn,.transaction txn,.spawnLooper,
    .decrefs ptr cookie,.release ptr cookie,.acquire ptr cookie,.increfs ptr cookie,
    .transactionComplete,.noop]

def commandAt (m : Mem) (p : ℕ) : Option (BinderReturn A) :=
  (candidates A m p).find? fun c => c.word == load32 m p

end

section
variable {A : Abi}

theorem candidates_word (m : Mem) (p : ℕ) : (candidates A m p).map word = words A := rfl

theorem ptrCookie_split {m : Mem} {p : ℕ} {ptr cookie : A.BinderUintptr}
    (h : slice m p (ptrCookie ptr cookie).length = ptrCookie ptr cookie) :
    loadBits A.binderSizeT.bytes m p = ptr ∧
      loadBits A.binderSizeT.bytes m (p + A.binderSizeT.bytes) = cookie := by
  obtain ⟨h1,h2⟩ := slice_split h
  rw [leBytes_length] at h1 h2
  exact ⟨loadBits_of_slice h1,loadBits_of_slice (by simpa using h2)⟩

theorem ptrCookie_load (m : Mem) (p : ℕ) :
    ptrCookie (A := A) (loadBits _ m p) (loadBits _ m (p + A.binderSizeT.bytes)) =
      slice m p A.sizeofBinderPtrCookie := by
  have hsize : A.sizeofBinderPtrCookie = A.binderSizeT.bytes + A.binderSizeT.bytes := by
    rw [Abi.sizeofBinderPtrCookie]
    omega
  rw [ptrCookie,leBytes_loadBits,leBytes_loadBits,hsize,slice_append]

theorem mem_candidates {m : Mem} {p : ℕ} {c : BinderReturn A}
    (h : slice m (p+4) c.payload.length = c.payload) : c ∈ candidates A m p := by
  cases c with
  | transaction txn =>
    obtain rfl := BinderTransactionData.load_of_slice h
    simp [candidates]
  | reply txn =>
    obtain rfl := BinderTransactionData.load_of_slice h
    simp [candidates]
  | deadBinder cookie =>
    obtain rfl : loadBits _ m (p+4) = cookie := loadBits_of_slice (by simpa [payload] using h)
    simp [candidates]
  | increfs ptr cookie =>
    obtain ⟨rfl,rfl⟩ := ptrCookie_split h
    simp [candidates]
  | acquire ptr cookie =>
    obtain ⟨rfl,rfl⟩ := ptrCookie_split h
    simp [candidates]
  | release ptr cookie =>
    obtain ⟨rfl,rfl⟩ := ptrCookie_split h
    simp [candidates]
  | decrefs ptr cookie =>
    obtain ⟨rfl,rfl⟩ := ptrCookie_split h
    simp [candidates]
  | _ => simp [candidates]

theorem candidates_payload {m : Mem} {p : ℕ} {c : BinderReturn A} (h : c ∈ candidates A m p) :
    c.payload = slice m (p+4) c.payload.length := by
  simp only [candidates,List.mem_cons,List.not_mem_nil,or_false] at h
  rcases h with rfl | rfl | rfl | rfl | rfl | rfl | rfl | rfl | rfl | rfl | rfl | rfl
  all_goals
    simp only [payload,ptrCookie_load,BinderTransactionData.encode_load,leBytes_loadBits,
      slice_length,List.length_nil,slice]

theorem commandAt_some {m : Mem} {p : ℕ} {c : BinderReturn A} (h : commandAt A m p = some c) :
    c ∈ candidates A m p ∧ c.word = load32 m p :=
  ⟨List.mem_of_find?_eq_some h,by simpa using List.find?_some h⟩

theorem commandAt_none_iff {m : Mem} {p : ℕ} :
    commandAt A m p = none ↔ load32 m p ∉ words A := by
  rw [commandAt,List.find?_eq_none,← candidates_word m p]
  simp

theorem commandAt_of_slice {m : Mem} {p : ℕ} {c : BinderReturn A}
    (h : slice m p c.encode.length = c.encode) : commandAt A m p = some c := by
  obtain ⟨hw,hp⟩ := slice_split h
  rw [leBytes_length] at hw hp
  have hcmd : load32 m p = c.word := load32_of_slice hw
  have hc := mem_candidates hp
  cases hd : commandAt A m p with
  | none =>
    rw [commandAt_none_iff,hcmd,← candidates_word m p] at hd
    exact absurd (List.mem_map_of_mem hc) hd
  | some d =>
    obtain ⟨hmem,hword⟩ := commandAt_some hd
    have hnodup : ((candidates A m p).map word).Nodup := words_nodup
    rw [List.inj_on_of_nodup_map hnodup hmem hc (hword.trans hcmd)]

theorem commandAt_encode {m : Mem} {p : ℕ} {c : BinderReturn A} (h : commandAt A m p = some c) :
    slice m p c.encode.length = c.encode := by
  obtain ⟨hmem,hword⟩ := commandAt_some h
  rw [encode_length,slice_append,← candidates_payload hmem,encode,hword,leBytes_load32]

theorem return_prefix_free {c d : BinderReturn A} (h : c.encode <+: d.encode) : c = d := by
  obtain ⟨rest,hrest⟩ := h
  have hall := slice_write (fun _ => 0) 0 d.encode
  have hfront := hall
  rw [← hrest] at hfront
  have hc := commandAt_of_slice (slice_split hfront).1
  have hd := commandAt_of_slice hall
  rw [hrest] at hc
  exact Option.some.inj (hc.symm.trans hd)

end

def returnCode (A : Abi) : Framing.PrefixCode (BinderReturn A) UInt8 where
  encode := encode
  encode_ne_nil c h := by
    have hlen := c.encode_length
    rw [h,List.length_nil] at hlen
    omega
  prefix_free _ _ := return_prefix_free

inductive Callback (A : Abi) where
  | handler (a : ℕ) (txn : BinderTransactionData A)
  | death (cookie : A.BinderUintptr)
  | thread
  deriving DecidableEq, Repr

section
variable {A : Abi}

def BinderReturn.callback (p : ℕ) : BinderReturn A → Option (Callback A)
  | transaction txn => some (.handler (p+4) txn)
  | deadBinder cookie => some (.death cookie)
  | spawnLooper => some .thread
  | _ => none

def callbacks : ℕ → List (BinderReturn A) → List (Callback A)
  | _, [] => []
  | p, c :: cs => (c.callback p).toList ++ callbacks (p + c.encode.length) cs

def BinderReturn.answer : BinderReturn A → Option (BinderTransactionData A)
  | reply txn => some txn
  | _ => none

def BinderReturn.verdict : BinderReturn A → Option Int
  | reply _ => some 0
  | failedReply => some (-1)
  | deadReply => some (-1)
  | _ => none

def verdictOf (cs : List (BinderReturn A)) : Int := ((cs.filterMap verdict).getLast?).getD 1

variable {σ : Type}

def Callback.run (V : Server A σ) (m : Mem) (p : Proc A σ) : Callback A → Proc A σ
  | handler a txn => serveTransaction V m p txn (V.rdata a)
  | death cookie => V.death (cookie.setWidth _) p
  | thread => {p with created := p.created + 1}

structure Enacted (V : Server A σ) (m : Mem) (p : Proc A σ) (bio : Option BinderIo) (ptr : ℕ)
    (cs : List (BinderReturn A)) (s : ParseState A σ) : Prop where
  ran : s.proc = (callbacks ptr cs).foldl (Callback.run V m) p
  filled : ∀ io, bio = some io →
    s.reply = (((cs.filterMap answer).head?).map (bioInitFromTxn A m)).getD io
  unfilled : bio = none → s.reply = ⟨m,0,0,0,0,0,0,0⟩
  thread : s.btd = if .spawnLooper ∈ cs then some ⟨V.bs,V.func⟩ else none

theorem foldl_status (r : Int) (cs : List (BinderReturn A)) :
    cs.foldl status r = ((cs.filterMap verdict).getLast?).getD r := by
  induction cs generalizing r with
  | nil => rfl
  | cons c cs ih =>
    rw [List.foldl_cons,ih]
    cases c <;> simp [status,verdict,List.getLast?_cons]

variable (V : Server A σ) (m : Mem)

theorem perform_proc (s : ParseState A σ) (c : BinderReturn A) :
    (perform V m s c).proc = (c.callback s.ptr).toList.foldl (Callback.run V m) s.proc := by
  cases c <;> rfl

theorem performAll_proc (s : ParseState A σ) (cs : List (BinderReturn A)) :
    (performAll V m s cs).proc = (callbacks s.ptr cs).foldl (Callback.run V m) s.proc := by
  induction cs generalizing s with
  | nil => rfl
  | cons c cs ih =>
    have h := ih (perform V m s c)
    rw [perform_ptr,perform_proc,← List.foldl_append] at h
    exact h

theorem performAll_filled {s : ParseState A σ} (h : s.bio = false) (cs : List (BinderReturn A)) :
    (performAll V m s cs).reply = s.reply := by
  induction cs generalizing s with
  | nil => rfl
  | cons c cs ih =>
    have hc : (perform V m s c).bio = false ∧ (perform V m s c).reply = s.reply := by
      cases c <;> simp [perform,h]
    exact (ih hc.1).trans hc.2

theorem performAll_reply {s : ParseState A σ} (h : s.bio = true) (cs : List (BinderReturn A)) :
    (performAll V m s cs).reply =
      (((cs.filterMap answer).head?).map (bioInitFromTxn A m)).getD s.reply := by
  induction cs generalizing s with
  | nil => rfl
  | cons c cs ih =>
    cases c with
    | reply txn =>
      have hc := performAll_filled V m (s := perform V m s (.reply txn)) rfl cs
      have hfirst : (perform V m s (.reply txn)).reply = bioInitFromTxn A m txn := if_pos h
      exact hc.trans hfirst
    | _ => exact ih h

theorem performAll_btd (s : ParseState A σ) (cs : List (BinderReturn A)) :
    (performAll V m s cs).btd = if .spawnLooper ∈ cs then some ⟨V.bs,V.func⟩ else s.btd := by
  induction cs generalizing s with
  | nil => rfl
  | cons c cs ih =>
    have h := ih (perform V m s c)
    refine h.trans ?_
    cases c <;> by_cases hcs : BinderReturn.spawnLooper ∈ cs <;> simp [hcs,perform]

def parseStart (m : Mem) (p : Proc A σ) (bio : Option BinderIo) (ptr : ℕ) : ParseState A σ :=
  ⟨ptr,1,bio.isSome,bio.getD ⟨m,0,0,0,0,0,0,0⟩,none,p⟩

theorem performAll_enacted (p : Proc A σ) (bio : Option BinderIo) (ptr : ℕ)
    (cs : List (BinderReturn A)) :
    Enacted V m p bio ptr cs (performAll V m (parseStart m p bio ptr) cs) where
  ran := performAll_proc V m _ cs
  filled := by
    rintro io rfl
    exact performAll_reply V m rfl cs
  unfilled := by
    rintro rfl
    exact performAll_filled V m rfl cs
  thread := performAll_btd V m _ cs

theorem performAll_verdict (p : Proc A σ) (bio : Option BinderIo) (ptr : ℕ)
    (cs : List (BinderReturn A)) :
    (performAll V m (parseStart m p bio ptr) cs).r = verdictOf cs := by
  rw [performAll_r,foldl_status]
  rfl

theorem binderParse_performAll (p : Proc A σ) (bio : Option BinderIo) (ptr : ℕ)
    (cs : List (BinderReturn A)) {size : ℕ}
    (h : slice m ptr (encodeAll cs).length = encodeAll cs) (hle : (encodeAll cs).length ≤ size)
    (hb : size < A.sizeT.modulus) :
    binderParse V m p bio ptr size =
      binderParseLoop V m (ptr + size) (performAll V m (parseStart m p bio ptr) cs) := by
  refine binderParseLoop_performAll V m (parseStart m p bio ptr) cs h ?_ ?_
  · exact Nat.add_le_add_left hle ptr
  · simpa [parseStart] using hb

theorem parseCommand_unknown {endp : ℕ} {s : ParseState A σ} (h : load32 m s.ptr ∉ words A) :
    parseCommand V m endp s = .ret (-1) {s with ptr := s.ptr + 4} := by
  simp only [words,List.mem_cons,List.not_mem_nil,or_false,not_or] at h
  simp only [parseCommand,h,or_self,if_false]

theorem stream_decoded (p : Proc A σ) (bio : Option BinderIo) (ptr : ℕ)
    (cs : List (BinderReturn A)) (rest : List UInt8)
    (h : slice m ptr (encodeAll cs ++ rest).length = encodeAll cs ++ rest)
    (hb : (encodeAll cs ++ rest).length < A.sizeT.modulus) :
    let out := binderParse V m p bio ptr (encodeAll cs ++ rest).length
    (rest = [] → out.1 = verdictOf cs ∧ out.2.ptr = ptr + (encodeAll cs).length ∧
      Enacted V m p bio ptr cs out.2) ∧
    (∀ word, word ∉ words A → leBytes 4 word.toNat <+: rest →
      out.1 = -1 ∧ Enacted V m p bio ptr cs out.2) := by
  obtain ⟨hcs,hrest⟩ := slice_split h
  have henacted := performAll_enacted V m p bio ptr cs
  have hptr : (performAll V m (parseStart m p bio ptr) cs).ptr = ptr + (encodeAll cs).length :=
    performAll_ptr V m _ cs
  rw [List.length_append] at hb ⊢
  have hloop := binderParse_performAll V m p bio ptr cs hcs (Nat.le_add_right _ _) hb
  refine ⟨?_,?_⟩
  · rintro rfl
    rw [hloop,List.length_nil,Nat.add_zero,binderParseLoop_done V m hptr.ge]
    exact ⟨performAll_verdict V m p bio ptr cs,hptr,henacted⟩
  · rintro word hword ⟨junk,rfl⟩
    have hload : load32 m (performAll V m (parseStart m p bio ptr) cs).ptr = word := by
      have hfront := (slice_split hrest).1
      rw [leBytes_length] at hfront
      rw [hptr]
      exact load32_of_slice hfront
    have hlt : (performAll V m (parseStart m p bio ptr) cs).ptr <
        ptr + ((encodeAll cs).length + (leBytes 4 word.toNat ++ junk).length) := by
      rw [hptr,List.length_append,leBytes_length]
      omega
    have hret : parseCommand V m (ptr + ((encodeAll cs).length +
        (leBytes 4 word.toNat ++ junk).length)) (performAll V m (parseStart m p bio ptr) cs) = _ :=
      parseCommand_unknown V m (hload ▸ hword)
    rw [hloop,binderParseLoop_ret V m hlt hret]
    exact ⟨rfl,henacted.ran,henacted.filled,henacted.unfilled,henacted.thread⟩

end

def mixedStream : List (BinderReturn (Abi.uniform .four)) :=
  [.noop,.transaction ⟨0,0,1,0,0,0,0,0,8192,8192⟩,.reply ⟨0,0,0,0,0,0,4,0,4096,4096⟩,.deadBinder 7,
    .failedReply]

def countingServer : Server (Abi.uniform .four) ℕ where
  bs := ⟨3,4096,4096⟩
  func := some fun p _ _ reply => (0,reply,{p with globals := p.globals + 1})
  rdata := fun _ _ => 0
  death := fun cookie p => {p with globals := p.globals + cookie.toNat}

theorem mixedStream_decoded :
    let out := binderParse countingServer (write (fun _ => 0) 64 (encodeAll mixedStream ++ []))
      ⟨0,[],0⟩ none 64 (encodeAll mixedStream ++ []).length
    out.1 = -1 ∧ out.2.ptr = 168 ∧ out.2.proc.globals = 8 := by
  have hmixed := (stream_decoded countingServer
      (write (fun _ => 0) 64 (encodeAll mixedStream ++ []))
    ⟨0,[],0⟩ none 64 mixedStream [] (slice_write _ _ _) (by decide)).1 rfl
  refine ⟨hmixed.1.trans (by decide),hmixed.2.1.trans (by decide),?_⟩
  rw [hmixed.2.2.ran]
  rfl

end Binder
