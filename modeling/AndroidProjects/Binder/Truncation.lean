import AndroidProjects.Binder.Decoding

namespace Binder
open ByteMemory BinderReturn

abbrev Span := ℕ × ℕ

def Span.Inside (lo hi : ℕ) (r : Span) : Prop := lo ≤ r.1 ∧ r.1 + r.2 ≤ hi

def BinderReturn.sized {A : Abi} : BinderReturn A → Prop
  | transaction _ => True
  | reply _ => True
  | _ => False

-- the four whose payload binder_parse steps over without reading it
def BinderReturn.counted {A : Abi} : BinderReturn A → Prop
  | increfs _ _ => True
  | acquire _ _ => True
  | release _ _ => True
  | decrefs _ _ => True
  | _ => False

def CutShort (A : Abi) (c : BinderReturn A) (rest : List UInt8) : Prop :=
  4 ≤ rest.length ∧ rest <+: c.encode ∧ rest ≠ c.encode

def CutOff (A : Abi) (rest : List UInt8) : Prop :=
  rest ≠ [] ∧ (rest.length < 4 ∨ ∃ c, CutShort A c rest)

def WellEnded (A : Abi) (cs : List (BinderReturn A)) (rest : List UInt8) : Prop :=
  rest = [] ∨ (∃ word, word ∉ words A ∧ leBytes 4 word.toNat <+: rest) ∨
    ∃ c, CutShort A c rest ∧ (c.sized ∨ c.counted ∧ verdictOf cs = -1)

def EndsWell (A : Abi) (bytes : List UInt8) : Prop :=
  ∃ cs rest, bytes = encodeAll cs ++ rest ∧ WellEnded A cs rest

section
variable {A : Abi} {σ : Type} (V : Server A σ) (m : Mem) (endp : ℕ)

def commandReads (s : ParseState A σ) : List Span :=
  let cmd := load32 m s.ptr
  let ptr := s.ptr + 4
  (s.ptr,4) ::
    if cmd = brTransaction A then
      if remaining A endp ptr < A.sizeofBinderTransactionData ∨ V.func.isNone then []
      else [(ptr,A.sizeofBinderTransactionData)]
    else if cmd = brReply A then
      if remaining A endp ptr < A.sizeofBinderTransactionData ∨ s.bio = false then []
      else [(ptr,A.sizeofBinderTransactionData)]
    else if cmd = brDeadBinder A then [(ptr,A.binderSizeT.bytes)]
    else []

def parseReads (s : ParseState A σ) : List Span :=
  if s.ptr < endp then
    commandReads V m endp s ++
      match _h : parseCommand V m endp s with
      | .next s' => parseReads s'
      | .ret _ _ => []
  else []
termination_by endp - s.ptr
decreasing_by
  have := parseCommand_ptr V m endp _h
  omega

def Ended (p : Proc A σ) (bio : Option BinderIo) (ptr : ℕ) (cs : List (BinderReturn A))
    (s : ParseState A σ) (rest : List UInt8) : Prop :=
  (∀ r ∈ parseReads V m (s.ptr + rest.length) s, Span.Inside ptr (s.ptr + rest.length) r) ∧
    (CutOff A rest → (binderParseLoop V m (s.ptr + rest.length) s).1 = -1 ∧
      Enacted V m p bio ptr cs (binderParseLoop V m (s.ptr + rest.length) s).2)

structure ParsesWithin (p : Proc A σ) (bio : Option BinderIo) (ptr size : ℕ) : Prop where
  inside : ∀ r ∈ parseReads V m (ptr+size) (parseStart m p bio ptr),
    Span.Inside ptr (ptr+size) r
  refused : ∀ cs rest, slice m ptr size = encodeAll cs ++ rest → CutOff A rest →
    (binderParse V m p bio ptr size).1 = -1 ∧
      Enacted V m p bio ptr cs (binderParse V m p bio ptr size).2

variable {endp}

theorem parseReads_next {s s' : ParseState A σ} (hlt : s.ptr < endp)
    (h : parseCommand V m endp s = .next s') :
    parseReads V m endp s = commandReads V m endp s ++ parseReads V m endp s' := by
  rw [parseReads,if_pos hlt]
  congr 1
  split
  · rename_i t ht
    rw [h,Control.next.injEq] at ht
    rw [ht]
  · rename_i r t ht
    rw [h] at ht
    cases ht

theorem parseReads_ret {s s' : ParseState A σ} {r : Int} (hlt : s.ptr < endp)
    (h : parseCommand V m endp s = .ret r s') :
    parseReads V m endp s = commandReads V m endp s := by
  rw [parseReads,if_pos hlt]
  split
  · rename_i t ht
    rw [h] at ht
    cases ht
  · exact List.append_nil _

theorem parseReads_done {s : ParseState A σ} (h : endp ≤ s.ptr) : parseReads V m endp s = [] := by
  rw [parseReads,if_neg (Nat.not_lt.mpr h)]

theorem words_reverse_nodup : [brNoop,brTransactionComplete,brIncrefs A,brAcquire A,brRelease A,
    brDecrefs A,brSpawnLooper,brTransaction A,brReply A,brDeadBinder A,brFailedReply,
    brDeadReply].Nodup := List.nodup_reverse.mpr (words_nodup (A := A))

theorem commandReads_word {s : ParseState A σ} {c : BinderReturn A}
    (h : load32 m s.ptr = c.word) (hc : ¬ c.sized) (hd : ∀ cookie, c ≠ .deadBinder cookie) :
    commandReads V m endp s = [(s.ptr,4)] := by
  have hne := words_nodup (A := A)
  have hen := words_reverse_nodup (A := A)
  simp only [List.nodup_cons,List.mem_cons,List.not_mem_nil,not_or,or_false] at hne hen
  cases c with
  | transaction txn => exact absurd trivial hc
  | reply txn => exact absurd trivial hc
  | deadBinder cookie => exact absurd rfl (hd cookie)
  | _ => simp [commandReads,h,word,hne,hen]

theorem commandReads_cut {s : ParseState A σ} {c : BinderReturn A}
    (h : load32 m s.ptr = c.word) (hc : c.sized)
    (hcut : remaining A endp (s.ptr+4) < A.sizeofBinderTransactionData) :
    commandReads V m endp s = [(s.ptr,4)] := by
  have hne := words_nodup (A := A)
  simp only [List.nodup_cons,List.mem_cons,List.not_mem_nil,not_or,or_false] at hne
  cases c with
  | transaction txn => simp [commandReads,h,word,hcut]
  | reply txn => simp [commandReads,h,word,hcut]
  | _ => exact absurd hc id

theorem commandReads_deadBinder {s : ParseState A σ} (h : load32 m s.ptr = brDeadBinder A) :
    commandReads V m endp s = [(s.ptr,4),(s.ptr+4,A.binderSizeT.bytes)] := by
  have hne := words_nodup (A := A)
  simp only [List.nodup_cons,List.mem_cons,List.not_mem_nil,not_or,or_false] at hne
  simp [commandReads,h,hne]

theorem commandReads_unknown {s : ParseState A σ} (h : load32 m s.ptr ∉ words A) :
    commandReads V m endp s = [(s.ptr,4)] := by
  simp only [words,List.mem_cons,List.not_mem_nil,or_false,not_or] at h
  simp [commandReads,h]

theorem commandReads_inside {s : ParseState A σ} {c : BinderReturn A}
    (h : slice m s.ptr c.encode.length = c.encode) (r : Span)
    (hr : r ∈ commandReads V m endp s) :
    Span.Inside s.ptr (s.ptr + c.encode.length) r := by
  obtain ⟨hw,-⟩ := slice_split h
  rw [leBytes_length] at hw
  have hcmd : load32 m s.ptr = c.word := load32_of_slice hw
  have hlen := c.encode_length
  have hword : Span.Inside s.ptr (s.ptr + c.encode.length) (s.ptr,4) :=
    ⟨le_rfl,by simp only []; omega⟩
  rw [commandReads,List.mem_cons] at hr
  rcases hr with rfl | hr
  · exact hword
  have hne := words_nodup (A := A)
  have hen := words_reverse_nodup (A := A)
  simp only [List.nodup_cons,List.mem_cons,List.not_mem_nil,not_or,or_false] at hne hen
  have hrest : r = (s.ptr+4,c.payload.length) := by
    cases c with
    | transaction txn =>
      simp only [hcmd,word,if_true] at hr
      split_ifs at hr
      · cases hr
      · simpa [payload,txn.encode_length] using hr
    | reply txn =>
      simp only [hcmd,word,hne,if_true,if_false] at hr
      split_ifs at hr
      · cases hr
      · simpa [payload,txn.encode_length] using hr
    | deadBinder cookie => simpa [hcmd,word,hne,payload] using hr
    | _ => simp [hcmd,word,hne,hen] at hr
  rw [hrest,hlen]
  exact ⟨Nat.le_add_right _ _,by simp only []; omega⟩

theorem parseReads_performAll (s : ParseState A σ) (cs : List (BinderReturn A))
    (h : slice m s.ptr (encodeAll cs).length = encodeAll cs)
    (hend : s.ptr + (encodeAll cs).length ≤ endp) (hb : endp - s.ptr < A.sizeT.modulus)
    {lo : ℕ} (hlo : lo ≤ s.ptr) :
    (∀ r ∈ parseReads V m endp s, Span.Inside lo endp r) ↔
      ∀ r ∈ parseReads V m endp (performAll V m s cs), Span.Inside lo endp r := by
  refine performAll_iff V m (F := fun t => ∀ r ∈ parseReads V m endp t, Span.Inside lo endp r)
    (fun t c ht hc hfit hbt => ?_) s cs h hend hb hlo
  have hlen := c.encode_length
  have hown : ∀ r ∈ commandReads V m endp t, Span.Inside lo endp r := by
    intro r hr
    obtain ⟨h1,h2⟩ := commandReads_inside V m hc r hr
    exact ⟨ht.trans h1,h2.trans hfit⟩
  rw [parseReads_next V m (by omega) (parseCommand_encode V m hc hfit hbt),List.forall_mem_append,
    and_iff_right hown]

theorem parseCommand_sized {s : ParseState A σ} {c : BinderReturn A}
    (h : load32 m s.ptr = c.word) (hc : c.sized)
    (hcut : remaining A endp (s.ptr+4) < A.sizeofBinderTransactionData) :
    parseCommand V m endp s = .ret (-1) {s with ptr := s.ptr + 4} := by
  have hne := words_nodup (A := A)
  simp only [List.nodup_cons,List.mem_cons,List.not_mem_nil,not_or,or_false] at hne
  cases c with
  | transaction txn => simp [parseCommand,h,word,hne,hcut]
  | reply txn => simp [parseCommand,h,word,hne,hcut]
  | _ => exact absurd hc id

theorem parseCommand_counted {s : ParseState A σ} {c : BinderReturn A}
    (h : load32 m s.ptr = c.word) (hc : c.counted) :
    parseCommand V m endp s = .next {s with ptr := s.ptr + c.encode.length} := by
  have hne := words_nodup (A := A)
  simp only [List.nodup_cons,List.mem_cons,List.not_mem_nil,not_or,or_false] at hne
  cases c with
  | increfs _ _ | acquire _ _ | release _ _ | decrefs _ _ =>
    simp [parseCommand,h,word,hne,encode_length,payload,ptrCookie_length,Nat.add_assoc]
  | _ => exact absurd hc id

theorem word_mem (c : BinderReturn A) : c.word ∈ words A := by
  cases c <;> simp [words,word]

theorem front_unique {v w : UInt32} {rest : List UInt8} (hv : leBytes 4 v.toNat <+: rest)
    (hw : leBytes 4 w.toNat <+: rest) : v = w := by
  have hsame := (List.prefix_of_prefix_length_le hv hw (by simp)).eq_of_length (by simp)
  have hnat := congrArg leNat hsame
  rw [leNat_leBytes_of_lt (by simpa using v.toNat_lt),
    leNat_leBytes_of_lt (by simpa using w.toNat_lt)] at hnat
  exact UInt32.toNat_inj.mp hnat

theorem unknown_incomplete {word : UInt32} (h : word ∉ words A) {rest : List UInt8}
    (hr : leBytes 4 word.toNat <+: rest) : (returnCode A).Incomplete rest := by
  intro c hc
  have hw : leBytes 4 c.word.toNat <+: rest := (List.prefix_append _ _).trans hc
  exact h (front_unique hr hw ▸ word_mem c)

theorem CutShort.front {c : BinderReturn A} {rest : List UInt8} (h : CutShort A c rest) :
    leBytes 4 c.word.toNat <+: rest :=
  List.prefix_of_prefix_length_le (List.prefix_append _ _) h.2.1 (by simpa using h.1)

theorem sized_iff (c : BinderReturn A) :
    c.sized ↔ c.word = brTransaction A ∨ c.word = brReply A := by
  have hne := words_nodup (A := A)
  have hen := words_reverse_nodup (A := A)
  simp only [List.nodup_cons,List.mem_cons,List.not_mem_nil,not_or,or_false] at hne hen
  cases c <;> simp [sized,word,hne,hen]

theorem counted_iff (c : BinderReturn A) : c.counted ↔
    c.word = brIncrefs A ∨ c.word = brAcquire A ∨ c.word = brRelease A ∨ c.word = brDecrefs A := by
  have hne := words_nodup (A := A)
  have hen := words_reverse_nodup (A := A)
  simp only [List.nodup_cons,List.mem_cons,List.not_mem_nil,not_or,or_false] at hne hen
  cases c <;> simp [counted,word,hne,hen]

theorem cutShort_incomplete {c : BinderReturn A} {rest : List UInt8} (h : CutShort A c rest) :
    (returnCode A).Incomplete rest := Framing.PrefixCode.incomplete_of_cut h.2.1 h.2.2

theorem wellEnded_incomplete {cs : List (BinderReturn A)} {rest : List UInt8}
    (h : WellEnded A cs rest) : (returnCode A).Incomplete rest := by
  rcases h with rfl | ⟨word,hword,hr⟩ | ⟨c,hcut,-⟩
  · exact Framing.PrefixCode.incomplete_nil
  · exact unknown_incomplete hword hr
  · exact cutShort_incomplete hcut

theorem cutOff_incomplete {rest : List UInt8} (h : CutOff A rest) :
    (returnCode A).Incomplete rest := by
  rcases h.2 with hlen | ⟨c,hcut⟩
  · intro c hc
    have hle := hc.length_le
    have hlen := c.encode_length
    simp only [returnCode] at hle
    omega
  · exact cutShort_incomplete hcut

theorem endsWell_iff {cs : List (BinderReturn A)} {rest : List UInt8}
    (hrest : (returnCode A).Incomplete rest) :
    EndsWell A (encodeAll cs ++ rest) ↔ WellEnded A cs rest := by
  constructor
  · rintro ⟨ds,es,heq,hwell⟩
    obtain ⟨rfl,rfl⟩ := Framing.PrefixCode.encodeAll_append_inj hrest
      (wellEnded_incomplete hwell) heq
    exact hwell
  · exact fun h => ⟨cs,rest,rfl,h⟩

theorem rest_cases {p : ℕ} {rest : List UInt8} (hs : slice m p rest.length = rest)
    (hrest : (returnCode A).Incomplete rest) :
    rest = [] ∨ (rest ≠ [] ∧ rest.length < 4) ∨ (4 ≤ rest.length ∧ load32 m p ∉ words A) ∨
      ∃ c, c.word = load32 m p ∧ CutShort A c rest ∧ rest.length < c.encode.length := by
  rcases Nat.lt_or_ge rest.length 4 with hlen | hlen
  · by_cases hnil : rest = []
    · exact .inl hnil
    · exact .inr (.inl ⟨hnil,hlen⟩)
  refine .inr (.inr ?_)
  cases hc : commandAt A m p with
  | none => exact .inl ⟨hlen,commandAt_none_iff.mp hc⟩
  | some c =>
    have hcode := commandAt_encode hc
    have hlt : rest.length < c.encode.length := by
      by_contra hge
      obtain ⟨k,hk⟩ := Nat.exists_eq_add_of_le (Nat.not_lt.mp hge)
      refine hrest c ⟨slice m (p + c.encode.length) k,?_⟩
      rw [← hs,hk,slice_append,hcode]
      rfl
    refine .inr ⟨c,(commandAt_some hc).2,⟨hlen,?_,fun h => by rw [h] at hlt; omega⟩,hlt⟩
    obtain ⟨k,hk⟩ := Nat.exists_eq_add_of_le hlt.le
    rw [← hcode,hk,slice_append,hs]
    exact List.prefix_append _ _

theorem word_front {p : ℕ} {rest : List UInt8} (hs : slice m p rest.length = rest)
    (hlen : 4 ≤ rest.length) : leBytes 4 (load32 m p).toNat <+: rest := by
  obtain ⟨k,hk⟩ := Nat.exists_eq_add_of_le hlen
  rw [← hs,hk,slice_append,leBytes_load32]
  exact List.prefix_append _ _

theorem sized_counted_cases (c : BinderReturn A) : (c.sized ∧ ¬ c.counted ∧
      c.encode.length = 4 + A.sizeofBinderTransactionData) ∨
    (c.counted ∧ ¬ c.sized ∧ ∀ cookie, c ≠ .deadBinder cookie) ∨
    (¬ c.sized ∧ ¬ c.counted ∧ c.word = brDeadBinder A ∧
      c.encode.length = 4 + A.binderSizeT.bytes) ∨ c.encode.length = 4 := by
  cases c <;> simp [sized,counted,word,encode_length,payload,BinderTransactionData.encode_length]

theorem Enacted.moved {p : Proc A σ} {bio : Option BinderIo} {ptr : ℕ} {cs : List (BinderReturn A)}
    {s : ParseState A σ} (h : Enacted V m p bio ptr cs s) (q : ℕ) :
    Enacted V m p bio ptr cs {s with ptr := q} := ⟨h.ran,h.filled,h.unfilled,h.thread⟩

theorem wellEnded_cut_iff {cs : List (BinderReturn A)} {c : BinderReturn A} {rest : List UInt8}
    (hcut : CutShort A c rest) :
    WellEnded A cs rest ↔ c.sized ∨ c.counted ∧ verdictOf cs = -1 := by
  constructor
  · rintro (rfl | ⟨word,hunknown,hr⟩ | ⟨d,hd,hkind⟩)
    · exact absurd hcut.1 (by simp)
    · exact absurd (front_unique hcut.front hr ▸ word_mem c) hunknown
    · rwa [sized_iff,counted_iff,front_unique hd.front hcut.front,← sized_iff,← counted_iff]
        at hkind
  · exact fun h => .inr (.inr ⟨c,hcut,h⟩)

section Ending
variable {V m} {p : Proc A σ} {bio : Option BinderIo} {ptr : ℕ} {cs : List (BinderReturn A)}
  {s : ParseState A σ} {rest : List UInt8}

theorem word_inside (hptr : ptr ≤ s.ptr) (hlen : 4 ≤ rest.length) :
    ∀ r ∈ [(s.ptr,4)], Span.Inside ptr (s.ptr + rest.length) r := by
  intro r hr
  rw [List.mem_singleton.mp hr]
  exact ⟨hptr,Nat.add_le_add_left hlen _⟩

theorem ended_unknown (henacted : Enacted V m p bio ptr cs s) (hptr : ptr ≤ s.ptr)
    (hlen : 4 ≤ rest.length) (hword : load32 m s.ptr ∉ words A) :
    Ended V m p bio ptr cs s rest := by
  have hret : parseCommand V m (s.ptr + rest.length) s = _ := parseCommand_unknown V m hword
  have hlt : s.ptr < s.ptr + rest.length := by omega
  rw [Ended,parseReads_ret V m hlt hret,commandReads_unknown V m hword,
    binderParseLoop_ret V m hlt hret]
  exact ⟨word_inside hptr hlen,fun _ => ⟨rfl,henacted.moved V m _⟩⟩

theorem ended_sized (henacted : Enacted V m p bio ptr cs s) (hptr : ptr ≤ s.ptr)
    (hb : rest.length < A.sizeT.modulus) {c : BinderReturn A} (hcut : CutShort A c rest)
    (hword : load32 m s.ptr = c.word) (hc : c.sized)
    (hlt : rest.length < 4 + A.sizeofBinderTransactionData) :
    Ended V m p bio ptr cs s rest := by
  have hlen := hcut.1
  have hrem : remaining A (s.ptr + rest.length) (s.ptr+4) < A.sizeofBinderTransactionData := by
    rw [remaining_of_le (by omega) (by omega)]
    omega
  have hret := parseCommand_sized V m hword hc hrem
  rw [Ended,parseReads_ret V m (by omega) hret,commandReads_cut V m hword hc hrem,
    binderParseLoop_ret V m (by omega) hret]
  exact ⟨word_inside hptr hlen,fun _ => ⟨rfl,henacted.moved V m _⟩⟩

theorem ended_counted_iff (henacted : Enacted V m p bio ptr cs s) (hptr : ptr ≤ s.ptr)
    {c : BinderReturn A} (hcut : CutShort A c rest)
    (hword : load32 m s.ptr = c.word) (hc : c.counted) (hsized : ¬ c.sized)
    (hdead : ∀ cookie, c ≠ .deadBinder cookie) (hlt : rest.length < c.encode.length) :
    Ended V m p bio ptr cs s rest ↔ s.r = -1 := by
  have hlen := hcut.1
  have hnext : parseCommand V m (s.ptr + rest.length) s = _ :=
    parseCommand_counted V m hword hc
  have hover : s.ptr + rest.length ≤ ({s with ptr := s.ptr + c.encode.length} :
      ParseState A σ).ptr := Nat.add_le_add_left hlt.le _
  have hnil : rest ≠ [] := List.ne_nil_of_length_pos (by omega)
  rw [Ended,parseReads_next V m (by omega) hnext,parseReads_done V m hover,List.append_nil,
    commandReads_word V m hword hsized hdead,binderParseLoop_next V m (by omega) hnext,
    binderParseLoop_done V m hover,and_iff_right (word_inside hptr hlen)]
  exact ⟨fun h => (h ⟨hnil,.inr ⟨c,hcut⟩⟩).1,fun h _ => ⟨h,henacted.moved V m _⟩⟩

theorem not_ended_read {r : Span} (hlt : s.ptr < s.ptr + rest.length)
    (hr : r ∈ commandReads V m (s.ptr + rest.length) s)
    (hout : ¬ Span.Inside ptr (s.ptr + rest.length) r) : ¬ Ended V m p bio ptr cs s rest := by
  rintro ⟨hin,-⟩
  refine hout (hin r ?_)
  rw [parseReads,if_pos hlt]
  exact List.mem_append_left _ hr

theorem ended_iff (henacted : Enacted V m p bio ptr cs s) (hverdict : s.r = verdictOf cs)
    (hptr : ptr ≤ s.ptr) (hb : rest.length < A.sizeT.modulus)
    (hslice : slice m s.ptr rest.length = rest) (hrest : (returnCode A).Incomplete rest) :
    Ended V m p bio ptr cs s rest ↔ WellEnded A cs rest := by
  rcases rest_cases m hslice hrest with rfl | ⟨hnil,hlen⟩ | ⟨hlen,hword⟩ | ⟨c,hword,hcut,hlt⟩
  · refine iff_of_true ?_ (.inl rfl)
    rw [Ended,List.length_nil,Nat.add_zero,parseReads_done V m le_rfl]
    exact ⟨fun r hr => absurd hr List.not_mem_nil,fun h => absurd rfl h.1⟩
  · have hpos := List.length_pos_of_ne_nil hnil
    refine iff_of_false (not_ended_read (by omega) List.mem_cons_self ?_) ?_
    · rintro ⟨-,hout⟩
      simp only [] at hout
      omega
    · rintro (h | ⟨word,-,hr⟩ | ⟨c,hc,-⟩)
      · exact hnil h
      · have hle := hr.length_le
        rw [leBytes_length] at hle
        omega
      · exact absurd hc.1 (Nat.not_le.mpr hlen)
  · exact iff_of_true (ended_unknown henacted hptr hlen hword)
      (.inr (.inl ⟨_,hword,word_front m hslice hlen⟩))
  · rw [wellEnded_cut_iff hcut]
    have hlen := hcut.1
    rcases sized_counted_cases c with ⟨hs,hc,hsize⟩ | ⟨hc,hs,hd⟩ | ⟨hs,hc,hd,hpay⟩ | hsize
    · exact iff_of_true (ended_sized henacted hptr hb hcut hword.symm hs (hsize ▸ hlt)) (.inl hs)
    · rw [ended_counted_iff henacted hptr hcut hword.symm hc hs hd hlt,hverdict]
      exact ⟨fun h => .inr ⟨hc,h⟩,fun h => (h.resolve_left hs).2⟩
    · have hreads : commandReads V m (s.ptr + rest.length) s = _ :=
        commandReads_deadBinder V m (hword ▸ hd)
      refine iff_of_false (not_ended_read (r := (s.ptr+4,A.binderSizeT.bytes)) (by omega) ?_ ?_) ?_
      · rw [hreads]
        exact List.mem_cons_of_mem _ List.mem_cons_self
      · rintro ⟨-,hout⟩
        simp only [] at hout
        omega
      · rintro (h | h)
        · exact hs h
        · exact hc h.1
    · omega

theorem parsesWithin_iff {size : ℕ} (hsize : size < A.sizeT.modulus)
    (hbytes : slice m ptr size = encodeAll cs ++ rest) (hrest : (returnCode A).Incomplete rest) :
    ParsesWithin V m p bio ptr size ↔
      Ended V m p bio ptr cs (performAll V m (parseStart m p bio ptr) cs) rest := by
  obtain ⟨hlen,hcs,-⟩ := slice_eq_append hbytes
  have hptr : (performAll V m (parseStart m p bio ptr) cs).ptr = ptr + (encodeAll cs).length :=
    performAll_ptr V m _ cs
  have hend : (performAll V m (parseStart m p bio ptr) cs).ptr + rest.length =
      ptr + size := by omega
  have hreads : (∀ r ∈ parseReads V m (ptr+size) (parseStart m p bio ptr),
      Span.Inside ptr (ptr+size) r) ↔
      ∀ r ∈ parseReads V m (ptr+size) (performAll V m (parseStart m p bio ptr) cs),
        Span.Inside ptr (ptr+size) r := by
    refine parseReads_performAll V m (parseStart m p bio ptr) cs hcs ?_ ?_ le_rfl
    · simp only [parseStart]
      omega
    · simp only [parseStart]
      omega
  have hloop := binderParse_performAll V m p bio ptr cs hcs (by omega) hsize
  rw [Ended,hend,← hreads,← hloop]
  constructor
  · intro h
    exact ⟨h.inside,fun hcut => h.refused cs rest hbytes hcut⟩
  · rintro ⟨hin,hcut⟩
    refine ⟨hin,fun ds es heq hoff => ?_⟩
    obtain ⟨rfl,rfl⟩ := Framing.PrefixCode.encodeAll_append_inj hrest (cutOff_incomplete hoff)
      (hbytes.symm.trans heq)
    exact hcut hoff

end Ending

theorem parses_within_iff_ends_well (p : Proc A σ) (bio : Option BinderIo) (ptr : ℕ)
    (size : A.Uintptr) :
    ParsesWithin V m p bio ptr size.toNat ↔ EndsWell A (slice m ptr size.toNat) := by
  have hsize : size.toNat < A.sizeT.modulus := toNat_lt_pow size
  obtain ⟨cs,rest,hbytes,hrest⟩ := (returnCode A).exists_frames (slice m ptr size.toNat)
  obtain ⟨hlen,-,hslice⟩ := slice_eq_append hbytes
  have hptr : (performAll V m (parseStart m p bio ptr) cs).ptr = ptr + (encodeAll cs).length :=
    performAll_ptr V m _ cs
  rw [parsesWithin_iff hsize hbytes hrest,
    ended_iff (performAll_enacted V m p bio ptr cs) (performAll_verdict V m p bio ptr cs) (by omega)
      (by omega) (hptr ▸ hslice) hrest]
  exact (hbytes ▸ endsWell_iff hrest).symm

end

def truncatedDeath : Mem :=
  write (fun _ => 0) 0 (leBytes 4 (brDeadBinder (Abi.uniform .four)).toNat)

theorem truncated_death_read :
    ¬ ∀ (A : Abi) (σ : Type) (V : Server A σ) (m : Mem) (p : Proc A σ) (bio : Option BinderIo)
      (ptr : ℕ) (size : A.Uintptr), ParsesWithin V m p bio ptr size.toNat := by
  intro hall
  have hin := (hall (Abi.uniform .four) ℕ countingServer truncatedDeath ⟨0,[],0⟩ none 0 4).inside
    (4,4) (by
      rw [parseReads,if_pos (by decide)]
      exact List.mem_append_left _ (by decide +kernel))
  exact absurd hin.2 (by decide)

end Binder
