import AndroidProjects.Binder.Call
import AndroidProjects.Binder.Transfer

namespace Binder
open ByteMemory Layout

inductive Party where
  | contextManager
  | process (pid : ℕ)
  deriving DecidableEq, Repr

structure Node (A : Abi) where
  owner : Party
  ptr : A.BinderUintptr
  deriving DecidableEq, Repr

abbrev HandleTable (A : Abi) := Party → UInt32 → Option (Node A)

def BinderReturn.quiet {A : Abi} : BinderReturn A → Bool
  | noop => true
  | transactionComplete => true
  | increfs _ _ => true
  | acquire _ _ => true
  | release _ _ => true
  | decrefs _ _ => true
  | spawnLooper => true
  | _ => false

section
variable {A : Abi}

def Surrounded (cs : List (BinderReturn A)) (c : BinderReturn A) : Prop :=
  ∃ us vs, cs = us ++ c :: vs ∧ (∀ u ∈ us, u.quiet = true) ∧ ∀ v ∈ vs, v.quiet = true

def waitRounds (waits : List (Delivery A)) (reply : Delivery A) : List CallRound :=
  (waits ++ [reply]).map fun δ => ⟨true,some δ.read⟩

section
variable {σ : Type}

def spawned (p : Proc A σ) (n : ℕ) : Proc A σ := {p with created := n}

variable (V : Server A σ) (m : Mem)

theorem performAll_quiet {cs : List (BinderReturn A)} (h : ∀ c ∈ cs, c.quiet = true)
    (s : ParseState A σ) : ∃ q b n,
      performAll V m s cs = {s with ptr := q, btd := b, proc := spawned s.proc n} := by
  induction cs generalizing s with
  | nil => exact ⟨s.ptr,s.btd,s.proc.created,rfl⟩
  | cons c cs ih =>
    have hc : ∃ q b n, perform V m s c = {s with ptr := q, btd := b, proc := spawned s.proc n} := by
      have hq := h c List.mem_cons_self
      cases c with
      | spawnLooper => exact ⟨_,_,_,rfl⟩
      | transaction txn => cases hq
      | reply txn => cases hq
      | deadBinder cookie => cases hq
      | failedReply => cases hq
      | deadReply => cases hq
      | _ => exact ⟨_,_,s.proc.created,rfl⟩
    obtain ⟨q,b,n,hstep⟩ := hc
    obtain ⟨q',b',n',hrest⟩ := ih (fun u hu => h u (List.mem_cons_of_mem c hu)) (perform V m s c)
    refine ⟨q',b',n',?_⟩
    rw [performAll] at hrest ⊢
    rw [List.foldl_cons,hrest,hstep]
    rfl

theorem performAll_carries {cs : List (BinderReturn A)} {c : BinderReturn A}
    (h : Surrounded cs c) (s : ParseState A σ) : ∃ s₀ q b n,
      (s₀.r = s.r ∧ s₀.bio = s.bio ∧ s₀.reply = s.reply ∧ ∃ k, s₀.proc = spawned s.proc k) ∧
      performAll V m s cs = {perform V m s₀ c with
        ptr := q, btd := b, proc := spawned (perform V m s₀ c).proc n} := by
  obtain ⟨us,vs,rfl,hus,hvs⟩ := h
  obtain ⟨q,b,n,hbefore⟩ := performAll_quiet V m hus s
  obtain ⟨q',b',n',hafter⟩ := performAll_quiet V m hvs
    (perform V m {s with ptr := q, btd := b, proc := spawned s.proc n} c)
  refine ⟨{s with ptr := q, btd := b, proc := spawned s.proc n},q',b',n',
    ⟨rfl,rfl,rfl,n,rfl⟩,?_⟩
  rw [performAll_append,hbefore]
  exact hafter

theorem loopRound_transaction {s : Looper A σ} (hrun : s.running = true) {δ : Delivery A}
    {txn : BinderTransactionData A} (h : Surrounded δ.cmds (.transaction txn)) :
    ∃ at' k n, loopRound V s (some δ.read) =
      ⟨spawned (serveTransaction V δ.mem (spawned s.proc k) txn (δ.rdata at')) n,true⟩ := by
  have hread := loopRound_read V hrun δ
  have hstatus := performAll_r {V with rdata := δ.rdata} δ.mem
    ⟨δ.ptr,1,false,⟨δ.mem,0,0,0,0,0,0,0⟩,none,s.proc⟩ δ.cmds
  obtain ⟨s₀,q,b,n,⟨hr,-,-,k,hproc⟩,hall⟩ := performAll_carries {V with rdata := δ.rdata} δ.mem h
    ⟨δ.ptr,1,false,⟨δ.mem,0,0,0,0,0,0,0⟩,none,s.proc⟩
  rw [hall] at hstatus
  refine ⟨s₀.ptr+4,k,n,?_⟩
  rw [hread,performRead,hall,← hstatus]
  simp only [perform_r,BinderReturn.status,hr]
  rw [← hproc]
  rfl

theorem parseReply_quiet {δ : Delivery A} (h : ∀ c ∈ δ.cmds, c.quiet = true) (p : Proc A σ)
    (reply : BinderIo) : (parseReply V p reply δ.read).1 = 1 ∧
      (parseReply V p reply δ.read).2.reply = reply ∧
      ∃ n, (parseReply V p reply δ.read).2.proc = spawned p n := by
  have hparse := parseReply_read V p reply δ
  obtain ⟨q,b,n,hall⟩ := performAll_quiet {V with func := none, rdata := δ.rdata} δ.mem h
    ⟨δ.ptr,1,true,reply,none,p⟩
  simp only [hall] at hparse
  rw [hparse]
  exact ⟨rfl,rfl,n,rfl⟩

theorem parseReply_carries {δ : Delivery A} {txn : BinderTransactionData A}
    (h : Surrounded δ.cmds (.reply txn)) (p : Proc A σ) (reply : BinderIo) :
    (parseReply V p reply δ.read).1 = 0 ∧
      (parseReply V p reply δ.read).2.reply = bioInitFromTxn A δ.mem txn ∧
      ∃ n, (parseReply V p reply δ.read).2.proc = spawned p n := by
  have hparse := parseReply_read V p reply δ
  obtain ⟨s₀,q,b,n,⟨-,hbio,-,k,hproc⟩,hall⟩ := performAll_carries
    {V with func := none, rdata := δ.rdata} δ.mem h ⟨δ.ptr,1,true,reply,none,p⟩
  simp only [hall] at hparse
  rw [hparse]
  simp only [perform,hbio,hproc,if_true]
  exact ⟨trivial,trivial,n,rfl⟩

theorem binderCallLoop_waits {waits : List (Delivery A)} {δ : Delivery A}
    {txn : BinderTransactionData A} (hwaits : ∀ w ∈ waits, ∀ c ∈ w.cmds, c.quiet = true)
    (h : Surrounded δ.cmds (.reply txn)) (out : Outgoing) (unsent : Bool) (p : Proc A σ)
    (reply : BinderIo) : ∃ n, binderCallLoop V out unsent p reply (waitRounds waits δ) =
      some (0,bioInitFromTxn A δ.mem txn,
        spawned (if unsent then binderWrite p [.transaction out] else p) n) := by
  induction waits generalizing unsent p reply with
  | nil =>
    obtain ⟨hres,hreply,n,hproc⟩ := parseReply_carries V h
      (if unsent then binderWrite p [.transaction out] else p) reply
    refine ⟨n,?_⟩
    have hrounds : waitRounds [] δ = [⟨true,some δ.read⟩] := rfl
    rw [hrounds]
    simp only [binderCallLoop,Bool.and_true,hres,if_true,hreply,hproc]
  | cons w waits ih =>
    obtain ⟨hres,hreply,k,hproc⟩ := parseReply_quiet V (hwaits w List.mem_cons_self)
      (if unsent then binderWrite p [.transaction out] else p) reply
    obtain ⟨n,hrest⟩ := ih (fun u hu => hwaits u (List.mem_cons_of_mem w hu)) false
      (spawned (if unsent then binderWrite p [.transaction out] else p) k) reply
    refine ⟨n,?_⟩
    have hrounds : waitRounds (w :: waits) δ = ⟨true,some w.read⟩ :: waitRounds waits δ := rfl
    have hwaiting : ¬ (1 : Int) = 0 ∧ ¬ (1 : Int) < 0 := by omega
    rw [hrounds]
    simp only [binderCallLoop,Bool.and_true,hres,hreply,hproc,hwaiting,if_false,Bool.not_true,
      Bool.and_false]
    exact hrest

theorem binderCall_replied {waits : List (Delivery A)} {δ : Delivery A}
    {txn : BinderTransactionData A} (hwaits : ∀ w ∈ waits, ∀ c ∈ w.cmds, c.quiet = true)
    (h : Surrounded δ.cmds (.reply txn)) {msg : BinderIo} {target code : UInt32} {out : Outgoing}
    (hsent : callSent msg target code = some out) (p : Proc A σ) (reply : BinderIo) :
    ∃ n, binderCall V p msg reply target code (waitRounds waits δ) =
      some (0,bioInitFromTxn A δ.mem txn,spawned (binderWrite p [.transaction out]) n) := by
  obtain ⟨ho,rfl⟩ := callSent_some hsent
  rw [binderCall,if_neg ho]
  exact binderCallLoop_waits V hwaits h _ true p reply

variable {V}

theorem performRead_congr {V' : Server A σ} {δ : Delivery A} (hdeath : V.death = V'.death)
    (h : ∀ txn, .transaction txn ∈ δ.cmds → ∀ p rdata,
      serveTransaction V δ.mem p txn rdata = serveTransaction V' δ.mem p txn rdata)
    (p : Proc A σ) : (performRead V p δ).proc = (performRead V' p δ).proc := by
  have hfold : ∀ (cs : List (BinderReturn A)) (s s' : ParseState A σ), (∀ c ∈ cs, c ∈ δ.cmds) →
      s.ptr = s'.ptr → s.proc = s'.proc →
      (performAll {V with rdata := δ.rdata} δ.mem s cs).proc =
        (performAll {V' with rdata := δ.rdata} δ.mem s' cs).proc := by
    intro cs
    induction cs with
    | nil => exact fun _ _ _ _ hproc => hproc
    | cons c cs ih =>
      intro s s' hmem hptr hproc
      refine ih _ _ (fun u hu => hmem u (List.mem_cons_of_mem c hu)) ?_ ?_
      · rw [perform_ptr,perform_ptr,hptr]
      · cases c with
        | transaction txn =>
          change serveTransaction V δ.mem s.proc txn (δ.rdata (s.ptr+4)) =
            serveTransaction V' δ.mem s'.proc txn (δ.rdata (s'.ptr+4))
          rw [h txn (hmem _ List.mem_cons_self),hproc,hptr]
        | spawnLooper =>
          change ({s.proc with created := s.proc.created + 1} : Proc A σ) = _
          rw [hproc]
          rfl
        | deadBinder cookie =>
          change V.death (cookie.setWidth _) s.proc = V'.death (cookie.setWidth _) s'.proc
          rw [hdeath,hproc]
        | _ => exact hproc
  exact hfold δ.cmds _ _ (fun c hc => hc) rfl rfl

theorem loopRound_congr {V' : Server A σ} {δ : Delivery A} (hdeath : V.death = V'.death)
    (h : ∀ txn, .transaction txn ∈ δ.cmds → ∀ p rdata,
      serveTransaction V δ.mem p txn rdata = serveTransaction V' δ.mem p txn rdata)
    (s : Looper A σ) : loopRound V s (some δ.read) = loopRound V' s (some δ.read) := by
  by_cases hrun : s.running = true
  · rw [loopRound_read V hrun,loopRound_read V' hrun,performRead_congr hdeath h]
  · rw [Bool.not_eq_true] at hrun
    rw [loopRound_stopped V hrun,loopRound_stopped V' hrun]

theorem surrounded_transaction {cs : List (BinderReturn A)} {t txn : BinderTransactionData A}
    (h : Surrounded cs (.transaction txn)) (ht : .transaction t ∈ cs) : t = txn := by
  obtain ⟨us,vs,rfl,hus,hvs⟩ := h
  rcases List.mem_append.mp ht with ht | ht
  · exact absurd (hus _ ht) (by simp [BinderReturn.quiet])
  · rcases List.mem_cons.mp ht with ht | ht
    · exact BinderReturn.transaction.inj ht
    · exact absurd (hvs _ ht) (by simp [BinderReturn.quiet])

end

def wordAt (bs : List UInt8) (off n : ℕ) : ℕ := leNat ((bs.drop off).take n)

def sentNode (d : HandleTable A) (sender : Party) (out : Outgoing) (off : ℕ) : Option (Node A) :=
  let type := UInt32.ofNat (wordAt out.data off 4)
  if type = binderTypeBinder then
    some ⟨sender,BitVec.ofNat _ (wordAt out.data (off+8) A.binderSizeT.bytes)⟩
  else if type = binderTypeHandle then d sender (UInt32.ofNat (wordAt out.data (off+8) 4))
  else none

structure Translated (d : HandleTable A) (sender receiver : Party) (out : Outgoing)
    (handles : ℕ → UInt32) (d' : HandleTable A) : Prop where
  keeps : ∀ q h node, d q h = some node → d' q h = some node
  objects : ∀ n off node, (objectTable A out)[n]? = some off →
    sentNode d sender out off = some node → node.owner ≠ receiver →
    handles n ≠ 0 ∧ d' receiver (handles n) = some node

def Foreign (d : HandleTable A) (sender receiver : Party) (out : Outgoing) : Prop :=
  ∀ off ∈ objectTable A out, ∃ node, sentNode d sender out off = some node ∧ node.owner ≠ receiver

structure Mail (A : Abi) where
  read : Delivery A
  txn : BinderTransactionData A
  handles : ℕ → UInt32
  table : HandleTable A

structure Posted (d : HandleTable A) (sender receiver : Party) (out : Outgoing)
    (c : BinderTransactionData A → BinderReturn A) (mail : Mail A) : Prop where
  read : Surrounded mail.read.cmds (c mail.txn)
  translated : Translated d sender receiver out mail.handles mail.table
  copied : Foreign d sender receiver out → Delivered A out mail.handles mail.read.mem mail.txn
  buffer : A.sizeT.wrap mail.txn.buffer.toNat = mail.txn.buffer.toNat
  offsets : A.sizeT.wrap mail.txn.offsets.toNat = mail.txn.offsets.toNat

def callee (d : HandleTable A) (sender : Party) (target : UInt32) : Option (Node A) :=
  if target = binderServiceManager then some ⟨.contextManager,0⟩ else d sender target

structure Called (uid : Party → UInt32) (d : HandleTable A) (sender : Party) (node : Node A)
    (out : Outgoing) (mail : Mail A) : Prop where
  callee : callee d sender out.target = some node
  posted : Posted d sender node.owner out .transaction mail
  target : mail.txn.target = node.ptr
  code : mail.txn.code = out.code
  sender : mail.txn.senderEuid = uid sender

section
variable {start io : BinderIo} {us ws : List (Item A)} {target code flags : UInt32}

theorem wordAt_dataBytes {vs : List (Item A)} (hw : Wrote A start io vs) (off n : ℕ)
    (h : off + n ≤ extent Item.size vs) :
    wordAt io.dataBytes off n = load io.mem (start.data+off) n := by
  have hd := hw.data
  rw [wordAt,BinderIo.dataBytes,hw.data0,load]
  exact congrArg leNat (slice_drop_take io.mem start.data (by omega))

theorem sentNode_wrote {o : FlatObject A} (hw : Wrote A start io (us ++ .object o :: ws))
    (d : HandleTable A) (sender : Party) :
    sentNode d sender ⟨target,code,flags,io.dataBytes,io.offsBytes⟩ (extent Item.size us) =
      match o with
      | .binder ptr => some ⟨sender,ptr.setWidth _⟩
      | .handle h => d sender h := by
  have hat := (placed_append.mp hw.placed).2.1
  have hb := A.binderSizeT.four_le_bytes
  have hsize : (Item.object o).size = 8 + 2 * A.binderSizeT.bytes := rfl
  have hext : extent Item.size (us ++ .object o :: ws) =
      extent Item.size us + ((Item.object o).size + extent Item.size ws) := by
    rw [extent_append,extent_cons]
  have htype := wordAt_dataBytes hw (extent Item.size us) 4 (by omega)
  have hptr := wordAt_dataBytes hw (extent Item.size us + 8) A.binderSizeT.bytes (by omega)
  have hhandle := wordAt_dataBytes hw (extent Item.size us + 8) 4 (by omega)
  rw [← Nat.add_assoc] at hptr hhandle
  simp only [sentNode,htype,hptr,hhandle]
  cases o with
  | binder ptr =>
    have h0 : UInt32.ofNat (load io.mem (start.data + extent Item.size us) 4) = binderTypeBinder :=
      hat.1
    have h8 : BitVec.ofNat (8 * A.binderSizeT.bytes)
        (load io.mem (start.data + extent Item.size us + 8) A.binderSizeT.bytes) =
          ptr.setWidth _ := hat.2
    rw [if_pos h0,h8]
  | handle h =>
    have h0 : UInt32.ofNat (load io.mem (start.data + extent Item.size us) 4) = binderTypeHandle :=
      hat.1
    have h8 : UInt32.ofNat (load io.mem (start.data + extent Item.size us + 8) 4) = h := hat.2
    have hne : binderTypeHandle ≠ binderTypeBinder := by decide
    rw [h0,if_neg hne,if_pos rfl,h8]

theorem objectTable_none {vs : List (Item A)} (hw : Wrote A start io vs)
    (h : vs.countP Item.isObject = 0) :
    objectTable A ⟨target,code,flags,io.dataBytes,io.offsBytes⟩ = [] := by
  have hlen := marks_length Item.size Item.isObject 0 vs
  rw [objectTable_wrote hw]
  exact List.length_eq_zero_iff.mp (hlen.trans h)

theorem objectTable_one {o : FlatObject A} (hw : Wrote A start io (us ++ [.object o]))
    (h : us.countP Item.isObject = 0) :
    objectTable A ⟨target,code,flags,io.dataBytes,io.offsBytes⟩ = [extent Item.size us] := by
  have hlen := marks_length Item.size Item.isObject 0 us
  rw [objectTable_wrote hw,marks_append,List.length_eq_zero_iff.mp (hlen.trans h),Nat.zero_add]
  rfl

theorem posted_readable {vs : List (Item A)} (hw : Wrote A start io vs)
    (hvalid : ∀ v ∈ vs, v.Valid) (hone : vs.countP Item.isObject ≤ 1)
    (hsmall : start.dataAvail < 2 ^ 32) {d : HandleTable A} {sender receiver : Party}
    {c : BinderTransactionData A → BinderReturn A} {mail : Mail A}
    (hp : Posted d sender receiver ⟨target,code,flags,io.dataBytes,io.offsBytes⟩ c mail)
    (hf : Foreign d sender receiver ⟨target,code,flags,io.dataBytes,io.offsBytes⟩) :
    Readable A mail.read.mem mail.txn (deliver mail.handles 0 vs) := by
  have hm := A.sizeT.modulus_ge
  have hb := A.binderSizeT.bytes_le_eight
  have htable := Nat.mul_le_mul hb hone
  exact delivered_readable hw hvalid (by omega) (by omega) (hp.copied hf) hp.buffer hp.offsets

end

theorem foreign_of_empty {d : HandleTable A} {sender receiver : Party} {out : Outgoing}
    (h : objectTable A out = []) : Foreign d sender receiver out := by
  intro off hoff
  rw [h] at hoff
  exact absurd hoff List.not_mem_nil

theorem foreign_one {d : HandleTable A} {sender receiver : Party} {out : Outgoing} {off : ℕ}
    (h : objectTable A out = [off]) {node : Node A} (hs : sentNode d sender out off = some node)
    (hn : node.owner ≠ receiver) : Foreign d sender receiver out := by
  intro off' hoff
  rw [h,List.mem_singleton] at hoff
  exact hoff ▸ ⟨node,hs,hn⟩

end

end Binder
