import AndroidProjects.Foundation.ByteMemory
import AndroidProjects.Foundation.Framing
import Mathlib.Data.UInt

namespace Inotify
open ByteMemory Framing

-- sizeof(struct inotify_event) and the sizes of its fields, with the name behind them
def sizeofEvent : ℕ := 16

def inCreate : UInt32 := 0x100

def eintr : Int32 := 4

-- the kernel pads a name with at least one NUL
@[ext] structure InotifyEvent where
  wd : UInt32
  mask : UInt32
  cookie : UInt32
  name : List UInt8
  terminated : name = [] ∨ 0 ∈ name
  short : name.length < 2 ^ 32
  deriving DecidableEq, Repr

def InotifyEvent.encode (e : InotifyEvent) : List UInt8 :=
  leBytes 4 e.wd.toNat ++ (leBytes 4 e.mask.toNat ++ (leBytes 4 e.cookie.toNat ++
    (leBytes 4 e.name.length ++ e.name)))

inductive Report where
  | create (name : List UInt8)
  | delete (name : List UInt8)
  | couldNotGet (errno : Int32)
  deriving DecidableEq, Repr

-- the bytes of event_buf that read filled; nothing else of it may be looked at
def slice? (buf : List UInt8) (pos : ℤ) (n : ℕ) : Option (List UInt8) :=
  if 0 ≤ pos ∧ pos + n ≤ buf.length then some ((buf.drop pos.toNat).take n) else none

def field32 (buf : List UInt8) (pos : ℤ) : Option UInt32 :=
  (slice? buf pos 4).map fun bs => UInt32.ofNat (leNat bs)

-- what %s prints, none when no NUL is left in the buffer
def cString (buf : List UInt8) (pos : ℤ) : Option (List UInt8) :=
  if 0 ≤ pos ∧ 0 ∈ buf.drop pos.toNat then some ((buf.drop pos.toNat).takeWhile (· != 0)) else none

-- the body of the loop up to the printf
def printEvent (eventBuf : List UInt8) (event : ℤ) (len : UInt32) : Option (List Report) :=
  if len ≠ 0 then do
    let mask ← field32 eventBuf (event + 4)
    let name ← cString eventBuf (event + sizeofEvent)
    if mask &&& inCreate ≠ 0 then some [.create name] else some [.delete name]
  else some []

def processEvents (eventBuf : List UInt8) : ℕ → Int32 → Int32 → Option (List Report)
  | 0, _, _ => none
  | fuel+1, res, eventPos =>
    if Int32.ofNat sizeofEvent ≤ res then do
      let len ← field32 eventBuf (eventPos.toInt + 12)
      let printed ← printEvent eventBuf eventPos.toInt len
      -- a size_t assigned to an int keeps its low 32 bits
      let eventSize := (UInt32.ofNat sizeofEvent + len).toInt32
      let rest ← processEvents eventBuf fuel (res - eventSize) (eventPos + eventSize)
      some (printed ++ rest)
    else some []

-- filled: the bytes that read put into event_buf, none when it returned -1
def readProcessInotifyFd (fuel : ℕ) (errno : Int32) (filled : Option (List UInt8)) :
    Option (Int32 × List Report) :=
  let res := match filled with
    | none => -1
    | some bs => Int32.ofNat bs.length
  if res < Int32.ofNat sizeofEvent then
    if errno = eintr then some (0,[]) else some (-1,[.couldNotGet errno])
  else (processEvents (filled.getD []) fuel res 0).map fun printed => (0,printed)

def InotifyEvent.report (e : InotifyEvent) : Option Report :=
  if e.name = [] then none
  else if e.mask &&& inCreate ≠ 0 then some (.create (e.name.takeWhile (· != 0)))
  else some (.delete (e.name.takeWhile (· != 0)))

theorem encode_length (e : InotifyEvent) : e.encode.length = sizeofEvent + e.name.length := by
  simp only [InotifyEvent.encode,List.length_append,leBytes_length,sizeofEvent]
  omega

theorem leBytes_inj {v w : ℕ} (hv : v < 2 ^ 32) (hw : w < 2 ^ 32) (h : leBytes 4 v = leBytes 4 w) :
    v = w := by
  have hval := congrArg leNat h
  rwa [leNat_leBytes_of_lt hv,leNat_leBytes_of_lt hw] at hval

theorem encode_prefix_free (e f : InotifyEvent) (h : e.encode <+: f.encode) : e = f := by
  obtain ⟨ws,h⟩ := h
  simp only [InotifyEvent.encode,List.append_assoc] at h
  obtain ⟨hwd,h⟩ := List.append_inj h (by simp)
  obtain ⟨hmask,h⟩ := List.append_inj h (by simp)
  obtain ⟨hcookie,h⟩ := List.append_inj h (by simp)
  obtain ⟨hlen,h⟩ := List.append_inj h (by simp)
  have hname := (List.append_inj (h.trans (List.append_nil _).symm)
    (leBytes_inj e.short f.short hlen)).1
  have hword {v w : UInt32} (h : leBytes 4 v.toNat = leBytes 4 w.toNat) : v = w :=
    UInt32.toNat_inj.mp (leBytes_inj v.toNat_lt w.toNat_lt h)
  exact InotifyEvent.ext (hword hwd) (hword hmask) (hword hcookie) hname

def eventCode : PrefixCode InotifyEvent UInt8 where
  encode := InotifyEvent.encode
  encode_ne_nil e h := by
    have hlen := encode_length e
    rw [h,List.length_nil,sizeofEvent] at hlen
    omega
  prefix_free := encode_prefix_free

theorem slice_at (us xs ws : List UInt8) {pos : ℤ} (hpos : pos = us.length) :
    slice? (us ++ (xs ++ ws)) pos xs.length = some xs := by
  subst hpos
  have hin : (0 : ℤ) ≤ us.length ∧ (us.length : ℤ) + xs.length ≤ (us ++ (xs ++ ws)).length := by
    simp only [List.length_append]
    omega
  rw [slice?,if_pos hin,Int.toNat_natCast,List.drop_left,List.take_left]

theorem field_at (us ws : List UInt8) {pos : ℤ} {v : ℕ} (hpos : pos = us.length)
    (hv : v < 2 ^ 32) : field32 (us ++ (leBytes 4 v ++ ws)) pos = some (UInt32.ofNat v) := by
  have hslice := slice_at us (leBytes 4 v) ws hpos
  rw [leBytes_length] at hslice
  rw [field32,hslice,Option.map_some,leNat_leBytes_of_lt hv]

theorem takeWhile_terminated {xs : List UInt8} (h : 0 ∈ xs) (ws : List UInt8) :
    (xs ++ ws).takeWhile (· != 0) = xs.takeWhile (· != 0) := by
  induction xs with
  | nil => cases h
  | cons x xs ih =>
    by_cases hx : x = 0
    · subst hx
      rfl
    · have hrest := ih ((List.mem_cons.mp h).resolve_left fun h => hx h.symm)
      simp [hx,hrest]

theorem cString_at (us : List UInt8) {xs : List UInt8} (ws : List UInt8) {pos : ℤ}
    (hpos : pos = us.length) (h : 0 ∈ xs) :
    cString (us ++ (xs ++ ws)) pos = some (xs.takeWhile (· != 0)) := by
  subst hpos
  rw [cString,Int.toNat_natCast,List.drop_left,takeWhile_terminated h]
  exact if_pos ⟨Int.natCast_nonneg _,List.mem_append_left ws h⟩

theorem printed_event {us ws : List UInt8} (e : InotifyEvent) {pos : ℤ} (hpos : pos = us.length) :
    printEvent (us ++ (e.encode ++ ws)) pos (UInt32.ofNat e.name.length) =
    some e.report.toList := by
  have hlen := e.short
  rw [printEvent,InotifyEvent.report]
  by_cases hname : e.name = []
  · rw [if_pos hname,hname]
    rfl
  have hpos' : UInt32.ofNat e.name.length ≠ 0 := by
    intro hzero
    have hval := congrArg UInt32.toNat hzero
    rw [UInt32.toNat_ofNat_of_lt' hlen] at hval
    exact hname (List.length_eq_zero_iff.mp hval)
  have hmask : field32 (us ++ (e.encode ++ ws)) (pos + 4) = some e.mask := by
    have hbehind : pos + 4 = (us ++ leBytes 4 e.wd.toNat).length := by simp [hpos]
    have hat := field_at _ (leBytes 4 e.cookie.toNat ++ (leBytes 4 e.name.length ++ e.name) ++ ws)
      hbehind e.mask.toNat_lt
    simpa [InotifyEvent.encode,List.append_assoc] using hat
  have hstring : cString (us ++ (e.encode ++ ws)) (pos + sizeofEvent) =
      some (e.name.takeWhile (· != 0)) := by
    have hbehind : pos + sizeofEvent = (us ++ (leBytes 4 e.wd.toNat ++ (leBytes 4 e.mask.toNat ++
        (leBytes 4 e.cookie.toNat ++ leBytes 4 e.name.length)))).length := by
      simp [hpos,sizeofEvent]
    have hat := cString_at _ ws hbehind (e.terminated.resolve_left hname)
    simpa [InotifyEvent.encode,List.append_assoc] using hat
  rw [if_pos hpos',if_neg hname,hmask,hstring]
  by_cases hcreate : e.mask &&& inCreate ≠ 0
  · rw [if_pos hcreate]
    exact if_pos hcreate
  · rw [if_neg hcreate]
    exact if_neg hcreate

theorem event_size (e : InotifyEvent) :
    (UInt32.ofNat sizeofEvent + UInt32.ofNat e.name.length).toInt32 =
    Int32.ofNat e.encode.length := by
  rw [UInt32.toInt32_add,UInt32.toInt32_ofNat',UInt32.toInt32_ofNat',encode_length,Int32.ofNat_add]

theorem length_field {us ws : List UInt8} (e : InotifyEvent) :
    field32 (us ++ (e.encode ++ ws)) (us.length + 12) = some (UInt32.ofNat e.name.length) := by
  have hbehind : (us.length : ℤ) + 12 = (us ++ (leBytes 4 e.wd.toNat ++
      (leBytes 4 e.mask.toNat ++ leBytes 4 e.cookie.toNat))).length := by simp
  have hat := field_at _ (e.name ++ ws) hbehind e.short
  simpa [InotifyEvent.encode,List.append_assoc] using hat

-- one turn of the loop; us is what the earlier turns have consumed
theorem processed_event (us ws : List UInt8) (e : InotifyEvent) (fuel : ℕ)
    (hfit : us.length + (e.encode ++ ws).length < 2 ^ 31) :
    processEvents (us ++ (e.encode ++ ws)) (fuel+1) (Int32.ofNat (e.encode ++ ws).length)
        (Int32.ofNat us.length) =
      (processEvents (us ++ (e.encode ++ ws)) fuel (Int32.ofNat ws.length)
        (Int32.ofNat (us ++ e.encode).length)).map (e.report.toList ++ ·) := by
  have hsize := encode_length e
  have hlength : (e.encode ++ ws).length = e.encode.length + ws.length := List.length_append
  have hpos : (Int32.ofNat us.length).toInt = us.length := Int32.toInt_ofNat_of_lt (by omega)
  have hleft : (Int32.ofNat (e.encode ++ ws).length).toInt = (e.encode ++ ws).length :=
    Int32.toInt_ofNat_of_lt (by omega)
  have hheader : (Int32.ofNat sizeofEvent).toInt = sizeofEvent := rfl
  have henough : Int32.ofNat sizeofEvent ≤ Int32.ofNat (e.encode ++ ws).length := by
    rw [Int32.le_iff_toInt_le,hleft,hheader]
    omega
  have hres : Int32.ofNat (e.encode ++ ws).length - Int32.ofNat e.encode.length =
      Int32.ofNat ws.length := by
    rw [← Int32.ofNat_sub _ _ (by simp),List.length_append,Nat.add_sub_cancel_left]
  have hnext : Int32.ofNat us.length + Int32.ofNat e.encode.length =
      Int32.ofNat (us ++ e.encode).length := by
    rw [List.length_append,Int32.ofNat_add]
  rw [processEvents,if_pos henough,hpos,length_field]
  simp only [Option.bind_eq_bind,Option.bind_some,printed_event e rfl,event_size,hres,hnext]
  cases processEvents (us ++ (e.encode ++ ws)) fuel (Int32.ofNat ws.length)
      (Int32.ofNat (us ++ e.encode).length) with
  | none => rfl
  | some rest => rfl

theorem processed_events (us : List UInt8) {es : List InotifyEvent} {fuel : ℕ}
    (hfuel : es.length < fuel) (hfit : us.length + (eventCode.encodeAll es).length < 2 ^ 31) :
    processEvents (us ++ eventCode.encodeAll es) fuel
      (Int32.ofNat (eventCode.encodeAll es).length) (Int32.ofNat us.length) =
        some (es.filterMap InotifyEvent.report) := by
  induction es generalizing us fuel with
  | nil =>
    cases fuel with
    | zero => cases hfuel
    | succ fuel => rfl
  | cons e es ih =>
    cases fuel with
    | zero => cases hfuel
    | succ fuel =>
      have hcode : eventCode.encodeAll (e :: es) = e.encode ++ eventCode.encodeAll es :=
        eventCode.encodeAll_cons e es
      rw [hcode] at hfit ⊢
      have hrest := ih (us ++ e.encode) (Nat.lt_of_succ_lt_succ hfuel) (by
        simp only [List.length_append] at hfit ⊢
        omega)
      rw [List.append_assoc] at hrest
      rw [processed_event us _ e fuel hfit,hrest]
      cases hreport : e.report with
      | none => simp [hreport]
      | some r => simp [hreport]

structure Batch where
  events : List InotifyEvent
  nonempty : events ≠ []
  fits : (eventCode.encodeAll events).length ≤ 512

namespace Batch

def bytes (b : Batch) : List UInt8 := eventCode.encodeAll b.events

def reports (b : Batch) : List Report := b.events.filterMap InotifyEvent.report

theorem filled (b : Batch) : sizeofEvent ≤ b.bytes.length := by
  obtain ⟨es,hne,hfit⟩ := b
  cases es with
  | nil => exact absurd rfl hne
  | cons e es =>
    have hcode : eventCode.encodeAll (e :: es) = e.encode ++ eventCode.encodeAll es :=
      eventCode.encodeAll_cons e es
    rw [bytes,hcode,List.length_append,encode_length]
    omega

end Batch

theorem encodeAll_length_ge (es : List InotifyEvent) :
    sizeofEvent * es.length ≤ (eventCode.encodeAll es).length := by
  induction es with
  | nil => exact le_rfl
  | cons e es ih =>
    have hcode : eventCode.encodeAll (e :: es) = e.encode ++ eventCode.encodeAll es :=
      eventCode.encodeAll_cons e es
    rw [hcode,List.length_append,encode_length,List.length_cons,Nat.mul_succ]
    omega

-- main reads again and again and drops what the function returns
def watch (fuel : ℕ) : List (Int32 × Option (List UInt8)) → Option (List Report)
  | [] => some []
  | (errno,filled) :: reads => do
    let (_,printed) ← readProcessInotifyFd fuel errno filled
    let rest ← watch fuel reads
    some (printed ++ rest)

-- event_buf has room for 32 headers, so 33 tests end the loop
theorem batch_short (b : Batch) : b.events.length < 33 := by
  have hheaders := (encodeAll_length_ge b.events).trans b.fits
  rw [sizeofEvent] at hheaders
  omega

theorem read_filled (b : Batch) (errno : Int32) (fuel : ℕ) :
    readProcessInotifyFd fuel errno (some b.bytes) =
      (processEvents b.bytes fuel (Int32.ofNat b.bytes.length) 0).map
        fun printed => (0,printed) := by
  have hfit : b.bytes.length ≤ 512 := b.fits
  have henough := b.filled
  have hres : (Int32.ofNat b.bytes.length).toInt = b.bytes.length :=
    Int32.toInt_ofNat_of_lt (by omega)
  have hsize : (Int32.ofNat sizeofEvent).toInt = sizeofEvent := rfl
  have hfilled : ¬ Int32.ofNat b.bytes.length < Int32.ofNat sizeofEvent := by
    rw [Int32.lt_iff_toInt_lt,hres,hsize]
    omega
  exact if_neg hfilled

theorem loop_reports (b : Batch) {fuel : ℕ} (hfuel : b.events.length < fuel) :
    processEvents b.bytes fuel (Int32.ofNat b.bytes.length) 0 = some b.reports := by
  have hfit : b.bytes.length < 2 ^ 31 := b.fits.trans_lt (by decide)
  have hrun := processed_events [] hfuel (by rwa [List.length_nil,Nat.zero_add])
  rw [List.nil_append] at hrun
  exact hrun

theorem batch_reported (b : Batch) (errno : Int32) {fuel : ℕ} (hfuel : b.events.length < fuel) :
    readProcessInotifyFd fuel errno (some b.bytes) = some (0,b.reports) := by
  rw [read_filled,loop_reports b hfuel]
  rfl

def removedMadeDeleted : Batch where
  events := [⟨1,0x8000,0,[],.inl rfl,by decide⟩,
    ⟨2,0x100,0,[0x61,0,0,0],.inr (by decide),by decide⟩,
    ⟨2,0x200,0,[0x61,0,0,0],.inr (by decide),by decide⟩]
  nonempty := List.cons_ne_nil _ _
  fits := by decide

theorem removed_made_deleted_reported :
    readProcessInotifyFd 4 0 (some removedMadeDeleted.bytes) =
      some (0,[.create [0x61],.delete [0x61]]) :=
  batch_reported removedMadeDeleted 0 (by decide)

theorem watch_reports (bs : List Batch) (errnos : ℕ → Int32) :
    watch 33 (bs.mapIdx fun i b => (errnos i,some b.bytes)) = some (bs.flatMap Batch.reports) := by
  induction bs generalizing errnos with
  | nil => rfl
  | cons b bs ih =>
    rw [List.mapIdx_cons,watch,read_filled,loop_reports b (batch_short b)]
    have hrest := ih fun i => errnos (i+1)
    simp only [Option.map_some,Option.bind_eq_bind,Option.bind_some,hrest,List.flatMap_cons]

end Inotify
