import AndroidProjects.Binder.Parse
import AndroidProjects.Foundation.Pinned

namespace Servicemanager
open Binder ByteMemory

def aidUser : ℕ := 100000

def aidIsolatedStart : ℕ := 99000

def aidIsolatedEnd : ℕ := 99999

def isolated (uid : UInt32) : Bool :=
  let appid := uid.toNat % aidUser
  appid ≥ aidIsolatedStart && appid ≤ aidIsolatedEnd

inductive DeathFunc where
  | svcinfoDeath
  deriving DecidableEq, Repr

structure BinderDeath (A : Abi) where
  func : DeathFunc
  ptr : A.Uintptr
  deriving DecidableEq, Repr

structure Svcinfo (A : Abi) where
  addr : A.Uintptr
  handle : UInt32
  death : BinderDeath A
  allowIsolated : Int
  len : ℕ
  name : List UInt16
  name_length : name.length = len
  death_ptr : death.ptr = addr
  deriving DecidableEq, Repr

def units (s : ℕ → UInt16) (len : ℕ) : List UInt16 := (List.range len).map s

namespace Svcinfo
variable {A : Abi}

-- &si->death: next and handle come first, each in a word
def deathAddr (si : Svcinfo A) : A.Uintptr := si.addr + BitVec.ofNat _ (2 * A.sizeT.bytes)

def withHandle (handle : UInt32) (si : Svcinfo A) : Svcinfo A := {si with handle := handle}

@[simp] theorem withHandle_addr (h : UInt32) (si : Svcinfo A) :
    (si.withHandle h).addr = si.addr := rfl
@[simp] theorem withHandle_name (h : UInt32) (si : Svcinfo A) :
    (si.withHandle h).name = si.name := rfl
@[simp] theorem withHandle_handle (h : UInt32) (si : Svcinfo A) :
    (si.withHandle h).handle = h := rfl
@[simp] theorem withHandle_allowIsolated (h : UInt32) (si : Svcinfo A) :
    (si.withHandle h).allowIsolated = si.allowIsolated := rfl
@[simp] theorem withHandle_deathAddr (h : UInt32) (si : Svcinfo A) :
    (si.withHandle h).deathAddr = si.deathAddr := rfl
@[simp] theorem withHandle_withHandle (h k : UInt32) (si : Svcinfo A) :
    (si.withHandle k).withHandle h = si.withHandle h := rfl

theorem deathAddr_inj {si sj : Svcinfo A} (h : si.deathAddr = sj.deathAddr) :
    si.addr = sj.addr := by
  simpa [deathAddr] using h

end Svcinfo

structure Svclist (A : Abi) where
  entries : List (Svcinfo A)
  addrs_nodup : (entries.map Svcinfo.addr).Nodup
  deriving DecidableEq

namespace Svclist
variable {A : Abi}

def empty : Svclist A := ⟨[],List.nodup_nil⟩

def addrs (l : Svclist A) : List A.Uintptr := l.entries.map Svcinfo.addr

def deref (l : Svclist A) (a : A.Uintptr) : Option (Svcinfo A) :=
  l.entries.find? fun si => si.addr = a

def setHandle (l : Svclist A) (a : A.Uintptr) (handle : UInt32) : Svclist A where
  entries := Pinned.assign Svcinfo.addr a (Svcinfo.withHandle handle) l.entries
  addrs_nodup := by
    rw [Pinned.map_assign (Svcinfo.withHandle_addr handle)]
    exact l.addrs_nodup

def push (l : Svclist A) (si : Svcinfo A) (fresh : si.addr ∉ l.addrs) : Svclist A where
  entries := si :: l.entries
  addrs_nodup := List.nodup_cons.mpr ⟨fresh,l.addrs_nodup⟩

theorem setHandle_setHandle (l : Svclist A) (a : A.Uintptr) (h k : UInt32) :
    (l.setHandle a k).setHandle a h = l.setHandle a h := by
  simp only [setHandle,Svclist.mk.injEq]
  rw [Pinned.assign_assign (Svcinfo.withHandle_addr k)]
  rfl

theorem deref_eq_some {l : Svclist A} {a : A.Uintptr} {si : Svcinfo A} :
    l.deref a = some si ↔ si ∈ l.entries ∧ si.addr = a :=
  Pinned.find?_key_iff l.addrs_nodup a si

end Svclist

structure Svcmgr (A : Abi) where
  svclist : Svclist A
  heap : ℕ → Option A.Uintptr

namespace Svcmgr
variable {A : Abi}

def init (heap : ℕ → Option A.Uintptr) : Svcmgr A := ⟨Svclist.empty,heap⟩

-- the block the allocator offers next; NULL and blocks in use are refusals
def malloc (g : Svcmgr A) : Option {a : A.Uintptr // a ∉ g.svclist.addrs} :=
  match g.heap 0 with
  | none => none
  | some a => if h : a ≠ 0 ∧ a ∉ g.svclist.addrs then some ⟨a,h.2⟩ else none

def setSvclist (g : Svcmgr A) (l : Svclist A) : Svcmgr A := {g with svclist := l}

def mallocked (g : Svcmgr A) : Svcmgr A := {g with heap := fun n => g.heap (n+1)}

@[simp] theorem setSvclist_svclist (g : Svcmgr A) (l : Svclist A) :
    (g.setSvclist l).svclist = l := rfl
@[simp] theorem mallocked_svclist (g : Svcmgr A) : g.mallocked.svclist = g.svclist := rfl

end Svcmgr

section
variable {A : Abi}

abbrev Manager (A : Abi) := Proc A (Svcmgr A)

def Manager.svclist (p : Manager A) : Svclist A := p.globals.svclist

def Manager.setHandle (p : Manager A) (a : A.Uintptr) (handle : UInt32) : Manager A :=
  {p with globals := p.globals.setSvclist (p.globals.svclist.setHandle a handle)}

@[simp] theorem Manager.setHandle_svclist (p : Manager A) (a : A.Uintptr) (handle : UInt32) :
    (p.setHandle a handle).svclist = p.svclist.setHandle a handle := rfl
@[simp] theorem Manager.setHandle_written (p : Manager A) (a : A.Uintptr) (handle : UInt32) :
    (p.setHandle a handle).written = p.written := rfl
@[simp] theorem Manager.setHandle_created (p : Manager A) (a : A.Uintptr) (handle : UInt32) :
    (p.setHandle a handle).created = p.created := rfl
@[simp] theorem Manager.binderWrite_svclist (p : Manager A) (cmds : List (BinderCommand A)) :
    Manager.svclist (binderWrite p cmds) = p.svclist := rfl

def checkMacPerms : Bool := true

def svcCanRegister (_name : ℕ → UInt16) (_nameLen : ℕ) (_spid : UInt32) : Bool := checkMacPerms

def svcCanList (_spid : UInt32) : Bool := checkMacPerms

def svcCanFind (_name : ℕ → UInt16) (_nameLen : ℕ) (_spid : UInt32) : Bool := checkMacPerms

def findSvc (l : Svclist A) (s16 : ℕ → UInt16) (len : ℕ) : Option (Svcinfo A) :=
  l.entries.find? fun si => len == si.len && units s16 len == si.name.take len

def svcinfoDeath (p : Manager A) (ptr : A.Uintptr) : Manager A :=
  match p.svclist.deref ptr with
  | some si => if si.handle ≠ 0 then Manager.setHandle (binderRelease p si.handle) ptr 0 else p
  | none => p

def doFindService (l : Svclist A) (s : ℕ → UInt16) (len : ℕ) (uid spid : UInt32) : UInt32 :=
  if !svcCanFind s len spid then 0
  else match findSvc l s len with
  | some si =>
    if si.handle ≠ 0 then
      if si.allowIsolated = 0 ∧ isolated uid then 0 else si.handle
    else 0
  | none => 0

def newSvcinfo (a : A.Uintptr) (s : ℕ → UInt16) (len : ℕ) (handle : UInt32)
    (allowIsolated : Int) : Svcinfo A where
  addr := a
  handle := handle
  death := ⟨.svcinfoDeath,a⟩
  allowIsolated := allowIsolated
  len := len
  name := units s len
  name_length := by simp [units]
  death_ptr := rfl

def watch (p : Manager A) (si : Svcinfo A) (handle : UInt32) : Manager A :=
  binderLinkToDeath (binderAcquire p handle) handle si.deathAddr

def doAddService (p : Manager A) (s : ℕ → UInt16) (len : ℕ) (handle : UInt32) (_uid : UInt32)
    (allowIsolated : Int) (spid : UInt32) : Int × Manager A :=
  if handle = 0 ∨ len = 0 ∨ len > 127 then (-1,p)
  else if !svcCanRegister s len spid then (-1,p)
  else match findSvc p.svclist s len with
  | some si =>
    let p := if si.handle ≠ 0 then svcinfoDeath p si.addr else p
    (0,watch (p.setHandle si.addr handle) si handle)
  | none =>
    match p.globals.malloc with
    | none => (-1,{p with globals := p.globals.mallocked})
    | some a =>
      let si := newSvcinfo a.1 s len handle allowIsolated
      let g := p.globals.mallocked.setSvclist (p.globals.svclist.push si a.2)
      (0,watch {p with globals := g} si handle)

theorem findSvc_eq (l : Svclist A) (s : ℕ → UInt16) (len : ℕ) :
    findSvc l s len = l.entries.find? fun si => si.name = units s len := by
  refine congrArg (fun q => l.entries.find? q) (funext fun si => ?_)
  have hlen := si.name_length
  have hu : (units s len).length = len := by simp [units]
  rw [Bool.eq_iff_iff]
  simp only [Bool.and_eq_true,beq_iff_eq,decide_eq_true_eq]
  constructor
  · rintro ⟨rfl,he⟩
    rw [he,← hlen,List.take_length]
  · intro he
    have hl : len = si.len := by rw [← hlen,he,hu]
    exact ⟨hl,by rw [← he,hl,← hlen,List.take_length]⟩

def Registrable (handle : UInt32) (len : ℕ) : Prop := handle ≠ 0 ∧ 0 < len ∧ len ≤ 127

inductive Added (p : Manager A) (s : ℕ → UInt16) (len : ℕ) (handle : UInt32)
    (allowIsolated : Int) : Int × Manager A → Prop
  | refused {p'} (reason : ¬ Registrable handle len ∨
        findSvc p.svclist s len = none ∧ p.globals.malloc = none)
      (hl : p'.svclist = p.svclist) (hw : p'.written = p.written) (hc : p'.created = p.created) :
      Added p s len handle allowIsolated (-1,p')
  | overridden {p' si} (valid : Registrable handle len) (hf : findSvc p.svclist s len = some si)
      (hl : p'.svclist = p.svclist.setHandle si.addr handle)
      (hw : p'.written = p.written ++ ((if si.handle ≠ 0 then [.release si.handle] else []) ++
        [.acquire handle,.requestDeathNotification handle (si.deathAddr.setWidth _)]))
      (hc : p'.created = p.created) : Added p s len handle allowIsolated (0,p')
  | pushed {p'} {a : A.Uintptr} (valid : Registrable handle len)
      (hf : findSvc p.svclist s len = none)
      (fresh : (newSvcinfo a s len handle allowIsolated).addr ∉ p.svclist.addrs)
      (hl : p'.svclist = p.svclist.push (newSvcinfo a s len handle allowIsolated) fresh)
      (hw : p'.written = p.written ++ [.acquire handle,.requestDeathNotification handle
        ((newSvcinfo a s len handle allowIsolated).deathAddr.setWidth _)])
      (hc : p'.created = p.created) (halloc : p.globals.malloc ≠ none) :
      Added p s len handle allowIsolated (0,p')

theorem findSvc_mem {l : Svclist A} {s : ℕ → UInt16} {len : ℕ} {si : Svcinfo A}
    (h : findSvc l s len = some si) : si ∈ l.entries := List.mem_of_find?_eq_some h

theorem svcinfoDeath_of_mem {p : Manager A} {si : Svcinfo A} (h : si ∈ p.svclist.entries) :
    svcinfoDeath p si.addr =
      if si.handle ≠ 0 then Manager.setHandle (binderRelease p si.handle) si.addr 0 else p := by
  rw [svcinfoDeath,Svclist.deref_eq_some.mpr ⟨h,rfl⟩]

theorem doAddService_added (p : Manager A) (s : ℕ → UInt16) (len : ℕ) (handle uid : UInt32)
    (allowIsolated : Int) (spid : UInt32) :
    Added p s len handle allowIsolated
      (doAddService p s len handle uid allowIsolated spid) := by
  have hcan : svcCanRegister s len spid = true := rfl
  rw [doAddService,hcan]
  by_cases hv : handle = 0 ∨ len = 0 ∨ len > 127
  · rw [if_pos hv]
    refine .refused (.inl ?_) rfl rfl rfl
    rintro ⟨hh,hl,hm⟩
    rcases hv with hv | hv | hv
    · exact hh hv
    · omega
    · omega
  have valid : Registrable handle len := by
    simp only [not_or] at hv
    exact ⟨hv.1,by omega,by omega⟩
  rw [if_neg hv,if_neg (by simp)]
  cases hf : findSvc p.svclist s len with
  | some si =>
    have hmem := findSvc_mem hf
    refine .overridden valid hf ?_ ?_ ?_
    all_goals
      simp only [svcinfoDeath_of_mem hmem,watch,binderLinkToDeath,binderAcquire,binderRelease]
      split_ifs with hn
      all_goals simp [Svclist.setHandle_setHandle]
  | none =>
    cases hm : p.globals.malloc with
    | none => exact .refused (.inr ⟨hf,hm⟩) rfl rfl rfl
    | some a =>
      refine .pushed valid hf a.2 rfl ?_ rfl (by rw [hm]; simp)
      simp [watch,binderLinkToDeath,binderAcquire]

def svcmgrDeath (death : A.Uintptr) (p : Manager A) : Manager A :=
  match p.svclist.entries.find? fun si => si.deathAddr = death with
  | some si =>
    match si.death.func with
    | .svcinfoDeath => svcinfoDeath p si.death.ptr
  | none => p

end

end Servicemanager
