import AndroidProjects.Servicemanager.Registry
import AndroidProjects.Foundation.Binding
import AndroidProjects.Foundation.Machine

namespace Servicemanager
open Binder

structure Registration where
  handle : UInt32
  allowIsolated : Int
  deriving DecidableEq, Repr

abbrev History := List (Binding.Event (List UInt16) Registration)

def currentHandle (n : List UInt16) (h : History) : UInt32 :=
  match Binding.live n h with
  | some r => r.handle
  | none => 0

inductive RegistryCall (A : Abi) where
  | doAddService (s : ℕ → UInt16) (len : ℕ) (handle uid : UInt32) (allowIsolated : Int)
      (spid : UInt32)
  | svcinfoDeath (ptr : A.Uintptr)
  | doFindService (s : ℕ → UInt16) (len : ℕ) (uid spid : UInt32)

section
variable {A : Abi}

def registryStep (p : Manager A) : RegistryCall A → Manager A
  | .doAddService s len handle uid allowIsolated spid =>
    (doAddService p s len handle uid allowIsolated spid).2
  | .svcinfoDeath ptr => svcinfoDeath p ptr
  | .doFindService _ _ _ _ => p

def registryEvent (p : Manager A) : RegistryCall A → Binding.Event (List UInt16) Registration
  | .doAddService s len handle uid allowIsolated spid =>
    if (doAddService p s len handle uid allowIsolated spid).1 = 0 then
      .bind (units s len) ⟨handle,allowIsolated⟩
    else .skip
  | .svcinfoDeath ptr =>
    match p.svclist.deref ptr with
    | some si => .drop si.name
    | none => .skip
  | .doFindService _ _ _ _ => .skip

def recordedStep : Manager A × History → RegistryCall A → Manager A × History :=
  Machine.recorded registryStep registryEvent

def started (heap : ℕ → Option A.Uintptr) : Manager A := ⟨Svcmgr.init heap,[],0⟩

namespace Svclist

def named (l : Svclist A) (n : List UInt16) : Option (Svcinfo A) :=
  l.entries.find? fun si => si.name = n

def handleOf (l : Svclist A) (n : List UInt16) : UInt32 :=
  match l.named n with
  | some si => si.handle
  | none => 0

def NamesNodup (l : Svclist A) : Prop := (l.entries.map Svcinfo.name).Nodup

theorem named_eq_some {l : Svclist A} (hn : l.NamesNodup) {n : List UInt16} {si : Svcinfo A} :
    l.named n = some si ↔ si ∈ l.entries ∧ si.name = n := Pinned.find?_key_iff hn n si

theorem namesNodup_setHandle {l : Svclist A} (a : A.Uintptr) (h : UInt32) :
    (l.setHandle a h).NamesNodup ↔ l.NamesNodup := by
  rw [NamesNodup,setHandle,Pinned.map_assign (Svcinfo.withHandle_name h)]
  rfl

theorem namesNodup_push {l : Svclist A} {si : Svcinfo A} (fresh : si.addr ∉ l.addrs)
    (hn : l.NamesNodup) (hs : l.named si.name = none) : (l.push si fresh).NamesNodup := by
  refine List.nodup_cons.mpr ⟨?_,hn⟩
  intro hm
  obtain ⟨sj,hj,he⟩ := List.mem_map.mp hm
  have hne := List.find?_eq_none.mp hs sj hj
  simp [he] at hne

theorem named_setHandle {l : Svclist A} (hn : l.NamesNodup) {si : Svcinfo A}
    (hs : si ∈ l.entries) (h : UInt32) (n : List UInt16) :
    (l.setHandle si.addr h).named n =
      if n = si.name then some (si.withHandle h) else l.named n := by
  have hfind : (l.setHandle si.addr h).named n = (l.named n).map fun a =>
      if a.addr = si.addr then a.withHandle h else a :=
    Pinned.find?_assign (fun a => by rw [Svcinfo.withHandle_name]) l.entries
  rw [hfind]
  split_ifs with he
  · rw [(named_eq_some hn).mpr ⟨hs,he.symm⟩]
    simp
  · cases hm : l.named n with
    | none => rfl
    | some a =>
      obtain ⟨ha,hna⟩ := (named_eq_some hn).mp hm
      have hne : a.addr ≠ si.addr := by
        intro hadr
        have has := List.inj_on_of_nodup_map l.addrs_nodup ha hs hadr
        exact he (by rw [← hna,has])
      rw [Option.map_some,if_neg hne]

theorem named_push {l : Svclist A} {si : Svcinfo A} (fresh : si.addr ∉ l.addrs)
    (n : List UInt16) : (l.push si fresh).named n = if si.name = n then some si else l.named n := by
  rw [named,push,List.find?_cons]
  by_cases h : si.name = n <;> simp [h,named]

theorem handleOf_setHandle {l : Svclist A} (hn : l.NamesNodup) {si : Svcinfo A}
    (hs : si ∈ l.entries) (h : UInt32) (n : List UInt16) :
    (l.setHandle si.addr h).handleOf n = if si.name = n then h else l.handleOf n := by
  rw [handleOf,named_setHandle hn hs]
  by_cases he : n = si.name
  · simp [he]
  · simp [he,Ne.symm he,handleOf]

end Svclist

theorem findSvc_named (l : Svclist A) (s : ℕ → UInt16) (len : ℕ) :
    findSvc l s len = l.named (units s len) := findSvc_eq l s len

theorem added_failed {p p' : Manager A} {s : ℕ → UInt16} {len : ℕ} {handle : UInt32}
    {allowIsolated res : Int} (h : Added p s len handle allowIsolated (res,p')) (hz : res ≠ 0) :
    p'.svclist = p.svclist := by
  cases h with
  | refused reason hl hw hc => exact hl
  | overridden valid hf hl hw hc => exact absurd rfl hz
  | pushed valid hf fresh hl hw hc halloc => exact absurd rfl hz

theorem added_names {p p' : Manager A} (hn : p.svclist.NamesNodup) {s : ℕ → UInt16} {len : ℕ}
    {handle : UInt32} {allowIsolated res : Int} (h : Added p s len handle allowIsolated (res,p')) :
    p'.svclist.NamesNodup := by
  cases h with
  | refused reason hl hw hc => exact hl ▸ hn
  | overridden valid hf hl hw hc =>
    rw [hl]
    exact (Svclist.namesNodup_setHandle _ _).mpr hn
  | pushed valid hf fresh hl hw hc =>
    rw [findSvc_named] at hf
    rw [hl]
    exact Svclist.namesNodup_push fresh hn hf

theorem added_named {p p' : Manager A} {s : ℕ → UInt16} {len : ℕ} {handle : UInt32}
    {allowIsolated : Int} (hn : p.svclist.NamesNodup)
    (h : Added p s len handle allowIsolated (0,p')) :
    (∃ si, si.handle = handle ∧
      ∀ n, p'.svclist.named n = if n = units s len then some si else p.svclist.named n) ∧
    ∀ si ∈ p'.svclist.entries, si.name = units s len ∨ ∃ sj ∈ p.svclist.entries,
      sj.name = si.name := by
  cases h with
  | @overridden p' si valid hf hl hw hc =>
    rw [findSvc_named] at hf
    obtain ⟨hs,hname⟩ := (Svclist.named_eq_some hn).mp hf
    rw [hl,← hname]
    refine ⟨⟨si.withHandle handle,rfl,Svclist.named_setHandle hn hs handle⟩,fun sj hj => .inr ?_⟩
    have hmem := List.mem_map_of_mem (f := Svcinfo.name) hj
    rw [Svclist.setHandle,Pinned.map_assign (Svcinfo.withHandle_name handle)] at hmem
    exact List.mem_map.mp hmem
  | @pushed p' a valid hf fresh hl hw hc halloc =>
    rw [hl]
    refine ⟨⟨newSvcinfo a s len handle allowIsolated,rfl,fun n => ?_⟩,fun sj hj => ?_⟩
    · rw [Svclist.named_push]
      exact if_congr eq_comm rfl rfl
    · rcases List.mem_cons.mp hj with rfl | hj
      · exact .inl rfl
      · exact .inr ⟨sj,hj,rfl⟩

structure Tracks (l : Svclist A) (h : History) : Prop where
  names : l.NamesNodup
  current : ∀ n, l.handleOf n = currentHandle n h

theorem tracks_started (heap : ℕ → Option A.Uintptr) : Tracks (started heap).svclist [] :=
  ⟨List.nodup_nil,fun _ => rfl⟩

theorem currentHandle_bind (n k : List UInt16) (r : Registration) (h : History) :
    currentHandle n (.bind k r :: h) = if k = n then r.handle else currentHandle n h := by
  rw [currentHandle,Binding.live_bind]
  split_ifs <;> rfl

theorem currentHandle_drop (n k : List UInt16) (h : History) :
    currentHandle n (.drop k :: h) = if k = n then 0 else currentHandle n h := by
  rw [currentHandle,Binding.live_drop]
  split_ifs <;> rfl

theorem tracks_setHandle {l : Svclist A} {h : History} (ht : Tracks l h) {si : Svcinfo A}
    (hs : si ∈ l.entries) (handle : UInt32) {h' : History}
    (hh : ∀ n, currentHandle n h' = if si.name = n then handle else currentHandle n h) :
    Tracks (l.setHandle si.addr handle) h' where
  names := (Svclist.namesNodup_setHandle _ _).mpr ht.names
  current n := by rw [Svclist.handleOf_setHandle ht.names hs,hh,ht.current]

theorem tracks_death {p : Manager A} {h : History} (ht : Tracks p.svclist h) {si : Svcinfo A}
    (hs : si ∈ p.svclist.entries) :
    Tracks (svcinfoDeath p si.addr).svclist (.drop si.name :: h) := by
  have hd := currentHandle_drop (k := si.name) (h := h)
  rw [svcinfoDeath_of_mem hs]
  split_ifs with hz
  · exact tracks_setHandle ht hs 0 fun n => hd n
  · refine ⟨ht.names,fun n => ?_⟩
    rw [hd]
    split_ifs with he
    · rw [Svclist.handleOf,(Svclist.named_eq_some ht.names).mpr ⟨hs,he⟩]
      simpa using hz
    · exact ht.current n

-- what a call does to the list, with the event it is recorded as
inductive RegistryMoved (p : Manager A) :
    RegistryCall A → Manager A → Binding.Event (List UInt16) Registration → Prop
  | kept (c : RegistryCall A) {p'} (hl : p'.svclist = p.svclist) : RegistryMoved p c p' .skip
  | died {si} (hs : si ∈ p.svclist.entries) :
      RegistryMoved p (.svcinfoDeath si.addr) (svcinfoDeath p si.addr) (.drop si.name)
  | bound {p' s len handle uid allowIsolated spid}
      (hadd : Added p s len handle allowIsolated (0,p')) :
      RegistryMoved p (.doAddService s len handle uid allowIsolated spid) p'
        (.bind (units s len) ⟨handle,allowIsolated⟩)

theorem registry_moved (p : Manager A) (c : RegistryCall A) :
    RegistryMoved p c (registryStep p c) (registryEvent p c) := by
  cases c with
  | doFindService s len uid spid => exact .kept _ rfl
  | svcinfoDeath ptr =>
    simp only [registryStep,registryEvent]
    cases hd : p.svclist.deref ptr with
    | none =>
      rw [svcinfoDeath,hd]
      exact .kept _ rfl
    | some si =>
      obtain ⟨hs,rfl⟩ := Svclist.deref_eq_some.mp hd
      exact .died hs
  | doAddService s len handle uid allowIsolated spid =>
    simp only [registryStep,registryEvent]
    have hadd := doAddService_added p s len handle uid allowIsolated spid
    generalize doAddService p s len handle uid allowIsolated spid = out at hadd ⊢
    obtain ⟨res,p'⟩ := out
    by_cases hz : res = 0
    · subst hz
      rw [if_pos rfl]
      exact .bound hadd
    · rw [if_neg hz]
      exact .kept _ (added_failed hadd hz)

theorem tracks_step {p : Manager A} {h : History} (ht : Tracks p.svclist h)
    (c : RegistryCall A) : Tracks (registryStep p c).svclist (registryEvent p c :: h) := by
  have hm := registry_moved p c
  generalize registryStep p c = p' at hm ⊢
  generalize registryEvent p c = e at hm ⊢
  cases hm with
  | kept c hl =>
    rw [hl]
    exact ⟨ht.names,ht.current⟩
  | died hs => exact tracks_death ht hs
  | @bound p' s len handle uid allowIsolated spid hadd =>
    obtain ⟨⟨si,hsi,hnamed⟩,-⟩ := added_named ht.names hadd
    refine ⟨added_names ht.names hadd,fun n => ?_⟩
    rw [Svclist.handleOf,hnamed,currentHandle_bind]
    by_cases hn : units s len = n
    · rw [if_pos hn.symm,if_pos hn]
      exact hsi
    · rw [if_neg (Ne.symm hn),if_neg hn]
      exact ht.current n

theorem doFindService_named (l : Svclist A) (s : ℕ → UInt16) (len : ℕ) (uid spid : UInt32) :
    doFindService l s len uid spid =
      match l.named (units s len) with
      | some si => if si.allowIsolated = 0 ∧ isolated uid = true then 0 else si.handle
      | none => 0 := by
  rw [doFindService,findSvc_named]
  cases l.named (units s len) with
  | none => simp [svcCanFind,checkMacPerms]
  | some si =>
    simp only [svcCanFind,checkMacPerms]
    split_ifs <;> simp_all

theorem doFindService_eq (l : Svclist A) (s : ℕ → UInt16) (len : ℕ) {uid spid : UInt32}
    (hu : isolated uid = false) : doFindService l s len uid spid = l.handleOf (units s len) := by
  rw [doFindService_named,Svclist.handleOf]
  simp only [hu,Bool.false_eq_true,and_false,if_false]

def history (heap : ℕ → Option A.Uintptr) (calls : List (RegistryCall A)) : History :=
  (Machine.trace registryStep registryEvent (started heap) calls).reverse

theorem tracks_run (heap : ℕ → Option A.Uintptr) (calls : List (RegistryCall A)) :
    Tracks (Machine.run registryStep (started heap) calls).svclist (history heap calls) := by
  have hs : Tracks (started heap,([] : History)).1.svclist [] := tracks_started heap
  have h := Machine.run_invariant recordedStep (I := fun s => Tracks s.1.svclist s.2)
    (fun s c ht => tracks_step ht c) (s := (started heap,[])) hs calls
  rw [recordedStep,Machine.run_recorded] at h
  simpa [history] using h

theorem registry_refines_map (heap : ℕ → Option A.Uintptr) (calls : List (RegistryCall A)) :
    let l := (Machine.run registryStep (started heap) calls).svclist
    l.entries.Pairwise (fun si sj => ¬ (si.len = sj.len ∧ si.name = sj.name)) ∧
    ∀ (s : ℕ → UInt16) (len : ℕ) (uid spid : UInt32), isolated uid = false →
      doFindService l s len uid spid = currentHandle (units s len) (history heap calls) := by
  intro l
  have ht := tracks_run heap calls
  refine ⟨?_,fun s len uid spid hu => ?_⟩
  · have hp := List.pairwise_map.mp ht.names
    exact hp.imp fun hne h => hne h.2
  · rw [doFindService_eq l s len hu]
    exact ht.current _

end

end Servicemanager
