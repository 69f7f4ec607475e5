import AndroidProjects.Servicemanager.Directory

namespace Servicemanager
open Binder

section
variable {A : Abi}

def IsolationRespected (l : Svclist A) (h : History) : Prop :=
  ∀ (s : ℕ → UInt16) (len : ℕ) (uid spid : UInt32), isolated uid = true →
    (doFindService l s len uid spid ≠ 0 →
      ∃ r, Binding.latest (units s len) h = some r ∧ r.allowIsolated ≠ 0) ∧
    (∀ r, Binding.live (units s len) h = some r → r.allowIsolated ≠ 0 →
      doFindService l s len uid spid = r.handle)

def SameFlag (p : Manager A × History) : RegistryCall A → Prop
  | .doAddService s len handle _ allowIsolated _ =>
    ∀ si, Registrable handle len → findSvc p.1.svclist s len = some si →
      (allowIsolated ≠ 0 ↔ si.allowIsolated ≠ 0)
  | _ => True

structure FlagTracks (l : Svclist A) (h : History) : Prop extends Tracks l h where
  flags : ∀ si ∈ l.entries, ∃ r, Binding.latest si.name h = some r ∧
    (r.allowIsolated ≠ 0 ↔ si.allowIsolated ≠ 0)

theorem doFindService_isolated (l : Svclist A) (s : ℕ → UInt16) (len : ℕ) {uid spid : UInt32}
    (hu : isolated uid = true) : doFindService l s len uid spid =
      match l.named (units s len) with
      | some si => if si.allowIsolated = 0 then 0 else si.handle
      | none => 0 := by
  rw [doFindService_named]
  cases l.named (units s len) with
  | none => rfl
  | some si => simp only [hu,and_true]

theorem isolation_of_flagTracks {l : Svclist A} {h : History} (ht : FlagTracks l h) :
    IsolationRespected l h := by
  intro s len uid spid hu
  rw [doFindService_isolated l s len hu]
  have hcur := ht.current (units s len)
  cases hf : l.named (units s len) with
  | none =>
    refine ⟨fun hn => absurd rfl hn,fun r hr _ => ?_⟩
    rw [Svclist.handleOf,hf,currentHandle,hr] at hcur
    exact hcur
  | some si =>
    obtain ⟨hs,hname⟩ := (Svclist.named_eq_some ht.names).mp hf
    obtain ⟨r,hr,hflag⟩ := ht.flags si hs
    rw [hname] at hr
    refine ⟨fun hn => ⟨r,hr,hflag.mpr fun hz => hn (if_pos hz)⟩,fun r' hr' ha => ?_⟩
    have heq : r = r' := by
      rw [Binding.latest_of_live hr',Option.some_inj] at hr
      exact hr.symm
    subst heq
    rw [Svclist.handleOf,hf,currentHandle,hr'] at hcur
    exact (if_neg (hflag.mp ha)).trans hcur

theorem flagTracks_death {p : Manager A} {h : History} (ht : FlagTracks p.svclist h)
    {si : Svcinfo A} (hs : si ∈ p.svclist.entries) :
    FlagTracks (svcinfoDeath p si.addr).svclist (.drop si.name :: h) := by
  refine ⟨tracks_death ht.toTracks hs,?_⟩
  rw [svcinfoDeath_of_mem hs]
  split_ifs with hz
  · intro sj hj
    obtain rfl | ⟨hj,-⟩ := (Pinned.mem_assign p.svclist.addrs_nodup hs rfl sj).mp hj
    · exact ht.flags si hs
    · exact ht.flags sj hj
  · exact ht.flags

theorem flagTracks_step {p : Manager A} {h : History} (ht : FlagTracks p.svclist h)
    {c : RegistryCall A} (hc : SameFlag (p,h) c) :
    FlagTracks (registryStep p c).svclist (registryEvent p c :: h) := by
  refine ⟨tracks_step ht.toTracks c,?_⟩
  have hm := registry_moved p c
  generalize registryStep p c = p' at hm ⊢
  generalize registryEvent p c = e at hm ⊢
  cases hm with
  | kept c hl =>
    rw [hl]
    exact ht.flags
  | died hs => exact (flagTracks_death ht hs).flags
  | @bound p' s len handle uid allowIsolated spid hadd =>
    cases hadd with
    | @overridden p' si valid hf hl hw hcr =>
      have hflag := hc si valid hf
      rw [findSvc_named] at hf
      obtain ⟨hs,hname⟩ := (Svclist.named_eq_some ht.names).mp hf
      rw [hl]
      intro sj hj
      obtain rfl | ⟨hj,hne⟩ := (Pinned.mem_assign p.svclist.addrs_nodup hs rfl sj).mp hj
      · exact ⟨⟨handle,allowIsolated⟩,by simp [hname],by simpa using hflag⟩
      · have hnn : ¬ units s len = sj.name := by
          intro he
          have hsj := List.inj_on_of_nodup_map ht.names hj hs (he.symm.trans hname.symm)
          exact hne (by rw [hsj])
        rw [Binding.latest_bind,if_neg hnn]
        exact ht.flags sj hj
    | @pushed p' a valid hf fresh hl hw hcr =>
      rw [findSvc_named] at hf
      rw [hl]
      intro sj hj
      rcases List.mem_cons.mp hj with rfl | hj
      · exact ⟨⟨handle,allowIsolated⟩,by simp [newSvcinfo],Iff.rfl⟩
      · have hnn : ¬ units s len = sj.name := by
          intro he
          have hne := List.find?_eq_none.mp hf sj hj
          simp [he] at hne
        rw [Binding.latest_bind,if_neg hnn]
        exact ht.flags sj hj

theorem not_isolation_of_flag_change {p : Manager A} {h : History} (ht : FlagTracks p.svclist h)
    {c : RegistryCall A} (hc : ¬ SameFlag (p,h) c) :
    ¬ IsolationRespected (registryStep p c).svclist (registryEvent p c :: h) := by
  cases c with
  | doFindService s len uid spid => exact absurd trivial hc
  | svcinfoDeath ptr => exact absurd trivial hc
  | doAddService s len handle uid allowIsolated spid =>
    simp only [SameFlag,not_forall] at hc
    obtain ⟨si,valid,hf,hflag⟩ := hc
    have hu : isolated 99000 = true := by decide
    simp only [registryStep,registryEvent]
    generalize ho : doAddService p s len handle uid allowIsolated spid = out
    have hadd := doAddService_added p s len handle uid allowIsolated spid
    rw [ho] at hadd
    cases hadd with
    | refused reason hl hw hcr =>
      rcases reason with hr | ⟨hr,-⟩
      · exact absurd valid hr
      · rw [hf] at hr
        cases hr
    | pushed valid' hf' fresh hl hw hcr =>
      rw [hf] at hf'
      cases hf'
    | @overridden p' sj valid' hf' hl hw hcr =>
      rw [hf,Option.some_inj] at hf'
      subst hf'
      rw [findSvc_named] at hf
      obtain ⟨hs,hname⟩ := (Svclist.named_eq_some ht.names).mp hf
      rw [hl,if_pos rfl]
      intro hiso
      obtain ⟨hseen,hgot⟩ := hiso s len 99000 0 hu
      rw [doFindService_isolated _ s len hu,Svclist.named_setHandle ht.names hs,
        if_pos hname.symm] at hseen hgot
      by_cases hz : si.allowIsolated = 0
      · have ha : allowIsolated ≠ 0 := fun ha => hflag ⟨fun h => absurd ha h,fun h => absurd hz h⟩
        have hh := hgot ⟨handle,allowIsolated⟩ (by simp) ha
        simp only [Svcinfo.withHandle_allowIsolated,hz,if_true] at hh
        exact valid.1 hh.symm
      · obtain ⟨r,hr,ha⟩ := hseen (by simpa [hz] using valid.1)
        rw [Binding.latest_bind,if_pos rfl,Option.some_inj] at hr
        subst hr
        exact hflag ⟨fun _ => hz,fun _ => ha⟩

theorem isolation_iff_same_flag (heap : ℕ → Option A.Uintptr) (calls : List (RegistryCall A)) :
    Machine.Always recordedStep (fun s => IsolationRespected s.1.svclist s.2)
        (started heap,[]) calls ↔
      Machine.Along recordedStep SameFlag (started heap,[]) calls := by
  refine Machine.always_iff_along (I := fun s => FlagTracks s.1.svclist s.2) ?_ ?_ ?_ ?_ calls
  · exact fun s hs => isolation_of_flagTracks hs
  · exact fun s c hs hc => flagTracks_step hs hc
  · exact fun s c hs hc => not_isolation_of_flag_change hs hc
  · exact ⟨tracks_started heap,fun si hs => absurd hs List.not_mem_nil⟩

end

def staleFlagCalls : List (RegistryCall (Abi.uniform .four)) :=
  [.doAddService (fun _ => 97) 1 5 0 1 0,.doAddService (fun _ => 97) 1 6 0 0 0]

theorem stale_flag_leaks :
    ¬ ∀ (heap : ℕ → Option (Abi.uniform .four).Uintptr)
      (calls : List (RegistryCall (Abi.uniform .four))),
      IsolationRespected (Machine.run registryStep (started heap) calls).svclist
        (history heap calls) := by
  intro hall
  have hiso := hall (fun n => some (BitVec.ofNat _ (16*(n+1)))) staleFlagCalls
  obtain ⟨r,hr,ha⟩ := (hiso (fun _ => 97) 1 99000 0 (by decide)).1 (by decide)
  have hl : Binding.latest (units (fun _ => 97) 1)
      (history (fun n => some (BitVec.ofNat _ (16*(n+1)))) staleFlagCalls) = some ⟨6,0⟩ := by
    decide
  rw [hl,Option.some_inj] at hr
  exact ha (by rw [← hr])

end Servicemanager
