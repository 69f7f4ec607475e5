import AndroidProjects.Servicemanager.References

namespace Servicemanager
open Binder ByteMemory

structure AddRequest (A : Abi) where
  buffer : A.BinderUintptr
  held : List UInt32
  name : ℕ → UInt16
  len : ℕ
  handle : UInt32
  uid : UInt32
  allowIsolated : Int
  spid : UInt32

structure DeathRead where
  base : Mem
  ptr : ℕ
  rdata : ℕ → Mem

inductive LinkEvent (A : Abi) where
  | request (r : AddRequest A)
  | die (handle : UInt32) (read : DeathRead)

section
variable {A : Abi} (st : BinderState)

theorem fits_deadBinder (c : A.BinderUintptr) :
    (BinderReturn.encodeAll [.noop,.deadBinder c]).length < A.sizeT.modulus := by
  have hm := A.sizeT.modulus_ge
  have hl := A.binderSizeT.bytes_le_eight
  simp only [BinderReturn.encodeAll,List.flatMap_cons,List.flatMap_nil,List.length_append,
    BinderReturn.encode_length,BinderReturn.payload,leBytes_length,List.length_nil]
  omega

def DeathRead.deliver (r : DeathRead) (c : A.BinderUintptr) : Delivery A where
  base := r.base
  ptr := r.ptr
  cmds := [.noop,.deadBinder c]
  rdata := r.rdata
  fits := fits_deadBinder c

abbrev Linked (A : Abi) := Manager A × Driver A

def die (s : Linked A) (h : UInt32) (r : DeathRead) : Linked A :=
  match s.2.link h with
  | none => s
  | some c =>
    let p := ((r.deliver c).parse (svcmgrServer A st r.rdata) {s.1 with written := []}).2.proc
    (p,Machine.run Driver.issue s.2 p.written)

def add (s : Linked A) (r : AddRequest A) : Linked A :=
  let p := (doAddService {s.1 with written := []} r.name r.len r.handle r.uid r.allowIsolated
    r.spid).2
  (p,(Machine.run Driver.issue (s.2.carry (r.buffer,r.held)) p.written).issue
    (.freeBuffer r.buffer))

def linkStep (s : Linked A) : LinkEvent A → Linked A
  | .request r => add s r
  | .die h r => die st s h r

def DeathClears (s : Linked A) : Prop :=
  ∀ h r, s.2.link h ≠ none → ∀ name len uid spid,
    let now := doFindService s.1.svclist name len uid spid
    let after := doFindService (die st s h r).1.svclist name len uid spid
    after ≠ h ∧ (now ≠ h → after = now)

def Accepted (p : Manager A) (r : AddRequest A) : Prop :=
  Registrable r.handle r.len ∧ (findSvc p.svclist r.name r.len = none → p.globals.malloc ≠ none)

def SoleName (s : Linked A) : LinkEvent A → Prop
  | .request r => Accepted s.1 r →
    ∀ si ∈ s.1.svclist.entries, si.handle = r.handle → si.name = units r.name r.len
  | .die _ _ => True

structure Paired (s : Linked A) : Prop where
  names : s.1.svclist.NamesNodup
  balanced : Balanced s.1.svclist [] s.2
  sole : ∀ si ∈ s.1.svclist.entries, ∀ sj ∈ s.1.svclist.entries,
    si.handle ≠ 0 → si.handle = sj.handle → si = sj
  linked : ∀ si ∈ s.1.svclist.entries, si.handle ≠ 0 →
    s.2.link si.handle = some (si.deathAddr.setWidth _)
  counted : ∀ h, s.2.link h ≠ none → s.2.strong h ≠ 0

theorem setWidth_deathAddr (a : A.Uintptr) :
    ((a.setWidth (8 * A.binderSizeT.bytes) : A.BinderUintptr).setWidth _ : A.Uintptr) = a := by
  have hle := A.sizeT_le
  rw [BitVec.setWidth_setWidth_of_le a (by omega),BitVec.setWidth_eq]

theorem svcmgrDeath_of_mem {p : Manager A} {si : Svcinfo A} (hs : si ∈ p.svclist.entries) :
    svcmgrDeath si.deathAddr p = svcinfoDeath p si.addr := by
  have hf : ∃ sj, p.svclist.entries.find? (fun sj => sj.deathAddr = si.deathAddr) = some sj := by
    rw [← Option.isSome_iff_exists,List.find?_isSome]
    exact ⟨si,hs,by simp⟩
  obtain ⟨sj,hj⟩ := hf
  have hd : sj.deathAddr = si.deathAddr := by simpa using List.find?_some hj
  have hsame : sj = si := List.inj_on_of_nodup_map p.svclist.addrs_nodup
    (List.mem_of_find?_eq_some hj) hs (Svcinfo.deathAddr_inj hd)
  rw [svcmgrDeath,hj,hsame,← si.death_ptr]

theorem die_eq {s : Linked A} {si : Svcinfo A} (hs : si ∈ s.1.svclist.entries) {h : UInt32}
    (hl : s.2.link h = some (si.deathAddr.setWidth _)) (r : DeathRead) :
    die st s h r = (svcinfoDeath {s.1 with written := []} si.addr,
      Machine.run Driver.issue s.2 (released si)) := by
  have hp : ((r.deliver (si.deathAddr.setWidth _)).parse (svcmgrServer A st r.rdata)
      {s.1 with written := []}).2.proc = svcinfoDeath {s.1 with written := []} si.addr := by
    rw [Delivery.parse_eq]
    change svcmgrDeath ((si.deathAddr.setWidth _ : A.BinderUintptr).setWidth _)
      {s.1 with written := []} = _
    rw [setWidth_deathAddr]
    exact svcmgrDeath_of_mem hs
  have hw := svcinfoDeath_written (p := {s.1 with written := []}) hs
  simp only [die,hl]
  rw [hp,hw,List.nil_append]

theorem paired_owner {s : Linked A} (hi : Paired s) {h : UInt32} (hl : s.2.link h ≠ none) :
    ∃ si ∈ s.1.svclist.entries, si.handle = h ∧ h ≠ 0 ∧
      s.2.link h = some (si.deathAddr.setWidth _) := by
  have hc := hi.counted h hl
  rw [hi.balanced.strong,Driver.carried_nil,Nat.add_zero] at hc
  obtain ⟨si,hs,hh⟩ := List.countP_pos_iff.mp (Nat.pos_of_ne_zero hc)
  simp only [Holds,decide_eq_true_eq] at hh
  obtain ⟨hn,rfl⟩ := hh
  exact ⟨si,hs,rfl,hn,hi.linked si hs hn⟩

theorem deathClears_of_paired {s : Linked A} (hi : Paired s) : DeathClears st s := by
  intro h r hl name len uid spid
  obtain ⟨si,hs,rfl,hn,hlink⟩ := paired_owner hi hl
  have hlist : (die st s si.handle r).1.svclist = s.1.svclist.setHandle si.addr 0 := by
    rw [die_eq st hs hlink,svcinfoDeath_of_mem (p := {s.1 with written := []}) hs,if_pos hn]
    rfl
  simp only [hlist,doFindService_named,Svclist.named_setHandle hi.names hs]
  split_ifs with hname
  · rw [hname,(Svclist.named_eq_some hi.names).mpr ⟨hs,rfl⟩]
    have hzero : ∀ c : Prop, ∀ _ : Decidable c, (if c then (0 : UInt32) else 0) = 0 :=
      fun c _ => ite_self 0
    simp only [Svcinfo.withHandle_handle,hzero]
    refine ⟨hn.symm,fun hne => ?_⟩
    split_ifs at hne ⊢
    · rfl
    · exact absurd rfl hne
  · refine ⟨?_,fun _ => rfl⟩
    cases hf : s.1.svclist.named (units name len) with
    | none => exact hn.symm
    | some sj =>
      obtain ⟨hj,hnj⟩ := (Svclist.named_eq_some hi.names).mp hf
      simp only []
      split_ifs
      · exact hn.symm
      · intro he
        have hsame := hi.sole si hs sj hj hn he.symm
        exact hname (by rw [← hnj,← hsame])

theorem rebind_paired {s s' : Linked A} (hi : Paired s) (sn : Svcinfo A)
    (names : s'.1.svclist.NamesNodup) (balanced : Balanced s'.1.svclist [] s'.2)
    (counted : ∀ h, s'.2.link h ≠ none → s'.2.strong h ≠ 0)
    (hold : ∀ si ∈ s'.1.svclist.entries, si = sn ∨ si ∈ s.1.svclist.entries ∧
      (si.handle ≠ 0 → si.handle ≠ sn.handle ∧ s'.2.link si.handle = s.2.link si.handle))
    (hnew : sn.handle ≠ 0 → s'.2.link sn.handle = some (sn.deathAddr.setWidth _)) :
    Paired s' := by
  refine ⟨names,balanced,?_,?_,counted⟩
  · intro si hs sj hj hn he
    rcases hold si hs with rfl | ⟨hs,hsi⟩
    · rcases hold sj hj with rfl | ⟨-,hsj⟩
      · rfl
      · exact absurd he.symm (hsj (he ▸ hn)).1
    · rcases hold sj hj with rfl | ⟨hj,-⟩
      · exact absurd he (hsi hn).1
      · exact hi.sole si hs sj hj hn he
  · intro si hs hn
    rcases hold si hs with rfl | ⟨hs,hsi⟩
    · exact hnew hn
    · rw [(hsi hn).2]
      exact hi.linked si hs hn

theorem drop_counted (d : Driver A) (hs : List UInt32) (h : UInt32)
    (hl : (d.drop hs).link h ≠ none) : (d.drop hs).strong h ≠ 0 := by
  intro hz
  exact hl (if_pos hz)

theorem drop_link (d : Driver A) (hs : List UInt32) {h : UInt32}
    (hn : (d.drop hs).strong h ≠ 0) : (d.drop hs).link h = d.link h := if_neg hn

theorem die_paired {s : Linked A} (hi : Paired s) (h : UInt32) (r : DeathRead) :
    Paired (die st s h r) := by
  by_cases hl : s.2.link h = none
  · rw [die,hl]
    exact hi
  obtain ⟨si,hs,rfl,hn,hlink⟩ := paired_owner hi hl
  have hb := (svcinfoDeath_balanced (p := {s.1 with written := []}) hi.balanced hs).1
  rw [die_eq st hs hlink]
  have hlist : (svcinfoDeath {s.1 with written := []} si.addr).svclist =
      s.1.svclist.setHandle si.addr 0 := by
    rw [svcinfoDeath_of_mem (p := {s.1 with written := []}) hs,if_pos hn]
    rfl
  rw [released,if_pos hn] at hb ⊢
  refine rebind_paired hi (si.withHandle 0) ?_ hb (drop_counted s.2 [si.handle]) ?_ ?_
  · rw [hlist]
    exact (Svclist.namesNodup_setHandle _ _).mpr hi.names
  · intro sj hj
    rw [hlist] at hj
    rcases (Pinned.mem_assign s.1.svclist.addrs_nodup hs rfl sj).mp hj with rfl | ⟨hj',hne⟩
    · exact .inl rfl
    · refine .inr ⟨hj',fun hnj => ⟨hnj,drop_link _ _ ?_⟩⟩
      have hpos := holders_pos (l := s.1.svclist.setHandle si.addr 0) hj hnj
      have hk := hb.strong sj.handle
      rw [hlist] at hk
      change (s.2.drop [si.handle]).strong sj.handle = _ at hk
      omega
  · exact fun hz => absurd rfl hz

theorem carry_balanced {l : Svclist A} {d : Driver A} (hb : Balanced l [] d) (b : Held A) :
    Balanced l [b] (d.carry b) := by
  refine ⟨?_,fun h => ?_⟩
  · rw [Driver.carry,hb.bufs,List.nil_append]
  · have hs := hb.strong h
    rw [Driver.carried_nil] at hs
    simp only [Driver.carry,Driver.carried_cons,Driver.carried_nil]
    omega

def addOutcome (s : Linked A) (r : AddRequest A) : Int × Manager A :=
  doAddService {s.1 with written := []} r.name r.len r.handle r.uid r.allowIsolated r.spid

theorem addOutcome_added (s : Linked A) (r : AddRequest A) :
    Added {s.1 with written := []} r.name r.len r.handle r.allowIsolated
      ((addOutcome s r).1,(addOutcome s r).2) :=
  doAddService_added _ r.name r.len r.handle r.uid r.allowIsolated r.spid

def asked (s : Linked A) (r : AddRequest A) : Driver A :=
  Machine.run Driver.issue (s.2.carry (r.buffer,r.held)) (addOutcome s r).2.written

theorem asked_balanced {s : Linked A} (hb : Balanced s.1.svclist [] s.2) (r : AddRequest A) :
    Balanced (addOutcome s r).2.svclist [(r.buffer,r.held)] (asked s r) := by
  obtain ⟨cmds,hw,hb',-⟩ := added_balanced (p := {s.1 with written := []})
    (carry_balanced hb (r.buffer,r.held)) (addOutcome_added s r)
  rw [asked,hw]
  exact hb'

theorem add_eq {s : Linked A} (hb : Balanced s.1.svclist [] s.2) (r : AddRequest A) :
    add s r = ((addOutcome s r).2,{(asked s r).drop r.held with bufs := []}) := by
  rw [← Driver.issue_freeBuffer (asked_balanced hb r).bufs]
  rfl

theorem add_balanced {s : Linked A} (hb : Balanced s.1.svclist [] s.2) (r : AddRequest A) :
    Balanced (add s r).1.svclist [] (add s r).2 := balanced_freeBuffer (asked_balanced hb r)

theorem add_counted {s : Linked A} (hb : Balanced s.1.svclist [] s.2) (r : AddRequest A)
    (h : UInt32) (hl : (add s r).2.link h ≠ none) : (add s r).2.strong h ≠ 0 := by
  rw [add_eq hb] at hl ⊢
  exact drop_counted (asked s r) r.held h hl

theorem add_link {s : Linked A} (hb : Balanced s.1.svclist [] s.2) (r : AddRequest A)
    {si : Svcinfo A} (hs : si ∈ (add s r).1.svclist.entries) (hn : si.handle ≠ 0) :
    (add s r).2.link si.handle = (asked s r).link si.handle := by
  have hpos := holders_pos hs hn
  have hk := (add_balanced hb r).strong si.handle
  rw [add_eq hb] at hk hpos ⊢
  refine drop_link (asked s r) r.held ?_
  change ((asked s r).drop r.held).strong si.handle = _ at hk
  omega

theorem add_names {s : Linked A} (hn : s.1.svclist.NamesNodup) (r : AddRequest A) :
    (add s r).1.svclist.NamesNodup :=
  added_names (p := {s.1 with written := []}) hn (addOutcome_added s r)

theorem released_link {d : Driver A} (hc : ∀ h, d.link h ≠ none → d.strong h ≠ 0)
    (si : Svcinfo A) {h : UInt32} (hne : h ≠ si.handle) :
    (Machine.run Driver.issue d (released si)).link h = d.link h := by
  rw [released]
  split_ifs with hn
  · change (if d.strong h - [si.handle].count h = 0 then none else d.link h) = d.link h
    rw [count_one,if_neg hne.symm,Nat.sub_zero]
    split_ifs with hz
    · by_contra hl
      exact hc h (Ne.symm hl) hz
    · rfl
  · rfl

theorem released_link_or (d : Driver A) (si : Svcinfo A) (h : UInt32) :
    (Machine.run Driver.issue d (released si)).link h = none ∨
      (Machine.run Driver.issue d (released si)).link h = d.link h := by
  rw [released]
  split_ifs with hn
  · change (if d.strong h - [si.handle].count h = 0 then none else d.link h) = none ∨
      (if d.strong h - [si.handle].count h = 0 then none else d.link h) = d.link h
    split_ifs
    · exact .inl rfl
    · exact .inr rfl
  · exact .inr rfl

structure Rebound (s : Linked A) (r : AddRequest A) (sn : Svcinfo A)
    (kept : UInt32 → Option A.BinderUintptr) : Prop where
  name : sn.name = units r.name r.len
  handle : sn.handle = r.handle
  mem : sn ∈ (add s r).1.svclist.entries
  old : ∀ si ∈ (add s r).1.svclist.entries,
    si = sn ∨ si ∈ s.1.svclist.entries ∧ si.name ≠ sn.name
  stays : ∀ si ∈ s.1.svclist.entries, si.name ≠ sn.name → si ∈ (add s r).1.svclist.entries
  record : ∀ si ∈ s.1.svclist.entries, si.name = sn.name → si.deathAddr = sn.deathAddr
  link : ∀ h, (asked s r).link h =
    if h = r.handle ∧ kept h = none then some (sn.deathAddr.setWidth _) else kept h
  kept_or : ∀ h, kept h = none ∨ kept h = s.2.link h
  keeps : ∀ si ∈ s.1.svclist.entries, si.name ≠ sn.name → si.handle ≠ 0 →
    kept si.handle = s.2.link si.handle

theorem overridden_rebound {s : Linked A} (hi : Paired s) {r : AddRequest A} {si : Svcinfo A}
    (hf : findSvc s.1.svclist r.name r.len = some si)
    (hlist : (add s r).1.svclist = s.1.svclist.setHandle si.addr r.handle)
    (hask : asked s r = Machine.run Driver.issue
      (Machine.run Driver.issue (s.2.carry (r.buffer,r.held)) (released si))
      [.acquire r.handle,.requestDeathNotification r.handle (si.deathAddr.setWidth _)]) :
    Rebound s r (si.withHandle r.handle)
      (Machine.run Driver.issue (s.2.carry (r.buffer,r.held)) (released si)).link := by
  have hs := findSvc_mem hf
  rw [findSvc_named] at hf
  have hname : si.name = units r.name r.len := ((Svclist.named_eq_some hi.names).mp hf).2
  have hmem := Pinned.mem_assign (f := Svcinfo.withHandle r.handle) s.1.svclist.addrs_nodup hs rfl
  refine ⟨hname,rfl,?_,?_,?_,?_,?_,?_,?_⟩
  · rw [hlist]
    exact (hmem _).mpr (.inl rfl)
  · intro sj hj
    rw [hlist] at hj
    rcases (hmem sj).mp hj with rfl | ⟨hj,hne⟩
    · exact .inl rfl
    · refine .inr ⟨hj,fun hn => hne ?_⟩
      rw [List.inj_on_of_nodup_map hi.names hj hs hn]
  · intro sj hj hne
    rw [hlist]
    refine (hmem sj).mpr (.inr ⟨hj,fun ha => hne ?_⟩)
    rw [List.inj_on_of_nodup_map s.1.svclist.addrs_nodup hj hs ha]
    rfl
  · intro sj hj hn
    rw [List.inj_on_of_nodup_map hi.names hj hs hn]
    rfl
  · intro h
    rw [hask]
    rfl
  · exact released_link_or _ si
  · intro sj hj hne hz
    refine released_link (fun h hk => ?_) si fun he => hne ?_
    · exact Nat.ne_of_gt (Nat.add_pos_left (Nat.pos_of_ne_zero (hi.counted h hk)) _)
    · rw [hi.sole sj hj si hs hz he]
      rfl

theorem pushed_rebound {s : Linked A} {r : AddRequest A} {a : A.Uintptr}
    (hf : findSvc s.1.svclist r.name r.len = none)
    {fresh : (newSvcinfo a r.name r.len r.handle r.allowIsolated).addr ∉ s.1.svclist.addrs}
    (hlist : (add s r).1.svclist =
      s.1.svclist.push (newSvcinfo a r.name r.len r.handle r.allowIsolated) fresh)
    (hask : asked s r = Machine.run Driver.issue (s.2.carry (r.buffer,r.held))
      [.acquire r.handle,.requestDeathNotification r.handle
        ((newSvcinfo a r.name r.len r.handle r.allowIsolated).deathAddr.setWidth _)]) :
    Rebound s r (newSvcinfo a r.name r.len r.handle r.allowIsolated) s.2.link := by
  have hnone : ∀ sj ∈ s.1.svclist.entries, sj.name ≠ units r.name r.len := by
    intro sj hj
    rw [findSvc_named] at hf
    simpa using List.find?_eq_none.mp hf sj hj
  refine ⟨rfl,rfl,?_,?_,?_,?_,?_,fun _ => .inr rfl,fun _ _ _ _ => rfl⟩
  · rw [hlist]
    exact List.mem_cons_self
  · intro sj hj
    rw [hlist] at hj
    rcases List.mem_cons.mp hj with rfl | hj
    · exact .inl rfl
    · exact .inr ⟨hj,hnone sj hj⟩
  · intro sj hj hne
    rw [hlist]
    exact List.mem_cons_of_mem _ hj
  · exact fun sj hj hn => absurd hn (hnone sj hj)
  · intro h
    rw [hask]
    rfl

theorem add_rebound {s : Linked A} (hi : Paired s) {r : AddRequest A} (hacc : Accepted s.1 r) :
    ∃ sn kept, Rebound s r sn kept := by
  have hadd := addOutcome_added s r
  have hl : (add s r).1 = (addOutcome s r).2 := rfl
  have hask : asked s r = Machine.run Driver.issue (s.2.carry (r.buffer,r.held))
    (addOutcome s r).2.written := rfl
  generalize (addOutcome s r).1 = res, (addOutcome s r).2 = p' at hadd hl hask
  cases hadd with
  | refused reason =>
    rcases reason with hr | ⟨hf,hm⟩
    · exact absurd hacc.1 hr
    · exact absurd hm (hacc.2 hf)
  | overridden valid hf hlist hw =>
    rw [hw,List.nil_append,Machine.run_append] at hask
    exact ⟨_,_,overridden_rebound hi hf (hl ▸ hlist) hask⟩
  | pushed valid hf fresh hlist hw =>
    rw [hw,List.nil_append] at hask
    exact ⟨_,_,pushed_rebound hf (hl ▸ hlist) hask⟩

theorem add_refused {s : Linked A} {r : AddRequest A} (hacc : ¬ Accepted s.1 r) :
    (add s r).1.svclist = s.1.svclist ∧ (asked s r).link = s.2.link := by
  have hadd := addOutcome_added s r
  have hl : (add s r).1 = (addOutcome s r).2 := rfl
  have hask : asked s r = Machine.run Driver.issue (s.2.carry (r.buffer,r.held))
    (addOutcome s r).2.written := rfl
  generalize ho : addOutcome s r = out at hadd hl hask
  obtain ⟨res,p'⟩ := out
  cases hadd with
  | refused reason hlist hw =>
    rw [hl,hask,hlist,hw]
    exact ⟨rfl,rfl⟩
  | overridden valid hf => exact absurd ⟨valid,fun hn => by cases hf.symm.trans hn⟩ hacc
  | pushed valid hf fresh hlist hw hcr halloc => exact absurd ⟨valid,fun _ => halloc⟩ hacc

theorem add_paired {s : Linked A} (hi : Paired s) {r : AddRequest A}
    (hc : SoleName s (.request r)) : Paired (add s r) := by
  have hb := add_balanced hi.balanced r
  have hn : (add s r).1.svclist.NamesNodup := add_names hi.names r
  by_cases hacc : Accepted s.1 r
  · obtain ⟨sn,kept,hr⟩ := add_rebound hi hacc
    have hown := hc hacc
    refine rebind_paired hi sn hn hb (add_counted hi.balanced r) ?_ ?_
    · intro sj hj
      rcases hr.old sj hj with rfl | ⟨hj',hne⟩
      · exact .inl rfl
      · refine .inr ⟨hj',fun hz => ?_⟩
        have hdiff : sj.handle ≠ r.handle := by
          intro he
          exact hne ((hown sj hj' he).trans hr.name.symm)
        rw [add_link hi.balanced r hj hz,hr.link,if_neg fun h => hdiff h.1,hr.handle]
        exact ⟨hdiff,hr.keeps sj hj' hne hz⟩
    · intro hz
      rw [add_link hi.balanced r hr.mem hz,hr.link,hr.handle]
      split_ifs with hk
      · rfl
      · have hkept : kept r.handle ≠ none := fun h => hk ⟨rfl,h⟩
        rcases hr.kept_or r.handle with h | h
        · exact absurd h hkept
        · rw [h] at hkept ⊢
          obtain ⟨sk,hsk,he,-,hlink⟩ := paired_owner hi hkept
          rw [hlink,hr.record sk hsk ((hown sk hsk he).trans hr.name.symm)]
  · obtain ⟨hlist,hlink⟩ := add_refused hacc
    refine ⟨hn,hb,?_,?_,add_counted hi.balanced r⟩
    · rw [hlist]
      exact hi.sole
    · intro sj hj hz
      rw [add_link hi.balanced r hj hz,hlink]
      rw [hlist] at hj
      exact hi.linked sj hj hz

theorem shared_handle_misses {s : Linked A} (hi : Paired s) {e : LinkEvent A}
    (hc : ¬ SoleName s e) : ¬ DeathClears st (linkStep st s e) := by
  cases e with
  | die h r => exact absurd trivial hc
  | request r =>
    simp only [SoleName,not_forall] at hc
    obtain ⟨hacc,sk,hk,he,hne⟩ := hc
    obtain ⟨sn,kept,hr⟩ := add_rebound hi hacc
    rw [← hr.name] at hne
    have hn : (add s r).1.svclist.NamesNodup := add_names hi.names r
    have hz : sk.handle ≠ 0 := he ▸ hacc.1.1
    have hk' := hr.stays sk hk hne
    have hlink : (add s r).2.link sk.handle = some (sk.deathAddr.setWidth _) := by
      have hkeep : kept sk.handle = some (sk.deathAddr.setWidth _) :=
        (hr.keeps sk hk hne hz).trans (hi.linked sk hk hz)
      rw [add_link hi.balanced r hk' hz,hr.link,hkeep]
      simp
    intro hdeath
    have hres := (hdeath sk.handle ⟨fun _ => 0,0,fun _ _ => 0⟩ (by rw [linkStep,hlink]; simp)
      r.name r.len 0 0).1
    apply hres
    have hlist : (svcinfoDeath {(add s r).1 with written := []} sk.addr).svclist =
        (add s r).1.svclist.setHandle sk.addr 0 := by
      rw [svcinfoDeath_of_mem (p := {(add s r).1 with written := []}) hk',if_pos hz]
      rfl
    rw [linkStep,die_eq st hk' hlink,doFindService_eq _ _ _ (by decide),hlist,
      Svclist.handleOf_setHandle hn hk',← hr.name,if_neg hne,Svclist.handleOf,
      (Svclist.named_eq_some hn).mpr ⟨hr.mem,rfl⟩]
    exact hr.handle.trans he.symm

theorem paired_started (heap : ℕ → Option A.Uintptr) : Paired (started heap,Driver.idle) where
  names := List.nodup_nil
  balanced := ⟨rfl,fun _ => rfl⟩
  sole _ hs := absurd hs List.not_mem_nil
  linked _ hs := absurd hs List.not_mem_nil
  counted _ hl := absurd rfl hl

theorem death_clears_iff_sole_name (heap : ℕ → Option A.Uintptr) (es : List (LinkEvent A)) :
    Machine.Always (linkStep st) (DeathClears st) (started heap,Driver.idle) es ↔
      Machine.Along (linkStep st) SoleName (started heap,Driver.idle) es := by
  have keep : ∀ (s : Linked A) e, Paired s → SoleName s e → Paired (linkStep st s e) := by
    intro s e hi hc
    cases e with
    | request r => exact add_paired hi hc
    | die h r => exact die_paired st hi h r
  have fail : ∀ (s : Linked A) e, Paired s → ¬ SoleName s e →
      ¬ DeathClears st (linkStep st s e) := fun s e hi hc => shared_handle_misses st hi hc
  exact Machine.always_iff_along (fun s hi => deathClears_of_paired st hi) keep fail
    (paired_started heap) es

end

def registerAs (name : UInt16) : AddRequest (Abi.uniform .four) where
  buffer := 4096
  held := [5]
  name := fun _ => name
  len := 1
  handle := 5
  uid := 0
  allowIsolated := 0
  spid := 0

theorem second_name_outlives_handle :
    ¬ ∀ (st : BinderState) (heap : ℕ → Option (Abi.uniform .four).Uintptr)
      (es : List (LinkEvent (Abi.uniform .four))),
      Machine.Always (linkStep st) (DeathClears st) (started heap,Driver.idle) es := by
  intro hall
  have hfinal := (hall ⟨0,0,0⟩ (fun n => some (BitVec.ofNat _ (16*(n+1))))
    [.request (registerAs 97),.request (registerAs 98)]).final
  have hfirst : Paired (add (started (fun n => some (BitVec.ofNat _ (16*(n+1)))),Driver.idle)
      (registerAs 97)) :=
    add_paired (paired_started _) fun _ si hs => absurd hs List.not_mem_nil
  refine shared_handle_misses ⟨0,0,0⟩ (e := .request (registerAs 98)) hfirst ?_ hfinal
  simp only [SoleName,Accepted,Registrable]
  decide +kernel

end Servicemanager
