import OnPremGateway.AdmissionVerdict

/-!
# Who an admission may evict

A victim is idle, unpinned, past its grace window and no instance of the
candidate's spec, and it leaves after its higher siblings. A candidate whose
own demand is unknown moves a process of known demand off its cards only by
spending its bootstrap grant.
-/

set_option autoImplicit false

namespace OnPremGateway.AdmissionVictims
open RuntimeTypes AdmissionModel SliceOrder List Bool
open AdmissionOrder AdmissionSteps AdmissionRules
open AdmissionVerdict

variable (ρ : Ranges) (snap : PolicySnapshot) (spec : Spec) (r : RunningProc)

/-- What a process must be to make room for the candidate. -/
structure Idle (snap : PolicySnapshot) (spec : Spec) (r : RunningProc) : Prop where
  running : r ∈ snap.running
  other : r.specID ≠ spec.id
  unpinned : r.pinned = false
  started : r.starting = false
  unused : r.inFlight = 0
  pastGrace : 0 < snap.evictionGrace → snap.evictionGrace < snap.now-r.lastUsed
  stranger : baseOf r ≠ specBase spec

theorem mem_newAdmission_running :
    r ∈ (newAdmission snap spec).running ↔ r ∈ snap.running ∧ r.specID ≠ spec.id := by
  rw [(newAdmission_perm snap spec).mem_iff, others, mem_filter, decide_eq_true_eq]

theorem idle_of_mayEvict (hr : r ∈ (newAdmission snap spec).running)
    (hm : (newAdmission snap spec).mayEvict r = true) : Idle snap spec r := by
  obtain ⟨hrun,hid⟩ := (mem_newAdmission_running snap spec r).mp hr
  simp only [Admission.mayEvict, isEvictable, withinGrace, newAdmission, and_eq_true,
    not_eq_true', and_eq_false_iff, decide_eq_true_eq] at hm
  obtain ⟨⟨⟨⟨hp,hs⟩,hf⟩,hg⟩,hb⟩ := hm
  refine ⟨hrun,hid,hp,hs,hf,?_,of_decide_eq_true hb⟩
  intro hpos
  rcases hg with hg | hg
  · exact absurd hpos (of_decide_eq_false hg)
  · exact lt_of_lt_sub _ _ _ hpos (not_le.mp (of_decide_eq_false hg))

theorem evict_source (id : String)
    (h : id ∈ (admitSpec ρ snap spec).evict) :
    ∃ z, Reach (newAdmission snap spec) z ∧ z = afterRules ρ (newAdmission snap spec) ∧
      z.blocked = false ∧ Sound z ∧
      (admitSpec ρ snap spec).evict = (z.victims ρ).map RunningProc.specID ∧
      (admitSpec ρ snap spec).vramBootstrap = z.bootstrapEvicted := by
  obtain ⟨_,hb,hd⟩ := evict_cases ρ snap spec (ne_nil_of_mem h)
  have hr := afterRules_reach ρ (newAdmission snap spec)
  refine ⟨_,hr,rfl,hb,reach_sound _ _ hr (newAdmission_sound snap spec),?_,?_⟩
  · rw [hd]
  · rw [hd]

/-- A named victim is a queued process of the running set. -/
theorem victim_of_mem (z : Admission)
    (hr : Reach (newAdmission snap spec) z) (hs : Sound z) (id : String)
    (h : id ∈ (z.victims ρ).map RunningProc.specID) :
    ∃ r, r ∈ z.victims ρ ∧ r.specID = id ∧ z.toEvict.lookup id = some r ∧
      r ∈ (newAdmission snap spec).running ∧ Idle snap spec r := by
  obtain ⟨r,hv,rfl⟩ := mem_map.mp h
  obtain ⟨id,hl⟩ := (mem_victims ρ z r).mp hv
  obtain ⟨hid,hrun,hm⟩ := hs.entry id r hl
  rw [(reach_sameInput _ _ hr).running] at hrun
  rw [reach_mayEvict _ _ hr] at hm
  exact ⟨r,hv,rfl,hid ▸ hl,hrun,idle_of_mayEvict snap spec r hrun hm⟩

theorem victims_nodup (z : Admission) (hs : Sound z) :
    ((z.victims ρ).map RunningProc.specID).Nodup := by
  have hkeys : (z.toEvict.entries.map (fun e => e.2)).map RunningProc.specID = z.toEvict.keys := by
    rw [map_map]
    apply map_congr_left
    rintro ⟨id,r⟩ he
    exact (hs.entry id r (AList.mem_lookup_iff.mpr he)).1
  rw [((victims_perm ρ z).map RunningProc.specID).nodup_iff, hkeys]
  exact z.toEvict.keys_nodup

/-- Of two distinct members of a list in which every earlier member is related
to every later one, the one that is not related to the other comes second. -/
theorem idxOf_lt_of_pairwise (rs : List RunningProc) (R : RunningProc → RunningProc → Prop)
    (hp : rs.Pairwise R) (hd : DistinctIDs rs) (r o : RunningProc) (hr : r ∈ rs) (ho : o ∈ rs)
    (hne : o ≠ r) (hnot : ¬R r o) :
    (rs.map RunningProc.specID).idxOf o.specID < (rs.map RunningProc.specID).idxOf r.specID := by
  induction rs with
  | nil => simp at hr
  | cons x xs ih =>
    obtain ⟨hx,hxs⟩ := pairwise_cons.mp hp
    rw [DistinctIDs, map_cons, nodup_cons] at hd
    rcases mem_cons.mp ho with rfl | hox
    · have hid : o.specID ≠ r.specID := fun h => hne
        (eq_of_specID (o::xs) (nodup_cons.mpr hd) o r (by simp) hr h)
      rw [map_cons, idxOf_cons_self, idxOf_cons_ne _ hid]
      omega
    rcases mem_cons.mp hr with rfl | hrx
    · exact absurd (hx o hox) hnot
    have hno : x.specID ≠ o.specID := fun h => hd.1 (h ▸ mem_map_of_mem hox)
    have hnr : x.specID ≠ r.specID := fun h => hd.1 (h ▸ mem_map_of_mem hrx)
    rw [map_cons, idxOf_cons_ne _ hno, idxOf_cons_ne _ hnr]
    exact Nat.succ_lt_succ (ih hxs hd.2 hrx hox)

/-- Every named victim may go, none is named twice, and a victim's higher
siblings are named before it. A process that carries the candidate's own id
takes no part in the admission, so nothing is said of it as a sibling. -/
theorem victims_idle_and_ordered (ρ : Ranges) (snap : PolicySnapshot) (spec : Spec)
    (hd : DistinctIDs snap.running) : (admitSpec ρ snap spec).evict.Nodup ∧
    ∀ id ∈ (admitSpec ρ snap spec).evict, ∃ r, r.specID = id ∧ Idle snap spec r ∧
      ∀ o ∈ snap.running, o.specID ≠ spec.id → baseOf o = baseOf r →
        r.instanceIdx < o.instanceIdx → o.specID ∈ (admitSpec ρ snap spec).evict ∧
          (admitSpec ρ snap spec).evict.idxOf o.specID < (admitSpec ρ snap spec).evict.idxOf id := by
  constructor
  · cases he : (admitSpec ρ snap spec).evict with
    | nil => exact nodup_nil
    | cons id ids =>
      obtain ⟨z,_,_,_,hs,hev,_⟩ := evict_source ρ snap spec id (by simp [he])
      rw [← he, hev]
      exact victims_nodup ρ z hs
  · intro id hid
    obtain ⟨z,hr,_,_,hs,hev,_⟩ := evict_source ρ snap spec id hid
    rw [hev] at hid ⊢
    obtain ⟨r,hv,rfl,hl,hrun,hidle⟩ := victim_of_mem ρ snap spec z hr hs id hid
    refine ⟨r,rfl,hidle,?_⟩
    intro o ho hne hb hi
    have hrunning := (reach_sameInput _ _ hr).running
    have hoz : o ∈ z.running := by
      rw [hrunning, mem_newAdmission_running]
      exact ⟨ho,hne⟩
    have hq := hs.closed _ r hl o hoz hb hi
    have hmem : o.specID ∈ (z.victims ρ).map RunningProc.specID := (mem_evict_iff ρ z hs o).mpr hq
    refine ⟨hmem,?_⟩
    -- The queued process that carries the sibling's id is the sibling.
    obtain ⟨v,hvv,hvid,_,_,hvidle⟩ := victim_of_mem ρ snap spec z hr hs _ hmem
    obtain rfl : v = o := eq_of_specID snap.running hd v o hvidle.running ho hvid
    apply idxOf_lt_of_pairwise _ _ (siblingsHighestFirst_highestFirst ρ .drain _)
      (victims_nodup ρ z hs) r v hv hvv
    · rintro rfl
      exact lt_irrefl _ hi
    · intro hle
      exact absurd (hle hb.symm) (not_le.mpr hi)

theorem victims_of_held_card :
    (admitSpec (RangeOrder.listed Site) heldCard sharedCandidate).evict = ["b#1", "b"] ∧
    (admitSpec (RangeOrder.listed Site) heldCard sharedCandidate).evict.Nodup := by
  refine ⟨by decide,?_⟩
  exact (victims_idle_and_ordered (RangeOrder.listed Site) heldCard sharedCandidate (by decide)).1

/-- The higher instance of `b` runs under the id the candidate has. -/
def borrowedID : PolicySnapshot where
  running := [{ specID := "b", spec := "b" }, { specID := "a", spec := "b", instanceIdx := 5 }]

/-- A process under the candidate's own id is passed over even as a sibling,
so a victim can be named while a higher instance of its spec stays. -/
theorem sibling_under_candidate_id_stays : DistinctIDs borrowedID.running ∧
    (admitSpec (RangeOrder.listed Site) borrowedID { id := "a" }).evict = ["b"] ∧
    ∃ r ∈ borrowedID.running, ∃ o ∈ borrowedID.running, r.specID = "b" ∧
      baseOf o = baseOf r ∧ r.instanceIdx < o.instanceIdx ∧
      o.specID ∉ (admitSpec (RangeOrder.listed Site) borrowedID { id := "a" }).evict := by
  decide

/-- A process of known demand on the candidate's cards. -/
def KnownBeside (spec : Spec) (r : RunningProc) : Prop :=
  (∀ i v, r.gpus.lookup i = some v → 0 < v) ∧ ∃ g ∈ spec.gpus, (r.gpus.lookup g.index).isSome = true

theorem knownToucher_of_knownBeside (a : Admission) (ha : a.gpuIdx = specGPUIndexes a.spec)
    (r : RunningProc) (h : KnownBeside a.spec r) : knownToucher ρ a r := by
  obtain ⟨hpos,g,hg,ho⟩ := h
  constructor
  · rw [ha, touchesAnyGPU_iff]
    exact ⟨g.index,mem_map_of_mem hg,ho⟩
  · rw [← not_eq_true, procHasUnknownVRAM_iff]
    rintro ⟨i,hi⟩
    exact absurd (hpos i 0 hi) (lt_irrefl 0)

/-- A candidate of unknown demand that evicts anyone past a known occupant of
its cards held the grant and spends it. -/
theorem evict_spends_grant
    (hu : specHasUnknownVRAM spec = true) (r : RunningProc) (hr : r ∈ snap.running)
    (hid : r.specID ≠ spec.id) (hk : KnownBeside spec r)
    (he : (admitSpec ρ snap spec).evict ≠ []) :
    snap.vramBootstrapEligible = true ∧ (admitSpec ρ snap spec).vramBootstrap = true := by
  obtain ⟨_,hb,hd⟩ := evict_cases ρ snap spec he
  rw [hd]
  set a := newAdmission snap spec with ha
  have hm : Reach a a.ruleMatrix := ruleMatrix_reach a
  have hf := reach_sameInput _ _ hm
  have hrest : Reach (a.ruleMatrix.ruleUnknownVRAMCandidate ρ) (afterRules ρ a) :=
    (ruleUnknownVRAMOccupant_reach ρ _).trans <| (rulePerGPUVRAM_reach ρ _).trans <|
      (ruleHostRAM_reach ρ _).trans (ruleProcessCount_reach ρ _)
  have hspent := ruleUnknownVRAMCandidate_post ρ a.ruleMatrix (reach_blocked _ _ hrest hb)
    (hf.unknownVRAM.trans hu) r
    (hf.running ▸ (mem_newAdmission_running snap spec r).mpr ⟨hr,hid⟩)
    (knownToucher_of_knownBeside ρ _ (by rw [hf.gpuIdx, hf.spec]; rfl) r (by rw [hf.spec]; exact hk))
  rw [hf.snap] at hspent
  exact ⟨hspent.1,reach_bootstrapEvicted _ _ hrest hspent.2.2⟩

/-- One admission of a sequence: who asked, against what, and the answer. -/
structure Admitted where
  ρ : Ranges
  snap : PolicySnapshot
  spec : Spec

def Admitted.answer (q : Admitted) : Decision := admitSpec q.ρ q.snap q.spec

/-- The admission evicts the process of `victim` for `spec`. -/
def Admitted.evictsFor (q : Admitted) (spec victim : Spec) : Prop :=
  q.spec = spec ∧ victim.id ∈ q.answer.evict

/-- Where `a` has an unknown demand and `b` holds one of its cards with known
figures, `a` without its grant never evicts `b`. In a sequence of admissions
that evicts `b` for `a` and `a` for `b`, some admission of `a` spends the grant. -/
theorem mixed_pair_never_thrashes (a b : Spec) (ha : ∃ g ∈ a.gpus, g.vramMB = 0) :
    (∀ (ρ : Ranges) (snap : PolicySnapshot),
      (∀ r ∈ snap.running, r.specID = b.id → KnownBeside a r) →
      snap.vramBootstrapEligible = false → b.id ∉ (admitSpec ρ snap a).evict) ∧
    ∀ qs : List Admitted,
      (∀ q ∈ qs, q.spec = a → ∀ r ∈ q.snap.running, r.specID = b.id → KnownBeside a r) →
      (∃ q ∈ qs, q.evictsFor a b) → (∃ q ∈ qs, q.evictsFor b a) →
      ∃ q ∈ qs, q.evictsFor a b ∧ q.snap.vramBootstrapEligible = true ∧
        q.answer.vramBootstrap = true := by
  have hu : specHasUnknownVRAM a = true := (specHasUnknownVRAM_iff a).mpr ha
  have hspend : ∀ (ρ : Ranges) (snap : PolicySnapshot),
      (∀ r ∈ snap.running, r.specID = b.id → KnownBeside a r) → b.id ∈ (admitSpec ρ snap a).evict →
      snap.vramBootstrapEligible = true ∧ (admitSpec ρ snap a).vramBootstrap = true := by
    intro ρ snap hknown hmem
    obtain ⟨z,hr,_,_,hs,hev,_⟩ := evict_source ρ snap a b.id hmem
    obtain ⟨r,_,hid,_,_,hidle⟩ := victim_of_mem ρ snap a z hr hs b.id (hev ▸ hmem)
    exact evict_spends_grant ρ snap a hu r hidle.running hidle.other
      (hknown r hidle.running hid) (ne_nil_of_mem hmem)
  constructor
  · intro ρ snap hknown hno hmem
    rw [(hspend ρ snap hknown hmem).1] at hno
    exact Bool.noConfusion hno
  · rintro qs hknown ⟨q,hq,hspec,hmem⟩ _
    rw [Admitted.answer, hspec] at hmem
    have h := hspend q.ρ q.snap (hknown q hq hspec) hmem
    refine ⟨q,hq,⟨hspec,?_⟩,h.1,?_⟩
    · rw [Admitted.answer, hspec]
      exact hmem
    · rw [Admitted.answer, hspec]
      exact h.2

def unmeasured : Spec := { id := "a", gpus := [⟨0, 0⟩] }

theorem unmeasured_waits_for_held_card :
    "b" ∉ (admitSpec (RangeOrder.listed Site) sharedCard unmeasured).evict ∧
    "b" ∈ (admitSpec (RangeOrder.listed Site) { sharedCard with vramBootstrapEligible := true }
      unmeasured).evict := by
  refine ⟨?_,by decide⟩
  apply (mixed_pair_never_thrashes unmeasured { id := "b" } ⟨⟨0, 0⟩,by decide,rfl⟩).1
  · intro r hr _
    simp only [sharedCard, mem_singleton] at hr
    subst hr
    refine ⟨?_,⟨0, 0⟩,by decide,by decide⟩
    intro i v hv
    have he : (⟨i, v⟩ : Sigma (fun _ : ℤ => ℤ)) ∈ [⟨0, 4000⟩] := (lookup_eq_some_iff _ _ _).mp hv
    simp only [mem_singleton, Sigma.mk.injEq, heq_eq_eq] at he
    omega
  · rfl

end OnPremGateway.AdmissionVictims
