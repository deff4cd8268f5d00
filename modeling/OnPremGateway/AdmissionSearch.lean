import OnPremGateway.AdmissionVerdict

/-!
# The victim search misses nothing

The rules draw victims greedily and one resource at a time, and a lower
instance goes only after its higher siblings. As long as the instances of one
spec look alike to the rules, none of this costs a solution: if any processes
that may go would have made room, the rules do not block.
-/

set_option autoImplicit false

namespace OnPremGateway.AdmissionSearch
open SliceOrder RuntimeTypes AdmissionModel List
open AdmissionOrder AdmissionSteps AdmissionRules
open AdmissionVerdict

/-- The instances of one spec hold the same cards, are all known or all
unknown, and all hold host RAM or none does. -/
structure Uniform (rs : List RunningProc) : Prop where
  cards : ∀ r ∈ rs, ∀ o ∈ rs, baseOf o = baseOf r → ∀ i, occupies r i = occupies o i
  known : ∀ r ∈ rs, ∀ o ∈ rs, baseOf o = baseOf r →
    ((∃ i, r.gpus.lookup i = some 0) ↔ ∃ i, o.gpus.lookup i = some 0)
  ram : ∀ r ∈ rs, ∀ o ∈ rs, baseOf o = baseOf r → (0 < r.ramMB ↔ 0 < o.ramMB)

/-- Processes that may go for the candidate, each with its higher siblings. -/
structure Admissible (snap : PolicySnapshot) (spec : Spec) (V : RunningProc → Bool) : Prop where
  mayEvict : ∀ r ∈ snap.running, V r = true → (newAdmission snap spec).mayEvict r = true
  closed : ∀ r ∈ snap.running, V r = true → ∀ o ∈ snap.running, baseOf o = baseOf r →
    r.instanceIdx < o.instanceIdx → V o = true

theorem uniform_of_bases (rs : List RunningProc) (h : (rs.map baseOf).Nodup) : Uniform rs := by
  have hone (r : RunningProc) (hr : r ∈ rs) (o : RunningProc) (ho : o ∈ rs)
      (hb : baseOf o = baseOf r) : o = r := inj_on_of_nodup_map h ho hr hb
  constructor
  · intro r hr o ho hb i
    rw [hone r hr o ho hb]
  · intro r hr o ho hb
    rw [hone r hr o ho hb]
  · intro r hr o ho hb
    rw [hone r hr o ho hb]

theorem uniform_touches (rs : List RunningProc) (h : Uniform rs) (idx : List ℤ) (r o : RunningProc)
    (hr : r ∈ rs) (ho : o ∈ rs) (hb : baseOf o = baseOf r) :
    touchesAnyGPU r idx = touchesAnyGPU o idx := by
  have hc : occupies r = occupies o := funext fun i => h.cards r hr o ho hb i
  rw [touchesAnyGPU, touchesAnyGPU, firstSharedGPU, firstSharedGPU, hc]

theorem uniform_unknown (ρ : Ranges) (rs : List RunningProc) (h : Uniform rs) (r o : RunningProc)
    (hr : r ∈ rs) (ho : o ∈ rs) (hb : baseOf o = baseOf r) :
    procHasUnknownVRAM ρ r = procHasUnknownVRAM ρ o := by
  rw [Bool.eq_iff_iff, procHasUnknownVRAM_iff, procHasUnknownVRAM_iff]
  exact h.known r hr o ho hb

/-- If what a family of processes leaves behind meets the demands of the
candidate, then no rule blocks. -/
theorem afterRules_unblocked (ρ : Ranges) (a : Admission) (ha : Made a) (hs : Sound a)
    (hb : a.blocked = false) (hu : Uniform a.running)
    (hcand : a.unknownVRAM = true → a.snap.vramBootstrapEligible = true ∨
      ∀ r ∈ a.running, ¬knownToucher ρ a r)
    (hfl : 0 < a.snap.hostRAMBudgetMB → a.snap.ramBootstrapInFlight = false) (V : RunningProc → Bool)
    (hV : Family a (fun r => V r = true))
    (hmet : Met a.snap a.spec (a.running.filter (fun r => !V r))) :
    (afterRules ρ a).blocked = false := by
  have hspared : ∀ r ∈ a.running, V r = false → r ∈ a.running.filter (fun r => !V r) :=
    fun r hr hv => mem_filter.mpr ⟨hr,by simpa using hv⟩
  -- A process that a whole-set rule takes belongs to the family, and so do
  -- its siblings, since the rule takes them all alike.
  have hfamily : ∀ W : RunningProc → Prop, (∀ r ∈ a.running, W r → V r = true) →
      (∀ r ∈ a.running, ∀ o ∈ a.running, baseOf o = baseOf r → W r → W o) → Family a W := by
    intro W hW hsib
    constructor
    · exact fun r hr hw => hV.mayEvict r hr (hW r hr hw)
    · exact fun r hr hw o ho hbase _ => hsib r hr o ho hbase hw
  set a1 := a.ruleMatrix with h1
  set a2 := a1.ruleUnknownVRAMCandidate ρ with h2
  set a3 := a2.ruleUnknownVRAMOccupant ρ with h3
  set a4 := a3.rulePerGPUVRAM ρ with h4
  set a5 := a4.ruleHostRAM ρ with h5
  change (a5.ruleProcessCount ρ).blocked = false
  have r1 : Reach a a1 := ruleMatrix_reach a
  have r2 : Reach a a2 := r1.trans (ruleUnknownVRAMCandidate_reach ρ a1)
  have r3 : Reach a a3 := r2.trans (ruleUnknownVRAMOccupant_reach ρ a2)
  have r4 : Reach a a4 := r3.trans (rulePerGPUVRAM_reach ρ a3)
  have r5 : Reach a a5 := r4.trans (ruleHostRAM_reach ρ a4)
  have f1 := reach_sameInput _ _ r1
  have f2 := reach_sameInput _ _ r2
  have f3 := reach_sameInput _ _ r3
  have f4 := reach_sameInput _ _ r4
  have f5 := reach_sameInput _ _ r5
  have b1 : a1.blocked = false := by
    apply ruleMatrix_unblocked a ha hb
    apply hfamily
    · intro r hr hp
      by_contra hv
      rw [Bool.not_eq_true] at hv
      rw [ha.base, hmet.matrix r (hspared r hr hv)] at hp
      exact Bool.noConfusion hp
    · intro r _ o _ hbase hp
      rw [pairAllowed, hbase, ← pairAllowed]
      exact hp
  have b2 : a2.blocked = false := by
    apply ruleUnknownVRAMCandidate_unblocked ρ a1 (made_reach _ _ r1 ha) b1
    · rw [f1.unknownVRAM, f1.snap, f1.running]
      intro hun
      refine (hcand hun).imp_right fun hnone r hr hknown => hnone r hr ?_
      rwa [knownToucher, f1.gpuIdx] at hknown
    intro hun
    apply family_reach _ _ r1
    apply hfamily
    · rintro r hr ⟨ht,_⟩
      by_contra hv
      rw [Bool.not_eq_true] at hv
      rw [f1.unknownVRAM, ha.unknownVRAM] at hun
      rw [f1.gpuIdx, ha.gpuIdx, hmet.alone hun r (hspared r hr hv)] at ht
      exact Bool.noConfusion ht
    · rintro r hr o ho hbase ⟨ht,hk⟩
      exact ⟨(uniform_touches a.running hu _ r o hr ho hbase) ▸ ht,
        (uniform_unknown ρ a.running hu r o hr ho hbase) ▸ hk⟩
  have b3 : a3.blocked = false := by
    apply ruleUnknownVRAMOccupant_unblocked ρ a2 (made_reach _ _ r2 ha) b2
    apply family_reach _ _ r2
    apply hfamily
    · rintro r hr ⟨ht,hk⟩
      by_contra hv
      rw [Bool.not_eq_true] at hv
      rw [f2.gpuIdx, ha.gpuIdx, hmet.measured r (hspared r hr hv)
        ((procHasUnknownVRAM_iff ρ r).mp hk)] at ht
      exact Bool.noConfusion ht
    · rintro r hr o ho hbase ⟨ht,hk⟩
      exact ⟨(uniform_touches a.running hu _ r o hr ho hbase) ▸ ht,
        (uniform_unknown ρ a.running hu r o hr ho hbase) ▸ hk⟩
  have b4 : a4.blocked = false := by
    apply rulePerGPUVRAM_unblocked ρ a3.spec.gpus a3 (made_reach _ _ r3 ha) (fun _ h => h) b3 V
      (family_reach _ _ r3 _ hV)
    · rw [f3.running]
      exact fun g _ r hr o ho hbase => hu.cards r hr o ho hbase g.index
    · rw [f3.running, f3.snap, f3.spec]
      exact hmet.cards
  have b5 : a5.blocked = false := by
    apply ruleHostRAM_unblocked ρ a4 (made_reach _ _ r4 ha) b4 V (family_reach _ _ r4 _ hV)
    · rw [f4.running]
      intro r hr o ho hbase
      rw [← decide_not, ← decide_not, decide_eq_decide, not_le, not_le]
      exact hu.ram r hr o ho hbase
    · rw [f4.snap]
      exact hfl
    · rw [f4.snap, f4.spec, f4.running]
      exact fun hbud => (hmet.ram hbud).2
  apply ruleProcessCount_unblocked ρ a5 (made_reach _ _ r5 ha) (reach_sound _ _ r5 hs) b5 V
    (family_reach _ _ r5 _ hV)
  rw [f5.snap, f5.running]
  exact hmet.count

/-- A wait is answered only if no processes that may go, each taken with its
higher siblings, would have made the same question granted. -/
theorem wait_means_no_victims (ρ ρ' : Ranges) (snap : PolicySnapshot) (spec : Spec)
    (hreg : Regular snap spec (others snap spec)) (hu : Uniform snap.running)
    (hcand : specHasUnknownVRAM spec = false ∨ snap.vramBootstrapEligible = true)
    (hfl : snap.ramBootstrapInFlight = false) (hw : (admitSpec ρ snap spec).wait = true)
    (V : RunningProc → Bool) (hV : Admissible snap spec V) :
    (admitSpec ρ' { snap with running := snap.running.filter (fun r => !V r) } spec).ok = false := by
  rw [← Bool.not_eq_true]
  intro hok
  have hp := newAdmission_perm snap spec
  have hmem : ∀ r ∈ (newAdmission snap spec).running, r ∈ snap.running := fun r hr =>
    mem_of_mem_filter (hp.mem_iff.mp hr)
  have hmet := (ok_iff_met ρ' { snap with running := snap.running.filter (fun r => !V r) } spec
    (hreg.subperm ((filter_sublist).filter _).subperm rfl)).mp hok
  have hmet' : Met snap spec ((newAdmission snap spec).running.filter (fun r => !V r)) := by
    have hperm : (others { snap with running := snap.running.filter (fun r => !V r) } spec).Perm
        ((newAdmission snap spec).running.filter (fun r => !V r)) := by
      refine List.Perm.trans ?_ (hp.filter _).symm
      rw [others, others, filter_filter, filter_filter]
      simp only [Bool.and_comm]
      exact .refl _
    exact met_perm snap spec _ _ hperm
      ⟨hmet.matrix,hmet.alone,hmet.measured,hmet.cards,hmet.ram,hmet.count⟩
  have hun := afterRules_unblocked ρ (newAdmission snap spec) (newAdmission_made snap spec hreg)
    (newAdmission_sound snap spec) rfl
    ⟨fun r hr o ho => hu.cards r (hmem r hr) o (hmem o ho),
      fun r hr o ho => hu.known r (hmem r hr) o (hmem o ho),
      fun r hr o ho => hu.ram r (hmem r hr) o (hmem o ho)⟩
    (fun h => by
      rcases hcand with hc | hc
      · rw [show (newAdmission snap spec).unknownVRAM = specHasUnknownVRAM spec from rfl, hc] at h
        exact Bool.noConfusion h
      · exact Or.inl hc)
    (fun _ => hfl) V
    ⟨fun r hr hv => hV.mayEvict r (hmem r hr) hv,
      fun r hr hv o ho => hV.closed r (hmem r hr) hv o (hmem o ho)⟩ hmet'
  rw [wait_cases ρ snap spec hw] at hun
  exact Bool.noConfusion hun

/-- The higher of two instances is busy, so neither may make room, and the one
process that may go is too small. -/
def busyCard : PolicySnapshot where
  running := [{ specID := "b", spec := "b", gpus := (∅ : IntMap).insert 0 4000 },
    { specID := "b#1", spec := "b", instanceIdx := 1, gpus := (∅ : IntMap).insert 0 4000
      inFlight := 1 }, { specID := "c", spec := "c", gpus := (∅ : IntMap).insert 0 500 }]
  budgets := (∅ : IntMap).insert 0 10000
  allowed := ((∅ : AList (fun _ : String × String => Bool)).insert ("a", "b") true).insert
    ("a", "c") true

def smallOne (r : RunningProc) : Bool := r.specID = "c"

theorem wait_on_busy_card :
    (admitSpec (RangeOrder.listed Site) busyCard sharedCandidate).wait = true ∧
    (busyCard.running.filter smallOne).length = 1 ∧
    (admitSpec (RangeOrder.listed Site) { busyCard with
      running := busyCard.running.filter (fun r => !smallOne r) } sharedCandidate).ok = false := by
  have hw : (admitSpec (RangeOrder.listed Site) busyCard sharedCandidate).wait = true := by
    decide +kernel
  have huni : Uniform busyCard.running := by
    constructor
    · intro r hr o ho hb i
      simp only [busyCard, mem_cons, not_mem_nil, or_false] at hr ho
      rcases hr with rfl | rfl | rfl <;> rcases ho with rfl | rfl | rfl <;>
        first | rfl | exact absurd hb (by decide)
    · intro r hr o ho hb
      simp only [busyCard, mem_cons, not_mem_nil, or_false] at hr ho
      rcases hr with rfl | rfl | rfl <;> rcases ho with rfl | rfl | rfl <;>
        first | rfl | exact absurd hb (by decide)
    · decide
  exact ⟨hw,by decide,wait_means_no_victims (RangeOrder.listed Site) (RangeOrder.listed Site)
    busyCard sharedCandidate ⟨by decide,by decide,by decide,by decide⟩ huni (by decide) (by decide) hw
    smallOne ⟨by decide,by decide⟩⟩

/-- A process with a negative figure is drawn like any other and makes the sum
grow, so the draw fails where the other idle one would have done. -/
def negativeCard : PolicySnapshot where
  running := [{ specID := "b", spec := "b", gpus := (∅ : IntMap).insert 0 (-100) },
    { specID := "c", spec := "c", gpus := (∅ : IntMap).insert 0 100, lastUsed := 1 },
    { specID := "d", spec := "d", gpus := (∅ : IntMap).insert 0 5050, inFlight := 1 }]
  budgets := (∅ : IntMap).insert 0 10000
  allowed := (((∅ : AList (fun _ : String × String => Bool)).insert ("a", "b") true).insert
    ("a", "c") true).insert ("a", "d") true
  now := 100

theorem wait_on_negative_card : Uniform negativeCard.running ∧
    specHasUnknownVRAM sharedCandidate = false ∧ negativeCard.ramBootstrapInFlight = false ∧
    (admitSpec (RangeOrder.listed Site) negativeCard sharedCandidate).wait = true ∧
    Admissible negativeCard sharedCandidate smallOne ∧
    (admitSpec (RangeOrder.listed Site) { negativeCard with
      running := negativeCard.running.filter (fun r => !smallOne r) } sharedCandidate).ok = true :=
  ⟨uniform_of_bases _ (by decide),by decide,rfl,by decide +kernel,⟨by decide,by decide⟩,by decide +kernel⟩

end OnPremGateway.AdmissionSearch
