import OnPremGateway.AdmissionRules

/-!
# The meaning of an admission verdict

An admission is granted exactly when the demands of the candidate are met by
the processes that run beside it. An eviction list names processes whose
departure makes them met, and a wait is answered only if no processes that
may go, taken with their higher siblings, would have made them met.
-/

set_option autoImplicit false

namespace OnPremGateway.AdmissionVerdict
open SliceOrder RuntimeTypes AdmissionModel List Admission
open AdmissionOrder AdmissionSteps AdmissionRules

variable (ρ : Ranges) (a : Admission) (snap : PolicySnapshot) (spec : Spec) (r : RunningProc)
  (rs : List RunningProc)

/-- The demands of the candidate next to the processes `rs`, in the terms the
rules charge them in. -/
structure Met (snap : PolicySnapshot) (spec : Spec) (rs : List RunningProc) : Prop where
  matrix : ∀ r ∈ rs, pairAllowed snap.allowed (specBase spec) r = true
  alone : specHasUnknownVRAM spec = true → ∀ r ∈ rs, touchesAnyGPU r (specGPUIndexes spec) = false
  measured : ∀ r ∈ rs, (∃ i, r.gpus.lookup i = some 0) →
    touchesAnyGPU r (specGPUIndexes spec) = false
  cards : ∀ g ∈ spec.gpus, g.vramMB ≠ 0 → 0 < valueAt snap.budgets g.index →
    g.vramMB+(rs.map (figure g.index)).sum ≤ valueAt snap.budgets g.index
  ram : 0 < snap.hostRAMBudgetMB → snap.ramBootstrapInFlight = false ∧
    (0 < ramCharge snap spec → ramCharge snap spec+(rs.map heldRAM).sum ≤ snap.hostRAMBudgetMB)
  count : snap.maxProcesses ≤ 0 ∨ (rs.length : ℤ)+1 ≤ snap.maxProcesses

theorem met_perm (rs qs : List RunningProc)
    (hp : rs.Perm qs) (h : Met snap spec rs) : Met snap spec qs where
  matrix r hr := h.matrix r (hp.mem_iff.mpr hr)
  alone hu r hr := h.alone hu r (hp.mem_iff.mpr hr)
  measured r hr := h.measured r (hp.mem_iff.mpr hr)
  cards g hg hn hb := (hp.map (figure g.index)).sum_eq ▸ h.cards g hg hn hb
  ram hb := (hp.map heldRAM).sum_eq ▸ h.ram hb
  count := hp.length_eq ▸ h.count

def refusal (ρ : Ranges) (snap : PolicySnapshot) (spec : Spec) : Option Decision :=
  let a := newAdmission snap spec
  (ownDemandRefusal snap spec).or <| (ramOwnDemandRefusal snap spec).or <|
    (if a.unknownVRAM then pinnedUnknownCandidateRefusal a.running a.gpuIdx else none).or <|
      pinnedUnknownOccupantRefusal ρ snap spec a.running a.gpuIdx

def afterRules (ρ : Ranges) (a : Admission) : Admission :=
  (((((a.ruleMatrix).ruleUnknownVRAMCandidate ρ).ruleUnknownVRAMOccupant ρ).rulePerGPUVRAM
    ρ).ruleHostRAM ρ).ruleProcessCount ρ

theorem rulePipeline_eq : rulePipeline ρ snap spec = match refusal ρ snap spec with
      | some dec => .error dec
      | none => .ok (afterRules ρ (newAdmission snap spec)) := by
  simp only [rulePipeline, refusal, afterRules]
  cases ownDemandRefusal snap spec with
  | some dec => rfl
  | none =>
    cases ramOwnDemandRefusal snap spec with
    | some dec => rfl
    | none =>
      cases (if (newAdmission snap spec).unknownVRAM then pinnedUnknownCandidateRefusal
          (newAdmission snap spec).running (newAdmission snap spec).gpuIdx else none) with
      | some dec => rfl
      | none =>
        cases pinnedUnknownOccupantRefusal ρ snap spec (newAdmission snap spec).running
          (newAdmission snap spec).gpuIdx <;> rfl

structure Terminal (dec : Decision) : Prop where
  ok : dec.ok = false
  evict : dec.evict = []
  wait : dec.wait = false
  vramBootstrap : dec.vramBootstrap = false
  reason : dec.reason.isSome = true

theorem refusal_terminal (dec : Decision)
    (h : refusal ρ snap spec = some dec) : Terminal dec := by
  simp only [refusal, Option.or_eq_some_iff] at h
  rcases h with h | ⟨_,h | ⟨_,h | ⟨_,h⟩⟩⟩
  · obtain ⟨g,_,hg⟩ := exists_of_findSome?_eq_some h
    simp only at hg
    split_ifs at hg
    cases hg
    exact ⟨rfl,rfl,rfl,rfl,rfl⟩
  · rw [ramOwnDemandRefusal] at h
    simp only at h
    split_ifs at h
    cases h
    exact ⟨rfl,rfl,rfl,rfl,rfl⟩
  · split_ifs at h
    rw [pinnedUnknownCandidateRefusal] at h
    split_ifs at h
    cases h
    exact ⟨rfl,rfl,rfl,rfl,rfl⟩
  · rw [pinnedUnknownOccupantRefusal] at h
    split at h
    · cases h
    simp only at h
    split_ifs at h
    · cases h
      exact ⟨rfl,rfl,rfl,rfl,rfl⟩
    · cases h
      exact ⟨rfl,rfl,rfl,rfl,rfl⟩

theorem afterRules_reach : Reach a (afterRules ρ a) :=
  (ruleMatrix_reach a).trans <| (ruleUnknownVRAMCandidate_reach ρ _).trans <|
    (ruleUnknownVRAMOccupant_reach ρ _).trans <| (rulePerGPUVRAM_reach ρ _).trans <|
      (ruleHostRAM_reach ρ _).trans (ruleProcessCount_reach ρ _)

/-- The shapes of an answer, by what the pipeline came to. -/
theorem admitSteps_cases :
    (∃ dec, refusal ρ snap spec = some dec ∧ admitSteps ρ snap spec = dec ∧ Terminal dec) ∨
    (refusal ρ snap spec = none ∧ (afterRules ρ (newAdmission snap spec)).blocked = true ∧
      (admitSteps ρ snap spec).ok = false ∧ (admitSteps ρ snap spec).evict = [] ∧
      (admitSteps ρ snap spec).wait = true ∧ (admitSteps ρ snap spec).vramBootstrap = false) ∨
    (refusal ρ snap spec = none ∧ (afterRules ρ (newAdmission snap spec)).blocked = false ∧
      (afterRules ρ (newAdmission snap spec)).toEvict.keys.length = 0 ∧
      admitSteps ρ snap spec = { ok := true }) ∨
    (refusal ρ snap spec = none ∧ (afterRules ρ (newAdmission snap spec)).blocked = false ∧
      (afterRules ρ (newAdmission snap spec)).toEvict.keys.length ≠ 0 ∧ admitSteps ρ snap spec =
        { evict := ((afterRules ρ (newAdmission snap spec)).victims ρ).map RunningProc.specID
          vramBootstrap := (afterRules ρ (newAdmission snap spec)).bootstrapEvicted }) := by
  rw [admitSteps, rulePipeline_eq]
  cases hr : refusal ρ snap spec with
  | some dec => exact Or.inl ⟨dec,rfl,rfl,refusal_terminal ρ snap spec dec hr⟩
  | none =>
    right
    simp only [Admission.decide]
    cases hb : (afterRules ρ (newAdmission snap spec)).blocked with
    | true => simp
    | false =>
      right
      by_cases hk : (afterRules ρ (newAdmission snap spec)).toEvict.keys.length = 0
      · left
        simp [hk]
      · right
        simp [hk]

theorem victims_perm : (a.victims ρ).Perm (a.toEvict.entries.map (fun e => e.2)) :=
  ((siblingsHighestFirst_perm ρ .drain _).trans (sortSlice_perm _ _)).trans
    ((ρ.perm .toEvict _).map _)

theorem mem_victims : r ∈ a.victims ρ ↔ ∃ id, a.toEvict.lookup id = some r := by
  rw [(victims_perm ρ a).mem_iff, mem_map]
  constructor
  · rintro ⟨⟨id,s⟩,he,rfl⟩
    exact ⟨id,AList.mem_lookup_iff.mpr he⟩
  · rintro ⟨id,h⟩
    exact ⟨⟨id,r⟩,AList.mem_lookup_iff.mp h,rfl⟩

/-- The eviction list names the processes that were queued. -/
theorem mem_evict_iff (hs : Sound a) (r : RunningProc) :
    r.specID ∈ (a.victims ρ).map RunningProc.specID ↔ a.queued r = true := by
  rw [mem_map]
  constructor
  · rintro ⟨v,hv,hid⟩
    obtain ⟨id,hl⟩ := (mem_victims ρ a v).mp hv
    have he := (hs.entry id v hl).1
    rw [queued, ← hid, he, hl]
    rfl
  · intro hq
    obtain ⟨v,hv⟩ := Option.isSome_iff_exists.mp hq
    exact ⟨v,(mem_victims ρ a v).mpr ⟨_,hv⟩,(hs.entry _ v hv).1⟩

theorem admitSpec_ok : (admitSpec ρ snap spec).ok = (admitSteps ρ snap spec).ok := by
  cases hn : snap.noEvict with
  | false => simp [admitSpec, hn]
  | true =>
    cases hok : (admitSteps ρ snap spec).ok with
    | true => simp [admitSpec, hn, noEvictGate, hok]
    | false => simp [admitSpec, hn, noEvictGate, hok]

theorem admitSteps_ok_eq
    (h : (admitSteps ρ snap spec).ok = true) : admitSteps ρ snap spec = { ok := true } := by
  rcases admitSteps_cases ρ snap spec with ⟨dec,_,hd,ht⟩ | ⟨_,_,hok,_⟩ | ⟨_,_,_,hd⟩ | ⟨_,_,_,hd⟩
  · rw [hd, ht.ok] at h
    exact Bool.noConfusion h
  · rw [hok] at h
    exact Bool.noConfusion h
  · exact hd
  · rw [hd] at h
    exact Bool.noConfusion h

/-- Under the gate an answer evicts nobody and does not wait. -/
theorem noEvict_answer (hn : snap.noEvict = true) :
    (admitSpec ρ snap spec).evict = [] ∧ (admitSpec ρ snap spec).wait = false := by
  cases hok : (admitSteps ρ snap spec).ok with
  | true => simp [admitSpec, hn, noEvictGate, admitSteps_ok_eq ρ snap spec hok]
  | false => simp [admitSpec, hn, noEvictGate, hok]

theorem admitSpec_open
    (hn : snap.noEvict = false) : admitSpec ρ snap spec = admitSteps ρ snap spec := by
  simp [admitSpec, hn]

theorem evict_cases (h : (admitSpec ρ snap spec).evict ≠ []) :
    refusal ρ snap spec = none ∧ (afterRules ρ (newAdmission snap spec)).blocked = false ∧
      admitSpec ρ snap spec =
        { evict := ((afterRules ρ (newAdmission snap spec)).victims ρ).map RunningProc.specID
          vramBootstrap := (afterRules ρ (newAdmission snap spec)).bootstrapEvicted } := by
  cases hn : snap.noEvict with
  | true => exact absurd (noEvict_answer ρ snap spec hn).1 h
  | false =>
    rw [admitSpec_open ρ snap spec hn] at h ⊢
    rcases admitSteps_cases ρ snap spec with ⟨dec,_,hd,ht⟩ | ⟨_,_,_,he,_⟩ | ⟨_,_,_,hd⟩ | ⟨hr,hb,_,hd⟩
    · rw [hd] at h
      exact absurd ht.evict h
    · exact absurd he h
    · rw [hd] at h
      exact absurd rfl h
    · exact ⟨hr,hb,hd⟩

/-- A verdict that is a bootstrap evicts, and it was granted. -/
theorem bootstrap_cases (h : (admitSpec ρ snap spec).vramBootstrap = true) :
    snap.vramBootstrapEligible = true ∧ (admitSpec ρ snap spec).evict ≠ [] ∧
      (admitSpec ρ snap spec).noCapacity = false ∧ (admitSpec ρ snap spec).reason = none ∧
      (admitSpec ρ snap spec).wait = false := by
  have hne : (admitSpec ρ snap spec).evict ≠ [] := by
    cases hn : snap.noEvict with
    | true =>
      cases hok : (admitSteps ρ snap spec).ok with
      | true => simp [admitSpec, hn, noEvictGate, admitSteps_ok_eq ρ snap spec hok] at h
      | false => simp [admitSpec, hn, noEvictGate, hok] at h
    | false =>
      rw [admitSpec_open ρ snap spec hn] at h ⊢
      rcases admitSteps_cases ρ snap spec with
        ⟨dec,-,hd,ht⟩ | ⟨-,-,-,-,-,hv⟩ | ⟨-,-,-,hd⟩ | ⟨-,-,hk,hd⟩
      · rw [hd, ht.vramBootstrap] at h
        cases h
      · rw [hv] at h
        cases h
      · rw [hd] at h
        cases h
      · rw [hd]
        intro he
        have hl := (victims_perm ρ (afterRules ρ (newAdmission snap spec))).length_eq
        rw [map_eq_nil_iff.mp he] at hl
        simp only [length_nil, length_map] at hl
        rw [AList.keys, keys, length_map] at hk
        exact hk hl.symm
  obtain ⟨-,-,hd⟩ := evict_cases ρ snap spec hne
  refine ⟨?_,hne,?_⟩
  · rw [hd] at h
    exact reach_eligible _ _ (afterRules_reach ρ (newAdmission snap spec)) rfl h
  · rw [hd]
    exact ⟨rfl,rfl,rfl⟩

theorem wait_cases (h : (admitSpec ρ snap spec).wait = true) :
    (afterRules ρ (newAdmission snap spec)).blocked = true := by
  cases hn : snap.noEvict with
  | true =>
    rw [(noEvict_answer ρ snap spec hn).2] at h
    exact Bool.noConfusion h
  | false =>
    rw [admitSpec_open ρ snap spec hn] at h
    rcases admitSteps_cases ρ snap spec with ⟨dec,_,hd,ht⟩ | ⟨_,hb,_⟩ | ⟨_,_,_,hd⟩ | ⟨_,_,_,hd⟩
    · rw [hd, ht.wait] at h
      exact Bool.noConfusion h
    · exact hb
    · rw [hd] at h
      exact Bool.noConfusion h
    · rw [hd] at h
      exact Bool.noConfusion h

theorem ok_cases : (admitSpec ρ snap spec).ok = true ↔ refusal ρ snap spec = none ∧
      (afterRules ρ (newAdmission snap spec)).blocked = false ∧
      (afterRules ρ (newAdmission snap spec)).toEvict.keys.length = 0 := by
  rw [admitSpec_ok]
  rcases admitSteps_cases ρ snap spec with ⟨dec,hr,hd,ht⟩ | ⟨_,hb,hok,_⟩ | ⟨hr,hb,hk,hd⟩ | ⟨_,_,hk,hd⟩
  · simp [hd, hr, ht.ok]
  · simp [hok, hb]
  · simp [hd, hr, hb, hk]
  · simp only [hd, Bool.false_eq_true, false_iff, not_and]
    exact fun _ _ => hk

/-- Where the pipeline does not block, the processes that are not queued
leave the demands of the candidate met. -/
theorem remaining_met (ha : Made a) (hs : Sound a) (hb : (afterRules ρ a).blocked = false) :
    Met a.snap a.spec (afterRules ρ a).remaining := by
  -- The accumulators before each rule, from the last one back.
  set a1 := a.ruleMatrix with h1
  set a2 := a1.ruleUnknownVRAMCandidate ρ with h2
  set a3 := a2.ruleUnknownVRAMOccupant ρ with h3
  set a4 := a3.rulePerGPUVRAM ρ with h4
  set a5 := a4.ruleHostRAM ρ with h5
  set a6 := a5.ruleProcessCount ρ with h6
  change a6.blocked = false at hb
  change Met a.snap a.spec a6.remaining
  have r1 : Reach a a1 := ruleMatrix_reach a
  have r2 : Reach a a2 := r1.trans (ruleUnknownVRAMCandidate_reach ρ a1)
  have r3 : Reach a a3 := r2.trans (ruleUnknownVRAMOccupant_reach ρ a2)
  have r4 : Reach a a4 := r3.trans (rulePerGPUVRAM_reach ρ a3)
  have r5 : Reach a a5 := r4.trans (ruleHostRAM_reach ρ a4)
  have t5 : Reach a5 a6 := ruleProcessCount_reach ρ a5
  have t4 : Reach a4 a6 := (ruleHostRAM_reach ρ a4).trans t5
  have t3 : Reach a3 a6 := (rulePerGPUVRAM_reach ρ a3).trans t4
  have t2 : Reach a2 a6 := (ruleUnknownVRAMOccupant_reach ρ a2).trans t3
  have t1 : Reach a1 a6 := (ruleUnknownVRAMCandidate_reach ρ a1).trans t2
  have f1 := reach_sameInput _ _ r1
  have f2 := reach_sameInput _ _ r2
  have f3 := reach_sameInput _ _ r3
  have f4 := reach_sameInput _ _ r4
  have f5 := reach_sameInput _ _ r5
  have f6 := reach_sameInput _ _ (r5.trans t5)
  have hrun (r : RunningProc) (hr : r ∈ a6.remaining) : r ∈ a.running :=
    f6.running ▸ ((mem_remaining a6 r).mp hr).1
  -- what remains was queued by no rule
  have hleft {b : Admission} (h : Reach b a6) (r : RunningProc) (hr : r ∈ a6.remaining) :
      b.queued r ≠ true := by
    intro hq
    have hno := ((mem_remaining a6 r).mp hr).2
    rw [reach_queued _ _ h r hq] at hno
    cases hno
  have hknown : a.unknownVRAM = true → ∀ r ∈ a6.remaining, ¬knownToucher ρ a r := by
    intro hu r hr hk
    have hp := ruleUnknownVRAMCandidate_post ρ a1 (reach_blocked _ _ t2 hb) (f1.unknownVRAM.trans hu) r
      (f1.running ▸ hrun r hr) (by rw [knownToucher, f1.gpuIdx]; exact hk)
    exact hleft t2 r hr hp.2.1
  have hunknown : ∀ r ∈ a6.remaining, ¬unknownToucher ρ a r := by
    intro r hr hk
    have hp := ruleUnknownVRAMOccupant_post ρ a2 (reach_blocked _ _ t3 hb) r
      (f2.running ▸ hrun r hr) (by rw [unknownToucher, f2.gpuIdx]; exact hk)
    exact hleft t3 r hr hp
  constructor
  · intro r hr
    by_contra hp
    rw [Bool.not_eq_true, ← ha.base] at hp
    exact hleft t1 r hr (ruleMatrix_post a (reach_blocked _ _ t1 hb) r (hrun r hr) hp)
  · intro hu r hr
    rw [← ha.gpuIdx, ← Bool.not_eq_true]
    intro ht
    cases hp : procHasUnknownVRAM ρ r with
    | true => exact hunknown r hr ⟨ht,hp⟩
    | false => exact hknown (ha.unknownVRAM.trans hu) r hr ⟨ht,hp⟩
  · intro r hr hz
    rw [← ha.gpuIdx, ← Bool.not_eq_true]
    intro ht
    exact hunknown r hr ⟨ht,(procHasUnknownVRAM_iff ρ r).mpr hz⟩
  · intro g hg hne hbud
    have hp := rulePerGPUVRAM_post ρ a3.spec.gpus a3 (made_reach _ _ r3 ha) (fun _ h => h)
      (reach_blocked _ _ t4 hb) g (f3.spec ▸ hg) hne (f3.snap ▸ hbud)
    have hm := load_mono (figure g.index) a4 a6 t4 fun r hr =>
      figure_nonneg a.running ha.regular.nonneg g.index r (f4.running ▸ hr)
    rw [f3.snap] at hp
    change g.vramMB+load (figure g.index) a4 ≤ _ at hp
    change g.vramMB+load (figure g.index) a6 ≤ _
    omega
  · intro hbud
    have hp := ruleHostRAM_post ρ a4 (made_reach _ _ r4 ha) (f4.snap ▸ hbud)
      (reach_blocked _ _ t5 hb)
    rw [f4.snap, f4.spec] at hp
    refine ⟨hp.1,fun hc => ?_⟩
    have hm := load_mono heldRAM a5 a6 t5 fun r _ => heldRAM_nonneg r
    have hl := hp.2 hc
    change ramCharge a.snap a.spec+load heldRAM a5 ≤ _ at hl
    change ramCharge a.snap a.spec+load heldRAM a6 ≤ _
    omega
  · by_cases hmax : a.snap.maxProcesses ≤ 0
    · exact Or.inl hmax
    · right
      have hp := ruleProcessCount_post ρ a5 (reach_sound _ _ r5 hs)
        (f5.running ▸ ha.regular.distinct) (f5.snap ▸ not_le.mp hmax) hb
      rw [f5.snap] at hp
      have hl : load (fun _ => 1) a6 = a6.remaining.length := by simp [load]
      change load (fun _ => 1) a6+1 ≤ _ at hp
      omega

theorem foldl_keeps {α : Type*} (f : Admission → α → Admission) (xs : List α) (a : Admission)
    (h : ∀ x ∈ xs, f a x = a) : xs.foldl f a = a := by
  induction xs with
  | nil => rfl
  | cons x xs ih =>
    rw [foldl_cons, h x (by simp)]
    exact ih fun y hy => h y (by simp [hy])

theorem ruleUnknownVRAMCandidate_keeps
    (h : a.unknownVRAM = true → ∀ r ∈ a.running, touchesAnyGPU r a.gpuIdx = false) :
    a.ruleUnknownVRAMCandidate ρ = a := by
  rw [ruleUnknownVRAMCandidate]
  cases hu : a.unknownVRAM with
  | false => rfl
  | true =>
    have hboot : a.bootstrapEvictTouchers ρ = a := by
      apply foldl_keeps
      intro r hr
      simp [h hu r hr]
    have hblock : a.blockOnKnownTouchers ρ = a := by
      apply blockOnKnownTouchers_keeps
      intro r hr hknown
      rw [knownToucher, h hu r hr] at hknown
      exact Bool.noConfusion hknown.1
    simp [hboot, hblock]

theorem remaining_fresh (he : a.toEvict.keys.length = 0) : a.remaining = a.running := by
  rw [remaining, filter_eq_self]
  intro r _
  have hk : a.toEvict.keys = [] := length_eq_zero_iff.mp he
  have hq : a.queued r = false := by
    rw [queued, ← Bool.not_eq_true, AList.lookup_isSome, AList.mem_keys, hk]
    simp
  simp [hq]

/-- Next to processes that leave its demands met, no rule does anything. -/
theorem afterRules_keeps (ha : Made a)
    (he : a.toEvict.keys.length = 0) (h : Met a.snap a.spec a.running) : afterRules ρ a = a := by
  have hrem := remaining_fresh a he
  have h1 : a.ruleMatrix = a := by
    apply foldl_keeps
    intro r hr
    rw [ha.base, if_pos (h.matrix r hr)]
  have h2 : a.ruleUnknownVRAMCandidate ρ = a := by
    apply ruleUnknownVRAMCandidate_keeps
    rw [ha.unknownVRAM, ha.gpuIdx]
    exact h.alone
  have h3 : a.ruleUnknownVRAMOccupant ρ = a := by
    apply foldl_keeps
    intro r hr
    cases hu : procHasUnknownVRAM ρ r with
    | false => simp
    | true => simp [ha.gpuIdx, h.measured r hr ((procHasUnknownVRAM_iff ρ r).mp hu)]
  have h4 : a.rulePerGPUVRAM ρ = a := by
    apply foldl_keeps
    intro g hg
    apply chargeGPUBudget_keeps ρ a g ha hg
    rw [load, hrem]
    exact h.cards g hg
  have h5 : a.ruleHostRAM ρ = a := by
    apply ruleHostRAM_keeps ρ a ha
    rw [load, hrem]
    exact h.ram
  rw [afterRules, h1, h2, h3, h4, h5]
  exact ruleProcessCount_keeps ρ a h.count

theorem foldl_considerBlocker (base : String) (idx : List ℤ)
    (rs : List RunningProc)
    (h : ∀ r ∈ rs, (∃ i, r.gpus.lookup i = some 0) → touchesAnyGPU r idx = false) :
    rs.foldl (considerBlocker ρ snap base idx) none = none := by
  induction rs with
  | nil => rfl
  | cons r rs ih =>
    have hr : considerBlocker ρ snap base idx none r = none := by
      rw [considerBlocker]
      split
      · rfl
      rename_i hc
      have hu : procHasUnknownVRAM ρ r = true := by
        simp only [Bool.or_eq_true, not_or, Bool.not_eq_true', Bool.not_eq_false] at hc
        exact hc.2
      have ht := h r (by simp) ((procHasUnknownVRAM_iff ρ r).mp hu)
      rw [touchesAnyGPU, Option.isSome_eq_false_iff, Option.isNone_iff_eq_none] at ht
      rw [ht]
    rw [foldl_cons, hr]
    exact ih fun o ho => h o (by simp [ho])

theorem refusal_none (hn : NonNegative (others snap spec)) (h : Met snap spec (others snap spec)) :
    refusal ρ snap spec = none := by
  have hmem : ∀ r, r ∈ (newAdmission snap spec).running ↔ r ∈ others snap spec :=
    fun r => (newAdmission_perm snap spec).mem_iff
  simp only [refusal, Option.or_eq_none_iff]
  refine ⟨?_,?_,?_,?_⟩
  · rw [ownDemandRefusal, findSome?_eq_none_iff]
    intro g hg
    simp only
    split_ifs with h0 hb hover
    · rfl
    · rfl
    · exfalso
      have hc := h.cards g hg h0 (not_le.mp hb)
      have hs := sum_le_of_subperm (figure g.index) [] (others snap spec) nil_subperm
        (figure_nonneg (others snap spec) hn g.index)
      rw [map_nil, sum_nil] at hs
      omega
    · rfl
  · rw [ramOwnDemandRefusal]
    simp only
    split_ifs with hz hfit
    · rfl
    · rfl
    · exfalso
      rw [not_or, not_le, not_le] at hz
      have hr := (h.ram hz.1).2
      have hch : ramCharge snap spec = spec.ramMB := by
        have hne : specHasUnknownRAM spec = false := by
          rw [specHasUnknownRAM, decide_eq_false_iff_not]
          omega
        simp [ramCharge, hne]
      rw [hch] at hr
      have hs := sum_le_of_subperm heldRAM [] (others snap spec) nil_subperm
        fun r _ => heldRAM_nonneg r
      rw [map_nil, sum_nil] at hs
      have := hr hz.2
      omega
  · split_ifs with hu
    · rw [pinnedUnknownCandidateRefusal, if_neg]
      rw [any_eq_true]
      rintro ⟨r,hr,hp⟩
      obtain ⟨_,hp⟩ := (Bool.and_eq_true_iff ..).mp hp
      have ht : touchesAnyGPU r (newAdmission snap spec).gpuIdx = false :=
        h.alone hu r ((hmem r).mp hr)
      rw [ht] at hp
      exact Bool.noConfusion hp
    · rfl
  · rw [pinnedUnknownOccupantRefusal, foldl_considerBlocker]
    intro r hr hz
    exact h.measured r ((hmem r).mp hr) hz

/-- An admission is granted exactly when the demands of the candidate are met. -/
theorem ok_iff_met (hreg : Regular snap spec (others snap spec)) :
    (admitSpec ρ snap spec).ok = true ↔ Met snap spec (others snap spec) := by
  have hm := newAdmission_made snap spec hreg
  have hp := newAdmission_perm snap spec
  rw [ok_cases]
  constructor
  · rintro ⟨_,hb,hk⟩
    have hmet := remaining_met ρ (newAdmission snap spec) hm (newAdmission_sound snap spec) hb
    rw [remaining_fresh _ hk, (reach_sameInput _ _ (afterRules_reach ρ _)).running] at hmet
    exact met_perm snap spec _ _ hp hmet
  · intro h
    have hk := afterRules_keeps ρ (newAdmission snap spec) hm rfl (met_perm snap spec _ _ hp.symm h)
    rw [hk]
    exact ⟨refusal_none ρ snap spec hreg.nonneg h,rfl,rfl⟩

/-- The demands of the candidate, row by row and pool by pool. -/
structure Fits (snap : PolicySnapshot) (spec : Spec) (rs : List RunningProc) : Prop where
  matrix : ∀ r ∈ rs, baseOf r = specBase spec ∨
    snap.allowed.lookup (pairKey (specBase spec) (baseOf r)) = some true
  alone : (∃ g ∈ spec.gpus, g.vramMB = 0) → ∀ r ∈ rs, ∀ g ∈ spec.gpus, r.gpus.lookup g.index = none
  measured : ∀ r ∈ rs, (∃ i, r.gpus.lookup i = some 0) → ∀ g ∈ spec.gpus,
    r.gpus.lookup g.index = none
  cards : ∀ g ∈ spec.gpus, 0 < g.vramMB → 0 < valueAt snap.budgets g.index →
    g.vramMB+((rs.filter (fun r => occupies r g.index)).map
      (fun r => valueAt r.gpus g.index)).sum ≤ valueAt snap.budgets g.index
  ram : 0 < snap.hostRAMBudgetMB → snap.ramBootstrapInFlight = false ∧
    (0 < (if spec.ramMB = 0 then snap.ramBootstrapGuessMB else spec.ramMB) →
      (if spec.ramMB = 0 then snap.ramBootstrapGuessMB else spec.ramMB) +
        ((rs.filter (fun r => 0 < r.ramMB)).map RunningProc.ramMB).sum ≤ snap.hostRAMBudgetMB)
  count : snap.maxProcesses ≤ 0 ∨ (rs.length : ℤ)+1 ≤ snap.maxProcesses

theorem touches_none_iff (spec : Spec) : touchesAnyGPU r (specGPUIndexes spec) = false ↔
      ∀ g ∈ spec.gpus, r.gpus.lookup g.index = none := by
  rw [← Bool.not_eq_true, touchesAnyGPU_iff, specGPUIndexes]
  simp [Option.isSome_iff_ne_none]

theorem pairAllowed_iff :
    pairAllowed snap.allowed (specBase spec) r = true ↔ baseOf r = specBase spec ∨
      snap.allowed.lookup (pairKey (specBase spec) (baseOf r)) = some true := by
  rw [pairAllowed, Bool.or_eq_true, decide_eq_true_eq]
  cases snap.allowed.lookup (pairKey (specBase spec) (baseOf r)) <;> simp

theorem ramCharge_eq :
    ramCharge snap spec = if spec.ramMB = 0 then snap.ramBootstrapGuessMB else spec.ramMB := by
  simp [ramCharge, specHasUnknownRAM]

theorem positive_ram :
    ((rs.filter (fun r => 0 < r.ramMB)).map RunningProc.ramMB).sum = (rs.map heldRAM).sum := by
  rw [← ram_sum]
  simp only [← not_le, decide_not]

theorem fits_iff_met
    (hg : ∀ g ∈ spec.gpus, 0 ≤ g.vramMB) : Fits snap spec rs ↔ Met snap spec rs := by
  have hcards : ∀ g : SpecGPU, ((rs.filter (fun r => occupies r g.index)).map
      (fun r => valueAt r.gpus g.index)).sum = (rs.map (figure g.index)).sum := fun g =>
    sum_filter (figure g.index) (fun r => occupies r g.index) rs fun r _ =>
      figure_unoccupied g.index r
  constructor
  · intro h
    refine ⟨?_,?_,?_,?_,?_,h.count⟩
    · exact fun r hr => (pairAllowed_iff snap spec r).mpr (h.matrix r hr)
    · exact fun hu r hr => (touches_none_iff r spec).mpr
        (h.alone ((specHasUnknownVRAM_iff spec).mp hu) r hr)
    · exact fun r hr hz => (touches_none_iff r spec).mpr (h.measured r hr hz)
    · intro g hgs hne hb
      rw [← hcards]
      exact h.cards g hgs (lt_of_le_of_ne (hg g hgs) hne.symm) hb
    · rw [ramCharge_eq, ← positive_ram]
      exact h.ram
  · intro h
    refine ⟨?_,?_,?_,?_,?_,h.count⟩
    · exact fun r hr => (pairAllowed_iff snap spec r).mp (h.matrix r hr)
    · exact fun hu r hr => (touches_none_iff r spec).mp
        (h.alone ((specHasUnknownVRAM_iff spec).mpr hu) r hr)
    · exact fun r hr hz => (touches_none_iff r spec).mp (h.measured r hr hz)
    · intro g hgs hpos hb
      rw [hcards]
      exact h.cards g hgs hpos.ne' hb
    · rw [← ramCharge_eq, positive_ram]
      exact h.ram

/-- An admission is granted exactly when, next to the processes other than
the candidate's own, every demand of the candidate is met. -/
theorem granted_iff_fits (ρ : Ranges) (snap : PolicySnapshot) (spec : Spec)
    (hreg : Regular snap spec (others snap spec)) (hg : ∀ g ∈ spec.gpus, 0 ≤ g.vramMB) :
    (admitSpec ρ snap spec).ok = true ↔ Fits snap spec (others snap spec) := by
  rw [fits_iff_met snap spec (others snap spec) hg]
  exact ok_iff_met ρ snap spec hreg

def sharedCard : PolicySnapshot where
  running := [{ specID := "b", gpus := (∅ : IntMap).insert 0 4000, ramMB := 300 }]
  maxProcesses := 2
  budgets := (∅ : IntMap).insert 0 10000
  hostRAMBudgetMB := 1000
  allowed := (∅ : AList (fun _ : String × String => Bool)).insert ("a", "b") true

def sharedCandidate : Spec := { id := "a", gpus := [⟨0, 5000⟩], ramMB := 700 }

theorem granted_on_shared_card : (admitSpec (RangeOrder.listed Site) sharedCard sharedCandidate).ok = true ∧
    Fits sharedCard sharedCandidate (others sharedCard sharedCandidate) := by
  have hok : (admitSpec (RangeOrder.listed Site) sharedCard sharedCandidate).ok = true := by decide
  exact ⟨hok,(granted_iff_fits (RangeOrder.listed Site) sharedCard sharedCandidate
    ⟨by decide,by decide,by decide,by decide⟩ (by decide)).mp hok⟩

def fullCard (running : List RunningProc) : PolicySnapshot where
  running := running
  budgets := (∅ : IntMap).insert 0 10
  maxProcesses := 2
  allowed := ((∅ : AList (fun _ : String × String => Bool)).insert ("a", "b") true).insert ("a", "c") true
  now := 100

def smallCandidate : Spec := { id := "a", gpus := [⟨0, 1⟩] }

/-- Beside the largest int the sum wraps, and the candidate is granted a full
card. -/
theorem granted_by_wrapped_sum :
    let snap := fullCard [{ specID := "b", gpus := (∅ : IntMap).insert 0 (2^63-1), inFlight := 1 }]
    DistinctIDs snap.running ∧ NonNegative snap.running ∧
      (admitSpec (RangeOrder.listed Site) snap smallCandidate).ok = true ∧
      ¬Fits snap smallCandidate (others snap smallCandidate) := by
  refine ⟨by decide,by decide,by decide +kernel,fun h => ?_⟩
  exact absurd (h.cards ⟨0, 1⟩ (by decide) (by decide) (by decide)) (by decide +kernel)

/-- The snapshot once the named processes are gone, with the grant set anew. -/
def retrySnapshot (snap : PolicySnapshot) (evict : List String) (eligible : Bool) : PolicySnapshot :=
  { snap with running := snap.running.filter (fun r => r.specID ∉ evict)
              vramBootstrapEligible := eligible }

/-- An eviction list is enough: once exactly the named processes are gone,
the same question is answered with a grant that evicts nobody. -/
theorem evict_then_retry (ρ ρ' : Ranges) (snap : PolicySnapshot) (spec : Spec)
    (hreg : Regular snap spec (others snap spec)) (eligible : Bool)
    (he : (admitSpec ρ snap spec).evict ≠ []) :
    ((admitSpec ρ snap spec).ok = false ∧ (admitSpec ρ snap spec).wait = false ∧
      (admitSpec ρ snap spec).reason = none ∧ (admitSpec ρ snap spec).noCapacity = false) ∧
    admitSpec ρ' (retrySnapshot snap (admitSpec ρ snap spec).evict eligible) spec =
      { ok := true } := by
  obtain ⟨_,hb,hdec⟩ := evict_cases ρ snap spec he
  refine ⟨by rw [hdec]; exact ⟨rfl,rfl,rfl,rfl⟩,?_⟩
  set a := newAdmission snap spec with ha
  set z := afterRules ρ a with hz
  have hreach : Reach a z := afterRules_reach ρ a
  have hsound : Sound z := reach_sound _ _ hreach (newAdmission_sound snap spec)
  have hp := newAdmission_perm snap spec
  have hmet : Met snap spec z.remaining :=
    remaining_met ρ a (newAdmission_made snap spec hreg) (newAdmission_sound snap spec) hb
  set retry := retrySnapshot snap (admitSpec ρ snap spec).evict eligible with hretry
  -- Naming the evicted processes and not queueing them are the same filter.
  have hsame : z.remaining.Perm (others retry spec) := by
    rw [remaining, (reach_sameInput _ _ hreach).running]
    refine (hp.filter _).trans ?_
    rw [others, others, hretry, retrySnapshot, filter_filter, filter_filter]
    apply List.Perm.of_eq
    apply filter_congr
    intro r _
    have hq := mem_evict_iff ρ z hsound r
    rw [hdec]
    cases hqr : z.queued r with
    | true => simp [hq.mpr hqr]
    | false =>
      have hnot : r.specID ∉ (z.victims ρ).map RunningProc.specID := by
        rw [hq, hqr]
        exact Bool.false_ne_true
      simp [hnot]
  have hok : (admitSpec ρ' retry spec).ok = true := by
    apply (ok_iff_met ρ' retry spec _).mpr
    · exact met_perm _ _ _ _ hsame ⟨hmet.matrix,hmet.alone,hmet.measured,hmet.cards,hmet.ram,hmet.count⟩
    · exact hreg.subperm ((filter_sublist).filter _).subperm rfl
  have hsteps := admitSteps_ok_eq ρ' retry spec ((admitSpec_ok ρ' retry spec) ▸ hok)
  simp [admitSpec, noEvictGate, hsteps]

def heldCard : PolicySnapshot where
  running := [{ specID := "b", spec := "b", gpus := (∅ : IntMap).insert 0 4000, lastUsed := 5 },
    { specID := "b#1", spec := "b", instanceIdx := 1, gpus := (∅ : IntMap).insert 0 4000
      lastUsed := 9 }]
  budgets := (∅ : IntMap).insert 0 10000
  now := 100

theorem retry_on_held_card :
    (admitSpec (RangeOrder.listed Site) heldCard sharedCandidate).evict = ["b#1", "b"] ∧
    admitSpec (RangeOrder.listed Site) (retrySnapshot heldCard ["b#1", "b"] true) sharedCandidate =
      { ok := true } := by
  have he : (admitSpec (RangeOrder.listed Site) heldCard sharedCandidate).evict = ["b#1", "b"] := by
    decide
  have h := (evict_then_retry (RangeOrder.listed Site) (RangeOrder.listed Site) heldCard
    sharedCandidate ⟨by decide,by decide,by decide,by decide⟩ true (by rw [he]; simp)).2
  rw [he] at h
  exact ⟨he,h⟩

/-- The sum wraps while both run, so only the count draws; once the idle one is
gone the sum is the largest int, and the candidate waits. -/
theorem retry_after_wrapped_sum :
    let snap := fullCard [{ specID := "b", gpus := (∅ : IntMap).insert 0 (2^63-2), inFlight := 1 },
      { specID := "c", gpus := (∅ : IntMap).insert 0 1 }]
    DistinctIDs snap.running ∧ NonNegative snap.running ∧
      (admitSpec (RangeOrder.listed Site) snap smallCandidate).evict = ["c"] ∧
      (admitSpec (RangeOrder.listed Site) (retrySnapshot snap ["c"] false) smallCandidate).wait = true := by
  refine ⟨by decide,by decide,by decide +kernel,by decide +kernel⟩

end OnPremGateway.AdmissionVerdict
