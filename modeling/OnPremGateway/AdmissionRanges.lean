import OnPremGateway.AdmissionVerdict

/-!
# The verdict does not see the order of the running set

A snapshot lists the running processes in the order of a map. The admission
sorts them first, every later walk follows that sort, and the two places that
range over a map of their own end in a choice no order can be seen in.
-/

set_option autoImplicit false

namespace OnPremGateway.AdmissionRanges
open RuntimeTypes AdmissionModel SliceOrder List Admission
open AdmissionOrder AdmissionSteps AdmissionRules
open AdmissionVerdict

section MapRanges
variable (ρ ρ' : Ranges)

theorem siblingsHighestFirst_range (caller : Caller) (procs : List RunningProc) :
    siblingsHighestFirst ρ caller procs = siblingsHighestFirst ρ' caller procs := by
  rw [siblingsHighestFirst_eq, siblingsHighestFirst_eq]

theorem orderVictims_range (caller : Caller) (a : Admission) (procs : List RunningProc) :
    a.orderVictims ρ caller procs = a.orderVictims ρ' caller procs :=
  siblingsHighestFirst_range ρ ρ' caller _

variable (snap : PolicySnapshot) (spec : Spec) (a : Admission)

theorem considerBlocker_range (base : String) (gpuIdx : List ℤ) :
    considerBlocker ρ snap base gpuIdx = considerBlocker ρ' snap base gpuIdx := by
  ext1 found
  ext1 r
  rw [considerBlocker, considerBlocker, procHasUnknownVRAM_range ρ ρ']

theorem refusal_range : refusal ρ snap spec = refusal ρ' snap spec := by
  simp only [refusal, pinnedUnknownOccupantRefusal, considerBlocker_range ρ ρ',
    firstUnknownGPU_range ρ ρ']

theorem blockOnKnown_range : blockOnKnown ρ = blockOnKnown ρ' := by
  ext1 s
  ext1 r
  simp only [blockOnKnown, procHasUnknownVRAM_range ρ ρ']

theorem ruleUnknownVRAMCandidate_range :
    a.ruleUnknownVRAMCandidate ρ = a.ruleUnknownVRAMCandidate ρ' := by
  simp only [ruleUnknownVRAMCandidate, bootstrapEvictTouchers,
    blockOnKnownTouchers, blockOnKnown_range ρ ρ', procHasUnknownVRAM_range ρ ρ']

theorem ruleUnknownVRAMOccupant_range :
    a.ruleUnknownVRAMOccupant ρ = a.ruleUnknownVRAMOccupant ρ' := by
  simp only [ruleUnknownVRAMOccupant, procHasUnknownVRAM_range ρ ρ']

theorem rulePerGPUVRAM_range : a.rulePerGPUVRAM ρ = a.rulePerGPUVRAM ρ' := by
  simp only [rulePerGPUVRAM, chargeGPUBudget, orderVictims_range ρ ρ']

theorem ruleHostRAM_range : a.ruleHostRAM ρ = a.ruleHostRAM ρ' := by
  simp only [ruleHostRAM, orderVictims_range ρ ρ']

theorem ruleProcessCount_range : a.ruleProcessCount ρ = a.ruleProcessCount ρ' := by
  simp only [ruleProcessCount, orderVictims_range ρ ρ']

theorem afterRules_range : afterRules ρ a = afterRules ρ' a := by
  rw [afterRules, ruleUnknownVRAMCandidate_range ρ ρ', ruleUnknownVRAMOccupant_range ρ ρ',
    rulePerGPUVRAM_range ρ ρ', ruleHostRAM_range ρ ρ', ruleProcessCount_range ρ ρ', afterRules]

/-- The victims are keyed by their ids, so the sort by age leaves no tie for
the order of the map to break. -/
theorem victims_range (hs : Sound a) : a.victims ρ = a.victims ρ' := by
  rw [victims, victims, siblingsHighestFirst_range ρ ρ']
  congr 1
  apply sortSlice_eq_of_perm olderFirst older_weakOrder
  · exact ((ρ.perm _ _).map _).trans ((ρ'.perm _ _).map _).symm
  intro x hx y hy hxy hyx
  have hkey : ∀ r ∈ (ρ.visit .toEvict a.toEvict.entries).map (fun e => e.2),
      a.toEvict.lookup r.specID = some r := by
    intro r hr
    obtain ⟨⟨id,v⟩,he,rfl⟩ := mem_map.mp hr
    have hl := AList.mem_lookup_iff.mpr ((RangeOrder.mem ρ _ _ _).mp he)
    exact (hs.entry id v hl).1 ▸ hl
  have hid := specID_eq_of_age x y hxy hyx
  exact Option.some.inj ((hkey x hx).symm.trans (hid ▸ hkey y hy))

theorem decide_range (hs : Sound a) (solelyByGrace : Bool) :
    a.decide ρ solelyByGrace = a.decide ρ' solelyByGrace := by
  rw [Admission.decide, Admission.decide, victims_range ρ ρ' a hs]

theorem afterRules_sound : Sound (afterRules ρ (newAdmission snap spec)) :=
  reach_sound _ _ (afterRules_reach ρ _) (newAdmission_sound snap spec)

theorem admitStepsGraceOff_range :
    admitStepsGraceOff ρ snap spec = admitStepsGraceOff ρ' snap spec := by
  rw [admitStepsGraceOff, admitStepsGraceOff, rulePipeline_eq, rulePipeline_eq,
    refusal_range ρ ρ', afterRules_range ρ ρ']
  cases refusal ρ' snap spec with
  | some dec => rfl
  | none => exact decide_range ρ ρ' _ (afterRules_sound ρ' snap spec) false

theorem blockedSolelyByGrace_range : a.blockedSolelyByGrace ρ = a.blockedSolelyByGrace ρ' := by
  rw [blockedSolelyByGrace, blockedSolelyByGrace,
    admitStepsGraceOff_range ρ.rerun ρ'.rerun]

theorem admitSpec_range : admitSpec ρ snap spec = admitSpec ρ' snap spec := by
  have h : admitSteps ρ snap spec = admitSteps ρ' snap spec := by
    rw [admitSteps, admitSteps, rulePipeline_eq, rulePipeline_eq, refusal_range ρ ρ',
      afterRules_range ρ ρ']
    cases refusal ρ' snap spec with
    | some dec => rfl
    | none =>
      simp only
      rw [blockedSolelyByGrace_range ρ ρ', decide_range ρ ρ' _ (afterRules_sound ρ' snap spec)]
  rw [admitSpec, admitSpec, h]

end MapRanges

section RunningSet
variable (ρ : Ranges) (rs : List RunningProc)

def reseat (a : Admission) : Admission := { a with snap := { a.snap with running := rs } }

theorem foldl_reseat {α : Type*} (f : Admission → α → Admission)
    (hf : ∀ a x, f (reseat rs a) x = reseat rs (f a x)) (xs : List α) (a : Admission) :
    xs.foldl f (reseat rs a) = reseat rs (xs.foldl f a) := by
  induction xs generalizing a with
  | nil => rfl
  | cons x xs ih => rw [foldl_cons, foldl_cons, hf, ih]

variable (snap : PolicySnapshot) (spec : Spec) (a : Admission)

theorem queueOrBlock_reseat (r : RunningProc) :
    (reseat rs a).queueOrBlock r = reseat rs (a.queueOrBlock r) := by
  rw [queueOrBlock, queueOrBlock, apply_ite (reseat rs)]
  rfl

theorem ruleMatrix_reseat : (reseat rs a).ruleMatrix = reseat rs a.ruleMatrix := by
  apply foldl_reseat
  intro a r
  rw [queueOrBlock_reseat, apply_ite (reseat rs)]
  rfl

theorem bootstrapEvictTouchers_reseat :
    (reseat rs a).bootstrapEvictTouchers ρ = reseat rs (a.bootstrapEvictTouchers ρ) := by
  apply foldl_reseat
  intro a r
  rw [apply_ite (reseat rs), apply_ite (reseat rs)]
  rfl

theorem foldl_blockOnKnown_reseat (ps : List RunningProc) (a : Admission)
    (found : Option (String × ℤ)) : ps.foldl (blockOnKnown ρ) (reseat rs a, found) =
      (reseat rs (ps.foldl (blockOnKnown ρ) (a, found)).1,
        (ps.foldl (blockOnKnown ρ) (a, found)).2) := by
  induction ps generalizing a found with
  | nil => rfl
  | cons r ps ih =>
    have hr : blockOnKnown ρ (reseat rs a, found) r =
        (reseat rs (blockOnKnown ρ (a, found) r).1, (blockOnKnown ρ (a, found) r).2) := by
      have hidx : (reseat rs a).gpuIdx = a.gpuIdx := rfl
      rw [blockOnKnown, blockOnKnown]
      simp only [hidx]
      cases firstSharedGPU r a.gpuIdx with
      | none => rfl
      | some gpu =>
        cases procHasUnknownVRAM ρ r with
        | true => rfl
        | false => cases found <;> rfl
    rw [foldl_cons, foldl_cons, hr]
    exact ih _ _

theorem ruleUnknownVRAMCandidate_reseat :
    (reseat rs a).ruleUnknownVRAMCandidate ρ = reseat rs (a.ruleUnknownVRAMCandidate ρ) := by
  have hblock : (reseat rs a).blockOnKnownTouchers ρ = reseat rs (a.blockOnKnownTouchers ρ) := by
    have h := foldl_blockOnKnown_reseat ρ rs a.running a none
    have hrun : (reseat rs a).running = a.running := rfl
    rw [blockOnKnownTouchers, blockOnKnownTouchers, hrun, h]
    obtain ⟨b,found⟩ := a.running.foldl (blockOnKnown ρ) (a, none)
    cases found <;> rfl
  rw [ruleUnknownVRAMCandidate, ruleUnknownVRAMCandidate, hblock,
    bootstrapEvictTouchers_reseat, apply_ite (reseat rs), apply_ite (reseat rs)]
  rfl

theorem ruleUnknownVRAMOccupant_reseat :
    (reseat rs a).ruleUnknownVRAMOccupant ρ = reseat rs (a.ruleUnknownVRAMOccupant ρ) := by
  apply foldl_reseat
  intro a r
  rw [queueOrBlock_reseat, apply_ite (reseat rs)]
  rfl

theorem drawVictims_reseat (done : ℤ → Bool) (account : ℤ → RunningProc → ℤ) (a : Admission)
    (n : ℤ) (ps : List RunningProc) : drawVictims done account (reseat rs a) n ps =
      (reseat rs (drawVictims done account a n ps).1, (drawVictims done account a n ps).2) := by
  induction ps generalizing a n with
  | nil => rfl
  | cons r ps ih =>
    rw [drawVictims, drawVictims]
    by_cases hd : done n = true
    · rw [if_pos hd, if_pos hd]
    rw [if_neg hd, if_neg hd]
    by_cases he : a.evictable r = true
    · rw [if_pos he, if_pos (show (reseat rs a).evictable r = true from he)]
      exact ih (a.queue r) _
    · rw [if_neg he, if_neg (show ¬(reseat rs a).evictable r = true from he)]
      exact ih a n

theorem chargeGPUBudget_reseat (g : SpecGPU) :
    (reseat rs a).chargeGPUBudget ρ g = reseat rs (a.chargeGPUBudget ρ g) := by
  simp only [chargeGPUBudget, drawVictims_reseat]
  rw [apply_ite (reseat rs), apply_ite (reseat rs), apply_ite (reseat rs), apply_ite (reseat rs)]
  rfl

theorem rulePerGPUVRAM_reseat : (reseat rs a).rulePerGPUVRAM ρ = reseat rs (a.rulePerGPUVRAM ρ) :=
  foldl_reseat rs _ (fun a g => chargeGPUBudget_reseat ρ rs a g) a.spec.gpus a

theorem ruleHostRAM_reseat : (reseat rs a).ruleHostRAM ρ = reseat rs (a.ruleHostRAM ρ) := by
  simp only [ruleHostRAM, drawVictims_reseat]
  rw [apply_ite (reseat rs), apply_ite (reseat rs), apply_ite (reseat rs), apply_ite (reseat rs),
    apply_ite (reseat rs)]
  rfl

theorem ruleProcessCount_reseat :
    (reseat rs a).ruleProcessCount ρ = reseat rs (a.ruleProcessCount ρ) := by
  simp only [ruleProcessCount, drawVictims_reseat]
  rw [apply_ite (reseat rs), apply_ite (reseat rs), apply_ite (reseat rs)]
  rfl

theorem afterRules_reseat : afterRules ρ (reseat rs a) = reseat rs (afterRules ρ a) := by
  rw [afterRules, ruleMatrix_reseat, ruleUnknownVRAMCandidate_reseat,
    ruleUnknownVRAMOccupant_reseat, rulePerGPUVRAM_reseat, ruleHostRAM_reseat,
    ruleProcessCount_reseat, afterRules]

theorem newAdmission_reseat (hp : snap.running.Perm rs)
    (hd : DistinctIDs snap.running) :
    newAdmission { snap with running := rs } spec = reseat rs (newAdmission snap spec) := by
  have hsort : sortSlice runsBefore (rs.filter (fun r => r.specID ≠ spec.id)) =
      sortSlice runsBefore (snap.running.filter (fun r => r.specID ≠ spec.id)) := by
    apply sortSlice_eq_of_perm runsBefore runs_weakOrder
    · exact (hp.filter _).symm
    intro x hx y hy hxy hyx
    apply eq_of_specID snap.running hd x y
    · exact hp.mem_iff.mpr (mem_of_mem_filter hx)
    · exact hp.mem_iff.mpr (mem_of_mem_filter hy)
    · exact specID_eq_of_run x y hxy hyx
  rw [newAdmission, newAdmission, reseat, hsort]

theorem refusal_reseat (hp : snap.running.Perm rs)
    (hd : DistinctIDs snap.running) :
    refusal ρ { snap with running := rs } spec = refusal ρ snap spec := by
  rw [refusal, newAdmission_reseat rs snap spec hp hd]
  rfl

theorem admitStepsGraceOff_reseat (hp : snap.running.Perm rs)
    (hd : DistinctIDs snap.running) :
    admitStepsGraceOff ρ { snap with running := rs } spec = admitStepsGraceOff ρ snap spec := by
  rw [admitStepsGraceOff, admitStepsGraceOff, rulePipeline_eq, rulePipeline_eq,
    refusal_reseat ρ rs snap spec hp hd, newAdmission_reseat rs snap spec hp hd, afterRules_reseat]
  cases refusal ρ snap spec <;> rfl

theorem admitSpec_reseat (hp : snap.running.Perm rs)
    (hd : DistinctIDs snap.running) :
    admitSpec ρ { snap with running := rs } spec = admitSpec ρ snap spec := by
  have hgrace := admitStepsGraceOff_reseat ρ.rerun rs { snap with evictionGrace := 0 } spec hp hd
  have hin := reach_sameInput _ _ (afterRules_reach ρ (newAdmission snap spec))
  have hsolely : (reseat rs (afterRules ρ (newAdmission snap spec))).blockedSolelyByGrace ρ =
      (afterRules ρ (newAdmission snap spec)).blockedSolelyByGrace ρ := by
    simp only [blockedSolelyByGrace, reseat, hin.snap, hin.spec]
    change (if snap.evictionGrace ≤ 0 then false else _) = if snap.evictionGrace ≤ 0 then false else _
    rw [show (newAdmission snap spec).snap = snap from rfl,
      show (newAdmission snap spec).spec = spec from rfl, ← hgrace]
  have h : admitSteps ρ { snap with running := rs } spec = admitSteps ρ snap spec := by
    rw [admitSteps, admitSteps, rulePipeline_eq, rulePipeline_eq,
      refusal_reseat ρ rs snap spec hp hd, newAdmission_reseat rs snap spec hp hd, afterRules_reseat]
    cases refusal ρ snap spec with
    | some dec => rfl
    | none =>
      simp only
      rw [hsolely]
      rfl
  rw [admitSpec, admitSpec, h]

end RunningSet

/-- Neither the order the running set is listed in nor the order in which the
program ranges over its maps can be seen in any part of the verdict. -/
theorem verdict_ignores_order (ρ ρ' : Ranges) (snap : PolicySnapshot) (rs : List RunningProc)
    (spec : Spec) (hp : snap.running.Perm rs) (hd : DistinctIDs snap.running) :
    admitSpec ρ' { snap with running := rs } spec = admitSpec ρ snap spec := by
  rw [admitSpec_reseat ρ' rs snap spec hp hd]
  exact admitSpec_range ρ' ρ snap spec

theorem verdict_on_reversed_card :
    admitSpec (RangeOrder.listed Site) { heldCard with running := heldCard.running.reverse }
      sharedCandidate = { evict := ["b#1", "b"] } := by
  rw [verdict_ignores_order (RangeOrder.listed Site) (RangeOrder.listed Site) heldCard _
    sharedCandidate (reverse_perm _).symm (by decide)]
  decide

end OnPremGateway.AdmissionRanges
