import OnPremGateway.AdmissionModel

/-!
# The orders of the admission policy

Every comparison of the policy compares keys of a linear order that end in
the spec id, so no two distinct processes tie. Instances of one spec then
take the places of that spec highest index first. Neither the range over the
slots nor the range over the cards of an occupant can be seen in a result.
-/

set_option autoImplicit false

namespace OnPremGateway.AdmissionOrder
open SliceOrder RuntimeTypes AdmissionModel List

variable (ρ : Ranges) (r : RunningProc) (caller : Caller) (procs : List RunningProc)

def ageKey (r : RunningProc) : ℤ ×ₗ String := toLex (r.lastUsed, r.specID)

def rankKey (r : RunningProc) : ℤ ×ₗ String := toLex (-r.instanceIdx, r.specID)

def runKey (r : RunningProc) : String ×ₗ (ℤ ×ₗ String) := toLex (baseOf r, rankKey r)

variable (a b : RunningProc)

theorem olderFirst_iff : olderFirst a b = true ↔ ageKey a < ageKey b := by
  simp only [olderFirst, ageKey, Prod.Lex.toLex_lt_toLex]
  split
  · rename_i h
    simp [h]
  · rename_i h
    rw [not_not] at h
    simp [h]

theorem higherFirst_iff : higherFirst a b = true ↔ rankKey a < rankKey b := by
  simp only [higherFirst, rankKey, Prod.Lex.toLex_lt_toLex]
  split
  · rename_i h
    simp [h]
  · rename_i h
    rw [not_not] at h
    simp [h]

theorem runsBefore_iff : runsBefore a b = true ↔ runKey a < runKey b := by
  simp only [runsBefore, runKey, Prod.Lex.toLex_lt_toLex]
  split
  · rename_i h
    simp [h]
  · rename_i h
    rw [not_not] at h
    simp [h, higherFirst_iff]

theorem older_weakOrder : WeakOrder olderFirst := weakOrder_of_key _ ageKey olderFirst_iff

theorem runs_weakOrder : WeakOrder runsBefore := weakOrder_of_key _ runKey runsBefore_iff

theorem instance_le_of_higherFirst (h : higherFirst b a = false) :
    b.instanceIdx ≤ a.instanceIdx := by
  rw [← Bool.not_eq_true, higherFirst_iff, not_lt, rankKey, rankKey, Prod.Lex.toLex_le_toLex] at h
  rcases h with h | ⟨h,_⟩
  · simp only at h
    omega
  · simp only at h
    omega

theorem specID_eq_of_age (hab : olderFirst a b = false)
    (hba : olderFirst b a = false) : a.specID = b.specID := by
  have h := key_eq_of_key _ ageKey olderFirst_iff a b hab hba
  rw [ageKey, ageKey, toLex_inj, Prod.mk.injEq] at h
  exact h.2

theorem specID_eq_of_run (hab : runsBefore a b = false)
    (hba : runsBefore b a = false) : a.specID = b.specID := by
  have h := key_eq_of_key _ runKey runsBefore_iff a b hab hba
  rw [runKey, runKey, toLex_inj, Prod.mk.injEq, rankKey, rankKey, toLex_inj, Prod.mk.injEq] at h
  exact h.2.2

/-- Distinct ids, so that a process is known by its key. -/
def DistinctIDs (rs : List RunningProc) : Prop := (rs.map RunningProc.specID).Nodup

theorem eq_of_specID (rs : List RunningProc) (hd : DistinctIDs rs) (a b : RunningProc)
    (ha : a ∈ rs) (hb : b ∈ rs) (h : a.specID = b.specID) : a = b :=
  inj_on_of_nodup_map hd ha hb h

theorem reorderSlots_eq (procs ps : List RunningProc) (base : String)
    (h : ps.map baseOf = procs.map baseOf) :
    reorderSlots ps (base, slotsFrom (fun r => baseOf r = base) procs 0) =
      refill (fun r => baseOf r = base) ps (sortSlice higherFirst (group baseOf base ps)) := by
  rw [reorderSlots, slotsFrom_congr baseOf base procs ps 0 h.symm]
  split
  · rename_i hlt
    rw [slotsFrom_length] at hlt
    have hs : sortSlice higherFirst (group baseOf base ps) = group baseOf base ps := by
      -- A group of at most one member is already in order.
      unfold group
      rcases hg : ps.filter (fun r => baseOf r = base) with _ | ⟨r,_ | ⟨s,rest⟩⟩
      · rfl
      · rfl
      · simp [hg] at hlt
    rw [hs]
    exact (refill_self _ ps).symm
  · simp only [readSlots_eq_filter, writeSlots_eq_refill, group]

theorem foldl_reorderSlots (procs ps : List RunningProc) (bases : List String)
    (h : ps.map baseOf = procs.map baseOf) :
    (bases.map (fun base => (base, slotsFrom (fun r => baseOf r = base) procs 0))).foldl
      reorderSlots ps = sortGroups baseOf higherFirst bases ps := by
  induction bases generalizing ps with
  | nil => rfl
  | cons base bases ih =>
    rw [map_cons, foldl_cons, reorderSlots_eq procs ps base h, sortGroups, foldl_cons]
    apply ih
    rw [← h]
    exact sortGroups_keys baseOf higherFirst [base] ps

/-- Whatever order the slots are visited in, each spec's instances end up
highest first in the places that spec held. -/
theorem siblingsHighestFirst_eq : siblingsHighestFirst ρ caller procs =
      sortGroups baseOf higherFirst (procs.map baseOf).dedup procs := by
  have hp := ρ.perm (.slots caller) (slotsOf procs)
  have hl : ρ.visit (.slots caller) (slotsOf procs) =
      ((ρ.visit (.slots caller) (slotsOf procs)).map Prod.fst).map
        (fun base => (base, slotsFrom (fun r => baseOf r = base) procs 0)) := by
    rw [map_map]
    conv_lhs => rw [← map_id (ρ.visit (.slots caller) (slotsOf procs))]
    apply map_congr_left
    intro slot hs
    rw [RangeOrder.mem, slotsOf, mem_map] at hs
    obtain ⟨base,_,rfl⟩ := hs
    rfl
  have hk : ((ρ.visit (.slots caller) (slotsOf procs)).map Prod.fst).Perm
      (procs.map baseOf).dedup := by
    have hm := hp.map Prod.fst
    rw [slotsOf, map_map] at hm
    simpa [Function.comp_def, slotsOf] using hm
  rw [siblingsHighestFirst, hl, foldl_reorderSlots procs procs _ rfl]
  exact sortGroups_eq_of_perm baseOf higherFirst _ _ (hk.nodup_iff.mpr (nodup_dedup _)) hk procs

theorem siblingsHighestFirst_perm : (siblingsHighestFirst ρ caller procs).Perm procs := by
  rw [siblingsHighestFirst_eq]
  exact sortGroups_perm baseOf higherFirst _ (nodup_dedup _) procs

def HighestFirst (rs : List RunningProc) : Prop :=
  rs.Pairwise (fun a b => baseOf a = baseOf b → b.instanceIdx ≤ a.instanceIdx)

theorem siblingsHighestFirst_highestFirst : HighestFirst (siblingsHighestFirst ρ caller procs) := by
  rw [siblingsHighestFirst_eq]
  have hg : (sortGroups baseOf higherFirst (procs.map baseOf).dedup procs).Pairwise
      (fun a b => baseOf a = baseOf b → higherFirst b a = false) := by
    apply pairwise_of_groups
    intro k
    rw [sortGroups_group baseOf higherFirst _ (nodup_dedup _)]
    split
    · exact sortSlice_sorted higherFirst (weakOrder_of_key _ rankKey higherFirst_iff) _
    rename_i hk
    have hn : group baseOf k procs = [] := by
      rw [group, filter_eq_nil_iff]
      intro r hr hb
      apply hk
      rw [mem_dedup, mem_map]
      exact ⟨r,hr,by simpa using hb⟩
    rw [hn]
    exact List.Pairwise.nil
  exact hg.imp fun h hb => instance_le_of_higherFirst _ _ (h hb)

theorem orderVictims_perm (a : Admission) (procs : List RunningProc) :
    (a.orderVictims ρ caller procs).Perm procs :=
  (siblingsHighestFirst_perm ρ caller _).trans (sortSlice_perm _ procs)

theorem newAdmission_highestFirst (snap : PolicySnapshot) (spec : Spec) :
    HighestFirst (newAdmission snap spec).running := by
  refine (sortSlice_sorted runsBefore runs_weakOrder _).imp fun {a b} h hb => ?_
  apply instance_le_of_higherFirst
  rw [← Bool.not_eq_true, runsBefore_iff, not_lt, runKey, runKey, Prod.Lex.toLex_le_toLex] at h
  rw [← Bool.not_eq_true, higherFirst_iff, not_lt]
  rcases h with h | h
  · exact absurd (hb ▸ h) (lt_irrefl _)
  · exact h.2

/-- What the search for an unknown card has found is the least one so far. -/
theorem foldl_lowerUnknown (es : List (Sigma (fun _ : ℤ => ℤ))) (found : Option ℤ) (i : ℤ) :
    es.foldl lowerUnknown found = some i ↔
      (found = some i ∨ ⟨i, 0⟩ ∈ es) ∧ (∀ j, found = some j → i ≤ j) ∧
        ∀ j, (⟨j, 0⟩ : Sigma (fun _ : ℤ => ℤ)) ∈ es → i ≤ j := by
  induction es generalizing found with
  | nil =>
    constructor
    · intro h
      exact ⟨Or.inl h,fun j hj => by simp only [foldl_nil] at h; simp_all,by simp⟩
    · rintro ⟨h | h,_⟩
      · exact h
      · simp at h
  | cons e es ih =>
    obtain ⟨k,v⟩ := e
    rw [foldl_cons, ih]
    by_cases hv : v = 0
    · subst hv
      cases found with
      | none => simp [lowerUnknown]; grind
      | some l =>
        by_cases hkl : k < l
        · simp [lowerUnknown, hkl]; grind
        · simp [lowerUnknown, hkl]; grind
    · have hne : ∀ j : ℤ, (⟨j, 0⟩ : Sigma (fun _ : ℤ => ℤ)) ≠ ⟨k, v⟩ := by
        intro j hj
        simp only [Sigma.mk.injEq, heq_eq_eq] at hj
        exact hv hj.2.symm
      simp [lowerUnknown, hv, hne]

theorem lookup_eq_some_iff (m : IntMap) (i v : ℤ) :
    m.lookup i = some v ↔ (⟨i, v⟩ : Sigma (fun _ : ℤ => ℤ)) ∈ m.entries :=
  AList.mem_lookup_iff

theorem firstUnknownGPU_eq_some (i : ℤ) : firstUnknownGPU ρ r = some i ↔
      r.gpus.lookup i = some 0 ∧ ∀ j, r.gpus.lookup j = some 0 → i ≤ j := by
  rw [firstUnknownGPU, foldl_lowerUnknown]
  simp [RangeOrder.mem, lookup_eq_some_iff]

/-- The card an occupant's message names does not depend on the range. -/
theorem firstUnknownGPU_range (ρ ρ' : Ranges) (r : RunningProc) :
    firstUnknownGPU ρ r = firstUnknownGPU ρ' r := by
  apply Option.ext
  intro i
  rw [firstUnknownGPU_eq_some, firstUnknownGPU_eq_some]

theorem procHasUnknownVRAM_range (ρ ρ' : Ranges) (r : RunningProc) :
    procHasUnknownVRAM ρ r = procHasUnknownVRAM ρ' r := by
  rw [procHasUnknownVRAM, procHasUnknownVRAM, firstUnknownGPU_range ρ ρ']

theorem foldl_lowerUnknown_isSome (es : List (Sigma (fun _ : ℤ => ℤ))) (found : Option ℤ) :
    (es.foldl lowerUnknown found).isSome = true ↔ found.isSome = true ∨ ∃ e ∈ es, e.2 = 0 := by
  induction es generalizing found with
  | nil => simp
  | cons e es ih =>
    rw [foldl_cons, ih]
    by_cases he : e.2 = 0
    · cases found with
      | none => simp [lowerUnknown, he]
      | some l =>
        by_cases hl : e.1 < l
        · simp [lowerUnknown, he, hl]
        · simp [lowerUnknown, he, hl]
    · simp [lowerUnknown, he]

theorem procHasUnknownVRAM_iff : procHasUnknownVRAM ρ r = true ↔ ∃ i, r.gpus.lookup i = some 0 := by
  rw [procHasUnknownVRAM, firstUnknownGPU, foldl_lowerUnknown_isSome]
  constructor
  · rintro (h | ⟨⟨i,v⟩,he,hv⟩)
    · simp at h
    · rw [RangeOrder.mem] at he
      simp only at hv
      subst hv
      exact ⟨i,(lookup_eq_some_iff _ _ _).mpr he⟩
  · rintro ⟨i,hi⟩
    refine Or.inr ⟨⟨i,0⟩,?_,rfl⟩
    rw [RangeOrder.mem]
    exact (lookup_eq_some_iff _ _ _).mp hi

theorem touchesAnyGPU_iff (idx : List ℤ) :
    touchesAnyGPU r idx = true ↔ ∃ i ∈ idx, (r.gpus.lookup i).isSome = true := by
  simp [touchesAnyGPU, firstSharedGPU, occupies]

end OnPremGateway.AdmissionOrder
