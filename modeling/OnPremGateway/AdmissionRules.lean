import OnPremGateway.AdmissionSteps

/-!
# What each rule of the pipeline establishes

A rule that does not block leaves the demand it checks met by the processes
that are not queued. Conversely a rule does not block when some family of
processes that may go, closed under higher siblings, would free enough: the
walks meet siblings highest first, so no member of the family is missed.
-/

set_option autoImplicit false

namespace OnPremGateway.AdmissionRules
open SliceOrder RuntimeTypes AdmissionModel List Bool Admission
open AdmissionOrder AdmissionSteps

variable (snap : PolicySnapshot) (ρ : Ranges) (caller : Caller) (a : Admission)
  (p : RunningProc → Bool) (done : ℤ → Bool)

def figure (i : ℤ) (r : RunningProc) : ℤ := valueAt r.gpus i

theorem figure_unoccupied (i : ℤ) (r : RunningProc) (h : occupies r i = false) :
    figure i r = 0 := by
  rw [occupies, Option.isSome_eq_false_iff, Option.isNone_iff_eq_none] at h
  simp [figure, valueAt, h]

def heldRAM (r : RunningProc) : ℤ := if r.ramMB ≤ 0 then 0 else r.ramMB

theorem heldRAM_nonneg (r : RunningProc) : 0 ≤ heldRAM r := by
  rw [heldRAM]
  split <;> omega

/-- Figures that are known are positive and unknown ones are 0. -/
def NonNegative (rs : List RunningProc) : Prop :=
  ∀ r ∈ rs, ∀ i v, r.gpus.lookup i = some v → 0 ≤ v

instance (rs : List RunningProc) : Decidable (NonNegative rs) :=
  decidable_of_iff (∀ r ∈ rs, ∀ e ∈ r.gpus.entries, 0 ≤ e.2)
    ⟨fun h r hr i v hv => h r hr ⟨i, v⟩ ((lookup_eq_some_iff _ _ _).mp hv),
      fun h r hr e he => h r hr e.1 e.2 ((lookup_eq_some_iff _ _ _).mpr he)⟩

instance (rs : List RunningProc) : Decidable (DistinctIDs rs) := inferInstanceAs (Decidable (List.Nodup _))

theorem figure_nonneg (rs : List RunningProc) (h : NonNegative rs) (i : ℤ) (r : RunningProc)
    (hr : r ∈ rs) : 0 ≤ figure i r := by
  rw [figure, valueAt]
  cases hl : r.gpus.lookup i with
  | none => simp
  | some v => simpa using h r hr i v hl

/-- Processes under distinct ids and with figures that are not negative, whose
sums with the demands of the candidate are ints. -/
structure Regular (snap : PolicySnapshot) (spec : Spec) (rs : List RunningProc) : Prop where
  distinct : DistinctIDs rs
  nonneg : NonNegative rs
  cards : ∀ g ∈ spec.gpus, -2^63 ≤ g.vramMB ∧ g.vramMB+(rs.map (figure g.index)).sum < 2^63
  ram : ramCharge snap spec+(rs.map heldRAM).sum < 2^63

theorem Regular.subperm {snap snap' : PolicySnapshot} {spec : Spec} {rs qs : List RunningProc}
    (h : Regular snap spec qs) (hs : rs <+~ qs) (hram : ramCharge snap' spec = ramCharge snap spec) :
    Regular snap' spec rs where
  distinct := by
    obtain ⟨l,hp,hsub⟩ := hs
    exact ((hp.map _).nodup_iff).mp (h.distinct.sublist (hsub.map _))
  nonneg r hr := h.nonneg r (hs.subset hr)
  cards g hg := by
    have hsum := sum_le_of_subperm (figure g.index) rs qs hs fun r => figure_nonneg qs h.nonneg _ r
    have := h.cards g hg
    omega
  ram := by
    have hsum := sum_le_of_subperm heldRAM rs qs hs fun r _ => heldRAM_nonneg r
    have := h.ram
    omega

structure Made (a : Admission) : Prop where
  unknownVRAM : a.unknownVRAM = specHasUnknownVRAM a.spec
  gpuIdx : a.gpuIdx = specGPUIndexes a.spec
  base : a.base = specBase a.spec
  regular : Regular a.snap a.spec a.running
  highestFirst : HighestFirst a.running

theorem made_reach (a b : Admission) (h : Reach a b) (ha : Made a) : Made b := by
  have hf := reach_sameInput a b h
  constructor
  · rw [hf.unknownVRAM, hf.spec, ha.unknownVRAM]
  · rw [hf.gpuIdx, hf.spec, ha.gpuIdx]
  · rw [hf.base, hf.spec, ha.base]
  · rw [hf.snap, hf.spec, hf.running]
    exact ha.regular
  · rw [hf.running]
    exact ha.highestFirst

def others (snap : PolicySnapshot) (spec : Spec) : List RunningProc :=
  snap.running.filter (fun r => r.specID ≠ spec.id)

variable (rs : List RunningProc) (g : SpecGPU) (spec : Spec) (r : RunningProc)

theorem newAdmission_perm : (newAdmission snap spec).running.Perm (others snap spec) :=
  sortSlice_perm _ _

theorem newAdmission_made (h : Regular snap spec (others snap spec)) : Made (newAdmission snap spec) where
  unknownVRAM := rfl
  gpuIdx := rfl
  base := rfl
  regular := h.subperm (newAdmission_perm snap spec).subperm rfl
  highestFirst := newAdmission_highestFirst snap spec

/-- A walk that settles or blocks on every process it takes leaves none of
them unsettled unless it blocks, provided a step keeps what is settled. -/
theorem foldl_takes (f : Admission → RunningProc → Admission) (q : RunningProc → Prop)
    (settled : Admission → RunningProc → Prop)
    (hk : ∀ b c r, Reach b c → settled b r → settled c r) (rs : List RunningProc) (a : Admission)
    (hs : ∀ b, Reach a b → ∀ r ∈ rs, Reach b (f b r))
    (ht : ∀ b, Reach a b → ∀ r ∈ rs, q r → (f b r).blocked = false → settled (f b r) r)
    (hb : (rs.foldl f a).blocked = false) : ∀ r ∈ rs, q r → settled (rs.foldl f a) r := by
  induction rs generalizing a with
  | nil => simp
  | cons x rs ih =>
    have hx := hs a .refl x (by simp)
    have hrest := foldl_reach f rs (f a x) fun b hb y hy => hs b (hx.trans hb) y (by simp [hy])
    intro r hr hq
    rcases mem_cons.mp hr with rfl | hr
    · exact hk _ _ r hrest (ht a .refl r (by simp) hq (reach_blocked _ _ hrest hb))
    · exact ih (f a x) (fun b hb y hy => hs b (hx.trans hb) y (by simp [hy]))
        (fun b hb y hy => ht b (hx.trans hb) y (by simp [hy])) hb r hr hq

structure Family (a : Admission) (W : RunningProc → Prop) : Prop where
  mayEvict : ∀ r ∈ a.running, W r → a.mayEvict r = true
  closed : ∀ r ∈ a.running, W r → ∀ o ∈ a.running, baseOf o = baseOf r →
    r.instanceIdx < o.instanceIdx → W o

theorem family_reach (a b : Admission) (h : Reach a b) (W : RunningProc → Prop)
    (hW : Family a W) : Family b W := by
  have hf := (reach_sameInput a b h).running
  constructor
  · intro r hr hw
    rw [reach_mayEvict a b h]
    exact hW.mayEvict r (hf ▸ hr) hw
  · rw [hf]
    exact hW.closed

/-- A walk over the processes of a family, highest sibling first, never blocks. -/
theorem foldl_clears (f : Admission → RunningProc → Admission) (W : RunningProc → Prop)
    (rs : List RunningProc) (a : Admission) (hb : a.blocked = false) (hW : Family a W)
    (ho : HighestFirst rs) (hi : ∀ r ∈ a.running, W r → a.queued r = true ∨ r ∈ rs)
    (hrs : ∀ r ∈ rs, r ∈ a.running) (hskip : ∀ b, Reach a b → ∀ r ∈ rs, ¬W r → f b r = b)
    (htake : ∀ b, Reach a b → ∀ r ∈ rs, W r → b.evictable r = true →
      Reach b (f b r) ∧ (f b r).blocked = b.blocked ∧ (f b r).queued r = true) :
    (rs.foldl f a).blocked = false := by
  induction rs generalizing a with
  | nil => exact hb
  | cons x rs ih =>
    obtain ⟨hx,hrest⟩ := pairwise_cons.mp ho
    rw [foldl_cons]
    by_cases hwx : W x
    · have hxr := hrs x (by simp)
      have he : a.evictable x = true := by
        rw [evictable_iff]
        refine ⟨hW.mayEvict x hxr hwx,fun o hor hbase hlt => ?_⟩
        rcases hi o hor (hW.closed x hxr hwx o hor hbase hlt) with hq | hq
        · exact hq
        rcases mem_cons.mp hq with rfl | hq
        · omega
        · have := hx o hq hbase.symm
          omega
      obtain ⟨hr,hbl,hq⟩ := htake a .refl x (by simp) hwx he
      have hf := (reach_sameInput _ _ hr).running
      apply ih (f a x) (hbl.trans hb) (family_reach _ _ hr W hW) hrest
      · intro r hrr hwr
        rcases hi r (hf ▸ hrr) hwr with hqr | hqr
        · exact .inl (reach_queued _ _ hr r hqr)
        · rcases mem_cons.mp hqr with rfl | hqr
          · exact .inl hq
          · exact .inr hqr
      · exact fun r hrr => hf ▸ hrs r (by simp [hrr])
      · exact fun b hb' r hrr => hskip b (hr.trans hb') r (by simp [hrr])
      · exact fun b hb' r hrr => htake b (hr.trans hb') r (by simp [hrr])
    · rw [hskip a .refl x (by simp) hwx]
      apply ih a hb hW hrest
      · intro r hrr hwr
        rcases hi r hrr hwr with hqr | hqr
        · exact .inl hqr
        · rcases mem_cons.mp hqr with rfl | hqr
          · exact absurd hwr hwx
          · exact .inr hqr
      · exact fun r hrr => hrs r (by simp [hrr])
      · exact fun b hb' r hrr => hskip b hb' r (by simp [hrr])
      · exact fun b hb' r hrr => htake b hb' r (by simp [hrr])

theorem queueOrBlock_takes (hb : (a.queueOrBlock r).blocked = false) :
    (a.queueOrBlock r).queued r = true := by
  rw [queueOrBlock] at hb ⊢
  split
  · exact (queued_queue a r r).mpr (.inl rfl)
  · rename_i he
    simp [he, block] at hb

theorem queueOrBlock_clears (hr : r ∈ a.running)
    (he : a.evictable r = true) : Reach a (a.queueOrBlock r) ∧
      (a.queueOrBlock r).blocked = a.blocked ∧ (a.queueOrBlock r).queued r = true := by
  rw [queueOrBlock, if_pos he]
  exact ⟨queue_reach a r hr he,rfl,(queued_queue a r r).mpr (.inl rfl)⟩

theorem ruleMatrix_post (hb : a.ruleMatrix.blocked = false) :
    ∀ r ∈ a.running, pairAllowed a.snap.allowed a.base r = false →
      a.ruleMatrix.queued r = true := by
  apply foldl_takes _ _ (fun b r => b.queued r = true) (fun b c r h => reach_queued b c h r) _ _ _ _ hb
  · intro b hab r hr
    split
    · exact .refl
    · exact queueOrBlock_reach b r ((reach_sameInput a b hab).running ▸ hr)
  · intro b hab r hr hq hbl
    have hf := reach_sameInput a b hab
    rw [hf.snap, hf.base, hq] at hbl ⊢
    exact queueOrBlock_takes b r hbl

theorem ruleMatrix_unblocked (ha : Made a) (hb : a.blocked = false)
    (hW : Family a (fun r => pairAllowed a.snap.allowed a.base r = false)) :
    a.ruleMatrix.blocked = false := by
  apply foldl_clears _ _ _ _ hb hW ha.highestFirst (fun r hr _ => .inr hr) (fun r hr => hr)
  · intro b hab r hr hq
    have hf := reach_sameInput a b hab
    rw [hf.snap, hf.base, if_pos (by simpa using hq)]
  intro b hab r hr hq he
  have hf := reach_sameInput a b hab
  rw [hf.snap, hf.base, hq]
  exact queueOrBlock_clears b r (hf.running ▸ hr) he

def knownToucher (ρ : Ranges) (a : Admission) (r : RunningProc) : Prop :=
  touchesAnyGPU r a.gpuIdx = true ∧ procHasUnknownVRAM ρ r = false

def unknownToucher (ρ : Ranges) (a : Admission) (r : RunningProc) : Prop :=
  touchesAnyGPU r a.gpuIdx = true ∧ procHasUnknownVRAM ρ r = true

theorem foldl_blockOnKnown_blocked (s : Admission × Option (String × ℤ)) (idx : List ℤ)
    (hidx : s.1.gpuIdx = idx) (hb : (rs.foldl (blockOnKnown ρ) s).1.blocked = false) :
    ∀ r ∈ rs, touchesAnyGPU r idx = true → procHasUnknownVRAM ρ r = true := by
  induction rs generalizing s with
  | nil => simp
  | cons x rs ih =>
    intro r hr ht
    have hfold := foldl_blockOnKnown_reach ρ rs (blockOnKnown ρ s x)
    have hx := reach_blocked _ _ hfold hb
    rcases mem_cons.mp hr with rfl | hr
    · rw [touchesAnyGPU] at ht
      obtain ⟨gpu,hgpu⟩ := Option.isSome_iff_exists.mp ht
      by_contra hu
      rw [blockOnKnown, hidx, hgpu] at hx
      simp only [hu, if_false] at hx
      split at hx <;> simp [block] at hx
    · have h1 := foldl_blockOnKnown_reach ρ [x] s
      have hi : (blockOnKnown ρ s x).1.gpuIdx = idx := (reach_sameInput _ _ h1).gpuIdx.trans hidx
      exact ih (blockOnKnown ρ s x) hi hb r hr ht

theorem blockOnKnownTouchers_blocked :
    (a.blockOnKnownTouchers ρ).blocked = (a.running.foldl (blockOnKnown ρ) (a, none)).1.blocked := by
  rw [blockOnKnownTouchers]
  split
  · rename_i h
    rw [h]
  · rename_i h
    rw [h]

/-- Without a grant the candidate of unknown demand blocks on every occupant
of its cards whose own demand is known. -/
theorem blockOnKnownTouchers_post (hb : (a.blockOnKnownTouchers ρ).blocked = false) :
    ∀ r ∈ a.running, ¬knownToucher ρ a r := by
  rw [blockOnKnownTouchers_blocked] at hb
  rintro r hr ⟨ht,hu⟩
  rw [foldl_blockOnKnown_blocked ρ a.running (a, none) a.gpuIdx rfl hb r hr ht] at hu
  exact Bool.noConfusion hu

/-- With the grant every known occupant of its cards is queued, and each one
marks the verdict as a bootstrap. -/
theorem bootstrapEvictTouchers_post
    (hg : a.snap.vramBootstrapEligible = true) (hb : (a.bootstrapEvictTouchers ρ).blocked = false) :
    ∀ r ∈ a.running, knownToucher ρ a r → (a.bootstrapEvictTouchers ρ).queued r = true ∧
      (a.bootstrapEvictTouchers ρ).bootstrapEvicted = true := by
  apply foldl_takes _ _ (fun b r => b.queued r = true ∧ b.bootstrapEvicted = true)
    (fun b c r h hq => ⟨reach_queued b c h r hq.1,reach_bootstrapEvicted b c h hq.2⟩) _ _ _ _ hb
  · intro b hab r hr
    split
    · exact .refl
    split
    · rename_i he
      have hf := reach_sameInput a b hab
      exact bootstrap_reach b r (hf.running ▸ hr) he (hf.snap ▸ hg)
    · exact block_reach b
  · rintro b hab r hr ⟨ht,hu⟩ hbl
    have hf := reach_sameInput a b hab
    simp only [hf.gpuIdx, ht, hu, Bool.not_true, Bool.or_false, Bool.false_eq_true, if_false] at hbl ⊢
    split at hbl
    · rename_i he
      rw [if_pos he]
      exact ⟨(queued_queue b r r).mpr (.inl rfl),rfl⟩
    · simp [block] at hbl

/-- A candidate of unknown demand gets past a known occupant only by a grant
that it spends on it. -/
theorem ruleUnknownVRAMCandidate_post
    (hb : (a.ruleUnknownVRAMCandidate ρ).blocked = false) (hu : a.unknownVRAM = true)
    (r : RunningProc) (hr : r ∈ a.running) (hk : knownToucher ρ a r) :
    a.snap.vramBootstrapEligible = true ∧ (a.ruleUnknownVRAMCandidate ρ).queued r = true ∧
      (a.ruleUnknownVRAMCandidate ρ).bootstrapEvicted = true := by
  rw [ruleUnknownVRAMCandidate] at hb ⊢
  simp only [hu, Bool.not_true, Bool.false_eq_true, if_false] at hb ⊢
  split at hb
  · rename_i hg
    rw [if_pos hg]
    exact ⟨hg,bootstrapEvictTouchers_post ρ a hg hb r hr hk⟩
  · exact absurd hk (blockOnKnownTouchers_post ρ a hb r hr)

theorem bootstrapEvictTouchers_unblocked (ha : Made a)
    (hg : a.snap.vramBootstrapEligible = true) (hb : a.blocked = false) (hW : Family a (knownToucher ρ a)) :
    (a.bootstrapEvictTouchers ρ).blocked = false := by
  apply foldl_clears _ _ _ _ hb hW ha.highestFirst (fun r hr _ => .inr hr) (fun r hr => hr)
  · intro b hab r hr hq
    rw [if_pos]
    by_contra hn
    rw [not_eq_true, or_eq_false_iff, not_eq_false',
      (reach_sameInput a b hab).gpuIdx] at hn
    exact hq hn
  · rintro b hab r hr ⟨ht,hu⟩ he
    have hf := reach_sameInput a b hab
    simp only [hf.gpuIdx, ht, hu, he, Bool.not_true, Bool.or_false, Bool.false_eq_true, if_false,
      if_true]
    exact ⟨bootstrap_reach b r (hf.running ▸ hr) he (hf.snap ▸ hg),rfl,
      (queued_queue b r r).mpr (.inl rfl)⟩

/-- Where no occupant of its cards has a known demand the candidate waits for
none. -/
theorem blockOnKnownTouchers_keeps (h : ∀ r ∈ a.running, ¬knownToucher ρ a r) :
    a.blockOnKnownTouchers ρ = a := by
  have hfold : ∀ rs : List RunningProc, (∀ r ∈ rs, ¬knownToucher ρ a r) →
      rs.foldl (blockOnKnown ρ) (a, none) = (a, none) := by
    intro rs hrs
    induction rs with
    | nil => rfl
    | cons r rs ih =>
      have hr : blockOnKnown ρ (a, none) r = (a, none) := by
        have hknown := hrs r (by simp)
        rw [blockOnKnown]
        cases hshared : firstSharedGPU r a.gpuIdx with
        | none => rfl
        | some gpu =>
          have htouches : touchesAnyGPU r a.gpuIdx = true := by rw [touchesAnyGPU, hshared]; rfl
          have hunknown : procHasUnknownVRAM ρ r = true := by
            by_contra hnot
            exact hknown ⟨htouches,by simpa using hnot⟩
          simp [hunknown]
      rw [foldl_cons, hr]
      exact ih fun o ho => hrs o (by simp [ho])
  rw [blockOnKnownTouchers, hfold a.running h]

/-- A candidate that knows its demand, has its grant or meets no known occupant is
not blocked here. -/
theorem ruleUnknownVRAMCandidate_unblocked (ha : Made a)
    (hb : a.blocked = false)
    (hg : a.unknownVRAM = true → a.snap.vramBootstrapEligible = true ∨ ∀ r ∈ a.running, ¬knownToucher ρ a r)
    (hW : a.unknownVRAM = true → Family a (knownToucher ρ a)) :
    (a.ruleUnknownVRAMCandidate ρ).blocked = false := by
  rw [ruleUnknownVRAMCandidate]
  cases hu : a.unknownVRAM with
  | false => simpa using hb
  | true =>
    cases heligible : a.snap.vramBootstrapEligible with
    | true => simpa using bootstrapEvictTouchers_unblocked ρ a ha heligible hb (hW hu)
    | false =>
      have hnone := (hg hu).resolve_left (by simp [heligible])
      simpa [blockOnKnownTouchers_keeps ρ a hnone] using hb

theorem ruleUnknownVRAMOccupant_post (hb : (a.ruleUnknownVRAMOccupant ρ).blocked = false) :
    ∀ r ∈ a.running, unknownToucher ρ a r → (a.ruleUnknownVRAMOccupant ρ).queued r = true := by
  apply foldl_takes _ _ (fun b r => b.queued r = true) (fun b c r h => reach_queued b c h r) _ _ _ _ hb
  · intro b hab r hr
    split
    · exact .refl
    · exact queueOrBlock_reach b r ((reach_sameInput a b hab).running ▸ hr)
  · rintro b hab r hr ⟨ht,hu⟩ hbl
    have hf := reach_sameInput a b hab
    simp only [hf.gpuIdx, ht, hu, Bool.not_true, Bool.or_false, Bool.false_eq_true, if_false] at hbl ⊢
    exact queueOrBlock_takes b r hbl

theorem ruleUnknownVRAMOccupant_unblocked (ha : Made a)
    (hb : a.blocked = false) (hW : Family a (unknownToucher ρ a)) :
    (a.ruleUnknownVRAMOccupant ρ).blocked = false := by
  apply foldl_clears _ _ _ _ hb hW ha.highestFirst (fun r hr _ => .inr hr) (fun r hr => hr)
  · intro b hab r hr hq
    rw [if_pos]
    by_contra hn
    rw [not_eq_true, or_eq_false_iff, not_eq_false', not_eq_false',
      (reach_sameInput a b hab).gpuIdx] at hn
    exact hq ⟨hn.2,hn.1⟩
  · rintro b hab r hr ⟨ht,hu⟩ he
    have hf := reach_sameInput a b hab
    simp only [hf.gpuIdx, ht, hu, Bool.not_true, Bool.or_false, Bool.false_eq_true, if_false]
    exact queueOrBlock_clears b r (hf.running ▸ hr) he

theorem idle_nodup (hd : DistinctIDs a.running) : (idle ρ caller a p).Nodup := by
  rw [idle, (orderVictims_perm ρ caller a _).nodup_iff]
  exact (((List.Nodup.of_map _ hd).filter _).filter _).filter _

theorem idle_draw_load (account : ℤ → RunningProc → ℤ) (w : RunningProc → ℤ) (c : ℤ → ℤ)
    (hc : ∀ n m, c (c n-m) = c (n-m)) (hw : ∀ m r, account m r = c (m-w r)) (demand n : ℤ)
    (hd : DistinctIDs a.running) (hn : n = c (demand+load w a)) :
    (drawVictims done account a n (idle ρ caller a p)).2 =
      c (demand+load w (drawVictims done account a n (idle ρ caller a p)).1) := by
  apply drawVictims_load done account w c hc hw demand a n _ hd (idle_nodup ρ caller a p hd) _ hn
  intro r hr
  exact ((mem_idle ρ caller a p r).mp hr).1

/-- Where a draw ends without being done, the members of a family that its
list is drawn from are gone. -/
theorem idle_draw_exhausts (account : ℤ → RunningProc → ℤ) (n : ℤ) (V : RunningProc → Prop)
    (hV : Family a V) (hp : ∀ r ∈ a.running, ∀ o ∈ a.running, baseOf o = baseOf r → p r = p o)
    (hdone : done (drawVictims done account a n (idle ρ caller a p)).2 = false) :
    ∀ r ∈ a.running, V r → p r = true →
      (drawVictims done account a n (idle ρ caller a p)).1.queued r = true := by
  have h := drawVictims_exhausts done account (fun r => V r ∧ p r = true) a n (idle ρ caller a p)
    (siblingsHighestFirst_highestFirst ρ caller _)
    (fun r hr hw => hV.mayEvict r hr hw.1)
    (fun r hr hw o ho hb hlt => ⟨hV.closed r hr hw.1 o ho hb hlt,(hp r hr o ho hb) ▸ hw.2⟩)
    (fun r hr hw => by
      cases hq : a.queued r with
      | true => exact .inl rfl
      | false => exact .inr ((mem_idle ρ caller a p r).mpr
          ⟨⟨hr,hq⟩,hw.2,hV.mayEvict r hr hw.1⟩))
    (idle_running ρ caller a p)
  rcases h with h | h
  · rw [h] at hdone
    exact Bool.noConfusion hdone
  · exact fun r hr hv hpr => h r hr ⟨hv,hpr⟩

/-- What stays is bounded by what a family leaves, if whoever of the family
stays holds nothing. -/
theorem load_le_spared (w : RunningProc → ℤ) (a b : Admission) (hab : Reach a b)
    (V : RunningProc → Bool) (hw : ∀ r ∈ a.running, 0 ≤ w r)
    (hz : ∀ r ∈ a.running, V r = true → b.queued r = false → w r = 0) :
    load w b ≤ ((a.running.filter (fun r => !V r)).map w).sum := by
  have hf := (reach_sameInput a b hab).running
  have hrem : ∀ r ∈ b.remaining, V r = true → w r = 0 := by
    intro r hr hv
    obtain ⟨hrun,hq⟩ := (mem_remaining b r).mp hr
    exact hz r (hf ▸ hrun) hv hq
  rw [load, ← sum_filter w (fun r => !V r) b.remaining fun r hr hv => hrem r hr (by simpa using hv)]
  have hsub : (b.remaining.filter (fun r => !V r)).Sublist
      (a.running.filter (fun r => !V r)) := by
    rw [remaining, hf]
    exact (filter_sublist).filter _
  exact sum_le_of_subperm w _ _ hsub.subperm fun r hr => hw r (mem_filter.mp hr).1

/-! ### Budgets -/

def drawDown (w : RunningProc → ℤ) (demand budget : ℤ) : Admission × ℤ :=
  drawVictims (fun sum => sum ≤ budget) (fun sum r => wrapInt (sum-w r)) a
    (wrapInt (demand+load w a)) (idle ρ caller a p)

/-- What a rule does that holds the processes to a budget: draw from the idle
ones that `p` picks until the sum fits, or block. -/
def charged (block : Admission → Admission) (w : RunningProc → ℤ) (demand budget : ℤ) : Admission :=
  if wrapInt (demand+load w a) ≤ budget then a
  else if (drawDown ρ caller a p w demand budget).2 > budget then
    block (drawDown ρ caller a p w demand budget).1
  else (drawDown ρ caller a p w demand budget).1

/-- A charge that the rules can draw down: what `p` does not pick holds
nothing, and the whole sum is an int. -/
structure Chargeable (a : Admission) (p : RunningProc → Bool) (w : RunningProc → ℤ) (demand : ℤ) :
    Prop where
  distinct : DistinctIDs a.running
  nonneg : ∀ r ∈ a.running, 0 ≤ w r
  picked : ∀ r, p r = false → w r = 0
  least : -2^63 ≤ demand
  most : demand+(a.running.map w).sum < 2^63

section Charge
variable {a} {p} {w : RunningProc → ℤ} {demand budget : ℤ} {block : Admission → Admission}
variable (hc : Chargeable a p w demand)
include hc

/-- Then no sum on the way wraps. -/
theorem Chargeable.wrap (b : Admission) (hab : Reach a b) :
    wrapInt (demand+load w b) = demand+load w b := by
  have hrun := (reach_sameInput a b hab).running
  have hsum : load w b ≤ (a.running.map w).sum := by
    rw [load, remaining, hrun]
    exact sum_le_of_subperm w _ _ (filter_sublist).subperm hc.nonneg
  have hpos := sum_le_of_subperm w [] b.remaining nil_subperm fun r hr =>
    hc.nonneg r (hrun ▸ ((mem_remaining b r).mp hr).1)
  rw [map_nil, sum_nil, ← load] at hpos
  have hmin := hc.least
  have hmax := hc.most
  exact wrapInt_eq _ (by omega) (by omega)

theorem Chargeable.drawn (budget : ℤ) : (drawDown ρ caller a p w demand budget).2 =
    demand+load w (drawDown ρ caller a p w demand budget).1 := by
  rw [drawDown, idle_draw_load ρ caller a p _ _ w wrapInt wrapInt_sub (fun _ _ => rfl) demand _
    hc.distinct rfl]
  exact hc.wrap _ (drawVictims_reach _ _ a _ _ (idle_running ρ caller a p))

theorem charged_post (hblock : ∀ b, (block b).blocked = true)
    (hb : (charged ρ caller a p block w demand budget).blocked = false) :
    demand+load w (charged ρ caller a p block w demand budget) ≤ budget := by
  have hdrawn := hc.drawn ρ caller budget
  rw [charged] at hb ⊢
  split_ifs at hb ⊢ with hfit hover
  · rwa [hc.wrap a .refl] at hfit
  · rw [hblock] at hb
    cases hb
  · omega

theorem charged_unblocked (hb : a.blocked = false) (V : RunningProc → Bool)
    (hV : Family a (fun r => V r = true))
    (hsame : ∀ r ∈ a.running, ∀ o ∈ a.running, baseOf o = baseOf r → p r = p o)
    (hfit : demand+((a.running.filter (fun r => !V r)).map w).sum ≤ budget) :
    (charged ρ caller a p block w demand budget).blocked = false := by
  rw [charged]
  split_ifs with hsum hover
  · exact hb
  · -- The draw ran out: what stays is at most what the family leaves.
    exfalso
    have hdrawn := hc.drawn ρ caller budget
    have hx := idle_draw_exhausts ρ caller a p (fun sum => sum ≤ budget) _ _ _ hV hsame
      (decide_eq_false (not_le.mpr hover))
    have hle := load_le_spared w a (drawDown ρ caller a p w demand budget).1
      (drawVictims_reach _ _ a _ _ (idle_running ρ caller a p)) V hc.nonneg (fun r hr hv hq => by
        apply hc.picked
        by_contra hp
        rw [not_eq_false] at hp
        cases (hx r hr hv hp).symm.trans hq)
    omega
  · exact (drawVictims_blocked _ _ a _ _).trans hb

theorem charged_keeps (hfit : demand+load w a ≤ budget) :
    charged ρ caller a p block w demand budget = a := by
  rw [charged, hc.wrap a .refl, if_pos hfit]

end Charge

theorem gpu_sum (i : ℤ) :
    ((a.remaining.filter (fun r => occupies r i)).map (fun r => valueAt r.gpus i)).sum =
      load (figure i) a :=
  sum_filter (figure i) (fun r => occupies r i) a.remaining fun r _ => figure_unoccupied i r

theorem chargeGPUBudget_eq : a.chargeGPUBudget ρ g =
      if g.vramMB = 0 then a else if valueAt a.snap.budgets g.index ≤ 0 then a
      else charged ρ (.gpu g.index) a (fun r => occupies r g.index) block (figure g.index) g.vramMB
        (valueAt a.snap.budgets g.index) := by
  rw [chargeGPUBudget]
  simp only [gpu_sum]
  rfl

theorem gpu_chargeable (ha : Made a) (hg : g ∈ a.spec.gpus) :
    Chargeable a (fun r => occupies r g.index) (figure g.index) g.vramMB :=
  ⟨ha.regular.distinct,figure_nonneg _ ha.regular.nonneg g.index,figure_unoccupied g.index,
    (ha.regular.cards g hg).1,(ha.regular.cards g hg).2⟩

theorem chargeGPUBudget_post (ha : Made a) (hgs : g ∈ a.spec.gpus) (hg : g.vramMB ≠ 0)
    (hbud : 0 < valueAt a.snap.budgets g.index) (hb : (a.chargeGPUBudget ρ g).blocked = false) :
    g.vramMB+load (figure g.index) (a.chargeGPUBudget ρ g) ≤ valueAt a.snap.budgets g.index := by
  rw [chargeGPUBudget_eq, if_neg hg, if_neg (not_le.mpr hbud)] at hb ⊢
  exact charged_post ρ _ (gpu_chargeable a g ha hgs) (fun _ => rfl) hb

theorem chargeGPUBudget_unblocked (ha : Made a) (hgs : g ∈ a.spec.gpus)
    (hb : a.blocked = false) (V : RunningProc → Bool) (hV : Family a (fun r => V r = true))
    (hsame : ∀ r ∈ a.running, ∀ o ∈ a.running, baseOf o = baseOf r →
      occupies r g.index = occupies o g.index)
    (hfit : g.vramMB ≠ 0 → 0 < valueAt a.snap.budgets g.index →
      g.vramMB+((a.running.filter (fun r => !V r)).map (figure g.index)).sum ≤
        valueAt a.snap.budgets g.index) : (a.chargeGPUBudget ρ g).blocked = false := by
  rw [chargeGPUBudget_eq]
  split_ifs with hg hbud
  · exact hb
  · exact hb
  · exact charged_unblocked ρ _ (gpu_chargeable a g ha hgs) hb V hV hsame (hfit hg (not_le.mp hbud))

theorem chargeGPUBudget_keeps (ha : Made a) (hgs : g ∈ a.spec.gpus)
    (hfit : g.vramMB ≠ 0 → 0 < valueAt a.snap.budgets g.index →
      g.vramMB+load (figure g.index) a ≤ valueAt a.snap.budgets g.index) :
    a.chargeGPUBudget ρ g = a := by
  rw [chargeGPUBudget_eq]
  split_ifs with hg hbud
  · rfl
  · rfl
  · exact charged_keeps ρ _ (gpu_chargeable a g ha hgs) (hfit hg (not_le.mp hbud))

/-- Rows are charged one after another; what a row was promised stays true
while later rows and rules only queue more. -/
theorem rulePerGPUVRAM_post (gs : List SpecGPU) (a : Admission) (ha : Made a)
    (hgs : ∀ g ∈ gs, g ∈ a.spec.gpus)
    (hb : (gs.foldl (fun a g => a.chargeGPUBudget ρ g) a).blocked = false) :
    ∀ g ∈ gs, g.vramMB ≠ 0 → 0 < valueAt a.snap.budgets g.index →
      g.vramMB+load (figure g.index) (gs.foldl (fun a g => a.chargeGPUBudget ρ g) a) ≤
        valueAt a.snap.budgets g.index := by
  induction gs generalizing a with
  | nil => simp
  | cons x gs ih =>
    have hx := chargeGPUBudget_reach ρ a x
    have hf := reach_sameInput _ _ hx
    have hmade := made_reach _ _ hx ha
    have hrest : Reach (a.chargeGPUBudget ρ x)
        (gs.foldl (fun a g => a.chargeGPUBudget ρ g) (a.chargeGPUBudget ρ x)) :=
      foldl_reach _ gs _ fun b _ g _ => chargeGPUBudget_reach ρ b g
    intro g hg hne hbud
    rw [foldl_cons] at hb ⊢
    rcases mem_cons.mp hg with rfl | hg
    · have hp := chargeGPUBudget_post ρ a g ha (hgs g (by simp)) hne hbud (reach_blocked _ _ hrest hb)
      have hm := load_mono (figure g.index) _ _ hrest (figure_nonneg _ hmade.regular.nonneg g.index)
      omega
    · have hi := ih (a.chargeGPUBudget ρ x) hmade
        (fun g' hg' => hf.spec ▸ hgs g' (by simp [hg'])) hb g hg hne
      rw [hf.snap] at hi
      exact hi hbud

theorem rulePerGPUVRAM_unblocked (gs : List SpecGPU) (a : Admission) (ha : Made a)
    (hgs : ∀ g ∈ gs, g ∈ a.spec.gpus)
    (hb : a.blocked = false) (V : RunningProc → Bool) (hV : Family a (fun r => V r = true))
    (hsame : ∀ g ∈ gs, ∀ r ∈ a.running, ∀ o ∈ a.running, baseOf o = baseOf r →
      occupies r g.index = occupies o g.index)
    (hfit : ∀ g ∈ gs, g.vramMB ≠ 0 → 0 < valueAt a.snap.budgets g.index →
      g.vramMB+((a.running.filter (fun r => !V r)).map (figure g.index)).sum ≤
        valueAt a.snap.budgets g.index) :
    (gs.foldl (fun a g => a.chargeGPUBudget ρ g) a).blocked = false := by
  induction gs generalizing a with
  | nil => exact hb
  | cons x gs ih =>
    have hx := chargeGPUBudget_reach ρ a x
    have hf := reach_sameInput _ _ hx
    apply ih (a.chargeGPUBudget ρ x) (made_reach _ _ hx ha)
    · exact fun g hg => hf.spec ▸ hgs g (by simp [hg])
    · exact chargeGPUBudget_unblocked ρ a x ha (hgs x (by simp)) hb V hV (hsame x (by simp))
        (hfit x (by simp))
    · exact family_reach _ _ hx _ hV
    · rw [hf.running]
      exact fun g hg => hsame g (by simp [hg])
    · rw [hf.running, hf.snap]
      exact fun g hg => hfit g (by simp [hg])

theorem ram_sum :
    ((rs.filter (fun r => !(r.ramMB ≤ 0))).map RunningProc.ramMB).sum = (rs.map heldRAM).sum := by
  induction rs with
  | nil => rfl
  | cons r rs ih =>
    by_cases hr : r.ramMB ≤ 0
    · simpa [heldRAM, hr] using ih
    · simpa [heldRAM, hr] using ih

theorem ram_load :
    ((a.remaining.filter (fun r => !(r.ramMB ≤ 0))).map RunningProc.ramMB).sum = load heldRAM a :=
  ram_sum a.remaining

/-- The draw subtracts what a holder holds, and only holders are drawn. -/
theorem drawVictims_congr (f g : ℤ → RunningProc → ℤ) (a : Admission) (n : ℤ)
    (rs : List RunningProc) (h : ∀ r ∈ rs, ∀ m, f m r = g m r) :
    drawVictims done f a n rs = drawVictims done g a n rs := by
  induction rs generalizing a n with
  | nil => rfl
  | cons r rs ih =>
    have hrs : ∀ o ∈ rs, ∀ m, f m o = g m o := fun o ho => h o (by simp [ho])
    rw [drawVictims, drawVictims, h r (by simp), ih _ _ hrs, ih _ _ hrs]

def ramBlock (a : Admission) : Admission := { a with blocked := true, ramBlocked := true }

theorem ruleHostRAM_eq : a.ruleHostRAM ρ =
      if a.snap.hostRAMBudgetMB ≤ 0 then a else if a.snap.ramBootstrapInFlight then ramBlock a
      else if ramCharge a.snap a.spec ≤ 0 then a
      else charged ρ .ram a (fun r => !(r.ramMB ≤ 0)) ramBlock heldRAM (ramCharge a.snap a.spec)
        a.snap.hostRAMBudgetMB := by
  have hdraw (n : ℤ) : drawVictims (fun sum => sum ≤ a.snap.hostRAMBudgetMB)
      (fun sum r => wrapInt (sum-r.ramMB)) a n (idle ρ .ram a (fun r => !(r.ramMB ≤ 0))) =
      drawVictims (fun sum => sum ≤ a.snap.hostRAMBudgetMB) (fun sum r => wrapInt (sum-heldRAM r)) a n
        (idle ρ .ram a (fun r => !(r.ramMB ≤ 0))) := by
    apply drawVictims_congr
    intro r hr m
    have hp := ((mem_idle _ _ _ _ _).mp hr).2.1
    have hpos : ¬r.ramMB ≤ 0 := by simpa using hp
    simp [heldRAM, hpos]
  rw [ruleHostRAM]
  simp only [ram_load, charged, drawDown, ← hdraw]
  rfl

theorem ram_chargeable (ha : Made a) (hch : 0 < ramCharge a.snap a.spec) :
    Chargeable a (fun r => !(r.ramMB ≤ 0)) heldRAM (ramCharge a.snap a.spec) where
  distinct := ha.regular.distinct
  nonneg r _ := heldRAM_nonneg r
  picked r hp := by
    have hle : r.ramMB ≤ 0 := by simpa using hp
    rw [heldRAM, if_pos hle]
  least := by omega
  most := ha.regular.ram

theorem ruleHostRAM_post (ha : Made a)
    (hbud : 0 < a.snap.hostRAMBudgetMB) (hb : (a.ruleHostRAM ρ).blocked = false) :
    a.snap.ramBootstrapInFlight = false ∧ (0 < ramCharge a.snap a.spec →
      ramCharge a.snap a.spec+load heldRAM (a.ruleHostRAM ρ) ≤ a.snap.hostRAMBudgetMB) := by
  rw [ruleHostRAM_eq, if_neg (not_le.mpr hbud)] at hb ⊢
  split_ifs at hb ⊢ with hfl hch
  · cases hb
  · exact ⟨by simpa using hfl,fun h => absurd h (not_lt.mpr hch)⟩
  · exact ⟨by simpa using hfl,fun h => charged_post ρ _ (ram_chargeable a ha h) (fun _ => rfl) hb⟩

theorem ruleHostRAM_unblocked (ha : Made a) (hb : a.blocked = false)
    (V : RunningProc → Bool) (hV : Family a (fun r => V r = true))
    (hsame : ∀ r ∈ a.running, ∀ o ∈ a.running, baseOf o = baseOf r →
      (!decide (r.ramMB ≤ 0)) = !decide (o.ramMB ≤ 0))
    (hfl : 0 < a.snap.hostRAMBudgetMB → a.snap.ramBootstrapInFlight = false)
    (hfit : 0 < a.snap.hostRAMBudgetMB → 0 < ramCharge a.snap a.spec →
      ramCharge a.snap a.spec+((a.running.filter (fun r => !V r)).map heldRAM).sum ≤
        a.snap.hostRAMBudgetMB) : (a.ruleHostRAM ρ).blocked = false := by
  rw [ruleHostRAM_eq]
  split_ifs with hbud hflight hch
  · exact hb
  · rw [hfl (not_le.mp hbud)] at hflight
    exact Bool.noConfusion hflight
  · exact hb
  · exact charged_unblocked ρ _ (ram_chargeable a ha (not_le.mp hch)) hb V hV hsame
      (hfit (not_le.mp hbud) (not_le.mp hch))

theorem ruleHostRAM_keeps (ha : Made a)
    (hfit : 0 < a.snap.hostRAMBudgetMB → a.snap.ramBootstrapInFlight = false ∧
      (0 < ramCharge a.snap a.spec →
        ramCharge a.snap a.spec+load heldRAM a ≤ a.snap.hostRAMBudgetMB)) :
    a.ruleHostRAM ρ = a := by
  rw [ruleHostRAM_eq]
  split_ifs with hbud hfl hch
  · rfl
  · rw [(hfit (not_le.mp hbud)).1] at hfl
    exact Bool.noConfusion hfl
  · rfl
  · exact charged_keeps ρ _ (ram_chargeable a ha (not_le.mp hch))
      ((hfit (not_le.mp hbud)).2 (not_le.mp hch))

theorem queued_iff (hs : Sound a) (id : String) :
    id ∈ a.toEvict.keys ↔ ∃ r ∈ a.running, r.specID = id ∧ a.queued r = true := by
  rw [← AList.mem_keys, ← AList.lookup_isSome]
  constructor
  · intro h
    obtain ⟨r,hr⟩ := Option.isSome_iff_exists.mp h
    obtain ⟨hid,hrun,_⟩ := hs.entry id r hr
    exact ⟨r,hrun,hid,by rw [queued, hid]; exact h⟩
  · rintro ⟨r,_,rfl,hq⟩
    exact hq

/-- The victim map has one entry for each process that is not remaining. -/
theorem length_toEvict (hs : Sound a) (hd : DistinctIDs a.running) :
    ((a.running.length : ℤ)-a.toEvict.keys.length) = load (fun _ => 1) a := by
  have hp : a.toEvict.keys.Perm ((a.running.filter a.queued).map RunningProc.specID) := by
    rw [perm_ext_iff_of_nodup a.toEvict.keys_nodup (hd.sublist ((filter_sublist).map _))]
    intro id
    rw [queued_iff a hs, mem_map]
    constructor
    · rintro ⟨r,hr,hid,hq⟩
      exact ⟨r,mem_filter.mpr ⟨hr,hq⟩,hid⟩
    · rintro ⟨r,hr,hid⟩
      obtain ⟨hrun,hq⟩ := mem_filter.mp hr
      exact ⟨r,hrun,hid,hq⟩
  have hlen : a.running.length = (a.running.filter a.queued).length + a.remaining.length := by
    rw [remaining]
    induction a.running with
    | nil => rfl
    | cons r rs ih =>
      cases hr : a.queued r <;> simp [hr] <;> omega
  have hk : a.toEvict.keys.length = (a.running.filter a.queued).length := by
    simpa using hp.length_eq
  have hl : load (fun _ => 1) a = a.remaining.length := by simp [load]
  rw [hl]
  omega

theorem count_draw (hd : DistinctIDs a.running) (deficit : ℤ) :
    (drawVictims (fun drawn => drawn = deficit) (fun drawn _ => drawn + 1) a 0
      (idle ρ .count a (fun _ => true))).2 +
      load (fun _ => 1) (drawVictims (fun drawn => drawn = deficit) (fun drawn _ => drawn + 1) a 0
        (idle ρ .count a (fun _ => true))).1 = load (fun _ => 1) a := by
  have hneg : ∀ b : Admission, load (fun _ => -1) b = -load (fun _ => 1) b := by
    intro b
    simp [load]
  have hl := idle_draw_load ρ .count a (fun _ => true) (fun drawn => drawn = deficit)
    (fun drawn _ => drawn + 1) (fun _ => -1) id (fun _ _ => rfl) (fun m _ => by simp)
    (load (fun _ => 1) a) 0 hd (by rw [hneg, id]; omega)
  rw [hneg, id] at hl
  omega

theorem ruleProcessCount_post (hs : Sound a)
    (hd : DistinctIDs a.running) (hmax : 0 < a.snap.maxProcesses)
    (hb : (a.ruleProcessCount ρ).blocked = false) :
    load (fun _ => 1) (a.ruleProcessCount ρ)+1 ≤ a.snap.maxProcesses := by
  have hc := count_draw ρ a hd (load (fun _ => 1) a+1-a.snap.maxProcesses)
  rw [ruleProcessCount] at hb ⊢
  simp only [idle_all, not_le.mpr hmax, if_false, length_toEvict a hs hd] at hb ⊢
  split_ifs at hb ⊢ with hdef hshort
  · omega
  · simp [block] at hb
  · omega

theorem ruleProcessCount_unblocked (ha : Made a) (hs : Sound a)
    (hb : a.blocked = false) (V : RunningProc → Bool) (hV : Family a (fun r => V r = true))
    (hfit : a.snap.maxProcesses ≤ 0 ∨
      ((a.running.filter (fun r => !V r)).length : ℤ)+1 ≤ a.snap.maxProcesses) :
    (a.ruleProcessCount ρ).blocked = false := by
  rw [ruleProcessCount]
  simp only [idle_all, length_toEvict a hs ha.regular.distinct]
  split_ifs with hmax hdef hshort
  · exact hb
  · exact hb
  · exfalso
    set deficit := load (fun _ => 1) a+1-a.snap.maxProcesses with hdeficit
    have hc := count_draw ρ a ha.regular.distinct deficit
    set d := drawVictims (fun drawn => drawn = deficit) (fun drawn _ => drawn + 1) a 0
      (idle ρ .count a (fun _ => true)) with hd
    have hx := idle_draw_exhausts ρ .count a (fun _ => true) (fun drawn => drawn = deficit)
      (fun drawn _ => drawn + 1) 0 _ hV (fun _ _ _ _ _ => rfl)
      (decide_eq_false (by rw [← hd]; omega))
    have hle := load_le_spared (fun _ => 1) a d.1
      (drawVictims_reach _ _ a _ _ (idle_running ρ .count a _)) V (fun _ _ => by omega)
      (fun r hr hv hq => by rw [hx r hr hv rfl] at hq; exact Bool.noConfusion hq)
    have hlen : ((a.running.filter (fun r => !V r)).map (fun _ => (1 : ℤ))).sum =
        (a.running.filter (fun r => !V r)).length := by simp
    rw [hlen] at hle
    rcases hfit with hfit | hfit
    · exact hmax hfit
    · omega
  · exact (drawVictims_blocked _ _ a _ _).trans hb

theorem ruleProcessCount_keeps
    (hfit : a.snap.maxProcesses ≤ 0 ∨ (a.running.length : ℤ)+1 ≤ a.snap.maxProcesses) :
    a.ruleProcessCount ρ = a := by
  rw [ruleProcessCount]
  simp only
  split_ifs with hmax hdef hshort
  · rfl
  · rfl
  · rcases hfit with hfit | hfit <;> omega
  · rcases hfit with hfit | hfit <;> omega

end OnPremGateway.AdmissionRules
