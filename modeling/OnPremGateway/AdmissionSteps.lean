import OnPremGateway.AdmissionOrder

/-!
# What a rule of the pipeline can do

A rule queues processes that are evictable at that moment and raises flags,
and it does nothing else. Everything the rules keep is therefore proved of
one such step. The draw the resource rules share is accounted for exactly:
what it subtracts is what the queued processes held.
-/

set_option autoImplicit false

namespace OnPremGateway.AdmissionSteps
open RuntimeTypes AdmissionModel AdmissionOrder List Admission

variable (done : ℤ → Bool) (account : ℤ → RunningProc → ℤ) (w : RunningProc → ℤ) (ρ : Ranges)
  (a : Admission) (r : RunningProc)

inductive Step : Admission → Admission → Prop
  | queue (a : Admission) (r : RunningProc) (hr : r ∈ a.running) (he : a.evictable r = true) :
      Step a (a.queue r)
  | note (a : Admission) (block ram boot : Bool) (text : String)
      (hg : boot = true → a.snap.vramBootstrapEligible = true) :
      Step a { a with blocked := a.blocked || block, ramBlocked := a.ramBlocked || ram
                      bootstrapEvicted := a.bootstrapEvicted || boot, waitMessage := text }

abbrev Reach : Admission → Admission → Prop := Relation.ReflTransGen Step

theorem queue_reach (hr : r ∈ a.running)
    (he : a.evictable r = true) : Reach a (a.queue r) :=
  .single (.queue a r hr he)

theorem block_reach : Reach a a.block := by
  have h := Step.note a true false false a.waitMessage (fun h => nomatch h)
  simp only [Bool.or_true, Bool.or_false] at h
  exact .single h

theorem queueOrBlock_reach (hr : r ∈ a.running) : Reach a (a.queueOrBlock r) := by
  rw [queueOrBlock]
  split
  · rename_i he
    exact queue_reach a r hr he
  · exact block_reach a

structure SameInput (a b : Admission) : Prop where
  snap : b.snap = a.snap
  spec : b.spec = a.spec
  running : b.running = a.running
  unknownVRAM : b.unknownVRAM = a.unknownVRAM
  gpuIdx : b.gpuIdx = a.gpuIdx
  base : b.base = a.base

theorem reach_sameInput (a b : Admission) (h : Reach a b) : SameInput a b := by
  induction h with
  | refl => exact ⟨rfl,rfl,rfl,rfl,rfl,rfl⟩
  | tail _ hs ih => cases hs <;> exact ⟨ih.snap,ih.spec,ih.running,ih.unknownVRAM,ih.gpuIdx,ih.base⟩

theorem queued_queue (r o : RunningProc) :
    (a.queue r).queued o = true ↔ o.specID = r.specID ∨ a.queued o = true := by
  by_cases h : o.specID = r.specID
  · have hq : (a.queue r).toEvict.lookup o.specID = some r := by
      rw [h]
      exact AList.lookup_insert _
    simp [queued, hq, h]
  · have hq : (a.queue r).toEvict.lookup o.specID = a.toEvict.lookup o.specID :=
      AList.lookup_insert_ne h
    simp [queued, hq, h]

theorem reach_queued (a b : Admission) (h : Reach a b) (r : RunningProc)
    (hr : a.queued r = true) : b.queued r = true := by
  induction h with
  | refl => exact hr
  | tail _ hs ih =>
    cases hs with
    | queue r' _ _ => exact (queued_queue _ _ _).mpr (.inr ih)
    | note => exact ih

theorem reach_blocked (a b : Admission) (h : Reach a b) (hb : b.blocked = false) :
    a.blocked = false := by
  induction h with
  | refl => exact hb
  | tail _ hs ih =>
    apply ih
    cases hs with
    | queue => exact hb
    | note => exact (Bool.or_eq_false_iff.mp hb).1

theorem reach_bootstrapEvicted (a b : Admission) (h : Reach a b)
    (ha : a.bootstrapEvicted = true) : b.bootstrapEvicted = true := by
  induction h with
  | refl => exact ha
  | tail _ hs ih =>
    cases hs with
    | queue => exact ih
    | note => simp [ih]

/-- Only a grant lets a verdict be a bootstrap. -/
theorem reach_eligible (a b : Admission) (h : Reach a b) (ha : a.bootstrapEvicted = false)
    (hb : b.bootstrapEvicted = true) : a.snap.vramBootstrapEligible = true := by
  induction h with
  | refl =>
    rw [ha] at hb
    cases hb
  | tail hr hs ih =>
    cases hs with
    | queue => exact ih hb
    | note block ram boot text hg =>
      rw [← (reach_sameInput _ _ hr).snap]
      rcases Bool.or_eq_true_iff.mp hb with hb | hb
      · rw [(reach_sameInput _ _ hr).snap]
        exact ih hb
      · exact hg hb

theorem reach_mayEvict (a b : Admission) (h : Reach a b) (r : RunningProc) :
    b.mayEvict r = a.mayEvict r := by
  have hf := reach_sameInput a b h
  rw [mayEvict, mayEvict, hf.snap, hf.base]

theorem evictable_iff : a.evictable r = true ↔ a.mayEvict r = true ∧ ∀ o ∈ a.running,
      baseOf o = baseOf r → r.instanceIdx < o.instanceIdx → a.queued o = true := by
  simp only [evictable, higherSiblingStays, Bool.and_eq_true,
    Bool.not_eq_true', any_eq_false, Bool.or_eq_false_iff, decide_eq_false_iff_not,
    not_and, Bool.not_eq_false]
  simp only [not_le, ne_eq, not_not]
  tauto

structure Sound (a : Admission) : Prop where
  entry : ∀ id r, a.toEvict.lookup id = some r → r.specID = id ∧ r ∈ a.running ∧ a.mayEvict r = true
  closed : ∀ id r, a.toEvict.lookup id = some r → ∀ o ∈ a.running,
    baseOf o = baseOf r → r.instanceIdx < o.instanceIdx → a.queued o = true

theorem queue_sound (hr : r ∈ a.running)
    (he : a.evictable r = true) (h : Sound a) : Sound (a.queue r) := by
  obtain ⟨hm,hc⟩ := (evictable_iff a r).mp he
  have hlookup : ∀ id s, (a.queue r).toEvict.lookup id = some s →
      (id = r.specID ∧ s = r) ∨ a.toEvict.lookup id = some s := by
    intro id s hs
    by_cases hid : id = r.specID
    · subst hid
      rw [queue, AList.lookup_insert] at hs
      exact .inl ⟨rfl,(Option.some.inj hs).symm⟩
    · rw [queue, AList.lookup_insert_ne hid] at hs
      exact .inr hs
  constructor
  · intro id s hs
    rcases hlookup id s hs with ⟨rfl,rfl⟩ | hs
    · exact ⟨rfl,hr,hm⟩
    · exact h.entry id s hs
  · intro id s hs o ho hb hi
    apply (queued_queue a r o).mpr
    rcases hlookup id s hs with ⟨rfl,rfl⟩ | hs
    · exact .inr (hc o ho hb hi)
    · exact .inr (h.closed id s hs o ho hb hi)

theorem reach_sound (a b : Admission) (h : Reach a b) (ha : Sound a) : Sound b := by
  induction h with
  | refl => exact ha
  | tail _ hs ih =>
    cases hs with
    | queue r hr he => exact queue_sound _ r hr he ih
    | note => exact ⟨ih.entry,ih.closed⟩

theorem newAdmission_sound (snap : PolicySnapshot) (spec : Spec) : Sound (newAdmission snap spec) :=
  ⟨by simp [newAdmission],by simp [newAdmission]⟩

theorem foldl_reach {α : Type*} (f : Admission → α → Admission) (xs : List α) (a : Admission)
    (h : ∀ b, Reach a b → ∀ x ∈ xs, Reach b (f b x)) : Reach a (xs.foldl f a) := by
  induction xs generalizing a with
  | nil => exact .refl
  | cons x xs ih =>
    have hx := h a .refl x (by simp)
    exact hx.trans (ih _ fun b hb y hy => h b (hx.trans hb) y (by simp [hy]))

theorem ruleMatrix_reach : Reach a a.ruleMatrix := by
  apply foldl_reach
  intro b hb r hr
  split
  · exact .refl
  · exact queueOrBlock_reach b r ((reach_sameInput a b hb).running ▸ hr)

/-- An eviction that only the grant allows marks the verdict. -/
theorem bootstrap_reach (hr : r ∈ a.running)
    (he : a.evictable r = true) (hg : a.snap.vramBootstrapEligible = true) :
    Reach a { a.queue r with bootstrapEvicted := true } := by
  have hn := Step.note (a.queue r) false false true (a.queue r).waitMessage (fun _ => hg)
  simp only [Bool.or_true, Bool.or_false] at hn
  exact (queue_reach a r hr he).tail hn

theorem bootstrapEvictTouchers_reach
    (hg : a.snap.vramBootstrapEligible = true) : Reach a (a.bootstrapEvictTouchers ρ) := by
  apply foldl_reach
  intro b hb r hr
  have hf := reach_sameInput a b hb
  split
  · exact .refl
  split
  · rename_i he
    exact bootstrap_reach b r (hf.running ▸ hr) he (hf.snap ▸ hg)
  · exact block_reach b

variable (p : RunningProc → Bool) (n : ℤ) (rs : List RunningProc) (caller : Caller)

theorem foldl_blockOnKnown_reach (s : Admission × Option (String × ℤ)) :
    Reach s.1 (rs.foldl (blockOnKnown ρ) s).1 := by
  induction rs generalizing s with
  | nil => exact .refl
  | cons r rs ih =>
    have hr : Reach s.1 (blockOnKnown ρ s r).1 := by
      rw [blockOnKnown]
      split
      · exact .refl
      split
      · exact .refl
      · split
        · exact block_reach s.1
        · exact block_reach s.1
    exact hr.trans (ih _)

theorem blockOnKnownTouchers_reach : Reach a (a.blockOnKnownTouchers ρ) := by
  have h := foldl_blockOnKnown_reach ρ a.running (a, none)
  rw [blockOnKnownTouchers]
  split
  · rename_i b hb
    rw [hb] at h
    exact h
  rename_i b blocker gpu hb
  rw [hb] at h
  refine h.tail ?_
  simpa only [Bool.or_false] using Step.note b false false false _ (fun h => nomatch h)

theorem ruleUnknownVRAMCandidate_reach : Reach a (a.ruleUnknownVRAMCandidate ρ) := by
  rw [ruleUnknownVRAMCandidate]
  split
  · exact .refl
  split
  · rename_i hg
    exact bootstrapEvictTouchers_reach ρ a hg
  · exact blockOnKnownTouchers_reach ρ a

theorem ruleUnknownVRAMOccupant_reach : Reach a (a.ruleUnknownVRAMOccupant ρ) := by
  apply foldl_reach
  intro b hb r hr
  split
  · exact .refl
  · exact queueOrBlock_reach b r ((reach_sameInput a b hb).running ▸ hr)

theorem drawVictims_reach (hs : ∀ r ∈ rs, r ∈ a.running) :
    Reach a (drawVictims done account a n rs).1 := by
  induction rs generalizing a n with
  | nil => exact .refl
  | cons r rs ih =>
    rw [drawVictims]
    split
    · exact .refl
    split
    · rename_i he
      exact (queue_reach a r (hs r (by simp)) he).trans
        (ih (a.queue r) _ fun o ho => hs o (by simp [ho]))
    · exact ih a n fun o ho => hs o (by simp [ho])

theorem drawVictims_blocked : (drawVictims done account a n rs).1.blocked = a.blocked := by
  induction rs generalizing a n with
  | nil => rfl
  | cons r rs ih =>
    rw [drawVictims]
    split
    · rfl
    · split
      · exact ih (a.queue r) _
      · exact ih a n

theorem mem_remaining : r ∈ a.remaining ↔ r ∈ a.running ∧ a.queued r = false := by
  simp [remaining]

def idle (ρ : Ranges) (caller : Caller) (a : Admission) (p : RunningProc → Bool) :
    List RunningProc :=
  a.orderVictims ρ caller (a.evictableOf (a.remaining.filter p))

theorem mem_idle (a : Admission) (p : RunningProc → Bool)
    (r : RunningProc) : r ∈ idle ρ caller a p ↔
      (r ∈ a.running ∧ a.queued r = false) ∧ p r = true ∧ a.mayEvict r = true := by
  rw [idle, (orderVictims_perm ρ caller a _).mem_iff, evictableOf, mem_filter,
    mem_filter, mem_remaining, and_assoc]

theorem idle_running (a : Admission) (p : RunningProc → Bool) :
    ∀ r ∈ idle ρ caller a p, r ∈ a.running :=
  fun r hr => ((mem_idle ρ caller a p r).mp hr).1.1

theorem chargeGPUBudget_reach (g : SpecGPU) : Reach a (a.chargeGPUBudget ρ g) := by
  have hd done account n := drawVictims_reach done account a n _
    (idle_running ρ (.gpu g.index) a (fun r => occupies r g.index))
  rw [chargeGPUBudget]
  simp only
  split_ifs
  · exact .refl
  · exact .refl
  · exact .refl
  · exact (hd _ _ _).trans (block_reach _)
  · exact hd _ _ _

theorem rulePerGPUVRAM_reach : Reach a (a.rulePerGPUVRAM ρ) := by
  apply foldl_reach
  intro b _ g _
  exact chargeGPUBudget_reach ρ b g

theorem ramBlock_reach : Reach a { a with blocked := true, ramBlocked := true } := by
  have h := Step.note a true true false a.waitMessage (fun h => nomatch h)
  simp only [Bool.or_true, Bool.or_false] at h
  exact .single h

theorem ruleHostRAM_reach : Reach a (a.ruleHostRAM ρ) := by
  have hd done account n := drawVictims_reach done account a n _
    (idle_running ρ .ram a (fun r => !(r.ramMB ≤ 0)))
  rw [ruleHostRAM]
  simp only
  split_ifs
  · exact .refl
  · exact ramBlock_reach a
  · exact .refl
  · exact .refl
  · exact (hd _ _ _).trans (ramBlock_reach _)
  · exact hd _ _ _

theorem idle_all (a : Admission) :
    a.orderVictims ρ caller (a.evictableOf a.remaining) = idle ρ caller a (fun _ => true) := by
  simp [idle]

theorem ruleProcessCount_reach : Reach a (a.ruleProcessCount ρ) := by
  rw [ruleProcessCount]
  simp only [idle_all]
  split_ifs
  · exact .refl
  · exact .refl
  · exact (drawVictims_reach _ _ a 0 _ (idle_running ρ .count a _)).trans (block_reach _)
  · exact drawVictims_reach _ _ a 0 _ (idle_running ρ .count a _)

def load (w : RunningProc → ℤ) (a : Admission) : ℤ := (a.remaining.map w).sum

theorem sum_filter (hw : ∀ r ∈ rs, p r = false → w r = 0) : ((rs.filter p).map w).sum = (rs.map w).sum := by
  induction rs with
  | nil => rfl
  | cons r rs ih =>
    have hi := ih fun o ho => hw o (by simp [ho])
    cases hr : p r with
    | false => simp [hr, hi, hw r (by simp) hr]
    | true => simp [hr, hi]

theorem load_queue (hd : DistinctIDs a.running)
    (r : RunningProc) (hr : r ∈ a.running) (hq : a.queued r = false) :
    load w (a.queue r) + w r = load w a := by
  have hn : a.remaining.Nodup := (List.Nodup.of_map _ hd).filter _
  have he : (a.queue r).remaining = a.remaining.erase r := by
    rw [List.Nodup.erase_eq_filter hn, remaining, remaining, filter_filter]
    apply filter_congr
    intro o ho
    have hqo := queued_queue a r o
    by_cases hor : o = r
    · subst hor
      have hqq : (a.queue o).queued o = true := hqo.mpr (.inl rfl)
      simp [hqq]
    have hid : o.specID ≠ r.specID := fun h => hor (eq_of_specID a.running hd o r ho hr h)
    have hqq : (a.queue r).queued o = a.queued o := by
      rw [Bool.eq_iff_iff, hqo]
      simp [hid]
    simp [hqq, hor]
  rw [load, he, add_comm]
  exact sum_map_erase w ((mem_remaining a r).mpr ⟨hr,hq⟩)

theorem sum_le_of_subperm (qs : List RunningProc) (h : rs <+~ qs) (hw : ∀ r ∈ qs, 0 ≤ w r) :
    (rs.map w).sum ≤ (qs.map w).sum := by
  obtain ⟨l,hp,hsub⟩ := h
  rw [← (hp.map w).sum_eq]
  apply (hsub.map w).sum_le_sum
  intro x hx
  obtain ⟨r,hr,rfl⟩ := mem_map.mp hx
  exact hw r hr

theorem load_mono (a b : Admission) (hb : Reach a b)
    (hw : ∀ r ∈ a.running, 0 ≤ w r) : load w b ≤ load w a := by
  have hf := (reach_sameInput a b hb).running
  have hsub : b.remaining.Sublist a.remaining := by
    rw [remaining, remaining, hf]
    apply monotone_filter_right
    intro r hr
    rw [Bool.not_eq_true'] at hr ⊢
    cases hq : a.queued r with
    | false => rfl
    | true => rw [reach_queued a b hb r hq] at hr; exact hr
  apply sum_le_of_subperm w _ _ hsub.subperm
  exact fun r hr => hw r ((mem_remaining a r).mp hr).1

/-- The draw's running figure moves by exactly what the queued processes hold,
as far as the wrap `c` of each step lets it. -/
theorem drawVictims_load (c : ℤ → ℤ) (hc : ∀ n m, c (c n-m) = c (n-m))
    (hw : ∀ n r, account n r = c (n-w r)) (demand : ℤ) (a : Admission) (n : ℤ)
    (rs : List RunningProc) (hd : DistinctIDs a.running) (hn : rs.Nodup)
    (hs : ∀ r ∈ rs, r ∈ a.running ∧ a.queued r = false) (h : n = c (demand+load w a)) :
    (drawVictims done account a n rs).2 =
      c (demand+load w (drawVictims done account a n rs).1) := by
  induction rs generalizing a n with
  | nil => exact h
  | cons r rs ih =>
    obtain ⟨hr,hrs⟩ := nodup_cons.mp hn
    obtain ⟨hrun,hq⟩ := hs r (by simp)
    rw [drawVictims]
    split
    · exact h
    split
    · apply ih (a.queue r) (account n r) hd hrs
      · intro o ho
        obtain ⟨horun,hoq⟩ := hs o (by simp [ho])
        refine ⟨horun,?_⟩
        rw [← Bool.not_eq_true, queued_queue, not_or]
        refine ⟨fun hid => ?_,by simp [hoq]⟩
        exact hr (eq_of_specID a.running hd o r horun hrun hid ▸ ho)
      · rw [hw, h, hc, ← load_queue w a hd r hrun hq, ← add_assoc, add_sub_cancel_right]
    · exact ih a n hd hrs (fun o ho => hs o (by simp [ho])) h

/-- Unless the draw stops because it is done, it queues every member of a
family that may go and that contains the higher siblings of its members. -/
theorem drawVictims_exhausts
    (W : RunningProc → Prop) (a : Admission) (n : ℤ) (rs : List RunningProc)
    (ho : HighestFirst rs) (hm : ∀ r ∈ a.running, W r → a.mayEvict r = true)
    (hc : ∀ r ∈ a.running, W r → ∀ o ∈ a.running, baseOf o = baseOf r →
      r.instanceIdx < o.instanceIdx → W o)
    (hi : ∀ r ∈ a.running, W r → a.queued r = true ∨ r ∈ rs) (hs : ∀ r ∈ rs, r ∈ a.running) :
    done (drawVictims done account a n rs).2 = true ∨
      ∀ r ∈ a.running, W r → (drawVictims done account a n rs).1.queued r = true := by
  induction rs generalizing a n with
  | nil =>
    right
    intro r hr hwr
    simpa [drawVictims] using hi r hr hwr
  | cons x rs ih =>
    obtain ⟨hx,hrs⟩ := pairwise_cons.mp ho
    rw [drawVictims]
    split
    · rename_i hdone
      exact .inl hdone
    split
    · apply ih (a.queue x) (account n x) hrs hm hc
      · intro r hr hwr
        rw [queued_queue]
        rcases hi r hr hwr with hq | hq
        · exact .inl (.inr hq)
        · rcases mem_cons.mp hq with rfl | hq
          · exact .inl (.inl rfl)
          · exact .inr hq
      · exact fun r hr => hs r (by simp [hr])
    rename_i hne
    apply ih a n hrs hm hc
    · intro r hr hwr
      rcases hi r hr hwr with hq | hq
      · exact .inl hq
      rcases mem_cons.mp hq with rfl | hq
      · -- A member is passed over only while a higher sibling is neither
        -- queued nor still ahead, and the order leaves none ahead.
        refine absurd ((evictable_iff a r).mpr ⟨hm r hr hwr,?_⟩) hne
        intro o hor hb hlt
        rcases hi o hor (hc r hr hwr o hor hb hlt) with hq | hq
        · exact hq
        rcases mem_cons.mp hq with rfl | hq
        · omega
        · have := hx o hq hb.symm
          omega
      · exact .inr hq
    · exact fun r hr => hs r (by simp [hr])

end OnPremGateway.AdmissionSteps
