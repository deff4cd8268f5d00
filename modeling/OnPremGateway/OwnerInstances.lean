import OnPremGateway.OwnerTurns

/-!
# Configs and requests as moves

The commands that make the state of an instance. A pushed config follows its
specs: it makes, revises and removes states and replaces their specs. A request
may make the instance it names, and is then answered or queued once.
-/

set_option autoImplicit false

namespace OnPremGateway.OwnerInstances
open RuntimeTypes InstanceModel OwnerModel List Owner Bool Option
open LabelledRuns OwnerMoves OwnerPaths
open OwnerEffects OwnerSound OwnerSettled
open OwnerTurns

variable (E : Env) (o : Owner) (key : String) (spec : Spec)

section Configs

def Adopt : Set Label := {.quiet, .plain, .create, .respec, .unpark}

theorem grow_adopt : Grow ⊆ Adopt := by
  intro l hl
  rcases hl with rfl | rfl | rfl <;> simp [Adopt]

theorem plain_adopt : Plain ⊆ Adopt := plain_grow.trans grow_adopt

theorem still_adopt : Still ⊆ Adopt := still_plain.trans plain_adopt

theorem wind_adopt : Wind ⊆ Adopt := by
  intro l hl
  rcases hl with rfl | rfl | rfl <;> simp [Adopt]

theorem create_grow (k : ℤ)
    (hk : 0 ≤ k ∧ k ≤ maxInstanceIndex)
    (hi : k ≠ 0 → spec.id = instanceKey spec.instanceOf k) : Steps Grow o (o.create E spec k) := by
  rw [create]
  split
  · exact Via.refl _ o
  · rename_i hn
    refine Via.single (by simp [Grow]) (.create o spec.id _ (by simpa using hn) ?_)
    exact ⟨rfl,hk,hi,rfl,rfl,rfl,rfl,rfl,rfl,rfl,rfl,rfl,rfl,rfl,rfl⟩

theorem specForInstance_key (base : Spec) (k : ℤ) (hk : k ≠ 0) :
    (specForInstance base k).id = instanceKey (specForInstance base k).instanceOf k := by
  rw [specForInstance, if_neg hk]

theorem ensureProtectedFloor_grow : Steps Grow o (o.ensureProtectedFloor E) := by
  apply forEach_steps
  intro E o spec
  have hmem : ∀ k ∈ floorIndexes spec, instanceAllowed spec k = true ∧ k ≠ 0 := by
    intro k hk
    have hp := mem_takeWhile_imp hk
    rw [and_eq_true] at hp
    obtain ⟨i,-,rfl⟩ := mem_map.mp (takeWhile_subset _ hk)
    refine ⟨hp.2,?_⟩
    omega
  generalize floorIndexes spec = ks at hmem
  induction ks generalizing E o with
  | nil => exact Via.refl _ o
  | cons k ks ih =>
    rw [forEach]
    refine Via.trans ?_ (ih (E.sub 1) _ fun j hj => hmem j (mem_cons_of_mem k hj))
    split
    · exact Via.refl _ o
    · obtain ⟨ha,hne⟩ := hmem k mem_cons_self
      exact create_grow _ o _ k (instanceAllowed_range spec k ha)
        fun _ => specForInstance_key spec k hne

theorem reconcileSpec_adopt (hid : spec.id = key)
    (hk : ∀ st, o.find key = some st →
      st.instanceIdx ≠ 0 → key = instanceKey spec.instanceOf st.instanceIdx)
    (hb : ∀ st, o.find key = some st → isBurst spec st.instanceIdx = true → st.state ≠ .backoff) :
    Steps Adopt o (o.reconcileSpec E key spec) := by
  rw [reconcileSpec]
  cases h : o.find key with
  | none => exact Via.refl _ o
  | some st =>
    simp only
    have r : Steps Adopt o (o.put key { st with spec := spec }) :=
      Via.single (by simp [Adopt]) (.respec o key st spec h hid (hk st h) (hb st h))
    have h1 := find_put_self o key { st with spec := spec }
    refine r.trans (Via.mono ?_ wind_adopt)
    split
    · rename_i hc
      rw [and_eq_true] at hc
      have hp : st.proc = none := by simpa using hc.2
      split
      · rename_i hs
        refine Via.mono ?_ plain_wind
        apply setState_plain
        intro st' h' _
        rw [h1] at h'
        cases h'
        refine .rest _ hp (fun hb => ?_) (by simp)
        rw [hb] at hs
        simp at hs
      · split
        · rename_i hs
          exact unpark_wind _ _ key _ h1 hs hp
        · exact Via.refl _ _
    · split
      · exact (beginDrain_plain _ _ _).mono plain_wind
      · exact Via.refl _ _

theorem cancelWaiterTimers_congr (o o' : Owner) (id : String) (ws : List Waiter)
    (h : o.timers = o'.timers) :
    (o.cancelWaiterTimers id ws).timers = (o'.cancelWaiterTimers id ws).timers := by
  induction ws generalizing o o' with
  | nil => exact h
  | cons w ws ih =>
    apply ih
    change (o.cancelTimer _ w.timer).timers = (o'.cancelTimer _ w.timer).timers
    cases w.timer with
    | none => exact h
    | some n => simp only [cancelTimer, h]

/-- What is left of a state that is dropped are the answers to its queue. -/
theorem drop_congr (a b : SpecState) (err : Err)
    (hi : a.spec.id = b.spec.id) (hw : a.pending = b.pending) :
    ((o.put key a).failPending key err).deleteState key =
      ((o.put key b).failPending key err).deleteState key := by
  have ht := cancelWaiterTimers_congr (o.put key a) (o.put key b) b.spec.id b.pending rfl
  rw [failPending_some _ key a err (find_put_self o key a),
    failPending_some _ key b err (find_put_self o key b), hi, hw, ht]
  simp only [deleteState, put, KeyedTable.erase_insert]

theorem removeState_wind : Steps Wind o (o.removeState E key) := by
  rw [removeState]
  cases h : o.find key with
  | none => exact Via.refl _ o
  | some st =>
    simp only
    split
    · have r : Steps Still o (o.put key { st with removed := true }) := by
        apply put_still o key st _ h
        constructor <;> rfl
      exact ((r.mono still_plain).trans (beginDrain_plain E _ key)).mono plain_wind
    rename_i hp
    have hp : st.proc = none := by simpa using hp
    -- the state that is dropped counts as rested before
    set ts := (o.cancelTimer (.backoff st.spec.id) st.backoffTimer).timers with hts
    set rested : SpecState := { st with
      backoffTimer := none, since := st.since
      state := if st.state = State.backoff then .stopped else st.state } with hrested
    set o1 := put { o with timers := ts } key rested with ho1
    have m1 : Move .unpark o o1 := .unpark o key st st.since h (fun _ => hp)
    have h1 : o1.find key = some rested := find_put_self _ key rested
    have h2 : (o1.failPending key .modelNotManaged).find key = some { rested with pending := [] } := by
      rw [find_failPending_self, h1]
      rfl
    have hrest : rested.state ≠ .backoff := by
      rw [hrested]
      dsimp only
      split
      · simp
      · assumption
    have m3 := Move.erase _ key _ _ h2 hp rfl (fun hs => absurd hs hrest) (.inl rfl)
    have hc : o.cancelBackoff key = put { o with timers := ts } key
      { st with backoffTimer := none } := cancelBackoff_some o key st h
    have he : ((o.cancelBackoff key).failPending key .modelNotManaged).deleteState key =
        (o1.failPending key .modelNotManaged).deleteState key := by
      rw [hc]
      exact drop_congr _ key _ rested _ rfl rfl
    rw [he]
    exact (Via.single (by simp [Wind]) m1).trans
      (((failPending_plain o1 key _).trans (move_plain m3)).mono plain_wind)

theorem adoptSpec_adopt (ho : Sound o)
    (hr : reservedSpecID spec.id = false) : Steps Adopt o (o.adoptSpec E spec) := by
  rw [adoptSpec]
  split
  · exact (create_grow _ o spec 0 (by decide) fun h => absurd rfl h).mono grow_adopt
  have r : Steps Still o (o.modify spec.id fun st => { st with removed := false }) := by
    apply modify_still
    intro st _
    constructor <;> rfl
  have ho1 := sound_of_steps r ho
  -- a key without the separator belongs to the first instance
  have hz : ∀ st, (o.modify spec.id fun st => { st with removed := false }).find spec.id = some st →
      st.instanceIdx = 0 := by
    intro st h
    by_contra hne
    have hkey := (ho1.states spec.id st h).instance_key hne
    rw [hkey, reserved_instanceKey _ _ hne] at hr
    cases hr
  refine (r.mono still_adopt).trans (reconcileSpec_adopt _ _ spec.id spec rfl ?_ ?_)
  · exact fun st h hne => absurd (hz st h) hne
  · intro st h hburst
    rw [hz st h, not_isBurst_zero] at hburst
    cases hburst

theorem dropUndesired_wind (newIDs : List String) (E : Env) (o : Owner) (key : String) :
    Steps Wind o (Owner.dropUndesired newIDs E o key) := by
  rw [dropUndesired]
  split
  · exact Via.refl _ o
  · split
    · exact Via.refl _ o
    · exact removeState_wind E o key

theorem rebuildUpstreamIndex_still : Steps Still o (o.rebuildUpstreamIndex E) := by
  apply global_still
  constructor <;> rfl

/-- An instance without a process no longer waits for a retry. -/
theorem leaveBackoff_wind (st : SpecState) (s : State)
    (h : o.find key = some st) (hp : st.proc = none) (hs : st.state = s) :
    Steps Wind o (if s = .backoff then (o.cancelBackoff key).setState E key .stopped
      else o.cancelBackoff key) ∧
    ∃ st', (if s = .backoff then (o.cancelBackoff key).setState E key .stopped
        else o.cancelBackoff key).find key = some st' ∧
      st'.instanceIdx = st.instanceIdx ∧ st'.state ≠ .backoff ∧ st'.proc = none ∧
      st'.pending = st.pending := by
  subst hs
  have hc : (o.cancelBackoff key).find key = some { st with backoffTimer := none } := by
    rw [cancelBackoff_some o key st h]
    exact find_put_self _ key _
  by_cases hb : st.state = .backoff
  · rw [if_pos hb]
    refine ⟨unpark_wind E o key st h hb hp,
      { st with backoffTimer := none, state := .stopped, since := E.here.now },?_,rfl,by simp,hp,rfl⟩
    rw [find_setState, hc]
    simp [hb]
  · rw [if_neg hb]
    exact ⟨cancelBackoff_wind o key st h hb,_,hc,rfl,hb,hp,rfl⟩

theorem reviseInstance_adopt (specs : List Spec) (E : Env) (o : Owner) (key : String)
    (ho : Sound o) : Steps Adopt o (Owner.reviseInstance specs E o key) := by
  rw [reviseInstance]
  cases h : o.find key with
  | none => exact Via.refl _ o
  | some st =>
    simp only
    split
    · exact Via.refl _ o
    rename_i hne
    split
    · exact Via.refl _ o
    rename_i base hbase
    have hbase : base.id = st.spec.instanceOf := by simpa using find?_some hbase
    have hkey : instanceKey base.id st.instanceIdx = key := by
      rw [hbase]
      exact ((ho.states key st h).instance_key hne).symm
    have hid : (specForInstance base st.instanceIdx).id = key :=
      (specForInstance_id base _).trans hkey
    have hinst : key = instanceKey (specForInstance base st.instanceIdx).instanceOf
        st.instanceIdx := by
      rw [← specForInstance_key base _ hne, hid]
    split
    · exact (removeState_wind _ o key).mono wind_adopt
    split
    · exact (removeState_wind _ o key).mono wind_adopt
    have r : Steps Still o (o.put key { st with removed := false }) := by
      apply put_still o key st _ h
      constructor <;> rfl
    have h1 := find_put_self o key { st with removed := false }
    refine (r.mono still_adopt).trans ?_
    -- the spec is replaced in a state that does not wait for a retry
    have respec (o' : Owner) (st' : SpecState) (h' : o'.find key = some st')
        (hi : st'.instanceIdx = st.instanceIdx)
        (hb : isBurst base st.instanceIdx = true → st'.state ≠ .backoff) :
        Steps Adopt o' (o'.reconcileSpec (E.sub 2) key
          (specForInstance base st.instanceIdx)) := by
      refine reconcileSpec_adopt _ o' key _ hid ?_ ?_
      · intro s hs _
        rw [h'] at hs
        cases hs
        rw [hi]
        exact hinst
      · intro s hs hburst
        rw [h'] at hs
        cases hs
        rw [hi, isBurst_specForInstance] at hburst
        exact hb hburst
    split
    · rename_i hburst
      rw [and_eq_true] at hburst
      obtain ⟨r3,s3,h3,hi3,hs3,hp3,hw3⟩ := leaveBackoff_wind (E.sub 1) _ key _ st.state h1
        (by simpa using hburst.2) rfl
      generalize (if st.state = .backoff then _ else _ : Owner) = o3 at r3 h3 ⊢
      refine (r3.mono wind_adopt).trans ?_
      split
      · rename_i hw
        exact (retire_plain _ key s3 h3 hp3 (hw3.trans (length_eq_zero_iff.mp hw))
          fun hs => absurd hs hs3).mono plain_adopt
      · exact respec _ s3 h3 hi3 fun _ => hs3
    · rename_i hburst
      refine respec _ _ h1 rfl ?_
      intro hb hs
      have hp := ((ho.states key st h).backoff hs).1
      simp [hb, hp] at hburst

theorem adoptConfig_adopt (cfg : Config) (ho : Sound o)
    (hr : ∀ spec ∈ cfg.specs, reservedSpecID spec.id = false) :
    Steps Adopt o (o.adoptConfig E cfg) := by
  rw [adoptConfig]
  have r1 : Steps Still o { o with cfg := cfg, allowedPairs := cfg.allowedPairs } := by
    apply global_still
    constructor <;> rfl
  have r1 := r1.mono still_adopt
  set o1 : Owner := { o with cfg := cfg, allowedPairs := cfg.allowedPairs }
  have ho1 := sound_of_steps r1 ho
  have r2 := forEach_sound Adopt adoptSpec cfg.specs
    (fun E o spec hs hx => adoptSpec_adopt E o spec hx (hr spec hs)) (E.sub 0) o1 ho1
  set o2 := forEach adoptSpec (E.sub 0) o1 cfg.specs
  have r3 := (forEach_steps Wind _ (dropUndesired_wind (cfg.specs.map Spec.id)) (E.sub 1) o2
    (o2.keys (E.sub 2))).mono wind_adopt
  set o3 := forEach (dropUndesired (cfg.specs.map Spec.id)) (E.sub 1) o2 (o2.keys (E.sub 2))
  have r4 := (rebuildUpstreamIndex_still (E.sub 3) o3).mono still_adopt
  set o4 := o3.rebuildUpstreamIndex (E.sub 3)
  have ho4 := sound_of_steps (r2.trans (r3.trans r4)) ho1
  have r5 := forEach_sound Adopt (reviseInstance cfg.specs) (o4.keys (E.sub 5))
    (fun E o key _ hx => reviseInstance_adopt cfg.specs E o key hx) (E.sub 4) o4 ho4
  exact r1.trans (r2.trans (r3.trans (r4.trans (r5.trans
    ((ensureProtectedFloor_grow (E.sub 6) _).mono grow_adopt)))))

theorem drainForced_plain (newIDs : List String) (E : Env) (o : Owner) (key : String) :
    Steps Plain o (Owner.drainForced newIDs E o key) := by
  rw [drainForced]
  split
  · exact Via.refl _ o
  split
  · exact Via.refl _ o
  · split
    · exact beginDrain_plain E o key
    · exact Via.refl _ o

/-- A pushed config changes nothing, or it is adopted and everything that
waits is asked for again. -/
theorem applyConfig_path (cfg : Config) (ho : Sound o) :
    o.applyConfig E cfg = o ∨ ∃ o₁ o₂ E₂, Steps Adopt o o₁ ∧ Calmly o₁ o₂ ∧
      o.applyConfig E cfg = o₂.wakeAdmissionCandidates E₂ := by
  rw [applyConfig]
  simp only
  split
  · exact .inl rfl
  right
  refine ⟨_,_,E.sub 4,adoptConfig_adopt (E.sub 0) o
    { cfg with specs := withoutReservedSpecIDs cfg.specs } ho ?_,?_,rfl⟩
  · intro spec hs
    simpa using (mem_filter.mp hs).2
  · exact (calmly_of_plain (forEach_steps Plain _ (drainForced_plain _) _ _ _)).trans
      (forEach_rel Calmly Calmly.refl Calmly.trans _ reask_calmly _ _ _)

end Configs

section Requests

theorem resolveAddress_range (model specID b : String) (k : ℤ)
    (h : o.resolveAddress model = some (specID, b, k)) : 0 ≤ k ∧ k ≤ maxInstanceIndex := by
  rw [resolveAddress] at h
  split at h
  · split at h
    · cases h
    · cases h
      decide
  simp only at h
  split at h
  · cases h
  split at h
  · cases h
  split at h
  · cases h
  · split at h
    · cases h
    · cases h
      exact parseInstanceAddress_range model

def Requested (reply : ℕ) (o o' : Owner) : Prop :=
  Move (.resolve reply) o o' ∨ ∃ key st E₁ E₂, o.find key = some st ∧
    o' = (o.enqueue E₁ key reply).admitAndStart E₂ key

theorem ensureInstance_requested (reply : ℕ) :
    Requested reply o (o.ensureInstance E key reply) := by
  rw [ensureInstance]
  cases h : o.find key with
  | none => exact .inl (.refuse o reply _)
  | some st =>
    simp only
    split
    · rename_i hs
      simp only [and_eq_true, decide_eq_true_eq, isSome_iff_exists] at hs
      obtain ⟨hs,p,hp⟩ := hs
      exact .inl (.grant _ o key st p reply h hp hs)
    split
    · exact .inl (.refuse o reply _)
    split
    · exact .inl (.refuse o reply _)
    · split
      · exact .inl (.refuse o reply _)
      · exact .inr ⟨key,st,_,_,h,rfl⟩

/-- The failed burst instance that a request replaces has an empty queue. -/
theorem instanceForRequest_grow (base : SpecState) (k : ℤ)
    (hk : 0 ≤ k ∧ k ≤ maxInstanceIndex) (hset : ∀ key, SettledAt o key) :
    Steps Grow o (o.instanceForRequest E base k) := by
  rw [instanceForRequest]
  refine Via.trans ?_ (create_grow E _ (specForInstance base.spec k) k hk
    fun hne => specForInstance_key base.spec k hne)
  split
  · rename_i hfail
    rw [Option.any_eq_true] at hfail
    obtain ⟨st,h,hfail⟩ := hfail
    simp only [and_eq_true, isNone_iff_eq_none] at hfail
    exact (retire_plain o _ st h hfail.1.2 (hset _ st h hfail.1.1 hfail.1.2)
      fun _ => hfail.1.1).mono plain_grow
  · exact Via.refl _ o

theorem handleEnsure_path (model : String) (reply : ℕ) (serving : Bool)
    (hset : o.closing = false → ∀ key, SettledAt o key) :
    ∃ o₁, Steps Grow o o₁ ∧ Requested reply o₁ (o.handleEnsure E model reply serving) := by
  rw [handleEnsure]
  have refuse (err : Err) : ∃ o₁, Steps Grow o o₁ ∧
      Requested reply o₁ (o.send reply (.refused err)) :=
    ⟨o,Via.refl _ o,.inl (.refuse o reply err)⟩
  split
  · exact refuse _
  rename_i hc
  have hset := hset (by simpa using hc)
  split
  · exact refuse _
  rename_i specID b k hres
  have hk := resolveAddress_range o model specID b k hres
  split
  · exact refuse _
  rename_i st _
  split
  · exact refuse _
  split
  · simp only
    split
    · refine ⟨_,?_,.inl (.refuse _ reply _)⟩
      split
      · rename_i hspent
        rw [Option.any_eq_true] at hspent
        obtain ⟨st',h',hspent⟩ := hspent
        simp only [SpecState.spentBurst, SpecState.burstLeftNothing, and_eq_true,
          decide_eq_true_eq, isNone_iff_eq_none, length_eq_zero_iff] at hspent
        exact (retire_plain o _ st' h' hspent.1.1.2 hspent.1.2
          fun _ => hspent.1.1.1.1).mono plain_grow
      · exact Via.refl _ o
    · exact ⟨_,instanceForRequest_grow _ o st k hk hset,ensureInstance_requested _ _ _ reply⟩
  · exact ⟨o,Via.refl _ o,ensureInstance_requested _ o specID reply⟩

end Requests

end OnPremGateway.OwnerInstances
