import OnPremGateway.AdmissionVerdict
import OnPremGateway.OwnerMoves

/-!
# The owner's functions as moves

Each function an admission is made of is a sequence of moves. Drains, timers
and answers are plain; a verdict and a wake at the end of a grace window are
moves of their own.
-/

set_option autoImplicit false

namespace OnPremGateway.OwnerPaths
open RuntimeTypes AdmissionModel AdmissionVerdict List Option
open InstanceModel OwnerModel LabelledRuns
open OwnerMoves

variable (E : Env) (o : Owner) (purpose : Purpose) (key : String) (st : SpecState) (s : State)

theorem quiet_still {o o' : Owner} (h : Move .quiet o o') : Steps Still o o' := Via.single rfl h

theorem move_plain {o o' : Owner} (h : Move .plain o o') : Steps Plain o o' :=
  Via.single (by simp [Plain]) h

/-- What relates the owners around each pass relates those around the loop. -/
theorem forEach_rel {α : Type} (R : Owner → Owner → Prop) (refl : ∀ o, R o o)
    (trans : ∀ {a b c}, R a b → R b c → R a c) (f : Env → Owner → α → Owner)
    (hf : ∀ E o x, R o (f E o x)) (E : Env) (o : Owner) (xs : List α) : R o (forEach f E o xs) := by
  induction xs generalizing E o with
  | nil => exact refl o
  | cons x xs ih =>
    rw [forEach]
    exact trans (hf (E.sub 0) o x) (ih (E.sub 1) (f (E.sub 0) o x))

theorem forEach_steps {α : Type} (L : Set Label) (f : Env → Owner → α → Owner)
    (hf : ∀ E o x, Steps L o (f E o x)) (E : Env) (o : Owner) (xs : List α) :
    Steps L o (forEach f E o xs) :=
  forEach_rel (Steps L) (Via.refl L) Via.trans f hf E o xs

/-- What each pass brings about at its own element, and no other pass undoes,
holds at every element in the end. -/
theorem forEach_each {α : Type} (I : Owner → Prop) (Q : α → Owner → Prop)
    (f : Env → Owner → α → Owner) (hI : ∀ E o x, I o → I (f E o x))
    (hk : ∀ E o x y, I o → Q x o → Q x (f E o y)) (hv : ∀ E o x, I o → Q x (f E o x))
    (E : Env) (o : Owner) (xs : List α) (ho : I o) (x : α) (hx : x ∈ xs) :
    Q x (forEach f E o xs) := by
  induction xs generalizing E o with
  | nil => cases hx
  | cons y xs ih =>
    rw [forEach]
    rcases mem_cons.mp hx with rfl | hx
    · have hrest : ∀ a, I a → Q x a → I (forEach f (E.sub 1) a xs) ∧ Q x (forEach f (E.sub 1) a xs) :=
        fun a ha hq => forEach_rel (fun a b => I a ∧ Q x a → I b ∧ Q x b) (fun _ h => h)
          (fun hab hbc h => hbc (hab h)) f (fun E o y h => ⟨hI E o y h.1,hk E o x y h.1 h.2⟩)
          (E.sub 1) a xs ⟨ha,hq⟩
      exact (hrest _ (hI _ _ _ ho) (hv _ _ _ ho)).2
    · exact ih (E.sub 1) _ (hI _ _ _ ho) hx

theorem put_still (st st' : SpecState) (h : o.find key = some st)
    (hq : Quiet st st') : Steps Still o (o.put key st') :=
  quiet_still (.quiet o key st st' h hq)

theorem modify_still (f : SpecState → SpecState)
    (hf : ∀ st, o.find key = some st → Quiet st (f st)) : Steps Still o (o.modify key f) := by
  cases h : o.find key with
  | none =>
    rw [modify_none o key f h]
    exact Via.refl _ o
  | some st =>
    rw [modify_some o key st f h]
    exact put_still o key st (f st) h (hf st h)

theorem global_still (o o' : Owner) (hb : Background o o') : Steps Still o o' :=
  quiet_still (.global o o' hb)

theorem setState_plain (hs : ∀ st, o.find key = some st → st.state ≠ s → Shifts o st s) :
    Steps Plain o (o.setState E key s) := by
  cases h : o.find key with
  | none =>
    rw [Owner.setState, modify_none o key _ h]
    exact Via.refl _ o
  | some st =>
    rw [Owner.setState, modify_some o key st _ h]
    by_cases he : st.state = s
    · rw [if_pos he]
      exact (put_still o key st st h (Quiet.refl st)).mono still_plain
    · rw [if_neg he]
      exact move_plain (.shift o key st s _ h (hs st h he))

theorem recordFailure_still (key message : String) (exitCode : ℤ)
    (stderrTail : String) : Steps Still o (o.recordFailure E key message exitCode stderrTail) := by
  apply modify_still
  intro st _
  constructor <;> rfl

theorem noteAdmissionWait_still (key message : String) :
    Steps Still o (o.noteAdmissionWait E key message) := by
  apply modify_still
  intro st _
  split
  · exact Quiet.refl st
  · split
    · exact Quiet.refl st
    · constructor <;> rfl

theorem failPending_plain (err : Err) : Steps Plain o (o.failPending key err) := by
  cases h : o.find key with
  | none =>
    rw [failPending_none o key err h]
    exact Via.refl _ o
  | some st => exact move_plain (.fail o key st err h)

theorem keepsBackoff_cancelTimer (handle : Option ℕ)
    (hp : ∀ id, purpose ≠ .backoff id) :
    KeepsBackoff o.timers (o.cancelTimer purpose handle).timers := by
  intro T hT id hid
  apply mem_cancelTimer hT
  rw [hid]
  exact (hp id).symm

theorem arming_cancelTimer (handle : Option ℕ) : Arming o (o.cancelTimer purpose handle).timers :=
  ⟨[],cancelTimer_sublist o purpose handle,fun _ h => nomatch h⟩

theorem Arming.cons {o : Owner} {ts : List Timer} {T : Timer} (ha : Armable o T)
    (h : ts.Sublist o.timers) : Arming o (T::ts) :=
  ⟨[T],h.cons_cons T,fun _ hT => mem_singleton.mp hT ▸ ha⟩

theorem cancelTimer_still (handle : Option ℕ)
    (hp : ∀ id, purpose ≠ .backoff id) (hg : purpose ≠ .grace) :
    Steps Still o (o.cancelTimer purpose handle) := by
  rw [cancelTimer_eq]
  refine quiet_still (.timers o _ o.nextTimer (keepsBackoff_cancelTimer o purpose handle hp) le_rfl
    (arming_cancelTimer o purpose handle) fun T hT hT' => mem_cancelTimer hT ?_)
  rw [hT']
  exact hg.symm

theorem scheduleAfter_still (delay : ℤ) (purpose : Purpose)
    (ha : Armable o ⟨purpose, o.nextTimer, delay⟩) :
    Steps Still o (o.scheduleAfter delay purpose) := by
  refine quiet_still (.timers o _ (o.nextTimer+1) ?_ (Nat.le_succ _)
    (Arming.cons ha (List.Sublist.refl _)) ?_)
  · exact fun T hT _ _ => mem_cons_of_mem _ hT
  · exact fun T hT _ => mem_cons_of_mem _ hT

theorem armDrain_plain (h : o.find key = some st)
    (hs : st.state = .draining) : Steps Plain o (o.armDrain key) := by
  rw [Owner.armDrain, h]
  simp only
  cases hp : st.proc with
  | none => exact Via.refl _ o
  | some p =>
    have harm : Armable o ⟨.drain key p.gen, o.nextTimer, drainGrace⟩ := by
      refine ⟨fun _ => by simp,?_⟩
      intro id gen he
      simp only [Purpose.drain.injEq] at he
      exact ⟨st,p,he.1 ▸ h,hp,he.2,hs⟩
    refine ((scheduleAfter_still o drainGrace (.drain key p.gen) harm).mono still_plain).trans ?_
    refine move_plain (.retime _ key st p _ h hp ?_)
    constructor <;> rfl

theorem beginDrain_plain : Steps Plain o (o.beginDrain E key) := by
  rw [Owner.beginDrain]
  cases h : o.find key with
  | none => exact Via.refl _ o
  | some st =>
    simp only
    split
    · exact Via.refl _ o
    rename_i hn
    rw [Bool.or_eq_true, not_or] at hn
    obtain ⟨p,hp⟩ : ∃ p, st.proc = some p := by
      rw [← ne_none_iff_exists']
      simpa using hn.1
    have hdrain : st.state ≠ .draining := by simpa using hn.2
    have hset : Steps Plain o (o.setState (E.sub 0) key .draining) := by
      apply setState_plain
      intro st' h' _
      rw [h] at h'
      cases h'
      exact .drain p hp hdrain
    have hfind : (o.setState (E.sub 0) key .draining).find key =
        some { st with state := .draining, since := (E.sub 0).here.now } := by
      rw [find_setState, h]
      simp [hdrain]
    refine hset.trans ?_
    split
    · rename_i hz
      exact move_plain (.signal _ key _ p .drainStarted hfind hp (.inl rfl) (.inl hz))
    · exact armDrain_plain _ key _ hfind rfl

/-- A retry is entered with no process, or after a start that failed. -/
theorem enterBackoff_plain (hs : ∀ st, o.find key = some st →
      (st.proc = none ∧ st.state ≠ .backoff) ∨ st.state = .startFailed) :
    Steps Plain o (o.enterBackoff E key) := by
  rw [Owner.enterBackoff]
  cases h : o.find key with
  | none => exact Via.refl _ o
  | some st =>
    simp only
    split
    · rename_i hc
      apply setState_plain
      intro st' h' _
      rcases hs st' h' with ⟨hp,hn⟩ | hf
      · exact .rest _ hp hn (by simp)
      · exact .closing hc hf
    rename_i hc
    split
    · exact failPending_plain o key .startFailed
    rename_i hb
    split
    · rename_i hp
      rw [modify_some o key st _ h]
      exact move_plain (.deferral o key st h hp)
    rename_i hp
    have hn : st.state ≠ .backoff := by
      rcases hs st h with hn | hf
      · exact hn.2
      · simp [hf]
    exact move_plain (.park E o key st h (by simpa using hp) (by simpa using hb) hn
      (by simpa using hc))

theorem absorbReading_quiet (byGPU : IntMap) (st : SpecState) :
    Quiet st (absorbReading byGPU st) := by
  rw [absorbReading]
  split
  · exact Quiet.refl st
  · split
    · exact Quiet.refl st
    · constructor <;> first | rfl | exact Bool.le_true _

theorem buildSnapshot_still : Steps Still o (o.buildSnapshot E).2 := by
  have absorb (measured : AList (fun _ : ℤ => IntMap)) (E : Env) (o : Owner) :
      Steps Still o (o.absorbReadings measured E) := by
    apply forEach_steps
    intro E o key
    exact modify_still o key _ fun st _ => absorbReading_quiet _ st
  have freed (E : Env) (o : Owner) : Steps Still o (o.pendingRAMFreedMB E) := by
    rw [Owner.pendingRAMFreedMB]
    split
    · apply global_still
      constructor <;> rfl
    · exact Via.refl _ _
  exact (absorb _ (E.sub 2) o).trans (freed (E.sub 3) _)

theorem retire_plain (h : o.find key = some st)
    (hp : st.proc = none) (hw : st.pending = []) (hb : st.state = .backoff → st.burst = true) :
    Steps Plain o (o.retire key) := by
  have he : o.retire key = Owner.deleteState
      { o with timers := (o.cancelTimer (.backoff st.spec.id) st.backoffTimer).timers } key := by
    rw [Owner.retire, cancelBackoff_some o key st h]
    simp only [Owner.deleteState, KeyedTable.erase_insert]
  rw [he]
  exact move_plain (.erase o key st _ h hp hw hb (.inr rfl))

theorem retireIfSpent_plain : Steps Plain o (o.retireIfSpent key) := by
  rw [Owner.retireIfSpent]
  cases h : o.find key with
  | none => exact Via.refl _ o
  | some st =>
    simp only
    split
    · exact Via.refl _ o
    rename_i hn
    rw [Bool.or_eq_true, not_or] at hn
    have hb := hn.1
    simp only [SpecState.burstLeftNothing, Bool.not_eq_true', Bool.not_eq_false, Bool.and_eq_true,
      decide_eq_true_eq, isNone_iff_eq_none, length_eq_zero_iff] at hb
    exact retire_plain o key st h hb.1.2 hb.2 fun _ => hb.1.1.1

theorem cancelGrace_regrace : Move .regrace o o.cancelGrace := by
  have hk := keepsBackoff_cancelTimer o .grace o.graceTimer (by simp)
  have m := Move.regrace o (o.cancelTimer .grace o.graceTimer).timers o.nextTimer none 0 hk le_rfl
    (arming_cancelTimer o _ _) (fun _ h => nomatch h)
  rw [Owner.cancelGrace, cancelTimer_eq]
  exact m

/-- The new timer is the one the handle names. -/
theorem armGrace_regrace (expiry : Option ℤ) : Move .regrace o (o.armGrace E expiry) := by
  have hk := keepsBackoff_cancelTimer o .grace o.graceTimer (by simp)
  have arm (delay at' : ℤ) : Move .regrace o { o with
      timers := ⟨.grace, o.nextTimer, delay⟩::(o.cancelTimer .grace o.graceTimer).timers
      nextTimer := o.nextTimer+1, graceTimer := some o.nextTimer, graceTimerAt := at' } := by
    refine .regrace o _ _ _ _ ?_ (Nat.le_succ _) (Arming.cons ?_ (cancelTimer_sublist o _ _)) ?_
    · exact fun T hT id hp => mem_cons_of_mem _ (hk T hT id hp)
    · exact ⟨fun _ => by simp,fun _ _ h => by simp at h⟩
    · rintro serial ⟨⟩
      exact ⟨_,mem_cons_self,rfl,rfl⟩
  unfold Owner.armGrace
  rw [cancelTimer_eq]
  cases expiry with
  | none => exact arm graceWakeSlack 0
  | some expiry => exact arm (max 0 (sub expiry E.here.now+graceWakeSlack)) expiry

theorem rescheduleGraceWake_regrace : Steps {.regrace} o (o.rescheduleGraceWake E) := by
  rw [Owner.rescheduleGraceWake]
  split
  · exact Via.single rfl (cancelGrace_regrace o)
  split
  · exact Via.single rfl (cancelGrace_regrace o)
  simp only
  split
  · exact Via.refl _ o
  · exact Via.single rfl (armGrace_regrace (E.sub 1) o _)

theorem regrace_calm : ({.regrace} : Set Label) ⊆ Calm := by simp [Calm]

theorem verdict_calm : ({.verdict} : Set Label) ⊆ Calm := by simp [Calm]

def Vacant (o : Owner) (key : String) : Prop :=
  ∀ st, o.find key = some st → st.proc = none ∧ st.state ≠ .backoff

theorem vacant_still {o o' : Owner} {key : String} (h : Steps Still o o') (hv : Vacant o key) :
    Vacant o' key := by
  intro st' h'
  obtain ⟨st,hst,hq⟩ := (still_sameTable h).back key st' h'
  rw [hq.proc, hq.state]
  exact hv st hst

theorem vacant_modify (f : SpecState → SpecState)
    (hp : ∀ st, (f st).proc = st.proc) (hs : ∀ st, (f st).state = st.state) (hv : Vacant o key) :
    Vacant (o.modify key f) key := by
  intro st' h'
  rw [find_modify_self, map_eq_some_iff] at h'
  obtain ⟨st,hst,rfl⟩ := h'
  rw [hp, hs]
  exact hv st hst

theorem vacant_setState (hs : s ≠ .backoff)
    (hv : Vacant o key) : Vacant (o.setState E key s) key := by
  intro st' h'
  rw [find_setState, map_eq_some_iff] at h'
  obtain ⟨st,hst,rfl⟩ := h'
  have hp := hv st hst
  split
  · exact hp
  · exact ⟨hp.1,hs⟩

theorem vacant_failPending (err : Err) (hv : Vacant o key) :
    Vacant (o.failPending key err) key := by
  intro st' h'
  rw [find_failPending_self, map_eq_some_iff] at h'
  obtain ⟨st,hst,rfl⟩ := h'
  exact hv st hst

theorem rest_plain (hv : Vacant o key)
    (hs : s ∈ [State.stopped, .startFailed, .crashed, .notPermitted, .pendingVRAMUnknown]) :
    Steps Plain o (o.setState E key s) :=
  setState_plain E o key s fun st h _ => .rest s (hv st h).1 (hv st h).2 hs

/-- A state without a process comes to rest, and its queue is refused. -/
theorem settle_plain (note : SpecState → SpecState) (err : Err) (hv : Vacant o key)
    (hs : s ∈ [State.stopped, .startFailed, .crashed, .notPermitted, .pendingVRAMUnknown])
    (hn : ∀ st, Quiet st (note st)) :
    Steps Plain o (((o.setState E key s).modify key note).failPending key err) :=
  ((rest_plain E o key s hv hs).trans ((modify_still _ key note fun st _ => hn st).mono
    still_plain)).trans (failPending_plain _ key err)

/-- A start that fails is noted before the wait for the retry. -/
theorem startFailure_noted (key message : String) (hv : Vacant o key) :
    ∃ note, (∀ st, Quiet st (note st)) ∧ Steps Plain (((o.setState (E.sub 0) key .startFailed).modify
      key note).failPending key .startFailed) (startFailure E o key message) := by
  have hn (st : SpecState) : Quiet st { st with
      failures := st.failures+1
      lastError := some { message := message, time := (E.sub 1).here.now, exitCode := 0
                          failures := st.failures+1, stderrTail := "" } } := by
    constructor <;> rfl
  refine ⟨_,hn,enterBackoff_plain _ _ key fun st h => .inl ?_⟩
  exact vacant_failPending _ key _ (vacant_still (modify_still _ key _ fun st _ => hn st)
    (vacant_setState (E.sub 0) o key .startFailed (by decide) hv)) st h

theorem drainVictims_plain (evict : List String) : Steps Plain o (drainVictims E o key evict) := by
  apply forEach_steps
  intro E o victimID
  refine Via.trans ?_ (beginDrain_plain E _ victimID)
  split
  · refine (modify_still o victimID _ fun st _ => ?_).mono still_plain
    constructor <;> rfl
  · exact Via.refl _ o

theorem noteVerdict_verdict (dec : Decision) : Steps {.verdict} o (o.modify key fun st =>
      { st with waitingOnRAM := dec.wait && dec.waitOnRAM
                waitingOnGrace := dec.wait && dec.waitOnGrace }) := by
  cases h : o.find key with
  | none =>
    rw [modify_none o key _ h]
    exact Via.refl _ o
  | some st =>
    rw [modify_some o key st _ h]
    exact Via.single rfl (.verdict o key st _ _ h)

def Spends (o : Owner) (key : String) (dec : Decision) : Prop :=
  dec.vramBootstrap = true → (∀ st, o.find key = some st → st.vramBootstrapDone = false) ∧
    dec.evict ≠ [] ∧ dec.noCapacity = false ∧ dec.reason = none ∧ dec.wait = false

theorem countVerdict_of_false (dec : Decision)
    (h : dec.vramBootstrap = false) : o.countVerdict key dec = o := by
  rw [Owner.countVerdict, h]
  rfl

theorem actOn_bootstrap (wake : Admitter) (E : Env) (o : Owner) (key : String) (dec : Decision)
    (st : SpecState) (hf : o.find key = some st) (h : dec.vramBootstrap = true)
    (hs : Spends o key dec) : actOn wake E o key dec = drainVictims (E.sub 0) (o.put key { st with
      bootstrapVerdicts := st.bootstrapVerdicts+1, vramBootstrapDone := true }) key dec.evict := by
  obtain ⟨-,he,hn,hr,hw⟩ := hs h
  have hlen : dec.evict.length > 0 := length_pos_iff.mpr he
  have hc : o.countVerdict key dec =
      o.put key { st with bootstrapVerdicts := st.bootstrapVerdicts+1 } := by
    rw [Owner.countVerdict, h, if_pos rfl, modify_some o key st _ hf]
  simp only [actOn, hn, hr, hw, h, hlen, hc, if_true, if_false, Bool.false_eq_true, reduceCtorEq]
  rw [modify_some _ key _ _ (find_put_self o key _), put_put]

/-- The snapshot grants a bootstrap only to a state that has had none. -/
theorem spends_of_eligible (E E' : Env) (snap : PolicySnapshot) (o : Owner) (key : String)
    (st : SpecState) (hf : o.find key = some st) : Spends o key (admitSpec E.here.ranges
      { snap with vramBootstrapEligible := o.vramBootstrapEligible E' key st }
      (o.demandSpec key st)) := by
  intro hb
  obtain ⟨hg,he,hn,hr,hw⟩ := bootstrap_cases _ _ _ hb
  refine ⟨fun st' h' => ?_,he,hn,hr,hw⟩
  rw [hf] at h'
  cases h'
  simp only [Owner.vramBootstrapEligible, Bool.and_eq_true, Bool.not_eq_true'] at hg
  exact hg.1.2

theorem Spends.modify {o : Owner} {key : String} {dec : Decision} (h : Spends o key dec)
    (f : SpecState → SpecState) (hf : ∀ st, (f st).vramBootstrapDone = st.vramBootstrapDone) :
    Spends (o.modify key f) key dec := by
  intro hb
  obtain ⟨hd,hrest⟩ := h hb
  refine ⟨fun st' h' => ?_,hrest⟩
  rw [find_modify_self, map_eq_some_iff] at h'
  obtain ⟨st,hst,rfl⟩ := h'
  rw [hf]
  exact hd st hst

/-- Nothing is known of what a state waits for until the verdict. -/
theorem reset_quiet : Quiet st
    { st with waitingOnRAM := false, waitingOnGrace := false, waitingOnDemand := false
              waitingOnSibling := false } := by
  constructor <;> first | rfl | exact Bool.false_le _

end OnPremGateway.OwnerPaths
