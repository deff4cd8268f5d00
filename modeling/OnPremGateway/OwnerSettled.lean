import OnPremGateway.AdmissionVerdict
import OnPremGateway.OwnerSound

/-!
# Burst instances are settled

A burst instance never waits: its admission starts it or answers its queue.
What an admission does is read once, for two ways of waking beside each other.
The moves of the admission machinery keep an instance settled, an admission
settles the instance it is about, and a wake settles every instance that no
admission of the turn has settled before.
-/

set_option autoImplicit false

namespace OnPremGateway.OwnerSettled
open RuntimeTypes AdmissionModel AdmissionVerdict
open InstanceModel OwnerModel LabelledRuns
open OwnerMoves OwnerPaths OwnerEffects
open OwnerSound

variable {S : Set String} (E : Env) (o : Owner) (key : String)

/-- A burst instance has a process or no queue. -/
def SettledAt (o : Owner) (key : String) : Prop :=
  ∀ st, o.find key = some st → st.burst = true → st.proc = none → st.pending = []

def settling : Label → Bool
  | .respec | .clear | .accept _ => false
  | _ => true

theorem settling_loose : ∀ l ∈ Loose, settling l = true := by
  intro l hl
  rcases hl with rfl | rfl | rfl | rfl | rfl | rfl <;> rfl

variable {st : SpecState} {l : Label} {o' : Owner}

theorem settled_of_change {o : Owner} {key : String} {st' : SpecState} {e : Effect}
    (hc : Change o key st l e st') (hl : settling l = true)
    (h : st.burst = true → st.proc = none → st.pending = []) (hb : st'.burst = true)
    (hp : st'.proc = none) : st'.pending = [] := by
  cases hc with
  | quiet _ hq =>
    rw [SpecState.burst, hq.spec, hq.instanceIdx] at hb
    rw [hq.pending]
    exact h hb (hq.proc.symm.trans hp)
  | fail => rfl
  | serve => rfl
  | answer reply err hw =>
    have hw : st.pending = [] := h hb hp
    dsimp only
    rw [hw]
    rfl
  | retime => cases hp
  | signal => cases hp
  | spawn => cases hp
  | respec => cases hl
  | clear => cases hl
  | enqueue => cases hl
  | _ => exact h hb hp

theorem settled_of_move {o : Owner} (hm : Move l o o') (hl : settling l = true) (key : String)
    (h : SettledAt o key) : SettledAt o' key := by
  obtain ⟨e,-,t⟩ := touch_of_move hm
  intro st' h' hb hp
  rcases origin_of_touch t h' with h0 | ⟨st,h0,hc⟩ | ⟨-,hf⟩
  · exact h st' h0 hb hp
  · exact settled_of_change hc hl (h st h0) hb hp
  · exact hf.pending

theorem settled_of_loose {o : Owner} (hs : Steps Loose o o') (key : String) (h : SettledAt o key) :
    SettledAt o' key :=
  hs.keeps (fun x => SettledAt x key)
    (fun l hl _ _ hm hx => settled_of_move hm (settling_loose l hl) key hx) h

theorem settled_of_calm {o : Owner} (hs : Steps Calm o o') (key : String) (h : SettledAt o key) :
    SettledAt o' key :=
  settled_of_loose (hs.mono calm_loose) key h

def FairOn (S : Set String) (o : Owner) : Prop :=
  ∀ key ∈ S, ∀ st, o.find key = some st → o.decidedThisTurn st = true → SettledAt o key

abbrev Fair : Owner → Prop := FairOn Set.univ

abbrev FairBut (key : String) : Owner → Prop := FairOn {k | k ≠ key}

theorem fair_of_fairBut {o : Owner} {key : String} (h : FairBut key o) (hs : SettledAt o key) :
    Fair o := by
  intro k _ st hk hd
  by_cases he : k = key
  · rw [he]
    exact hs
  · exact h k he st hk hd

def Undecided : Set Label := {.quiet, .plain, .verdict, .regrace, .create}

theorem undecided_loose : Undecided ⊆ Loose := by
  intro l hl
  rcases hl with rfl | rfl | rfl | rfl | rfl <;> simp [Loose]

theorem grow_undecided : Grow ⊆ Undecided := by
  intro l hl
  rcases hl with rfl | rfl | rfl <;> simp [Undecided]

theorem decided_of_change {o : Owner} {key : String} {st' : SpecState} {e : Effect}
    (hc : Change o key st l e st') (hl : l ∈ Undecided) : st'.decidedTurn = st.decidedTurn := by
  cases hc with
  | quiet _ hq => exact hq.decidedTurn
  | decide => simp [Undecided] at hl
  | _ => rfl

theorem fairOn_of_move {o : Owner} (hm : Move l o o') (hl : l ∈ Undecided) (h : FairOn S o) :
    FairOn S o' := by
  obtain ⟨e,f,t⟩ := touch_of_move hm
  intro key hS st' h' hd
  have hset := settled_of_move hm (settling_loose l (undecided_loose hl)) key
  rcases origin_of_touch t h' with h0 | ⟨st,h0,hc⟩ | ⟨-,hf⟩
  · rw [Owner.decidedThisTurn, f.turn] at hd
    exact hset (h key hS st' h0 hd)
  · rw [Owner.decidedThisTurn, f.turn, decided_of_change hc hl] at hd
    exact hset (h key hS st h0 hd)
  · -- a fresh state was decided in no turn
    rw [Owner.decidedThisTurn, hf.decidedTurn] at hd
    simp only [ne_eq, Bool.and_eq_true, decide_eq_true_eq] at hd
    exact absurd hd.2.symm hd.1

theorem fairOn_of_undecided {o : Owner} (hs : Steps Undecided o o') (h : FairOn S o) :
    FairOn S o' :=
  hs.keeps (FairOn S) (fun _ hl _ _ hm hx => fairOn_of_move hm hl hx) h

theorem fairBut_of_decide {o : Owner} {key : String} (h : FairBut key o) :
    FairBut key (o.put key st) := by
  intro k hk st' h' hd
  rw [find_put_ne o key k st hk] at h'
  intro s hs
  rw [find_put_ne o key k st hk] at hs
  exact h k hk st' h' hd s hs

theorem settled_failPending (err : Err) : SettledAt (o.failPending key err) key := by
  intro st' h' _ _
  rw [find_failPending_self, Option.map_eq_some_iff] at h'
  obtain ⟨st,-,rfl⟩ := h'
  rfl

structure Done (key : String) (o : Owner) : Prop where
  fair : Fair o
  settled : SettledAt o key

/-! ### What an admission does -/

section Admission
variable {wake wake' : Admitter} {o x a b : Owner} {key : String}

/-- Two admissions of a key that differ only in how they wake: what each makes
of the owner are the same moves, a note of the turn it decided in, and wakes
for the same reason. Both end with the key settled. -/
inductive Asked (wake wake' : Admitter) (key : String) : Owner → Owner → Owner → Prop
  | ends {o : Owner} (h : SettledAt o key) : Asked wake wake' key o o o
  | moves {o x a b : Owner} (hs : Steps (Calm ∩ Undecided) o x) (h : Asked wake wake' key x a b) :
      Asked wake wake' key o a b
  | decides {o a b : Owner} (st : SpecState) (d : ℕ) (hf : o.find key = some st)
      (hd : d = 0 ∨ d = o.turn) (h : Asked wake wake' key (o.put key { st with decidedTurn := d }) a b) :
      Asked wake wake' key o a b
  | wakes {o a b : Owner} (E : Env) (c : Owner → Bool) (h : Asked wake wake' key o a b) :
      Asked wake wake' key o (if c a then wake E a key else a) (if c b then wake' E b key else b)

theorem decide_calm (o : Owner) (key : String) (st : SpecState) (d : ℕ) (h : o.find key = some st)
    (hd : d = 0 ∨ d = o.turn) : Steps Calm o (o.put key { st with decidedTurn := d }) :=
  Via.single (by simp [Calm]) (.decide o key st d h hd)

theorem Asked.calm (h : Asked wake wake' key o a b) (hc : ∀ E o k, Steps Calm o (wake' E o k)) :
    Steps Calm o b := by
  induction h with
  | ends => exact Via.refl _ _
  | moves hs _ ih => exact (hs.mono Set.inter_subset_left).trans ih
  | decides st d hf hd _ ih => exact (decide_calm _ key st d hf hd).trans ih
  | wakes E c _ ih =>
    split
    · exact ih.trans (hc _ _ _)
    · exact ih

def Agree (o : Owner) (key : String) (wake wake' : Admitter) : Prop :=
  ∀ E o', Steps Calm o o' → wake E o' key = wake' E o' key

theorem Agree.step (h : Agree o key wake wake') (hs : Steps Calm o x) : Agree x key wake wake' :=
  fun E o' h' => h E o' (hs.trans h')

theorem Asked.same (h : Asked wake wake' key o a b) (hc : ∀ E o k, Steps Calm o (wake' E o k))
    (ha : Agree o key wake wake') : a = b := by
  induction h with
  | ends => rfl
  | moves hs _ ih => exact ih (ha.step (hs.mono Set.inter_subset_left))
  | decides st d hf hd _ ih => exact ih (ha.step (decide_calm _ key st d hf hd))
  | wakes E c h ih =>
    rw [ih ha]
    split
    · exact ha E _ (h.calm hc)
    · rfl

theorem Asked.done (h : Asked wake wake' key o a b) (hc : ∀ E o k, Steps Calm o (wake' E o k))
    (hw : ∀ E o k, Fair o → Fair (wake' E o k)) (hb : FairBut key o) : Done key b := by
  induction h with
  | ends hs => exact ⟨fair_of_fairBut hb hs,hs⟩
  | moves hs _ ih => exact ih (fairOn_of_undecided (hs.mono Set.inter_subset_right) hb)
  | decides _ _ _ _ _ ih => exact ih (fairBut_of_decide hb)
  | wakes E c _ ih =>
    split
    · exact ⟨hw _ _ _ (ih hb).fair,settled_of_calm (hc _ _ _) key (ih hb).settled⟩
    · exact ih hb

theorem plain_asked : Plain ⊆ Calm ∩ Undecided :=
  Set.subset_inter plain_calm (plain_grow.trans grow_undecided)

theorem asked_rest (hs : Steps Plain o x) (h : SettledAt x key) : Asked wake wake' key o x x :=
  .moves (hs.mono plain_asked) (.ends h)

theorem asked_plain (hs : Steps Plain o x) (h : SettledAt o key) : Asked wake wake' key o x x :=
  asked_rest hs (settled_of_calm (hs.mono plain_calm) key h)

theorem asked_fail (o : Owner) (key : String) (err : Err) :
    Asked wake wake' key o (o.failPending key err) (o.failPending key err) :=
  asked_rest (failPending_plain o key err) (settled_failPending o key err)

theorem asked_setNotPermitted (E : Env) (message : String) (hv : Vacant o key) :
    Asked wake wake' key o (setNotPermitted wake E o key message)
      (setNotPermitted wake' E o key message) := by
  refine .wakes (E.sub 3) (fun _ => true) (asked_rest (settle_plain (E.sub 0) o key .notPermitted _
    .notPermitted hv (by simp) fun st => ?_) (settled_failPending _ key _))
  constructor <;> rfl

theorem asked_setPendingVRAMUnknown (E : Env) (message : String) (hv : Vacant o key) :
    Asked wake wake' key o (setPendingVRAMUnknown wake E o key message)
      (setPendingVRAMUnknown wake' E o key message) := by
  refine .wakes (E.sub 3) (fun _ => true) (asked_rest (settle_plain (E.sub 0) o key
    .pendingVRAMUnknown _ .admissionBlocked hv (by simp) fun st => ?_) (settled_failPending _ key _))
  constructor <;> rfl

theorem asked_startFailure (E : Env) (message : String) (hv : Vacant o key) :
    Asked wake wake' key o (startFailure E o key message) (startFailure E o key message) := by
  obtain ⟨note,hn,hs⟩ := startFailure_noted E o key message hv
  exact .moves ((settle_plain (E.sub 0) o key .startFailed note .startFailed hv (by simp) hn).mono
    plain_asked) (asked_plain hs (settled_failPending _ key _))

theorem asked_spawn (E : Env) (st : SpecState) (port pid : ℤ) (hf : o.find key = some st)
    (hv : Vacant o key) : Asked wake wake' key o (o.spawn E key port pid) (o.spawn E key port pid) := by
  refine asked_rest (move_plain (.spawn E o key st port pid hf (hv st hf).1 (hv st hf).2)) ?_
  obtain ⟨since,he⟩ := spawn_some E o key st port pid hf
  intro st' h' _ hn
  rw [he] at h'
  have hself := (find_put_self o key _).symm.trans h'
  cases hself
  cases hn

theorem asked_startProcess (E : Env) (st : SpecState) (hf : o.find key = some st)
    (hv : Vacant o key) :
    Asked wake wake' key o (startProcess wake E o key) (startProcess wake' E o key) := by
  simp only [startProcess, hf]
  split
  · exact asked_setNotPermitted _ _ hv
  split
  · exact asked_setNotPermitted _ _ hv
  split
  · exact asked_startFailure _ _ hv
  · split
    · exact asked_setNotPermitted _ _ hv
    · split
      · exact asked_startFailure _ _ hv
      · split
        · exact asked_startFailure _ _ hv
        · exact asked_spawn _ st _ _ hf hv

/-- A verdict that neither waits nor evicts settles the key. -/
theorem asked_actOn (E : Env) (dec : Decision) (st : SpecState) (hf : o.find key = some st)
    (hv : Vacant o key) (hb : Spends o key dec)
    (h : dec.evict = [] ∧ dec.wait = false ∨ SettledAt o key) :
    Asked wake wake' key o (actOn wake E o key dec) (actOn wake' E o key dec) := by
  cases hboot : dec.vramBootstrap with
  | true =>
    have hs := h.resolve_left fun hn => (hb hboot).2.1 hn.1
    rw [actOn_bootstrap wake E o key dec st hf hboot hb,
      actOn_bootstrap wake' E o key dec st hf hboot hb]
    exact asked_plain ((move_plain (.bootstrap o key st hf ((hb hboot).1 st hf))).trans
      (drainVictims_plain _ _ key _)) hs
  | false =>
    simp only [actOn, countVerdict_of_false o key dec hboot, hboot, Bool.false_eq_true, if_false]
    split
    · exact asked_fail o key _
    split
    · exact asked_setNotPermitted _ _ hv
    split
    · exact asked_setPendingVRAMUnknown _ _ hv
    · split
      · rename_i hwait
        have hs := h.resolve_left fun hn => by simp [hn.2] at hwait
        exact asked_plain ((noteAdmissionWait_still _ o key _).mono still_plain) hs
      · split
        · rename_i hlen
          have hs := h.resolve_left fun hn => by simp [hn.1] at hlen
          exact asked_plain (drainVictims_plain _ _ key _) hs
        · exact .wakes (E.sub 1) (fun o => (o.find key).any fun st => st.proc.isSome)
            (asked_startProcess (E.sub 0) st hf hv)

theorem settled_of_not_burst {st : SpecState} (hf : o.find key = some st) (hb : st.burst = false) :
    SettledAt o key := by
  intro s hs hburst
  rw [hf] at hs
  cases hs
  rw [hb] at hburst
  cases hburst

theorem asked_askAbout (snap : PolicySnapshot) (E : Env) (st : SpecState) (hf : o.find key = some st)
    (hv : Vacant o key) :
    Asked wake wake' key o (askAbout wake snap E o key) (askAbout wake' snap E o key) := by
  simp only [askAbout, hf]
  split
  · split
    · exact asked_fail o key _
    · rename_i hb
      have r : Steps Still o (o.modify key fun st => { st with waitingOnDemand := true }) := by
        apply modify_still
        intro st _
        constructor <;> rfl
      exact asked_plain ((r.trans (noteAdmissionWait_still _ _ key _)).mono still_plain)
        (settled_of_not_burst hf (by simpa using hb))
  -- burst capacity is refused or started at once
  have hans : st.burst = true → _ := fun hb => noEvict_answer (E.sub 3).here.ranges
    { snap with noEvict := st.burst, vramBootstrapEligible := o.vramBootstrapEligible (E.sub 2) key st }
    (o.demandSpec key st) hb
  have hsp := spends_of_eligible (E.sub 3) (E.sub 2) { snap with noEvict := st.burst } o key st hf
  generalize admitSpec _ _ _ = dec at hans hsp ⊢
  have r := noteVerdict_verdict o key dec
  refine .moves (r.mono (Set.subset_inter verdict_calm (by simp [Undecided]))) (asked_actOn (E.sub 4) dec _
    (by rw [find_modify_self, hf]; rfl) (vacant_modify o key _ (fun _ => rfl) (fun _ => rfl) hv)
    (hsp.modify _ fun _ => rfl) ?_)
  cases hb : st.burst with
  | true => exact .inl (hans hb)
  | false => exact .inr (settled_of_calm (r.mono verdict_calm) key (settled_of_not_burst hf hb))

theorem asked_askPolicy (E : Env) (st : SpecState) (hf : o.find key = some st) (hv : Vacant o key) :
    Asked wake wake' key o (askPolicy wake E o key) (askPolicy wake' E o key) := by
  have r := buildSnapshot_still (E.sub 0) o
  obtain ⟨st',hf',-⟩ := (still_sameTable r).find key st hf
  exact .moves (r.mono (still_plain.trans plain_asked))
    (asked_askAbout _ E st' hf' (vacant_still r hv))

/-- An admission in the wait for a retry does nothing. -/
theorem decideStart_asked (wake wake' : Admitter) (E : Env) (o : Owner) (key : String) :
    (∃ st, o.find key = some st ∧ st.state = .backoff ∧ ∀ wake, decideStart wake E o key = o) ∨
      Asked wake wake' key o (decideStart wake E o key) (decideStart wake' E o key) := by
  cases hf : o.find key with
  | none =>
    right
    simp only [decideStart, hf]
    refine .ends fun st hst => ?_
    rw [hf] at hst
    cases hst
  | some st =>
    by_cases hback : st.state = .backoff
    · exact .inl ⟨st,rfl,hback,fun wake => by simp [decideStart, hf, hback]⟩
    right
    simp only [decideStart, hf]
    split
    · rename_i hbusy
      refine .ends fun st' hst' _ hnone => ?_
      rw [hf] at hst'
      cases hst'
      simp [hnone, hback] at hbusy
    rename_i hbusy
    rw [Bool.or_eq_true, not_or] at hbusy
    set reset := o.modify key fun st =>
      { st with waitingOnRAM := false, waitingOnGrace := false, waitingOnDemand := false
                waitingOnSibling := false }
    have r : Steps Still o reset := modify_still o key _ fun st _ => reset_quiet st
    have hv : Vacant reset key := vacant_still r fun st' h' => by
      rw [hf] at h'
      cases h'
      exact ⟨by simpa using hbusy.1,hback⟩
    obtain ⟨s1,h1,hq⟩ := (still_sameTable r).find key st hf
    refine .moves (r.mono (still_plain.trans plain_asked)) ?_
    split
    · rename_i hup
      refine .ends fun st' hst' _ _ => ?_
      rw [h1] at hst'
      cases hst'
      have hup : st.wantsUp = false := by simpa using hup
      simp only [SpecState.wantsUp, Bool.or_eq_false_iff, decide_eq_false_iff_not,
        gt_iff_lt, Nat.not_lt, Nat.le_zero, List.length_eq_zero_iff] at hup
      exact hq.pending.trans hup.1
    split
    · exact asked_fail reset key _
    split
    · exact asked_setNotPermitted _ _ hv
    · split
      · rename_i hlow
        -- only a protected instance waits for a lower one
        have hprot : st.protected = true := by
          by_contra hn
          rw [Owner.lowerSiblingWaiting, if_pos (by simp [hn])] at hlow
          cases hlow
        have hb : st.burst = false := by
          by_contra hburst
          rw [Bool.not_eq_false] at hburst
          simp only [SpecState.protected, decide_eq_true_eq] at hprot
          exact not_protected_of_isBurst _ _ hburst hprot
        have hb1 : s1.burst = false := by
          rw [SpecState.burst, hq.spec, hq.instanceIdx]
          exact hb
        have r1 := put_still reset key s1 { s1 with waitingOnSibling := true } h1
          (by constructor <;> rfl)
        rw [modify_some reset key s1 _ h1]
        refine .moves (r1.mono (still_plain.trans plain_asked)) (.decides _ 0
          (find_put_self reset key _) (.inl rfl) ?_)
        rw [put_put]
        exact .ends (settled_of_not_burst (find_put_self reset key _) hb1)
      · rw [modify_some reset key s1 _ h1]
        refine .decides s1 reset.turn h1 (.inr rfl) (asked_askPolicy _ _
          (find_put_self reset key _) fun st' hst' => ?_)
        rw [find_put_self] at hst'
        cases hst'
        exact hv s1 h1

end Admission

section Decisions
variable {wake : Admitter} (hcalm : ∀ E o k, Steps Calm o (wake E o k)) (E : Env) (o : Owner)
  (key : String)
include hcalm

theorem admitBody_calm : Steps Calm o (admitBody wake E o key) := by
  rw [admitBody]
  split
  · exact Via.refl _ o
  have hd : Steps Calm o (decideStart wake (E.sub 0) o key) := by
    rcases decideStart_asked wake wake (E.sub 0) o key with ⟨_,_,_,he⟩ | h
    · rw [he]
      exact Via.refl _ o
    · exact h.calm hcalm
  exact (hd.trans ((retireIfSpent_plain _ key).mono plain_calm)).trans
    ((rescheduleGraceWake_regrace _ _).mono regrace_calm)

variable (hfair : ∀ E o k, Fair o → Fair (wake E o k))
include hfair

theorem fair_decideStart (h : Fair o) : Fair (decideStart wake E o key) ∧
      ((∀ st, o.find key = some st → st.state = .backoff → st.burst = false) →
        SettledAt (decideStart wake E o key) key) := by
  rcases decideStart_asked wake wake E o key with ⟨st,hf,hs,he⟩ | hasked
  · rw [he]
    exact ⟨h,fun hb => settled_of_not_burst hf (hb st hf hs)⟩
  · have hd := hasked.done hcalm hfair (fun k _ st hk hd => h k (Set.mem_univ k) st hk hd)
    exact ⟨hd.fair,fun _ => hd.settled⟩

theorem fair_admitBody (h : Fair o) : Fair (admitBody wake E o key) ∧ (o.closing = false →
      (∀ st, o.find key = some st → st.state = .backoff → st.burst = false) →
        SettledAt (admitBody wake E o key) key) := by
  rw [admitBody]
  split
  · rename_i hc
    refine ⟨h,fun hn => ?_⟩
    rw [hn] at hc
    cases hc
  obtain ⟨hd,hs⟩ := fair_decideStart hcalm (E.sub 0) o key hfair h
  have r := ((retireIfSpent_plain (decideStart wake (E.sub 0) o key) key).mono
    (plain_grow.trans grow_undecided)).trans
    ((rescheduleGraceWake_regrace (E.sub 1) _).mono (by simp [Undecided]))
  exact ⟨fairOn_of_undecided r hd,
    fun _ hb => settled_of_loose (r.mono undecided_loose) key (hs hb)⟩

end Decisions

theorem wakeSiblingsWaitingFor_calm (admitter : Admitter)
    (ha : ∀ E o key, Steps Calm o (admitter E o key)) (E : Env) (o : Owner) (key : String) :
    Steps Calm o (wakeSiblingsWaitingFor admitter E o key) := by
  apply forEach_steps
  intro E o id
  split
  · exact Via.refl _ o
  · split
    · exact Via.refl _ o
    · exact ha E o id

theorem admitDepth_calm (n : ℕ) (E : Env) (o : Owner) (key : String) :
    Steps Calm o (admitDepth n E o key) := by
  induction n generalizing E o key with
  | zero => exact Via.refl _ o
  | succ n ih => exact admitBody_calm (wakeSiblingsWaitingFor_calm _ ih) E o key

theorem admitAndStart_calm : Steps Calm o (o.admitAndStart E key) :=
  admitDepth_calm 65 E o key

theorem reask_calm : Steps Calm o (o.reask E key) := by
  rw [Owner.reask]
  split
  · exact Via.refl _ o
  · exact admitAndStart_calm E o key

theorem wakeAdmission_calm (want : SpecState → Bool) : Steps Calm o (o.wakeAdmission E want) := by
  apply forEach_steps
  intro E o c
  exact reask_calm E o c.id

theorem fair_wakeSiblings (admitter : Admitter) (ha : ∀ E o k, Fair o → Fair (admitter E o k))
    (E : Env) (o : Owner) (key : String) (h : Fair o) :
    Fair (wakeSiblingsWaitingFor admitter E o key) := by
  refine forEach_rel (fun a b => Fair a → Fair b) (fun _ ha => ha) (fun hab hbc ha => hbc (hab ha)) _
    (fun E o id ho => ?_) _ o _ h
  split
  · exact ho
  · split
    · exact ho
    · exact ha E o id ho

theorem fair_admitDepth (n : ℕ) (E : Env) (o : Owner) (key : String) (h : Fair o) :
    Fair (admitDepth n E o key) := by
  induction n generalizing E o key with
  | zero => exact h
  | succ n ih =>
    exact (fair_admitBody (wakeSiblingsWaitingFor_calm _ (admitDepth_calm n)) E o key
      (fair_wakeSiblings _ ih) h).1

/-- An admission settles the instance it is about. -/
theorem settled_admitAndStart (h : Fair o)
    (ho : Sound o) (hc : o.closing = false) : SettledAt (o.admitAndStart E key) key :=
  (fair_admitBody (wakeSiblingsWaitingFor_calm _ (admitDepth_calm 64)) E o key
    (fair_wakeSiblings _ (fair_admitDepth 64)) h).2 hc
    fun st hf hs => ((ho.states key st hf).backoff hs).2

theorem fair_reask (h : Fair o) : Fair (o.reask E key) := by
  rw [Owner.reask]
  split
  · exact h
  · exact fair_admitDepth 65 E o key h

inductive Calmly : Owner → Owner → Prop
  | grow {a b : Owner} (h : Steps Grow a b) : Calmly a b
  | ask (E : Env) (o : Owner) (key : String) : Calmly o (o.admitAndStart E key)
  | trans {a b c : Owner} (hab : Calmly a b) (hbc : Calmly b c) : Calmly a c

theorem calmly_of_plain {o : Owner} (h : Steps Plain o o') : Calmly o o' :=
  .grow (h.mono plain_grow)

theorem calmly_of_still {o : Owner} (h : Steps Still o o') : Calmly o o' :=
  calmly_of_plain (h.mono still_plain)

theorem Calmly.refl : Calmly o o := calmly_of_plain (Via.refl _ o)

theorem Calmly.steps {o : Owner} (h : Calmly o o') : Steps Loose o o' := by
  induction h with
  | grow h => exact h.mono grow_loose
  | ask E o key => exact (admitAndStart_calm E o key).mono calm_loose
  | trans _ _ hab hbc => exact hab.trans hbc

/-- Whatever such a stretch decides, it settles. -/
theorem Calmly.fair {o : Owner} (h : Calmly o o') (hf : Fair o) : Fair o' := by
  induction h with
  | grow h => exact fairOn_of_undecided (h.mono grow_undecided) hf
  | ask E o key => exact fair_admitDepth 65 E o key hf
  | trans _ _ hab hbc => exact hbc (hab hf)

theorem reask_calmly : Calmly o (o.reask E key) := by
  rw [Owner.reask]
  split
  · exact Calmly.refl o
  · exact .ask E o key

theorem wakeAdmission_calmly (want : SpecState → Bool) : Calmly o (o.wakeAdmission E want) := by
  apply forEach_rel Calmly Calmly.refl Calmly.trans
  intro E o c
  exact reask_calmly E o c.id

theorem settled_reask (h : Fair o) (ho : Sound o)
    (hc : o.closing = false) : SettledAt (o.reask E key) key := by
  rw [Owner.reask]
  split
  · rename_i hd
    rw [Option.any_eq_true] at hd
    obtain ⟨st,hf,hd⟩ := hd
    exact h key (Set.mem_univ key) st hf hd
  · exact settled_admitAndStart E o key h ho hc

theorem closing_of_steps {L : Set Label} {o : Owner} (h : Steps L o o') : o'.closing = o.closing :=
  h.same Owner.closing fun _ _ _ _ hm => by
    obtain ⟨e,f,-⟩ := touch_of_move hm
    exact f.closing

theorem turn_of_steps {L : Set Label} {o : Owner} (h : Steps L o o') : o'.turn = o.turn :=
  h.same Owner.turn fun _ _ _ _ hm => by
    obtain ⟨e,f,-⟩ := touch_of_move hm
    exact f.turn

/-- Asked one by one, all of the listed instances are settled in the end. -/
theorem settled_of_asked (cs : List WakeCandidate) (E : Env) (o : Owner) (h : Fair o)
    (ho : Sound o) (hc : o.closing = false) (c : WakeCandidate) (hmem : c ∈ cs) :
    SettledAt (forEach (fun E o (c : WakeCandidate) => o.reask E c.id) E o cs) c.id := by
  refine forEach_each (fun x => Fair x ∧ Sound x ∧ x.closing = false)
    (fun c x => SettledAt x c.id) _ ?_ ?_ ?_ E o cs ⟨h,ho,hc⟩ c hmem
  · intro E x d ⟨hf,hs,hx⟩
    have r := reask_calm E x d.id
    exact ⟨fair_reask E x d.id hf,sound_of_steps r hs,(closing_of_steps r).trans hx⟩
  · exact fun E x c d _ hq => settled_of_calm (reask_calm E x d.id) c.id hq
  · exact fun E x c ⟨hf,hs,hx⟩ => settled_reask E x c.id hf hs hx

/-- A wake leaves every burst instance settled. -/
theorem settled_wakeAdmissionCandidates (h : Fair o) (ho : Sound o)
    (hc : o.closing = false) (key : String) : SettledAt (o.wakeAdmissionCandidates E) key := by
  by_cases hwake : ∃ st, o.find key = some st ∧ st.wantsWake = true
  · obtain ⟨st,hf,hw⟩ := hwake
    refine settled_of_asked _ (E.sub 1) o h ho hc
      ⟨key, specBase st.spec, st.instanceIdx, queuedSince st.pending⟩ ?_
    rw [Owner.wakeCandidates, SliceOrder.mem_sortSlice, List.mem_filterMap]
    exact ⟨key,mem_keys_of_find o key st (E.sub 0) hf,by rw [hf]; simp [hw]⟩
  -- nothing is queued at an instance that wants no wake
  refine settled_of_calm (wakeAdmission_calm E o _) key fun st hf hb hp => ?_
  by_contra hne
  refine hwake ⟨st,hf,?_⟩
  have hs : st.state ≠ .backoff := by
    intro hs
    rw [((ho.states key st hf).backoff hs).2] at hb
    cases hb
  simp [SpecState.wantsWake, hp, hs, List.length_pos_iff.mpr hne]

end OnPremGateway.OwnerSettled
