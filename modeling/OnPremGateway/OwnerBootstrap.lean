import OnPremGateway.OwnerAnswers

/-!
# The bootstrap of an unknown demand

A spec of unknown demand may clear a card once, and once between two readings
of its RAM may have an idle process stopped on its behalf. The marks that say
so outlive every process of the state, and no move spends one twice.
-/

set_option autoImplicit false

namespace OnPremGateway.OwnerBootstrap
open RuntimeTypes OwnerModel OwnerMoves
open OwnerEffects OwnerRuns OwnerAnswers

structure Thrifty (st : SpecState) : Prop where
  verdicts : st.bootstrapVerdicts ≤ if st.vramBootstrapDone then 1 else 0
  evictions : (st.bootstrapEvictions : ℤ) ≤ st.ramBootstrapRetries
  retries : st.ramBootstrapRetries ≤ ramBootstrapMaxRetries

theorem thrifty_of_fresh {key : String} {st : SpecState} (h : Fresh key st) : Thrifty st where
  verdicts := by
    rw [h.bootstrapVerdicts]
    exact Nat.zero_le _
  evictions := by
    rw [h.bootstrapEvictions, h.ramBootstrapRetries]
    rfl
  retries := by
    rw [h.ramBootstrapRetries]
    decide

section Moves
variable {l : Label} {o o' : Owner} {e : Effect} {key : String} {st st' : SpecState}

theorem thrifty_of_quiet (hq : Quiet st st') (h : Thrifty st) : Thrifty st' where
  verdicts := by
    rw [hq.bootstrapVerdicts]
    refine h.verdicts.trans ?_
    -- the mark is never taken back
    have hd := hq.vramBootstrapDone
    cases hs : st.vramBootstrapDone with
    | false => exact Nat.zero_le _
    | true =>
      rw [hs] at hd
      rw [top_le_iff.mp hd]
      exact le_rfl
  evictions := by
    rw [hq.bootstrapEvictions, hq.ramBootstrapRetries]
    exact h.evictions
  retries := by
    rw [hq.ramBootstrapRetries]
    exact h.retries

theorem thrifty_of_change (hc : Change o key st l e st') (h : Thrifty st) : Thrifty st' := by
  cases hc with
  | quiet _ hq => exact thrifty_of_quiet hq h
  | bootstrap hd =>
    have hv := h.verdicts
    rw [hd] at hv
    refine ⟨?_,h.evictions,h.retries⟩
    simpa using hv
  | escalate hr =>
    have he := h.evictions
    refine ⟨h.verdicts,?_,?_⟩
    · push_cast
      omega
    · dsimp only
      omega
  | measured mb ready => exact ⟨h.verdicts,le_rfl,zero_le_one⟩
  | _ => exact ⟨h.verdicts,h.evictions,h.retries⟩

def AllThrifty (o : Owner) : Prop := ∀ key st, o.find key = some st → Thrifty st

theorem thrifty_of_move (hm : Move l o o') (h : AllThrifty o) : AllThrifty o' := by
  obtain ⟨e,-,t⟩ := touch_of_move hm
  intro key st' h'
  rcases origin_of_touch t h' with h0 | ⟨st,h0,hc⟩ | ⟨-,hf⟩
  · exact h key st' h0
  · exact thrifty_of_change hc (h key st h0)
  · exact thrifty_of_fresh hf

theorem thrifty_of_begins (hb : Begins o o') (h : AllThrifty o) : AllThrifty o' := by
  cases hb with
  | release reply k gen s now _ _ hf _ =>
    intro key st hst
    rw [find_put] at hst
    split at hst
    · cases hst
      have hs := h k s hf
      exact ⟨hs.verdicts,hs.evictions,hs.retries⟩
    · exact h key st hst
  | _ => exact h

end Moves

/-- Over every run each state acts on one bootstrap verdict at most, and since
its last reading of RAM at most one idle process was stopped on its behalf. -/
theorem bootstrap_spent_once (o : Owner) (h : o.Reachable) (key : String) (st : SpecState)
    (hf : o.find key = some st) : st.bootstrapVerdicts ≤ 1 ∧ st.bootstrapEvictions ≤ 1 := by
  have hall : AllThrifty o := by
    refine holds_of_reachable AllThrifty ?_ ?_ o h
    · intro o₀ hi key st hf
      rw [find_newOwner hi] at hf
      cases hf
    · exact fun x y e _ hp hx => keeps_of_passage AllThrifty
        (fun _ hb _ => thrifty_of_begins hb) (fun _ hx => hx) (fun _ _ _ _ hm => thrifty_of_move hm)
        hp hx
  have hst := hall key st hf
  refine ⟨hst.verdicts.trans ?_,?_⟩
  · split <;> omega
  · have hle := hst.evictions.trans hst.retries
    have hone : ramBootstrapMaxRetries = 1 := rfl
    omega

def measuringEnv : Env := fun _ => { quietReadings with measurer := some fun _ => ∅ }

/-- A model of unknown demand has an idle one cleared off its card, starts, and
dies of memory pressure. -/
def bootstrapped : Owner := play measuringEnv (newOwner false 0 0 0 0)
  [.apply { specs := [{ id := "a", upstreamModel := "a", gpus := [⟨0, 100⟩], ramMB := 10 },
      { id := "b", upstreamModel := "b", gpus := [⟨0, 0⟩] }] },
    .ensure "a" 0 true, .probe "a" 0 true, .receive ⟨.startResult "a" 0 true, none⟩, .release 0,
    .ensure "b" 1 true, .exit "a" 0 ⟨0, false⟩, .receive ⟨.childExited "a" 0 ⟨0, false⟩, none⟩,
    .exit "b" 1 ⟨137, true⟩, .receive ⟨.childExited "b" 1 ⟨137, true⟩, none⟩]

theorem bootstrap_spent_once_bootstrapped :
    ∃ st, bootstrapped.find "b" = some st ∧ st.bootstrapVerdicts = 1 ∧ st.bootstrapEvictions = 1 ∧
      st.bootstrapVerdicts ≤ 1 ∧ st.bootstrapEvictions ≤ 1 := by
  have hspent : (bootstrapped.find "b").map
      (fun st => (st.bootstrapVerdicts, st.bootstrapEvictions)) = some (1, 1) := by decide +kernel
  obtain ⟨st,hf,hs⟩ := Option.map_eq_some_iff.mp hspent
  rw [Prod.mk.injEq] at hs
  exact ⟨st,hf,hs.1,hs.2,bootstrap_spent_once bootstrapped
    (reachable_play measuringEnv _ _ (reachable_newOwner _ _ _ _ _)) "b" st hf⟩

end OnPremGateway.OwnerBootstrap
