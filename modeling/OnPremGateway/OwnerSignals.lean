import OnPremGateway.OwnerAnswers

/-!
# Termination signals

A generation that serves is drained before it is signalled: the signal waits
for its last request or for the end of the drain grace. The bootstrap deadline
is the one exception. It fails a healthy process that was never measured, and
does so with requests in flight.
-/

set_option autoImplicit false

namespace OnPremGateway.OwnerSignals
open RuntimeTypes OwnerModel LabelledRuns
open OwnerMoves OwnerEffects OwnerRuns
open OwnerAnswers

def Drained (s : Signal) : Prop :=
  s.inFlight = 0 ∨ (s.cause = .drainGraceExpired ∧ s.state = .draining)

def Excused (s : Signal) : Prop := Drained s ∨ s.cause = .bootstrapDeadline

def AllExcused (o : Owner) : Prop := ∀ s ∈ o.signals, Excused s

theorem excused_of_change {o : Owner} {key : String} {st st' : SpecState} {l : Label} {e : Effect}
    (hc : Change o key st l e st') : ∀ s ∈ e.signalled, Excused s := by
  cases hc with
  | signal p serial cause hp hs hcause =>
    intro s hmem
    rw [List.mem_singleton] at hmem
    subst hmem
    rcases hcause with hz | hd | hb
    · exact .inl (.inl hz)
    · exact .inl (.inr hd)
    · exact .inr hb
  | _ => simp

theorem excused_of_move {l : Label} {o o' : Owner} (hm : Move l o o') (h : AllExcused o) :
    AllExcused o' := by
  obtain ⟨e,f,t⟩ := touch_of_move hm
  have hnew : ∀ s ∈ e.signalled, Excused s := by
    cases t with
    | change key st st' _ hf hc hs => exact excused_of_change hc
    | _ => simp
  intro s hmem
  rw [f.signals, List.mem_append] at hmem
  exact hmem.elim (hnew s) (h s)

theorem signals_of_begins {o o₁ : Owner} (h : Begins o o₁) : o₁.signals = o.signals := by
  cases h <;> rfl

theorem excused_of_passage {o o' : Owner} {e : Event} (hp : Passage o e o') (h : AllExcused o) :
    AllExcused o' := by
  refine keeps_of_passage AllExcused (fun o₁ hb _ hx s hmem => ?_) (fun _ hx => hx)
    (fun _ _ _ _ hm hx => excused_of_move hm hx) hp h
  rw [signals_of_begins hb] at hmem
  exact hx s hmem

/-- Along every run a termination signal finds no request in flight, or ends
the drain grace of a draining generation, or is sent by the bootstrap
deadline. -/
theorem signal_after_drain (o : Owner) (h : o.Reachable) (s : Signal) (hs : s ∈ o.signals) :
    s.inFlight = 0 ∨ (s.cause = .drainGraceExpired ∧ s.state = .draining) ∨
      s.cause = .bootstrapDeadline := by
  have hall : AllExcused o := by
    refine holds_of_reachable AllExcused ?_ (fun _ _ _ _ hp hx => excused_of_passage hp hx) o h
    intro o₀ hi s hmem
    obtain ⟨apple,headroom,reserve,guess,grace,rfl⟩ := hi
    cases hmem
  rcases hall s hs with (hz | hd) | hb
  · exact .inl hz
  · exact .inr (.inl hd)
  · exact .inr (.inr hb)

def fruitlessBeat : List Event :=
  [.idleTick, .measure ∅ ∅, .receive ⟨.measured [⟨"a", 0, 7, true⟩] ∅ ∅, none⟩]

def neverMeasured : Owner := play quietEnv (newOwner false 0 0 0 0)
  ([.apply { specs := [{ id := "a", upstreamModel := "a" }] },
    .ensure "a" 0 true, .probe "a" 0 true, .receive ⟨.startResult "a" 0 true, none⟩] ++
    (List.replicate 10 fruitlessBeat).flatten)

def cutOff : Signal := ⟨"a", 0, 1, .startFailed, .bootstrapDeadline⟩

theorem neverMeasured_signals : neverMeasured.signals = [cutOff] := by decide +kernel

theorem neverMeasured_reachable : neverMeasured.Reachable :=
  reachable_play quietEnv _ _ (reachable_newOwner _ _ _ _ _)

/-- The deadline signals a generation that serves and was never drained. -/
theorem bootstrapDeadline_cuts_off : ∃ o : Owner, o.Reachable ∧ ∃ s ∈ o.signals,
      ¬(s.inFlight = 0 ∨ (s.cause = .drainGraceExpired ∧ s.state = .draining)) := by
  refine ⟨neverMeasured,neverMeasured_reachable,cutOff,?_,?_⟩
  · rw [neverMeasured_signals]
    exact List.mem_singleton_self cutOff
  · decide

theorem signal_after_drain_neverMeasured : cutOff ∈ neverMeasured.signals ∧
      (cutOff.inFlight = 0 ∨ (cutOff.cause = .drainGraceExpired ∧ cutOff.state = .draining) ∨
        cutOff.cause = .bootstrapDeadline) := by
  have hmem : cutOff ∈ neverMeasured.signals := by
    rw [neverMeasured_signals]
    exact List.mem_singleton_self cutOff
  exact ⟨hmem,signal_after_drain neverMeasured neverMeasured_reachable cutOff hmem⟩

end OnPremGateway.OwnerSignals
