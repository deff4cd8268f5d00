import Mathlib

/-!
# Calls that may fail

A call runs in a state it changes and ends with a value or an error, the state
as it left it in both cases. An outcome rule says what a call ensures of either
end when it starts in a state that satisfies a precondition; there is one rule
for each way to build a call.
-/

set_option autoImplicit false

namespace OnPremGateway.CallOutcomes

variable {ε σ α β : Type}

abbrev Call (ε σ α : Type) := ExceptT ε (StateM σ) α

theorem bind_ok_iff (x : Except ε α) (f : α → Except ε β) (b : β) :
    x >>= f = .ok b ↔ ∃ a, x = .ok a ∧ f a = .ok b := by
  cases x with
  | error e =>
    constructor
    · intro h
      cases h
    · rintro ⟨a,h,-⟩
      cases h
  | ok a =>
    constructor
    · intro h
      exact ⟨a,rfl,h⟩
    · rintro ⟨a',h,hf⟩
      cases h
      exact hf

theorem bind_error_iff (x : Except ε α) (f : α → Except ε β) (e : ε) :
    x >>= f = .error e ↔ x = .error e ∨ ∃ a, x = .ok a ∧ f a = .error e := by
  cases x with
  | error e' =>
    constructor
    · intro h
      cases h
      exact Or.inl rfl
    · rintro (h|⟨a,h,-⟩)
      · cases h
        rfl
      · cases h
  | ok a =>
    constructor
    · intro h
      exact Or.inr ⟨a,rfl,h⟩
    · rintro (h|⟨a',h,hf⟩)
      · cases h
      · cases h
        exact hf

def lift (x : Except ε α) : Call ε σ α := ExceptT.mk (pure x)

def attempt (x : Call ε σ α) : Call ε σ (Except ε α) := ExceptT.lift x.run

/-- How a call ends from a state. -/
def outcome (x : Call ε σ α) (s : σ) : Except ε α × σ := x.run.run s

/-- From every state that satisfies `P`, the call ends with a value and a state
that satisfy `Q`, or with an error and a state that satisfy `E`. -/
def Ensures (P : σ → Prop) (x : Call ε σ α) (Q : α → σ → Prop) (E : ε → σ → Prop) : Prop :=
  ∀ s, P s →
    (∀ a t, outcome x s = (.ok a, t) → Q a t) ∧ (∀ e t, outcome x s = (.error e, t) → E e t)

variable {P : σ → Prop} {E : ε → σ → Prop}

theorem outcome_bind (x : Call ε σ α) (f : α → Call ε σ β) (s : σ) : outcome (x >>= f) s =
      match outcome x s with
      | (.ok a, t) => outcome (f a) t
      | (.error e, t) => (.error e, t) := by
  change outcome (ExceptT.bind x f) s = _
  rw [outcome, outcome, ExceptT.bind, ExceptT.run_mk, StateT.run_bind]
  change (match (x.run.run s).1 with | .ok a => f a | .error e => pure (.error e) : StateM σ _)
    (x.run.run s).2 = _
  rcases x.run.run s with ⟨a|a,t⟩
  · rfl
  · rfl

@[simp] theorem outcome_pure (a : α) (s : σ) : outcome (pure a : Call ε σ α) s = (.ok a, s) := rfl

@[simp] theorem outcome_lift (x : Except ε α) (s : σ) :
    outcome (lift x : Call ε σ α) s = (x, s) := rfl

@[simp] theorem outcome_get (s : σ) : outcome (get : Call ε σ σ) s = (.ok s, s) := rfl

variable {Q : α → σ → Prop} {R : β → σ → Prop} {x : Call ε σ α} {f : α → Call ε σ β}

theorem Ensures.pure (a : α) (h : ∀ s, P s → Q a s) : Ensures P (pure a : Call ε σ α) Q E := by
  intro s hs
  constructor
  · intro b t hb
    cases hb
    exact h s hs
  · intro e t he
    cases he

theorem Ensures.none {X : α → σ → Prop} :
    Ensures P (Pure.pure none : Call ε σ (Option α)) (fun found s => ∀ a, found = some a → X a s) E := by
  apply Ensures.pure
  intro s _ a ha
  cases ha

theorem Ensures.throw (e : ε) (h : ∀ s, P s → E e s) : Ensures P (throw e : Call ε σ α) Q E := by
  intro s hs
  constructor
  · intro b t hb
    cases hb
  · intro e' t he
    cases he
    exact h s hs

theorem Ensures.bind (hx : Ensures P x Q E) (hf : ∀ a, Ensures (Q a) (f a) R E) :
    Ensures P (x >>= f) R E := by
  intro s hs
  have h := hx s hs
  rw [outcome_bind]
  rcases hr : outcome x s with ⟨a|a,t⟩
  · rw [hr] at h
    constructor
    · intro b u hb
      cases hb
    · intro e u he
      cases he
      exact h.2 a t rfl
  · rw [hr] at h
    exact hf a t (h.1 a t rfl)

theorem Ensures.lift (x : Except ε α) (hok : ∀ a, x = .ok a → ∀ s, P s → Q a s)
    (herr : ∀ e, x = .error e → ∀ s, P s → E e s) :
    Ensures P (CallOutcomes.lift x : Call ε σ α) Q E := by
  intro s hs
  constructor
  · intro a t h
    cases h
    exact hok a rfl s hs
  · intro e t h
    cases h
    exact herr e rfl s hs

theorem Ensures.attempt {F : ε → σ → Prop} {x : Call ε σ α}
    (h : Ensures P x Q F) : Ensures P (CallOutcomes.attempt x)
      (fun res s => (∀ a, res = .ok a → Q a s) ∧ (∀ e, res = .error e → F e s)) E := by
  intro s hs
  have hx := h s hs
  have heq : outcome (CallOutcomes.attempt x) s = (.ok (outcome x s).1, (outcome x s).2) := rfl
  rw [heq]
  constructor
  · intro res t ht
    cases ht
    constructor
    · intro a ha
      exact hx.1 a _ (Prod.ext ha rfl)
    · intro e he
      exact hx.2 e _ (Prod.ext he rfl)
  · intro e t ht
    cases ht

theorem Ensures.get : Ensures P (get : Call ε σ σ) (fun a s => a = s ∧ P s) E := by
  intro s hs
  constructor
  · intro a t h
    cases h
    exact ⟨rfl,hs⟩
  · intro e t h
    cases h

theorem Ensures.modify {Q : PUnit → σ → Prop} (f : σ → σ) (h : ∀ s, P s → Q ⟨⟩ (f s)) :
    Ensures P (modify f : Call ε σ PUnit) Q E := by
  intro s hs
  constructor
  · intro a t ht
    cases ht
    exact h s hs
  · intro e t ht
    cases ht

theorem Ensures.mono {P' : σ → Prop} {Q Q' : α → σ → Prop} {E' : ε → σ → Prop} {x : Call ε σ α}
    (h : Ensures P x Q E) (hp : ∀ s, P' s → P s) (hq : ∀ a s, Q a s → Q' a s)
    (he : ∀ e s, E e s → E' e s) : Ensures P' x Q' E' := by
  intro s hs
  have hx := h s (hp s hs)
  exact ⟨fun a t ht => hq a t (hx.1 a t ht),fun e t ht => he e t (hx.2 e t ht)⟩

theorem Ensures.any (x : Call ε σ α) : Ensures P x (fun _ _ => True) (fun _ _ => True) := by
  intro s _
  exact ⟨fun _ _ _ => trivial,fun _ _ _ => trivial⟩

/-- Whatever a call does, what follows is judged from its end. -/
theorem Ensures.after (hf : ∀ a, Ensures (fun _ => True) (f a) R (fun _ _ => True)) :
    Ensures P (x >>= f) R (fun _ _ => True) :=
  (Ensures.any x).bind hf

theorem Ensures.of_pre {P' : σ → Prop} {Q : α → σ → Prop} {x : Call ε σ α} (h : Ensures P x Q E)
    (hp : ∀ s, P' s → P s) : Ensures P' x Q E :=
  h.mono hp (fun _ _ hq => hq) (fun _ _ he => he)

theorem Ensures.ite {c : Prop} [Decidable c] {x y : Call ε σ α}
    (hx : c → Ensures P x Q E) (hy : ¬c → Ensures P y Q E) :
    Ensures P (if c then x else y) Q E := by
  by_cases h : c
  · rw [if_pos h]
    exact hx h
  · rw [if_neg h]
    exact hy h

/-- From one state, what a call ends with is known. -/
theorem Ensures.traced {s : σ} (h : Ensures (fun t => t = s) x Q E) :
    Ensures (fun t => t = s) x (fun a t => Q a t ∧ outcome x s = (.ok a, t)) E := by
  rintro t rfl
  exact ⟨fun a u hu => ⟨(h t rfl).1 a u hu,hu⟩,(h t rfl).2⟩

/-- What is known of the start whatever the state may be used as a fact. -/
theorem Ensures.assume {p : Prop} (hp : ∀ s, P s → p)
    (h : p → Ensures P x Q E) : Ensures P x Q E := by
  intro s hs
  exact h (hp s hs) s hs

/-- A value that is read is a fact for what follows. -/
theorem Ensures.lifted {x : Except ε α} {f : α → Call ε σ β}
    (hf : ∀ a, x = .ok a → Ensures P (f a) R (fun _ _ => True)) :
    Ensures P (CallOutcomes.lift x >>= f) R (fun _ _ => True) :=
  (Ensures.lift (Q := fun a s => x = .ok a ∧ P s) x (fun _ h _ hs => ⟨h,hs⟩)
    fun _ _ _ _ => trivial).bind fun a =>
      Ensures.assume (fun _ h => h.1) fun h => (hf a h).of_pre fun _ hs => hs.2

end OnPremGateway.CallOutcomes
