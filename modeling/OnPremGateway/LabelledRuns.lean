import Mathlib

/-!
# Runs of labelled moves

A program's state changes by moves, each with a label that says what kind of
change it is. A stretch of the program is bounded by the labels it uses, and a
property survives the stretch if every move with such a label keeps it.
-/

set_option autoImplicit false

namespace OnPremGateway.LabelledRuns

section Labelled
variable {σ ℓ : Type*} {move : ℓ → σ → σ → Prop}

/-- From the one state to the other by moves with labels of `L`. -/
def Via (move : ℓ → σ → σ → Prop) (L : Set ℓ) : σ → σ → Prop :=
  Relation.ReflTransGen fun a b => ∃ l ∈ L, move l a b

theorem Via.refl (L : Set ℓ) (a : σ) : Via move L a a := Relation.ReflTransGen.refl

theorem Via.single {L : Set ℓ} {l : ℓ} {a b : σ} (hl : l ∈ L) (h : move l a b) : Via move L a b :=
  Relation.ReflTransGen.single ⟨l,hl,h⟩

theorem Via.trans {L : Set ℓ} {a b c : σ} (hab : Via move L a b) (hbc : Via move L b c) :
    Via move L a c :=
  Relation.ReflTransGen.trans hab hbc

theorem Via.mono {L M : Set ℓ} {a b : σ} (h : Via move L a b) (hLM : L ⊆ M) : Via move M a b :=
  Relation.ReflTransGen.mono (fun _ _ ⟨l,hl,hm⟩ => ⟨l,hLM hl,hm⟩) _ _ h

/-- What every move of the stretch keeps holds at its end. -/
theorem Via.keeps {L : Set ℓ} {a b : σ} (h : Via move L a b) (P : σ → Prop)
    (hP : ∀ l ∈ L, ∀ x y, move l x y → P x → P y) (ha : P a) : P b := by
  induction h with
  | refl => exact ha
  | tail _ hm ih =>
    obtain ⟨l,hl,hm⟩ := hm
    exact hP l hl _ _ hm ih

/-- What no move of the stretch changes is the same at its end. -/
theorem Via.same {β : Type*} {L : Set ℓ} {a b : σ} (h : Via move L a b) (f : σ → β)
    (hf : ∀ l ∈ L, ∀ x y, move l x y → f y = f x) : f b = f a :=
  h.keeps (fun x => f x = f a) (fun l hl x y hm hx => (hf l hl x y hm).trans hx) rfl

end Labelled

section Runs
variable {σ : Type*} {init : σ → Prop} {step : σ → σ → Prop}

/-- What holds at the start and survives every step holds in every state of a
run. -/
theorem invariant_of_step (P : σ → Prop) (h0 : ∀ s, init s → P s)
    (hs : ∀ s t, step s t → P s → P t) (s₀ s : σ) (hi : init s₀)
    (h : Relation.ReflTransGen step s₀ s) : P s := by
  induction h with
  | refl => exact h0 s₀ hi
  | tail _ ht ih => exact hs _ _ ht ih

end Runs

section Events
variable {σ ε : Type*} (step : σ → ε → Option σ)

/-- A step by some event that can happen. -/
def EventStep (s t : σ) : Prop := ∃ e, step s e = some t

/-- The events in turn; one that cannot happen is passed over. -/
def play (s : σ) : List ε → σ
  | [] => s
  | e::es => play ((step s e).getD s) es

theorem reaches_play (s : σ) (es : List ε) :
    Relation.ReflTransGen (EventStep step) s (play step s es) := by
  induction es generalizing s with
  | nil => exact .refl
  | cons e es ih =>
    refine Relation.ReflTransGen.trans ?_ (ih _)
    cases hs : step s e with
    | none => exact .refl
    | some t => exact .single ⟨e,hs⟩

variable (fine : σ → ε → Bool)

/-- A step by an event that is fine in the state it finds. -/
def FineStep (s t : σ) : Prop := ∃ e, fine s e = true ∧ step s e = some t

def playFine (s : σ) : List ε → σ
  | [] => s
  | e::es => playFine (if fine s e then (step s e).getD s else s) es

theorem fine_playFine (s : σ) (es : List ε) :
    Relation.ReflTransGen (FineStep step fine) s (playFine step fine s es) := by
  induction es generalizing s with
  | nil => exact .refl
  | cons e es ih =>
    refine Relation.ReflTransGen.trans ?_ (ih _)
    split
    · rename_i hfine
      cases hs : step s e with
      | none => exact .refl
      | some t => exact .single ⟨e,hfine,hs⟩
    · exact .refl

end Events

end OnPremGateway.LabelledRuns
