import Mathlib

/-!
# Text with marked stretches

A text is put together from plain pieces and from marked ones, and each mark
keeps the offsets of what it covers. One pass over the marks replaces every
marked stretch by what its label says, so the outcome shows the plain pieces
and the labels and nothing of what was marked.
-/

set_option autoImplicit false

namespace OnPremGateway.MarkedText
open List

variable {α β : Type}

structure Mark (β : Type) where
  start : ℕ
  stop : ℕ
  label : β
  deriving DecidableEq

def Mark.shift (n : ℕ) (m : Mark β) : Mark β := { m with start := m.start+n, stop := m.stop+n }

inductive Piece (α β : Type) where
  | plain (text : List α)
  | marked (text : List α) (label : β)

def Piece.text : Piece α β → List α
  | .plain t => t
  | .marked t _ => t

/-- What is left of a piece once it is replaced. -/
def Piece.shown (mask : β → List α) : Piece α β → List α
  | .plain t => t
  | .marked _ b => mask b

def Piece.isMarked : Piece α β → Bool
  | .plain _ => false
  | .marked _ _ => true

inductive Piece.Alike : Piece α β → Piece α β → Prop
  | plain (t : List α) : Alike (.plain t) (.plain t)
  | marked (t u : List α) (b : β) : Alike (.marked t b) (.marked u b)

def text (ps : List (Piece α β)) : List α := ps.flatMap Piece.text

def shown (mask : β → List α) (ps : List (Piece α β)) : List α := ps.flatMap (Piece.shown mask)

def marks : List (Piece α β) → ℕ → List (Mark β)
  | [], _ => []
  | .plain t::ps, n => marks ps (n+t.length)
  | .marked t b::ps, n => ⟨n, n+t.length, b⟩::marks ps (n+t.length)

/-- How far a pass has come: what it has written, how much of the text that
accounts for, and whether anything was replaced. -/
structure Pass (α : Type) where
  written : List α := []
  copied : ℕ := 0
  changed : Bool := false

def replaceMark (mask : β → List α) (s : List α) (p : Pass α) (m : Mark β) : Pass α :=
  if m.start < p.copied || m.stop > s.length || m.stop < m.start then p
  else { written := p.written ++ (s.take m.start).drop p.copied ++ mask m.label
         copied := m.stop, changed := true }

def replaceMarks (mask : β → List α) (s : List α) (ms : List (Mark β)) : List α × Bool :=
  if ms.length = 0 then (s, false)
  else
    let p := ms.foldl (replaceMark mask s) {}
    if !p.changed then (s, false) else (p.written ++ s.drop p.copied, true)

section Assembly

theorem marks_append (ps qs : List (Piece α β)) (n : ℕ) :
    marks (ps ++ qs) n = marks ps n ++ marks qs (n+(text ps).length) := by
  induction ps generalizing n with
  | nil => rfl
  | cons p ps ih =>
    cases p with
    | plain t =>
      rw [cons_append, marks, marks, ih]
      simp [text, Piece.text, Nat.add_assoc]
    | marked t b =>
      rw [cons_append, marks, marks, ih]
      simp [text, Piece.text, Nat.add_assoc]

theorem marks_shift (ps : List (Piece α β)) (n k : ℕ) :
    marks ps (n+k) = (marks ps n).map (Mark.shift k) := by
  induction ps generalizing n with
  | nil => rfl
  | cons p ps ih =>
    cases p with
    | plain t =>
      rw [marks, marks, ← ih]
      congr 1
      omega
    | marked t b =>
      rw [marks, marks, map_cons, ← ih]
      congr 1
      · simp only [Mark.shift, Mark.mk.injEq, and_true, true_and]
        omega
      · congr 1
        omega

end Assembly

section Replacing
variable (mask : β → List α)

/-- A pass over the marks of what follows the text before it. -/
theorem foldl_replaceMark (s before : List α) (ps : List (Piece α β)) (p : Pass α)
    (hs : s = before ++ text ps) (hp : p.copied ≤ before.length) :
    let q := (marks ps before.length).foldl (replaceMark mask s) p
    q.written ++ s.drop q.copied = p.written ++ before.drop p.copied ++ shown mask ps ∧
      q.changed = (p.changed || ps.any Piece.isMarked) := by
  induction ps generalizing before p with
  | nil =>
    rw [hs]
    simp [marks, text, shown]
  | cons piece ps ih =>
    cases piece with
    | plain t =>
      have hs' : s = (before ++ t) ++ text ps := by
        rw [hs, append_assoc]
        rfl
      have h := ih (before ++ t) p hs' (by rw [length_append]; omega)
      rw [length_append] at h
      rw [marks]
      refine ⟨h.1.trans ?_,h.2⟩
      rw [drop_append_of_le_length hp]
      simp [shown, Piece.shown]
    | marked t b =>
      have hs' : s = (before ++ t) ++ text ps := by
        rw [hs, append_assoc]
        rfl
      have hlen : s.length = before.length+t.length+(text ps).length := by
        rw [hs', length_append, length_append]
      have hone : replaceMark mask s p ⟨before.length, before.length+t.length, b⟩ =
          { written := p.written ++ before.drop p.copied ++ mask b
            copied := before.length+t.length, changed := true } := by
        rw [replaceMark, if_neg]
        · have htake : s.take before.length = before := by
            rw [hs', append_assoc, take_left]
          rw [htake]
        · simp only [Bool.or_eq_true, decide_eq_true_eq]
          omega
      have h := ih (before ++ t)
        { written := p.written ++ before.drop p.copied ++ mask b
          copied := before.length+t.length, changed := true } hs' (by rw [length_append])
      rw [length_append] at h
      rw [marks, foldl_cons, hone]
      refine ⟨h.1.trans ?_,h.2.trans ?_⟩
      · have hdrop : (before ++ t).drop (before.length+t.length) = [] :=
          drop_of_length_le (by rw [length_append])
        rw [hdrop]
        simp [shown, Piece.shown]
      · simp [Piece.isMarked]

theorem marks_eq_nil (ps : List (Piece α β)) (n : ℕ) (h : marks ps n = []) :
    ps.any Piece.isMarked = false ∧ shown mask ps = text ps := by
  induction ps generalizing n with
  | nil => exact ⟨rfl,rfl⟩
  | cons p ps ih =>
    cases p with
    | plain t =>
      obtain ⟨hany,hshown⟩ := ih _ h
      refine ⟨hany,?_⟩
      simp only [shown, text, flatMap_cons, Piece.shown, Piece.text] at hshown ⊢
      rw [hshown]
    | marked t b => cases h

theorem shown_eq_text (ps : List (Piece α β)) (h : ps.any Piece.isMarked = false) :
    shown mask ps = text ps := by
  induction ps with
  | nil => rfl
  | cons p ps ih =>
    rw [any_cons, Bool.or_eq_false_iff] at h
    cases p with
    | plain t =>
      have hps := ih h.2
      simp only [shown, text, flatMap_cons, Piece.shown, Piece.text] at hps ⊢
      rw [hps]
    | marked t b => cases h.1

theorem replaceMarks_marks (ps : List (Piece α β)) :
    replaceMarks mask (text ps) (marks ps 0) = (shown mask ps, ps.any Piece.isMarked) := by
  obtain ⟨hwritten,hchanged⟩ := foldl_replaceMark mask (text ps) [] ps {} rfl le_rfl
  rw [replaceMarks]
  split
  · rename_i hnil
    obtain ⟨hany,hshown⟩ := marks_eq_nil mask ps 0 (length_eq_zero_iff.mp hnil)
    rw [hany, hshown]
  dsimp only at hwritten hchanged ⊢
  rw [length_nil] at hwritten hchanged
  rw [hchanged, Bool.false_or]
  cases hany : ps.any Piece.isMarked with
  | false =>
    rw [shown_eq_text mask ps hany]
    rfl
  | true =>
    rw [hwritten]
    rfl

/-- What is shown does not depend on what is marked. -/
theorem shown_congr {ps qs : List (Piece α β)} (h : List.Forall₂ Piece.Alike ps qs) :
    shown mask ps = shown mask qs ∧ ps.any Piece.isMarked = qs.any Piece.isMarked := by
  induction h with
  | nil => exact ⟨rfl,rfl⟩
  | cons hp _ ih =>
    cases hp with
    | plain t =>
      refine ⟨?_,ih.2⟩
      rw [shown, flatMap_cons, ← shown, ih.1]
      rfl
    | marked t u b =>
      refine ⟨?_,rfl⟩
      rw [shown, flatMap_cons, ← shown, ih.1]
      rfl

end Replacing

end OnPremGateway.MarkedText
