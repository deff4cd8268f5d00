import Mathlib

/-!
# Cycles and how a search finds them

A relation is acyclic if nothing reaches itself. When the edges at one node
change, a new cycle passes through that node, and a depth-first search from the
node finds it: the search looks at every node it can reach once, and stops where
it comes back to its start.
-/

set_option autoImplicit false

namespace OnPremGateway.CycleSearch
open Relation List Finset

section Acyclicity
variable {α β : Type*}

def Acyclic (R : α → α → Prop) : Prop := ∀ a, ¬ TransGen R a a

theorem Acyclic.of_map {R : α → α → Prop} {S : β → β → Prop} (hS : Acyclic S) (f : α → β)
    (h : ∀ a b, R a b → S (f a) (f b)) : Acyclic R := by
  intro a ha
  exact hS (f a) (TransGen.lift f h _ _ ha)

theorem Acyclic.mono {R S : α → α → Prop} (hS : Acyclic S) (h : ∀ a b, R a b → S a b) : Acyclic R :=
  hS.of_map id h

/-- Where only the edges at one node are new, a path keeps to the old ones or
passes through the node. -/
theorem transGen_or_through {R S : α → α → Prop} (a : α)
    (h : ∀ x y, x ≠ a → y ≠ a → S x y → R x y) {x y : α} (hxy : TransGen S x y) :
    TransGen R x y ∨ (ReflTransGen S x a ∧ ReflTransGen S a y) := by
  induction hxy with
  | @single y hstep =>
    by_cases hx : x = a
    · exact .inr ⟨hx ▸ .refl,hx ▸ .single hstep⟩
    · by_cases hy : y = a
      · exact .inr ⟨hy ▸ .single hstep,hy ▸ .refl⟩
      · exact .inl (.single (h x y hx hy hstep))
  | @tail y z hpath hstep ih =>
    by_cases hz : z = a
    · exact .inr ⟨hz ▸ hpath.to_reflTransGen.tail hstep,hz ▸ .refl⟩
    by_cases hy : y = a
    · exact .inr ⟨hy ▸ hpath.to_reflTransGen,hy ▸ .single hstep⟩
    · cases ih with
      | inl hold => exact .inl (hold.tail (h y z hy hz hstep))
      | inr hthrough => exact .inr ⟨hthrough.1,hthrough.2.tail hstep⟩

theorem acyclic_iff_of_change {R S : α → α → Prop} (hR : Acyclic R) (a : α)
    (h : ∀ x y, x ≠ a → y ≠ a → S x y → R x y) : Acyclic S ↔ ¬ TransGen S a a := by
  constructor
  · intro hS
    exact hS a
  · intro ha x hx
    cases transGen_or_through a h hx with
    | inl hold => exact hR x hold
    | inr hthrough =>
      apply ha
      exact TransGen.trans_right hthrough.2 (hx.trans_left hthrough.1)

end Acyclicity

section Search
variable {κ ν : Type*} (adj : κ → Option (List ν)) (key : ν → κ) (start : κ)

def Edge (a b : κ) : Prop := ∃ names, adj a = some names ∧ b ∈ names.map key

def Looked (seen : List κ) (a : κ) : Prop :=
  ∀ b, Edge adj key a b → b ≠ start ∧ (adj b ≠ none → b ∈ seen)

theorem Looked.mono {seen seen' : List κ} {a : κ} (h : Looked adj key start seen a)
    (hsub : seen ⊆ seen') : Looked adj key start seen' a := by
  intro b hb
  exact ⟨(h b hb).1,fun hnode => hsub ((h b hb).2 hnode)⟩

/-- What a search that comes to its end leaves: it forgets nothing, and every
node it adds was looked at. -/
def Completed (seen seen' : List κ) : Prop :=
  seen ⊆ seen' ∧ ∀ a ∈ seen', a ∉ seen → Looked adj key start seen' a

theorem Completed.refl (seen : List κ) : Completed adj key start seen seen :=
  ⟨List.Subset.refl seen,fun _ ha hnot => absurd ha hnot⟩

theorem Completed.trans {s t u : List κ} (hst : Completed adj key start s t)
    (htu : Completed adj key start t u) : Completed adj key start s u := by
  constructor
  · exact List.Subset.trans hst.1 htu.1
  · intro a ha hnot
    by_cases hat : a ∈ t
    · exact (hst.2 a hat hnot).mono adj key start htu.1
    · exact htu.2 a ha hat

variable [DecidableEq κ]

/-- The nodes seen from a node on, or nothing when the start was reached. -/
def visit : ℕ → ν → List κ → Option (List κ)
  | 0, _, seen => some seen
  | fuel + 1, node, seen =>
    ((adj (key node)).getD []).foldlM (fun seen m =>
      if key m = start then none
      else if adj (key m) = none then some seen
      else if key m ∈ seen then some seen
      else visit fuel m (key m::seen)) seen

def visitName (fuel : ℕ) (seen : List κ) (m : ν) : Option (List κ) :=
  if key m = start then none
  else if adj (key m) = none then some seen
  else if key m ∈ seen then some seen
  else visit adj key start fuel m (key m::seen)

theorem visit_succ (fuel : ℕ) (node : ν) (seen : List κ) : visit adj key start (fuel+1) node seen =
      ((adj (key node)).getD []).foldlM (visitName adj key start fuel) seen := rfl

/-- A search that stops early has a path to the start. -/
theorem path_of_visit_none (fuel : ℕ) (node : ν) (seen : List κ)
    (h : visit adj key start fuel node seen = none) : TransGen (Edge adj key) (key node) start := by
  induction fuel generalizing node seen with
  | zero => cases h
  | succ fuel ih =>
    rw [visit_succ] at h
    cases hadj : adj (key node) with
    | none =>
      rw [hadj] at h
      cases h
    | some names =>
      rw [hadj, Option.getD_some] at h
      -- every name of the list is an edge; the first one that stops is the way
      have hloop : ∀ (ms : List ν) (seen : List κ), (∀ m ∈ ms, m ∈ names) →
          ms.foldlM (visitName adj key start fuel) seen = none →
          TransGen (Edge adj key) (key node) start := by
        intro ms
        induction ms with
        | nil =>
          intro seen _ hnone
          cases hnone
        | cons m ms ihms =>
          intro seen hsub hnone
          have hedge : Edge adj key (key node) (key m) :=
            ⟨names,hadj,mem_map_of_mem (hsub m mem_cons_self)⟩
          have hrest := fun n hn => hsub n (mem_cons_of_mem m hn)
          rw [foldlM_cons, visitName] at hnone
          by_cases hstart : key m = start
          · exact hstart ▸ .single hedge
          by_cases hleaf : adj (key m) = none
          · rw [if_neg hstart, if_pos hleaf] at hnone
            exact ihms seen hrest hnone
          by_cases hseen : key m ∈ seen
          · rw [if_neg hstart, if_neg hleaf, if_pos hseen] at hnone
            exact ihms seen hrest hnone
          rw [if_neg hstart, if_neg hleaf, if_neg hseen] at hnone
          cases hvisit : visit adj key start fuel m (key m::seen) with
          | none => exact .head hedge (ih m _ hvisit)
          | some seen' =>
            rw [hvisit] at hnone
            exact ihms seen' hrest hnone
      exact hloop names seen (fun m hm => hm) h

variable (nodes : Finset κ)

def unseen (seen : List κ) : ℕ := (nodes.filter (· ∉ seen)).card

theorem unseen_cons_lt {seen : List κ} {a : κ} (ha : a ∈ nodes) (hnot : a ∉ seen) :
    unseen nodes (a::seen) < unseen nodes seen := by
  apply card_lt_card
  rw [ssubset_iff_of_subset]
  · exact ⟨a,mem_filter.mpr ⟨ha,hnot⟩,fun h => (mem_filter.mp h).2 mem_cons_self⟩
  · intro b hb
    rw [Finset.mem_filter] at hb ⊢
    exact ⟨hb.1,fun h => hb.2 (mem_cons_of_mem a h)⟩

theorem unseen_le {seen seen' : List κ} (h : seen ⊆ seen') :
    unseen nodes seen' ≤ unseen nodes seen := by
  apply card_le_card
  intro b hb
  rw [Finset.mem_filter] at hb ⊢
  exact ⟨hb.1,fun hmem => hb.2 (h hmem)⟩

theorem completed_of_visit (hnodes : ∀ a, adj a ≠ none → a ∈ nodes) (fuel : ℕ) (node : ν)
    (seen seen' : List κ) (hfuel : unseen nodes seen < fuel)
    (h : visit adj key start fuel node seen = some seen') :
    Completed adj key start seen seen' ∧ Looked adj key start seen' (key node) := by
  induction fuel generalizing node seen seen' with
  | zero => omega
  | succ fuel ih =>
    rw [visit_succ] at h
    have hloop : ∀ (ms : List ν) (seen seen' : List κ), unseen nodes seen < fuel + 1 →
        ms.foldlM (visitName adj key start fuel) seen = some seen' →
        Completed adj key start seen seen' ∧
          ∀ m ∈ ms, key m ≠ start ∧ (adj (key m) ≠ none → key m ∈ seen') := by
      intro ms
      induction ms with
      | nil =>
        intro seen seen' _ hsome
        cases hsome
        exact ⟨Completed.refl adj key start seen,fun m hm => absurd hm not_mem_nil⟩
      | cons m ms ihms =>
        intro seen seen' hseen hsome
        rw [foldlM_cons] at hsome
        -- one name: the search goes on with more nodes seen, the name's among them
        have hname : ∃ mid, visitName adj key start fuel seen m = some mid ∧
            Completed adj key start seen mid ∧ key m ≠ start ∧ (adj (key m) ≠ none → key m ∈ mid) := by
          rw [visitName] at hsome ⊢
          by_cases hstart : key m = start
          · rw [if_pos hstart] at hsome
            cases hsome
          by_cases hleaf : adj (key m) = none
          · rw [if_neg hstart, if_pos hleaf]
            exact ⟨seen,rfl,Completed.refl adj key start seen,hstart,fun hnode => absurd hleaf hnode⟩
          by_cases hmem : key m ∈ seen
          · rw [if_neg hstart, if_neg hleaf, if_pos hmem]
            exact ⟨seen,rfl,Completed.refl adj key start seen,hstart,fun _ => hmem⟩
          rw [if_neg hstart, if_neg hleaf, if_neg hmem] at hsome ⊢
          cases hvisit : visit adj key start fuel m (key m::seen) with
          | none =>
            rw [hvisit] at hsome
            cases hsome
          | some mid =>
            have hlt := unseen_cons_lt nodes (hnodes _ hleaf) hmem
            obtain ⟨hcompleted,hlooked⟩ := ih m (key m::seen) mid (by omega) hvisit
            have hin := hcompleted.1 mem_cons_self
            refine ⟨mid,rfl,⟨fun a ha => hcompleted.1 (mem_cons_of_mem _ ha),?_⟩,hstart,fun _ => hin⟩
            intro a ha hnot
            by_cases ham : a = key m
            · rw [ham]
              exact hlooked
            · exact hcompleted.2 a ha fun hcons => (mem_cons.mp hcons).elim ham hnot
        obtain ⟨mid,hmid,hcompleted,hstart,hin⟩ := hname
        rw [hmid] at hsome
        have hle := unseen_le nodes hcompleted.1
        obtain ⟨hrest,hall⟩ := ihms mid seen' (by omega) hsome
        refine ⟨hcompleted.trans adj key start hrest,?_⟩
        intro n hn
        cases mem_cons.mp hn with
        | inl heq => exact heq ▸ ⟨hstart,fun hnode => hrest.1 (hin hnode)⟩
        | inr hn => exact hall n hn
    obtain ⟨hcompleted,hall⟩ := hloop _ seen seen' hfuel h
    refine ⟨hcompleted,?_⟩
    rintro b ⟨names,hadj,hb⟩
    obtain ⟨m,hm,rfl⟩ := mem_map.mp hb
    rw [hadj] at hall
    exact hall m hm

/-- A search with enough fuel that does not come back to the start shows that
there is no way back. -/
theorem visit_eq_none_iff (hnodes : ∀ a, adj a ≠ none → a ∈ nodes) (fuel : ℕ)
    (hfuel : nodes.card < fuel) (node : ν) :
    visit adj key start fuel node [] = none ↔ TransGen (Edge adj key) (key node) start := by
  constructor
  · exact path_of_visit_none adj key start fuel node []
  · intro hpath
    cases hvisit : visit adj key start fuel node [] with
    | none => rfl
    | some seen =>
      have hle : unseen nodes [] ≤ nodes.card := card_filter_le _ _
      obtain ⟨hcompleted,hlooked⟩ :=
        completed_of_visit adj key start nodes hnodes fuel node [] seen (by omega) hvisit
      -- what the start node reaches was looked at, so nothing leads back
      have hreach : ∀ a, ReflTransGen (Edge adj key) (key node) a →
          adj a ≠ none → Looked adj key start seen a := by
        intro a ha
        induction ha with
        | refl => exact fun _ => hlooked
        | tail _ hedge ih =>
          obtain ⟨names,hadj,hb⟩ := hedge
          have hprev := ih (by rw [hadj]; exact Option.some_ne_none names)
          intro hnode
          exact hcompleted.2 _ ((hprev _ ⟨names,hadj,hb⟩).2 hnode) not_mem_nil
      obtain ⟨a,ha,hedge⟩ := TransGen.tail'_iff.mp hpath
      have hnode : adj a ≠ none := by
        obtain ⟨names,hadj,-⟩ := hedge
        rw [hadj]
        exact Option.some_ne_none names
      exact absurd rfl (hreach a ha hnode start hedge).1

end Search

end OnPremGateway.CycleSearch
