import Mathlib

/-!
# Flattened model groups

A group's members are models and groups. Flattening walks the groups, each by
its own traversal, and lists the models; a group that is already on the way is
passed over. Whatever the traversals are, the models listed are those that can
be reached through active groups: a walk that comes back to a group can leave
out what lies between.
-/

set_option autoImplicit false

namespace OnPremGateway.GroupFlattening
open List

inductive Traversal
  | depth
  | breadth
  | roundRobin
  | other (name : String)
  deriving DecidableEq

structure FlatGroup where
  traversal : Traversal
  members : List String
  active : Bool
  deriving DecidableEq

/-- The groups under their lower-cased names. -/
abbrev Graph := List (String × FlatGroup)

def unvisited (graph : Graph) (visiting : List String) : ℕ :=
  (graph.filter fun entry => entry.1 ∉ visiting).length

theorem unvisited_cons_lt {graph : Graph} {visiting : List String} {lname : String} {g : FlatGroup}
    (hg : graph.lookup lname = some g) (hv : lname ∉ visiting) :
    unvisited graph (lname::visiting) < unvisited graph visiting := by
  have hmem : (lname, g) ∈ graph := by
    obtain ⟨before,after,rfl,-⟩ := lookup_eq_some_iff.mp hg
    simp
  have hsplit : (graph.filter fun entry => entry.1 ∉ lname::visiting) =
      (graph.filter fun entry => entry.1 ∉ visiting).filter fun entry => entry.1 ≠ lname := by
    simp [filter_filter, mem_cons, not_or]
  rw [unvisited, unvisited, hsplit]
  exact length_filter_lt_length_iff_exists.mpr ⟨(lname, g),by simp [hmem, hv],by simp⟩

inductive Stream
  | model (name : String)
  | group (items : List String)

def Stream.length : Stream → ℕ
  | .model _ => 0
  | .group items => items.length

def Stream.pass (k : ℕ) : Stream → List String
  | .model name => if k = 0 then [name] else []
  | .group items => items[k]?.toList

def roundRobin (streams : List Stream) : List String :=
  let maxLen := (streams.map Stream.length).foldr max 0
  let passes := if maxLen = 0 then 1 else maxLen
  (List.range passes).flatMap fun k => streams.flatMap (Stream.pass k)

section Flatten
variable (normalise : String → String)

def isGroup (graph : Graph) (memberName : String) : Bool :=
  (graph.lookup (normalise memberName)).isSome

def flattenGroup (graph : Graph) (lname : String) (visiting : List String) : List String :=
  match _hg : graph.lookup lname with
  | none => []
  | some g =>
    if !g.active then []
    else if _hv : lname ∈ visiting then []
    else
      let items := fun m => flattenGroup graph (normalise m) (lname::visiting)
      match g.traversal with
      | .breadth => g.members.filter (!isGroup normalise graph ·) ++
          (g.members.filter (isGroup normalise graph)).flatMap items
      | .roundRobin => roundRobin (g.members.map fun m =>
          if isGroup normalise graph m then .group (items m) else .model m)
      | _ => g.members.flatMap fun m => if isGroup normalise graph m then items m else [m]
termination_by unvisited graph visiting
decreasing_by exact unvisited_cons_lt _hg _hv

def keepFirst (seen : List String) : List String → List String
  | [] => []
  | m::rest =>
    if normalise m = "" ∨ normalise m ∈ seen then keepFirst seen rest
    else m::keepFirst (normalise m::seen) rest

/-- `FlattenGroup`: the members of a group and of the groups below it. -/
def flattened (name : String) (graph : Graph) : List String :=
  keepFirst normalise [] (flattenGroup normalise graph (normalise name) [])

/-! ### Reachable models -/

/-- What a traversal does not read. -/
def shape (graph : Graph) (lname : String) : Option (List String × Bool) :=
  (graph.lookup lname).map fun g => (g.members, g.active)

/-- The name is no group and stands in an active group, or below one, and the
groups on the way to it are of `S`. -/
inductive Leaf (shape : String → Option (List String × Bool)) (S : Set String) :
    String → String → Prop
  | member {lname m : String} {members : List String} (hg : shape lname = some (members, true))
      (hS : lname ∈ S) (hm : m ∈ members) (hn : (shape (normalise m)).isSome = false) :
      Leaf shape S lname m
  | inside {lname m x : String} {members : List String} (hg : shape lname = some (members, true))
      (hS : lname ∈ S) (hm : m ∈ members) (hn : (shape (normalise m)).isSome = true)
      (hx : Leaf shape S (normalise m) x) : Leaf shape S lname x

/-- A round robin drops nothing. -/
theorem mem_roundRobin (streams : List Stream) (x : String) : x ∈ roundRobin streams ↔
      ∃ s ∈ streams, s = .model x ∨ ∃ items, s = .group items ∧ x ∈ items := by
  have hmax (s : Stream) (hs : s ∈ streams) : s.length ≤ (streams.map Stream.length).foldr max 0 :=
    le_max_of_le' _ (mem_map_of_mem hs) le_rfl
  simp only [roundRobin, mem_flatMap, mem_range]
  constructor
  · rintro ⟨k,-,s,hs,hx⟩
    refine ⟨s,hs,?_⟩
    cases s with
    | model name =>
      rw [Stream.pass] at hx
      split_ifs at hx
      · exact .inl (congrArg _ (mem_singleton.mp hx).symm)
      · cases hx
    | group items => exact .inr ⟨items,rfl,mem_of_getElem? (Option.mem_toList.mp hx)⟩
  · rintro ⟨s,hs,rfl|⟨items,rfl,hx⟩⟩
    · refine ⟨0,?_,_,hs,by simp [Stream.pass]⟩
      split_ifs <;> omega
    · obtain ⟨k,hk⟩ := mem_iff_getElem?.mp hx
      have hlt := (List.getElem?_eq_some_iff.mp hk).1
      have hle := hmax _ hs
      rw [Stream.length] at hle
      refine ⟨k,?_,_,hs,by simp [Stream.pass, hk]⟩
      split_ifs <;> omega

theorem mem_flattenGroup (graph : Graph) (lname x : String) (visiting : List String) :
    x ∈ flattenGroup normalise graph lname visiting ↔
      lname ∉ visiting ∧ ∃ members, shape graph lname = some (members, true) ∧ ∃ m ∈ members,
        if (shape graph (normalise m)).isSome then
          x ∈ flattenGroup normalise graph (normalise m) (lname::visiting) else x = m := by
  have hgroup (m : String) : (shape graph (normalise m)).isSome = isGroup normalise graph m := by
    simp [shape, isGroup]
  rw [flattenGroup]
  simp only [hgroup]
  rw [shape]
  split
  · rename_i hg
    simp [hg]
  rename_i g hg
  cases hactive : g.active with
  | false => simp [hg, hactive]
  | true =>
    by_cases hv : lname ∈ visiting
    · simp [hv]
    simp only [hg, hactive, hv, Bool.not_true, Bool.false_eq_true, if_false, dite_false,
      not_false_eq_true, true_and, Option.map_some, Option.some.injEq, Prod.mk.injEq, and_true,
      exists_eq_left']
    split
    · -- the groups come after the models
      simp only [mem_append, mem_filter, mem_flatMap]
      constructor
      · rintro (⟨hm,hn⟩|⟨m,⟨hm,hn⟩,hx⟩)
        · exact ⟨x,hm,by simp_all⟩
        · exact ⟨m,hm,by simpa [hn] using hx⟩
      · rintro ⟨m,hm,hx⟩
        cases hn : isGroup normalise graph m with
        | false =>
          rw [hn, if_neg Bool.false_ne_true] at hx
          subst hx
          exact .inl ⟨hm,by simp [hn]⟩
        | true => exact .inr ⟨m,⟨hm,hn⟩,by simpa [hn] using hx⟩
    · rw [mem_roundRobin]
      simp only [mem_map]
      constructor
      · rintro ⟨_,⟨m,hm,rfl⟩,hx⟩
        refine ⟨m,hm,?_⟩
        cases hn : isGroup normalise graph m <;> simp_all
      · rintro ⟨m,hm,hx⟩
        refine ⟨_,⟨m,hm,rfl⟩,?_⟩
        cases hn : isGroup normalise graph m <;> simp_all
    · simp only [mem_flatMap]
      refine exists_congr fun m => and_congr_right fun _ => ?_
      cases isGroup normalise graph m <;> simp

/-- A walk that comes by a group either avoids it or can be started there. -/
theorem Leaf.avoid {normalise : String → String} {shape : String → Option (List String × Bool)}
    {visiting : List String} {a x : String} (h : Leaf normalise shape {k | k ∉ visiting} a x)
    (b : String) : Leaf normalise shape {k | k ∉ b::visiting} a x ∨
      b ∉ visiting ∧ ∃ members, shape b = some (members, true) ∧ ∃ m ∈ members,
        if (shape (normalise m)).isSome then
          Leaf normalise shape {k | k ∉ b::visiting} (normalise m) x else x = m := by
  induction h with
  | @member l m members hg hS hm hn =>
    by_cases hb : l = b
    · subst hb
      exact .inr ⟨hS,members,hg,m,hm,by simp [hn]⟩
    · exact .inl (.member hg (by simpa [hb] using hS) hm hn)
  | @inside l m x members hg hS hm hn _ ih =>
    rcases ih with ih|ih
    · by_cases hb : l = b
      · subst hb
        exact .inr ⟨hS,members,hg,m,hm,by simpa [hn] using ih⟩
      · exact .inl (.inside hg (by simpa [hb] using hS) hm hn ih)
    · exact .inr ih

theorem leaf_of_mem (graph : Graph) (lname x : String) (visiting : List String)
    (h : x ∈ flattenGroup normalise graph lname visiting) :
    Leaf normalise (shape graph) Set.univ lname x := by
  induction hn : unvisited graph visiting using Nat.strong_induction_on generalizing lname visiting with
  | _ n ih =>
    obtain ⟨hv,members,hg,m,hm,hx⟩ := (mem_flattenGroup normalise graph lname x visiting).mp h
    obtain ⟨g,hlookup,-⟩ := Option.map_eq_some_iff.mp hg
    split_ifs at hx with hgroup
    · exact .inside hg trivial hm hgroup
        (ih _ (hn ▸ unvisited_cons_lt hlookup hv) _ _ hx rfl)
    · rw [hx]
      exact .member hg trivial hm (by simpa using hgroup)

theorem mem_of_leaf (graph : Graph) (lname x : String) (visiting : List String)
    (h : Leaf normalise (shape graph) {k | k ∉ visiting} lname x) :
    x ∈ flattenGroup normalise graph lname visiting := by
  induction hn : unvisited graph visiting using Nat.strong_induction_on generalizing lname visiting with
  | _ n ih =>
    rcases h.avoid lname with h|⟨hv,members,hg,m,hm,hx⟩
    · cases h with
      | member _ hS => exact absurd mem_cons_self hS
      | inside _ hS => exact absurd mem_cons_self hS
    obtain ⟨g,hlookup,-⟩ := Option.map_eq_some_iff.mp hg
    refine (mem_flattenGroup normalise graph lname x visiting).mpr ⟨hv,members,hg,m,hm,?_⟩
    split_ifs at hx ⊢
    · exact ih _ (hn ▸ unvisited_cons_lt hlookup hv) _ _ hx rfl
    · exact hx

theorem keepFirst_spec (seen raw : List String) :
    ((keepFirst normalise seen raw).map normalise).Nodup ∧
    ∀ key, key ∈ (keepFirst normalise seen raw).map normalise ↔
      key ≠ "" ∧ key ∉ seen ∧ key ∈ raw.map normalise := by
  induction raw generalizing seen with
  | nil => simp [keepFirst]
  | cons m rest ih =>
    rw [keepFirst]
    split_ifs with hm
    · refine ⟨(ih seen).1,fun key => ?_⟩
      rw [(ih seen).2 key]
      grind
    obtain ⟨hnodup,hmem⟩ := ih (normalise m::seen)
    simp only [map_cons, nodup_cons, hmem]
    refine ⟨⟨by simp,hnodup⟩,fun key => ?_⟩
    rw [mem_cons, hmem]
    grind

/-- Flattening lists every reachable model once and nothing else, so the
traversals only decide the order. -/
theorem flattened_reachable_leaves (normalise : String → String) (graph : Graph) (name : String) :
    ((flattened normalise name graph).map normalise).Nodup ∧
    (∀ key, key ∈ (flattened normalise name graph).map normalise ↔ key ≠ "" ∧
      ∃ m, Leaf normalise (shape graph) Set.univ (normalise name) m ∧ normalise m = key) ∧
    ∀ graph', shape graph' = shape graph → ∀ key,
      key ∈ (flattened normalise name graph').map normalise ↔
        key ∈ (flattened normalise name graph).map normalise := by
  have hset (g : Graph) (key : String) :
      key ∈ (flattened normalise name g).map normalise ↔ key ≠ "" ∧
        ∃ m, Leaf normalise (shape g) Set.univ (normalise name) m ∧ normalise m = key := by
    rw [flattened, (keepFirst_spec normalise [] _).2 key, mem_map]
    have hleaf (m : String) : m ∈ flattenGroup normalise g (normalise name) [] ↔
        Leaf normalise (shape g) Set.univ (normalise name) m :=
      ⟨leaf_of_mem normalise g _ m [],fun h => mem_of_leaf normalise g _ m [] (by simpa using h)⟩
    simp [hleaf]
  refine ⟨(keepFirst_spec normalise [] _).1,hset graph,fun graph' hshape key => ?_⟩
  rw [hset, hset, hshape]

end Flatten

end OnPremGateway.GroupFlattening
