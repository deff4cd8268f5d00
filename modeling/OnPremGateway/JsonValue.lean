import Mathlib

/-!
# JSON documents and values

A document lists the members of an object as they are written; a value has
each member once, in the order of the names. Documents are generic in their
numbers, so that one type serves exact decimals and machine numbers.
-/

set_option autoImplicit false

namespace OnPremGateway.JsonValue
open List

/-- A JSON document with numbers in `α`. -/
inductive Json (α : Type) where
  | null
  | bool (b : Bool)
  | num (x : α)
  | str (s : String)
  | arr (elems : List (Json α))
  | obj (fields : List (String × Json α))

namespace Json

/-- Induction over documents, with the hypothesis for every element and for
the value of every member. -/
@[elab_as_elim]
theorem induct {α : Type} {P : Json α → Prop} (null : P .null) (bool : ∀ b, P (.bool b))
    (num : ∀ x, P (.num x)) (str : ∀ s, P (.str s))
    (arr : ∀ elems, (∀ v ∈ elems, P v) → P (.arr elems))
    (obj : ∀ fields, (∀ f ∈ fields, P f.2) → P (.obj fields)) (v : Json α) : P v := by
  apply @Json.rec α P (fun elems => ∀ v ∈ elems, P v) (fun fields => ∀ f ∈ fields, P f.2)
    (fun f => P f.2)
  case null => exact null
  case bool => exact bool
  case num => exact num
  case str => exact str
  case arr => exact arr
  case obj => exact obj
  case nil => exact nofun
  case cons =>
    intro v elems hv helems
    exact forall_mem_cons.mpr ⟨hv,helems⟩
  case nil => exact nofun
  case cons =>
    intro f fields hf hfields
    exact forall_mem_cons.mpr ⟨hf,hfields⟩
  case mk => exact fun _ _ h => h

section Traversals
variable {α β : Type}

mutual
def map (g : α → β) : Json α → Json β
  | null => null
  | bool b => bool b
  | num x => num (g x)
  | str s => str s
  | arr elems => arr (mapElems g elems)
  | obj fields => obj (mapFields g fields)

def mapElems (g : α → β) : List (Json α) → List (Json β)
  | [] => []
  | v::elems => map g v::mapElems g elems

def mapFields (g : α → β) : List (String × Json α) → List (String × Json β)
  | [] => []
  | (k, v)::fields => (k, map g v)::mapFields g fields
end

mutual
def numbers : Json α → List α
  | num x => [x]
  | arr elems => numbersElems elems
  | obj fields => numbersFields fields
  | _ => []

def numbersElems : List (Json α) → List α
  | [] => []
  | v::elems => numbers v ++ numbersElems elems

def numbersFields : List (String × Json α) → List α
  | [] => []
  | (_, v)::fields => numbers v ++ numbersFields fields
end

mutual
def depth : Json α → ℕ
  | arr elems => depthElems elems + 1
  | obj fields => depthFields fields + 1
  | _ => 0

def depthElems : List (Json α) → ℕ
  | [] => 0
  | v::elems => max (depth v) (depthElems elems)

def depthFields : List (String × Json α) → ℕ
  | [] => 0
  | (_, v)::fields => max (depth v) (depthFields fields)
end

def setField {γ : Type} (k : String) (v : γ) : List (String × γ) → List (String × γ)
  | [] => [(k, v)]
  | (k', v')::fields =>
    if k < k' then (k, v)::(k', v')::fields
    else if k = k' then (k, v)::fields
    else (k', v')::setField k v fields

/-- The members in order; of several with one name the last counts. -/
def setFields {γ : Type} (fields : List (String × γ)) : List (String × γ) :=
  fields.foldl (fun acc f => setField f.1 f.2 acc) []

mutual
/-- The value a document denotes. -/
def value : Json α → Json α
  | arr elems => arr (valueElems elems)
  | obj fields => obj (setFields (valueFields fields))
  | v => v

def valueElems : List (Json α) → List (Json α)
  | [] => []
  | v::elems => value v::valueElems elems

def valueFields : List (String × Json α) → List (String × Json α)
  | [] => []
  | (k, v)::fields => (k, value v)::valueFields fields
end

def Ordered {γ : Type} (fields : List (String × γ)) : Prop :=
  fields.Pairwise fun f g => f.1 < g.1

mutual
def IsValue : Json α → Prop
  | arr elems => IsValueElems elems
  | obj fields => Ordered fields ∧ IsValueFields fields
  | _ => True

def IsValueElems : List (Json α) → Prop
  | [] => True
  | v::elems => IsValue v ∧ IsValueElems elems

def IsValueFields : List (String × Json α) → Prop
  | [] => True
  | (_, v)::fields => IsValue v ∧ IsValueFields fields
end

theorem mapElems_eq (g : α → β) (elems : List (Json α)) : mapElems g elems = elems.map (map g) := by
  induction elems with
  | nil => rfl
  | cons v elems ih => rw [mapElems, ih, map_cons]

theorem mapFields_eq (g : α → β) (fields : List (String × Json α)) :
    mapFields g fields = fields.map fun f => (f.1, map g f.2) := by
  induction fields with
  | nil => rfl
  | cons f fields ih => rw [mapFields, ih, map_cons]

variable (elems : List (Json α)) (fields : List (String × Json α))

theorem numbersElems_eq : numbersElems elems = elems.flatMap numbers := by
  induction elems with
  | nil => rfl
  | cons v elems ih => rw [numbersElems, ih, flatMap_cons]

theorem numbersFields_eq : numbersFields fields = fields.flatMap fun f => numbers f.2 := by
  induction fields with
  | nil => rfl
  | cons f fields ih => rw [numbersFields, ih, flatMap_cons]

theorem valueElems_eq : valueElems elems = elems.map value := by
  induction elems with
  | nil => rfl
  | cons v elems ih => rw [valueElems, ih, map_cons]

theorem valueFields_eq : valueFields fields = fields.map fun f => (f.1, value f.2) := by
  induction fields with
  | nil => rfl
  | cons f fields ih => rw [valueFields, ih, map_cons]

theorem isValueElems_iff : IsValueElems elems ↔ ∀ v ∈ elems, IsValue v := by
  induction elems with
  | nil => exact iff_of_true trivial nofun
  | cons v elems ih => rw [IsValueElems, ih, forall_mem_cons]

theorem isValueFields_iff : IsValueFields fields ↔ ∀ f ∈ fields, IsValue f.2 := by
  induction fields with
  | nil => exact iff_of_true trivial nofun
  | cons f fields ih => rw [IsValueFields, ih, forall_mem_cons]

/-! ### Members in order -/

section Fields
variable {γ δ : Type}

theorem setField_map (h : γ → δ) (k : String) (v : γ) (fields : List (String × γ)) :
    setField k (h v) (fields.map fun f => (f.1, h f.2)) =
      (setField k v fields).map fun f => (f.1, h f.2) := by
  induction fields with
  | nil => rfl
  | cons f fields ih =>
    rw [map_cons, setField, setField]
    split_ifs
    · rfl
    · rfl
    · rw [ih, map_cons]

theorem setFields_map (h : γ → δ) (fields : List (String × γ)) :
    setFields (fields.map fun f => (f.1, h f.2)) = (setFields fields).map fun f => (f.1, h f.2) := by
  have hfold : ∀ acc : List (String × γ),
      (fields.map fun f => (f.1, h f.2)).foldl (fun acc f => setField f.1 f.2 acc)
        (acc.map fun f => (f.1, h f.2)) =
      (fields.foldl (fun acc f => setField f.1 f.2 acc) acc).map fun f => (f.1, h f.2) := by
    induction fields with
    | nil => exact fun _ => rfl
    | cons f fields ih =>
      intro acc
      rw [map_cons, foldl_cons, foldl_cons, ← ih, ← setField_map]
  exact hfold []

theorem mem_setField {k : String} {v : γ} {fields : List (String × γ)} {f : String × γ}
    (h : f ∈ setField k v fields) : f = (k, v) ∨ f ∈ fields := by
  induction fields with
  | nil => exact .inl (mem_singleton.mp h)
  | cons f' fields ih =>
    rw [setField] at h
    split_ifs at h
    · exact mem_cons.mp h
    · rcases mem_cons.mp h with h | h
      · exact .inl h
      · exact .inr (mem_cons_of_mem _ h)
    · rcases mem_cons.mp h with rfl | h
      · exact .inr mem_cons_self
      · exact (ih h).imp_right (mem_cons_of_mem _)

theorem mem_setFields {fields : List (String × γ)} {f : String × γ} (h : f ∈ setFields fields) :
    f ∈ fields := by
  have hfold : ∀ acc : List (String × γ),
      f ∈ fields.foldl (fun acc f => setField f.1 f.2 acc) acc → f ∈ acc ∨ f ∈ fields := by
    clear h
    induction fields with
    | nil => exact fun _ h => .inl h
    | cons f' fields ih =>
      intro acc h
      rcases ih _ h with h | h
      · rcases mem_setField h with rfl | h
        · exact .inr mem_cons_self
        · exact .inl h
      · exact .inr (mem_cons_of_mem _ h)
  exact (hfold [] h).resolve_left nofun

theorem Ordered.setField {fields : List (String × γ)} (h : Ordered fields) (k : String) (v : γ) :
    Ordered (Json.setField k v fields) := by
  induction fields with
  | nil => exact pairwise_singleton _ _
  | cons f' fields ih =>
    obtain ⟨hall,hrest⟩ := pairwise_cons.mp h
    rw [Json.setField]
    split_ifs with hlt heq
    · refine pairwise_cons.mpr ⟨?_,h⟩
      rw [forall_mem_cons]
      exact ⟨hlt,fun f hf => hlt.trans (hall f hf)⟩
    · refine pairwise_cons.mpr ⟨?_,hrest⟩
      intro f hf
      rw [heq]
      exact hall f hf
    · refine pairwise_cons.mpr ⟨?_,ih hrest⟩
      intro f hf
      rcases mem_setField hf with rfl | hf
      · exact lt_of_le_of_ne (not_lt.mp hlt) (Ne.symm heq)
      · exact hall f hf

theorem ordered_setFields (fields : List (String × γ)) : Ordered (setFields fields) := by
  have hfold : ∀ acc : List (String × γ), Ordered acc →
      Ordered (fields.foldl (fun acc f => setField f.1 f.2 acc) acc) := by
    induction fields with
    | nil => exact fun _ h => h
    | cons f fields ih => exact fun acc h => ih _ (h.setField f.1 f.2)
  exact hfold [] .nil

theorem setField_last (fields : List (String × γ)) (k : String) (v : γ)
    (h : ∀ f ∈ fields, f.1 < k) : setField k v fields = fields ++ [(k, v)] := by
  induction fields with
  | nil => rfl
  | cons f fields ih =>
    obtain ⟨hf,hfields⟩ := forall_mem_cons.mp h
    rw [setField, if_neg (not_lt.mpr hf.le), if_neg hf.ne', ih hfields, cons_append]

theorem setFields_of_ordered (fields : List (String × γ)) (h : Ordered fields) :
    setFields fields = fields := by
  have hfold : ∀ acc : List (String × γ), Ordered (acc ++ fields) →
      fields.foldl (fun acc f => setField f.1 f.2 acc) acc = acc ++ fields := by
    clear h
    induction fields with
    | nil => exact fun acc _ => (append_nil acc).symm
    | cons f fields ih =>
      intro acc hacc
      have hlast : ∀ g ∈ acc, g.1 < f.1 := fun g hg =>
        (pairwise_append.mp hacc).2.2 g hg f mem_cons_self
      rw [foldl_cons, setField_last acc f.1 f.2 hlast, ih, append_assoc]
      · rfl
      · rwa [append_assoc]
  exact hfold [] h

end Fields

theorem map_eq_self_iff_forall_mem {γ : Type} (h : γ → γ) (l : List γ) :
    l.map h = l ↔ ∀ x ∈ l, h x = x := by
  calc l.map h = l ↔ l.map h = l.map id := by rw [map_id]
    _ ↔ ∀ x ∈ l, h x = x := map_inj_left

/-! ### Values -/

variable (g : α → β) (v : Json α)

theorem value_map : (v.map g).value = v.value.map g := by
  induction v using induct with
  | null => rfl
  | bool b => rfl
  | num x => rfl
  | str s => rfl
  | arr elems ih =>
    rw [map, value, value, map, mapElems_eq, mapElems_eq, valueElems_eq, valueElems_eq,
      map_map, map_map]
    exact congrArg arr (map_congr_left ih)
  | obj fields ih =>
    rw [map, value, value, map, mapFields_eq, mapFields_eq, valueFields_eq, valueFields_eq,
      ← setFields_map, map_map, map_map]
    refine congrArg (fun fields => obj (setFields fields)) (map_congr_left ?_)
    intro f hf
    exact congrArg (f.1, ·) (ih f hf)

theorem isValue_value : v.value.IsValue := by
  induction v using induct with
  | null => trivial
  | bool b => trivial
  | num x => trivial
  | str s => trivial
  | arr elems ih =>
    rw [value, IsValue, isValueElems_iff, valueElems_eq, forall_mem_map]
    exact ih
  | obj fields ih =>
    rw [value, IsValue, isValueFields_iff, valueFields_eq]
    refine ⟨ordered_setFields _,?_⟩
    intro f hf
    obtain ⟨f',hf',rfl⟩ := mem_map.mp (mem_setFields hf)
    exact ih f' hf'

theorem value_of_isValue (h : v.IsValue) : v.value = v := by
  induction v using induct with
  | null => rfl
  | bool b => rfl
  | num x => rfl
  | str s => rfl
  | arr elems ih =>
    rw [IsValue, isValueElems_iff] at h
    rw [value, valueElems_eq, (map_eq_self_iff_forall_mem _ _).mpr]
    exact fun v hv => ih v hv (h v hv)
  | obj fields ih =>
    rw [IsValue, isValueFields_iff] at h
    rw [value, valueFields_eq, (map_eq_self_iff_forall_mem _ _).mpr, setFields_of_ordered _ h.1]
    exact fun f hf => congrArg (f.1, ·) (ih f hf (h.2 f hf))

theorem map_map {γ : Type} (g : α → β) (h : β → γ) (v : Json α) :
    (v.map g).map h = v.map fun x => h (g x) := by
  induction v using induct with
  | null => rfl
  | bool b => rfl
  | num x => rfl
  | str s => rfl
  | arr elems ih =>
    rw [map, map, map, mapElems_eq, mapElems_eq, mapElems_eq, List.map_map]
    exact congrArg arr (map_congr_left ih)
  | obj fields ih =>
    rw [map, map, map, mapFields_eq, mapFields_eq, mapFields_eq, List.map_map]
    refine congrArg obj (map_congr_left ?_)
    intro f hf
    exact congrArg (f.1, ·) (ih f hf)

theorem depth_map : (v.map g).depth = v.depth := by
  induction v using induct with
  | null => rfl
  | bool b => rfl
  | num x => rfl
  | str s => rfl
  | arr elems ih =>
    rw [map, depth, depth]
    congr 1
    induction elems with
    | nil => rfl
    | cons v elems iht =>
      obtain ⟨hv,helems⟩ := forall_mem_cons.mp ih
      rw [mapElems, depthElems, depthElems, hv, iht helems]
  | obj fields ih =>
    rw [map, depth, depth]
    congr 1
    induction fields with
    | nil => rfl
    | cons f fields iht =>
      obtain ⟨hf,hfields⟩ := forall_mem_cons.mp ih
      rw [mapFields, depthFields, depthFields, hf, iht hfields]

theorem depthElems_le_iff (elems : List (Json α)) (n : ℕ) :
    depthElems elems ≤ n ↔ ∀ v ∈ elems, v.depth ≤ n := by
  induction elems with
  | nil => exact iff_of_true (Nat.zero_le n) nofun
  | cons v elems ih => rw [depthElems, max_le_iff, ih, forall_mem_cons]

theorem depthFields_le_iff (fields : List (String × Json α)) (n : ℕ) :
    depthFields fields ≤ n ↔ ∀ f ∈ fields, f.2.depth ≤ n := by
  induction fields with
  | nil => exact iff_of_true (Nat.zero_le n) nofun
  | cons f fields ih => rw [depthFields, max_le_iff, ih, forall_mem_cons]

theorem depth_value_le : v.value.depth ≤ v.depth := by
  induction v using induct with
  | null => exact le_refl _
  | bool b => exact le_refl _
  | num x => exact le_refl _
  | str s => exact le_refl _
  | arr elems ih =>
    rw [value, depth, depth, valueElems_eq, Nat.add_le_add_iff_right, depthElems_le_iff,
      forall_mem_map]
    intro v hv
    exact (ih v hv).trans ((depthElems_le_iff elems _).mp le_rfl v hv)
  | obj fields ih =>
    rw [value, depth, depth, valueFields_eq, Nat.add_le_add_iff_right, depthFields_le_iff]
    intro f hf
    obtain ⟨f',hf',rfl⟩ := mem_map.mp (mem_setFields hf)
    exact (ih f' hf').trans ((depthFields_le_iff fields _).mp le_rfl f' hf')

theorem numbers_value_subset : v.value.numbers ⊆ v.numbers := by
  induction v using induct with
  | null => exact List.Subset.refl _
  | bool b => exact List.Subset.refl _
  | num x => exact List.Subset.refl _
  | str s => exact List.Subset.refl _
  | arr elems ih =>
    rw [value, numbers, numbers, numbersElems_eq, numbersElems_eq, valueElems_eq]
    intro x hx
    rw [flatMap_map, mem_flatMap] at hx
    obtain ⟨v,hv,hx⟩ := hx
    exact mem_flatMap.mpr ⟨v,hv,ih v hv hx⟩
  | obj fields ih =>
    rw [value, numbers, numbers, numbersFields_eq, numbersFields_eq, valueFields_eq]
    intro x hx
    obtain ⟨f,hf,hx⟩ := mem_flatMap.mp hx
    obtain ⟨f',hf',rfl⟩ := mem_map.mp (mem_setFields hf)
    exact mem_flatMap.mpr ⟨f',hf',ih f' hf' hx⟩

/-- Other numbers give another document, unless every number stays. -/
theorem map_eq_self_iff (g : α → α) (v : Json α) : v.map g = v ↔ ∀ x ∈ v.numbers, g x = x := by
  induction v using induct with
  | null => exact iff_of_true rfl nofun
  | bool b => exact iff_of_true rfl nofun
  | num x => simp [map, numbers]
  | str s => exact iff_of_true rfl nofun
  | arr elems ih =>
    rw [map, numbers, numbersElems_eq, mapElems_eq, arr.injEq, map_eq_self_iff_forall_mem,
      forall_mem_flatMap]
    exact forall₂_congr ih
  | obj fields ih =>
    rw [map, numbers, numbersFields_eq, mapFields_eq, obj.injEq, map_eq_self_iff_forall_mem,
      forall_mem_flatMap]
    refine forall₂_congr fun f hf => ?_
    rw [← ih f hf, Prod.ext_iff]
    exact and_iff_right rfl

/-! ### Comparing documents -/

mutual
def same [DecidableEq α] : Json α → Json α → Bool
  | null, null => true
  | bool a, bool b => a = b
  | num x, num y => x = y
  | str s, str t => s = t
  | arr vs, arr ws => sameElems vs ws
  | obj fs, obj gs => sameFields fs gs
  | _, _ => false

def sameElems [DecidableEq α] : List (Json α) → List (Json α) → Bool
  | [], [] => true
  | v::vs, w::ws => same v w && sameElems vs ws
  | _, _ => false

def sameFields [DecidableEq α] : List (String × Json α) → List (String × Json α) → Bool
  | [], [] => true
  | (k, v)::fs, (l, w)::gs => k = l && same v w && sameFields fs gs
  | _, _ => false
end

theorem same_iff [DecidableEq α] (v w : Json α) : same v w = true ↔ v = w := by
  induction v using induct generalizing w with
  | null => cases w <;> simp [same]
  | bool b => cases w <;> simp [same]
  | num x => cases w <;> simp [same]
  | str s => cases w <;> simp [same]
  | arr vs ih =>
    cases w with
    | arr ws =>
      rw [same, arr.injEq]
      induction vs generalizing ws with
      | nil => cases ws <;> simp [sameElems]
      | cons v vs ihvs =>
        obtain ⟨hv,hvs⟩ := forall_mem_cons.mp ih
        cases ws with
        | nil => simp [sameElems]
        | cons w ws => rw [sameElems, Bool.and_eq_true, hv, ihvs hvs, cons_eq_cons]
    | _ => simp [same]
  | obj fs ih =>
    cases w with
    | obj gs =>
      rw [same, obj.injEq]
      induction fs generalizing gs with
      | nil => cases gs <;> simp [sameFields]
      | cons f fs ihfs =>
        obtain ⟨hf,hfs⟩ := forall_mem_cons.mp ih
        cases gs with
        | nil => simp [sameFields]
        | cons g gs =>
          rw [sameFields, Bool.and_eq_true, Bool.and_eq_true, hf, ihfs hfs, cons_eq_cons,
            decide_eq_true_eq, Prod.ext_iff]
    | _ => simp [same]

instance [DecidableEq α] : DecidableEq (Json α) := fun v w => decidable_of_iff _ (same_iff v w)

end Traversals

end Json

end OnPremGateway.JsonValue
