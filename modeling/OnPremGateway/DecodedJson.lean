import OnPremGateway.Float64Text

/-!
# Decoded JSON values

A text decoded into maps and machine numbers, and such a value written again.
The second text denotes what the first one does exactly when every number is
the shortest decimal of its machine number.
-/

set_option autoImplicit false

namespace OnPremGateway.DecodedJson
open JsonValue JsonText Float64Text List

/-! ### Members -/

def lookupLast {γ : Type} (k : String) : List (String × γ) → Option γ
  | [] => none
  | (k', v)::fields => (lookupLast k fields).or (if k' = k then some v else none)

section Lookup
variable {γ δ : Type}

theorem lookupLast_map (h : γ → δ) (k : String) (fields : List (String × γ)) :
    lookupLast k (fields.map fun f => (f.1, h f.2)) = (lookupLast k fields).map h := by
  induction fields with
  | nil => rfl
  | cons f fields ih =>
    rw [map_cons, lookupLast, lookupLast, ih, Option.map_or]
    split_ifs <;> rfl

theorem lookupLast_eq_none (k : String) (fields : List (String × γ)) (h : ∀ f ∈ fields, f.1 ≠ k) :
    lookupLast k fields = none := by
  induction fields with
  | nil => rfl
  | cons f fields ih =>
    obtain ⟨hf,hfields⟩ := forall_mem_cons.mp h
    rw [lookupLast, ih hfields, if_neg hf]
    rfl

theorem mem_of_lookupLast {k : String} {fields : List (String × γ)} {v : γ}
    (h : lookupLast k fields = some v) : (k, v) ∈ fields := by
  induction fields with
  | nil => cases h
  | cons f fields ih =>
    rw [lookupLast] at h
    cases hrest : lookupLast k fields with
    | some w =>
      rw [hrest] at h
      cases h
      exact mem_cons_of_mem _ (ih hrest)
    | none =>
      rw [hrest, Option.none_or] at h
      split_ifs at h with hk
      cases h
      rw [← hk]
      exact mem_cons_self

theorem lookupLast_setField (k k' : String) (v : γ) (fields : List (String × γ))
    (h : Json.Ordered fields) : lookupLast k (Json.setField k' v fields) =
      (if k' = k then some v else none).or (lookupLast k fields) := by
  induction fields with
  | nil => exact (Option.or_none).symm
  | cons f fields ih =>
    obtain ⟨hall,hrest⟩ := pairwise_cons.mp h
    rw [Json.setField]
    by_cases hk : k' = k
    · subst hk
      rw [if_pos rfl, Option.some_or]
      split_ifs with hlt heq
      · have hnone : lookupLast k' (f::fields) = none := by
          apply lookupLast_eq_none
          rw [forall_mem_cons]
          exact ⟨hlt.ne',fun g hg => (hlt.trans (hall g hg)).ne'⟩
        rw [lookupLast, hnone, if_pos rfl, Option.none_or]
      · have hnone : lookupLast k' fields = none := by
          apply lookupLast_eq_none
          intro g hg
          rw [heq]
          exact (hall g hg).ne'
        rw [lookupLast, hnone, if_pos rfl, Option.none_or]
      · rw [lookupLast, ih hrest, if_pos rfl, Option.some_or, Option.some_or]
    · rw [if_neg hk, Option.none_or]
      split_ifs with hlt heq
      · rw [lookupLast, if_neg hk, Option.or_none]
      · have hf : f.1 ≠ k := fun hfk => hk (heq.trans hfk)
        rw [lookupLast, lookupLast, if_neg hk, if_neg hf]
      · rw [lookupLast, lookupLast, ih hrest, if_neg hk, Option.none_or]

theorem lookupLast_setFields (k : String) (fields : List (String × γ)) :
    lookupLast k (Json.setFields fields) = lookupLast k fields := by
  have hfold : ∀ acc : List (String × γ), Json.Ordered acc →
      lookupLast k (fields.foldl (fun acc f => Json.setField f.1 f.2 acc) acc) =
        (lookupLast k fields).or (lookupLast k acc) := by
    induction fields with
    | nil => exact fun acc _ => rfl
    | cons f fields ih =>
      intro acc hacc
      rw [foldl_cons, ih _ (hacc.setField f.1 f.2), lookupLast_setField _ _ _ _ hacc, lookupLast,
        Option.or_assoc]
  rw [Json.setFields, hfold [] .nil]
  exact Option.or_none

end Lookup

section Field
variable {α β : Type}

def field (k : String) : Json α → Option (Json α)
  | .obj fields => lookupLast k fields
  | _ => none

theorem field_map (g : α → β) (k : String) (v : Json α) :
    field k (v.map g) = (field k v).map (Json.map g) := by
  cases v with
  | obj fields =>
    rw [Json.map, field, field, Json.mapFields_eq]
    exact lookupLast_map (Json.map g) k fields
  | _ => rfl

theorem field_value (k : String) (v : Json α) : field k v.value = (field k v).map Json.value := by
  cases v with
  | obj fields =>
    rw [Json.value, field, field, Json.valueFields_eq, lookupLast_setFields]
    exact lookupLast_map Json.value k fields
  | _ => rfl

theorem numbers_field_subset {k : String} {t v : Json α} (h : field k t = some v) :
    v.numbers ⊆ t.numbers := by
  cases t with
  | obj fields =>
    rw [Json.numbers, Json.numbersFields_eq]
    exact fun x hx => mem_flatMap.mpr ⟨_,mem_of_lookupLast h,hx⟩
  | _ => cases h

theorem depth_field_lt {k : String} {t v : Json α} (h : field k t = some v) :
    v.depth < t.depth := by
  cases t with
  | obj fields =>
    rw [Json.depth, Nat.lt_succ_iff]
    exact (Json.depthFields_le_iff fields _).mp le_rfl _ (mem_of_lookupLast h)
  | _ => cases h

end Field

/-! ### Decoding and encoding -/

def maxNestingDepth : ℕ := 10000

def machineNumber (x : ℚ) : ℚ := (toFloat64 x).getD 0

/-- A document can be decoded where it stands under a number of levels. -/
def Decodable (levels : ℕ) (t : Json ℚ) : Prop :=
  t.depth + levels ≤ maxNestingDepth ∧ ∀ x ∈ t.numbers, (toFloat64 x).isSome = true

instance (levels : ℕ) (t : Json ℚ) : Decidable (Decodable levels t) :=
  inferInstanceAs (Decidable (_ ∧ _))

def decoded (t : Json ℚ) : Json ℚ := (t.map machineNumber).value

def decode (levels : ℕ) (t : Json ℚ) : Option (Json ℚ) :=
  if Decodable levels t then some (decoded t) else none

def unmarshal (text : String) : Option (Json ℚ) := (parse text).bind (decode 0)

def marshal (v : Json ℚ) : String := String.ofList (print printFloat64 v)

def valid (text : String) : Bool :=
  match parse text with
  | none => false
  | some t => t.depth ≤ maxNestingDepth

/-- The text denotes the value. -/
def Denotes (text : String) (v : Json ℚ) : Prop := (parse text).map Json.value = some v

/-- The number comes back as it was after it has been decoded and encoded. -/
def Carried (x : ℚ) : Prop := (toFloat64 x).map shortestDecimal = some x

instance (x : ℚ) : Decidable (Carried x) := inferInstanceAs (Decidable (_ = _))

theorem parse_marshal (v : Json ℚ) : parse (marshal v) = some (v.map shortestDecimal) :=
  parse_print readable_printFloat64 v

theorem marshal_denotes_iff (t : Json ℚ) (h : ∀ x ∈ t.numbers, (toFloat64 x).isSome = true) :
    Denotes (marshal (decoded t)) t.value ↔ ∀ x ∈ t.value.numbers, Carried x := by
  have hvalue : ((decoded t).map shortestDecimal).value =
      t.value.map fun x => shortestDecimal (machineNumber x) := by
    rw [decoded, Json.value_map, Json.value_of_isValue _ (Json.isValue_value _), Json.value_map, Json.map_map]
  rw [Denotes, parse_marshal, Option.map_some, hvalue, Option.some_inj, Json.map_eq_self_iff]
  refine forall₂_congr fun x hx => ?_
  obtain ⟨f,hf⟩ := Option.isSome_iff_exists.mp (h x (Json.numbers_value_subset t hx))
  rw [Carried, machineNumber, hf]
  exact Option.some_inj.symm

theorem field_decoded (k : String) (t : Json ℚ) : field k (decoded t) = (field k t).map decoded := by
  rw [decoded, field_value, field_map, Option.map_map]
  rfl

theorem decode_arr (levels : ℕ) (elems : List (Json ℚ)) : decode levels (.arr elems) =
      if Decodable levels (.arr elems) then some (.arr (elems.map decoded)) else none := by
  rw [decode, decoded, Json.map, Json.value, Json.mapElems_eq, Json.valueElems_eq, map_map]
  rfl

theorem depth_decoded_le (t : Json ℚ) : (decoded t).depth ≤ t.depth := by
  rw [decoded, Json.value_map, Json.depth_map]
  exact Json.depth_value_le t

end OnPremGateway.DecodedJson
