import Mathlib

/-!
# Sorted slices, slots and map ranges

A slice is sorted through a comparison of its elements, and the elements of
one group may be reordered inside the slots that group already holds. A range
over a map visits the entries in an order nobody chooses. The results here
say when neither the sorting algorithm nor the visiting order can be seen.
-/

set_option autoImplicit false

namespace OnPremGateway.SliceOrder
open List

variable {α κ : Type*}

def sortSlice (less : α → α → Bool) (xs : List α) : List α :=
  xs.insertionSort (fun a b => less b a = false)

/-- The comparison is a strict weak order, the contract of a slice sort. -/
structure WeakOrder (less : α → α → Bool) : Prop where
  asymm : ∀ a b, less a b = true → less b a = false
  trans : ∀ a b c, less b a = false → less c b = false → less c a = false

variable (less : α → α → Bool) (p : α → Bool) (xs ms : List α)

theorem sortSlice_perm : (sortSlice less xs).Perm xs :=
  perm_insertionSort _ xs

theorem mem_sortSlice (x : α) : x ∈ sortSlice less xs ↔ x ∈ xs :=
  (sortSlice_perm less xs).mem_iff

theorem sortSlice_sorted (h : WeakOrder less) (xs : List α) :
    (sortSlice less xs).Pairwise (fun a b => less b a = false) := by
  have : Std.Total (fun a b => less b a = false) := ⟨fun a b => by
    cases hab : less b a with
    | false => exact Or.inl rfl
    | true => exact Or.inr (h.asymm _ _ hab)⟩
  have : IsTrans α (fun a b => less b a = false) := ⟨fun a b c => h.trans a b c⟩
  exact pairwise_insertionSort _ xs

/-- Where the comparison separates the elements, the sorted slice depends
only on which elements there are. -/
theorem sortSlice_eq_of_perm (h : WeakOrder less) (xs ys : List α)
    (hp : xs.Perm ys)
    (hsep : ∀ a ∈ xs, ∀ b ∈ xs, less a b = false → less b a = false → a = b) :
    sortSlice less xs = sortSlice less ys := by
  refine List.Perm.eq_of_pairwise ?_ (sortSlice_sorted less h xs) (sortSlice_sorted less h ys) ?_
  · intro a b ha hb hab hba
    rw [mem_sortSlice] at ha hb
    exact hsep a ha b (hp.mem_iff.mpr hb) hba hab
  · exact ((sortSlice_perm less xs).trans hp).trans (sortSlice_perm less ys).symm

/-- A comparison of keys in a linear order is a weak order. -/
theorem weakOrder_of_key {β : Type*} [LinearOrder β] (less : α → α → Bool) (key : α → β)
    (h : ∀ a b, less a b = true ↔ key a < key b) : WeakOrder less where
  asymm a b hab := by
    rw [← Bool.not_eq_true, h, not_lt]
    exact ((h a b).mp hab).le
  trans a b c hab hbc := by
    rw [← Bool.not_eq_true, h, not_lt] at *
    exact hab.trans hbc

theorem key_eq_of_key {β : Type*} [LinearOrder β] (less : α → α → Bool) (key : α → β)
    (h : ∀ a b, less a b = true ↔ key a < key b) (a b : α)
    (hab : less a b = false) (hba : less b a = false) : key a = key b := by
  rw [← Bool.not_eq_true, h, not_lt] at hab hba
  exact le_antisymm hba hab

def slotsFrom (p : α → Bool) : List α → ℕ → List ℕ
  | [], _ => []
  | x::xs, n => if p x then n :: slotsFrom p xs (n+1) else slotsFrom p xs (n+1)

def readSlots (xs : List α) (idx : List ℕ) : List α := idx.filterMap (fun i => xs[i]?)

def writeSlots (xs : List α) (ws : List (ℕ × α)) : List α :=
  ws.foldl (fun ys w => ys.set w.1 w.2) xs

def refill (p : α → Bool) : List α → List α → List α
  | [], _ => []
  | x::xs, ms =>
    if p x then
      match ms with
      | [] => x :: refill p xs []
      | m::ms => m :: refill p xs ms
    else x :: refill p xs ms

theorem readSlots_slotsFrom (pre xs : List α) :
    readSlots (pre++xs) (slotsFrom p xs pre.length) = xs.filter p := by
  induction xs generalizing pre with
  | nil => rfl
  | cons x xs ih =>
    have hs := ih (pre++[x])
    rw [append_assoc, length_append] at hs
    by_cases hx : p x
    · rw [slotsFrom, if_pos hx, filter_cons_of_pos hx]
      simpa [readSlots] using hs
    · rw [slotsFrom, if_neg hx, filter_cons_of_neg hx]
      simpa using hs

theorem slotsFrom_length (n : ℕ) : (slotsFrom p xs n).length = (xs.filter p).length := by
  induction xs generalizing n with
  | nil => rfl
  | cons x xs ih =>
    by_cases hx : p x
    · simp [slotsFrom, hx, ih]
    · simp [slotsFrom, hx, ih]

theorem writeSlots_slotsFrom (pre xs ms : List α) :
    writeSlots (pre++xs) ((slotsFrom p xs pre.length).zip ms) = pre ++ refill p xs ms := by
  induction xs generalizing pre ms with
  | nil => simp [slotsFrom, writeSlots, refill]
  | cons x xs ih =>
    by_cases hx : p x
    · cases ms with
      | nil =>
        have hs := ih (pre++[x]) []
        simp only [zip_nil_right, append_assoc, singleton_append] at hs
        simpa [refill, hx] using hs
      | cons m ms =>
        have hs := ih (pre++[m]) ms
        rw [length_append, length_singleton] at hs
        rw [slotsFrom, if_pos hx, zip_cons_cons, writeSlots, foldl_cons]
        have hset : (pre++x::xs).set pre.length m = (pre++[m])++xs := by simp
        rw [hset]
        change writeSlots _ _ = _
        rw [hs]
        simp [refill, hx]
    · have hs := ih (pre++[x]) ms
      rw [length_append, length_singleton] at hs
      rw [slotsFrom, if_neg hx]
      simpa [refill, hx] using hs

theorem refill_self : refill p xs (xs.filter p) = xs := by
  induction xs with
  | nil => rfl
  | cons x xs ih =>
    by_cases hx : p x
    · simp [refill, hx, ih]
    · simp [refill, hx, ih]

/-- Refilling is what writing the new members back into their slots does. -/
theorem writeSlots_eq_refill : writeSlots xs ((slotsFrom p xs 0).zip ms) = refill p xs ms := by
  simpa using writeSlots_slotsFrom p [] xs ms

theorem readSlots_eq_filter : readSlots xs (slotsFrom p xs 0) = xs.filter p := by
  simpa using readSlots_slotsFrom p [] xs

theorem refill_filter (hm : ∀ m ∈ ms, p m = true)
    (hl : ms.length = (xs.filter p).length) : (refill p xs ms).filter p = ms := by
  induction xs generalizing ms with
  | nil => simpa [refill, eq_comm] using hl
  | cons x xs ih =>
    by_cases hx : p x
    · cases ms with
      | nil => simp [hx] at hl
      | cons m ms =>
        have hl' : ms.length = (xs.filter p).length := by simpa [hx] using hl
        have hi := ih ms (fun a ha => hm a (by simp [ha])) hl'
        simp [refill, hx, hm m (by simp), hi]
    · have hi := ih ms hm (by simpa [hx] using hl)
      simp [refill, hx, hi]

theorem refill_map (key : α → κ) (p : α → Bool) (k : κ) (xs ms : List α)
    (hp : ∀ x, p x = true → key x = k) (hm : ∀ m ∈ ms, key m = k) :
    (refill p xs ms).map key = xs.map key := by
  induction xs generalizing ms with
  | nil => rfl
  | cons x xs ih =>
    by_cases hx : p x
    · cases ms with
      | nil => simpa [refill, hx] using ih [] (by simp)
      | cons m ms =>
        have hi := ih ms (fun a ha => hm a (by simp [ha]))
        simp [refill, hx, hi, hm m (by simp), hp x hx]
    · simpa [refill, hx] using ih ms hm

theorem refill_filter_other (p q : α → Bool) (xs ms : List α)
    (hpq : ∀ x, p x = true → q x = false) (hm : ∀ m ∈ ms, q m = false) :
    (refill p xs ms).filter q = xs.filter q := by
  induction xs generalizing ms with
  | nil => rfl
  | cons x xs ih =>
    by_cases hx : p x
    · cases ms with
      | nil => simpa [refill, hx, hpq x hx] using ih [] (by simp)
      | cons m ms =>
        have hi := ih ms (fun a ha => hm a (by simp [ha]))
        simp [refill, hx, hpq x hx, hm m (by simp), hi]
    · have hi := ih ms hm
      by_cases hq : q x
      · simp [refill, hx, hq, hi]
      · simp [refill, hx, hq, hi]

section Groups

variable [DecidableEq κ]

def group (key : α → κ) (k : κ) (xs : List α) : List α := xs.filter (fun x => key x = k)

def sortGroups (key : α → κ) (less : α → α → Bool) (ks : List κ) (xs : List α) : List α :=
  ks.foldl (fun ys k => refill (fun x => key x = k) ys (sortSlice less (group key k ys))) xs

variable (key : α → κ) (k : κ) (less : α → α → Bool) (ks : List κ) (xs : List α)

theorem mem_group (x : α) : x ∈ group key k xs ↔ x ∈ xs ∧ key x = k := by
  simp [group]

/-- A list is determined by the sequence of its keys and by its groups. -/
theorem eq_of_keys_of_groups (xs ys : List α)
    (hk : xs.map key = ys.map key) (hg : ∀ k, group key k xs = group key k ys) : xs = ys := by
  induction xs generalizing ys with
  | nil => simpa using hk.symm
  | cons x xs ih =>
    cases ys with
    | nil => simp at hk
    | cons y ys =>
      obtain ⟨hxy,ht⟩ := cons_eq_cons.mp hk
      have hhead := hg (key x)
      simp only [group, filter_cons_of_pos, decide_true, hxy, cons.injEq] at hhead
      obtain ⟨rfl,_⟩ := hhead
      congr 1
      apply ih ys ht
      intro k
      have hkk := hg k
      by_cases hx : key x = k
      · simpa [group, hx] using hkk
      · simpa [group, hx] using hkk

theorem slotsFrom_congr (xs ys : List α) (n : ℕ)
    (h : xs.map key = ys.map key) :
    slotsFrom (fun x => key x = k) xs n = slotsFrom (fun x => key x = k) ys n := by
  induction xs generalizing ys n with
  | nil =>
    have hy : ys = [] := by simpa using h.symm
    rw [hy]
  | cons x xs ih =>
    cases ys with
    | nil => simp at h
    | cons y ys =>
      obtain ⟨hxy,ht⟩ := cons_eq_cons.mp h
      simp only [slotsFrom, hxy, ih ys _ ht]

theorem pairwise_of_groups (R : α → α → Prop) (xs : List α)
    (h : ∀ k, (group key k xs).Pairwise R) : xs.Pairwise (fun a b => key a = key b → R a b) := by
  induction xs with
  | nil => exact List.Pairwise.nil
  | cons x xs ih =>
    rw [pairwise_cons]
    constructor
    · intro b hb hk
      have hx := h (key x)
      simp only [group, filter_cons_of_pos, decide_true, pairwise_cons] at hx
      exact hx.1 b (mem_filter.mpr ⟨hb,by simpa using hk.symm⟩)
    · apply ih
      intro k
      exact (h k).sublist ((sublist_cons_self x xs).filter _)

theorem sortGroups_keys : (sortGroups key less ks xs).map key = xs.map key := by
  induction ks generalizing xs with
  | nil => rfl
  | cons k ks ih =>
    rw [sortGroups, foldl_cons]
    change (sortGroups key less ks _).map key = _
    rw [ih]
    apply refill_map key _ k
    · intro x hx
      simpa using hx
    · intro m hm
      rw [mem_sortSlice, mem_group] at hm
      exact hm.2

theorem refill_group (k l : κ) (xs : List α) :
    group key l (refill (fun x => key x = k) xs (sortSlice less (group key k xs))) =
      if l = k then sortSlice less (group key k xs) else group key l xs := by
  by_cases hl : l = k
  · subst hl
    rw [if_pos rfl]
    apply refill_filter
    · intro m hm
      rw [mem_sortSlice, mem_group] at hm
      simpa using hm.2
    · exact (sortSlice_perm less _).length_eq
  rw [if_neg hl]
  apply refill_filter_other
  · intro x hx
    have hx' : key x = k := by simpa using hx
    simpa [hx'] using fun h => hl h.symm
  · intro m hm
    rw [mem_sortSlice, mem_group] at hm
    simpa [hm.2] using fun h => hl h.symm

theorem sortGroups_group (hn : ks.Nodup)
    (xs : List α) (k : κ) : group key k (sortGroups key less ks xs) =
      if k ∈ ks then sortSlice less (group key k xs) else group key k xs := by
  induction ks generalizing xs with
  | nil => simp [sortGroups]
  | cons l ks ih =>
    obtain ⟨hl,hr⟩ := nodup_cons.mp hn
    rw [sortGroups, foldl_cons]
    change group key k (sortGroups key less ks _) = _
    rw [ih hr, refill_group]
    by_cases hkl : k = l
    · subst hkl
      simp [hl]
    · simp [hkl]

theorem count_group [DecidableEq α] (xs : List α) (a : α) :
    (group key (key a) xs).count a = xs.count a := by
  rw [group, count_filter]
  simp

theorem sortGroups_perm (hn : ks.Nodup)
    (xs : List α) : (sortGroups key less ks xs).Perm xs := by
  classical
  rw [perm_iff_count]
  intro a
  rw [← count_group key, ← count_group key xs, sortGroups_group key less ks hn]
  split
  · exact (sortSlice_perm less _).count_eq a
  · rfl

/-- The order in which the groups are visited cannot be seen. -/
theorem sortGroups_eq_of_perm (ks ls : List κ)
    (hn : ks.Nodup) (hp : ks.Perm ls) (xs : List α) :
    sortGroups key less ks xs = sortGroups key less ls xs := by
  apply eq_of_keys_of_groups key
  · rw [sortGroups_keys, sortGroups_keys]
  · intro k
    rw [sortGroups_group key less ks hn, sortGroups_group key less ls (hp.nodup_iff.mp hn)]
    simp [hp.mem_iff]

end Groups

/-- The order in which a `range` over a map visits its entries, chosen anew
at every place `s` of the program that ranges over one. -/
structure RangeOrder (σ : Type) where
  visit : σ → {β : Type} → List β → List β
  perm : ∀ (s : σ) {β : Type} (es : List β), (visit s es).Perm es

def RangeOrder.listed (σ : Type) : RangeOrder σ := ⟨fun _ _ es => es, fun _ _ es => .refl es⟩

theorem RangeOrder.mem {σ β : Type} (ρ : RangeOrder σ) (s : σ) (es : List β) (e : β) :
    e ∈ ρ.visit s es ↔ e ∈ es :=
  (ρ.perm s es).mem_iff

end OnPremGateway.SliceOrder
