import Mathlib

/-!
# Keyed tables

A table maps keys to entries. `gather` lists what the entries hold, and every
update of the table moves one entry's share of that list.
-/

set_option autoImplicit false

namespace OnPremGateway.KeyedTable
open List AList

variable {κ α β : Type*} [DecidableEq κ]

def gather (g : α → List β) (t : AList (fun _ : κ => α)) : List β := t.entries.flatMap fun e => g e.2

variable (g : α → List β) (t : AList (fun _ : κ => α)) (k : κ) (a : α)

theorem mem_gather (b : β) : b ∈ gather g t ↔ ∃ k a, t.lookup k = some a ∧ b ∈ g a := by
  rw [gather, mem_flatMap]
  constructor
  · rintro ⟨⟨k,a⟩,he,hb⟩
    exact ⟨k,a,mem_lookup_iff.mpr he,hb⟩
  · rintro ⟨k,a,hl,hb⟩
    exact ⟨⟨k,a⟩,mem_lookup_iff.mp hl,hb⟩

theorem entries_perm_erase (h : t.lookup k = some a) :
    t.entries.Perm (⟨k, a⟩::(t.erase k).entries) := by
  have hmem : (⟨k, a⟩ : Sigma fun _ : κ => α) ∈ t.entries := mem_lookup_iff.mp h
  obtain ⟨b,pre,post,hpre,hl,hk⟩ := exists_of_kerase (mem_keys_of_mem hmem)
  have hb : b = a := by
    have hbm : (⟨k, b⟩ : Sigma fun _ : κ => α) ∈ t.entries := by rw [hl]; simp
    have hlb := mem_lookup_iff.mpr hbm
    rw [h] at hlb
    exact (Option.some.inj hlb).symm
  change t.entries.Perm (⟨k, a⟩::t.entries.kerase k)
  rw [hk, hl, hb]
  exact perm_middle

theorem gather_erase (h : t.lookup k = some a) : (gather g t).Perm (g a ++ gather g (t.erase k)) := by
  rw [gather, gather]
  exact (entries_perm_erase t k a h).flatMap_right fun e => g e.2

theorem gather_insert : gather g (t.insert k a) = g a ++ gather g (t.erase k) := by
  rw [gather, gather, entries_insert]
  rfl

theorem erase_of_lookup_none (h : t.lookup k = none) : t.erase k = t := by
  apply ext
  exact kerase_of_notMem_keys (lookup_eq_none.mp h)

/-- Replacing an entry by one that holds the same moves nothing. -/
theorem gather_replace (a b : α)
    (h : t.lookup k = some a) (hg : g b = g a) : (gather g (t.insert k b)).Perm (gather g t) := by
  rw [gather_insert, hg]
  exact (gather_erase g t k a h).symm

theorem erase_insert : (t.insert k a).erase k = t.erase k := by
  apply ext
  change kerase k (⟨k, a⟩::kerase k t.entries) = kerase k t.entries
  exact kerase_cons_eq (s := (⟨k, a⟩ : Sigma fun _ : κ => α)) rfl

def keep (p : κ → Bool) (t : AList (fun _ : κ => α)) : AList (fun _ : κ => α) where
  entries := t.entries.filter fun e => p e.1
  nodupKeys := (List.filter_sublist.map Sigma.fst).nodup t.nodupKeys

theorem lookup_keep (p : κ → Bool) (t : AList (fun _ : κ => α)) (k : κ) :
    (keep p t).lookup k = if p k then t.lookup k else none := by
  apply Option.ext
  intro a
  rw [← Option.mem_def, mem_lookup_iff]
  change _ ∈ filter _ _ ↔ _
  rw [mem_filter, ← mem_lookup_iff, Option.mem_def]
  by_cases hp : p k = true
  · simp [hp]
  · simp [hp]

end OnPremGateway.KeyedTable
