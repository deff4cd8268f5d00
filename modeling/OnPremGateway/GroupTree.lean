import OnPremGateway.UserGroups

/-!
# The tree of groups

What a store reads back after each of its writes, and the tree its groups form:
every admin group stands under a system group, every user group under an admin
group, and rows belong to groups that exist.
-/

set_option autoImplicit false

namespace OnPremGateway.GroupTree
open UserGroups KeyedTable List Bool AList Store

/-! ### Queries -/

theorem mem_listGroups (st : Store) (p : String → UserGroup → Bool) (id : String) (g : UserGroup) :
    ⟨id,g⟩ ∈ st.listGroups p ↔ st.groups.lookup id = some g ∧ p id g := by
  rw [listGroups, mem_insertionSort, mem_filter, ← Option.mem_def, mem_lookup_iff]

theorem mem_childUserGroups (st : Store) (parentID id : String) (g : UserGroup) :
    ⟨id,g⟩ ∈ st.childUserGroups parentID ↔
      st.groups.lookup id = some g ∧ g.parentGroupID = parentID := by
  rw [childUserGroups, mem_listGroups, decide_eq_true_eq]

theorem mem_userGroupsForUser (st : Store) (userID : String) (tier : Tier) (state : GroupState)
    (id : String) (g : UserGroup) : ⟨id,g⟩ ∈ st.userGroupsForUser userID tier state ↔
      st.groups.lookup id = some g ∧ g.tier = tier ∧ st.stateIn id userID = some state := by
  rw [userGroupsForUser, mem_listGroups, decide_eq_true_eq]

theorem mem_rowsOf {α : Type} (t : AList (fun _ : String × String => α)) (createdAt : α → ℤ)
    (groupID userID : String) (a : α) :
    (userID,a) ∈ rowsOf t createdAt groupID ↔ t.lookup (groupID,userID) = some a := by
  rw [rowsOf, mem_insertionSort, mem_map, ← Option.mem_def, mem_lookup_iff]
  constructor
  · rintro ⟨⟨⟨i,u⟩,b⟩,he,heq⟩
    obtain ⟨hmem,hid⟩ := mem_filter.mp he
    obtain ⟨rfl,rfl⟩ := Prod.mk.inj heq
    obtain rfl : i = groupID := of_decide_eq_true hid
    exact hmem
  · intro h
    exact ⟨⟨(groupID,userID),a⟩,mem_filter.mpr ⟨h,decide_eq_true rfl⟩,rfl⟩

theorem mem_fullMembers (st : Store) (id userID : String) :
    userID ∈ st.fullMembers id ↔ st.memberIDSet id userID := by
  rw [fullMembers, mem_map, memberIDSet, decide_eq_true_eq, stateIn,
    Option.map_eq_some_iff]
  constructor
  · rintro ⟨⟨u,m⟩,hm,rfl⟩
    obtain ⟨hm,hstate⟩ := mem_filter.mp hm
    exact ⟨m,(mem_rowsOf _ _ _ _ _).mp hm,of_decide_eq_true hstate⟩
  · rintro ⟨m,hm,hstate⟩
    exact ⟨(userID,m),mem_filter.mpr ⟨(mem_rowsOf _ _ _ _ _).mpr hm,decide_eq_true hstate⟩,rfl⟩

theorem mem_userGroupManagers (st : Store) (id userID : String) :
    userID ∈ st.userGroupManagers id ↔ (st.managers.lookup (id,userID)).isSome := by
  rw [userGroupManagers, mem_map, Option.isSome_iff_exists]
  constructor
  · rintro ⟨⟨u,m⟩,hm,rfl⟩
    exact ⟨m,(mem_rowsOf _ _ _ _ _).mp hm⟩
  · rintro ⟨m,hm⟩
    exact ⟨(userID,m),(mem_rowsOf _ _ _ _ _).mpr hm,rfl⟩

/-! ### Writes -/

variable {st : Store} {id top : String}

theorem stateIn_congr {st' : Store} {userID : String}
    (h : st'.members.lookup (id,userID) = st.members.lookup (id,userID)) :
    st'.stateIn id userID = st.stateIn id userID := by
  rw [stateIn, h, stateIn]

theorem memberIDSet_congr {st' : Store} {userID : String}
    (h : st'.members.lookup (id,userID) = st.members.lookup (id,userID)) :
    st'.memberIDSet id userID = st.memberIDSet id userID := by
  rw [memberIDSet, stateIn_congr h, memberIDSet]

theorem stateIn_setUserGroupMember (st : Store) (id userID : String) (state : GroupState)
    (by_ : String) (now : ℤ) (i u : String) :
    (st.setUserGroupMember id userID state by_ now).stateIn i u =
      if i = id ∧ u = userID then some state else st.stateIn i u := by
  simp only [stateIn, setUserGroupMember]
  split
  · next h => rw [h.1, h.2, lookup_insert, Option.map_some]
  · next h => rw [lookup_insert_ne fun heq => h (Prod.mk.inj heq)]

theorem stateIn_removeUserGroupMember (st : Store) (id userID i u : String) :
    (st.removeUserGroupMember id userID).stateIn i u =
      if i = id ∧ u = userID then none else st.stateIn i u := by
  simp only [stateIn, removeUserGroupMember]
  split
  · next h => rw [h.1, h.2, lookup_erase, Option.map_none]
  · next h => rw [lookup_erase_ne fun heq => h (Prod.mk.inj heq)]

theorem managers_removeUserGroupManager (st : Store) (id userID i u : String) :
    (st.removeUserGroupManager id userID).managers.lookup (i,u) =
      if i = id ∧ u = userID then none else st.managers.lookup (i,u) := by
  simp only [removeUserGroupManager]
  split
  · next h => rw [h.1, h.2, lookup_erase]
  · next h => rw [lookup_erase_ne fun heq => h (Prod.mk.inj heq)]

theorem lookup_updateUserGroup (st : Store) (id name owner i : String) :
    (st.updateUserGroup id name owner).groups.lookup i =
      if i = id then (st.groups.lookup id).map fun g => { g with name, ownerUserID := owner }
      else st.groups.lookup i := by
  rw [updateUserGroup]
  cases hg : st.groups.lookup id with
  | none =>
    dsimp only
    split
    · next h => rw [h, hg, Option.map_none]
    · rfl
  | some g =>
    dsimp only
    split
    · next h => rw [h, lookup_insert, Option.map_some]
    · next h => rw [lookup_insert_ne h]

@[simp] theorem updateUserGroup_members (st : Store) (id name owner : String) :
    (st.updateUserGroup id name owner).members = st.members := by
  rw [updateUserGroup]
  split <;> rfl

@[simp] theorem updateUserGroup_managers (st : Store) (id name owner : String) :
    (st.updateUserGroup id name owner).managers = st.managers := by
  rw [updateUserGroup]
  split <;> rfl

/-! ### The tree -/

def above : Tier → Option Tier
  | .system => none
  | .admin => some .system
  | .user => some .admin

structure Forest (st : Store) : Prop where
  named : st.groups.lookup "" = none
  root : ∀ id g, st.groups.lookup id = some g → g.tier = .system → g.parentGroupID = ""
  parent : ∀ id g tier, st.groups.lookup id = some g → above g.tier = some tier →
    ∃ q, st.groups.lookup g.parentGroupID = some q ∧ q.tier = tier
  member : ∀ id userID, (st.members.lookup (id,userID)).isSome → (st.groups.lookup id).isSome
  manager : ∀ id userID, (st.managers.lookup (id,userID)).isSome → (st.groups.lookup id).isSome

def IsParent (st : Store) (parentID id : String) : Prop :=
  ∃ g, st.groups.lookup id = some g ∧ g.parentGroupID = parentID

/-- The second group is the first or stands below it. -/
def Under (st : Store) : String → String → Prop := Relation.ReflTransGen (IsParent st)

def tiersAbove : Tier → ℕ
  | .system => 0
  | .admin => 1
  | .user => 2

theorem under_of_climbs (n : ℕ) (id : String) (h : st.climbs top n id = true) :
    Under st top id := by
  induction n generalizing id with
  | zero =>
    rw [climbs, decide_eq_true_eq] at h
    rw [h]
    exact Relation.ReflTransGen.refl
  | succ n ih =>
    rw [climbs, or_eq_true, decide_eq_true_eq] at h
    rcases h with rfl | h
    · exact Relation.ReflTransGen.refl
    cases hg : st.groups.lookup id with
    | none =>
      rw [hg] at h
      exact absurd h false_ne_true
    | some g =>
      rw [hg] at h
      exact (ih _ h).tail ⟨g,hg,rfl⟩

/-- Nothing stands above what is not a group. -/
theorem eq_of_under_missing (hid : st.groups.lookup id = none) (h : Under st top id) :
    top = id := by
  rcases h.cases_tail with rfl | ⟨b,-,g,hg,-⟩
  · rfl
  · rw [hid] at hg
    exact absurd hg nofun

theorem climbs_of_under (htree : Forest st) (htop : top ≠ "") (n : ℕ) (id : String) (g : UserGroup)
    (hg : st.groups.lookup id = some g) (hn : tiersAbove g.tier ≤ n) (h : Under st top id) :
    st.climbs top n id = true := by
  induction n generalizing id g with
  | zero =>
    rcases h.cases_tail with rfl | ⟨b,hb,g',hg',hparent⟩
    · simp [climbs]
    obtain rfl := Option.some.inj (hg.symm.trans hg')
    have htier : g.tier = .system := by
      cases ht : g.tier with
      | system => rfl
      | admin => rw [ht] at hn; exact absurd hn (by decide)
      | user => rw [ht] at hn; exact absurd hn (by decide)
    rw [htree.root id g hg htier] at hparent
    subst hparent
    exact absurd (eq_of_under_missing htree.named hb) htop
  | succ n ih =>
    rw [climbs, or_eq_true, decide_eq_true_eq, hg]
    rcases h.cases_tail with rfl | ⟨b,hb,g',hg',hparent⟩
    · exact Or.inl rfl
    obtain rfl := Option.some.inj (hg.symm.trans hg')
    subst hparent
    right
    cases hup : above g.tier with
    | none =>
      have htier : g.tier = .system := by
        cases ht : g.tier with
        | system => rfl
        | admin => rw [ht] at hup; exact absurd hup nofun
        | user => rw [ht] at hup; exact absurd hup nofun
      rw [htree.root id g hg htier] at hb
      exact absurd (eq_of_under_missing htree.named hb) htop
    | some tier =>
      obtain ⟨q,hq,hqtier⟩ := htree.parent id g tier hg hup
      refine ih _ q hq ?_ hb
      cases ht : g.tier with
      | system => rw [ht] at hup; exact absurd hup nofun
      | admin =>
        rw [ht, above, Option.some.injEq] at hup
        rw [hqtier, ← hup]
        exact Nat.zero_le _
      | user =>
        rw [ht, above, Option.some.injEq] at hup
        rw [ht] at hn
        rw [hqtier, ← hup]
        exact Nat.le_of_succ_le_succ hn

theorem climbs_iff (htree : Forest st) (htop : top ≠ "") (hid : (st.groups.lookup id).isSome) :
    st.climbs top st.depth id = true ↔ Under st top id := by
  obtain ⟨g,hg⟩ := Option.isSome_iff_exists.mp hid
  constructor
  · exact under_of_climbs _ _
  · apply climbs_of_under htree htop _ _ g hg
    have hdepth : 2 ≤ st.depth := Nat.le_add_left 2 _
    have htiers : tiersAbove g.tier ≤ 2 := by cases g.tier <;> decide
    exact htiers.trans hdepth

theorem ne_empty_of_lookup (htree : Forest st) {g : UserGroup} (hg : st.groups.lookup id = some g) :
    id ≠ "" := by
  rintro rfl
  rw [htree.named] at hg
  exact absurd hg nofun

section delete

variable {st : Store} (htree : Forest st) {top : String} {gtop : UserGroup}
  (htop : st.groups.lookup top = some gtop)

include htree htop

theorem deleteUserGroup_groups (id : String) (g : UserGroup) :
    (st.deleteUserGroup top).groups.lookup id = some g ↔
      st.groups.lookup id = some g ∧ ¬Under st top id := by
  rw [deleteUserGroup, lookup_keep]
  constructor
  · intro h
    split at h
    · next hkept =>
      refine ⟨h,fun hunder => ?_⟩
      rw [(climbs_iff htree (ne_empty_of_lookup htree htop) (h ▸ rfl)).mpr hunder] at hkept
      exact absurd hkept false_ne_true
    · exact absurd h nofun
  · rintro ⟨h,hunder⟩
    rw [← climbs_iff htree (ne_empty_of_lookup htree htop) (h ▸ rfl), not_eq_true] at hunder
    rw [hunder]
    exact h

theorem lookup_keep_rows {α : Type} (t : AList (fun _ : String × String => α))
    (hrows : ∀ id userID, (t.lookup (id,userID)).isSome → (st.groups.lookup id).isSome)
    (id userID : String) (a : α) :
    (keep (fun k => !st.climbs top st.depth k.1) t).lookup (id,userID) = some a ↔
      t.lookup (id,userID) = some a ∧ ¬Under st top id := by
  rw [lookup_keep]
  constructor
  · intro h
    split at h
    · next hkept =>
      refine ⟨h,fun hunder => ?_⟩
      rw [(climbs_iff htree (ne_empty_of_lookup htree htop) (hrows id userID (h ▸ rfl))).mpr hunder]
        at hkept
      exact absurd hkept false_ne_true
    · exact absurd h nofun
  · rintro ⟨h,hunder⟩
    rw [← climbs_iff htree (ne_empty_of_lookup htree htop) (hrows id userID (h ▸ rfl)),
      not_eq_true] at hunder
    dsimp only
    rw [hunder]
    exact h

theorem deleteUserGroup_members (id userID : String) (m : Membership) :
    (st.deleteUserGroup top).members.lookup (id,userID) = some m ↔
      st.members.lookup (id,userID) = some m ∧ ¬Under st top id :=
  lookup_keep_rows htree htop st.members htree.member id userID m

theorem deleteUserGroup_managers (id userID : String) (m : ManagerRow) :
    (st.deleteUserGroup top).managers.lookup (id,userID) = some m ↔
      st.managers.lookup (id,userID) = some m ∧ ¬Under st top id :=
  lookup_keep_rows htree htop st.managers htree.manager id userID m

end delete

end OnPremGateway.GroupTree
