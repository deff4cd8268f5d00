import OnPremGateway.GroupChanges

/-!
# Containment

Whoever has a row in an admin or user group is a full member of the group above,
and whoever manages a group is a full member of it. The invariant holds along
every run in which system administrators found their own admin groups only under
system groups they belong to.
-/

set_option autoImplicit false

namespace OnPremGateway.GroupContainment
open UserGroups GroupTree GroupDepartures Option Bool AList
open GroupChanges

variable {users : Users} {st : Store}

structure Contained (st : Store) : Prop where
  member : ∀ id g userID, st.groups.lookup id = some g → g.tier ≠ .system →
    (st.stateIn id userID).isSome → st.memberIDSet g.parentGroupID userID
  manager : ∀ id g userID, st.groups.lookup id = some g → g.tier ≠ .system →
    (st.managers.lookup (id,userID)).isSome → st.memberIDSet id userID

variable {id invitedBy userID : String} {state : GroupState} {now : ℤ} {st' : Store}

theorem stateIn_eq_member : st.memberIDSet id userID ↔ st.stateIn id userID = some .member := by
  rw [Store.memberIDSet, decide_eq_true_eq]

/-- Whoever manages a group is a full member of it. -/
def ManagersInside (st : Store) : Prop :=
  ∀ id g userID, st.groups.lookup id = some g → g.tier ≠ .system →
    (st.managers.lookup (id,userID)).isSome → st.memberIDSet id userID

theorem updateUserGroup_managersInside (h : ManagersInside st) (id name owner : String) :
    ManagersInside (st.updateUserGroup id name owner) := by
  intro i g' u hg' htier hrow
  obtain ⟨g,hg,ht,-,-⟩ := updateUserGroup_group hg'
  rw [updateUserGroup_managers] at hrow
  rw [updateUserGroup_memberIDSet]
  exact h i g u hg (ht ▸ htier) hrow

theorem updateUserGroup_contained (h : Contained st) (id name owner : String) :
    Contained (st.updateUserGroup id name owner) where
  member := by
    intro i g' u hg' htier hrow
    obtain ⟨g,hg,ht,hp,-⟩ := updateUserGroup_group hg'
    rw [Store.stateIn, updateUserGroup_members] at hrow
    rw [updateUserGroup_memberIDSet, hp]
    exact h.member i g u hg (ht ▸ htier) hrow
  manager := updateUserGroup_managersInside h.manager id name owner

theorem above_of_ne_system {tier : Tier} (h : tier ≠ .system) : ∃ t, above tier = some t := by
  cases tier with
  | system => exact absurd rfl h
  | admin => exact ⟨_,rfl⟩
  | user => exact ⟨_,rfl⟩

theorem deleteUserGroup_managersInside (htree : Forest st) (h : ManagersInside st) {top : String}
    {gtop : UserGroup} (htop : st.groups.lookup top = some gtop) :
    ManagersInside (st.deleteUserGroup top) := by
  intro i g u hg' htier hrow
  obtain ⟨hg,hnot⟩ := (deleteUserGroup_groups htree htop i g).mp hg'
  rw [(deleteUserGroup_rows htree htop (hg' ▸ rfl) u).2] at hrow
  rw [memberIDSet_congr (deleteUserGroup_rows htree htop (hg' ▸ rfl) u).1]
  exact h i g u hg htier hrow

theorem deleteUserGroup_contained (htree : Forest st) (h : Contained st) {top : String}
    {gtop : UserGroup} (htop : st.groups.lookup top = some gtop) : Contained (st.deleteUserGroup top) where
  member := by
    intro i g u hg' htier hrow
    obtain ⟨hg,hnot⟩ := (deleteUserGroup_groups htree htop i g).mp hg'
    obtain ⟨t,ht⟩ := above_of_ne_system htier
    obtain ⟨q,hq,-⟩ := (deleteUserGroup_tree htree htop).parent i g t hg' ht
    rw [stateIn_congr (deleteUserGroup_rows htree htop (hg' ▸ rfl) u).1] at hrow
    rw [memberIDSet_congr (deleteUserGroup_rows htree htop (hq ▸ rfl) u).1]
    exact h.member i g u hg htier hrow
  manager := deleteUserGroup_managersInside htree h.manager htop

theorem insertGroup_managersInside (htree : Forest st) (h : ManagersInside st) (g : UserGroup)
    (hnew : st.groups.lookup id = none) :
    ManagersInside { st with groups := st.groups.insert id g } := by
  intro i gi u hgi htier hrow
  by_cases hi : i = id
  · subst hi
    rw [(gone_of_missing htree hnew).2] at hrow
    exact absurd hrow false_ne_true
  · rw [lookup_insert_ne hi] at hgi
    exact h i gi u hgi htier hrow

theorem insertGroup_contained (htree : Forest st) (h : Contained st) (g : UserGroup)
    (hnew : st.groups.lookup id = none) :
    Contained { st with groups := st.groups.insert id g } where
  member := by
    intro i gi u hgi htier hrow
    by_cases hi : i = id
    · subst hi
      change (Option.map _ (st.members.lookup (i,u))).isSome at hrow
      rw [(gone_of_missing htree hnew).1] at hrow
      exact absurd hrow false_ne_true
    · rw [lookup_insert_ne hi] at hgi
      exact h.member i gi u hgi htier hrow
  manager := insertGroup_managersInside htree h.manager g hnew

/-- No full membership is lost where none is taken back. -/
theorem setUserGroupMember_keeps (hstate : state = .invited → st.memberIDSet id userID = false)
    {i u : String} (hm : st.memberIDSet i u) :
    (st.setUserGroupMember id userID state invitedBy now).memberIDSet i u := by
  rw [stateIn_eq_member, stateIn_setUserGroupMember]
  split
  · next heq =>
    cases state with
    | member => rfl
    | invited =>
      rw [heq.1, heq.2, hstate rfl] at hm
      exact absurd hm false_ne_true
  · exact stateIn_eq_member.mp hm

theorem setUserGroupMember_managersInside (h : ManagersInside st)
    (hstate : state = .invited → st.memberIDSet id userID = false) :
    ManagersInside (st.setUserGroupMember id userID state invitedBy now) := by
  intro i gi u hgi htier hrow
  exact setUserGroupMember_keeps hstate (h i gi u hgi htier hrow)

/-- A row may be written when the user is a full member above and no full
membership is taken back. -/
theorem setUserGroupMember_contained (h : Contained st) {g : UserGroup}
    (hg : st.groups.lookup id = some g)
    (hin : g.tier ≠ .system → st.memberIDSet g.parentGroupID userID)
    (hstate : state = .invited → st.memberIDSet id userID = false) :
    Contained (st.setUserGroupMember id userID state invitedBy now) where
  member := by
    intro i gi u hgi htier hrow
    rw [stateIn_setUserGroupMember] at hrow
    split at hrow
    · next heq =>
      obtain ⟨rfl,rfl⟩ := heq
      obtain rfl := some.inj (hg.symm.trans hgi)
      exact setUserGroupMember_keeps hstate (hin htier)
    · exact setUserGroupMember_keeps hstate (h.member i gi u hgi htier hrow)
  manager := setUserGroupMember_managersInside h.manager hstate

theorem removeUserGroupMember_managersInside (h : ManagersInside st)
    (hmanager : ∀ g, st.groups.lookup id = some g → g.tier ≠ .system →
      st.managers.lookup (id,userID) = none) :
    ManagersInside (st.removeUserGroupMember id userID) := by
  intro i g u hg htier hrow
  rw [stateIn_eq_member, stateIn_removeUserGroupMember]
  split
  · next heq =>
    obtain ⟨rfl,rfl⟩ := heq
    change (st.managers.lookup (i,u)).isSome at hrow
    rw [hmanager g hg htier] at hrow
    exact absurd hrow false_ne_true
  · exact stateIn_eq_member.mp (h i g u hg htier hrow)

/-- A row may go when no row of the user hangs on it. -/
theorem removeUserGroupMember_contained (h : Contained st)
    (hbelow : ∀ c g, st.groups.lookup c = some g → g.tier ≠ .system → g.parentGroupID = id →
      st.stateIn c userID = none) (hmanager : ∀ g, st.groups.lookup id = some g → g.tier ≠ .system →
      st.managers.lookup (id,userID) = none) : Contained (st.removeUserGroupMember id userID) where
  member := by
    intro i g u hg htier hrow
    rw [stateIn_removeUserGroupMember] at hrow
    rw [stateIn_eq_member, stateIn_removeUserGroupMember]
    split at hrow
    · exact absurd hrow false_ne_true
    split
    · next heq =>
      obtain ⟨hparent,rfl⟩ := heq
      rw [hbelow i g hg htier hparent] at hrow
      exact absurd hrow false_ne_true
    · exact stateIn_eq_member.mp (h.member i g u hg htier hrow)
  manager := removeUserGroupMember_managersInside h.manager hmanager

theorem removeUserGroupManager_managersInside (h : ManagersInside st) (id userID : String) :
    ManagersInside (st.removeUserGroupManager id userID) := by
  intro i g u hg htier hrow
  apply h i g u hg htier
  exact lookup_isSome.mpr (mem_erase.mp (lookup_isSome.mp hrow)).2

theorem removeUserGroupManager_contained (h : Contained st) (id userID : String) :
    Contained (st.removeUserGroupManager id userID) where
  member := h.member
  manager := removeUserGroupManager_managersInside h.manager id userID

/-- An invitation carries nothing: no row of the user hangs on it. -/
theorem not_member_of_invited (h : st.stateIn id userID = some .invited) :
    ¬st.memberIDSet id userID := by
  intro hm
  rw [stateIn_eq_member.mp hm] at h
  cases h

theorem insertManager_managersInside (h : ManagersInside st) {g : UserGroup}
    (hg : st.groups.lookup id = some g) (htier : g.tier ≠ .system)
    (hmember : st.memberIDSet id userID ∨ (st.managers.lookup (id,userID)).isSome)
    (row : ManagerRow) :
    ManagersInside { st with managers := st.managers.insert (id,userID) row } := by
  intro i gi u hgi hti hrow
  by_cases hkey : (i,u) = (id,userID)
  · cases hkey
    rcases hmember with hm | hm
    · exact hm
    · exact h id g userID hg htier hm
  · change ((st.managers.insert (id,userID) row).lookup (i,u)).isSome at hrow
    rw [lookup_insert_ne hkey] at hrow
    exact h i gi u hgi hti hrow

theorem manager_of_invited (h : ManagersInside st) (hinvited : st.stateIn id userID = some .invited)
    (g : UserGroup) (hg : st.groups.lookup id = some g) (htier : g.tier ≠ .system) :
    st.managers.lookup (id,userID) = none := by
  by_contra hrow
  exact not_member_of_invited hinvited (h id g userID hg htier (isSome_iff_ne_none.mpr hrow))

theorem change_managersInside {p : Principal} {c : Call} {st : Store} (htree : Forest st)
    (h : ManagersInside st) (hchange : Change users p c st st') : ManagersInside st' := by
  cases hchange with
  | root id name hasked hid hnew => exact insertGroup_managersInside htree h _ hnew
  | found id g q now hasked hid hnew hq htier hmember howner =>
    exact setUserGroupMember_managersInside (insertGroup_managersInside htree h g hnew) nofun
  | rename id name g hg => exact updateUserGroup_managersInside h id name g.ownerUserID
  | delete id g hg hauth => exact deleteUserGroup_managersInside htree h hg
  | enrol id g userID state invitedBy now hg hin hstate => exact setUserGroupMember_managersInside h hstate
  | accept id now hinvited => exact setUserGroupMember_managersInside h nofun
  | decline id hinvited => exact removeUserGroupMember_managersInside h (manager_of_invited h hinvited)
  | manage id g userID row hg htier howner hmember =>
    exact insertManager_managersInside h hg htier hmember row
  | demote id g userID hg htier howner => exact removeUserGroupManager_managersInside h id userID
  | transfer id g newOwnerID hg htier howner hasked hmanager =>
    exact updateUserGroup_managersInside h id g.name newOwnerID

theorem dropped_manager (st : Store) (id userID : String) (g : UserGroup)
    (_ : (st.removeUserGroupManager id userID).groups.lookup id = some g) (_ : g.tier ≠ .system) :
    (st.removeUserGroupManager id userID).managers.lookup (id,userID) = none := by
  rw [managers_removeUserGroupManager, if_pos ⟨rfl,rfl⟩]

theorem departure_managersInside {within : String → Prop} {st : Store} (htree : Forest st)
    (h : ManagersInside st) (hdeparture : Departure users userID within st st') :
    ManagersInside st' := by
  cases hdeparture with
  | drop id hin hbelow =>
    exact removeUserGroupMember_managersInside (removeUserGroupManager_managersInside h id userID)
      (dropped_manager st id userID)
  | succeed id g successor hin hg htier howner hsuccessor =>
    exact updateUserGroup_managersInside h id g.name successor
  | orphan id g hin hg htier howner => exact updateUserGroup_managersInside h id g.name ""
  | close id g hin hg htier hreason => exact deleteUserGroup_managersInside htree h hg

theorem change_contained {p : Principal} {c : Call} {st : Store} (htree : Forest st)
    (h : Contained st)
    (hself : ∀ id q, st.groups.lookup id = some q → q.tier = .system → SelfUnder p c id →
      st.memberIDSet id p.userID) (hchange : Change users p c st st') : Contained st' := by
  cases hchange with
  | root id name hasked hid hnew =>
    exact insertGroup_contained htree h _ hnew
  | found id g q now hasked hid hnew hq htier hmember howner =>
    apply setUserGroupMember_contained (insertGroup_contained htree h g hnew) (lookup_insert _)
    · intro hne
      change st.memberIDSet g.parentGroupID g.ownerUserID
      rcases hmember with hm | ⟨hadmin,hp,hunder⟩
      · exact hm
      · rw [hadmin] at htier
        rw [hp]
        exact hself _ q hq (some.inj htier).symm hunder
    · exact nofun
  | rename id name g hg => exact updateUserGroup_contained h id name g.ownerUserID
  | delete id g hg hauth => exact deleteUserGroup_contained htree h hg
  | enrol id g userID state invitedBy now hg hin hstate =>
    exact setUserGroupMember_contained h hg (fun ht => hin.resolve_left ht) hstate
  | accept id now hinvited =>
    obtain ⟨g,hg⟩ := isSome_iff_exists.mp (isSome_of_stateIn htree hinvited)
    refine setUserGroupMember_contained h hg (fun ht => ?_) nofun
    exact h.member id g p.userID hg ht (hinvited ▸ rfl)
  | decline id hinvited =>
    apply removeUserGroupMember_contained h
    · intro i g hg htier hparent
      by_contra hrow
      apply not_member_of_invited hinvited
      rw [← hparent]
      exact h.member i g p.userID hg htier (isSome_iff_ne_none.mpr hrow)
    · exact manager_of_invited h.manager hinvited
  | manage id g userID row hg htier howner hmember =>
    exact { h with manager := insertManager_managersInside h.manager hg htier hmember row }
  | demote id g userID hg htier howner => exact removeUserGroupManager_contained h id userID
  | transfer id g newOwnerID hg htier howner hasked hmanager =>
    exact updateUserGroup_contained h id g.name newOwnerID

theorem departure_contained {within : String → Prop} {st : Store} (htree : Forest st)
    (h : Contained st) (hdeparture : Departure users userID within st st') : Contained st' := by
  cases hdeparture with
  | drop id hin hbelow =>
    change Contained ((st.removeUserGroupManager id userID).removeUserGroupMember id userID)
    apply removeUserGroupMember_contained (removeUserGroupManager_contained h id userID)
    · intro i g hg htier hparent
      change Option.map _ (st.members.lookup (i,userID)) = none
      rw [(hbelow i ⟨g,hg,hparent⟩).1, map_none]
    · exact dropped_manager st id userID
  | succeed id g successor hin hg htier howner hsuccessor =>
    exact updateUserGroup_contained h id g.name successor
  | orphan id g hin hg htier howner => exact updateUserGroup_contained h id g.name ""
  | close id g hin hg htier hreason => exact deleteUserGroup_contained htree h hg

/-! ### Runs -/

/-- No system administrator founds an admin group of its own under a system group
it does not belong to. -/
def OwnGroupsInside (w : World) : Op → Prop
  | .call p _ c => ∀ id q, w.store.groups.lookup id = some q → q.tier = .system → SelfUnder p c id →
      w.store.memberIDSet id p.userID
  | .setUser _ _ => True

theorem empty_forest : Forest {} where
  named := rfl
  root := nofun
  parent := nofun
  member := nofun
  manager := nofun

theorem empty_contained : Contained {} := ⟨nofun,nofun⟩

theorem run_forest_contained (equalFold : String → String → Bool) (users : Users) (ops : List Op)
    (hops : Along equalFold OwnGroupsInside ⟨users,{}⟩ ops) :
    Forest (run equalFold ⟨users,{}⟩ ops).store ∧ Contained (run equalFold ⟨users,{}⟩ ops).store := by
  refine run_invariant equalFold ?_ ?_ ops _ hops empty_forest empty_contained
  · intro w p now c hop st st' hfirst htree h hchange
    apply change_contained htree h ?_ hchange
    intro id q hq htier hunder
    rcases hfirst with rfl | hnot
    · exact hop id q hq htier hunder
    · obtain ⟨hex,input,rfl,-⟩ := hunder.asked
      exact absurd hnot nofun
  · intro users userID within st st' htree h hdeparture
    exact departure_contained htree h hdeparture

/-- From an empty store, whatever calls and changes of accounts follow, members
and invited users of admin and user groups are full members of the group above,
and managers are full members of the group. -/
theorem rows_contained (equalFold : String → String → Bool) (users : Users) (ops : List Op)
    (hops : Along equalFold OwnGroupsInside ⟨users,{}⟩ ops) :
    Contained (run equalFold ⟨users,{}⟩ ops).store :=
  (run_forest_contained equalFold users ops hops).2

section Office

def sysadmin : Principal := ⟨"root",true,true⟩
def ann : Principal := ⟨"ann",true,false⟩
def bob : Principal := ⟨"bob",false,false⟩

def staff : Users := fun id =>
  if id = "root" then some ⟨.systemAdmin,.active⟩
  else if id = "ann" then some ⟨.admin,.active⟩
  else if id = "bob" then some ⟨.user,.active⟩
  else none

def office : List Op :=
  [.call sysadmin 0 (.createGroup "s" ⟨some .system,"s","",""⟩),
    .call sysadmin 1 (.addGroupMembers "ugrp_s" ["ann","bob"]),
    .call ann 2 (.createGroup "a" ⟨some .admin,"a","",""⟩),
    .call ann 3 (.addGroupMembers "ugrp_a" ["bob"]),
    .call bob 4 (.createGroup "u" ⟨some .user,"u","",""⟩),
    .call bob 5 (.addGroupMembers "ugrp_u" ["ann"]), .call ann 6 (.respondInvitation "ugrp_u" true),
    .call bob 7 (.promoteManager "ugrp_u" "ann" allPermissions)]

end Office

/-- The user group's two members, one of them its manager. -/
theorem rows_contained_office : Contained (run (· == ·) ⟨staff,{}⟩ office).store ∧
      (run (· == ·) ⟨staff,{}⟩ office).store.memberIDSet "ugrp_u" "ann" := by
  constructor
  · apply rows_contained
    refine ⟨?_,?_,?_,?_,?_,?_,?_,?_,trivial⟩
    all_goals
      rintro id q - - ⟨⟨hex,input,hc,htier,-⟩,hsys⟩
      first
        | exact absurd hsys (by decide)
        | (cases hc; exact absurd htier (by decide))
        | cases hc
  · decide +kernel

/-- Whatever the calls, every group stands under one of the tier above, a system
group under none, and every row belongs to a group that exists. -/
theorem groups_stay_a_forest (equalFold : String → String → Bool) (users : Users) (ops : List Op) :
    Forest (run equalFold ⟨users,{}⟩ ops).store :=
  run_forest equalFold ops _ empty_forest

/-! ### Removal -/

theorem removeGroupMember_left {p : Principal} (htree : Forest st)
    (h : removeGroupMember users st p id userID = .ok st') :
    id ≠ "" ∧ Departures users userID (fun _ => True) st st' ∧ Gone st' userID id := by
  suffices hcascade : st' = removeMemberCascade users userID st.depth id st ∧
    ∃ g, st.groups.lookup id = some g by
    obtain ⟨rfl,g,hg⟩ := hcascade
    have hid := ne_empty_of_lookup htree hg
    refine ⟨hid,cascade_departures st.depth id st htree hid (fun _ _ => ?_) fun _ _ => trivial⟩
    have hkeys : id ∈ st.groups.keys := mem_keys.mp (lookup_isSome.mp (hg ▸ rfl))
    have hpos := List.length_pos_of_mem hkeys
    rw [Store.depth]
    omega
  rw [removeGroupMember] at h
  split at h
  · obtain ⟨_,hexists,h⟩ := (CallOutcomes.bind_ok_iff _ _ _).mp h
    cases h
    exact ⟨rfl,ne_none_iff_exists'.mp (refuseIf_ok hexists)⟩
  · obtain ⟨g,hauth,h⟩ := (CallOutcomes.bind_ok_iff _ _ _).mp h
    cases h
    exact ⟨rfl,g,(authorizeGroupManage_ok hauth).1⟩

/-- A removal leaves the user no row in the group or in any group below it. -/
theorem removal_clears_subtree (equalFold : String → String → Bool) (users : Users) (ops : List Op)
    (hops : Along equalFold OwnGroupsInside ⟨users,{}⟩ ops) (w : World)
    (hw : w = run equalFold ⟨users,{}⟩ ops)
    (p : Principal) (h : removeGroupMember w.users w.store p id userID = .ok st') :
    Kept userID w.store st' ∧ ∀ d, Under st' id d → Gone st' userID d := by
  obtain ⟨htree,hin⟩ := hw ▸ run_forest_contained equalFold users ops hops
  obtain ⟨hid,hleft,hgone⟩ := removeGroupMember_left htree h
  have hafter : Forest st' ∧ Contained st' := by
    clear h hgone
    induction hleft with
    | refl => exact ⟨htree,hin⟩
    | tail _ hstep ih => exact ⟨(departure_tree_kept ih.1 hstep).1,departure_contained ih.1 ih.2 hstep⟩
  refine ⟨(departures_tree_kept htree hleft).2,fun d hd => ?_⟩
  -- downwards: whoever has a row below is a full member above
  suffices hboth : d ≠ "" ∧ Gone st' userID d from hboth.2
  induction hd with
  | refl => exact ⟨hid,hgone⟩
  | tail _ hstep ih =>
    obtain ⟨g,hg,rfl⟩ := hstep
    have htier : g.tier ≠ .system := fun hs => ih.1 (hafter.1.root _ g hg hs)
    have hno : ¬ (st'.stateIn _ userID).isSome := fun hs => by
      have hmember := stateIn_eq_member.mp (hafter.2.member _ g userID hg htier hs)
      rw [Store.stateIn, ih.2.1] at hmember
      cases hmember
    refine ⟨ne_empty_of_lookup hafter.1 hg,?_,?_⟩
    · rw [Store.stateIn, isSome_map] at hno
      exact not_isSome_iff_eq_none.mp hno
    · by_contra hrow
      have hmember := hafter.2.manager _ g userID hg htier (isSome_iff_ne_none.mpr hrow)
      exact hno (stateIn_eq_member.mp hmember ▸ rfl)

theorem removal_clears_subtree_office : ∃ st', removeGroupMember staff (run (· == ·) ⟨staff,{}⟩ office).store
    sysadmin "ugrp_s" "bob" = .ok st' ∧ ∀ d, Under st' "ugrp_s" d → Gone st' "bob" d := by
  refine ⟨_,rfl,(removal_clears_subtree (· == ·) staff office ?_ _ rfl sysadmin rfl).2⟩
  refine ⟨?_,?_,?_,?_,?_,?_,?_,?_,trivial⟩
  all_goals
    rintro id q - - ⟨⟨hex,input,hc,htier,-⟩,hsys⟩
    first
      | exact absurd hsys (by decide)
      | (cases hc; exact absurd htier (by decide))
      | cases hc

end OnPremGateway.GroupContainment
