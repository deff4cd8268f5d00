import OnPremGateway.CallOutcomes
import OnPremGateway.GroupDepartures

/-!
# What a call can change

Every call on the groups that succeeds is a sequence of small changes, each with
what has been checked by then, or takes a user out of groups. The results about
runs go through these changes and never look into the calls.
-/

set_option autoImplicit false

namespace OnPremGateway.GroupChanges
open UserGroups GroupTree GroupDepartures List AList Option Store
open CallOutcomes

def SelfOwned (p : Principal) (input : CreateGroupInput) : Prop :=
  ¬(RuntimeTypes.trimSpace input.ownerUserID ≠ "" ∧ RuntimeTypes.trimSpace input.ownerUserID ≠ p.userID)

structure SelfUnder (p : Principal) (c : Call) (parentID : String) : Prop where
  asked : ∃ hex input, c = .createGroup hex input ∧ input.tier = some .admin ∧ SelfOwned p input ∧
    input.parentGroupID = parentID
  system : p.isSystem

def OwnerAsked (users : Users) (p : Principal) (c : Call) (g : UserGroup) : Prop :=
  (g.ownerUserID = p.userID ∧ ∃ hex input, c = .createGroup hex input ∧ input.tier = some g.tier ∧
      (g.tier = .admin → SelfOwned p input)) ∨
    g.tier = .admin ∧ eligibleAdminGroupSuccessor users g.ownerUserID

def CreatesAs (c : Call) (id : String) : Prop :=
  ∃ hex input, c = .createGroup hex input ∧ newGroupID hex = id

inductive Change (users : Users) (p : Principal) (c : Call) (st : Store) : Store → Prop
  | root (id name : String) (hasked : CreatesAs c id) (hid : id ≠ "")
      (hnew : st.groups.lookup id = none) :
      Change users p c st { st with groups := st.groups.insert id ⟨.system,name,"",""⟩ }
  | found (id : String) (g q : UserGroup) (now : ℤ) (hasked : CreatesAs c id) (hid : id ≠ "")
      (hnew : st.groups.lookup id = none) (hq : st.groups.lookup g.parentGroupID = some q)
      (htier : above g.tier = some q.tier)
      (hmember : st.memberIDSet g.parentGroupID g.ownerUserID ∨
        g.tier = .admin ∧ g.ownerUserID = p.userID ∧ SelfUnder p c g.parentGroupID)
      (howner : OwnerAsked users p c g) :
      Change users p c st (({ st with groups := st.groups.insert id g } : Store).setUserGroupMember id
        g.ownerUserID .member "" now)
  | rename (id name : String) (g : UserGroup) (hg : st.groups.lookup id = some g) :
      Change users p c st (st.updateUserGroup id name g.ownerUserID)
  | delete (id : String) (g : UserGroup) (hg : st.groups.lookup id = some g)
      (hauth : p.isSystem ∨ g.tier ≠ .system ∧ g.ownerUserID = p.userID) :
      Change users p c st (st.deleteUserGroup id)
  | enrol (id : String) (g : UserGroup) (userID : String) (state : GroupState) (invitedBy : String)
      (now : ℤ) (hg : st.groups.lookup id = some g)
      (hin : g.tier = .system ∨ st.memberIDSet g.parentGroupID userID)
      (hstate : state = .invited → st.memberIDSet id userID = false) :
      Change users p c st (st.setUserGroupMember id userID state invitedBy now)
  | accept (id : String) (now : ℤ) (hinvited : st.stateIn id p.userID = some .invited) :
      Change users p c st (st.setUserGroupMember id p.userID .member "" now)
  | decline (id : String) (hinvited : st.stateIn id p.userID = some .invited) :
      Change users p c st (st.removeUserGroupMember id p.userID)
  | manage (id : String) (g : UserGroup) (userID : String) (row : ManagerRow)
      (hg : st.groups.lookup id = some g) (htier : g.tier ≠ .system)
      (howner : p.isSystem ∨ g.ownerUserID = p.userID)
      (hmember : st.memberIDSet id userID ∨ (st.managers.lookup (id,userID)).isSome) :
      Change users p c st { st with managers := st.managers.insert (id,userID) row }
  | demote (id : String) (g : UserGroup) (userID : String) (hg : st.groups.lookup id = some g)
      (htier : g.tier ≠ .system) (howner : p.isSystem ∨ g.ownerUserID = p.userID) :
      Change users p c st (st.removeUserGroupManager id userID)
  | transfer (id : String) (g : UserGroup) (newOwnerID : String) (hg : st.groups.lookup id = some g)
      (htier : g.tier ≠ .system) (howner : p.isSystem ∨ g.ownerUserID = p.userID)
      (hasked : c = .transferOwnership id newOwnerID)
      (hmanager : (st.managers.lookup (id,newOwnerID)).isSome) :
      Change users p c st (setGroupOwner st id g newOwnerID)

def Enrols : Call → Bool
  | .addGroupMembers _ _ => true
  | .inviteUser _ _ => true
  | _ => false

abbrev Changes (users : Users) (p : Principal) (c : Call) : Store → Store → Prop :=
  Relation.ReflTransGen (Change users p c)

/-! ### What has been checked -/

theorem refuseIf_ok {refused : Prop} [Decidable refused] {e : GroupError} {u : Unit}
    (h : refuseIf refused e = .ok u) : ¬refused := by
  rw [refuseIf] at h
  split at h
  · cases h
  · assumption

theorem map_ok {α β : Type} {x : Except GroupError α} {f : α → β} {b : β} (h : x.map f = .ok b) :
    ∃ a, x = .ok a ∧ f a = b := by
  cases x with
  | error e => cases h
  | ok a =>
    cases h
    exact ⟨a,rfl,rfl⟩

variable {st st' : Store} {p : Principal} {hex id name parent parentID userID : String}
  {g : UserGroup} {input : CreateGroupInput} {now : ℤ} {state : GroupState}

theorem authorizeGroupManage_ok {need : GroupManageNeed}
    (h : authorizeGroupManage st p id need = .ok g) :
    st.groups.lookup id = some g ∧ (p.isSystem ∨ g.tier ≠ .system ∧
      (g.ownerUserID = p.userID ∨ ∃ row, st.managers.lookup (id,p.userID) = some row ∧
        need.metBy row.perms)) := by
  rw [authorizeGroupManage] at h
  cases hg : st.groups.lookup id with
  | none => rw [hg] at h; cases h
  | some q =>
    rw [hg] at h
    dsimp only at h
    split at h
    · next hsys =>
      cases h
      exact ⟨rfl,.inl hsys⟩
    split at h
    · cases h
    next htier =>
    split at h
    · next howner =>
      cases h
      exact ⟨rfl,.inr ⟨htier,.inl howner.2⟩⟩
    cases hrow : st.managers.lookup (id,p.userID) with
    | none => rw [hrow] at h; cases h
    | some row =>
      rw [hrow] at h
      dsimp only at h
      split at h
      · next hmet =>
        cases h
        exact ⟨rfl,.inr ⟨htier,.inr ⟨row,rfl,hmet⟩⟩⟩
      · cases h

theorem authorizeOwnerAction_ok (h : authorizeOwnerAction st p id = .ok g) :
    st.groups.lookup id = some g ∧ g.tier ≠ .system ∧ (p.isSystem ∨ g.ownerUserID = p.userID) := by
  rw [authorizeOwnerAction] at h
  obtain ⟨q,hq,h⟩ := (bind_ok_iff _ _ _).mp h
  obtain ⟨_,htier,h⟩ := (bind_ok_iff _ _ _).mp h
  obtain ⟨_,howner,h⟩ := (bind_ok_iff _ _ _).mp h
  cases h
  refine ⟨(authorizeGroupManage_ok hq).1,refuseIf_ok htier,?_⟩
  have hnot := refuseIf_ok howner
  rw [not_and_or, Bool.not_eq_false, not_not] at hnot
  exact hnot

theorem createUserGroup_ok (h : st.createUserGroup id g = .ok st') :
    st.groups.lookup id = none ∧ st' = { st with groups := st.groups.insert id g } := by
  rw [Store.createUserGroup] at h
  split at h
  · cases h
  · next hnone =>
    cases h
    exact ⟨not_isSome_iff_eq_none.mp hnone,rfl⟩

theorem newGroupID_ne (hex : String) : newGroupID hex ≠ "" := by
  rw [newGroupID]
  intro h
  have := congrArg String.toList h
  simp at this

theorem soleGroup_mem {groups : List (Sigma fun _ : String => UserGroup)}
    (h : soleGroup groups = .ok id) : ∃ g, ⟨id,g⟩ ∈ groups := by
  match groups, h with
  | [⟨i,g⟩], h =>
    cases h
    exact ⟨g,by simp⟩

section calls

variable {equalFold : String → String → Bool} {users : Users} {p : Principal} {c : Call} {st st' : Store}

theorem foundGroup_change {q : UserGroup} (hc : c = .createGroup hex input)
    (h : st.foundGroup hex g now = .ok st') (hq : st.groups.lookup g.parentGroupID = some q)
    (htier : above g.tier = some q.tier) (hmember : st.memberIDSet g.parentGroupID g.ownerUserID ∨
      g.tier = .admin ∧ g.ownerUserID = p.userID ∧ SelfUnder p c g.parentGroupID)
    (howner : OwnerAsked users p c g) : Change users p c st st' := by
  rw [foundGroup] at h
  obtain ⟨s,hs,h⟩ := (bind_ok_iff _ _ _).mp h
  obtain ⟨hnew,rfl⟩ := createUserGroup_ok hs
  cases h
  exact .found (newGroupID hex) g q now ⟨hex,input,hc,rfl⟩ (newGroupID_ne hex) hnew hq htier hmember howner

/-- A group the user is a full member of, found by a query for its tier. -/
theorem memberOf {tier : Tier} (h : ⟨id,g⟩ ∈ st.userGroupsForUser userID tier .member) :
    st.groups.lookup id = some g ∧ g.tier = tier ∧ st.memberIDSet id userID := by
  obtain ⟨hg,ht,hstate⟩ := (mem_userGroupsForUser st userID tier .member id g).mp h
  exact ⟨hg,ht,decide_eq_true hstate⟩

theorem mem_of_mem_ids {tier : Tier}
    (h : id ∈ (st.userGroupsForUser userID tier .member).map Sigma.fst) :
    ∃ g, ⟨id,g⟩ ∈ st.userGroupsForUser userID tier .member := by
  obtain ⟨⟨i,g⟩,hmem,rfl⟩ := mem_map.mp h
  exact ⟨g,hmem⟩

theorem ownAdminParent_ok (h : ownAdminParent st p parentID = .ok parent) :
    ∃ q, st.groups.lookup parent = some q ∧ q.tier = .system ∧
      (st.memberIDSet parent p.userID ∨ p.isSystem ∧ parentID = parent) := by
  rw [ownAdminParent] at h
  split at h
  · obtain ⟨q,hq⟩ := soleGroup_mem h
    obtain ⟨hg,ht,hm⟩ := memberOf hq
    exact ⟨q,hg,ht,.inl hm⟩
  cases hg : st.groups.lookup parentID with
  | none => rw [hg] at h; cases h
  | some q =>
    rw [hg] at h
    dsimp only at h
    split at h
    · cases h
    next htier =>
    split at h
    · cases h
    next hown =>
    cases h
    refine ⟨q,hg,not_not.mp htier,?_⟩
    rw [not_and_or, Bool.not_eq_false, not_not] at hown
    rcases hown with hsys | hmem
    · exact .inr ⟨hsys,rfl⟩
    · obtain ⟨g,hmem⟩ := mem_of_mem_ids hmem
      exact .inl (memberOf hmem).2.2

theorem otherAdminParent_ok {ownerID : String}
    (h : otherAdminParent users st p parentID ownerID = .ok parent) :
    ∃ q, st.groups.lookup parent = some q ∧ q.tier = .system ∧ st.memberIDSet parent ownerID ∧
      eligibleAdminGroupSuccessor users ownerID := by
  rw [otherAdminParent] at h
  obtain ⟨_,_,h⟩ := (bind_ok_iff _ _ _).mp h
  obtain ⟨_,helig,h⟩ := (bind_ok_iff _ _ _).mp h
  have helig := not_not.mp (refuseIf_ok helig)
  dsimp only at h
  have hmem : ∃ q, ⟨parent,q⟩ ∈ st.userGroupsForUser ownerID .system .member := by
    split at h
    · exact soleGroup_mem h
    split at h
    · next hids =>
      cases h
      exact mem_of_mem_ids hids
    · cases h
  obtain ⟨q,hmem⟩ := hmem
  obtain ⟨hg,ht,hm⟩ := memberOf hmem
  exact ⟨q,hg,ht,hm,helig⟩

theorem userGroupParent_ok (h : userGroupParent st p parentID = .ok parent) :
    ∃ q, st.groups.lookup parent = some q ∧ q.tier = .admin ∧ st.memberIDSet parent p.userID := by
  rw [userGroupParent] at h
  have hmem : ∃ q, ⟨parent,q⟩ ∈ st.userGroupsForUser p.userID .admin .member := by
    split at h
    · exact soleGroup_mem h
    split at h
    · next hids =>
      cases h
      exact mem_of_mem_ids hids
    · cases h
  obtain ⟨q,hmem⟩ := hmem
  obtain ⟨hg,ht,hm⟩ := memberOf hmem
  exact ⟨q,hg,ht,hm⟩

theorem createAdminGroup_change (hc : c = .createGroup hex input) (htier : input.tier = some .admin)
    (h : createAdminGroup equalFold users st p now hex name input.parentGroupID input.ownerUserID = .ok st') :
    Change users p c st st' := by
  rw [createAdminGroup] at h
  obtain ⟨_,_,h⟩ := (bind_ok_iff _ _ _).mp h
  obtain ⟨place,hplace,h⟩ := (bind_ok_iff _ _ _).mp h
  obtain ⟨_,_,h⟩ := (bind_ok_iff _ _ _).mp h
  rw [adminGroupPlace] at hplace
  split at hplace
  · obtain ⟨parent,hparent,rfl⟩ := map_ok hplace
    obtain ⟨q,hq,hqt,hm,helig⟩ := otherAdminParent_ok hparent
    exact foundGroup_change hc h hq (hqt ▸ rfl) (.inl hm) (.inr ⟨rfl,helig⟩)
  next hself =>
  obtain ⟨parent,hparent,rfl⟩ := map_ok hplace
  obtain ⟨q,hq,hqt,hm⟩ := ownAdminParent_ok hparent
  have hasked : OwnerAsked users p c ⟨.admin,name,parent,p.userID⟩ :=
    .inl ⟨rfl,hex,input,hc,htier,fun _ => hself⟩
  refine foundGroup_change hc h hq (hqt ▸ rfl) ?_ hasked
  rcases hm with hm | ⟨hsys,hsame⟩
  · exact .inl hm
  · exact .inr ⟨rfl,rfl,⟨hex,input,hc,htier,hself,hsame⟩,hsys⟩

theorem createUserGroup_change (hc : c = .createGroup hex input) (htier : input.tier = some .user)
    (h : UserGroups.createUserGroup equalFold st p now hex name input.parentGroupID = .ok st') :
    Change users p c st st' := by
  rw [UserGroups.createUserGroup] at h
  obtain ⟨parent,hparent,h⟩ := (bind_ok_iff _ _ _).mp h
  obtain ⟨_,_,h⟩ := (bind_ok_iff _ _ _).mp h
  obtain ⟨q,hq,hqt,hm⟩ := userGroupParent_ok hparent
  have hasked : OwnerAsked users p c ⟨.user,name,parent,p.userID⟩ :=
    .inl ⟨rfl,hex,input,hc,htier,nofun⟩
  exact foundGroup_change hc h hq (hqt ▸ rfl) (.inl hm) hasked

theorem createSystemGroup_change (hc : c = .createGroup hex input)
    (h : createSystemGroup equalFold st p hex name = .ok st') : Change users p c st st' := by
  rw [createSystemGroup] at h
  obtain ⟨_,_,h⟩ := (bind_ok_iff _ _ _).mp h
  obtain ⟨_,_,h⟩ := (bind_ok_iff _ _ _).mp h
  obtain ⟨hnew,rfl⟩ := createUserGroup_ok h
  exact .root _ _ ⟨hex,input,hc,rfl⟩ (newGroupID_ne hex) hnew

theorem createGroup_change (hc : c = .createGroup hex input)
    (h : createGroup equalFold users st p now hex input = .ok st') : Change users p c st st' := by
  rw [createGroup] at h
  split at h
  · cases h
  cases htier : input.tier with
  | none => rw [htier] at h; cases h
  | some tier =>
    rw [htier] at h
    cases tier with
    | system => exact createSystemGroup_change hc h
    | admin => exact createAdminGroup_change hc htier h
    | user => exact createUserGroup_change hc htier h

theorem renameGroup_change (h : renameGroup equalFold st p id name = .ok st') :
    Change users p c st st' := by
  rw [renameGroup] at h
  obtain ⟨_,_,h⟩ := (bind_ok_iff _ _ _).mp h
  obtain ⟨g,hg,h⟩ := (bind_ok_iff _ _ _).mp h
  obtain ⟨_,_,h⟩ := (bind_ok_iff _ _ _).mp h
  cases h
  exact .rename id _ g (authorizeGroupManage_ok hg).1

theorem deleteGroup_change (h : deleteGroup st p id = .ok st') : Change users p c st st' := by
  rw [deleteGroup] at h
  obtain ⟨g,hg,h⟩ := (bind_ok_iff _ _ _).mp h
  obtain ⟨_,hrefuse,h⟩ := (bind_ok_iff _ _ _).mp h
  cases h
  obtain ⟨hlookup,hauth⟩ := authorizeGroupManage_ok hg
  refine .delete id g hlookup ?_
  rcases hauth with hsys | ⟨htier,-⟩
  · exact .inl hsys
  have hnot := refuseIf_ok hrefuse
  rw [not_and_or, not_and_or, Bool.not_eq_false, not_not] at hnot
  rcases hnot with hnot | hsys | howner
  · exact absurd hnot htier
  · exact .inl hsys
  · exact .inr ⟨htier,not_not.mp howner⟩

/-- Enrolling in one group does not touch the memberships of another. -/
theorem memberIDSet_setUserGroupMember_ne {i u invitedBy : String} (h : i ≠ id) :
    (st.setUserGroupMember id userID state invitedBy now).memberIDSet i u = st.memberIDSet i u := by
  rw [memberIDSet, stateIn_setUserGroupMember, if_neg fun hand => h hand.1, memberIDSet]

theorem enrol_changes {invitedBy : String} (userIDs : List String) (st : Store)
    (hself : g.parentGroupID ≠ id) (hg : st.groups.lookup id = some g)
    (hin : ∀ u ∈ userIDs, g.tier = .system ∨ st.memberIDSet g.parentGroupID u)
    (hstate : ∀ u ∈ userIDs, state = .invited → st.memberIDSet id u = false) : Changes users p c st
      (userIDs.foldl (fun st u => st.setUserGroupMember id u state invitedBy now) st) := by
  induction userIDs generalizing st with
  | nil => exact .refl
  | cons u userIDs ih =>
    have hfirst : Change users p c st (st.setUserGroupMember id u state invitedBy now) :=
      .enrol id g u state invitedBy now hg (hin u (by simp)) (hstate u (by simp))
    apply Relation.ReflTransGen.head hfirst
    refine ih (st.setUserGroupMember id u state invitedBy now) hg ?_ ?_
    · intro v hv
      rw [memberIDSet_setUserGroupMember_ne hself]
      exact hin v (mem_cons_of_mem _ hv)
    · intro v hv hinvited
      rw [memberIDSet, stateIn_setUserGroupMember, hinvited]
      split
      · rfl
      · exact hstate v (mem_cons_of_mem _ hv) hinvited

/-- No group is its own parent. -/
theorem parent_ne (htree : Forest st) (hg : st.groups.lookup id = some g) :
    g.parentGroupID ≠ id := by
  intro hself
  obtain ⟨q,hq,hstep⟩ := tiersAbove_child htree (ne_empty_of_lookup htree hg) hg hself
  obtain rfl := some.inj (hg.symm.trans hq)
  omega

theorem addGroupMembers_changes (htree : Forest st) {userIDs : List String}
    (h : addGroupMembers users st p now id userIDs = .ok st') : Changes users p c st st' := by
  rw [addGroupMembers] at h
  obtain ⟨g,hg,h⟩ := (bind_ok_iff _ _ _).mp h
  obtain ⟨hlookup,-⟩ := authorizeGroupManage_ok hg
  have hself := parent_ne htree hlookup
  split at h
  · next htier =>
    rw [inviteGroupMembers] at h
    obtain ⟨_,hparents,h⟩ := (bind_ok_iff _ _ _).mp h
    have hparents := refuseIf_ok hparents
    cases h
    apply enrol_changes _ st hself hlookup
    · intro u hu
      right
      by_contra hnot
      exact hparents ⟨u,(mem_filter.mp hu).1,Bool.not_eq_true _ ▸ hnot⟩
    · intro u hu _
      have hfilter := (mem_filter.mp hu).2
      rwa [Bool.not_eq_true'] at hfilter
  next htier =>
  obtain ⟨_,hvisible,h⟩ := (bind_ok_iff _ _ _).mp h
  have hvisible := refuseIf_ok hvisible
  cases h
  apply enrol_changes _ st hself hlookup
  · intro u hu
    by_contra hnot
    rw [not_or] at hnot
    have hadmin : g.tier = .admin := by
      cases ht : g.tier with
      | system => exact absurd ht hnot.1
      | admin => rfl
      | user => exact absurd ht htier
    exact hvisible ⟨u,hu,.inr ⟨hadmin,Bool.not_eq_true _ ▸ hnot.2⟩⟩
  · intro u _ hinvited
    exact absurd hinvited nofun

theorem respondInvitation_change {accept : Bool}
    (h : respondInvitation st p now id accept = .ok st') : Change users p c st st' := by
  rw [respondInvitation] at h
  obtain ⟨_,hinvited,h⟩ := (bind_ok_iff _ _ _).mp h
  have hinvited := not_not.mp (refuseIf_ok hinvited)
  cases accept with
  | true =>
    cases h
    exact .accept id now hinvited
  | false =>
    cases h
    exact .decline id hinvited

theorem inviteUser_changes (htree : Forest st) (h : inviteUser st p now userID id = .ok st') :
    Changes users p c st st' := by
  rw [inviteUser] at h
  obtain ⟨⟨i,parentID⟩,hresolve,h⟩ := (bind_ok_iff _ _ _).mp h
  rw [resolveInviteAdminGroup] at hresolve
  obtain ⟨_,_,hresolve⟩ := (bind_ok_iff _ _ _).mp hresolve
  cases hauth : authorizeGroupManage st p id .users with
  | error e => rw [hauth] at hresolve; cases hresolve
  | ok g =>
    rw [hauth] at hresolve
    dsimp only at hresolve
    obtain ⟨hlookup,-⟩ := authorizeGroupManage_ok hauth
    split at hresolve
    · next htier =>
      cases hresolve
      dsimp only at h
      rw [addUserToAdminGroup] at h
      obtain ⟨_,_,h⟩ := (bind_ok_iff _ _ _).mp h
      cases h
      obtain ⟨q,hq,hqt⟩ := htree.parent id g .system hlookup (by rw [htier]; rfl)
      rw [if_pos (ne_empty_of_lookup htree hq)]
      have hparent : Change users p c st (st.setUserGroupMember g.parentGroupID userID .member "" now) :=
        .enrol _ q userID .member "" now hq (.inl hqt) nofun
      apply Relation.ReflTransGen.head hparent
      apply Relation.ReflTransGen.single
      refine .enrol id g userID .member "" now hlookup (.inr ?_) nofun
      rw [memberIDSet, stateIn_setUserGroupMember, if_pos ⟨rfl,rfl⟩]
      rfl
    · cases hresolve

theorem promoteManager_change {perms : ManagerPermissions}
    (h : promoteManager users st p now id userID perms = .ok st') : Change users p c st st' := by
  rw [promoteManager] at h
  obtain ⟨g,hg,h⟩ := (bind_ok_iff _ _ _).mp h
  obtain ⟨_,hmember,h⟩ := (bind_ok_iff _ _ _).mp h
  obtain ⟨_,_,h⟩ := (bind_ok_iff _ _ _).mp h
  obtain ⟨_,_,h⟩ := (bind_ok_iff _ _ _).mp h
  obtain ⟨hlookup,htier,howner⟩ := authorizeOwnerAction_ok hg
  have hmember : st.memberIDSet id userID := by
    have hnot := refuseIf_ok hmember
    rwa [Bool.not_eq_false] at hnot
  rw [setUserGroupManager] at h
  cases hrow : st.managers.lookup (id,userID) with
  | some row =>
    rw [hrow] at h
    dsimp only at h
    rw [setUserGroupManagerPermissions, hrow] at h
    cases h
    exact .manage id g userID _ hlookup htier howner (.inl hmember)
  | none =>
    rw [hrow] at h
    dsimp only at h
    rw [setUserGroupManagerPermissions] at h
    dsimp only at h
    rw [lookup_insert] at h
    cases h
    rw [insert_insert]
    exact .manage id g userID _ hlookup htier howner (.inl hmember)

theorem setManagerPermissions_change {perms : ManagerPermissions}
    (h : setManagerPermissions st p id userID perms = .ok st') : Change users p c st st' := by
  rw [setManagerPermissions] at h
  obtain ⟨g,hg,h⟩ := (bind_ok_iff _ _ _).mp h
  obtain ⟨hlookup,htier,howner⟩ := authorizeOwnerAction_ok hg
  rw [setUserGroupManagerPermissions] at h
  cases hrow : st.managers.lookup (id,userID) with
  | none => rw [hrow] at h; cases h
  | some row =>
    rw [hrow] at h
    cases h
    exact .manage id g userID _ hlookup htier howner (.inr (hrow ▸ rfl))

theorem demoteManager_change (h : demoteManager st p id userID = .ok st') :
    Change users p c st st' := by
  rw [demoteManager] at h
  obtain ⟨g,hg,h⟩ := (bind_ok_iff _ _ _).mp h
  obtain ⟨hlookup,htier,howner⟩ := authorizeOwnerAction_ok hg
  cases h
  exact .demote id g userID hlookup htier howner

theorem transferOwnership_change {newOwnerID : String} (hc : c = .transferOwnership id newOwnerID)
    (h : transferOwnership st p id newOwnerID = .ok st') : Change users p c st st' := by
  rw [transferOwnership] at h
  obtain ⟨g,hg,h⟩ := (bind_ok_iff _ _ _).mp h
  obtain ⟨_,hmanager,h⟩ := (bind_ok_iff _ _ _).mp h
  obtain ⟨hlookup,htier,howner⟩ := authorizeOwnerAction_ok hg
  have hmanager := not_not.mp (refuseIf_ok hmanager)
  cases h
  exact .transfer id g newOwnerID hlookup htier howner hc
    ((mem_userGroupManagers st id newOwnerID).mp hmanager)

/-- A removal: the principal itself, or one by a manager of the group. -/
theorem removeGroupMember_departures (htree : Forest st)
    (h : removeGroupMember users st p id userID = .ok st') :
    (p.userID = userID ∨ ∃ g, authorizeGroupManage st p id .group = .ok g) ∧
      Departures users userID (Under st id) st st' := by
  have hrun : ∀ g, st.groups.lookup id = some g →
      Departures users userID (Under st id) st (removeMemberCascade users userID st.depth id st) := by
    intro g hg
    apply (cascade_departures _ id st htree (ne_empty_of_lookup htree hg) _ fun _ hd => hd).1
    intro g' _
    have hkeys : id ∈ st.groups.keys := mem_keys.mp (lookup_isSome.mp (hg ▸ rfl))
    have hpos : 0 < st.groups.keys.length := length_pos_of_mem hkeys
    rw [depth]
    omega
  rw [removeGroupMember] at h
  split at h
  · next hself =>
    obtain ⟨_,hexists,h⟩ := (bind_ok_iff _ _ _).mp h
    cases h
    obtain ⟨g,hg⟩ := ne_none_iff_exists'.mp (refuseIf_ok hexists)
    exact ⟨.inl hself,hrun g hg⟩
  · obtain ⟨g,hauth,h⟩ := (bind_ok_iff _ _ _).mp h
    cases h
    exact ⟨.inr ⟨g,hauth⟩,hrun g (authorizeGroupManage_ok hauth).1⟩

theorem reassignGroupsOwnedBy_departures (htree : Forest st)
    (h : reassignGroupsOwnedBy users st p userID = .ok st') :
    Departures users userID (fun _ => True) st st' := by
  rw [reassignGroupsOwnedBy] at h
  obtain ⟨_,_,h⟩ := (bind_ok_iff _ _ _).mp h
  cases h
  exact reassign_departures htree

end calls

/-! ### The forest stays one -/

theorem insertGroup_forest (htree : Forest st) (hid : id ≠ "")
    (hroot : g.tier = .system → g.parentGroupID = "") (hparent : ∀ tier, above g.tier = some tier →
      ∃ q, st.groups.lookup g.parentGroupID = some q ∧ q.tier = tier)
    (hnew : st.groups.lookup id = none) : Forest { st with groups := st.groups.insert id g } where
  named := by
    rw [lookup_insert_ne hid.symm]
    exact htree.named
  root := by
    intro i h hh htier
    by_cases hi : i = id
    · subst hi
      rw [lookup_insert] at hh
      cases hh
      exact hroot htier
    · rw [lookup_insert_ne hi] at hh
      exact htree.root i h hh htier
  parent := by
    have hkeep : ∀ i q, st.groups.lookup i = some q → (st.groups.insert id g).lookup i = some q := by
      intro i q hq
      rw [lookup_insert_ne, hq]
      rintro rfl
      rw [hnew] at hq
      exact absurd hq nofun
    intro i h tier hh htier
    by_cases hi : i = id
    · subst hi
      rw [lookup_insert] at hh
      cases hh
      obtain ⟨q,hq,hqt⟩ := hparent tier htier
      exact ⟨q,hkeep _ q hq,hqt⟩
    · rw [lookup_insert_ne hi] at hh
      obtain ⟨q,hq,hqt⟩ := htree.parent i h tier hh htier
      exact ⟨q,hkeep _ q hq,hqt⟩
  member := by
    intro i u hm
    rw [lookup_isSome, mem_insert]
    exact .inr (lookup_isSome.mp (htree.member i u hm))
  manager := by
    intro i u hm
    rw [lookup_isSome, mem_insert]
    exact .inr (lookup_isSome.mp (htree.manager i u hm))

theorem insertMember_forest (htree : Forest st) (m : Membership)
    (hid : (st.groups.lookup id).isSome) :
    Forest { st with members := st.members.insert (id,userID) m } where
  named := htree.named
  root := htree.root
  parent := htree.parent
  member := by
    intro i u hm
    by_cases hkey : (i,u) = (id,userID)
    · cases hkey
      exact hid
    · rw [lookup_insert_ne hkey] at hm
      exact htree.member i u hm
  manager := htree.manager

theorem insertManager_forest (htree : Forest st) (row : ManagerRow)
    (hid : (st.groups.lookup id).isSome) :
    Forest { st with managers := st.managers.insert (id,userID) row } where
  named := htree.named
  root := htree.root
  parent := htree.parent
  member := htree.member
  manager := by
    intro i u hm
    by_cases hkey : (i,u) = (id,userID)
    · cases hkey
      exact hid
    · rw [lookup_insert_ne hkey] at hm
      exact htree.manager i u hm

theorem isSome_of_stateIn (htree : Forest st) (h : st.stateIn id userID = some state) :
    (st.groups.lookup id).isSome := by
  apply htree.member id userID
  rw [stateIn, map_eq_some_iff] at h
  obtain ⟨m,hm,-⟩ := h
  rw [hm]
  rfl

theorem change_forest {users : Users} {c : Call} (htree : Forest st) (h : Change users p c st st') :
    Forest st' := by
  cases h with
  | root id name hasked hid hnew => exact insertGroup_forest htree hid (fun _ => rfl) nofun hnew
  | found id g q now hasked hid hnew hq htier hmember howner =>
    apply insertMember_forest (insertGroup_forest htree hid ?_ ?_ hnew)
    · rw [lookup_insert]
      rfl
    · intro hsys
      rw [hsys] at htier
      exact absurd htier nofun
    · intro tier ht
      exact ⟨q,hq,some.inj (htier.symm.trans ht)⟩
  | rename id name g hg => exact updateUserGroup_tree htree id name g.ownerUserID
  | delete id g hg hauth => exact deleteUserGroup_tree htree hg
  | enrol id g userID state invitedBy now hg hin hstate =>
    exact insertMember_forest htree _ (hg ▸ rfl)
  | accept id now hinvited => exact insertMember_forest htree _ (isSome_of_stateIn htree hinvited)
  | decline id hinvited =>
    refine { htree with member := fun i u hm => htree.member i u ?_ }
    exact lookup_isSome.mpr (mem_erase.mp (lookup_isSome.mp hm)).2
  | manage id g userID row hg htier howner hmember => exact insertManager_forest htree row (hg ▸ rfl)
  | demote id g userID hg htier howner =>
    refine { htree with manager := fun i u hm => htree.manager i u ?_ }
    exact lookup_isSome.mpr (mem_erase.mp (lookup_isSome.mp hm)).2
  | transfer id g newOwnerID hg htier howner hasked hmanager =>
    exact updateUserGroup_tree htree _ _ _

/-- What a call that succeeds does: it takes a user out of groups, finds new owners
for a user's groups, or changes them; a creation is one change. -/
theorem exec_cases {equalFold : String → String → Bool} {users : Users} (htree : Forest st)
    {c : Call} (h : exec equalFold users st p now c = .ok st') :
    (∃ id userID, c = .removeGroupMember id userID ∧
        (p.userID = userID ∨ ∃ g, authorizeGroupManage st p id .group = .ok g) ∧
        Departures users userID (Under st id) st st') ∨
      (∃ userID, c = .reassignGroupsOwnedBy userID ∧ Departures users userID (fun _ => True) st st') ∨
      Change users p c st st' ∨ Enrols c ∧ Changes users p c st st' := by
  cases c with
  | createGroup hex input => exact .inr (.inr (.inl (createGroup_change rfl h)))
  | renameGroup id name => exact .inr (.inr (.inl (renameGroup_change h)))
  | deleteGroup id => exact .inr (.inr (.inl (deleteGroup_change h)))
  | addGroupMembers id userIDs =>
    exact .inr (.inr (.inr ⟨rfl,addGroupMembers_changes htree h⟩))
  | respondInvitation id accept => exact .inr (.inr (.inl (respondInvitation_change h)))
  | removeGroupMember id userID =>
    exact .inl ⟨id,userID,rfl,removeGroupMember_departures htree h⟩
  | promoteManager id userID perms => exact .inr (.inr (.inl (promoteManager_change h)))
  | demoteManager id userID => exact .inr (.inr (.inl (demoteManager_change h)))
  | setManagerPermissions id userID perms =>
    exact .inr (.inr (.inl (setManagerPermissions_change h)))
  | transferOwnership id newOwnerID => exact .inr (.inr (.inl (transferOwnership_change rfl h)))
  | inviteUser userID id => exact .inr (.inr (.inr ⟨rfl,inviteUser_changes htree h⟩))
  | reassignGroupsOwnedBy userID =>
    exact .inr (.inl ⟨userID,rfl,reassignGroupsOwnedBy_departures htree h⟩)

/-! ### Runs -/

section runs

variable (equalFold : String → String → Bool)

/-- Every operation of a run meets a condition in the state it finds. -/
def Along (P : World → Op → Prop) : World → List Op → Prop
  | _, [] => True
  | w, op::ops => P w op ∧ Along P (step equalFold w op) ops

/-- What holds of a store and is kept by the changes and departures of calls is
kept by a run; the condition on the operations may be used. -/
theorem run_invariant {P : World → Op → Prop} {I : Store → Prop}
    (hchange : ∀ w p now c, P w (.call p now c) → ∀ st st', st = w.store ∨ Enrols c →
      Forest st → I st → Change w.users p c st st' → I st')
    (hdeparture : ∀ users userID within st st', Forest st → I st →
      Departure users userID within st st' → I st')
    (ops : List Op) (w : World) (hops : Along equalFold P w ops) (htree : Forest w.store)
    (hw : I w.store) : Forest (run equalFold w ops).store ∧ I (run equalFold w ops).store := by
  induction ops generalizing w with
  | nil => exact ⟨htree,hw⟩
  | cons op ops ih =>
    obtain ⟨hop,hops⟩ := hops
    suffices hstep : Forest (step equalFold w op).store ∧ I (step equalFold w op).store from
      ih _ hops hstep.1 hstep.2
    cases op with
    | setUser userID user => exact ⟨htree,hw⟩
    | call p now c =>
      have hdepart : ∀ userID within st, Departures w.users userID within w.store st →
          Forest st ∧ I st := by
        intro userID within st hst
        induction hst with
        | refl => exact ⟨htree,hw⟩
        | tail _ hstep ih =>
          exact ⟨(departure_tree_kept ih.1 hstep).1,hdeparture _ _ _ _ _ ih.1 ih.2 hstep⟩
      rw [step, call]
      cases hexec : exec equalFold w.users w.store p now c with
      | error e => exact ⟨htree,hw⟩
      | ok st =>
        rcases exec_cases htree hexec with ⟨id,userID,-,-,h⟩ | ⟨userID,-,h⟩ | h | ⟨hnot,h⟩
        · exact hdepart _ _ st h
        · exact hdepart _ _ st h
        · exact ⟨change_forest htree h,hchange w p now c hop _ _ (.inl rfl) htree hw h⟩
        · clear hexec
          induction h with
          | refl => exact ⟨htree,hw⟩
          | tail _ hstep ih =>
            exact ⟨change_forest ih.1 hstep,hchange w p now c hop _ _ (.inr hnot) ih.1 ih.2 hstep⟩

theorem along_of_all {P : World → Op → Prop} (h : ∀ w op, P w op) (ops : List Op) (w : World) :
    Along equalFold P w ops := by
  induction ops generalizing w with
  | nil => exact trivial
  | cons op ops ih => exact ⟨h w op,ih _⟩

theorem run_forest (ops : List Op) (w : World) (htree : Forest w.store) :
    Forest (run equalFold w ops).store := by
  refine (run_invariant equalFold (P := fun _ _ => True) (I := fun _ => True) ?_ ?_ ops w
    (along_of_all equalFold (fun _ _ => trivial) ops w) htree trivial).1
  · exact fun _ _ _ _ _ _ _ _ _ _ _ => trivial
  · exact fun _ _ _ _ _ _ _ _ => trivial

end runs

end OnPremGateway.GroupChanges
