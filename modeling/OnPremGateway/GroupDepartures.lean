import OnPremGateway.GroupTree

/-!
# Users who leave

Taking a user out of a group, and finding new owners for what the user owned, is
a sequence of four kinds of steps: the user's rows in one group go, a group gets a
successor, a group is left without an owner, a group is closed. What such a
sequence keeps is said once, for every call that causes one.
-/

set_option autoImplicit false

namespace OnPremGateway.GroupDepartures
open UserGroups GroupTree KeyedTable List Option Store

variable (st : Store) {userID : String}

def Gone (st : Store) (userID id : String) : Prop :=
  st.members.lookup (id,userID) = none ∧ st.managers.lookup (id,userID) = none

def Insider (st : Store) (id userID : String) : Prop :=
  (st.managers.lookup (id,userID)).isSome ∨ st.memberIDSet id userID

def eligibleFor (users : Users) : Tier → String → Bool
  | .admin => eligibleAdminGroupSuccessor users
  | _ => eligibleUserGroupSuccessor users

/-- Who succeeds: an eligible insider, or for an admin group without one an
eligible member of the system group above. -/
structure Successor (users : Users) (st : Store) (id : String) (g : UserGroup) (userID : String) : Prop where
  other : userID ≠ g.ownerUserID
  eligible : eligibleFor users g.tier userID
  source : Insider st id userID ∨ g.tier = .admin ∧ st.memberIDSet g.parentGroupID userID ∧
      ∀ v, Insider st id v → v ≠ g.ownerUserID → eligibleAdminGroupSuccessor users v = false

inductive Departure (users : Users) (userID : String) (within : String → Prop) (st : Store) : Store → Prop
  | drop (id : String) (hin : within id) (hbelow : ∀ c, IsParent st id c → Gone st userID c) :
      Departure users userID within st (st.dropUser id userID)
  | succeed (id : String) (g : UserGroup) (successor : String) (hin : within id)
      (hg : st.groups.lookup id = some g) (htier : g.tier ≠ .system) (howner : g.ownerUserID = userID)
      (hsuccessor : Successor users st id g successor) :
      Departure users userID within st (setGroupOwner st id g successor)
  | orphan (id : String) (g : UserGroup) (hin : within id) (hg : st.groups.lookup id = some g)
      (htier : g.tier = .admin) (howner : g.ownerUserID = userID) :
      Departure users userID within st (setGroupOwner st id g "")
  | close (id : String) (g : UserGroup) (hin : within id) (hg : st.groups.lookup id = some g)
      (htier : g.tier ≠ .system)
      (hreason : g.ownerUserID = userID ∨ g.ownerUserID = "" ∧ ∀ v, st.memberIDSet id v = false) :
      Departure users userID within st (st.deleteUserGroup id)

abbrev Departures (users : Users) (userID : String) (within : String → Prop) : Store → Store → Prop :=
  Relation.ReflTransGen (Departure users userID within)

/-- What remains while a user leaves: rows of others in the groups that remain,
the place of these groups in the tree, and owners other than the user. -/
structure Kept (userID : String) (st st' : Store) : Prop where
  group : ∀ id g', st'.groups.lookup id = some g' → ∃ g, st.groups.lookup id = some g ∧
    g'.tier = g.tier ∧ g'.parentGroupID = g.parentGroupID ∧
      (g'.ownerUserID = g.ownerUserID ∨ g.ownerUserID = userID)
  member : ∀ id v, v ≠ userID → (st'.groups.lookup id).isSome →
    st'.members.lookup (id,v) = st.members.lookup (id,v)
  manager : ∀ id v, v ≠ userID → (st'.groups.lookup id).isSome →
    st'.managers.lookup (id,v) = st.managers.lookup (id,v)
  ownMember : ∀ id, st'.members.lookup (id,userID) = none ∨
    st'.members.lookup (id,userID) = st.members.lookup (id,userID)
  ownManager : ∀ id, st'.managers.lookup (id,userID) = none ∨
    st'.managers.lookup (id,userID) = st.managers.lookup (id,userID)

theorem Kept.refl (userID : String) (st : Store) : Kept userID st st where
  group := fun _ g hg => ⟨g,hg,rfl,rfl,.inl rfl⟩
  member := fun _ _ _ _ => rfl
  manager := fun _ _ _ _ => rfl
  ownMember := fun _ => .inr rfl
  ownManager := fun _ => .inr rfl

variable {st' : Store} {i id ownerID : String} {g : UserGroup} {eligible : String → Bool}

theorem Kept.isSome {st : Store} (h : Kept userID st st') (hid : (st'.groups.lookup id).isSome) :
    (st.groups.lookup id).isSome := by
  obtain ⟨g',hg'⟩ := isSome_iff_exists.mp hid
  obtain ⟨g,hg,-⟩ := h.group id g' hg'
  rw [hg]
  rfl

theorem Kept.trans {a b c : Store} (hab : Kept userID a b) (hbc : Kept userID b c) :
    Kept userID a c where
  group := by
    intro id g'' hg''
    obtain ⟨g',hg',htier',hparent',howner'⟩ := hbc.group id g'' hg''
    obtain ⟨g,hg,htier,hparent,howner⟩ := hab.group id g' hg'
    refine ⟨g,hg,htier'.trans htier,hparent'.trans hparent,?_⟩
    rcases howner with howner | howner
    · rcases howner' with howner' | howner'
      · exact .inl (howner'.trans howner)
      · exact .inr (howner.symm.trans howner')
    · exact .inr howner
  member := fun id v hv hid => (hbc.member id v hv hid).trans (hab.member id v hv (hbc.isSome hid))
  manager := fun id v hv hid => (hbc.manager id v hv hid).trans (hab.manager id v hv (hbc.isSome hid))
  ownMember := by
    intro id
    rcases hbc.ownMember id with h | h
    · exact .inl h
    · rw [h]
      exact hab.ownMember id
  ownManager := by
    intro id
    rcases hbc.ownManager id with h | h
    · exact .inl h
    · rw [h]
      exact hab.ownManager id

theorem Kept.isParent {st : Store} (h : Kept userID st st') {a b : String} (hab : IsParent st' a b) :
    IsParent st a b := by
  obtain ⟨g',hg',hparent'⟩ := hab
  obtain ⟨g,hg,-,hparent,-⟩ := h.group b g' hg'
  exact ⟨g,hg,hparent.symm.trans hparent'⟩

theorem Kept.under {st : Store} (h : Kept userID st st') {a b : String} (hab : Under st' a b) :
    Under st a b :=
  Relation.ReflTransGen.mono (fun _ _ => h.isParent) _ _ hab

theorem Kept.gone {st : Store} (h : Kept userID st st') (hgone : Gone st userID id) :
    Gone st' userID id := by
  constructor
  · rcases h.ownMember id with hm | hm
    · exact hm
    · rw [hm, hgone.1]
  · rcases h.ownManager id with hm | hm
    · exact hm
    · rw [hm, hgone.2]

theorem Kept.insider {st : Store} (h : Kept userID st st') {v : String}
    (hid : (st'.groups.lookup id).isSome) (hv : v ≠ userID) :
    Insider st' id v ↔ Insider st id v := by
  rw [Insider, Insider, h.manager id v hv hid, memberIDSet_congr (h.member id v hv hid)]

/-! ### The writes of a departure -/

theorem dropUser_members (id userID i v : String) : (st.dropUser id userID).members.lookup (i,v) =
      if i = id ∧ v = userID then none else st.members.lookup (i,v) := by
  simp only [dropUser, removeUserGroupMember, removeUserGroupManager]
  split
  · next h => rw [h.1, h.2, AList.lookup_erase]
  · next h => rw [AList.lookup_erase_ne fun heq => h (Prod.mk.inj heq)]

theorem dropUser_managers (id userID i v : String) : (st.dropUser id userID).managers.lookup (i,v) =
      if i = id ∧ v = userID then none else st.managers.lookup (i,v) := by
  simp only [dropUser, removeUserGroupMember, removeUserGroupManager]
  split
  · next h => rw [h.1, h.2, AList.lookup_erase]
  · next h => rw [AList.lookup_erase_ne fun heq => h (Prod.mk.inj heq)]

theorem updateUserGroup_group {st : Store} {name owner : String} {g' : UserGroup}
    (h : (st.updateUserGroup id name owner).groups.lookup i = some g') :
    ∃ g, st.groups.lookup i = some g ∧ g'.tier = g.tier ∧ g'.parentGroupID = g.parentGroupID ∧
      g'.ownerUserID = if i = id then owner else g.ownerUserID := by
  rw [lookup_updateUserGroup] at h
  split at h
  · next heq =>
    obtain ⟨g,hg,rfl⟩ := map_eq_some_iff.mp h
    exact ⟨g,heq ▸ hg,rfl,rfl,(if_pos heq).symm⟩
  · next hne => exact ⟨g',h,rfl,rfl,(if_neg hne).symm⟩

theorem updateUserGroup_isSome (id name owner i : String) :
    ((st.updateUserGroup id name owner).groups.lookup i).isSome = (st.groups.lookup i).isSome := by
  rw [lookup_updateUserGroup]
  split
  · next heq => rw [heq, isSome_map]
  · rfl

theorem updateUserGroup_memberIDSet (id name owner i u : String) :
    (st.updateUserGroup id name owner).memberIDSet i u = st.memberIDSet i u :=
  memberIDSet_congr (by rw [updateUserGroup_members])

theorem updateUserGroup_tree {st : Store} (htree : Forest st) (id name owner : String) :
    Forest (st.updateUserGroup id name owner) where
  named := by
    have hnone := updateUserGroup_isSome st id name owner ""
    rw [htree.named] at hnone
    exact not_isSome_iff_eq_none.mp (by rw [hnone]; exact Bool.false_ne_true)
  root := by
    intro i g' hg' htier
    obtain ⟨g,hg,ht,hp,-⟩ := updateUserGroup_group hg'
    rw [hp]
    exact htree.root i g hg (ht.symm.trans htier)
  parent := by
    intro i g' tier hg' htier
    obtain ⟨g,hg,ht,hp,-⟩ := updateUserGroup_group hg'
    obtain ⟨q,hq,hqt⟩ := htree.parent i g tier hg (ht ▸ htier)
    have hsome := updateUserGroup_isSome st id name owner g'.parentGroupID
    rw [hp, hq] at hsome
    obtain ⟨q',hq'⟩ := isSome_iff_exists.mp hsome
    obtain ⟨q2,hq2,hqt2,-⟩ := updateUserGroup_group hq'
    obtain rfl := some.inj (hq.symm.trans hq2)
    rw [hp]
    exact ⟨q',hq',hqt2.trans hqt⟩
  member := by
    intro i v hm
    rw [updateUserGroup_members] at hm
    rw [updateUserGroup_isSome]
    exact htree.member i v hm
  manager := by
    intro i v hm
    rw [updateUserGroup_managers] at hm
    rw [updateUserGroup_isSome]
    exact htree.manager i v hm

theorem setGroupOwner_kept {st : Store} (hg : st.groups.lookup id = some g)
    (howner : g.ownerUserID = userID) (owner : String) :
    Kept userID st (setGroupOwner st id g owner) where
  group := by
    intro i g' hg'
    obtain ⟨h,hh,ht,hp,ho⟩ := updateUserGroup_group hg'
    refine ⟨h,hh,ht,hp,?_⟩
    split at ho
    · next heq =>
      subst heq
      obtain rfl := some.inj (hg.symm.trans hh)
      exact .inr howner
    · exact .inl ho
  member := fun i v _ _ => by rw [setGroupOwner, updateUserGroup_members]
  manager := fun i v _ _ => by rw [setGroupOwner, updateUserGroup_managers]
  ownMember := fun i => .inr (by rw [setGroupOwner, updateUserGroup_members])
  ownManager := fun i => .inr (by rw [setGroupOwner, updateUserGroup_managers])

theorem dropUser_kept (id userID : String) : Kept userID st (st.dropUser id userID) where
  group := fun _ g hg => ⟨g,hg,rfl,rfl,.inl rfl⟩
  member := fun i v hv _ => by rw [dropUser_members, if_neg fun h => hv h.2]
  manager := fun i v hv _ => by rw [dropUser_managers, if_neg fun h => hv h.2]
  ownMember := by
    intro i
    rw [dropUser_members]
    split
    · exact .inl rfl
    · exact .inr rfl
  ownManager := by
    intro i
    rw [dropUser_managers]
    split
    · exact .inl rfl
    · exact .inr rfl

theorem dropUser_tree {st : Store} (htree : Forest st) (id userID : String) :
    Forest (st.dropUser id userID) where
  named := htree.named
  root := htree.root
  parent := htree.parent
  member := by
    intro i v hm
    rw [dropUser_members] at hm
    split at hm
    · exact absurd hm Bool.false_ne_true
    · exact htree.member i v hm
  manager := by
    intro i v hm
    rw [dropUser_managers] at hm
    split at hm
    · exact absurd hm Bool.false_ne_true
    · exact htree.manager i v hm

section delete

variable {st : Store} (htree : Forest st) {top : String} {gtop : UserGroup}
  (htop : st.groups.lookup top = some gtop)

include htree htop

theorem deleteUserGroup_rows (hid : ((st.deleteUserGroup top).groups.lookup id).isSome) (v : String) :
    (st.deleteUserGroup top).members.lookup (id,v) = st.members.lookup (id,v) ∧
      (st.deleteUserGroup top).managers.lookup (id,v) = st.managers.lookup (id,v) := by
  obtain ⟨g,hg⟩ := isSome_iff_exists.mp hid
  have hnot := ((deleteUserGroup_groups htree htop id g).mp hg).2
  constructor
  · apply ext
    intro m
    rw [deleteUserGroup_members htree htop]
    exact and_iff_left hnot
  · apply ext
    intro m
    rw [deleteUserGroup_managers htree htop]
    exact and_iff_left hnot

theorem deleteUserGroup_tree : Forest (st.deleteUserGroup top) where
  named := by
    apply eq_none_iff_forall_ne_some.mpr
    intro g hg
    exact absurd ((deleteUserGroup_groups htree htop "" g).mp hg).1 (by rw [htree.named]; nofun)
  root := fun id g hg => htree.root id g ((deleteUserGroup_groups htree htop id g).mp hg).1
  parent := by
    intro id g tier hg htier
    obtain ⟨hg,hnot⟩ := (deleteUserGroup_groups htree htop id g).mp hg
    obtain ⟨q,hq,hqt⟩ := htree.parent id g tier hg htier
    exact ⟨q,(deleteUserGroup_groups htree htop _ q).mpr ⟨hq,fun hp => hnot (hp.tail ⟨g,hg,rfl⟩)⟩,hqt⟩
  member := by
    intro id v hm
    obtain ⟨m,hm⟩ := isSome_iff_exists.mp hm
    obtain ⟨hm,hnot⟩ := (deleteUserGroup_members htree htop id v m).mp hm
    obtain ⟨g,hg⟩ := isSome_iff_exists.mp (htree.member id v (hm ▸ rfl))
    rw [(deleteUserGroup_groups htree htop id g).mpr ⟨hg,hnot⟩]
    rfl
  manager := by
    intro id v hm
    obtain ⟨m,hm⟩ := isSome_iff_exists.mp hm
    obtain ⟨hm,hnot⟩ := (deleteUserGroup_managers htree htop id v m).mp hm
    obtain ⟨g,hg⟩ := isSome_iff_exists.mp (htree.manager id v (hm ▸ rfl))
    rw [(deleteUserGroup_groups htree htop id g).mpr ⟨hg,hnot⟩]
    rfl

theorem deleteUserGroup_kept (userID : String) : Kept userID st (st.deleteUserGroup top) where
  group := fun id g hg => ⟨g,((deleteUserGroup_groups htree htop id g).mp hg).1,rfl,rfl,.inl rfl⟩
  member := fun _ v _ hid => (deleteUserGroup_rows htree htop hid v).1
  manager := fun _ v _ hid => (deleteUserGroup_rows htree htop hid v).2
  ownMember := by
    intro id
    cases hm : (st.deleteUserGroup top).members.lookup (id,userID) with
    | none => exact .inl rfl
    | some m => exact .inr (((deleteUserGroup_members htree htop id userID m).mp hm).1).symm
  ownManager := by
    intro id
    cases hm : (st.deleteUserGroup top).managers.lookup (id,userID) with
    | none => exact .inl rfl
    | some m => exact .inr (((deleteUserGroup_managers htree htop id userID m).mp hm).1).symm

end delete

section departures

variable {users : Users} {userID : String} {within : String → Prop}

theorem departure_tree_kept {st : Store} (htree : Forest st)
    (h : Departure users userID within st st') : Forest st' ∧ Kept userID st st' := by
  cases h with
  | drop id hin hbelow => exact ⟨dropUser_tree htree id userID,dropUser_kept st id userID⟩
  | succeed id g successor hin hg htier howner hsuccessor =>
    exact ⟨updateUserGroup_tree htree _ _ _,setGroupOwner_kept hg howner successor⟩
  | orphan id g hin hg htier howner =>
    exact ⟨updateUserGroup_tree htree _ _ _,setGroupOwner_kept hg howner ""⟩
  | close id g hin hg htier hreason =>
    exact ⟨deleteUserGroup_tree htree hg,deleteUserGroup_kept htree hg userID⟩

theorem departures_tree_kept {st : Store} (htree : Forest st)
    (h : Departures users userID within st st') : Forest st' ∧ Kept userID st st' := by
  induction h with
  | refl => exact ⟨htree,Kept.refl userID st⟩
  | tail _ hstep ih =>
    obtain ⟨htree',hkept⟩ := departure_tree_kept ih.1 hstep
    exact ⟨htree',ih.2.trans hkept⟩

/-! ### Succession -/

theorem firstSuccessor_some {v : String} {candidates : List String}
    (h : firstSuccessor eligible ownerID candidates = some v) :
    v ∈ candidates ∧ v ≠ ownerID ∧ eligible v := by
  have hp := find?_some h
  rw [Bool.and_eq_true, decide_eq_true_eq] at hp
  exact ⟨mem_of_find?_eq_some h,hp.1,hp.2⟩

theorem firstSuccessor_none {candidates : List String}
    (h : firstSuccessor eligible ownerID candidates = none) (v : String) (hv : v ∈ candidates)
    (hne : v ≠ ownerID) : eligible v = false := by
  have hp := find?_eq_none.mp h v hv
  rw [Bool.and_eq_true, decide_eq_true_eq, not_and, Bool.not_eq_true] at hp
  exact hp hne

/-- Nobody inside is eligible once the two lists of insiders are exhausted. -/
theorem no_insider {st : Store}
    (hmanagers : firstSuccessor eligible ownerID (st.userGroupManagers id) = none)
    (hmembers : firstSuccessor eligible ownerID (st.fullMembers id) = none) (v : String)
    (hv : Insider st id v) (hne : v ≠ ownerID) : eligible v = false := by
  rcases hv with hv | hv
  · exact firstSuccessor_none hmanagers v ((mem_userGroupManagers st id v).mpr hv) hne
  · exact firstSuccessor_none hmembers v ((mem_fullMembers st id v).mpr hv) hne

theorem succeedOwner_departure {st : Store} (hin : within id) (hg : st.groups.lookup id = some g)
    (htier : g.tier ≠ .system) (howner : g.ownerUserID = userID) :
    Departure users userID within st (succeedOwner users st id g) := by
  -- a successor from inside the group takes it over
  have inside {l : List String} (hl : ∀ v ∈ l, Insider st id v) {v : String}
      (h : firstSuccessor (eligibleFor users g.tier) g.ownerUserID l = some v) :
      Departure users userID within st (setGroupOwner st id g v) := by
    obtain ⟨hv,hne,he⟩ := firstSuccessor_some h
    exact .succeed id g v hin hg htier howner ⟨hne,he,.inl (hl v hv)⟩
  have managers v (hv : v ∈ st.userGroupManagers id) : Insider st id v :=
    .inl ((mem_userGroupManagers st id v).mp hv)
  have members v (hv : v ∈ st.fullMembers id) : Insider st id v :=
    .inr ((mem_fullMembers st id v).mp hv)
  cases ht : g.tier with
  | system => exact absurd ht htier
  | user =>
    have helig : eligibleFor users g.tier = eligibleUserGroupSuccessor users := by rw [ht]; rfl
    rw [succeedOwner, ht]
    dsimp only
    rw [succeedUserGroupOwner]
    cases hmanagers : firstSuccessor (eligibleUserGroupSuccessor users) g.ownerUserID
        (st.userGroupManagers id) with
    | some v => exact inside managers (helig ▸ hmanagers)
    | none =>
      dsimp only
      cases hmembers : firstSuccessor (eligibleUserGroupSuccessor users) g.ownerUserID
          (st.fullMembers id) with
      | some v => exact inside members (helig ▸ hmembers)
      | none => exact .close id g hin hg htier (.inl howner)
  | admin =>
    have helig : eligibleFor users g.tier = eligibleAdminGroupSuccessor users := by rw [ht]; rfl
    rw [succeedOwner, ht]
    dsimp only
    rw [succeedAdminGroupOwner]
    cases hmanagers : firstSuccessor (eligibleAdminGroupSuccessor users) g.ownerUserID
        (st.userGroupManagers id) with
    | some v => exact inside managers (helig ▸ hmanagers)
    | none =>
      dsimp only
      cases hmembers : firstSuccessor (eligibleAdminGroupSuccessor users) g.ownerUserID
          (st.fullMembers id) with
      | some v => exact inside members (helig ▸ hmembers)
      | none =>
        dsimp only
        cases hparents : firstSuccessor (eligibleAdminGroupSuccessor users) g.ownerUserID
            (if g.parentGroupID ≠ "" then st.fullMembers g.parentGroupID else []) with
        | some v =>
          obtain ⟨hv,hne,he⟩ := firstSuccessor_some hparents
          have hmem : v ∈ st.fullMembers g.parentGroupID := by
            split at hv
            · exact hv
            · exact absurd hv not_mem_nil
          exact .succeed id g v hin hg htier howner ⟨hne,helig ▸ he,.inr
            ⟨ht,(mem_fullMembers st _ v).mp hmem,no_insider hmanagers hmembers⟩⟩
        | none =>
          dsimp only
          split
          · exact .close id g hin hg htier (.inl howner)
          · exact .orphan id g hin hg ht howner

theorem settleGroup_departures {st : Store} (hin : within id) (hg : st.groups.lookup id = some g) :
    Departures users userID within st (settleGroup users userID st id g) := by
  rw [settleGroup]
  split
  · exact .refl
  next htier =>
  split
  · next howner => exact .single (succeedOwner_departure hin hg htier howner.2)
  split
  · next hnone =>
    rw [deleteIfOwnerlessAndEmpty]
    split
    · next hempty =>
      refine .single (.close id g hin hg htier (.inr ⟨hnone,?_⟩))
      intro v
      rw [Bool.eq_false_iff]
      intro hv
      rw [List.isEmpty_iff] at hempty
      have hmem := (mem_fullMembers st id v).mpr hv
      rw [hempty] at hmem
      exact absurd hmem not_mem_nil
    · exact .refl
  · exact .refl

/-! ### The cascade -/

theorem gone_of_missing {st : Store} (htree : Forest st) (hid : st.groups.lookup id = none) :
    Gone st userID id := by
  constructor
  · by_contra hsome
    have hg := htree.member id userID (isSome_iff_ne_none.mpr hsome)
    rw [hid] at hg
    exact absurd hg Bool.false_ne_true
  · by_contra hsome
    have hg := htree.manager id userID (isSome_iff_ne_none.mpr hsome)
    rw [hid] at hg
    exact absurd hg Bool.false_ne_true

/-- A child stands one tier below its parent. -/
theorem tiersAbove_child {st : Store} (htree : Forest st) {c : String} (hid : id ≠ "")
    (hc : st.groups.lookup c = some g) (hparent : g.parentGroupID = id) :
    ∃ q, st.groups.lookup id = some q ∧ tiersAbove g.tier = tiersAbove q.tier + 1 := by
  cases ht : g.tier with
  | system => exact absurd (hparent.symm.trans (htree.root c g hc ht)) hid
  | admin =>
    obtain ⟨q,hq,hqt⟩ := htree.parent c g .system hc (by rw [ht]; rfl)
    exact ⟨q,hparent ▸ hq,by rw [hqt]; rfl⟩
  | user =>
    obtain ⟨q,hq,hqt⟩ := htree.parent c g .admin hc (by rw [ht]; rfl)
    exact ⟨q,hparent ▸ hq,by rw [hqt]; rfl⟩

/-- The children one after the other, each with all below it. -/
theorem fold_departures (st : Store) (visit : String → Store → Store) (children : List String)
    (hvisit : ∀ c ∈ children, ∀ s, Forest s → Kept userID st s →
      Departures users userID within s (visit c s) ∧ Gone (visit c s) userID c)
    (s : Store) (htree : Forest s) (hkept : Kept userID st s) :
    Departures users userID within s (children.foldl (fun s c => visit c s) s) ∧
      ∀ c ∈ children, Gone (children.foldl (fun s c => visit c s) s) userID c := by
  induction children generalizing s with
  | nil => exact ⟨.refl,nofun⟩
  | cons c children ih =>
    obtain ⟨hfirst,hgone⟩ := hvisit c (by simp) s htree hkept
    obtain ⟨htree',hkept'⟩ := departures_tree_kept htree hfirst
    obtain ⟨hrest,hothers⟩ := ih (fun d hd => hvisit d (mem_cons_of_mem _ hd)) (visit c s) htree'
      (hkept.trans hkept')
    refine ⟨hfirst.trans hrest,?_⟩
    intro d hd
    rcases mem_cons.mp hd with rfl | hd
    · exact (departures_tree_kept htree' hrest).2.gone hgone
    · exact hothers d hd

theorem cascade_departures (n : ℕ) (id : String) (st : Store) (htree : Forest st) (hid : id ≠ "")
    (hfuel : ∀ g, st.groups.lookup id = some g → 3 ≤ n + tiersAbove g.tier)
    (hwithin : ∀ d, Under st id d → within d) :
    Departures users userID within st (removeMemberCascade users userID n id st) ∧
      Gone (removeMemberCascade users userID n id st) userID id := by
  induction n generalizing id st with
  | zero =>
    refine ⟨.refl,gone_of_missing htree ?_⟩
    apply eq_none_iff_forall_ne_some.mpr
    intro g hg
    have hle := hfuel g hg
    have hmax : tiersAbove g.tier ≤ 2 := by cases g.tier <;> decide
    omega
  | succ n ih =>
    rw [removeMemberCascade]
    have hvisit : ∀ c ∈ (st.childUserGroups id).map Sigma.fst, ∀ s, Forest s → Kept userID st s →
        Departures users userID within s (removeMemberCascade users userID n c s) ∧
          Gone (removeMemberCascade users userID n c s) userID c := by
      intro c hc s htrees hkept
      obtain ⟨⟨c,gc⟩,hmem,rfl⟩ := mem_map.mp hc
      obtain ⟨hgc,hparent⟩ := (mem_childUserGroups st id c gc).mp hmem
      apply ih c s htrees (ne_empty_of_lookup htree hgc)
      · intro g hg
        obtain ⟨g0,hg0,htier,-⟩ := hkept.group c g hg
        obtain rfl := some.inj (hgc.symm.trans hg0)
        obtain ⟨q,hq,hstep⟩ := tiersAbove_child htree hid hgc hparent
        have := hfuel q hq
        rw [htier]
        omega
      · intro d hd
        exact hwithin d ((hkept.under hd).head ⟨gc,hgc,hparent⟩)
    obtain ⟨hchildren,hgone⟩ := fold_departures st (removeMemberCascade users userID n) _ hvisit st htree
      (Kept.refl userID st)
    rw [foldl_map] at hchildren hgone
    generalize (st.childUserGroups id).foldl
      (fun s c => removeMemberCascade users userID n c.1 s) st = s at hchildren hgone ⊢
    obtain ⟨htree',hkept⟩ := departures_tree_kept htree hchildren
    cases hg : s.groups.lookup id with
    | none => exact ⟨hchildren,gone_of_missing htree' hg⟩
    | some g =>
      have hin : within id := hwithin id .refl
      have hbelow : ∀ c, IsParent s id c → Gone s userID c := by
        intro c hc
        obtain ⟨gc,hgc,hparent⟩ := hkept.isParent hc
        exact hgone c (mem_map_of_mem ((mem_childUserGroups st id c gc).mpr ⟨hgc,hparent⟩))
      have hdrop : Departure users userID within s (s.dropUser id userID) := .drop id hin hbelow
      have hsettle : Departures users userID within (s.dropUser id userID)
          (settleGroup users userID (s.dropUser id userID) id g) := settleGroup_departures hin hg
      refine ⟨(hchildren.tail hdrop).trans hsettle,?_⟩
      apply (departures_tree_kept (departure_tree_kept htree' hdrop).1 hsettle).2.gone
      constructor
      · rw [dropUser_members, if_pos ⟨rfl,rfl⟩]
      · rw [dropUser_managers, if_pos ⟨rfl,rfl⟩]

/-! ### New owners for all groups of a user -/

theorem under_tiers {st : Store} (htree : Forest st) {top : String} {h : UserGroup}
    (hg : st.groups.lookup top = some g) (hh : st.groups.lookup i = some h)
    (hunder : Under st top i) : i = top ∨ tiersAbove g.tier < tiersAbove h.tier := by
  induction hunder generalizing h with
  | refl => exact .inl rfl
  | @tail b c hab hbc ih =>
    obtain ⟨h',hh',hparent⟩ := hbc
    obtain rfl := some.inj (hh.symm.trans hh')
    have hb : b ≠ "" := by
      rintro rfl
      exact ne_empty_of_lookup htree hg (eq_of_under_missing htree.named hab)
    obtain ⟨q,hq,hstep⟩ := tiersAbove_child htree hb hh hparent
    right
    rcases ih hq with rfl | hlt
    · obtain rfl := some.inj (hg.symm.trans hq)
      omega
    · omega

theorem succeedOwner_other {st : Store} (htree : Forest st) {h : UserGroup}
    (hg : st.groups.lookup id = some g) (htier : g.tier ≠ .system)
    (hh : st.groups.lookup i = some h) (hne : i ≠ id) (hsame : h.tier = g.tier) :
    (succeedOwner users st id g).groups.lookup i = some h := by
  have hstep : Departure users g.ownerUserID (· = id) st (succeedOwner users st id g) :=
    succeedOwner_departure rfl hg htier rfl
  generalize succeedOwner users st id g = st' at hstep
  cases hstep with
  | drop d hin hbelow => exact hh
  | succeed d gd successor hin hgd htd howner hsuccessor =>
    subst hin
    rw [setGroupOwner, lookup_updateUserGroup, if_neg hne, hh]
  | orphan d gd hin hgd htd howner =>
    subst hin
    rw [setGroupOwner, lookup_updateUserGroup, if_neg hne, hh]
  | close d gd hin hgd htd hreason =>
    subst hin
    refine (deleteUserGroup_groups htree hg i h).mpr ⟨hh,fun hunder => ?_⟩
    rcases under_tiers htree hg hh hunder with heq | hlt
    · exact hne heq
    · rw [hsame] at hlt
      exact lt_irrefl _ hlt

theorem successions_departures (tier : Tier) (htier : tier ≠ .system)
    (owned : List (Sigma fun _ : String => UserGroup)) (hids : (owned.map Sigma.fst).Nodup) (st : Store)
    (htree : Forest st)
    (howned : ∀ e ∈ owned, st.groups.lookup e.1 = some e.2 ∧ e.2.tier = tier ∧ e.2.ownerUserID = userID) :
    Departures users userID (fun _ => True) st
      (owned.foldl (fun st g => succeedOwner users st g.1 g.2) st) := by
  induction owned generalizing st with
  | nil => exact .refl
  | cons e owned ih =>
    obtain ⟨hg,ht,howner⟩ := howned e (by simp)
    obtain ⟨hnew,hids⟩ := nodup_cons.mp hids
    have hsys : e.2.tier ≠ .system := ht ▸ htier
    have hstep : Departure users userID (fun _ => True) st (succeedOwner users st e.1 e.2) :=
      succeedOwner_departure trivial hg hsys howner
    apply Relation.ReflTransGen.head hstep
    apply ih hids _ (departure_tree_kept htree hstep).1
    intro d hd
    obtain ⟨hgd,htd,hod⟩ := howned d (mem_cons_of_mem _ hd)
    refine ⟨succeedOwner_other htree hg hsys hgd ?_ (htd.trans ht.symm),htd,hod⟩
    intro heq
    exact hnew (heq ▸ mem_map_of_mem hd)

theorem listGroups_nodup (st : Store) (p : String → UserGroup → Bool) :
    ((st.listGroups p).map Sigma.fst).Nodup := by
  have hfiltered : ((st.groups.entries.filter fun e => p e.1 e.2).map Sigma.fst).Nodup :=
    (filter_sublist.map Sigma.fst).nodup st.groups.nodupKeys
  exact ((perm_insertionSort byName _).map Sigma.fst).nodup_iff.mpr hfiltered

theorem reassignTier_departures {st : Store} (htree : Forest st) {tier : Tier} (htier : tier ≠ .system) :
    Departures users userID (fun _ => True) st (reassignTier users userID st tier) := by
  apply successions_departures tier htier
  · exact (filter_sublist.map Sigma.fst).nodup (listGroups_nodup st _)
  · exact htree
  · rintro ⟨i,g⟩ he
    obtain ⟨hmem,howner⟩ := mem_filter.mp he
    obtain ⟨hg,ht⟩ := (mem_listGroups st _ i g).mp hmem
    exact ⟨hg,of_decide_eq_true ht,of_decide_eq_true howner⟩

theorem reassign_departures {st : Store} (htree : Forest st) :
    Departures users userID (fun _ => True) st
      ([Tier.admin,Tier.user].foldl (reassignTier users userID) st) := by
  have hadmin : Departures users userID (fun _ => True) st (reassignTier users userID st .admin) :=
    reassignTier_departures htree nofun
  exact hadmin.trans (reassignTier_departures (departures_tree_kept htree hadmin).1 nofun)

end departures

end OnPremGateway.GroupDepartures
