import OnPremGateway.GroupContainment

/-!
# Owners

Whoever becomes the owner of an admin or user group should be able to own it: an
active account, that of an administrator for an admin group, and a full member.
Creating a group for another and most successions see to it; handing a group over
and founding one's own do not look at the account, and a successor from the system
group above is not enrolled.
-/

set_option autoImplicit false

namespace OnPremGateway.GroupOwners
open UserGroups GroupTree GroupDepartures Bool AList
open GroupChanges GroupContainment

structure Fit (users : Users) (st : Store) (id : String) (g : UserGroup) : Prop where
  eligible : eligibleFor users g.tier g.ownerUserID
  member : st.memberIDSet id g.ownerUserID

def ActsThrough (users : Users) (st : Store) (id : String) (g : UserGroup) : Prop :=
  g.tier = .admin → ∀ p : Principal, p.userID = g.ownerUserID →
    (∀ can, id ∈ manageGroupIDs st p can) ∧
      (p.isSystem = false → ∀ v, st.memberIDSet id v → manageableUserIDs users st p v)

structure NewOwner (st st' : Store) (id : String) (g : UserGroup) : Prop where
  group : st'.groups.lookup id = some g
  tier : g.tier ≠ .system
  owned : g.ownerUserID ≠ ""
  changed : ∀ g0, st.groups.lookup id = some g0 → g0.ownerUserID ≠ g.ownerUserID

variable {users : Users} {st st' : Store} {id : String} {g : UserGroup} {p : Principal} {c : Call}
  {w : World}

theorem Fit.actsThrough (h : Fit users st id g) (hg : st.groups.lookup id = some g)
    (howned : g.ownerUserID ≠ "") : ActsThrough users st id g := by
  intro htier p hp
  have hreach : ∀ can, id ∈ manageGroupIDs st p can := by
    intro can
    rw [manageGroupIDs, List.mem_map]
    refine ⟨⟨id,g⟩,?_,rfl⟩
    rw [List.mem_filter, mem_userGroupsForUser]
    refine ⟨⟨hg,htier,?_⟩,?_⟩
    · rw [hp]
      exact stateIn_eq_member.mp h.member
    · rw [or_eq_true, decide_eq_true_eq]
      exact .inl ⟨howned,hp.symm⟩
  refine ⟨hreach,?_⟩
  intro hsystem v hv
  rw [manageableUserIDs, hsystem, if_neg Bool.false_ne_true, decide_eq_true_eq]
  exact .inr ⟨id,hreach _,hv⟩

/-! ### Successions -/

/-- The departing owner of an admin group finds a successor inside, or the system
group above has none either. -/
def FindsInside (users : Users) (st : Store) (userID id : String) (g : UserGroup) : Prop :=
  (∃ v, v ≠ userID ∧ eligibleAdminGroupSuccessor users v ∧ Insider st id v) ∨
    ∀ v, v ≠ userID → st.memberIDSet g.parentGroupID v → eligibleAdminGroupSuccessor users v = false

section departures

variable {users : Users} {userID : String} {within : String → Prop} {st s s' : Store}

theorem Fit.of_row (h : Fit users s id g)
    (hrow : s'.members.lookup (id,g.ownerUserID) = s.members.lookup (id,g.ownerUserID)) :
    Fit users s' id g :=
  ⟨h.eligible,(memberIDSet_congr hrow).trans h.member⟩

def OwnersSince (users : Users) (userID : String) (st s : Store) : Prop :=
  ∀ id g, s.groups.lookup id = some g → g.tier ≠ .system → g.ownerUserID ≠ "" →
    (∃ g0, st.groups.lookup id = some g0 ∧ g0.ownerUserID = g.ownerUserID) ∨
      g.ownerUserID ≠ userID ∧ Fit users s id g

theorem setGroupOwner_ownersSince (h : OwnersSince users userID st s) {d owner : String}
    (hg : s.groups.lookup d = some g)
    (howner : owner = "" ∨ owner ≠ userID ∧ eligibleFor users g.tier owner ∧ s.memberIDSet d owner) :
    OwnersSince users userID st (setGroupOwner s d g owner) := by
  intro id g' hg' htier howned
  obtain ⟨g1,hg1,ht,-,ho⟩ := updateUserGroup_group hg'
  by_cases hid : id = d
  · subst hid
    obtain rfl := Option.some.inj (hg.symm.trans hg1)
    rw [if_pos rfl] at ho
    rcases howner with hempty | ⟨hother,heligible,hmember⟩
    · exact absurd (ho.trans hempty) howned
    refine .inr ⟨ho ▸ hother,?_,?_⟩
    · rw [ht, ho]
      exact heligible
    · rw [ho, setGroupOwner, updateUserGroup_memberIDSet]
      exact hmember
  · rw [if_neg hid] at ho
    rcases h id g1 hg1 (ht ▸ htier) (ho ▸ howned) with hsame | ⟨hother,hfit⟩
    · rw [ho]
      exact .inl hsame
    refine .inr ⟨ho ▸ hother,?_,?_⟩
    · rw [ht, ho]
      exact hfit.eligible
    · rw [ho, setGroupOwner, updateUserGroup_memberIDSet]
      exact hfit.member

/-- A successor is a full member when the search ends inside. -/
theorem successor_member (hinside : ManagersInside s) (hs : Forest s) (hkept : Kept userID st s)
    (hfinds : ∀ d g, within d → st.groups.lookup d = some g → g.tier = .admin → g.ownerUserID = userID →
      FindsInside users st userID d g) {d successor : String} (hin : within d)
    (hg : s.groups.lookup d = some g) (htier : g.tier ≠ .system) (howner : g.ownerUserID = userID)
    (hsuccessor : Successor users s d g successor) : s.memberIDSet d successor := by
  rcases hsuccessor.source with (hmanager | hmember) | ⟨hadmin,habove,hnone⟩
  · exact hinside d g successor hg htier hmanager
  · exact hmember
  · obtain ⟨g0,hg0,ht,hparent,ho⟩ := hkept.group d g hg
    have howner0 : g0.ownerUserID = userID := by
      rcases ho with heq | heq
      · exact heq.symm.trans howner
      · exact heq
    have heligible := hsuccessor.eligible
    rw [hadmin, eligibleFor] at heligible
    rcases hfinds d g0 hin hg0 (ht.symm.trans hadmin) howner0 with ⟨v,hv,hel,hinsider⟩ | hnobody
    · have hfalse := hnone v ((hkept.insider (hg ▸ rfl) hv).mpr hinsider) (howner ▸ hv)
      rw [hel] at hfalse
      exact absurd hfalse.symm false_ne_true
    obtain ⟨q,hq,-⟩ := hs.parent d g .system hg (by rw [hadmin]; rfl)
    have hother : successor ≠ userID := howner ▸ hsuccessor.other
    rw [memberIDSet_congr (hkept.member _ _ hother (hq ▸ rfl)), hparent] at habove
    rw [hnobody successor hother habove] at heligible
    exact absurd heligible false_ne_true

theorem departure_ownersSince (hs : Forest s) (hinside : ManagersInside s) (hkept : Kept userID st s)
    (hfinds : ∀ d g, within d → st.groups.lookup d = some g → g.tier = .admin → g.ownerUserID = userID →
      FindsInside users st userID d g)
    (h : OwnersSince users userID st s) (hstep : Departure users userID within s s') :
    OwnersSince users userID st s' := by
  cases hstep with
  | drop d hin hbelow =>
    intro id g hg htier howned
    rcases h id g hg htier howned with hsame | ⟨hother,hfit⟩
    · exact .inl hsame
    · refine .inr ⟨hother,hfit.of_row ?_⟩
      rw [dropUser_members, if_neg fun heq => hother heq.2]
  | succeed d g successor hin hg htier howner hsuccessor =>
    exact setGroupOwner_ownersSince h hg (.inr ⟨howner ▸ hsuccessor.other,hsuccessor.eligible,
      successor_member hinside hs hkept hfinds hin hg htier howner hsuccessor⟩)
  | orphan d g hin hg htier howner => exact setGroupOwner_ownersSince h hg (.inl rfl)
  | close d g hin hg htier hreason =>
    intro id gi hgi hti howned
    rcases h id gi ((deleteUserGroup_groups hs hg id gi).mp hgi).1 hti howned with hsame | ⟨hother,hfit⟩
    · exact .inl hsame
    · exact .inr ⟨hother,hfit.of_row (deleteUserGroup_rows hs hg (hgi ▸ rfl) _).1⟩

theorem departures_ownersSince (hst : Forest st) (hinside : ManagersInside st)
    (hfinds : ∀ d g, within d → st.groups.lookup d = some g → g.tier = .admin → g.ownerUserID = userID →
      FindsInside users st userID d g)
    (h : Departures users userID within st s) :
    Forest s ∧ ManagersInside s ∧ Kept userID st s ∧ OwnersSince users userID st s := by
  induction h with
  | refl => exact ⟨hst,hinside,Kept.refl userID st,fun id g hg _ _ => .inl ⟨g,hg,rfl⟩⟩
  | tail _ hstep ih =>
    obtain ⟨hforest,hin,hkept,hsince⟩ := ih
    obtain ⟨hforest',hkept'⟩ := departure_tree_kept hforest hstep
    exact ⟨hforest',departure_managersInside hforest hin hstep,hkept.trans hkept',
      departure_ownersSince hforest hin hkept hfinds hsince hstep⟩

theorem OwnersSince.fit (h : OwnersSince users userID st s) (hnew : NewOwner st s id g) :
    Fit users s id g := by
  rcases h id g hnew.group hnew.tier hnew.owned with ⟨g0,hg0,heq⟩ | ⟨-,hfit⟩
  · exact absurd heq (hnew.changed g0 hg0)
  · exact hfit

end departures

/-! ### Other changes -/

/-- Owners change where a group is founded or handed over. -/
theorem change_owner (htree : Forest st) (h : Change users p c st st')
    (hg : st'.groups.lookup id = some g) :
    (∃ g0, st.groups.lookup id = some g0 ∧ g0.ownerUserID = g.ownerUserID) ∨
      (CreatesAs c id ∧ (g.tier = .system ∨ OwnerAsked users p c g ∧ st'.memberIDSet id g.ownerUserID)) ∨
      (c = .transferOwnership id g.ownerUserID ∧ (st.managers.lookup (id,g.ownerUserID)).isSome ∧
        st'.members = st.members ∧ ∃ g0, st.groups.lookup id = some g0 ∧ g0.tier = g.tier) := by
  cases h with
  | root d name hasked hid hnew =>
    by_cases heq : id = d
    · subst heq
      rw [lookup_insert] at hg
      cases hg
      exact .inr (.inl ⟨hasked,.inl rfl⟩)
    · rw [lookup_insert_ne heq] at hg
      exact .inl ⟨g,hg,rfl⟩
  | found d g' q now hasked hid hnew hq htier hmember howner =>
    change (st.groups.insert d g').lookup id = some g at hg
    by_cases heq : id = d
    · subst heq
      rw [lookup_insert] at hg
      cases hg
      refine .inr (.inl ⟨hasked,.inr ⟨howner,?_⟩⟩)
      rw [stateIn_eq_member, stateIn_setUserGroupMember, if_pos ⟨rfl,rfl⟩]
    · rw [lookup_insert_ne heq] at hg
      exact .inl ⟨g,hg,rfl⟩
  | rename d name g' hg' =>
    obtain ⟨g0,hg0,-,-,ho⟩ := updateUserGroup_group hg
    refine .inl ⟨g0,hg0,?_⟩
    rw [ho]
    split
    · next heq =>
      subst heq
      rw [Option.some.inj (hg'.symm.trans hg0)]
    · rfl
  | delete d g' hg' hauth => exact .inl ⟨g,((deleteUserGroup_groups htree hg' id g).mp hg).1,rfl⟩
  | enrol d g' userID state invitedBy now hg' hin hstate => exact .inl ⟨g,hg,rfl⟩
  | accept d now hinvited => exact .inl ⟨g,hg,rfl⟩
  | decline d hinvited => exact .inl ⟨g,hg,rfl⟩
  | manage d g' userID row hg' htier howner hmember => exact .inl ⟨g,hg,rfl⟩
  | demote d g' userID hg' htier howner => exact .inl ⟨g,hg,rfl⟩
  | transfer d g' newOwnerID hg' htier howner hasked hmanager =>
    obtain ⟨g0,hg0,ht,-,ho⟩ := updateUserGroup_group hg
    by_cases heq : id = d
    · subst heq
      rw [if_pos rfl] at ho
      subst ho
      exact .inr (.inr ⟨hasked,hmanager,updateUserGroup_members _ _ _ _,g0,hg0,ht.symm⟩)
    · rw [if_neg heq] at ho
      exact .inl ⟨g0,hg0,ho.symm⟩

/-- The calls that enrol users leave every owner as it is. -/
theorem enrols_owner (henrols : Enrols c) (htree : Forest st) (h : Changes users p c st st') :
    Forest st' ∧ ∀ id g, st'.groups.lookup id = some g →
      ∃ g0, st.groups.lookup id = some g0 ∧ g0.ownerUserID = g.ownerUserID := by
  induction h with
  | refl => exact ⟨htree,fun id g hg => ⟨g,hg,rfl⟩⟩
  | tail _ hstep ih =>
    obtain ⟨hforest,howners⟩ := ih
    refine ⟨change_forest hforest hstep,?_⟩
    intro id g hg
    rcases change_owner hforest hstep hg with ⟨g1,hg1,heq⟩ | ⟨⟨hex,input,rfl,-⟩,-⟩ | ⟨rfl,-⟩
    · obtain ⟨g0,hg0,heq0⟩ := howners id g1 hg1
      exact ⟨g0,hg0,heq0.trans heq⟩
    · exact absurd henrols false_ne_true
    · exact absurd henrols false_ne_true

/-! ### Runs -/

/-- Founding one's own group and handing one over look at the new owner's account,
and every admin group whose owner leaves finds a successor inside. -/
def ChecksOwner (w : World) (p : Principal) : Call → Prop
  | .createGroup _ input =>
    (input.tier = some .admin → SelfOwned p input → eligibleAdminGroupSuccessor w.users p.userID) ∧
      (input.tier = some .user → eligibleUserGroupSuccessor w.users p.userID)
  | .transferOwnership id newOwnerID =>
    ∀ g, w.store.groups.lookup id = some g → eligibleFor w.users g.tier newOwnerID
  | .removeGroupMember id userID =>
    ∀ d g, Under w.store id d → w.store.groups.lookup d = some g → g.tier = .admin →
      g.ownerUserID = userID → FindsInside w.users w.store userID d g
  | .reassignGroupsOwnedBy userID =>
    ∀ d g, w.store.groups.lookup d = some g → g.tier = .admin → g.ownerUserID = userID →
      FindsInside w.users w.store userID d g
  | _ => True

section runs

variable (equalFold : String → String → Bool)

/-- A call that is accepted checks the owners it makes. -/
def OwnersChecked (w : World) : Op → Prop
  | .setUser _ _ => True
  | .call p now c => ∀ st, exec equalFold w.users w.store p now c = .ok st → ChecksOwner w p c

/-- Whoever an operation makes an owner can own the group and act through it. -/
def OwnersFit (w : World) (op : Op) : Prop :=
  ∀ id g, NewOwner w.store (step equalFold w op).store id g →
    Fit w.users (step equalFold w op).store id g ∧ ActsThrough w.users (step equalFold w op).store id g

theorem change_fit (hw : Forest w.store) (hinside : ManagersInside w.store)
    (hchecked : ChecksOwner w p c) (h : Change w.users p c w.store st')
    (hnew : NewOwner w.store st' id g) : Fit w.users st' id g := by
  rcases change_owner hw h hnew.group with ⟨g0,hg0,heq⟩ | ⟨-,hsystem | ⟨howner,hmember⟩⟩ |
      ⟨rfl,hmanager,hmembers,g0,hg0,htier⟩
  · exact absurd heq (hnew.changed g0 hg0)
  · exact absurd hsystem hnew.tier
  · refine ⟨?_,hmember⟩
    rcases howner with ⟨heq,hex,input,rfl,hinput,hself⟩ | ⟨hadmin,heligible⟩
    · obtain ⟨hadmin,huser⟩ := hchecked
      rw [heq]
      cases ht : g.tier with
      | system => exact absurd ht hnew.tier
      | admin => exact hadmin (ht ▸ hinput) (hself ht)
      | user => exact huser (ht ▸ hinput)
    · rw [hadmin]
      exact heligible
  · refine ⟨htier ▸ hchecked g0 hg0,?_⟩
    have hmember := hinside id g0 _ hg0 (htier ▸ hnew.tier) hmanager
    exact (memberIDSet_congr (by rw [hmembers])).trans hmember

theorem step_ownersFit (hw : Forest w.store) (hinside : ManagersInside w.store) {op : Op}
    (hchecked : OwnersChecked equalFold w op) : OwnersFit equalFold w op := by
  intro id g hnew
  suffices hfit : Fit w.users (step equalFold w op).store id g from
    ⟨hfit,hfit.actsThrough hnew.group hnew.owned⟩
  cases op with
  | setUser userID user => exact absurd rfl (hnew.changed g hnew.group)
  | call p now c =>
    rw [step, call] at hnew ⊢
    cases hexec : exec equalFold w.users w.store p now c with
    | error e =>
      rw [hexec] at hnew
      exact absurd rfl (hnew.changed g hnew.group)
    | ok st =>
      rw [hexec] at hnew
      have hchecked := hchecked st hexec
      rcases exec_cases hw hexec with ⟨i,userID,rfl,-,h⟩ | ⟨userID,rfl,h⟩ | h | ⟨henrols,h⟩
      · obtain ⟨-,-,-,hsince⟩ := departures_ownersSince hw hinside hchecked h
        exact hsince.fit hnew
      · obtain ⟨-,-,-,hsince⟩ := departures_ownersSince hw hinside (fun d g _ => hchecked d g) h
        exact hsince.fit hnew
      · exact change_fit hw hinside hchecked h hnew
      · obtain ⟨g0,hg0,heq⟩ := (enrols_owner henrols hw h).2 id g hnew.group
        exact absurd heq (hnew.changed g0 hg0)

theorem step_managersInside (hw : Forest w.store) (hinside : ManagersInside w.store) (op : Op) :
    Forest (step equalFold w op).store ∧ ManagersInside (step equalFold w op).store := by
  refine run_invariant equalFold (P := fun _ _ => True) ?_ ?_ [op] w ⟨trivial,trivial⟩ hw hinside
  · exact fun _ _ _ _ _ _ _ _ htree h hchange => change_managersInside htree h hchange
  · exact fun _ _ _ _ _ htree h hdeparture => departure_managersInside htree h hdeparture

/-- Along every run whose operations check new owners, whoever becomes the owner of
an admin or user group is an active account, an administrator's for an admin group,
and a full member of the group. -/
theorem new_owners_fit (ops : List Op) (w : World) (hw : Forest w.store) (hinside : ManagersInside w.store)
    (hops : Along equalFold (OwnersChecked equalFold) w ops) :
    Along equalFold (OwnersFit equalFold) w ops := by
  induction ops generalizing w with
  | nil => exact trivial
  | cons op ops ih =>
    obtain ⟨hop,hops⟩ := hops
    obtain ⟨hforest,hin⟩ := step_managersInside equalFold hw hinside op
    exact ⟨step_ownersFit equalFold hw hinside hop,ih _ hforest hin hops⟩

end runs

section Handover

def dan : Principal := ⟨"dan",true,false⟩

def pair : List Op :=
  [.setUser "dan" (some ⟨.admin,.active⟩),
    .call sysadmin 0 (.createGroup "s" ⟨some .system,"s","",""⟩),
    .call sysadmin 1 (.addGroupMembers "ugrp_s" ["ann","dan"]),
    .call ann 2 (.createGroup "a" ⟨some .admin,"a","",""⟩),
    .call ann 3 (.addGroupMembers "ugrp_a" ["dan"]),
    .call ann 4 (.promoteManager "ugrp_a" "dan" allPermissions)]

def pairWorld : World := run (· == ·) ⟨staff,{}⟩ pair

theorem pairWorld_inside : Forest pairWorld.store ∧ ManagersInside pairWorld.store := by
  refine run_invariant (· == ·) (P := fun _ _ => True) ?_ ?_ pair ⟨staff,{}⟩
    (along_of_all _ (fun _ _ => trivial) pair _) empty_forest nofun
  · exact fun _ _ _ _ _ _ _ _ htree h hchange => change_managersInside htree h hchange
  · exact fun _ _ _ _ _ htree h hdeparture => departure_managersInside htree h hdeparture

end Handover

/-- The owner hands the group over and leaves it. -/
theorem new_owners_fit_pair : Along (· == ·) (OwnersFit (· == ·)) pairWorld
        [.call ann 5 (.transferOwnership "ugrp_a" "dan"),.call ann 6 (.removeGroupMember "ugrp_a" "ann")] ∧
      (run (· == ·) pairWorld [.call ann 5 (.transferOwnership "ugrp_a" "dan"),
          .call ann 6 (.removeGroupMember "ugrp_a" "ann")]).store.groups.lookup "ugrp_a" =
        some ⟨.admin,"a","ugrp_s","dan"⟩ := by
  constructor
  · apply new_owners_fit (· == ·) _ pairWorld pairWorld_inside.1 pairWorld_inside.2
    refine ⟨?_,?_,trivial⟩
    · intro _ _
      have hall : ∀ g ∈ pairWorld.store.groups.lookup "ugrp_a", eligibleFor pairWorld.users g.tier "dan" := by
        decide +kernel
      exact hall
    · intro _ _ d g _ hg _ howner
      have hall : ∀ e ∈ (step (· == ·) pairWorld
          (.call ann 5 (.transferOwnership "ugrp_a" "dan"))).store.groups.entries,
          e.2.ownerUserID ≠ "ann" := by
        decide +kernel
      exact absurd howner (hall ⟨d,g⟩ (mem_lookup_iff.mp hg))
  · decide +kernel

/-- Handed over to a co-manager who is no administrator any more, the admin group
belongs to a plain user; when its owner is disabled, it goes to an administrator
outside it, who cannot act through it. -/
theorem owners_unfit : ((run (· == ·) pairWorld [.setUser "dan" (some ⟨.user,.active⟩),
          .call ann 5 (.transferOwnership "ugrp_a" "dan")]).store.groups.lookup "ugrp_a" =
        some ⟨.admin,"a","ugrp_s","dan"⟩ ∧
      eligibleFor (run (· == ·) pairWorld [.setUser "dan" (some ⟨.user,.active⟩)]).users
        .admin "dan" = false) ∧
    let w := run (· == ·) pairWorld [.call ann 5 (.removeGroupMember "ugrp_a" "dan"),
      .setUser "ann" (some ⟨.admin,.disabled⟩),.call sysadmin 6 (.reassignGroupsOwnedBy "ann")]
    w.store.groups.lookup "ugrp_a" = some ⟨.admin,"a","ugrp_s","dan"⟩ ∧
      w.store.memberIDSet "ugrp_a" "dan" = false ∧
      manageGroupIDs w.store dan ManagerPermissions.canManageUsers = [] := by
  decide +kernel

end OnPremGateway.GroupOwners
