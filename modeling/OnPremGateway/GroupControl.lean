import OnPremGateway.GroupContainment

/-!
# Control of a group

Promoting, demoting and handing over a group are for its owner. A principal who is
not the owner and manages nothing above the group leaves its owner and its
managers as they are, as long as the removals it makes spare them.
-/

set_option autoImplicit false

namespace OnPremGateway.GroupControl
open UserGroups GroupTree GroupDepartures Option Bool
open GroupChanges GroupContainment

def ownerOf (st : Store) (id : String) : String :=
  ((st.groups.lookup id).map UserGroup.ownerUserID).getD ""

/-- The owner and the managers of a group are as before, but for the user's own row. -/
structure Untouched (userID id : String) (st st' : Store) : Prop where
  owner : ownerOf st' id = ownerOf st id
  others : ∀ v, v ≠ userID → st'.managers.lookup (id,v) = st.managers.lookup (id,v)
  own : st'.managers.lookup (id,userID) = none ∨
    st'.managers.lookup (id,userID) = st.managers.lookup (id,userID)

/-- The principal owns neither the group nor a group above it, and manages none above. -/
structure Powerless (p : Principal) (id : String) (st : Store) : Prop where
  notOwner : ∀ i g, Under st i id → st.groups.lookup i = some g → g.tier ≠ .system →
    g.ownerUserID ≠ p.userID
  notManager : ∀ i g row, Under st i id → i ≠ id → st.groups.lookup i = some g → g.tier ≠ .system →
    st.managers.lookup (i,p.userID) = some row → row.perms.canManageGroup = false

/-- Nothing of a group is at stake for others: it has no owner and no manager but
the user. -/
def Abandoned (userID id : String) (st : Store) : Prop :=
  ownerOf st id = "" ∧ ∀ v, v ≠ userID → st.managers.lookup (id,v) = none

/-- A removal spares the owner and the managers of the group, and empties no group
without an owner that this one needs. -/
def Spares (p : Principal) (id : String) (st : Store) : Call → Prop
  | .removeGroupMember i userID =>
    (i = id → userID ≠ p.userID → ownerOf st id ≠ userID ∧ st.managers.lookup (id,userID) = none) ∧
      ∀ d g, Under st i d → Under st d id → st.groups.lookup d = some g → g.tier ≠ .system →
        g.ownerUserID = "" → (∃ v, v ≠ userID ∧ st.memberIDSet d v) ∨ Abandoned p.userID id st
  | .reassignGroupsOwnedBy _ => False
  | .createGroup hex _ => newGroupID hex ≠ id
  | _ => True

theorem Untouched.refl (userID id : String) (st : Store) : Untouched userID id st st :=
  ⟨rfl,fun _ _ => rfl,.inr rfl⟩

variable {d i id userID : String} {s st : Store} {g : UserGroup} {p : Principal}

theorem Untouched.trans {a b c : Store} (hab : Untouched userID id a b)
    (hbc : Untouched userID id b c) : Untouched userID id a c where
  owner := hbc.owner.trans hab.owner
  others := fun v hv => (hbc.others v hv).trans (hab.others v hv)
  own := by
    rcases hbc.own with h | h
    · exact .inl h
    · rw [h]
      exact hab.own

theorem ownerOf_eq (hg : st.groups.lookup id = some g) : ownerOf st id = g.ownerUserID := by
  rw [ownerOf, hg]
  rfl

theorem Untouched.of_same {st' : Store} (hgroup : st'.groups.lookup id = st.groups.lookup id)
    (hmanagers : ∀ v, st'.managers.lookup (id,v) = st.managers.lookup (id,v)) :
    Untouched userID id st st' where
  owner := by rw [ownerOf, hgroup, ownerOf]
  others := fun v _ => hmanagers v
  own := .inr (hmanagers userID)

/-- What keeps the owners and the principal's rows above keeps it powerless. -/
theorem Powerless.of_kept {st' : Store} (hpower : Powerless p id st) (hkept : Kept userID st st')
    (howner : ∀ i g g', Under st i id → st.groups.lookup i = some g → st'.groups.lookup i = some g' →
      g'.ownerUserID = g.ownerUserID)
    (hrows : ∀ i row, Under st i id → st'.managers.lookup (i,p.userID) = some row →
      st.managers.lookup (i,p.userID) = some row) : Powerless p id st' where
  notOwner := by
    intro i g hunder hg htier
    obtain ⟨g0,hg0,ht,-,-⟩ := hkept.group i g hg
    rw [howner i g0 g (hkept.under hunder) hg0 hg]
    exact hpower.notOwner i g0 (hkept.under hunder) hg0 (ht ▸ htier)
  notManager := by
    intro i g row hunder hne hg htier hrow
    obtain ⟨g0,hg0,ht,-,-⟩ := hkept.group i g hg
    exact hpower.notManager i g0 row (hkept.under hunder) hne hg0 (ht ▸ htier)
      (hrows i row (hkept.under hunder) hrow)

/-! ### Removals -/

structure Standing (userID id : String) (st s : Store) : Prop where
  untouched : Untouched userID id st s
  owner : ∀ d g g', Under st d id → st.groups.lookup d = some g → s.groups.lookup d = some g' →
    g'.ownerUserID = g.ownerUserID

section departures

variable {users : Users} {p : Principal} {id userID : String} {within : String → Prop} {st : Store}

structure Safe (p : Principal) (id userID : String) (within : String → Prop) (st : Store) : Prop where
  owner : ∀ d g, within d → Under st d id → st.groups.lookup d = some g → g.tier ≠ .system →
    g.ownerUserID ≠ userID
  empty : ∀ d g, within d → Under st d id → st.groups.lookup d = some g → g.tier ≠ .system →
    g.ownerUserID = "" → (∃ v, v ≠ userID ∧ st.memberIDSet d v) ∨ Abandoned p.userID id st
  manager : within id → userID = p.userID ∨ st.managers.lookup (id,userID) = none

theorem setGroupOwner_untouched (hd : ¬Under st d id) (s : Store) (owner : String) :
    Untouched p.userID id s (setGroupOwner s d g owner) := by
  apply Untouched.of_same
  · rw [setGroupOwner, lookup_updateUserGroup, if_neg]
    rintro rfl
    exact hd .refl
  · intro v
    rw [setGroupOwner, updateUserGroup_managers]

theorem deleteUserGroup_untouched (hs : Forest s) (hg : s.groups.lookup d = some g)
    (hd : ¬Under s d id) : Untouched p.userID id s (s.deleteUserGroup d) := by
  apply Untouched.of_same
  · apply ext
    intro q
    rw [deleteUserGroup_groups hs hg]
    exact and_iff_left hd
  intro v
  apply ext
  intro row
  rw [deleteUserGroup_managers hs hg]
  exact and_iff_left hd

theorem setGroupOwner_standing (h : Standing p.userID id st s) (hg : s.groups.lookup d = some g)
    (hd : ¬Under st d id) (owner : String) :
    Standing p.userID id st (setGroupOwner s d g owner) where
  untouched := h.untouched.trans (setGroupOwner_untouched hd s owner)
  owner := by
    intro e ge ge' hunder hge hge'
    obtain ⟨g1,hg1,-,-,howner⟩ := updateUserGroup_group hge'
    have hne : e ≠ d := by
      rintro rfl
      exact hd hunder
    rw [howner, if_neg hne]
    exact h.owner e ge g1 hunder hge hg1

theorem dropUser_standing (hsafe : Safe p id userID within st) (h : Standing p.userID id st s)
    (hin : within d) : Standing p.userID id st (s.dropUser d userID) where
  untouched := by
    refine ⟨h.untouched.owner,?_,?_⟩
    · intro v hv
      rw [dropUser_managers]
      split
      · next heq =>
        obtain ⟨rfl,rfl⟩ := heq
        rcases hsafe.manager hin with hp | hnone
        · exact absurd hp hv
        · exact hnone.symm
      · exact h.untouched.others v hv
    · rw [dropUser_managers]
      split
      · exact .inl rfl
      · exact h.untouched.own
  owner := h.owner

theorem departure_standing (hsafe : Safe p id userID within st) {s' : Store} (hs : Forest s)
    (hkept : Kept userID st s) (h : Standing p.userID id st s)
    (hstep : Departure users userID within s s') : Standing p.userID id st s' := by
  -- a group whose owner goes is none the group needs
  have hclear : ∀ d g, within d → s.groups.lookup d = some g → g.tier ≠ .system →
      g.ownerUserID = userID → ¬Under st d id := by
    intro d g hin hg htier howner hunder
    obtain ⟨g0,hg0,ht,-,-⟩ := hkept.group d g hg
    rw [h.owner d g0 g hunder hg0 hg] at howner
    exact hsafe.owner d g0 hin hunder hg0 (ht ▸ htier) howner
  cases hstep with
  | drop d hin hbelow => exact dropUser_standing hsafe h hin
  | succeed d g successor hin hg htier howner hsuccessor =>
    exact setGroupOwner_standing h hg (hclear d g hin hg htier howner) successor
  | orphan d g hin hg htier howner =>
    exact setGroupOwner_standing h hg (hclear d g hin hg (htier ▸ nofun) howner) ""
  | close d g hin hg htier hreason =>
    have howners : ∀ e ge ge', Under st e id → st.groups.lookup e = some ge →
        (s.deleteUserGroup d).groups.lookup e = some ge' → ge'.ownerUserID = ge.ownerUserID := by
      intro e ge ge' hunder hge hge'
      exact h.owner e ge ge' hunder hge ((deleteUserGroup_groups hs hg e ge').mp hge').1
    by_cases hunder : Under s d id
    · -- the group goes too, so it was abandoned
      obtain ⟨g0,hg0,ht,-,-⟩ := hkept.group d g hg
      have hunder0 := hkept.under hunder
      have hempty : g.ownerUserID = "" ∧ ∀ v, s.memberIDSet d v = false := by
        rcases hreason with howner | hempty
        · exact absurd hunder0 (hclear d g hin hg htier howner)
        · exact hempty
      have habandoned : Abandoned p.userID id st := by
        rw [h.owner d g0 g hunder0 hg0 hg] at hempty
        rcases hsafe.empty d g0 hin hunder0 hg0 (ht ▸ htier) hempty.1 with ⟨v,hv,hm⟩ | hab
        · rw [← memberIDSet_congr (hkept.member d v hv (hg ▸ rfl)), hempty.2 v] at hm
          exact absurd hm false_ne_true
        · exact hab
      have hgone : (s.deleteUserGroup d).groups.lookup id = none := by
        apply eq_none_iff_forall_ne_some.mpr
        intro q hq
        exact ((deleteUserGroup_groups hs hg id q).mp hq).2 hunder
      have hrows : ∀ v, (s.deleteUserGroup d).managers.lookup (id,v) = none :=
        fun v => (gone_of_missing (deleteUserGroup_tree hs hg) hgone).2
      refine ⟨⟨?_,?_,.inl (hrows p.userID)⟩,howners⟩
      · rw [habandoned.1, ownerOf, hgone]
        rfl
      · intro v hv
        rw [hrows, habandoned.2 v hv]
    · exact ⟨h.untouched.trans (deleteUserGroup_untouched hs hg hunder),howners⟩

theorem departures_standing (hsafe : Safe p id userID within st) (hst : Forest st)
    (h : Departures users userID within st s) :
    Forest s ∧ Kept userID st s ∧ Standing p.userID id st s := by
  induction h with
  | refl =>
    refine ⟨hst,Kept.refl userID st,Untouched.refl _ _ _,?_⟩
    intro d g g' _ hg hg'
    rw [some.inj (hg.symm.trans hg')]
  | tail _ hstep ih =>
    obtain ⟨hforest,hkept,hstanding⟩ := ih
    obtain ⟨hforest',hkept'⟩ := departure_tree_kept hforest hstep
    exact ⟨hforest',hkept.trans hkept',departure_standing hsafe hforest hkept hstanding hstep⟩

theorem Powerless.departures (hpower : Powerless p id st) (hkept : Kept userID st s) (hs : Forest s)
    (h : Standing p.userID id st s) : Powerless p id s := by
  apply hpower.of_kept hkept h.owner
  intro i row _ hrow
  have hi := hs.manager i p.userID (hrow ▸ rfl)
  by_cases hself : p.userID = userID
  · rw [hself] at hrow ⊢
    rcases hkept.ownManager i with hm | hm
    · rw [hm] at hrow
      exact absurd hrow nofun
    · exact hm ▸ hrow
  · rw [← hkept.manager i p.userID hself hi]
    exact hrow

/-- A removal by the principal that spares the group is safe for it. -/
theorem removal_safe (hst : Forest st) (hpower : Powerless p id st) (hsystem : p.isSystem = false)
    (hauth : p.userID = userID ∨ ∃ g, authorizeGroupManage st p i .group = .ok g)
    (hspares : Spares p id st (.removeGroupMember i userID)) :
    Safe p id userID (Under st i) st := by
  -- the principal removes others only from groups it manages, and it manages none above
  have hhere : userID ≠ p.userID → Under st i id → i = id := by
    intro hother hunder
    by_contra hne
    rcases hauth with hself | ⟨g,hauth⟩
    · exact hother hself.symm
    obtain ⟨hg,hsys | ⟨htier,howner | ⟨row,hrow,hmet⟩⟩⟩ := authorizeGroupManage_ok hauth
    · rw [hsystem] at hsys
      exact absurd hsys false_ne_true
    · exact hpower.notOwner i g hunder hg htier howner
    · have hfalse := hpower.notManager i g row hunder hne hg htier hrow
      rw [GroupManageNeed.metBy, hfalse] at hmet
      exact absurd hmet false_ne_true
  refine ⟨?_,hspares.2,?_⟩
  · intro d g hin hunder hg htier howner
    by_cases hself : userID = p.userID
    · exact hpower.notOwner d g hunder hg htier (howner.trans hself)
    have hi : i = id := hhere hself (hin.trans hunder)
    subst hi
    have hd : d = i := by
      rcases hunder.cases_tail with heq | ⟨b,_,gi,hgi,_⟩
      · exact heq.symm
      rcases under_tiers hst hgi hg hin with heq | hlt
      · exact heq
      · rcases under_tiers hst hg hgi hunder with heq | hlt'
        · exact heq.symm
        · exact absurd hlt (lt_asymm hlt')
    subst hd
    exact (hspares.1 rfl hself).1 ((ownerOf_eq hg).trans howner)
  · intro hunder
    by_cases hself : userID = p.userID
    · exact .inl hself
    · exact .inr (hspares.1 (hhere hself hunder) hself).2

end departures

/-! ### Other changes -/

section changes

variable {users : Users} {p : Principal} {c : Call} {id : String} {st st' : Store}

theorem under_insert (hst : Forest st) {new : String} (hnew : st.groups.lookup new = none)
    (hname : new ≠ "") {b : String} (hb : b ≠ new)
    (h : Under { st with groups := st.groups.insert new g } i b) : i ≠ new ∧ Under st i b := by
  induction h with
  | refl => exact ⟨hb,.refl⟩
  | @tail a b _ hab ih =>
    obtain ⟨gb,hgb,hparent⟩ := hab
    rw [AList.lookup_insert_ne hb] at hgb
    have ha : a ≠ new := by
      rintro rfl
      cases ht : gb.tier with
      | system => exact hname (hparent.symm.trans (hst.root b gb hgb ht))
      | _ =>
        obtain ⟨q,hq,-⟩ := hst.parent b gb _ hgb (by rw [ht]; rfl)
        rw [hparent, hnew] at hq
        exact absurd hq nofun
    obtain ⟨hi,hunder⟩ := ih ha
    exact ⟨hi,hunder.tail ⟨gb,hgb,hparent⟩⟩

theorem Powerless.insertGroup (hst : Forest st) (hpower : Powerless p id st) {new : String}
    (hnew : st.groups.lookup new = none) (hname : new ≠ "") (hne : new ≠ id) :
    Powerless p id { st with groups := st.groups.insert new g } where
  notOwner := by
    intro i gi hunder hgi htier
    obtain ⟨hi,hunder⟩ := under_insert hst hnew hname hne.symm hunder
    rw [AList.lookup_insert_ne hi] at hgi
    exact hpower.notOwner i gi hunder hgi htier
  notManager := by
    intro i gi row hunder hother hgi htier hrow
    obtain ⟨hi,hunder⟩ := under_insert hst hnew hname hne.symm hunder
    rw [AList.lookup_insert_ne hi] at hgi
    exact hpower.notManager i gi row hunder hother hgi htier hrow

theorem rename_kept (userID : String) (hg : st.groups.lookup d = some g) (name : String) :
    Kept userID st (st.updateUserGroup d name g.ownerUserID) where
  group := by
    intro i g' hg'
    obtain ⟨g0,hg0,ht,hparent,howner⟩ := updateUserGroup_group hg'
    refine ⟨g0,hg0,ht,hparent,.inl ?_⟩
    rw [howner]
    split
    · next heq =>
      subst heq
      rw [some.inj (hg.symm.trans hg0)]
    · rfl
  member := fun i v _ _ => by rw [updateUserGroup_members]
  manager := fun i v _ _ => by rw [updateUserGroup_managers]
  ownMember := fun i => .inr (by rw [updateUserGroup_members])
  ownManager := fun i => .inr (by rw [updateUserGroup_managers])

theorem rename_owner (hg : st.groups.lookup d = some g) (name i : String) (gi gi' : UserGroup)
    (hgi : st.groups.lookup i = some gi)
    (hgi' : (st.updateUserGroup d name g.ownerUserID).groups.lookup i = some gi') :
    gi'.ownerUserID = gi.ownerUserID := by
  obtain ⟨g0,hg0,-,-,howner⟩ := updateUserGroup_group hgi'
  obtain rfl := some.inj (hgi.symm.trans hg0)
  rw [howner]
  split
  · next heq =>
    subst heq
    rw [some.inj (hg.symm.trans hg0)]
  · rfl

/-- No other change by the principal touches the group. -/
theorem change_untouched (hst : Forest st) (hpower : Powerless p id st) (hsystem : p.isSystem = false)
    (hfresh : ¬CreatesAs c id) (h : Change users p c st st') :
    Untouched p.userID id st st' ∧ Powerless p id st' := by
  have hmine : ∀ {q : Prop}, p.isSystem = true ∨ q → q :=
    fun h => h.resolve_left (by simp [hsystem])
  have hclear : ∀ d g, st.groups.lookup d = some g → g.tier ≠ .system →
      g.ownerUserID = p.userID → ¬Under st d id :=
    fun d g hg htier howner hunder => hpower.notOwner d g hunder hg htier howner
  have hapart : ∀ d v i u : String, ¬Under st d id → Under st i id → (i,u) ≠ (d,v) := by
    rintro d v i u hd hi heq
    cases heq
    exact hd hi
  cases h with
  | root d name hasked hid hnew =>
    have hne : d ≠ id := by
      rintro rfl
      exact hfresh hasked
    exact ⟨Untouched.of_same (AList.lookup_insert_ne hne.symm) fun _ => rfl,
      hpower.insertGroup hst hnew hid hne⟩
  | found d g q now hasked hid hnew hq htier hmember howner =>
    have hne : d ≠ id := by
      rintro rfl
      exact hfresh hasked
    have hinserted := hpower.insertGroup (g := g) hst hnew hid hne
    exact ⟨Untouched.of_same (AList.lookup_insert_ne hne.symm) fun _ => rfl,
      hinserted.notOwner,hinserted.notManager⟩
  | rename d name g hg =>
    constructor
    · refine ⟨?_,fun v _ => by rw [updateUserGroup_managers],
        .inr (by rw [updateUserGroup_managers])⟩
      rw [ownerOf, lookup_updateUserGroup]
      split
      · next heq =>
        rw [heq, ownerOf_eq hg, hg]
        rfl
      · rfl
    · apply hpower.of_kept (rename_kept p.userID hg name)
      · intro i gi gi' _ hgi hgi'
        exact rename_owner hg name i gi gi' hgi hgi'
      · intro i row _ hrow
        rwa [updateUserGroup_managers] at hrow
  | delete d g hg hauth =>
    obtain ⟨htier,howner⟩ := hmine hauth
    have hd := hclear d g hg htier howner
    constructor
    · exact deleteUserGroup_untouched hst hg hd
    · apply hpower.of_kept (deleteUserGroup_kept hst hg p.userID)
      · intro i gi gi' _ hgi hgi'
        have hold := ((deleteUserGroup_groups hst hg i gi').mp hgi').1
        rw [some.inj (hgi.symm.trans hold)]
      · intro i row _ hrow
        exact ((deleteUserGroup_managers hst hg i p.userID row).mp hrow).1
  | enrol d g userID state invitedBy now hg hin hstate =>
    exact ⟨Untouched.of_same rfl fun _ => rfl,hpower.notOwner,hpower.notManager⟩
  | accept d now hinvited => exact ⟨Untouched.of_same rfl fun _ => rfl,hpower.notOwner,hpower.notManager⟩
  | decline d hinvited => exact ⟨Untouched.of_same rfl fun _ => rfl,hpower.notOwner,hpower.notManager⟩
  | manage d g userID row hg htier howner hmember =>
    have hd := hclear d g hg htier (hmine howner)
    refine ⟨Untouched.of_same rfl fun v => AList.lookup_insert_ne (hapart d userID id v hd .refl),
      hpower.notOwner,?_⟩
    intro i gi row' hunder hne hgi hti hrow
    change (st.managers.insert (d,userID) row).lookup (i,p.userID) = some row' at hrow
    rw [AList.lookup_insert_ne (hapart d userID i p.userID hd hunder)] at hrow
    exact hpower.notManager i gi row' hunder hne hgi hti hrow
  | demote d g userID hg htier howner =>
    have hd := hclear d g hg htier (hmine howner)
    refine ⟨Untouched.of_same rfl fun v => AList.lookup_erase_ne (hapart d userID id v hd .refl),
      hpower.notOwner,?_⟩
    intro i gi row' hunder hne hgi hti hrow
    change (st.managers.erase (d,userID)).lookup (i,p.userID) = some row' at hrow
    rw [AList.lookup_erase_ne (hapart d userID i p.userID hd hunder)] at hrow
    exact hpower.notManager i gi row' hunder hne hgi hti hrow
  | transfer d g newOwnerID hg htier howner hasked hmanager =>
    have hd := hclear d g hg htier (hmine howner)
    constructor
    · exact setGroupOwner_untouched hd st newOwnerID
    · apply hpower.of_kept (setGroupOwner_kept hg (hmine howner) newOwnerID)
      · intro i gi gi' hunder hgi hgi'
        obtain ⟨g0,hg0,-,-,ho⟩ := updateUserGroup_group hgi'
        have hne : i ≠ d := by
          rintro rfl
          exact hd hunder
        rw [ho, if_neg hne, some.inj (hgi.symm.trans hg0)]
      · intro i row _ hrow
        rwa [setGroupOwner, updateUserGroup_managers] at hrow

end changes

/-! ### Runs -/

/-- An operation of the principal that is refused or spares the group. -/
def Sparing (equalFold : String → String → Bool) (p : Principal) (id : String) (w : World) (op : Op) :
    Prop :=
  ∃ now c, op = .call p now c ∧
    ∀ st', exec equalFold w.users w.store p now c = .ok st' → Spares p id w.store c

theorem call_untouched (equalFold : String → String → Bool) {users : Users} (hst : Forest st)
    (hpower : Powerless p id st) (hsystem : p.isSystem = false) (now : ℤ) {c : Call}
    (hspares : ∀ st', exec equalFold users st p now c = .ok st' → Spares p id st c) :
    Forest (call equalFold users st p now c) ∧ Untouched p.userID id st (call equalFold users st p now c) ∧
      Powerless p id (call equalFold users st p now c) := by
  rw [call]
  cases hexec : exec equalFold users st p now c with
  | error e => exact ⟨hst,Untouched.refl _ _ _,hpower⟩
  | ok st' =>
    have hspares := hspares st' hexec
    have hfresh : ¬CreatesAs c id := by
      rintro ⟨hex,input,rfl,hid⟩
      exact hspares hid
    rcases exec_cases hst hexec with ⟨i,userID,rfl,hauth,h⟩ | ⟨userID,rfl,h⟩ | h | ⟨-,h⟩
    · obtain ⟨hforest,hkept,hstanding⟩ :=
        departures_standing (removal_safe hst hpower hsystem hauth hspares) hst h
      exact ⟨hforest,hstanding.untouched,hpower.departures hkept hforest hstanding⟩
    · exact absurd hspares not_false
    · obtain ⟨huntouched,hpower'⟩ := change_untouched hst hpower hsystem hfresh h
      exact ⟨change_forest hst h,huntouched,hpower'⟩
    · clear hexec
      induction h with
      | refl => exact ⟨hst,Untouched.refl _ _ _,hpower⟩
      | tail _ hstep ih =>
        obtain ⟨hforest,huntouched,hpower'⟩ := ih
        obtain ⟨hnext,hpower''⟩ := change_untouched hforest hpower' hsystem hfresh hstep
        exact ⟨change_forest hforest hstep,huntouched.trans hnext,hpower''⟩

theorem run_untouched (equalFold : String → String → Bool) (hsystem : p.isSystem = false)
    (ops : List Op) (w : World) (hw : Forest w.store) (hpower : Powerless p id w.store)
    (hops : Along equalFold (Sparing equalFold p id) w ops) :
    Untouched p.userID id w.store (run equalFold w ops).store := by
  induction ops generalizing w with
  | nil => exact Untouched.refl _ _ _
  | cons op ops ih =>
    obtain ⟨⟨now,c,rfl,hspares⟩,hops⟩ := hops
    obtain ⟨hforest,huntouched,hpower'⟩ := call_untouched equalFold hw hpower hsystem now hspares
    exact huntouched.trans (ih (step equalFold w (.call p now c)) hforest hpower' hops)

/-- Whoever owns nothing on the way up and cannot manage what is above is powerless. -/
theorem powerless_of_unauthorized (hsystem : p.isSystem = false) (huser : p.userID ≠ "")
    (hg : st.groups.lookup id = some g) (howner : g.ownerUserID ≠ p.userID)
    (habove : ∀ i, Under st i id → i ≠ id → ∀ q, authorizeGroupManage st p i .group ≠ .ok q) :
    Powerless p id st where
  notOwner := by
    intro i gi hunder hgi htier hown
    by_cases hi : i = id
    · subst hi
      obtain rfl := some.inj (hg.symm.trans hgi)
      exact howner hown
    apply habove i hunder hi gi
    rw [authorizeGroupManage, hgi]
    dsimp only
    rw [hsystem, if_neg Bool.false_ne_true, if_neg htier, if_pos ⟨hown ▸ huser,hown⟩]
  notManager := by
    intro i gi row hunder hi hgi htier hrow
    by_contra hcan
    rw [not_eq_false] at hcan
    apply habove i hunder hi gi
    rw [authorizeGroupManage, hgi]
    dsimp only
    rw [hsystem, if_neg Bool.false_ne_true, if_neg htier, hrow]
    dsimp only
    rw [GroupManageNeed.metBy, hcan, if_pos rfl, ite_self]

/-- From every store, a principal who is no system administrator, does not own the
group and can manage no group above it leaves the owner and the managers of the
group as they are, its own row apart, along every run of its own calls that spare
them where they are accepted. -/
theorem control_stays (equalFold : String → String → Bool) (p : Principal) (id : String) (g : UserGroup)
    (w : World) (hw : Forest w.store) (hsystem : p.isSystem = false) (huser : p.userID ≠ "")
    (hg : w.store.groups.lookup id = some g) (howner : g.ownerUserID ≠ p.userID)
    (habove : ∀ i, Under w.store i id → i ≠ id → ∀ q, authorizeGroupManage w.store p i .group ≠ .ok q)
    (ops : List Op) (hops : Along equalFold (Sparing equalFold p id) w ops) :
    Untouched p.userID id w.store (run equalFold w ops).store :=
  run_untouched equalFold hsystem ops w hw (powerless_of_unauthorized hsystem huser hg howner habove) hops

theorem above_of_under (hg : st.groups.lookup id = some g) (h : Under st i id) :
    i = id ∨ Under st i g.parentGroupID := by
  rcases h.cases_tail with heq | ⟨b,hb,g',hg',rfl⟩
  · exact .inl heq.symm
  · rw [some.inj (hg.symm.trans hg')]
    exact .inr hb

section Team

def carol : Principal := ⟨"carol",false,false⟩

def team : List Op :=
  [.setUser "carol" (some ⟨.user,.active⟩),
    .call sysadmin 0 (.createGroup "s" ⟨some .system,"s","",""⟩),
    .call sysadmin 1 (.addGroupMembers "ugrp_s" ["ann","bob","carol"]),
    .call ann 2 (.createGroup "a" ⟨some .admin,"a","",""⟩),
    .call ann 3 (.addGroupMembers "ugrp_a" ["bob","carol"]),
    .call bob 4 (.createGroup "u" ⟨some .user,"u","",""⟩),
    .call bob 5 (.addGroupMembers "ugrp_u" ["carol"]),
    .call carol 6 (.respondInvitation "ugrp_u" true),
    .call bob 7 (.promoteManager "ugrp_u" "carol" ⟨false,true,false,false,false,false⟩)]

def teamWorld : World := run (· == ·) ⟨staff,{}⟩ team

theorem teamWorld_forest : Forest teamWorld.store := run_forest _ team _ empty_forest

theorem above_team (hst : Forest st) {u : UserGroup} (hu : st.groups.lookup "ugrp_u" = some u)
    (hup : u.parentGroupID = "ugrp_a")
    (ha : st.groups.lookup "ugrp_a" = some ⟨.admin,"a","ugrp_s","ann"⟩)
    (hs : st.groups.lookup "ugrp_s" = some ⟨.system,"s","",""⟩) (h : Under st i "ugrp_u") :
    i = "ugrp_u" ∨ i = "ugrp_a" ∨ i = "ugrp_s" ∨ i = "" := by
  rcases above_of_under hu h with heq | h
  · exact .inl heq
  rw [hup] at h
  rcases above_of_under ha h with heq | h
  · exact .inr (.inl heq)
  · rcases above_of_under hs h with heq | h
    · exact .inr (.inr (.inl heq))
    · exact .inr (.inr (.inr (eq_of_under_missing hst.named h)))

theorem carol_manages_nothing_above (i : String) (h : Under teamWorld.store i "ugrp_u") (hne : i ≠ "ugrp_u")
    (q : UserGroup) : authorizeGroupManage teamWorld.store carol i .group ≠ .ok q := by
  have hall : ∀ j ∈ ["ugrp_a","ugrp_s",""],
      authorizeGroupManage teamWorld.store carol j .group = .error .notFound := by
    decide +kernel
  have hi : i ∈ ["ugrp_a","ugrp_s",""] := by
    rcases above_team teamWorld_forest (u := ⟨.user,"u","ugrp_a","bob"⟩) (by decide +kernel) rfl
      (by decide +kernel) (by decide +kernel) h with heq | rfl | rfl | rfl
    · exact absurd heq hne
    · decide
    · decide
    · decide
  rw [hall i hi]
  exact nofun

end Team

/-- The co-manager renames the group and leaves it. -/
theorem control_stays_team : Untouched "carol" "ugrp_u" teamWorld.store
      (run (· == ·) teamWorld [.call carol 8 (.renameGroup "ugrp_u" "club"),
        .call carol 9 (.removeGroupMember "ugrp_u" "carol")]).store := by
  have hg : teamWorld.store.groups.lookup "ugrp_u" = some ⟨.user,"u","ugrp_a","bob"⟩ := by decide +kernel
  apply control_stays (· == ·) carol "ugrp_u" _ teamWorld teamWorld_forest rfl (by decide) hg (by decide)
    carol_manages_nothing_above
  refine ⟨⟨8,_,rfl,fun _ _ => trivial⟩,⟨9,_,rfl,fun _ _ => ⟨fun _ hother => absurd rfl hother,?_⟩⟩,trivial⟩
  intro d g _ hunder hd htier howner
  have hforest :=
    run_forest (· == ·) [.call carol 8 (.renameGroup "ugrp_u" "club")] teamWorld teamWorld_forest
  have hall : ∀ j ∈ ["ugrp_u","ugrp_a","ugrp_s",""], ∀ q ∈ (step (· == ·) teamWorld
      (.call carol 8 (.renameGroup "ugrp_u" "club"))).store.groups.lookup j,
      q.tier ≠ .system → q.ownerUserID ≠ "" := by
    decide +kernel
  have hmem : d ∈ ["ugrp_u","ugrp_a","ugrp_s",""] := by
    rcases above_team hforest (u := ⟨.user,"club","ugrp_a","bob"⟩) (by decide +kernel) rfl
      (by decide +kernel) (by decide +kernel) hunder with rfl | rfl | rfl | rfl
    all_goals decide
  exact absurd howner (hall d hmem g hd htier)

/-- A co-manager who may not transfer the group gets it by removing its owner. -/
theorem removed_owner_succeeded :
    carol.isSystem = false ∧ ownerOf teamWorld.store "ugrp_u" = "bob" ∧
      (∀ i, Under teamWorld.store i "ugrp_u" → i ≠ "ugrp_u" →
        ∀ q, authorizeGroupManage teamWorld.store carol i .group ≠ .ok q) ∧
      transferOwnership teamWorld.store carol "ugrp_u" "carol" = .error .forbidden ∧
      ownerOf (run (· == ·) teamWorld [.call carol 8 (.removeGroupMember "ugrp_u" "bob")]).store "ugrp_u" =
        "carol" := by
  refine ⟨rfl,by decide +kernel,carol_manages_nothing_above,?_,by decide +kernel⟩
  have hrefused : authorizeOwnerAction teamWorld.store carol "ugrp_u" = .error .forbidden := by
    decide +kernel
  rw [transferOwnership, hrefused]
  rfl

end OnPremGateway.GroupControl
