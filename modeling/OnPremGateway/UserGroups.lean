import OnPremGateway.RuntimeTypes
import OnPremGateway.KeyedTable

/-!
# User groups

Groups form a tree of three tiers: system groups, admin groups under them, user
groups under those. Users belong to groups, as full members or invited; an admin
or user group has an owner and co-managers with permissions. Taking a user out of
a group takes the user out of everything below it, and a group whose owner goes
finds a new one or ceases.
-/

set_option autoImplicit false

namespace OnPremGateway.UserGroups
open RuntimeTypes KeyedTable

inductive Tier where
  | system
  | admin
  | user
  deriving DecidableEq, Repr

inductive GroupState where
  | member
  | invited
  deriving DecidableEq, Repr

inductive Role where
  | user
  | admin
  | systemAdmin
  deriving DecidableEq, Repr

inductive UserStatus where
  | active
  | disabled
  | invited
  deriving DecidableEq, Repr

structure User where
  role : Role
  status : UserStatus
  deriving DecidableEq, Repr

/-- The accounts, by id. -/
abbrev Users := String → Option User

/-- The user behind a request and the scopes of its token. -/
structure Principal where
  userID : String
  isAdmin : Bool
  isSystem : Bool
  deriving DecidableEq, Repr

inductive GroupError where
  | notFound
  | nameConflict
  | nameInvalid
  | parentInvalid
  | tierInvalid
  | forbidden
  | memberNotVisible
  | candidateInvalid
  | notParentMember
  | ownerInvalid
  | principalForbidden
  | inviteAdminGroupRequired
  | inviteAdminGroupInvalid
  deriving DecidableEq, Repr

def GroupError.text : GroupError → String
  | .notFound => "portal: group not found"
  | .nameConflict => "portal: group name conflict"
  | .nameInvalid => "portal: group name invalid"
  | .parentInvalid => "portal: group parent invalid"
  | .tierInvalid => "portal: group tier invalid"
  | .forbidden => "portal: group action forbidden"
  | .memberNotVisible => "portal: group member not visible"
  | .candidateInvalid => "portal: group candidate invalid"
  | .notParentMember => "portal: invitee not a member of the parent admin group"
  | .ownerInvalid => "portal: admin group owner invalid"
  | .principalForbidden => "portal.principal_forbidden"
  | .inviteAdminGroupRequired => "portal: invite requires an admin group"
  | .inviteAdminGroupInvalid => "portal: invite admin group invalid"

def refuseIf (refused : Prop) [Decidable refused] (e : GroupError) : Except GroupError Unit :=
  if refused then .error e else .ok ()

/-! ### The store -/

structure UserGroup where
  tier : Tier
  name : String
  parentGroupID : String
  ownerUserID : String
  deriving DecidableEq, Repr

structure Membership where
  state : GroupState
  invitedBy : String
  createdAt : ℤ
  deriving DecidableEq, Repr

structure ManagerPermissions where
  canManageUsers : Bool
  canManageGroup : Bool
  canManageServers : Bool
  canManageServices : Bool
  canManageResources : Bool
  canManageVendorAccounts : Bool
  deriving DecidableEq, Repr

structure ManagerRow where
  perms : ManagerPermissions
  createdAt : ℤ
  deriving DecidableEq, Repr

/-- Groups by id; member and manager rows by group and user. -/
structure Store where
  groups : AList (fun _ : String => UserGroup) := ∅
  members : AList (fun _ : String × String => Membership) := ∅
  managers : AList (fun _ : String × String => ManagerRow) := ∅

def byName (a b : Sigma fun _ : String => UserGroup) : Prop :=
  a.2.name < b.2.name ∨ a.2.name = b.2.name ∧ a.1 ≤ b.1

instance (a b : Sigma fun _ : String => UserGroup) : Decidable (byName a b) :=
  inferInstanceAs (Decidable (_ ∨ _ ∧ _))

variable (st : Store) (groupID userID : String) (p : Principal) (id : String)

def Store.listGroups (p : String → UserGroup → Bool) :
    List (Sigma fun _ : String => UserGroup) :=
  (st.groups.entries.filter fun e => p e.1 e.2).insertionSort byName

def Store.listUserGroupsByTier (tier : Tier) : List (Sigma fun _ : String => UserGroup) :=
  st.listGroups fun _ g => g.tier = tier

def Store.childUserGroups (parentID : String) :
    List (Sigma fun _ : String => UserGroup) :=
  st.listGroups fun _ g => g.parentGroupID = parentID

def Store.stateIn : Option GroupState :=
  (st.members.lookup (groupID,userID)).map Membership.state

def Store.userGroupsForUser (tier : Tier) (state : GroupState) :
    List (Sigma fun _ : String => UserGroup) :=
  st.listGroups fun id g => g.tier = tier ∧ st.stateIn id userID = some state

/-- The rows of a group, by the time they were made and the user. -/
def rowsOf {α : Type} (t : AList (fun _ : String × String => α)) (createdAt : α → ℤ) (groupID : String) :
    List (String × α) :=
  ((t.entries.filter fun e => e.1.1 = groupID).map fun e => (e.1.2,e.2)).insertionSort fun a b =>
    createdAt a.2 < createdAt b.2 ∨ createdAt a.2 = createdAt b.2 ∧ a.1 ≤ b.1

def Store.userGroupMembers : List (String × Membership) :=
  rowsOf st.members Membership.createdAt groupID

def Store.userGroupManagers : List String :=
  (rowsOf st.managers ManagerRow.createdAt groupID).map Prod.fst

def Store.createUserGroup (g : UserGroup) : Except GroupError Store :=
  if (st.groups.lookup id).isSome then .error .nameConflict
  else .ok { st with groups := st.groups.insert id g }

def Store.updateUserGroup (name ownerUserID : String) : Store :=
  match st.groups.lookup id with
  | none => st
  | some g => { st with groups := st.groups.insert id { g with name, ownerUserID } }

def Store.climbs (st : Store) (top : String) : ℕ → String → Bool
  | 0, id => id = top
  | n+1, id => id = top || match st.groups.lookup id with
    | some g => st.climbs top n g.parentGroupID
    | none => false

def Store.depth : ℕ := st.groups.keys.length + 2

def Store.deleteUserGroup : Store where
  groups := keep (fun i => !st.climbs id st.depth i) st.groups
  members := keep (fun k => !st.climbs id st.depth k.1) st.members
  managers := keep (fun k => !st.climbs id st.depth k.1) st.managers

def Store.setUserGroupMember (state : GroupState)
    (invitedBy : String) (now : ℤ) : Store :=
  let createdAt := ((st.members.lookup (groupID,userID)).map Membership.createdAt).getD now
  { st with members := st.members.insert (groupID,userID) ⟨state,invitedBy,createdAt⟩ }

def Store.removeUserGroupMember : Store :=
  { st with members := st.members.erase (groupID,userID) }

def allPermissions : ManagerPermissions := ⟨true,true,true,true,true,true⟩

def Store.setUserGroupManager (now : ℤ) : Store :=
  match st.managers.lookup (groupID,userID) with
  | some _ => st
  | none => { st with managers := st.managers.insert (groupID,userID) ⟨allPermissions,now⟩ }

def Store.setUserGroupManagerPermissions (perms : ManagerPermissions) : Except GroupError Store :=
  match st.managers.lookup (groupID,userID) with
  | none => .error .notFound
  | some row => .ok { st with managers := st.managers.insert (groupID,userID) { row with perms } }

def Store.removeUserGroupManager : Store :=
  { st with managers := st.managers.erase (groupID,userID) }

/-! ### Who may do what -/

def isAdminRole (role : Role) : Bool := role = .admin ∨ role = .systemAdmin

def Store.memberIDSet : Bool :=
  st.stateIn groupID userID = some .member

def visibleUserIDs (users : Users) (st : Store) (p : Principal) (userID : String) : Bool :=
  if p.isSystem then (users userID).isSome
  else
    let tier := if p.isAdmin then Tier.system else Tier.admin
    userID = p.userID ∨ ∃ g ∈ st.userGroupsForUser p.userID tier .member, st.memberIDSet g.1 userID

inductive GroupManageNeed where
  | read
  | group
  | users
  deriving DecidableEq, Repr

def GroupManageNeed.metBy (perms : ManagerPermissions) : GroupManageNeed → Bool
  | .read => true
  | .group => perms.canManageGroup
  | .users => perms.canManageUsers

/-- The group, if the principal may manage it to the extent needed. -/
def authorizeGroupManage (need : GroupManageNeed) :
    Except GroupError UserGroup :=
  match st.groups.lookup id with
  | none => .error .notFound
  | some g =>
    if p.isSystem then .ok g
    else if g.tier = .system then .error .notFound
    else if g.ownerUserID ≠ "" ∧ g.ownerUserID = p.userID then .ok g
    else match st.managers.lookup (id,p.userID) with
      | some row => if need.metBy row.perms then .ok g else .error .notFound
      | none => .error .notFound

def authorizeOwnerAction : Except GroupError UserGroup := do
  let g ← authorizeGroupManage st p id .read
  refuseIf (g.tier = .system) .tierInvalid
  refuseIf (p.isSystem = false ∧ g.ownerUserID ≠ p.userID) .forbidden
  return g

def manageGroupIDs (can : ManagerPermissions → Bool) : List String :=
  ((st.userGroupsForUser p.userID .admin .member).filter fun g =>
    (g.2.ownerUserID ≠ "" ∧ g.2.ownerUserID = p.userID) ||
      ((st.managers.lookup (g.1,p.userID)).any fun row => can row.perms)).map Sigma.fst

def manageableUserIDs (users : Users) (st : Store) (p : Principal) (userID : String) : Bool :=
  if p.isSystem then (users userID).isSome
  else userID = p.userID ∨ ∃ g ∈ manageGroupIDs st p ManagerPermissions.canManageUsers,
    st.memberIDSet g userID

/-! ### Creating and changing groups -/

section Names
variable (equalFold : String → String → Bool)

def groupNameConflict (siblings : List (Sigma fun _ : String => UserGroup)) (name excludeID : String) :
    Bool :=
  siblings.any fun sib => sib.1 ≠ excludeID && equalFold sib.2.name name

/-- The random part of a new id is `hex`. -/
def newGroupID (hex : String) : String := "ugrp_" ++ hex

structure CreateGroupInput where
  tier : Option Tier
  name : String
  parentGroupID : String
  ownerUserID : String

variable (users : Users) (st : Store) (p : Principal) (parentID : String) (now : ℤ)

def createSystemGroup (hex name : String) : Except GroupError Store := do
  refuseIf (p.isSystem = false) .forbidden
  refuseIf (groupNameConflict equalFold (st.listUserGroupsByTier .system) name "") .nameConflict
  st.createUserGroup (newGroupID hex) ⟨.system,name,"",""⟩

def soleGroup : List (Sigma fun _ : String => UserGroup) → Except GroupError String
  | [g] => .ok g.1
  | _ => .error .parentInvalid

def ownAdminParent : Except GroupError String :=
  if parentID = "" then soleGroup (st.userGroupsForUser p.userID .system .member)
  else match st.groups.lookup parentID with
    | none => .error .parentInvalid
    | some pg =>
      if pg.tier ≠ .system then .error .parentInvalid
      else if p.isSystem = false ∧
          parentID ∉ (st.userGroupsForUser p.userID .system .member).map Sigma.fst then
        .error .parentInvalid
      else .ok parentID

def otherAdminParent (parentID ownerID : String) :
    Except GroupError String := do
  refuseIf (p.isSystem = false) .forbidden
  refuseIf (¬(users ownerID).any fun u => u.status = .active && isAdminRole u.role) .ownerInvalid
  let ownerSys := st.userGroupsForUser ownerID .system .member
  if parentID = "" then soleGroup ownerSys
  else if parentID ∈ ownerSys.map Sigma.fst then .ok parentID
  else .error .parentInvalid

def Store.foundGroup (hex : String) (g : UserGroup) (now : ℤ) : Except GroupError Store := do
  let st ← st.createUserGroup (newGroupID hex) g
  return st.setUserGroupMember (newGroupID hex) g.ownerUserID .member "" now

def adminGroupPlace (parentID ownerInput : String) :
    Except GroupError (String × String) :=
  let ownerID := trimSpace ownerInput
  if ownerID ≠ "" ∧ ownerID ≠ p.userID then
    (otherAdminParent users st p parentID ownerID).map fun parent => (parent,ownerID)
  else (ownAdminParent st p parentID).map fun parent => (parent,p.userID)

def createAdminGroup (hex name parentID ownerInput : String) : Except GroupError Store := do
  refuseIf (p.isAdmin = false ∧ p.isSystem = false) .forbidden
  let place ← adminGroupPlace users st p parentID ownerInput
  refuseIf (groupNameConflict equalFold (st.childUserGroups place.1) name "") .nameConflict
  st.foundGroup hex ⟨.admin,name,place.1,place.2⟩ now

def userGroupParent : Except GroupError String :=
  let own := st.userGroupsForUser p.userID .admin .member
  if parentID = "" then soleGroup own
  else if parentID ∈ own.map Sigma.fst then .ok parentID
  else .error .parentInvalid

def createUserGroup (hex name parentID : String) :
    Except GroupError Store := do
  let parent ← userGroupParent st p parentID
  let owned := (st.listUserGroupsByTier .user).filter fun g => g.2.ownerUserID = p.userID
  refuseIf (groupNameConflict equalFold owned name "") .nameConflict
  st.foundGroup hex ⟨.user,name,parent,p.userID⟩ now

def createGroup (hex : String)
    (input : CreateGroupInput) : Except GroupError Store :=
  let name := trimSpace input.name
  if name = "" then .error .nameInvalid
  else match input.tier with
    | some .system => createSystemGroup equalFold st p hex name
    | some .admin => createAdminGroup equalFold users st p now hex name input.parentGroupID input.ownerUserID
    | some .user => createUserGroup equalFold st p now hex name input.parentGroupID
    | none => .error .tierInvalid

def renameSiblings (g : UserGroup) : List (Sigma fun _ : String => UserGroup) :=
  match g.tier with
  | .system => st.listUserGroupsByTier .system
  | .admin => st.childUserGroups g.parentGroupID
  | .user => (st.listUserGroupsByTier .user).filter fun sib => sib.2.ownerUserID = g.ownerUserID

def renameGroup (id nameInput : String) : Except GroupError Store := do
  let name := trimSpace nameInput
  refuseIf (name = "") .nameInvalid
  let g ← authorizeGroupManage st p id .group
  refuseIf (groupNameConflict equalFold (renameSiblings st g) name id) .nameConflict
  return st.updateUserGroup id name g.ownerUserID

end Names

variable (users : Users) (st : Store) (p : Principal) (now : ℤ) (id userID : String)

def deleteGroup : Except GroupError Store := do
  let g ← authorizeGroupManage st p id .group
  refuseIf (g.tier ≠ .system ∧ p.isSystem = false ∧ g.ownerUserID ≠ p.userID) .forbidden
  return st.deleteUserGroup id

/-! ### Members -/

def inviteGroupMembers (g : UserGroup)
    (userIDs : List String) : Except GroupError Store := do
  refuseIf (∃ uid ∈ userIDs, st.memberIDSet g.parentGroupID uid = false) .notParentMember
  return (userIDs.filter fun uid => !st.memberIDSet id uid).foldl
    (fun st uid => st.setUserGroupMember id uid .invited p.userID now) st

def addGroupMembers (userIDs : List String) : Except GroupError Store := do
  let g ← authorizeGroupManage st p id .group
  if g.tier = .user then inviteGroupMembers st p now id g userIDs
  else
    refuseIf (∃ uid ∈ userIDs, visibleUserIDs users st p uid = false ∨
      g.tier = .admin ∧ st.memberIDSet g.parentGroupID uid = false) .memberNotVisible
    return userIDs.foldl (fun st uid => st.setUserGroupMember id uid .member "" now) st

def respondInvitation (accept : Bool) :
    Except GroupError Store := do
  refuseIf (st.stateIn id p.userID ≠ some .invited) .notFound
  return if accept then st.setUserGroupMember id p.userID .member "" now
    else st.removeUserGroupMember id p.userID

def resolveInviteAdminGroup :
    Except GroupError (String × String) := do
  refuseIf (id = "") .inviteAdminGroupRequired
  match authorizeGroupManage st p id .users with
  | .error _ => .error .inviteAdminGroupInvalid
  | .ok g => if g.tier = .admin then .ok (id,g.parentGroupID) else .error .inviteAdminGroupInvalid

def addUserToAdminGroup (userID id parentID : String) :
    Except GroupError Store := do
  refuseIf (p.isAdmin = false) .principalForbidden
  let st := if parentID ≠ "" then st.setUserGroupMember parentID userID .member "" now else st
  return st.setUserGroupMember id userID .member "" now

def inviteUser (userID id : String) : Except GroupError Store := do
  let (id,parentID) ← resolveInviteAdminGroup st p id
  addUserToAdminGroup st p now userID id parentID

/-! ### Succession -/

def setGroupOwner (g : UserGroup) (ownerID : String) : Store :=
  st.updateUserGroup id g.name ownerID

def eligibleUserGroupSuccessor : Bool :=
  (users userID).any fun u => u.status = .active

def eligibleAdminGroupSuccessor : Bool :=
  (users userID).any fun u => u.status = .active && isAdminRole u.role

def firstSuccessor (eligible : String → Bool) (ownerID : String) (candidates : List String) :
    Option String :=
  candidates.find? fun c => c ≠ ownerID && eligible c

def Store.fullMembers : List String :=
  ((st.userGroupMembers id).filter fun m => m.2.state = .member).map Prod.fst

def succeedUserGroupOwner (g : UserGroup) : Store :=
  let eligible := eligibleUserGroupSuccessor users
  match firstSuccessor eligible g.ownerUserID (st.userGroupManagers id) with
  | some m => setGroupOwner st id g m
  | none => match firstSuccessor eligible g.ownerUserID (st.fullMembers id) with
    | some m => setGroupOwner st id g m
    | none => st.deleteUserGroup id

def succeedAdminGroupOwner (g : UserGroup) : Store :=
  let eligible := eligibleAdminGroupSuccessor users
  match firstSuccessor eligible g.ownerUserID (st.userGroupManagers id) with
  | some m => setGroupOwner st id g m
  | none => match firstSuccessor eligible g.ownerUserID (st.fullMembers id) with
    | some m => setGroupOwner st id g m
    | none =>
      let fromParent := if g.parentGroupID ≠ "" then st.fullMembers g.parentGroupID else []
      match firstSuccessor eligible g.ownerUserID fromParent with
      | some m => setGroupOwner st id g m
      | none => if (st.fullMembers id).isEmpty then st.deleteUserGroup id else setGroupOwner st id g ""

def succeedOwner (g : UserGroup) : Store :=
  match g.tier with
  | .user => succeedUserGroupOwner users st id g
  | .admin => succeedAdminGroupOwner users st id g
  | .system => st

def deleteIfOwnerlessAndEmpty : Store :=
  if (st.fullMembers id).isEmpty then st.deleteUserGroup id else st

def Store.dropUser : Store :=
  (st.removeUserGroupMember id userID).removeUserGroupManager id userID

def settleGroup (st : Store) (id : String) (g : UserGroup) : Store :=
  if g.tier = .system then st
  else if g.ownerUserID ≠ "" ∧ g.ownerUserID = userID then succeedOwner users st id g
  else if g.ownerUserID = "" then deleteIfOwnerlessAndEmpty st id
  else st

/-- The groups below come first, so that none is left behind when this one goes. -/
def removeMemberCascade (users : Users) (userID : String) : ℕ → String → Store → Store
  | 0, _, st => st
  | n+1, id, st =>
    let st := (st.childUserGroups id).foldl (fun st c => removeMemberCascade users userID n c.1 st) st
    match st.groups.lookup id with
    | none => st
    | some g => settleGroup users userID (st.dropUser id userID) id g

def removeGroupMember :
    Except GroupError Store := do
  if p.userID = userID then refuseIf (st.groups.lookup id = none) .notFound
  else
    let _ ← authorizeGroupManage st p id .group
  return removeMemberCascade users userID st.depth id st

def reassignTier (st : Store) (tier : Tier) : Store :=
  ((st.listUserGroupsByTier tier).filter fun g => g.2.ownerUserID = userID).foldl
    (fun st g => succeedOwner users st g.1 g.2) st

def reassignGroupsOwnedBy :
    Except GroupError Store := do
  refuseIf (p.isAdmin = false) .principalForbidden
  return [Tier.admin,Tier.user].foldl (reassignTier users userID) st

/-! ### Managers and owners -/

def promoteManager (perms : ManagerPermissions) : Except GroupError Store := do
  let g ← authorizeOwnerAction st p id
  refuseIf (st.memberIDSet id userID = false) .candidateInvalid
  refuseIf (g.tier = .admin ∧ (¬(users userID).any fun u => isAdminRole u.role)) .candidateInvalid
  refuseIf (g.tier = .admin ∧ st.memberIDSet g.parentGroupID userID = false) .candidateInvalid
  (st.setUserGroupManager id userID now).setUserGroupManagerPermissions id userID perms

def setManagerPermissions (perms : ManagerPermissions) : Except GroupError Store := do
  let _ ← authorizeOwnerAction st p id
  match st.setUserGroupManagerPermissions id userID perms with
  | .error _ => .error .candidateInvalid
  | .ok st => .ok st

def demoteManager : Except GroupError Store := do
  let _ ← authorizeOwnerAction st p id
  return st.removeUserGroupManager id userID

def transferOwnership (id newOwnerID : String) : Except GroupError Store := do
  let g ← authorizeOwnerAction st p id
  refuseIf (newOwnerID ∉ st.userGroupManagers id) .candidateInvalid
  return setGroupOwner st id g newOwnerID

/-! ### Runs -/

inductive Call where
  | createGroup (hex : String) (input : CreateGroupInput)
  | renameGroup (id name : String)
  | deleteGroup (id : String)
  | addGroupMembers (id : String) (userIDs : List String)
  | respondInvitation (id : String) (accept : Bool)
  | removeGroupMember (id userID : String)
  | promoteManager (id userID : String) (perms : ManagerPermissions)
  | demoteManager (id userID : String)
  | setManagerPermissions (id userID : String) (perms : ManagerPermissions)
  | transferOwnership (id newOwnerID : String)
  | inviteUser (userID id : String)
  | reassignGroupsOwnedBy (userID : String)

section Runs
variable (equalFold : String → String → Bool)

def exec (users : Users) (st : Store) (p : Principal) (now : ℤ) : Call → Except GroupError Store
  | .createGroup hex input => createGroup equalFold users st p now hex input
  | .renameGroup id name => renameGroup equalFold st p id name
  | .deleteGroup id => deleteGroup st p id
  | .addGroupMembers id userIDs => addGroupMembers users st p now id userIDs
  | .respondInvitation id accept => respondInvitation st p now id accept
  | .removeGroupMember id userID => removeGroupMember users st p id userID
  | .promoteManager id userID perms => promoteManager users st p now id userID perms
  | .demoteManager id userID => demoteManager st p id userID
  | .setManagerPermissions id userID perms => setManagerPermissions st p id userID perms
  | .transferOwnership id newOwnerID => transferOwnership st p id newOwnerID
  | .inviteUser userID id => inviteUser st p now userID id
  | .reassignGroupsOwnedBy userID => reassignGroupsOwnedBy users st p userID

def call (users : Users) (st : Store) (p : Principal) (now : ℤ) (c : Call) : Store :=
  match exec equalFold users st p now c with
  | .ok st' => st'
  | .error _ => st

structure World where
  users : Users
  store : Store

inductive Op where
  | call (p : Principal) (now : ℤ) (c : Call)
  | setUser (userID : String) (user : Option User)

def step (w : World) : Op → World
  | .call p now c => { w with store := call equalFold w.users w.store p now c }
  | .setUser userID user => { w with users := Function.update w.users userID user }

def run (w : World) (ops : List Op) : World := ops.foldl (step equalFold) w

end Runs

end OnPremGateway.UserGroups
