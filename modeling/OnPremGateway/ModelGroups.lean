import OnPremGateway.RuntimeTypes
import OnPremGateway.CycleSearch

/-!
# Model groups

A model group is a named list of members, each the name of a gateway model or of
another group. The portal creates, changes and deletes groups; names are compared
trimmed and in lower case, and a change of a group's members is refused when the
group would come to contain itself.
-/

set_option autoImplicit false

namespace OnPremGateway.ModelGroups
open RuntimeTypes CycleSearch

inductive GroupError where
  | notFound
  | nameRequired
  | nameConflict
  | modeInvalid
  | memberInvalid
  | cycle
  | visibilityInvalid
  | memberOrderInvalid
  | minSpeedFallbackInvalid
  | minTokensPerSecondInvalid
  | climbSpeedMarginInvalid
  | mappingStatusInvalid
  | storeConflict
  deriving DecidableEq, Repr

def GroupError.text : GroupError → String
  | .notFound => "model_group.not_found"
  | .nameRequired => "model_group.name_required"
  | .nameConflict => "model_group.name_conflict"
  | .modeInvalid => "model_group.mode_invalid"
  | .memberInvalid => "model_group.member_invalid"
  | .cycle => "model_group.cycle"
  | .visibilityInvalid => "model_setting.visibility_invalid"
  | .memberOrderInvalid => "model_group.member_order_invalid"
  | .minSpeedFallbackInvalid => "model_group.min_speed_fallback_invalid"
  | .minTokensPerSecondInvalid => "model_group.min_tokens_per_second_invalid"
  | .climbSpeedMarginInvalid => "model_group.climb_speed_margin_percent_invalid"
  | .mappingStatusInvalid => "mapping.status_invalid"
  | .storeConflict => "conflict"

inductive MappingStatus where
  | active
  | disabled
  deriving DecidableEq, Repr

inductive FailoverMode where
  | sticky
  | climbUp
  deriving DecidableEq, Repr

inductive Traversal where
  | depth
  | breadth
  | roundRobin
  deriving DecidableEq, Repr

inductive Visibility where
  | shown
  | hidden
  | locked
  deriving DecidableEq, Repr

inductive MemberOrder where
  | priority
  | speed
  deriving DecidableEq, Repr

inductive MinSpeedFallback where
  | error
  | ignore
  deriving DecidableEq, Repr

def refuseIf (refused : Prop) [Decidable refused] (e : GroupError) : Except GroupError Unit :=
  if refused then .error e else .ok ()

/-! ### Settings of a request -/

def normalizeChoice {α : Type} (choices : List (String × α)) (empty : α) (err : GroupError)
    (raw : String) : Except GroupError α :=
  let v := trimSpace raw
  if v = "" then .ok empty
  else match choices.lookup v with
    | some a => .ok a
    | none => .error err

def normalizeMappingStatus : String → Except GroupError MappingStatus :=
  normalizeChoice [("active", .active), ("disabled", .disabled)] .active .mappingStatusInvalid

def normalizeFailoverMode : String → Except GroupError FailoverMode :=
  normalizeChoice [("sticky", .sticky), ("climb_up", .climbUp)] .sticky .modeInvalid

def normalizeVisibility : String → Except GroupError Visibility :=
  normalizeChoice [("shown", .shown), ("hidden", .hidden), ("locked", .locked)] .shown
    .visibilityInvalid

def normalizeMemberOrderForWrite : String → Except GroupError MemberOrder :=
  normalizeChoice [("priority", .priority), ("speed", .speed)] .priority .memberOrderInvalid

def normalizeMinSpeedFallbackForWrite : String → Except GroupError MinSpeedFallback :=
  normalizeChoice [("error", .error), ("ignore", .ignore)] .error .minSpeedFallbackInvalid

def normalizeTraversal (raw : String) : Traversal :=
  ([("depth", Traversal.depth), ("breadth", .breadth), ("round_robin", .roundRobin)].lookup
    (trimSpace raw)).getD .roundRobin

/-! ### The store -/

structure ModelGroup where
  gatewayModelName : String
  displayName : String
  status : MappingStatus
  failoverMode : FailoverMode
  traversal : Traversal
  createdAt : ℤ
  updatedAt : ℤ
  loadedOnly : Bool
  memberOrder : MemberOrder
  climbSpeedMarginPercent : ℤ
  minTokensPerSecond : ℚ
  minSpeedFallback : MinSpeedFallback
  deriving DecidableEq, Repr

/-- Groups and their members under the group's id, the visibility of names, and
the gateway names of all mappings of all servers. -/
structure Store where
  groups : AList (fun _ : String => ModelGroup) := ∅
  groupMembers : AList (fun _ : String => List String) := ∅
  modelSettings : AList (fun _ : String => Visibility) := ∅
  mappings : List String := []

def before (a b : Sigma fun _ : String => ModelGroup) : Prop :=
  a.2.gatewayModelName < b.2.gatewayModelName ∨
    a.2.gatewayModelName = b.2.gatewayModelName ∧ a.1 ≤ b.1

instance (a b : Sigma fun _ : String => ModelGroup) : Decidable (before a b) :=
  inferInstanceAs (Decidable (_ ∨ _ ∧ _))

def modelGroups (st : Store) : List (Sigma fun _ : String => ModelGroup) :=
  st.groups.entries.insertionSort before

def groupMembersByGroup (st : Store) (id : String) : List String :=
  (st.groupMembers.lookup id).getD []

structure ModelGroupDTO where
  id : String
  group : ModelGroup
  visibility : Visibility
  members : List String
  deriving DecidableEq, Repr

def buildModelGroupDTO (st : Store) (id : String) (group : ModelGroup) : ModelGroupDTO where
  id := id
  group := group
  visibility := (st.modelSettings.lookup group.gatewayModelName).getD .shown
  members := groupMembersByGroup st id

/-! ### Names -/

/-- A lower case of texts; which letters it knows is left open. -/
structure LowerCase where
  map : String → String
  map_ne : ∀ s, s ≠ "" → map s ≠ ""

instance : CoeFun LowerCase (fun _ => String → String) := ⟨LowerCase.map⟩

section Names
variable (lower : LowerCase)

variable (st : Store) (now : ℤ) (id name : String)

def nameKey : String := lower (trimSpace name)

def gatewayModelExists : Bool :=
  nameKey lower name ≠ "" ∧ nameKey lower name ∈ st.mappings.map (nameKey lower)

def groupNameExists : Bool :=
  nameKey lower name ≠ "" ∧
    nameKey lower name ∈ (modelGroups st).map fun g => nameKey lower g.2.gatewayModelName

def nameTakenGlobally (name excludeGroupID : String) : Bool :=
  nameKey lower name ≠ "" ∧ ((∃ g ∈ modelGroups st, g.1 ≠ excludeGroupID ∧
        nameKey lower g.2.gatewayModelName = nameKey lower name) ∨
      nameKey lower name ∈ st.mappings.map (nameKey lower))

def validateGroupMembers (st : Store) : List String → List String → Except GroupError (List String)
  | [], _ => .ok []
  | input::inputs, seen =>
    let name := trimSpace input
    if name = "" then .error .memberInvalid
    else if lower name ∈ seen then validateGroupMembers st inputs seen
    else if gatewayModelExists lower st name || groupNameExists lower st name then
      (validateGroupMembers st inputs (lower name::seen)).map (name::·)
    else .error .memberInvalid

def adjacency (excludeID groupName : String) (members : List String) :
    AList (fun _ : String => List String) :=
  AList.insert (nameKey lower groupName) members ((modelGroups st).foldl (fun adj g =>
    if g.1 = excludeID then adj
    else adj.insert (nameKey lower g.2.gatewayModelName) (groupMembersByGroup st g.1)) ∅)

def wouldCreateGroupCycle (excludeID groupName : String) (members : List String) :
    Bool :=
  let adj := adjacency lower st excludeID groupName members
  -- no path of the search is longer than there are groups
  visit adj.lookup (nameKey lower) (nameKey lower groupName) (adj.keys.length + 1) groupName [] = none

/-! ### The portal's calls -/

structure CreateModelGroupRequest where
  gatewayModelName : String
  displayName : String := ""
  status : String := ""
  failoverMode : String := ""
  traversal : String := ""
  visibility : String := ""
  loadedOnly : Bool := false
  memberOrder : String := ""
  climbSpeedMarginPercent : Option ℤ := none
  minTokensPerSecond : ℚ := 0
  minSpeedFallback : String := ""
  members : List String := []

structure UpdateModelGroupRequest where
  gatewayModelName : Option String := none
  displayName : Option String := none
  status : Option String := none
  failoverMode : Option String := none
  traversal : Option String := none
  visibility : Option String := none
  loadedOnly : Option Bool := none
  memberOrder : Option String := none
  climbSpeedMarginPercent : Option ℤ := none
  minTokensPerSecond : Option ℚ := none
  minSpeedFallback : Option String := none
  members : Option (List String) := none

def defaultClimbSpeedMarginPercent : ℤ := 20

structure GroupSelection where
  memberOrder : MemberOrder
  climbSpeedMarginPercent : ℤ
  minTokensPerSecond : ℚ
  minSpeedFallback : MinSpeedFallback

def normalizeGroupSelectionForCreate (req : CreateModelGroupRequest) :
    Except GroupError GroupSelection := do
  let memberOrder ← normalizeMemberOrderForWrite req.memberOrder
  let minSpeedFallback ← normalizeMinSpeedFallbackForWrite req.minSpeedFallback
  refuseIf (req.minTokensPerSecond < 0) .minTokensPerSecondInvalid
  let margin := req.climbSpeedMarginPercent.getD defaultClimbSpeedMarginPercent
  refuseIf (margin < 0) .climbSpeedMarginInvalid
  return { memberOrder, climbSpeedMarginPercent := margin
           minTokensPerSecond := req.minTokensPerSecond, minSpeedFallback }

def checkCreate (req : CreateModelGroupRequest) :
    Except GroupError (ModelGroup × List String × Option Visibility) := do
  let name := trimSpace req.gatewayModelName
  refuseIf (name = "") .nameRequired
  let status ← normalizeMappingStatus req.status
  let mode ← normalizeFailoverMode req.failoverMode
  let visibility ← normalizeVisibility req.visibility
  let selection ← normalizeGroupSelectionForCreate req
  let members ← validateGroupMembers lower st req.members []
  refuseIf (wouldCreateGroupCycle lower st "" name members) .cycle
  refuseIf (nameTakenGlobally lower st name "") .nameConflict
  let displayName := trimSpace req.displayName
  return ({ gatewayModelName := name
            displayName := if displayName = "" then name else displayName
            status := status
            failoverMode := mode
            traversal := normalizeTraversal req.traversal
            createdAt := now
            updatedAt := now
            loadedOnly := req.loadedOnly
            memberOrder := selection.memberOrder
            climbSpeedMarginPercent := selection.climbSpeedMarginPercent
            minTokensPerSecond := selection.minTokensPerSecond
            minSpeedFallback := selection.minSpeedFallback },
    members, if trimSpace req.visibility = "" then none else some visibility)

def setVisibility : Option Visibility → Store
  | none => st
  | some v => { st with modelSettings := st.modelSettings.insert name v }

def setGroupMembers : Option (List String) → Store
  | none => st
  | some members => { st with groupMembers := st.groupMembers.insert id members }

def writeGroup (group : ModelGroup) (members : Option (List String)) :
    Store :=
  setGroupMembers { st with groups := st.groups.insert id group } id members

/-- The random part of the new id is `hex`. -/
def createModelGroup (hex : String) (req : CreateModelGroupRequest) (st : Store) :
    Except GroupError ModelGroupDTO × Store :=
  match checkCreate lower st now req with
  | .error e => (.error e, st)
  | .ok (group, members, visibility) =>
    let id := "grp_" ++ hex
    if (st.groups.lookup id).isSome then (.error .storeConflict, st)
    else
      let st' := setVisibility (writeGroup st id group (some members)) group.gatewayModelName visibility
      (.ok (buildModelGroupDTO st' id group), st')

def updateName (old : String) : Option String → Except GroupError String
  | none => .ok old
  | some raw =>
    let name := trimSpace raw
    if name = "" then .error .nameRequired
    else if nameTakenGlobally lower st name id then .error .nameConflict
    else .ok name

def updateField {α β : Type} (old : β) (normalize : α → Except GroupError β) :
    Option α → Except GroupError β
  | none => .ok old
  | some raw => normalize raw

def nonNegative {α : Type} [LT α] [OfNat α 0] [DecidableLT α] (err : GroupError) (a : α) :
    Except GroupError α :=
  if a < 0 then .error err else .ok a

def updateFields (group : ModelGroup)
    (req : UpdateModelGroupRequest) : Except GroupError (ModelGroup × Option Visibility) := do
  let name ← updateName lower st id group.gatewayModelName req.gatewayModelName
  let displayName := (req.displayName.map trimSpace).getD group.displayName
  let status ← updateField group.status normalizeMappingStatus req.status
  let mode ← updateField group.failoverMode normalizeFailoverMode req.failoverMode
  let traversal := (req.traversal.map normalizeTraversal).getD group.traversal
  let visibility ← updateField none (fun raw => (normalizeVisibility raw).map some) req.visibility
  let memberOrder ← updateField group.memberOrder normalizeMemberOrderForWrite req.memberOrder
  let margin ← updateField group.climbSpeedMarginPercent (nonNegative .climbSpeedMarginInvalid)
    req.climbSpeedMarginPercent
  let minTokens ← updateField group.minTokensPerSecond (nonNegative .minTokensPerSecondInvalid)
    req.minTokensPerSecond
  let fallback ← updateField group.minSpeedFallback normalizeMinSpeedFallbackForWrite
    req.minSpeedFallback
  return ({ gatewayModelName := name
            displayName := if displayName = "" then name else displayName
            status := status
            failoverMode := mode
            traversal := traversal
            createdAt := group.createdAt
            updatedAt := now
            loadedOnly := req.loadedOnly.getD group.loadedOnly
            memberOrder := memberOrder
            climbSpeedMarginPercent := margin
            minTokensPerSecond := minTokens
            minSpeedFallback := fallback }, visibility)

def updateMembers : Option (List String) →
    Except GroupError (Option (List String))
  | none => .ok none
  | some inputs => do
    let members ← validateGroupMembers lower st inputs []
    refuseIf (wouldCreateGroupCycle lower st id name members) .cycle
    return some members

def updateModelGroup (rawID : String) (req : UpdateModelGroupRequest) (st : Store) :
    Except GroupError ModelGroupDTO × Store :=
  let id := trimSpace rawID
  match st.groups.lookup id with
  | none => (.error .notFound, st)
  | some group =>
    match updateFields lower st now id group req with
    | .error e => (.error e, st)
    | .ok (group', visibility) =>
      match updateMembers lower st id group'.gatewayModelName req.members with
      | .error e => (.error e, st)
      | .ok members =>
        let st' := setVisibility (writeGroup st id group' members) group'.gatewayModelName visibility
        (.ok (buildModelGroupDTO st' id group'), st')

def deleteModelGroup (rawID : String) (st : Store) : Except GroupError Unit × Store :=
  let id := trimSpace rawID
  if id = "" then (.error .notFound, st)
  else match st.groups.lookup id with
    | none => (.error .notFound, st)
    | some group =>
      (.ok (), { st with
        groups := st.groups.erase id
        groupMembers := st.groupMembers.erase id
        modelSettings := st.modelSettings.insert group.gatewayModelName .shown })

/-! ### Runs -/

inductive Op where
  | create (now : ℤ) (hex : String) (req : CreateModelGroupRequest)
  | update (now : ℤ) (id : String) (req : UpdateModelGroupRequest)
  | delete (id : String)
  | addMapping (name : String)
  | removeMapping (name : String)

def step : Op → Store
  | .create now hex req => (createModelGroup lower now hex req st).2
  | .update now id req => (updateModelGroup lower now id req st).2
  | .delete id => (deleteModelGroup id st).2
  | .addMapping name => { st with mappings := name::st.mappings }
  | .removeMapping name => { st with mappings := st.mappings.erase name }

def run (ops : List Op) : Store := ops.foldl (step lower) st

end Names

end OnPremGateway.ModelGroups
