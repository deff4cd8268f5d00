import OnPremGateway.ModelGroups
import OnPremGateway.CallOutcomes
import OnPremGateway.InferenceEvents
import OnPremGateway.RoutingTypes

/-!
# Model groups and cycles

The groups of the store form a graph: an edge leads from a group to each group
that one of its members names. A call that gives a group its members is refused
when it would close a cycle; a call that only renames a group is not looked at,
and the new name may be one that other groups already hold as a member.
-/

set_option autoImplicit false

namespace OnPremGateway.ModelGroupCycles
open RuntimeTypes CycleSearch ModelGroups List AList
open CallOutcomes InferenceEvents Relation

section Graph
variable (lower : LowerCase)

def GroupEdge (st : Store) (a b : String) : Prop :=
  (∃ g, st.groups.lookup a = some g) ∧ ∃ h, st.groups.lookup b = some h ∧
    nameKey lower h.gatewayModelName ∈ (groupMembersByGroup st a).map (nameKey lower)

def AcyclicGroups (st : Store) : Prop := Acyclic (GroupEdge lower st)

def UniqueNames (st : Store) : Prop :=
  ∀ a b g h, st.groups.lookup a = some g → st.groups.lookup b = some h →
    nameKey lower g.gatewayModelName = nameKey lower h.gatewayModelName → a = b

/-! ### The graph a search sees -/

theorem mem_modelGroups (st : Store) (e : Sigma fun _ : String => ModelGroup) :
    e ∈ modelGroups st ↔ st.groups.lookup e.1 = some e.2 := by
  rw [modelGroups, mem_insertionSort]
  exact mem_lookup_iff.symm

def addGroup (st : Store) (excludeID : String) (adj : AList (fun _ : String => List String))
    (e : Sigma fun _ : String => ModelGroup) : AList (fun _ : String => List String) :=
  if e.1 = excludeID then adj
  else adj.insert (nameKey lower e.2.gatewayModelName) (groupMembersByGroup st e.1)

theorem lookup_addGroups (st : Store) (excludeID k : String) (names : List String)
    (es : List (Sigma fun _ : String => ModelGroup)) (adj : AList (fun _ : String => List String))
    (hunique : ∀ e ∈ es, ∀ f ∈ es, e.1 ≠ excludeID → f.1 ≠ excludeID →
      nameKey lower e.2.gatewayModelName = nameKey lower f.2.gatewayModelName → e.1 = f.1) :
    (es.foldl (addGroup lower st excludeID) adj).lookup k = some names ↔
      (∃ e ∈ es, e.1 ≠ excludeID ∧ nameKey lower e.2.gatewayModelName = k ∧
        groupMembersByGroup st e.1 = names) ∨
      (∀ e ∈ es, e.1 ≠ excludeID → nameKey lower e.2.gatewayModelName ≠ k) ∧
        adj.lookup k = some names := by
  induction es generalizing adj with
  | nil => simp
  | cons e es ih =>
    rw [foldl_cons, ih _ fun f hf g hg =>
      hunique f (mem_cons_of_mem e hf) g (mem_cons_of_mem e hg)]
    by_cases hex : e.1 = excludeID
    · simp [addGroup, hex]
    by_cases hk : nameKey lower e.2.gatewayModelName = k
    · -- a later group of the same name is the same group
      have hsame : ∀ f ∈ es, f.1 ≠ excludeID → nameKey lower f.2.gatewayModelName = k →
          f.1 = e.1 := by
        intro f hf hfex hfk
        exact hunique f (mem_cons_of_mem e hf) e mem_cons_self hfex hex (hfk.trans hk.symm)
      rw [addGroup, if_neg hex, hk, lookup_insert, Option.some.injEq]
      constructor
      · rintro (⟨f,hf,h⟩ | ⟨-,hnames⟩)
        · exact .inl ⟨f,mem_cons_of_mem e hf,h⟩
        · exact .inl ⟨e,mem_cons_self,hex,hk,hnames⟩
      · rintro (⟨f,hf,hfex,hfk,hnames⟩ | ⟨hnone,-⟩)
        · by_cases hlater : ∃ g ∈ es, g.1 ≠ excludeID ∧ nameKey lower g.2.gatewayModelName = k
          · obtain ⟨g,hg,hgex,hgk⟩ := hlater
            have hgf : g.1 = f.1 :=
              hunique g (mem_cons_of_mem e hg) f hf hgex hfex (hgk.trans hfk.symm)
            exact .inl ⟨g,hg,hgex,hgk,hgf ▸ hnames⟩
          · have hfe : f.1 = e.1 := hunique f hf e mem_cons_self hfex hex (hfk.trans hk.symm)
            exact .inr ⟨fun g hg hgex hgk => hlater ⟨g,hg,hgex,hgk⟩,hfe ▸ hnames⟩
        · exact absurd hk (hnone e mem_cons_self hex)
    · rw [addGroup, if_neg hex, lookup_insert_ne (Ne.symm hk)]
      simp [hk]

def Written (st : Store) (id : String) (group : ModelGroup) (members : List String)
    (st' : Store) : Prop :=
  (∀ a, st'.groups.lookup a = if a = id then some group else st.groups.lookup a) ∧
    ∀ a, groupMembersByGroup st' a = if a = id then members else groupMembersByGroup st a

variable {lower} {st st' : Store} {id excludeID : String} {group : ModelGroup}
  {members : List String}

/-- The map of the search is that of the store after the write. -/
theorem lookup_adjacency (hw : Written st id group members st') (hunique : UniqueNames lower st')
    (hex : ∀ a g, st.groups.lookup a = some g → (a = excludeID ↔ a = id)) (k : String)
    (names : List String) :
    (adjacency lower st excludeID group.gatewayModelName members).lookup k = some names ↔
      ∃ a g, st'.groups.lookup a = some g ∧ nameKey lower g.gatewayModelName = k ∧
        groupMembersByGroup st' a = names := by
  have hself : st'.groups.lookup id = some group := by rw [hw.1, if_pos rfl]
  have hother : ∀ e ∈ modelGroups st, e.1 ≠ excludeID →
      e.1 ≠ id ∧ st'.groups.lookup e.1 = some e.2 ∧
        groupMembersByGroup st' e.1 = groupMembersByGroup st e.1 := by
    intro e he hne
    rw [mem_modelGroups] at he
    have hid : e.1 ≠ id := fun h => hne ((hex _ _ he).mpr h)
    rw [hw.1, hw.2, if_neg hid, if_neg hid]
    exact ⟨hid,he,rfl⟩
  have hfold := lookup_addGroups lower st excludeID k names (modelGroups st) ∅
    fun e he f hf hne hnf hkey =>
      hunique _ _ _ _ (hother e he hne).2.1 (hother f hf hnf).2.1 hkey
  by_cases hk : k = nameKey lower group.gatewayModelName
  · rw [adjacency, hk, lookup_insert, Option.some.injEq]
    constructor
    · intro hnames
      exact ⟨id,group,hself,rfl,by rw [hw.2, if_pos rfl, hnames]⟩
    · rintro ⟨a,g,ha,hkey,hnames⟩
      have haid := hunique _ _ _ _ ha hself hkey
      rw [hw.2, if_pos haid] at hnames
      exact hnames
  rw [adjacency, lookup_insert_ne hk]
  refine hfold.trans ?_
  simp only [lookup_empty, reduceCtorEq, and_false, or_false]
  constructor
  · rintro ⟨e,he,hne,hkey,hnames⟩
    exact ⟨e.1,e.2,(hother e he hne).2.1,hkey,(hother e he hne).2.2.trans hnames⟩
  · rintro ⟨a,g,ha,hkey,hnames⟩
    have haid : a ≠ id := by
      intro h
      rw [h, hself] at ha
      cases ha
      exact hk hkey.symm
    rw [hw.1, if_neg haid] at ha
    rw [hw.2, if_neg haid] at hnames
    exact ⟨⟨a,g⟩,(mem_modelGroups st _).mpr ha,fun h => haid ((hex a g ha).mp h),hkey,hnames⟩

def keyOf (lower : LowerCase) (st : Store) (a : String) : String :=
  ((st.groups.lookup a).map fun g => nameKey lower g.gatewayModelName).getD ""

theorem keyOf_eq {a : String} {g : ModelGroup} (h : st.groups.lookup a = some g) :
    keyOf lower st a = nameKey lower g.gatewayModelName := by
  rw [keyOf, h]
  rfl

theorem search_path_iff (hw : Written st id group members st') (hunique : UniqueNames lower st')
    (hex : ∀ a g, st.groups.lookup a = some g → (a = excludeID ↔ a = id)) :
    TransGen (Edge (adjacency lower st excludeID group.gatewayModelName members).lookup
        (nameKey lower)) (nameKey lower group.gatewayModelName)
        (nameKey lower group.gatewayModelName) ↔ TransGen (GroupEdge lower st') id id := by
  have hadj := lookup_adjacency hw hunique hex
  have hself : st'.groups.lookup id = some group := by rw [hw.1, if_pos rfl]
  -- an edge between keys is an edge between the groups of those names
  have hedge : ∀ {a b : String} {g h : ModelGroup}, st'.groups.lookup a = some g →
      st'.groups.lookup b = some h →
      (Edge (adjacency lower st excludeID group.gatewayModelName members).lookup (nameKey lower)
        (nameKey lower g.gatewayModelName) (nameKey lower h.gatewayModelName) ↔
        GroupEdge lower st' a b) := by
    intro a b g h ha hb
    constructor
    · rintro ⟨names,hnames,hmem⟩
      obtain ⟨c,f,hc,hkey,hmembers⟩ := (hadj _ _).mp hnames
      have hca := hunique _ _ _ _ hc ha hkey
      exact ⟨⟨g,ha⟩,h,hb,by rw [← hca, hmembers]; exact hmem⟩
    · rintro ⟨-,h',hb',hmem⟩
      rw [hb] at hb'
      cases hb'
      exact ⟨_,(hadj _ _).mpr ⟨a,g,ha,rfl,rfl⟩,hmem⟩
  have hsource : ∀ j k, Edge
      (adjacency lower st excludeID group.gatewayModelName members).lookup (nameKey lower) j k →
      ∃ c f, st'.groups.lookup c = some f ∧ nameKey lower f.gatewayModelName = j := by
    rintro j k ⟨names,hnames,-⟩
    obtain ⟨c,f,hc,hkey,-⟩ := (hadj _ _).mp hnames
    exact ⟨c,f,hc,hkey⟩
  constructor
  · intro hpath
    -- every node of the path but its end has edges, so it is a group
    have hreach : ∀ k, ReflTransGen (Edge
        (adjacency lower st excludeID group.gatewayModelName members).lookup (nameKey lower))
        (nameKey lower group.gatewayModelName) k → ∀ a g, st'.groups.lookup a = some g →
        nameKey lower g.gatewayModelName = k → ReflTransGen (GroupEdge lower st') id a := by
      intro k hk
      induction hk with
      | refl =>
        intro a g ha hkey
        rw [hunique _ _ _ _ ha hself hkey]
      | @tail j k _ hstep ih =>
        intro a g ha hkey
        obtain ⟨c,f,hc,hfkey⟩ := hsource j k hstep
        rw [← hfkey, ← hkey, hedge hc ha] at hstep
        exact (ih c f hc hfkey).tail hstep
    obtain ⟨k,hk,hstep⟩ := TransGen.tail'_iff.mp hpath
    obtain ⟨c,f,hc,hfkey⟩ := hsource k _ hstep
    rw [← hfkey, hedge hc hself] at hstep
    exact TransGen.tail' (hreach k hk c f hc hfkey) hstep
  · intro hpath
    have hstep : ∀ a b, GroupEdge lower st' a b → Edge
        (adjacency lower st excludeID group.gatewayModelName members).lookup (nameKey lower)
        (keyOf lower st' a) (keyOf lower st' b) := by
      rintro a b ⟨⟨g,ha⟩,h,hb,hmem⟩
      rw [keyOf_eq ha, keyOf_eq hb]
      exact (hedge ha hb).mpr ⟨⟨g,ha⟩,h,hb,hmem⟩
    rw [← keyOf_eq hself]
    exact TransGen.lift (keyOf lower st') hstep _ _ hpath

/-- A search in the store before the write tells whether the store after it has a
cycle. -/
theorem acyclic_written_iff (hw : Written st id group members st')
    (hunique : UniqueNames lower st')
    (hex : ∀ a g, st.groups.lookup a = some g → (a = excludeID ↔ a = id))
    (hst : AcyclicGroups lower st) : AcyclicGroups lower st' ↔
      wouldCreateGroupCycle lower st excludeID group.gatewayModelName members = false := by
  have hchange : ∀ x y, x ≠ id → y ≠ id → GroupEdge lower st' x y → GroupEdge lower st x y := by
    rintro x y hx hy ⟨⟨g,hg⟩,h,hh,hmem⟩
    rw [hw.1, if_neg hx] at hg
    rw [hw.1, if_neg hy] at hh
    rw [hw.2, if_neg hx] at hmem
    exact ⟨⟨g,hg⟩,h,hh,hmem⟩
  rw [AcyclicGroups, acyclic_iff_of_change hst id hchange, ← search_path_iff hw hunique hex,
    wouldCreateGroupCycle, decide_eq_false_iff_not, not_iff_not]
  symm
  apply visit_eq_none_iff _ _ _
    (adjacency lower st excludeID group.gatewayModelName members).keys.toFinset
  · intro a ha
    rw [mem_toFinset]
    exact lookup_isSome.mp (Option.isSome_iff_ne_none.mpr ha)
  · exact Nat.lt_succ_of_le (toFinset_card_le _)

end Graph

/-! ### What each call writes -/

variable {id name : String} {now : ℤ} {group : ModelGroup} {st' : Store}

section Calls
variable (lower : LowerCase) {st : Store}

theorem written_writeGroup (st : Store) (id name : String) (group : ModelGroup)
    (members : Option (List String)) (visibility : Option Visibility) :
    Written st id group (members.getD (groupMembersByGroup st id))
      (setVisibility (writeGroup st id group members) name visibility) := by
  have hvis : ∀ s : Store, (setVisibility s name visibility).groups = s.groups ∧
      (setVisibility s name visibility).groupMembers = s.groupMembers := by
    intro s
    cases visibility <;> exact ⟨rfl,rfl⟩
  rw [Written]
  simp only [groupMembersByGroup, hvis]
  constructor
  · intro a
    have hgroups : (writeGroup st id group members).groups = st.groups.insert id group := by
      cases members <;> rfl
    rw [hgroups]
    by_cases ha : a = id
    · rw [if_pos ha, ha, lookup_insert]
    · rw [if_neg ha, lookup_insert_ne ha]
  · intro a
    cases members with
    | none =>
      by_cases ha : a = id
      · rw [if_pos ha, ha]
        rfl
      · rw [if_neg ha]
        rfl
    | some members =>
      change ((st.groupMembers.insert id members).lookup a).getD [] = _
      by_cases ha : a = id
      · rw [if_pos ha, ha, lookup_insert]
        rfl
      · rw [if_neg ha, lookup_insert_ne ha]

theorem mem_trimSpace_of_not_isSpace (s : String) (c : Char) (hc : c ∈ s.toList)
    (hspace : isSpace c = false) : c ∈ (trimSpace s).toList := by
  have hdrop : ∀ l : List Char, c ∈ l → c ∈ l.dropWhile isSpace := by
    intro l hl
    rw [← takeWhile_append_dropWhile (p := isSpace) (l := l), mem_append] at hl
    apply hl.resolve_left
    intro htake
    rw [mem_takeWhile_imp htake] at hspace
    cases hspace
  rw [trimSpace, String.toList_ofList, mem_reverse]
  apply hdrop
  rw [mem_reverse]
  exact hdrop _ hc

/-- A name that is not blank is compared by a form that is not empty. -/
theorem nameKey_trimSpace_ne (raw : String) (h : trimSpace raw ≠ "") :
    nameKey lower (trimSpace raw) ≠ "" := by
  apply lower.map_ne
  rw [ne_eq, trimSpace_eq_empty_iff] at h ⊢
  intro hall
  apply h
  intro c hc
  by_contra hspace
  rw [Bool.not_eq_true] at hspace
  have hin := hall c (mem_trimSpace_of_not_isSpace raw c hc hspace)
  rw [hspace] at hin
  cases hin

theorem ne_of_not_taken {excludeID : String} (hname : nameKey lower name ≠ "")
    (h : nameTakenGlobally lower st name excludeID = false) (a : String) (g : ModelGroup)
    (ha : st.groups.lookup a = some g) (hne : a ≠ excludeID) :
    nameKey lower g.gatewayModelName ≠ nameKey lower name := by
  intro hkey
  rw [nameTakenGlobally, decide_eq_false_iff_not] at h
  exact h ⟨hname,.inl ⟨⟨a,g⟩,(mem_modelGroups st _).mpr ha,hne,hkey⟩⟩

theorem refuseIf_ok_iff {refused : Prop} [Decidable refused] {e : GroupError} {u : Unit} :
    refuseIf refused e = .ok u ↔ ¬ refused := by
  rw [refuseIf]
  split_ifs with h <;> simp [h]

theorem checkCreate_ok {req : CreateModelGroupRequest} {members : List String}
    {visibility : Option Visibility}
    (h : checkCreate lower st now req = .ok (group, members, visibility)) :
    nameKey lower group.gatewayModelName ≠ "" ∧
      wouldCreateGroupCycle lower st "" group.gatewayModelName members = false ∧
      nameTakenGlobally lower st group.gatewayModelName "" = false := by
  rw [checkCreate] at h
  simp only [bind_ok_iff, refuseIf_ok_iff, Bool.not_eq_true] at h
  obtain ⟨-,hname,_,-,_,-,_,-,_,-,members,-,-,hcycle,-,htaken,hpure⟩ := h
  cases hpure
  exact ⟨nameKey_trimSpace_ne lower _ hname,hcycle,htaken⟩

theorem updateName_ok {old : String} {req : Option String}
    (h : updateName lower st id old req = .ok name) : req = none ∧ name = old ∨
      nameKey lower name ≠ "" ∧ nameTakenGlobally lower st name id = false := by
  cases req with
  | none =>
    cases h
    exact .inl ⟨rfl,rfl⟩
  | some raw =>
    rw [updateName] at h
    by_cases hname : trimSpace raw = ""
    · rw [if_pos hname] at h
      cases h
    by_cases htaken : nameTakenGlobally lower st (trimSpace raw) id = true
    · rw [if_neg hname, if_pos htaken] at h
      cases h
    rw [if_neg hname, if_neg htaken] at h
    cases h
    exact .inr ⟨nameKey_trimSpace_ne lower raw hname,Bool.not_eq_true _ ▸ htaken⟩

theorem updateFields_ok {group' : ModelGroup} {req : UpdateModelGroupRequest}
    {visibility : Option Visibility}
    (h : updateFields lower st now id group req = .ok (group', visibility)) :
    req.gatewayModelName = none ∧ group'.gatewayModelName = group.gatewayModelName ∨
      nameKey lower group'.gatewayModelName ≠ "" ∧
        nameTakenGlobally lower st group'.gatewayModelName id = false := by
  rw [updateFields] at h
  simp only [bind_ok_iff] at h
  obtain ⟨name,hname,_,-,_,-,_,-,_,-,_,-,_,-,_,-,hpure⟩ := h
  cases hpure
  exact updateName_ok lower hname

theorem updateMembers_ok {req members : Option (List String)}
    (h : updateMembers lower st id name req = .ok members) : req = none ∧ members = none ∨
      req ≠ none ∧ ∃ ms, members = some ms ∧ wouldCreateGroupCycle lower st id name ms = false := by
  cases req with
  | none =>
    cases h
    exact .inl ⟨rfl,rfl⟩
  | some inputs =>
    rw [updateMembers] at h
    simp only [bind_ok_iff, refuseIf_ok_iff, Bool.not_eq_true] at h
    obtain ⟨ms,-,-,hcycle,hpure⟩ := h
    cases hpure
    exact .inr ⟨Option.some_ne_none inputs,ms,rfl,hcycle⟩

/-! ### Steps -/

def Sound (st : Store) : Prop := st.groups.lookup "" = none ∧ UniqueNames lower st

theorem Sound.written {members : List String} (h : Sound lower st)
    (hw : Written st id group members st') (hid : id ≠ "")
    (hfree : ∀ a g, st.groups.lookup a = some g → a ≠ id →
      nameKey lower g.gatewayModelName ≠ nameKey lower group.gatewayModelName) :
    Sound lower st' := by
  constructor
  · rw [hw.1, if_neg (Ne.symm hid)]
    exact h.1
  · intro a b g k ha hb hkey
    rw [hw.1] at ha hb
    by_cases haid : a = id
    · by_cases hbid : b = id
      · rw [haid, hbid]
      · rw [if_pos haid] at ha
        rw [if_neg hbid] at hb
        cases ha
        exact absurd hkey.symm (hfree b k hb hbid)
    rw [if_neg haid] at ha
    by_cases hbid : b = id
    · rw [if_pos hbid] at hb
      cases hb
      exact absurd hkey (hfree a g ha haid)
    · rw [if_neg hbid] at hb
      exact h.2 a b g k ha hb hkey

/-- A call that changes a group and leaves its members would pass the check that
a call with members has to pass. -/
def renameChecked (st : Store) : Op → Bool
  | .update now rawID req =>
    let id := trimSpace rawID
    match req.members, st.groups.lookup id with
    | none, some group =>
      match updateFields lower st now id group req with
      | .ok (group', _) =>
        !wouldCreateGroupCycle lower st id group'.gatewayModelName (groupMembersByGroup st id)
      | .error _ => true
    | _, _ => true
  | _ => true

inductive Effect (st : Store) : Op → Store → Prop where
  | same (op : Op) {st' : Store} (hgroups : st'.groups = st.groups)
      (hmembers : st'.groupMembers = st.groupMembers)
      (hchecked : renameChecked lower st op = true) : Effect st op st'
  | created {now : ℤ} {hex : String} {req : CreateModelGroupRequest} {group : ModelGroup}
      {members : List String} {st' : Store} (hnew : st.groups.lookup ("grp_" ++ hex) = none)
      (hw : Written st ("grp_" ++ hex) group members st')
      (hname : nameKey lower group.gatewayModelName ≠ "")
      (hcycle : wouldCreateGroupCycle lower st "" group.gatewayModelName members = false)
      (htaken : nameTakenGlobally lower st group.gatewayModelName "" = false) :
      Effect st (.create now hex req) st'
  | updated {now : ℤ} {id : String} {req : UpdateModelGroupRequest} {group group' : ModelGroup}
      {visibility : Option Visibility} {members : Option (List String)} {st' : Store}
      (hold : st.groups.lookup (trimSpace id) = some group)
      (hfields : updateFields lower st now (trimSpace id) group req = .ok (group', visibility))
      (hmembers : updateMembers lower st (trimSpace id) group'.gatewayModelName req.members =
        .ok members)
      (hw : Written st (trimSpace id) group'
        (members.getD (groupMembersByGroup st (trimSpace id))) st') :
      Effect st (.update now id req) st'
  | deleted {id : String} {st' : Store} (hgroups : st'.groups = st.groups.erase (trimSpace id))
      (hmembers : st'.groupMembers = st.groupMembers.erase (trimSpace id)) :
      Effect st (.delete id) st'

theorem renameChecked_of_members {req : UpdateModelGroupRequest} (h : req.members ≠ none) :
    renameChecked lower st (.update now id req) = true := by
  rw [renameChecked]
  cases hmembers : req.members with
  | none => exact absurd hmembers h
  | some members => rfl

theorem step_effect (st : Store) (op : Op) : Effect lower st op (step lower st op) := by
  cases op with
  | create now hex req =>
    rw [step, createModelGroup]
    cases hcheck : checkCreate lower st now req with
    | error e => exact .same _ rfl rfl rfl
    | ok out =>
      obtain ⟨group,members,visibility⟩ := out
      obtain ⟨hname,hcycle,htaken⟩ := checkCreate_ok lower hcheck
      dsimp only
      cases hold : st.groups.lookup ("grp_" ++ hex) with
      | some old => exact .same _ rfl rfl rfl
      | none =>
        have hw := written_writeGroup st ("grp_" ++ hex) group.gatewayModelName group (some members)
          visibility
        exact .created hold hw hname hcycle htaken
  | update now id req =>
    rw [step, updateModelGroup]
    dsimp only
    cases hold : st.groups.lookup (trimSpace id) with
    | none =>
      apply Effect.same _ rfl rfl
      simp [renameChecked, hold]
    | some group =>
      dsimp only
      cases hfields : updateFields lower st now (trimSpace id) group req with
      | error e =>
        apply Effect.same _ rfl rfl
        rw [renameChecked, hold]
        cases req.members <;> simp [hfields]
      | ok out =>
        obtain ⟨group',visibility⟩ := out
        dsimp only
        cases hmembers : updateMembers lower st (trimSpace id) group'.gatewayModelName req.members with
        | error e =>
          apply Effect.same _ rfl rfl
          apply renameChecked_of_members
          intro hnone
          rw [hnone] at hmembers
          cases hmembers
        | ok members =>
          exact .updated hold hfields hmembers (written_writeGroup st _ _ group' members visibility)
  | delete id =>
    rw [step, deleteModelGroup]
    by_cases hid : trimSpace id = ""
    · rw [if_pos hid]
      exact .same _ rfl rfl rfl
    rw [if_neg hid]
    cases hold : st.groups.lookup (trimSpace id) with
    | none => exact .same _ rfl rfl rfl
    | some group => exact .deleted rfl rfl
  | addMapping name => exact .same _ rfl rfl rfl
  | removeMapping name => exact .same _ rfl rfl rfl

theorem grp_ne_empty (hex : String) : "grp_" ++ hex ≠ "" := by
  intro h
  have hlist := congrArg String.toList h
  rw [String.toList_append] at hlist
  cases hlist

theorem lookup_of_lookup_erase (hgroups : st'.groups = st.groups.erase id) (a : String)
    (g : ModelGroup) (h : st'.groups.lookup a = some g) : a ≠ id ∧ st.groups.lookup a = some g := by
  rw [hgroups] at h
  by_cases ha : a = id
  · rw [ha, lookup_erase] at h
    cases h
  · rw [lookup_erase_ne ha] at h
    exact ⟨ha,h⟩

theorem sound_step (h : Sound lower st) (op : Op) : Sound lower (step lower st op) := by
  cases step_effect lower st op with
  | same _ hgroups hmembers =>
    rw [Sound, UniqueNames, hgroups]
    exact h
  | created hnew hw hname hcycle htaken =>
    apply h.written lower hw (grp_ne_empty _)
    intro a g ha _
    apply ne_of_not_taken lower hname htaken a g ha
    intro hempty
    rw [hempty, h.1] at ha
    cases ha
  | @updated _ id _ _ _ _ _ _ hold hfields hmembers hw =>
    have hid : trimSpace id ≠ "" := by
      intro hempty
      rw [hempty, h.1] at hold
      cases hold
    apply h.written lower hw hid
    intro a g ha hne
    cases updateFields_ok lower hfields with
    | inl hkept =>
      rw [hkept.2]
      intro hkey
      exact hne (h.2 _ _ _ _ ha hold hkey)
    | inr hfree => exact ne_of_not_taken lower hfree.1 hfree.2 a g ha hne
  | @deleted id _ hgroups hmembers =>
    have hlookup := lookup_of_lookup_erase hgroups
    constructor
    · rw [Option.eq_none_iff_forall_ne_some]
      intro g hg
      have hold := (hlookup "" g hg).2
      rw [h.1] at hold
      cases hold
    · intro a b g k ha hb hkey
      exact h.2 a b g k (hlookup a g ha).2 (hlookup b k hb).2 hkey

theorem acyclic_erase (hgroups : st'.groups = st.groups.erase id)
    (hmembers : st'.groupMembers = st.groupMembers.erase id) (h : AcyclicGroups lower st) :
    AcyclicGroups lower st' := by
  apply Acyclic.mono h
  rintro a b ⟨⟨g,hg⟩,k,hk,hmem⟩
  obtain ⟨ha,hold⟩ := lookup_of_lookup_erase hgroups a g hg
  refine ⟨⟨g,hold⟩,k,(lookup_of_lookup_erase hgroups b k hk).2,?_⟩
  rwa [groupMembersByGroup, hmembers, lookup_erase_ne ha] at hmem

/-- One call keeps the groups free of cycles exactly when it does not slip a
rename past the check. -/
theorem acyclic_step_iff (h : Sound lower st) (hst : AcyclicGroups lower st) (op : Op) :
    AcyclicGroups lower (step lower st op) ↔ renameChecked lower st op = true := by
  have hsound := sound_step lower h op
  cases step_effect lower st op with
  | same _ hgroups hmembers hchecked =>
    apply iff_of_true _ hchecked
    apply Acyclic.mono hst
    intro a b hab
    rwa [GroupEdge, groupMembersByGroup, hgroups, hmembers] at hab
  | created hnew hw hname hcycle htaken =>
    apply iff_of_true _ rfl
    apply (acyclic_written_iff hw hsound.2 _ hst).mpr hcycle
    intro a g ha
    apply iff_of_false
    · rintro rfl
      rw [h.1] at ha
      cases ha
    · rintro rfl
      rw [hnew] at ha
      cases ha
  | @updated now id req group group' visibility members _ hold hfields hmembers hw =>
    rw [acyclic_written_iff hw hsound.2 (fun _ _ _ => Iff.rfl) hst]
    cases updateMembers_ok lower hmembers with
    | inl hkept =>
      rw [renameChecked, hkept.1, hkept.2, hold]
      dsimp only
      rw [hfields, Option.getD_none, Bool.not_eq_true']
    | inr hgiven =>
      obtain ⟨hne,ms,rfl,hcycle⟩ := hgiven
      exact iff_of_true hcycle (renameChecked_of_members lower hne)
  | deleted hgroups hmembers =>
    exact iff_of_true (acyclic_erase lower hgroups hmembers hst) rfl

/-! ### Runs -/

/-- No call of the run slips a rename past the check. -/
def Checked (st : Store) : List Op → Prop
  | [] => True
  | op::ops => renameChecked lower st op = true ∧ Checked (step lower st op) ops

theorem acyclic_run_iff (h : Sound lower st) (hst : AcyclicGroups lower st) (ops : List Op) :
    (∀ n, AcyclicGroups lower (run lower st (ops.take n))) ↔ Checked lower st ops := by
  induction ops generalizing st with
  | nil =>
    simp only [take_nil]
    exact iff_of_true (fun _ => hst) trivial
  | cons op ops ih =>
    have hstep := acyclic_step_iff lower h hst op
    constructor
    · intro hall
      have hfirst := hall 1
      rw [take_succ_cons, take_zero] at hfirst
      refine ⟨hstep.mp hfirst,(ih (sound_step lower h op) hfirst).mp ?_⟩
      intro n
      exact hall (n+1)
    · rintro ⟨hchecked,hrest⟩ n
      cases n with
      | zero => exact hst
      | succ n => exact (ih (sound_step lower h op) (hstep.mpr hchecked)).mpr hrest n

theorem sound_empty : Sound lower {} := ⟨rfl,fun _ _ _ _ ha => by cases ha⟩

theorem acyclic_empty : AcyclicGroups lower {} := by
  intro a ha
  obtain ⟨b,-,⟨g,hg⟩,-⟩ := TransGen.tail'_iff.mp ha
  cases hg

/-- From no groups on, the groups stay free of cycles exactly as long as no call
slips a rename past the check. -/
theorem model_groups_acyclic_iff (lower : LowerCase) (ops : List Op) :
    (∀ n, AcyclicGroups lower (run lower {} (ops.take n))) ↔ Checked lower {} ops :=
  acyclic_run_iff lower (sound_empty lower) (acyclic_empty lower) ops

def toLowerCase : LowerCase where
  map := RoutingTypes.toLower
  map_ne := by
    intro s hs hempty
    apply hs
    have hlist := congrArg String.toList hempty
    rw [RoutingTypes.toLower, String.toList_ofList] at hlist
    exact String.toList_eq_nil_iff.mp (List.map_eq_nil_iff.mp hlist)

/-- A group with a model of its own name to come: the model goes, and the group
takes its name. -/
def renameOntoMember : List Op :=
  [.addMapping "llama", .create 0 "1" { gatewayModelName := "chat", members := ["llama"] },
    .removeMapping "llama", .update 1 "grp_1" { gatewayModelName := some "Llama" }]

theorem rename_closes_cycle :
    ¬ AcyclicGroups toLowerCase (run toLowerCase {} renameOntoMember) := by
  intro h
  apply h "grp_1"
  apply TransGen.single
  refine ⟨⟨_,by rfl⟩,_,by rfl,?_⟩
  decide +kernel

end Calls

end OnPremGateway.ModelGroupCycles
