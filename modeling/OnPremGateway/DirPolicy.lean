import Mathlib

/-!
# The directories a child may run in

A work directory is permitted inside an allowed one. Both paths are cleaned, and the
one is inside the other when it is the other or goes on past a separator. Of the root
this is true of no directory but the root.
-/

set_option autoImplicit false

namespace OnPremGateway.DirPolicy
open List

abbrev Path := List Char

def separator : Char := '/'

def isAbs (p : Path) : Bool := p.head? = some separator

/-- The texts between the separators. -/
def elements : Path → List Path
  | [] => [[]]
  | c::p => if c = separator then []::elements p else match elements p with
    | [] => [[c]]
    | e::es => (c::e)::es

def components (p : Path) : List Path := (elements p).filter (· ≠ [])

/-- The names that are left of `.` and `..`, the last one first. -/
def resolve (rooted : Bool) : List Path → List Path → List Path
  | kept, [] => kept
  | kept, name::names =>
    if name = ['.'] then resolve rooted kept names
    else if name ≠ ['.', '.'] then resolve rooted (name::kept) names
    else match kept with
    | [] => resolve rooted (if rooted then [] else [name]) names
    | top::below => resolve rooted (if top = ['.', '.'] then name::top::below else below) names

/-- Each name behind a separator; the root has none. -/
def rooted (names : List Path) : Path :=
  if names = [] then [separator] else names.flatMap (separator :: ·)

/-- The documented rules of `filepath.Clean`. -/
def clean (p : Path) : Path :=
  let names := (resolve (isAbs p) [] (components p)).reverse
  if isAbs p then rooted names
  else if names = [] then ['.'] else [separator].intercalate names

def withinDir (candidate dir : Path) : Bool :=
  if candidate = [] ∨ dir = [] then false
  else clean candidate = clean dir || (clean dir ++ [separator]).isPrefixOf (clean candidate)

def allowedDirBase (entry : Path) : Path :=
  if entry = ['*'] then []
  else if ['/', '*'].isSuffixOf entry || ['\\', '*'].isSuffixOf entry then entry.take (entry.length-2)
  else entry

/-- The directory is on the way to the candidate. -/
def Contains (dir candidate : Path) : Prop := components (clean dir) <+: components (clean candidate)

/-! ### Elements of a path -/

theorem elements_ne_nil (p : Path) : elements p ≠ [] := by
  cases p with
  | nil => simp [elements]
  | cons c p =>
    rw [elements]
    split
    · simp
    · split <;> simp

theorem elements_append (p q : Path) : elements (p ++ separator::q) = elements p ++ elements q := by
  induction p with
  | nil => simp [elements]
  | cons c p ih =>
    by_cases hc : c = separator
    · simp [elements, hc, ih]
    · cases he : elements p with
      | nil => exact absurd he (elements_ne_nil p)
      | cons e es => simp [elements, hc, ih, he]

theorem elements_single {p : Path} (h : separator ∉ p) : elements p = [p] := by
  induction p with
  | nil => rfl
  | cons c p ih =>
    simp only [mem_cons, not_or] at h
    simp [elements, Ne.symm h.1, ih h.2]

theorem separator_not_mem (p : Path) : ∀ e ∈ elements p, separator ∉ e := by
  induction p with
  | nil => simp [elements]
  | cons c p ih =>
    by_cases hc : c = separator
    · simpa [elements, hc] using ih
    cases he : elements p with
    | nil => exact absurd he (elements_ne_nil p)
    | cons e es =>
      rw [he] at ih
      simp_all [elements, Ne.symm hc]

def Proper (names : List Path) : Prop := ∀ name ∈ names, name ≠ [] ∧ separator ∉ name

variable {names ds cs : List Path}

theorem elements_names {name : Path} (h : separator ∉ name) (hn : Proper names) :
    elements (name ++ names.flatMap (separator :: ·)) = name::names := by
  induction names generalizing name with
  | nil => simpa using elements_single h
  | cons m names ih =>
    have hm := hn m mem_cons_self
    rw [flatMap_cons, cons_append, elements_append, elements_single h,
      ih hm.2 fun x hx => hn x (mem_cons_of_mem m hx)]
    rfl

theorem elements_rooted (hn : Proper names) :
    elements (rooted names) = []::if names = [] then [[]] else names := by
  by_cases h : names = []
  · subst h
    rfl
  · simpa [rooted, h] using elements_names (not_mem_nil (a := separator)) hn

theorem components_rooted (hn : Proper names) : components (rooted names) = names := by
  rw [components, elements_rooted hn, filter_cons_of_neg (by simp)]
  split
  · next h =>
    rw [h]
    rfl
  · exact filter_eq_self.mpr fun x hx => by simpa using (hn x hx).1

theorem rooted_eq_root (hn : Proper names) : rooted names = [separator] ↔ names = [] := by
  constructor
  · intro h
    rw [← components_rooted hn, h]
    rfl
  · intro h
    rw [h]
    rfl

theorem resolve_subset (rooted : Bool) (kept names : List Path) :
    resolve rooted kept names ⊆ kept ++ names := by
  fun_induction resolve rooted kept names <;> grind

theorem proper_names (abs : Bool) (p : Path) : Proper (resolve abs [] (components p)).reverse := by
  intro name hname
  have hmem := resolve_subset abs [] (components p) (mem_reverse.mp hname)
  simp only [components, nil_append, mem_filter, decide_eq_true_eq] at hmem
  exact ⟨hmem.2,separator_not_mem p name hmem.1⟩

theorem clean_rooted {p : Path} (h : isAbs p = true) : ∃ names, Proper names ∧ clean p = rooted names :=
  ⟨_,proper_names true p,by simp [clean, h]⟩

/-! ### Containment -/

/-- A path that goes on past a separator has more names, and the first path has some. -/
theorem continues_iff (hd : Proper ds) (hc : Proper cs) :
    rooted ds ++ [separator] <+: rooted cs ↔ ds ≠ [] ∧ ds <+: cs ∧ ds ≠ cs := by
  constructor
  · rintro ⟨rest,hrest⟩
    have hne := elements_ne_nil rest
    have he := congrArg elements hrest
    rw [append_assoc, singleton_append, elements_append, elements_rooted hd, elements_rooted hc,
      cons_append, cons.injEq] at he
    have hmore : cs = [] ∨ cs ≠ [] ∧ (if ds = [] then [[]] else ds) ++ elements rest = cs := by
      by_cases h : cs = []
      · exact .inl h
      · exact .inr ⟨h,by simpa [h] using he.2⟩
    rcases hmore with rfl | ⟨-,hmore⟩
    · by_cases h : ds = []
      · simp [h, hne] at he
      · simp [h, hne, append_eq_singleton_iff] at he
    by_cases h : ds = []
    · -- the name after the second separator of two would be empty
      exact absurd rfl (hc [] (by simp [← hmore, h])).1
    · rw [if_neg h] at hmore
      exact ⟨h,⟨_,hmore⟩,fun heq => hne (by simpa [heq] using hmore)⟩
  · rintro ⟨hne,⟨more,rfl⟩,hmore⟩
    cases more with
    | nil => simp at hmore
    | cons m more => exact ⟨m ++ more.flatMap (separator :: ·),by simp [rooted, hne]⟩

theorem withinDir_iff {c d : Path} (hc : isAbs c = true) (hd : isAbs d = true) :
    withinDir c d = true ↔ Contains d c ∧ (clean d = [separator] → clean c = [separator]) := by
  obtain ⟨cs,hcs,hcc⟩ := clean_rooted hc
  obtain ⟨ds,hds,hdc⟩ := clean_rooted hd
  have hsome : ¬(c = [] ∨ d = []) := by
    rintro (rfl | rfl)
    · cases hc
    · cases hd
  have heq : rooted cs = rooted ds ↔ cs = ds := by
    refine ⟨fun h => ?_,fun h => by rw [h]⟩
    rw [← components_rooted hcs, h, components_rooted hds]
  rw [withinDir, if_neg hsome, Contains, hcc, hdc, components_rooted hcs, components_rooted hds,
    rooted_eq_root hcs, rooted_eq_root hds, Bool.or_eq_true, decide_eq_true_eq, heq, isPrefixOf_iff_prefix,
    continues_iff hds hcs]
  constructor
  · rintro (rfl | ⟨hne,hunder,-⟩)
    · exact ⟨prefix_rfl,id⟩
    · exact ⟨hunder,fun h => absurd h hne⟩
  · rintro ⟨hunder,hroot⟩
    by_cases h : cs = ds
    · exact .inl h
    · refine .inr ⟨fun hnil => h ?_,hunder,Ne.symm h⟩
      rw [hroot hnil, hnil]

theorem head_clean {p : Path} (h : isAbs p = false) : ∃ c q, clean p = c::q ∧ c ≠ separator := by
  by_cases hn : (resolve false [] (components p)).reverse = []
  · exact ⟨'.',[],by simp [clean, h, hn],by decide⟩
  obtain ⟨name,names,hnames⟩ := exists_cons_of_ne_nil hn
  obtain ⟨hne,hfree⟩ := proper_names false p name (by simp [hnames])
  obtain ⟨c,q,rfl⟩ := exists_cons_of_ne_nil hne
  have hc : c ≠ separator := fun h => hfree (h ▸ mem_cons_self)
  cases names with
  | nil => exact ⟨c,q,by simp [clean, h, hnames],hc⟩
  | cons m names => exact ⟨c,q ++ separator::[separator].intercalate (m::names),
    by simp [clean, h, hnames, intercalate_cons_cons],hc⟩

/-- Nothing absolute is inside a directory that is not. -/
theorem isAbs_of_withinDir {c d : Path} (hc : isAbs c = true) (h : withinDir c d = true) :
    isAbs d = true := by
  by_contra hd
  obtain ⟨a,q,hq,ha⟩ := head_clean (Bool.not_eq_true _ ▸ hd)
  obtain ⟨names,-,hclean⟩ := clean_rooted hc
  obtain ⟨r,hr⟩ : ∃ r, rooted names = separator::r := by
    cases names with
    | nil => exact ⟨[],rfl⟩
    | cons name names => exact ⟨_,rfl⟩
  rw [withinDir] at h
  split at h
  · cases h
  rw [hclean, hq, hr, Bool.or_eq_true, decide_eq_true_eq, isPrefixOf_iff_prefix] at h
  rcases h with h | h
  · exact ha (cons.inj h).1.symm
  · exact ha (cons_prefix_cons.mp h).1

/-- A work directory is permitted exactly inside the directory, except that the root
contains nothing but itself; and no entry permits more than it or what it is
shortened to contains. -/
theorem containment_iff (c d e : Path) (hc : isAbs c = true) (hd : isAbs d = true) :
    ((withinDir c d = true ↔ Contains d c) ∧ (withinDir c (allowedDirBase e) = true → Contains e c ∨
        (['/', '*'] <:+ e ∨ ['\\', '*'] <:+ e) ∧ Contains (e.take (e.length-2)) c)) ↔
    clean d ≠ [separator] ∨ clean c = [separator] := by
  have hentry (x : Path) (hx : withinDir c x = true) : Contains x c :=
    ((withinDir_iff hc (isAbs_of_withinDir hc hx)).mp hx).1
  rw [withinDir_iff hc hd]
  constructor
  · rintro ⟨hiff,-⟩
    by_contra hnot
    simp only [not_or, not_not] at hnot
    have hroot : Contains d c := by
      rw [Contains, hnot.1]
      exact nil_prefix
    exact hnot.2 ((hiff.mpr hroot).2 hnot.1)
  · intro h
    refine ⟨⟨And.left,fun hcd => ⟨hcd,fun hroot => h.resolve_left (not_not.mpr hroot)⟩⟩,fun hx => ?_⟩
    rw [allowedDirBase] at hx
    split at hx
    · simp [withinDir] at hx
    split at hx
    · next hsuffix =>
      rw [Bool.or_eq_true, isSuffixOf_iff_suffix, isSuffixOf_iff_suffix] at hsuffix
      exact .inr ⟨hsuffix,hentry _ hx⟩
    · exact .inl (hentry e hx)

theorem containment_iff_models : withinDir "/srv/models/a/..".toList "/srv//models".toList = true ∧
      (withinDir "/srv/models/a/..".toList "/srv//models".toList = true ↔
        Contains "/srv//models".toList "/srv/models/a/..".toList) :=
  ⟨by decide,((containment_iff _ _ [] (by decide) (by decide)).mpr (.inl (by decide))).1⟩

theorem root_contains_nothing :
    withinDir "/srv".toList "/".toList = false ∧ Contains "/".toList "/srv".toList := by
  constructor
  · decide
  · exact nil_prefix

end OnPremGateway.DirPolicy
