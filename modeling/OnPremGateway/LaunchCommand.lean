import OnPremGateway.LaunchExpansion

/-!
# The reported launch command

The command a child was launched with is reported with every secret replaced
by the placeholder that produced it, and with the values of a spec's own
variables withheld where the specs come from a local file. Two launches that
differ only in their secrets are reported alike.
-/

set_option autoImplicit false

namespace OnPremGateway.LaunchCommand
open RuntimeTypes List
open MarkedText
open LaunchExpansion

def maxResolvedCommandBytes : ℕ := 16384

def envRedactedMask : String := "•••"

structure ResolvedCommand where
  binary : String
  args : List Bytes := []
  workDir : String
  env : List Bytes := []
  masked : Bool := false
  envRedacted : Bool := false
  truncated : Bool := false
  deriving DecidableEq

def maskSecretSpans (s : Bytes) (spans : List SecretSpan) : Bytes × Bool :=
  replaceMarks (fun label => bytes label.mask) s spans

structure Report where
  out : ResolvedCommand
  budget : ℕ

def Report.add (r : Report) (append : ResolvedCommand → ResolvedCommand) (s : Bytes) : Report :=
  if s.length > r.budget then { r with out := { r.out with truncated := true } }
  else { out := append r.out, budget := r.budget-s.length }

def Report.addMasked (r : Report) (append : Bytes → ResolvedCommand → ResolvedCommand)
    (x : Expanded) : Report :=
  let (masked, changed) := maskSecretSpans x.text x.spans
  { r with out := { r.out with masked := r.out.masked || changed } }.add (append masked) masked

def appendArg (s : Bytes) (c : ResolvedCommand) : ResolvedCommand := { c with args := c.args ++ [s] }

def appendEnv (s : Bytes) (c : ResolvedCommand) : ResolvedCommand := { c with env := c.env ++ [s] }

def Report.addArg (r : Report) (a : Expanded) : Report := r.addMasked appendArg a

def entryKey (s : Bytes) : Bytes := s.takeWhile (fun b => b ≠ 61)

def Report.addEnv (maskSpecEnv : Bool) (r : Report) (e : EnvEntry) : Report :=
  if maskSpecEnv && e.fromSpec then
    let masked := entryKey e.entry.text ++ bytes ("=" ++ envRedactedMask)
    { r with out := { r.out with envRedacted := true } }.add (appendEnv masked) masked
  else r.addMasked appendEnv e.entry

def resolvedCommand (H : Host) (ex : ExpandedSpec) (spec : Spec) (maskSpecEnv : Bool) :
    ResolvedCommand :=
  let r : Report :=
    { out := { binary := spec.binary, workDir := effectiveWorkDir H spec }
      budget := maxResolvedCommandBytes }
  (ex.env.foldl (Report.addEnv maskSpecEnv) (ex.args.foldl Report.addArg r)).out

section Lists
variable {α β γ ε : Type}

theorem mapM_ok_iff (f : α → Except ε β) (xs : List α) (ys : List β) :
    xs.mapM f = .ok ys ↔ List.Forall₂ (fun x y => f x = .ok y) xs ys := by
  induction xs generalizing ys with
  | nil =>
    rw [mapM_nil, forall₂_nil_left_iff]
    exact ⟨fun h => (Except.ok.inj h).symm,fun h => h ▸ rfl⟩
  | cons x xs ih =>
    rw [mapM_cons, forall₂_cons_left_iff]
    constructor
    · intro h
      cases hx : f x with
      | error e =>
        rw [hx] at h
        cases h
      | ok y =>
        rw [hx] at h
        cases hxs : xs.mapM f with
        | error e =>
          rw [hxs] at h
          cases h
        | ok zs =>
          rw [hxs] at h
          exact ⟨y,zs,rfl,(ih zs).mp hxs,(Except.ok.inj h).symm⟩
    · rintro ⟨y,zs,hx,hzs,rfl⟩
      rw [hx, (ih zs).mpr hzs]
      rfl

/-- A second pass that goes along with the first wherever that succeeds. -/
theorem forall₂_follow {F : α → β → Prop} {G : α → γ → Prop} {R : β → γ → Prop}
    {xs : List α} {ys : List β} (h : List.Forall₂ F xs ys)
    (hs : ∀ x y, F x y → ∃ z, G x z ∧ R y z) :
    ∃ zs, List.Forall₂ G xs zs ∧ List.Forall₂ R ys zs := by
  induction h with
  | nil => exact ⟨[],.nil,.nil⟩
  | cons hxy _ ih =>
    obtain ⟨z,hz,hr⟩ := hs _ _ hxy
    obtain ⟨zs,hzs,hrs⟩ := ih
    exact ⟨z::zs,.cons hz hzs,.cons hr hrs⟩

theorem forall₂_both {F : α → β → Prop} {G : α → γ → Prop} {R : β → γ → Prop}
    {xs : List α} {ys : List β} {zs : List γ} (h : List.Forall₂ F xs ys)
    (hg : List.Forall₂ G xs zs) (hs : ∀ x y z, F x y → G x z → R y z) : List.Forall₂ R ys zs := by
  induction h generalizing zs with
  | nil =>
    cases hg
    exact .nil
  | cons hxy _ ih =>
    cases hg with
    | cons hxz hg => exact .cons (hs _ _ _ hxy hxz) (ih hg)

theorem foldlM_follow {f : β → α → Except ε β} {g : γ → α → Except ε γ} {R : β → γ → Prop}
    (hs : ∀ a x y x', R x y → f x a = .ok x' → ∃ y', g y a = .ok y' ∧ R x' y') (as : List α) :
    ∀ x y x', R x y → as.foldlM f x = .ok x' → ∃ y', as.foldlM g y = .ok y' ∧ R x' y' := by
  induction as with
  | nil =>
    intro x y x' hxy h
    cases h
    exact ⟨y,rfl,hxy⟩
  | cons a as ih =>
    intro x y x' hxy h
    rw [foldlM_cons] at h
    cases hx : f x a with
    | error e =>
      rw [hx] at h
      cases h
    | ok x₁ =>
      rw [hx] at h
      obtain ⟨y₁,hy,hxy₁⟩ := hs a x y x₁ hxy hx
      rw [foldlM_cons, hy]
      exact ih x₁ y₁ x' hxy₁ h

theorem foldl_forall₂ (f : γ → α → γ) {xs ys : List α}
    (h : List.Forall₂ (fun x y => ∀ r, f r x = f r y) xs ys) (r : γ) :
    xs.foldl f r = ys.foldl f r := by
  induction h generalizing r with
  | nil => rfl
  | cons hxy _ ih => rw [foldl_cons, foldl_cons, hxy, ih]

end Lists

variable {x y : Expanded}

section TwoLaunches

def render (ps : List (Piece UInt8 SecretLabel)) : Expanded := ⟨text ps, marks ps 0⟩

/-- Two expanded texts that differ at most in their secrets. -/
def Alike (x y : Expanded) : Prop :=
  ∃ ps qs, List.Forall₂ Piece.Alike ps qs ∧ x = render ps ∧ y = render qs

theorem render_writeString (ps : List (Piece UInt8 SecretLabel)) (v : Bytes) :
    (render ps).writeString v = render (ps ++ [.plain v]) := by
  simp [render, Expanded.writeString, marks_append, text, marks, Piece.text]

theorem render_writeSecret (ps : List (Piece UInt8 SecretLabel)) (v : Bytes) (name mask : String) :
    (render ps).writeSecret v name mask = render (ps ++ [.marked v ⟨name, mask⟩]) := by
  simp [render, Expanded.writeSecret, marks_append, text, marks, Piece.text]

theorem Alike.append {ps qs : List (Piece UInt8 SecretLabel)} {p q : Piece UInt8 SecretLabel}
    (h : List.Forall₂ Piece.Alike ps qs) (hp : Piece.Alike p q) :
    List.Forall₂ Piece.Alike (ps ++ [p]) (qs ++ [q]) :=
  rel_append h (.cons hp .nil)

theorem alike_writeString (h : Alike x y) (v : Bytes) :
    Alike (x.writeString v) (y.writeString v) := by
  obtain ⟨ps,qs,hpq,rfl,rfl⟩ := h
  rw [render_writeString, render_writeString]
  exact ⟨_,_,Alike.append hpq (.plain v),rfl,rfl⟩

theorem alike_writeSecret (h : Alike x y) (v w : Bytes) (name mask : String) :
    Alike (x.writeSecret v name mask) (y.writeSecret w name mask) := by
  obtain ⟨ps,qs,hpq,rfl,rfl⟩ := h
  rw [render_writeSecret, render_writeSecret]
  exact ⟨_,_,Alike.append hpq (.marked v w ⟨name, mask⟩),rfl,rfl⟩

theorem maskSecretSpans_of_alike (h : Alike x y) :
    maskSecretSpans x.text x.spans = maskSecretSpans y.text y.spans := by
  obtain ⟨ps,qs,hpq,rfl,rfl⟩ := h
  obtain ⟨hshown,hmarked⟩ := shown_congr (fun label : SecretLabel => bytes label.mask) hpq
  simp only [render, maskSecretSpans, replaceMarks_marks, hshown, hmarked]

theorem addMasked_of_alike (append : Bytes → ResolvedCommand → ResolvedCommand) (h : Alike x y)
    (r : Report) : r.addMasked append x = r.addMasked append y := by
  rw [Report.addMasked, Report.addMasked, maskSecretSpans_of_alike h]

theorem specEntry_alike (h : Alike x y) (k : String) :
    Alike (specEntry k x).entry (specEntry k y).entry := by
  have hrender : ∀ ps : List (Piece UInt8 SecretLabel),
      (specEntry k (render ps)).entry = render (.plain (bytes (k ++ "="))::ps) := by
    intro ps
    simp only [specEntry, render, text, marks, ← marks_shift, flatMap_cons, Piece.text]
  obtain ⟨ps,qs,hpq,rfl,rfl⟩ := h
  exact ⟨_,_,.cons (.plain _) hpq,hrender ps,hrender qs⟩

theorem entryKey_specEntry (k : String) (x y : Expanded) :
    entryKey (specEntry k x).entry.text = entryKey (specEntry k y).entry.text := by
  have hkey : bytes (k ++ "=") = bytes k ++ [61] := by
    rw [bytes, String.toList_append, flatMap_append]
    rfl
  have hcut : ∀ v : Bytes, entryKey (bytes (k ++ "=") ++ v) = entryKey (bytes (k ++ "=")) := by
    intro v
    rw [hkey, entryKey, entryKey, append_assoc]
    generalize bytes k = key
    induction key with
    | nil => rfl
    | cons b key ih =>
      by_cases hb : b = 61
      · simp [hb]
      · simpa [hb] using ih
  simp only [specEntry, hcut]

theorem addEnv_withheld (k : String) (x y : Expanded) (r : Report) :
    Report.addEnv true r (specEntry k x) = Report.addEnv true r (specEntry k y) := by
  have hkey := entryKey_specEntry k x y
  simp only [Report.addEnv, hkey]
  rfl

theorem addEnv_specEntry (maskSpecEnv : Bool) (k : String) (h : Alike x y) (r : Report) :
    Report.addEnv maskSpecEnv r (specEntry k x) = Report.addEnv maskSpecEnv r (specEntry k y) := by
  cases maskSpecEnv with
  | false => exact addMasked_of_alike appendEnv (specEntry_alike h k) r
  | true => exact addEnv_withheld k x y r

variable (H : Host) (spec : Spec) (port : ℤ) (getenv₁ getenv₂ : String → Bytes)
variable (gpuIDs dir : String) (token₁ token₂ : String)
variable (env₁ env₂ : AList (fun _ : String => String))
variable (hempty : ∀ name, getenv₁ name = [] ↔ getenv₂ name = [])
variable (htoken : token₁ = "" ↔ token₂ = "")
include hempty htoken

theorem expandMatch_alike (x y x' : Expanded) (inner : String) (hxy : Alike x y)
    (h : expandMatch H { spec with apiToken := token₁, env := env₁ } port getenv₁ gpuIDs dir x inner =
      .ok x') :
    ∃ y', expandMatch H { spec with apiToken := token₂, env := env₂ } port getenv₂ gpuIDs dir y inner =
      .ok y' ∧ Alike x' y' := by
  have hresolve : ∀ token env,
      resolveNonSecretToken H inner { spec with apiToken := token, env := env } port gpuIDs dir =
        resolveNonSecretToken H inner spec port gpuIDs dir := fun _ _ => rfl
  simp only [expandMatch, hresolve] at h ⊢
  cases hr : resolveNonSecretToken H inner spec port gpuIDs dir with
  | some v =>
    rw [hr] at h
    cases v with
    | error e => cases h
    | ok v =>
      cases h
      exact ⟨_,rfl,alike_writeString hxy _⟩
  | none =>
    rw [hr] at h
    dsimp only at h ⊢
    by_cases hapi : inner = "API_TOKEN"
    · rw [if_pos hapi] at h ⊢
      by_cases hset : token₁ = ""
      · rw [if_pos hset] at h
        cases h
      rw [if_neg hset] at h
      rw [if_neg (fun hc => hset (htoken.mpr hc))]
      cases h
      exact ⟨_,rfl,alike_writeSecret hxy _ _ _ _⟩
    rw [if_neg hapi] at h ⊢
    cases hname : agentEnvName inner with
    | some name =>
      rw [hname] at h
      dsimp only at h ⊢
      by_cases hown : hasPrefix (toUpper name) agentOwnEnvPrefix = true
      · rw [if_pos hown] at h
        cases h
      rw [if_neg hown] at h ⊢
      by_cases hset : getenv₁ name = []
      · rw [if_pos hset] at h
        cases h
      rw [if_neg hset] at h
      rw [if_neg (fun hc => hset ((hempty name).mpr hc))]
      cases h
      exact ⟨_,rfl,alike_writeSecret hxy _ _ _ _⟩
    | none =>
      rw [hname] at h
      dsimp only at h ⊢
      split at h
      · cases h
      rename_i hmiss
      cases h
      rw [if_neg hmiss]
      exact ⟨_,rfl,alike_writeString hxy _⟩

theorem expand_alike (s : String) (x : Expanded)
    (h : expand H { spec with apiToken := token₁, env := env₁ } port getenv₁ gpuIDs dir s = .ok x) :
    ∃ y, expand H { spec with apiToken := token₂, env := env₂ } port getenv₂ gpuIDs dir s = .ok y ∧
      Alike x y := by
  refine foldlM_follow (R := Alike) ?_ (chunks s) {} {} x ⟨[],[],.nil,rfl,rfl⟩ h
  intro c x y x' hxy hx
  cases c with
  | literal c =>
    cases hx
    exact ⟨_,rfl,alike_writeString hxy _⟩
  | token inner =>
    exact expandMatch_alike H spec port getenv₁ getenv₂ gpuIDs dir token₁ token₂ env₁ env₂ hempty
      htoken x y x' inner hxy hx

end TwoLaunches

theorem expandSpec_ok_iff (H : Host) (spec : Spec) (port : ℤ) (vendor : GPUVendor)
    (getenv : String → Bytes) (dir : String) (ex : ExpandedSpec) :
    expandSpec H spec port vendor getenv dir = .ok ex ↔ ∃ args env,
        List.Forall₂ (fun a x => expandArg H spec port getenv (hostGPUIDs spec) dir a = .ok x)
          spec.args.zipIdx args ∧ checkReservedEnv H (envKeys spec) = .ok () ∧
        checkVisibleDevices H spec (envKeys spec) (hostGPUIDs spec) = .ok () ∧
        List.Forall₂ (fun k e => expandEnv H spec port getenv (hostGPUIDs spec) dir k = .ok e)
          (envKeys spec) env ∧
        ex = { args, env := baseEntries getenv ++
          visibleDevicesEntries spec vendor (hostGPUIDs spec) ++ env } := by
  simp only [← mapM_ok_iff]
  constructor
  · intro h
    rw [expandSpec] at h
    cases ha : spec.args.zipIdx.mapM (expandArg H spec port getenv (hostGPUIDs spec) dir) with
    | error e =>
      rw [ha] at h
      cases h
    | ok args =>
      cases hr : checkReservedEnv H (envKeys spec) with
      | error e =>
        rw [ha, hr] at h
        cases h
      | ok _ =>
        cases hv : checkVisibleDevices H spec (envKeys spec) (hostGPUIDs spec) with
        | error e =>
          rw [ha, hr, hv] at h
          cases h
        | ok _ =>
          cases he : (envKeys spec).mapM (expandEnv H spec port getenv (hostGPUIDs spec) dir) with
          | error e =>
            rw [ha, hr, hv, he] at h
            cases h
          | ok env =>
            rw [ha, hr, hv, he] at h
            exact ⟨args,env,rfl,rfl,rfl,rfl,(Except.ok.inj h).symm⟩
  · rintro ⟨args,env,ha,hr,hv,he,rfl⟩
    rw [expandSpec, ha, hr, hv, he]
    rfl

section Reports
variable (H : Host) (spec : Spec) (vendor : GPUVendor) (getenv₁ getenv₂ : String → Bytes)

theorem baseEntries_congr (hbase : ∀ name ∈ baseEnvNames, getenv₁ name = getenv₂ name) :
    baseEntries getenv₁ = baseEntries getenv₂ := by
  have hfilter : baseEnvNames.filter (fun name => getenv₁ name ≠ []) =
      baseEnvNames.filter (fun name => getenv₂ name ≠ []) := by
    refine filter_congr ?_
    intro name hname
    rw [hbase name hname]
  rw [baseEntries, baseEntries, hfilter]
  refine map_congr_left ?_
  intro name hname
  rw [hbase name (mem_filter.mp hname).1]

/-- Reports agree once each argument and each variable of the spec is shown alike. -/
theorem resolvedCommand_congr (maskSpecEnv : Bool) (args₁ args₂ : List Expanded)
    (es₁ es₂ : List EnvEntry) (hbase : ∀ name ∈ baseEnvNames, getenv₁ name = getenv₂ name)
    (hargs : List.Forall₂ Alike args₁ args₂)
    (henv : List.Forall₂ (fun e e' => ∀ r, Report.addEnv maskSpecEnv r e = Report.addEnv maskSpecEnv r e')
      es₁ es₂) : resolvedCommand H ⟨args₁, baseEntries getenv₁ ++
        visibleDevicesEntries spec vendor (hostGPUIDs spec) ++ es₁⟩ spec maskSpecEnv =
      resolvedCommand H ⟨args₂, baseEntries getenv₂ ++
        visibleDevicesEntries spec vendor (hostGPUIDs spec) ++ es₂⟩ spec maskSpecEnv := by
  have hfold : ∀ r, args₁.foldl Report.addArg r = args₂.foldl Report.addArg r :=
    foldl_forall₂ _ (hargs.imp (fun _ _ h r => addMasked_of_alike appendArg h r))
  simp only [resolvedCommand, foldl_append, hfold, baseEntries_congr getenv₁ getenv₂ hbase,
    foldl_forall₂ _ henv]

end Reports

theorem expandArg_ok_iff (H : Host) (spec : Spec) (port : ℤ) (getenv : String → Bytes)
    (gpuIDs dir : String) (a : String × ℕ) (x : Expanded) :
    expandArg H spec port getenv gpuIDs dir a = .ok x ↔
      expand H spec port getenv gpuIDs dir a.1 = .ok x := by
  rw [expandArg]
  cases expand H spec port getenv gpuIDs dir a.1 with
  | error e =>
    constructor
    · intro h
      cases h
    · intro h
      cases h
  | ok y => exact Iff.rfl

theorem expandEnv_ok_iff (H : Host) (spec : Spec) (port : ℤ) (getenv : String → Bytes)
    (gpuIDs dir k : String) (e : EnvEntry) : expandEnv H spec port getenv gpuIDs dir k = .ok e ↔
      ∃ x, expand H spec port getenv gpuIDs dir ((spec.env.lookup k).getD "") = .ok x ∧
        e = specEntry k x := by
  rw [expandEnv]
  cases expand H spec port getenv gpuIDs dir ((spec.env.lookup k).getD "") with
  | error e =>
    constructor
    · intro h
      cases h
    · rintro ⟨x,h,-⟩
      cases h
  | ok y =>
    constructor
    · intro h
      exact ⟨y,rfl,(Except.ok.inj h).symm⟩
    · rintro ⟨x,hx,rfl⟩
      cases hx
      rfl

/-- Two launches of a spec that differ in their tokens and in the values of the
agent's variables are reported alike, and where the values of the spec's own
variables are withheld, so are two launches that differ in these as well. -/
theorem command_hides_secrets (H : Host) (spec : Spec) (port : ℤ) (vendor : GPUVendor)
    (getenv₁ getenv₂ : String → Bytes) (dir token₁ token₂ : String) (maskSpecEnv : Bool)
    (hbase : ∀ name ∈ baseEnvNames, getenv₁ name = getenv₂ name)
    (hempty : ∀ name, getenv₁ name = [] ↔ getenv₂ name = [])
    (htoken : token₁ = "" ↔ token₂ = "") (ex₁ : ExpandedSpec)
    (h : expandSpec H { spec with apiToken := token₁ } port vendor getenv₁ dir = .ok ex₁) :
    (∃ ex₂, expandSpec H { spec with apiToken := token₂ } port vendor getenv₂ dir = .ok ex₂ ∧
      resolvedCommand H ex₁ { spec with apiToken := token₁ } maskSpecEnv =
        resolvedCommand H ex₂ { spec with apiToken := token₂ } maskSpecEnv) ∧
    (maskSpecEnv = true → ∀ env ex₂, env.keys.Perm spec.env.keys →
      expandSpec H { spec with apiToken := token₂, env := env } port vendor getenv₂ dir = .ok ex₂ →
      resolvedCommand H ex₁ { spec with apiToken := token₁ } maskSpecEnv =
        resolvedCommand H ex₂ { spec with apiToken := token₂, env := env } maskSpecEnv) := by
  obtain ⟨args₁,env₁,hargs,hreserved,hvisible,henv,rfl⟩ := (expandSpec_ok_iff _ _ _ _ _ _ _).mp h
  have harg : ∀ env a x,
      expandArg H { spec with apiToken := token₁ } port getenv₁ (hostGPUIDs spec) dir a = .ok x →
      ∃ y, expandArg H { spec with apiToken := token₂, env := env } port getenv₂ (hostGPUIDs spec) dir
        a = .ok y ∧ Alike x y := by
    intro env a x hx
    obtain ⟨y,hy,hxy⟩ := expand_alike H spec port getenv₁ getenv₂ (hostGPUIDs spec) dir token₁ token₂
      spec.env env hempty htoken a.1 x ((expandArg_ok_iff _ _ _ _ _ _ _ _).mp hx)
    exact ⟨y,(expandArg_ok_iff _ _ _ _ _ _ _ _).mpr hy,hxy⟩
  constructor
  · obtain ⟨args₂,hargs₂,halike⟩ := forall₂_follow hargs (harg spec.env)
    have hentry : ∀ k e,
        expandEnv H { spec with apiToken := token₁ } port getenv₁ (hostGPUIDs spec) dir k = .ok e →
        ∃ e', expandEnv H { spec with apiToken := token₂ } port getenv₂ (hostGPUIDs spec) dir k =
          .ok e' ∧ ∀ r, Report.addEnv maskSpecEnv r e = Report.addEnv maskSpecEnv r e' := by
      intro k e he
      obtain ⟨x,hx,rfl⟩ := (expandEnv_ok_iff _ _ _ _ _ _ _ _).mp he
      obtain ⟨y,hy,hxy⟩ := expand_alike H spec port getenv₁ getenv₂ (hostGPUIDs spec) dir token₁
        token₂ spec.env spec.env hempty htoken _ x hx
      exact ⟨specEntry k y,(expandEnv_ok_iff _ _ _ _ _ _ _ _).mpr ⟨y,hy,rfl⟩,
        addEnv_specEntry maskSpecEnv k hxy⟩
    obtain ⟨env₂,henv₂,hshown⟩ := forall₂_follow henv hentry
    exact ⟨_,(expandSpec_ok_iff _ _ _ _ _ _ _).mpr ⟨args₂,env₂,hargs₂,hreserved,hvisible,henv₂,rfl⟩,
      resolvedCommand_congr H spec vendor getenv₁ getenv₂ maskSpecEnv args₁ args₂ env₁ env₂ hbase
        halike hshown⟩
  · intro hmask env ex₂ hkeys h₂
    obtain ⟨args₂,env₂,hargs₂,_,_,henv₂,rfl⟩ := (expandSpec_ok_iff _ _ _ _ _ _ _).mp h₂
    have hsorted : envKeys { spec with apiToken := token₂, env := env } =
        envKeys { spec with apiToken := token₁ } := envKeys_of_perm _ _ hkeys
    rw [hsorted] at henv₂
    have halike : List.Forall₂ Alike args₁ args₂ := by
      refine forall₂_both hargs hargs₂ ?_
      intro a x y hx hy
      obtain ⟨y',hy',hxy⟩ := harg env a x hx
      cases hy.symm.trans hy'
      exact hxy
    refine resolvedCommand_congr H spec vendor getenv₁ getenv₂ maskSpecEnv args₁ args₂ env₁ env₂ hbase
      halike (forall₂_both henv henv₂ ?_)
    intro k e e' he he' r
    obtain ⟨x,_,rfl⟩ := (expandEnv_ok_iff _ _ _ _ _ _ _ _).mp he
    obtain ⟨y,_,rfl⟩ := (expandEnv_ok_iff _ _ _ _ _ _ _ _).mp he'
    rw [hmask]
    exact addEnv_withheld k x y r

def plainHost : Host where
  join := fun dir name => dir ++ "/" ++ name
  dir := fun path => String.ofList (path.toList.rdropWhile (· ≠ '/')).dropLast
  base := fun path => String.ofList (path.toList.rtakeWhile (· ≠ '/'))
  clean := fun path => path
  abs := fun path => .ok path
  isAbs := fun path => hasPrefix path "/"
  separator := '/'
  isControl := fun c => c.toNat < 32
  isFormat := fun _ => false
  quote := fun s => "\"" ++ s ++ "\""

def secretiveSpec : Spec where
  id := "m"
  binary := "/bin/serve"
  args := ["--port", placeholder "PORT", "key=" ++ placeholder "API_TOKEN" ++ placeholder "AGENT_ENV:HF"]
  env := [(⟨"HF", placeholder "AGENT_ENV:HF"⟩ : Sigma fun _ : String => String)].toAList

def hubEnv (value : Bytes) (name : String) : Bytes :=
  if name = "HF" then value else if name = "PATH" then bytes "/bin" else []

def secretiveLaunch : ExpandedSpec where
  args := [⟨bytes "--port", []⟩, ⟨bytes "80", []⟩,
    ⟨bytes "key=t1a", [⟨4, 6, ⟨"API_TOKEN", placeholder "API_TOKEN"⟩⟩,
      ⟨6, 7, ⟨"HF", placeholder "AGENT_ENV:HF"⟩⟩]⟩]
  env := [agentEntry "PATH" (bytes "/bin"),
    ⟨⟨bytes "HF=a", [⟨3, 4, ⟨"HF", placeholder "AGENT_ENV:HF"⟩⟩]⟩, true⟩]

theorem hubEnv_empty (v w : Bytes) (hv : v ≠ []) (hw : w ≠ []) (name : String) :
    hubEnv v name = [] ↔ hubEnv w name = [] := by
  rw [hubEnv, hubEnv]
  split
  · exact ⟨fun h => absurd h hv,fun h => absurd h hw⟩
  · exact Iff.rfl

theorem command_hides_secrets_secretive :
    ∃ ex₂, expandSpec plainHost { secretiveSpec with apiToken := "t22" } 80 .none (hubEnv [98, 99])
      "/cfg" = .ok ex₂ ∧
      resolvedCommand plainHost secretiveLaunch { secretiveSpec with apiToken := "t1" } false =
        resolvedCommand plainHost ex₂ { secretiveSpec with apiToken := "t22" } false :=
  (command_hides_secrets plainHost secretiveSpec 80 .none (hubEnv [97]) (hubEnv [98, 99]) "/cfg" "t1"
    "t22" false (by decide) (hubEnv_empty [97] [98, 99] (by decide) (by decide)) (by decide)
    secretiveLaunch rfl).1

end OnPremGateway.LaunchCommand
