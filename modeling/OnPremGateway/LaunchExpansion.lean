import OnPremGateway.InstanceModel
import OnPremGateway.MarkedText
import OnPremGateway.SliceOrder

/-!
# What a child is launched with

The arguments, the environment and the configuration files of a child come
out of its spec by one left-to-right expansion of placeholders. A spec's own
texts are strings of characters; a variable of the agent's environment is a
string of bytes, and so is everything it is written into. Each secret that
enters a text leaves a span of byte offsets behind.
-/

set_option autoImplicit false

namespace OnPremGateway.LaunchExpansion
open RuntimeTypes
open InstanceModel
open MarkedText
open SliceOrder

abbrev Bytes := List UInt8

def bytes (s : String) : Bytes := s.toList.flatMap String.utf8EncodeChar

/-- The path rules of the host, its character classes and the quoting of texts
in messages. -/
structure Host where
  join : String → String → String
  dir : String → String
  base : String → String
  clean : String → String
  abs : String → Except String String
  isAbs : String → Bool
  separator : Char
  isControl : Char → Bool
  isFormat : Char → Bool
  quote : String → String

def agentOwnEnvPrefix : String := "OP_AGENT_"

def baseEnvNames : List String :=
  ["PATH", "HOME", "USERPROFILE", "LOCALAPPDATA", "SYSTEMROOT", "WINDIR"]

inductive GPUVendor where
  | none
  | nvidia
  | amd
  | apple
  deriving DecidableEq, Repr

def visibleDevicesVar : GPUVendor → String
  | .nvidia => "CUDA_VISIBLE_DEVICES"
  | .amd => "ROCR_VISIBLE_DEVICES"
  | .apple => ""
  | .none => ""

def visibleDevicesOwnedVars : List String :=
  ["CUDA_VISIBLE_DEVICES", "ROCR_VISIBLE_DEVICES", "HIP_VISIBLE_DEVICES"]

def visibleDevicesModeArgs : String := "args"

/-- Every text is compared with one in capital ASCII letters, and these are the
letters whose capital is one. -/
def toUpper (s : String) : String :=
  String.ofList (s.toList.map fun c => if c = 'ı' then 'I' else if c = 'ſ' then 'S' else c.toUpper)

def hasPrefix (s head : String) : Bool := head.toList.isPrefixOf s.toList

def cutPrefix (s head : String) : Option String :=
  if hasPrefix s head then some (String.ofList (s.toList.drop head.toList.length)) else none

def gpuIndices (spec : Spec) : List ℤ :=
  (specGPUIndexes spec).foldl (fun indices i => if i ∈ indices then indices else indices ++ [i]) []

def deviceList (spec : Spec) (head : String) : String :=
  ",".intercalate ((gpuIndices spec).map (fun i => head ++ toString i))

def hostGPUIDs (spec : Spec) : String := ",".intercalate ((gpuIndices spec).map toString)

def effectiveWorkDir (H : Host) (spec : Spec) : String :=
  if spec.workDir ≠ "" then spec.workDir else H.dir spec.binary

def withinDir (H : Host) (candidate dir : String) : Bool :=
  if candidate = "" || dir = "" then false
  else if H.clean candidate = H.clean dir then true
  else hasPrefix (H.clean candidate) (H.clean dir ++ String.singleton H.separator)

section Placeholders

/-- A stretch of a text: a character that stands for itself, or a placeholder. -/
inductive Chunk where
  | literal (c : Char)
  | token (inner : String)
  deriving DecidableEq

def placeholder (inner : String) : String := "$\x7b" ++ inner ++ "\x7d"

inductive Scan where
  | outside
  | dollar
  | inside (read : List Char)

/-- The leftmost matches of a dollar sign, an opening brace, any characters but
a closing one, and a closing brace. -/
def scan : Scan → List Char → List Chunk
  | .outside, [] => []
  | .dollar, [] => [.literal '$']
  | .inside read, [] => ('$' :: '\x7b' :: read.reverse).map .literal
  | .outside, c::cs => if c = '$' then scan .dollar cs else .literal c::scan .outside cs
  | .dollar, c::cs =>
    if c = '\x7b' then scan (.inside []) cs
    else if c = '$' then .literal '$'::scan .dollar cs
    else .literal '$'::.literal c::scan .outside cs
  | .inside read, c::cs =>
    if c = '\x7d' then .token (String.ofList read.reverse)::scan .outside cs
    else scan (.inside (c::read)) cs

def chunks (s : String) : List Chunk := scan .outside s.toList

def deviceBackendByToken (inner : String) : Option String :=
  if inner = "CUDA_DEVICES" then some "CUDA"
  else if inner = "VULKAN_DEVICES" then some "Vulkan"
  else if inner = "METAL_DEVICES" then some "MTL"
  else none

def resolveNonSecretToken (H : Host) (inner : String) (spec : Spec) (port : ℤ)
    (gpuIDs configFilesDir : String) : Option (Except String String) :=
  if inner = "PORT" then some (.ok (toString port))
  else if inner = "MODEL" then
    if spec.upstreamModel = "" then
      some (.error (placeholder "MODEL" ++ " cannot be resolved: this spec has no upstream_model" ++
        " (the owning mapping's app_model_name is empty)"))
    else some (.ok spec.upstreamModel)
  else if inner = "HOST_GPU_IDS" then
    if gpuIDs = "" then
      some (.error (placeholder "HOST_GPU_IDS" ++ " cannot be resolved: this spec declares no" ++
        " gpus, and an empty visible-devices value means NO device is visible, not every device"))
    else some (.ok gpuIDs)
  else
    match deviceBackendByToken inner with
    | some backend =>
      if gpuIDs = "" then
        some (.error (placeholder inner ++ " cannot be resolved: this spec declares no gpus, and" ++
          " an empty device list selects NO device, not every device"))
      else some (.ok (deviceList spec backend))
    | none =>
      if inner = "CONFIG_DIR" then some (.ok (H.join configFilesDir spec.id)) else none

end Placeholders

section Command

structure SecretLabel where
  name : String
  mask : String
  deriving DecidableEq

abbrev SecretSpan := Mark SecretLabel

structure Expanded where
  text : Bytes := []
  spans : List SecretSpan := []
  deriving DecidableEq

def Expanded.writeString (b : Expanded) (v : Bytes) : Expanded := { b with text := b.text ++ v }

def Expanded.writeSecret (b : Expanded) (v : Bytes) (name mask : String) : Expanded :=
  { text := b.text ++ v
    spans := b.spans ++ [⟨b.text.length, b.text.length+v.length, ⟨name, mask⟩⟩] }

def agentEnvName (inner : String) : Option String :=
  (cutPrefix inner "AGENT_ENV:").filter (fun name => name ≠ "")

variable (H : Host) (spec : Spec) (port : ℤ) (getenv : String → Bytes)

def expandMatch (gpuIDs configFilesDir : String) (b : Expanded) (inner : String) : Except String Expanded :=
  match resolveNonSecretToken H inner spec port gpuIDs configFilesDir with
  | some (.error e) => .error e
  | some (.ok v) => .ok (b.writeString (bytes v))
  | none =>
    if inner = "API_TOKEN" then
      if spec.apiToken = "" then
        .error (placeholder "API_TOKEN" ++ " cannot be resolved: no api_token was provided for" ++
          " this spec (mode off, app-unset, or a fail-closed decrypt)")
      else .ok (b.writeSecret (bytes spec.apiToken) "API_TOKEN" (placeholder "API_TOKEN"))
    else
      match agentEnvName inner with
      | some name =>
        if hasPrefix (toUpper name) agentOwnEnvPrefix then
          .error ("agent environment variable " ++ H.quote name ++ " is in the agent's own " ++
            agentOwnEnvPrefix ++ " namespace and may not be read via " ++
            placeholder "AGENT_ENV:..." ++ " (this would let a gateway-supplied spec" ++
            " exfiltrate the agent's own credentials)")
        else if getenv name = [] then
          .error ("required agent environment variable " ++ H.quote name ++
            " is not set (referenced via " ++ placeholder ("AGENT_ENV:" ++ name) ++ ")")
        else .ok (b.writeSecret (getenv name) name (placeholder ("AGENT_ENV:" ++ name)))
      | none =>
        if hasPrefix (toUpper inner) "PORT" || hasPrefix (toUpper inner) "AGENT_ENV" then
          .error ("malformed placeholder " ++ placeholder inner ++ " looks like a PORT or" ++
            " AGENT_ENV reference but does not match the expected syntax")
        else .ok (b.writeString (bytes (placeholder inner)))

def expandChunk (gpuIDs configFilesDir : String) (b : Expanded) : Chunk → Except String Expanded
  | .literal c => .ok (b.writeString (String.utf8EncodeChar c))
  | .token inner => expandMatch H spec port getenv gpuIDs configFilesDir b inner

def expand (gpuIDs configFilesDir s : String) : Except String Expanded :=
  (chunks s).foldlM (expandChunk H spec port getenv gpuIDs configFilesDir) {}

structure EnvEntry where
  entry : Expanded
  fromSpec : Bool
  deriving DecidableEq

structure ExpandedSpec where
  args : List Expanded
  env : List EnvEntry
  deriving DecidableEq

def expandArg (gpuIDs configFilesDir : String) (a : String × ℕ) : Except String Expanded :=
  (expand H spec port getenv gpuIDs configFilesDir a.1).mapError
    (fun e => "runtime: expand arg " ++ toString a.2 ++ ": " ++ e)

def envKeys : List String := sortSlice (fun a b => a < b) spec.env.keys

def checkReservedEnv (keys : List String) : Except String Unit :=
  match keys.find? (fun k => baseEnvNames.contains (toUpper k)) with
  | some k =>
    .error ("runtime: spec env " ++ H.quote k ++ " is reserved for the agent-provided base" ++
      " environment and may not be set by a spec")
  | none => .ok ()

def checkVisibleDevices (keys : List String) (gpuIDs : String) :
    Except String Unit :=
  if spec.setVisibleDevices then
    match keys.find? (fun k => visibleDevicesOwnedVars.contains (toUpper k)) with
    | some k =>
      .error ("runtime: spec env " ++ H.quote k ++ " conflicts with set_visible_devices: this" ++
        " spec both asks the agent to set the gpu visibility variable and sets one by hand, and" ++
        " the two cannot be resolved into a single unambiguous answer -- turn" ++
        " set_visible_devices off, or remove the env entry")
    | none =>
      if gpuIDs = "" then
        .error ("runtime: set_visible_devices is on but this spec declares no gpus: an empty" ++
          " visible-devices value means NO device is visible, not every device, so the child" ++
          " would see no gpu at all -- add the gpu rows this model runs on, or turn" ++
          " set_visible_devices off")
      else .ok ()
  else .ok ()

def agentEntry (name : String) (v : Bytes) : EnvEntry :=
  { entry := { text := bytes (name ++ "=") ++ v }, fromSpec := false }

def baseEntries : List EnvEntry :=
  (baseEnvNames.filter (fun name => getenv name ≠ [])).map
    (fun name => agentEntry name (getenv name))

def visibleDevicesEntries (vendor : GPUVendor) (gpuIDs : String) : List EnvEntry :=
  if spec.setVisibleDevices && spec.visibleDevicesMode ≠ visibleDevicesModeArgs then
    if visibleDevicesVar vendor ≠ "" then [agentEntry (visibleDevicesVar vendor) (bytes gpuIDs)]
    else []
  else []

def specEntry (k : String) (v : Expanded) : EnvEntry where
  entry := { text := bytes (k ++ "=") ++ v.text
             spans := v.spans.map (Mark.shift (bytes (k ++ "=")).length) }
  fromSpec := true

def expandEnv (gpuIDs configFilesDir : String) (k : String) : Except String EnvEntry :=
  ((expand H spec port getenv gpuIDs configFilesDir ((spec.env.lookup k).getD "")).mapError
    (fun e => "runtime: expand env " ++ k ++ ": " ++ e)).map (specEntry k)

def expandSpec (vendor : GPUVendor)
    (getenv : String → Bytes) (configFilesDir : String) : Except String ExpandedSpec := do
  let gpuIDs := hostGPUIDs spec
  let args ← spec.args.zipIdx.mapM (expandArg H spec port getenv gpuIDs configFilesDir)
  checkReservedEnv H (envKeys spec)
  checkVisibleDevices H spec (envKeys spec) gpuIDs
  let env ← (envKeys spec).mapM (expandEnv H spec port getenv gpuIDs configFilesDir)
  return { args, env := baseEntries getenv ++ visibleDevicesEntries spec vendor gpuIDs ++ env }

end Command

section ConfigFiles

structure PlannedConfigFile where
  path : String
  content : String
  deriving DecidableEq, Repr

variable (H : Host) (spec : Spec) (port : ℤ)

def expandContentMatch (configFilesDir b inner : String) :
    Except String String :=
  match resolveNonSecretToken H inner spec port (hostGPUIDs spec) configFilesDir with
  | some (.error e) => .error e
  | some (.ok v) => .ok (b ++ v)
  | none =>
    if inner = "API_TOKEN" then
      .error (placeholder inner ++ " may not appear in config file content: a written file never" ++
        " carries a secret (pass it through args or env instead)")
    else if hasPrefix (toUpper inner) "AGENT_ENV" then
      .error (placeholder inner ++ " may not appear in config file content: a written file never" ++
        " carries a secret read from the agent environment (pass it through env instead)")
    else if hasPrefix (toUpper inner) "PORT" then
      .error ("malformed placeholder " ++ placeholder inner ++ " looks like a PORT reference but" ++
        " does not match the expected syntax")
    else .ok (b ++ placeholder inner)

def expandContentChunk (configFilesDir b : String) :
    Chunk → Except String String
  | .literal c => .ok (b.push c)
  | .token inner => expandContentMatch H spec port configFilesDir b inner

def expandConfigFileContent (content : String) (spec : Spec) (port : ℤ)
    (configFilesDir : String) : Except String String :=
  (chunks content).foldlM (expandContentChunk H spec port configFilesDir) ""

def validConfigFileName (name : String) : Bool :=
  if trimSpace name = "" || name = "." || name = ".." then false
  else if name.toList.any (fun c => c = '/' || c = '\\' || c = ':') ||
      name.toList.any H.isControl then false
  else H.base name = name && !H.isAbs name

def isWindowsReservedName (name : String) : Bool :=
  let stem := name.toList.takeWhile (fun c => c ≠ '.')
  let stem := toUpper (String.ofList (stem.reverse.dropWhile (fun c => c = ' ')).reverse)
  ["CON", "PRN", "AUX", "NUL", "CONIN$", "CONOUT$"].contains stem || ["COM", "LPT"].any fun head =>
      match cutPrefix stem head with
      | some digit =>
        ["1", "2", "3", "4", "5", "6", "7", "8", "9", "¹", "²", "³"].contains digit
      | none => false

def codePoint (c : Char) : String :=
  let digits := (Nat.toDigits 16 c.toNat).map Char.toUpper
  "U+" ++ String.ofList (List.replicate (4-digits.length) '0' ++ digits)

def checkConfigFileName (name : String) : Except String Unit :=
  if !validConfigFileName H name then
    .error ("must be a single file name (no path separators, \"..\", drive or stream marker, or" ++
      " control characters)")
  else if name.toList.getLast? = some '.' || name.toList.getLast? = some ' ' then
    .error ("must not end with a dot or a space (Windows strips them, so the name would alias" ++
      " another)")
  else
    match name.toList.find? H.isFormat with
    | some c =>
      .error ("must not contain an invisible Unicode format character (" ++ codePoint c ++ ")")
    | none =>
      if isWindowsReservedName name then .error "is a reserved Windows device name" else .ok ()

def planConfigFile (configFilesDir specDir : String)
    (f : ConfigFile) : Except String PlannedConfigFile :=
  match checkConfigFileName H f.name with
  | .error e =>
    .error ("runtime: spec " ++ H.quote spec.id ++ " config file name " ++ H.quote f.name ++ ": " ++ e)
  | .ok _ =>
    let path := H.join specDir f.name
    if H.dir path ≠ specDir then
      .error ("runtime: spec " ++ H.quote spec.id ++ " config file " ++ H.quote f.name ++
        " resolves to " ++ path ++ ", outside its directory " ++ specDir)
    else
      match expandConfigFileContent H f.content spec port configFilesDir with
      | .error e =>
        .error ("runtime: spec " ++ H.quote spec.id ++ " config file " ++ H.quote f.name ++ ": " ++ e)
      | .ok content => .ok { path, content }

/-- The variables and the vendor the source also passes are never read here. -/
def planSpecConfigFiles (configFilesDir : String) :
    Except String (List PlannedConfigFile) :=
  if spec.configFiles.length = 0 then .ok []
  else if configFilesDir = "" then
    .error ("runtime: spec " ++ H.quote spec.id ++ " has config_files but this agent has no" ++
      " config_files_dir configured")
  else
    match H.abs configFilesDir with
    | .error e => .error ("runtime: resolve config_files_dir " ++ H.quote configFilesDir ++ ": " ++ e)
    | .ok baseAbs =>
      let specDir := H.join baseAbs spec.id
      if specDir = baseAbs || !withinDir H specDir baseAbs then
        .error ("runtime: spec id " ++ H.quote spec.id ++ " does not name a directory strictly" ++
          " inside config_files_dir: it resolves to " ++ specDir ++ ", which is outside " ++
          baseAbs ++ " or is the base itself")
      else spec.configFiles.mapM (planConfigFile H spec port configFilesDir specDir)

end ConfigFiles

structure SameLaunch (a b : Spec) : Prop where
  id : a.id = b.id
  upstreamModel : a.upstreamModel = b.upstreamModel
  binary : a.binary = b.binary
  args : a.args = b.args
  env : a.env.entries.Perm b.env.entries
  configFiles : a.configFiles = b.configFiles
  workDir : a.workDir = b.workDir
  gpus : specGPUIndexes a = specGPUIndexes b
  setVisibleDevices : a.setVisibleDevices = b.setVisibleDevices
  visibleDevicesMode : a.visibleDevicesMode = b.visibleDevicesMode
  apiToken : a.apiToken = b.apiToken

theorem sameLaunch_of_sameLaunchShape (a b : Spec) (h : sameLaunchShape a b = true) :
    SameLaunch a b := by
  rw [sameLaunchShape, deepEqual, Bool.and_eq_true, decide_eq_true_eq, List.isPerm_iff] at h
  obtain ⟨hfields,henv⟩ := h
  have hgpus : a.gpus.map (fun g => { g with vramMB := 0 }) =
      b.gpus.map (fun g => { g with vramMB := 0 }) := (congrArg Spec.gpus hfields :)
  exact {
    id := (congrArg Spec.id hfields :)
    upstreamModel := (congrArg Spec.upstreamModel hfields :)
    binary := (congrArg Spec.binary hfields :)
    args := (congrArg Spec.args hfields :)
    env := henv
    configFiles := (congrArg Spec.configFiles hfields :)
    workDir := (congrArg Spec.workDir hfields :)
    gpus := by
      have hidx := congrArg (List.map SpecGPU.index) hgpus
      rwa [List.map_map, List.map_map] at hidx
    setVisibleDevices := (congrArg Spec.setVisibleDevices hfields :)
    visibleDevicesMode := (congrArg Spec.visibleDevicesMode hfields :)
    apiToken := (congrArg Spec.apiToken hfields :) }

/-- The sorted keys of a map do not depend on the order it is visited in. -/
theorem envKeys_of_perm (a b : Spec) (h : a.env.keys.Perm b.env.keys) : envKeys a = envKeys b := by
  refine sortSlice_eq_of_perm _ (weakOrder_of_key _ id (fun x y => decide_eq_true_iff)) _ _ h ?_
  intro x _ y _ hxy hyx
  exact key_eq_of_key _ id (fun x y => decide_eq_true_iff) x y hxy hyx

section Launches
variable {a b : Spec} (h : SameLaunch a b)
include h

theorem gpuIndices_of_sameLaunch : gpuIndices a = gpuIndices b := by
  rw [gpuIndices, gpuIndices, h.gpus]

theorem hostGPUIDs_of_sameLaunch : hostGPUIDs a = hostGPUIDs b := by
  rw [hostGPUIDs, hostGPUIDs, gpuIndices_of_sameLaunch h]

variable (H : Host) (port : ℤ)

theorem resolveNonSecretToken_of_sameLaunch (inner : String) (port : ℤ)
    (gpuIDs dir : String) : resolveNonSecretToken H inner a port gpuIDs dir =
      resolveNonSecretToken H inner b port gpuIDs dir := by
  simp only [resolveNonSecretToken, deviceList, h.upstreamModel, h.id, gpuIndices_of_sameLaunch h]

theorem expand_of_sameLaunch (getenv : String → Bytes)
    (gpuIDs dir s : String) :
    expand H a port getenv gpuIDs dir s = expand H b port getenv gpuIDs dir s := by
  have hchunk : expandChunk H a port getenv gpuIDs dir = expandChunk H b port getenv gpuIDs dir := by
    ext e c
    cases c with
    | literal c => rfl
    | token inner =>
      simp only [expandChunk, expandMatch, resolveNonSecretToken_of_sameLaunch h, h.apiToken]
  rw [expand, expand, hchunk]

/-- A launch reads nothing of a spec that its launch shape leaves out. -/
theorem expandSpec_of_sameLaunch (vendor : GPUVendor)
    (getenv : String → Bytes) (dir : String) :
    expandSpec H a port vendor getenv dir = expandSpec H b port vendor getenv dir := by
  have harg : expandArg H a port getenv = expandArg H b port getenv := by
    ext gpuIDs dir x
    rw [expandArg, expandArg, expand_of_sameLaunch h]
  have henv : expandEnv H a port getenv = expandEnv H b port getenv := by
    ext gpuIDs dir k
    rw [expandEnv, expandEnv, expand_of_sameLaunch h, AList.perm_lookup h.env]
  simp only [expandSpec, checkVisibleDevices, visibleDevicesEntries, harg, henv, h.args,
    h.setVisibleDevices, h.visibleDevicesMode, hostGPUIDs_of_sameLaunch h,
    envKeys_of_perm a b (h.env.map Sigma.fst)]

theorem effectiveWorkDir_of_sameLaunch : effectiveWorkDir H a = effectiveWorkDir H b := by
  rw [effectiveWorkDir, effectiveWorkDir, h.workDir, h.binary]

theorem planSpecConfigFiles_of_sameLaunch (dir : String) :
    planSpecConfigFiles H a port dir = planSpecConfigFiles H b port dir := by
  have hchunk : expandContentChunk H a port = expandContentChunk H b port := by
    ext dir s c
    cases c with
    | literal c => rfl
    | token inner =>
      simp only [expandContentChunk, expandContentMatch, resolveNonSecretToken_of_sameLaunch h,
        hostGPUIDs_of_sameLaunch h]
  have hfile : planConfigFile H a port = planConfigFile H b port := by
    ext dir specDir f
    simp only [planConfigFile, expandConfigFileContent, hchunk, h.id]
  simp only [planSpecConfigFiles, hfile, h.id, h.configFiles]

end Launches

end OnPremGateway.LaunchExpansion
