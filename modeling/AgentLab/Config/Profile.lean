import Mathlib.Data.List.SplitBy
import Mathlib.Data.List.Sort
import AgentLab.Python.Value

/-!
# Profiles

`config.py` from the parsed TOML on: `parse_size`, the readers of `_Section`, which collect the
problems of a table instead of stopping at the first, and `parse_profile` with its cross-field
rules. TOML strings hold Unicode scalar values only, so they are Lean strings.

`parse_profile` can also fail with a built-in exception: `int` of an infinite size, `float` of a
huge integer, and the text of an integer with more digits than the interpreter allows.
-/

namespace AgentLab.Config

open Python

/-- The values `tomllib.load` returns. -/
inductive Toml
  | str (s : String)
  | int (n : ℤ)
  | float (f : PyFloat)
  | bool (b : Bool)
  /-- A date or a time. -/
  | time (text : String)
  | array (l : List Toml)
  | table (t : List (String × Toml))

/-- Python's texts of a value, `str` and `repr`, where they exist. -/
structure Texts where
  str : Toml → Except PyExc String
  repr : Toml → Except PyExc String

/-- Cloudflare drops a connection after about this many seconds without data. -/
def CLOUDFLARE_IDLE_TIMEOUT_SECONDS : ℤ := 100

/-! ## Sizes -/

def codePoint (c : Char) : CodePoint := Fin.ofNat 0x110000 c.toNat

/-- `\s` of a regular expression. -/
def isSpaceChar (c : Char) : Bool := isSpace (codePoint c)

/-- `\d` of a regular expression. -/
def isDecimal (c : Char) : Bool := (digitValue? (codePoint c)).isSome

/-- `_SIZE_UNITS`. -/
def sizeUnits : List (String × ℕ) :=
  [("B", 1), ("KB", 1024), ("MB", 1024 ^ 2), ("GB", 1024 ^ 3), ("TB", 1024 ^ 4), ("KIB", 1024),
    ("MIB", 1024 ^ 2), ("GIB", 1024 ^ 3), ("TIB", 1024 ^ 4)]

/-- The digits after the decimal point, and what follows them. -/
def fraction : List Char → List Char × List Char
  | '.' :: cs => if (cs.takeWhile isDecimal).isEmpty then ([], '.' :: cs) else cs.span isDecimal
  | cs => ([], cs)

def decimalValue (whole frac : List Char) : ℚ :=
  (whole ++ frac).foldl (fun n c => 10 * n + (digitValue? (codePoint c)).getD 0) (0 : ℕ) /
    10 ^ frac.length

/-- `_SIZE_RE.fullmatch`: the number and the unit. No character fits two of the parts, so the
match is found from left to right. -/
def sizeRe (text : String) : Option (ℚ × List Char) :=
  let (whole, rest) := (text.toList.dropWhile isSpaceChar).span isDecimal
  let (frac, rest) := fraction rest
  let (unit, rest) := (rest.dropWhile isSpaceChar).span Char.isAlpha
  if whole.isEmpty || unit.isEmpty || !(rest.dropWhile isSpaceChar).isEmpty then none
  else some (decimalValue whole frac, unit)

inductive SizeError
  | valueError (message : String)
  | overflowError
  deriving DecidableEq, Repr

def invalidSize (text : String) : String :=
  "invalid size \"" ++ text ++ "\" (expected a number and a unit, e.g. \"19.5GB\")"

/-- `parse_size`. The units are powers of two, so only the number itself is rounded. -/
def parseSize (text : String) : Except SizeError ℤ :=
  match sizeRe text with
  | none => .error (.valueError (invalidSize text))
  | some (number, unit) =>
    match sizeUnits.find? fun u => u.1.toList = unit.map Char.toUpper with
    | none => .error (.valueError (invalidSize text))
    | some (_, factor) =>
      match PyFloat.ofRat number with
      | .finite q => if q * factor < 2 ^ 1024 then .ok ⌊q * factor⌋ else .error .overflowError
      | _ => .error .overflowError

/-! ## Reading a table -/

/-- `_Section`. `errors` is the list that all sections of a profile share. -/
structure Section where
  name : String
  errors : List String
  seen : List String
  table : List (String × Toml)
  valid : Bool

/-- `_Section.__init__`. -/
def Section.new (name : String) (table : Option Toml) (errors : List String) : Section :=
  match table with
  | none => ⟨name, errors ++ ["missing section [" ++ name ++ "]"], [], [], false⟩
  | some (.table t) => ⟨name, errors, [], t, true⟩
  | some _ => ⟨name, errors ++ ["[" ++ name ++ "] must be a table"], [], [], false⟩

abbrev Reader := StateT Section (Except PyExc)

namespace Reader

variable (py : Texts)

/-- `_fail`. -/
def fail (key message : String) : Reader Unit :=
  modify fun s => { s with errors := s.errors ++ ["[" ++ s.name ++ "] " ++ key ++ ": " ++ message] }

/-- `_fail` under a condition. -/
def failIf (key : String) (problem : Bool) (message : Except PyExc String) : Reader Unit :=
  if problem then do fail key (← message) else pure ()

/-- `_get`. -/
def get (key : String) : Reader (Option Toml) := do
  modify fun s => { s with seen := s.seen ++ [key] }
  let s ← getThe Section
  match s.table.lookup key with
  | some value => return some value
  | none =>
    failIf key s.valid (return "missing")
    return none

def integer (key : String) (minimum : ℤ) (maximum : Option ℤ) : Reader ℤ := do
  match ← get key with
  | none => return 0
  | some (.int value) =>
    let got : Except PyExc String := do return ", got " ++ (← py.str (.int value))
    failIf key (value < minimum) do return "must be at least " ++ toString minimum ++ (← got)
    maximum.forM fun maximum =>
      failIf key (maximum < value) do return "must be at most " ++ toString maximum ++ (← got)
    return value
  | some value =>
    failIf key true do return "expected an integer, got " ++ (← py.repr value)
    return 0

/-- `minimum <= value <= maximum` for a float. -/
def between (minimum maximum : ℚ) : PyFloat → Bool
  | .finite q => minimum ≤ q && q ≤ maximum
  | _ => false

def outOfBounds (minimum maximum : ℚ) (value : Toml) : Except PyExc String := do
  return "must be between " ++ (← py.str (.float (.finite minimum))) ++ " and " ++
    (← py.str (.float (.finite maximum))) ++ ", got " ++ (← py.str value)

def number (key : String) (minimum maximum : ℚ) : Reader PyFloat := do
  match ← get key with
  | none => return .finite 0
  | some (.int n) =>
    failIf key (!between minimum maximum (.finite n)) (outOfBounds py minimum maximum (.int n))
    PyFloat.ofInt n
  | some (.float f) =>
    failIf key (!between minimum maximum f) (outOfBounds py minimum maximum (.float f))
    return f
  | some value =>
    failIf key true do return "expected a number, got " ++ (← py.repr value)
    return .finite 0

def string (key : String) (check : String → Option String) : Reader String := do
  match ← get key with
  | none => return ""
  | some (.str value) =>
    if value = "" then
      failIf key true do return "expected a non-empty string, got " ++ (← py.repr (.str value))
      return ""
    else
      (check value).forM (fail key)
      return value
  | some value =>
    failIf key true do return "expected a non-empty string, got " ++ (← py.repr value)
    return ""

def boolean (key : String) : Reader Bool := do
  match ← get key with
  | none => return false
  | some (.bool value) => return value
  | some value =>
    failIf key true do return "expected true or false, got " ++ (← py.repr value)
    return false

def size (key : String) : Reader ℤ := do
  match ← get key with
  | none => return 0
  | some (.str value) =>
    match parseSize value with
    | .ok size =>
      failIf key (size ≤ 0) do return "must be greater than zero, got " ++ (← py.repr (.str value))
      return size
    | .error (.valueError message) =>
      fail key message
      return 0
    | .error .overflowError => throw .overflowError
  | some value =>
    failIf key true do
      return "expected a size string such as \"2GB\", got " ++ (← py.repr value)
    return 0

/-- `sorted(set(keys) - known)`. -/
def unknown (keys known : List String) : List String :=
  (keys.filter (· ∉ known)).dedup.insertionSort (· ≤ ·)

def finish : Reader Unit := do
  let s ← getThe Section
  (unknown (s.table.map Prod.fst) s.seen).forM fun key => fail key "unknown field"

end Reader

/-! ## The checks of single fields -/

def isLower (c : Char) : Bool := 'a' ≤ c && c ≤ 'z'

/-- `[a-z0-9]([a-z0-9-]{0,61}[a-z0-9])?`. -/
def isLabel (cs : List Char) : Bool :=
  cs.length ≤ 63 && cs.all (fun c => isLower c || c.isDigit || c = '-') &&
    cs.head?.any (· ≠ '-') && cs.getLast?.any (· ≠ '-')

/-- `_HOSTNAME_RE.fullmatch`: labels that end with a dot, and a last one of letters only. -/
def hostnameRe (value : String) : Bool :=
  let labels := value.toList.splitOn '.'
  value.length ≤ 253 && 2 ≤ labels.length && labels.dropLast.all isLabel &&
    labels.getLast?.any fun cs => 2 ≤ cs.length && cs.length ≤ 63 && cs.all isLower

def isNameChar (c : Char) : Bool := c.isAlphanum || c = '.' || c = '_' || c = '-'

/-- `_MODEL_NAME_RE.fullmatch`. -/
def modelNameRe (value : String) : Bool :=
  value.toList.head?.any Char.isAlphanum && value.toList.all isNameChar && value.length ≤ 64

/-- `_TOOL_PARSER_RE.fullmatch`. -/
def toolParserRe (value : String) : Bool :=
  value.toList.head?.any isLower && value.toList.all fun c => isLower c || c.isDigit || c = '_'

/-- `_check_hostname`. -/
def checkHostname (value : String) : Option String :=
  if hostnameRe value then none
  else some ("\"" ++ value ++
    "\" is not a valid hostname (expected something like \"api.example.com\")")

/-- `_check_model_name`. -/
def checkModelName (value : String) : Option String :=
  if modelNameRe value then none
  else some ("\"" ++ value ++
    "\" is not a model name (letters, digits, \".\", \"-\" and \"_\", e.g. \"qwen3.8-27b\")")

/-- `_check_tool_parser`. -/
def checkToolParser (value : String) : Option String :=
  if toolParserRe value then none
  else some ("\"" ++ value ++
    "\" is not a tool parser name (expected e.g. \"qwen3_coder\" or \"auto\")")

/-! ## Profiles -/

structure ModelConfig where
  id : String
  deriving DecidableEq

structure BackendConfig where
  port : ℤ
  prefillStepSize : ℤ
  promptCacheSize : ℤ
  promptCacheBytes : ℤ
  metalMemoryLimit : ℤ
  toolParser : String
  enableThinking : Bool
  temperature : PyFloat
  topP : PyFloat
  topK : ℤ
  thinkingTemperature : PyFloat
  thinkingTopP : PyFloat
  thinkingTopK : ℤ
  startTimeoutSeconds : ℤ
  deriving DecidableEq

structure GatewayConfig where
  port : ℤ
  modelName : String
  maxContext : ℤ
  maxOutputTokens : ℤ
  minOutputTokens : ℤ
  queueSize : ℤ
  heartbeatSeconds : ℤ
  deriving DecidableEq

structure TunnelConfig where
  enabled : Bool
  hostname : String
  deriving DecidableEq

structure SystemConfig where
  gpuWiredLimitMb : ℤ
  deriving DecidableEq

structure Profile where
  name : String
  path : String
  model : ModelConfig
  backend : BackendConfig
  gateway : GatewayConfig
  tunnel : TunnelConfig
  system : SystemConfig
  deriving DecidableEq

section

variable (py : Texts)

open Reader

def readModel : Reader ModelConfig := do
  let id ← string py "id" fun _ => none
  finish
  return ⟨id⟩

def readBackend : Reader BackendConfig := do
  let port ← integer py "port" 1024 (some 65535)
  let prefillStepSize ← integer py "prefill_step_size" 1 none
  let promptCacheSize ← integer py "prompt_cache_size" 0 none
  let promptCacheBytes ← size py "prompt_cache_bytes"
  let metalMemoryLimit ← size py "metal_memory_limit"
  let toolParser ← string py "tool_parser" checkToolParser
  let enableThinking ← boolean py "enable_thinking"
  let temperature ← number py "temperature" 0 2
  let topP ← number py "top_p" 0 1
  let topK ← integer py "top_k" 0 none
  let thinkingTemperature ← number py "thinking_temperature" 0 2
  let thinkingTopP ← number py "thinking_top_p" 0 1
  let thinkingTopK ← integer py "thinking_top_k" 0 none
  let startTimeoutSeconds ← integer py "start_timeout_seconds" 1 none
  finish
  return ⟨port, prefillStepSize, promptCacheSize, promptCacheBytes, metalMemoryLimit, toolParser,
    enableThinking, temperature, topP, topK, thinkingTemperature, thinkingTopP, thinkingTopK,
    startTimeoutSeconds⟩

def readGateway : Reader GatewayConfig := do
  let port ← integer py "port" 1024 (some 65535)
  let modelName ← string py "model_name" checkModelName
  let maxContext ← integer py "max_context" 1 none
  let maxOutputTokens ← integer py "max_output_tokens" 1 none
  let minOutputTokens ← integer py "min_output_tokens" 1 none
  let queueSize ← integer py "queue_size" 0 none
  let heartbeatSeconds ←
    integer py "heartbeat_seconds" 1 (some (CLOUDFLARE_IDLE_TIMEOUT_SECONDS - 1))
  finish
  return ⟨port, modelName, maxContext, maxOutputTokens, minOutputTokens, queueSize,
    heartbeatSeconds⟩

def readTunnel : Reader TunnelConfig := do
  let enabled ← boolean py "enabled"
  let hostname ← string py "hostname" checkHostname
  finish
  return ⟨enabled, hostname⟩

def readSystem : Reader SystemConfig := do
  let gpuWiredLimitMb ← integer py "gpu_wired_limit_mb" 1 none
  finish
  return ⟨gpuWiredLimitMb⟩

/-- `if broken: errors.append(message)`. -/
def rule (broken : Bool) (message : Except PyExc String) : Except PyExc (List String) :=
  if broken then do return [← message] else return []

/-- The cross-field rules that the sections break. -/
def crossErrors (backend : BackendConfig) (gateway : GatewayConfig) (system : SystemConfig) :
    Except PyExc (List String) := do
  let text (n : ℤ) := py.str (.int n)
  let port ← rule (backend.port = gateway.port) do
    return "[backend] port and [gateway] port must differ (both " ++ (← text gateway.port) ++ ")"
  let minContext ← rule (gateway.maxContext ≤ gateway.minOutputTokens) do
    return "[gateway] min_output_tokens (" ++ (← text gateway.minOutputTokens) ++
      ") must be less than max_context (" ++ (← text gateway.maxContext) ++ ")"
  let minOutput ← rule (gateway.maxOutputTokens < gateway.minOutputTokens) do
    return "[gateway] min_output_tokens (" ++ (← text gateway.minOutputTokens) ++
      ") must not exceed max_output_tokens (" ++ (← text gateway.maxOutputTokens) ++ ")"
  let maxOutput ← rule (gateway.maxContext < gateway.maxOutputTokens) do
    return "[gateway] max_output_tokens (" ++ (← text gateway.maxOutputTokens) ++
      ") must not exceed max_context (" ++ (← text gateway.maxContext) ++ ")"
  let wired ← rule (system.gpuWiredLimitMb * 1024 ^ 2 ≤ backend.metalMemoryLimit) do
    return "[backend] metal_memory_limit must be below [system] gpu_wired_limit_mb (" ++
      (← text system.gpuWiredLimitMb) ++ " MB)"
  return port ++ minContext ++ minOutput ++ maxOutput ++ wired

def knownSections : List String := ["model", "backend", "gateway", "tunnel", "system"]

/-- Read one section; the problems come after those found so far. -/
def readSection {α : Type} (name : String) (read : Reader α) (data : List (String × Toml))
    (errors : List String) : Except PyExc (α × List String) := do
  let (value, s) ← read.run (Section.new name (data.lookup name) errors)
  return (value, s.errors)

/-- The profile that the sections describe, and all problems of its fields and between them. -/
def readProfile (name path : String) (data : List (String × Toml)) :
    Except PyExc (Profile × List String) := do
  let errors := (unknown (data.map Prod.fst) knownSections).map fun s =>
    "unknown section [" ++ s ++ "]"
  let (model, errors) ← readSection "model" (readModel py) data errors
  let (backend, errors) ← readSection "backend" (readBackend py) data errors
  let (gateway, errors) ← readSection "gateway" (readGateway py) data errors
  let (tunnel, errors) ← readSection "tunnel" (readTunnel py) data errors
  let (system, errors) ← readSection "system" (readSystem py) data errors
  let all := if errors = [] then crossErrors py backend gateway system else pure errors
  return (⟨name, path, model, backend, gateway, tunnel, system⟩, ← all)

/-- The text of the `ConfigError` for an invalid profile. -/
def invalidProfile (path : String) (errors : List String) : String :=
  "invalid profile " ++ path ++ ":\n" ++ "\n".intercalate (errors.map fun e => "  - " ++ e)

/-- `parse_profile`; its own exception is `ConfigError` with its text. -/
def parseProfile (name path : String) (data : List (String × Toml)) :
    Except (Raised String) Profile :=
  match readProfile py name path data with
  | .error x => .error (.builtin x)
  | .ok (profile, []) => .ok profile
  | .ok (_, errors) => .error (.own (invalidProfile path errors))

end

end AgentLab.Config
