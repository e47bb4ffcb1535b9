import Mathlib.Data.List.SplitBy
import AgentLab.Config.Profile

/-!
# Translating requests

`translate.py`: `prepare` turns the client's body into the backend's, and `limit` fits `max_tokens`
into the context; and `rules_for` of `server.py`, which reads the rules they follow off the profile
and the chat template.

What raises is an `ApiError` for the client, or a built-in exception that nothing in `translate.py`
catches: `TypeError` for a role that cannot be hashed, `OverflowError` for an integer too large for
a float, `RecursionError` for tool call arguments nested too deeply, and what `repr` and `str` raise
for a value that an error message quotes.
-/

namespace AgentLab.Gateway

open Python Config

/-- What `json.loads` raises. -/
inductive LoadsError
  | valueError
  | recursionError
  deriving DecidableEq, Repr

/-- What Python itself contributes: `json.loads` of a string, the texts `repr` and `str`, which
fail for a value nested too deeply, `str` of a float, and the letters and digits of Unicode beyond
ASCII. -/
structure Runtime where
  loads : Str → Except LoadsError Json
  repr : Json → Except PyExc Str
  text : Json → Except PyExc Str
  floatText : PyFloat → Str
  isAlnum : CodePoint → Bool

/-- `ApiError`, an error for the client. -/
structure ApiError where
  status : ℕ
  message : Str
  code : Option Str
  param : Option Str
  type : Str
  deriving DecidableEq, Repr

abbrev Api := Except (Raised ApiError)

/-- A string, or `None`. -/
def optStr (s : Option Str) : Json := s.elim .null .str

def ApiError.body (e : ApiError) : Json :=
  .obj [(str "error", .obj
    [(str "message", .str e.message), (str "type", .str e.type), (str "param", optStr e.param),
      (str "code", optStr e.code)])]

structure Sampling where
  temperature : PyFloat
  topP : PyFloat
  topK : ℤ

def Sampling.asDict (s : Sampling) : Dict Json :=
  [(str "temperature", .float s.temperature), (str "top_p", .float s.topP),
    (str "top_k", .int s.topK)]

structure Limits where
  maxContext : ℤ
  maxOutputTokens : ℤ
  minOutputTokens : ℤ

/-- What the gateway needs to know about the model and the profile. -/
structure Rules where
  modelName : String
  limits : Limits
  defaultThinking : Bool
  sampling : Sampling
  thinkingSampling : Sampling
  effortVariable : Option Str

/-- A validated request. -/
structure Prepared where
  body : Dict Json
  messages : List Json
  tools : Option (List Json)
  templateArgs : Dict Json
  requestedMaxTokens : Option ℤ
  stream : Bool
  includeUsage : Bool
  thinking : Bool
  effort : Str

/-! ## Constants -/

def BACKEND_MODEL : Str := str "default_model"

def THINKING_SWITCH : Str := str "enable_thinking"

def EFFORT_LEVELS : Dict Str :=
  [(str "low", str "low"), (str "medium", str "medium"), (str "high", str "xhigh"),
    (str "xhigh", str "xhigh")]

def NO_THINKING : List Str := [str "none", str "minimal"]

def MESSAGE_ROLES : List Str :=
  [str "system", str "developer", str "user", str "assistant", str "tool"]

/-- `_NUMBER_FIELDS`. -/
def numberFields : List (Str × ℚ × ℚ) :=
  [(str "temperature", 0, 2), (str "top_p", 0, 1), (str "min_p", 0, 1),
    (str "presence_penalty", -2, 2), (str "frequency_penalty", -2, 2),
    (str "repetition_penalty", 0, 10)]

/-- The variable of the chat template that takes an effort level. -/
def EFFORT_VARIABLE : Str := str "reasoning_effort"

/-! ## Reading values -/

/-- `_bad`. -/
def badError (message : Str) (param : Option Str) : ApiError :=
  ⟨400, message, param.map fun _ => str "invalid_value", param, str "invalid_request_error"⟩

def bad {α : Type} (message : Str) (param : Option Str) : Api α :=
  .error (.own (badError message param))

/-- `value.get(key) if isinstance(value, dict) else None`. -/
def field (value : Json) (key : String) : Json :=
  match value with
  | .obj o => getD o (str key)
  | _ => .null

/-- `value == s` for a string `s`. -/
def isText (value : Json) (s : String) : Bool :=
  match value with
  | .str t => t = str s
  | _ => false

/-- `value == n` for an integer `n`. -/
def equalsInt (value : Json) (n : ℤ) : Bool :=
  match value with
  | .bool b => (if b then 1 else 0) = n
  | .int m => m = n
  | .float (.finite q) => q = n
  | _ => false

def isStr : Json → Bool
  | .str _ => true
  | _ => false

/-- `_is_number`; `math.isfinite` converts an integer to a float. -/
def isNumber : Json → Except PyExc Bool
  | .int n => do
    let _ ← PyFloat.ofInt n
    return true
  | .float (.finite _) => .ok true
  | _ => .ok false

/-- `low <= value <= high` for a number. -/
def inRange (low high : ℚ) : Json → Bool
  | .int n => low ≤ n && n ≤ high
  | .float (.finite q) => low ≤ q && q ≤ high
  | _ => false

/-- A built-in exception passes through. -/
def liftPy {α : Type} (x : Except PyExc α) : Api α := x.mapError .builtin

/-! ## Messages and tools -/

variable (rt : Runtime)

def checkPart (loc : Str) (part : Json) (j : ℕ) : Api Unit := do
  let kind := field part "type"
  if !isText kind "text" then
    let shown ← liftPy (rt.repr kind)
    bad (loc ++ str ".content[" ++ natStr j ++ str "] has type " ++ shown ++
        str ": only text is supported (this server does not accept images, audio or files in v1)")
      (loc ++ str ".content")
  else if !isStr (field part "text") then
    bad (loc ++ str ".content[" ++ natStr j ++ str "].text must be a string")
      (loc ++ str ".content")

/-- `_check_content`. -/
def checkContent (content : Json) (loc : Str) : Api Unit :=
  match content with
  | .null | .str _ => .ok ()
  | .list parts => parts.zipIdx.forM fun (part, j) => checkPart rt loc part j
  | _ => bad (loc ++ str ".content must be a string or a list of parts") (loc ++ str ".content")

def checkToolCall (loc : Str) (call : Json) (j : ℕ) : Api Unit :=
  let callLoc := loc ++ str ".tool_calls[" ++ natStr j ++ str "]"
  let function := field call "function"
  if !isStr (field function "name") then
    bad (callLoc ++ str " needs a function name") (loc ++ str ".tool_calls")
  else
    match field function "arguments" with
    | .null => .ok ()
    | .str [] => .ok ()
    | .str arguments =>
      match rt.loads arguments with
      | .ok _ => .ok ()
      | .error .valueError =>
        bad (callLoc ++ str ".function.arguments is not valid JSON") (loc ++ str ".tool_calls")
      | .error .recursionError => .error (.builtin .recursionError)
    | _ =>
      bad (callLoc ++ str ".function.arguments must be a JSON string") (loc ++ str ".tool_calls")

/-- `_check_tool_calls`. -/
def checkToolCalls (calls : Json) (loc : Str) : Api Unit :=
  match calls with
  | .null => .ok ()
  | .list calls => calls.zipIdx.forM fun (call, j) => checkToolCall rt loc call j
  | _ => bad (loc ++ str ".tool_calls must be a list") (loc ++ str ".tool_calls")

/-- `role in MESSAGE_ROLES`; lists and dictionaries cannot be hashed. -/
def isRole : Json → Except PyExc Bool
  | .str s => .ok (s ∈ MESSAGE_ROLES)
  | .list _ | .obj _ => .error .typeError
  | _ => .ok false

def checkMessage (message : Json) (i : ℕ) : Api Json := do
  let loc := str "messages[" ++ natStr i ++ str "]"
  match message with
  | .obj o =>
    let role := getD o (str "role")
    let known ← liftPy (isRole role)
    if !known then
      bad (loc ++ str ".role must be one of " ++
        str "['assistant', 'developer', 'system', 'tool', 'user']") (str "messages")
    else
      checkContent rt (getD o (str "content")) loc
      checkToolCalls rt (getD o (str "tool_calls")) loc
      return .obj
        (if isText role "developer" then Dict.set o (str "role") (.str (str "system")) else o)
  | _ => bad (loc ++ str " must be an object") (str "messages")

/-- `_messages`. -/
def checkMessages (value : Json) : Api (List Json) :=
  match value with
  | .list (m :: ms) => (m :: ms).zipIdx.mapM fun (message, i) => checkMessage rt message i
  | _ => bad (str "messages must be a non-empty list") (str "messages")

def checkTool (tool : Json) (i : ℕ) : Api Unit :=
  let wellFormed := match tool with
    | .obj o => isText ((Dict.get? o (str "type")).getD (.str (str "function"))) "function" &&
        isStr (field (getD o (str "function")) "name")
    | _ => false
  if wellFormed then .ok ()
  else bad (str "tools[" ++ natStr i ++ str "] must be a function with a name") (str "tools")

/-- `_tools`. -/
def checkTools (value toolChoice : Json) : Api (Option (List Json)) :=
  match value with
  | .null | .list [] => .ok none
  | .list tools => do
    tools.zipIdx.forM fun (tool, i) => checkTool tool i
    return if isText toolChoice "none" then none else some tools
  | _ => bad (str "tools must be a list") (str "tools")

/-! ## The fields of the body -/

/-- `_effort`: the effort, whether to think, and the chat template arguments to send. -/
def readEffort (value : Json) (rules : Rules) : Api (Str × Bool × Dict Json) :=
  match value with
  | .null => .ok (str "default", rules.defaultThinking, [])
  | .str s =>
    if s ∈ NO_THINKING then
      .ok (str "none", false,
        if rules.defaultThinking then [(THINKING_SWITCH, .bool false)] else [])
    else
      match Dict.get? EFFORT_LEVELS s with
      | some level =>
        let on : Dict Json := [(THINKING_SWITCH, .bool true)]
        .ok (s, true,
          match rules.effortVariable with
          | some (c :: cs) => Dict.set on (c :: cs) (.str level)
          | _ => on)
      | none => bad (str "reasoning_effort must be one of none, low, medium or high")
          (str "reasoning_effort")
  | _ => bad (str "reasoning_effort must be one of none, low, medium or high")
      (str "reasoning_effort")

def checkModel (model : Json) (rules : Rules) : Api Unit :=
  let unknown : Api Unit := do
    let shown ← liftPy (rt.text model)
    .error (.own
      ⟨404, str "The model `" ++ shown ++ str "` does not exist; this server only has `" ++
        str rules.modelName ++ str "`.", str "model_not_found", str "model",
        str "invalid_request_error"⟩)
  match model with
  | .null => .ok ()
  | _ => if isText model rules.modelName then .ok () else unknown

def readStream : Json → Api Bool
  | .null => .ok false
  | .bool b => .ok b
  | _ => bad (str "stream must be true or false") (str "stream")

def readIncludeUsage : Json → Api Bool
  | .null => .ok false
  | .obj o => .ok (match getD o (str "include_usage") with | .bool b => b | _ => false)
  | _ => bad (str "stream_options must be an object") (str "stream_options")

def checkN (n : Json) : Api Unit :=
  match n with
  | .null => .ok ()
  | _ => if equalsInt n 1 then .ok () else bad (str "only n=1 is supported") (str "n")

def readNumber (body forward : Dict Json) (f : Str × ℚ × ℚ) : Api (Dict Json) := do
  let (name, low, high) := f
  match getD body name with
  | .null => return forward
  | value =>
    let number ← liftPy (isNumber value)
    if number && inRange low high value then return Dict.set forward name value
    else
      bad (name ++ str " must be a number between " ++ rt.floatText (.finite low) ++
        str " and " ++ rt.floatText (.finite high)) name

def readTopK (body forward : Dict Json) : Api (Dict Json) :=
  let refuse : Api (Dict Json) := bad (str "top_k must be a non-negative integer") (str "top_k")
  match getD body (str "top_k") with
  | .null => .ok forward
  | .int n => if n < 0 then refuse else .ok (Dict.set forward (str "top_k") (.int n))
  | _ => refuse

def readSeed (body forward : Dict Json) : Api (Dict Json) :=
  match getD body (str "seed") with
  | .null => .ok forward
  | .int n => .ok (Dict.set forward (str "seed") (.int n))
  | _ => bad (str "seed must be an integer") (str "seed")

def readStop (body forward : Dict Json) : Api (Dict Json) :=
  let refuse : Api (Dict Json) :=
    bad (str "stop must be a string or a list of strings") (str "stop")
  let check (stop : List Json) : Api (Dict Json) :=
    if !stop.all fun s => isStr s && s.truthy then refuse
    else if stop.isEmpty then .ok forward
    else .ok (Dict.set forward (str "stop") (.list stop))
  match getD body (str "stop") with
  | .null => .ok forward
  | .str s => check [.str s]
  | .list stop => check stop
  | _ => refuse

/-- `all(k.isdigit() and _is_number(v) for ...)`, up to the first item that is not. -/
def allNumbers : Dict Json → Except PyExc Bool
  | [] => .ok true
  | (k, v) :: bias => do
    if !isDigit k then return false
    else if ← isNumber v then allNumbers bias
    else return false

def readLogitBias (body forward : Dict Json) : Api (Dict Json) := do
  match getD body (str "logit_bias") with
  | .null => return forward
  | .obj bias =>
    let ok ← liftPy (allNumbers bias)
    if !ok then bad (str "logit_bias must map token ids to numbers") (str "logit_bias")
    else if bias.isEmpty then return forward
    else return Dict.set forward (str "logit_bias") (.obj bias)
  | _ => bad (str "logit_bias must map token ids to numbers") (str "logit_bias")

/-- The first of the fields that is set. -/
def readRequested (body : Dict Json) : List Str → Api (Option ℤ)
  | [] => .ok none
  | name :: names =>
    let refuse : Api (Option ℤ) := bad (name ++ str " must be a positive integer") name
    match getD body name with
    | .null => readRequested body names
    | .int n => if n < 1 then refuse else .ok n
    | _ => refuse

/-- The fields that are passed on once their types are checked. -/
def readFields (body forward : Dict Json) : Api (Dict Json) := do
  let forward ← numberFields.foldlM (readNumber rt body) forward
  let forward ← readTopK body forward
  let forward ← readSeed body forward
  let forward ← readStop body forward
  readLogitBias body forward

/-- The `forward` that `prepare` starts with. -/
def forwardStart (messages : List Json) (tools : Option (List Json)) : Dict Json :=
  let forward : Dict Json := [(str "model", .str BACKEND_MODEL), (str "messages", .list messages)]
  match tools with
  | some (t :: ts) => Dict.set forward (str "tools") (.list (t :: ts))
  | _ => forward

/-- The `forward` that `prepare` ends with. -/
def forwardEnd (forward templateArgs : Dict Json) (sampling : Sampling) : Dict Json :=
  let forward := if templateArgs.isEmpty then forward
    else Dict.set forward (str "chat_template_kwargs") (.obj templateArgs)
  let forward := sampling.asDict.foldl (fun d kv => Dict.setdefault d kv.1 kv.2) forward
  let forward := Dict.set forward (str "stream") (.bool true)
  Dict.set forward (str "stream_options") (.obj [(str "include_usage", .bool true)])

/-- Validate a chat completion request. -/
def prepare (body : Json) (rules : Rules) : Api Prepared := do
  match body with
  | .obj body =>
    checkModel rt (getD body (str "model")) rules
    let messages ← checkMessages rt (getD body (str "messages"))
    let tools ← checkTools (getD body (str "tools")) (getD body (str "tool_choice"))
    let stream ← readStream (getD body (str "stream"))
    let includeUsage ← readIncludeUsage (getD body (str "stream_options"))
    checkN (getD body (str "n"))
    let forward ← readFields rt body (forwardStart messages tools)
    let requested ← readRequested body [str "max_completion_tokens", str "max_tokens"]
    let (effort, thinking, templateArgs) ← readEffort (getD body (str "reasoning_effort")) rules
    let sampling := if thinking then rules.thinkingSampling else rules.sampling
    return {
      body := forwardEnd forward templateArgs sampling
      messages := messages
      tools := tools
      templateArgs := Dict.merge [(THINKING_SWITCH, .bool rules.defaultThinking)] templateArgs
      requestedMaxTokens := requested
      stream := stream
      includeUsage := includeUsage
      thinking := thinking
      effort := effort }
  | _ => bad (str "the request body must be a JSON object") none

/-! ## The token limit -/

def contextLengthExceeded (promptTokens : ℤ) (limits : Limits) : ApiError :=
  ⟨400, str "This model's maximum context length is " ++ intStr limits.maxContext ++
    str " tokens, of which " ++ intStr limits.minOutputTokens ++
    str " are kept for the answer. Your messages resulted in " ++ intStr promptTokens ++
    str " tokens; please shorten them or start a new conversation.",
    str "context_length_exceeded", str "messages", str "invalid_request_error"⟩

/-- `max_tokens` for the backend, if the prompt leaves enough room. -/
def limit (promptTokens : ℤ) (requested : Option ℤ) (limits : Limits) : Except ApiError ℤ :=
  let budget := limits.maxContext - limits.minOutputTokens
  if budget < promptTokens then .error (contextLengthExceeded promptTokens limits)
  else
    let allowed := min limits.maxOutputTokens (limits.maxContext - promptTokens)
    match requested with
    | none => .ok allowed
    | some n => .ok (min n allowed)

/-! ## The rules of a profile -/

def isAsciiIdentStart (c : CodePoint) : Bool :=
  (0x41 ≤ c.val && c.val ≤ 0x5A) || (0x61 ≤ c.val && c.val ≤ 0x7A) || c.val = 0x5F

def isAsciiIdent (c : CodePoint) : Bool :=
  isAsciiIdentStart c || (0x30 ≤ c.val && c.val ≤ 0x39)

/-- `\w` of a regular expression. -/
def isWord (c : CodePoint) : Bool := if c.val < 0x80 then isAsciiIdent c else rt.isAlnum c

/-- `template_variables`: the words that are ASCII identifiers. -/
def templateVariables (chatTemplate : Str) : List Str :=
  (chatTemplate.splitOnP fun c => !isWord rt c).filter fun w =>
    w.head?.any isAsciiIdentStart && w.all isAsciiIdent

/-- `rules_for`. -/
def rulesFor (profile : Profile) (chatTemplate : Str) : Rules :=
  let backend := profile.backend
  let gateway := profile.gateway
  { modelName := gateway.modelName
    limits := ⟨gateway.maxContext, gateway.maxOutputTokens, gateway.minOutputTokens⟩
    defaultThinking := backend.enableThinking
    sampling := ⟨backend.temperature, backend.topP, backend.topK⟩
    thinkingSampling := ⟨backend.thinkingTemperature, backend.thinkingTopP, backend.thinkingTopK⟩
    effortVariable := if EFFORT_VARIABLE ∈ templateVariables rt chatTemplate then EFFORT_VARIABLE
      else none }

end AgentLab.Gateway
