import AgentLab.Gateway.BackendChunks

/-!
# The two ways of answering

`_stream` and `_complete` of the gateway, from the chunks of the backend to what the client is sent
and to the status in the request's record, for a client that stays.

A streaming answer passes each chunk on, with comments in between that carry nothing. What fails is
sent as an error event, if it is a `BackendError`; any other exception ends the answer where it is,
and `ChatResponse` records a 500.
-/

namespace AgentLab.Gateway

open Python

variable (loads : Str → Except LoadsError Json) (modelName : String)

/-! ## Streaming -/

/-- What is sent to a streaming client, keep-alive comments apart. -/
inductive Sent
  /-- The response start, with status 200. -/
  | start
  /-- A `data:` event with a value. -/
  | event (v : Json)
  /-- `data: [DONE]`. -/
  | done
  /-- The last, empty part of the body. -/
  | last

/-- `_sse`: the value of the event, if its text can be encoded. -/
def sse (v : Json) : Except PyExc Json :=
  if renders true v then .ok v else .error .unicodeEncodeError

/-- `not chunk.get("choices") and chunk.get("usage")`. -/
def usageOnly (chunk : Json) : Except PyExc Bool := do
  let choices ← chunk.get (str "choices")
  let usage ← chunk.get (str "usage")
  return !choices.truthy && usage.truthy

/-- The loop of `_stream`: what is sent for the chunks, up to an exception. -/
def streamChunks (includeUsage : Bool) : List Json → List Sent × Option PyExc
  | [] => ([], none)
  | chunk :: chunks =>
    match usageOnly chunk with
    | .error x => ([], some x)
    | .ok usageOnly =>
      if usageOnly && !includeUsage then streamChunks includeUsage chunks
      else
        match publicChunk modelName chunk >>= sse with
        | .error x => ([], some x)
        | .ok v =>
          let (sent, crash) := streamChunks includeUsage chunks
          (.event v :: sent, crash)

/-- What a streaming answer sends, and the record it leaves. -/
structure Streamed where
  sent : List Sent
  record : RequestRecord

/-- `_stream`, with the status that `ChatResponse` records when it raises. -/
def stream (includeUsage : Bool) (reply : Reply) (record : RequestRecord) : Streamed :=
  let (chunks, outcome, record) := backendChunks loads reply record
  let (sent, crash) := streamChunks modelName includeUsage chunks
  let crashed : Streamed := ⟨.start :: sent, { record with status := 500 }⟩
  match crash, outcome with
  | none, .done => ⟨.start :: sent ++ [.done, .last], { record with status := 200 }⟩
  | none, .failed e =>
    match sse e.apiError.body with
    | .ok v => ⟨.start :: sent ++ [.event v, .last], { record with status := e.status }⟩
    | .error _ => crashed
  | _, _ => crashed

/-! ## Answering at once -/

/-- The variables of `_collect`. -/
structure Collected where
  first : Json
  content : List Json
  reasoning : List Json
  toolCalls : List Json
  finishReason : Json
  usage : Json

def Collected.empty : Collected := ⟨.null, [], [], [], .null, .null⟩

/-- `[..., value]` if the value is true. -/
def appendIf (l : List Json) (v : Json) : List Json := if v.truthy then l ++ [v] else l

/-- A tool call without its index; only dictionaries get here. -/
def copyCall : Json → Except PyExc Json
  | .obj call => .ok (.obj (Dict.pop call (str "index")))
  | _ => .error .typeError

def collectChoice (acc : Collected) (choice : Json) : Except PyExc Collected := do
  let delta := (← choice.get (str "delta")).or (.obj [])
  let content ← delta.get (str "content")
  let reasoning ← delta.get (str "reasoning")
  let calls ← (← ((← delta.get (str "tool_calls")).or (.list [])).iter).mapM copyCall
  let finishReason ← choice.get (str "finish_reason")
  return { acc with
    content := appendIf acc.content content
    reasoning := appendIf acc.reasoning reasoning
    toolCalls := acc.toolCalls ++ calls
    finishReason := finishReason.or acc.finishReason }

/-- One round of the loop of `_collect`. -/
def collectChunk (acc : Collected) (chunk : Json) : Except PyExc Collected := do
  let usage ← chunk.get (str "usage")
  let choices ← ((← chunk.get (str "choices")).or (.list [])).iter
  choices.foldlM collectChoice
    { acc with first := acc.first.or chunk, usage := if usage.truthy then usage else acc.usage }

/-- A part of a join. -/
def asText : Json → Except PyExc Str
  | .str s => .ok s
  | _ => .error .typeError

/-- `"".join(parts)`. -/
def joinTexts (parts : List Json) : Except PyExc Str := return (← parts.mapM asText).flatten

def noAnswer : BackendError := ⟨502, str "the model server sent no answer"⟩

/-- The response that `_collect` assembles. -/
def assemble (acc : Collected) : Except PyExc Json := do
  let content ← joinTexts acc.content
  let reasoning ← joinTexts acc.reasoning
  let message : Dict Json := [(str "role", .str (str "assistant")),
    (str "content", if content.isEmpty then .null else .str content)]
  let message := if acc.reasoning.isEmpty then message
    else Dict.set (Dict.set message (str "reasoning") (.str reasoning))
      (str "reasoning_content") (.str reasoning)
  let message := if acc.toolCalls.isEmpty then message
    else Dict.set message (str "tool_calls") (.list acc.toolCalls)
  let result : Dict Json :=
    [(str "id", ← acc.first.get (str "id")), (str "object", .str (str "chat.completion")),
      (str "created", ← acc.first.get (str "created")), (str "model", .str (str modelName)),
      (str "choices", .list [.obj [(str "index", .int 0), (str "message", .obj message),
        (str "finish_reason", acc.finishReason)]])]
  return .obj (if acc.usage.truthy then Dict.set result (str "usage") acc.usage else result)

/-- `_collect`. -/
def collect (chunks : List Json) (outcome : Outcome) : Except (Raised BackendError) Json := do
  let acc ← (chunks.foldlM collectChunk .empty).mapError .builtin
  match outcome with
  | .failed e => .error (.own e)
  | .raised x => .error (.builtin x)
  | .done =>
    match acc.first with
    | .null => .error (.own noAnswer)
    | _ => (assemble modelName acc).mapError .builtin

/-- The response to a client that does not stream, if there is one, and the record it leaves. -/
structure Completed where
  response : Option (ℕ × Json)
  record : RequestRecord

/-- The status and the body of a `JSONResponse`; `json.dumps` refuses numbers that are not
finite. -/
def jsonResponse (status : ℕ) (body : Json) : Except PyExc (ℕ × Json) :=
  if renders false body then .ok (status, body) else .error .valueError

/-- `_complete`, with the status that `ChatResponse` records when it raises. -/
def complete (reply : Reply) (record : RequestRecord) : Completed :=
  let (chunks, outcome, record) := backendChunks loads reply record
  let response := match collect modelName chunks outcome with
    | .ok result => jsonResponse 200 result
    | .error (.own e) => jsonResponse e.status e.apiError.body
    | .error (.builtin x) => .error x
  match response with
  | .ok (status, body) => ⟨some (status, body), { record with status := status }⟩
  | .error _ => ⟨none, { record with status := 500 }⟩

end AgentLab.Gateway
