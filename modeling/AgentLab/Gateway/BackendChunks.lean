import AgentLab.Gateway.Chunk
import AgentLab.Python.Text

/-!
# The backend's stream

`backend_chunks` once it holds the slot: from the backend's reply to the chunks that it yields, what
it notes in the request's record, and how it ends.

The reply is what `httpx` makes of it: an exception before there is a response, or the lines of the
body, up to its end or to an exception. `Reply.chunks` and `Reply.isDone` say what such a reply
stands for: the chunks before the first payload that is none, and whether that one is the end marker
(`backendChunks_yields`).
-/

namespace AgentLab.Gateway

open Python

structure BackendError where
  status : ℕ
  message : Str
  deriving DecidableEq, Repr

def BackendError.apiError (e : BackendError) : ApiError :=
  ⟨e.status, e.message, none, none,
    if 500 ≤ e.status then str "server_error" else str "invalid_request_error"⟩

/-- What the request log line says. -/
structure RequestRecord where
  key : Str
  status : ℕ
  stream : Option Bool
  effort : Str
  promptTokens : Option ℤ
  maxTokens : Option ℤ
  backendPromptTokens : Json
  cachedTokens : Json
  completionTokens : Json
  finishReason : Json

def RequestRecord.new : RequestRecord :=
  ⟨str "-", 0, none, str "-", none, none, .null, .null, .null, .null⟩

/-- How the lines of a body end. -/
inductive Ending
  | eof
  /-- An `httpx.HTTPError` that is neither of the two about connecting. -/
  | httpError
  deriving DecidableEq, Repr

inductive Reply
  | connectError
  | connectTimeout
  /-- Any other `httpx.HTTPError`, or a request that cannot be written. -/
  | httpError
  | response (status : ℕ) (lines : List Str) (ending : Ending)
  deriving DecidableEq, Repr

/-- How the generator ends. -/
inductive Outcome
  | done
  | failed (e : BackendError)
  /-- An exception that `backend_chunks` does not expect. -/
  | raised (x : PyExc)
  deriving DecidableEq, Repr

/-! ## The errors -/

def notRunning : BackendError := ⟨503, str "the model server is not running"⟩

def notAnswering : BackendError := ⟨503, str "the model server is not answering"⟩

def failedWhileAnswering : BackendError := ⟨502, str "the model server failed while answering"⟩

def invalidChunk : BackendError := ⟨502, str "the model server sent an invalid chunk"⟩

def endedEarly : BackendError := ⟨502, str "the model server ended the response early"⟩

def rejected (status : ℕ) : BackendError :=
  ⟨if 500 ≤ status then 502 else 400,
    str "the model server rejected the request (HTTP " ++ natStr status ++ str ")"⟩

/-- An error status, and a message that can be sent. -/
structure BackendError.Sound (e : BackendError) : Prop where
  status : 400 ≤ e.status
  message : encodable e.message = true

theorem sound_rejected (status : ℕ) : (rejected status).Sound where
  status := by
    unfold rejected
    dsimp only
    split_ifs <;> omega
  message := by
    show encodable (str _ ++ natStr status ++ str _) = true
    rw [encodable_append, encodable_append]
    exact ⟨⟨encodable_str _, encodable_str _⟩, encodable_str _⟩

/-! ## The loop over the lines -/

def DONE : Str := str "[DONE]"

theorem DONE_eq : DONE = [0x5B, 0x44, 0x4F, 0x4E, 0x45, 0x5D] := by decide +kernel

/-- The token counts of a chunk's usage. -/
def noteUsage (record : RequestRecord) (usage : Json) : Except PyExc RequestRecord :=
  if usage.truthy then do
    let prompt ← usage.get (str "prompt_tokens")
    let completion ← usage.get (str "completion_tokens")
    let details := (← usage.get (str "prompt_tokens_details")).or (.obj [])
    let cached ← details.get (str "cached_tokens")
    return { record with
      backendPromptTokens := prompt
      completionTokens := completion
      cachedTokens := cached }
  else return record

def noteChoice (record : RequestRecord) (choice : Json) : Except PyExc RequestRecord := do
  let reason ← choice.get (str "finish_reason")
  return if reason.truthy then { record with finishReason := reason } else record

/-- What a chunk says for the log. -/
def noteChunk (record : RequestRecord) (chunk : Json) : Except PyExc RequestRecord := do
  let record ← noteUsage record (← chunk.get (str "usage"))
  let choices ← ((← chunk.get (str "choices")).or (.list [])).iter
  choices.foldlM noteChoice record

section

variable (loads : Str → Except LoadsError Json)

/-- `async for line in resp.aiter_lines()`. -/
def readLines (ending : Ending) : List Str → RequestRecord → List Json × Outcome × RequestRecord
  | [], record =>
    match ending with
    | .eof => ([], .failed endedEarly, record)
    | .httpError => ([], .failed failedWhileAnswering, record)
  | line :: lines, record =>
    if !(str "data:").isPrefixOf line then readLines ending lines record
    else
      let data := strip (line.drop 5)
      if data = DONE then ([], .done, record)
      else
        match loads data with
        | .error _ => ([], .failed failedWhileAnswering, record)
        | .ok chunk =>
          if !wellFormed chunk then ([], .failed invalidChunk, record)
          else
            match noteChunk record chunk with
            | .error x => ([], .raised x, record)
            | .ok record =>
              let (chunks, outcome, record) := readLines ending lines record
              (chunk :: chunks, outcome, record)

/-- `backend_chunks` in the slot: the chunks it yields, how it ends, and the record. -/
def backendChunks (reply : Reply) (record : RequestRecord) : List Json × Outcome × RequestRecord :=
  match reply with
  | .connectError => ([], .failed notRunning, record)
  | .connectTimeout => ([], .failed notAnswering, record)
  | .httpError => ([], .failed failedWhileAnswering, record)
  | .response status lines ending =>
    if status ≠ 200 then
      match ending with
      | .eof => ([], .failed (rejected status), record)
      | .httpError => ([], .failed failedWhileAnswering, record)
    else readLines loads ending lines record

/-! ## What a reply says -/

/-- The payload of a `data:` line. -/
def payload? (line : Str) : Option Str :=
  if (str "data:").isPrefixOf line then some (strip (line.drop 5)) else none

/-- The chunk that a payload is. -/
def chunk? (data : Str) : Option Json :=
  if data = DONE then none
  else
    match loads data with
    | .ok v => if wellFormed v then some v else none
    | .error _ => none

def Reply.payloads : Reply → List Str
  | .response status lines _ => if status = 200 then lines.filterMap payload? else []
  | _ => []

/-- The chunks before the first payload that is none. -/
def chunksOf (payloads : List Str) : List Json :=
  (payloads.takeWhile fun data => (chunk? loads data).isSome).filterMap (chunk? loads)

/-- The first payload that is no chunk is the end marker. -/
def isDoneOf (payloads : List Str) : Prop :=
  (payloads.dropWhile fun data => (chunk? loads data).isSome).head? = some DONE

def Reply.chunks (reply : Reply) : List Json := chunksOf loads reply.payloads

def Reply.isDone (reply : Reply) : Prop := isDoneOf loads reply.payloads

instance (reply : Reply) : Decidable (reply.isDone loads) :=
  inferInstanceAs (Decidable (_ = _))

end

/-! ## The loop and the reply -/

variable {loads : Str → Except LoadsError Json} {record : RequestRecord}

theorem noteUsage_ok (record : RequestRecord) {usage : Json} (h : usageOk usage = true) :
    ∃ record', noteUsage record usage = .ok record' ∧ record'.status = record.status := by
  cases usage with
  | null => exact ⟨record, rfl, rfl⟩
  | obj o =>
    unfold noteUsage
    split_ifs with ht
    · unfold usageOk at h
      dsimp only at h
      split at h
      · next details hdetails =>
        refine ⟨{ record with
          backendPromptTokens := getD o (str "prompt_tokens")
          completionTokens := getD o (str "completion_tokens")
          cachedTokens := getD details (str "cached_tokens") }, ?_, rfl⟩
        show (do let details := (getD o (str "prompt_tokens_details")).or (.obj [])
                 let cached ← details.get (str "cached_tokens")
                 return { record with
                    backendPromptTokens := getD o (str "prompt_tokens")
                    completionTokens := getD o (str "completion_tokens")
                    cachedTokens := cached } : Except PyExc RequestRecord) = _
        rw [hdetails]
        rfl
      · cases h
    · exact ⟨record, rfl, rfl⟩
  | _ => cases h

theorem foldlM_noteChoice_ok (choices : List (Dict Json)) :
    ∀ record : RequestRecord, ∃ record',
      (choices.map .obj).foldlM noteChoice record = .ok record' ∧
        record'.status = record.status := by
  induction choices with
  | nil => exact fun record => ⟨record, rfl, rfl⟩
  | cons choice choices ih =>
    intro record
    obtain ⟨record', h, hs⟩ := ih (if (getD choice (str "finish_reason")).truthy then
      { record with finishReason := getD choice (str "finish_reason") } else record)
    refine ⟨record', h, hs.trans ?_⟩
    split_ifs <;> rfl

/-- Noting a well-formed chunk raises nothing. -/
theorem noteChunk_ok (record : RequestRecord) {chunk : Dict Json} (h : WellFormed chunk) :
    ∃ record', noteChunk record (.obj chunk) = .ok record' ∧ record'.status = record.status := by
  obtain ⟨r₁, h₁, hs₁⟩ := noteUsage_ok record h.usage
  obtain ⟨r₂, h₂, hs₂⟩ := foldlM_noteChoice_ok (choicesOf chunk) r₁
  refine ⟨r₂, ?_, hs₂.trans hs₁⟩
  unfold noteChunk
  show (noteUsage record (getD chunk (str "usage")) >>= _) = _
  rw [h₁]
  show (((getD chunk (str "choices")).or (.list [])).iter >>= _) = _
  rw [h.choices]
  exact h₂

theorem chunk?_wellFormed {data : Str} {v : Json} (h : chunk? loads data = some v) :
    wellFormed v = true := by
  unfold chunk? at h
  split_ifs at h
  split at h
  · split_ifs at h with hw
    cases h
    exact hw
  · cases h

/-- What the generator makes of the payloads: the chunks, and `done` if and only if `isDone`; the
status of the record stays, and every error can be sent. -/
structure Yields (result : List Json × Outcome × RequestRecord) (status : ℕ) (chunks : List Json)
    (isDone : Prop) : Prop where
  chunks : result.1 = chunks
  done : isDone → result.2.1 = .done
  failed : ¬isDone → ∃ e, result.2.1 = .failed e ∧ e.Sound
  status : result.2.2.status = status

theorem Yields.of_failed {e : BackendError} {isDone : Prop} (h : e.Sound)
    (hd : ¬isDone) : Yields ([], .failed e, record) record.status [] isDone :=
  ⟨rfl, fun hc => absurd hc hd, fun _ => ⟨e, rfl, h⟩, rfl⟩

theorem chunksOf_cons {data : Str} {payloads : List Str} :
    chunksOf loads (data :: payloads) =
      match chunk? loads data with
      | some v => v :: chunksOf loads payloads
      | none => [] := by
  unfold chunksOf
  cases h : chunk? loads data <;> simp [h]

theorem isDoneOf_cons {data : Str} {payloads : List Str} :
    isDoneOf loads (data :: payloads) ↔
      match chunk? loads data with
      | some _ => isDoneOf loads payloads
      | none => data = DONE := by
  unfold isDoneOf
  cases h : chunk? loads data <;> simp [h]

/-- **The loop over the lines**, for a body however it ends. -/
theorem readLines_yields (ending : Ending) (lines : List Str) :
    ∀ record : RequestRecord, Yields (readLines loads ending lines record) record.status
      (chunksOf loads (lines.filterMap payload?)) (isDoneOf loads (lines.filterMap payload?)) := by
  induction lines with
  | nil =>
    intro record
    cases ending <;> exact .of_failed ⟨by decide, encodable_str _⟩ (by simp [isDoneOf])
  | cons line lines ih =>
    intro record
    rw [List.filterMap_cons]
    unfold readLines
    by_cases hdata : (str "data:").isPrefixOf line = true
    · rw [show payload? line = some (strip (line.drop 5)) from if_pos hdata]
      simp only [hdata, Bool.not_true, Bool.false_eq_true, if_false]
      rw [chunksOf_cons, isDoneOf_cons]
      unfold chunk?
      split_ifs with hdone
      · exact ⟨rfl, fun _ => rfl, fun h => absurd hdone h, rfl⟩
      · split
        · next e he => rw [he]; exact .of_failed ⟨by decide, encodable_str _⟩ hdone
        · next v hv =>
          rw [hv]
          dsimp only
          by_cases hw : wellFormed v = true
          · simp only [hw, Bool.not_true, Bool.false_eq_true, if_false, if_true]
            obtain ⟨chunk, rfl, hchunk⟩ := wellFormed_obj hw
            obtain ⟨record', hnote, hstatus⟩ := noteChunk_ok record hchunk
            rw [hnote]
            obtain ⟨hchunks, hdone', hfailed, hstatus'⟩ := ih record'
            exact ⟨congrArg (.obj chunk :: ·) hchunks, hdone', hfailed, hstatus'.trans hstatus⟩
          · simp only [hw, Bool.not_false, if_true]
            exact .of_failed ⟨by decide, encodable_str _⟩ hdone
    · rw [show payload? line = none from if_neg hdata]
      simp only [hdata, Bool.not_false, if_true]
      exact ih record

/-- **What `backend_chunks` makes of a reply.** -/
theorem backendChunks_yields (reply : Reply) (record : RequestRecord) :
    Yields (backendChunks loads reply record) record.status (reply.chunks loads)
      (reply.isDone loads) := by
  cases reply with
  | connectError | connectTimeout | httpError =>
    exact .of_failed ⟨by decide, encodable_str _⟩ (by simp [Reply.isDone, Reply.payloads, isDoneOf])
  | response status lines ending =>
    unfold backendChunks Reply.chunks Reply.isDone Reply.payloads
    dsimp only
    by_cases hs : status = 200
    · simp only [hs, ne_eq, not_true_eq_false, if_false, if_true]
      exact readLines_yields ending lines record
    · simp only [hs, ne_eq, not_false_eq_true, if_false, if_true]
      cases ending
      · exact .of_failed (sound_rejected status) (by simp [isDoneOf])
      · exact .of_failed ⟨by decide, encodable_str _⟩ (by simp [isDoneOf])

/-- The chunks of a reply are well formed. -/
theorem wellFormed_of_mem {reply : Reply} {v : Json} (h : v ∈ reply.chunks loads) :
    ∃ chunk, v = .obj chunk ∧ WellFormed chunk := by
  obtain ⟨data, -, hdata⟩ := List.mem_filterMap.1 h
  exact wellFormed_obj (chunk?_wellFormed hdata)

/-! ## A reply with one chunk -/

def helloJson : List Char :=
  "\x7b\"id\": \"chatcmpl-1\", \"created\": 7, \"choices\": [\x7b\"index\": 0, ".toList ++
  "\"delta\": \x7b\"reasoning\": \"hm\", \"content\": \"hi\", ".toList ++
  "\"tool_calls\": [\x7b\"index\": 0, \"id\": \"call-1\"\x7d]\x7d, ".toList ++
  "\"finish_reason\": \"tool_calls\"\x7d], \"usage\": \x7b\"prompt_tokens\": 3\x7d\x7d".toList

def helloText : Str := points helloJson

def helloChunk : Dict Json :=
  [(str "id", .str (str "chatcmpl-1")), (str "created", .int 7),
    (str "choices", .list [.obj [(str "index", .int 0),
      (str "delta", .obj [(str "reasoning", .str (str "hm")), (str "content", .str (str "hi")),
        (str "tool_calls", .list [.obj [(str "index", .int 0), (str "id", .str (str "call-1"))]])]),
      (str "finish_reason", .str (str "tool_calls"))]]),
    (str "usage", .obj [(str "prompt_tokens", .int 3)])]

def helloLoads (s : Str) : Except LoadsError Json :=
  if s = helloText then .ok (.obj helloChunk) else .error .valueError

def hello : Reply := .response 200 [str "data: " ++ helloText, [], str "data: [DONE]"] .eof

theorem chunk?_hello : chunk? helloLoads helloText = some (.obj helloChunk) := by
  have hdone : helloText ≠ DONE := by decide +kernel
  have hloads : helloLoads helloText = .ok (.obj helloChunk) := if_pos rfl
  have hwell : wellFormed (.obj helloChunk) = true := by decide +kernel
  unfold chunk?
  rw [if_neg hdone, hloads]
  exact if_pos hwell

theorem payloads_hello : hello.payloads = [helloText, DONE] := by decide +kernel

theorem isDone_hello : hello.isDone helloLoads := by
  unfold Reply.isDone
  rw [payloads_hello, isDoneOf_cons, chunk?_hello]
  exact isDoneOf_cons.2 rfl

theorem chunks_hello : hello.chunks helloLoads = [helloChunk].map .obj := by
  unfold Reply.chunks
  rw [payloads_hello, chunksOf_cons, chunk?_hello]
  dsimp only
  rw [chunksOf_cons]
  rfl

end AgentLab.Gateway
