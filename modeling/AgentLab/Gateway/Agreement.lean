import AgentLab.Gateway.Rendered

/-!
# Streaming and non-streaming answers agree

A client that reads a streaming answer folds its events (`Client.read`); one that does not reads the
body of the response (`readBody`). Both come to the same `Answer` of a complete stream
(`answers_agree`). For each part, the fold over the events is the part of the chunks.
-/

namespace AgentLab.Gateway

open Python

/-- What a client makes of an answer; an empty content and none are the same. -/
@[ext] structure Answer where
  model : Json
  id : Json
  created : Json
  content : Str
  reasoning : Option Str
  reasoningContent : Option Str
  toolCalls : Option (List Json)
  finishReason : Json
  usage : Json

/-! ## A client of the stream -/

/-- What the client has read so far. -/
structure Client where
  first : Option (Dict Json)
  content : List Str
  reasoning : List Str
  reasoningContent : List Str
  /-- The tool calls by index. -/
  calls : List (ℤ × Dict Json)
  finishReason : Json
  usage : Json

namespace Client

def empty : Client := ⟨none, [], [], [], [], .null, .null⟩

variable (merge : Dict Json → Dict Json → Dict Json)

def indexOf (call : Dict Json) : ℤ :=
  match getD call (str "index") with
  | .int i => i
  | _ => 0

/-- A piece of a tool call: a call of a new index is kept, a later piece is merged into its call. -/
def addCall (calls : List (ℤ × Dict Json)) (piece : Dict Json) : List (ℤ × Dict Json) :=
  if calls.any fun c => c.1 = indexOf piece then
    calls.map fun c => if c.1 = indexOf piece then (c.1, merge c.2 piece) else c
  else calls ++ [(indexOf piece, piece)]

def readChoice (client : Client) (choice : Dict Json) : Client :=
  let delta := deltaOf choice
  { client with
    content := client.content ++ (textOf (getD delta (str "content"))).toList
    reasoning := client.reasoning ++ (textOf (getD delta (str "reasoning"))).toList
    reasoningContent :=
      client.reasoningContent ++ (textOf (getD delta (str "reasoning_content"))).toList
    calls := (callsOf delta).foldl (addCall merge) client.calls
    finishReason := (getD choice (str "finish_reason")).or client.finishReason }

def readEvent (client : Client) (event : Dict Json) : Client :=
  (choicesOf event).foldl (readChoice merge)
    { client with
      first := client.first.or (some event)
      usage := (getD event (str "usage")).or client.usage }

/-- The value of an event. -/
def valueOf : Sent → Option (Dict Json)
  | .event (.obj o) => some o
  | _ => none

/-- `none` if there is no text. -/
def texts (parts : List Str) : Option Str := if parts.isEmpty then none else some parts.flatten

/-- The answer, once the stream has ended. -/
def answer (client : Client) : Answer where
  model := getD (client.first.getD []) (str "model")
  id := getD (client.first.getD []) (str "id")
  created := getD (client.first.getD []) (str "created")
  content := client.content.flatten
  reasoning := texts client.reasoning
  reasoningContent := texts client.reasoningContent
  toolCalls := if client.calls.isEmpty then none
    else some ((client.calls.insertionSort fun c d => c.1 ≤ d.1).map fun c => withoutIndex c.2)
  finishReason := client.finishReason
  usage := client.usage

def read (sent : List Sent) : Answer :=
  ((sent.filterMap valueOf).foldl (readEvent merge) empty).answer

end Client

/-! ## A client of the response -/

def asStr : Json → Option Str
  | .str s => some s
  | _ => none

def asList : Json → Option (List Json)
  | .list l => some l
  | _ => none

def readBody (body : Json) : Answer :=
  let choice := (items (field body "choices")).headD .null
  let message := field choice "message"
  { model := field body "model"
    id := field body "id"
    created := field body "created"
    content := (asStr (field message "content")).getD []
    reasoning := asStr (field message "reasoning")
    reasoningContent := asStr (field message "reasoning_content")
    toolCalls := asList (field message "tool_calls")
    finishReason := field choice "finish_reason"
    usage := field body "usage" }

/-! ## The answer of the chunks -/

/-- The answer that the parts of the chunks make up. -/
def answerOf (modelName : String) (chunks : List (Dict Json)) : Answer where
  model := .str (str modelName)
  id := getD (firstOf chunks) (str "id")
  created := getD (firstOf chunks) (str "created")
  content := (contentOf chunks).flatten
  reasoning := Client.texts (reasoningOf chunks)
  reasoningContent := Client.texts (reasoningOf chunks)
  toolCalls := if (answerCalls chunks).isEmpty then none else some (answerCalls chunks)
  finishReason := finishReasonOf chunks
  usage := usageOf chunks

variable {modelName : String} {chunks : List (Dict Json)}

/-- Reading the message of the body. -/
theorem field_messageOf (chunks : List (Dict Json)) :
    (asStr (field (.obj (messageOf chunks)) "content")).getD [] = (contentOf chunks).flatten ∧
    asStr (field (.obj (messageOf chunks)) "reasoning") = Client.texts (reasoningOf chunks) ∧
    asStr (field (.obj (messageOf chunks)) "reasoning_content") =
      Client.texts (reasoningOf chunks) ∧
    asList (field (.obj (messageOf chunks)) "tool_calls") =
      if (answerCalls chunks).isEmpty then none else some (answerCalls chunks) := by
  refine ⟨?_, ?_, ?_, ?_⟩
  · have hcontent : field (.obj (messageOf chunks)) "content" =
        if (contentOf chunks).flatten.isEmpty then .null else .str (contentOf chunks).flatten := rfl
    rw [hcontent]
    split_ifs with he
    · exact (List.isEmpty_iff.1 he).symm
    · rfl
  all_goals
    unfold messageOf
    first | unfold Client.texts | skip
    cases (reasoningOf chunks).isEmpty <;> cases (answerCalls chunks).isEmpty <;> rfl

theorem readBody_bodyOf :
    readBody (.obj (bodyOf modelName chunks)) = answerOf modelName chunks := by
  have husage : field (.obj (bodyOf modelName chunks)) "usage" = usageOf chunks := by
    unfold bodyOf
    cases hu : (usageOf chunks).truthy with
    | true => rfl
    | false => exact (lastTrue_of_falsy hu).symm
  obtain ⟨hcontent, hreasoning, hreasoningContent, hcalls⟩ := field_messageOf chunks
  exact Answer.ext rfl rfl rfl hcontent hreasoning hreasoningContent hcalls rfl husage

/-! ## The client of the stream reads the answer of the chunks -/

namespace Client

variable {merge : Dict Json → Dict Json → Dict Json}

/-- Calls whose indices are new and differ are all kept. -/
theorem foldl_addCall {calls : List (ℤ × Dict Json)} {pieces : List (Dict Json)}
    (h : (calls.map Prod.fst ++ pieces.map indexOf).Pairwise (· < ·)) :
    pieces.foldl (addCall merge) calls = calls ++ pieces.map fun call => (indexOf call, call) := by
  induction pieces generalizing calls with
  | nil => simp
  | cons piece pieces ih =>
    have hnew : addCall merge calls piece = calls ++ [(indexOf piece, piece)] := by
      unfold addCall
      rw [if_neg]
      intro hany
      obtain ⟨c, hc, hi⟩ := List.any_eq_true.1 hany
      have hlt := (List.pairwise_append.1 h).2.2 c.1 (List.mem_map_of_mem hc) (indexOf piece)
        (List.mem_cons_self)
      rw [of_decide_eq_true hi] at hlt
      exact absurd hlt (Int.lt_irrefl _)
    rw [List.foldl_cons, hnew, ih (by simpa using h)]
    simp

/-- One choice of a public chunk adds the parts of the choice. -/
theorem readChoice_public (client : Client) {choice : Dict Json}
    (hreasoning : Dict.get? (deltaOf choice) (str "reasoning_content") = none) :
    readChoice merge client (publicChoiceOf choice) =
      { client with
        content := client.content ++ (textOf (getD (deltaOf choice) (str "content"))).toList
        reasoning := client.reasoning ++ (textOf (getD (deltaOf choice) (str "reasoning"))).toList
        reasoningContent :=
          client.reasoningContent ++ (textOf (getD (deltaOf choice) (str "reasoning"))).toList
        calls := (callsOf (deltaOf choice)).foldl (addCall merge) client.calls
        finishReason := (getD choice (str "finish_reason")).or client.finishReason } := by
  unfold readChoice callsOf
  dsimp only
  rw [deltaOf_publicChoiceOf, getD_publicDelta_reasoning_content hreasoning,
    getD_publicDelta _ (show str "content" ≠ _ by decide),
    getD_publicDelta _ (show str "reasoning" ≠ _ by decide),
    getD_publicDelta _ (show str "tool_calls" ≠ _ by decide), getD_publicChoiceOf _ (by decide)]

/-- The choices of a public chunk add the parts of the choices. -/
theorem foldl_readChoice_public {choices : List (Dict Json)}
    (h : ∀ c ∈ choices, Dict.get? (deltaOf c) (str "reasoning_content") = none)
    (client : Client) :
    (choices.map publicChoiceOf).foldl (readChoice merge) client =
      { client with
        content := client.content ++
          choices.filterMap fun c => textOf (getD (deltaOf c) (str "content"))
        reasoning := client.reasoning ++
          choices.filterMap fun c => textOf (getD (deltaOf c) (str "reasoning"))
        reasoningContent := client.reasoningContent ++
          choices.filterMap fun c => textOf (getD (deltaOf c) (str "reasoning"))
        calls := (choices.flatMap fun c => callsOf (deltaOf c)).foldl (addCall merge) client.calls
        finishReason := lastTrue (choices.map fun c => getD c (str "finish_reason"))
          client.finishReason } := by
  induction choices generalizing client with
  | nil => simp [lastTrue]
  | cons c choices ih =>
    rw [List.map_cons, List.foldl_cons, readChoice_public client (h c List.mem_cons_self),
      ih fun c' hc' => h c' (List.mem_cons_of_mem _ hc')]
    simp only [List.flatMap_cons, List.foldl_append, List.map_cons]
    congr 1
    · cases ht : textOf (getD (deltaOf c) (str "content")) <;> simp [ht]
    · cases ht : textOf (getD (deltaOf c) (str "reasoning")) <;> simp [ht]
    · cases ht : textOf (getD (deltaOf c) (str "reasoning")) <;> simp [ht]

/-- No delta has a `reasoning_content` of its own. -/
def Plain (chunk : Dict Json) : Prop :=
  ∀ choice ∈ choicesOf chunk, Dict.get? (deltaOf choice) (str "reasoning_content") = none

/-- **One event**: a public chunk adds the parts of its chunk. -/
theorem readEvent_public {chunk : Dict Json} (h : Plain chunk) (client : Client) :
    readEvent merge client (publicOf modelName chunk) =
      { first := client.first.or (some (publicOf modelName chunk))
        content := client.content ++ textsOf (str "content") chunk
        reasoning := client.reasoning ++ textsOf (str "reasoning") chunk
        reasoningContent := client.reasoningContent ++ textsOf (str "reasoning") chunk
        calls := (toolCallsOf chunk).foldl (addCall merge) client.calls
        finishReason := lastTrue (finishReasonsOf chunk) client.finishReason
        usage := (getD chunk (str "usage")).or client.usage } := by
  unfold readEvent
  rw [choicesOf_publicOf, foldl_readChoice_public h, getD_publicOf (by decide)]
  rfl

/-- **The events of the chunks**, for tool calls with new and increasing indices. -/
theorem foldl_readEvent_public (h : ∀ c ∈ chunks, Plain c) (client : Client) :
    (chunks.map (publicOf modelName)).foldl (readEvent merge) client =
      { first := client.first.or (chunks.head?.map (publicOf modelName))
        content := client.content ++ contentOf chunks
        reasoning := client.reasoning ++ reasoningOf chunks
        reasoningContent := client.reasoningContent ++ reasoningOf chunks
        calls := (chunks.flatMap toolCallsOf).foldl (addCall merge) client.calls
        finishReason := lastTrue (chunks.flatMap finishReasonsOf) client.finishReason
        usage := lastTrue (chunks.map fun c => getD c (str "usage")) client.usage } := by
  induction chunks generalizing client with
  | nil => simp [contentOf, reasoningOf, lastTrue]
  | cons c chunks ih =>
    rw [List.map_cons, List.foldl_cons, readEvent_public (h c List.mem_cons_self),
      ih fun c' hc' => h c' (List.mem_cons_of_mem _ hc')]
    cases client.first <;> simp [contentOf, reasoningOf, lastTrue]

/-- The calls of a client that has read whole calls, in the order of their indices. -/
theorem insertionSort_calls {calls : List (Dict Json)}
    (h : (calls.map indexOf).Pairwise (· < ·)) :
    ((calls.map fun call => (indexOf call, call)).insertionSort fun c d => c.1 ≤ d.1) =
      calls.map fun call => (indexOf call, call) := by
  refine List.Pairwise.insertionSort_eq ?_
  rw [List.pairwise_map] at h ⊢
  exact h.imp le_of_lt

theorem firstOf_of_nonempty {c : Dict Json} {chunks : List (Dict Json)} (h : c ≠ []) :
    firstOf (c :: chunks) = c := by
  cases c with
  | nil => exact absurd rfl h
  | cons kv c => rfl

/-- **What a client reads** in the events of some chunks. -/
theorem answer_foldl_public (hne : chunks ≠ []) (hobj : ∀ c ∈ chunks, c ≠ [])
    (hplain : ∀ c ∈ chunks, Plain c)
    (hcalls : ((chunks.flatMap toolCallsOf).map indexOf).Pairwise (· < ·)) :
    ((chunks.map (publicOf modelName)).foldl (readEvent merge) empty).answer =
      answerOf modelName chunks := by
  rw [foldl_readEvent_public hplain, foldl_addCall (by simpa [empty] using hcalls)]
  cases chunks with
  | nil => exact absurd rfl hne
  | cons c chunks =>
    have hfirst : firstOf (c :: chunks) = c := firstOf_of_nonempty (hobj c List.mem_cons_self)
    refine Answer.ext getD_publicOf_model ?_ ?_ rfl rfl rfl ?_ rfl rfl
    · exact (getD_publicOf (by decide)).trans (by rw [answerOf, hfirst])
    · exact (getD_publicOf (by decide)).trans (by rw [answerOf, hfirst])
    · unfold answer answerOf answerCalls empty
      dsimp only
      rw [List.nil_append, insertionSort_calls hcalls, List.map_map, List.isEmpty_map,
        List.isEmpty_map]
      rfl

end Client

/-! ## The answers agree -/

/-- **Streaming and non-streaming answers agree.** On a complete stream of chunks that are not
empty, with finite numbers and strings of Unicode scalar values, no `reasoning_content`, and whole
tool calls of increasing indices, the response is a 200, and its body and the events make up one
answer. -/
theorem answers_agree (loads : Str → Except LoadsError Json)
    (merge : Dict Json → Dict Json → Dict Json) (modelName : String) (reply : Reply)
    (record : RequestRecord) (chunks : List (Dict Json))
    (hdone : reply.isDone loads) (hchunks : reply.chunks loads = chunks.map .obj)
    (hne : chunks ≠ []) (hobj : ∀ c ∈ chunks, c ≠ [])
    (hrenders : ∀ c ∈ chunks, renders false (.obj c) = true)
    (hplain : ∀ c ∈ chunks, Client.Plain c)
    (hcalls : ((chunks.flatMap toolCallsOf).map Client.indexOf).Pairwise (· < ·)) :
    ∃ body, (complete loads modelName reply record).response = some (200, body) ∧
      Client.read merge (stream loads modelName true reply record).sent = readBody body := by
  have hforwards : ∀ c ∈ chunks, forwards true c = true := fun c _ => rfl
  have hencodable : Encodable modelName true chunks := fun c hc _ =>
    renders_publicOf (renders_mono _ (hrenders c hc))
  have hbody := @complete_done modelName _ _ _ record hdone hchunks hne
    (renders_bodyOf.2 (.of_chunks hrenders))
  refine ⟨.obj (bodyOf modelName chunks), hbody.1, ?_⟩
  rw [(stream_done hdone hchunks hencodable).1, readBody_bodyOf, List.filter_eq_self.2 hforwards,
    Client.read]
  have hvalues : (Sent.start :: chunks.map (eventOf modelName) ++ [Sent.done, Sent.last]).filterMap
      Client.valueOf = chunks.map (publicOf modelName) := by
    rw [List.filterMap_append, List.filterMap_cons]
    show (chunks.map (eventOf modelName)).filterMap Client.valueOf ++ [] = _
    rw [List.append_nil, List.filterMap_map]
    exact congrFun (List.filterMap_eq_map (f := publicOf modelName)) chunks
  rw [hvalues, Client.answer_foldl_public hne hobj hplain hcalls]

/-- A chunk with a reasoning, a content, a tool call and a usage. -/
theorem answers_agree_hello : ∃ body,
    (complete helloLoads "local" hello .new).response = some (200, body) ∧
    Client.read Dict.merge (stream helloLoads "local" true hello .new).sent = readBody body := by
  refine answers_agree helloLoads Dict.merge "local" hello .new [helloChunk] isDone_hello
    chunks_hello (by simp) ?_ ?_ ?_ (by decide +kernel)
  all_goals
    intro c hc
    obtain rfl := List.mem_singleton.1 hc
  · exact List.cons_ne_nil _ _
  · decide +kernel
  · intro choice hchoice
    obtain rfl := List.mem_singleton.1 hchoice
    decide +kernel

end AgentLab.Gateway
