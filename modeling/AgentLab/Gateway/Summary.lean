import AgentLab.Gateway.Answer

/-!
# What an answer says

The parts of a sequence of chunks that make up an answer: its texts, tool calls, finish reason and
usage, as plain functions of the chunks. On well-formed chunks `_collect` assembles exactly these
(`collect_done`), and `_stream` sends the public chunk of each chunk that it forwards
(`streamChunks_ok`).
-/

namespace AgentLab.Gateway

open Python

/-! ## The parts -/

/-- A text that is not empty. -/
def textOf : Json → Option Str
  | .str (c :: cs) => some (c :: cs)
  | _ => none

/-- The texts under a key of the deltas. -/
def textsOf (key : Str) (chunk : Dict Json) : List Str :=
  (choicesOf chunk).filterMap fun choice => textOf (getD (deltaOf choice) key)

def toolCallsOf (chunk : Dict Json) : List (Dict Json) :=
  (choicesOf chunk).flatMap fun choice => callsOf (deltaOf choice)

/-- The last true value, or `v`. -/
def lastTrue (vs : List Json) (v : Json) : Json := vs.foldl (fun acc v => v.or acc) v

def finishReasonsOf (chunk : Dict Json) : List Json :=
  (choicesOf chunk).map fun choice => getD choice (str "finish_reason")

def contentOf (chunks : List (Dict Json)) : List Str := chunks.flatMap (textsOf (str "content"))

def reasoningOf (chunks : List (Dict Json)) : List Str := chunks.flatMap (textsOf (str "reasoning"))

/-- A tool call as it stands in an answer. -/
def withoutIndex (call : Dict Json) : Json := .obj (Dict.pop call (str "index"))

def answerCalls (chunks : List (Dict Json)) : List Json :=
  (chunks.flatMap toolCallsOf).map withoutIndex

def finishReasonOf (chunks : List (Dict Json)) : Json :=
  lastTrue (chunks.flatMap finishReasonsOf) .null

def usageOf (chunks : List (Dict Json)) : Json :=
  lastTrue (chunks.map fun chunk => getD chunk (str "usage")) .null

/-- The first chunk that is not empty. -/
def firstOf (chunks : List (Dict Json)) : Dict Json := (chunks.find? fun c => !c.isEmpty).getD []

def messageOf (chunks : List (Dict Json)) : Dict Json :=
  [(str "role", .str (str "assistant")),
    (str "content", if (contentOf chunks).flatten.isEmpty then .null
      else .str (contentOf chunks).flatten)] ++
  (if (reasoningOf chunks).isEmpty then []
    else [(str "reasoning", .str (reasoningOf chunks).flatten),
      (str "reasoning_content", .str (reasoningOf chunks).flatten)]) ++
  (if (answerCalls chunks).isEmpty then []
    else [(str "tool_calls", .list (answerCalls chunks))])

/-- The body of the response that the chunks add up to. -/
def bodyOf (modelName : String) (chunks : List (Dict Json)) : Dict Json :=
  [(str "id", getD (firstOf chunks) (str "id")), (str "object", .str (str "chat.completion")),
    (str "created", getD (firstOf chunks) (str "created")), (str "model", .str (str modelName)),
    (str "choices", .list [.obj [(str "index", .int 0), (str "message", .obj (messageOf chunks)),
      (str "finish_reason", finishReasonOf chunks)]])] ++
  if (usageOf chunks).truthy then [(str "usage", usageOf chunks)] else []

/-! ## Collecting -/

theorem appendIf_eq {delta : Dict Json} (h : DeltaOk delta) {key : Str}
    (hkey : key ∈ [str "content", str "reasoning"]) (l : List Json) :
    appendIf l (getD delta key) = l ++ (textOf (getD delta key)).toList.map .str := by
  unfold appendIf
  split_ifs with ht
  · obtain ⟨s, hs⟩ := h.text key hkey ht
    rw [hs] at ht ⊢
    cases s with
    | nil => cases ht
    | cons c cs => rfl
  · have hnone : textOf (getD delta key) = none := by
      cases hv : getD delta key with
      | str s =>
        rw [hv] at ht
        cases s with
        | nil => rfl
        | cons c cs => exact absurd rfl ht
      | _ => rfl
    rw [hnone]
    simp

theorem collectChoice_eq {choice : Dict Json} (h : ChoiceOk choice) (acc : Collected) :
    collectChoice acc (.obj choice) = .ok { acc with
      content := acc.content ++ (textOf (getD (deltaOf choice) (str "content"))).toList.map .str
      reasoning := acc.reasoning ++
        (textOf (getD (deltaOf choice) (str "reasoning"))).toList.map .str
      toolCalls := acc.toolCalls ++ (callsOf (deltaOf choice)).map withoutIndex
      finishReason := (getD choice (str "finish_reason")).or acc.finishReason } := by
  rw [← appendIf_eq h.ok (by simp), ← appendIf_eq h.ok (by simp)]
  unfold collectChoice
  simp only [Json.get_obj, Except.ok_bind, h.delta, h.ok.calls, Json.iter_list]
  rw [mapM_ok fun call _ => (rfl : copyCall (.obj call) = .ok (withoutIndex call))]
  rfl

theorem foldlM_collectChoice_eq {choices : List (Dict Json)} (h : ∀ c ∈ choices, ChoiceOk c)
    (acc : Collected) :
    (choices.map .obj).foldlM collectChoice acc = .ok { acc with
      content := acc.content ++
        (choices.filterMap fun c => textOf (getD (deltaOf c) (str "content"))).map .str
      reasoning := acc.reasoning ++
        (choices.filterMap fun c => textOf (getD (deltaOf c) (str "reasoning"))).map .str
      toolCalls := acc.toolCalls ++ (choices.flatMap fun c => callsOf (deltaOf c)).map withoutIndex
      finishReason := lastTrue (choices.map fun c => getD c (str "finish_reason"))
        acc.finishReason } := by
  induction choices generalizing acc with
  | nil => simp [lastTrue]; rfl
  | cons c choices ih =>
    rw [List.map_cons, List.foldlM_cons, collectChoice_eq (h c List.mem_cons_self), Except.ok_bind,
      ih fun c' hc' => h c' (List.mem_cons_of_mem _ hc')]
    congr 2
    · cases ht : textOf (getD (deltaOf c) (str "content")) <;> simp [ht]
    · cases ht : textOf (getD (deltaOf c) (str "reasoning")) <;> simp [ht]
    · simp

theorem collectChunk_eq {chunk : Dict Json} (h : WellFormed chunk) (acc : Collected) :
    collectChunk acc (.obj chunk) = .ok
      { first := acc.first.or (.obj chunk)
        content := acc.content ++ (textsOf (str "content") chunk).map .str
        reasoning := acc.reasoning ++ (textsOf (str "reasoning") chunk).map .str
        toolCalls := acc.toolCalls ++ (toolCallsOf chunk).map withoutIndex
        finishReason := lastTrue (finishReasonsOf chunk) acc.finishReason
        usage := (getD chunk (str "usage")).or acc.usage } := by
  unfold collectChunk
  simp only [Json.get_obj, Except.ok_bind, h.choices, Json.iter_list]
  exact foldlM_collectChoice_eq h.ok _

/-- A usage is reported if there is one. -/
theorem lastTrue_of_falsy {vs : List Json} (h : (lastTrue vs .null).truthy = false) :
    lastTrue vs .null = .null := by
  have key : ∀ (vs : List Json) (v : Json), (lastTrue vs v).truthy = false → lastTrue vs v = v := by
    intro vs
    induction vs with
    | nil => exact fun v _ => rfl
    | cons w vs ih =>
      intro v hv
      have hw := ih (w.or v) hv
      show lastTrue vs (w.or v) = v
      rw [hw]
      unfold Json.or
      split_ifs with ht
      · have hor : w.or v = w := if_pos ht
        change (lastTrue vs (w.or v)).truthy = false at hv
        rw [hw, hor, ht] at hv
        cases hv
      · rfl
  exact key vs .null h

/-- **The loop of `_collect`** over well-formed chunks. -/
theorem foldlM_collectChunk_eq {chunks : List (Dict Json)} (h : ∀ c ∈ chunks, WellFormed c)
    (acc : Collected) :
    (chunks.map .obj).foldlM collectChunk acc = .ok
      { first := chunks.foldl (fun (first : Json) (c : Dict Json) => first.or (.obj c)) acc.first
        content := acc.content ++ (contentOf chunks).map .str
        reasoning := acc.reasoning ++ (reasoningOf chunks).map .str
        toolCalls := acc.toolCalls ++ answerCalls chunks
        finishReason := lastTrue (chunks.flatMap finishReasonsOf) acc.finishReason
        usage := lastTrue (chunks.map fun c => getD c (str "usage")) acc.usage } := by
  induction chunks generalizing acc with
  | nil => simp [contentOf, reasoningOf, answerCalls, lastTrue]; rfl
  | cons c chunks ih =>
    rw [List.map_cons, List.foldlM_cons, collectChunk_eq (h c List.mem_cons_self), Except.ok_bind,
      ih fun c' hc' => h c' (List.mem_cons_of_mem _ hc')]
    simp [contentOf, reasoningOf, answerCalls, lastTrue]

theorem foldl_first {chunks : List (Dict Json)} (h : chunks ≠ []) :
    chunks.foldl (fun (first : Json) (c : Dict Json) => first.or (.obj c)) Json.null =
      .obj (firstOf chunks) := by
  have hkeep : ∀ (chunks : List (Dict Json)) {o : Dict Json}, o ≠ [] →
      chunks.foldl (fun (first : Json) (c : Dict Json) => first.or (.obj c)) (.obj o) = .obj o := by
    intro chunks o ho
    induction chunks with
    | nil => rfl
    | cons c chunks ih =>
      have hor : (Json.obj o).or (.obj c) = .obj o := by
        cases o with
        | nil => exact absurd rfl ho
        | cons kv o => rfl
      rw [List.foldl_cons, hor, ih]
  have hempty : ∀ chunks : List (Dict Json),
      chunks.foldl (fun (first : Json) (c : Dict Json) => first.or (.obj c)) (.obj []) =
        .obj (firstOf chunks) := by
    intro chunks
    induction chunks with
    | nil => rfl
    | cons c chunks ih =>
      rw [List.foldl_cons, show (Json.obj []).or (.obj c) = .obj c from rfl]
      cases c with
      | nil => rw [ih]; rfl
      | cons kv c => rw [hkeep chunks (by simp)]; rfl
  cases chunks with
  | nil => exact absurd rfl h
  | cons c chunks =>
    rw [List.foldl_cons, show Json.null.or (.obj c) = .obj c from rfl]
    cases c with
    | nil => rw [hempty]; rfl
    | cons kv c => rw [hkeep chunks (by simp)]; rfl

theorem joinTexts_map (parts : List Str) : joinTexts (parts.map .str) = .ok parts.flatten := by
  have hmap : ∀ parts : List Str, (parts.map Json.str).mapM asText = .ok parts := by
    intro parts
    induction parts with
    | nil => rfl
    | cons s parts ih => rw [List.map_cons, List.mapM_cons, ih]; rfl
  unfold joinTexts
  rw [hmap]
  rfl

variable {modelName : String} {chunks : List (Dict Json)}

theorem assemble_eq (first : Dict Json) (content reasoning : List Str) (calls : List Json)
    (finishReason usage : Json) :
    assemble modelName
      ⟨.obj first, content.map .str, reasoning.map .str, calls, finishReason, usage⟩ =
      .ok (.obj ([(str "id", getD first (str "id")), (str "object", .str (str "chat.completion")),
        (str "created", getD first (str "created")), (str "model", .str (str modelName)),
        (str "choices", .list [.obj [(str "index", .int 0),
          (str "message", .obj ([(str "role", .str (str "assistant")),
            (str "content", if content.flatten.isEmpty then .null else .str content.flatten)] ++
            (if reasoning.isEmpty then []
              else [(str "reasoning", .str reasoning.flatten),
                (str "reasoning_content", .str reasoning.flatten)]) ++
            (if calls.isEmpty then [] else [(str "tool_calls", .list calls)]))),
          (str "finish_reason", finishReason)]])] ++
        if usage.truthy then [(str "usage", usage)] else [])) := by
  unfold assemble
  simp only [joinTexts_map, Except.ok_bind, Json.get_obj, List.isEmpty_map]
  cases reasoning.isEmpty <;> cases calls.isEmpty <;> cases usage.truthy <;> rfl

/-- **`_collect` on a complete stream.** -/
theorem collect_done (h : ∀ c ∈ chunks, WellFormed c) (hne : chunks ≠ []) :
    collect modelName (chunks.map .obj) .done = .ok (.obj (bodyOf modelName chunks)) := by
  unfold collect
  rw [foldlM_collectChunk_eq h, show Collected.empty.first = .null from rfl, foldl_first hne]
  exact congrArg (Except.mapError _) (assemble_eq _ _ _ _ _ _)

theorem collect_failed (h : ∀ c ∈ chunks, WellFormed c) (e : BackendError) :
    collect modelName (chunks.map .obj) (.failed e) = .error (.own e) := by
  unfold collect
  rw [foldlM_collectChunk_eq h]
  rfl

/-! ## Streaming -/

variable {includeUsage : Bool}

/-- The chunks that are passed on: those that do not only report the usage, or all of them. -/
def forwards (includeUsage : Bool) (chunk : Dict Json) : Bool :=
  includeUsage || (getD chunk (str "choices")).truthy || !(getD chunk (str "usage")).truthy

/-- The event for a chunk. -/
def eventOf (modelName : String) (chunk : Dict Json) : Sent :=
  .event (.obj (publicOf modelName chunk))

theorem streamChunks_cons {chunk : Dict Json} (h : WellFormed chunk) (rest : List Json) :
    streamChunks modelName includeUsage (.obj chunk :: rest) =
      if forwards includeUsage chunk then
        if renders true (.obj (publicOf modelName chunk)) then
          (eventOf modelName chunk :: (streamChunks modelName includeUsage rest).1,
            (streamChunks modelName includeUsage rest).2)
        else ([], some .unicodeEncodeError)
      else streamChunks modelName includeUsage rest := by
  have husage : usageOnly (.obj chunk) =
      .ok (!(getD chunk (str "choices")).truthy && (getD chunk (str "usage")).truthy) := rfl
  rw [streamChunks, husage]
  dsimp only
  rw [publicChunk_eq h, Except.ok_bind]
  unfold sse forwards eventOf
  cases includeUsage <;> cases (getD chunk (str "choices")).truthy <;>
    cases (getD chunk (str "usage")).truthy <;>
    cases renders true (.obj (publicOf modelName chunk)) <;> rfl

/-- **The loop of `_stream`** over well-formed chunks whose events can be encoded. -/
theorem streamChunks_ok (h : ∀ c ∈ chunks, WellFormed c)
    (hr : ∀ c ∈ chunks, forwards includeUsage c = true →
      renders true (.obj (publicOf modelName c)) = true) :
    streamChunks modelName includeUsage (chunks.map .obj) =
      ((chunks.filter (forwards includeUsage)).map (eventOf modelName), none) := by
  induction chunks with
  | nil => rfl
  | cons c chunks ih =>
    have ih := ih (fun c' hc' => h c' (List.mem_cons_of_mem _ hc'))
      (fun c' hc' => hr c' (List.mem_cons_of_mem _ hc'))
    rw [List.map_cons, streamChunks_cons (h c List.mem_cons_self), ih]
    split_ifs with hf hrc
    · rw [List.filter_cons_of_pos hf, List.map_cons]
    · exact absurd (hr c List.mem_cons_self hf) hrc
    · rw [List.filter_cons_of_neg hf]

/-- An event that cannot be encoded ends the loop. -/
theorem renders_of_streamChunks (h : ∀ c ∈ chunks, WellFormed c)
    (hnone : (streamChunks modelName includeUsage (chunks.map .obj)).2 = none) :
    ∀ c ∈ chunks, forwards includeUsage c = true →
      renders true (.obj (publicOf modelName c)) = true := by
  induction chunks with
  | nil => exact fun c hc => absurd hc List.not_mem_nil
  | cons c chunks ih =>
    have ih := ih fun c' hc' => h c' (List.mem_cons_of_mem _ hc')
    rw [List.map_cons, streamChunks_cons (h c List.mem_cons_self)] at hnone
    intro c' hc' hf
    rcases List.mem_cons.1 hc' with rfl | hc'
    · rw [if_pos hf] at hnone
      split_ifs at hnone with hrc
      exact hrc
    · refine ih ?_ c' hc' hf
      split_ifs at hnone
      · exact hnone
      · exact hnone

/-- The error of a `BackendError` can be sent, if its message can. -/
theorem renders_apiError {b : Bool} {e : BackendError} (h : encodable e.message = true) :
    renders b e.apiError.body = true := by
  have htype : encodable e.apiError.type = true := by
    unfold BackendError.apiError
    dsimp only
    split_ifs <;> exact encodable_str _
  have hkeys : ∀ s : String, encodable (str s) = true := encodable_str
  simp [ApiError.body, renders, rendersItems, hkeys, optStr, BackendError.apiError, h]
  exact htype

/-! ## Whole answers -/

variable {loads : Str → Except LoadsError Json} {reply : Reply} {record : RequestRecord}

/-- The chunks of a reply, as dictionaries. -/
theorem exists_chunks (loads : Str → Except LoadsError Json) (reply : Reply) :
    ∃ chunks : List (Dict Json), reply.chunks loads = chunks.map .obj := by
  have key : ∀ l : List Json, (∀ v ∈ l, ∃ chunk, v = .obj chunk ∧ WellFormed chunk) →
      ∃ chunks : List (Dict Json), l = chunks.map .obj := by
    intro l
    induction l with
    | nil => exact fun _ => ⟨[], rfl⟩
    | cons v l ih =>
      intro h
      obtain ⟨chunk, rfl, -⟩ := h v List.mem_cons_self
      obtain ⟨chunks, rfl⟩ := ih fun w hw => h w (List.mem_cons_of_mem _ hw)
      exact ⟨chunk :: chunks, rfl⟩
  exact key _ fun v hv => wellFormed_of_mem hv

theorem wellFormed_of_chunks (hchunks : reply.chunks loads = chunks.map .obj) :
    ∀ c ∈ chunks, WellFormed c := by
  intro c hc
  have hmem : Json.obj c ∈ reply.chunks loads := hchunks ▸ List.mem_map_of_mem hc
  obtain ⟨chunk, heq, hchunk⟩ := wellFormed_of_mem hmem
  cases heq
  exact hchunk

/-- The events for the chunks that are passed on can be encoded. -/
def Encodable (modelName : String) (includeUsage : Bool) (chunks : List (Dict Json)) : Prop :=
  ∀ c ∈ chunks, forwards includeUsage c = true → renders true (.obj (publicOf modelName c)) = true

theorem backendChunks_done (hdone : reply.isDone loads)
    (hchunks : reply.chunks loads = chunks.map .obj) (record : RequestRecord) :
    ∃ record', backendChunks loads reply record = (chunks.map .obj, .done, record') := by
  have hyields : Yields (backendChunks loads reply record) _ _ _ :=
    backendChunks_yields reply record
  exact ⟨_, Prod.ext (hyields.chunks.trans hchunks) (Prod.ext (hyields.done hdone) rfl)⟩

theorem backendChunks_failed {e : BackendError}
    (houtcome : (backendChunks loads reply record).2.1 = .failed e)
    (hchunks : reply.chunks loads = chunks.map .obj) :
    ∃ record', backendChunks loads reply record = (chunks.map .obj, .failed e, record') :=
  ⟨_, Prod.ext ((backendChunks_yields reply record).chunks.trans hchunks) (Prod.ext houtcome rfl)⟩

theorem stream_done (hdone : reply.isDone loads) (hchunks : reply.chunks loads = chunks.map .obj)
    (hr : Encodable modelName includeUsage chunks) :
    (stream loads modelName includeUsage reply record).sent =
        .start :: (chunks.filter (forwards includeUsage)).map (eventOf modelName) ++
          [.done, .last] ∧
      (stream loads modelName includeUsage reply record).record.status = 200 := by
  have hloop := streamChunks_ok (wellFormed_of_chunks hchunks) hr
  obtain ⟨record', hchunks⟩ := backendChunks_done hdone hchunks record
  unfold stream
  rw [hchunks]
  dsimp only
  rw [hloop]
  exact ⟨rfl, rfl⟩

theorem stream_failed {e : BackendError}
    (houtcome : (backendChunks loads reply record).2.1 = .failed e)
    (hencodable : encodable e.message = true) (hchunks : reply.chunks loads = chunks.map .obj)
    (hr : Encodable modelName includeUsage chunks) :
    (stream loads modelName includeUsage reply record).sent =
        .start :: (chunks.filter (forwards includeUsage)).map (eventOf modelName) ++
          [.event e.apiError.body, .last] ∧
      (stream loads modelName includeUsage reply record).record.status = e.status := by
  have hloop := streamChunks_ok (wellFormed_of_chunks hchunks) hr
  have hsse : sse e.apiError.body = .ok e.apiError.body := if_pos (renders_apiError hencodable)
  obtain ⟨record', hchunks⟩ := backendChunks_failed houtcome hchunks
  unfold stream
  rw [hchunks]
  dsimp only
  rw [hloop]
  dsimp only
  rw [hsse]
  exact ⟨rfl, rfl⟩

theorem complete_done (hdone : reply.isDone loads) (hchunks : reply.chunks loads = chunks.map .obj)
    (hne : chunks ≠ []) (hr : renders false (.obj (bodyOf modelName chunks)) = true) :
    (complete loads modelName reply record).response =
        some (200, .obj (bodyOf modelName chunks)) ∧
      (complete loads modelName reply record).record.status = 200 := by
  have hcollect := @collect_done modelName _ (wellFormed_of_chunks hchunks) hne
  obtain ⟨record', hchunks⟩ := backendChunks_done hdone hchunks record
  unfold complete
  rw [hchunks]
  dsimp only
  rw [hcollect]
  unfold jsonResponse
  dsimp only
  rw [if_pos hr]
  exact ⟨rfl, rfl⟩

theorem complete_failed {e : BackendError}
    (houtcome : (backendChunks loads reply record).2.1 = .failed e)
    (hencodable : encodable e.message = true) :
    (complete loads modelName reply record).response = some (e.status, e.apiError.body) ∧
      (complete loads modelName reply record).record.status = e.status := by
  obtain ⟨chunks, hchunks⟩ := exists_chunks loads reply
  have hcollect := @collect_failed modelName _ (wellFormed_of_chunks hchunks) e
  obtain ⟨record', hchunks⟩ := backendChunks_failed houtcome hchunks
  unfold complete
  rw [hchunks]
  dsimp only
  rw [hcollect]
  unfold jsonResponse
  dsimp only
  rw [if_pos (renders_apiError hencodable)]
  exact ⟨rfl, rfl⟩

end AgentLab.Gateway
