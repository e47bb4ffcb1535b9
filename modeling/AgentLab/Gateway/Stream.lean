import Mathlib.Data.List.ReduceOption
import AgentLab.Gateway.Summary

/-!
# The messages of a streaming answer

`_stream` with the keep-alive comments that `_with_heartbeats` sends between the chunks, and the
messages that it gives to the server. Without the comments these are what `stream` says
(`sent_streamMessages`).

The answer ends with one terminal event and the final message if and only if the event of every
chunk that is passed on can be encoded (`stream_terminated_iff`): a lone surrogate raises a
`UnicodeEncodeError`, which `_stream` does not expect.
-/

namespace AgentLab.Gateway

open Python

/-- What one body message carries. -/
inductive Part
  /-- A keep-alive comment. -/
  | comment
  | event (v : Json)
  /-- `data: [DONE]`. -/
  | done

inductive Message
  | start (status : ℕ)
  | body (part : Part)
  /-- The final, empty body message with `more_body` false. -/
  | last

variable (loads : Str → Except LoadsError Json) (modelName : String) (includeUsage : Bool)

/-- The loop of `_stream` over what `_with_heartbeats` does: send a comment (`none`) or yield a
chunk. -/
def streamBeats : List (Option Json) → List Part × Option PyExc
  | [] => ([], none)
  | none :: beats =>
    let (parts, crash) := streamBeats beats
    (.comment :: parts, crash)
  | some chunk :: beats =>
    match usageOnly chunk with
    | .error x => ([], some x)
    | .ok usageOnly =>
      if usageOnly && !includeUsage then streamBeats beats
      else
        match publicChunk modelName chunk >>= sse with
        | .error x => ([], some x)
        | .ok v =>
          let (parts, crash) := streamBeats beats
          (.event v :: parts, crash)

/-- `_stream`: the messages, up to an exception that leaves it. -/
def streamMessages (beats : List (Option Json)) (outcome : Outcome) :
    List Message × Option PyExc :=
  let (parts, crash) := streamBeats modelName includeUsage beats
  let sent := .start 200 :: parts.map .body
  match crash, outcome with
  | some x, _ => (sent, some x)
  | none, .done => (sent ++ [.body .done, .last], none)
  | none, .failed e =>
    match sse e.apiError.body with
    | .ok v => (sent ++ [.body (.event v), .last], none)
    | .error x => (sent, some x)
  | none, .raised x => (sent, some x)

/-- The messages of a properly terminated answer: the start; comments and chunks; `[DONE]`, or one
error object; the final message. -/
def ProperlyEnded (messages : List Message) : Prop :=
  ∃ (parts : List Part) (final : Part),
    messages = .start 200 :: parts.map .body ++ [.body final, .last] ∧
    (∀ part ∈ parts, part = .comment ∨ ∃ chunk : Dict Json, part = .event (.obj chunk) ∧
      getD chunk (str "object") = .str (str "chat.completion.chunk")) ∧
    (final = .done ∨ ∃ e : BackendError, final = .event e.apiError.body)

/-! ## Comments aside -/

/-- A part as `stream` has it. -/
def Part.sent? : Part → Option Sent
  | .comment => none
  | .event v => some (.event v)
  | .done => some .done

def Message.sent? : Message → Option Sent
  | .start _ => some .start
  | .body part => part.sent?
  | .last => some .last

variable {loads modelName includeUsage} {beats : List (Option Json)} {chunks : List (Dict Json)}
  {outcome : Outcome} {reply : Reply} {record : RequestRecord}

theorem streamBeats_chunks (beats : List (Option Json)) :
    ((streamBeats modelName includeUsage beats).1.filterMap Part.sent?,
      (streamBeats modelName includeUsage beats).2) =
        streamChunks modelName includeUsage beats.reduceOption := by
  induction beats with
  | nil => rfl
  | cons beat beats ih =>
    cases beat with
    | none => exact ih
    | some chunk =>
      rw [List.reduceOption_cons_of_some, streamBeats, streamChunks]
      cases usageOnly chunk with
      | error x => rfl
      | ok usageOnly =>
        dsimp only
        split_ifs
        · exact ih
        · cases publicChunk modelName chunk >>= sse with
          | error x => rfl
          | ok v =>
            rw [← ih]
            rfl

theorem sent_body (parts : List Part) :
    (Message.start 200 :: parts.map .body).filterMap Message.sent? =
      .start :: parts.filterMap Part.sent? := by
  show Sent.start :: (parts.map Message.body).filterMap Message.sent? = _
  rw [List.filterMap_map]
  rfl

/-- **Without the comments** the messages are those of `stream`. -/
theorem sent_streamMessages (hbeats : beats.reduceOption = (backendChunks loads reply record).1) :
    (streamMessages modelName includeUsage beats (backendChunks loads reply record).2.1).1.filterMap
      Message.sent? = (stream loads modelName includeUsage reply record).sent := by
  have hsent : _ = streamChunks modelName includeUsage _ := streamBeats_chunks beats
  rw [hbeats] at hsent
  obtain ⟨hparts, hcrash⟩ := Prod.ext_iff.1 hsent
  unfold streamMessages stream
  dsimp only at hparts hcrash ⊢
  rw [← hparts, ← hcrash]
  cases (streamBeats modelName includeUsage beats).2 with
  | some x => exact sent_body _
  | none =>
    cases (backendChunks loads reply record).2.1 with
    | done =>
      dsimp only
      rw [List.filterMap_append, sent_body]
      rfl
    | failed e =>
      dsimp only
      cases sse e.apiError.body with
      | ok v =>
        dsimp only
        rw [List.filterMap_append, sent_body]
        rfl
      | error x => exact sent_body _
    | raised x => exact sent_body _

/-! ## Termination -/

theorem getD_publicOf_object (chunk : Dict Json) :
    getD (publicOf modelName chunk) (str "object") = .str (str "chat.completion.chunk") := by
  unfold publicOf
  dsimp only
  split
  · rw [getD_set_of_ne _ _ (by decide), getD_pop_of_ne _ (by decide), getD_set_self]
  · rw [getD_pop_of_ne _ (by decide), getD_set_self]

/-- The parts before the end, if every chunk that is passed on can be encoded. -/
theorem parts_of_encodable (hwell : ∀ c ∈ chunks, WellFormed c)
    (hr : Encodable modelName includeUsage chunks) (hbeats : beats.reduceOption = chunks.map .obj) :
    (streamBeats modelName includeUsage beats).2 = none ∧
      ∀ part ∈ (streamBeats modelName includeUsage beats).1, part = .comment ∨
        ∃ c ∈ chunks, part = .event (.obj (publicOf modelName c)) := by
  have hsent : _ = streamChunks modelName includeUsage _ := streamBeats_chunks beats
  rw [hbeats, streamChunks_ok hwell hr] at hsent
  obtain ⟨hparts, hcrash⟩ := Prod.ext_iff.1 hsent
  dsimp only at hparts
  refine ⟨hcrash, fun part hpart => ?_⟩
  cases part with
  | comment => exact .inl rfl
  | event v =>
    have hmem : Sent.event v ∈ (chunks.filter (forwards includeUsage)).map (eventOf modelName) :=
      hparts ▸ List.mem_filterMap.2 ⟨_, hpart, rfl⟩
    obtain ⟨c, hc, heq⟩ := List.mem_map.1 hmem
    cases heq
    exact .inr ⟨c, List.mem_of_mem_filter hc, rfl⟩
  | done =>
    have hmem : Sent.done ∈ (chunks.filter (forwards includeUsage)).map (eventOf modelName) :=
      hparts ▸ List.mem_filterMap.2 ⟨_, hpart, rfl⟩
    obtain ⟨c, hc, heq⟩ := List.mem_map.1 hmem
    cases heq

/-- The event of a chunk that is passed on is there. -/
theorem mem_parts_of_encodable {c : Dict Json} (hwell : ∀ c ∈ chunks, WellFormed c)
    (hr : Encodable modelName includeUsage chunks) (hbeats : beats.reduceOption = chunks.map .obj)
    (hc : c ∈ chunks.filter (forwards includeUsage)) :
    .event (.obj (publicOf modelName c)) ∈ (streamBeats modelName includeUsage beats).1 := by
  have hsent : _ = streamChunks modelName includeUsage _ := streamBeats_chunks beats
  rw [hbeats, streamChunks_ok hwell hr] at hsent
  have hparts := (Prod.ext_iff.1 hsent).1
  dsimp only at hparts
  have hmem := List.mem_map_of_mem (f := eventOf modelName) hc
  rw [← hparts] at hmem
  obtain ⟨part, hpart, heq⟩ := List.mem_filterMap.1 hmem
  cases part with
  | event v =>
    cases heq
    exact hpart
  | _ => cases heq

/-- The messages, if every chunk that is passed on can be encoded. -/
theorem messages_of_encodable (hchunks : reply.chunks loads = chunks.map .obj)
    (hr : Encodable modelName includeUsage chunks)
    (hbeats : beats.reduceOption = (backendChunks loads reply record).1) :
    ∃ final, (streamMessages modelName includeUsage beats
        (backendChunks loads reply record).2.1).1 = .start 200 ::
          (streamBeats modelName includeUsage beats).1.map .body ++ [.body final, .last] ∧
      (final = .done ∨ ∃ e : BackendError, final = .event e.apiError.body) := by
  have hyields : Yields (backendChunks loads reply record) _ _ _ :=
    backendChunks_yields reply record
  rw [hyields.chunks, hchunks] at hbeats
  unfold streamMessages
  dsimp only
  rw [(parts_of_encodable (wellFormed_of_chunks hchunks) hr hbeats).1]
  by_cases hdone : reply.isDone loads
  · rw [hyields.done hdone]
    exact ⟨_, rfl, .inl rfl⟩
  · obtain ⟨e, houtcome, he⟩ := hyields.failed hdone
    have hsse : sse e.apiError.body = .ok e.apiError.body := if_pos (renders_apiError he.message)
    rw [houtcome]
    dsimp only
    rw [hsse]
    exact ⟨_, rfl, .inr ⟨e, rfl⟩⟩

/-- What is sent up to an exception has no end. -/
theorem not_properlyEnded (parts : List Part) :
    ¬ProperlyEnded (.start 200 :: parts.map .body) := by
  rintro ⟨parts', final, h, -, -⟩
  have hmem : Message.last ∈ Message.start 200 :: parts.map .body := by
    rw [h]
    simp
  simp at hmem

/-- **A streaming answer is properly terminated if and only if the event of each chunk that is
passed on can be encoded**, whatever the backend does and wherever the comments stand. -/
theorem stream_terminated_iff (loads : Str → Except LoadsError Json) (modelName : String)
    (includeUsage : Bool) (reply : Reply) (record : RequestRecord) (beats : List (Option Json))
    (hbeats : beats.reduceOption = (backendChunks loads reply record).1) :
    ProperlyEnded (streamMessages modelName includeUsage beats
      (backendChunks loads reply record).2.1).1 ↔
        Encodable modelName includeUsage ((reply.chunks loads).map dictOf) := by
  obtain ⟨chunks, hchunks⟩ := exists_chunks loads reply
  have hdicts : (reply.chunks loads).map dictOf = chunks := by
    rw [hchunks, List.map_map]
    exact chunks.map_id
  have hyields : Yields (backendChunks loads reply record) _ _ _ :=
    backendChunks_yields reply record
  have hyielded := hbeats
  rw [hyields.chunks, hchunks] at hyielded
  have hwell := wellFormed_of_chunks hchunks
  rw [hdicts]
  constructor
  · intro hended
    refine renders_of_streamChunks hwell ?_
    rw [← hyielded, ← streamBeats_chunks]
    unfold streamMessages at hended
    dsimp only at hended
    cases hcrash : (streamBeats modelName includeUsage beats).2 with
    | none => rfl
    | some x =>
      rw [hcrash] at hended
      exact absurd hended (not_properlyEnded _)
  · intro hr
    obtain ⟨final, hmessages, hfinal⟩ := messages_of_encodable hchunks hr hbeats
    refine ⟨_, final, hmessages, fun part hpart => ?_, hfinal⟩
    refine ((parts_of_encodable hwell hr hyielded).2 part hpart).imp_right ?_
    rintro ⟨c, -, rfl⟩
    exact ⟨_, rfl, getD_publicOf_object c⟩

/-- A reply with one chunk, and comments around it. -/
theorem stream_terminated_hello :
    ProperlyEnded (streamMessages "local" true [none, some (.obj helloChunk), none]
      (backendChunks helloLoads hello .new).2.1).1 := by
  have hchunks : (backendChunks helloLoads hello .new).1 = [.obj helloChunk] :=
    (backendChunks_yields hello .new).chunks.trans chunks_hello
  refine (stream_terminated_iff helloLoads "local" true hello .new
    [none, some (.obj helloChunk), none] hchunks.symm).2 ?_
  rw [chunks_hello]
  intro c hc _
  obtain rfl := List.mem_singleton.1 hc
  decide +kernel

/-! ## A lone surrogate -/

/-- `{"choices": [{"delta": {"content": "\ud800"}}]}` -/
def surrogateText : Str :=
  str "\x7b\"choices\": [\x7b\"delta\": \x7b\"content\": \"\\ud800\"\x7d\x7d]\x7d"

def surrogateChunk : Dict Json :=
  [(str "choices", .list [.obj [(str "delta", .obj [(str "content", .str [0xD800])])]])]

def surrogateLoads (s : Str) : Except LoadsError Json :=
  if s = surrogateText then .ok (.obj surrogateChunk) else .error .valueError

/-- A reply with one chunk, of which the content is a lone surrogate. -/
def surrogateReply : Reply :=
  .response 200 [str "data: " ++ surrogateText, [], str "data: [DONE]"] .eof

/-- The answer ends after the start, without a terminal event and without the final message. -/
theorem stream_terminated_surrogate :
    (backendChunks surrogateLoads surrogateReply .new).1 = [.obj surrogateChunk] ∧
      (streamMessages "local" false [some (.obj surrogateChunk)]
        (backendChunks surrogateLoads surrogateReply .new).2.1).1 = [.start 200] ∧
      ¬ProperlyEnded (streamMessages "local" false [some (.obj surrogateChunk)]
        (backendChunks surrogateLoads surrogateReply .new).2.1).1 := by
  have hmessages : (streamMessages "local" false [some (.obj surrogateChunk)]
      (backendChunks surrogateLoads surrogateReply .new).2.1).1 = [.start 200] := rfl
  rw [hmessages]
  exact ⟨rfl, rfl, not_properlyEnded []⟩

end AgentLab.Gateway
