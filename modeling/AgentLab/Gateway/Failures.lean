import AgentLab.Gateway.Rendered

/-!
# Streaming and non-streaming failures

Whether the two ways of answering agree about a failure of the backend (`failures_agree_iff`). An
incomplete stream fails both with the error of `backend_chunks`, unless a chunk before it cannot be
sent. A complete one has to have a chunk, since only `_collect` looks for one
(`failures_agree_silent`), and a body that can be sent.
-/

namespace AgentLab.Gateway

open Python

/-! ## What the client and the log are told -/

/-- `error.message` of an error body. -/
def errorMessage (body : Json) : Option Str :=
  match field (field body "error") "message" with
  | .str message => some message
  | _ => none

/-- The status in the log and the message of an error event, if the stream ends with one. -/
def Streamed.error (s : Streamed) : Option (ℕ × Option Str) :=
  match s.sent.reverse with
  | .last :: .event v :: _ => some (s.record.status, errorMessage v)
  | _ => none

/-- The status in the log and the message of a response that is an error; an answer without a
response has no message. -/
def Completed.error (c : Completed) : Option (ℕ × Option Str) :=
  match c.response with
  | some (status, body) => if status = 200 then none else some (c.record.status, errorMessage body)
  | none => some (c.record.status, none)

variable {loads : Str → Except LoadsError Json} {modelName : String} {includeUsage : Bool}
  {reply : Reply} {record : RequestRecord} {chunks : List (Dict Json)}

theorem errorMessage_body (e : BackendError) : errorMessage e.apiError.body = some e.message := rfl

/-! ## The stream -/

/-- The loop of `_stream` sends events only. -/
theorem event_of_mem_streamChunks {l : List Json} :
    ∀ s ∈ (streamChunks modelName includeUsage l).1, ∃ v, s = .event v := by
  induction l with
  | nil => exact fun s hs => absurd hs List.not_mem_nil
  | cons chunk l ih =>
    unfold streamChunks
    split
    · exact fun s hs => absurd hs List.not_mem_nil
    · split_ifs
      · exact ih
      · split
        · exact fun s hs => absurd hs List.not_mem_nil
        · next v _ =>
          intro s hs
          rcases List.mem_cons.1 hs with rfl | hs
          · exact ⟨v, rfl⟩
          · exact ih s hs

theorem error_of_events {sent : List Sent} (h : ∀ s ∈ sent, ∃ v, s = .event v) :
    Streamed.error ⟨.start :: sent, record⟩ = none := by
  unfold Streamed.error
  rcases List.eq_nil_or_concat sent with rfl | ⟨l, s, rfl⟩
  · rfl
  · obtain ⟨v, rfl⟩ := h s (by simp)
    simp

/-- A stream that stops at a chunk that cannot be sent has no error event. -/
theorem error_stream_crashed (hchunks : reply.chunks loads = chunks.map .obj)
    (hr : ¬Encodable modelName includeUsage chunks) :
    (stream loads modelName includeUsage reply record).error = none := by
  have hyielded := (backendChunks_yields reply record).chunks.trans hchunks
  have hresult : backendChunks loads reply record =
      (chunks.map .obj, (backendChunks loads reply record).2) := Prod.ext hyielded rfl
  have hevents := @event_of_mem_streamChunks modelName includeUsage (chunks.map .obj)
  have hcrash := fun h => hr (renders_of_streamChunks (wellFormed_of_chunks hchunks) h)
  unfold stream
  rw [hresult]
  dsimp only
  cases hx : (streamChunks modelName includeUsage (chunks.map .obj)).2 with
  | none => exact absurd hx hcrash
  | some x => exact error_of_events hevents

theorem error_stream_done (hdone : reply.isDone loads)
    (hchunks : reply.chunks loads = chunks.map .obj) :
    (stream loads modelName includeUsage reply record).error = none := by
  by_cases hr : Encodable modelName includeUsage chunks
  · unfold Streamed.error
    rw [(stream_done hdone hchunks hr).1]
    simp
  · exact error_stream_crashed hchunks hr

theorem error_stream_failed {e : BackendError}
    (houtcome : (backendChunks loads reply record).2.1 = .failed e) (he : e.Sound)
    (hchunks : reply.chunks loads = chunks.map .obj)
    (hr : Encodable modelName includeUsage chunks) :
    (stream loads modelName includeUsage reply record).error = some (e.status, some e.message) := by
  obtain ⟨hsent, hstatus⟩ := stream_failed houtcome he.message hchunks hr
  unfold Streamed.error
  rw [hsent, hstatus, ← errorMessage_body]
  simp

/-! ## The response -/

theorem error_complete_failed {e : BackendError}
    (houtcome : (backendChunks loads reply record).2.1 = .failed e) (he : e.Sound) :
    (complete loads modelName reply record).error = some (e.status, some e.message) := by
  obtain ⟨hresponse, hstatus⟩ := @complete_failed modelName _ _ _ _ houtcome he.message
  have hne : e.status ≠ 200 := fun h => absurd he.status (by omega)
  unfold Completed.error
  rw [hresponse, hstatus]
  exact if_neg hne

/-- A complete stream is answered without an error if and only if it has a chunk and the body can be
sent. -/
theorem error_complete_done (hdone : reply.isDone loads)
    (hchunks : reply.chunks loads = chunks.map .obj) :
    (complete loads modelName reply record).error = none ↔ chunks ≠ [] ∧ Renderable chunks := by
  obtain ⟨record', hresult⟩ := backendChunks_done hdone hchunks record
  rw [← @renders_bodyOf modelName]
  unfold Completed.error complete
  rw [hresult]
  dsimp only
  by_cases hne : chunks = []
  · subst hne
    exact ⟨nofun, fun h => absurd rfl h.1⟩
  · rw [collect_done (wellFormed_of_chunks hchunks) hne]
    unfold jsonResponse
    dsimp only
    by_cases hr : renders false (.obj (bodyOf modelName chunks)) = true
    · rw [if_pos hr]
      exact ⟨fun _ => ⟨hne, hr⟩, fun _ => rfl⟩
    · rw [if_neg hr]
      exact ⟨nofun, fun h => absurd h.2 hr⟩

/-! ## Agreement -/

/-- The replies on which the two ways of answering agree. -/
def FailuresAgree (loads : Str → Except LoadsError Json) (modelName : String) (includeUsage : Bool)
    (reply : Reply) : Prop :=
  if reply.isDone loads then
    (reply.chunks loads).map dictOf ≠ [] ∧ Renderable ((reply.chunks loads).map dictOf)
  else Encodable modelName includeUsage ((reply.chunks loads).map dictOf)

/-- **When the failures agree**: the response is an error if and only if the stream ends with an
error event, with the same status and message, exactly on a complete stream with a chunk and with
renderable values in the body, and on an incomplete one whose events can be sent. -/
theorem failures_agree_iff (loads : Str → Except LoadsError Json) (modelName : String)
    (includeUsage : Bool) (reply : Reply) (record : RequestRecord) :
    (complete loads modelName reply record).error =
        (stream loads modelName includeUsage reply record).error ↔
      FailuresAgree loads modelName includeUsage reply := by
  obtain ⟨chunks, hchunks⟩ := exists_chunks loads reply
  have hdicts : (reply.chunks loads).map dictOf = chunks := by
    rw [hchunks, List.map_map]
    exact chunks.map_id
  unfold FailuresAgree
  rw [hdicts]
  split_ifs with hdone
  · rw [error_stream_done hdone hchunks]
    exact error_complete_done hdone hchunks
  · obtain ⟨e, houtcome, he⟩ := (backendChunks_yields reply record).failed hdone
    rw [error_complete_failed houtcome he]
    constructor
    · intro hagree
      by_contra hr
      rw [error_stream_crashed hchunks hr] at hagree
      cases hagree
    · exact fun hr => (error_stream_failed houtcome he hchunks hr).symm

/-- A reply that is complete at once. -/
def silent : Reply := .response 200 [str "data: [DONE]"] .eof

/-- Without any chunk the response is a 502, and the stream ends without an error. -/
theorem failures_agree_silent :
    (complete helloLoads "local" silent .new).error =
      some (502, some (str "the model server sent no answer")) ∧
    (stream helloLoads "local" true silent .new).error = none := by
  decide +kernel

end AgentLab.Gateway
