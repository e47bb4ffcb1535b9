import AgentLab.Gateway.Stream
import AgentLab.Python.Text

/-!
# The events that a client reads

The bytes of a streaming answer, and what a client makes of them by the grammar of event streams:
lines that end with LF, CR or CRLF only, fields, comments, and an event at each empty line.

No text of the model can end a line, since JSON escapes what is below U+0020; so the client reads
one event for each chunk that is passed on, and then the terminal one (`events_of_stream`).
-/

namespace AgentLab.Gateway

open Python

/-! ## The grammar -/

def LF : CodePoint := 0xA

def CR : CodePoint := 0xD

def COLON : CodePoint := 0x3A

def SPACE : CodePoint := 0x20

/-- The lines that are ended, from the one so far on; a line feed right after a carriage return
(`cr`) belongs to it. -/
def eventLines (line : Str) (cr : Bool) : Str → List Str
  | [] => []
  | c :: s =>
    if c = LF ∧ cr = true then eventLines line false s
    else if c = LF ∨ c = CR then line :: eventLines [] (c = CR) s
    else eventLines (line ++ [c]) false s

/-- The type and the data of an event, so far. -/
structure StreamEvent where
  type : Str
  data : Str
  deriving DecidableEq

/-- The value behind the colon, without one space. -/
def fieldValue (line : Str) : Str :=
  let value := (line.dropWhile (· ≠ COLON)).drop 1
  if value.head? = some SPACE then value.drop 1 else value

/-- A line that is not empty. A comment is a field without a name, and fields of other names do not
matter for the type and the data. -/
def readEventLine (event : StreamEvent) (line : Str) : StreamEvent :=
  let name := line.takeWhile (· ≠ COLON)
  if name = str "data" then { event with data := event.data ++ fieldValue line ++ [LF] }
  else if name = str "event" then { event with type := fieldValue line }
  else event

/-- The events of the lines: one at each empty line, if there is data. -/
def eventsOf (event : StreamEvent) : List Str → List StreamEvent
  | [] => []
  | [] :: lines =>
    if event.data.isEmpty then eventsOf ⟨[], []⟩ lines
    else ⟨event.type, event.data.dropLast⟩ :: eventsOf ⟨[], []⟩ lines
  | line :: lines => eventsOf (readEventLine event line) lines

/-- A text without its byte order mark. -/
def withoutMark (text : Str) : Str := if text.head? = some 0xFEFF then text.drop 1 else text

/-- The events of the bytes of a stream. -/
def parseEvents (bytes : List UInt8) : List StreamEvent :=
  eventsOf ⟨[], []⟩ (eventLines [] false (withoutMark (decode bytes.length bytes)))

/-! ## The bytes -/

variable (dumps : Json → Str)

/-- The text of a body message, for `json.dumps(value, ensure_ascii=False)`. -/
def Part.text : Part → Str
  | .comment => str ": keep-alive\n\n"
  | .event v => str "data: " ++ dumps v ++ str "\n\n"
  | .done => str "data: [DONE]\n\n"

/-- The bytes of a message. -/
def Message.bytes : Message → List UInt8
  | .body part => encode (part.text dumps)
  | _ => []

/-- The data of the event that a part is. -/
def Part.data? : Part → Option Str
  | .comment => none
  | .event v => some (dumps v)
  | .done => some DONE

/-- `json.dumps` renders the value in one line of Unicode scalar values, and `json.loads` reads it
back. -/
structure RoundTrips (loads : Str → Except LoadsError Json) (v : Json) : Prop where
  loads : loads (dumps v) = .ok v
  escaped : ∀ c ∈ dumps v, 0x20 ≤ c.val
  encodable : encodable (dumps v) = true

variable {dumps} {s : Str}

/-! ## Lines -/

/-- A text without line ends is part of the line. -/
theorem eventLines_plain (hs : ∀ c ∈ s, 0x20 ≤ c.val) :
    ∀ line rest, eventLines line false (s ++ rest) = eventLines (line ++ s) false rest := by
  induction s with
  | nil => simp
  | cons c s ih =>
    intro line rest
    have hc := hs c List.mem_cons_self
    have hlf : c ≠ LF := by
      rintro rfl
      exact absurd hc (by decide)
    have hcr : c ≠ CR := by
      rintro rfl
      exact absurd hc (by decide)
    rw [List.cons_append, eventLines, if_neg (fun h => hlf h.1), if_neg (not_or.2 ⟨hlf, hcr⟩),
      ih fun d hd => hs d (List.mem_cons_of_mem _ hd), List.append_assoc]
    rfl

/-- A line, and an empty one. -/
theorem eventLines_block (hs : ∀ c ∈ s, 0x20 ≤ c.val) (rest : Str) :
    eventLines [] false (s ++ (str "\n\n" ++ rest)) = s :: [] :: eventLines [] false rest := by
  rw [eventLines_plain hs]
  rfl

theorem eventsOf_block (hs : s ≠ []) (event : StreamEvent) (lines : List Str) :
    eventsOf event (s :: [] :: lines) =
      if (readEventLine event s).data.isEmpty then eventsOf ⟨[], []⟩ lines
      else ⟨(readEventLine event s).type, (readEventLine event s).data.dropLast⟩ ::
        eventsOf ⟨[], []⟩ lines := by
  cases s with
  | nil => exact absurd rfl hs
  | cons c s => rfl

/-- A data line, and an empty one. -/
theorem eventsOf_data (data : Str) (lines : List Str) :
    eventsOf ⟨[], []⟩ ((str "data: " ++ data) :: [] :: lines) =
      ⟨[], data⟩ :: eventsOf ⟨[], []⟩ lines := by
  have hline : readEventLine ⟨[], []⟩ (str "data: " ++ data) = ⟨[], data ++ [LF]⟩ := rfl
  have hnonempty : ¬(data ++ [LF]).isEmpty = true := by simp
  rw [eventsOf_block (List.append_ne_nil_of_left_ne_nil (by decide) _), hline, if_neg hnonempty,
    List.dropLast_concat]

theorem eventsOf_comment (lines : List Str) :
    eventsOf ⟨[], []⟩ (str ": keep-alive" :: [] :: lines) = eventsOf ⟨[], []⟩ lines := rfl

/-! ## Parts -/

variable {loads : Str → Except LoadsError Json} {parts : List Part}

theorem escaped_append {t : Str} (hs : ∀ c ∈ s, 0x20 ≤ c.val) (ht : ∀ c ∈ t, 0x20 ≤ c.val) :
    ∀ c ∈ s ++ t, 0x20 ≤ c.val :=
  List.forall_mem_append.2 ⟨hs, ht⟩

theorem escaped_of_all (h : (s.all fun c => decide (0x20 ≤ c.val)) = true) :
    ∀ c ∈ s, 0x20 ≤ c.val :=
  fun c hc => of_decide_eq_true (List.all_eq_true.1 h c hc)

/-- **One event for each part** that is one, however the comments are placed. -/
theorem eventsOf_parts (h : ∀ v, .event v ∈ parts → RoundTrips dumps loads v) :
    eventsOf ⟨[], []⟩ (eventLines [] false (parts.map (Part.text dumps)).flatten) =
      (parts.filterMap (Part.data? dumps)).map fun data => ⟨[], data⟩ := by
  have hfield : ∀ c ∈ str "data: ", 0x20 ≤ c.val := escaped_of_all (by decide)
  induction parts with
  | nil => rfl
  | cons part parts ih =>
    have ih := ih fun v hv => h v (List.mem_cons_of_mem _ hv)
    rw [List.map_cons, List.flatten_cons]
    cases part with
    | comment =>
      have hcomment : ∀ c ∈ str ": keep-alive", 0x20 ≤ c.val := escaped_of_all (by decide)
      have htext : Part.text dumps .comment = str ": keep-alive" ++ str "\n\n" := rfl
      rw [htext, List.append_assoc, eventLines_block hcomment, eventsOf_comment, ih]
      rfl
    | event v =>
      have hescaped := (h v List.mem_cons_self).escaped
      have htext : Part.text dumps (.event v) = str "data: " ++ dumps v ++ str "\n\n" := rfl
      rw [htext, List.append_assoc, eventLines_block (escaped_append hfield hescaped),
        eventsOf_data, ih]
      rfl
    | done =>
      have hdone : ∀ c ∈ DONE, 0x20 ≤ c.val := escaped_of_all (by decide)
      have htext : Part.text dumps .done = str "data: " ++ DONE ++ str "\n\n" := rfl
      rw [htext, List.append_assoc, eventLines_block (escaped_append hfield hdone),
        eventsOf_data, ih]
      rfl

theorem encodable_text (h : ∀ v, .event v ∈ parts → RoundTrips dumps loads v) :
    encodable (parts.map (Part.text dumps)).flatten = true := by
  induction parts with
  | nil => rfl
  | cons part parts ih =>
    rw [List.map_cons, List.flatten_cons, encodable_append]
    refine ⟨?_, ih fun v hv => h v (List.mem_cons_of_mem _ hv)⟩
    cases part with
    | comment | done => exact encodable_str _
    | event v =>
      unfold Part.text
      rw [encodable_append, encodable_append]
      exact ⟨⟨encodable_str _, (h v List.mem_cons_self).encodable⟩, encodable_str _⟩

/-- No part starts with a byte order mark. -/
theorem withoutMark_text : withoutMark (parts.map (Part.text dumps)).flatten =
    (parts.map (Part.text dumps)).flatten := by
  cases parts with
  | nil => rfl
  | cons part parts =>
    have hhead : ((part :: parts).map (Part.text dumps)).flatten.head? = some COLON ∨
        ((part :: parts).map (Part.text dumps)).flatten.head? = some 0x64 := by
      cases part with
      | comment => exact .inl rfl
      | event v | done => exact .inr rfl
    refine if_neg fun hmark => ?_
    rw [hmark] at hhead
    revert hhead
    decide

theorem flatten_bytes : (parts.map fun part => encode (part.text dumps)).flatten =
    encode (parts.map (Part.text dumps)).flatten := by
  induction parts with
  | nil => rfl
  | cons part parts ih =>
    unfold encode charsOf at *
    rw [List.map_cons, List.flatten_cons, ih, List.map_cons, List.flatten_cons, List.map_append,
      utf8_append]

theorem bytes_of_messages (parts : List Part) (final : Part) :
    (Message.start 200 :: parts.map .body ++ [Message.body final, .last]).flatMap
    (Message.bytes dumps) =
      encode ((parts ++ [final]).map (Part.text dumps)).flatten := by
  rw [← flatten_bytes]
  simp [List.flatMap, Message.bytes, Function.comp_def]

theorem parseEvents_encode (h : encodable s = true) :
    parseEvents (encode s) = eventsOf ⟨[], []⟩ (eventLines [] false (withoutMark s)) := by
  unfold parseEvents encode
  rw [decode_utf8, points_charsOf h]

/-! ## Streams -/

variable {modelName : String} {includeUsage : Bool} {beats : List (Option Json)}
  {chunks : List (Dict Json)}

/-- The data of the events of the chunks. -/
theorem data_of_encodable (hwell : ∀ c ∈ chunks, WellFormed c)
    (hr : Encodable modelName includeUsage chunks) (hbeats : beats.reduceOption = chunks.map .obj) :
    (streamBeats modelName includeUsage beats).1.filterMap (Part.data? dumps) =
      (chunks.filter (forwards includeUsage)).map fun c => dumps (.obj (publicOf modelName c)) := by
  have hsent : _ = streamChunks modelName includeUsage _ := streamBeats_chunks beats
  rw [hbeats, streamChunks_ok hwell hr] at hsent
  have hparts := (Prod.ext_iff.1 hsent).1
  dsimp only at hparts
  let data : Sent → Option Str
    | .event v => some (dumps v)
    | .done => some DONE
    | _ => none
  have hdata : Part.data? dumps = fun part => (Part.sent? part).bind data := by
    funext part
    cases part <;> rfl
  have hevent : data ∘ eventOf modelName =
      some ∘ fun c => dumps (.obj (publicOf modelName c)) := rfl
  rw [hdata, ← List.filterMap_filterMap, hparts, List.filterMap_map, hevent, List.filterMap_eq_map]

/-- **Model output cannot forge events.** For chunks whose strings are any Unicode scalar values,
and comments anywhere between them, a client reads one event for each chunk that is passed on, in
order, whose data is its public chunk, and then the terminal event. -/
theorem events_of_stream (loads : Str → Except LoadsError Json) (dumps : Json → Str)
    (modelName : String) (includeUsage : Bool) (reply : Reply) (record : RequestRecord)
    (beats : List (Option Json))
    (hbeats : beats.reduceOption = (backendChunks loads reply record).1)
    (hscalar : ∀ v ∈ reply.chunks loads, renders true v = true)
    (hdumps : ∀ v, .body (.event v) ∈ (streamMessages modelName includeUsage beats
      (backendChunks loads reply record).2.1).1 → RoundTrips dumps loads v) :
    ∃ terminal, parseEvents ((streamMessages modelName includeUsage beats
        (backendChunks loads reply record).2.1).1.flatMap (Message.bytes dumps)) =
      (((reply.chunks loads).map dictOf).filter (forwards includeUsage)).map
        (fun c => ⟨[], dumps (.obj (publicOf modelName c))⟩) ++ [⟨[], terminal⟩] ∧
      (∀ c ∈ ((reply.chunks loads).map dictOf).filter (forwards includeUsage),
        ∃ v, publicChunk modelName (.obj c) = .ok v ∧
          loads (dumps (.obj (publicOf modelName c))) = .ok v) ∧
      (terminal = DONE ∨ ∃ e : BackendError, loads terminal = .ok e.apiError.body) := by
  obtain ⟨chunks, hchunks⟩ := exists_chunks loads reply
  have hdicts : (reply.chunks loads).map dictOf = chunks := by
    rw [hchunks, List.map_map]
    exact chunks.map_id
  have hwell := wellFormed_of_chunks hchunks
  have hr : Encodable modelName includeUsage chunks := fun c hc _ =>
    renders_publicOf (hscalar _ (hchunks ▸ List.mem_map_of_mem hc))
  have hyielded : beats.reduceOption = chunks.map .obj :=
    hbeats.trans ((backendChunks_yields reply record).chunks.trans hchunks)
  obtain ⟨final, hmessages, hfinal⟩ := messages_of_encodable hchunks hr hbeats
  rw [hmessages] at hdumps ⊢
  rw [hdicts]
  have hround : ∀ v, .event v ∈ (streamBeats modelName includeUsage beats).1 ++ [final] →
      RoundTrips dumps loads v := by
    intro v hv
    refine hdumps v ?_
    rcases List.mem_append.1 hv with hv | hv
    · exact List.mem_append_left _ (List.mem_cons_of_mem _ (List.mem_map_of_mem hv))
    · rw [List.mem_singleton.1 hv]
      simp
  have hevents := eventsOf_parts hround
  rw [List.filterMap_append, data_of_encodable hwell hr hyielded] at hevents
  rw [bytes_of_messages, parseEvents_encode (encodable_text hround), withoutMark_text, hevents]
  have hforwarded : ∀ c ∈ chunks.filter (forwards includeUsage),
      ∃ v, publicChunk modelName (.obj c) = .ok v ∧
        loads (dumps (.obj (publicOf modelName c))) = .ok v := by
    intro c hc
    have hmem := mem_parts_of_encodable hwell hr hyielded hc
    exact ⟨_, publicChunk_eq (hwell c (List.mem_of_mem_filter hc)),
      (hround _ (List.mem_append_left _ hmem)).loads⟩
  obtain rfl | ⟨e, rfl⟩ := hfinal
  · exact ⟨DONE, by simp [Part.data?], hforwarded, .inl rfl⟩
  · exact ⟨dumps e.apiError.body, by simp [Part.data?], hforwarded,
      .inr ⟨e, (hround _ (by simp)).loads⟩⟩

/-! ## A text that looks like the end -/

/-- The content looks like the end of the stream. -/
def forgedChunk : Dict Json :=
  [(str "choices", .list [.obj [(str "delta",
    .obj [(str "content", .str (str "\n\ndata: [DONE]\n\n"))])]])]

def forgedText : Str :=
  str "\x7b\"choices\": [\x7b\"delta\": \x7b\"content\": \"\\n\\ndata: [DONE]\\n\\n\"\x7d\x7d]\x7d"

/-- The public chunk of it, for the model `local`. -/
def forgedPublicText : Str :=
  str "\x7b\"choices\": [\x7b\"delta\": \x7b\"content\": \"\\n\\ndata: [DONE]\\n\\n\"\x7d\x7d], " ++
    str "\"model\": \"local\", \"object\": \"chat.completion.chunk\"\x7d"

def forgedLoads (s : Str) : Except LoadsError Json :=
  if s = forgedText then .ok (.obj forgedChunk)
  else if s = forgedPublicText then .ok (.obj (publicOf "local" forgedChunk))
  else .error .valueError

def forgedReply : Reply := .response 200 [str "data: " ++ forgedText, [], str "data: [DONE]"] .eof

/-- Two events are read, with a comment between them. -/
theorem events_of_stream_forged : ∃ terminal,
    parseEvents ((streamMessages "local" false [some (.obj forgedChunk), none]
      (backendChunks forgedLoads forgedReply .new).2.1).1.flatMap
        (Message.bytes fun _ => forgedPublicText)) = [⟨[], forgedPublicText⟩, ⟨[], terminal⟩] := by
  have hchunks : (backendChunks forgedLoads forgedReply .new).1 = [.obj forgedChunk] := rfl
  have hreply : forgedReply.chunks forgedLoads = [.obj forgedChunk] :=
    (backendChunks_yields forgedReply .new).chunks.symm.trans hchunks
  have hmessages : (streamMessages "local" false [some (.obj forgedChunk), none]
      (backendChunks forgedLoads forgedReply .new).2.1).1 =
      [.start 200, .body (.event (.obj (publicOf "local" forgedChunk))), .body .comment,
        .body .done, .last] := rfl
  have hscalar : ∀ v ∈ forgedReply.chunks forgedLoads, renders true v = true := by
    intro v hv
    rw [hreply] at hv
    rw [List.mem_singleton.1 hv]
    decide +kernel
  have hround :
      ∀ v, .body (.event v) ∈ (streamMessages "local" false [some (.obj forgedChunk), none]
      (backendChunks forgedLoads forgedReply .new).2.1).1 →
        RoundTrips (fun _ => forgedPublicText) forgedLoads v := by
    intro v hv
    rw [hmessages] at hv
    obtain rfl : v = .obj (publicOf "local" forgedChunk) := by simpa using hv
    exact ⟨rfl, escaped_of_all (by decide +kernel), by decide +kernel⟩
  obtain ⟨terminal, hevents, -, -⟩ := events_of_stream forgedLoads (fun _ => forgedPublicText)
    "local" false forgedReply .new [some (.obj forgedChunk), none] hchunks.symm hscalar hround
  refine ⟨terminal, hevents.trans ?_⟩
  rw [hreply]
  rfl

end AgentLab.Gateway
