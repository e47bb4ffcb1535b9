import AgentLab.Gateway.Summary
import AgentLab.Python.Text

/-!
# Truncated streams

A body that stops before its `[DONE]` is always an error (`truncation_detected`). Each line of the
part that arrived starts a line of the body, or ends in the replacement character of a character
that was cut; so its payload, if it has one, is a whole chunk or no JSON, and it is never `[DONE]`
(`Partial`).

The lines of the body are those that `httpx` yields: which of the characters that end a line for
`str.splitlines` end one of the stream is left open.
-/

namespace AgentLab.Gateway

open Python

/-! ## JSON and `httpx` -/

/-- What `json.loads` says of texts that are cut. -/
structure JsonTexts (loads : Str → Except LoadsError Json) : Prop where
  /-- A proper prefix of the text of an object, without white space around it, is not JSON. -/
  cut : ∀ text o s, loads (strip text) = .ok (.obj o) → s <+: strip text → s ≠ strip text →
    ∃ e, loads s = .error e
  /-- The text of an object begins with a brace. -/
  brace : ∀ text o, loads (strip text) = .ok (.obj o) → (strip text).head? = some 0x7B
  /-- A proper prefix of `[DONE]` is not JSON. -/
  done : ∀ s, s <+: DONE → s ≠ DONE → ∃ e, loads s = .error e
  /-- No JSON text ends in U+FFFD. -/
  replacement : ∀ s, ∃ e, loads (s ++ [REPLACEMENT]) = .error e

/-- The lines of a body that ends, by its bytes: those of its text, the last one of which need not
be ended; a character that is cut is replaced. -/
structure AiterLines (isEnd : CodePoint → Bool) (aiterLines : List UInt8 → List Str) : Prop where
  ends : ∀ c, isEnd c = true → isLineEnd c = true
  text : ∀ text, aiterLines (utf8 text) = linesBy isEnd (points text)
  cut : ∀ text c cut, PartOf c cut →
    aiterLines (utf8 text ++ cut) = linesBy isEnd (points text ++ [REPLACEMENT])

/-- The lines that arrive of a body: all of it, or some until `httpx` raises. -/
def Arrives (aiterLines : List UInt8 → List Str) (body : List UInt8) (lines : List Str) :
    Ending → Prop
  | .eof => lines = aiterLines body
  | .httpError => lines <+: aiterLines body

/-- The lines of a stream before its end marker: each is a chunk of Unicode scalar values, or no
`data:` line at all. -/
def StreamLine (loads : Str → Except LoadsError Json) (line : Str) : Prop :=
  (str "data:").isPrefixOf line = true → ∃ chunk, loads (strip (line.drop 5)) = .ok (.obj chunk) ∧
    wellFormed (.obj chunk) = true ∧ renders true (.obj chunk) = true

/-- `data: [DONE]`. -/
def MARKER : List Char := "data: [DONE]".toList

/-- The part of a complete stream before its end marker. -/
structure BeforeMarker (loads : Str → Except LoadsError Json) (isEnd : CodePoint → Bool)
    (text : List Char) : Prop where
  terminated : Terminated isEnd (points text)
  lines : ∀ line ∈ linesBy isEnd (points text), StreamLine loads line

variable {loads : Str → Except LoadsError Json} {isEnd : CodePoint → Bool}

/-! ## Payloads -/

/-- A chunk that can be sent, or neither a chunk nor the end marker. -/
def Partial (loads : Str → Except LoadsError Json) (data : Str) : Prop :=
  (∃ chunk, chunk? loads data = some (.obj chunk) ∧ renders true (.obj chunk) = true) ∨
    chunk? loads data = none ∧ data ≠ DONE

theorem Partial.of_error {data : Str} (hload : ∃ e, loads data = .error e) (hdone : data ≠ DONE) :
    Partial loads data := by
  obtain ⟨e, he⟩ := hload
  refine .inr ⟨?_, hdone⟩
  unfold chunk?
  rw [if_neg hdone, he]

/-- Among such payloads no stream is complete, and its chunks can be sent. -/
theorem not_isDone_of_partial {payloads : List Str} (h : ∀ data ∈ payloads, Partial loads data) :
    ¬isDoneOf loads payloads ∧ ∀ v ∈ chunksOf loads payloads, renders true v = true := by
  induction payloads with
  | nil => exact ⟨nofun, fun v hv => absurd hv List.not_mem_nil⟩
  | cons data payloads ih =>
    rw [isDoneOf_cons, chunksOf_cons]
    obtain ⟨hnot, hrenders⟩ := ih fun d hd => h d (List.mem_cons_of_mem _ hd)
    rcases h data List.mem_cons_self with ⟨chunk, hchunk, hr⟩ | ⟨hnone, hdone⟩
    · rw [hchunk]
      exact ⟨hnot, List.forall_mem_cons.2 ⟨hr, hrenders⟩⟩
    · rw [hnone]
      exact ⟨hdone, fun v hv => absurd hv List.not_mem_nil⟩

theorem payload?_eq_some {line data : Str} (h : payload? line = some data) :
    ∃ rest, line = str "data:" ++ rest ∧ data = strip rest := by
  unfold payload? at h
  split_ifs at h with hp
  obtain ⟨rest, rfl⟩ := List.isPrefixOf_iff_prefix.1 hp
  exact ⟨rest, rfl, (Option.some.inj h).symm⟩

/-- A line that starts with `data:` starts a payload with what follows. -/
theorem payload?_of_prefix {line full data : Str} (h : line <+: full)
    (hdata : payload? line = some data) :
    (str "data:").isPrefixOf full = true ∧ data <+: strip (full.drop 5) := by
  obtain ⟨rest, rfl, rfl⟩ := payload?_eq_some hdata
  obtain ⟨more, rfl⟩ := h
  rw [List.append_assoc]
  exact ⟨List.isPrefixOf_iff_prefix.2 (List.prefix_append _ _),
    strip_mono (List.prefix_append rest more)⟩

section

variable (hjson : JsonTexts loads)

include hjson

/-- The payload of a line that starts a line of the stream. -/
theorem partial_of_streamLine {line full data : Str} (hfull : StreamLine loads full)
    (h : line <+: full) (hdata : payload? line = some data) : Partial loads data := by
  obtain ⟨hstarts, hstrip⟩ := payload?_of_prefix h hdata
  obtain ⟨chunk, hload, hwell, hrenders⟩ := hfull hstarts
  have hdone : data ≠ DONE := by
    rintro rfl
    obtain ⟨more, hmore⟩ := hstrip
    have hhead := hjson.brace _ _ hload
    rw [← hmore, DONE_eq] at hhead
    exact absurd (Option.some.inj hhead) (by decide)
  by_cases heq : data = strip (full.drop 5)
  · refine .inl ⟨chunk, ?_, hrenders⟩
    unfold chunk?
    rw [if_neg hdone, heq, hload]
    exact if_pos hwell
  · exact .of_error (hjson.cut _ _ _ hload hstrip heq) hdone

/-- The payload of a part of the end marker. -/
theorem partial_of_marker {line data : Str} (h : line <+: points MARKER)
    (hne : line ≠ points MARKER)
    (hdata : payload? line = some data) : Partial loads data := by
  obtain ⟨rest, rfl, rfl⟩ := payload?_eq_some hdata
  have hmarker : points MARKER = str "data:" ++ str " [DONE]" := by decide +kernel
  have hdone : strip (str " [DONE]") = DONE := by decide +kernel
  have hparts : ∀ n < 7, strip ((str " [DONE]").take n) ≠ DONE := by decide +kernel
  rw [hmarker] at h hne
  have hrest : rest <+: str " [DONE]" := (List.prefix_append_right_inj _).1 h
  have hlength : rest.length < 7 := by
    refine lt_of_le_of_ne hrest.length_le fun heq => hne ?_
    rw [hrest.eq_of_length heq]
  have hpart : strip rest ≠ DONE := by
    rw [List.prefix_iff_eq_take.1 hrest]
    exact hparts _ hlength
  exact .of_error (hjson.done _ (hdone ▸ strip_mono hrest) hpart) hpart

/-- The payload of a line with a character that is cut. -/
theorem partial_of_replacement {q data : Str} (hdata : payload? (q ++ [REPLACEMENT]) = some data) :
    Partial loads data := by
  obtain ⟨rest, hrest, rfl⟩ := payload?_eq_some hdata
  have hrest : ∃ init, rest = init ++ [REPLACEMENT] := by
    rcases List.eq_nil_or_concat rest with rfl | ⟨init, c, rfl⟩
    · have hcolon : str "data:" = str "data" ++ [0x3A] := by decide +kernel
      rw [List.append_nil, hcolon] at hrest
      exact absurd (List.append_inj_right' hrest rfl) (by decide)
    · rw [List.concat_eq_append, ← List.append_assoc] at hrest
      exact ⟨init, by rw [List.concat_eq_append, List.append_inj_right' hrest rfl]⟩
  obtain ⟨init, rfl⟩ := hrest
  obtain ⟨text, htext⟩ := strip_concat init (show isSpace REPLACEMENT = false by decide)
  rw [htext]
  refine .of_error (hjson.replacement text) fun hdone => ?_
  have hlast := congrArg List.getLast? hdone
  rw [List.getLast?_concat, DONE_eq] at hlast
  exact absurd (Option.some.inj hlast) (by decide)

/-! ## The lines that arrive -/

omit hjson in
/-- What ends no line for `str.splitlines` ends none of the stream. -/
theorem not_isEnd (hends : ∀ c, isEnd c = true → isLineEnd c = true) {c : CodePoint}
    (h : isLineEnd c = false) : isEnd c = false :=
  Bool.eq_false_iff.2 fun hend => Bool.false_ne_true (h.symm.trans (hends c hend))

omit hjson in
/-- The end marker is one line. -/
theorem linesBy_marker (hends : ∀ c, isEnd c = true → isLineEnd c = true) {part line : Str}
    (hpart : part <+: points MARKER) (hline : line ∈ linesBy isEnd part) : line = part := by
  have hmarker : (points MARKER).all (fun c => !isLineEnd c) = true := by decide +kernel
  have hopen : ∀ c ∈ part, isEnd c = false := fun c hc =>
    not_isEnd hends (by simpa using List.all_eq_true.1 hmarker c (hpart.subset hc))
  have hlines := splitlinesFrom_open hopen [] []
  rw [List.append_nil, List.nil_append, splitlinesFrom] at hlines
  rw [linesBy, hlines] at hline
  split_ifs at hline
  · cases hline
  · exact List.mem_singleton.1 hline

/-- The lines of a text that stops before the end marker. -/
theorem partial_of_cut (hends : ∀ c, isEnd c = true → isLineEnd c = true) {before s t : List Char}
    (h : BeforeMarker loads isEnd before) (hst : before ++ MARKER = s ++ t) (ht : t ≠ [])
    {line data : Str} (hline : line ∈ linesBy isEnd (points s))
    (hdata : payload? line = some data) :
    Partial loads data := by
  rcases List.append_eq_append_iff.1 hst with ⟨m, rfl, hm⟩ | ⟨u, rfl, -⟩
  · have hmarker : points m <+: points MARKER := by
      rw [hm]
      exact ⟨points t, (points_append m t).symm⟩
    have hlength : m.length < 12 := by
      have hlength : m.length + t.length = 12 := by
        rw [← List.length_append, ← hm]; decide
      have := List.length_pos_iff.2 ht
      omega
    have hne : points m ≠ points MARKER := fun heq => by
      have hpoints := congrArg List.length heq
      rw [points, points, List.length_map, List.length_map] at hpoints
      exact absurd hpoints (Nat.ne_of_lt hlength)
    have hhead : (points m).head? ≠ some 0xA := by
      intro hhead
      obtain ⟨rest, hrest⟩ := hmarker
      have hfirst : (points MARKER).head? = some 0x64 := by decide +kernel
      rw [← hrest, List.head?_append, hhead] at hfirst
      cases hfirst
    rw [points_append, linesBy_append h.terminated hhead] at hline
    rcases List.mem_append.1 hline with hline | hline
    · exact partial_of_streamLine hjson (h.lines _ hline) List.prefix_rfl hdata
    · obtain rfl := linesBy_marker hends hmarker hline
      exact partial_of_marker hjson hmarker hne hdata
  · obtain ⟨full, hfull, hstarts⟩ := mem_splitlinesFrom_append (points s) (points u) hline
    rw [← points_append] at hfull
    exact partial_of_streamLine hjson (h.lines _ hfull) hstarts hdata

omit hjson in
/-- The end marker cannot be cut in a character. -/
theorem not_mem_marker {c : Char} {cut : List UInt8} (hcut : PartOf c cut) : c ∉ MARKER := by
  intro hc
  have hascii : MARKER.all (fun c => c.val ≤ 127) = true := by decide +kernel
  have hone : (String.utf8EncodeChar c).length = 1 := by
    rw [String.length_utf8EncodeChar, Char.utf8Size_eq_one_iff]
    exact of_decide_eq_true (List.all_eq_true.1 hascii c hc)
  have hpos := List.length_pos_iff.2 hcut.nonempty
  have hle := hcut.starts.length_le
  exact hcut.ne (hcut.starts.eq_of_length (by omega))

/-- The lines of such a text whose next character is cut. -/
theorem partial_of_cut_char (hends : ∀ c, isEnd c = true → isLineEnd c = true)
    {before s t : List Char} {c : Char} {cut : List UInt8} (h : BeforeMarker loads isEnd before)
    (hst : before ++ MARKER = s ++ c :: t) (hcut : PartOf c cut) {line data : Str}
    (hline : line ∈ linesBy isEnd (points s ++ [REPLACEMENT])) (hdata : payload? line = some data) :
    Partial loads data := by
  have hopen : isEnd REPLACEMENT = false := not_isEnd hends (by decide)
  rcases List.append_eq_append_iff.1 hst with ⟨m, -, hm⟩ | ⟨u, rfl, -⟩
  · have hmem : c ∈ MARKER := hm ▸ List.mem_append_right m List.mem_cons_self
    exact absurd hmem (not_mem_marker hcut)
  · rcases mem_splitlinesFrom_concat (points s) (points u) hopen (by decide) hline with
      ⟨full, hfull, hstarts⟩ | ⟨q, rfl⟩
    · rw [← points_append] at hfull
      exact partial_of_streamLine hjson (h.lines _ hfull) hstarts hdata
    · exact partial_of_replacement hjson hdata

/-- **The payloads that arrive** of a stream that stops before its end marker. -/
theorem partial_of_arrives {aiterLines : List UInt8 → List Str}
    (hhttpx : AiterLines isEnd aiterLines) {before rest : List Char}
    (h : BeforeMarker loads isEnd before) {body : List UInt8}
    (hbody : body <+: utf8 (before ++ MARKER ++ rest))
    (hlength : body.length < (utf8 (before ++ MARKER)).length) {lines : List Str} {ending : Ending}
    (harrives : Arrives aiterLines body lines ending) :
    ∀ data ∈ lines.filterMap payload?, Partial loads data := by
  intro data hdata
  obtain ⟨line, hline, hdata⟩ := List.mem_filterMap.1 hdata
  have hline : line ∈ aiterLines body := by
    cases ending with
    | eof => exact harrives ▸ hline
    | httpError => exact harrives.subset hline
  have hcut : body <+: utf8 (before ++ MARKER) := by
    rw [utf8_append] at hbody
    exact List.prefix_of_prefix_length_le hbody (List.prefix_append _ _) hlength.le
  obtain ⟨s, t, hst, rfl | ⟨c, t, cut, rfl, hpart, rfl⟩⟩ := prefix_utf8 hcut
  · have ht : t ≠ [] := by
      rintro rfl
      rw [hst, List.append_nil] at hlength
      exact lt_irrefl _ hlength
    rw [hhttpx.text] at hline
    exact partial_of_cut hjson hhttpx.ends h hst ht hline hdata
  · rw [hhttpx.cut s c cut hpart] at hline
    exact partial_of_cut_char hjson hhttpx.ends h hst hpart hline hdata

/-! ## Truncation -/

/-- **Truncation is always detected.** If the bytes of a complete stream stop anywhere before its
end marker is complete, the stream ends with an error event and never says `[DONE]`, and the
response is an error. -/
theorem truncation_detected {aiterLines : List UInt8 → List Str}
    (hhttpx : AiterLines isEnd aiterLines) {before rest : List Char}
    (h : BeforeMarker loads isEnd before) {body : List UInt8}
    (hbody : body <+: utf8 (before ++ MARKER ++ rest))
    (hlength : body.length < (utf8 (before ++ MARKER)).length) {lines : List Str} {ending : Ending}
    (harrives : Arrives aiterLines body lines ending) (modelName : String) (includeUsage : Bool)
    (record : RequestRecord) :
    ∃ e : BackendError, 400 ≤ e.status ∧
      (∃ sent, (stream loads modelName includeUsage (.response 200 lines ending) record).sent =
        sent ++ [.event e.apiError.body, .last] ∧ .done ∉ sent) ∧
      (complete loads modelName (.response 200 lines ending) record).response =
        some (e.status, e.apiError.body) := by
  have hpartial := partial_of_arrives hjson hhttpx h hbody hlength harrives
  obtain ⟨hdone, hrenders⟩ := not_isDone_of_partial hpartial
  obtain ⟨chunks, hchunks⟩ := exists_chunks loads (.response 200 lines ending)
  have hchunks' : chunksOf loads (lines.filterMap payload?) = chunks.map .obj := hchunks
  rw [hchunks'] at hrenders
  have hencodable : Encodable modelName includeUsage chunks := fun c hc _ =>
    renders_publicOf (hrenders _ (List.mem_map_of_mem hc))
  obtain ⟨e, houtcome, he⟩ :=
    (backendChunks_yields (.response 200 lines ending) record).failed hdone
  refine ⟨e, he.status, ?_, (complete_failed houtcome he.message).1⟩
  refine ⟨_, (stream_failed houtcome he.message hchunks hencodable).1, ?_⟩
  intro hmem
  rcases List.mem_cons.1 hmem with hstart | hevent
  · cases hstart
  · obtain ⟨c, -, hc⟩ := List.mem_map.1 hevent
    cases hc

end

/-! ## A stream that is cut -/

theorem jsonTexts_hello : JsonTexts helloLoads where
  cut := by
    intro text o s hload hs hne
    have htext : strip text = helloText := by
      unfold helloLoads at hload
      split_ifs at hload with h
      exact h
    exact ⟨.valueError, if_neg (htext ▸ hne)⟩
  brace := by
    intro text o hload
    have hbrace : helloText.head? = some 0x7B := by decide +kernel
    unfold helloLoads at hload
    split_ifs at hload with h
    rw [h, hbrace]
  done := by
    intro s hs _
    have hlength : DONE.length < helloText.length := by rw [DONE_eq]; decide +kernel
    exact ⟨.valueError, if_neg fun h => absurd hs.length_le (by rw [h]; omega)⟩
  replacement := by
    intro s
    have hbrace : helloText.getLast? = some 0x7D := by decide +kernel
    refine ⟨.valueError, if_neg fun h => ?_⟩
    rw [← h, List.getLast?_concat] at hbrace
    exact absurd (Option.some.inj hbrace) (by decide)

theorem aiterLines_decode :
    AiterLines isLineEnd fun b => splitlines (decode b.length b) where
  ends _ h := h
  text := fun text => by rw [decode_utf8]; rfl
  cut := fun text c cut h => by rw [decode_part text h]; rfl

/-- A comment and a chunk. -/
def helloBefore : List Char :=
  ": keepalive\n\ndata: ".toList ++ helloJson ++ "\n\n".toList

theorem beforeMarker_hello : BeforeMarker helloLoads isLineEnd helloBefore where
  terminated := .inr ⟨points helloBefore.dropLast, 0xA, by decide +kernel, by decide⟩
  lines := by
    have hlines : linesBy isLineEnd (points helloBefore) =
        [str ": keepalive", [], str "data: " ++ helloText, []] := by decide +kernel
    have htext : strip ((str "data: " ++ helloText).drop 5) = helloText := by decide +kernel
    rw [hlines]
    intro line hline hdata
    simp only [List.mem_cons, List.not_mem_nil, or_false] at hline
    rcases hline with rfl | rfl | rfl | rfl
    · exact absurd hdata (by decide +kernel)
    · exact absurd hdata (by decide +kernel)
    · rw [htext]
      exact ⟨helloChunk, if_pos rfl, by decide +kernel, by decide +kernel⟩
    · exact absurd hdata (by decide +kernel)

/-- The chunk is cut in its tool call. -/
def helloCut : List UInt8 := (utf8 (helloBefore ++ MARKER ++ [])).take 160

def helloCutReply : Reply := .response 200 (splitlines (decode helloCut.length helloCut)) .eof

theorem truncation_detected_hello : ∃ e : BackendError, 400 ≤ e.status ∧
    (∃ sent, (stream helloLoads "local" true helloCutReply .new).sent =
      sent ++ [.event e.apiError.body, .last] ∧ .done ∉ sent) ∧
    (complete helloLoads "local" helloCutReply .new).response =
      some (e.status, e.apiError.body) := by
  have hlength : helloCut.length < (utf8 (helloBefore ++ MARKER)).length := by decide +kernel
  exact truncation_detected jsonTexts_hello aiterLines_decode beforeMarker_hello
    (List.take_prefix _ _) hlength (show Arrives _ helloCut _ .eof from rfl) "local" true .new

end AgentLab.Gateway
