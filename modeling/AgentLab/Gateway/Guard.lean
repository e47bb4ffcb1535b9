import AgentLab.Gateway.Summary
import AgentLab.Python.Float

/-!
# What the chunk guard is for

`_well_formed` stands between the backend and the code that reads its chunks. On what it accepts
none of the readers raises a `TypeError`, an `AttributeError` or a `KeyError` (`guard_suffices`):
the notes for the log, `public_chunk`, the test of `_stream`, `_collect`, and the request log line.
-/

namespace AgentLab.Gateway

open Python

/-! ## The request log line -/

/-- What `RequestRecord.write` gets from Python: `str(value)`, and `f"{value:.2f}"`. -/
structure Texts where
  text : Json → Except PyExc Str
  fixed : PyFloat → Str

/-- `fmt`. -/
def fmt (texts : Texts) : Json → Except PyExc Str
  | .null => .ok (str "-")
  | .bool b => .ok (if b then str "true" else str "false")
  | .float f => .ok (texts.fixed f)
  | v => texts.text v

/-- An integer, or `None`. -/
def optInt (n : Option ℤ) : Json := n.elim .null .int

/-- `fields`, with the time in the queue and the time since the start. -/
def RequestRecord.fields (record : RequestRecord) (queued : Option PyFloat) (duration : PyFloat) :
    Dict Json :=
  [(str "key", .str record.key), (str "status", .int record.status),
    (str "stream", record.stream.elim .null .bool), (str "effort", .str record.effort),
    (str "prompt_tokens", optInt record.promptTokens),
    (str "backend_prompt_tokens", record.backendPromptTokens),
    (str "cached_tokens", record.cachedTokens),
    (str "completion_tokens", record.completionTokens),
    (str "max_tokens", optInt record.maxTokens), (str "finish", record.finishReason),
    (str "queue_s", queued.elim .null .float), (str "duration_s", .float duration)]

/-- `"%d" % value`. -/
def percentD : Json → Except PyExc Str
  | .int n => .ok (intStr n)
  | .bool b => .ok (natStr b.toNat)
  | .float (.finite q) => .ok (intStr (if 0 ≤ q then ⌊q⌋ else ⌈q⌉))
  | .float .nan => .error .valueError
  | .float _ => .error .overflowError
  | _ => .error .typeError

/-- `RequestRecord.write`: the request log line, and the warning. `logging` would report what raises
while the warning is formatted. -/
def RequestRecord.write (texts : Texts) (record : RequestRecord) (queued : Option PyFloat)
    (duration : PyFloat) : Except PyExc (Str × Option Str) := do
  let shown ← (record.fields queued duration).mapM fun kv => do
    return kv.1 ++ str "=" ++ (← fmt texts kv.2)
  let line := join (str " ") shown
  match record.promptTokens, record.backendPromptTokens with
  | none, _ | _, .null => return (line, none)
  | some gateway, backend =>
    if equalsInt backend gateway then return (line, none)
    else
      return (line, some (str "prompt token count mismatch: gateway " ++ intStr gateway ++
        str ", backend " ++ (← percentD backend)))

/-! ## No such exception -/

/-- The exceptions of code that reads a value of another shape. -/
def misread : PyExc → Bool
  | .typeError | .attributeError | .keyError => true
  | _ => false

/-- It raises none of them. -/
def Safe {α : Type} (x : Except PyExc α) : Prop := ∀ e, x = .error e → misread e = false

variable {α β : Type} {texts : Texts} {record record' : RequestRecord}

theorem safe_ok (a : α) : Safe (.ok a : Except PyExc α) := nofun

theorem Safe.bind {x : Except PyExc α} {f : α → Except PyExc β} (hx : Safe x)
    (hf : ∀ a, Safe (f a)) : Safe (x >>= f) := by
  cases x with
  | ok a => exact hf a
  | error e =>
    intro e' he
    cases he
    exact hx e rfl

theorem Safe.mapM {f : α → Except PyExc β} (hf : ∀ a, Safe (f a)) :
    ∀ l : List α, Safe (l.mapM f)
  | [] => safe_ok _
  | a :: l => by
    rw [List.mapM_cons]
    exact (hf a).bind fun _ => (Safe.mapM hf l).bind fun _ => safe_ok _

theorem fmt_safe (htext : ∀ v, Safe (texts.text v)) (v : Json) : Safe (fmt texts v) := by
  cases v with
  | null | bool b | float f => exact safe_ok _
  | int n | str s | list l | obj o => exact htext _

/-- **The request log line** can be written if the backend's count is one. -/
theorem write_safe (htext : ∀ v, Safe (texts.text v))
    (hcount : isCount record.backendPromptTokens = true) (queued : Option PyFloat)
    (duration : PyFloat) : Safe (record.write texts queued duration) := by
  have hshown : ∀ kv : Str × Json, Safe (do
      return kv.1 ++ str "=" ++ (← fmt texts kv.2)) := fun kv =>
    (fmt_safe htext kv.2).bind fun _ => safe_ok _
  refine (Safe.mapM hshown _).bind fun shown => ?_
  cases hprompt : record.promptTokens with
  | none => exact safe_ok _
  | some gateway =>
    cases hbackend : record.backendPromptTokens with
    | null => exact safe_ok _
    | int n =>
      dsimp only
      split_ifs
      · exact safe_ok _
      · exact safe_ok _
    | _ =>
      rw [hbackend] at hcount
      cases hcount

/-! ## The notes -/

theorem noteUsage_count {usage : Json} (husage : usageOk usage = true)
    (h : noteUsage record usage = .ok record')
    (hcount : isCount record.backendPromptTokens = true) :
    isCount record'.backendPromptTokens = true := by
  unfold noteUsage at h
  split_ifs at h
  · cases usage with
    | obj o =>
      obtain ⟨prompt, hprompt, h⟩ := Except.bind_eq_ok.1 h
      obtain ⟨completion, -, h⟩ := Except.bind_eq_ok.1 h
      obtain ⟨details, -, h⟩ := Except.bind_eq_ok.1 h
      obtain ⟨cached, -, h⟩ := Except.bind_eq_ok.1 h
      cases h
      cases hprompt
      unfold usageOk at husage
      dsimp only at husage
      split at husage
      · exact List.all_eq_true.1 husage _ List.mem_cons_self
      · cases husage
    | _ => cases h
  · cases h
    exact hcount

theorem noteChoice_count {choice : Json} (h : noteChoice record choice = .ok record') :
    record'.backendPromptTokens = record.backendPromptTokens := by
  obtain ⟨reason, -, h⟩ := Except.bind_eq_ok.1 h
  cases h
  split_ifs <;> rfl

theorem foldlM_noteChoice_count {choices : List Json} :
    ∀ {record record' : RequestRecord}, choices.foldlM noteChoice record = .ok record' →
      record'.backendPromptTokens = record.backendPromptTokens := by
  induction choices with
  | nil =>
    intro record record' h
    cases h
    rfl
  | cons choice choices ih =>
    intro record record' h
    rw [List.foldlM_cons] at h
    obtain ⟨record₁, h₁, h⟩ := Except.bind_eq_ok.1 h
    exact (ih h).trans (noteChoice_count h₁)

theorem noteChunk_count {chunk : Dict Json} (hchunk : WellFormed chunk)
    (h : noteChunk record (.obj chunk) = .ok record')
    (hcount : isCount record.backendPromptTokens = true) :
    isCount record'.backendPromptTokens = true := by
  unfold noteChunk at h
  obtain ⟨usage, husage, h⟩ := Except.bind_eq_ok.1 h
  cases husage
  obtain ⟨record₁, h₁, h⟩ := Except.bind_eq_ok.1 h
  obtain ⟨_, -, h⟩ := Except.bind_eq_ok.1 h
  obtain ⟨choices, -, h⟩ := Except.bind_eq_ok.1 h
  rw [foldlM_noteChoice_count h]
  exact noteUsage_count hchunk.usage h₁ hcount

/-- Noting any sequence of well-formed chunks. -/
theorem foldlM_noteChunk_ok {chunks : List (Dict Json)} (h : ∀ c ∈ chunks, WellFormed c) :
    ∀ record : RequestRecord, isCount record.backendPromptTokens = true →
      ∃ record', (chunks.map .obj).foldlM noteChunk record = .ok record' ∧
        isCount record'.backendPromptTokens = true := by
  induction chunks with
  | nil => exact fun record hcount => ⟨record, rfl, hcount⟩
  | cons c chunks ih =>
    intro record hcount
    have hc := h c List.mem_cons_self
    obtain ⟨record₁, hnote, -⟩ := noteChunk_ok record hc
    obtain ⟨record', hrest, hcount'⟩ := ih (fun c' hc' => h c' (List.mem_cons_of_mem _ hc')) record₁
      (noteChunk_count hc hnote hcount)
    refine ⟨record', ?_, hcount'⟩
    rw [List.map_cons, List.foldlM_cons, hnote]
    exact hrest

/-! ## The readers -/

theorem exists_dicts : ∀ {vs : List Json}, (∀ v ∈ vs, wellFormed v = true) →
    ∃ chunks : List (Dict Json), vs = chunks.map .obj ∧ ∀ c ∈ chunks, WellFormed c
  | [], _ => ⟨[], rfl, nofun⟩
  | v :: vs, h => by
    obtain ⟨c, rfl, hc⟩ := wellFormed_obj (h v List.mem_cons_self)
    obtain ⟨chunks, rfl, hchunks⟩ := exists_dicts fun w hw => h w (List.mem_cons_of_mem _ hw)
    refine ⟨c :: chunks, rfl, fun c' hc' => ?_⟩
    rcases List.mem_cons.1 hc' with rfl | hc'
    · exact hc
    · exact hchunks c' hc'

/-- What the readers make of a sequence of chunks. -/
structure ReadsSafely (modelName : String) (texts : Texts) (chunks : List Json) : Prop where
  /-- The notes of `backend_chunks`, and the request log line after them. -/
  noted : ∀ record : RequestRecord, record.backendPromptTokens = .null →
    ∃ record', chunks.foldlM noteChunk record = .ok record' ∧
      ∀ queued duration, Safe (record'.write texts queued duration)
  /-- `_stream`. -/
  streamed : ∀ chunk ∈ chunks, (∃ b, usageOnly chunk = .ok b) ∧
    ∃ w, publicChunk modelName chunk = .ok w
  /-- `_collect`: the loop, what it has gathered, and the response. -/
  collected : ∃ acc, chunks.foldlM collectChunk .empty = .ok acc ∧
    (∀ part ∈ acc.content ++ acc.reasoning, isStr part = true) ∧
    (∀ call ∈ acc.toolCalls, isObj call = true) ∧
    (chunks ≠ [] → ∃ body, assemble modelName acc = .ok body)
  /-- The subscripts of the code stand behind a test of the same key. -/
  subscripts : ∀ (o : Dict Json) (key : Str), (getD o key).truthy = true →
    (Json.obj o).item key = .ok (getD o key)

/-- **The chunk guard is sufficient**: no reader of chunks that `_well_formed` accepts raises a
`TypeError`, an `AttributeError` or a `KeyError`, where `str(value)` of a value raises none. -/
theorem guard_suffices (modelName : String) (texts : Texts)
    (htext : ∀ v, Safe (texts.text v)) (chunks : List Json)
    (hchunks : ∀ v ∈ chunks, wellFormed v = true) : ReadsSafely modelName texts chunks := by
  obtain ⟨chunks, rfl, hwell⟩ := exists_dicts hchunks
  refine ⟨fun record hnull => ?_, fun v hv => ?_, ?_, fun o key h => item_of_truthy h⟩
  · obtain ⟨record', hnoted, hcount⟩ := foldlM_noteChunk_ok hwell record (by rw [hnull]; rfl)
    exact ⟨record', hnoted, write_safe htext hcount⟩
  · obtain ⟨c, hc, rfl⟩ := List.mem_map.1 hv
    exact ⟨⟨_, rfl⟩, _, publicChunk_eq (hwell c hc)⟩
  · refine ⟨_, foldlM_collectChunk_eq hwell .empty, fun part hpart => ?_, fun call hcall => ?_,
      fun hne => ?_⟩
    · rw [List.mem_append] at hpart
      rcases hpart with hpart | hpart
      · obtain ⟨s, -, rfl⟩ := List.mem_map.1 hpart
        rfl
      · obtain ⟨s, -, rfl⟩ := List.mem_map.1 hpart
        rfl
    · obtain ⟨o, -, rfl⟩ := List.mem_map.1 hcall
      rfl
    · have hne : chunks ≠ [] := fun h => hne (by rw [h]; rfl)
      have hfirst : Collected.empty.first = .null := rfl
      rw [hfirst, foldl_first hne]
      exact ⟨_, assemble_eq _ _ _ _ _ _⟩

/-- Python's texts; the log line of the chunks below has `str` of strings and integers only. -/
def shortTexts : Texts where
  text
    | .str s => .ok s
    | .int n => .ok (intStr n)
    | _ => .error .recursionError
  fixed
    | .finite q => str (fixedText 2 q)
    | .inf => str "inf"
    | .negInf => str "-inf"
    | .nan => str "nan"

/-- A chunk with a text, a tool call and a usage, and one with nothing in it. -/
theorem guard_suffices_hello : ReadsSafely "local" shortTexts [.obj helloChunk, .obj []] := by
  refine guard_suffices _ _ (fun v => ?_) _ fun v hv => ?_
  · cases v with
    | str | int => exact safe_ok _
    | _ => rintro _ ⟨⟩; rfl
  · rcases List.mem_pair.1 hv with rfl | rfl
    · decide +kernel
    · rfl

end AgentLab.Gateway
