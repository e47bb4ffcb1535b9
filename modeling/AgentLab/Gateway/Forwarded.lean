import AgentLab.Gateway.Prepared
import AgentLab.Python.Render

/-!
# What a client controls

`prepare` reads the documented fields of a body and nothing else (`prepare_congr`), so that two
bodies that agree on them have one outcome. What an accepted body is forwarded as (`Forwards`):
the gateway's own model, streaming with usage reporting, template arguments for the effort, the
client's messages with the role `developer` renamed, and no other keys than those that are known.
-/

namespace AgentLab.Gateway

open Python Config

variable {rt : Runtime} {rules : Rules} {body body' : Dict Json}

/-- The fields of a request that the gateway documents. -/
def documentedFields : List Str :=
  [str "model", str "messages", str "tools", str "tool_choice", str "stream", str "stream_options",
    str "n", str "temperature", str "top_p", str "min_p", str "presence_penalty",
    str "frequency_penalty", str "repetition_penalty", str "top_k", str "seed", str "stop",
    str "logit_bias", str "max_completion_tokens", str "max_tokens", str "reasoning_effort"]

/-- The two bodies have the same values there. -/
def AgreeOn (keys : List Str) (body body' : Dict Json) : Prop :=
  ∀ key ∈ keys, Dict.get? body key = Dict.get? body' key

/-! ## Two bodies -/

section

variable {keys : List Str} (h : AgreeOn keys body body')
include h

theorem AgreeOn.getD_eq {key : Str} (hkey : key ∈ keys) : getD body key = getD body' key := by
  unfold getD
  rw [h key hkey]

theorem AgreeOn.readNumber_eq {f : Str × ℚ × ℚ} (hf : f.1 ∈ keys) (forward : Dict Json) :
    readNumber rt body forward f = readNumber rt body' forward f := by
  obtain ⟨name, low, high⟩ := f
  unfold readNumber
  dsimp only
  rw [h.getD_eq hf]

theorem AgreeOn.readNumbers_eq {fs : List (Str × ℚ × ℚ)} (hfs : ∀ f ∈ fs, f.1 ∈ keys) :
    ∀ forward : Dict Json, fs.foldlM (readNumber rt body) forward =
      fs.foldlM (readNumber rt body') forward := by
  induction fs with
  | nil => exact fun _ => rfl
  | cons f fs ih =>
    intro forward
    obtain ⟨hf, hfs⟩ := List.forall_mem_cons.1 hfs
    rw [List.foldlM_cons, List.foldlM_cons, h.readNumber_eq hf]
    exact congrArg (_ >>= ·) (funext (ih hfs))

theorem AgreeOn.readRequested_eq {names : List Str} (hnames : ∀ name ∈ names, name ∈ keys) :
    readRequested body names = readRequested body' names := by
  induction names with
  | nil => rfl
  | cons name names ih =>
    obtain ⟨hname, hnames⟩ := List.forall_mem_cons.1 hnames
    unfold readRequested
    rw [h.getD_eq hname, ih hnames]

end

theorem AgreeOn.readFields_eq (h : AgreeOn documentedFields body body') (forward : Dict Json) :
    readFields rt body forward = readFields rt body' forward := by
  have htopK : getD body (str "top_k") = getD body' (str "top_k") := h.getD_eq (by decide)
  have hseed : getD body (str "seed") = getD body' (str "seed") := h.getD_eq (by decide)
  have hstop : getD body (str "stop") = getD body' (str "stop") := h.getD_eq (by decide)
  have hbias : getD body (str "logit_bias") = getD body' (str "logit_bias") := h.getD_eq (by decide)
  unfold readFields readTopK readSeed readStop readLogitBias
  rw [h.readNumbers_eq (by decide), htopK, hseed, hstop, hbias]

/-- **Only the documented fields are read.** -/
theorem prepare_congr (h : AgreeOn documentedFields body body') :
    prepare rt (.obj body) rules = prepare rt (.obj body') rules := by
  have hmodel : getD body (str "model") = getD body' (str "model") := h.getD_eq (by decide)
  have hmessages : getD body (str "messages") = getD body' (str "messages") := h.getD_eq (by decide)
  have htools : getD body (str "tools") = getD body' (str "tools") := h.getD_eq (by decide)
  have hchoice : getD body (str "tool_choice") = getD body' (str "tool_choice") :=
    h.getD_eq (by decide)
  have hstream : getD body (str "stream") = getD body' (str "stream") := h.getD_eq (by decide)
  have hoptions : getD body (str "stream_options") = getD body' (str "stream_options") :=
    h.getD_eq (by decide)
  have hn : getD body (str "n") = getD body' (str "n") := h.getD_eq (by decide)
  have heffort : getD body (str "reasoning_effort") = getD body' (str "reasoning_effort") :=
    h.getD_eq (by decide)
  unfold prepare
  simp only [h.readFields_eq]
  rw [h.readRequested_eq (by decide), hmodel, hmessages, htools, hchoice, hstream, hoptions, hn,
    heffort]

/-! ## An accepted body -/

theorem encodable_numberFields : ∀ f ∈ numberFields, encodable f.1 = true := by
  simp [numberFields, encodable_str]

/-- The keys of a forwarded body. -/
def forwardedFields : List Str :=
  str "chat_template_kwargs" :: documentedFields.filter fun key =>
    key ∉ [str "tool_choice", str "n", str "max_completion_tokens", str "max_tokens",
      str "reasoning_effort"]

/-- A message as it is forwarded. -/
def asSystem : Json → Json
  | .obj o => .obj (if isText (getD o (str "role")) "developer"
      then Dict.set o (str "role") (.str (str "system")) else o)
  | message => message

/-- A template argument that the effort asks for. -/
def EffortArgument (rules : Rules) (value : Json) (thinking : Bool) (arg : Str × Json) : Prop :=
  arg = (THINKING_SWITCH, .bool thinking) ∨
    ∃ name s level, rules.effortVariable = some name ∧ value = .str s ∧
      Dict.get? EFFORT_LEVELS s = some level ∧ arg = (name, .str level)

/-- What an accepted body is forwarded as. -/
structure Forwards (rules : Rules) (body : Dict Json) (p : Prepared) : Prop where
  model : Dict.get? p.body (str "model") = some (.str BACKEND_MODEL)
  stream : Dict.get? p.body (str "stream") = some (.bool true)
  usage : Dict.get? p.body (str "stream_options") =
    some (.obj [(str "include_usage", .bool true)])
  templateArgs : ∃ args,
    readEffort (getD body (str "reasoning_effort")) rules = .ok (p.effort, p.thinking, args) ∧
    Dict.get? p.body (str "chat_template_kwargs") =
      (if args = [] then none else some (.obj args)) ∧
    ∀ arg ∈ args, EffortArgument rules (getD body (str "reasoning_effort")) p.thinking arg
  keys : ∀ item ∈ p.body, item.1 ∈ forwardedFields
  messages : ∃ client, getD body (str "messages") = .list client ∧
    Dict.get? p.body (str "messages") = some (.list (client.map asSystem))

theorem checkMessage_ok {message v : Json} {i : ℕ} (h : checkMessage rt message i = .ok v) :
    v = asSystem message := by
  cases message with
  | obj o =>
    obtain ⟨known, -, h⟩ := Except.bind_eq_ok.1 h
    by_cases hknown : (!known) = true
    · rw [if_pos hknown] at h
      cases h
    · rw [if_neg hknown] at h
      obtain ⟨_, -, h⟩ := Except.bind_eq_ok.1 h
      obtain ⟨_, -, h⟩ := Except.bind_eq_ok.1 h
      exact (Except.ok.inj h).symm
  | _ => cases h

theorem mapM_checkMessage_ok {messages vs : List Json} {n : ℕ}
    (h : ((messages.zipIdx n).mapM fun (message, i) => checkMessage rt message i) = .ok vs) :
    vs = messages.map asSystem := by
  induction messages generalizing n vs with
  | nil =>
    cases h
    rfl
  | cons message messages ih =>
    rw [List.zipIdx_cons, List.mapM_cons] at h
    obtain ⟨v, hv, h⟩ := Except.bind_eq_ok.1 h
    obtain ⟨vs, hvs, h⟩ := Except.bind_eq_ok.1 h
    cases h
    rw [List.map_cons, ← checkMessage_ok hv, ih hvs]

theorem checkMessages_ok {value : Json} {vs : List Json} (h : checkMessages rt value = .ok vs) :
    ∃ client, value = .list client ∧ vs = client.map asSystem := by
  unfold checkMessages at h
  split at h
  · next m ms => exact ⟨m :: ms, rfl, mapM_checkMessage_ok h⟩
  · cases h

theorem readEffort_args {value : Json} {effort : Str} {thinking : Bool} {args : Dict Json}
    (h : readEffort value rules = .ok (effort, thinking, args)) :
    ∀ arg ∈ args, EffortArgument rules value thinking arg := by
  intro arg harg
  cases value with
  | null =>
    cases h
    cases harg
  | str s =>
    unfold readEffort at h
    dsimp only at h
    split_ifs at h
    · cases h
      exact .inl (List.mem_singleton.1 harg)
    · cases h
      cases harg
    · cases hlevel : Dict.get? EFFORT_LEVELS s with
      | none =>
        rw [hlevel] at h
        cases h
      | some level =>
        rw [hlevel] at h
        cases h
        split at harg
        · next c cs hvar =>
          rcases mem_set harg with rfl | harg
          · exact .inr ⟨c :: cs, _, level, hvar, rfl, hlevel, rfl⟩
          · exact .inl (List.mem_singleton.1 harg)
        · exact .inl (List.mem_singleton.1 harg)
  | _ => cases h

/-- A key that is none of the known ones is not in the forwarded body. -/
theorem PreparedFrom.get?_of_notMem {p : Prepared} (h : PreparedFrom rt rules body p) {key : Str}
    (hkey : key ∉ forwardedFields) : Dict.get? p.body key = none := by
  obtain ⟨forward, args, hfields, -, hbody, -⟩ := h.forward
  have hne : ∀ known ∈ forwardedFields, known ≠ key := fun known hknown he => hkey (he ▸ hknown)
  have hnot : ∀ keys : List Str, (∀ k ∈ keys, k ∈ forwardedFields) → key ∉ keys :=
    fun keys hsub hmem => hkey (hsub key hmem)
  rw [hbody, get?_forwardEnd, if_neg (hne _ (by decide)), if_neg (hne _ (by decide)),
    if_neg (fun hc => hne _ (by decide) hc.1), readFields_reads hfields key (hnot _ (by decide)),
    if_neg (hnot passedFields (by decide)), forwardStart_of_notMem _ _ (hnot _ (by decide))]
  rw [Sampling.asDict, Dict.get?_cons, if_neg (hne _ (by decide)), Dict.get?_cons,
    if_neg (hne _ (by decide)), Dict.get?_cons, if_neg (hne _ (by decide))]
  rfl

theorem PreparedFrom.forwards {p : Prepared} (h : PreparedFrom rt rules body p) :
    Forwards rules body p := by
  have hkeys : ∀ item ∈ p.body, item.1 ∈ forwardedFields := by
    intro item hitem
    by_contra hnot
    exact (Dict.get?_eq_none _ _).1 (h.get?_of_notMem hnot) (List.mem_map_of_mem hitem)
  obtain ⟨forward, args, hfields, heffort, hbody, -⟩ := h.forward
  obtain ⟨client, hclient, hmessages⟩ := checkMessages_ok h.messages
  refine ⟨?_, ?_, ?_, ⟨args, heffort, ?_, readEffort_args heffort⟩, hkeys,
    client, hclient, ?_⟩
  · rw [hbody, get?_forwardEnd, if_neg (by decide), if_neg (by decide),
      if_neg (fun hc => absurd hc.1 (by decide)), readFields_reads hfields _ (by decide),
      if_neg (by decide), forwardStart_model]
    rfl
  · rw [hbody, get?_forwardEnd, if_neg (by decide), if_pos rfl]
  · rw [hbody, get?_forwardEnd, if_pos rfl]
  · rw [hbody, get?_forwardEnd, if_neg (by decide), if_neg (by decide),
      readFields_reads hfields _ (by decide),
      if_neg (show str "chat_template_kwargs" ∉ passedFields by decide),
      forwardStart_of_notMem _ _ (by decide)]
    by_cases hargs : args = []
    · rw [if_neg (fun hc => hc.2 hargs), if_pos hargs]
      rfl
    · rw [if_pos ⟨rfl, hargs⟩, if_neg hargs]
      rfl
  · rw [hbody, get?_forwardEnd, if_neg (by decide), if_neg (by decide),
      if_neg (fun hc => absurd hc.1 (by decide)), readFields_reads hfields _ (by decide),
      if_neg (by decide), forwardStart_messages, hmessages]
    rfl

/-- **A client controls only the documented fields.** Bodies that agree on them have one outcome,
and an accepted body is forwarded as `Forwards` says. -/
theorem documented_fields_only (rt : Runtime) (rules : Rules) :
    (∀ body body', AgreeOn documentedFields body body' →
      prepare rt (.obj body) rules = prepare rt (.obj body') rules) ∧
    ∀ value p, prepare rt value rules = .ok p → ∃ body, value = .obj body ∧ Forwards rules body p :=
  ⟨fun _ _ h => prepare_congr h, fun _ _ h =>
    let ⟨body, hvalue, hp⟩ := prepare_ok h
    ⟨body, hvalue, hp.forwards⟩⟩

/-- The body with a field of the backend's own, which would make it load other weights. -/
def withAdapters (body : Dict Json) : Dict Json :=
  (str "adapters", .str (str "/tmp/weights")) :: body

theorem agreeOn_withAdapters (body : Dict Json) :
    AgreeOn documentedFields (withAdapters body) body := by
  intro key hkey
  have hne : str "adapters" ≠ key := by
    rintro rfl
    exact absurd hkey (by decide)
  rw [withAdapters, Dict.get?_cons, if_neg hne]

theorem documented_fields_only_effort :
    ∃ body p, effortRequest = .obj body ∧
      prepare .plain (.obj (withAdapters body))
        (rulesFor .plain ciTinyProfile effortTemplate) = .ok p ∧
      Forwards (rulesFor .plain ciTinyProfile effortTemplate) body p := by
  obtain ⟨p, hp⟩ := prepare_effortRequest
  have hall := documented_fields_only .plain (rulesFor .plain ciTinyProfile effortTemplate)
  obtain ⟨body, hbody, hforwards⟩ := hall.2 effortRequest p hp
  rw [hbody] at hp
  exact ⟨body, p, hbody, (hall.1 _ _ (agreeOn_withAdapters body)).trans hp, hforwards⟩

end AgentLab.Gateway
