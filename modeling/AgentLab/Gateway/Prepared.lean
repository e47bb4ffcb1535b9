import AgentLab.Config.Accepted
import AgentLab.Gateway.Translate

/-!
# What `prepare` returns

The inversion of `prepare` (`prepare_ok`), and the item of each key in the body that is forwarded,
from the one lemma for each reader that says which items it adds.
-/

namespace AgentLab.Gateway

open Python Config

variable {rt : Runtime} {rules : Rules} {body forward forward' : Dict Json}

/-- The value of a field that the client set. -/
def given (body : Dict Json) (key : Str) : Option Json :=
  match getD body key with
  | .null => none
  | v => some v

theorem given_null {key : Str} (h : getD body key = .null) : given body key = none := by
  unfold given
  rw [h]

theorem given_of_ne_null {key : Str} (h : getD body key ≠ .null) :
    given body key = some (getD body key) := by
  unfold given
  cases hv : getD body key with
  | null => exact absurd hv h
  | _ => rfl

/-! ## Inversion -/

/-- What the parts of an accepted request come from. -/
structure PreparedFrom (rt : Runtime) (rules : Rules) (body : Dict Json) (p : Prepared) : Prop where
  messages : checkMessages rt (getD body (str "messages")) = .ok p.messages
  tools : checkTools (getD body (str "tools")) (getD body (str "tool_choice")) = .ok p.tools
  requested : readRequested body [str "max_completion_tokens", str "max_tokens"] =
    .ok p.requestedMaxTokens
  forward : ∃ forward args,
    readFields rt body (forwardStart p.messages p.tools) = .ok forward ∧
    readEffort (getD body (str "reasoning_effort")) rules = .ok (p.effort, p.thinking, args) ∧
    p.body = forwardEnd forward args
      (if p.thinking then rules.thinkingSampling else rules.sampling) ∧
    p.templateArgs = Dict.merge [(THINKING_SWITCH, .bool rules.defaultThinking)] args

theorem prepare_ok {value : Json} {p : Prepared} (h : prepare rt value rules = .ok p) :
    ∃ body, value = .obj body ∧ PreparedFrom rt rules body p := by
  cases value with
  | obj body =>
    refine ⟨body, rfl, ?_⟩
    unfold prepare at h
    obtain ⟨_, -, h⟩ := Except.bind_eq_ok.1 h
    obtain ⟨messages, hmessages, h⟩ := Except.bind_eq_ok.1 h
    obtain ⟨tools, htools, h⟩ := Except.bind_eq_ok.1 h
    obtain ⟨stream, -, h⟩ := Except.bind_eq_ok.1 h
    obtain ⟨includeUsage, -, h⟩ := Except.bind_eq_ok.1 h
    obtain ⟨_, -, h⟩ := Except.bind_eq_ok.1 h
    obtain ⟨forward, hforward, h⟩ := Except.bind_eq_ok.1 h
    obtain ⟨requested, hrequested, h⟩ := Except.bind_eq_ok.1 h
    obtain ⟨⟨effort, thinking, args⟩, heffort, h⟩ := Except.bind_eq_ok.1 h
    cases h
    exact ⟨hmessages, htools, hrequested, forward, args, hforward, heffort, rfl, rfl⟩
  | _ => cases h

/-! ## The fields -/

/-- A reader that adds, if anything, the items of `passed` as the client set them, and those of
`others`. -/
def Reads (body : Dict Json) (passed others : List Str) (forward forward' : Dict Json) : Prop :=
  ∀ key ∉ others, Dict.get? forward' key =
    if key ∈ passed then (given body key).or (Dict.get? forward key) else Dict.get? forward key

theorem Reads.refl {others : List Str} : Reads body [] others forward forward := fun _ _ => rfl

theorem Reads.trans {passed passed' others others' : List Str} {forward'' : Dict Json}
    (h : Reads body passed others forward forward')
    (h' : Reads body passed' others' forward' forward'') :
    Reads body (passed ++ passed') (others ++ others') forward forward'' := by
  intro key hkey
  rw [List.mem_append, not_or] at hkey
  rw [h' key hkey.2, h key hkey.1]
  by_cases h₁ : key ∈ passed <;> by_cases h₂ : key ∈ passed' <;> simp [h₁, h₂, ← Option.or_assoc]

/-- A field that is passed on as it is. -/
theorem Reads.given {name : Str} {others : List Str}
    (h : given body name = none ∧ forward' = forward ∨
      ∃ v, given body name = some v ∧ forward' = Dict.set forward name v) :
    Reads body [name] others forward forward' := by
  intro key _
  rcases h with ⟨hnone, rfl⟩ | ⟨v, hv, rfl⟩
  · by_cases hk : key = name
    · subst hk; simp [hnone]
    · simp [hk]
  · rw [Dict.get?_set]
    by_cases hk : key = name
    · subst hk; simp [hv]
    · simp [hk, Ne.symm hk]

/-- A field of which a changed form may be passed on. -/
theorem Reads.other {name : Str}
    (h : forward' = forward ∨ ∃ v, forward' = Dict.set forward name v) :
    Reads body [] [name] forward forward' := by
  intro key hkey
  rw [List.mem_singleton] at hkey
  rcases h with rfl | ⟨v, rfl⟩
  · simp
  · rw [Dict.get?_set_of_ne _ _ (Ne.symm hkey)]; simp

theorem readNumber_reads {f : Str × ℚ × ℚ} (h : readNumber rt body forward f = .ok forward') :
    Reads body [f.1] [] forward forward' := by
  obtain ⟨name, low, high⟩ := f
  refine .given ?_
  unfold readNumber at h
  dsimp only at h
  split at h
  · next hnull => exact .inl ⟨given_null hnull, (Except.ok.inj h).symm⟩
  · next v hv =>
    obtain ⟨b, -, h⟩ := Except.bind_eq_ok.1 h
    split_ifs at h
    · exact .inr ⟨_, given_of_ne_null hv, (Except.ok.inj h).symm⟩
    · cases h

theorem foldlM_readNumber_reads {fs : List (Str × ℚ × ℚ)} :
    ∀ {forward forward' : Dict Json}, fs.foldlM (readNumber rt body) forward = .ok forward' →
      Reads body (fs.map Prod.fst) [] forward forward' := by
  induction fs with
  | nil =>
    intro forward forward' h
    cases h
    exact .refl
  | cons f fs ih =>
    intro forward forward' h
    rw [List.foldlM_cons] at h
    obtain ⟨forward₁, h₁, h₂⟩ := Except.bind_eq_ok.1 h
    exact (readNumber_reads h₁).trans (ih h₂)

theorem readTopK_reads (h : readTopK body forward = .ok forward') :
    Reads body [str "top_k"] [] forward forward' := by
  refine .given ?_
  unfold readTopK at h
  unfold AgentLab.Gateway.given
  split at h
  · next hnull => rw [hnull]; exact .inl ⟨rfl, (Except.ok.inj h).symm⟩
  · next n hn =>
    split_ifs at h
    · cases h
    · rw [hn]; exact .inr ⟨_, rfl, (Except.ok.inj h).symm⟩
  · cases h

theorem readSeed_reads (h : readSeed body forward = .ok forward') :
    Reads body [str "seed"] [] forward forward' := by
  refine .given ?_
  unfold readSeed at h
  unfold AgentLab.Gateway.given
  split at h
  · next hnull => rw [hnull]; exact .inl ⟨rfl, (Except.ok.inj h).symm⟩
  · next n hn => rw [hn]; exact .inr ⟨_, rfl, (Except.ok.inj h).symm⟩
  · cases h

theorem readStop_reads (h : readStop body forward = .ok forward') :
    Reads body [] [str "stop"] forward forward' := by
  refine .other ?_
  unfold readStop at h
  split at h
  · exact .inl (Except.ok.inj h).symm
  · dsimp only at h
    split_ifs at h
    · cases h
    · exact .inl (Except.ok.inj h).symm
    · exact .inr ⟨_, (Except.ok.inj h).symm⟩
  · dsimp only at h
    split_ifs at h
    · cases h
    · exact .inl (Except.ok.inj h).symm
    · exact .inr ⟨_, (Except.ok.inj h).symm⟩
  · cases h

theorem readLogitBias_reads (h : readLogitBias body forward = .ok forward') :
    Reads body [] [str "logit_bias"] forward forward' := by
  refine .other ?_
  unfold readLogitBias at h
  split at h
  · exact .inl (Except.ok.inj h).symm
  · obtain ⟨b, -, h⟩ := Except.bind_eq_ok.1 h
    split_ifs at h
    · cases h
    · exact .inl (Except.ok.inj h).symm
    · exact .inr ⟨_, (Except.ok.inj h).symm⟩
  · cases h

/-- The fields that are passed on as the client set them. -/
def passedFields : List Str := numberFields.map Prod.fst ++ [str "top_k", str "seed"]

theorem readFields_reads (h : readFields rt body forward = .ok forward') :
    Reads body passedFields [str "stop", str "logit_bias"] forward forward' := by
  unfold readFields at h
  obtain ⟨f₁, h₁, h⟩ := Except.bind_eq_ok.1 h
  obtain ⟨f₂, h₂, h⟩ := Except.bind_eq_ok.1 h
  obtain ⟨f₃, h₃, h⟩ := Except.bind_eq_ok.1 h
  obtain ⟨f₄, h₄, h₅⟩ := Except.bind_eq_ok.1 h
  exact ((((foldlM_readNumber_reads h₁).trans (readTopK_reads h₂)).trans (readSeed_reads h₃)).trans
    (readStop_reads h₄)).trans (readLogitBias_reads h₅)

/-! ## The whole body -/

theorem forwardStart_model (messages : List Json) (tools : Option (List Json)) :
    Dict.get? (forwardStart messages tools) (str "model") = some (.str BACKEND_MODEL) := by
  unfold forwardStart
  split <;> rfl

theorem forwardStart_messages (messages : List Json) (tools : Option (List Json)) :
    Dict.get? (forwardStart messages tools) (str "messages") = some (.list messages) := by
  unfold forwardStart
  split <;> rfl

theorem forwardStart_tools (messages : List Json) (tools : Option (List Json)) :
    Dict.get? (forwardStart messages tools) (str "tools") =
      match tools with
      | some (t :: ts) => some (.list (t :: ts))
      | _ => none := by
  rcases tools with _ | _ | ⟨t, ts⟩ <;> rfl

theorem forwardStart_of_notMem (messages : List Json) (tools : Option (List Json)) {key : Str}
    (h : key ∉ [str "model", str "messages", str "tools"]) :
    Dict.get? (forwardStart messages tools) key = none := by
  simp only [List.mem_cons, List.not_mem_nil, or_false, not_or] at h
  obtain ⟨hmodel, hmessages, htools⟩ := h
  unfold forwardStart
  split
  · rw [Dict.get?_set_of_ne _ _ (Ne.symm htools), Dict.get?_cons, if_neg (Ne.symm hmodel),
      Dict.get?_cons, if_neg (Ne.symm hmessages), Dict.get?_nil]
  · rw [Dict.get?_cons, if_neg (Ne.symm hmodel), Dict.get?_cons, if_neg (Ne.symm hmessages),
      Dict.get?_nil]

theorem get?_foldl_setdefault (d e : Dict Json) (key : Str) :
    Dict.get? (e.foldl (fun d kv => Dict.setdefault d kv.1 kv.2) d) key =
      (Dict.get? d key).or (Dict.get? e key) := by
  induction e generalizing d with
  | nil => simp
  | cons kv e ih =>
    obtain ⟨k, v⟩ := kv
    rw [List.foldl_cons, ih, Dict.get?_setdefault, Dict.get?_cons]
    by_cases hk : k = key
    · subst hk
      cases Dict.get? d k <;> simp
    · simp [hk]

theorem get?_forwardEnd (forward args : Dict Json) (s : Sampling) (key : Str) :
    Dict.get? (forwardEnd forward args s) key =
      if str "stream_options" = key then some (.obj [(str "include_usage", .bool true)])
      else if str "stream" = key then some (.bool true)
      else ((if str "chat_template_kwargs" = key ∧ args ≠ [] then some (.obj args)
        else Dict.get? forward key)).or (Dict.get? s.asDict key) := by
  unfold forwardEnd
  dsimp only
  rw [Dict.get?_set, Dict.get?_set, get?_foldl_setdefault]
  congr 3
  cases args with
  | nil => simp
  | cons a args => simp [Dict.get?_set]

/-- The chat template arguments that are sent switch to the mode that `_effort` returns. -/
theorem readEffort_switch {value : Json} {effort : Str} {thinking : Bool} {args : Dict Json}
    (hvar : rules.effortVariable ≠ some THINKING_SWITCH)
    (h : readEffort value rules = .ok (effort, thinking, args)) :
    getD (Dict.merge [(THINKING_SWITCH, .bool rules.defaultThinking)] args) THINKING_SWITCH =
      .bool thinking := by
  unfold readEffort at h
  split at h
  · cases h; rfl
  · split at h
    · cases h
      cases rules.defaultThinking <;> rfl
    · split at h
      · next level _ =>
        cases h
        split
        · next c cs hv =>
          have hne : c :: cs ≠ THINKING_SWITCH := fun e => hvar (by rw [hv, e])
          have hset : Dict.set [(THINKING_SWITCH, .bool true)] (c :: cs) (.str level) =
              [(THINKING_SWITCH, .bool true), (c :: cs, Json.str level)] := if_neg (Ne.symm hne)
          show (Dict.get? (Dict.merge _ (Dict.set _ _ _)) _).getD _ = _
          rw [hset]
          show (Dict.get? (Dict.set (Dict.set _ _ _) _ _) _).getD _ = _
          rw [Dict.get?_set_of_ne _ _ hne, Dict.get?_set_self]
          rfl
        · rfl
      · cases h
  · cases h

/-! ## A request -/

/-- Enough of the runtime for a request without tool calls, with an ASCII chat template. -/
def Runtime.plain : Runtime :=
  ⟨fun _ => .error .valueError, fun _ => .ok [], fun _ => .ok [], fun _ => [], fun _ => false⟩

/-- A chat template with an effort argument. -/
def effortTemplate : Str := str "set level = reasoning_effort if enable_thinking"

def effortRequest : Json :=
  .obj [(str "model", .str (str "qwen3-0.6b")),
    (str "messages", .list [.obj [(str "role", .str (str "developer")),
      (str "content", .str (str "Hi"))]]),
    (str "temperature", .float (.finite 1)), (str "max_tokens", .int 4000),
    (str "reasoning_effort", .str (str "high"))]

theorem prepare_effortRequest_isSome :
    (prepare .plain effortRequest
      (rulesFor .plain ciTinyProfile effortTemplate)).toOption.isSome = true := by
  decide +kernel

/-- The request is accepted. -/
theorem prepare_effortRequest :
    ∃ p, prepare .plain effortRequest (rulesFor .plain ciTinyProfile effortTemplate) = .ok p := by
  have h := prepare_effortRequest_isSome
  cases hp : prepare .plain effortRequest (rulesFor .plain ciTinyProfile effortTemplate) with
  | ok p => exact ⟨p, rfl⟩
  | error e => rw [hp] at h; cases h

end AgentLab.Gateway
