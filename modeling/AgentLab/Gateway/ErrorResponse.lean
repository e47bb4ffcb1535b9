import AgentLab.Gateway.Refusals
import AgentLab.Gateway.Forwarded
import AgentLab.Gateway.Chat

/-!
# Refusals on their way to the client

The `ApiError` that `prepare` or `limit` raises, from `chat` to the client: `error_response` puts it
into a `JSONResponse`, which has to encode its texts. These quote what the client sent. `repr`
escapes what cannot be encoded, but the text for an unknown model quotes the model as it is: so a
refusal reaches the client if and only if the model is not a string with a lone surrogate
(`refusal_reaches_client_iff`).
-/

open Checks

namespace AgentLab.Gateway

open Python Config

/-- A response: its status, its headers and its body. -/
structure JSONResponse where
  status : ℕ
  headers : List (Str × Str)
  body : Json

/-- `error_response`; a `JSONResponse` renders its body with `allow_nan=False` and encodes it. -/
def errorResponse (error : ApiError) : Except PyExc JSONResponse :=
  let headers :=
    if error.status = 401 then [(str "WWW-Authenticate", str "Bearer")]
    else if error.status = 429 then [(str "Retry-After", natStr RETRY_AFTER_SECONDS)]
    else []
  if renders false error.body then .ok ⟨error.status, headers, error.body⟩
  else .error .unicodeEncodeError

/-- What the client gets, and the status in the request log line. -/
structure Refused where
  /-- Without a response Starlette answers with a text of its own and status 500. -/
  response : Option JSONResponse
  logged : ℕ

/-- `except ApiError` of `chat`. -/
def refuse (error : ApiError) : Refused := ⟨(errorResponse error).toOption, error.status⟩

/-- The client gets the error that it is: its status, and a body with its message, type, param and
code. -/
def Refused.tells (refused : Refused) (error : ApiError) : Prop :=
  refused.logged = error.status ∧ ∃ response, refused.response = some response ∧
    response.status = error.status ∧
    response.body = .obj [(str "error", .obj [(str "message", .str error.message),
      (str "type", .str error.type), (str "param", optStr error.param),
      (str "code", optStr error.code)])]

variable (rt : Runtime)

/-- The error is raised for a body: by `prepare`, or by `limit` for a number of prompt tokens. -/
def ChatRaises (rules : Rules) (body : Json) (error : ApiError) : Prop :=
  prepare rt body rules = .error (.own error) ∨
    ∃ prepared promptTokens, prepare rt body rules = .ok prepared ∧
      limit promptTokens prepared.requestedMaxTokens rules.limits = .error error

/-- How Python quotes values: an f-string takes a string as it is; all other texts hold no
surrogates, since `repr` escapes them. -/
structure Runtime.Quotes : Prop where
  text_str : ∀ s, rt.text (.str s) = .ok s
  text : ∀ v s, isStr v = false → rt.text v = .ok s → encodable s = true
  repr : ∀ v s, rt.repr v = .ok s → encodable s = true
  floatText : ∀ f, encodable (rt.floatText f) = true

/-! ## Errors that can be sent -/

/-- The texts of the error can be encoded. -/
structure ApiError.Plain (e : ApiError) : Prop where
  message : encodable e.message = true
  code : ∀ s, e.code = some s → encodable s = true
  param : ∀ s, e.param = some s → encodable s = true
  type : encodable e.type = true

/-- The error is one that can be sent, or a built-in exception. -/
def Sendable : Raised ApiError → Prop
  | .own e => e.Plain
  | .builtin _ => True

variable {rt}

theorem renders_optStr {s : Option Str} :
    renders false (optStr s) = true ↔ ∀ t, s = some t → encodable t = true := by
  cases s with
  | none => simp [optStr, renders]
  | some t => simp [optStr, renders]

theorem renders_body {e : ApiError} : renders false e.body = true ↔ e.Plain := by
  unfold ApiError.body
  rw [renders_obj_cons (encodable_str _), renders_obj_cons (encodable_str _),
    renders_obj_cons (encodable_str _), renders_obj_cons (encodable_str _),
    renders_obj_cons (encodable_str _), renders_optStr, renders_optStr]
  constructor
  · rintro ⟨⟨hmessage, htype, hparam, hcode, -⟩, -⟩
    exact ⟨hmessage, hcode, hparam, htype⟩
  · exact fun h => ⟨⟨h.message, h.type, h.param, h.code, rfl⟩, rfl⟩

theorem tells_iff {e : ApiError} : (refuse e).tells e ↔ e.Plain := by
  rw [← renders_body]
  unfold refuse Refused.tells errorResponse
  dsimp only
  by_cases h : renders false e.body = true
  · rw [if_pos h]
    exact ⟨fun _ => h, fun _ => ⟨rfl, _, rfl, rfl, rfl⟩⟩
  · rw [if_neg h]
    refine ⟨?_, fun h' => absurd h' h⟩
    rintro ⟨-, response, hresponse, -⟩
    cases hresponse

/-! ## Every check but that of the model -/

theorem encodable_natStr (n : ℕ) : encodable (natStr n) = true := encodable_str _

theorem encodable_intStr (n : ℤ) : encodable (intStr n) = true := encodable_str _

variable {α : Type} {loc : Str} {rules : Rules} {body forward : Dict Json}

theorem errors_bad {message : Str} {param : Option Str} (hmessage : encodable message = true)
    (hparam : ∀ s, param = some s → encodable s = true) :
    Errors Sendable (bad message param : Api α) := by
  refine Errors.error ⟨hmessage, fun s hs => ?_, hparam, encodable_str _⟩
  cases param with
  | none => cases hs
  | some p =>
    cases hs
    exact encodable_str _

/-- An error whose param is a literal. -/
theorem errors_bad_str {message : Str} {param : String} (hmessage : encodable message = true) :
    Errors Sendable (bad message (some (str param)) : Api α) :=
  errors_bad hmessage fun _ hs => by
    cases hs
    exact encodable_str _

theorem errors_liftPy (x : Except PyExc α) : Errors Sendable (liftPy x) := by
  cases x with
  | error e => exact Errors.error trivial
  | ok a => exact Errors.pure a

theorem errors_checkPart (hrt : rt.Quotes) (hloc : encodable loc = true) (part : Json) (j : ℕ) :
    Errors Sendable (checkPart rt loc part j) := by
  have hparam : ∀ s, some (loc ++ str ".content") = some s → encodable s = true := by
    rintro _ ⟨⟩
    exact encodable_append.2 ⟨hloc, encodable_str _⟩
  unfold checkPart
  dsimp only
  split_ifs
  · refine (errors_liftPy _).bind fun shown hshown => errors_bad ?_ hparam
    have hquote : encodable shown = true := by
      cases hrepr : rt.repr (field part "type") with
      | error x =>
        rw [hrepr] at hshown
        cases hshown
      | ok s =>
        rw [hrepr] at hshown
        cases hshown
        exact hrt.repr _ _ hrepr
    simp only [encodable_append, encodable_str, encodable_natStr, hloc, hquote, and_self]
  · refine errors_bad ?_ hparam
    simp only [encodable_append, encodable_str, encodable_natStr, hloc, and_self]
  · exact Errors.pure ()

theorem errors_checkContent (hrt : rt.Quotes) (hloc : encodable loc = true) (content : Json) :
    Errors Sendable (checkContent rt content loc) := by
  have hbad : Errors Sendable (bad (loc ++ str ".content must be a string or a list of parts")
      (loc ++ str ".content") : Api Unit) := by
    refine errors_bad (encodable_append.2 ⟨hloc, encodable_str _⟩) ?_
    rintro _ ⟨⟩
    exact encodable_append.2 ⟨hloc, encodable_str _⟩
  cases content with
  | null => exact Errors.pure ()
  | str => exact Errors.pure ()
  | list parts => exact Errors.forM (fun _ => errors_checkPart hrt hloc _ _) _
  | bool | int | float | obj => exact hbad

theorem errors_checkToolCall (hloc : encodable loc = true) (call : Json) (j : ℕ) :
    Errors Sendable (checkToolCall rt loc call j) := by
  have hbad (s : String) : Errors Sendable (bad (loc ++ str ".tool_calls[" ++ natStr j ++ str "]" ++
      str s) (loc ++ str ".tool_calls") : Api Unit) := by
    refine errors_bad ?_ ?_
    · simp only [encodable_append, encodable_str, encodable_natStr, hloc, and_self]
    · rintro _ ⟨⟩
      exact encodable_append.2 ⟨hloc, encodable_str _⟩
  unfold checkToolCall
  dsimp only
  split_ifs
  · exact hbad _
  · split
    · exact Errors.pure ()
    · exact Errors.pure ()
    · split
      · exact Errors.pure ()
      · exact hbad _
      · exact Errors.error trivial
    · exact hbad _

theorem errors_checkToolCalls (hloc : encodable loc = true) (calls : Json) :
    Errors Sendable (checkToolCalls rt calls loc) := by
  have hbad : Errors Sendable (bad (loc ++ str ".tool_calls must be a list")
      (loc ++ str ".tool_calls") : Api Unit) := by
    refine errors_bad (encodable_append.2 ⟨hloc, encodable_str _⟩) ?_
    rintro _ ⟨⟩
    exact encodable_append.2 ⟨hloc, encodable_str _⟩
  cases calls with
  | null => exact Errors.pure ()
  | list calls => exact Errors.forM (fun _ => errors_checkToolCall hloc _ _) _
  | bool | int | float | str | obj => exact hbad

theorem errors_checkMessage (hrt : rt.Quotes) (message : Json) (i : ℕ) :
    Errors Sendable (checkMessage rt message i) := by
  have hloc : encodable (str "messages[" ++ natStr i ++ str "]") = true := by
    simp only [encodable_append, encodable_str, encodable_natStr, and_self]
  cases message with
  | obj o =>
    refine (errors_liftPy _).bind fun known _ => ?_
    cases known with
    | false =>
      refine errors_bad_str ?_
      simp only [encodable_append, encodable_str, hloc, and_self]
    | true =>
      exact (errors_checkContent hrt hloc _).bind fun _ _ =>
        (errors_checkToolCalls hloc _).bind fun _ _ => Errors.pure _
  | null | bool | int | float | str | list =>
    exact errors_bad_str (encodable_append.2 ⟨hloc, encodable_str _⟩)

theorem errors_checkMessages (hrt : rt.Quotes) (value : Json) :
    Errors Sendable (checkMessages rt value) := by
  unfold checkMessages
  split
  · exact Errors.mapM (fun _ => errors_checkMessage hrt _ _) _
  · exact errors_bad_str (encodable_str _)

theorem errors_checkTool (tool : Json) (i : ℕ) : Errors Sendable (checkTool tool i) := by
  unfold checkTool
  dsimp only
  split_ifs
  · exact Errors.pure ()
  · refine errors_bad_str ?_
    simp only [encodable_append, encodable_str, encodable_natStr, and_self]

theorem errors_checkTools (value toolChoice : Json) :
    Errors Sendable (checkTools value toolChoice) := by
  unfold checkTools
  split
  · exact Errors.pure _
  · exact Errors.pure _
  · exact (Errors.forM (fun _ => errors_checkTool _ _) _).bind fun _ _ => Errors.pure _
  · exact errors_bad_str (encodable_str _)

theorem errors_readEffort (value : Json) : Errors Sendable (readEffort value rules) := by
  unfold readEffort
  split
  · exact Errors.pure _
  · split_ifs
    · exact Errors.pure _
    · exact Errors.pure _
    · split
      · exact Errors.pure _
      · exact errors_bad_str (encodable_str _)
  · exact errors_bad_str (encodable_str _)

theorem errors_readStream (value : Json) : Errors Sendable (readStream value) := by
  cases value with
  | null | bool => exact Errors.pure _
  | int | float | str | list | obj => exact errors_bad_str (encodable_str _)

theorem errors_readIncludeUsage (value : Json) : Errors Sendable (readIncludeUsage value) := by
  cases value with
  | null | obj => exact Errors.pure _
  | bool | int | float | str | list => exact errors_bad_str (encodable_str _)

theorem errors_checkN (n : Json) : Errors Sendable (checkN n) := by
  unfold checkN
  split
  · exact Errors.pure ()
  · split_ifs
    · exact Errors.pure ()
    · exact errors_bad_str (encodable_str _)

theorem errors_readNumber (hrt : rt.Quotes) {f : Str × ℚ × ℚ} (hf : encodable f.1 = true) :
    Errors Sendable (readNumber rt body forward f) := by
  unfold readNumber
  dsimp only
  split
  · exact Errors.pure _
  · refine (errors_liftPy _).bind fun number _ => ?_
    split_ifs
    · exact Errors.pure _
    · refine errors_bad ?_ ?_
      · simp only [encodable_append, encodable_str, hf, hrt.floatText, and_self]
      · rintro _ ⟨⟩
        exact hf

theorem errors_readTopK : Errors Sendable (readTopK body forward) := by
  unfold readTopK
  dsimp only
  split
  · exact Errors.pure _
  · split_ifs
    · exact errors_bad_str (encodable_str _)
    · exact Errors.pure _
  · exact errors_bad_str (encodable_str _)

theorem errors_readSeed : Errors Sendable (readSeed body forward) := by
  unfold readSeed
  split
  · exact Errors.pure _
  · exact Errors.pure _
  · exact errors_bad_str (encodable_str _)

theorem errors_readStop : Errors Sendable (readStop body forward) := by
  have hcheck (stop : List Json) : Errors Sendable
      (if !stop.all fun s => isStr s && s.truthy then
        bad (str "stop must be a string or a list of strings") (str "stop")
      else if stop.isEmpty then .ok forward
      else .ok (Dict.set forward (str "stop") (.list stop)) : Api (Dict Json)) := by
    split_ifs
    · exact errors_bad_str (encodable_str _)
    · exact Errors.pure _
    · exact Errors.pure _
  unfold readStop
  dsimp only
  split
  · exact Errors.pure _
  · exact hcheck _
  · exact hcheck _
  · exact errors_bad_str (encodable_str _)

theorem errors_readLogitBias : Errors Sendable (readLogitBias body forward) := by
  unfold readLogitBias
  split
  · exact Errors.pure _
  · refine (errors_liftPy _).bind fun ok _ => ?_
    split_ifs
    · exact errors_bad_str (encodable_str _)
    · exact Errors.pure _
    · exact Errors.pure _
  · exact errors_bad_str (encodable_str _)

theorem errors_readFields (hrt : rt.Quotes) : Errors Sendable (readFields rt body forward) :=
  (Errors.foldlM (fun _ f hf => errors_readNumber hrt (encodable_numberFields f hf)) _).bind
    fun _ _ => errors_readTopK.bind fun _ _ => errors_readSeed.bind fun _ _ =>
    errors_readStop.bind fun _ _ => errors_readLogitBias

theorem errors_readRequested (names : List String) :
    Errors Sendable (readRequested body (names.map str)) := by
  induction names with
  | nil => exact Errors.pure _
  | cons name names ih =>
    rw [List.map_cons, readRequested]
    split
    · exact ih
    · split_ifs
      · exact errors_bad_str (encodable_append.2 ⟨encodable_str _, encodable_str _⟩)
      · exact Errors.pure _
    · exact errors_bad_str (encodable_append.2 ⟨encodable_str _, encodable_str _⟩)

theorem errors_limit {promptTokens : ℤ} {requested : Option ℤ} {limits : Limits} :
    Errors ApiError.Plain (limit promptTokens requested limits) := by
  unfold limit
  dsimp only
  split_ifs
  · refine Errors.error ⟨?_, ?_, ?_, encodable_str _⟩
    · unfold contextLengthExceeded
      simp only [encodable_append, encodable_str, encodable_intStr, and_self]
    · rintro _ ⟨⟩
      exact encodable_str _
    · rintro _ ⟨⟩
      exact encodable_str _
  · split
    · exact Errors.pure _
    · exact Errors.pure _

/-! ## The model -/

/-- The 404 quotes a string as it is. -/
theorem checkModel_error (hrt : rt.Quotes) {model : Json} {e : ApiError}
    (h : checkModel rt model rules = .error (.own e)) :
    e.Plain ↔ ∀ s, model = .str s → encodable s = true := by
  have hnull : model ≠ .null := by
    rintro rfl
    cases h
  rw [checkModel_of_ne_null _ rules hnull] at h
  split_ifs at h
  cases hshown : rt.text model with
  | error x =>
    rw [hshown] at h
    cases h
  | ok shown =>
    rw [hshown] at h
    cases h
    have hplain : encodable shown = true ↔ ∀ s, model = .str s → encodable s = true := by
      cases model with
      | str s =>
        rw [hrt.text_str] at hshown
        cases hshown
        exact ⟨fun hs _ hs' => Json.str.inj hs' ▸ hs, fun hs => hs shown rfl⟩
      | null | bool | int | float | list | obj =>
        exact ⟨fun _ => nofun, fun _ => hrt.text _ _ rfl hshown⟩
    rw [← hplain]
    constructor
    · exact fun he => (encodable_append.1 (encodable_append.1 (encodable_append.1
        (encodable_append.1 he.message).1).1).1).2
    · intro hs
      refine ⟨?_, ?_, ?_, encodable_str _⟩
      · unfold modelNotFound
        simp only [encodable_append, encodable_str, hs, and_self]
      · rintro _ ⟨⟩
        exact encodable_str _
      · rintro _ ⟨⟩
        exact encodable_str _

theorem checkModel_ok {model : Json} {u : Unit} (h : checkModel rt model rules = .ok u) :
    ∀ s, model = .str s → encodable s = true := by
  rintro s rfl
  unfold checkModel at h
  dsimp only at h
  split_ifs at h with hs
  · rw [isText, decide_eq_true_eq] at hs
    rw [hs]
    exact encodable_str _
  · cases hshown : rt.text (.str s) <;> rw [hshown] at h <;> cases h

theorem prepare_error (hrt : rt.Quotes) {body : Json} {e : ApiError}
    (h : prepare rt body rules = .error (.own e)) :
    e.Plain ↔ ∀ s, field body "model" = .str s → encodable s = true := by
  cases body with
  | obj body =>
    unfold prepare at h
    dsimp only at h
    cases hmodel : checkModel rt (getD body (str "model")) rules with
    | error x =>
      rw [hmodel] at h
      cases h
      exact checkModel_error hrt hmodel
    | ok u =>
      rw [hmodel, Except.ok_bind] at h
      refine ⟨fun _ => checkModel_ok hmodel, fun _ => ?_⟩
      refine Errors.bind (P := Sendable) (errors_checkMessages hrt _) (fun messages _ => ?_) _ h
      refine (errors_checkTools _ _).bind fun tools _ => ?_
      refine (errors_readStream _).bind fun _ _ => ?_
      refine (errors_readIncludeUsage _).bind fun _ _ => ?_
      refine (errors_checkN _).bind fun _ _ => ?_
      refine (errors_readFields hrt).bind fun forward _ => ?_
      refine (errors_readRequested ["max_completion_tokens", "max_tokens"]).bind fun _ _ => ?_
      exact (errors_readEffort _).bind fun _ _ => Errors.pure _
  | null | bool | int | float | str | list =>
    refine ⟨fun _ => ?_, fun _ => errors_bad (encodable_str _) ?_ _ h⟩
    · nofun
    · nofun

/-! ## Refusals -/

/-- **A refusal reaches the client.** -/
theorem refusal_reaches_client_iff (hrt : rt.Quotes) {body : Json} {e : ApiError}
    (he : ChatRaises rt rules body e) :
    (refuse e).tells e ↔ ∀ s, field body "model" = .str s → encodable s = true := by
  rw [tells_iff]
  rcases he with he | ⟨prepared, promptTokens, hprepared, hlimit⟩
  · exact prepare_error hrt he
  · refine ⟨fun _ => ?_, fun _ => errors_limit _ hlimit⟩
    cases body with
    | obj body =>
      unfold prepare at hprepared
      obtain ⟨_, hmodel, -⟩ := Except.bind_eq_ok.1 hprepared
      exact checkModel_ok hmodel
    | null | bool | int | float | str | list => cases hprepared

/-- A runtime that knows the texts of strings. -/
def Runtime.quoting : Runtime :=
  { Runtime.plain with text := fun v => match v with | .str s => .ok s | _ => .ok [] }

theorem quotes_quoting : Runtime.quoting.Quotes where
  text_str _ := rfl
  text v s hv h := by
    cases v with
    | str => cases hv
    | null | bool | int | float | list | obj =>
      cases h
      rfl
  repr v s h := by
    cases h
    rfl
  floatText _ := rfl

def modelRequest (model : Str) : Json := .obj [(str "model", .str model)]

theorem raises_modelRequest {model : Str} (h : model ≠ str rules.modelName) :
    ChatRaises .quoting rules (modelRequest model) (modelNotFound rules model) := by
  left
  show (checkModel .quoting (.str model) rules >>= _) = _
  rw [checkModel_of_ne_null _ rules (show Json.str model ≠ .null from nofun),
    if_neg (by simpa [isText] using h)]
  rfl

theorem refusal_reaches_client_iff_gpt :
    str "gpt-4" ≠ str (rulesFor .quoting ciTinyProfile []).modelName ∧
      (refuse (modelNotFound (rulesFor .quoting ciTinyProfile []) (str "gpt-4"))).tells
        (modelNotFound (rulesFor .quoting ciTinyProfile []) (str "gpt-4")) := by
  have hmodel : str "gpt-4" ≠ str (rulesFor .quoting ciTinyProfile []).modelName := by
    decide +kernel
  refine ⟨hmodel, (refusal_reaches_client_iff quotes_quoting (raises_modelRequest hmodel)).2 ?_⟩
  rintro s h
  cases h
  exact encodable_str _

/-- For a model with a lone surrogate the client gets Starlette's 500, and the log says 404. -/
theorem refusal_lost : ∃ e, ChatRaises .quoting (rulesFor .quoting ciTinyProfile [])
    (modelRequest [0xD800]) e ∧ ¬ (refuse e).tells e ∧ refuse e = ⟨none, 404⟩ := by
  have hmodel : [0xD800] ≠ str (rulesFor .quoting ciTinyProfile []).modelName := by
    decide +kernel
  have hlost : renders false (modelNotFound (rulesFor .quoting ciTinyProfile []) [0xD800]).body =
      false := by
    decide +kernel
  refine ⟨_, raises_modelRequest hmodel, ?_, ?_⟩
  · rw [tells_iff, ← renders_body, hlost]
    exact Bool.false_ne_true
  · unfold refuse errorResponse
    rw [if_neg (by rw [hlost]; exact Bool.false_ne_true)]
    rfl

end AgentLab.Gateway
