import AgentLab.Lib.Checks
import AgentLab.Gateway.Prepared

/-!
# What `prepare` raises

`prepare` is to answer an invalid body with an `ApiError` of status 400 or 404. Another exception
escapes it for five kinds of values, if the checks before get as far: a role that cannot be hashed,
a number too large for a float, tool call arguments too deep for `json.loads`, and a model or a
content type that the error message cannot quote.

Each check comes with the values it accepts (`…Valid`) and those on which such an exception escapes
(`…Chokes`); `prepare_checked` puts them together in the order of the checks.
-/

namespace AgentLab.Gateway

open Python Config Checks

/-- What `prepare` may raise. -/
def IsRefusal : Raised ApiError → Prop
  | .own e => e.status = 400 ∨ e.status = 404
  | .builtin _ => False

/-- An exception that `prepare` must not raise. -/
def Escapes (e : Raised ApiError) : Prop := ¬ IsRefusal e

theorem not_escapes_bad (message : Str) (param : Option Str) :
    ¬ Escapes (.own (badError message param)) := fun h => h (.inl rfl)

theorem escapes_builtin (x : PyExc) : Escapes (.builtin x) := id

theorem checked_bad {α : Type} (message : Str) (param : Option Str) :
    Checked Escapes (bad message param : Api α) False False :=
  .refuse (not_escapes_bad message param)

/-- A text for an error message. -/
theorem checked_liftPy {α : Type} (c : Except PyExc α) :
    Checked Escapes (liftPy c) (∃ a, c = .ok a) (∃ x, c = .error x) := by
  cases c with
  | error x => exact (Checked.crash (escapes_builtin x)).congr (by simp) (by simp)
  | ok a => exact (Checked.pure a).congr (by simp) (by simp)

variable (rt : Runtime)

/-! ## Messages and tools -/

def PartValid (part : Json) : Prop :=
  isText (field part "type") "text" = true ∧ isStr (field part "text") = true

/-- The type cannot be quoted. -/
def PartChokes (part : Json) : Prop :=
  ¬ isText (field part "type") "text" = true ∧ ∃ x, rt.repr (field part "type") = .error x

def ContentValid : Json → Prop
  | .null | .str _ => True
  | .list parts => ∀ part ∈ parts, PartValid part
  | _ => False

def ContentChokes : Json → Prop
  | .list parts => Meets PartValid (PartChokes rt) parts
  | _ => False

def ArgumentsValid : Json → Prop
  | .null | .str [] => True
  | .str arguments => ∃ v, rt.loads arguments = .ok v
  | _ => False

/-- The arguments are nested too deeply. -/
def ArgumentsChoke : Json → Prop
  | .str (c :: cs) => rt.loads (c :: cs) = .error .recursionError
  | _ => False

def CallValid (call : Json) : Prop :=
  isStr (field (field call "function") "name") = true ∧
    ArgumentsValid rt (field (field call "function") "arguments")

def CallChokes (call : Json) : Prop :=
  isStr (field (field call "function") "name") = true ∧
    ArgumentsChoke rt (field (field call "function") "arguments")

def CallsValid : Json → Prop
  | .null => True
  | .list calls => ∀ call ∈ calls, CallValid rt call
  | _ => False

def CallsChoke : Json → Prop
  | .list calls => Meets (CallValid rt) (CallChokes rt) calls
  | _ => False

def RoleValid : Json → Prop
  | .str s => s ∈ MESSAGE_ROLES
  | _ => False

/-- Lists and dictionaries cannot be hashed. -/
def Unhashable : Json → Prop
  | .list _ | .obj _ => True
  | _ => False

def MessageValid : Json → Prop
  | .obj o => RoleValid (getD o (str "role")) ∧ ContentValid (getD o (str "content")) ∧
      CallsValid rt (getD o (str "tool_calls"))
  | _ => False

def MessageChokes : Json → Prop
  | .obj o => Unhashable (getD o (str "role")) ∨ RoleValid (getD o (str "role")) ∧
      (ContentChokes rt (getD o (str "content")) ∨
        ContentValid (getD o (str "content")) ∧ CallsChoke rt (getD o (str "tool_calls")))
  | _ => False

def MessagesValid : Json → Prop
  | .list (m :: ms) => ∀ message ∈ m :: ms, MessageValid rt message
  | _ => False

def MessagesChoke : Json → Prop
  | .list (m :: ms) => Meets (MessageValid rt) (MessageChokes rt) (m :: ms)
  | _ => False

def ToolValid : Json → Prop
  | .obj o => isText ((Dict.get? o (str "type")).getD (.str (str "function"))) "function" = true ∧
      isStr (field (getD o (str "function")) "name") = true
  | _ => False

def ToolsValid : Json → Prop
  | .null => True
  | .list tools => ∀ tool ∈ tools, ToolValid tool
  | _ => False

theorem checkPart_checked (loc : Str) (part : Json) (j : ℕ) :
    Checked Escapes (checkPart rt loc part j) (PartValid part) (PartChokes rt part) := by
  unfold checkPart PartValid PartChokes
  dsimp only
  by_cases hkind : isText (field part "type") "text" = true
  · rw [hkind, if_neg (by simp)]
    by_cases htext : isStr (field part "text") = true
    · rw [htext, if_neg (by simp)]
      exact (Checked.pure ()).congr (by simp) (by simp)
    · rw [if_pos (by simpa using htext)]
      exact (checked_bad _ _).congr (by simp [htext]) (by simp)
  · rw [if_pos (by simpa using hkind)]
    exact ((checked_liftPy _).bind fun shown _ => checked_bad _ _).congr (by simp [hkind])
      (by simp [hkind])

theorem checkContent_checked (content : Json) (loc : Str) :
    Checked Escapes (checkContent rt content loc) (ContentValid content)
      (ContentChokes rt content) := by
  cases content with
  | null => exact .pure ()
  | str s => exact .pure ()
  | list parts => exact .forM_zipIdx (fun part j => checkPart_checked rt loc part j) parts 0
  | _ => exact checked_bad _ _

theorem checkToolCall_checked (loc : Str) (call : Json) (j : ℕ) :
    Checked Escapes (checkToolCall rt loc call j) (CallValid rt call) (CallChokes rt call) := by
  unfold checkToolCall CallValid CallChokes
  dsimp only
  by_cases hname : isStr (field (field call "function") "name") = true
  · rw [hname, if_neg (by simp)]
    generalize field (field call "function") "arguments" = arguments
    cases arguments with
    | null => exact (Checked.pure ()).congr (by simp [ArgumentsValid]) (by simp [ArgumentsChoke])
    | str s =>
      cases s with
      | nil => exact (Checked.pure ()).congr (by simp [ArgumentsValid]) (by simp [ArgumentsChoke])
      | cons c cs =>
        dsimp only
        unfold ArgumentsValid ArgumentsChoke
        cases hl : rt.loads (c :: cs) with
        | ok v => exact (Checked.pure ()).congr (by simp [hl]) (by simp [hl])
        | error e =>
          cases e with
          | valueError => exact (checked_bad _ _).congr (by simp [hl]) (by simp [hl])
          | recursionError =>
            exact (Checked.crash (escapes_builtin _)).congr (by simp [hl]) (by simp [hl])
    | _ => exact (checked_bad _ _).congr (by simp [ArgumentsValid]) (by simp [ArgumentsChoke])
  · rw [if_pos (by simpa using hname)]
    exact (checked_bad _ _).congr (by simp [hname]) (by simp [hname])

theorem checkToolCalls_checked (calls : Json) (loc : Str) :
    Checked Escapes (checkToolCalls rt calls loc) (CallsValid rt calls) (CallsChoke rt calls) := by
  cases calls with
  | null => exact .pure ()
  | list calls => exact .forM_zipIdx (fun call j => checkToolCall_checked rt loc call j) calls 0
  | _ => exact checked_bad _ _

theorem isRole_checked (role : Json) (message : Str) (param : Option Str) {c : Api Json}
    {valid chokes : Prop} (h : Checked Escapes c valid chokes) :
    Checked Escapes
      (liftPy (isRole role) >>= fun known => if !known then bad message param else c)
      (RoleValid role ∧ valid) (Unhashable role ∨ RoleValid role ∧ chokes) := by
  have refused : Checked Escapes (bad message param : Api Json) (False ∧ valid)
      (False ∨ False ∧ chokes) := (checked_bad _ _).congr (by simp) (by simp)
  have crashed : Checked Escapes (.error (.builtin .typeError) : Api Json) (False ∧ valid)
      (True ∨ False ∧ chokes) :=
    (Checked.crash (escapes_builtin _)).congr (by simp) (by simp)
  cases role with
  | str s =>
    show Checked Escapes (if !decide (s ∈ MESSAGE_ROLES) then bad message param else c)
      (s ∈ MESSAGE_ROLES ∧ valid) (False ∨ s ∈ MESSAGE_ROLES ∧ chokes)
    by_cases hs : s ∈ MESSAGE_ROLES
    · rw [if_neg (by simpa using hs)]
      exact h.congr (by simp [hs]) (by simp [hs])
    · rw [if_pos (by simpa using hs)]
      exact (checked_bad _ _).congr (by simp [hs]) (by simp [hs])
  | list _ => exact crashed
  | obj _ => exact crashed
  | _ => exact refused

theorem checkMessage_checked (message : Json) (i : ℕ) :
    Checked Escapes (checkMessage rt message i) (MessageValid rt message)
      (MessageChokes rt message) := by
  cases message with
  | obj o =>
    refine isRole_checked _ _ _ ?_
    exact (checkContent_checked rt _ _).bind fun _ _ => (checkToolCalls_checked rt _ _).map _
  | _ => exact checked_bad _ _

theorem checkMessages_checked (value : Json) :
    Checked Escapes (checkMessages rt value) (MessagesValid rt value) (MessagesChoke rt value) := by
  cases value with
  | list messages =>
    cases messages with
    | nil => exact checked_bad _ _
    | cons m ms =>
      exact .mapM_zipIdx (fun message i => checkMessage_checked rt message i) (m :: ms) 0
  | _ => exact checked_bad _ _

theorem checkTool_checked (tool : Json) (i : ℕ) :
    Checked Escapes (checkTool tool i) (ToolValid tool) False := by
  cases tool with
  | obj o =>
    unfold checkTool ToolValid
    dsimp only
    split_ifs with h
    · exact (Checked.pure ()).congr (by simpa using h) Iff.rfl
    · exact (checked_bad _ _).congr (by simpa using h) Iff.rfl
  | _ => exact checked_bad _ _

theorem checkTools_checked (value toolChoice : Json) :
    Checked Escapes (checkTools value toolChoice) (ToolsValid value) False := by
  cases value with
  | null => exact .pure none
  | list tools =>
    cases tools with
    | nil => exact (Checked.pure none).congr (by simp [ToolsValid]) Iff.rfl
    | cons t ts =>
      have h : Checked Escapes ((t :: ts).zipIdx.forM fun p => checkTool p.1 p.2)
          (∀ tool ∈ t :: ts, ToolValid tool) (Meets ToolValid (fun _ => False) (t :: ts)) :=
        .forM_zipIdx (fun tool i => checkTool_checked tool i) (t :: ts) 0
      exact (h.map _).congr Iff.rfl (iff_false_intro (meets_of_forall fun _ _ => id))
  | _ => exact checked_bad _ _

/-! ## The fields of the body -/

def ModelValid (rules : Rules) (model : Json) : Prop :=
  model = .null ∨ isText model rules.modelName = true

/-- The model cannot be quoted. -/
def ModelChokes (rules : Rules) (model : Json) : Prop :=
  ¬ ModelValid rules model ∧ ∃ x, rt.text model = .error x

def StreamValid : Json → Prop
  | .null | .bool _ => True
  | _ => False

def OptionsValid : Json → Prop
  | .null | .obj _ => True
  | _ => False

def NValid (n : Json) : Prop := n = .null ∨ equalsInt n 1 = true

/-- An integer that no float holds. -/
def TooLarge : Json → Prop
  | .int n => PyFloat.ofInt n = .error .overflowError
  | _ => False

def NumberValid (body : Dict Json) (f : Str × ℚ × ℚ) : Prop :=
  getD body f.1 = .null ∨
    isNumber (getD body f.1) = .ok true ∧ inRange f.2.1 f.2.2 (getD body f.1) = true

def NumberChokes (body : Dict Json) (f : Str × ℚ × ℚ) : Prop := TooLarge (getD body f.1)

def TopKValid : Json → Prop
  | .null => True
  | .int n => 0 ≤ n
  | _ => False

def SeedValid : Json → Prop
  | .null | .int _ => True
  | _ => False

def StopValid : Json → Prop
  | .null => True
  | .str s => s ≠ []
  | .list stop => ∀ s ∈ stop, isStr s = true ∧ s.truthy = true
  | _ => False

def BiasItemValid (item : Str × Json) : Prop :=
  isDigit item.1 = true ∧ isNumber item.2 = .ok true

def BiasItemChokes (item : Str × Json) : Prop := isDigit item.1 = true ∧ TooLarge item.2

def BiasValid : Json → Prop
  | .null => True
  | .obj bias => ∀ item ∈ bias, BiasItemValid item
  | _ => False

def BiasChokes : Json → Prop
  | .obj bias => Meets BiasItemValid BiasItemChokes bias
  | _ => False

def FieldsValid (body : Dict Json) : Prop :=
  (∀ f ∈ numberFields, NumberValid body f) ∧ TopKValid (getD body (str "top_k")) ∧
    SeedValid (getD body (str "seed")) ∧ StopValid (getD body (str "stop")) ∧
    BiasValid (getD body (str "logit_bias"))

def FieldsChoke (body : Dict Json) : Prop :=
  Meets (NumberValid body) (NumberChokes body) numberFields ∨
    (∀ f ∈ numberFields, NumberValid body f) ∧ TopKValid (getD body (str "top_k")) ∧
      SeedValid (getD body (str "seed")) ∧ StopValid (getD body (str "stop")) ∧
      BiasChokes (getD body (str "logit_bias"))

/-- The body holds a value on which an exception escapes `prepare`, and what is checked before it
is valid. -/
def Chokes (rules : Rules) : Json → Prop
  | .obj body =>
    ModelChokes rt rules (getD body (str "model")) ∨
    ModelValid rules (getD body (str "model")) ∧
      (MessagesChoke rt (getD body (str "messages")) ∨
      MessagesValid rt (getD body (str "messages")) ∧ ToolsValid (getD body (str "tools")) ∧
        StreamValid (getD body (str "stream")) ∧
        OptionsValid (getD body (str "stream_options")) ∧ NValid (getD body (str "n")) ∧
        FieldsChoke body)
  | _ => False

/-- The answer to another model's name. -/
def modelNotFound (rules : Rules) (shown : Str) : ApiError :=
  ⟨404, str "The model `" ++ shown ++ str "` does not exist; this server only has `" ++
    str rules.modelName ++ str "`.", str "model_not_found", str "model",
    str "invalid_request_error"⟩

theorem checkModel_of_ne_null {model : Json} (rules : Rules) (h : model ≠ .null) :
    checkModel rt model rules = if isText model rules.modelName = true then .ok ()
      else liftPy (rt.text model) >>= fun shown => .error (.own (modelNotFound rules shown)) := by
  cases model with
  | null => exact absurd rfl h
  | _ => rfl

theorem checkModel_checked (model : Json) (rules : Rules) :
    Checked Escapes (checkModel rt model rules) (ModelValid rules model)
      (ModelChokes rt rules model) := by
  unfold ModelChokes ModelValid
  by_cases hnull : model = .null
  · rw [hnull]
    exact (Checked.pure ()).congr (by simp) (by simp)
  · rw [checkModel_of_ne_null rt rules hnull]
    split_ifs with h
    · exact (Checked.pure ()).congr (by simp [h]) (by simp [h])
    · refine ((checked_liftPy _).bind fun shown _ => Checked.refuse ?_).congr ?_ ?_
      · exact fun hescapes => hescapes (Or.inr rfl)
      · simp [hnull, h]
      · simp [hnull, h]

theorem readStream_checked (value : Json) :
    Checked Escapes (readStream value) (StreamValid value) False := by
  cases value with
  | null => exact .pure _
  | bool b => exact .pure b
  | _ => exact checked_bad _ _

theorem readIncludeUsage_checked (value : Json) :
    Checked Escapes (readIncludeUsage value) (OptionsValid value) False := by
  cases value with
  | null => exact .pure _
  | obj o => exact .pure _
  | _ => exact checked_bad _ _

theorem checkN_of_ne_null {n : Json} (h : n ≠ .null) :
    checkN n = if equalsInt n 1 = true then .ok ()
      else bad (str "only n=1 is supported") (str "n") := by
  cases n with
  | null => exact absurd rfl h
  | _ => rfl

theorem checkN_checked (n : Json) : Checked Escapes (checkN n) (NValid n) False := by
  unfold NValid
  by_cases hnull : n = .null
  · rw [hnull]
    exact (Checked.pure ()).congr (by simp) Iff.rfl
  · rw [checkN_of_ne_null hnull]
    split_ifs with h
    · exact (Checked.pure ()).congr (by simp [h]) Iff.rfl
    · exact (checked_bad _ _).congr (by simp [hnull, h]) Iff.rfl

theorem ofInt_error {n : ℤ} {x : PyExc} (h : PyFloat.ofInt n = .error x) : x = .overflowError := by
  unfold PyFloat.ofInt at h
  split at h
  · cases h
  · exact (Except.error.inj h).symm

/-- `_is_number` fails only for the integers that no float holds. -/
theorem isNumber_cases (value : Json) :
    TooLarge value ∧ isNumber value = .error .overflowError ∨
      ¬ TooLarge value ∧ ∃ b, isNumber value = .ok b := by
  cases value with
  | int n =>
    have hnumber : isNumber (.int n) = PyFloat.ofInt n >>= fun _ => .ok true := rfl
    rw [hnumber]
    show PyFloat.ofInt n = _ ∧ _ ∨ ¬ PyFloat.ofInt n = _ ∧ _
    cases hn : PyFloat.ofInt n with
    | error x =>
      rw [ofInt_error hn]
      exact .inl ⟨rfl, rfl⟩
    | ok q => exact .inr ⟨nofun, true, rfl⟩
  | float q => cases q <;> exact .inr ⟨fun h => h, _, rfl⟩
  | _ => exact .inr ⟨id, _, rfl⟩

theorem readNumber_checked (body forward : Dict Json) (f : Str × ℚ × ℚ) :
    Checked Escapes (readNumber rt body forward f) (NumberValid body f) (NumberChokes body f) := by
  obtain ⟨name, low, high⟩ := f
  unfold readNumber NumberValid NumberChokes
  dsimp only
  generalize getD body name = value
  split
  · exact (Checked.pure _).congr (by simp) (by simp [TooLarge])
  · next hnull =>
    have hne : value ≠ .null := hnull
    rcases isNumber_cases value with ⟨hlarge, h⟩ | ⟨hsmall, b, h⟩
    · rw [h]
      exact (Checked.crash (escapes_builtin _)).congr (by simp [hne]) (by simp [hlarge])
    · rw [h]
      show Checked Escapes (if b && inRange low high value then _ else _) _ _
      split_ifs with hb
      · exact (Checked.pure _).congr (by simpa using .inr (by simpa using hb)) (by simp [hsmall])
      · exact (checked_bad _ _).congr (by simpa [hne] using hb) (by simp [hsmall])

theorem readTopK_checked (body forward : Dict Json) :
    Checked Escapes (readTopK body forward) (TopKValid (getD body (str "top_k"))) False := by
  unfold readTopK
  generalize getD body (str "top_k") = value
  cases value with
  | null => exact .pure _
  | int n =>
    dsimp only
    split_ifs with h
    · exact (checked_bad _ _).congr (by simpa [TopKValid] using h) Iff.rfl
    · exact (Checked.pure _).congr (by simpa [TopKValid] using h) Iff.rfl
  | _ => exact checked_bad _ _

theorem readSeed_checked (body forward : Dict Json) :
    Checked Escapes (readSeed body forward) (SeedValid (getD body (str "seed"))) False := by
  unfold readSeed
  generalize getD body (str "seed") = value
  cases value with
  | null => exact .pure _
  | int n => exact .pure _
  | _ => exact checked_bad _ _

theorem readStop_checked (body forward : Dict Json) :
    Checked Escapes (readStop body forward) (StopValid (getD body (str "stop"))) False := by
  unfold readStop
  generalize getD body (str "stop") = value
  cases value with
  | null => exact .pure _
  | str s =>
    cases s with
    | nil => exact (checked_bad _ _).congr (by simp [StopValid]) Iff.rfl
    | cons c cs => exact (Checked.pure _).congr (by simp [StopValid]) Iff.rfl
  | list stop =>
    dsimp only
    split_ifs with h hempty
    · exact (checked_bad _ _).congr (by simpa [StopValid] using h) Iff.rfl
    · exact (Checked.pure _).congr (by simpa [StopValid] using h) Iff.rfl
    · exact (Checked.pure _).congr (by simpa [StopValid] using h) Iff.rfl
  | _ => exact checked_bad _ _

/-- The items up to the first that is not a number for a token. -/
theorem allNumbers_cases (bias : Dict Json) :
    Meets BiasItemValid BiasItemChokes bias ∧ (∃ x, allNumbers bias = .error x) ∧
        ¬ (∀ item ∈ bias, BiasItemValid item) ∨
      ¬ Meets BiasItemValid BiasItemChokes bias ∧
        ∃ b, allNumbers bias = .ok b ∧ (b = true ↔ ∀ item ∈ bias, BiasItemValid item) := by
  induction bias with
  | nil => exact .inr ⟨meets_nil, true, rfl, by simp⟩
  | cons item bias ih =>
    obtain ⟨key, value⟩ := item
    have hvalid : BiasItemValid (key, value) ↔
        isDigit key = true ∧ isNumber value = .ok true := Iff.rfl
    have hchokes : BiasItemChokes (key, value) ↔ isDigit key = true ∧ TooLarge value := Iff.rfl
    rw [meets_cons, List.forall_mem_cons, hvalid, hchokes]
    unfold allNumbers
    by_cases hkey : isDigit key = true
    · rw [hkey, if_neg (by simp)]
      rcases isNumber_cases value with ⟨hlarge, h⟩ | ⟨hsmall, b, h⟩
      · rw [h]
        exact .inl ⟨.inl ⟨rfl, hlarge⟩, ⟨_, rfl⟩, by simp⟩
      · rw [h]
        cases b with
        | true => simpa [hsmall] using ih
        | false => exact .inr ⟨by simp [hsmall], false, rfl, by simp⟩
    · rw [if_pos (by simpa using hkey)]
      exact .inr ⟨by simp [hkey], false, rfl, by simp [hkey]⟩

theorem readLogitBias_checked (body forward : Dict Json) :
    Checked Escapes (readLogitBias body forward) (BiasValid (getD body (str "logit_bias")))
      (BiasChokes (getD body (str "logit_bias"))) := by
  unfold readLogitBias
  generalize getD body (str "logit_bias") = value
  cases value with
  | null => exact .pure _
  | obj bias =>
    unfold BiasValid BiasChokes
    dsimp only
    rcases allNumbers_cases bias with ⟨hmeets, ⟨x, h⟩, hvalid⟩ | ⟨hmeets, b, h, hb⟩
    · rw [h]
      exact (Checked.crash (escapes_builtin _)).congr (iff_of_false id hvalid) (by simp [hmeets])
    · rw [h]
      cases b with
      | false => exact (checked_bad _ _).congr (by simpa using hb) (by simp [hmeets])
      | true =>
        show Checked Escapes (if bias.isEmpty then _ else _) _ _
        split_ifs
        · exact (Checked.pure _).congr (by simpa using hb) (by simp [hmeets])
        · exact (Checked.pure _).congr (by simpa using hb) (by simp [hmeets])
  | _ => exact checked_bad _ _

theorem readFields_checked (body forward : Dict Json) :
    Checked Escapes (readFields rt body forward) (FieldsValid body) (FieldsChoke body) := by
  unfold readFields
  refine ((Checked.foldlM (readNumber_checked rt body) numberFields forward).bind fun f₁ _ =>
    (readTopK_checked body f₁).bind fun f₂ _ => (readSeed_checked body f₂).bind fun f₃ _ =>
      (readStop_checked body f₃).bind fun f₄ _ => readLogitBias_checked body f₄).congr Iff.rfl ?_
  simp [FieldsChoke]

theorem refusal_of_bad {α : Type} {message : Str} {param : Option Str} {e : Raised ApiError}
    (h : (bad message param : Api α) = .error e) : IsRefusal e := by
  cases h
  exact .inl rfl

theorem readRequested_refusal {body : Dict Json} {names : List Str} {e : Raised ApiError}
    (h : readRequested body names = .error e) : IsRefusal e := by
  induction names with
  | nil => cases h
  | cons name names ih =>
    unfold readRequested at h
    cases hv : getD body name with
    | null =>
      rw [hv] at h
      exact ih h
    | int n =>
      rw [hv] at h
      dsimp only at h
      split_ifs at h
      exact refusal_of_bad h
    | _ =>
      rw [hv] at h
      exact refusal_of_bad h

theorem readEffort_refusal {value : Json} {rules : Rules} {e : Raised ApiError}
    (h : readEffort value rules = .error e) : IsRefusal e := by
  cases value with
  | null => cases h
  | str s =>
    unfold readEffort at h
    dsimp only at h
    split_ifs at h
    cases hlevel : Dict.get? EFFORT_LEVELS s with
    | some level =>
      rw [hlevel] at h
      cases h
    | none =>
      rw [hlevel] at h
      exact refusal_of_bad h
  | _ => exact refusal_of_bad h

/-! ## The whole body -/

theorem prepare_checked (value : Json) (rules : Rules) :
    ∃ valid, Checked Escapes (prepare rt value rules) valid (Chokes rt rules value) := by
  cases value with
  | obj body =>
    have h : Checked Escapes (prepare rt (.obj body) rules) _ _ :=
      (checkModel_checked rt _ rules).bind fun _ _ =>
        (checkMessages_checked rt _).bind fun messages _ =>
        (checkTools_checked _ _).bind fun tools _ =>
        (readStream_checked _).bind fun stream _ =>
        (readIncludeUsage_checked _).bind fun includeUsage _ =>
        (checkN_checked _).bind fun _ _ =>
        (readFields_checked rt body _).bind fun forward _ =>
        (Checked.of_refuses fun e he h => h (readRequested_refusal he)).bind fun requested _ =>
        (Checked.of_refuses fun e he h => h (readEffort_refusal he)).map _
    exact ⟨_, h.congr Iff.rfl (by simp [Chokes])⟩
  | _ => exact ⟨False, checked_bad _ _⟩

/-- **What `prepare` raises is a refusal**, unless the body holds a value that chokes a check. -/
theorem prepare_refuses_iff (value : Json) (rules : Rules) :
    (∀ e, prepare rt value rules = .error e → IsRefusal e) ↔ ¬ Chokes rt rules value := by
  obtain ⟨valid, h⟩ := prepare_checked rt value rules
  rw [← h.answers_iff]
  exact forall₂_congr fun e _ => not_not.symm

/-- `{"messages": [{"role": []}]}`. -/
def listAsRole : Json :=
  .obj [(str "messages", .list [.obj [(str "role", .list [])]])]

/-- A role that is a list: `TypeError`. -/
theorem prepare_listAsRole :
    ¬ ∀ e, prepare .plain listAsRole (rulesFor .plain ciTinyProfile []) = .error e → IsRefusal e :=
  fun h => h (.builtin .typeError) rfl

/-- `{"messages": [{"role": "user"}], "top_p": 10 ** 400}`. -/
def hugeTopP : Json :=
  .obj [(str "messages", .list [.obj [(str "role", .str (str "user"))]]),
    (str "top_p", .int (10 ^ 400))]

example : (match prepare .plain hugeTopP (rulesFor .plain ciTinyProfile []) with
    | .error (.builtin .overflowError) => true
    | _ => false) = true := by
  decide +kernel

end AgentLab.Gateway
