import AgentLab.Config.Accepted
import AgentLab.Gateway.BackendChunks
import AgentLab.Gateway.Forwarded
import AgentLab.Gateway.Served

/-!
# Whether an accepted request can be delivered

`prepare` checks the fields that it names, but passes on values of the client's inside the messages,
the tools, the stop strings and the keys of `logit_bias`. `httpx` renders them without NaN and the
infinities and encodes them as UTF-8; mlx-lm reads the keys with `int`. Both are stricter than
`json.loads` and `str.isdigit`: an accepted request is delivered if and only if those values are as
`Deliverable` says (`delivered_iff`). Everything else that is forwarded can always be sent, since
the reader of each field and the profile check it.
-/

namespace AgentLab.Gateway

open Python Config

/-! ## The backend's side -/

/-- What `httpx` makes of `json=body`: a body that cannot be rendered is not sent, and
`backend_chunks` reports that as a failure of the model server. -/
def post (body : Dict Json) (reply : Reply) : Reply :=
  if renders false (.obj body) then reply else .httpError

/-- The body is sent, and mlx-lm can read the keys of its `logit_bias`. -/
structure Delivered (body : Dict Json) : Prop where
  sent : ∀ reply, post body reply = reply
  bias : ∀ bias, getD body (str "logit_bias") = .obj bias →
    ∀ item ∈ bias, ∃ n, readInt item.1 = .ok n

/-- What can be delivered of the client's values: no NaN, infinity or lone surrogate in the
messages, the tools, unless they are not offered, and the stop strings; and `logit_bias` keys of at
most 4300 digits, all of them decimal. -/
structure Deliverable (body : Dict Json) : Prop where
  messages : (getD body (str "messages")).Strict
  tools : isText (getD body (str "tool_choice")) "none" = false →
    (getD body (str "tools")).Strict
  stop : (getD body (str "stop")).Strict
  bias : ∀ bias, getD body (str "logit_bias") = .obj bias → ∀ item ∈ bias,
    (∀ c ∈ item.1, (digitValue? c).isSome = true) ∧ item.1.length ≤ 4300

/-! ## Digits -/

variable {rt : Runtime} {rules : Rules} {body forward forward' : Dict Json}

theorem mapM_digitValue? (s : Str) :
    (∃ digits, s.mapM digitValue? = some digits) ↔ ∀ c ∈ s, (digitValue? c).isSome = true := by
  induction s with
  | nil => simp
  | cons c s ih =>
    rw [List.mapM_cons, List.forall_mem_cons, ← ih]
    cases digitValue? c with
    | none => simp
    | some d => cases s.mapM digitValue? <;> simp

theorem length_mapM_digitValue? {s : Str} {digits : List ℕ}
    (h : s.mapM digitValue? = some digits) : digits.length = s.length := by
  induction s generalizing digits with
  | nil =>
    cases h
    rfl
  | cons c s ih =>
    rw [List.mapM_cons] at h
    cases hc : digitValue? c with
    | none =>
      rw [hc] at h
      cases h
    | some d =>
      cases hs : s.mapM digitValue? with
      | none =>
        rw [hc, hs] at h
        cases h
      | some digits' =>
        rw [hc, hs] at h
        cases h
        rw [List.length_cons, List.length_cons, ih hs]

/-- The keys that `int` converts, of those that `isdigit` admits. -/
theorem readInt_iff {s : Str} (h : isDigit s = true) :
    (∃ n, readInt s = .ok n) ↔
      (∀ c ∈ s, (digitValue? c).isSome = true) ∧ s.length ≤ 4300 := by
  have hs : s ≠ [] := by
    rintro rfl
    cases h
  rw [← mapM_digitValue?]
  unfold readInt
  cases hdigits : s.mapM digitValue? with
  | none => simp
  | some digits =>
    have hlength := length_mapM_digitValue? hdigits
    have hne : digits.isEmpty = false := by
      cases digits with
      | nil => exact absurd (List.length_eq_zero_iff.1 hlength.symm) hs
      | cons => rfl
    dsimp only
    rw [hne, Bool.false_or, ← hlength]
    split_ifs with hlong
    · refine ⟨nofun, fun ⟨_, hle⟩ => ?_⟩
      rw [decide_eq_true_eq] at hlong
      omega
    · exact ⟨fun _ => ⟨⟨digits, rfl⟩, by simpa using hlong⟩, fun _ => ⟨_, rfl⟩⟩

/-- No digit is a surrogate. -/
theorem encodable_of_isDigit {s : Str} (h : isDigit s = true) : encodable s = true := by
  have hzeros : ∀ z ∈ decimalZeros, z + 10 ≤ 0xD800 ∨ 0xDFFF < z := by decide
  have hothers : ∀ r ∈ otherDigits, r.2 < 0xD800 ∨ 0xDFFF < r.1 := by decide
  rw [isDigit, Bool.and_eq_true, List.all_eq_true] at h
  refine encodable_iff.2 fun c hc => ?_
  have hdigit := h.2 c hc
  rw [Bool.or_eq_true] at hdigit
  have hval : c.val < 0xD800 ∨ 0xDFFF < c.val := by
    rcases hdigit with hdigit | hdigit
    · unfold digitValue? at hdigit
      rw [Option.isSome_map, List.find?_isSome] at hdigit
      obtain ⟨z, hz, hc⟩ := hdigit
      rw [Bool.and_eq_true, decide_eq_true_eq, decide_eq_true_eq] at hc
      have := hzeros z hz
      omega
    · obtain ⟨r, hr, hc⟩ := List.any_eq_true.1 hdigit
      rw [Bool.and_eq_true, decide_eq_true_eq, decide_eq_true_eq] at hc
      have := hothers r hr
      omega
  unfold isSurrogate
  rw [Bool.and_eq_false_iff, decide_eq_false_iff_not, decide_eq_false_iff_not]
  omega

/-! ## What the readers add -/

/-- The object can be rendered and encoded. -/
abbrev Encodes (o : Dict Json) : Prop := renders false (.obj o) = true

theorem renders_of_inRange {low high : ℚ} {value : Json} (h : inRange low high value = true) :
    renders false value = true := by
  cases value with
  | int n => rfl
  | float f =>
    cases f with
    | finite q => rfl
    | inf | negInf | nan => cases h
  | null | bool | str | list | obj => cases h

theorem encodes_readNumber {f : Str × ℚ × ℚ} (hf : encodable f.1 = true)
    (h : readNumber rt body forward f = .ok forward') (hforward : Encodes forward) :
    Encodes forward' := by
  unfold readNumber at h
  dsimp only at h
  split at h
  · cases h
    exact hforward
  · obtain ⟨number, -, h⟩ := Except.bind_eq_ok.1 h
    split_ifs at h with hrange
    · cases h
      exact renders_set hforward hf (renders_of_inRange (Bool.and_eq_true_iff.1 hrange).2)
    · cases h

theorem encodes_foldlM_readNumber {fs : List (Str × ℚ × ℚ)}
    (hfs : ∀ f ∈ fs, encodable f.1 = true) :
    ∀ {forward forward' : Dict Json}, fs.foldlM (readNumber rt body) forward = .ok forward' →
      Encodes forward → Encodes forward' := by
  induction fs with
  | nil =>
    intro forward forward' h hforward
    cases h
    exact hforward
  | cons f fs ih =>
    intro forward forward' h hforward
    obtain ⟨hf, hfs⟩ := List.forall_mem_cons.1 hfs
    rw [List.foldlM_cons] at h
    obtain ⟨forward₁, h₁, h₂⟩ := Except.bind_eq_ok.1 h
    exact ih hfs h₂ (encodes_readNumber hf h₁ hforward)

theorem encodes_readTopK (h : readTopK body forward = .ok forward') (hforward : Encodes forward) :
    Encodes forward' := by
  unfold readTopK at h
  split at h
  · cases h
    exact hforward
  · split_ifs at h
    · cases h
    · cases h
      exact renders_set hforward (encodable_str _) rfl
  · cases h

theorem encodes_readSeed (h : readSeed body forward = .ok forward') (hforward : Encodes forward) :
    Encodes forward' := by
  unfold readSeed at h
  split at h
  · cases h
    exact hforward
  · cases h
    exact renders_set hforward (encodable_str _) rfl
  · cases h

/-- A list of stop strings is forwarded, of the strings that the client set. -/
theorem readStop_ok (h : readStop body forward = .ok forward') :
    forward' = forward ∧ (getD body (str "stop")).Strict ∨
      ∃ stop, forward' = Dict.set forward (str "stop") (.list stop) ∧
        ((Json.list stop).Strict ↔ (getD body (str "stop")).Strict) := by
  unfold readStop at h
  dsimp only at h
  split at h
  · next hstop =>
    cases h
    rw [hstop]
    exact .inl ⟨rfl, renders_iff_strict _ |>.1 rfl⟩
  · next s hstop =>
    rw [hstop]
    split_ifs at h with _ hempty
    · cases h
    · cases hempty
    · cases h
      refine .inr ⟨_, rfl, ?_⟩
      rw [← renders_iff_strict, ← renders_iff_strict, renders_list, List.forall_mem_singleton]
  · next stop hstop =>
    rw [hstop]
    split_ifs at h with _ hempty
    · cases h
    · cases h
      rw [List.isEmpty_iff.1 hempty]
      exact .inl ⟨rfl, renders_iff_strict _ |>.1 rfl⟩
    · cases h
      exact .inr ⟨_, rfl, Iff.rfl⟩
  · cases h

theorem allNumbers_true {bias : Dict Json} (h : allNumbers bias = .ok true) :
    ∀ item ∈ bias, isDigit item.1 = true ∧ renders false item.2 = true := by
  induction bias with
  | nil => exact nofun
  | cons item bias ih =>
    obtain ⟨k, v⟩ := item
    unfold allNumbers at h
    split_ifs at h with hk
    · cases h
    · obtain ⟨number, hnumber, h⟩ := Except.bind_eq_ok.1 h
      cases number with
      | false => cases h
      | true =>
        refine List.forall_mem_cons.2 ⟨⟨by simpa using hk, ?_⟩, ih h⟩
        cases v with
        | int n => rfl
        | float f =>
          cases f with
          | finite q => rfl
          | inf | negInf | nan => cases hnumber
        | null | bool | str | list | obj => cases hnumber

theorem readLogitBias_ok (h : readLogitBias body forward = .ok forward') :
    (∀ bias, getD body (str "logit_bias") = .obj bias →
      ∀ item ∈ bias, isDigit item.1 = true ∧ renders false item.2 = true) ∧
    (forward' = forward ∧ (∀ bias, getD body (str "logit_bias") = .obj bias → bias = []) ∨
      ∃ bias, getD body (str "logit_bias") = .obj bias ∧
        forward' = Dict.set forward (str "logit_bias") (.obj bias)) := by
  unfold readLogitBias at h
  split at h
  · next hnull =>
    cases h
    rw [hnull]
    exact ⟨nofun, .inl ⟨rfl, nofun⟩⟩
  · next bias hbias =>
    obtain ⟨ok, hok, h⟩ := Except.bind_eq_ok.1 h
    rw [hbias]
    split_ifs at h with hnot hempty
    · cases h
    all_goals
      have hall : allNumbers bias = .ok true := by
        cases hnumbers : allNumbers bias with
        | error x =>
          rw [hnumbers] at hok
          cases hok
        | ok b =>
          rw [hnumbers] at hok
          cases hok
          simpa using hnot
      cases h
    · refine ⟨?_, .inl ⟨rfl, ?_⟩⟩
      · rintro _ ⟨⟩
        exact allNumbers_true hall
      · rintro _ ⟨⟩
        exact List.isEmpty_iff.1 hempty
    · refine ⟨?_, .inr ⟨bias, rfl, rfl⟩⟩
      rintro _ ⟨⟩
      exact allNumbers_true hall
  · cases h

theorem encodes_readFields (h : readFields rt body forward = .ok forward')
    (hstop : (getD body (str "stop")).Strict) (hforward : Encodes forward) :
    Encodes forward' := by
  unfold readFields at h
  obtain ⟨f₁, h₁, h⟩ := Except.bind_eq_ok.1 h
  obtain ⟨f₂, h₂, h⟩ := Except.bind_eq_ok.1 h
  obtain ⟨f₃, h₃, h⟩ := Except.bind_eq_ok.1 h
  obtain ⟨f₄, h₄, h₅⟩ := Except.bind_eq_ok.1 h
  have hf₃ : Encodes f₃ := encodes_readSeed h₃
    (encodes_readTopK h₂ (encodes_foldlM_readNumber encodable_numberFields h₁ hforward))
  have hf₄ : Encodes f₄ := by
    rcases readStop_ok h₄ with ⟨rfl, -⟩ | ⟨stop, rfl, hiff⟩
    · exact hf₃
    · exact renders_set hf₃ (encodable_str _) ((renders_iff_strict _).2 (hiff.2 hstop))
  obtain ⟨hitems, ⟨rfl, -⟩ | ⟨bias, hbias, rfl⟩⟩ := readLogitBias_ok h₅
  · exact hf₄
  · refine renders_set hf₄ (encodable_str _) (renders_obj.2 fun item hitem => ?_)
    obtain ⟨hkey, hvalue⟩ := hitems bias hbias item hitem
    exact ⟨encodable_of_isDigit hkey, hvalue⟩

/-! ## What is forwarded -/

theorem renders_asSystem (message : Json) :
    renders false (asSystem message) = renders false message := by
  unfold asSystem
  split
  · next o =>
    split_ifs with hrole
    · cases hget : Dict.get? o (str "role") with
      | none =>
        unfold getD at hrole
        rw [hget] at hrole
        cases hrole
      | some role =>
        refine renders_set_iff hget ?_
        unfold getD at hrole
        rw [hget] at hrole
        cases role with
        | str s =>
          rw [of_decide_eq_true (show decide (s = str "developer") = true from hrole)]
          exact (encodable_str _).trans (encodable_str _).symm
        | null | bool | int | float | list | obj => cases hrole
    · rfl
  · rfl

theorem encodes_forwardStart {messages : List Json} {tools : Option (List Json)}
    (hmessages : renders false (.list messages) = true)
    (htools : ∀ ts, tools = some ts → renders false (.list ts) = true) :
    Encodes (forwardStart messages tools) := by
  have hstart : Encodes [(str "model", .str BACKEND_MODEL), (str "messages", .list messages)] := by
    unfold Encodes
    rw [renders_obj_cons (encodable_str _), renders_obj_cons (encodable_str _)]
    exact ⟨encodable_str _, hmessages, rfl⟩
  unfold forwardStart
  dsimp only
  split
  · exact renders_set hstart (encodable_str _) (htools _ rfl)
  · exact hstart

theorem encodes_forwardEnd {args : Dict Json} {sampling : Sampling} (hforward : Encodes forward)
    (hargs : Encodes args) (htemperature : sampling.temperature.isFinite = true)
    (htopP : sampling.topP.isFinite = true) : Encodes (forwardEnd forward args sampling) := by
  have hfloat : ∀ f : PyFloat, f.isFinite = true → renders false (.float f) = true := by
    intro f hf
    cases f with
    | finite => rfl
    | inf | negInf | nan => cases hf
  have hkwargs : Encodes (if args.isEmpty then forward
      else Dict.set forward (str "chat_template_kwargs") (.obj args)) := by
    split_ifs
    · exact hforward
    · exact renders_set hforward (encodable_str _) hargs
  refine renders_set (renders_set ?_ (encodable_str _) rfl) (encodable_str _) ?_
  · exact renders_setdefault (renders_setdefault (renders_setdefault hkwargs (encodable_str _)
      (hfloat _ htemperature)) (encodable_str _) (hfloat _ htopP)) (encodable_str _) rfl
  · exact (renders_obj_cons (encodable_str _)).2 ⟨rfl, rfl⟩

/-- The tools that are offered, if any. -/
theorem checkTools_strict {value toolChoice : Json} {tools : Option (List Json)}
    (h : checkTools value toolChoice = .ok tools) :
    (tools.elim Json.null Json.list).Strict ↔
      (isText toolChoice "none" = false → value.Strict) := by
  have hnull : Json.null.Strict := (renders_iff_strict _).1 rfl
  unfold checkTools at h
  split at h
  · cases h
    exact ⟨fun _ _ => hnull, fun _ => hnull⟩
  · cases h
    exact ⟨fun _ _ => (renders_iff_strict _).1 rfl, fun _ => hnull⟩
  · obtain ⟨_, -, h⟩ := Except.bind_eq_ok.1 h
    split_ifs at h with hchoice
    · cases h
      rw [hchoice]
      exact ⟨fun _ => nofun, fun _ => hnull⟩
    · cases h
      exact ⟨fun htools _ => htools, fun htools => htools (by simpa using hchoice)⟩
  · cases h

/-- The chat template arguments are literals. -/
theorem encodes_args {profile : Profile} {template : Str} {value : Json} {effort : Str}
    {thinking : Bool} {args : Dict Json}
    (h : readEffort value (rulesFor rt profile template) = .ok (effort, thinking, args)) :
    Encodes args := by
  have hlevels : ∀ item ∈ EFFORT_LEVELS, encodable item.2 = true := by
    simp [EFFORT_LEVELS, encodable_str]
  refine renders_obj.2 fun arg harg => ?_
  rcases readEffort_args h arg harg with rfl | ⟨name, s, level, hname, -, hlevel, rfl⟩
  · exact ⟨encodable_str _, rfl⟩
  · refine ⟨?_, hlevels _ (mem_of_get? hlevel)⟩
    unfold rulesFor at hname
    dsimp only at hname
    split_ifs at hname
    · cases hname
      exact encodable_str _

theorem sampling_finite {profile : Profile} (hfinite : profile.backend.Finite) (template : Str)
    (thinking : Bool) {sampling : Sampling}
    (h : sampling = if thinking then (rulesFor rt profile template).thinkingSampling
      else (rulesFor rt profile template).sampling) :
    sampling.temperature.isFinite = true ∧ sampling.topP.isFinite = true := by
  obtain ⟨⟨t, ht⟩, ⟨p, hp⟩, ⟨t', ht'⟩, ⟨p', hp'⟩⟩ := hfinite
  subst h
  unfold rulesFor
  cases thinking
  · dsimp only
    rw [ht, hp]
    exact ⟨rfl, rfl⟩
  · dsimp only
    rw [ht', hp']
    exact ⟨rfl, rfl⟩

/-- The two fields of which a changed form is forwarded. -/
theorem getD_forwardEnd {args : Dict Json} {sampling : Sampling} {p : Prepared}
    (hbody : p.body = forwardEnd forward args sampling) (m : ℤ) {key : Str}
    (hkey : key ∈ [str "stop", str "logit_bias"]) :
    getD (forwarded p m) key = getD forward key := by
  have hnew : ∀ k ∈ [str "stop", str "logit_bias"], str "max_tokens" ≠ k ∧
      str "stream_options" ≠ k ∧ str "stream" ≠ k ∧ str "chat_template_kwargs" ≠ k ∧
      str "temperature" ≠ k ∧ str "top_p" ≠ k ∧ str "top_k" ≠ k := by decide
  obtain ⟨hmax, hoptions, hstream, hkwargs, htemperature, htopP, htopK⟩ := hnew key hkey
  unfold getD forwarded
  rw [Dict.get?_set_of_ne _ _ hmax, hbody, get?_forwardEnd, if_neg hoptions, if_neg hstream,
    if_neg (fun hc => hkwargs hc.1), Sampling.asDict, Dict.get?_cons, if_neg htemperature,
    Dict.get?_cons, if_neg htopP, Dict.get?_cons, if_neg htopK, Dict.get?_nil, Option.or_none]

theorem readFields_forwarded {messages : List Json} {tools : Option (List Json)}
    (h : readFields rt body (forwardStart messages tools) = .ok forward) :
    ((getD forward (str "stop")).Strict ↔ (getD body (str "stop")).Strict) ∧
      ∀ bias, bias ≠ [] → (getD forward (str "logit_bias") = .obj bias ↔
        getD body (str "logit_bias") = .obj bias) := by
  unfold readFields at h
  obtain ⟨f₁, h₁, h⟩ := Except.bind_eq_ok.1 h
  obtain ⟨f₂, h₂, h⟩ := Except.bind_eq_ok.1 h
  obtain ⟨f₃, h₃, h⟩ := Except.bind_eq_ok.1 h
  obtain ⟨f₄, h₄, h₅⟩ := Except.bind_eq_ok.1 h
  have hnone : ∀ key ∈ [str "stop", str "logit_bias"], getD f₃ key = .null := by
    intro key hkey
    have hnot : ∀ k ∈ [str "stop", str "logit_bias"],
        k ∉ numberFields.map Prod.fst ++ [str "top_k"] ++ [str "seed"] ∧
        k ∉ [str "model", str "messages", str "tools"] := by decide
    unfold getD
    rw [((foldlM_readNumber_reads h₁).trans (readTopK_reads h₂)).trans (readSeed_reads h₃) key
      (by simp), if_neg (hnot key hkey).1, forwardStart_of_notMem _ _ (hnot key hkey).2]
    rfl
  have hstop : (getD f₄ (str "stop")).Strict ↔ (getD body (str "stop")).Strict := by
    rcases readStop_ok h₄ with ⟨rfl, hstrict⟩ | ⟨stop, rfl, hiff⟩
    · rw [hnone _ (by simp)]
      exact ⟨fun _ => hstrict, fun _ => (renders_iff_strict _).1 rfl⟩
    · rw [getD_set_self]
      exact hiff
  have hbias : getD f₄ (str "logit_bias") = .null := by
    rcases readStop_ok h₄ with ⟨rfl, -⟩ | ⟨stop, rfl, -⟩
    · exact hnone _ (by simp)
    · rw [getD_set_of_ne _ _ (by decide)]
      exact hnone _ (by simp)
  obtain ⟨-, ⟨rfl, hempty⟩ | ⟨bias, hclient, rfl⟩⟩ := readLogitBias_ok h₅
  · refine ⟨hstop, fun bias hne => ?_⟩
    rw [hbias]
    exact ⟨nofun, fun hclient => absurd (hempty bias hclient) hne⟩
  · rw [getD_set_of_ne _ _ (by decide), getD_set_self, hclient]
    exact ⟨hstop, fun _ _ => Iff.rfl⟩

/-! ## Delivery -/

theorem sent_iff {o : Dict Json} : (∀ reply, post o reply = reply) ↔ Encodes o := by
  unfold post Encodes
  constructor
  · intro h
    by_contra hnot
    have hconnect := h .connectError
    rw [if_neg hnot] at hconnect
    cases hconnect
  · intro h reply
    rw [if_pos h]

/-- **Which accepted requests are delivered.** -/
theorem delivered_iff {py : Texts} {name path : String} {data : List (String × Toml)}
    {profile : Profile} {template : Str} {value : Json} {p : Prepared}
    (hprofile : parseProfile py name path data = .ok profile)
    (hprepare : prepare rt value (rulesFor rt profile template) = .ok p) (m : ℤ) :
    ∃ body, value = .obj body ∧ (Delivered (forwarded p m) ↔ Deliverable body) := by
  obtain ⟨body, rfl, h⟩ := prepare_ok hprepare
  obtain ⟨forward, args, hfields, heffort, hbody, -⟩ := h.forward
  obtain ⟨client, hclient, hmessages⟩ := checkMessages_ok h.messages
  obtain ⟨hstop, hbias⟩ := readFields_forwarded hfields
  have hlist : renders false (.list p.messages) = true ↔ (getD body (str "messages")).Strict := by
    rw [hclient, ← renders_iff_strict, hmessages, renders_list, renders_list,
      List.forall_mem_map]
    simp only [renders_asSystem]
  have htools := checkTools_strict h.tools
  have hdigits : ∀ bias, getD body (str "logit_bias") = .obj bias →
      ∀ item ∈ bias, isDigit item.1 = true := by
    unfold readFields at hfields
    obtain ⟨_, -, hfields⟩ := Except.bind_eq_ok.1 hfields
    obtain ⟨_, -, hfields⟩ := Except.bind_eq_ok.1 hfields
    obtain ⟨_, -, hfields⟩ := Except.bind_eq_ok.1 hfields
    obtain ⟨_, -, hfields⟩ := Except.bind_eq_ok.1 hfields
    exact fun bias hget item hitem => ((readLogitBias_ok hfields).1 bias hget item hitem).1
  refine ⟨body, rfl, fun hdelivered => ?_, fun hdeliverable => ?_⟩
  · have hencodes := sent_iff.1 hdelivered.sent
    have hfield := fun key => renders_getD hencodes key
    refine ⟨hlist.1 ?_, htools.1 ?_, hstop.1 ?_, fun bias hget item hitem => ?_⟩
    · rw [← h.getD_messages m]
      exact hfield _
    · rw [← renders_iff_strict, ← h.getD_tools m]
      exact hfield _
    · rw [← renders_iff_strict, ← getD_forwardEnd hbody m (by simp)]
      exact hfield _
    · have hget' : getD (forwarded p m) (str "logit_bias") = .obj bias := by
        rw [getD_forwardEnd hbody m (by simp)]
        exact (hbias bias (List.ne_nil_of_mem hitem)).2 hget
      exact (readInt_iff (hdigits bias hget item hitem)).1 (hdelivered.bias bias hget' item hitem)
  · have hstart : Encodes (forwardStart p.messages p.tools) := by
      refine encodes_forwardStart (hlist.2 hdeliverable.messages) fun ts hts => ?_
      have hoffered := (renders_iff_strict _).2 (htools.2 hdeliverable.tools)
      rw [hts] at hoffered
      exact hoffered
    refine ⟨sent_iff.2 ?_, fun bias hget item hitem => ?_⟩
    · obtain ⟨htemperature, htopP⟩ :=
        sampling_finite (parseProfile_sound hprofile).1 template p.thinking rfl
      have hend := encodes_forwardEnd (encodes_readFields hfields hdeliverable.stop hstart)
        (encodes_args heffort) htemperature htopP
      rw [← hbody] at hend
      exact renders_set hend (encodable_str _) rfl
    · rw [getD_forwardEnd hbody m (by simp)] at hget
      have hget' := (hbias bias (List.ne_nil_of_mem hitem)).1 hget
      exact (readInt_iff (hdigits bias hget' item hitem)).2
        (hdeliverable.bias bias hget' item hitem)

theorem delivered_iff_effort : ∃ p,
    prepare .plain effortRequest (rulesFor .plain ciTinyProfile effortTemplate) = .ok p ∧
    Delivered (forwarded p 1024) := by
  obtain ⟨p, hprepare⟩ := prepare_effortRequest
  obtain ⟨body, hbody, hiff⟩ := delivered_iff parseProfile_ciTiny hprepare 1024
  cases hbody
  refine ⟨p, hprepare, hiff.2 ⟨?_, fun _ => ?_, ?_, nofun⟩⟩
  all_goals exact (renders_iff_strict _).1 (by decide +kernel)

/-- A message with a field that the chat template ignores, and a key for a superscript two. -/
def nanRequest : Json :=
  .obj [(str "messages", .list [.obj [(str "role", .str (str "user")),
    (str "content", .str (str "Hi")), (str "score", .float .nan)]])]

def superscriptRequest : Json :=
  .obj [(str "messages", .list [.obj [(str "role", .str (str "user")),
      (str "content", .str (str "Hi"))]]),
    (str "logit_bias", .obj [([0xB2], .int 1)])]

/-- The keys of a `logit_bias`. -/
def biasKeys : Json → List Str
  | .obj bias => bias.map Prod.fst
  | _ => []

/-- Both are accepted; the first is never sent, whatever the backend would reply, and for the second
mlx-lm gets a key that is no number. -/
theorem accepted_undelivered :
    (∃ p, prepare .plain nanRequest (rulesFor .plain ciTinyProfile effortTemplate) = .ok p ∧
      (∀ reply, post (forwarded p 1024) reply = .httpError) ∧ ¬ Delivered (forwarded p 1024)) ∧
    ∃ p, prepare .plain superscriptRequest (rulesFor .plain ciTinyProfile effortTemplate) = .ok p ∧
      ¬ Delivered (forwarded p 1024) := by
  have hnan : ((prepare .plain nanRequest
      (rulesFor .plain ciTinyProfile effortTemplate)).toOption.map
      fun p => renders false (.obj (forwarded p 1024))) = some false := by
    decide +kernel
  have hsuperscript : ((prepare .plain superscriptRequest
      (rulesFor .plain ciTinyProfile effortTemplate)).toOption.map
      fun p => biasKeys (getD (forwarded p 1024) (str "logit_bias"))) = some [[0xB2]] := by
    decide +kernel
  have hkey : ¬ ∃ n, readInt [0xB2] = .ok n := by
    rw [readInt_iff (by decide +kernel)]
    exact fun h => absurd (h.1 0xB2 (List.mem_singleton_self _)) (by decide +kernel)
  constructor
  · cases hp : prepare .plain nanRequest (rulesFor .plain ciTinyProfile effortTemplate) with
    | error e =>
      rw [hp] at hnan
      cases hnan
    | ok p =>
      rw [hp] at hnan
      have hnot : renders false (.obj (forwarded p 1024)) = false := Option.some.inj hnan
      refine ⟨p, rfl, fun reply => ?_, fun h => ?_⟩
      · unfold post
        rw [if_neg (by rw [hnot]; exact Bool.false_ne_true)]
      · exact Bool.false_ne_true (hnot.symm.trans (sent_iff.1 h.sent))
  · cases hp : prepare .plain superscriptRequest (rulesFor .plain ciTinyProfile effortTemplate) with
    | error e =>
      rw [hp] at hsuperscript
      cases hsuperscript
    | ok p =>
      rw [hp] at hsuperscript
      refine ⟨p, rfl, fun h => hkey ?_⟩
      have hkeys : biasKeys (getD (forwarded p 1024) (str "logit_bias")) = [[0xB2]] :=
        Option.some.inj hsuperscript
      unfold biasKeys at hkeys
      split at hkeys
      · next bias hbias =>
        obtain ⟨item, hitem, hitemKey⟩ := List.mem_map.1 (hkeys ▸ List.mem_singleton_self _)
        rw [← hitemKey]
        exact h.bias bias hbias item hitem
      · cases hkeys

end AgentLab.Gateway
