import AgentLab.Backend.Settings
import AgentLab.Gateway.Chat
import AgentLab.Gateway.Prepared

/-!
# The prompt that is served

The backend renders the messages, the tools and the chat template arguments of the body that the
gateway forwards, the arguments on top of those it was started with. For every accepted request
this is what the gateway counted (`counted_eq_served`).
-/

namespace AgentLab.Gateway

open Python Config Backend

variable {rt : Runtime} {rules : Rules}

/-! ## What the backend renders -/

/-- What the backend applies its chat template to: its own chat template arguments, overridden by
those of the request. -/
def served (launchArgs body : Dict Json) : PromptInput where
  messages := match getD body (str "messages") with
    | .list messages => messages
    | _ => []
  tools := match getD body (str "tools") with
    | .list tools => some tools
    | _ => none
  templateArgs := match getD body (str "chat_template_kwargs") with
    | .obj args => Dict.merge launchArgs args
    | _ => launchArgs

/-- The values that the profile recommends for a mode. -/
def recommended (profile : Profile) (thinking : Bool) : Sampling :=
  if thinking then
    ⟨profile.backend.thinkingTemperature, profile.backend.thinkingTopP,
      profile.backend.thinkingTopK⟩
  else ⟨profile.backend.temperature, profile.backend.topP, profile.backend.topK⟩

/-! ## The forwarded body -/

/-- Tools are offered as a list that is not empty. -/
theorem checkTools_cons {value toolChoice : Json} {tools : List Json}
    (h : checkTools value toolChoice = .ok (some tools)) : ∃ t ts, tools = t :: ts := by
  unfold checkTools at h
  split at h
  · cases h
  · cases h
  · next ts hne =>
    obtain ⟨_, -, h⟩ := Except.bind_eq_ok.1 h
    split_ifs at h
    · cases h
    · cases h
      cases tools with
      | nil => exact absurd rfl (hne ·)
      | cons t ts => exact ⟨t, ts, rfl⟩
  · cases h

section

variable {body : Dict Json} {p : Prepared} (h : PreparedFrom rt rules body p)
include h

theorem PreparedFrom.getD_messages (m : ℤ) :
    getD (forwarded p m) (str "messages") = .list p.messages := by
  obtain ⟨forward, args, hfields, -, hbody, -⟩ := h.forward
  unfold getD forwarded
  rw [Dict.get?_set_of_ne _ _ (by decide), hbody, get?_forwardEnd, if_neg (by decide),
    if_neg (by decide), if_neg (fun hc => absurd hc.1 (by decide)),
    readFields_reads hfields _ (by decide),
    if_neg (by decide), forwardStart_messages]
  rfl

theorem PreparedFrom.getD_tools (m : ℤ) :
    getD (forwarded p m) (str "tools") = p.tools.elim .null .list := by
  obtain ⟨forward, args, hfields, -, hbody, -⟩ := h.forward
  have hasDict : ∀ s : Sampling, Dict.get? s.asDict (str "tools") = none := fun s => rfl
  unfold getD forwarded
  rw [Dict.get?_set_of_ne _ _ (by decide), hbody, get?_forwardEnd, if_neg (by decide),
    if_neg (by decide), if_neg (fun hc => absurd hc.1 (by decide)),
    readFields_reads hfields _ (by decide),
    if_neg (by decide), forwardStart_tools, hasDict]
  cases htools : p.tools with
  | none => rfl
  | some tools =>
    obtain ⟨t, ts, rfl⟩ := checkTools_cons (htools ▸ h.tools)
    rfl

/-- The chat template arguments are sent, unless there are none, and were added to the defaults. -/
theorem PreparedFrom.getD_templateArgs (m : ℤ) : ∃ args,
    getD (forwarded p m) (str "chat_template_kwargs") = (if args = [] then .null else .obj args) ∧
    p.templateArgs = Dict.merge [(THINKING_SWITCH, .bool rules.defaultThinking)] args := by
  obtain ⟨forward, args, hfields, -, hbody, hargs⟩ := h.forward
  refine ⟨args, ?_, hargs⟩
  have hasDict : ∀ s : Sampling, Dict.get? s.asDict (str "chat_template_kwargs") = none :=
    fun s => rfl
  unfold getD forwarded
  rw [Dict.get?_set_of_ne _ _ (by decide), hbody, get?_forwardEnd, if_neg (by decide),
    if_neg (by decide), hasDict, readFields_reads hfields _ (by decide),
    if_neg (show str "chat_template_kwargs" ∉ passedFields by decide),
    forwardStart_of_notMem _ _ (by decide)]
  by_cases hnil : args = [] <;> simp [hnil]

/-- A sampling value is the client's, or the recommended one of the mode. -/
theorem PreparedFrom.getD_sampling (m : ℤ) {key : Str}
    (hkey : key ∈ [str "temperature", str "top_p", str "top_k"]) :
    getD (forwarded p m) key =
      (given body key).getD
        (getD (if p.thinking then rules.thinkingSampling else rules.sampling).asDict key) := by
  obtain ⟨forward, args, hfields, -, hbody, -⟩ := h.forward
  have hnew : ∀ k ∈ [str "temperature", str "top_p", str "top_k"],
      str "max_tokens" ≠ k ∧ str "stream_options" ≠ k ∧ str "stream" ≠ k ∧
      str "chat_template_kwargs" ≠ k ∧ k ∉ [str "stop", str "logit_bias"] ∧ k ∈ passedFields ∧
      k ∉ [str "model", str "messages", str "tools"] := by decide
  obtain ⟨hmax, hoptions, hstream, hkwargs, hother, hpassed, hstart⟩ := hnew key hkey
  unfold getD forwarded
  rw [Dict.get?_set_of_ne _ _ hmax, hbody, get?_forwardEnd, if_neg hoptions, if_neg hstream,
    if_neg (fun hc => hkwargs hc.1), readFields_reads hfields _ hother, if_pos hpassed,
    forwardStart_of_notMem _ _ hstart, Option.or_none]
  cases given body key <;> rfl

end

/-! ## Counted and served -/

theorem rulesFor_effortVariable (profile : Profile) (template : Str) :
    (rulesFor rt profile template).effortVariable ≠ some THINKING_SWITCH := by
  unfold rulesFor
  dsimp only
  split_ifs
  · decide
  · nofun

/-- **The prompt that is counted is the prompt that is served**, for every profile and chat template
and every body that `prepare` accepts; and the sampling values are those of the mode that the chat
template is asked for, except where the client set its own. -/
theorem counted_eq_served {profile : Profile} {template : Str} {value : Json} {p : Prepared}
    (hprepare : prepare rt value (rulesFor rt profile template) = .ok p) (m : ℤ) :
    ∃ body, value = .obj body ∧
    served (templateArgs profile.backend) (forwarded p m) = countInput p ∧
    getD (countInput p).templateArgs THINKING_SWITCH = .bool p.thinking ∧
    ∀ key ∈ [str "temperature", str "top_p", str "top_k"],
      getD (forwarded p m) key =
        (given body key).getD (getD (recommended profile p.thinking).asDict key) := by
  obtain ⟨body, rfl, h⟩ := prepare_ok hprepare
  refine ⟨body, rfl, ?_, ?_, fun key hkey => ?_⟩
  · obtain ⟨args, hkwargs, hargs⟩ := h.getD_templateArgs m
    unfold served countInput
    rw [h.getD_messages, h.getD_tools, hkwargs, hargs]
    congr 1
    · cases p.tools <;> rfl
    · split_ifs with hnil
      · subst hnil; rfl
      · rfl
  · obtain ⟨_, args, -, heffort, -, hargs⟩ := h.forward
    show getD p.templateArgs THINKING_SWITCH = _
    rw [hargs]
    exact readEffort_switch (rulesFor_effortVariable profile template) heffort
  · rw [h.getD_sampling m hkey]
    unfold recommended
    cases p.thinking <;> rfl

/-- A developer message, an effort level and a temperature of the client. -/
theorem counted_eq_served_ciTiny : ∃ p,
    prepare .plain effortRequest (rulesFor .plain ciTinyProfile effortTemplate) = .ok p ∧
    served (templateArgs ciTinyProfile.backend) (forwarded p 256) = countInput p := by
  obtain ⟨p, hprepare⟩ := prepare_effortRequest
  obtain ⟨_, -, h, -⟩ := counted_eq_served hprepare 256
  exact ⟨p, hprepare, h⟩

end AgentLab.Gateway
