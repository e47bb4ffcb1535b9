import AgentLab.Gateway.Refusals
import AgentLab.Gateway.Forwarded

/-!
# Normalising messages

`normalize_messages` of `tokens.py`: the messages as mlx-lm hands them to the chat template. It
walks the nested values that `_messages` of `translate.py` has checked, without checks of its own:
on what `_messages` returns it never fails (`messages_normalised`). What it does to a message is
said in `Normalised`, without reference to how it goes about it.
-/

namespace AgentLab.Gateway

open Python

variable (rt : Runtime)

/-! ## The code -/

/-- `json.loads(value)`. -/
def Runtime.loadsValue : Json → Except PyExc Json
  | .str s => (rt.loads s).mapError fun
    | .valueError => .valueError
    | .recursionError => .recursionError
  | _ => .error .typeError

/-- `"".join(values)`. -/
def joinValues (values : List Json) : Except PyExc Str := do
  let texts ← values.mapM fun
    | .str s => .ok s
    | _ => .error .typeError
  return texts.flatten

def normalizeContent (message : Dict Json) : Except PyExc (Dict Json) :=
  match getD message (str "content") with
  | .list parts => do
    let texts ← parts.mapM fun part => part.item (str "text")
    return Dict.set message (str "content") (.str (← joinValues texts))
  | .null => .ok (Dict.set message (str "content") (.str []))
  | _ => .ok message

def normalizeCall (call : Json) : Except PyExc Json :=
  match call with
  | .obj c =>
    match getD c (str "function") with
    | .obj function =>
      if (getD function (str "arguments")).truthy then do
        let arguments ← rt.loadsValue (getD function (str "arguments"))
        return .obj (Dict.set c (str "function")
          (.obj (Dict.set function (str "arguments") arguments)))
      else .ok call
    | _ => .ok call
  | _ => .ok call

/-- The loop over `message.get("tool_calls") or []`, which changes the calls where they are. -/
def normalizeCalls (message : Dict Json) : Except PyExc (Dict Json) :=
  match getD message (str "tool_calls") with
  | .list calls => do
    return Dict.set message (str "tool_calls") (.list (← calls.mapM (normalizeCall rt)))
  | value => do
    let _ ← (value.or (.list [])).iter
    return message

def normalizeMessage (message : Json) : Except PyExc Json :=
  match message with
  | .obj o => do
    let o ← normalizeContent o
    return .obj (← normalizeCalls rt o)
  | _ => .error .attributeError

/-- `normalize_messages`. -/
def normalizeMessages (messages : List Json) : Except PyExc (List Json) :=
  messages.mapM (normalizeMessage rt)

/-! ## What it is for -/

/-- The text of a content: that of its parts in order, itself, or none. -/
def TextOf (content : Json) (text : Str) : Prop :=
  content = .null ∧ text = [] ∨ content = .str text ∨
    ∃ parts texts, content = .list parts ∧
      List.Forall₂ (fun part t => field part "text" = .str t) parts texts ∧ text = texts.flatten

/-- The call with its arguments parsed, or as it is without any. -/
def NormalisedCall (call call' : Json) : Prop :=
  ∃ c function, call = .obj c ∧ getD c (str "function") = .obj function ∧
    ((getD function (str "arguments") = .null ∨ getD function (str "arguments") = .str []) ∧
        call' = call ∨
      ∃ s v, getD function (str "arguments") = .str s ∧ s ≠ [] ∧ rt.loads s = .ok v ∧
        call' = .obj (Dict.set c (str "function") (.obj (Dict.set function (str "arguments") v))))

/-- One message for the chat template: the text of its content, its calls with their arguments
parsed, and everything else, the role too, as it is. -/
structure Normalised (message message' : Dict Json) : Prop where
  content : ∃ text, getD message' (str "content") = .str text ∧
    TextOf (getD message (str "content")) text
  calls : ∀ calls, getD message (str "tool_calls") = .list calls →
    ∃ calls', getD message' (str "tool_calls") = .list calls' ∧
      List.Forall₂ (NormalisedCall rt) calls calls'
  noCalls : getD message (str "tool_calls") = .null →
    Dict.get? message' (str "tool_calls") = Dict.get? message (str "tool_calls")
  others : ∀ key, key ≠ str "content" → key ≠ str "tool_calls" →
    Dict.get? message' key = Dict.get? message key

/-! ## Values that were checked -/

variable {rt : Runtime}

theorem mapM_forall₂ {α β : Type} {f : α → Except PyExc β} {R : α → β → Prop} {l : List α}
    (h : ∀ a ∈ l, ∃ b, f a = .ok b ∧ R a b) :
    ∃ l', l.mapM f = .ok l' ∧ List.Forall₂ R l l' := by
  induction l with
  | nil => exact ⟨[], rfl, .nil⟩
  | cons a l ih =>
    obtain ⟨⟨b, hb, hab⟩, hl⟩ := List.forall_mem_cons.1 h
    obtain ⟨l', hl', hR⟩ := ih hl
    refine ⟨b :: l', ?_, .cons hab hR⟩
    rw [List.mapM_cons, hb, hl']
    rfl

theorem str_of_isStr {value : Json} (h : isStr value = true) : ∃ s, value = .str s := by
  cases value with
  | str s => exact ⟨s, rfl⟩
  | null | bool | int | float | list | obj => cases h

theorem joinValues_str (texts : List Str) : joinValues (texts.map .str) = .ok texts.flatten := by
  have h : ((texts.map Json.str).mapM fun
      | .str s => (.ok s : Except PyExc Str)
      | _ => .error .typeError) = .ok texts := by
    induction texts with
    | nil => rfl
    | cons s texts ih =>
      rw [List.map_cons, List.mapM_cons, ih]
      rfl
  unfold joinValues
  rw [h]
  rfl

/-- The text of a part is there. -/
theorem item_text {part : Json} (h : PartValid part) :
    ∃ t, part.item (str "text") = .ok (.str t) ∧ field part "text" = .str t := by
  obtain ⟨t, ht⟩ := str_of_isStr h.2
  cases part with
  | obj p =>
    refine ⟨t, ?_, ht⟩
    have hget : getD p (str "text") = .str t := ht
    unfold getD at hget
    show Option.elim (Dict.get? p (str "text")) (Except.error PyExc.keyError) Except.ok = _
    cases hv : Dict.get? p (str "text") with
    | none =>
      rw [hv] at hget
      cases hget
    | some v =>
      rw [hv] at hget
      exact congrArg Except.ok hget
  | null | bool | int | float | str | list => cases ht

theorem items_text {parts : List Json} (h : ∀ part ∈ parts, PartValid part) :
    ∃ texts : List Str, (parts.mapM fun part => part.item (str "text")) = .ok (texts.map .str) ∧
      List.Forall₂ (fun part t => field part "text" = .str t) parts texts := by
  induction parts with
  | nil => exact ⟨[], rfl, .nil⟩
  | cons part parts ih =>
    obtain ⟨hpart, hparts⟩ := List.forall_mem_cons.1 h
    obtain ⟨t, ht, hfield⟩ := item_text hpart
    obtain ⟨texts, htexts, hfields⟩ := ih hparts
    refine ⟨t :: texts, ?_, .cons hfield hfields⟩
    rw [List.mapM_cons, ht, htexts]
    rfl

/-! ## Parts of a message -/

theorem normalizeContent_ok {message : Dict Json}
    (h : ContentValid (getD message (str "content"))) :
    ∃ text, TextOf (getD message (str "content")) text ∧
      (normalizeContent message = .ok (Dict.set message (str "content") (.str text)) ∨
        normalizeContent message = .ok message ∧ getD message (str "content") = .str text) := by
  unfold normalizeContent
  cases hcontent : getD message (str "content") with
  | null => exact ⟨[], .inl ⟨rfl, rfl⟩, .inl rfl⟩
  | str s => exact ⟨s, .inr (.inl rfl), .inr ⟨rfl, rfl⟩⟩
  | list parts =>
    rw [hcontent] at h
    obtain ⟨texts, hitems, hfields⟩ := items_text h
    refine ⟨texts.flatten, .inr (.inr ⟨parts, texts, rfl, hfields, rfl⟩), .inl ?_⟩
    dsimp only
    rw [hitems, Except.ok_bind, joinValues_str]
    rfl
  | bool | int | float | obj =>
    rw [hcontent] at h
    exact h.elim

theorem normalizeCall_ok {call : Json} (h : CallValid rt call) :
    ∃ call', normalizeCall rt call = .ok call' ∧ NormalisedCall rt call call' := by
  obtain ⟨hname, harguments⟩ := h
  cases call with
  | obj c =>
    cases hfunction : getD c (str "function") with
    | obj function =>
      have hfield : field (Json.obj c) "function" = .obj function := hfunction
      rw [hfield] at harguments
      have hargs : ArgumentsValid rt (getD function (str "arguments")) := harguments
      unfold normalizeCall
      dsimp only
      rw [hfunction]
      dsimp only
      cases hvalue : getD function (str "arguments") with
      | null =>
        exact ⟨_, if_neg (by simp [Json.truthy]), c, function, rfl, hfunction,
          .inl ⟨.inl hvalue, rfl⟩⟩
      | str s =>
        cases s with
        | nil =>
          exact ⟨_, if_neg (by simp [Json.truthy]), c, function, rfl, hfunction,
            .inl ⟨.inr hvalue, rfl⟩⟩
        | cons a s =>
          rw [hvalue] at hargs
          obtain ⟨v, hv⟩ : ∃ v, rt.loads (a :: s) = .ok v := hargs
          refine ⟨_, ?_, c, function, rfl, hfunction, .inr ⟨_, v, hvalue, nofun, hv, rfl⟩⟩
          rw [if_pos (by simp [Json.truthy]), Runtime.loadsValue, hv]
          rfl
      | bool | int | float | list | obj =>
        rw [hvalue] at hargs
        exact hargs.elim
    | null | bool | int | float | str | list =>
      have hfield : field (Json.obj c) "function" = _ := hfunction
      rw [hfield] at hname
      cases hname
  | null | bool | int | float | str | list => cases hname

theorem normalizeCalls_ok {message : Dict Json}
    (h : CallsValid rt (getD message (str "tool_calls"))) :
    (∃ calls calls', getD message (str "tool_calls") = .list calls ∧
      List.Forall₂ (NormalisedCall rt) calls calls' ∧
      normalizeCalls rt message = .ok (Dict.set message (str "tool_calls") (.list calls'))) ∨
    getD message (str "tool_calls") = .null ∧ normalizeCalls rt message = .ok message := by
  unfold normalizeCalls
  cases hcalls : getD message (str "tool_calls") with
  | null => exact .inr ⟨rfl, rfl⟩
  | list calls =>
    rw [hcalls] at h
    obtain ⟨calls', hmapM, hall⟩ := mapM_forall₂ fun call hcall => normalizeCall_ok (h call hcall)
    refine .inl ⟨calls, calls', rfl, hall, ?_⟩
    dsimp only
    rw [hmapM]
    rfl
  | bool | int | float | str | obj =>
    rw [hcalls] at h
    exact h.elim

/-! ## Whole messages -/

theorem normalizeMessage_ok {message : Dict Json}
    (hcontent : ContentValid (getD message (str "content")))
    (hcalls : CallsValid rt (getD message (str "tool_calls"))) :
    ∃ message', normalizeMessage rt (.obj message) = .ok (.obj message') ∧
      Normalised rt message message' := by
  have hne : str "content" ≠ str "tool_calls" := by decide
  -- the content first, which leaves everything else as it is
  obtain ⟨m, text, hm, htext, hother⟩ : ∃ m text, normalizeContent message = .ok m ∧
      (getD m (str "content") = .str text ∧ TextOf (getD message (str "content")) text) ∧
      ∀ key, key ≠ str "content" → Dict.get? m key = Dict.get? message key := by
    obtain ⟨text, htext, hset | ⟨hsame, hstr⟩⟩ := normalizeContent_ok hcontent
    · exact ⟨_, text, hset, ⟨getD_set_self _ _ _, htext⟩,
        fun key hkey => Dict.get?_set_of_ne _ _ (Ne.symm hkey)⟩
    · exact ⟨_, text, hsame, ⟨hstr, htext⟩, fun _ _ => rfl⟩
  have hkept : getD m (str "tool_calls") = getD message (str "tool_calls") := by
    unfold getD
    rw [hother _ (Ne.symm hne)]
  rw [← hkept] at hcalls
  unfold normalizeMessage
  dsimp only
  rw [hm, Except.ok_bind]
  rcases normalizeCalls_ok hcalls with ⟨calls, calls', hlist, hall, hset⟩ | ⟨hnull, hsame⟩
  · rw [hset]
    refine ⟨_, rfl, ⟨text, ?_, htext.2⟩, ?_, ?_, fun key hkey hkey' => ?_⟩
    · rw [getD_set_of_ne _ _ (Ne.symm hne)]
      exact htext.1
    · intro cs hcs
      rw [hkept, hcs] at hlist
      cases hlist
      exact ⟨calls', getD_set_self _ _ _, hall⟩
    · intro hnull
      rw [hkept, hnull] at hlist
      cases hlist
    · rw [Dict.get?_set_of_ne _ _ (Ne.symm hkey'), hother key hkey]
  · rw [hsame]
    refine ⟨m, rfl, ⟨text, htext⟩, ?_, fun _ => hother _ (Ne.symm hne),
      fun key hkey _ => hother key hkey⟩
    intro cs hcs
    rw [hkept, hcs] at hnull
    cases hnull

theorem asSystem_valid {message : Json} (h : MessageValid rt message) :
    ∃ o, asSystem message = .obj o ∧ ContentValid (getD o (str "content")) ∧
      CallsValid rt (getD o (str "tool_calls")) := by
  cases message with
  | obj o =>
    obtain ⟨-, hcontent, hcalls⟩ := h
    refine ⟨_, rfl, ?_⟩
    split_ifs
    · rw [getD_set_of_ne _ _ (by decide), getD_set_of_ne _ _ (by decide)]
      exact ⟨hcontent, hcalls⟩
    · exact ⟨hcontent, hcalls⟩
  | null | bool | int | float | str | list => exact h.elim

/-- **Messages that were checked can be normalised.** -/
theorem messages_normalised {value : Json} {messages : List Json}
    (h : checkMessages rt value = .ok messages) :
    ∃ result, normalizeMessages rt messages = .ok result ∧
      List.Forall₂ (fun message message' => ∃ o o', message = .obj o ∧ message' = .obj o' ∧
        Normalised rt o o') messages result := by
  have hvalid := (checkMessages_checked rt value).passes.1 ⟨messages, h⟩
  obtain ⟨client, rfl, rfl⟩ := checkMessages_ok h
  refine mapM_forall₂ fun message hmessage => ?_
  obtain ⟨original, horiginal, rfl⟩ := List.mem_map.1 hmessage
  have hone : MessageValid rt original := by
    cases client with
    | nil => cases horiginal
    | cons m ms => exact hvalid original horiginal
  obtain ⟨o, ho, hcontent, hcalls⟩ := asSystem_valid hone
  obtain ⟨o', ho', hnormalised⟩ := normalizeMessage_ok hcontent hcalls
  rw [ho]
  exact ⟨_, ho', o, o', rfl, rfl, hnormalised⟩

/-- A runtime that knows what one text says. -/
def Runtime.loading (text : Str) (v : Json) : Runtime :=
  { Runtime.plain with loads := fun s => if s = text then .ok v else .error .valueError }

/-- Text parts, and an assistant that only calls a function. -/
def partsAndCalls : Json :=
  .list [.obj [(str "role", .str (str "user")), (str "content", .list
      [.obj [(str "type", .str (str "text")), (str "text", .str (str "a"))],
        .obj [(str "type", .str (str "text")), (str "text", .str (str "b"))]])],
    .obj [(str "role", .str (str "assistant")), (str "content", .null), (str "tool_calls", .list
      [.obj [(str "function", .obj [(str "name", .str (str "f")),
        (str "arguments", .str (str "[1, 2]"))])]])]]

theorem messages_normalised_partsAndCalls :
    ∃ messages result, checkMessages (.loading (str "[1, 2]") (.list [.int 1, .int 2]))
        partsAndCalls = .ok messages ∧
      normalizeMessages (.loading (str "[1, 2]") (.list [.int 1, .int 2])) messages = .ok result ∧
      messages.length = result.length := by
  have hchecked : (checkMessages (.loading (str "[1, 2]") (.list [.int 1, .int 2]))
      partsAndCalls).toOption.isSome = true := by
    decide +kernel
  cases h : checkMessages (.loading (str "[1, 2]") (.list [.int 1, .int 2])) partsAndCalls with
  | error e =>
    rw [h] at hchecked
    cases hchecked
  | ok messages =>
    obtain ⟨result, hresult, hall⟩ := messages_normalised h
    exact ⟨messages, result, rfl, hresult, hall.length_eq⟩

end AgentLab.Gateway
