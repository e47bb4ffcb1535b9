import AgentLab.Gateway.Translate
import AgentLab.Python.Render

/-!
# Chunks

The chunks of the backend's stream: `_well_formed`, which `backend_chunks` checks, and
`public_chunk`, which rewrites a chunk for the client. Both are as the code computes them, with the
exceptions that a chunk of another shape would raise.

`choicesOf`, `deltaOf` and `callsOf` read a chunk the way both answer paths do; on a chunk that is
well formed the code reads just these (`WellFormed`).
-/

namespace AgentLab.Gateway

open Python

/-! ## The shape -/

/-- `c is None or (isinstance(c, int) and not isinstance(c, bool))`. -/
def isCount : Json → Bool
  | .null | .int _ => true
  | _ => false

def isObj : Json → Bool
  | .obj _ => true
  | _ => false

/-- The check of `chunk.get("usage")`. -/
def usageOk : Json → Bool
  | .null => true
  | .obj usage =>
    match (getD usage (str "prompt_tokens_details")).or (.obj []) with
    | .obj details =>
      [getD usage (str "prompt_tokens"), getD usage (str "completion_tokens"),
        getD details (str "cached_tokens")].all isCount
    | _ => false
  | _ => false

/-- The check of one choice. -/
def choiceOk : Json → Bool
  | .obj choice =>
    match (getD choice (str "delta")).or (.obj []) with
    | .obj delta =>
      ([str "content", str "reasoning"].all fun key => isStr ((getD delta key).or (.str []))) &&
        match (getD delta (str "tool_calls")).or (.list []) with
        | .list calls => calls.all isObj
        | _ => false
    | _ => false
  | _ => false

/-- `_well_formed`. -/
def wellFormed : Json → Bool
  | .obj chunk =>
    usageOk (getD chunk (str "usage")) &&
      match (getD chunk (str "choices")).or (.list []) with
      | .list choices => choices.all choiceOk
      | _ => false
  | _ => false

/-! ## The public chunk -/

/-- The rewriting of one choice: `reasoning` is given the name that many clients read, too. -/
def publicChoice (choice : Json) : Except PyExc Json := do
  let delta ← choice.get (str "delta")
  match choice, delta with
  | .obj choice, .obj delta =>
    match Dict.get? delta (str "reasoning") with
    | some reasoning =>
      return .obj (Dict.set choice (str "delta")
        (.obj (Dict.set delta (str "reasoning_content") reasoning)))
    | none => return .obj choice
  | choice, _ => return choice

/-- `Gateway.public_chunk`. -/
def publicChunk (modelName : String) : Json → Except PyExc Json
  | .obj chunk => do
    let chunk := Dict.set chunk (str "model") (.str (str modelName))
    let chunk := Dict.set chunk (str "object") (.str (str "chat.completion.chunk"))
    let chunk := Dict.pop chunk (str "system_fingerprint")
    let choices ← (← ((getD chunk (str "choices")).or (.list [])).iter).mapM publicChoice
    match getD chunk (str "choices") with
    | .list _ => return .obj (Dict.set chunk (str "choices") (.list choices))
    | _ => return .obj chunk
  | _ => .error .typeError

/-! ## Reading a chunk -/

/-- The items of a list, and none of anything else. -/
def items : Json → List Json
  | .list l => l
  | _ => []

/-- The items of a dictionary, and none of anything else. -/
def dictOf : Json → Dict Json
  | .obj o => o
  | _ => []

def choicesOf (chunk : Dict Json) : List (Dict Json) :=
  (items (getD chunk (str "choices"))).map dictOf

def deltaOf (choice : Dict Json) : Dict Json := dictOf (getD choice (str "delta"))

def callsOf (delta : Dict Json) : List (Dict Json) :=
  (items (getD delta (str "tool_calls"))).map dictOf

/-- A delta that the code can read. -/
structure DeltaOk (delta : Dict Json) : Prop where
  text : ∀ key ∈ [str "content", str "reasoning"],
    (getD delta key).truthy = true → ∃ s, getD delta key = .str s
  calls : (getD delta (str "tool_calls")).or (.list []) = .list ((callsOf delta).map .obj)

structure ChoiceOk (choice : Dict Json) : Prop where
  delta : (getD choice (str "delta")).or (.obj []) = .obj (deltaOf choice)
  ok : DeltaOk (deltaOf choice)

/-- A chunk that the code can read. -/
structure WellFormed (chunk : Dict Json) : Prop where
  usage : usageOk (getD chunk (str "usage")) = true
  choices : (getD chunk (str "choices")).or (.list []) = .list ((choicesOf chunk).map .obj)
  ok : ∀ choice ∈ choicesOf chunk, ChoiceOk choice

theorem or_list {v : Json} {l : List Json} (h : v.or (.list []) = .list l) : l = items v := by
  unfold Json.or at h
  split_ifs at h with ht
  · rw [h]; rfl
  · cases h
    cases v <;> simp_all [Json.truthy, items]

theorem or_obj {v : Json} {o : Dict Json} (h : v.or (.obj []) = .obj o) : o = dictOf v := by
  unfold Json.or at h
  split_ifs at h with ht
  · rw [h]; rfl
  · cases h
    cases v <;> simp_all [Json.truthy, dictOf]

theorem map_obj_dictOf {l : List Json} (h : ∀ v ∈ l, isObj v = true) :
    (l.map dictOf).map .obj = l := by
  rw [List.map_map]
  refine (List.map_congr_left fun v hv => ?_).trans l.map_id
  have := h v hv
  cases v <;> first | rfl | cases this

theorem choiceOk_obj {choice : Dict Json} (h : choiceOk (.obj choice) = true) :
    ChoiceOk choice := by
  unfold choiceOk at h
  dsimp only at h
  split at h
  · next delta hdelta =>
    have hd : delta = deltaOf choice := or_obj hdelta
    subst hd
    obtain ⟨htext, hcalls⟩ := Bool.and_eq_true_iff.1 h
    refine ⟨hdelta, fun key hkey ht => ?_, ?_⟩
    · have hs := List.all_eq_true.1 htext key hkey
      rw [Json.or, if_pos ht] at hs
      cases hv : getD (deltaOf choice) key with
      | str s => exact ⟨s, rfl⟩
      | _ => rw [hv] at hs; cases hs
    · split at hcalls
      · next calls hlist =>
        obtain rfl := or_list hlist
        unfold callsOf
        rw [hlist, map_obj_dictOf (List.all_eq_true.1 hcalls)]
      · cases hcalls
  · cases h

/-- **What the check says**, in the terms in which the chunk is read. -/
theorem wellFormed_obj {v : Json} (h : wellFormed v = true) :
    ∃ chunk, v = .obj chunk ∧ WellFormed chunk := by
  cases v with
  | obj chunk =>
    refine ⟨chunk, rfl, ?_⟩
    unfold wellFormed at h
    dsimp only at h
    obtain ⟨husage, hchoices⟩ := Bool.and_eq_true_iff.1 h
    split at hchoices
    · next choices hlist =>
      obtain rfl := or_list hlist
      have hall := List.all_eq_true.1 hchoices
      have hobj : ∀ v ∈ items (getD chunk (str "choices")), isObj v = true := by
        intro v hv
        have := hall v hv
        cases v <;> first | rfl | cases this
      refine ⟨husage, ?_, fun choice hchoice => ?_⟩
      · unfold choicesOf
        rw [hlist, map_obj_dictOf hobj]
      · obtain ⟨v, hv, rfl⟩ := List.mem_map.1 hchoice
        have hok := hall v hv
        cases v with
        | obj choice => exact choiceOk_obj hok
        | _ => cases hok
    · cases hchoices
  | _ => cases h

/-! ## The public chunk of a well-formed one -/

def publicDelta (delta : Dict Json) : Dict Json :=
  match Dict.get? delta (str "reasoning") with
  | some reasoning => Dict.set delta (str "reasoning_content") reasoning
  | none => delta

def publicChoiceOf (choice : Dict Json) : Dict Json :=
  match getD choice (str "delta") with
  | .obj delta =>
    match Dict.get? delta (str "reasoning") with
    | some _ => Dict.set choice (str "delta") (.obj (publicDelta delta))
    | none => choice
  | _ => choice

def publicOf (modelName : String) (chunk : Dict Json) : Dict Json :=
  let renamed := Dict.pop (Dict.set (Dict.set chunk (str "model") (.str (str modelName)))
    (str "object") (.str (str "chat.completion.chunk"))) (str "system_fingerprint")
  match getD chunk (str "choices") with
  | .list _ => Dict.set renamed (str "choices")
      (.list ((choicesOf chunk).map fun choice => .obj (publicChoiceOf choice)))
  | _ => renamed

theorem publicChoice_obj (choice : Dict Json) :
    publicChoice (.obj choice) = .ok (.obj (publicChoiceOf choice)) := by
  unfold publicChoice publicChoiceOf Json.get publicDelta
  show (match Json.obj choice, getD choice (str "delta") with
    | .obj choice, .obj delta =>
      match Dict.get? delta (str "reasoning") with
      | some reasoning =>
        (.ok (.obj (Dict.set choice (str "delta")
          (.obj (Dict.set delta (str "reasoning_content") reasoning)))) : Except PyExc Json)
      | none => .ok (.obj choice)
    | choice, _ => .ok choice) = _
  cases getD choice (str "delta") with
  | obj delta => cases hr : Dict.get? delta (str "reasoning") <;> simp [hr]
  | _ => rfl

theorem mapM_ok {f : Json → Except PyExc Json} {g : Dict Json → Json} :
    ∀ {l : List (Dict Json)}, (∀ o ∈ l, f (.obj o) = .ok (g o)) →
      (l.map .obj).mapM f = .ok (l.map g)
  | [], _ => rfl
  | o :: l, h => by
    rw [List.map_cons, List.mapM_cons, h o List.mem_cons_self,
      mapM_ok fun o' ho' => h o' (List.mem_cons_of_mem _ ho')]
    rfl

variable {chunk : Dict Json} {modelName : String}

theorem publicChunk_eq (h : WellFormed chunk) :
    publicChunk modelName (.obj chunk) = .ok (.obj (publicOf modelName chunk)) := by
  have hchoices : getD (Dict.pop (Dict.set (Dict.set chunk (str "model") (.str (str modelName)))
      (str "object") (.str (str "chat.completion.chunk"))) (str "system_fingerprint"))
      (str "choices") = getD chunk (str "choices") := by
    rw [getD_pop_of_ne _ (by decide), getD_set_of_ne _ _ (by decide),
      getD_set_of_ne _ _ (by decide)]
  unfold publicChunk publicOf
  dsimp only
  rw [hchoices, h.choices]
  show (((choicesOf chunk).map .obj).mapM publicChoice >>= _) = _
  rw [mapM_ok (g := fun choice => .obj (publicChoiceOf choice)) fun choice _ =>
    publicChoice_obj choice]
  cases getD chunk (str "choices") <;> rfl

/-! ## What the public chunk keeps -/

theorem getD_publicOf_model :
    getD (publicOf modelName chunk) (str "model") = .str (str modelName) := by
  unfold publicOf
  dsimp only
  split
  · rw [getD_set_of_ne _ _ (by decide), getD_pop_of_ne _ (by decide),
      getD_set_of_ne _ _ (by decide),
      getD_set_self]
  · rw [getD_pop_of_ne _ (by decide), getD_set_of_ne _ _ (by decide), getD_set_self]

theorem getD_publicOf {key : Str}
    (h : key ∉ [str "model", str "object", str "system_fingerprint", str "choices"]) :
    getD (publicOf modelName chunk) key = getD chunk key := by
  simp only [List.mem_cons, List.not_mem_nil, or_false, not_or] at h
  obtain ⟨hmodel, hobject, hfingerprint, hchoices⟩ := h
  unfold publicOf
  dsimp only
  split
  · rw [getD_set_of_ne _ _ (Ne.symm hchoices), getD_pop_of_ne _ (Ne.symm hfingerprint),
      getD_set_of_ne _ _ (Ne.symm hobject), getD_set_of_ne _ _ (Ne.symm hmodel)]
  · rw [getD_pop_of_ne _ (Ne.symm hfingerprint), getD_set_of_ne _ _ (Ne.symm hobject),
      getD_set_of_ne _ _ (Ne.symm hmodel)]

theorem choicesOf_publicOf :
    choicesOf (publicOf modelName chunk) = (choicesOf chunk).map publicChoiceOf := by
  unfold publicOf choicesOf
  dsimp only
  cases hc : getD chunk (str "choices") with
  | list cs =>
    rw [getD_set_self]
    simp [items, dictOf]
  | _ =>
    dsimp only
    rw [getD_pop_of_ne _ (by decide), getD_set_of_ne _ _ (by decide),
      getD_set_of_ne _ _ (by decide), hc]
    rfl

theorem getD_publicChoiceOf (choice : Dict Json) {key : Str} (h : key ≠ str "delta") :
    getD (publicChoiceOf choice) key = getD choice key := by
  unfold publicChoiceOf
  split
  · split
    · rw [getD_set_of_ne _ _ (Ne.symm h)]
    · rfl
  · rfl

theorem deltaOf_publicChoiceOf (choice : Dict Json) :
    deltaOf (publicChoiceOf choice) = publicDelta (deltaOf choice) := by
  unfold publicChoiceOf deltaOf
  cases hd : getD choice (str "delta") with
  | obj delta =>
    dsimp only
    split
    · rw [getD_set_self]; rfl
    · next hr => rw [hd]; unfold publicDelta dictOf; rw [hr]
  | _ => dsimp only; rw [hd]; rfl

theorem getD_publicDelta (delta : Dict Json) {key : Str} (h : key ≠ str "reasoning_content") :
    getD (publicDelta delta) key = getD delta key := by
  unfold publicDelta
  split
  · rw [getD_set_of_ne _ _ (Ne.symm h)]
  · rfl

/-- The delta's reasoning under its other name. -/
theorem getD_publicDelta_reasoning_content {delta : Dict Json}
    (h : Dict.get? delta (str "reasoning_content") = none) :
    getD (publicDelta delta) (str "reasoning_content") = getD delta (str "reasoning") := by
  unfold publicDelta
  cases hr : Dict.get? delta (str "reasoning") with
  | some r => rw [getD_set_self, getD, hr]; rfl
  | none => rw [getD, getD, h, hr]

theorem renders_publicDelta {b : Bool} {delta : Dict Json} (h : renders b (.obj delta) = true) :
    renders b (.obj (publicDelta delta)) = true := by
  unfold publicDelta
  split
  · next r hr =>
    exact renders_set h (encodable_str _) (renders_obj.1 h _ (mem_of_get? hr)).2
  · exact h

theorem renders_publicChoiceOf {b : Bool} {choice : Dict Json}
    (h : renders b (.obj choice) = true) : renders b (.obj (publicChoiceOf choice)) = true := by
  unfold publicChoiceOf
  split
  · next delta hdelta =>
    split
    · exact renders_set h (encodable_str _) (renders_publicDelta (hdelta ▸ renders_getD h _))
    · exact h
  · exact h

theorem renders_choicesOf {b : Bool} (h : renders b (.obj chunk) = true) :
    ∀ choice ∈ choicesOf chunk, renders b (.obj choice) = true := by
  intro choice hchoice
  obtain ⟨v, hv, rfl⟩ := List.mem_map.1 hchoice
  have hitems : renders b v = true := by
    have := renders_getD h (str "choices")
    cases hc : getD chunk (str "choices") with
    | list l => rw [hc] at this hv; exact renders_list.1 this v hv
    | _ => rw [hc] at hv; cases hv
  cases v with
  | obj o => exact hitems
  | _ => rfl

/-- Rewriting a chunk makes nothing unrenderable. -/
theorem renders_publicOf {b : Bool} (h : renders b (.obj chunk) = true) :
    renders b (.obj (publicOf modelName chunk)) = true := by
  have hrenamed := renders_pop (renders_set (renders_set h (encodable_str "model")
    (v := .str (str modelName)) (encodable_str modelName)) (encodable_str "object")
    (v := .str (str "chat.completion.chunk")) (encodable_str _)) (str "system_fingerprint")
  unfold publicOf
  dsimp only
  split
  · refine renders_set hrenamed (encodable_str _) (renders_list.2 fun v hv => ?_)
    obtain ⟨choice, hchoice, rfl⟩ := List.mem_map.1 hv
    exact renders_publicChoiceOf (renders_choicesOf h choice hchoice)
  · exact hrenamed

end AgentLab.Gateway
