import AgentLab.Gateway.Summary

/-!
# Rendering the body

`json.dumps` renders the response that `_collect` assembles if and only if it renders the values
that went into it (`renders_bodyOf`): what the body leaves out of the chunks does not matter. So it
renders whenever it renders each chunk (`Renderable.of_chunks`).
-/

namespace AgentLab.Gateway

open Python

variable {modelName : String} {chunks : List (Dict Json)}

/-- The values of the chunks that the body holds are renderable. -/
structure Renderable (chunks : List (Dict Json)) : Prop where
  id : renders false (getD (firstOf chunks) (str "id")) = true
  created : renders false (getD (firstOf chunks) (str "created")) = true
  content : ∀ s ∈ contentOf chunks, encodable s = true
  reasoning : ∀ s ∈ reasoningOf chunks, encodable s = true
  calls : ∀ v ∈ answerCalls chunks, renders false v = true
  finishReason : renders false (finishReasonOf chunks) = true
  usage : renders false (usageOf chunks) = true

/-! ## The body -/

theorem encodable_flatten {parts : List Str} :
    encodable parts.flatten = true ↔ ∀ s ∈ parts, encodable s = true := by
  unfold encodable
  rw [List.all_flatten, List.all_eq_true]

theorem renders_messageOf :
    renders false (.obj (messageOf chunks)) = true ↔
      (∀ s ∈ contentOf chunks, encodable s = true) ∧
        (∀ s ∈ reasoningOf chunks, encodable s = true) ∧
        ∀ v ∈ answerCalls chunks, renders false v = true := by
  have hcontent : renders false (if (contentOf chunks).flatten.isEmpty then .null
      else .str (contentOf chunks).flatten) = true ↔
        ∀ s ∈ contentOf chunks, encodable s = true := by
    rw [← encodable_flatten]
    split_ifs with he
    · rw [List.isEmpty_iff.1 he]; simp [renders, encodable]
    · rfl
  have hreasoning : renders false (.obj (if (reasoningOf chunks).isEmpty then []
      else [(str "reasoning", .str (reasoningOf chunks).flatten),
        (str "reasoning_content", .str (reasoningOf chunks).flatten)])) = true ↔
        ∀ s ∈ reasoningOf chunks, encodable s = true := by
    rw [← encodable_flatten]
    split_ifs with he
    · rw [List.isEmpty_iff.1 he]; simp [renders, rendersItems, encodable]
    · rw [renders_obj_cons (encodable_str _), renders_obj_cons (encodable_str _)]
      simp [renders, rendersItems]
  have hcalls : renders false (.obj (if (answerCalls chunks).isEmpty then []
      else [(str "tool_calls", .list (answerCalls chunks))])) = true ↔
        ∀ v ∈ answerCalls chunks, renders false v = true := by
    rw [← renders_list]
    split_ifs with he
    · rw [List.isEmpty_iff.1 he]; simp [renders, rendersItems, rendersList]
    · rw [renders_obj_cons (encodable_str _)]; simp [renders, rendersItems]
  unfold messageOf
  rw [renders_obj_append, renders_obj_append, renders_obj_cons (encodable_str _),
    renders_obj_cons (encodable_str _), hcontent, hreasoning, hcalls]
  simp [renders, rendersItems, encodable_str, and_assoc]

theorem renders_usage :
    renders false (.obj (if (usageOf chunks).truthy then [(str "usage", usageOf chunks)] else [])) =
      true ↔ renders false (usageOf chunks) = true := by
  split_ifs with ht
  · rw [renders_obj_cons (encodable_str _)]; simp [renders, rendersItems]
  · have hnull : usageOf chunks = .null := lastTrue_of_falsy (eq_false_of_ne_true ht)
    rw [hnull]
    exact Iff.rfl

/-- **The body can be sent** if and only if the values in it can. -/
theorem renders_bodyOf :
    renders false (.obj (bodyOf modelName chunks)) = true ↔ Renderable chunks := by
  unfold bodyOf
  rw [renders_obj_append, renders_usage]
  simp only [renders_obj_cons (encodable_str _), renders_list, List.mem_singleton, forall_eq,
    renders_messageOf]
  simp only [renders, rendersItems, encodable_str]
  constructor
  · rintro ⟨⟨hid, -, hcreated, -, ⟨-, ⟨hcontent, hreasoning, hcalls⟩, hfinish, -⟩, -⟩, husage⟩
    exact ⟨hid, hcreated, hcontent, hreasoning, hcalls, hfinish, husage⟩
  · intro h
    exact ⟨⟨h.id, trivial, h.created, trivial, ⟨trivial, ⟨h.content, h.reasoning, h.calls⟩,
      h.finishReason, trivial⟩, trivial⟩, h.usage⟩

/-! ## The chunks -/

theorem renders_items {v : Json} (h : renders false v = true) :
    ∀ w ∈ items v, renders false w = true := by
  cases v with
  | list l => exact renders_list.1 h
  | _ => exact fun w hw => absurd hw List.not_mem_nil

theorem renders_dictOf {v : Json} (h : renders false v = true) :
    renders false (.obj (dictOf v)) = true := by
  cases v with
  | obj o => exact h
  | _ => rfl

theorem encodable_textOf {v : Json} {s : Str} (h : renders false v = true)
    (hs : textOf v = some s) : encodable s = true := by
  unfold textOf at hs
  split at hs
  · cases hs; exact h
  · cases hs

theorem renders_lastTrue {vs : List Json} (h : ∀ v ∈ vs, renders false v = true) (v : Json)
    (hv : renders false v = true) : renders false (lastTrue vs v) = true := by
  induction vs generalizing v with
  | nil => exact hv
  | cons w vs ih =>
    refine ih (fun u hu => h u (List.mem_cons_of_mem _ hu)) (w.or v) ?_
    unfold Json.or
    split_ifs
    · exact h w List.mem_cons_self
    · exact hv

section

variable (h : ∀ c ∈ chunks, renders false (.obj c) = true)

include h

theorem renders_delta {c choice : Dict Json} (hc : c ∈ chunks) (hchoice : choice ∈ choicesOf c) :
    renders false (.obj choice) = true ∧ renders false (.obj (deltaOf choice)) = true := by
  have hrender := renders_choicesOf (h c hc) choice hchoice
  exact ⟨hrender, renders_dictOf (renders_getD hrender _)⟩

theorem encodable_texts {key s : Str} (hs : s ∈ chunks.flatMap (textsOf key)) :
    encodable s = true := by
  obtain ⟨c, hc, hs⟩ := List.mem_flatMap.1 hs
  obtain ⟨choice, hchoice, hs⟩ := List.mem_filterMap.1 hs
  exact encodable_textOf (renders_getD (renders_delta h hc hchoice).2 _) hs

theorem renders_answerCalls : ∀ v ∈ answerCalls chunks, renders false v = true := by
  intro v hv
  obtain ⟨call, hcall, rfl⟩ := List.mem_map.1 hv
  obtain ⟨c, hc, hcall⟩ := List.mem_flatMap.1 hcall
  obtain ⟨choice, hchoice, hcall⟩ := List.mem_flatMap.1 hcall
  obtain ⟨w, hw, rfl⟩ := List.mem_map.1 hcall
  exact renders_pop (renders_dictOf
    (renders_items (renders_getD (renders_delta h hc hchoice).2 _) w hw)) _

theorem renders_firstOf : renders false (.obj (firstOf chunks)) = true := by
  unfold firstOf
  cases hf : chunks.find? fun c => !c.isEmpty with
  | none => rfl
  | some c => exact h c (List.mem_of_find?_eq_some hf)

/-- The body of renderable chunks is renderable. -/
theorem Renderable.of_chunks : Renderable chunks where
  id := renders_getD (renders_firstOf h) _
  created := renders_getD (renders_firstOf h) _
  content := fun _ hs => encodable_texts h hs
  reasoning := fun _ hs => encodable_texts h hs
  calls := renders_answerCalls h
  finishReason := by
    refine renders_lastTrue (fun v hv => ?_) _ rfl
    obtain ⟨c, hc, hv⟩ := List.mem_flatMap.1 hv
    obtain ⟨choice, hchoice, rfl⟩ := List.mem_map.1 hv
    exact renders_getD (renders_delta h hc hchoice).1 _
  usage := by
    refine renders_lastTrue (fun v hv => ?_) _ rfl
    obtain ⟨c, hc, rfl⟩ := List.mem_map.1 hv
    exact renders_getD (h c hc) _

end

end AgentLab.Gateway
