import Mathlib.Data.List.Basic

/-!
# Splitting a list that grows

The pieces of `l ++ m` between separators: those of `l` but for the last, and those of what the last
one and `m` make (`splitOnP_append`). So a list can be split as it comes, when only the last piece
is kept.
-/

namespace AgentLab.Lib

variable {α β : Type} {p : α → Bool} {l last : List α} {pieces : List (List α)}

theorem snoc_inj {front front' : List β} {b b' : β} (h : front ++ [b] = front' ++ [b']) :
    front = front' ∧ b = b' := by
  obtain ⟨hfront, hb⟩ := List.append_inj' h rfl
  exact ⟨hfront, List.singleton_inj.1 hb⟩

/-- **The pieces of a longer list.** -/
theorem splitOnP_append (h : l.splitOnP p = pieces ++ [last]) (m : List α) :
    (l ++ m).splitOnP p = pieces ++ (last ++ m).splitOnP p := by
  induction l generalizing pieces last with
  | nil =>
    have h : [] ++ [[]] = pieces ++ [last] := h
    obtain ⟨rfl, rfl⟩ := snoc_inj h
    rfl
  | cons a l ih =>
    obtain ⟨front, open_, hl⟩ : ∃ front open_, l.splitOnP p = front ++ [open_] :=
      ⟨_, _, (List.dropLast_append_getLast (List.splitOnP_ne_nil p l)).symm⟩
    rw [List.splitOnP_cons_eq_if_modifyHead, hl] at h
    rw [List.cons_append, List.splitOnP_cons_eq_if_modifyHead, ih hl]
    split_ifs at h ⊢ with hsep
    · have h : ([] :: front) ++ [open_] = pieces ++ [last] := h
      obtain ⟨rfl, rfl⟩ := snoc_inj h
      rfl
    · cases front with
      | nil =>
        have h : [] ++ [a :: open_] = pieces ++ [last] := h
        obtain ⟨rfl, rfl⟩ := snoc_inj h
        rw [List.nil_append, List.nil_append, List.cons_append, List.splitOnP_cons_eq_if_modifyHead,
          if_neg hsep]
      | cons piece front =>
        have h : ((a :: piece) :: front) ++ [open_] = pieces ++ [last] := h
        obtain ⟨rfl, rfl⟩ := snoc_inj h
        rfl

theorem splitOnP_map (f : β → α) (l : List β) :
    (l.map f).splitOnP p = (l.splitOnP (p ∘ f)).map (List.map f) := by
  induction l with
  | nil => rfl
  | cons b l ih =>
    rw [List.map_cons, List.splitOnP_cons_eq_if_modifyHead, ih, List.splitOnP_cons_eq_if_modifyHead]
    dsimp only [Function.comp_apply]
    split_ifs
    · rfl
    · cases l.splitOnP (p ∘ f) <;> rfl

end AgentLab.Lib
