import Mathlib.Data.List.Infix

/-!
# Looking for a part of a list

`before? part list` is what stands before the first place where `part` occurs in `list`. Over `++`,
the search goes on behind a front in which no occurrence begins (`before?_append`); there is none if
the part does not occur in the front and overlaps neither its end (`before?_append_of_clear`) nor
what follows it (`before?_append_of_overlap`).
-/

namespace AgentLab.Lib

variable {α : Type} [DecidableEq α] {part front more : List α}

/-- What stands before the first occurrence. -/
def before? (part : List α) : List α → Option (List α)
  | [] => if part = [] then some [] else none
  | a :: rest =>
    if part <+: a :: rest then some [] else (before? part rest).map (a :: ·)

theorem before?_front {list : List α} (h : part <+: list) : before? part list = some [] := by
  cases list with
  | nil => exact if_pos (List.prefix_nil.1 h)
  | cons a rest => exact if_pos h

theorem before?_cons_later {a : α} {rest : List α} (h : ¬ part <+: a :: rest) :
    before? part (a :: rest) = (before? part rest).map (a :: ·) := if_neg h

/-- **Behind a front where no occurrence begins.** -/
theorem before?_append (h : ∀ rest, rest <:+ front → rest ≠ [] → ¬ part <+: rest ++ more) :
    before? part (front ++ more) = (before? part more).map (front ++ ·) := by
  induction front with
  | nil => simp
  | cons a front ih =>
    have hno : ¬ part <+: a :: (front ++ more) :=
      h (a :: front) List.suffix_rfl (List.cons_ne_nil a front)
    have hrest := ih fun rest hrest => h rest (hrest.trans (List.suffix_cons a front))
    rw [List.cons_append, before?_cons_later hno, hrest, Option.map_map]
    rfl

/-- Neither the front nor an end of it has to do with the part. -/
def Clear (part front : List α) : Prop :=
  ∀ rest ∈ front.tails, rest ≠ [] → ¬ part <+: rest ∧ ¬ rest <+: part

instance : Decidable (Clear part front) :=
  inferInstanceAs (Decidable (∀ rest ∈ front.tails, _))

theorem before?_append_of_clear (h : Clear part front) (more : List α) :
    before? part (front ++ more) = (before? part more).map (front ++ ·) := by
  refine before?_append fun rest hrest hne hpart => ?_
  obtain ⟨hlong, hshort⟩ := h rest ((List.mem_tails _ _).2 hrest) hne
  rcases List.prefix_or_prefix_of_prefix hpart (List.prefix_append rest more) with hp | hp
  · exact hlong hp
  · exact hshort hp

/-- What is left of the part when it has begun does not go on as `next` does. -/
def NoOverlap (part next : List α) : Prop :=
  ∀ rest ∈ part.tails, rest ≠ [] → rest ≠ part → ¬ rest <+: next ∧ ¬ next <+: rest

instance {next : List α} : Decidable (NoOverlap part next) :=
  inferInstanceAs (Decidable (∀ rest ∈ part.tails, _))

theorem before?_append_of_overlap {next : List α} (hfront : ¬ part <:+: front)
    (hover : NoOverlap part next) (hnext : next <+: more) :
    before? part (front ++ more) = (before? part more).map (front ++ ·) := by
  refine before?_append fun rest hrest hne hpart => ?_
  rcases List.prefix_or_prefix_of_prefix hpart (List.prefix_append rest more) with hp | hp
  · exact hfront (hp.isInfix.trans hrest.isInfix)
  · obtain ⟨left, rfl⟩ := hp
    have hleft : left <+: more := (List.prefix_append_right_inj rest).1 hpart
    by_cases hnil : left = []
    · subst hnil
      rw [List.append_nil] at hfront
      exact hfront hrest.isInfix
    · have hproper : left ≠ rest ++ left := fun heq => hne (List.append_left_eq_self.1 heq.symm)
      obtain ⟨hlong, hshort⟩ :=
        hover left ((List.mem_tails _ _).2 (List.suffix_append rest left)) hnil hproper
      rcases List.prefix_or_prefix_of_prefix hleft hnext with hp | hp
      · exact hlong hp
      · exact hshort hp

end AgentLab.Lib
