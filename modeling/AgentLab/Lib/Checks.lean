import Mathlib.Data.List.Basic

/-!
# Checks in sequence

A program that validates its input runs one check after another in `Except`, up to the first that
fails. Some errors are answers to whoever sent the input, others (`Bad`) nobody handles. `Checked`
says for which inputs a check passes and for which it ends in a bad error; its rules put the two
conditions of a program together from those of its parts. An input reaches a bad error in a list of
checks when some check meets it and all those before pass (`Meets`). `Errors` only says something of
every error that is raised.
-/

namespace Checks

variable {ε α β : Type} {Bad : ε → Prop} {c : Except ε α} {f : α → Except ε β}
variable {valid chokes valid' chokes' : Prop}

/-- The check passes exactly if `valid`, and ends in a bad error exactly if `chokes`. -/
structure Checked (Bad : ε → Prop) (c : Except ε α) (valid chokes : Prop) : Prop where
  passes : (∃ a, c = .ok a) ↔ valid
  bad : (∃ e, Bad e ∧ c = .error e) ↔ chokes

namespace Checked

theorem pure (a : α) : Checked Bad (.ok a) True False :=
  ⟨⟨fun _ => trivial, fun _ => ⟨a, rfl⟩⟩, ⟨nofun, False.elim⟩⟩

/-- An error that is an answer. -/
theorem refuse {e : ε} (h : ¬ Bad e) : Checked Bad (.error e : Except ε α) False False :=
  ⟨⟨nofun, False.elim⟩, ⟨fun ⟨_, hbad, he⟩ => h (Except.error.inj he ▸ hbad), False.elim⟩⟩

theorem crash {e : ε} (h : Bad e) : Checked Bad (.error e : Except ε α) False True :=
  ⟨⟨nofun, False.elim⟩, ⟨fun _ => trivial, fun _ => ⟨e, h, rfl⟩⟩⟩

/-- A check whose errors are all answers. -/
theorem of_refuses (h : ∀ e, c = .error e → ¬ Bad e) : Checked Bad c (∃ a, c = .ok a) False :=
  ⟨Iff.rfl, ⟨fun ⟨e, hbad, he⟩ => h e he hbad, False.elim⟩⟩

theorem congr (h : Checked Bad c valid chokes) (hv : valid ↔ valid') (hc : chokes ↔ chokes') :
    Checked Bad c valid' chokes' :=
  ⟨h.passes.trans hv, h.bad.trans hc⟩

/-- One check after another. -/
theorem bind (h : Checked Bad c valid chokes)
    (h' : ∀ a, c = .ok a → Checked Bad (f a) valid' chokes') :
    Checked Bad (c >>= f) (valid ∧ valid') (chokes ∨ valid ∧ chokes') := by
  cases hc : c with
  | error e =>
    have hv : ¬ valid := fun hv => by
      obtain ⟨a, ha⟩ := h.passes.2 hv
      rw [hc] at ha
      cases ha
    refine ⟨⟨nofun, fun hh => absurd hh.1 hv⟩, ⟨fun ⟨e', hbad, he⟩ => .inl ?_, fun hh => ?_⟩⟩
    · exact h.bad.1 ⟨e', hbad, hc.trans (congrArg _ (Except.error.inj he))⟩
    · rcases hh with hk | hk
      · obtain ⟨e', hbad, he⟩ := h.bad.2 hk
        exact ⟨e', hbad, congrArg _ (Except.error.inj (hc.symm.trans he))⟩
      · exact absurd hk.1 hv
  | ok a =>
    have hv : valid := h.passes.1 ⟨a, hc⟩
    have hk : ¬ chokes := fun hk => by
      obtain ⟨e, -, he⟩ := h.bad.2 hk
      rw [hc] at he
      cases he
    refine (h' a hc).congr ⟨fun h => ⟨hv, h⟩, And.right⟩ ⟨fun h => .inr ⟨hv, h⟩, fun h => ?_⟩
    exact h.elim (fun h => absurd h hk) And.right

/-- What is made of the result cannot fail. -/
theorem map (h : Checked Bad c valid chokes) (g : α → β) :
    Checked Bad (c >>= fun a => .ok (g a)) valid chokes :=
  (h.bind fun a _ => .pure (g a)).congr (by simp) (by simp)

/-- Every error is an answer exactly if nothing chokes the check. -/
theorem answers_iff (h : Checked Bad c valid chokes) :
    (∀ e, c = .error e → ¬ Bad e) ↔ ¬ chokes := by
  rw [← h.bad]
  exact ⟨fun hall ⟨e, hbad, he⟩ => hall e he hbad, fun hnone e he hbad => hnone ⟨e, hbad, he⟩⟩

end Checked

/-! ## A list of checks -/

section List

variable {ι : Type} {v k : ι → Prop} {l : List ι}

/-- Some check of the list chokes, and those before it pass. -/
def Meets (v k : ι → Prop) (l : List ι) : Prop :=
  ∃ done x rest, l = done ++ x :: rest ∧ (∀ y ∈ done, v y) ∧ k x

theorem meets_nil : ¬ Meets v k [] := fun ⟨done, _, _, h, _⟩ => by cases done <;> cases h

theorem meets_cons {x : ι} : Meets v k (x :: l) ↔ k x ∨ v x ∧ Meets v k l := by
  constructor
  · rintro ⟨done, y, rest, h, hdone, hy⟩
    cases done with
    | nil =>
      cases h
      exact .inl hy
    | cons z done =>
      cases h
      exact .inr ⟨hdone _ List.mem_cons_self,
        done, y, rest, rfl, fun w hw => hdone w (List.mem_cons_of_mem _ hw), hy⟩
  · rintro (hx | ⟨hx, done, y, rest, rfl, hdone, hy⟩)
    · exact ⟨[], x, l, rfl, nofun, hx⟩
    · exact ⟨x :: done, y, rest, rfl, List.forall_mem_cons.2 ⟨hx, hdone⟩, hy⟩

theorem meets_of_forall (h : ∀ x ∈ l, ¬ k x) : ¬ Meets v k l :=
  fun ⟨_, x, _, hl, _, hx⟩ => h x (hl ▸ List.mem_append_right _ List.mem_cons_self) hx

namespace Checked

/-- Checks of the items of a list with their positions, without a result. -/
theorem forM_zipIdx {g : ι × ℕ → Except ε Unit} (h : ∀ x j, Checked Bad (g (x, j)) (v x) (k x)) :
    ∀ (l : List ι) (n : ℕ),
      Checked Bad ((l.zipIdx n).forM g) (∀ x ∈ l, v x) (Meets v k l) := by
  intro l
  induction l with
  | nil =>
    intro n
    exact (pure ()).congr (by simp) (by simp [meets_nil])
  | cons x l ih =>
    intro n
    rw [List.zipIdx_cons]
    show Checked Bad (g (x, n) >>= fun _ => (l.zipIdx (n + 1)).forM g) _ _
    exact ((h x n).bind fun _ _ => ih (n + 1)).congr List.forall_mem_cons.symm meets_cons.symm

/-- Checks of the items of a list with their positions, with the list of their results. -/
theorem mapM_zipIdx {g : ι × ℕ → Except ε β} (h : ∀ x j, Checked Bad (g (x, j)) (v x) (k x)) :
    ∀ (l : List ι) (n : ℕ),
      Checked Bad ((l.zipIdx n).mapM g) (∀ x ∈ l, v x) (Meets v k l) := by
  intro l
  induction l with
  | nil =>
    intro n
    exact (pure []).congr (by simp) (by simp [meets_nil])
  | cons x l ih =>
    intro n
    rw [List.zipIdx_cons, List.mapM_cons]
    exact ((h x n).bind fun b _ => (ih (n + 1)).map (b :: ·)).congr List.forall_mem_cons.symm
      meets_cons.symm

/-- Checks that each add to what the ones before return. -/
theorem foldlM {g : β → ι → Except ε β} (h : ∀ b x, Checked Bad (g b x) (v x) (k x)) :
    ∀ (l : List ι) (b : β), Checked Bad (l.foldlM g b) (∀ x ∈ l, v x) (Meets v k l) := by
  intro l
  induction l with
  | nil =>
    intro b
    exact (pure b).congr (by simp) (by simp [meets_nil])
  | cons x l ih =>
    intro b
    rw [List.foldlM_cons]
    exact ((h b x).bind fun b' _ => ih b').congr List.forall_mem_cons.symm meets_cons.symm

end Checked

end List

/-! ## What is raised -/

/-- Every error of the check meets `P`. -/
def Errors (P : ε → Prop) (c : Except ε α) : Prop := ∀ e, c = .error e → P e

namespace Errors

variable {P Q : ε → Prop} {ι : Type}

theorem pure (a : α) : Errors P (.ok a) := nofun

theorem error {e : ε} (h : P e) : Errors P (.error e : Except ε α) :=
  fun _ he => Except.error.inj he ▸ h

theorem mono (h : Errors P c) (hPQ : ∀ e, P e → Q e) : Errors Q c := fun e he => hPQ e (h e he)

theorem bind (h : Errors P c) (h' : ∀ a, c = .ok a → Errors P (f a)) : Errors P (c >>= f) := by
  cases c with
  | error e => exact error (h e rfl)
  | ok a => exact h' a rfl

theorem forM {g : ι → Except ε Unit} (h : ∀ x, Errors P (g x)) : ∀ l : List ι, Errors P (l.forM g)
  | [] => pure ()
  | x :: l => (h x).bind fun _ _ => forM h l

theorem mapM {g : ι → Except ε β} (h : ∀ x, Errors P (g x)) : ∀ l : List ι, Errors P (l.mapM g)
  | [] => pure []
  | x :: l => by
    rw [List.mapM_cons]
    exact (h x).bind fun _ _ => (mapM h l).bind fun _ _ => pure _

theorem foldlM {g : β → ι → Except ε β} :
    ∀ {l : List ι} (_ : ∀ b, ∀ x ∈ l, Errors P (g b x)) (b : β), Errors P (l.foldlM g b)
  | [], _, b => pure b
  | x :: l, h, b => by
    rw [List.foldlM_cons]
    exact (h b x List.mem_cons_self).bind fun b' _ =>
      foldlM (fun b y hy => h b y (List.mem_cons_of_mem _ hy)) b'

end Errors

end Checks
