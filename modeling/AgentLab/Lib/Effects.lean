import Mathlib.Data.List.Basic
import Mathlib.Tactic.SplitIfs

/-!
# Programs that can die anywhere

A program calls operations of a world that answer or raise (`Prog`). What an operation does is a
function `exec` of the operation, a choice of the environment and the world; `allowed` says which
choices the environment may make.

`wp C Q E p w` says of every run of `p` from the world `w`: after each operation the world satisfies
`C`, so that this is what a program that is killed leaves behind; it returns with `Q` and raises
with `E`. The rules `wp_bind`, `wp_handle` and `wp_mono` take a program apart. `wp_next` is what one
step of a running program keeps, `wp_ends` what holds at the end of a run, and `exists_end` says
that there is one: every program ends. `wp_uses` is the rule for a program of which only the
operations matter. `runFor` runs a program until it is killed.
-/

namespace Effects

/-- A program over operations `Op` with answers `Resp`, which raises in `ε`. -/
inductive Prog (Op : Type) (Resp : Op → Type) (ε α : Type) : Type
  | ret (a : α)
  | raise (e : ε)
  | call (o : Op) (k : Except ε (Resp o) → Prog Op Resp ε α)

variable {Op : Type} {Resp : Op → Type} {ε α β σ χ : Type}

namespace Prog

def bind : Prog Op Resp ε α → (α → Prog Op Resp ε β) → Prog Op Resp ε β
  | .ret a, f => f a
  | .raise e, _ => .raise e
  | .call o k, f => .call o fun r => (k r).bind f

/-- `try … except`, with a handler for every exception. -/
def handle : Prog Op Resp ε α → (ε → Prog Op Resp ε α) → Prog Op Resp ε α
  | .ret a, _ => .ret a
  | .raise e, h => h e
  | .call o k, h => .call o fun r => (k r).handle h

/-- Call an operation, and raise what it raises. -/
def op (o : Op) : Prog Op Resp ε (Resp o) :=
  .call o fun
    | .ok r => .ret r
    | .error e => .raise e

instance : Monad (Prog Op Resp ε) where
  pure := .ret
  bind := .bind

end Prog

variable (exec : (o : Op) → χ → σ → Except ε (Resp o) × σ) (allowed : σ → Op → χ → Prop)

/-! ## Runs -/

/-- One step of a running program, for a choice of the environment. -/
def next : Prog Op Resp ε α → σ → χ → Option (Prog Op Resp ε α × σ)
  | .call o k, w, x => some (k (exec o x w).1, (exec o x w).2)
  | _, _, _ => none

/-- The program ends with this result and world. -/
inductive Ends : Prog Op Resp ε α → σ → Except ε α → σ → Prop
  | ret (a : α) (w : σ) : Ends (.ret a) w (.ok a) w
  | raise (e : ε) (w : σ) : Ends (.raise e) w (.error e) w
  | call {o : Op} {k : Except ε (Resp o) → Prog Op Resp ε α} {w w' : σ} {x : χ}
      {result : Except ε α} (hx : allowed w o x)
      (h : Ends (k (exec o x w).1) (exec o x w).2 result w') : Ends (.call o k) w result w'

/-- Run a program with a list of choices, as long as they are allowed. -/
def runWith [∀ w o x, Decidable (allowed w o x)] :
    List χ → Prog Op Resp ε α → σ → Option (Except ε α × σ)
  | _, .ret a, w => some (.ok a, w)
  | _, .raise e, w => some (.error e, w)
  | x :: xs, .call o k, w =>
    if allowed w o x then runWith xs (k (exec o x w).1) (exec o x w).2 else none
  | [], .call _ _, _ => none

variable {exec allowed}

theorem Ends.of_runWith [∀ w o x, Decidable (allowed w o x)] {p : Prog Op Resp ε α} :
    ∀ {xs : List χ} {w w' : σ} {result : Except ε α},
      runWith exec allowed xs p w = some (result, w') → Ends exec allowed p w result w' := by
  induction p with
  | ret a =>
    intro xs w w' result h
    simp only [runWith, Option.some.injEq, Prod.mk.injEq] at h
    obtain ⟨rfl, rfl⟩ := h
    exact .ret a w
  | raise e =>
    intro xs w w' result h
    simp only [runWith, Option.some.injEq, Prod.mk.injEq] at h
    obtain ⟨rfl, rfl⟩ := h
    exact .raise e w
  | call o k ih =>
    intro xs w w' result h
    cases xs with
    | nil => cases h
    | cons x xs =>
      rw [runWith] at h
      split_ifs at h with hx
      exact .call hx (ih _ h)

/-- Every program ends, if the environment always has a choice. -/
theorem exists_end (htotal : ∀ w o, ∃ x, allowed w o x) (p : Prog Op Resp ε α) :
    ∀ w, ∃ result w', Ends exec allowed p w result w' := by
  induction p with
  | ret a => exact fun w => ⟨.ok a, w, .ret a w⟩
  | raise e => exact fun w => ⟨.error e, w, .raise e w⟩
  | call o k ih =>
    intro w
    obtain ⟨x, hx⟩ := htotal w o
    obtain ⟨result, w', h⟩ := ih (exec o x w).1 (exec o x w).2
    exact ⟨result, w', .call hx h⟩

/-! ## The rules -/

variable {C C' : σ → Prop} {Q Q' : α → σ → Prop} {E E' : ε → σ → Prop} {w w' : σ}

variable (exec allowed) in
/-- Every run of the program from `w` keeps to `C`, returns with `Q` and raises with `E`. -/
def wp (C : σ → Prop) (Q : α → σ → Prop) (E : ε → σ → Prop) : Prog Op Resp ε α → σ → Prop
  | .ret a, w => Q a w
  | .raise e, w => E e w
  | .call o k, w => ∀ x, allowed w o x →
    C (exec o x w).2 ∧ wp C Q E (k (exec o x w).1) (exec o x w).2

theorem wp_mono {p : Prog Op Resp ε α} (hC : ∀ w, C w → C' w) (hQ : ∀ a w, Q a w → Q' a w)
    (hE : ∀ e w, E e w → E' e w) :
    ∀ {w}, wp exec allowed C Q E p w → wp exec allowed C' Q' E' p w := by
  induction p with
  | ret a => exact fun h => hQ a _ h
  | raise e => exact fun h => hE e _ h
  | call o k ih => exact fun h x hx => ⟨hC _ (h x hx).1, ih _ (h x hx).2⟩

theorem wp_pure {a : α} (h : Q a w) : wp exec allowed C Q E (pure a : Prog Op Resp ε α) w := h

/-- **Sequence.** -/
theorem wp_bind {Q : β → σ → Prop} {f : α → Prog Op Resp ε β} {p : Prog Op Resp ε α} :
    ∀ {w}, wp exec allowed C (fun a w => wp exec allowed C Q E (f a) w) E p w →
      wp exec allowed C Q E (p >>= f) w := by
  induction p with
  | ret a => exact fun h => h
  | raise e => exact fun h => h
  | call o k ih => exact fun h x hx => ⟨(h x hx).1, ih _ (h x hx).2⟩

/-- Sequence, with what is known between the two. -/
theorem wp_seq {Q : β → σ → Prop} {P : α → σ → Prop} {f : α → Prog Op Resp ε β}
    {p : Prog Op Resp ε α} (hp : wp exec allowed C P E p w)
    (hf : ∀ a w', P a w' → wp exec allowed C Q E (f a) w') :
    wp exec allowed C Q E (p >>= f) w :=
  wp_bind (wp_mono (fun _ h => h) hf (fun _ _ h => h) hp)

/-- **Handling exceptions.** -/
theorem wp_handle {f : ε → Prog Op Resp ε α} {p : Prog Op Resp ε α} :
    ∀ {w}, wp exec allowed C Q (fun e w => wp exec allowed C Q E (f e) w) p w →
      wp exec allowed C Q E (p.handle f) w := by
  induction p with
  | ret a => exact fun h => h
  | raise e => exact fun h => h
  | call o k ih => exact fun h x hx => ⟨(h x hx).1, ih _ (h x hx).2⟩

/-- **One operation.** -/
theorem wp_op {o : Op} {Q : Resp o → σ → Prop} (hC : ∀ x, allowed w o x → C (exec o x w).2)
    (hQ : ∀ x r w', allowed w o x → exec o x w = (.ok r, w') → Q r w')
    (hE : ∀ x e w', allowed w o x → exec o x w = (.error e, w') → E e w') :
    wp exec allowed C Q E (Prog.op o) w := by
  intro x hx
  refine ⟨hC x hx, ?_⟩
  cases hr : (exec o x w).1 with
  | ok r => exact hQ x r _ hx (Prod.ext hr rfl)
  | error e => exact hE x e _ hx (Prod.ext hr rfl)

/-- One operation, and then the rest of the program. -/
theorem wp_op_bind {o : Op} {Q : β → σ → Prop} {f : Resp o → Prog Op Resp ε β}
    (hC : ∀ x, allowed w o x → C (exec o x w).2)
    (hQ : ∀ x r w', allowed w o x → exec o x w = (.ok r, w') → wp exec allowed C Q E (f r) w')
    (hE : ∀ x e w', allowed w o x → exec o x w = (.error e, w') → E e w') :
    wp exec allowed C Q E (Prog.op o >>= f) w :=
  wp_bind (wp_op hC hQ hE)

/-- What two proofs say of one program. -/
theorem wp_and {p : Prog Op Resp ε α} : ∀ {w}, wp exec allowed C Q E p w →
    wp exec allowed C' Q' E' p w → wp exec allowed (fun w => C w ∧ C' w)
      (fun a w => Q a w ∧ Q' a w) (fun e w => E e w ∧ E' e w) p w := by
  induction p with
  | ret a => exact fun h h' => ⟨h, h'⟩
  | raise e => exact fun h h' => ⟨h, h'⟩
  | call o k ih =>
    exact fun h h' x hx => ⟨⟨(h x hx).1, (h' x hx).1⟩, ih _ (h x hx).2 (h' x hx).2⟩

/-- **One step of a running program.** -/
theorem wp_next {p p' : Prog Op Resp ε α} {x : χ} (h : wp exec allowed C Q E p w)
    (hnext : next exec p w x = some (p', w'))
    (hx : ∀ o k, p = .call o k → allowed w o x) : C w' ∧ wp exec allowed C Q E p' w' := by
  cases p with
  | ret a => cases hnext
  | raise e => cases hnext
  | call o k =>
    cases hnext
    exact h x (hx o k rfl)

/-- **The end of a run.** -/
theorem wp_ends {p : Prog Op Resp ε α} {result : Except ε α} (h : wp exec allowed C Q E p w)
    (hends : Ends exec allowed p w result w') :
    (∀ a, result = .ok a → Q a w') ∧ ∀ e, result = .error e → E e w' := by
  induction hends with
  | ret a w =>
    exact ⟨fun b hb => Except.ok.inj hb ▸ h, nofun⟩
  | raise e w =>
    exact ⟨nofun, fun e' he => Except.error.inj he ▸ h⟩
  | call hx _ ih => exact ih (h _ hx).2

/-! ## Programs that use some operations only -/

/-- Every operation that the program may call is one of `P`. -/
def Uses (P : Op → Prop) : Prog Op Resp ε α → Prop
  | .ret _ | .raise _ => True
  | .call o k => P o ∧ ∀ r, Uses P (k r)

variable {P : Op → Prop}

theorem uses_mono {P' : Op → Prop} (hP : ∀ o, P o → P' o) {p : Prog Op Resp ε α}
    (hp : Uses P p) : Uses P' p := by
  induction p with
  | ret a => trivial
  | raise e => trivial
  | call o k ih => exact ⟨hP o hp.1, fun r => ih r (hp.2 r)⟩

theorem uses_op {o : Op} (h : P o) : Uses P (Prog.op o : Prog Op Resp ε (Resp o)) := by
  refine ⟨h, fun r => ?_⟩
  cases r <;> trivial

theorem uses_bind {f : α → Prog Op Resp ε β} {p : Prog Op Resp ε α} (hp : Uses P p)
    (hf : ∀ a, Uses P (f a)) : Uses P (p >>= f) := by
  induction p with
  | ret a => exact hf a
  | raise e => trivial
  | call o k ih => exact ⟨hp.1, fun r => ih r (hp.2 r)⟩

theorem uses_handle {f : ε → Prog Op Resp ε α} {p : Prog Op Resp ε α} (hp : Uses P p)
    (hf : ∀ e, Uses P (f e)) : Uses P (p.handle f) := by
  induction p with
  | ret a => trivial
  | raise e => exact hf e
  | call o k ih => exact ⟨hp.1, fun r => ih r (hp.2 r)⟩

/-- **What the operations keep, the program keeps**, however it ends. -/
theorem wp_uses {I : σ → Prop} {p : Prog Op Resp ε α} (hp : Uses P p)
    (hI : ∀ o x w, P o → I w → allowed w o x → I (exec o x w).2) :
    ∀ {w}, I w → wp exec allowed I (fun _ => I) (fun _ => I) p w := by
  induction p with
  | ret a => exact fun h => h
  | raise e => exact fun h => h
  | call o k ih =>
    intro w hw x hx
    have hw' := hI o x w hp.1 hw hx
    exact ⟨hw', ih _ (hp.2 _) hw'⟩

/-! ## Programs that are killed -/

variable (exec) in
/-- Run a program until it ends, or until the choices are used up, where it is killed: its result,
the choices that are left, and the world. -/
def runFor : List χ → Prog Op Resp ε α → σ → Option (Except ε α) × List χ × σ
  | xs, .ret a, w => (some (.ok a), xs, w)
  | xs, .raise e, w => (some (.error e), xs, w)
  | x :: xs, .call o k, w => runFor xs (k (exec o x w).1) (exec o x w).2
  | [], .call _ _, w => (none, [], w)

variable (exec) in
/-- Go on with `f` where a program has returned. -/
def andThen (f : α → Prog Op Resp ε β) :
    Option (Except ε α) × List χ × σ → Option (Except ε β) × List χ × σ
  | (some (.ok a), xs, w) => runFor exec xs (f a) w
  | (some (.error e), xs, w) => (some (.error e), xs, w)
  | (none, xs, w) => (none, xs, w)

/-- **A sequence that may be killed.** -/
theorem runFor_bind {f : α → Prog Op Resp ε β} {p : Prog Op Resp ε α} :
    ∀ {xs w}, runFor exec xs (p >>= f) w = andThen exec f (runFor exec xs p w) := by
  induction p with
  | ret a => intro xs w; cases xs <;> rfl
  | raise e => intro xs w; cases xs <;> rfl
  | call o k ih =>
    intro xs w
    cases xs with
    | nil => rfl
    | cons x xs => exact ih _

end Effects
