import AgentLab.Lib.Effects

/-!
# Histories

The world of a program that also keeps what was done in it (`logged`). What `wp` says of the worlds
that a program passes through it then says of its history (`wp_logged`). `AtMost P p n` is a bound
on how many operations of a kind the program calls, whatever they answer; it is kept by the
structure of programs, and holds of every history (`wp_atMost`).
-/

namespace Effects

variable {Op : Type} {Resp : Op → Type} {ε α β σ χ : Type}

/-- An operation that was done, with its choice and the world after it. -/
structure Event (Op χ σ : Type) where
  op : Op
  choice : χ
  after : σ

variable (exec : (o : Op) → χ → σ → Except ε (Resp o) × σ)

/-- The operations, in a world that keeps its history. -/
def logged (o : Op) (x : χ) (s : σ × List (Event Op χ σ)) :
    Except ε (Resp o) × σ × List (Event Op χ σ) :=
  ((exec o x s.1).1, (exec o x s.1).2, s.2 ++ [⟨o, x, (exec o x s.1).2⟩])

variable {exec} {allowed : σ → Op → χ → Prop} {C : σ → Prop} {Q : α → σ → Prop}
  {E : ε → σ → Prop} {w w' : σ} {log log' : List (Event Op χ σ)} {p : Prog Op Resp ε α}

/-- All that came after this history kept to `C`. -/
def Since (C : σ → Prop) (log : List (Event Op χ σ)) (s : σ × List (Event Op χ σ)) : Prop :=
  ∃ done, s.2 = log ++ done ∧ ∀ e ∈ done, C e.after

theorem Since.refl (w : σ) : Since C log (w, log) := ⟨[], (List.append_nil log).symm, nofun⟩

theorem Since.concat (h : Since C log (w, log')) (o : Op) (x : χ) (hC : C w') :
    Since C log (w', log' ++ [⟨o, x, w'⟩]) := by
  obtain ⟨done, rfl, hdone⟩ := h
  refine ⟨done ++ [⟨o, x, w'⟩], List.append_assoc _ _ _, ?_⟩
  rw [List.forall_mem_append, List.forall_mem_singleton]
  exact ⟨hdone, hC⟩

/-- **The history of a program.** -/
theorem wp_logged : ∀ {w log'}, wp exec allowed C Q E p w → Since C log (w, log') →
    wp (logged exec) (fun s => allowed s.1) (Since C log) (fun a s => Since C log s ∧ Q a s.1)
      (fun e s => Since C log s ∧ E e s.1) p (w, log') := by
  induction p with
  | ret a => exact fun h hlog => ⟨hlog, h⟩
  | raise e => exact fun h hlog => ⟨hlog, h⟩
  | call o k ih =>
    intro w log' h hlog x hx
    obtain ⟨hC, hk⟩ := h x hx
    have hlog' := hlog.concat o x hC
    exact ⟨hlog', ih _ hk hlog'⟩

/-- One operation that is kept in the history, and then the rest of the program. -/
theorem wp_logged_bind {C : σ × List (Event Op χ σ) → Prop} {Q : β → σ × List (Event Op χ σ) → Prop}
    {E : ε → σ × List (Event Op χ σ) → Prop} {o : Op} {f : Resp o → Prog Op Resp ε β}
    (hC : ∀ x, allowed w o x → C ((exec o x w).2, log ++ [⟨o, x, (exec o x w).2⟩]))
    (hQ : ∀ x r w', allowed w o x → exec o x w = (.ok r, w') →
      wp (logged exec) (fun s => allowed s.1) C Q E (f r) (w', log ++ [⟨o, x, w'⟩]))
    (hE : ∀ x e w', allowed w o x → exec o x w = (.error e, w') →
      E e (w', log ++ [⟨o, x, w'⟩])) :
    wp (logged exec) (fun s => allowed s.1) C Q E (Prog.op o >>= f) (w, log) := by
  refine wp_op_bind hC (fun x r s hx h => ?_) fun x e s hx h => ?_
  · obtain ⟨hr, hs⟩ := Prod.mk.inj h
    subst hs
    exact hQ x r _ hx (Prod.ext hr rfl)
  · obtain ⟨he, hs⟩ := Prod.mk.inj h
    subst hs
    exact hE x e _ hx (Prod.ext he rfl)

/-! ## How often -/

variable (P : Op → Prop) [DecidablePred P]

/-- How many operations of the kind were done. -/
def countOf (log : List (Event Op χ σ)) : ℕ := log.countP fun e => P e.op

/-- The program calls at most `n` operations of the kind. -/
def AtMost : Prog Op Resp ε α → ℕ → Prop
  | .ret _, _ | .raise _, _ => True
  | .call o k, n => if P o then ∃ m, n = m + 1 ∧ ∀ r, AtMost (k r) m else ∀ r, AtMost (k r) n

variable {P} {n m : ℕ}

theorem atMost_mono (hnm : n ≤ m) (hp : AtMost P p n) : AtMost P p m := by
  induction p generalizing n m with
  | ret a => trivial
  | raise e => trivial
  | call o k ih =>
    unfold AtMost at hp ⊢
    split_ifs at hp ⊢
    · obtain ⟨i, rfl, hk⟩ := hp
      exact ⟨m - 1, by omega, fun r => ih r (by omega) (hk r)⟩
    · exact fun r => ih r hnm (hp r)

theorem atMost_uses (hp : Uses (fun o => ¬ P o) p) : AtMost P p 0 := by
  induction p with
  | ret a => trivial
  | raise e => trivial
  | call o k ih =>
    unfold AtMost
    rw [if_neg hp.1]
    exact fun r => ih r (hp.2 r)

theorem atMost_op (o : Op) : AtMost P (Prog.op o : Prog Op Resp ε (Resp o)) 1 := by
  unfold Prog.op AtMost
  split_ifs
  · refine ⟨0, rfl, fun r => ?_⟩
    cases r <;> trivial
  · intro r
    cases r <;> trivial

theorem atMost_bind {f : α → Prog Op Resp ε β} (hp : AtMost P p n) (hf : ∀ a, AtMost P (f a) m) :
    AtMost P (p >>= f) (n + m) := by
  induction p generalizing n with
  | ret a => exact atMost_mono (Nat.le_add_left m n) (hf a)
  | raise e => trivial
  | call o k ih =>
    show AtMost P (.call o fun r => (k r).bind f) (n + m)
    unfold AtMost at hp ⊢
    split_ifs at hp ⊢
    · obtain ⟨i, rfl, hk⟩ := hp
      exact ⟨i + m, by omega, fun r => ih r (hk r)⟩
    · exact fun r => ih r (hp r)

theorem atMost_handle {f : ε → Prog Op Resp ε α} (hp : AtMost P p n) (hf : ∀ e, AtMost P (f e) m) :
    AtMost P (p.handle f) (n + m) := by
  induction p generalizing n with
  | ret a => trivial
  | raise e => exact atMost_mono (Nat.le_add_left m n) (hf e)
  | call o k ih =>
    unfold Prog.handle
    unfold AtMost at hp ⊢
    split_ifs at hp ⊢
    · obtain ⟨i, rfl, hk⟩ := hp
      exact ⟨i + m, by omega, fun r => ih r (hk r)⟩
    · exact fun r => ih r (hp r)

/-- **The bound holds of every history.** -/
theorem wp_atMost {allowed : σ × List (Event Op χ σ) → Op → χ → Prop} (hp : AtMost P p n) :
    ∀ s : σ × List (Event Op χ σ), wp (logged exec) allowed
      (fun s' => countOf P s'.2 ≤ countOf P s.2 + n)
      (fun _ s' => countOf P s'.2 ≤ countOf P s.2 + n)
      (fun _ s' => countOf P s'.2 ≤ countOf P s.2 + n) p s := by
  induction p generalizing n with
  | ret a => exact fun s => Nat.le_add_right _ n
  | raise e => exact fun s => Nat.le_add_right _ n
  | call o k ih =>
    intro s x _
    have hcount : countOf P (logged exec o x s).2.2 =
        countOf P s.2 + if P o then 1 else 0 := by
      unfold logged countOf
      rw [List.countP_append, List.countP_singleton]
      simp only [decide_eq_true_eq]
    unfold AtMost at hp
    split_ifs at hp hcount
    · obtain ⟨i, rfl, hk⟩ := hp
      refine ⟨by omega, wp_mono (fun s' h => ?_) (fun _ s' h => ?_) (fun _ s' h => ?_)
        (ih _ (hk _) _)⟩
      all_goals omega
    · refine ⟨by omega, wp_mono (fun s' h => ?_) (fun _ s' h => ?_) (fun _ s' h => ?_)
        (ih _ (hp _) _)⟩
      all_goals omega

end Effects
