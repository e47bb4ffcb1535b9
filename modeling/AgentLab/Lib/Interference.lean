import AgentLab.Lib.Effects

/-!
# Programs among others

Between the operations of a program others act on the world (`act`), as `may` allows while an
operation comes next. The operations of `amid` are those of the program, each after what the others
have done since the one before, so that the rules of `wp` hold of a program among others as well.
What is known before an operation is known when it is done, if the others keep it: `wp_amid_op`,
`wp_amid_bind` and `wp_amid_uses` are the rules for that.

`Rests` is what is known of a running program with others about. They keep it (`Rests.others`), and
so does the next operation of the program (`Rests.next`).
-/

namespace Effects

variable {Op : Type} {Resp : Op → Type} {ε α β σ χ ω : Type}

variable (act : ω → σ → σ) (may : σ → Op → ω → Prop)
  (exec : (o : Op) → χ → σ → Except ε (Resp o) × σ) (allowed : σ → Op → χ → Prop)

/-- The world after what the others do. -/
def actAll : List ω → σ → σ
  | [], s => s
  | a :: as, s => actAll as (act a s)

/-- The others may do this, one after the other, while the operation comes next. -/
def Acts (o : Op) : List ω → σ → Prop
  | [], _ => True
  | a :: as, s => may s o a ∧ Acts o as (act a s)

/-- An operation after what the others have done. -/
def amid (o : Op) (x : List ω × χ) (s : σ) : Except ε (Resp o) × σ :=
  exec o x.2 (actAll act x.1 s)

/-- The choices of the others and of the environment. -/
def Amid (s : σ) (o : Op) (x : List ω × χ) : Prop :=
  Acts act may o x.1 s ∧ allowed (actAll act x.1 s) o x.2

variable {act may exec allowed} {C I : σ → Prop} {E : ε → σ → Prop} {s s' : σ} {o : Op} {a : ω}
  {as : List ω}

theorem actAll_concat (as : List ω) (a : ω) (s : σ) :
    actAll act (as ++ [a]) s = act a (actAll act as s) := by
  induction as generalizing s with
  | nil => rfl
  | cons b as ih => exact ih (act b s)

theorem acts_concat (h : Acts act may o as s) (ha : may (actAll act as s) o a) :
    Acts act may o (as ++ [a]) s := by
  induction as generalizing s with
  | nil => exact ⟨ha, trivial⟩
  | cons b as ih => exact ⟨h.1, ih h.2 ha⟩

/-- What the others keep. -/
theorem Acts.keeps (hI : ∀ s a, I s → may s o a → I (act a s)) (h : Acts act may o as s)
    (hs : I s) : I (actAll act as s) := by
  induction as generalizing s with
  | nil => exact hs
  | cons b as ih => exact ih h.2 (hI s b hs h.1)

/-! ## The rules -/

/-- **One operation**: what is known when it is done is what the others keep. -/
theorem wp_amid_op {Q : Resp o → σ → Prop} (h : I s)
    (hI : ∀ s a, I s → may s o a → I (act a s))
    (hC : ∀ s x, I s → allowed s o x → C (exec o x s).2)
    (hQ : ∀ s x r s', I s → allowed s o x → exec o x s = (.ok r, s') → Q r s')
    (hE : ∀ s x e s', I s → allowed s o x → exec o x s = (.error e, s') → E e s') :
    wp (amid act exec) (Amid act may allowed) C Q E (Prog.op o) s :=
  wp_op (fun x hx => hC _ x.2 (hx.1.keeps hI h) hx.2)
    (fun x r s' hx hr => hQ _ x.2 r s' (hx.1.keeps hI h) hx.2 hr)
    fun x e s' hx he => hE _ x.2 e s' (hx.1.keeps hI h) hx.2 he

/-- One operation, and then the rest of the program. -/
theorem wp_amid_bind {Q : β → σ → Prop} {f : Resp o → Prog Op Resp ε β} (h : I s)
    (hI : ∀ s a, I s → may s o a → I (act a s))
    (hC : ∀ s x, I s → allowed s o x → C (exec o x s).2)
    (hQ : ∀ s x r s', I s → allowed s o x → exec o x s = (.ok r, s') →
      wp (amid act exec) (Amid act may allowed) C Q E (f r) s')
    (hE : ∀ s x e s', I s → allowed s o x → exec o x s = (.error e, s') → E e s') :
    wp (amid act exec) (Amid act may allowed) C Q E (Prog.op o >>= f) s :=
  wp_bind (wp_amid_op h hI hC hQ hE)

/-- What the operations and the others keep, the program keeps among them. -/
theorem wp_amid_uses {P : Op → Prop} {p : Prog Op Resp ε α} (hp : Uses P p)
    (hact : ∀ o s a, P o → I s → may s o a → I (act a s))
    (hexec : ∀ o x s, P o → I s → allowed s o x → I (exec o x s).2) (h : I s) :
    wp (amid act exec) (Amid act may allowed) I (fun _ => I) (fun _ => I) p s :=
  wp_uses hp (fun o x _ ho hs hx =>
    hexec o x.2 _ ho (hx.1.keeps (fun s a => hact o s a ho) hs) hx.2) h

/-! ## Running programs -/

variable {Q : α → σ → Prop} {p p' : Prog Op Resp ε α} {x : χ}

variable (act may exec allowed C Q E p) in
/-- The others may have acted since the last operation of the program. -/
def Rests (s : σ) : Prop :=
  ∃ s₀ as, s = actAll act as s₀ ∧ (∀ o k, p = .call o k → Acts act may o as s₀) ∧
    wp (amid act exec) (Amid act may allowed) C Q E p s₀

theorem Rests.start (h : wp (amid act exec) (Amid act may allowed) C Q E p s) :
    Rests act may exec allowed C E Q p s :=
  ⟨s, [], rfl, fun _ _ _ => trivial, h⟩

/-- **The others act.** -/
theorem Rests.others (h : Rests act may exec allowed C E Q p s)
    (ha : ∀ o k, p = .call o k → may s o a) :
    Rests act may exec allowed C E Q p (act a s) := by
  obtain ⟨s₀, as, rfl, has, hp⟩ := h
  exact ⟨s₀, as ++ [a], (actAll_concat as a s₀).symm,
    fun o k hcall => acts_concat (has o k hcall) (ha o k hcall), hp⟩

/-- **The next operation of the program.** -/
theorem Rests.next (h : Rests act may exec allowed C E Q p s)
    (hnext : next exec p s x = some (p', s')) (hx : ∀ o k, p = .call o k → allowed s o x) :
    C s' ∧ Rests act may exec allowed C E Q p' s' := by
  obtain ⟨s₀, as, rfl, has, hp⟩ := h
  cases p with
  | ret a => cases hnext
  | raise e => cases hnext
  | call o k =>
    cases hnext
    obtain ⟨hC, hk⟩ := hp (as, x) ⟨has o k rfl, hx o k rfl⟩
    exact ⟨hC, .start hk⟩

end Effects
