import AgentLab.Config.Valid
import AgentLab.Gpu.Limit
import AgentLab.Lib.Log

/-!
# What a call does

The history of a call of `apply` or `revert`: `Permits` says when a command may be run, and `Does`
of a part of a call, begun after a history, that it keeps to that and what it returns with.
`does_op`, `does_seq` and `does_lift` take a call apart, `setLimit_does` is about the part that both
calls share.
-/

namespace AgentLab.Gpu

open Python Config Effects Log

abbrev Event := Effects.Event Op Choice Unit

/-- The last answer of an operation. -/
def answer? (o : Op) (log : List Event) : Option (Except PyExc o.Resp) :=
  (log.reverse.find? fun e => e.op = o).map fun e => result o e.choice

def Op.isRun : Op → Bool
  | .run _ => true
  | _ => false

inductive Call
  | apply (profile : Profile) (assumeYes : Bool)
  | revert (assumeYes : Bool)

def Call.script : Call → Script Unit
  | .apply profile assumeYes => applyLimit profile assumeYes
  | .revert assumeYes => revertLimit assumeYes

def Call.assumeYes : Call → Bool
  | .apply _ assumeYes | .revert assumeYes => assumeYes

/-- The value that the call is to set. -/
def Call.value : Call → ℤ
  | .apply profile _ => profile.system.gpuWiredLimitMb
  | .revert _ => 0

/-- The limit of an `apply` lies between what the profile needs and what the machine can give, which
is what it last said of its memory. -/
def Call.Admits (before : List Event) : Call → Prop
  | .apply profile _ =>
    profile.backend.metalMemoryLimit < profile.system.gpuWiredLimitMb * MIB ∧
      ∃ text memory, answer? (.sysctl MEMSIZE) before = some (.ok text) ∧
        intOf text = .ok (some memory) ∧
          profile.system.gpuWiredLimitMb * MIB + 3 * 1024 ^ 3 ≤ memory
  | .revert _ => True

/-- A `yes` on the terminal. -/
def Agreed (before : List Event) : Prop :=
  ∃ prompt said, answer? (.input prompt) before = some (.ok (some said)) ∧ isYes said = true

/-- After these operations of a call, the next one may be this: a command only as the first one, on
macOS, with agreement, and for a value that the call admits. -/
def Permits (call : Call) (before : List Event) (e : Event) : Prop :=
  ∀ argv, e.op = .run argv → (∀ e' ∈ before, ∀ argv', e'.op ≠ .run argv') ∧
    answer? .system before = some (.ok "Darwin") ∧ (call.assumeYes = true ∨ Agreed before) ∧
      sysctlCommand call.value = .ok argv ∧ call.Admits before

/-- The last reading of the limit is this value, and no command was run after it. -/
def Leaves (value : ℤ) (done : List Event) : Prop :=
  ∃ before x text after, done = before ++ ⟨.sysctl SYSCTL_NAME, x, ()⟩ :: after ∧
    result (.sysctl SYSCTL_NAME) x = .ok text ∧ intOf text = .ok (some value) ∧
      ∀ e ∈ after, e.op ≠ .sysctl SYSCTL_NAME ∧ ∀ argv, e.op ≠ .run argv

/-! ## Answers -/

theorem answer?_concat (o : Op) (log : List Event) (e : Event) : answer? o (log ++ [e]) =
    if e.op = o then some (result o e.choice) else answer? o log := by
  unfold answer?
  rw [List.reverse_append, List.reverse_singleton, List.singleton_append, List.find?_cons]
  by_cases h : e.op = o <;> simp [h]

/-- More was done, only of such operations. -/
def Grown (P : Op → Prop) (done done' : List Event) : Prop :=
  ∃ more, done' = done ++ more ∧ ∀ e ∈ more, P e.op

variable {P P' : Op → Prop} {done done' done'' log : List Event}

theorem Grown.refl (done : List Event) : Grown P done done :=
  ⟨[], (List.append_nil done).symm, List.forall_mem_nil _⟩

theorem Grown.concat (h : Grown P done done') {e : Event} (he : P e.op) :
    Grown P done (done' ++ [e]) := by
  obtain ⟨more, rfl, hmore⟩ := h
  refine ⟨more ++ [e], List.append_assoc _ _ _, ?_⟩
  rw [List.forall_mem_append, List.forall_mem_singleton]
  exact ⟨hmore, he⟩

theorem Grown.trans (h : Grown P done done') (h' : Grown P done' done'') : Grown P done done'' := by
  obtain ⟨more, rfl, hmore⟩ := h
  obtain ⟨more', rfl, hmore'⟩ := h'
  exact ⟨more ++ more', List.append_assoc _ _ _, List.forall_mem_append.2 ⟨hmore, hmore'⟩⟩

theorem Grown.mono (h : Grown P done done') (hP : ∀ o, P o → P' o) : Grown P' done done' := by
  obtain ⟨more, rfl, hmore⟩ := h
  exact ⟨more, rfl, fun e he => hP _ (hmore e he)⟩

/-- Other operations leave an answer the last one. -/
theorem Grown.answer? (h : Grown P done done') {o : Op} (ho : ¬ P o) :
    answer? o done' = answer? o done := by
  obtain ⟨more, rfl, hmore⟩ := h
  induction more using List.reverseRecOn with
  | nil => rw [List.append_nil]
  | append_singleton more e ih =>
    obtain ⟨hmore, he⟩ := List.forall_mem_append.1 hmore
    have hne : e.op ≠ o := fun heq => ho (heq ▸ he e (List.mem_singleton.2 rfl))
    rw [← List.append_assoc, answer?_concat, if_neg hne, ih hmore]

theorem Leaves.grown {value : ℤ} (h : Leaves value done)
    (hgrown : Grown (fun o => o ≠ .sysctl SYSCTL_NAME ∧ ∀ argv, o ≠ .run argv) done done') :
    Leaves value done' := by
  obtain ⟨before, x, text, after, rfl, hx, hint, hafter⟩ := h
  obtain ⟨more, rfl, hmore⟩ := hgrown
  exact ⟨before, x, text, after ++ more, by simp, hx, hint,
    List.forall_mem_append.2 ⟨hafter, hmore⟩⟩

/-- What is left is the last answer. -/
theorem Leaves.answer? {value : ℤ} (h : Leaves value done) : ∃ text,
    answer? (.sysctl SYSCTL_NAME) done = some (.ok text) ∧ intOf text = .ok (some value) := by
  obtain ⟨before, x, text, after, rfl, hx, hint, hafter⟩ := h
  refine ⟨text, ?_, hint⟩
  have hgrown : Grown (· ≠ .sysctl SYSCTL_NAME) (before ++ [⟨.sysctl SYSCTL_NAME, x, ()⟩])
      (before ++ ⟨.sysctl SYSCTL_NAME, x, ()⟩ :: after) :=
    ⟨after, by simp, fun e he => (hafter e he).1⟩
  rw [hgrown.answer? fun h => h rfl, answer?_concat, if_pos rfl, hx]

theorem Call.Admits.congr {call : Call} (h : call.Admits done)
    (heq : Gpu.answer? (.sysctl MEMSIZE) done' = Gpu.answer? (.sysctl MEMSIZE) done) :
    call.Admits done' := by
  cases call with
  | apply profile assumeYes =>
    obtain ⟨hneeds, text, memory, htext, hmemory⟩ := h
    exact ⟨hneeds, text, memory, heq.trans htext, hmemory⟩
  | revert assumeYes => trivial

/-! ## Parts of a call -/

section

variable (call : Call) (log : List Event)

/-- What was done since `log` keeps to the rules, and is as `Φ` says. -/
def Part (Φ : List Event → Prop) (s : Unit × List Event) : Prop :=
  ∃ done, s.2 = log ++ done ∧ Valid (Permits call) done ∧ Φ done

/-- After `done`, this part of the call keeps to the rules, and returns with `Q`. -/
def Does {α : Type} (done : List Event) (p : Script α) (Q : α → List Event → Prop) : Prop :=
  Valid (Permits call) done → wp (logged exec) (fun _ _ _ => True) (Part call log fun _ => True)
    (fun a => Part call log (Q a)) (fun _ => Part call log fun _ => True) p ((), log ++ done)

end

variable {call : Call} {α β : Type} {Q : α → List Event → Prop} {R : β → List Event → Prop}

theorem does_pure {a : α} (h : Q a done) : Does call log done (pure a) Q :=
  fun hvalid => wp_pure ⟨done, rfl, hvalid, h⟩

theorem does_raise {e : Exc} : Does call log done (.raise e) Q :=
  fun hvalid => ⟨done, rfl, hvalid, trivial⟩

theorem does_seq {p : Script α} {f : α → Script β} (hp : Does call log done p Q)
    (hf : ∀ a done', Q a done' → Does call log done' (f a) R) : Does call log done (p >>= f) R := by
  intro hvalid
  refine wp_seq (hp hvalid) fun a s h => ?_
  obtain ⟨done', hs, hvalid', hQ⟩ := h
  rw [show s = ((), log ++ done') from Prod.ext rfl hs]
  exact hf a done' hQ hvalid'

theorem does_mono {p : Script α} {Q' : α → List Event → Prop} (hp : Does call log done p Q)
    (h : ∀ a done', Q a done' → Q' a done') : Does call log done p Q' := by
  intro hvalid
  refine wp_mono (fun _ h => h) (fun a s hs => ?_) (fun _ _ h => h) (hp hvalid)
  obtain ⟨done', hs, hvalid', hQ⟩ := hs
  exact ⟨done', hs, hvalid', h a done' hQ⟩

theorem does_lift {x : Except PyExc α} {f : α → Script β} (hf : ∀ a, x = .ok a →
    Does call log done (f a) R) : Does call log done (lift x >>= f) R := by
  cases x with
  | error exc => exact does_raise
  | ok a => exact hf a rfl

/-- **One operation.** -/
theorem does_op {o : Op} {Q : o.Resp → List Event → Prop} (h : ∀ x, Permits call done ⟨o, x, ()⟩)
    (hQ : ∀ x r, result o x = .ok r → Q r (done ++ [⟨o, x, ()⟩])) :
    Does call log done (op o) Q := by
  intro hvalid
  have hpart : ∀ x, ∀ {Φ : List Event → Prop}, Φ (done ++ [⟨o, x, ()⟩]) →
      Part call log Φ ((), log ++ done ++ [⟨o, x, ()⟩]) := fun x _ hΦ =>
    ⟨done ++ [⟨o, x, ()⟩], List.append_assoc _ _ _, hvalid.concat (h x), hΦ⟩
  refine wp_op (fun x _ => hpart x trivial) (fun x r s _ hx => ?_) fun x e s _ hx => ?_
  · obtain ⟨hr, rfl⟩ := Prod.mk.inj hx
    refine hpart x (hQ x r ?_)
    have hr : (exec o x ()).1 = .ok r := hr
    unfold exec at hr
    cases hresult : result o x with
    | error exc =>
      rw [hresult] at hr
      cases hr
    | ok r' =>
      rw [hresult] at hr
      exact congrArg _ (Except.ok.inj hr)
  · obtain ⟨-, rfl⟩ := Prod.mk.inj hx
    exact hpart x trivial

/-- An operation other than a command. -/
theorem does_ask {o : Op} {Q : o.Resp → List Event → Prop} (ho : o.isRun = false)
    (hQ : ∀ x r, result o x = .ok r → Q r (done ++ [⟨o, x, ()⟩])) :
    Does call log done (op o) Q :=
  does_op (fun _ argv h => by
    have hop : o = .run argv := h
    rw [hop] at ho
    cases ho) hQ

/-! ## The steps of a call -/

/-- What `sysctl_int` reads. -/
theorem sysctlInt_does (name : String) : Does call log done (sysctlInt name) fun reading done' =>
    ∃ x text, done' = done ++ [⟨.sysctl name, x, ()⟩] ∧ result (.sysctl name) x = .ok text ∧
      intOf text = .ok reading := by
  unfold sysctlInt
  refine does_seq (does_ask (Q := fun text done' => ∃ x, done' = done ++ [⟨.sysctl name, x, ()⟩] ∧
    result (.sysctl name) x = .ok text) rfl fun x text h => ⟨x, rfl, h⟩) ?_
  rintro text _ ⟨x, rfl, hx⟩
  cases hint : intOf text with
  | error exc => exact does_raise
  | ok reading => exact does_pure ⟨x, text, rfl, hx, hint⟩

theorem print_does (line : String) : Does call log done (op (.print line)) fun _ done' =>
    Grown (fun o => ∃ line, o = .print line) done done' :=
  does_ask rfl fun _ _ _ => (Grown.refl done).concat ⟨line, rfl⟩

theorem prints_does (lines : List String) (done : List Event) :
    Does call log done (lines.forM fun line => op (.print line)) fun _ done' =>
      Grown (fun o => ∃ line, o = .print line) done done' := by
  induction lines generalizing done with
  | nil => exact does_pure (Grown.refl done)
  | cons line lines ih =>
    show Does call log done
      (op (.print line) >>= fun _ => lines.forM fun line => op (.print line)) _
    exact does_seq (print_does line) fun _ done' h => does_mono (ih done') fun _ _ h' => h.trans h'

/-- A `yes` is one on the terminal. -/
theorem confirm_does (prompt : String) : Does call log done (confirm prompt) fun agreed done' =>
    Grown (fun o => o = .isatty ∨ ∃ prompt, o = .input prompt) done done' ∧
      (agreed = true → Agreed done') := by
  unfold confirm
  refine does_seq (does_ask (Q := fun _ done' =>
    Grown (fun o => o = .isatty ∨ ∃ prompt, o = .input prompt) done done') rfl
      fun x _ _ => (Grown.refl done).concat (.inl rfl)) ?_
  intro tty done₁ h₁
  cases tty with
  | false => exact does_raise
  | true =>
    refine does_seq (does_ask (Q := fun said done' => ∃ x, done' =
      done₁ ++ [⟨.input (prompt ++ " [y/N] "), x, ()⟩] ∧
        result (.input (prompt ++ " [y/N] ")) x = .ok said) rfl fun x said h => ⟨x, rfl, h⟩) ?_
    rintro said _ ⟨x, rfl, hx⟩
    have hgrown := h₁.concat (e := ⟨.input (prompt ++ " [y/N] "), x, ()⟩) (.inr ⟨_, rfl⟩)
    cases said with
    | none => exact does_pure ⟨hgrown, nofun⟩
    | some said =>
      refine does_pure ⟨hgrown, fun hyes => ⟨prompt ++ " [y/N] ", said, ?_, hyes⟩⟩
      rw [answer?_concat, if_pos rfl, hx]

theorem requireMacos_does : Does call log [] requireMacos fun _ done' =>
    Grown (· = .system) [] done' ∧ answer? .system done' = some (.ok "Darwin") := by
  unfold requireMacos
  refine does_seq (does_ask (Q := fun system done' => Grown (· = .system) [] done' ∧
    answer? .system done' = some (.ok system)) rfl fun x system h => ?_) ?_
  · refine ⟨(Grown.refl []).concat rfl, ?_⟩
    rw [answer?_concat, if_pos rfl, h]
  · intro system done' h
    split_ifs with hsystem
    · subst hsystem
      exact does_pure h
    · exact does_raise

/-- The command, if it may be run, and the reading after it. -/
theorem runSysctl_does {value : ℤ} {argv : List String}
    (h : ∀ x, Permits call done ⟨.run argv, x, ()⟩) : Does call log done (runSysctl value argv)
      fun _ done' => Leaves value done' ∧
        Grown (fun o => o = .sysctl SYSCTL_NAME ∨ ∃ argv, o = .run argv) done done' := by
  unfold runSysctl
  refine does_seq (does_op (Q := fun _ done' =>
    Grown (fun o => o = .sysctl SYSCTL_NAME ∨ ∃ argv, o = .run argv) done done') h
      fun x _ _ => (Grown.refl done).concat (.inr ⟨argv, rfl⟩)) ?_
  intro code done₁ h₁
  split_ifs with hcode
  · exact does_lift fun _ _ => does_raise
  · refine does_seq (sysctlInt_does SYSCTL_NAME) ?_
    rintro now _ ⟨x, text, rfl, hx, hint⟩
    split_ifs with hnow
    · exact does_lift fun _ _ => does_lift fun _ _ => does_raise
    · rw [not_not] at hnow
      subst hnow
      exact does_pure ⟨⟨done₁, x, text, [], rfl, hx, hint, List.forall_mem_nil _⟩,
        h₁.concat (.inl rfl)⟩

/-- What is shown and asked before a command. -/
def Shown (o : Op) : Prop :=
  (∃ line, o = .print line) ∨ o = .isatty ∨ ∃ prompt, o = .input prompt

/-- What is done to set the limit. -/
def Setting (o : Op) : Prop := Shown o ∨ o = .sysctl SYSCTL_NAME ∨ ∃ argv, o = .run argv

theorem Permits.of_shown {done₁ : List Event} {argv : List String}
    (hquiet : ∀ e ∈ done, ∀ argv, e.op ≠ .run argv)
    (hmac : answer? .system done = some (.ok "Darwin")) (hadmits : call.Admits done)
    (hargv : sysctlCommand call.value = .ok argv) (hgrown : Grown Shown done done₁)
    (hagreed : call.assumeYes = true ∨ Agreed done₁) (x : Choice) :
    Permits call done₁ ⟨.run argv, x, ()⟩ := by
  intro argv' hrun
  injection hrun with hrun
  subst hrun
  have hsystem : answer? .system done₁ = answer? .system done :=
    hgrown.answer? (by simp [Shown])
  have hmemory : answer? (.sysctl MEMSIZE) done₁ = answer? (.sysctl MEMSIZE) done :=
    hgrown.answer? (by simp [Shown])
  refine ⟨?_, hsystem.trans hmac, hagreed, hargv, hadmits.congr hmemory⟩
  obtain ⟨more, rfl, hmore⟩ := hgrown
  refine List.forall_mem_append.2 ⟨hquiet, fun e he argv' hrun => ?_⟩
  have hshown := hmore e he
  rw [hrun] at hshown
  simp [Shown] at hshown

/-- **The command that both calls share.** -/
theorem setLimit_does {lines : List String} (hquiet : ∀ e ∈ done, ∀ argv, e.op ≠ .run argv)
    (hmac : answer? .system done = some (.ok "Darwin")) (hadmits : call.Admits done) :
    Does call log done (setLimit call.value lines call.assumeYes) fun _ done' =>
      Leaves call.value done' ∧ Grown Setting done done' := by
  unfold setLimit
  refine does_lift fun argv hargv => ?_
  refine does_seq (prints_does lines done) fun _ done₁ h₁ => ?_
  refine does_seq (print_does _) fun _ done₂ h₂ => ?_
  have hshown : Grown Shown done done₂ := (h₁.trans h₂).mono fun _ h => .inl h
  have hrun : ∀ done₃, Grown Shown done done₃ → (call.assumeYes = true ∨ Agreed done₃) →
      Does call log done₃ (runSysctl call.value argv) fun _ done' =>
        Leaves call.value done' ∧ Grown Setting done done' := by
    intro done₃ h₃ hagreed
    refine does_mono (runSysctl_does (Permits.of_shown hquiet hmac hadmits hargv h₃ hagreed)) ?_
    rintro _ done' ⟨hleaves, hgrown⟩
    exact ⟨hleaves, (h₃.mono fun _ h => .inl h).trans (hgrown.mono fun _ h => .inr h)⟩
  cases hyes : call.assumeYes with
  | true => exact hrun done₂ hshown (.inl hyes)
  | false =>
    refine does_seq (confirm_does _) ?_
    rintro agreed done₃ ⟨h₃, hagreed⟩
    cases agreed with
    | false => exact does_raise
    | true => exact hrun done₃ (hshown.trans (h₃.mono fun _ h => .inr h)) (.inr (hagreed rfl))

/-! ## The calls -/

/-- What is asked to know the state. -/
def Reading (o : Op) : Prop :=
  o = .system ∨ o = .metal ∨ o = .sysctl SYSCTL_NAME ∨ o = .sysctl MEMSIZE

/-- The state is that of the last answers. -/
structure Knows (done : List Event) (state : LimitState) : Prop where
  wired : ∃ text, answer? (.sysctl SYSCTL_NAME) done = some (.ok text) ∧
    intOf text = .ok state.wiredLimitMb
  metal : answer? .metal done = some (.ok state.metal)
  memory : ∃ text, answer? (.sysctl MEMSIZE) done = some (.ok text) ∧
    intOf text = .ok state.memoryBytes

theorem readState_does : Does call log done readState fun state done' =>
    Knows done' state ∧ Grown (fun o => Reading o ∧ o ≠ .system) done done' ∧
      ∀ value, state.wiredLimitMb = some value → Leaves value done' := by
  unfold readState
  refine does_seq (sysctlInt_does _) ?_
  rintro wired _ ⟨x, text, rfl, hx, hint⟩
  refine does_seq (does_ask (Q := fun metal done' => ∃ y, done' =
    done ++ [⟨.sysctl SYSCTL_NAME, x, ()⟩] ++ [⟨.metal, y, ()⟩] ∧ result .metal y = .ok metal) rfl
      fun y metal h => ⟨y, rfl, h⟩) ?_
  rintro metal _ ⟨y, rfl, hy⟩
  refine does_seq (sysctlInt_does _) ?_
  rintro memory _ ⟨z, text', rfl, hz, hint'⟩
  have hne : SYSCTL_NAME ≠ MEMSIZE := by decide
  refine does_pure ⟨⟨⟨text, ?_, hint⟩, ?_, ⟨text', ?_, hint'⟩⟩, ?_, ?_⟩
  · rw [answer?_concat, answer?_concat, answer?_concat]
    simp [hne.symm, hx]
  · rw [answer?_concat, answer?_concat]
    simp [hy]
  · rw [answer?_concat]
    simp [hz]
  · refine (((Grown.refl done).concat ?_).concat ?_).concat ?_ <;> simp [Reading]
  · rintro value rfl
    refine ⟨done, x, text, [⟨.metal, y, ()⟩, ⟨.sysctl MEMSIZE, z, ()⟩], by simp, hx, hint, ?_⟩
    simp [hne.symm]

/-- Where `apply` leaves the machine. -/
structure Applied (profile : Profile) (done : List Event) : Prop where
  leaves : Leaves profile.system.gpuWiredLimitMb done
  mac : answer? .system done = some (.ok "Darwin")
  metal : ∃ metal, answer? .metal done = some (.ok metal)
  admits : ∀ assumeYes, (Call.apply profile assumeYes).Admits done
  text : ∃ text, intText profile.system.gpuWiredLimitMb = .ok text

theorem ceiling_iff {value memory : ℤ} :
    ¬ ceilingMb memory < value ↔ value * MIB + 3 * 1024 ^ 3 ≤ memory := by
  have hdiv := @Int.le_ediv_iff_mul_le (value + 3 * 1024) memory MIB (by decide)
  have hmib : (MIB : ℤ) = 1024 ^ 2 := rfl
  unfold ceilingMb HEADROOM_MB
  rw [hmib] at hdiv ⊢
  omega

/-- Neither reading nor showing is running. -/
theorem Grown.quiet (h : Grown P [] done) (hP : ∀ argv, ¬ P (.run argv)) :
    ∀ e ∈ done, ∀ argv, e.op ≠ .run argv := by
  obtain ⟨more, rfl, hmore⟩ := h
  intro e he argv hrun
  exact hP argv (hrun ▸ hmore e he)

theorem applyLimit_does {profile : Profile} {assumeYes : Bool}
    (hneeds : profile.backend.metalMemoryLimit < profile.system.gpuWiredLimitMb * MIB) :
    Does (.apply profile assumeYes) log [] (applyLimit profile assumeYes)
      fun _ => Applied profile := by
  unfold applyLimit
  refine does_seq requireMacos_does ?_
  rintro _ done₁ ⟨h₁, hmac⟩
  refine does_seq readState_does ?_
  rintro state done₂ ⟨hknows, h₂, hleaves⟩
  have hmac₂ : answer? .system done₂ = some (.ok "Darwin") :=
    (h₂.answer? fun h => h.2 rfl).trans hmac
  have hread : Grown Reading [] done₂ := (h₁.mono fun _ h => .inl h).trans (h₂.mono fun _ h => h.1)
  obtain ⟨text, htext, hmemory⟩ := hknows.memory
  cases hbytes : state.memoryBytes with
  | none => exact does_raise
  | some memory =>
    rw [hbytes] at hmemory
    dsimp only
    split_ifs with hceiling hwired
    · exact does_lift fun _ _ => does_lift fun _ _ => does_lift fun _ _ => does_lift fun _ _ =>
        does_raise
    · refine does_lift fun shown hshown => does_mono (print_does _) fun _ done₃ h₃ => ?_
      have hadmits : ∀ assumeYes, (Call.apply profile assumeYes).Admits done₂ := fun _ =>
        ⟨hneeds, text, memory, htext, hmemory, ceiling_iff.1 hceiling⟩
      exact ⟨(hleaves _ hwired).grown (h₃.mono (by rintro _ ⟨line, rfl⟩; simp)),
        (h₃.answer? (by simp)).trans hmac₂, ⟨_, (h₃.answer? (by simp)).trans hknows.metal⟩,
        fun yes => (hadmits yes).congr (h₃.answer? (by simp)), shown, hshown⟩
    · have hadmits : ∀ assumeYes, (Call.apply profile assumeYes).Admits done₂ := fun _ =>
        ⟨hneeds, text, memory, htext, hmemory, ceiling_iff.1 hceiling⟩
      refine does_lift fun lines _ => ?_
      refine does_seq (setLimit_does (hread.quiet (by simp [Reading])) hmac₂ (hadmits assumeYes)) ?_
      rintro _ done₃ ⟨hleft, h₃⟩
      refine does_lift fun shown hshown => does_mono (print_does _) fun _ done₄ h₄ => ?_
      have h : Grown (fun o => Setting o ∨ ∃ line, o = .print line) done₂ done₄ :=
        (h₃.mono fun _ h => .inl h).trans (h₄.mono fun _ h => .inr h)
      exact ⟨hleft.grown (h₄.mono (by rintro _ ⟨line, rfl⟩; simp)),
        (h.answer? (by simp [Setting, Shown])).trans hmac₂,
        ⟨_, (h.answer? (by simp [Setting, Shown])).trans hknows.metal⟩,
        fun yes => (hadmits yes).congr (h.answer? (by simp [Setting, Shown, SYSCTL_NAME, MEMSIZE])),
        shown, hshown⟩

theorem revertLimit_does {assumeYes : Bool} :
    Does (.revert assumeYes) log [] (revertLimit assumeYes) fun _ => Leaves 0 := by
  unfold revertLimit
  refine does_seq requireMacos_does ?_
  rintro _ done₁ ⟨h₁, hmac⟩
  refine does_seq (sysctlInt_does _) ?_
  rintro current _ ⟨x, text, rfl, hx, hint⟩
  have hread : Grown Reading [] (done₁ ++ [⟨.sysctl SYSCTL_NAME, x, ()⟩]) :=
    (h₁.mono fun _ h => .inl h).concat (by simp [Reading])
  have hmac₂ : answer? .system (done₁ ++ [⟨.sysctl SYSCTL_NAME, x, ()⟩]) = some (.ok "Darwin") := by
    rw [answer?_concat, if_neg (by simp), hmac]
  have hset : ∀ lines, Does (.revert assumeYes) log (done₁ ++ [⟨.sysctl SYSCTL_NAME, x, ()⟩]) (do
      setLimit SYSTEM_DEFAULT lines assumeYes
      op (.print (SYSCTL_NAME ++ " is back to 0 (system default)"))) fun _ => Leaves 0 := by
    intro lines
    refine does_seq (setLimit_does (hread.quiet (by simp [Reading])) hmac₂ trivial) ?_
    rintro _ done₃ ⟨hleft, -⟩
    exact does_mono (print_does _) fun _ done₄ h₄ =>
      hleft.grown (h₄.mono (by rintro _ ⟨line, rfl⟩; simp))
  split_ifs with hzero
  · subst hzero
    refine does_mono (print_does _) fun _ done₃ h₃ => ?_
    have hleaves : Leaves 0 (done₁ ++ [⟨.sysctl SYSCTL_NAME, x, ()⟩]) :=
      ⟨done₁, x, text, [], rfl, hx, hint, List.forall_mem_nil _⟩
    exact hleaves.grown (h₃.mono (by rintro _ ⟨line, rfl⟩; simp))
  · cases current with
    | none => exact hset _
    | some limit => exact does_lift fun _ _ => hset _

/-! ## The check after `apply` -/

/-- The machine answers as it last did. -/
def Unchanged (log : List Event) (_ : Unit) (o : Op) (x : Choice) : Prop :=
  Reading o → ∀ r, answer? o log = some r → result o x = r

/-- What a reading is then. -/
theorem wp_unchanged {o : Op} {r : o.Resp} {f : o.Resp → Script β} {C : Unit → Prop}
    {S : β → Unit → Prop} {E : Exc → Unit → Prop} (ho : Reading o)
    (hanswer : answer? o log = some (.ok r)) (hC : C ())
    (hf : wp exec (Unchanged log) C S E (f r) ()) :
    wp exec (Unchanged log) C S E (op o >>= f) () := by
  refine wp_op_bind (fun _ _ => hC) (fun x r' w hx h => ?_) fun x e w hx h => ?_
  all_goals
    have hresult : result o x = .ok r := hx ho (.ok r) hanswer
    unfold exec at h
    rw [hresult] at h
  · cases h
    exact hf
  · cases h

theorem wp_sysctlInt {name : String} {text : Str} {reading : Option ℤ} {f : Option ℤ → Script β}
    {C : Unit → Prop} {S : β → Unit → Prop} {E : Exc → Unit → Prop} (ho : Reading (.sysctl name))
    (hanswer : answer? (.sysctl name) log = some (.ok text)) (hint : intOf text = .ok reading)
    (hC : C ()) (hf : wp exec (Unchanged log) C S E (f reading) ()) :
    wp exec (Unchanged log) C S E (sysctlInt name >>= f) () := by
  refine wp_bind (wp_unchanged ho hanswer hC ?_)
  rw [hint]
  exact hf

/-- **The check finds the limit that `apply` left.** -/
theorem judge_applied {profile : Profile} {metal : MetalInfo} {memory : ℤ} {text : String}
    (hpos : profile.system.gpuWiredLimitMb ≠ 0)
    (hceiling : ¬ ceilingMb memory < profile.system.gpuWiredLimitMb)
    (htext : intText profile.system.gpuWiredLimitMb = .ok text) :
    ∃ check, judge profile ⟨some profile.system.gpuWiredLimitMb, metal, some memory⟩ = .ok check ∧
      check.status = .ok := by
  refine ⟨⟨"GPU limit", .ok, SYSCTL_NAME ++ "=" ++ text ++ " (profile needs " ++ text ++ " MB)"⟩,
    ?_, rfl⟩
  simp [judge, Option.filter, LimitState.effectiveMb, limitSource, SYSTEM_DEFAULT, hpos, hceiling,
    htext]

theorem checkGpuLimit_applied {profile : Profile} (h : Applied profile done)
    (hpos : profile.system.gpuWiredLimitMb ≠ 0) :
    wp exec (Unchanged done) (fun _ => True) (fun check _ => check.status = .ok) (fun _ _ => False)
      (checkGpuLimit "Darwin" profile) () := by
  obtain ⟨wired, hwired, hint⟩ := h.leaves.answer?
  obtain ⟨metal, hmetal⟩ := h.metal
  obtain ⟨-, text, memory, htext, hmemory, hroom⟩ := h.admits true
  obtain ⟨shown, hshown⟩ := h.text
  obtain ⟨check, hcheck, hok⟩ := @judge_applied profile metal memory shown hpos
    (ceiling_iff.2 hroom) hshown
  unfold checkGpuLimit
  rw [if_pos rfl]
  refine wp_bind (wp_sysctlInt (by simp [Reading]) hwired hint trivial ?_)
  refine wp_unchanged (by simp [Reading]) hmetal trivial ?_
  refine wp_sysctlInt (by simp [Reading]) htext hmemory trivial ?_
  show wp exec (Unchanged done) _ _ _ (lift (judge profile _)) ()
  rw [hcheck]
  exact hok

theorem preflightGpu_applied {profile : Profile} (h : Applied profile done)
    (hpos : profile.system.gpuWiredLimitMb ≠ 0) (force : Bool) :
    wp exec (Unchanged done) (fun _ => True) (fun warnings _ => warnings = []) (fun _ _ => False)
      (preflightGpu profile force) () := by
  unfold preflightGpu
  refine wp_unchanged (by simp [Reading]) h.mac trivial ?_
  refine wp_seq (checkGpuLimit_applied h hpos) fun check _ hok => ?_
  rw [if_pos hok]
  rfl

/-! ## Calls one after another -/

/-- Calls one after another, with what each came to and did. -/
inductive Session : List Event → List (Call × Except Exc Unit × List Event) → Prop
  | start : Session [] []
  | call {log done : List Event} {calls : List (Call × Except Exc Unit × List Event)} {call : Call}
      {outcome : Except Exc Unit} : Session log calls →
      Ends (logged exec) (fun _ _ _ => True) call.script ((), log) outcome ((), log ++ done) →
        Session (log ++ done) (calls ++ [(call, outcome, done)])

/-- The profile of the call is one that `parse_profile` accepts. -/
def Call.Accepted : Call → Prop
  | .apply profile _ => ∃ py name path data, parseProfile py name path data = .ok profile
  | .revert _ => True

/-- What a call may do, and what it leaves if it returns. -/
structure SafeCall (call : Call) (outcome : Except Exc Unit) (done : List Event) : Prop where
  once : done.countP (fun e => e.op.isRun) ≤ 1
  permitted : Valid (Permits call) done
  leaves : outcome = .ok () → Leaves call.value done
  checked : ∀ profile assumeYes, call = .apply profile assumeYes → outcome = .ok () →
    (∀ system found w, answer? .system done = some (.ok system) →
      Ends exec (Unchanged done) (checkGpuLimit system profile) () found w →
        ∃ check, found = .ok check ∧ check.status = .ok) ∧
    ∀ force found w, Ends exec (Unchanged done) (preflightGpu profile force) () found w →
      found = .ok []

/-- Only the first command is permitted. -/
theorem count_runs (h : Valid (Permits call) done) : done.countP (fun e => e.op.isRun) ≤ 1 := by
  induction done using List.reverseRecOn with
  | nil => exact Nat.zero_le 1
  | append_singleton done e ih =>
    have hdone : Valid (Permits call) done := by
      have htake := h.take done.length
      rwa [List.take_left] at htake
    have he : Permits call done e := by
      have hat := h done.length e (at_concat.2 (.inr ⟨rfl, rfl⟩))
      rwa [List.take_left] at hat
    rw [List.countP_append, List.countP_singleton]
    cases hop : e.op with
    | run argv =>
      have hzero : done.countP (fun e => e.op.isRun) = 0 := by
        rw [List.countP_eq_zero]
        intro e' he' hrun
        cases hop' : e'.op with
        | run argv' => exact (he argv hop).1 e' he' argv' hop'
        | _ => simp [hop', Op.isRun] at hrun
      rw [hzero]
      exact le_refl 1
    | _ => simpa [Op.isRun] using ih hdone

theorem applied_of_ends {profile : Profile} {assumeYes : Bool} {outcome : Except Exc Unit}
    (hneeds : profile.backend.metalMemoryLimit < profile.system.gpuWiredLimitMb * MIB)
    (hpos : profile.system.gpuWiredLimitMb ≠ 0)
    (hends : Ends (logged exec) (fun _ _ _ => True) (applyLimit profile assumeYes) ((), log) outcome
      ((), log ++ done)) : SafeCall (.apply profile assumeYes) outcome done := by
  have hdoes := @applyLimit_does log profile assumeYes hneeds .nil
  rw [List.append_nil] at hdoes
  obtain ⟨hok, herror⟩ := wp_ends hdoes hends
  cases outcome with
  | error e =>
    obtain ⟨done', hdone, hvalid, -⟩ := herror e rfl
    obtain rfl := List.append_cancel_left hdone
    exact ⟨count_runs hvalid, hvalid, nofun, fun _ _ _ h => nomatch h⟩
  | ok u =>
    obtain ⟨done', hdone, hvalid, happlied⟩ := hok u rfl
    obtain rfl := List.append_cancel_left hdone
    refine ⟨count_runs hvalid, hvalid, fun _ => happlied.leaves, ?_⟩
    rintro profile' _ ⟨⟩ -
    refine ⟨fun system found w hsystem hfound => ?_, fun force found w hfound => ?_⟩
    · obtain rfl : system = "Darwin" :=
        Except.ok.inj (Option.some.inj (hsystem.symm.trans happlied.mac))
      obtain ⟨hcheck, hraise⟩ := wp_ends (checkGpuLimit_applied happlied hpos) hfound
      cases found with
      | ok check => exact ⟨check, rfl, hcheck check rfl⟩
      | error e => exact (hraise e rfl).elim
    · obtain ⟨hwarnings, hraise⟩ := wp_ends (preflightGpu_applied happlied hpos force) hfound
      cases found with
      | ok warnings => rw [hwarnings warnings rfl]
      | error e => exact (hraise e rfl).elim

theorem reverted_of_ends {assumeYes : Bool} {outcome : Except Exc Unit}
    (hends : Ends (logged exec) (fun _ _ _ => True) (revertLimit assumeYes) ((), log) outcome
      ((), log ++ done)) : SafeCall (.revert assumeYes) outcome done := by
  have hdoes := @revertLimit_does log assumeYes .nil
  rw [List.append_nil] at hdoes
  obtain ⟨hok, herror⟩ := wp_ends hdoes hends
  cases outcome with
  | error e =>
    obtain ⟨done', hdone, hvalid, -⟩ := herror e rfl
    obtain rfl := List.append_cancel_left hdone
    exact ⟨count_runs hvalid, hvalid, nofun, fun _ _ _ h => nomatch h⟩
  | ok u =>
    obtain ⟨done', hdone, hvalid, hleaves⟩ := hok u rfl
    obtain rfl := List.append_cancel_left hdone
    exact ⟨count_runs hvalid, hvalid, fun _ => hleaves, fun _ _ h => nomatch h⟩

/-- **The GPU limit is only ever changed safely.** -/
theorem gpu_limit_safe {log : List Event} {calls : List (Call × Except Exc Unit × List Event)}
    (h : Session log calls) (hprofiles : ∀ c ∈ calls, c.1.Accepted) :
    ∀ c ∈ calls, SafeCall c.1 c.2.1 c.2.2 := by
  induction h with
  | start => exact fun _ hc => nomatch hc
  | @call log done calls call outcome _ hends ih =>
    obtain ⟨hprofiles, hprofile⟩ := List.forall_mem_append.1 hprofiles
    refine List.forall_mem_append.2 ⟨ih hprofiles, List.forall_mem_singleton.2 ?_⟩
    cases call with
    | apply profile assumeYes =>
      obtain ⟨py, name, path, data, hparse⟩ := hprofile _ (List.mem_singleton.2 rfl)
      obtain ⟨-, -, hdescribes⟩ := parseProfile_eq_ok.1 hparse
      obtain ⟨t, -, hsystem⟩ := hdescribes.system
      have hlimit : 1 ≤ profile.system.gpuWiredLimitMb := hsystem.gpuWiredLimitMb.2.1
      exact applied_of_ends hdescribes.consistent.wired (by omega) hends
    | revert assumeYes => exact reverted_of_ends hends

/-! ## An evening -/

/-- What a Mac with 24 GB answers, whose limit reads as this text. -/
def mac (limit : String) : Choice where
  raises := none
  system := "Darwin"
  text := str limit
  metal := ⟨none, "MLX is not installed"⟩
  tty := true
  answer := some (str "Yes")
  status := 0

def memory24 : Choice := { mac "" with text := str "25769803776" }

/-- `apply` for 2048 MB, agreed to on the terminal. -/
def evening : List Choice :=
  [mac "0", mac "0", mac "0", memory24, mac "0", mac "0", mac "0", mac "0", mac "0",
    mac "0", mac "0", mac "0", mac "2048", mac "2048"]

theorem gpu_limit_safe_evening : ∃ done,
    Session done [(.apply ciTinyProfile false, .ok (), done)] ∧ Leaves 2048 done := by
  have hrun : (runWith (logged exec) (fun _ _ _ => True) evening
      (applyLimit ciTinyProfile false) ((), [])).map Prod.fst = some (.ok ()) := by
    decide +kernel
  obtain ⟨⟨outcome, ⟨⟩, done⟩, hrun, rfl⟩ := Option.map_eq_some_iff.1 hrun
  have hsession : Session done [(.apply ciTinyProfile false, .ok (), done)] :=
    .call .start (Ends.of_runWith hrun)
  refine ⟨done, hsession, ?_⟩
  have hsafe := gpu_limit_safe hsession
    (List.forall_mem_singleton.2 ⟨_, _, _, _, parseProfile_ciTiny⟩)
  exact (hsafe _ (List.mem_singleton.2 rfl)).leaves rfl

end AgentLab.Gpu
