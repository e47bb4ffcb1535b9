import AgentLab.Config.Load
import AgentLab.Config.Valid
import AgentLab.Python.Rounding

/-!
# Reported problems

When the functions that read the configuration raise something else than a `ConfigError`. They go on
after a problem, so that every field is read; what a field can raise is said by `Kind.Safe`: a
message needs a text of the value, which an integer with very many digits has not, a size can be too
large for an integer, and an integer too large for a float.

`Yields C V m` says of a reading `m` that it returns `V` of the table if `C` holds of it, and raises
otherwise. The conditions of the parts of a reading add up (`Yields.bind`), so that
`always_reported_iff` collects those of the fields.
-/

namespace AgentLab.Config

open Python

/-- The call returns. -/
def Works {ε α : Type} (x : Except ε α) : Prop := ∃ a, x = .ok a

/-- The call returns, or raises the exception of the program. -/
def Reported {ε α : Type} (x : Except (Raised ε) α) : Prop := ∀ e, x ≠ .error (.builtin e)

section

variable {α β : Type}

theorem works_ok {ε : Type} (a : α) : Works (.ok a : Except ε α) := ⟨a, rfl⟩

theorem not_works_error {ε : Type} (e : ε) : ¬ Works (.error e : Except ε α) := nofun

theorem works_bind {ε : Type} {x : Except ε α} {f : α → Except ε β} :
    Works (x >>= f) ↔ ∃ a, x = .ok a ∧ Works (f a) := by
  constructor
  · rintro ⟨b, hb⟩
    obtain ⟨a, ha, hb⟩ := Except.bind_eq_ok.1 hb
    exact ⟨a, ha, b, hb⟩
  · rintro ⟨a, ha, b, hb⟩
    exact ⟨b, Except.bind_eq_ok.2 ⟨a, ha, hb⟩⟩

theorem works_map {ε : Type} {x : Except ε α} {f : α → β} : Works (f <$> x) ↔ Works x := by
  cases x with
  | ok a => exact iff_of_true (works_ok _) (works_ok _)
  | error e => exact iff_of_false (not_works_error e) (not_works_error e)

theorem works_seq {ε : Type} {x : Except ε α} {f : α → Except ε β} {P : Prop}
    (hf : ∀ a, Works (f a) ↔ P) : Works (x >>= f) ↔ Works x ∧ P := by
  rw [works_bind]
  exact ⟨fun ⟨a, ha, h⟩ => ⟨⟨a, ha⟩, (hf a).1 h⟩, fun ⟨⟨a, ha⟩, h⟩ => ⟨a, ha, (hf a).2 h⟩⟩

/-- A message is made of a text. -/
theorem works_text {ε : Type} {x : Except ε α} {f : α → Except ε β} (hf : ∀ a, Works (f a)) :
    Works (x >>= f) ↔ Works x := by
  rw [works_bind]
  exact ⟨fun ⟨a, ha, _⟩ => ⟨a, ha⟩, fun ⟨a, ha⟩ => ⟨a, ha, hf a⟩⟩

end

/-! ## Fields -/

/-- The kinds of fields, with their bounds. -/
inductive Kind
  | integer (minimum : ℤ) (maximum : Option ℤ)
  | number (minimum maximum : ℚ)
  | string
  | boolean
  | size

/-- The number of a size and the bytes of its unit. -/
def sizeNumber (text : String) : Option (ℚ × ℕ) := do
  let (number, unit) ← sizeRe text
  let (_, factor) ← sizeUnits.find? fun u => u.1.toList = unit.map Char.toUpper
  return (number, factor)

theorem decimalValue_nonneg (whole frac : List Char) : 0 ≤ decimalValue whole frac :=
  div_nonneg (Nat.cast_nonneg _) (pow_nonneg (by norm_num) _)

theorem sizeRe_nonneg {text : String} {number : ℚ} {unit : List Char}
    (h : sizeRe text = some (number, unit)) : 0 ≤ number := by
  unfold sizeRe at h
  dsimp only at h
  split_ifs at h
  obtain ⟨rfl, -⟩ := Prod.mk.inj (Option.some.inj h)
  exact decimalValue_nonneg _ _

/-- The units are powers of two. -/
theorem sizeUnits_pow : ∀ u ∈ sizeUnits, ∃ k ≤ 40, u.2 = 2 ^ k := by
  decide

/-- The float of the number times the unit is finite, as that of the product. -/
theorem rounded_mul_lt_iff {number : ℚ} {k : ℕ} (h : 0 ≤ number) (hk : k ≤ 40) :
    rounded number * (2 ^ k : ℕ) < 2 ^ 1024 ↔ number * (2 ^ k : ℕ) < 2 ^ 1024 - 2 ^ 970 := by
  have hsplit : ∀ (n : ℕ) (z : ℤ), z = n - k → (2 : ℚ) ^ n = 2 ^ z * (2 ^ k : ℕ) := by
    rintro n _ rfl
    push_cast
    rw [zpow_sub₀ two_ne_zero, zpow_natCast, zpow_natCast, div_mul_cancel₀]
    exact pow_ne_zero _ two_ne_zero
  have hpos : (0 : ℚ) < (2 ^ k : ℕ) := by positivity
  rw [hsplit 1024 (1024 - k) rfl, hsplit 970 (1024 - k - 54) (by push_cast; ring), ← sub_mul,
    mul_lt_mul_iff_left₀ hpos, mul_lt_mul_iff_left₀ hpos]
  exact rounded_lt_zpow_iff h (by omega)

/-- **When a size is not too large.** -/
theorem parseSize_ne_overflow_iff {text : String} :
    parseSize text ≠ .error .overflowError ↔
      ∀ number factor, sizeNumber text = some (number, factor) →
        number * factor < 2 ^ 1024 - 2 ^ 970 := by
  unfold parseSize sizeNumber
  cases hre : sizeRe text with
  | none => simp
  | some size =>
    obtain ⟨number, unit⟩ := size
    dsimp only
    cases hunit : sizeUnits.find? fun u => u.1.toList = unit.map Char.toUpper with
    | none => simp [hunit]
    | some u =>
      obtain ⟨k, hk, hfactor⟩ := sizeUnits_pow u (List.mem_of_find?_eq_some hunit)
      have hnumber := sizeRe_nonneg hre
      have hpow : (0 : ℚ) < 2 ^ 1024 := pow_pos two_pos _
      have hiff := rounded_mul_lt_iff hnumber hk
      rw [← hfactor] at hiff
      simp only [Option.bind_eq_bind, Option.bind_some, hunit, Option.pure_def, Option.some.injEq,
        Prod.mk.injEq, and_imp, forall_apply_eq_imp_iff, forall_eq']
      rw [← hiff, ofRat_eq,
        if_neg (not_le.2 ((neg_lt_zero.2 hpow).trans_le (rounded_nonneg hnumber)))]
      by_cases hlarge : 2 ^ 1024 ≤ rounded number
      · have hone : (1 : ℚ) ≤ u.2 := by
          rw [hfactor]
          exact_mod_cast Nat.one_le_two_pow
        rw [if_pos hlarge]
        refine iff_of_false (fun h => h rfl) (not_lt.2 (hlarge.trans ?_))
        exact le_mul_of_one_le_right (rounded_nonneg hnumber) hone
      · rw [if_neg hlarge]
        dsimp only
        split_ifs with hlt
        · exact iff_of_true (by rintro ⟨⟩) hlt
        · exact iff_of_false (fun h => h rfl) hlt

variable (py : Texts)

/-- A field with the value can be read: the value is converted, and if it is wrong, the message has
the text of it. -/
def Kind.Safe : Kind → Toml → Prop
  | .integer minimum maximum, .int n =>
    ¬ Reader.Within minimum maximum n → Works (py.str (.int n))
  | .number minimum maximum, .int n =>
    Works (PyFloat.ofInt n) ∧
      (¬ (minimum ≤ n ∧ n ≤ maximum) → Works (Reader.outOfBounds py minimum maximum (.int n)))
  | .number minimum maximum, .float f =>
    Reader.between minimum maximum f = false →
      Works (Reader.outOfBounds py minimum maximum (.float f))
  | .string, .str s => s = "" → Works (py.repr (.str s))
  | .boolean, .bool _ => True
  | .size, .str s =>
    -- from here on the float of the size is infinite
    (∀ number factor, sizeNumber s = some (number, factor) →
      number * factor < 2 ^ 1024 - 2 ^ 970) ∧
      ∀ n, parseSize s = .ok n → n ≤ 0 → Works (py.repr (.str s))
  | _, value => Works (py.repr value)

abbrev Table := List (String × Toml)

/-- All fields of a table can be read. -/
def FieldsSafe (fields : List (String × Kind)) (t : Table) : Prop :=
  ∀ f ∈ fields, ∀ v, t.lookup f.1 = some v → f.2.Safe py v

/-! ## What a reading needs -/

/-- Whether the table is there, and the table. -/
abbrev View := Bool × Table

def Section.view (s : Section) : View := (s.valid, s.table)

namespace Reader

variable {α β : Type} {C D : View → Prop} {V : View → α} {m : Reader α} {f : α → Reader β}

variable {py}

/-- The reading returns `V` of the table if `C` holds of it, and raises otherwise. -/
structure Yields (C : View → Prop) (V : View → α) (m : Reader α) : Prop where
  returns : ∀ s, C s.view → ∃ s', m s = .ok (V s.view, s') ∧ s'.view = s.view
  raises : ∀ s, ¬ C s.view → ∃ x, m s = .error x

theorem Yields.pure (v : α) : Yields (fun _ => True) (fun _ => v) (pure v : Reader α) where
  returns s _ := ⟨s, rfl, rfl⟩
  raises _ h := absurd trivial h

/-- **One reading after another.** -/
theorem Yields.bind {D : α → View → Prop} {W : α → View → β} (hm : Yields C V m)
    (hf : ∀ v, Yields (D v) (W v) (f v)) :
    Yields (fun t => C t ∧ D (V t) t) (fun t => W (V t) t) (m >>= f) where
  returns s h := by
    obtain ⟨s', hs', hview⟩ := hm.returns s h.1
    obtain ⟨s'', hs'', hview'⟩ := (hf (V s.view)).returns s' (hview.symm ▸ h.2)
    refine ⟨s'', Except.bind_eq_ok.2 ⟨(V s.view, s'), hs', ?_⟩, hview'.trans hview⟩
    rw [← hview]
    rw [hview] at hs'' ⊢
    exact hs''
  raises s h := by
    by_cases hC : C s.view
    · obtain ⟨s', hs', hview⟩ := hm.returns s hC
      obtain ⟨x, hx⟩ := (hf (V s.view)).raises s' fun hD => h ⟨hC, hview ▸ hD⟩
      refine ⟨x, ?_⟩
      show (m s >>= fun p => f p.1 p.2) = _
      rw [hs']
      exact hx
    · obtain ⟨x, hx⟩ := hm.raises s hC
      refine ⟨x, ?_⟩
      show (m s >>= fun p => f p.1 p.2) = _
      rw [hx]
      rfl

theorem Yields.congr {V' : View → α} (hm : Yields C V m) (hC : ∀ t, C t ↔ D t)
    (hV : ∀ t, D t → V t = V' t) : Yields D V' m where
  returns s h := by
    rw [← hV _ h]
    exact hm.returns s ((hC _).2 h)
  raises s h := hm.raises s fun hc => h ((hC _).1 hc)

theorem Yields.lift (x : Except PyExc α) (d : α) :
    Yields (fun _ => Works x) (fun _ => x.toOption.getD d) (liftM x : Reader α) := by
  cases x with
  | ok a => exact ⟨fun s _ => ⟨s, rfl, rfl⟩, fun s h => absurd (works_ok a) h⟩
  | error e => exact ⟨fun s h => absurd h (not_works_error e), fun s _ => ⟨e, rfl⟩⟩

theorem Yields.fail (key message : String) :
    Yields (fun _ => True) (fun _ => ()) (fail key message) where
  returns _ _ := ⟨_, rfl, rfl⟩
  raises _ h := absurd trivial h

theorem Yields.failIf (key : String) (problem : Bool) (message : Except PyExc String) :
    Yields (fun _ => problem = true → Works message) (fun _ => ())
    (failIf key problem message) := by
  cases problem with
  | false => exact (Yields.pure ()).congr (fun _ => iff_of_true trivial nofun) fun _ _ => rfl
  | true =>
    refine ((Yields.lift message "").bind fun m => .fail key m).congr (fun _ => ?_) fun _ _ => rfl
    simp

theorem Yields.forM (o : Option α) {g : α → Reader Unit} {C : α → Prop}
    (h : ∀ a, Yields (fun _ => C a) (fun _ => ()) (g a)) :
    Yields (fun _ => ∀ a, o = some a → C a) (fun _ => ()) (o.forM g) := by
  cases o with
  | none => exact (Yields.pure ()).congr (fun _ => iff_of_true trivial nofun) fun _ _ => rfl
  | some a => exact (h a).congr (fun _ => by simp) fun _ _ => rfl

/-- **Reading a field.** -/
theorem Yields.get {C : Toml → Prop} {V : Toml → β} {f : Option Toml → Reader β} (key : String)
    {d : β} (hnone : f none = Pure.pure d)
    (hf : ∀ v, Yields (fun _ => C v) (fun _ => V v) (f (some v))) :
    Yields (fun t => ∀ v, t.2.lookup key = some v → C v)
      (fun t => (t.2.lookup key).elim d V) (Reader.get key >>= f) := by
  constructor
  · intro s h
    rw [get_bind]
    change ∀ v, s.table.lookup key = some v → C v at h
    show ∃ s' : Section, _ = Except.ok ((s.table.lookup key).elim d V, s') ∧ _
    cases hl : s.table.lookup key with
    | some v => exact (hf v).returns (read s [key]) (h v hl)
    | none =>
      dsimp only
      rw [hnone]
      exact ((Yields.failIf key s.valid (.ok "missing")).bind fun _ => .pure d).returns
        (read s [key]) ⟨fun _ => works_ok _, trivial⟩
  · intro s h
    rw [get_bind]
    change ¬ ∀ v, s.table.lookup key = some v → C v at h
    cases hl : s.table.lookup key with
    | some v =>
      refine (hf v).raises (read s [key]) fun hC => h fun v' hv' => ?_
      rw [hl] at hv'
      exact Option.some.inj hv' ▸ hC
    | none => exact absurd (fun v hv => by rw [hl] at hv; cases hv) h

/-- A reading that reports the value and goes on with a placeholder. -/
theorem Yields.failed (key : String) (message : Except PyExc String) (v : α) :
    Yields (fun _ => Works message) (fun _ => v) (do Reader.failIf key true message; return v) :=
  ((Yields.failIf key true message).bind fun _ => .pure v).congr (fun _ => by simp) fun _ _ => rfl

/-- What the readers make of the value of a field. -/
def integerOf : Option Toml → ℤ
  | some (.int n) => n
  | _ => 0

def numberOf : Option Toml → PyFloat
  | some (.int n) => (PyFloat.ofInt n).toOption.getD (.finite 0)
  | some (.float f) => f
  | _ => .finite 0

def stringOf : Option Toml → String
  | some (.str s) => s
  | _ => ""

def booleanOf : Option Toml → Bool
  | some (.bool b) => b
  | _ => false

def sizeOf : Option Toml → ℤ
  | some (.str s) => (parseSize s).toOption.getD 0
  | _ => 0

/-- A field of the kind can be read. -/
def FieldSafe (py : Texts) (key : String) (kind : Kind) (t : View) : Prop :=
  ∀ v, t.2.lookup key = some v → kind.Safe py v

theorem integer_yields (key : String) (minimum : ℤ) (maximum : Option ℤ) :
    Yields (FieldSafe py key (.integer minimum maximum)) (fun t => integerOf (t.2.lookup key))
      (integer py key minimum maximum) := by
  unfold integer
  refine (Yields.get key rfl (V := fun v => integerOf (some v)) fun v => ?_).congr
    (fun _ => Iff.rfl) fun t _ => by cases t.2.lookup key <;> rfl
  cases v with
  | int n =>
    have hmin : Works (do return "must be at least " ++ toString minimum ++
        (← (do return ", got " ++ (← py.str (.int n))))) ↔ Works (py.str (.int n)) :=
      (works_text fun _ => works_ok _).trans works_map
    have hmax : ∀ m : ℤ, Works (do return "must be at most " ++ toString m ++
        (← (do return ", got " ++ (← py.str (.int n))))) ↔ Works (py.str (.int n)) :=
      fun m => (works_text fun _ => works_ok _).trans works_map
    refine ((Yields.failIf key _ _).bind fun _ => .bind (.forM maximum
      (C := fun m => decide (m < n) = true → Works (py.str (.int n))) fun m => ?_)
        fun _ => .pure n).congr (fun _ => ?_) fun _ _ => rfl
    · exact (Yields.failIf key _ _).congr (fun _ => imp_congr_right fun _ => hmax m) fun _ _ => rfl
    · rw [hmin]
      simp only [decide_eq_true_eq]
      constructor
      · rintro ⟨hlow, hhigh, -⟩ hout
        by_cases hn : n < minimum
        · exact hlow hn
        · by_contra hworks
          exact hout ⟨not_lt.1 hn, fun m hm => not_lt.1 fun hlt => hworks (hhigh m hm hlt)⟩
      · intro h
        exact ⟨fun hn => h fun hw => absurd hw.1 (not_le.2 hn),
          fun m hm hn => h fun hw => absurd (hw.2 m hm) (not_le.2 hn), trivial⟩
  | _ => exact (Yields.failed key _ _).congr (fun _ => works_map) fun _ _ => rfl

theorem number_yields (key : String) (minimum maximum : ℚ) :
    Yields (FieldSafe py key (.number minimum maximum)) (fun t => numberOf (t.2.lookup key))
      (number py key minimum maximum) := by
  unfold number
  refine (Yields.get key rfl (V := fun v => numberOf (some v)) fun v => ?_).congr
    (fun _ => Iff.rfl) fun t _ => by cases t.2.lookup key <;> rfl
  cases v with
  | int n =>
    refine ((Yields.failIf key _ _).bind fun _ => .lift (PyFloat.ofInt n) (.finite 0)).congr
      (fun _ => ?_) fun _ _ => rfl
    rw [and_comm]
    refine and_congr_right' (imp_congr_left ?_)
    simp only [between, Bool.not_eq_true', Bool.and_eq_false_iff, decide_eq_false_iff_not,
      not_and_or]
  | float f =>
    exact ((Yields.failIf key _ _).bind fun _ => .pure f).congr
      (fun _ => by simp [Kind.Safe]) fun _ _ => rfl
  | _ => exact (Yields.failed key _ _).congr (fun _ => works_map) fun _ _ => rfl

theorem string_yields (key : String) (check : String → Option String) :
    Yields (FieldSafe py key .string) (fun t => stringOf (t.2.lookup key))
      (string py key check) := by
  unfold string
  refine (Yields.get key rfl (V := fun v => stringOf (some v)) fun v => ?_).congr
    (fun _ => Iff.rfl) fun t _ => by cases t.2.lookup key <;> rfl
  cases v with
  | str text =>
    dsimp only
    split_ifs with htext
    · exact (Yields.failed key _ _).congr (fun _ => works_map.trans (by simp [Kind.Safe, htext]))
        fun _ _ => htext.symm
    · exact ((Yields.forM (check text) fun m => .fail key m).bind fun _ => .pure text).congr
        (fun _ => by simp [Kind.Safe, htext]) fun _ _ => rfl
  | _ => exact (Yields.failed key _ _).congr (fun _ => works_map) fun _ _ => rfl

theorem boolean_yields (key : String) :
    Yields (FieldSafe py key .boolean) (fun t => booleanOf (t.2.lookup key)) (boolean py key) := by
  unfold boolean
  refine (Yields.get key rfl (V := fun v => booleanOf (some v)) fun v => ?_).congr
    (fun _ => Iff.rfl) fun t _ => by cases t.2.lookup key <;> rfl
  cases v with
  | bool b => exact (Yields.pure b).congr (fun _ => Iff.rfl) fun _ _ => rfl
  | _ => exact (Yields.failed key _ _).congr (fun _ => works_map) fun _ _ => rfl

theorem size_yields (key : String) :
    Yields (FieldSafe py key .size) (fun t => sizeOf (t.2.lookup key)) (size py key) := by
  unfold size
  refine (Yields.get key rfl (V := fun v => sizeOf (some v)) fun v => ?_).congr
    (fun _ => Iff.rfl) fun t _ => by cases t.2.lookup key <;> rfl
  cases v with
  | str text =>
    dsimp only [Kind.Safe, sizeOf]
    rw [← parseSize_ne_overflow_iff]
    cases hsize : parseSize text with
    | ok n =>
      have hmessage : Works (do return "must be greater than zero, got " ++
          (← py.repr (.str text))) ↔ Works (py.repr (.str text)) := works_map
      refine ((Yields.failIf key _ _).bind fun _ => .pure n).congr (fun _ => ?_) fun _ _ => rfl
      rw [hmessage]
      simp
    | error e =>
      cases e with
      | valueError message =>
        exact ((Yields.fail key message).bind fun _ => .pure 0).congr (fun _ => by simp)
          fun _ _ => rfl
      | overflowError =>
        exact ⟨fun _ h => absurd rfl h.1, fun _ _ => ⟨.overflowError, rfl⟩⟩
  | _ => exact (Yields.failed key _ _).congr (fun _ => works_map) fun _ _ => rfl

theorem Yields.list_forM {ι : Type} (l : List ι) {g : ι → Reader Unit}
    (h : ∀ i, Yields (fun _ => True) (fun _ => ()) (g i)) :
    Yields (fun _ => True) (fun _ => ()) (l.forM g) := by
  induction l with
  | nil => exact .pure ()
  | cons i l ih => exact ((h i).bind fun _ => ih).congr (fun _ => by simp) fun _ _ => rfl

/-- A reading that looks at the section itself. -/
theorem Yields.state {C : View → View → Prop} {V : View → View → α} {f : Section → Reader α}
    (h : ∀ s, Yields (C s.view) (V s.view) (f s)) :
    Yields (fun t => C t t) (fun t => V t t) (getThe Section >>= f) :=
  ⟨fun s hC => (h s).returns s hC, fun s hC => (h s).raises s hC⟩

theorem finish_yields : Yields (fun _ => True) (fun _ => ()) finish :=
  .state (C := fun _ _ => True) (V := fun _ _ => ()) fun _ => .list_forM _ fun key =>
    .fail key "unknown field"

end Reader

/-! ## Profiles -/

def modelKinds : List (String × Kind) := [("id", .string)]

def backendKinds : List (String × Kind) :=
  [("port", .integer 1024 (some 65535)), ("prefill_step_size", .integer 1 none),
    ("prompt_cache_size", .integer 0 none), ("prompt_cache_bytes", .size),
    ("metal_memory_limit", .size), ("tool_parser", .string), ("enable_thinking", .boolean),
    ("temperature", .number 0 2), ("top_p", .number 0 1), ("top_k", .integer 0 none),
    ("thinking_temperature", .number 0 2), ("thinking_top_p", .number 0 1),
    ("thinking_top_k", .integer 0 none), ("start_timeout_seconds", .integer 1 none)]

def gatewayKinds : List (String × Kind) :=
  [("port", .integer 1024 (some 65535)), ("model_name", .string), ("max_context", .integer 1 none),
    ("max_output_tokens", .integer 1 none), ("min_output_tokens", .integer 1 none),
    ("queue_size", .integer 0 none),
    ("heartbeat_seconds", .integer 1 (some (CLOUDFLARE_IDLE_TIMEOUT_SECONDS - 1)))]

def tunnelKinds : List (String × Kind) := [("enabled", .boolean), ("hostname", .string)]

def systemKinds : List (String × Kind) := [("gpu_wired_limit_mb", .integer 1 none)]

/-- The sections, with the kinds of their fields. -/
def sectionKinds : List (String × List (String × Kind)) :=
  [("model", modelKinds), ("backend", backendKinds), ("gateway", gatewayKinds),
    ("tunnel", tunnelKinds), ("system", systemKinds)]

section

open Reader

variable {py}

theorem readModel_yields :
    ∃ V, Yields (fun t => FieldsSafe py modelKinds t.2) V (readModel py) := by
  unfold readModel
  refine ⟨_, ((string_yields "id" _).bind fun id => finish_yields.bind fun _ =>
    .pure (ModelConfig.mk id)).congr (fun t => ?_) fun _ _ => rfl⟩
  simp only [FieldsSafe, modelKinds, List.forall_mem_cons, List.not_mem_nil, FieldSafe]
  simp

theorem readBackend_yields :
    ∃ V, Yields (fun t => FieldsSafe py backendKinds t.2) V (readBackend py) := by
  unfold readBackend
  refine ⟨_, ((integer_yields _ _ _).bind fun port => (integer_yields _ _ _).bind
    fun prefillStepSize => (integer_yields _ _ _).bind fun promptCacheSize =>
    (size_yields _).bind fun promptCacheBytes => (size_yields _).bind fun metalMemoryLimit =>
    (string_yields _ _).bind fun toolParser => (boolean_yields _).bind fun enableThinking =>
    (number_yields _ _ _).bind fun temperature => (number_yields _ _ _).bind fun topP =>
    (integer_yields _ _ _).bind fun topK => (number_yields _ _ _).bind fun thinkingTemperature =>
    (number_yields _ _ _).bind fun thinkingTopP => (integer_yields _ _ _).bind fun thinkingTopK =>
    (integer_yields _ _ _).bind fun startTimeoutSeconds => finish_yields.bind fun _ =>
    .pure (BackendConfig.mk port prefillStepSize promptCacheSize promptCacheBytes metalMemoryLimit
      toolParser enableThinking temperature topP topK thinkingTemperature thinkingTopP thinkingTopK
      startTimeoutSeconds)).congr (fun t => ?_) fun _ _ => rfl⟩
  simp only [FieldsSafe, backendKinds, List.forall_mem_cons, List.not_mem_nil, FieldSafe]
  simp

theorem readGateway_yields :
    ∃ V, Yields (fun t => FieldsSafe py gatewayKinds t.2) V (readGateway py) := by
  unfold readGateway
  refine ⟨_, ((integer_yields _ _ _).bind fun port => (string_yields _ _).bind fun modelName =>
    (integer_yields _ _ _).bind fun maxContext => (integer_yields _ _ _).bind
    fun maxOutputTokens => (integer_yields _ _ _).bind fun minOutputTokens =>
    (integer_yields _ _ _).bind fun queueSize => (integer_yields _ _ _).bind
    fun heartbeatSeconds => finish_yields.bind fun _ => .pure (GatewayConfig.mk port modelName
      maxContext maxOutputTokens minOutputTokens queueSize heartbeatSeconds)).congr
      (fun t => ?_) fun _ _ => rfl⟩
  simp only [FieldsSafe, gatewayKinds, List.forall_mem_cons, List.not_mem_nil, FieldSafe]
  simp

theorem readTunnel_yields :
    ∃ V, Yields (fun t => FieldsSafe py tunnelKinds t.2) V (readTunnel py) := by
  unfold readTunnel
  refine ⟨_, ((boolean_yields _).bind fun enabled => (string_yields _ _).bind fun hostname =>
    finish_yields.bind fun _ => .pure (TunnelConfig.mk enabled hostname)).congr
      (fun t => ?_) fun _ _ => rfl⟩
  simp only [FieldsSafe, tunnelKinds, List.forall_mem_cons, List.not_mem_nil, FieldSafe]
  simp

theorem readSystem_yields :
    ∃ V, Yields (fun t => FieldsSafe py systemKinds t.2) V (readSystem py) := by
  unfold readSystem
  refine ⟨_, ((integer_yields _ _ _).bind fun gpuWiredLimitMb => finish_yields.bind fun _ =>
    .pure (SystemConfig.mk gpuWiredLimitMb)).congr (fun t => ?_) fun _ _ => rfl⟩
  simp only [FieldsSafe, systemKinds, List.forall_mem_cons, List.not_mem_nil, FieldSafe]
  simp

/-- A section can be read, if it is a table. -/
def SectionSafe (py : Texts) (data : Table) (section_ : String × List (String × Kind)) : Prop :=
  ∀ t, data.lookup section_.1 = some (.table t) → FieldsSafe py section_.2 t

theorem fieldsSafe_nil (fields : List (String × Kind)) : FieldsSafe py fields [] :=
  fun _ _ _ h => nomatch h

theorem new_view (name : String) (table : Option Toml) (errors : List String) :
    (Section.new name table errors).view =
      match table with
      | some (.table t) => (true, t)
      | _ => (false, []) := by
  cases table with
  | none => rfl
  | some v => cases v <;> rfl

theorem works_readSection {α : Type} {read : Reader α} {fields : List (String × Kind)}
    {name : String} {data : Table} {errors : List String}
    (hread : ∃ V, Yields (fun t => FieldsSafe py fields t.2) V read) :
    Works (readSection name read data errors) ↔ SectionSafe py data (name, fields) := by
  obtain ⟨V, hread⟩ := hread
  have hsafe : FieldsSafe py fields (Section.new name (data.lookup name) errors).view.2 ↔
      SectionSafe py data (name, fields) := by
    rw [new_view]
    unfold SectionSafe
    split
    · next t ht => simp [ht]
    · next hno => exact iff_of_true (fieldsSafe_nil fields) fun t ht => absurd ht (hno t)
  rw [← hsafe]
  unfold readSection
  refine (works_text fun _ => works_ok _).trans ⟨fun h => ?_, fun h => ?_⟩
  · by_contra hno
    obtain ⟨x, hx⟩ := hread.raises _ hno
    obtain ⟨r, hr⟩ := h
    exact nomatch hx.symm.trans hr
  · obtain ⟨s', hs', -⟩ := hread.returns _ h
    exact ⟨_, hs'⟩

/-- The messages of the cross-field rules that are broken can be made. -/
structure RulesSafe (py : Texts) (p : Profile) : Prop where
  ports : p.backend.port = p.gateway.port → Works (py.str (.int p.gateway.port))
  minContext : p.gateway.maxContext ≤ p.gateway.minOutputTokens →
    Works (py.str (.int p.gateway.minOutputTokens)) ∧ Works (py.str (.int p.gateway.maxContext))
  minOutput : p.gateway.maxOutputTokens < p.gateway.minOutputTokens →
    Works (py.str (.int p.gateway.minOutputTokens)) ∧
      Works (py.str (.int p.gateway.maxOutputTokens))
  maxOutput : p.gateway.maxContext < p.gateway.maxOutputTokens →
    Works (py.str (.int p.gateway.maxOutputTokens)) ∧ Works (py.str (.int p.gateway.maxContext))
  wired : p.system.gpuWiredLimitMb * 1024 ^ 2 ≤ p.backend.metalMemoryLimit →
    Works (py.str (.int p.system.gpuWiredLimitMb))

theorem works_rule {broken : Bool} {message : Except PyExc String} :
    Works (rule broken message) ↔ (broken = true → Works message) := by
  cases broken with
  | false => exact iff_of_true (works_ok _) nofun
  | true => exact works_map.trans (by simp)

theorem works_crossErrors {p : Profile} :
    Works (crossErrors py p.backend p.gateway p.system) ↔ RulesSafe py p := by
  have htwo : ∀ {a b : ℤ} {f : String → String → String}, Works (do
      let x ← py.str (.int a)
      let y ← py.str (.int b)
      return f x y) ↔ Works (py.str (.int a)) ∧ Works (py.str (.int b)) :=
    works_seq fun _ => works_map
  unfold crossErrors
  dsimp only
  refine (works_seq fun _ => works_seq fun _ => works_seq fun _ => works_seq fun _ =>
    works_text fun _ => works_ok _).trans ?_
  simp only [works_rule]
  constructor
  · rintro ⟨h₁, h₂, h₃, h₄, h₅⟩
    exact ⟨fun h => works_map.1 (h₁ (decide_eq_true h)), fun h => htwo.1 (h₂ (decide_eq_true h)),
      fun h => htwo.1 (h₃ (decide_eq_true h)), fun h => htwo.1 (h₄ (decide_eq_true h)),
      fun h => works_map.1 (h₅ (decide_eq_true h))⟩
  · intro h
    exact ⟨fun hb => works_map.2 (h.ports (of_decide_eq_true hb)),
      fun hb => htwo.2 (h.minContext (of_decide_eq_true hb)),
      fun hb => htwo.2 (h.minOutput (of_decide_eq_true hb)),
      fun hb => htwo.2 (h.maxOutput (of_decide_eq_true hb)),
      fun hb => works_map.2 (h.wired (of_decide_eq_true hb))⟩

/-- `parse_profile` returns or raises a `ConfigError`. -/
structure ProfileSafe (py : Texts) (data : Table) : Prop where
  sections : ∀ section_ ∈ sectionKinds, SectionSafe py data section_
  rules : ∀ p, HasFields data p → RulesSafe py p

theorem works_readProfile {name path : String} {data : Table} :
    Works (readProfile py name path data) ↔ ProfileSafe py data := by
  have hunknown : ((unknown (data.map Prod.fst) knownSections).map fun s =>
      "unknown section [" ++ s ++ "]") = [] ↔ OnlyFields data knownSections :=
    List.map_eq_nil_iff.trans unknown_eq_nil
  unfold readProfile
  constructor
  · rintro ⟨r, h⟩
    obtain ⟨⟨model, e₁⟩, h₁, h⟩ := Except.bind_eq_ok.1 h
    obtain ⟨⟨backend, e₂⟩, h₂, h⟩ := Except.bind_eq_ok.1 h
    obtain ⟨⟨gateway, e₃⟩, h₃, h⟩ := Except.bind_eq_ok.1 h
    obtain ⟨⟨tunnel, e₄⟩, h₄, h⟩ := Except.bind_eq_ok.1 h
    obtain ⟨⟨system, e₅⟩, h₅, h⟩ := Except.bind_eq_ok.1 h
    obtain ⟨e₆, h₆, -⟩ := Except.bind_eq_ok.1 h
    refine ⟨?_, fun p hp => ?_⟩
    · simp only [sectionKinds, List.forall_mem_cons]
      exact ⟨(works_readSection readModel_yields).1 ⟨_, h₁⟩,
        (works_readSection readBackend_yields).1 ⟨_, h₂⟩,
        (works_readSection readGateway_yields).1 ⟨_, h₃⟩,
        (works_readSection readTunnel_yields).1 ⟨_, h₄⟩,
        (works_readSection readSystem_yields).1 ⟨_, h₅⟩, by simp⟩
    · -- All fields are right, so that nothing was appended before the rules.
      have hmodel := h₁.symm.trans
        ((readSection_iff readModel_takes).2 ⟨hunknown.2 hp.only, hp.model⟩)
      obtain ⟨-, rfl⟩ := Prod.mk.inj (Except.ok.inj hmodel)
      have hbackend := h₂.symm.trans
        ((readSection_iff readBackend_takes).2 ⟨rfl, hp.backend⟩)
      obtain ⟨rfl, rfl⟩ := Prod.mk.inj (Except.ok.inj hbackend)
      have hgateway := h₃.symm.trans
        ((readSection_iff readGateway_takes).2 ⟨rfl, hp.gateway⟩)
      obtain ⟨rfl, rfl⟩ := Prod.mk.inj (Except.ok.inj hgateway)
      have htunnel := h₄.symm.trans
        ((readSection_iff readTunnel_takes).2 ⟨rfl, hp.tunnel⟩)
      obtain ⟨-, rfl⟩ := Prod.mk.inj (Except.ok.inj htunnel)
      have hsystem := h₅.symm.trans
        ((readSection_iff readSystem_takes).2 ⟨rfl, hp.system⟩)
      obtain ⟨rfl, rfl⟩ := Prod.mk.inj (Except.ok.inj hsystem)
      rw [if_pos rfl] at h₆
      exact works_crossErrors.1 ⟨_, h₆⟩
  · rintro ⟨hsections, hrules⟩
    simp only [sectionKinds, List.forall_mem_cons] at hsections
    obtain ⟨hs₁, hs₂, hs₃, hs₄, hs₅, -⟩ := hsections
    refine works_bind.2 ?_
    obtain ⟨⟨model, e₁⟩, h₁⟩ := (works_readSection readModel_yields).2 hs₁
    refine ⟨_, h₁, works_bind.2 ?_⟩
    obtain ⟨⟨backend, e₂⟩, h₂⟩ := (works_readSection readBackend_yields).2 hs₂
    refine ⟨_, h₂, works_bind.2 ?_⟩
    obtain ⟨⟨gateway, e₃⟩, h₃⟩ := (works_readSection readGateway_yields).2 hs₃
    refine ⟨_, h₃, works_bind.2 ?_⟩
    obtain ⟨⟨tunnel, e₄⟩, h₄⟩ := (works_readSection readTunnel_yields).2 hs₄
    refine ⟨_, h₄, works_bind.2 ?_⟩
    obtain ⟨⟨system, e₅⟩, h₅⟩ := (works_readSection readSystem_yields).2 hs₅
    refine ⟨_, h₅, works_map.2 ?_⟩
    split_ifs with he₅
    · subst he₅
      obtain ⟨rfl, hsystem⟩ := (readSection_iff readSystem_takes).1 h₅
      obtain ⟨rfl, htunnel⟩ := (readSection_iff readTunnel_takes).1 h₄
      obtain ⟨rfl, hgateway⟩ := (readSection_iff readGateway_takes).1 h₃
      obtain ⟨rfl, hbackend⟩ := (readSection_iff readBackend_takes).1 h₂
      obtain ⟨honly, hmodel⟩ := (readSection_iff readModel_takes).1 h₁
      exact works_crossErrors.2 (hrules ⟨name, path, model, backend, gateway, tunnel, system⟩
        ⟨hmodel, hbackend, hgateway, htunnel, hsystem, hunknown.1 honly⟩)
    · exact works_ok _

theorem reported_parseProfile {name path : String} {data : Table} :
    Reported (parseProfile py name path data) ↔ ProfileSafe py data := by
  rw [← @works_readProfile py name path data]
  unfold parseProfile
  constructor
  · intro h
    split at h
    · next x hx => exact absurd rfl (h x)
    · next hr => exact ⟨_, hr⟩
    · next hr => exact ⟨_, hr⟩
  · rintro ⟨⟨p, errors⟩, hr⟩ e
    rw [hr]
    cases errors <;> exact nofun

end

end AgentLab.Config
