import Mathlib.Data.List.Dedup
import AgentLab.Config.Accepted

/-!
# Valid documents

What `parse_profile` accepts, and what it returns then. `Describes data p` says of a document that
it has the five sections as tables, that each table has its fields and no others, with values of
their types and in their ranges, which are those of `p`, and that `p` keeps to the cross-field
rules.

`Exact keys P m` says of a reading `m` of a table that is there: it leaves no problem exactly if
there was none and the table has the values `P` asks for, and it reads the keys `keys`.
`parseProfile_valid` composes this along the readers.
-/

namespace AgentLab.Config

open Python

/-! ## What a table says -/

section

variable (t : List (String × Toml)) (key : String)

/-- An integer within the bounds; a boolean is none. -/
def IntegerAt (minimum : ℤ) (maximum : Option ℤ) (n : ℤ) : Prop :=
  t.lookup key = some (.int n) ∧ Reader.Within minimum maximum n

/-- An integer or a float between the bounds, as a float; not-a-number is between none. -/
def NumberAt (minimum maximum : ℚ) (f : PyFloat) : Prop :=
  ∃ q : ℚ, f = .finite q ∧ minimum ≤ q ∧ q ≤ maximum ∧
    (t.lookup key = some (.float (.finite q)) ∨ ∃ n : ℤ, q = n ∧ t.lookup key = some (.int n))

/-- A string that is not empty and has the pattern. -/
def StringAt (pattern : String → Bool) (s : String) : Prop :=
  t.lookup key = some (.str s) ∧ s ≠ "" ∧ pattern s = true

def BooleanAt (b : Bool) : Prop := t.lookup key = some (.bool b)

/-- A string that `parse_size` reads as a size greater than zero. -/
def SizeAt (n : ℤ) : Prop :=
  ∃ text, t.lookup key = some (.str text) ∧ parseSize text = .ok n ∧ 0 < n

theorem parseSize_lt {text : String} {n : ℤ} (h : parseSize text = .ok n) : n < 2 ^ 1024 := by
  unfold parseSize at h
  split at h
  · cases h
  · split at h
    · cases h
    · split at h
      · split_ifs at h with hlt
        cases h
        exact Int.floor_lt.2 (hlt.trans_eq (by rw [Int.cast_pow, Int.cast_ofNat]))
      · cases h

/-- No field but these. -/
def OnlyFields (fields : List String) : Prop := ∀ key ∈ t.map Prod.fst, key ∈ fields

instance (fields : List String) : Decidable (OnlyFields t fields) :=
  inferInstanceAs (Decidable (∀ key ∈ t.map Prod.fst, key ∈ fields))

end

structure ModelConfig.In (t : List (String × Toml)) (c : ModelConfig) : Prop where
  id : StringAt t "id" (fun _ => true) c.id
  only : OnlyFields t ["id"]

def backendFields : List String :=
  ["port", "prefill_step_size", "prompt_cache_size", "prompt_cache_bytes", "metal_memory_limit",
    "tool_parser", "enable_thinking", "temperature", "top_p", "top_k", "thinking_temperature",
    "thinking_top_p", "thinking_top_k", "start_timeout_seconds"]

structure BackendConfig.In (t : List (String × Toml)) (c : BackendConfig) : Prop where
  port : IntegerAt t "port" 1024 (some 65535) c.port
  prefillStepSize : IntegerAt t "prefill_step_size" 1 none c.prefillStepSize
  promptCacheSize : IntegerAt t "prompt_cache_size" 0 none c.promptCacheSize
  promptCacheBytes : SizeAt t "prompt_cache_bytes" c.promptCacheBytes
  metalMemoryLimit : SizeAt t "metal_memory_limit" c.metalMemoryLimit
  toolParser : StringAt t "tool_parser" toolParserRe c.toolParser
  enableThinking : BooleanAt t "enable_thinking" c.enableThinking
  temperature : NumberAt t "temperature" 0 2 c.temperature
  topP : NumberAt t "top_p" 0 1 c.topP
  topK : IntegerAt t "top_k" 0 none c.topK
  thinkingTemperature : NumberAt t "thinking_temperature" 0 2 c.thinkingTemperature
  thinkingTopP : NumberAt t "thinking_top_p" 0 1 c.thinkingTopP
  thinkingTopK : IntegerAt t "thinking_top_k" 0 none c.thinkingTopK
  startTimeoutSeconds : IntegerAt t "start_timeout_seconds" 1 none c.startTimeoutSeconds
  only : OnlyFields t backendFields

def gatewayFields : List String :=
  ["port", "model_name", "max_context", "max_output_tokens", "min_output_tokens", "queue_size",
    "heartbeat_seconds"]

structure GatewayConfig.In (t : List (String × Toml)) (c : GatewayConfig) : Prop where
  port : IntegerAt t "port" 1024 (some 65535) c.port
  modelName : StringAt t "model_name" modelNameRe c.modelName
  maxContext : IntegerAt t "max_context" 1 none c.maxContext
  maxOutputTokens : IntegerAt t "max_output_tokens" 1 none c.maxOutputTokens
  minOutputTokens : IntegerAt t "min_output_tokens" 1 none c.minOutputTokens
  queueSize : IntegerAt t "queue_size" 0 none c.queueSize
  heartbeatSeconds : IntegerAt t "heartbeat_seconds" 1 (some (CLOUDFLARE_IDLE_TIMEOUT_SECONDS - 1))
    c.heartbeatSeconds
  only : OnlyFields t gatewayFields

structure TunnelConfig.In (t : List (String × Toml)) (c : TunnelConfig) : Prop where
  enabled : BooleanAt t "enabled" c.enabled
  hostname : StringAt t "hostname" hostnameRe c.hostname
  only : OnlyFields t ["enabled", "hostname"]

structure SystemConfig.In (t : List (String × Toml)) (c : SystemConfig) : Prop where
  gpuWiredLimitMb : IntegerAt t "gpu_wired_limit_mb" 1 none c.gpuWiredLimitMb
  only : OnlyFields t ["gpu_wired_limit_mb"]

/-- The section is a table, and describes a configuration. -/
def SectionIn {α : Type} (data : List (String × Toml)) (name : String)
    (P : List (String × Toml) → α → Prop) (c : α) : Prop :=
  ∃ t, data.lookup name = some (.table t) ∧ P t c

/-- The document has the five sections, with the fields of the profile. -/
structure HasFields (data : List (String × Toml)) (p : Profile) : Prop where
  model : SectionIn data "model" ModelConfig.In p.model
  backend : SectionIn data "backend" BackendConfig.In p.backend
  gateway : SectionIn data "gateway" GatewayConfig.In p.gateway
  tunnel : SectionIn data "tunnel" TunnelConfig.In p.tunnel
  system : SectionIn data "system" SystemConfig.In p.system
  only : OnlyFields data knownSections

/-- The document describes the profile. -/
structure Describes (data : List (String × Toml)) (p : Profile) :
    Prop extends HasFields data p where
  consistent : p.Consistent

/-- The document is that of a profile. -/
def ValidDocument (data : List (String × Toml)) : Prop := ∃ p, Describes data p

/-! ## What a reading comes to -/

namespace Reader

variable {α β : Type} {P : Section → α → Prop} {Q : α → Section → β → Prop} {m : Reader α}
  {f : α → Reader β} {keys keys' : List String} {py : Texts}

/-- The section once the keys are read. -/
def read (s : Section) (keys : List String) : Section := { s with seen := s.seen ++ keys }

@[simp] theorem read_nil (s : Section) : read s [] = s := by simp [read]
/-- The reading leaves no problem exactly if there was none and the table has what `P` says, and it
reads these keys. -/
structure Exact (keys : List String) (P : Section → α → Prop) (m : Reader α) : Prop where
  sound : Sound (fun _ => True) m
  iff : ∀ s, s.valid = true → s.errors = [] → ∀ v s',
    m s = .ok (v, s') ∧ s'.errors = [] ↔ P s v ∧ s' = read s keys

theorem Exact.pure (v : α) : Exact [] (fun _ w => w = v) (pure v : Reader α) where
  sound := .pure trivial
  iff s _ he w s' := by
    rw [read_nil]
    constructor
    · rintro ⟨⟨⟩, -⟩
      exact ⟨rfl, rfl⟩
    · rintro ⟨rfl, rfl⟩
      exact ⟨rfl, he⟩

/-- **One reading after another.** -/
theorem Exact.bind (hm : Exact keys P m) (hf : ∀ v, Exact keys' (Q v) (f v)) :
    Exact (keys ++ keys') (fun s w => ∃ v, P s v ∧ Q v (read s keys) w) (m >>= f) where
  sound := .bind hm.sound fun v => (hf v).sound.mono fun _ _ _ => trivial
  iff s hs he w s'' := by
    have hread : read (read s keys) keys' = read s (keys ++ keys') := by simp [read]
    rw [← hread]
    constructor
    · rintro ⟨h, he''⟩
      obtain ⟨⟨v, s'⟩, hv, hw⟩ := Except.bind_eq_ok.1 h
      obtain ⟨he', -, -⟩ := (hf v).sound s' w s'' hw he''
      obtain ⟨hP, rfl⟩ := (hm.iff s hs he v s').1 ⟨hv, he'⟩
      obtain ⟨hQ, rfl⟩ := ((hf v).iff (read s keys) hs he w s'').1 ⟨hw, he''⟩
      exact ⟨⟨v, hP, hQ⟩, rfl⟩
    · rintro ⟨⟨v, hP, hQ⟩, rfl⟩
      obtain ⟨hv, -⟩ := (hm.iff s hs he v _).2 ⟨hP, rfl⟩
      obtain ⟨hw, he''⟩ := ((hf v).iff (read s keys) hs he w _).2 ⟨hQ, rfl⟩
      exact ⟨Except.bind_eq_ok.2 ⟨(v, read s keys), hv, hw⟩, he''⟩

theorem Exact.congr {P' : Section → α → Prop} (hm : Exact keys P m)
    (h : ∀ s v, P s v ↔ P' s v) : Exact keys P' m where
  sound := hm.sound
  iff s hs he v s' := (hm.iff s hs he v s').trans (and_congr_left' (h s v))

/-- What never leaves no problem. -/
theorem Exact.never (hm : Sound (fun _ => False) m) : Exact keys (fun _ _ => False) m where
  sound := hm.mono fun _ h => h.elim
  iff s hs _ v s' := ⟨fun h => ((hm s v s' h.1 h.2).2.2 hs).elim, fun h => h.1.elim⟩

theorem Exact.lift (x : Except PyExc α) : Exact [] (fun _ v => x = .ok v) (liftM x : Reader α) where
  sound := (Sound.lift x).mono fun _ _ => trivial
  iff s _ he v s' := by
    rw [read_nil]
    cases x with
    | error e => exact ⟨nofun, nofun⟩
    | ok a =>
      constructor
      · rintro ⟨⟨⟩, -⟩
        exact ⟨rfl, rfl⟩
      · rintro ⟨⟨⟩, rfl⟩
        exact ⟨rfl, he⟩

theorem Exact.failIf (key : String) (problem : Bool) (message : Except PyExc String) :
    Exact [] (fun _ _ => problem = false) (failIf key problem message) := by
  cases problem with
  | false => exact (Exact.pure ()).congr fun _ _ => iff_of_true rfl rfl
  | true => exact (Exact.never (.mono (.failIf key true message) nofun)).congr fun _ _ => by simp

theorem Exact.forM (o : Option α) {g : α → Reader Unit} {R : α → Prop}
    (h : ∀ a, Exact [] (fun _ _ => R a) (g a)) :
    Exact [] (fun _ _ => ∀ a, o = some a → R a) (o.forM g) := by
  cases o with
  | none => exact (Exact.pure ()).congr fun _ _ => iff_of_true rfl nofun
  | some a => exact (h a).congr fun _ _ => by simp

theorem get_bind (key : String) (f : Option Toml → Reader α) (s : Section) :
    (Reader.get key >>= f) s = (match s.table.lookup key with
      | some value => f (some value)
      | none => Reader.failIf key s.valid (return "missing") >>= fun _ => f none)
        (read s [key]) := by
  have hget : Reader.get key s = (match s.table.lookup key with
      | some value => (Pure.pure (some value) : Reader _)
      | none => do
        Reader.failIf key s.valid (return "missing")
        return none) (read s [key]) := rfl
  show (Reader.get key s >>= fun p => f p.1 p.2) = _
  rw [hget]
  cases s.table.lookup key with
  | some value => rfl
  | none => cases s.valid <;> rfl

/-- **Reading a field**, which has to be there. -/
theorem Exact.get {Q : Toml → α → Prop} {f : Option Toml → Reader α} (key : String)
    (hnone : Sound (fun _ => True) (f none))
    (hf : ∀ value, Exact [] (fun _ => Q value) (f (some value))) :
    Exact [key] (fun s v => ∃ value, s.table.lookup key = some value ∧ Q value v)
      (Reader.get key >>= f) where
  sound := by
    refine .bind (.get key) fun o => ?_
    cases o with
    | none => exact hnone.mono fun _ _ _ => trivial
    | some value => exact (hf value).sound.mono fun _ _ _ => trivial
  iff s hs he v s' := by
    rw [get_bind]
    cases hl : s.table.lookup key with
    | some value =>
      have h := (hf value).iff (read s [key]) hs he v s'
      rw [read_nil] at h
      simpa using h
    | none =>
      refine iff_of_false (fun h => ?_) (fun h => by simp at h)
      have hmissing : Sound (fun _ => False)
          (Reader.failIf key s.valid (return "missing") >>= fun _ => f none) := by
        rw [hs]
        exact .bind (.failIf key true _) fun _ => hnone.mono fun _ _ h => nomatch h
      exact (hmissing _ v s' h.1 h.2).2.2 hs

/-! ### The readers of single fields -/

theorem Exact.failed (key : String) (message : Except PyExc String) (v : α) :
    Exact [] (fun _ _ => False) (do Reader.failIf key true message; return v) :=
  .never (.failed key message v)

theorem integer_exact (key : String) (minimum : ℤ) (maximum : Option ℤ) :
    Exact [key] (fun s => IntegerAt s.table key minimum maximum)
      (integer py key minimum maximum) := by
  have h : ∀ (s : Section) v, (∃ value, s.table.lookup key = some value ∧
      value = .int v ∧ Within minimum maximum v) ↔ IntegerAt s.table key minimum maximum v :=
    fun s v => ⟨fun ⟨_, hl, hv, hw⟩ => ⟨hv ▸ hl, hw⟩, fun ⟨hl, hw⟩ => ⟨_, hl, rfl, hw⟩⟩
  unfold integer
  refine .congr (.get key (.pure trivial) fun value => ?_) h
  cases value with
  | int n =>
    refine (Exact.bind (.failIf key _ _) fun _ => .bind
      (.forM maximum (R := fun m => decide (m < n) = false) fun m => .failIf key _ _)
        fun _ => .pure n).congr fun _ v => ?_
    constructor
    · rintro ⟨_, hmin, _, hmax, rfl⟩
      exact ⟨rfl, by simpa using hmin, fun m hm => by simpa using hmax m hm⟩
    · rintro ⟨hv, hmin, hmax⟩
      cases hv
      exact ⟨(), by simpa using hmin, (), fun m hm => by simpa using hmax m hm, rfl⟩
  | _ => exact (Exact.failed key _ _).congr fun _ _ => iff_of_false id nofun

/-- Integers that are floats. -/
def Representable (minimum maximum : ℚ) : Prop :=
  ∀ n : ℤ, minimum ≤ n → n ≤ maximum → PyFloat.ofInt n = .ok (.finite n)

theorem representable_two : Representable 0 2 := by
  intro n hmin hmax
  have hlow : 0 ≤ n := by exact_mod_cast hmin
  have hhigh : n ≤ 2 := by exact_mod_cast hmax
  obtain rfl | rfl | rfl : n = 0 ∨ n = 1 ∨ n = 2 := by omega
  all_goals decide +kernel

theorem representable_one : Representable 0 1 :=
  fun n hmin hmax => representable_two n hmin (hmax.trans one_le_two)

theorem number_exact (key : String) {minimum maximum : ℚ} (h : Representable minimum maximum) :
    Exact [key] (fun s => NumberAt s.table key minimum maximum)
      (number py key minimum maximum) := by
  have hat : ∀ (s : Section) v, (∃ value, s.table.lookup key = some value ∧ ∃ q : ℚ, v = .finite q ∧
      minimum ≤ q ∧ q ≤ maximum ∧ (value = .float (.finite q) ∨ ∃ n : ℤ, q = n ∧ value = .int n)) ↔
        NumberAt s.table key minimum maximum v := by
    intro s v
    constructor
    · rintro ⟨value, hl, q, hv, hmin, hmax, rfl | ⟨n, hn, rfl⟩⟩
      · exact ⟨q, hv, hmin, hmax, .inl hl⟩
      · exact ⟨q, hv, hmin, hmax, .inr ⟨n, hn, hl⟩⟩
    · rintro ⟨q, hv, hmin, hmax, hl | ⟨n, hn, hl⟩⟩
      · exact ⟨_, hl, q, hv, hmin, hmax, .inl rfl⟩
      · exact ⟨_, hl, q, hv, hmin, hmax, .inr ⟨n, hn, rfl⟩⟩
  unfold number
  refine .congr (.get key (.pure trivial) fun value => ?_) hat
  cases value with
  | int n =>
    refine (Exact.bind (.failIf key _ _) fun _ => .lift (PyFloat.ofInt n)).congr fun _ v => ?_
    constructor
    · rintro ⟨_, hbetween, hv⟩
      have hn : minimum ≤ n ∧ n ≤ maximum := by simpa [between] using hbetween
      rw [h n hn.1 hn.2] at hv
      exact ⟨n, (Except.ok.inj hv).symm, hn.1, hn.2, .inr ⟨n, rfl, rfl⟩⟩
    · rintro ⟨q, rfl, hmin, hmax, hv | ⟨k, rfl, hv⟩⟩
      · cases hv
      · cases hv
        exact ⟨(), by simp [between, hmin, hmax], h n hmin hmax⟩
  | float f =>
    refine (Exact.bind (.failIf key _ _) fun _ => .pure f).congr fun _ v => ?_
    constructor
    · rintro ⟨_, hbetween, rfl⟩
      cases v with
      | finite q =>
        have hq : minimum ≤ q ∧ q ≤ maximum := by simpa [between] using hbetween
        exact ⟨q, rfl, hq.1, hq.2, .inl rfl⟩
      | inf | negInf | nan => cases hbetween
    · rintro ⟨q, rfl, hmin, hmax, hf | ⟨_, _, hf⟩⟩
      · cases hf
        exact ⟨(), by simp [between, hmin, hmax], rfl⟩
      · cases hf
  | _ =>
    refine (Exact.failed key _ _).congr fun _ _ => iff_of_false id ?_
    rintro ⟨_, -, -, -, hv | ⟨_, -, hv⟩⟩ <;> cases hv

theorem string_exact (key : String) {check : String → Option String} (pattern : String → Bool)
    (hcheck : ∀ v, check v = none ↔ pattern v = true) :
    Exact [key] (fun s => StringAt s.table key pattern) (string py key check) := by
  have hat : ∀ (s : Section) v, (∃ value, s.table.lookup key = some value ∧
      value = .str v ∧ v ≠ "" ∧ pattern v = true) ↔ StringAt s.table key pattern v :=
    fun s v => ⟨fun ⟨_, hl, hv, hp⟩ => ⟨hv ▸ hl, hp⟩, fun ⟨hl, hp⟩ => ⟨_, hl, rfl, hp⟩⟩
  unfold string
  refine .congr (.get key (.pure trivial) fun value => ?_) hat
  cases value with
  | str text =>
    dsimp only
    split_ifs with htext
    · refine (Exact.failed key _ _).congr fun _ _ => iff_of_false id ?_
      rintro ⟨hv, hne, -⟩
      cases hv
      exact hne htext
    · refine (Exact.bind (.forM (check text) (R := fun _ => False)
        fun m => .never (.fail key m)) fun _ => .pure text).congr fun _ v => ?_
      have hnone : (∀ m, check text = some m → False) ↔ pattern text = true := by
        rw [← hcheck, Option.eq_none_iff_forall_ne_some]
      constructor
      · rintro ⟨_, hc, rfl⟩
        exact ⟨rfl, htext, hnone.1 hc⟩
      · rintro ⟨hv, -, hp⟩
        cases hv
        exact ⟨(), hnone.2 hp, rfl⟩
  | _ => exact (Exact.failed key _ _).congr fun _ _ => iff_of_false id nofun

theorem boolean_exact (key : String) :
    Exact [key] (fun s => BooleanAt s.table key) (boolean py key) := by
  have hat : ∀ (s : Section) v, (∃ value, s.table.lookup key = some value ∧ value = .bool v) ↔
      BooleanAt s.table key v :=
    fun s v => ⟨fun ⟨_, hl, hv⟩ => hl.trans (congrArg some hv), fun hl => ⟨_, hl, rfl⟩⟩
  unfold boolean
  refine .congr (.get key (.pure trivial) fun value => ?_) hat
  cases value with
  | bool b =>
    exact (Exact.pure b).congr fun _ v => ⟨fun h => h ▸ rfl, fun h => (Toml.bool.inj h).symm⟩
  | _ => exact (Exact.failed key _ _).congr fun _ _ => iff_of_false id nofun

theorem size_exact (key : String) :
    Exact [key] (fun s => SizeAt s.table key) (size py key) := by
  have hat : ∀ (s : Section) v, (∃ value, s.table.lookup key = some value ∧
      ∃ text, value = .str text ∧ parseSize text = .ok v ∧ 0 < v) ↔ SizeAt s.table key v :=
    fun s v => ⟨fun ⟨_, hl, text, hv, h⟩ => ⟨text, hv ▸ hl, h⟩,
      fun ⟨text, hl, h⟩ => ⟨_, hl, text, rfl, h⟩⟩
  unfold size
  refine .congr (.get key (.pure trivial) fun value => ?_) hat
  cases value with
  | str text =>
    dsimp only
    have htext : ∀ v, (∃ text', Toml.str text = .str text' ∧ parseSize text' = .ok v ∧ 0 < v) ↔
        parseSize text = .ok v ∧ 0 < v :=
      fun v => ⟨fun ⟨_, ht, h⟩ => Toml.str.inj ht ▸ h, fun h => ⟨text, rfl, h⟩⟩
    cases hsize : parseSize text with
    | ok n =>
      refine (Exact.bind (.failIf key _ _) fun _ => .pure n).congr fun _ v => ?_
      rw [htext, hsize]
      constructor
      · rintro ⟨_, hpos, rfl⟩
        exact ⟨rfl, by simpa using hpos⟩
      · rintro ⟨hv, hpos⟩
        cases hv
        exact ⟨(), by simpa using hpos, rfl⟩
    | error e =>
      have hfalse : ∀ v,
          ¬ ∃ text', Toml.str text = .str text' ∧ parseSize text' = .ok v ∧ 0 < v := by
        intro v hv
        rw [htext, hsize] at hv
        cases hv.1
      cases e with
      | valueError message =>
        refine (Exact.never ?_).congr fun _ v => iff_of_false id (hfalse v)
        exact .bind (P := fun _ => False) (.fail key _) fun _ => .pure fun h => h
      | overflowError => exact (Exact.never (.throw _)).congr fun _ v => iff_of_false id (hfalse v)
  | _ =>
    refine (Exact.failed key _ _).congr fun _ _ => iff_of_false id ?_
    rintro ⟨_, hv, -⟩
    cases hv

theorem Exact.list_forM {ι : Type} (l : List ι) {g : ι → Reader Unit}
    (h : ∀ i, Sound (fun _ => False) (g i)) : Exact [] (fun _ _ => l = []) (l.forM g) := by
  cases l with
  | nil => exact (Exact.pure ()).congr fun _ _ => iff_of_true rfl rfl
  | cons i l =>
    refine (Exact.never (.mono (.list_forM (i :: l) h) fun _ h => nomatch h)).congr fun _ _ => ?_
    simp

theorem unknown_eq_nil {keys known : List String} :
    unknown keys known = [] ↔ ∀ key ∈ keys, key ∈ known := by
  unfold unknown
  rw [← List.length_eq_zero_iff, List.length_insertionSort, List.length_eq_zero_iff,
    List.dedup_eq_nil, List.filter_eq_nil_iff]
  simp

theorem finish_exact : Exact [] (fun s _ => OnlyFields s.table s.seen) finish where
  sound := finish_sound
  iff s hs he v s' := by
    have h := (Exact.list_forM (unknown (s.table.map Prod.fst) s.seen)
      fun key => .fail key "unknown field").iff s hs he v s'
    exact h.trans (and_congr_left' unknown_eq_nil)

end Reader

/-! ## The sections -/

section

variable {py : Texts}

open Reader

theorem checkToolParser_none (v : String) : checkToolParser v = none ↔ toolParserRe v = true := by
  unfold checkToolParser
  split_ifs <;> simp_all

theorem checkModelName_none (v : String) : checkModelName v = none ↔ modelNameRe v = true := by
  unfold checkModelName
  split_ifs <;> simp_all

theorem checkHostname_none (v : String) : checkHostname v = none ↔ hostnameRe v = true := by
  unfold checkHostname
  split_ifs <;> simp_all

/-- Which tables a reading finds nothing wrong with, and what it returns. -/
structure Takes {α : Type} (read : Reader α) (P : List (String × Toml) → α → Prop) : Prop where
  sound : Sound (fun _ => True) read
  iff : ∀ name t c, (∃ s, read ⟨name, [], [], t, true⟩ = .ok (c, s) ∧ s.errors = []) ↔ P t c

theorem Exact.takes {α : Type} {keys : List String} {P : Section → α → Prop} {m : Reader α}
    {Q : List (String × Toml) → α → Prop} (hm : Exact keys P m)
    (h : ∀ name t c, P ⟨name, [], [], t, true⟩ c ↔ Q t c) : Takes m Q where
  sound := hm.sound
  iff name t c := by
    rw [← h name t c]
    constructor
    · rintro ⟨s, hs⟩
      exact ((hm.iff _ rfl rfl c s).1 hs).1
    · intro hP
      exact ⟨_, (hm.iff _ rfl rfl c _).2 ⟨hP, rfl⟩⟩

theorem readModel_takes : Takes (readModel py) ModelConfig.In := by
  unfold readModel
  refine Exact.takes (.bind (string_exact "id" (fun _ => true) fun _ => by simp) fun id =>
    .bind finish_exact fun _ => .pure (ModelConfig.mk id)) fun name t c => ?_
  constructor
  · rintro ⟨id, hid, _, honly, rfl⟩
    exact ⟨hid, honly⟩
  · intro h
    exact ⟨c.id, h.id, (), h.only, rfl⟩

theorem readBackend_takes : Takes (readBackend py) BackendConfig.In := by
  unfold readBackend
  refine Exact.takes
    (.bind (integer_exact _ _ _) fun port => .bind (integer_exact _ _ _) fun prefillStepSize =>
    .bind (integer_exact _ _ _) fun promptCacheSize => .bind (size_exact _) fun promptCacheBytes =>
    .bind (size_exact _) fun metalMemoryLimit =>
    .bind (string_exact _ _ checkToolParser_none) fun toolParser =>
    .bind (boolean_exact _) fun enableThinking =>
    .bind (number_exact _ representable_two) fun temperature =>
    .bind (number_exact _ representable_one) fun topP =>
    .bind (integer_exact _ _ _) fun topK =>
    .bind (number_exact _ representable_two) fun thinkingTemperature =>
    .bind (number_exact _ representable_one) fun thinkingTopP =>
    .bind (integer_exact _ _ _) fun thinkingTopK =>
    .bind (integer_exact _ _ _) fun startTimeoutSeconds =>
    .bind finish_exact fun _ => .pure (BackendConfig.mk port prefillStepSize promptCacheSize
      promptCacheBytes metalMemoryLimit toolParser enableThinking temperature topP topK
      thinkingTemperature thinkingTopP thinkingTopK startTimeoutSeconds)) fun name t c => ?_
  constructor
  · rintro ⟨_, h₁, _, h₂, _, h₃, _, h₄, _, h₅, _, h₆, _, h₇, _, h₈, _, h₉, _, h₁₀, _,
      h₁₁, _, h₁₂, _, h₁₃, _, h₁₄, _, honly, rfl⟩
    exact ⟨h₁, h₂, h₃, h₄, h₅, h₆, h₇, h₈, h₉, h₁₀, h₁₁, h₁₂, h₁₃, h₁₄, honly⟩
  · intro h
    exact ⟨_, h.port, _, h.prefillStepSize, _, h.promptCacheSize, _, h.promptCacheBytes, _,
      h.metalMemoryLimit, _, h.toolParser, _, h.enableThinking, _, h.temperature, _, h.topP, _,
      h.topK, _, h.thinkingTemperature, _, h.thinkingTopP, _, h.thinkingTopK, _,
      h.startTimeoutSeconds, (), h.only, rfl⟩

theorem readGateway_takes : Takes (readGateway py) GatewayConfig.In := by
  unfold readGateway
  refine Exact.takes
    (.bind (integer_exact _ _ _) fun port =>
    .bind (string_exact _ _ checkModelName_none) fun modelName =>
    .bind (integer_exact _ _ _) fun maxContext => .bind (integer_exact _ _ _) fun maxOutputTokens =>
    .bind (integer_exact _ _ _) fun minOutputTokens => .bind (integer_exact _ _ _) fun queueSize =>
    .bind (integer_exact _ _ _) fun heartbeatSeconds =>
    .bind finish_exact fun _ => .pure (GatewayConfig.mk port modelName maxContext maxOutputTokens
      minOutputTokens queueSize heartbeatSeconds)) fun name t c => ?_
  constructor
  · rintro ⟨_, h₁, _, h₂, _, h₃, _, h₄, _, h₅, _, h₆, _, h₇, _, honly, rfl⟩
    exact ⟨h₁, h₂, h₃, h₄, h₅, h₆, h₇, honly⟩
  · intro h
    exact ⟨_, h.port, _, h.modelName, _, h.maxContext, _, h.maxOutputTokens, _,
      h.minOutputTokens, _, h.queueSize, _, h.heartbeatSeconds, (), h.only, rfl⟩

theorem readTunnel_takes : Takes (readTunnel py) TunnelConfig.In := by
  unfold readTunnel
  refine Exact.takes
    (.bind (boolean_exact _) fun enabled =>
    .bind (string_exact _ _ checkHostname_none) fun hostname =>
    .bind finish_exact fun _ => .pure (TunnelConfig.mk enabled hostname)) fun name t c => ?_
  constructor
  · rintro ⟨_, h₁, _, h₂, _, honly, rfl⟩
    exact ⟨h₁, h₂, honly⟩
  · intro h
    exact ⟨_, h.enabled, _, h.hostname, (), h.only, rfl⟩

theorem readSystem_takes : Takes (readSystem py) SystemConfig.In := by
  unfold readSystem
  refine Exact.takes (.bind (integer_exact _ _ _) fun gpuWiredLimitMb =>
    .bind finish_exact fun _ => .pure (SystemConfig.mk gpuWiredLimitMb)) fun name t c => ?_
  constructor
  · rintro ⟨_, h₁, _, honly, rfl⟩
    exact ⟨h₁, honly⟩
  · intro h
    exact ⟨_, h.gpuWiredLimitMb, (), h.only, rfl⟩

/-- The section is one that can be read if its value is a table. -/
theorem Takes.new_iff {α : Type} {read : Reader α} {P : List (String × Toml) → α → Prop}
    (hread : Takes read P) (name : String) (value : Option Toml) (errors : List String) (c : α) :
    (∃ s, read (Section.new name value errors) = .ok (c, s) ∧ s.errors = []) ↔
      errors = [] ∧ ∃ t, value = some (.table t) ∧ P t c := by
  constructor
  · rintro ⟨s, hs, he⟩
    obtain ⟨hnil, hvalid⟩ := Section.new_valid (hread.sound _ c s hs he).1
    subst hnil
    unfold Section.new at hs hvalid
    split at hvalid
    · cases hvalid
    · next t => exact ⟨rfl, t, rfl, (hread.iff name t c).1 ⟨s, hs, he⟩⟩
    · cases hvalid
  · rintro ⟨rfl, t, rfl, hP⟩
    exact (hread.iff name t c).2 hP

theorem readSection_iff {α : Type} {read : Reader α} {P : List (String × Toml) → α → Prop}
    {name : String} {data : List (String × Toml)} {errors : List String} {c : α}
    (hread : Takes read P) : readSection name read data errors = .ok (c, []) ↔
      errors = [] ∧ SectionIn data name P c := by
  have hrun : readSection name read data errors = .ok (c, []) ↔
      ∃ s, read (Section.new name (data.lookup name) errors) = .ok (c, s) ∧ s.errors = [] := by
    unfold readSection
    constructor
    · intro h
      obtain ⟨⟨w, s⟩, hrun, hret⟩ := Except.bind_eq_ok.1 h
      obtain ⟨rfl, hs⟩ := Prod.mk.inj (Except.ok.inj hret)
      exact ⟨s, hrun, hs⟩
    · rintro ⟨s, hs, he⟩
      exact Except.bind_eq_ok.2 ⟨(c, s), hs, by rw [← he]; rfl⟩
  exact hrun.trans (hread.new_iff name _ errors c)

theorem rule_eq_nil {broken : Bool} {message : Except PyExc String} :
    rule broken message = .ok [] ↔ broken = false :=
  ⟨rule_ok_nil, fun h => by rw [h]; rfl⟩

theorem crossErrors_iff {p : Profile} :
    crossErrors py p.backend p.gateway p.system = .ok [] ↔ p.Consistent := by
  refine ⟨crossErrors_nil, fun h => ?_⟩
  unfold crossErrors
  refine Except.bind_eq_ok.2 ⟨[], rule_eq_nil.2 (by simpa using h.ports), ?_⟩
  refine Except.bind_eq_ok.2 ⟨[], rule_eq_nil.2 (by simpa using h.minContext), ?_⟩
  refine Except.bind_eq_ok.2 ⟨[], rule_eq_nil.2 (by simpa using h.minOutput), ?_⟩
  refine Except.bind_eq_ok.2 ⟨[], rule_eq_nil.2 (by simpa using h.maxOutput), ?_⟩
  exact Except.bind_eq_ok.2 ⟨[], rule_eq_nil.2 (by simpa using h.wired), rfl⟩

theorem readProfile_iff {name path : String} {data : List (String × Toml)} {p : Profile} :
    readProfile py name path data = .ok (p, []) ↔
      p.name = name ∧ p.path = path ∧ Describes data p := by
  have hunknown : ((unknown (data.map Prod.fst) knownSections).map fun s =>
      "unknown section [" ++ s ++ "]") = [] ↔ OnlyFields data knownSections :=
    List.map_eq_nil_iff.trans unknown_eq_nil
  unfold readProfile
  constructor
  · intro h
    obtain ⟨⟨model, e₁⟩, h₁, h⟩ := Except.bind_eq_ok.1 h
    obtain ⟨⟨backend, e₂⟩, h₂, h⟩ := Except.bind_eq_ok.1 h
    obtain ⟨⟨gateway, e₃⟩, h₃, h⟩ := Except.bind_eq_ok.1 h
    obtain ⟨⟨tunnel, e₄⟩, h₄, h⟩ := Except.bind_eq_ok.1 h
    obtain ⟨⟨system, e₅⟩, h₅, h⟩ := Except.bind_eq_ok.1 h
    obtain ⟨e₆, h₆, h⟩ := Except.bind_eq_ok.1 h
    obtain ⟨rfl, rfl⟩ := Prod.mk.inj (Except.ok.inj h)
    split_ifs at h₆ with he₅
    · subst he₅
      obtain ⟨rfl, hsystem⟩ := (readSection_iff readSystem_takes).1 h₅
      obtain ⟨rfl, htunnel⟩ := (readSection_iff readTunnel_takes).1 h₄
      obtain ⟨rfl, hgateway⟩ := (readSection_iff readGateway_takes).1 h₃
      obtain ⟨rfl, hbackend⟩ := (readSection_iff readBackend_takes).1 h₂
      obtain ⟨honly, hmodel⟩ := (readSection_iff readModel_takes).1 h₁
      exact ⟨rfl, rfl, ⟨hmodel, hbackend, hgateway, htunnel, hsystem, hunknown.1 honly⟩,
        crossErrors_iff.1 h₆⟩
    · exact absurd (Except.ok.inj h₆) he₅
  · rintro ⟨rfl, rfl, h⟩
    refine Except.bind_eq_ok.2
      ⟨_, (readSection_iff readModel_takes).2 ⟨hunknown.2 h.only, h.model⟩, ?_⟩
    refine Except.bind_eq_ok.2 ⟨_, (readSection_iff readBackend_takes).2 ⟨rfl, h.backend⟩, ?_⟩
    refine Except.bind_eq_ok.2 ⟨_, (readSection_iff readGateway_takes).2 ⟨rfl, h.gateway⟩, ?_⟩
    refine Except.bind_eq_ok.2 ⟨_, (readSection_iff readTunnel_takes).2 ⟨rfl, h.tunnel⟩, ?_⟩
    refine Except.bind_eq_ok.2 ⟨_, (readSection_iff readSystem_takes).2 ⟨rfl, h.system⟩, ?_⟩
    refine Except.bind_eq_ok.2 ⟨[], ?_, rfl⟩
    rw [if_pos rfl]
    exact crossErrors_iff.2 h.consistent

theorem parseProfile_eq_ok {name path : String} {data : List (String × Toml)} {p : Profile} :
    parseProfile py name path data = .ok p ↔ p.name = name ∧ p.path = path ∧ Describes data p := by
  rw [← @readProfile_iff py]
  unfold parseProfile
  constructor
  · intro h
    split at h
    · cases h
    · next hr => rw [hr, Except.ok.inj h]
    · cases h
  · intro h
    rw [h]

/-- **Exactly the valid profiles are accepted.** `parse_profile` returns exactly for the documents
of profiles, and what it returns has the values of the document. -/
theorem parseProfile_valid (py : Texts) (name path : String) (data : List (String × Toml)) :
    ((∃ p, parseProfile py name path data = .ok p) ↔ ValidDocument data) ∧
      ∀ p, parseProfile py name path data = .ok p →
        p.name = name ∧ p.path = path ∧ Describes data p := by
  refine ⟨⟨fun ⟨p, hp⟩ => ⟨p, (parseProfile_eq_ok.1 hp).2.2⟩, fun ⟨p, hp⟩ => ?_⟩,
    fun p hp => parseProfile_eq_ok.1 hp⟩
  refine ⟨{ p with name, path }, parseProfile_eq_ok.2 ⟨rfl, rfl, ?_⟩⟩
  exact ⟨⟨hp.model, hp.backend, hp.gateway, hp.tunnel, hp.system, hp.only⟩,
    ⟨hp.consistent.ports, hp.consistent.minContext, hp.consistent.minOutput,
      hp.consistent.maxOutput, hp.consistent.wired⟩⟩

end

end AgentLab.Config
