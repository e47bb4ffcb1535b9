import AgentLab.Config.Profile

/-!
# Accepted profiles

What `parse_profile` has checked when it returns a profile. The readers only ever add to the list
of problems, so a list that ends empty was empty all along: `Sound P m` says that a reading `m`
that leaves no problem began with none and read a value with `P`. `parseProfile_ok` collects the
bounds of the gateway's limits from it.
-/

namespace AgentLab.Config

open Python

namespace Reader

variable {α β : Type} {P Q : α → Prop} {R : β → Prop} {m : Reader α} {f : α → Reader β}

/-- If `m` leaves no problem, there was none before, and a table that is there gave a value with
`P`. -/
def Sound (P : α → Prop) (m : Reader α) : Prop :=
  ∀ s v s', m s = .ok (v, s') → s'.errors = [] →
    s.errors = [] ∧ s'.valid = s.valid ∧ (s.valid = true → P v)

theorem Sound.mono (h : Sound P m) (hPQ : ∀ v, P v → Q v) : Sound Q m := by
  intro s v s' hm he
  obtain ⟨hs, hv, hP⟩ := h s v s' hm he
  exact ⟨hs, hv, fun hvalid => hPQ v (hP hvalid)⟩

theorem Sound.pure {v : α} (h : P v) : Sound P (pure v : Reader α) := by
  rintro s _ _ ⟨⟩ he
  exact ⟨he, rfl, fun _ => h⟩

theorem Sound.bind (hm : Sound P m) (hf : ∀ v, Sound (fun w => P v → R w) (f v)) :
    Sound R (m >>= f) := by
  intro s w s'' h he
  obtain ⟨⟨v, s'⟩, hv, hw⟩ := Except.bind_eq_ok.1 h
  obtain ⟨hs', hvalid', hR⟩ := hf v s' w s'' hw he
  obtain ⟨hs, hvalid, hP⟩ := hm s v s' hv hs'
  exact ⟨hs, hvalid'.trans hvalid, fun ht => hR (hvalid.trans ht) (hP ht)⟩

theorem Sound.lift (x : Except PyExc α) : Sound (fun v => x = .ok v) (liftM x : Reader α) := by
  intro s v s' h he
  obtain ⟨a, ha, h⟩ := Except.bind_eq_ok.1 h
  cases h
  exact ⟨he, rfl, fun _ => ha⟩

/-- What raises leaves nothing to show. -/
theorem Sound.throw (x : PyExc) : Sound P (throw x : Reader α) := fun _ _ _ h => nomatch h

/-- Nor does what reports a problem. -/
theorem Sound.fail {R : Unit → Prop} (key message : String) : Sound R (fail key message) := by
  rintro s _ _ ⟨⟩ he
  simp at he

/-- A check that leaves no problem has found none. -/
theorem Sound.failIf (key : String) (problem : Bool) (message : Except PyExc String) :
    Sound (fun _ => problem = false) (failIf key problem message) := by
  cases problem with
  | false => exact .pure rfl
  | true => exact .bind (.lift _) fun message => .fail key message

/-- After a problem, the value is of no account. -/
theorem Sound.failed (key : String) (message : Except PyExc String) (v : α) :
    Sound P (do Reader.failIf key true message; return v) :=
  .bind (.failIf key true message) fun _ => .pure nofun

theorem Sound.forM (o : Option α) {g : α → Reader Unit} {R : α → Prop}
    (h : ∀ a, Sound (fun _ => R a) (g a)) : Sound (fun _ => ∀ a, o = some a → R a) (o.forM g) := by
  cases o with
  | none => exact .pure nofun
  | some a => exact (h a).mono fun _ hR b hb => Option.some.inj hb ▸ hR

theorem get_eq (key : String) (s : Section) : Reader.get key s = (match s.table.lookup key with
    | some value => (Pure.pure (some value) : Reader _)
    | none => do
      Reader.failIf key s.valid (return "missing")
      return none) { s with seen := s.seen ++ [key] } := rfl

/-- A key that is missing is a problem. -/
theorem Sound.get (key : String) : Sound (fun o : Option Toml => o ≠ none) (Reader.get key) := by
  intro s o s' h he
  rw [get_eq] at h
  cases hl : s.table.lookup key with
  | some value =>
    rw [hl] at h
    cases h
    exact ⟨he, rfl, fun _ => by simp⟩
  | none =>
    rw [hl] at h
    have hs := Sound.bind (R := fun _ => s.valid = false) (.failIf key s.valid (.ok "missing"))
      (fun _ => .pure id) _ _ _ h he
    exact ⟨hs.1, hs.2.1, fun ht => absurd ht (by simp [hs.2.2 ht])⟩

variable {py : Texts}

/-- The bounds of an integer field. -/
def Within (minimum : ℤ) (maximum : Option ℤ) (n : ℤ) : Prop :=
  minimum ≤ n ∧ ∀ m, maximum = some m → n ≤ m

theorem integer_sound (key : String) (minimum : ℤ) (maximum : Option ℤ) :
    Sound (Within minimum maximum) (integer py key minimum maximum) := by
  unfold integer
  refine .bind (.get key) fun o => ?_
  split
  · exact .pure fun h => absurd rfl h
  · next n =>
    refine .bind (.failIf key _ _) fun _ => ?_
    refine .bind (.forM maximum fun m => .failIf key _ _) fun _ => ?_
    exact .pure fun hmax hmin _ => ⟨by simpa using hmin, fun m hm => by simpa using hmax m hm⟩
  · exact .failed key _ _

theorem ofInt_finite {n : ℤ} {f : PyFloat} (h : PyFloat.ofInt n = .ok f) : ∃ q, f = .finite q := by
  unfold PyFloat.ofInt at h
  split at h
  · next q _ => exact ⟨q, (Except.ok.inj h).symm⟩
  · cases h

theorem finite_of_between {minimum maximum : ℚ} {f : PyFloat}
    (h : between minimum maximum f = true) : ∃ q, f = .finite q := by
  cases f with
  | finite q => exact ⟨q, rfl⟩
  | inf | negInf | nan => cases h

theorem number_sound (key : String) (minimum maximum : ℚ) :
    Sound (fun f => ∃ q, f = .finite q) (number py key minimum maximum) := by
  unfold number
  refine .bind (.get key) fun o => ?_
  split
  · exact .pure fun h => absurd rfl h
  · exact .bind (.failIf key _ _) fun _ => (Sound.lift _).mono fun _ hf _ _ => ofInt_finite hf
  · exact .bind (.failIf key _ _) fun _ => .pure fun h _ => finite_of_between (by simpa using h)
  · exact .failed key _ _

theorem string_sound (key : String) (check : String → Option String) :
    Sound (fun v => v ≠ "" ∧ check v = none) (string py key check) := by
  unfold string
  refine .bind (.get key) fun o => ?_
  split
  · exact .pure fun h => absurd rfl h
  · next v =>
    split_ifs with hv
    · exact .failed key _ _
    · refine .bind (.forM (R := fun _ => False) (check v) fun m => .fail key m) fun _ => .pure ?_
      intro h _
      refine ⟨hv, ?_⟩
      cases hc : check v with
      | none => rfl
      | some m => exact absurd hc (h m)
  · exact .failed key _ _

theorem boolean_sound (key : String) : Sound (fun _ => True) (boolean py key) := by
  unfold boolean
  refine .bind (.get key) fun o => ?_
  split
  · exact .pure fun _ => trivial
  · exact .pure fun _ => trivial
  · exact .failed key _ _

theorem size_sound (key : String) : Sound (fun n => 0 < n) (size py key) := by
  unfold size
  refine .bind (.get key) fun o => ?_
  split
  · exact .pure fun h => absurd rfl h
  · split
    · exact .bind (.failIf key _ _) fun _ => .pure fun h _ => by simpa using h
    · exact .bind (P := fun _ => False) (.fail key _) fun _ => .pure fun h => h.elim
    · exact .throw _
  · exact .failed key _ _

theorem Sound.list_forM {ι : Type} (l : List ι) {g : ι → Reader Unit}
    (h : ∀ i, Sound (fun _ => False) (g i)) : Sound (fun _ => l = []) (l.forM g) := by
  induction l with
  | nil => exact .pure rfl
  | cons i l ih => exact .bind (h i) fun _ => ih.mono fun _ _ hF => hF.elim

theorem finish_sound : Sound (fun _ => True) finish := by
  refine .bind (P := fun _ => True) ?_ fun s => ?_
  · rintro s _ _ ⟨⟩ he
    exact ⟨he, rfl, fun _ => trivial⟩
  · exact (Sound.list_forM _ fun key => .fail key _).mono fun _ _ _ => trivial

end Reader

section

variable {py : Texts}

open Reader

/-- The checks of `[gateway]` on its own. -/
structure GatewayConfig.Valid (g : GatewayConfig) : Prop where
  port : Within 1024 (some 65535) g.port
  modelName : modelNameRe g.modelName = true
  maxContext : 1 ≤ g.maxContext
  maxOutputTokens : 1 ≤ g.maxOutputTokens
  minOutputTokens : 1 ≤ g.minOutputTokens
  queueSize : 0 ≤ g.queueSize
  heartbeatSeconds : Within 1 (some (CLOUDFLARE_IDLE_TIMEOUT_SECONDS - 1)) g.heartbeatSeconds

theorem readGateway_sound : Sound GatewayConfig.Valid (readGateway py) := by
  unfold readGateway
  refine .bind (integer_sound _ _ _) fun port => ?_
  refine .bind (string_sound _ _) fun modelName => ?_
  refine .bind (integer_sound _ _ _) fun maxContext => ?_
  refine .bind (integer_sound _ _ _) fun maxOutputTokens => ?_
  refine .bind (integer_sound _ _ _) fun minOutputTokens => ?_
  refine .bind (integer_sound _ _ _) fun queueSize => ?_
  refine .bind (integer_sound _ _ _) fun heartbeatSeconds => ?_
  refine .bind finish_sound fun _ => .pure ?_
  intro _ hheartbeat hqueue hmin hmax hcontext hname hport
  refine ⟨hport, ?_, hcontext.1, hmax.1, hmin.1, hqueue.1, hheartbeat⟩
  have hcheck := hname.2
  unfold checkModelName at hcheck
  split_ifs at hcheck with hre
  exact hre

/-- The recommended sampling values are numbers that JSON has. -/
structure BackendConfig.Finite (b : BackendConfig) : Prop where
  temperature : ∃ q, b.temperature = .finite q
  topP : ∃ q, b.topP = .finite q
  thinkingTemperature : ∃ q, b.thinkingTemperature = .finite q
  thinkingTopP : ∃ q, b.thinkingTopP = .finite q

theorem readBackend_sound : Sound BackendConfig.Finite (readBackend py) := by
  unfold readBackend
  refine .bind (integer_sound _ _ _) fun _ => .bind (integer_sound _ _ _) fun _ =>
    .bind (integer_sound _ _ _) fun _ => .bind (size_sound _) fun _ => .bind (size_sound _) fun _ =>
    .bind (string_sound _ _) fun _ => .bind (boolean_sound _) fun _ =>
    .bind (number_sound _ _ _) fun _ => .bind (number_sound _ _ _) fun _ =>
    .bind (integer_sound _ _ _) fun _ => .bind (number_sound _ _ _) fun _ =>
    .bind (number_sound _ _ _) fun _ => .bind (integer_sound _ _ _) fun _ =>
    .bind (integer_sound _ _ _) fun _ => .bind finish_sound fun _ => .pure ?_
  intro _ _ _ hthinkingTopP hthinkingTemperature _ htopP htemperature _ _ _ _ _ _ _
  exact ⟨htemperature, htopP, hthinkingTemperature, hthinkingTopP⟩

theorem readTunnel_sound : Sound (fun _ => True) (readTunnel py) := by
  unfold readTunnel
  exact .bind (boolean_sound _) fun _ => .bind (string_sound _ _) fun _ =>
    .bind finish_sound fun _ => .pure fun _ _ _ => trivial

theorem readSystem_sound : Sound (fun c => 1 ≤ c.gpuWiredLimitMb) (readSystem py) := by
  unfold readSystem
  exact .bind (integer_sound _ _ _) fun _ => .bind finish_sound fun _ => .pure fun _ h => h.1

/-- A section that is not a table is a problem. -/
theorem Section.new_valid {name : String} {table : Option Toml} {errors : List String}
    (h : (Section.new name table errors).errors = []) :
    errors = [] ∧ (Section.new name table errors).valid = true := by
  unfold Section.new at *
  split at h
  · simp at h
  · exact ⟨h, rfl⟩
  · simp at h

theorem readSection_sound {α : Type} {P : α → Prop} {read : Reader α} {name : String}
    {data : List (String × Toml)} {errors : List String} {v : α} (hread : Sound P read)
    (h : readSection name read data errors = .ok (v, [])) : errors = [] ∧ P v := by
  unfold readSection at h
  obtain ⟨⟨w, s⟩, hrun, hret⟩ := Except.bind_eq_ok.1 h
  obtain ⟨rfl, hs⟩ := Prod.mk.inj (Except.ok.inj hret)
  obtain ⟨hnew, -, hP⟩ := hread _ _ _ hrun hs
  obtain ⟨he, hvalid⟩ := Section.new_valid hnew
  exact ⟨he, hP hvalid⟩

theorem rule_ok_nil {broken : Bool} {message : Except PyExc String}
    (h : rule broken message = .ok []) : broken = false := by
  cases broken with
  | false => rfl
  | true =>
    obtain ⟨m, -, hm⟩ := Except.bind_eq_ok.1 h
    cases hm

/-- The cross-field rules. -/
structure Profile.Consistent (p : Profile) : Prop where
  ports : p.backend.port ≠ p.gateway.port
  minContext : p.gateway.minOutputTokens < p.gateway.maxContext
  minOutput : p.gateway.minOutputTokens ≤ p.gateway.maxOutputTokens
  maxOutput : p.gateway.maxOutputTokens ≤ p.gateway.maxContext
  wired : p.backend.metalMemoryLimit < p.system.gpuWiredLimitMb * 1024 ^ 2

theorem crossErrors_nil {p : Profile}
    (h : crossErrors py p.backend p.gateway p.system = .ok []) : p.Consistent := by
  unfold crossErrors at h
  obtain ⟨e₁, h₁, h⟩ := Except.bind_eq_ok.1 h
  obtain ⟨e₂, h₂, h⟩ := Except.bind_eq_ok.1 h
  obtain ⟨e₃, h₃, h⟩ := Except.bind_eq_ok.1 h
  obtain ⟨e₄, h₄, h⟩ := Except.bind_eq_ok.1 h
  obtain ⟨e₅, h₅, h⟩ := Except.bind_eq_ok.1 h
  have hnil : (((e₁ = [] ∧ e₂ = []) ∧ e₃ = []) ∧ e₄ = []) ∧ e₅ = [] := by
    simpa only [List.append_eq_nil_iff] using Except.ok.inj h
  obtain ⟨⟨⟨⟨rfl, rfl⟩, rfl⟩, rfl⟩, rfl⟩ := hnil
  exact ⟨by simpa using rule_ok_nil h₁, by simpa using rule_ok_nil h₂,
    by simpa using rule_ok_nil h₃, by simpa using rule_ok_nil h₄, by simpa using rule_ok_nil h₅⟩

/-- What an accepted profile was read from. -/
theorem parseProfile_sound {name path : String} {data : List (String × Toml)} {p : Profile}
    (h : parseProfile py name path data = .ok p) :
    p.backend.Finite ∧ p.gateway.Valid ∧ p.Consistent := by
  have hread : readProfile py name path data = .ok (p, []) := by
    unfold parseProfile at h
    split at h
    · cases h
    · next hr => rw [hr, Except.ok.inj h]
    · cases h
  unfold readProfile at hread
  obtain ⟨⟨model, e₁⟩, h₁, hread⟩ := Except.bind_eq_ok.1 hread
  obtain ⟨⟨backend, e₂⟩, h₂, hread⟩ := Except.bind_eq_ok.1 hread
  obtain ⟨⟨gateway, e₃⟩, h₃, hread⟩ := Except.bind_eq_ok.1 hread
  obtain ⟨⟨tunnel, e₄⟩, h₄, hread⟩ := Except.bind_eq_ok.1 hread
  obtain ⟨⟨system, e₅⟩, h₅, hread⟩ := Except.bind_eq_ok.1 hread
  obtain ⟨e₆, h₆, hread⟩ := Except.bind_eq_ok.1 hread
  obtain ⟨rfl, rfl⟩ := Prod.mk.inj (Except.ok.inj hread)
  split_ifs at h₆ with he₅
  · subst he₅
    obtain ⟨rfl, -⟩ := readSection_sound readSystem_sound h₅
    obtain ⟨rfl, -⟩ := readSection_sound readTunnel_sound h₄
    obtain ⟨rfl, hgateway⟩ := readSection_sound readGateway_sound h₃
    obtain ⟨-, hbackend⟩ := readSection_sound readBackend_sound h₂
    exact ⟨hbackend, hgateway, crossErrors_nil h₆⟩
  · exact absurd (Except.ok.inj h₆) he₅

/-- **What an accepted profile satisfies.** -/
theorem parseProfile_ok {name path : String} {data : List (String × Toml)} {p : Profile}
    (h : parseProfile py name path data = .ok p) : p.gateway.Valid ∧ p.Consistent :=
  (parseProfile_sound h).2

end

/-! ## A profile of the repository -/

/-- `config/profiles/ci-tiny.toml`. -/
def ciTiny : List (String × Toml) :=
  [("model", .table [("id", .str "qwen3-0.6b-mlx-4bit")]),
    ("backend", .table
      [("port", .int 8100), ("prefill_step_size", .int 2048), ("prompt_cache_size", .int 1),
        ("prompt_cache_bytes", .str "256MB"), ("metal_memory_limit", .str "1.5GB"),
        ("tool_parser", .str "auto"), ("enable_thinking", .bool false),
        ("temperature", .float (.ofRat 0.7)), ("top_p", .float (.ofRat 0.8)), ("top_k", .int 20),
        ("thinking_temperature", .float (.ofRat 0.6)), ("thinking_top_p", .float (.ofRat 0.95)),
        ("thinking_top_k", .int 20), ("start_timeout_seconds", .int 300)]),
    ("gateway", .table
      [("port", .int 8000), ("model_name", .str "qwen3-0.6b"), ("max_context", .int 8192),
        ("max_output_tokens", .int 1024), ("min_output_tokens", .int 256), ("queue_size", .int 4),
        ("heartbeat_seconds", .int 15)]),
    ("tunnel", .table [("enabled", .bool false), ("hostname", .str "api.llmat.dev")]),
    ("system", .table [("gpu_wired_limit_mb", .int 2048)])]

def ciTinyProfile : Profile :=
  ⟨"ci-tiny", "config/profiles/ci-tiny.toml", ⟨"qwen3-0.6b-mlx-4bit"⟩,
    ⟨8100, 2048, 1, 256 * 1024 ^ 2, 1536 * 1024 ^ 2, "auto", false, .ofRat 0.7, .ofRat 0.8, 20,
      .ofRat 0.6, .ofRat 0.95, 20, 300⟩,
    ⟨8000, "qwen3-0.6b", 8192, 1024, 256, 4, 15⟩, ⟨false, "api.llmat.dev"⟩, ⟨2048⟩⟩

/-- No text of a value is needed to accept a profile. -/
theorem parseProfile_ciTiny :
    parseProfile ⟨fun _ => .error .valueError, fun _ => .error .valueError⟩ "ci-tiny"
      "config/profiles/ci-tiny.toml" ciTiny = .ok ciTinyProfile := by
  decide +kernel

end AgentLab.Config
