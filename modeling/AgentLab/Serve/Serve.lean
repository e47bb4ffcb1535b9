import AgentLab.Backend.Process
import AgentLab.Config.Accepted
import AgentLab.Lib.Runs

/-!
# `alab serve`

`serve.py`: concurrent calls of `serve`, each with its profile, over the state of the backend and of
the gateway. A call takes one step for each read of a status and for each section that runs under a
lock; the processes die, get ready and appear on their own.

The status of a component is read twice in a call, once without the lock, where another profile is
refused, and once in the locked section of `start`, where it is not (`InDeployment` is the condition
that it needs not be). In runs that meet it, a call that returns reports two processes of its own
profile (`one_profile`).
-/

namespace AgentLab.Serve

open Config Backend Runs

/-- Where a call of `serve` stands, with the records it holds. -/
inductive Pc
  /-- Before `keys.load`. -/
  | keys
  /-- In `_start_backend`, before `process.status`. -/
  | backendStatus
  | preflight
  | backendStart
  | backendWait (r : Record)
  | backendCleanUp (r : Record) (exited : Bool)
  /-- In `_start_gateway`, before `gateway_process.status`. -/
  | gatewayStatus (backend : Record)
  | gatewayPort (backend : Record)
  | gatewayStart (backend : Record)
  | gatewayWait (backend r : Record)
  | gatewayCleanUp (r : Record) (exited : Bool)
  | returned (backend gateway : Record)
  | raised
  deriving DecidableEq, Repr

structure Call where
  profile : Profile
  pc : Pc

structure Deployment where
  backend : Component
  gateway : Component
  calls : List Call

/-- The backend and the gateway of earlier runs, and no call. -/
def Deployment.init (backend gateway : Component) : Deployment := ⟨backend, gateway, []⟩

/-- The first check of a component: `some` with the record of a process that is up, unless it runs
another profile. -/
def found (c : Component) (profile : Profile) (e : Env) (next : Record → Pc) (start : Pc) : Pc :=
  match c.up e.healthy with
  | some current => if current.profile ≠ profile.name then .raised else next current
  | none => start

/-- The next step of a call of `serve`. -/
def serve (profile : Profile) (backend gateway : Component) (e : Env) :
    Pc → Option (Component × Component × Pc)
  | .keys => some (backend, gateway, if e.passes then .backendStatus else .raised)
  | .backendStatus => some (backend, gateway, found backend profile e .gatewayStatus .preflight)
  | .preflight => some (backend, gateway, if e.passes then .backendStart else .raised)
  | .backendStart =>
    match backend.begin profile.name profile.backend.port profile.model.id e with
    | (backend, .found current) => some (backend, gateway, .gatewayStatus current)
    | (backend, .spawned r) => some (backend, gateway, .backendWait r)
    | (backend, .failed) => some (backend, gateway, .raised)
  | .backendWait r =>
    match backend.waitReady r e with
    | .waiting => some (backend, gateway, .backendWait r)
    | .ready => some (backend, gateway, .gatewayStatus r)
    | .exited => some (backend, gateway, .backendCleanUp r true)
    | .gaveUp => some (backend, gateway, .backendCleanUp r false)
  | .backendCleanUp r exited => some (backend.cleanUp r exited e, gateway, .raised)
  | .gatewayStatus b =>
    some (backend, gateway, found gateway profile e (.returned b) (.gatewayPort b))
  | .gatewayPort b => some (backend, gateway, if e.passes then .gatewayStart b else .raised)
  | .gatewayStart b =>
    match gateway.begin profile.name profile.gateway.port profile.gateway.modelName e with
    | (gateway, .found current) => some (backend, gateway, .returned b current)
    | (gateway, .spawned r) => some (backend, gateway, .gatewayWait b r)
    | (gateway, .failed) => some (backend, gateway, .raised)
  | .gatewayWait b r =>
    match gateway.waitReady r e with
    | .waiting => some (backend, gateway, .gatewayWait b r)
    | .ready => some (backend, gateway, .returned b r)
    | .exited => some (backend, gateway, .gatewayCleanUp r true)
    | .gaveUp => some (backend, gateway, .gatewayCleanUp r false)
  | .gatewayCleanUp r exited => some (backend, gateway.cleanUp r exited e, .raised)
  | .returned _ _ | .raised => none

inductive Part
  | backend
  | gateway
  deriving DecidableEq, Repr

/-- What happens to a process without a call. -/
inductive Event
  | dies (pid : ℕ)
  | ready (pid : ℕ)
  /-- A pid gets a process that runs the module, started by hand or by another installation. -/
  | appears (pid : ℕ)
  deriving DecidableEq, Repr

def Event.apply (c : Component) : Event → Component
  | .dies pid => { c with alive := c.alive.filter (· ≠ pid) }
  | .ready pid => { c with ready := some pid }
  | .appears pid => { c with alive := pid :: c.alive }

inductive Action
  | call (profile : Profile)
  | go (i : ℕ) (e : Env)
  | event (part : Part) (v : Event)

def step (d : Deployment) : Action → Option Deployment
  | .call profile => some { d with calls := d.calls ++ [⟨profile, .keys⟩] }
  | .go i e =>
    match d.calls[i]? with
    | none => none
    | some call =>
      match serve call.profile d.backend d.gateway e call.pc with
      | none => none
      | some (backend, gateway, pc) =>
        some ⟨backend, gateway, d.calls.set i { call with pc := pc }⟩
  | .event .backend v => some { d with backend := v.apply d.backend }
  | .event .gateway v => some { d with gateway := v.apply d.gateway }

/-! ## Which profile a call reports -/

/-- A process of the component that was started with the profile. -/
def StartedWith (c : Component) (profile : Profile) (r : Record) : Prop :=
  r.profile = profile.name ∧ (r, profile.name) ∈ c.launched

/-- The records that a call holds are of processes of its profile. -/
def Holds (backend gateway : Component) (profile : Profile) : Pc → Prop
  | .backendWait r | .gatewayStatus r | .gatewayPort r | .gatewayStart r =>
    StartedWith backend profile r
  | .gatewayWait b r | .returned b r =>
    StartedWith backend profile b ∧ StartedWith gateway profile r
  | _ => True

/-- A locked section of `start` that finds a process up finds one of the profile. -/
def SameProfile (profile : Profile) (backend gateway : Component) (e : Env) : Pc → Prop
  | .backendStart => ∀ r ∈ backend.up e.healthy, r.profile = profile.name
  | .gatewayStart _ => ∀ r ∈ gateway.up e.healthy, r.profile = profile.name
  | _ => True

/-- The step is no locked section of `start` that finds a process of another profile up. -/
def InDeployment (d : Deployment) : Action → Prop
  | .go i e => ∀ call ∈ d.calls[i]?, SameProfile call.profile d.backend d.gateway e call.pc
  | _ => True

instance (profile : Profile) (backend gateway : Component) (e : Env) (pc : Pc) :
    Decidable (SameProfile profile backend gateway e pc) :=
  match pc with
  | .backendStart => inferInstanceAs (Decidable (∀ r ∈ backend.up e.healthy, _))
  | .gatewayStart _ => inferInstanceAs (Decidable (∀ r ∈ gateway.up e.healthy, _))
  | .keys | .backendStatus | .preflight | .backendWait _ | .backendCleanUp _ _ | .gatewayStatus _
  | .gatewayPort _ | .gatewayWait _ _ | .gatewayCleanUp _ _ | .returned _ _ | .raised =>
    inferInstanceAs (Decidable True)

instance (d : Deployment) (a : Action) : Decidable (InDeployment d a) :=
  match a with
  | .go i _ => inferInstanceAs (Decidable (∀ call ∈ d.calls[i]?, _))
  | .call _ | .event _ _ => inferInstanceAs (Decidable True)

structure Inv (d : Deployment) : Prop where
  backend : d.backend.Recorded
  gateway : d.gateway.Recorded
  calls : ∀ call ∈ d.calls, Holds d.backend d.gateway call.profile call.pc

theorem StartedWith.mono {c c' : Component} {profile : Profile} {r : Record}
    (h : StartedWith c profile r) (hc : c.launched ⊆ c'.launched) : StartedWith c' profile r :=
  ⟨h.1, hc h.2⟩

theorem Holds.mono {b b' g g' : Component} {profile : Profile} {pc : Pc}
    (h : Holds b g profile pc) (hb : b.launched ⊆ b'.launched) (hg : g.launched ⊆ g'.launched) :
    Holds b' g' profile pc := by
  cases pc with
  | backendWait | gatewayStatus | gatewayPort | gatewayStart => exact StartedWith.mono h hb
  | gatewayWait | returned => exact ⟨StartedWith.mono h.1 hb, StartedWith.mono h.2 hg⟩
  | _ => trivial

theorem StartedWith.of_up {c : Component} {profile : Profile} {r : Record} {h : Bool}
    (hc : c.Recorded) (hup : c.up h = some r) (hr : r.profile = profile.name) :
    StartedWith c profile r :=
  ⟨hr, hr ▸ hc.record r (Component.record_of_up hup)⟩

theorem apply_launched (c : Component) (v : Event) : (v.apply c).launched = c.launched := by
  cases v <;> rfl

theorem recorded_apply {c : Component} (hc : c.Recorded) (v : Event) : (v.apply c).Recorded := by
  cases v <;> exact ⟨hc.profile, hc.record⟩

theorem holds_found {c : Component} {profile : Profile} {e : Env} {next : Record → Pc} {start : Pc}
    {b g : Component} (hc : c.Recorded) (hstart : Holds b g profile start)
    (hnext : ∀ r, StartedWith c profile r → Holds b g profile (next r)) :
    Holds b g profile (found c profile e next start) := by
  unfold found
  split
  · next r hup =>
    split_ifs with hr
    · trivial
    · exact hnext r (.of_up hc hup (not_not.1 hr))
  · exact hstart

/-- A component after a locked section: the records on file are of processes that were launched, and
nothing that was launched is forgotten. -/
structure Kept (c c' : Component) : Prop where
  recorded : c'.Recorded
  launched : c.launched ⊆ c'.launched

section

variable {c c' : Component} {profile : Profile} {port : ℤ} {model : String} {e : Env} {r : Record}

theorem Kept.refl (hc : c.Recorded) : Kept c c := ⟨hc, List.Subset.refl _⟩

theorem Kept.begin {out : Component.Started} (hc : c.Recorded)
    (hbegin : c.begin profile.name port model e = (c', out)) : Kept c c' := by
  have hrec := hc.begin profile.name port model e
  have hsub := c.begin_launched profile.name port model e
  rw [hbegin] at hrec hsub
  exact ⟨hrec, hsub⟩

theorem Kept.cleanUp (hc : c.Recorded) (r : Record) (exited : Bool) (e : Env) :
    Kept c (c.cleanUp r exited e) := by
  refine ⟨hc.cleanUp r exited e, ?_⟩
  rw [Component.cleanUp_launched]
  exact List.Subset.refl _

/-- A process that `start` finds up is of the profile where the section asks for it. -/
theorem StartedWith.of_begin (hc : c.Recorded)
    (hsame : ∀ r ∈ c.up e.healthy, r.profile = profile.name)
    (hbegin : c.begin profile.name port model e = (c', .found r)) : StartedWith c' profile r := by
  obtain ⟨rfl, hup⟩ := Component.begin_found hbegin
  exact .of_up hc hup (hsame r hup)

end

/-- What a step of a call leaves: the records on file, and the records that the call holds. -/
theorem serve_holds {profile : Profile} {b b' g g' : Component} {e : Env} {pc pc' : Pc}
    (hb : b.Recorded) (hg : g.Recorded) (hpc : Holds b g profile pc)
    (hsame : SameProfile profile b g e pc) (h : serve profile b g e pc = some (b', g', pc')) :
    Kept b b' ∧ Kept g g' ∧ Holds b' g' profile pc' := by
  cases pc with
  | keys | preflight =>
    cases h
    refine ⟨.refl hb, .refl hg, ?_⟩
    split_ifs <;> trivial
  | gatewayPort r =>
    cases h
    refine ⟨.refl hb, .refl hg, ?_⟩
    split_ifs
    · exact hpc
    · trivial
  | backendStatus =>
    cases h
    exact ⟨.refl hb, .refl hg, holds_found hb trivial fun _ hr => hr⟩
  | gatewayStatus r =>
    cases h
    exact ⟨.refl hb, .refl hg, holds_found hg hpc fun _ hr => ⟨hpc, hr⟩⟩
  | backendStart =>
    unfold serve at h
    dsimp only at h
    split at h <;> next hbegin =>
      cases h
      refine ⟨.begin hb hbegin, .refl hg, ?_⟩
      first
        | exact .of_begin hb hsame hbegin
        | exact Component.begin_spawned hbegin
        | trivial
  | gatewayStart b₀ =>
    unfold serve at h
    dsimp only at h
    split at h <;> next hbegin =>
      cases h
      refine ⟨.refl hb, .begin hg hbegin, ?_⟩
      first
        | exact ⟨hpc, .of_begin hg hsame hbegin⟩
        | exact ⟨hpc, Component.begin_spawned hbegin⟩
        | trivial
  | backendWait r =>
    unfold serve at h
    dsimp only at h
    cases hw : b.waitReady r e <;> rw [hw] at h <;> cases h
    · exact ⟨.refl hb, .refl hg, hpc⟩
    · exact ⟨.refl hb, .refl hg, hpc⟩
    · exact ⟨.refl hb, .refl hg, trivial⟩
    · exact ⟨.refl hb, .refl hg, trivial⟩
  | gatewayWait b₀ r =>
    unfold serve at h
    dsimp only at h
    cases hw : g.waitReady r e <;> rw [hw] at h <;> cases h
    · exact ⟨.refl hb, .refl hg, hpc⟩
    · exact ⟨.refl hb, .refl hg, hpc⟩
    · exact ⟨.refl hb, .refl hg, trivial⟩
    · exact ⟨.refl hb, .refl hg, trivial⟩
  | backendCleanUp r exited => cases h; exact ⟨.cleanUp hb r exited e, .refl hg, trivial⟩
  | gatewayCleanUp r exited => cases h; exact ⟨.refl hb, .cleanUp hg r exited e, trivial⟩
  | returned | raised => cases h

theorem Inv.step {d d' : Deployment} {a : Action} (hI : Inv d) (hC : InDeployment d a)
    (h : step d a = some d') : Inv d' := by
  cases a with
  | call profile =>
    cases h
    refine ⟨hI.backend, hI.gateway, fun c hc => ?_⟩
    rcases List.mem_append.1 hc with hc | hc
    · exact hI.calls c hc
    · rw [List.mem_singleton.1 hc]; trivial
  | go i e =>
    unfold Serve.step at h
    dsimp only at h
    split at h
    · cases h
    · next call hcall =>
      split at h
      · cases h
      · next b g pc hserve =>
        cases h
        obtain ⟨hb, hg, hpc⟩ := serve_holds hI.backend hI.gateway
          (hI.calls call (List.mem_of_getElem? hcall)) (hC call hcall) hserve
        refine ⟨hb.recorded, hg.recorded, fun c hc => ?_⟩
        rcases List.mem_or_eq_of_mem_set hc with hc | rfl
        · exact (hI.calls c hc).mono hb.launched hg.launched
        · exact hpc
  | event part v =>
    cases part with
    | backend =>
      cases h
      exact ⟨recorded_apply hI.backend v, hI.gateway, fun c hc => (hI.calls c hc).mono
        (by rw [apply_launched]; exact List.Subset.refl _) (List.Subset.refl _)⟩
    | gateway =>
      cases h
      exact ⟨hI.backend, recorded_apply hI.gateway v, fun c hc => (hI.calls c hc).mono
        (List.Subset.refl _) (by rw [apply_launched]; exact List.Subset.refl _)⟩

/-- **One profile per deployment**, in every run in which a locked section of `start` that finds a
process up finds one of its own profile: a call of `serve` that returns reports a backend and a
gateway that were both started with its profile. -/
theorem one_profile {backend gateway : Component} {d : Deployment} (hb : backend.Recorded)
    (hg : gateway.Recorded) (h : Reach step InDeployment (.init backend gateway) d) :
    ∀ call ∈ d.calls, ∀ b g, call.pc = .returned b g →
      (b.profile = call.profile.name ∧ (b, call.profile.name) ∈ d.backend.launched) ∧
      (g.profile = call.profile.name ∧ (g, call.profile.name) ∈ d.gateway.launched) := by
  have hI : Inv d := by
    refine h.invariant (I := Inv) ⟨hb, hg, fun c hc => absurd hc List.not_mem_nil⟩ ?_
    exact fun _ _ _ hI hC hs => hI.step hC hs
  intro call hcall b g hpc
  have hholds := hI.calls call hcall
  rw [hpc] at hholds
  exact hholds

/-- Nothing on record, nothing running. -/
def nothing : Component := ⟨none, none, [], []⟩

theorem recorded_nothing : nothing.Recorded := ⟨nofun, nofun⟩

/-- Everything answers and every check passes. -/
def calm (pid : ℕ) : Env := ⟨true, true, pid, 0, true, false, true⟩

/-- A call that starts both processes. -/
def startActions : List Action :=
  [.call ciTinyProfile, .go 0 (calm 1), .go 0 (calm 1), .go 0 (calm 1), .go 0 (calm 100),
    .event .backend (.ready 100), .go 0 (calm 1), .go 0 (calm 1), .go 0 (calm 1), .go 0 (calm 200),
    .event .gateway (.ready 200), .go 0 (calm 1)]

theorem startActions_return :
    (runIf step InDeployment (.init nothing nothing) startActions).map (·.calls.map Call.pc) =
      some [.returned ⟨100, 8100, "ci-tiny", "qwen3-0.6b-mlx-4bit", 0⟩
        ⟨200, 8000, "ci-tiny", "qwen3-0.6b", 0⟩] := by
  decide

theorem one_profile_start : ∃ d, Reach step InDeployment (.init nothing nothing) d ∧
    ∃ call ∈ d.calls, ∃ b g, call.pc = .returned b g ∧ b.profile = call.profile.name ∧
      g.profile = call.profile.name := by
  obtain ⟨d, hd, hpcs⟩ := Option.map_eq_some_iff.1 startActions_return
  obtain ⟨call, hcall, hpc⟩ := List.mem_map.1 (hpcs ▸ List.mem_singleton_self _)
  have h := one_profile recorded_nothing recorded_nothing (.of_runIf hd) call hcall _ _ hpc
  exact ⟨d, .of_runIf hd, call, hcall, _, _, hpc, h.1.1, h.2.1⟩

/-! ## Two calls at once -/

def otherProfile : Profile := { ciTinyProfile with name := "mac-24gb" }

/-- Both calls find nothing running and pass their checks; then the second starts its backend, and
the first finds it and starts its gateway. -/
def raceActions : List Action :=
  [.call ciTinyProfile, .call otherProfile,
    .go 0 (calm 1), .go 0 (calm 1), .go 0 (calm 1),
    .go 1 (calm 1), .go 1 (calm 1), .go 1 (calm 1),
    .go 1 (calm 100), .go 0 (calm 101),
    .go 0 (calm 1), .go 0 (calm 1), .go 0 (calm 200), .event .gateway (.ready 200),
    .go 0 (calm 1)]

/-- A call has returned and reports the backend of another profile. -/
def misreports (d : Deployment) : Bool :=
  d.calls.any fun call =>
    match call.pc with
    | .returned b _ => b.profile ≠ call.profile.name
    | _ => false

theorem race_misreports :
    (run step (.init nothing nothing) raceActions).map misreports = some true := by
  decide

/-- The first call returns, with the backend of the other profile. -/
theorem one_profile_race : ∃ d, Reachable step (.init nothing nothing) d ∧ ∃ call ∈ d.calls,
    ∃ b g, call.pc = .returned b g ∧ b.profile ≠ call.profile.name := by
  obtain ⟨d, hd, hbad⟩ := Option.map_eq_some_iff.1 race_misreports
  refine ⟨d, .of_run hd, ?_⟩
  obtain ⟨call, hcall, hpc⟩ := List.any_eq_true.1 hbad
  refine ⟨call, hcall, ?_⟩
  split at hpc
  · next b g hreturned => exact ⟨b, g, hreturned, by simpa using hpc⟩
  · cases hpc

end AgentLab.Serve
