import Mathlib.Data.List.Basic
import AgentLab.Config.Profile

/-!
# Starting a process

`process.py` of the backend, which the gateway's follows: the record of the running process, its
status, and `start`, as the section it runs under the lock, the wait for the new process, and the
clean-up when that fails. `Component` is the state of one of the two: the files in `var/run`, and
which processes run its module.
-/

namespace AgentLab.Backend

structure Record where
  pid : ℕ
  port : ℤ
  profile : String
  model : String
  startedAt : ℕ
  deriving DecidableEq, Repr

inductive State
  | stopped
  | loading
  | running
  | unhealthy
  | exited
  deriving DecidableEq, Repr

/-- The states in which nothing is started. -/
def State.isUp : State → Bool
  | .running | .loading | .unhealthy => true
  | .stopped | .exited => false

structure Component where
  /-- The state file. -/
  record : Option Record
  /-- The pid that the ready file names. -/
  ready : Option ℕ
  /-- The live processes whose command line names the module. -/
  alive : List ℕ
  /-- The records of all processes started so far, and the profiles on their command lines. -/
  launched : List (Record × String)
  deriving DecidableEq, Repr

/-- What a call finds outside the files and processes of the model. -/
structure Env where
  /-- The health check answers. -/
  healthy : Bool
  /-- The other checks of the step pass. -/
  passes : Bool
  /-- The pid and the start time of a new process. -/
  pid : ℕ
  now : ℕ
  /-- The state file can be written. -/
  saved : Bool
  /-- The deadline has passed, or the user interrupts the wait. -/
  timeout : Bool
  /-- A process that is to stop exits. -/
  stops : Bool
  deriving DecidableEq, Repr

namespace Component

/-- `status`. -/
def status (c : Component) (healthy : Bool) : State × Option Record :=
  match c.record with
  | none => (.stopped, none)
  | some r =>
    if r.pid ∉ c.alive then (.exited, some r)
    else if c.ready ≠ some r.pid then (.loading, some r)
    else if healthy then (.running, some r) else (.unhealthy, some r)

/-- The record of the process that is up, if one is. -/
def up (c : Component) (healthy : Bool) : Option Record :=
  match c.status healthy with
  | (s, some r) => if s.isUp then some r else none
  | (_, none) => none

/-- `_clear_files`. -/
def clearFiles (c : Component) : Component := { c with record := none, ready := none }

/-- What the locked section of `start` comes to. -/
inductive Started
  | found (r : Record)
  | spawned (r : Record)
  | failed
  deriving DecidableEq, Repr

/-- The locked section of `start`. -/
def begin (c : Component) (profile : String) (port : ℤ) (model : String) (e : Env) :
    Component × Started :=
  match c.up e.healthy with
  | some current => (c, .found current)
  | none =>
    let r : Record := ⟨e.pid, port, profile, model, e.now⟩
    let c := c.clearFiles
    let c := { c with alive := e.pid :: c.alive, launched := c.launched ++ [(r, profile)] }
    if e.saved then ({ c with record := some r }, .spawned r)
    else ({ c with alive := c.alive.erase e.pid }, .failed)

/-- What a round of `_wait_ready` comes to. -/
inductive Waited
  | waiting
  | ready
  | exited
  | gaveUp
  deriving DecidableEq, Repr

/-- One round of `_wait_ready`. -/
def waitReady (c : Component) (r : Record) (e : Env) : Waited :=
  if r.pid ∉ c.alive then .exited
  else if c.ready = some r.pid ∧ e.healthy then .ready
  else if e.timeout then .gaveUp
  else .waiting

/-- The clean-up of `start` under the lock. A process that was seen to exit is not signalled, since
its pid may have another owner; one that does not stop makes `terminate` raise. -/
def cleanUp (c : Component) (r : Record) (exited : Bool) (e : Env) : Component :=
  if !exited && !e.stops then c
  else
    let c := if exited then c else { c with alive := c.alive.erase r.pid }
    if c.record = some r then c.clearFiles else c

/-- `stop`: the record and whether its process was running, or nothing when `terminate` raises. -/
def stop (c : Component) (e : Env) : Component × Option (Option Record × Bool) :=
  match c.record with
  | none => (c.clearFiles, some (none, false))
  | some r =>
    if r.pid ∈ c.alive then
      if e.stops then
        (({ c with alive := c.alive.erase r.pid } : Component).clearFiles, some (some r, true))
      else (c, none)
    else (c.clearFiles, some (some r, false))

/-! ## The records -/

variable {c : Component} {r : Record} {p : String} {e : Env}

/-- The record on file is that of a process that was started, and the records name the profiles of
their processes. -/
structure Recorded (c : Component) : Prop where
  profile : ∀ r p, (r, p) ∈ c.launched → r.profile = p
  record : ∀ r, c.record = some r → (r, r.profile) ∈ c.launched

theorem record_of_up {h : Bool} (hup : c.up h = some r) : c.record = some r := by
  unfold up status at hup
  cases hr : c.record with
  | none => rw [hr] at hup; cases hup
  | some r' =>
    rw [hr] at hup
    dsimp only at hup
    split_ifs at hup <;> simp_all [State.isUp]

/-- What `begin` reports was started, and by whom. -/
theorem begin_found {c' : Component} {profile model : String} {port : ℤ}
    (h : c.begin profile port model e = (c', .found r)) : c' = c ∧ c.up e.healthy = some r := by
  unfold begin at h
  split at h
  · next hup => cases h; exact ⟨rfl, hup⟩
  · dsimp only at h
    split_ifs at h <;> cases h

theorem begin_spawned {c' : Component} {profile model : String} {port : ℤ}
    (h : c.begin profile port model e = (c', .spawned r)) :
    r.profile = profile ∧ (r, profile) ∈ c'.launched := by
  unfold begin at h
  split at h
  · cases h
  · dsimp only at h
    split_ifs at h <;> cases h
    exact ⟨rfl, List.mem_append_right _ (List.mem_singleton_self _)⟩

theorem begin_launched (c : Component) (profile : String) (port : ℤ) (model : String) (e : Env) :
    c.launched ⊆ (c.begin profile port model e).1.launched := by
  unfold begin
  split
  · exact List.Subset.refl _
  · dsimp only
    split_ifs <;> exact List.subset_append_left _ _

theorem Recorded.begin (hc : c.Recorded) (profile : String) (port : ℤ) (model : String) (e : Env) :
    (c.begin profile port model e).1.Recorded := by
  have hprofile : ∀ r p, (r, p) ∈ c.launched ++ [(⟨e.pid, port, profile, model, e.now⟩, profile)] →
      r.profile = p := by
    intro r p hr
    rcases List.mem_append.1 hr with hr | hr
    · exact hc.profile r p hr
    · obtain ⟨rfl, rfl⟩ := Prod.mk.inj (List.mem_singleton.1 hr)
      rfl
  unfold Component.begin
  split
  · exact hc
  · dsimp only
    split_ifs
    · refine ⟨hprofile, ?_⟩
      rintro _ ⟨⟩
      exact List.mem_append_right _ (List.mem_singleton_self _)
    · exact ⟨hprofile, nofun⟩

theorem cleanUp_launched (c : Component) (r : Record) (exited : Bool) (e : Env) :
    (c.cleanUp r exited e).launched = c.launched := by
  unfold cleanUp
  dsimp only
  split_ifs <;> rfl

theorem cleanUp_alive (c : Component) (r : Record) (exited : Bool) (e : Env) :
    (c.cleanUp r exited e).alive =
      if exited = false ∧ e.stops = true then c.alive.erase r.pid else c.alive := by
  unfold cleanUp
  cases exited <;> cases e.stops <;> dsimp only [Bool.not_true, Bool.not_false, Bool.and_self] <;>
    split_ifs <;> first | rfl | contradiction

theorem cleanUp_record (c : Component) (r : Record) (exited : Bool) (e : Env) :
    (c.cleanUp r exited e).record =
      if (exited = true ∨ e.stops = true) ∧ c.record = some r then none else c.record := by
  unfold cleanUp
  cases exited <;> cases e.stops <;> dsimp only [Bool.not_true, Bool.not_false, Bool.and_self] <;>
    split_ifs <;> first | rfl | contradiction | simp_all

theorem Recorded.cleanUp (hc : c.Recorded) (r : Record) (exited : Bool) (e : Env) :
    (c.cleanUp r exited e).Recorded := by
  refine ⟨by rw [cleanUp_launched]; exact hc.profile, ?_⟩
  rw [cleanUp_launched]
  unfold Component.cleanUp
  dsimp only
  split_ifs <;> first | exact hc.record | exact nofun

end Component

end AgentLab.Backend
