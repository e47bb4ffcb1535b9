import AgentLab.Backend.Process
import AgentLab.Lib.Keyed
import AgentLab.Lib.Runs

/-!
# Starting and stopping at once

Concurrent calls of `start`, `stop` and `status`, of the backend or of the gateway. A section under
the lock is one step, and so is each round of the wait; processes die and report ready on their own.

A process that `start` spawned is named by the record made of it, since a pid may be used again: the
processes are `live`, and `view` is what the code sees of them, their pids. `Inv` says that the only
process that runs is the one on record; `one_backend` is the result for a whole run.
-/

namespace AgentLab.Backend

open Runs Keyed

inductive Command
  | start (profile : String) (port : ℤ) (model : String)
  | stop
  | status
  deriving DecidableEq, Repr

/-- Where a call stands. -/
inductive Call
  | todo (c : Command)
  /-- `start`, in `_wait_ready` for the process it spawned. -/
  | waiting (r : Record)
  /-- `start`, before the lock of its clean-up. -/
  | cleaning (r : Record)
  /-- `start` has returned; `own` says that this call spawned the process. -/
  | started (r : Record) (own : Bool)
  | stopped (r : Option Record) (running : Bool)
  | reported (s : State) (r : Option Record)
  /-- With the record of the process it spawned, if it did. -/
  | raised (own : Option Record)
  deriving DecidableEq, Repr

/-- The process that a call spawned. -/
def Call.spawned : Call → Option Record
  | .waiting r | .cleaning r | .started r true => some r
  | .raised own => own
  | .todo _ | .started _ false | .stopped _ _ | .reported _ _ => none

structure Control where
  /-- The state file. -/
  record : Option Record
  /-- The pid that the ready file names. -/
  ready : Option ℕ
  /-- The processes spawned by `start` that run. -/
  live : List Record
  /-- All processes spawned by `start`, and the profiles on their command lines. -/
  launched : List (Record × String)
  calls : List Call
  deriving DecidableEq, Repr

inductive Action
  | call (c : Command)
  /-- The next step of a call. -/
  | go (i : ℕ) (e : Env)
  | dies (r : Record)
  | ready (pid : ℕ)
  deriving DecidableEq, Repr

namespace Control

/-- Files of an earlier run, whose processes are gone. -/
def init (record : Option Record) (ready : Option ℕ) : Control := ⟨record, ready, [], [], []⟩

/-- What the code sees. -/
def view (s : Control) : Component := ⟨s.record, s.ready, s.live.map Record.pid, s.launched⟩

/-- A locked section leaves this: of the processes, those whose pid is still alive. -/
def leave (s : Control) (c : Component) : Control :=
  { s with
    record := c.record
    ready := c.ready
    launched := c.launched
    live := s.live.filter fun r => r.pid ∈ c.alive }

/-- One round of `_wait_ready`; `poll` asks for the process itself. -/
def waitReady (s : Control) (r : Record) (e : Env) : Component.Waited :=
  if r ∉ s.live then .exited else s.view.waitReady r e

/-- The next step of a call. -/
def run (s : Control) (e : Env) : Call → Option (Control × Call)
  | .todo (.start profile port model) =>
    -- something fails after `_clear_files` and before the process is there
    if s.view.up e.healthy = none ∧ e.passes = false then
      some (s.leave s.view.clearFiles, .raised none)
    else
      match s.view.begin profile port model e with
      | (_, .found current) => some (s, .started current false)
      | (c, .spawned r) => some ({ s.leave c with live := r :: (s.leave c).live }, .waiting r)
      | (c, .failed) => some (s.leave c, .raised none)
  | .todo .stop =>
    match s.view.stop e with
    | (c, some (r, running)) => some (s.leave c, .stopped r running)
    | (c, none) => some (s.leave c, .raised none)
  | .todo .status => some (s, .reported (s.view.status e.healthy).1 (s.view.status e.healthy).2)
  | .waiting r =>
    match s.waitReady r e with
    | .waiting => some (s, .waiting r)
    | .ready => some (s, .started r true)
    | .exited | .gaveUp => some (s, .cleaning r)
  | .cleaning r => some (s.leave (s.view.cleanUp r (r ∉ s.live) e), .raised (some r))
  | .started _ _ | .stopped _ _ | .reported _ _ | .raised _ => none

def step (s : Control) : Action → Option Control
  | .call c => some { s with calls := s.calls ++ [.todo c] }
  | .go i e =>
    match s.calls[i]? with
    | none => none
    | some call => (s.run e call).map fun (s', call') => { s' with calls := s.calls.set i call' }
  | .dies r => some { s with live := s.live.erase r }
  | .ready pid => some { s with ready := some pid }

/-- Every `terminate` succeeds, and no two starts share a time. -/
def Proper (s : Control) : Action → Prop
  | .go _ e => e.stops = true ∧ ∀ p ∈ s.launched, p.1.startedAt ≠ e.now
  | .call _ | .dies _ | .ready _ => True

instance (s : Control) (a : Action) : Decidable (s.Proper a) := by
  cases a <;> unfold Proper <;> infer_instance

/-- The process that the call `i` spawned. -/
def spawnedBy (s : Control) : ℕ → Option Record := keyAt Call.spawned s.calls

/-! ## The invariant -/

/-- A process that runs is the one on record. -/
structure Named (s : Control) : Prop where
  single : s.live.length ≤ 1
  record : ∀ r ∈ s.live, s.record = some r

structure Inv (s : Control) : Prop extends Named s where
  launched : ∀ i r, s.spawnedBy i = some r → ∃ p, (r, p) ∈ s.launched
  /-- No process was spawned by two calls. -/
  distinct : Distinct Call.spawned s.calls
  owned : ∀ r ∈ s.live, ∃ i, s.spawnedBy i = some r

variable {s s' : Control} {c : Component} {r r' : Record} {e : Env} {i : ℕ}

/-- The process that runs, if one does. -/
theorem Named.live_eq (h : s.Named) (hr : r ∈ s.live) : s.live = [r] := by
  obtain ⟨a, ha⟩ := List.length_eq_one_iff.1
    (Nat.le_antisymm h.single (List.length_pos_of_mem hr))
  rw [ha] at hr ⊢
  rw [List.mem_singleton.1 hr]

theorem Named.leave (h : s.Named) (hrecord : ∀ r ∈ s.live, r.pid ∈ c.alive → c.record = some r) :
    (s.leave c).Named where
  single := (List.length_filter_le _ _).trans h.single
  record r hr := by
    obtain ⟨hlive, halive⟩ := List.mem_filter.1 hr
    exact hrecord r hlive (of_decide_eq_true halive)

/-- Nothing is left when the process that runs is terminated. -/
theorem Named.erase_pid (h : s.Named) (hr : r ∈ s.live) : s.view.alive.erase r.pid = [] := by
  show (s.live.map Record.pid).erase r.pid = []
  rw [h.live_eq hr]
  exact List.erase_cons_head r.pid []

/-- A running process is found by `start`. -/
theorem Named.up (h : s.Named) (hr : r ∈ s.live) (healthy : Bool) :
    s.view.up healthy = some r := by
  have halive : r.pid ∈ s.view.alive := List.mem_map_of_mem hr
  unfold Component.up Component.status
  rw [show s.view.record = some r from h.record r hr]
  dsimp only
  rw [if_neg (not_not.2 halive)]
  split_ifs <;> rfl

/-- Where nothing is found, nothing runs. -/
theorem Named.live_nil (h : s.Named) {healthy : Bool} (hup : s.view.up healthy = none) :
    s.live = [] := by
  refine List.eq_nil_iff_forall_not_mem.2 fun r hr => ?_
  rw [h.up hr] at hup
  cases hup

/-! ## The sections under the lock -/

/-- `start` spawns where nothing runs, and puts the process on record. -/
theorem Named.begin_spawned {profile model : String} {port : ℤ} (h : s.Named)
    (hbegin : s.view.begin profile port model e = (c, .spawned r)) :
    s.live = [] ∧ r.startedAt = e.now ∧ c.record = some r ∧ (r, profile) ∈ c.launched := by
  have hlaunched := Component.begin_spawned hbegin
  unfold Component.begin at hbegin
  split at hbegin
  · cases hbegin
  · next hup =>
    dsimp only at hbegin
    split_ifs at hbegin <;> cases hbegin
    exact ⟨h.live_nil hup, rfl, rfl, hlaunched.2⟩

theorem Named.begin_failed {profile model : String} {port : ℤ} (h : s.Named)
    (hbegin : s.view.begin profile port model e = (c, .failed)) : s.live = [] := by
  unfold Component.begin at hbegin
  split at hbegin
  · cases hbegin
  · next hup => exact h.live_nil hup

/-- `stop` leaves nothing running that is on record. -/
theorem Named.stop (h : s.Named) (hstops : e.stops = true) : (s.leave (s.view.stop e).1).Named := by
  refine h.leave fun r hr halive => ?_
  unfold Component.stop at halive ⊢
  rw [show s.view.record = some r from h.record r hr] at halive ⊢
  have hmem : r.pid ∈ s.view.alive := List.mem_map_of_mem hr
  dsimp only at halive ⊢
  rw [if_pos hmem, if_pos hstops] at halive ⊢
  rw [show (Component.clearFiles _).alive = s.view.alive.erase r.pid from rfl,
    h.erase_pid hr] at halive
  cases halive

/-- **The clean-up of a start** touches neither another process nor the record of one. -/
theorem Named.cleanUp_other (h : s.Named) (hr' : r' ≠ r) :
    (r' ∈ s.live → r' ∈ (s.leave (s.view.cleanUp r (r ∉ s.live) e)).live) ∧
      (s.record = some r' → (s.view.cleanUp r (r ∉ s.live) e).record = some r') := by
  constructor
  · intro hlive
    have hexited : r ∉ s.live := by
      rw [h.live_eq hlive]
      exact fun hc => hr' (List.mem_singleton.1 hc).symm
    refine List.mem_filter.2 ⟨hlive, decide_eq_true ?_⟩
    rw [Component.cleanUp_alive, if_neg (by simp [hexited])]
    exact List.mem_map_of_mem hlive
  · intro hrecord
    have hview : s.view.record = some r' := hrecord
    rw [Component.cleanUp_record, hview, if_neg fun hc => hr' (Option.some.inj hc.2)]

theorem Named.cleanUp (h : s.Named) (hstops : e.stops = true) :
    (s.leave (s.view.cleanUp r (r ∉ s.live) e)).Named := by
  refine h.leave fun r₀ hr₀ halive => ?_
  by_cases heq : r₀ = r
  · subst heq
    rw [Component.cleanUp_alive, if_pos ⟨decide_eq_false (not_not.2 hr₀), hstops⟩,
      h.erase_pid hr₀] at halive
    cases halive
  · exact (h.cleanUp_other heq).2 (h.record r₀ hr₀)

/-! ## Every run -/

/-- What a step of a call does to the processes, their record and the calls. -/
structure Ran (s s' : Control) (call call' : Call) : Prop extends Named s' where
  launched : s.launched ⊆ s'.launched
  live : ∀ r ∈ s'.live, r ∈ s.live ∨ call'.spawned = some r
  /-- The call has spawned what it had, or one new process. -/
  spawned : call'.spawned = call.spawned ∨ call.spawned = none ∧
    ∃ r p, call'.spawned = some r ∧ (r, p) ∈ s'.launched ∧ ∀ p ∈ s.launched, p.1 ≠ r

theorem Ran.leave {call call' : Call} (hnamed : (s.leave c).Named)
    (hlaunched : s.launched ⊆ c.launched) (hspawned : call'.spawned = call.spawned) :
    Ran s (s.leave c) call call' :=
  ⟨hnamed, hlaunched, fun _ hr => .inl (List.mem_filter.1 hr).1, .inl hspawned⟩

theorem Ran.same {call call' : Call} (h : s.Named) (hspawned : call'.spawned = call.spawned) :
    Ran s s call call' :=
  ⟨h, List.Subset.refl _, fun _ => .inl, .inl hspawned⟩

theorem mem_leave : r ∈ (s.leave c).live ↔ r ∈ s.live ∧ r.pid ∈ c.alive := by
  show r ∈ s.live.filter (fun r => r.pid ∈ c.alive) ↔ _
  rw [List.mem_filter, decide_eq_true_iff]

/-- Where nothing runs, a section leaves nothing. -/
theorem leave_nil (hnil : s.live = []) : (s.leave c).live = [] := by
  show s.live.filter _ = []
  rw [hnil]
  rfl

theorem Named.of_nil (hnil : s.live = []) : (s.leave c).Named := by
  have hlive : (s.leave c).live = [] := leave_nil hnil
  exact ⟨by rw [hlive]; exact Nat.zero_le 1, fun r hr => by rw [hlive] at hr; cases hr⟩

/-- `start` up to the wait. -/
theorem Named.run_start {profile model : String} {port : ℤ} {call' : Call} (h : s.Named)
    (hfresh : ∀ p ∈ s.launched, p.1.startedAt ≠ e.now)
    (hrun : s.run e (.todo (.start profile port model)) = some (s', call')) :
    Ran s s' (.todo (.start profile port model)) call' := by
  unfold Control.run at hrun
  dsimp only at hrun
  split_ifs at hrun with hfails
  · cases hrun
    exact .leave (.of_nil (h.live_nil hfails.1)) (List.Subset.refl _) rfl
  · have hsub := s.view.begin_launched profile port model e
    cases hbegin : s.view.begin profile port model e with
    | mk c out =>
      rw [hbegin] at hrun hsub
      cases out with
      | found current => cases hrun; exact .same h rfl
      | failed => cases hrun; exact .leave (.of_nil (h.begin_failed hbegin)) hsub rfl
      | spawned r =>
        cases hrun
        obtain ⟨hnil, hnow, hrecord, hlaunched⟩ := h.begin_spawned hbegin
        have hlive : r :: (s.leave c).live = [r] := congrArg _ (leave_nil hnil)
        refine ⟨⟨Nat.le_of_eq (congrArg List.length hlive), fun r' hr' => ?_⟩, hsub,
          fun r' hr' => .inr ?_,
          .inr ⟨rfl, r, profile, rfl, hlaunched, fun p hp hr => hfresh p hp (hr ▸ hnow)⟩⟩
        · rw [List.mem_singleton.1 (hlive ▸ hr' : r' ∈ [r])]
          exact hrecord
        · rw [List.mem_singleton.1 (hlive ▸ hr' : r' ∈ [r])]
          rfl

/-- **One step of a call.** -/
theorem Named.run {call call' : Call} (h : s.Named) (hstops : e.stops = true)
    (hfresh : ∀ p ∈ s.launched, p.1.startedAt ≠ e.now) (hrun : s.run e call = some (s', call')) :
    Ran s s' call call' := by
  cases call with
  | todo command =>
    cases command with
    | start profile port model => exact h.run_start hfresh hrun
    | stop =>
      unfold Control.run at hrun
      dsimp only at hrun
      have hnamed := h.stop hstops
      have hlaunched : (s.view.stop e).1.launched = s.launched := by
        unfold Component.stop
        split
        · rfl
        · split_ifs <;> rfl
      have hsub : s.launched ⊆ (s.view.stop e).1.launched := by
        rw [hlaunched]
        exact List.Subset.refl _
      split at hrun <;> next hstop =>
        cases hrun
        rw [hstop] at hnamed hsub
        exact .leave hnamed hsub rfl
    | status => cases hrun; exact .same h rfl
  | waiting r =>
    unfold Control.run at hrun
    dsimp only at hrun
    cases hw : s.waitReady r e <;> rw [hw] at hrun <;> cases hrun <;> exact .same h rfl
  | cleaning r =>
    cases hrun
    refine .leave (h.cleanUp hstops) ?_ rfl
    rw [Component.cleanUp_launched]
    exact List.Subset.refl _
  | started | stopped | reported | raised => cases hrun

theorem Inv.init (record : Option Record) (ready : Option ℕ) : (init record ready).Inv where
  single := Nat.zero_le 1
  record r hr := absurd hr List.not_mem_nil
  launched i r hr := by cases hr
  distinct i j r hi := by cases hi
  owned r hr := absurd hr List.not_mem_nil

/-- **One step.** -/
theorem Inv.step {a : Action} (h : s.Inv) (hproper : s.Proper a) (hstep : s.step a = some s') :
    s'.Inv := by
  cases a with
  | call command =>
    cases hstep
    have hkeys : keyAt Call.spawned (s.calls ++ [.todo command]) = s.spawnedBy := keyAt_append rfl
    refine ⟨⟨h.single, h.record⟩, fun i r hr => h.launched i r ?_, fun i j r hi hj => ?_,
      fun r hr => ?_⟩
    · rwa [← hkeys]
    · rw [hkeys] at hi hj
      exact h.distinct i j r hi hj
    · obtain ⟨i, hi⟩ := h.owned r hr
      exact ⟨i, by unfold spawnedBy; rw [hkeys]; exact hi⟩
  | dies r =>
    cases hstep
    refine ⟨⟨(List.length_erase_le).trans h.single, fun r' hr' => ?_⟩, h.launched, h.distinct,
      fun r' hr' => ?_⟩
    · exact h.record r' (List.mem_of_mem_erase hr')
    · exact h.owned r' (List.mem_of_mem_erase hr')
  | ready pid => cases hstep; exact ⟨⟨h.single, h.record⟩, h.launched, h.distinct, h.owned⟩
  | go i e =>
    unfold Control.step at hstep
    dsimp only at hstep
    split at hstep
    · cases hstep
    · next call hcall =>
      obtain ⟨⟨s₁, call'⟩, hrun, hstep⟩ := Option.map_eq_some_iff.1 hstep
      cases hstep
      have hran := h.toNamed.run hproper.1 hproper.2 hrun
      have hkey : s.spawnedBy i = call.spawned := keyAt_eq hcall
      have hset : ∀ j, keyAt Call.spawned (s.calls.set i call') j =
          if j = i then call'.spawned else s.spawnedBy j := keyAt_set hcall call'
      -- what a call had spawned before, it still has
      have hkept : ∀ j r, s.spawnedBy j = some r →
          keyAt Call.spawned (s.calls.set i call') j = some r := by
        intro j r hj
        rw [hset]
        split_ifs with hji
        · rw [hji, hkey] at hj
          rcases hran.spawned with hsame | ⟨hnone, -⟩
          · rw [hsame, hj]
          · rw [hnone] at hj
            cases hj
        · exact hj
      refine ⟨⟨hran.single, hran.record⟩, fun j r hj => ?_, ?_, fun r hr => ?_⟩
      · have hj := (hset j).symm.trans hj
        split_ifs at hj with hji
        · rcases hran.spawned with hsame | ⟨-, r', p, hr', hp, -⟩
          · rw [hsame, ← hkey] at hj
            obtain ⟨p, hp⟩ := h.launched i r hj
            exact ⟨p, hran.launched hp⟩
          · obtain rfl := Option.some.inj (hr'.symm.trans hj)
            exact ⟨p, hp⟩
        · obtain ⟨p, hp⟩ := h.launched j r hj
          exact ⟨p, hran.launched hp⟩
      · refine Distinct.set h.distinct hcall (hran.spawned.imp_right ?_)
        rintro ⟨-, r', p, hr', -, hnew⟩ j r hj hbefore
        obtain rfl := Option.some.inj (hr'.symm.trans hj)
        obtain ⟨p, hp⟩ := h.launched j r' hbefore
        exact hnew _ hp rfl
      · rcases hran.live r hr with hlive | hown
        · obtain ⟨j, hj⟩ := h.owned r hlive
          exact ⟨j, hkept j r hj⟩
        · exact ⟨i, (hset i).trans ((if_pos rfl).trans hown)⟩

/-- **At most one backend, always on record.** In every run in which each `terminate` succeeds and
no two starts share a time, at most one process that `start` spawned is alive, and it is the one on
record; and when the clean-up of a failed `start` runs, no process that another call spawned is
killed, nor is its record removed. -/
theorem one_backend {record : Option Record} {ready : Option ℕ}
    (h : Reach step Proper (init record ready) s) :
    s.live.length ≤ 1 ∧
    (∀ r ∈ s.live, s.record = some r ∧ ∃ i, s.spawnedBy i = some r) ∧
    ∀ i e s' r, s.calls[i]? = some (.cleaning r) → s.step (.go i e) = some s' →
      s.spawnedBy i = some r ∧ ∀ j r', j ≠ i → s.spawnedBy j = some r' →
        (r' ∈ s.live → r' ∈ s'.live) ∧ (s.record = some r' → s'.record = some r') := by
  have hI : s.Inv := h.invariant (Inv.init record ready) fun _ _ _ hI hC hs => hI.step hC hs
  refine ⟨hI.single, fun r hr => ⟨hI.record r hr, hI.owned r hr⟩, fun i e s' r hcall hstep => ?_⟩
  have hown : s.spawnedBy i = some r := keyAt_eq hcall
  refine ⟨hown, fun j r' hji hj => ?_⟩
  have hne : r' ≠ r := by
    rintro rfl
    exact hji (hI.distinct j i r' hj hown)
  unfold Control.step at hstep
  dsimp only at hstep
  rw [hcall] at hstep
  cases hstep
  exact hI.toNamed.cleanUp_other hne

/-- Everything works, and the deadline has not passed. -/
def works (pid now : ℕ) : Env := ⟨true, true, pid, now, true, false, true⟩

/-- Two backends with one pid. -/
def firstRecord : Record := ⟨100, 8100, "ci-tiny", "m", 1⟩

def secondRecord : Record := ⟨100, 8100, "mac-24gb", "m", 2⟩

/-- The first backend is stopped while it loads, and the second one is started; then the first start
finds its process gone. -/
def stopWhileLoading : List Action :=
  [.call (.start "ci-tiny" 8100 "m"), .call .stop, .call (.start "mac-24gb" 8100 "m"),
    .go 0 (works 100 1), .go 1 (works 0 0), .go 2 (works 100 2), .go 0 (works 0 0)]

def secondLoading : Control :=
  ⟨some secondRecord, none, [secondRecord], [(firstRecord, "ci-tiny"), (secondRecord, "mac-24gb")],
    [.cleaning firstRecord, .stopped (some firstRecord) true, .waiting secondRecord]⟩

/-- The clean-up of the first start leaves the second backend and its record alone. -/
theorem one_backend_stopWhileLoading :
    runIf step Proper (init none none) stopWhileLoading = some secondLoading ∧
    ∃ s', secondLoading.step (.go 0 (works 0 0)) = some s' ∧ secondRecord ∈ s'.live ∧
      s'.record = some secondRecord := by
  have hrun : runIf step Proper (init none none) stopWhileLoading = some secondLoading := by
    decide +kernel
  obtain ⟨-, -, hcleanUp⟩ := one_backend (.of_runIf hrun)
  obtain ⟨s', hstep⟩ : ∃ s', secondLoading.step (.go 0 (works 0 0)) = some s' := ⟨_, rfl⟩
  obtain ⟨-, hother⟩ := hcleanUp 0 (works 0 0) s' firstRecord rfl hstep
  obtain ⟨hlive, hrecord⟩ := hother 2 secondRecord (by decide) rfl
  exact ⟨hrun, s', hstep, hlive List.mem_cons_self, hrecord rfl⟩

end Control

end AgentLab.Backend
