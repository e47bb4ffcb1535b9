import Mathlib.Logic.Relation
import AgentLab.Backend.Control

/-!
# What the status says of a process

`status` and `_wait_ready` know a process by its pid alone, and what an earlier process of that pid
has reported may be on file. `Reporting` keeps the record of each process that has reported ready
itself. Neither holds the lock, so each of their reads is a step of its own (`Look`), and the state
may change between two of them.

A process that runs all the while is shown, as one that loads its model until it reports, and the
wait for it ends when it has reported (`status_truthful`). This rests on `start` clearing the files
before it spawns, and on no section that leaves a process running clearing them
(`Named.ready_kept`).
-/

namespace AgentLab.Backend

open Runs Control

namespace Control

variable {s s' : Control} {c : Component} {call call' : Call} {r : Record} {e : Env}

theorem Named.live_of_pid {r' : Record} (h : s.Named) (hrecord : s.record = some r)
    (hr' : r' ∈ s.live) : r' = r :=
  Option.some.inj ((h.record r' hr').symm.trans hrecord)

/-- `stop` leaves no process running. -/
theorem Named.stop_dead (h : s.Named) (hstops : e.stops = true) :
    (s.leave (s.view.stop e).1).live = [] := by
  refine List.eq_nil_iff_forall_not_mem.2 fun r hr => ?_
  obtain ⟨hlive, halive⟩ := mem_leave.1 hr
  unfold Component.stop at halive
  rw [show s.view.record = some r from h.record r hlive] at halive
  have hmem : r.pid ∈ s.view.alive := List.mem_map_of_mem hlive
  dsimp only at halive
  rw [if_pos hmem, if_pos hstops,
    show (Component.clearFiles _).alive = s.view.alive.erase r.pid from rfl,
    h.erase_pid hlive] at halive
  cases halive

/-- A process that the clean-up of a start leaves running keeps its ready file. -/
theorem Named.cleanUp_ready {r' : Record} (h : s.Named) (hstops : e.stops = true)
    (hr' : r' ∈ (s.leave (s.view.cleanUp r (r ∉ s.live) e)).live) :
    (s.view.cleanUp r (r ∉ s.live) e).ready = s.ready := by
  obtain ⟨hlive, halive⟩ := mem_leave.1 hr'
  have hne : r' ≠ r := by
    rintro rfl
    rw [Component.cleanUp_alive, if_pos ⟨decide_eq_false (not_not.2 hlive), hstops⟩,
      h.erase_pid hlive] at halive
    cases halive
  have hrecord : s.view.record ≠ some r := fun hc => hne (h.live_of_pid hc hlive)
  unfold Component.cleanUp
  dsimp only
  split_ifs <;> rfl

/-- `start` spawns with no ready file. -/
theorem begin_ready {profile model : String} {port : ℤ}
    (hbegin : s.view.begin profile port model e = (c, .spawned r)) : c.ready = none := by
  unfold Component.begin at hbegin
  split at hbegin
  · cases hbegin
  · dsimp only at hbegin
    split_ifs at hbegin <;> cases hbegin
    rfl

/-- **The ready file of a process that runs** stays through a step of a call, and there is none when
the process is new. -/
theorem Named.ready_kept (h : s.Named) (hstops : e.stops = true)
    (hrun : s.run e call = some (s', call'))
    (hr : r ∈ s'.live) :
    r ∈ s.live ∧ s'.ready = s.ready ∨ r.startedAt = e.now ∧ s'.ready = none := by
  unfold Control.run at hrun
  cases call with
  | todo command =>
    cases command with
    | start profile port model =>
      dsimp only at hrun
      split_ifs at hrun with hfails
      · cases hrun
        rw [leave_nil (h.live_nil hfails.1)] at hr
        cases hr
      · cases hbegin : s.view.begin profile port model e with
        | mk c out =>
          rw [hbegin] at hrun
          cases out with
          | found current => cases hrun; exact .inl ⟨hr, rfl⟩
          | failed =>
            cases hrun
            rw [leave_nil (h.begin_failed hbegin)] at hr
            cases hr
          | spawned r' =>
            cases hrun
            obtain ⟨hnil, hnow, -, -⟩ := h.begin_spawned hbegin
            rcases List.mem_cons.1 hr with rfl | hr
            · exact .inr ⟨hnow, begin_ready hbegin⟩
            · rw [leave_nil hnil] at hr
              cases hr
    | stop =>
      have hdead := h.stop_dead hstops
      dsimp only at hrun
      split at hrun <;> next hstop =>
        cases hrun
        rw [hstop] at hdead
        rw [show (s.leave _).live = [] from hdead] at hr
        cases hr
    | status => cases hrun; exact .inl ⟨hr, rfl⟩
  | waiting r' =>
    dsimp only at hrun
    cases hw : s.waitReady r' e <;> rw [hw] at hrun <;> cases hrun <;> exact .inl ⟨hr, rfl⟩
  | cleaning r' =>
    cases hrun
    exact .inl ⟨(mem_leave.1 hr).1, h.cleanUp_ready hstops hr⟩
  | started | stopped | reported | raised => cases hrun

end Control

/-! ## Who has reported -/

structure Reporting where
  control : Control
  /-- The processes that have reported ready themselves. -/
  reported : List Record
  deriving DecidableEq, Repr

namespace Reporting

/-- A report of a pid is one of the process that has it. -/
def reportedAfter (s : Reporting) : Action → List Record
  | .ready pid => s.control.live.filter (fun r => r.pid = pid) ++ s.reported
  | .call _ | .go _ _ | .dies _ => s.reported

def step (s : Reporting) (a : Action) : Option Reporting :=
  (s.control.step a).map fun control => ⟨control, s.reportedAfter a⟩

/-- Only a process that runs reports, with its own pid. -/
def Proper (s : Reporting) : Action → Prop
  | .go i e => s.control.Proper (.go i e)
  | .ready pid => pid ∈ s.control.live.map Record.pid
  | .call _ | .dies _ => True

instance (s : Reporting) : (a : Action) → Decidable (s.Proper a)
  | .go i e => inferInstanceAs (Decidable (s.control.Proper (.go i e)))
  | .ready pid => inferInstanceAs (Decidable (pid ∈ s.control.live.map Record.pid))
  | .call _ | .dies _ => .isTrue trivial

def init (record : Option Record) (ready : Option ℕ) : Reporting := ⟨.init record ready, []⟩

structure Inv (s : Reporting) : Prop extends Control.Inv s.control where
  reported_launched : ∀ r ∈ s.reported, ∃ p, (r, p) ∈ s.control.launched
  ready : ∀ r ∈ s.control.live, s.control.ready = some r.pid ↔ r ∈ s.reported

variable {s s' : Reporting} {r : Record} {e : Env} {i : ℕ}

theorem Proper.control {a : Action} (h : s.Proper a) : s.control.Proper a := by
  cases a with
  | go i e => exact h
  | call _ | ready _ | dies _ => trivial

theorem step_control {a : Action} (hstep : s.step a = some s') :
    s.control.step a = some s'.control := by
  obtain ⟨control, hcontrol, rfl⟩ := Option.map_eq_some_iff.1 hstep
  exact hcontrol

theorem Inv.init (record : Option Record) (ready : Option ℕ) : (init record ready).Inv where
  toInv := .init record ready
  reported_launched r hr := by cases hr
  ready r hr := by cases hr

/-- **One step.** -/
theorem Inv.step {a : Action} (h : s.Inv) (hproper : s.Proper a) (hstep : s.step a = some s') :
    s'.Inv := by
  have hinv : s'.control.Inv := h.toInv.step hproper.control (step_control hstep)
  obtain ⟨control, hcontrol, rfl⟩ := Option.map_eq_some_iff.1 hstep
  cases a with
  | call command =>
    cases hcontrol
    exact ⟨hinv, h.reported_launched, h.ready⟩
  | dies r =>
    cases hcontrol
    exact ⟨hinv, h.reported_launched, fun r' hr' => h.ready r' (List.mem_of_mem_erase hr')⟩
  | ready pid =>
    cases hcontrol
    obtain ⟨r, hr, hpid⟩ := List.mem_map.1 hproper
    have hreported : s.reportedAfter (.ready pid) = r :: s.reported := by
      unfold reportedAfter
      simp [h.live_eq hr, hpid]
    rw [hreported] at hinv ⊢
    refine ⟨hinv, fun r' hr' => ?_, fun r' hr' => ?_⟩
    · rcases List.mem_cons.1 hr' with rfl | hr'
      · obtain ⟨j, hj⟩ := h.owned r' hr
        exact h.launched j r' hj
      · exact h.reported_launched r' hr'
    · have hr' : r' ∈ s.control.live := hr'
      rw [h.live_eq hr, List.mem_singleton] at hr'
      rw [hr']
      exact iff_of_true (congrArg some hpid.symm) List.mem_cons_self
  | go i e =>
    unfold Control.step at hcontrol
    dsimp only at hcontrol
    split at hcontrol
    · cases hcontrol
    · next call hcall =>
      obtain ⟨r, hrun, rfl⟩ := Option.map_eq_some_iff.1 hcontrol
      have hran := h.toNamed.run hproper.1 hproper.2 hrun
      refine ⟨hinv, fun r' hr' => ?_, fun r' hr' => ?_⟩
      · obtain ⟨p, hp⟩ := h.reported_launched r' hr'
        exact ⟨p, hran.launched hp⟩
      · dsimp only
        rcases h.toNamed.ready_kept hproper.1 hrun hr' with ⟨hlive, hready⟩ | ⟨hnow, hready⟩
        · rw [hready]
          exact h.ready r' hlive
        · rw [hready]
          refine iff_of_false (Option.some_ne_none _).symm fun hreported => ?_
          obtain ⟨p, hp⟩ := h.reported_launched r' hreported
          exact hproper.2 _ hp hnow

end Reporting

/-! ## Reading the status -/

/-- Where a call of `status` stands, or a round of `_wait_ready` for a process (`waits`). -/
inductive Reading
  /-- Before `Record.load`. -/
  | record
  /-- Before `is_backend`, or `poll`. -/
  | owner (waits : Bool) (r : Record)
  /-- Before `_read_ready`. -/
  | ready (waits : Bool) (r : Record)
  | health (waits : Bool) (r : Record)
  | shown (state : State) (r : Option Record)
  /-- The end of a round; `up` says that the wait is over, and the process ready. -/
  | polled (up : Bool) (r : Record)
  deriving DecidableEq, Repr

/-- The next read. -/
def Reading.next (s : Control) (healthy : Bool) : Reading → Option Reading
  | .record =>
    match s.record with
    | none => some (.shown .stopped none)
    | some r => some (.owner false r)
  | .owner false r =>
      some (if r.pid ∈ s.view.alive then .ready false r else .shown .exited (some r))
  | .owner true r => some (if r ∈ s.live then .ready true r else .polled false r)
  | .ready false r =>
    some (if s.ready = some r.pid then .health false r else .shown .loading (some r))
  | .ready true r => some (if s.ready = some r.pid then .health true r else .polled false r)
  | .health false r => some (.shown (if healthy then .running else .unhealthy) (some r))
  | .health true r => some (.polled healthy r)
  | .shown _ _ | .polled _ _ => none

/-- A call of `status`, or a round of the wait, and what was so when it read. -/
structure Look where
  reading : Reading
  /-- The processes that have run ever since it began. -/
  steady : List Record
  /-- The processes that ran when the owner of the pid was asked for. -/
  running : List Record
  /-- The processes that had reported when the ready file was read. -/
  reported : List Record
  /-- What `/health` answered. -/
  healthy : Bool
  deriving DecidableEq, Repr

namespace Look

/-- What is so when the next read is done. -/
def note (l : Look) (s : Reporting) (healthy : Bool) : Look :=
  match l.reading with
  | .owner _ _ => { l with running := s.control.live }
  | .ready _ _ => { l with reported := s.reported }
  | .health _ _ => { l with healthy }
  | .record | .shown _ _ | .polled _ _ => l

/-- The look when something else has happened. -/
def after (l : Look) (s : Reporting) : Look :=
  { l with steady := l.steady.filter fun r => r ∈ s.control.live }

/-- What the status is to be. -/
def truth (l : Look) (r : Record) : State :=
  if r ∉ l.reported then .loading else if l.healthy then .running else .unhealthy

end Look

structure Watched where
  reporting : Reporting
  looks : List Look
  deriving DecidableEq, Repr

namespace Watched

inductive Step
  | act (a : Action)
  /-- A call of `status`. -/
  | status
  /-- A round of the wait for the process. -/
  | round (r : Record)
  /-- The next read. -/
  | read (i : ℕ) (healthy : Bool)
  deriving DecidableEq, Repr

def step (w : Watched) : Step → Option Watched
  | .act a => (w.reporting.step a).map fun s => ⟨s, w.looks.map fun l => l.after s⟩
  | .status =>
      some { w with looks := w.looks ++ [⟨.record, w.reporting.control.live, [], [], false⟩] }
  | .round r =>
    some { w with looks := w.looks ++ [⟨.owner true r, w.reporting.control.live, [], [], false⟩] }
  | .read i healthy =>
    match w.looks[i]? with
    | none => none
    | some l => (l.reading.next w.reporting.control healthy).map fun reading =>
      { w with looks := w.looks.set i { l.note w.reporting healthy with reading } }

/-- The reads are free. -/
def Proper (w : Watched) : Step → Prop
  | .act a => w.reporting.Proper a
  | .status | .round _ | .read _ _ => True

instance (w : Watched) : (a : Step) → Decidable (w.Proper a)
  | .act a => inferInstanceAs (Decidable (w.reporting.Proper a))
  | .status | .round _ | .read _ _ => .isTrue trivial

def init (record : Option Record) (ready : Option ℕ) : Watched := ⟨.init record ready, []⟩

end Watched

namespace Look

variable {s s' : Reporting} {l : Look} {r : Record}

/-- What a call has read so far, of the processes that have run ever since it began. -/
def Read (l : Look) : Prop :=
  match l.reading with
  | .record | .owner true _ => True
  | .owner false r => ∀ r' ∈ l.steady, r' = r
  | .ready waits r => (∃ r' ∈ l.running, r'.pid = r.pid) ∧ (waits = false → ∀ r' ∈ l.steady, r' = r)
  | .health waits r => (∃ r' ∈ l.running, r'.pid = r.pid) ∧
      (waits = false → ∀ r' ∈ l.steady, r' = r) ∧
      (r ∈ l.steady → r ∈ l.reported)
  | .shown state r => (∀ r' ∈ l.steady, r = some r' ∧ state = l.truth r') ∧
      (state.isUp = true → ∃ r' ∈ l.running, r.map Record.pid = some r'.pid)
  | .polled up r => (r ∈ l.steady → (up = true ↔ r ∈ l.reported ∧ l.healthy = true)) ∧
      (up = true → ∃ r' ∈ l.running, r'.pid = r.pid)

structure Inv (s : Reporting) (l : Look) : Prop where
  steady : ∀ r ∈ l.steady, r ∈ s.control.live
  read : l.Read

/-- Others act. -/
theorem Inv.after (h : l.Inv s) (s' : Reporting) : (l.after s').Inv s' where
  steady r hr := of_decide_eq_true (List.mem_filter.1 hr).2
  read := by
    have hmem : ∀ r ∈ (l.after s').steady, r ∈ l.steady := fun r hr => (List.mem_filter.1 hr).1
    have hread := h.read
    unfold Read at hread ⊢
    rw [show (l.after s').reading = l.reading from rfl]
    cases hreading : l.reading with
    | record => trivial
    | owner waits r =>
      cases waits with
      | true => trivial
      | false =>
        rw [hreading] at hread
        exact fun r' hr' => hread r' (hmem r' hr')
    | ready waits r =>
      rw [hreading] at hread
      exact ⟨hread.1, fun hwaits r' hr' => hread.2 hwaits r' (hmem r' hr')⟩
    | health waits r =>
      rw [hreading] at hread
      obtain ⟨hrunning, hsame, hreported⟩ := hread
      exact ⟨hrunning, fun hwaits r' hr' => hsame hwaits r' (hmem r' hr'),
        fun hr => hreported (hmem r hr)⟩
    | shown state r =>
      rw [hreading] at hread
      exact ⟨fun r' hr' => hread.1 r' (hmem r' hr'), hread.2⟩
    | polled up r =>
      rw [hreading] at hread
      exact ⟨fun hr => hread.1 (hmem r hr), hread.2⟩

/-- `Record.load`: the process that has run all the while is on record. -/
theorem Inv.readRecord {reading : Reading} {healthy : Bool} (hs : s.Inv) (h : l.Inv s)
    (hnext : Reading.next s.control healthy .record = some reading) :
    Look.Read { l with reading } := by
  have hrecord : ∀ r ∈ l.steady, s.control.record = some r := fun r hr =>
    hs.record r (h.steady r hr)
  unfold Reading.next at hnext
  dsimp only at hnext
  split at hnext
  · next hnone =>
    cases hnext
    refine ⟨fun r hr => ?_, nofun⟩
    cases hnone.symm.trans (hrecord r hr)
  · next r hsome =>
    cases hnext
    exact fun r' hr' => Option.some.inj ((hrecord r' hr').symm.trans hsome)

/-- `is_backend` or `poll`: a process that runs is found. -/
theorem Inv.readOwner {waits : Bool} {reading : Reading} {healthy : Bool} (h : l.Inv s)
    (hsame : waits = false → ∀ r' ∈ l.steady, r' = r)
    (hnext : (Reading.owner waits r).next s.control healthy = some reading) :
    Look.Read { l with running := s.control.live, reading } := by
  cases waits with
  | true =>
    cases hnext
    split_ifs with hlive
    · exact ⟨⟨r, hlive, rfl⟩, nofun⟩
    · exact ⟨fun hr => absurd (h.steady r hr) hlive, nofun⟩
  | false =>
    cases hnext
    split_ifs with halive
    · exact ⟨List.mem_map.1 halive, hsame⟩
    · refine ⟨fun r' hr' => ?_, nofun⟩
      rw [← hsame rfl r' hr'] at halive
      exact absurd (List.mem_map_of_mem (h.steady r' hr')) halive

/-- `_read_ready`: the file is of the process that has run all the while, if of its pid. -/
theorem Inv.readReady {waits : Bool} {reading : Reading} {healthy : Bool} (hs : s.Inv) (h : l.Inv s)
    (hrunning : ∃ r' ∈ l.running, r'.pid = r.pid) (hsame : waits = false → ∀ r' ∈ l.steady, r' = r)
    (hnext : (Reading.ready waits r).next s.control healthy = some reading) :
    Look.Read { l with reported := s.reported, reading } := by
  have hready : r ∈ l.steady → (s.control.ready = some r.pid ↔ r ∈ s.reported) :=
    fun hr => hs.ready r (h.steady r hr)
  cases waits with
  | true =>
    cases hnext
    split_ifs with hfile
    · exact ⟨hrunning, nofun, fun hr => (hready hr).1 hfile⟩
    · exact ⟨fun hr => iff_of_false nofun fun hc => hfile ((hready hr).2 hc.1), nofun⟩
  | false =>
    cases hnext
    split_ifs with hfile
    · exact ⟨hrunning, hsame, fun hr => (hready hr).1 hfile⟩
    · refine ⟨fun r' hr' => ?_, fun _ => ?_⟩
      · obtain rfl := hsame rfl r' hr'
        exact ⟨rfl, (if_pos (mt (hready hr').2 hfile)).symm⟩
      · obtain ⟨r', hr', hpid⟩ := hrunning
        exact ⟨r', hr', congrArg some hpid.symm⟩

/-- `health`: the end of a call whose process has reported. -/
theorem readHealth {waits : Bool} {reading : Reading} {healthy : Bool}
    (hrunning : ∃ r' ∈ l.running, r'.pid = r.pid) (hsame : waits = false → ∀ r' ∈ l.steady, r' = r)
    (hreported : r ∈ l.steady → r ∈ l.reported)
    (hnext : (Reading.health waits r).next s.control healthy = some reading) :
    Look.Read { l with healthy, reading } := by
  cases waits with
  | true =>
    cases hnext
    exact ⟨fun hr => ⟨fun hup => ⟨hreported hr, hup⟩, And.right⟩, fun _ => hrunning⟩
  | false =>
    cases hnext
    refine ⟨fun r' hr' => ?_, fun _ => ?_⟩
    · obtain rfl := hsame rfl r' hr'
      exact ⟨rfl, (if_neg (not_not.2 (hreported hr'))).symm⟩
    · obtain ⟨r', hr', hpid⟩ := hrunning
      exact ⟨r', hr', congrArg some hpid.symm⟩

/-- **The next read.** -/
theorem Inv.next {reading : Reading} {healthy : Bool} (hs : s.Inv) (h : l.Inv s)
    (hnext : l.reading.next s.control healthy = some reading) :
    Look.Inv s { l.note s healthy with reading } := by
  have hread := h.read
  unfold Read at hread
  unfold note
  cases hreading : l.reading with
  | record =>
    rw [hreading] at hnext
    exact ⟨h.steady, h.readRecord hs hnext⟩
  | owner waits r =>
    rw [hreading] at hnext hread
    refine ⟨h.steady, h.readOwner (fun hwaits => ?_) hnext⟩
    subst hwaits
    exact hread
  | ready waits r =>
    rw [hreading] at hnext hread
    have hnow := h.readReady hs hread.1 hread.2 hnext
    exact ⟨h.steady, hnow⟩
  | health waits r =>
    rw [hreading] at hnext hread
    exact ⟨h.steady, readHealth hread.1 hread.2.1 hread.2.2 hnext⟩
  | shown state r =>
    rw [hreading] at hnext
    cases hnext
  | polled up r =>
    rw [hreading] at hnext
    cases hnext

end Look

namespace Watched

variable {w w' : Watched}

structure Inv (w : Watched) : Prop where
  reporting : w.reporting.Inv
  looks : ∀ l ∈ w.looks, l.Inv w.reporting

theorem Inv.init (record : Option Record) (ready : Option ℕ) : (init record ready).Inv where
  reporting := .init record ready
  looks := List.forall_mem_nil _

/-- **One step.** -/
theorem Inv.step {a : Step} (h : w.Inv) (hproper : w.Proper a) (hstep : w.step a = some w') :
    w'.Inv := by
  cases a with
  | act a =>
    obtain ⟨s, hs, rfl⟩ := Option.map_eq_some_iff.1 hstep
    refine ⟨h.reporting.step hproper hs, fun l hl => ?_⟩
    obtain ⟨l', hl', rfl⟩ := List.mem_map.1 hl
    exact (h.looks l' hl').after s
  | status =>
    cases hstep
    exact ⟨h.reporting, List.forall_mem_append.2
      ⟨h.looks, List.forall_mem_singleton.2 ⟨fun _ hr => hr, trivial⟩⟩⟩
  | round r =>
    cases hstep
    exact ⟨h.reporting, List.forall_mem_append.2
      ⟨h.looks, List.forall_mem_singleton.2 ⟨fun _ hr => hr, trivial⟩⟩⟩
  | read i healthy =>
    unfold Watched.step at hstep
    dsimp only at hstep
    split at hstep
    · cases hstep
    · next l hl =>
      obtain ⟨reading, hnext, rfl⟩ := Option.map_eq_some_iff.1 hstep
      refine ⟨h.reporting, fun l' hl' => ?_⟩
      rcases List.mem_or_eq_of_mem_set hl' with hl' | rfl
      · exact h.looks l' hl'
      · exact (h.looks l (List.mem_of_getElem? hl)).next h.reporting hnext

end Watched

/-- All reads of `status` at one moment. -/
theorem Reading.status_reads (s : Control) (healthy : Bool) :
    Relation.ReflTransGen (fun a b => Reading.next s healthy a = some b) Reading.record
      (Reading.shown (s.view.status healthy).1 (s.view.status healthy).2) := by
  unfold Component.status
  cases hrecord : s.record with
  | none =>
    rw [show s.view.record = none from hrecord]
    exact .single (by unfold Reading.next; rw [hrecord])
  | some r =>
    rw [show s.view.record = some r from hrecord]
    have howner : Relation.ReflTransGen (fun a b => Reading.next s healthy a = some b)
        Reading.record (Reading.owner false r) := .single (by unfold Reading.next; rw [hrecord])
    dsimp only
    by_cases halive : r.pid ∈ s.view.alive
    · have hready := howner.tail (c := Reading.ready false r) (congrArg some (if_pos halive))
      rw [if_neg (not_not.2 halive)]
      by_cases hfile : s.view.ready = some r.pid
      · have hread : s.ready = some r.pid := hfile
        have hhealth := hready.tail (c := Reading.health false r) (congrArg some (if_pos hread))
        rw [if_neg (not_not.2 hfile)]
        refine hhealth.tail ?_
        cases healthy <;> rfl
      · have hread : s.ready ≠ some r.pid := hfile
        rw [if_pos hfile]
        exact hready.tail (congrArg some (if_neg hread))
    · rw [if_pos halive]
      exact howner.tail (congrArg some (if_neg halive))

namespace Watched

variable {w : Watched}

/-- **The status is the truth**, in every run in which each `terminate` succeeds, no two starts
share a time, and only processes that run report ready, each with its own pid. A process that has
run ever since a call of `status` began is what it shows: as loading until it has reported itself,
whatever an earlier process of its pid has left on file, and then by what `/health` answered. What
is shown as up has the pid of a process that ran when its owner was asked for. And a round of the
wait for a process that has run all the while ends the wait exactly if the process had reported when
the file was read, and `/health` answered. -/
theorem status_truthful {record : Option Record} {ready : Option ℕ}
    (h : Reach step Proper (init record ready) w) {l : Look} (hl : l ∈ w.looks) :
    (∀ state r, l.reading = .shown state r →
      (∀ r' ∈ l.steady, r = some r' ∧ state = l.truth r') ∧
        (state.isUp = true → ∃ r' ∈ l.running, r.map Record.pid = some r'.pid)) ∧
    ∀ up r, l.reading = .polled up r → r ∈ l.steady →
      (up = true ↔ r ∈ l.reported ∧ l.healthy = true) := by
  have hI : w.Inv := h.invariant (Inv.init record ready) fun _ _ _ hI hC hs => hI.step hC hs
  have hread := (hI.looks l hl).read
  unfold Look.Read at hread
  refine ⟨fun state r hshown => ?_, fun up r hpolled hr => ?_⟩
  · rw [hshown] at hread
    exact hread
  · rw [hpolled] at hread
    exact hread.1 hr

/-- The first process reports and dies, and the second one gets its pid. The status reads the record
of the second one, which reports after the ready file was read. -/
def pidTwice : List Step :=
  [.act (.call (.start "ci-tiny" 8100 "m")), .act (.go 0 (works 100 1)), .act (.ready 100),
    .act (.dies firstRecord), .act (.call (.start "mac-24gb" 8100 "m")), .act (.go 1 (works 100 2)),
    .status, .read 0 true, .read 0 true, .read 0 true, .act (.ready 100), .round secondRecord,
    .read 1 true, .read 1 true, .read 1 true]

def secondLooks : List Look :=
  [⟨.shown .loading (some secondRecord), [secondRecord], [secondRecord], [firstRecord], false⟩,
    ⟨.polled true secondRecord, [secondRecord], [secondRecord], [secondRecord, firstRecord], true⟩]

theorem status_truthful_pidTwice : ∃ w, runIf step Proper (init none none) pidTwice = some w ∧
    w.looks = secondLooks ∧ ∀ l ∈ secondLooks, ∀ state r, l.reading = .shown state r →
      ∀ r' ∈ l.steady, r = some r' ∧ state = l.truth r' := by
  have hrun : (runIf step Proper (init none none) pidTwice).map Watched.looks =
      some secondLooks := by
    decide +kernel
  obtain ⟨w, hw, hlooks⟩ := Option.map_eq_some_iff.1 hrun
  refine ⟨w, hw, hlooks, fun l hl state r hshown => ?_⟩
  exact ((status_truthful (.of_runIf hw) (hlooks ▸ hl)).1 state r hshown).1

end Watched

end AgentLab.Backend
