import Mathlib.Data.Int.Notation
import AgentLab.Lib.AsyncLock
import AgentLab.Lib.Runs

/-!
# The request queue

The gateway's `queue.py`: `RequestQueue` and `Place`, with one action for what a task does between
two suspension points. A place is named by the number of places reserved before it.

The tasks that use the queue are in the model through the `stage` of each place: a task that is
suspended inside `slot(place)` calls nothing, so that place is not given up meanwhile; the code that
calls `give_up` does it after the task that entered `slot` has ended. `called` and `entered` are the
history that the theorems about order speak of.
-/

namespace AgentLab.Gateway

open AsyncLock

/-- The `n`-th place reserved. -/
abbrev PlaceId := ℕ

/-- What the task that holds a place has done with it. -/
inductive Stage
  | accepted
  /-- Suspended in `slot`, waiting for the lock. -/
  | queued
  /-- Inside the `slot` block. -/
  | running
  | finished
  /-- Cancelled while waiting in `slot`. -/
  | cancelled
  /-- Given up instead of entering `slot`. -/
  | gaveUp
  deriving DecidableEq, Repr

/-- Neither started nor left. -/
def Stage.isWaiting : Stage → Bool
  | .accepted | .queued => true
  | _ => false

/-- `Place`. Only `waiting` is a field of the source. -/
structure Place where
  waiting : Bool
  stage : Stage
  deriving DecidableEq, Repr

structure RequestQueue where
  queueSize : ℕ
  lock : Lock PlaceId
  waiting : ℤ
  active : ℤ
  /-- The places reserved so far. -/
  places : List Place
  /-- The calls of `on_change`, as (active, waiting). -/
  changes : List (ℤ × ℤ)
  /-- The places with which `slot` was called, in the order of the calls. -/
  called : List PlaceId
  /-- The places that entered the block, in that order. -/
  entered : List PlaceId
  deriving DecidableEq, Repr

inductive QueueFull
  | queueFull
  deriving DecidableEq, Repr

namespace RequestQueue

/-- `__init__`. -/
def new (queueSize : ℕ) : RequestQueue := ⟨queueSize, Lock.new, 0, 0, [], [], [], []⟩

/-- `_changed`. -/
def changed (q : RequestQueue) : RequestQueue :=
  { q with changes := q.changes ++ [(q.active, q.waiting)] }

def full (q : RequestQueue) : Bool := 1 + (q.queueSize : ℤ) ≤ q.active + q.waiting

/-- `place.waiting`. -/
def placeWaiting (q : RequestQueue) (p : PlaceId) : Bool :=
  (q.places[p]?.map Place.waiting).getD false

def stage (q : RequestQueue) (p : PlaceId) : Option Stage := q.places[p]?.map Place.stage

def setStage (q : RequestQueue) (p : PlaceId) (s : Stage) : RequestQueue :=
  { q with places := q.places.modify p fun pl => { pl with stage := s } }

/-- `_leave`. -/
def leave (q : RequestQueue) (p : PlaceId) (start : Bool) : RequestQueue :=
  let q₁ := if q.placeWaiting p then
      { q with places := q.places.modify p fun pl => { pl with waiting := false },
               waiting := q.waiting - 1 }
    else q
  let q₂ := if start then { q₁ with active := q₁.active + 1 } else q₁
  if start || q.placeWaiting p then q₂.changed else q₂

/-- `Place.give_up`. -/
def giveUp (q : RequestQueue) (p : PlaceId) : RequestQueue := q.leave p false

def reserve (q : RequestQueue) : RequestQueue × Except QueueFull PlaceId :=
  if q.full then (q, .error .queueFull)
  else
    let q' : RequestQueue :=
      { q with waiting := q.waiting + 1, places := q.places ++ [⟨true, .accepted⟩] }
    (q'.changed, .ok q.places.length)

/-- `slot`, from the return of `acquire` to the body of the block. -/
def startSlot (q : RequestQueue) (p : PlaceId) : RequestQueue :=
  { (q.leave p true).setStage p .running with entered := q.entered ++ [p] }

/-- The call of `slot`, up to the body of the block or to the suspension in `acquire`. -/
def callSlot (q : RequestQueue) (p : PlaceId) : RequestQueue :=
  match q.lock.acquire p with
  | (l, true) => { q with lock := l, called := q.called ++ [p] }.startSlot p
  | (l, false) => { q with lock := l, called := q.called ++ [p] }.setStage p .queued

/-- The next step of a task in `acquire`: into the block, or out of `slot` with `CancelledError`. -/
def wakeSlot (q : RequestQueue) (p : PlaceId) : Option RequestQueue :=
  match q.lock.resume p with
  | none => none
  | some (l, true) => some ({ q with lock := l }.startSlot p)
  | some (l, false) => some (({ q with lock := l }.giveUp p).setStage p .cancelled)

/-- `Task.cancel` of the task that waits in `slot`. -/
def cancelSlot (q : RequestQueue) (p : PlaceId) : RequestQueue := { q with lock := q.lock.cancel p }

/-- `slot`, from the end of the block on, however it ended. -/
def exitSlot (q : RequestQueue) (p : PlaceId) : Option RequestQueue :=
  match q.lock.release with
  | none => none
  | some l => some (({ q with active := q.active - 1, lock := l }.changed).setStage p .finished)

/-- What a task can do to the queue. -/
inductive Action
  | reserve
  | slot (p : PlaceId)
  | cancel (p : PlaceId)
  | wake (p : PlaceId)
  | exit (p : PlaceId)
  | giveUp (p : PlaceId)
  deriving DecidableEq, Repr

def step (q : RequestQueue) : Action → Option RequestQueue
  | .reserve => some q.reserve.1
  | .slot p => if q.stage p = some .accepted then some (q.callSlot p) else none
  | .cancel p => if q.stage p = some .queued then some (q.cancelSlot p) else none
  | .wake p => if q.stage p = some .queued then q.wakeSlot p else none
  | .exit p => if q.stage p = some .running then q.exitSlot p else none
  | .giveUp p =>
    match q.stage p with
    | none | some .queued => none
    | some .accepted => some ((q.giveUp p).setStage p .gaveUp)
    | some _ => some (q.giveUp p)

/-! ## What a step does -/

/-- Each flag says whether its place is waiting. -/
def Flags (q : RequestQueue) : Prop := ∀ pl ∈ q.places, pl.waiting = pl.stage.isWaiting

/-- What the steps of the queue do when the flags are right: the place that changed, the counters,
and the operation of the lock. -/
inductive Effect (q : RequestQueue) : Action → RequestQueue → Prop
  | refused (hf : q.full = true) : Effect q .reserve q
  | reserved (hf : q.full = false) :
      Effect q .reserve
        { q with
          waiting := q.waiting + 1
          places := q.places ++ [⟨true, .accepted⟩]
          changes := q.changes ++ [(q.active, q.waiting + 1)] }
  | entered {p : PlaceId} {l : Lock PlaceId} (hs : q.stage p = some .accepted)
      (hl : q.lock.acquire p = (l, true)) :
      Effect q (.slot p)
        { q with
          lock := l
          waiting := q.waiting - 1
          active := q.active + 1
          places := q.places.set p ⟨false, .running⟩
          changes := q.changes ++ [(q.active + 1, q.waiting - 1)]
          called := q.called ++ [p]
          entered := q.entered ++ [p] }
  | suspended {p : PlaceId} {l : Lock PlaceId} (hs : q.stage p = some .accepted)
      (hl : q.lock.acquire p = (l, false)) :
      Effect q (.slot p)
        { q with
          lock := l
          places := q.places.set p ⟨true, .queued⟩
          called := q.called ++ [p] }
  | cancel {p : PlaceId} (hs : q.stage p = some .queued) : Effect q (.cancel p) (q.cancelSlot p)
  | handed {p : PlaceId} {l : Lock PlaceId} (hs : q.stage p = some .queued)
      (hl : q.lock.resume p = some (l, true)) :
      Effect q (.wake p)
        { q with
          lock := l
          waiting := q.waiting - 1
          active := q.active + 1
          places := q.places.set p ⟨false, .running⟩
          changes := q.changes ++ [(q.active + 1, q.waiting - 1)]
          entered := q.entered ++ [p] }
  | cancelled {p : PlaceId} {l : Lock PlaceId} (hs : q.stage p = some .queued)
      (hl : q.lock.resume p = some (l, false)) :
      Effect q (.wake p)
        { q with
          lock := l
          waiting := q.waiting - 1
          places := q.places.set p ⟨false, .cancelled⟩
          changes := q.changes ++ [(q.active, q.waiting - 1)] }
  | exit {p : PlaceId} {l : Lock PlaceId} (hs : q.stage p = some .running)
      (hl : q.lock.release = some l) :
      Effect q (.exit p)
        { q with
          lock := l
          active := q.active - 1
          places := q.places.set p ⟨false, .finished⟩
          changes := q.changes ++ [(q.active - 1, q.waiting)] }
  | gaveUp {p : PlaceId} (hs : q.stage p = some .accepted) :
      Effect q (.giveUp p)
        { q with
          waiting := q.waiting - 1
          places := q.places.set p ⟨false, .gaveUp⟩
          changes := q.changes ++ [(q.active, q.waiting - 1)] }
  | nothing {p : PlaceId} {s : Stage} (hs : q.stage p = some s) (hw : s.isWaiting = false) :
      Effect q (.giveUp p) q

variable {q q' : RequestQueue} {p r : PlaceId} {a : Action} {s : Stage}

theorem stage_eq_some : q.stage p = some s ↔ ∃ w, q.places[p]? = some ⟨w, s⟩ := by
  unfold stage
  rw [Option.map_eq_some_iff]
  constructor
  · rintro ⟨⟨w, _⟩, hpl, rfl⟩; exact ⟨w, hpl⟩
  · rintro ⟨w, hpl⟩; exact ⟨_, hpl, rfl⟩

theorem Flags.getElem? (hF : q.Flags) (hs : q.stage p = some s) :
    q.places[p]? = some ⟨s.isWaiting, s⟩ := by
  obtain ⟨w, hpl⟩ := stage_eq_some.1 hs
  have hw : w = s.isWaiting := hF ⟨w, s⟩ (List.mem_of_getElem? hpl)
  rw [hpl, hw]

theorem modify_eq_set {f : Place → Place} {pl : Place} {ps : List Place} (h : ps[p]? = some pl) :
    ps.modify p f = ps.set p (f pl) := by
  rw [List.modify_eq_set_getElem?, h]; rfl

theorem setStage_eq {w : Bool} (h : q.places[p]? = some ⟨w, s⟩) (t : Stage) :
    q.setStage p t = { q with places := q.places.set p ⟨w, t⟩ } := by
  unfold setStage; rw [modify_eq_set h]

theorem leave_eq (h : q.places[p]? = some ⟨true, s⟩) (start : Bool) :
    q.leave p start =
      { q with
        waiting := q.waiting - 1
        active := if start then q.active + 1 else q.active
        places := q.places.set p ⟨false, s⟩
        changes := q.changes ++ [(if start then q.active + 1 else q.active, q.waiting - 1)] } := by
  have hw : q.placeWaiting p = true := by unfold placeWaiting; rw [h]; rfl
  unfold leave
  rw [hw, if_pos rfl, modify_eq_set h]
  cases start <;> rfl

theorem getElem?_set_place {pl pl' : Place} {ps : List Place} (h : ps[p]? = some pl) :
    (ps.set p pl')[p]? = some pl' := by
  rw [List.getElem?_set_self (List.getElem?_eq_some_iff.1 h).1]

theorem startSlot_eq (h : q.places[p]? = some ⟨true, s⟩) :
    q.startSlot p =
      { q with
        waiting := q.waiting - 1
        active := q.active + 1
        places := q.places.set p ⟨false, .running⟩
        changes := q.changes ++ [(q.active + 1, q.waiting - 1)]
        entered := q.entered ++ [p] } := by
  unfold startSlot
  rw [leave_eq h, setStage_eq (w := false) (s := s) (getElem?_set_place h), List.set_set]
  rfl

theorem giveUp_setStage_eq (h : q.places[p]? = some ⟨true, s⟩) (t : Stage) :
    (q.giveUp p).setStage p t =
      { q with
        waiting := q.waiting - 1
        places := q.places.set p ⟨false, t⟩
        changes := q.changes ++ [(q.active, q.waiting - 1)] } := by
  unfold giveUp
  rw [leave_eq h, setStage_eq (w := false) (s := s) (getElem?_set_place h), List.set_set]
  rfl

/-- Giving up a place that is not waiting does nothing. -/
theorem giveUp_eq_self (h : q.places[p]? = some ⟨false, s⟩) : q.giveUp p = q := by
  have hw : q.placeWaiting p = false := by unfold placeWaiting; rw [h]; rfl
  unfold giveUp leave
  rw [hw]
  rfl

theorem wake_effect (hF : q.Flags) (h : q.step (.wake p) = some q') : q.Effect (.wake p) q' := by
  rw [step] at h
  split_ifs at h with hs
  have hpl := hF.getElem? hs
  unfold wakeSlot at h
  split at h
  · cases h
  · next l hl =>
    rw [startSlot_eq (s := .queued) (by exact hpl), Option.some.injEq] at h
    rw [← h]
    exact .handed hs hl
  · next l hl =>
    rw [giveUp_setStage_eq (s := .queued) (by exact hpl), Option.some.injEq] at h
    rw [← h]
    exact .cancelled hs hl

theorem giveUp_effect (hF : q.Flags) (h : q.step (.giveUp p) = some q') :
    q.Effect (.giveUp p) q' := by
  rw [step] at h
  split at h
  · cases h
  · cases h
  · next hs =>
    rw [giveUp_setStage_eq (hF.getElem? hs), Option.some.injEq] at h
    rw [← h]
    exact .gaveUp hs
  · next s hq hacc hs =>
    have hw : s.isWaiting = false := by
      cases s <;> first | rfl | exact absurd rfl hq | exact absurd rfl hacc
    have hpl := hF.getElem? hs
    rw [hw] at hpl
    rw [giveUp_eq_self hpl, Option.some.injEq] at h
    rw [← h]
    exact .nothing hs hw

/-- The step function and `Effect` agree. -/
theorem step_effect (hF : q.Flags) (h : q.step a = some q') : q.Effect a q' := by
  cases a with
  | reserve =>
    rw [step, Option.some.injEq] at h
    subst h
    unfold reserve
    cases hf : q.full with
    | true => rw [if_pos rfl]; exact .refused hf
    | false => rw [if_neg (by simp)]; exact .reserved hf
  | slot p =>
    rw [step] at h
    split_ifs at h with hs
    rw [Option.some.injEq] at h
    subst h
    have hpl := hF.getElem? hs
    unfold callSlot
    split
    · next l hl =>
      rw [startSlot_eq (s := .accepted) (by exact hpl)]
      exact .entered hs hl
    · next l hl =>
      rw [setStage_eq (s := .accepted) (by exact hpl)]
      exact .suspended hs hl
  | cancel p =>
    rw [step] at h
    split_ifs at h with hs
    rw [Option.some.injEq] at h
    subst h
    exact .cancel hs
  | wake p => exact wake_effect hF h
  | exit p =>
    rw [step] at h
    split_ifs at h with hs
    have hpl := hF.getElem? hs
    unfold exitSlot at h
    split at h
    · cases h
    · next l hl =>
      rw [setStage_eq (s := .running) (by exact hpl), Option.some.injEq] at h
      rw [← h]
      exact .exit hs hl
  | giveUp p => exact giveUp_effect hF h

end RequestQueue

end AgentLab.Gateway
