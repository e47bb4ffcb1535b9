import AgentLab.Gateway.Capacity

/-!
# The order in which requests get the backend

A request takes its place in `chat`, but its turn at the lock only when its generator calls `slot`:
for `_complete` in the first step of the answer task, for `_stream` after a send and in another
task. So a later place can be first at the lock (`overtaking`). `granted_in_order` says that this is
the only way in which the order is lost, whether the lock is free or not. It comes from
`RequestQueue.arrived_of_inTurn`: what the system does to its queue is a run of the queue.
-/

namespace AgentLab.Gateway

open Config Python Runs

namespace System

variable {gw : Checks} {n : ℕ} {s s' : System}

/-- The place with which an action may call `slot`. -/
def callsSlot (s : System) : Action → Option PlaceId
  | .arrive _ _ => none
  | .act i e => s.requests[i]?.bind fun r => r.callsSlot e

/-- The step is no call of `slot` while an earlier place has not called it yet. -/
def InTurn (s : System) (a : Action) : Prop :=
  ∀ p ∈ s.callsSlot a, ∀ p' < p, s.queue.stage p' ≠ some .accepted

instance (s : System) (a : Action) : Decidable (s.InTurn a) := by
  unfold InTurn
  infer_instance

/-- A step of the system is at most one step of its queue, a call of `slot` only where `callsSlot`
says so. -/
theorem Inv.queue_step {a : Action} (hI : s.Inv gw) (h : s.step gw a = some s') :
    s'.queue = s.queue ∨ ∃ b, s.queue.step b = some s'.queue ∧
      ∀ p, b = .slot p → s.callsSlot a = some p := by
  cases a with
  | arrive header check =>
    cases h
    exact .inl rfl
  | act i e =>
    unfold System.step at h
    dsimp only at h
    split at h
    · cases h
    · next r hr =>
      obtain ⟨⟨q', r'⟩, hevent, h⟩ := Option.map_eq_some_iff.1 h
      cases h
      have hcalls : s.callsSlot (.act i e) = r.callsSlot e := by
        show s.requests[i]?.bind _ = _
        rw [hr]
        rfl
      rw [hcalls]
      cases ((hI.sound r (List.mem_of_getElem? hr)).step hI.queue hevent).2 with
      | same _ hq => exact .inl hq
      | moved p b _ _ _ hslot hq => exact .inr ⟨b, hq, hslot⟩
      | reserved _ _ hq _ => exact .inr ⟨.reserve, hq, nofun⟩

/-- **The system runs its queue.** -/
theorem queue_reach (h : Reach (step gw) InTurn (new n) s) :
    Reach RequestQueue.step RequestQueue.InTurn (RequestQueue.new n) s.queue := by
  refine h.simulate System.queue fun s a s' hr hturn hstep => ?_
  rcases (reachable_inv hr.reachable).queue_step hstep with hq | ⟨b, hq, hslot⟩
  · rw [hq]
    exact .start
  · refine .single ?_ hq
    intro p hb
    exact hturn p (hslot p hb)

/-- **Arrival order.** As long as every call of `slot` comes in turn, the backend is granted in the
order of the places, and whoever is passed over has left. -/
theorem granted_in_order (h : Reach (step gw) InTurn (new n) s) : s.queue.Arrived :=
  RequestQueue.arrived_of_inTurn (queue_reach h)

/-! ## In turn and out of turn -/

/-- A request runs; two more arrive, and their counts end in one iteration of the event loop. -/
def twoBehind : List Action :=
  accepted 0 false ++ [.act 0 (.task .start), .act 0 (.task (.gen .connected))] ++
  arrived 1 true ++ arrived 2 false ++ [.act 1 (.counted (.ok 9)), .act 2 (.counted (.ok 9))]

/-- The first request ends. -/
def firstEnds : List Action :=
  [.act 0 (.task (.gen (.stop .done))), .act 0 (.task (.gen (.closed none)))]

/-- The answer tasks in the order of the places: the stream sends its start and creates its
producer, the other one calls `slot`; only then the producer does. -/
def overtaking : List Action :=
  twoBehind ++ [.act 1 (.task .start), .act 1 (.task (.sent true)), .act 2 (.task .start)] ++
  [.act 1 (.task .produce)] ++ firstEnds ++ [.act 2 (.task (.gen .wake))]

/-- The first of the two is still waiting, while the second has been granted the backend. -/
theorem not_arrived_overtaking : ∃ s, run (step ciTinyChecks) (new 2) overtaking = some s ∧
    ¬ s.queue.Arrived := by
  have hrun : ((run (step ciTinyChecks) (new 2) overtaking).map fun s =>
      (s.queue.entered, s.queue.stage 1, s.queue.lock.live)) =
        some ([0, 2], some .queued, [1]) := by
    decide +kernel
  obtain ⟨s, hs, hview⟩ := Option.map_eq_some_iff.1 hrun
  obtain ⟨hentered, hview⟩ := Prod.mk.inj hview
  obtain ⟨hstage, hlive⟩ := Prod.mk.inj hview
  refine ⟨s, hs, fun harrived => ?_⟩
  have hskipped := harrived.skipped 2 (by rw [hentered]; decide) 1 (by decide)
  unfold RequestQueue.HasLeft at hskipped
  rw [hentered, hstage, hlive] at hskipped
  revert hskipped
  decide

/-- The producer calls `slot` before the second request arrives. -/
theorem granted_in_order_ciTiny : ∃ s : System, s.queue.entered = [0, 1] ∧
    s.queue.stage 2 = some .queued ∧ s.queue.Arrived := by
  have hrun : ((runIf (step ciTinyChecks) InTurn (new 2) (accepted 0 false ++
      [.act 0 (.task .start), .act 0 (.task (.gen .connected))] ++ accepted 1 true ++
      [.act 1 (.task .start), .act 1 (.task (.sent true)), .act 1 (.task .produce)] ++
      accepted 2 false ++ [.act 2 (.task .start)] ++ firstEnds ++
      [.act 1 (.task (.gen .wake))])).map fun s => (s.queue.entered, s.queue.stage 2)) =
        some ([0, 1], some .queued) := by
    decide +kernel
  obtain ⟨s, hs, hview⟩ := Option.map_eq_some_iff.1 hrun
  obtain ⟨hentered, hstage⟩ := Prod.mk.inj hview
  exact ⟨s, hentered, hstage, granted_in_order (Reach.of_runIf hs)⟩

end System

end AgentLab.Gateway
