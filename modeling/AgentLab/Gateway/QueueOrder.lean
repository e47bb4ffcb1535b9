import Mathlib.Data.List.Sort
import AgentLab.Gateway.QueueInvariant

/-!
# The request queue over whole runs

What holds of `RequestQueue` in every reachable state, whatever the tasks do
(`requestQueue_any_use`), and what the order of the places adds: when each call of `slot` comes
after those of all earlier places (`InTurn`), the calls are in the order of the places, and so are
the entries into the block (`Arrived`).
-/

namespace AgentLab.Gateway

open AsyncLock AsyncLock.Lock Runs

namespace RequestQueue

variable {q q' : RequestQueue} {p r : PlaceId} {a : Action} {n : ℕ}

/-! ## Every use -/

theorem step_queueSize (hI : q.Inv) (h : q.step a = some q') : q'.queueSize = q.queueSize := by
  cases step_effect hI.flags h <;> rfl

theorem reachable_queueSize (h : Reachable step (new n) q) : q.queueSize = n := by
  induction h with
  | start => rfl
  | step hr _ hs ih => rw [step_queueSize (reachable_inv hr) hs, ih]

theorem Inv.active_zero_or_one (hI : q.Inv) : q.active = 0 ∨ q.active = 1 := by
  rw [hI.locked]
  split_ifs
  · exact .inr rfl
  · exact .inl rfl

theorem reserve_error_iff : q.reserve.2 = .error .queueFull ↔ q.full = true := by
  unfold reserve
  split_ifs with hf <;> simp [hf]

/-- A refused `reserve` changes nothing. -/
theorem reserve_of_error (h : q.reserve.2 = .error .queueFull) : q.reserve.1 = q := by
  unfold reserve
  rw [if_pos (reserve_error_iff.1 h)]

theorem Inv.full_iff (hI : q.Inv) : q.full = true ↔ q.active + q.waiting = 1 + q.queueSize := by
  have hb := hI.bound
  rw [full, decide_eq_true_eq]
  omega

/-- **No wake-up is lost.** -/
theorem Inv.none_queued (hI : q.Inv) (hrun : ∀ p, q.stage p ≠ some .running)
    (hwoken : ∀ w ∈ q.lock.waiters, w.done = false) (p : PlaceId) : q.stage p ≠ some .queued := by
  have hfree : q.lock.locked = false := by
    by_contra hc
    have hactive := hI.locked
    rw [if_pos (eq_true_of_ne_false hc), hI.active] at hactive
    obtain ⟨p, s, hp, hs⟩ := count_pos.1 (hactive ▸ Int.one_pos)
    rw [of_decide_eq_true hs] at hp
    exact hrun p hp
  intro hp
  rw [← hI.waiters, ids] at hp
  cases hws : q.lock.waiters with
  | nil => rw [hws] at hp; cases hp
  | cons w ws =>
    have hd := hI.lock.awake hfree w (by rw [hws]; rfl)
    rw [hwoken w (by rw [hws]; exact List.mem_cons_self)] at hd
    cases hd

/-- At most one place is running. -/
theorem Inv.running_unique (hI : q.Inv) (hp : q.stage p = some .running)
    (hr : q.stage r = some .running) : p = r := by
  by_contra hne
  -- after `p` has left the block, `r` would still be in it
  have hplaces : ({ q with places := q.places.set p ⟨false, .finished⟩ } : RequestQueue).places =
      q.places.set p ⟨false, .finished⟩ := rfl
  have hleft := count_set hp hplaces (· = .running)
  have hstage := (stage_set hp hplaces r).trans ((if_neg (Ne.symm hne)).trans hr)
  have hpos := (count_pos (P := (· = .running))).2 ⟨r, .running, hstage, rfl⟩
  rw [← hI.active] at hleft
  have := hI.active_zero_or_one
  simp at hleft hpos
  omega

/-- Leaving the block never fails: its task holds the lock. -/
theorem Inv.exit_isSome (hI : q.Inv) (hp : q.stage p = some .running) :
    (q.step (.exit p)).isSome := by
  have hpos : 0 < q.active := by
    rw [hI.active]
    exact count_pos.2 ⟨p, .running, hp, rfl⟩
  have hl : q.lock.locked = true := by
    have := hI.locked
    by_contra hc
    rw [if_neg hc] at this
    omega
  rw [RequestQueue.step, if_pos hp, exitSlot, release, if_pos hl]
  rfl

/-- A woken task always gets on. -/
theorem Inv.wake_isSome (hI : q.Inv) {w : Waiter PlaceId} (hw : w ∈ q.lock.waiters)
    (hd : w.done = true) : (q.step (.wake w.id)).isSome := by
  have hp : q.stage w.id = some .queued := (hI.waiters _).1 (List.mem_map_of_mem hw)
  rw [RequestQueue.step, if_pos hp, wakeSlot]
  have := resume_isSome hI.lock.nodup hw hd
  cases hc : q.lock.resume w.id with
  | none => rw [hc] at this; cases this
  | some lb => obtain ⟨l, b⟩ := lb; cases b <;> rfl

/-- **Any use of the queue.** In every reachable state of a queue for `n` waiting requests: at most
one task is in the block and `active` counts it; `waiting` counts the places that have neither
started nor left; the two never exceed `1 + n`, and `reserve` refuses exactly when they are equal,
changing nothing; the last `on_change` reported them; the block is entered in the order of the calls
of `slot`; and nobody stays blocked when nobody is inside and nobody is about to run. -/
theorem requestQueue_any_use (h : Reachable step (new n) q) :
    ((q.active = 0 ∨ q.active = 1) ∧ q.active = q.count (· = .running)) ∧
    q.waiting = q.count Stage.isWaiting ∧
    q.active + q.waiting ≤ 1 + n ∧
    (q.reserve.2 = .error .queueFull ↔ q.active + q.waiting = 1 + n) ∧
    (q.reserve.2 = .error .queueFull → q.reserve.1 = q) ∧
    (q.changes.getLast? = some (q.active, q.waiting) ∨
      q.changes = [] ∧ q.active = 0 ∧ q.waiting = 0) ∧
    (q.entered.Sublist q.called ∧
      ∀ p r, [p, r].Sublist q.called → r ∈ q.entered →
        [p, r].Sublist q.entered ∨ p ∉ q.entered ∧ p ∉ q.lock.live) ∧
    ((∀ p, q.stage p ≠ some .running) → (∀ w ∈ q.lock.waiters, w.done = false) →
      ∀ p, q.stage p ≠ some .queued) := by
  have hI := reachable_inv h
  have hn := reachable_queueSize h
  refine ⟨⟨hI.active_zero_or_one, hI.active⟩, hI.waiting, ?_, ?_, reserve_of_error, hI.reported,
    ⟨?_, fun p r hpr hr => hI.fifo.no_overtaking hI.nodup hpr hr⟩, hI.none_queued⟩
  · rw [← hn]; exact hI.bound
  · rw [reserve_error_iff, hI.full_iff, hn]
  · exact (List.sublist_append_left _ _).trans hI.fifo

/-- A queue for one waiting request: the first runs, the second waits and is cancelled, the third
waits and is woken by the first one's exit. -/
theorem requestQueue_any_use_run : ∃ q, Reachable step (new 1) q ∧ q.active + q.waiting ≤ 1 + 1 ∧
    q.entered = [0] := by
  have h : run step (new 1) [.reserve, .slot 0, .reserve, .slot 1, .cancel 1, .wake 1, .reserve,
      .reserve, .slot 2, .exit 0] = some
        ⟨1, ⟨false, [⟨2, .result, false⟩]⟩, 1, 0,
          [⟨false, .finished⟩, ⟨false, .cancelled⟩, ⟨true, .queued⟩],
          [(0, 1), (1, 0), (1, 1), (1, 0), (1, 1), (0, 1)], [0, 1, 2], [0]⟩ := by decide
  exact ⟨_, Reach.of_run h, (requestQueue_any_use (Reach.of_run h)).2.2.1, rfl⟩

/-! ## The order of the places -/

/-- The step is no call of `slot` while an earlier place has not called it yet. -/
def InTurn (q : RequestQueue) (a : Action) : Prop :=
  ∀ r, a = .slot r → ∀ p < r, q.stage p ≠ some .accepted

/-- The place has left, or its task has been cancelled and is about to leave. -/
def HasLeft (q : RequestQueue) (p : PlaceId) : Prop :=
  q.stage p = some .gaveUp ∨ q.stage p = some .cancelled ∨
    q.stage p = some .queued ∧ p ∉ q.lock.live

/-- The block was entered in the order of the places, and whoever is not among those that entered
before a later place has left. -/
structure Arrived (q : RequestQueue) : Prop where
  sorted : q.entered.Pairwise (· < ·)
  skipped : ∀ r ∈ q.entered, ∀ p < r, p ∈ q.entered ∨ q.HasLeft p

/-- The calls of `slot` were made in the order of the places, and no place is to call it that is
earlier than one that did. -/
structure Ordered (q : RequestQueue) : Prop where
  sorted : q.called.Pairwise (· < ·)
  joined : ∀ r ∈ q.called, ∀ p < r, q.stage p ≠ some .accepted
  ran : ∀ p, q.stage p = some .running ∨ q.stage p = some .finished → p ∈ q.entered

theorem stage_lt_length {s : Stage} (h : q.stage p = some s) : p < q.places.length := by
  obtain ⟨_, hpl⟩ := stage_eq_some.1 h
  exact (List.getElem?_eq_some_iff.1 hpl).1

theorem Inv.called_lt (hI : q.Inv) (hr : r ∈ q.called) : r < q.places.length := by
  obtain ⟨s, hs⟩ := Option.ne_none_iff_exists'.1 (hI.called r hr).1
  exact stage_lt_length hs

theorem Inv.entered_called (hI : q.Inv) (hr : r ∈ q.entered) : r ∈ q.called :=
  ((List.sublist_append_left _ _).trans hI.fifo).subset hr

theorem Ordered.new (n : ℕ) : (new n).Ordered where
  sorted := List.Pairwise.nil
  joined r hr := by cases hr
  ran p hp := by simp [stage, RequestQueue.new] at hp

/-- A step that moves a place to a stage that is not `accepted` leaves no new place to join. -/
theorem joined_set {s t : Stage} {w : Bool} (hs : q.stage p = some s)
    (h : q'.places = q.places.set p ⟨w, t⟩) (ht : t ≠ .accepted) {ids : List PlaceId}
    (hj : ∀ r ∈ ids, ∀ p < r, q.stage p ≠ some .accepted) :
    ∀ r ∈ ids, ∀ p < r, q'.stage p ≠ some .accepted := by
  intro r hr i hi
  rw [stage_set hs h]
  split_ifs
  · simpa using ht
  · exact hj r hr i hi

/-- A place that was called before one that calls now is an earlier one. -/
theorem Ordered.sorted_concat (hO : q.Ordered) (hI : q.Inv) (hs : q.stage p = some .accepted) :
    (q.called ++ [p]).Pairwise (· < ·) := by
  refine List.pairwise_append.2 ⟨hO.sorted, List.pairwise_singleton _ _, fun i hi j hj => ?_⟩
  rw [List.mem_singleton.1 hj]
  have hne : i ≠ p := fun e => (hI.called i hi).2 (e ▸ hs)
  exact Nat.lt_of_le_of_ne (Nat.le_of_not_lt fun hlt => hO.joined i hi p hlt hs) hne

theorem Effect.sorted (hI : q.Inv) (hO : q.Ordered) (h : q.Effect a q') :
    q'.called.Pairwise (· < ·) := by
  cases h with
  | refused | nothing | cancel | reserved | handed | cancelled | exit | gaveUp => exact hO.sorted
  | entered hs | suspended hs => exact hO.sorted_concat hI hs

theorem Effect.joined (hI : q.Inv) (hO : q.Ordered) (hT : q.InTurn a) (h : q.Effect a q') :
    ∀ r ∈ q'.called, ∀ p < r, q'.stage p ≠ some .accepted := by
  cases h with
  | refused | nothing | cancel => exact hO.joined
  | reserved =>
    intro r hr i hi
    rw [stage_append rfl, if_neg (Nat.ne_of_lt (Nat.lt_trans hi (hI.called_lt hr)))]
    exact hO.joined r hr i hi
  | @entered p _ hs | @suspended p _ hs =>
    refine joined_set hs rfl (by simp) fun r hr => ?_
    rcases List.mem_append.1 hr with hr | hr
    · exact hO.joined r hr
    · rw [List.mem_singleton.1 hr]
      exact hT p rfl
  | handed hs | cancelled hs | exit hs | gaveUp hs =>
    exact fun r hr => joined_set hs rfl (by simp) hO.joined r hr

/-- A place that moves on to a stage is among the entered ones, if it is one of those in the
block. -/
theorem ran_set {s t : Stage} {w : Bool} (hs : q.stage p = some s)
    (h : q'.places = q.places.set p ⟨w, t⟩) {entered : List PlaceId}
    (ht : t = .running ∨ t = .finished → p ∈ entered)
    (hran : ∀ r, q.stage r = some .running ∨ q.stage r = some .finished → r ∈ entered) :
    ∀ r, q'.stage r = some .running ∨ q'.stage r = some .finished → r ∈ entered := by
  intro r hr
  rw [stage_set hs h] at hr
  split_ifs at hr with hrp
  · rw [hrp]
    simpa using ht (hr.imp Option.some.inj Option.some.inj)
  · exact hran r hr

theorem Effect.ran (hO : q.Ordered) (h : q.Effect a q') :
    ∀ p, q'.stage p = some .running ∨ q'.stage p = some .finished → p ∈ q'.entered := by
  cases h with
  | refused | nothing | cancel => exact hO.ran
  | reserved =>
    intro r hr
    rw [stage_append rfl] at hr
    split_ifs at hr
    · simp at hr
    · exact hO.ran r hr
  | suspended hs | cancelled hs | gaveUp hs => exact ran_set hs rfl (by simp) hO.ran
  | exit hs => exact ran_set hs rfl (fun _ => hO.ran _ (.inl hs)) hO.ran
  | entered hs | handed hs =>
    exact ran_set hs rfl (fun _ => List.mem_append_right _ (List.mem_singleton_self _))
      fun r hr => List.mem_append_left _ (hO.ran r hr)

theorem Ordered.pair_sublist (hO : q.Ordered) (hp : p ∈ q.called) (hr : r ∈ q.called)
    (hlt : p < r) :
    [p, r].Sublist q.called := by
  have hsubperm : [p, r].Subperm q.called := by
    refine List.subperm_of_subset (by simpa using Nat.ne_of_lt hlt) fun i hi => ?_
    rcases List.mem_cons.1 hi with rfl | hi
    · exact hp
    · rwa [List.mem_singleton.1 hi]
  exact List.sublist_of_subperm_of_pairwise hsubperm (List.pairwise_pair.2 hlt) hO.sorted

/-- The block is entered in the order of the calls, and these are in the order of the places. -/
theorem Ordered.arrived (hI : q.Inv) (hO : q.Ordered) : q.Arrived where
  sorted := hO.sorted.sublist ((List.sublist_append_left _ _).trans hI.fifo)
  skipped r hr p hp := by
    refine or_iff_not_imp_left.2 fun hnot => ?_
    have hcalled := hI.entered_called hr
    obtain ⟨s, hs⟩ : ∃ s, q.stage p = some s := by
      rw [stage, List.getElem?_eq_getElem (Nat.lt_trans hp (hI.called_lt hcalled))]
      exact ⟨_, rfl⟩
    cases s with
    | accepted => exact absurd hs (hO.joined r hcalled p hp)
    | running => exact absurd (hO.ran p (.inl hs)) hnot
    | finished => exact absurd (hO.ran p (.inr hs)) hnot
    | cancelled => exact .inr (.inl hs)
    | gaveUp => exact .inl hs
    | queued =>
      refine .inr (.inr ⟨hs, fun hlive => ?_⟩)
      -- a live waiter has called `slot`, and before the later place
      have hpcalled := ((List.sublist_append_right _ _).trans hI.fifo).subset hlive
      have hpair : [p, r].Sublist q.called := hO.pair_sublist hpcalled hcalled hp
      rcases hI.fifo.no_overtaking hI.nodup hpair hr with hboth | ⟨-, hdead⟩
      · exact hnot (hboth.subset List.mem_cons_self)
      · exact hdead hlive

/-- **Arrival order.** In a run whose calls of `slot` are all in turn, the block is entered in the
order of the places, without those that have left. -/
theorem arrived_of_inTurn (h : Reach step InTurn (new n) q) : q.Arrived := by
  have key : q.Inv ∧ q.Ordered := by
    refine h.invariant (I := fun q => q.Inv ∧ q.Ordered) ⟨Inv.new n, Ordered.new n⟩ ?_
    intro s a s' hI hT hs
    have he := step_effect hI.1.flags hs
    exact ⟨he.inv hI.1, he.sorted hI.1 hI.2, he.joined hI.1 hI.2 hT, he.ran hI.2⟩
  exact key.2.arrived key.1

end RequestQueue

end AgentLab.Gateway
