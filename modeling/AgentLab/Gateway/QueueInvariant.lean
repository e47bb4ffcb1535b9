import Mathlib.Tactic.SplitIfs
import AgentLab.Gateway.Queue

/-!
# The invariant of the request queue

`Inv` ties the counters, the flags and the lock of `RequestQueue` to the stages of the places, and
the history to the lock's waiters. Each part is kept by every `Effect`; `reachable_inv` is the
result for a whole run.
-/

namespace AgentLab.Gateway

open AsyncLock AsyncLock.Lock Runs

namespace RequestQueue

/-- The places that satisfy `P`. -/
def count (q : RequestQueue) (P : Stage → Bool) : ℤ := q.places.countP fun pl => P pl.stage

structure Inv (q : RequestQueue) : Prop where
  flags : q.Flags
  lock : q.lock.Inv
  waiters : ∀ p, p ∈ q.lock.ids ↔ q.stage p = some .queued
  waiting : q.waiting = q.count Stage.isWaiting
  active : q.active = q.count (· = .running)
  locked : q.active = if q.lock.locked then 1 else 0
  bound : q.active + q.waiting ≤ 1 + q.queueSize
  reported : q.changes.getLast? = some (q.active, q.waiting) ∨
    q.changes = [] ∧ q.active = 0 ∧ q.waiting = 0
  called : ∀ p ∈ q.called, q.stage p ≠ none ∧ q.stage p ≠ some .accepted
  nodup : q.called.Nodup
  fifo : q.lock.Fifo q.called q.entered

variable {q q' : RequestQueue} {p r : PlaceId} {a : Action} {s t : Stage} {w : Bool}

/-! ## Changing one place -/

theorem stage_set (hs : q.stage p = some s) (h : q'.places = q.places.set p ⟨w, t⟩)
    (r : PlaceId) : q'.stage r = if r = p then some t else q.stage r := by
  obtain ⟨_, hpl⟩ := stage_eq_some.1 hs
  have hlt := (List.getElem?_eq_some_iff.1 hpl).1
  unfold stage
  rw [h, List.getElem?_set]
  by_cases hr : p = r
  · rw [if_pos hr, if_pos hlt, if_pos hr.symm]; rfl
  · rw [if_neg hr, if_neg (Ne.symm hr)]

theorem stage_append (h : q'.places = q.places ++ [⟨w, t⟩]) (r : PlaceId) :
    q'.stage r = if r = q.places.length then some t else q.stage r := by
  unfold stage
  rw [h]
  rcases Nat.lt_trichotomy r q.places.length with hr | hr | hr
  · rw [List.getElem?_append_left hr, if_neg (Nat.ne_of_lt hr)]
  · subst hr; simp
  · rw [if_neg (Nat.ne_of_gt hr), List.getElem?_eq_none (by simp; omega),
      List.getElem?_eq_none (Nat.le_of_lt hr)]

theorem stage_length (q : RequestQueue) : q.stage q.places.length = none := by
  simp [stage]

theorem count_set (hs : q.stage p = some s) (h : q'.places = q.places.set p ⟨w, t⟩)
    (P : Stage → Bool) :
    q'.count P = q.count P - (if P s then 1 else 0) + (if P t then 1 else 0) := by
  obtain ⟨_, hpl⟩ := stage_eq_some.1 hs
  obtain ⟨hlt, hget⟩ := List.getElem?_eq_some_iff.1 hpl
  unfold count
  rw [h, List.countP_set hlt, hget]
  have hpos : P s = true → 0 < q.places.countP fun pl => P pl.stage := fun hP =>
    List.countP_pos_iff.2 ⟨_, List.mem_of_getElem? hpl, hP⟩
  dsimp only
  cases hst : P s
  · cases P t <;> simp
  · have := hpos hst
    cases P t <;> simp <;> omega

theorem count_append (h : q'.places = q.places ++ [⟨w, t⟩]) (P : Stage → Bool) :
    q'.count P = q.count P + (if P t then 1 else 0) := by
  unfold count
  rw [h, List.countP_append, List.countP_singleton]
  split_ifs <;> simp

theorem count_pos {P : Stage → Bool} :
    0 < q.count P ↔ ∃ p s, q.stage p = some s ∧ P s = true := by
  unfold count
  rw [Int.natCast_pos, List.countP_pos_iff]
  constructor
  · rintro ⟨⟨w, s⟩, hpl, hP⟩
    obtain ⟨p, hp⟩ := List.mem_iff_getElem?.1 hpl
    exact ⟨p, s, stage_eq_some.2 ⟨w, hp⟩, hP⟩
  · rintro ⟨p, s, hs, hP⟩
    obtain ⟨w, hpl⟩ := stage_eq_some.1 hs
    exact ⟨_, List.mem_of_getElem? hpl, hP⟩

theorem Flags.set (hF : q.Flags) (h : q'.places = q.places.set p ⟨t.isWaiting, t⟩) :
    q'.Flags := by
  intro pl hpl
  rw [h] at hpl
  rcases List.mem_or_eq_of_mem_set hpl with hm | rfl
  · exact hF pl hm
  · rfl

theorem Flags.append (hF : q.Flags) (h : q'.places = q.places ++ [⟨t.isWaiting, t⟩]) :
    q'.Flags := by
  intro pl hpl
  rw [h, List.mem_append, List.mem_singleton] at hpl
  rcases hpl with hm | rfl
  · exact hF pl hm
  · rfl

/-! ## The parts of the invariant -/

theorem Effect.flags (hF : q.Flags) (h : q.Effect a q') : q'.Flags := by
  cases h with
  | refused | nothing | cancel => exact hF
  | reserved => exact hF.append (t := .accepted) rfl
  | entered | handed => exact hF.set (t := .running) rfl
  | suspended => exact hF.set (t := .queued) rfl
  | cancelled => exact hF.set (t := .cancelled) rfl
  | exit => exact hF.set (t := .finished) rfl
  | gaveUp => exact hF.set (t := .gaveUp) rfl

theorem Effect.lock (hI : q.Inv) (h : q.Effect a q') : q'.lock.Inv := by
  have hnew : ∀ {p}, q.stage p = some .accepted → p ∉ q.lock.ids := fun hs hm => by
    rw [hI.waiters, hs] at hm; cases hm
  cases h with
  | refused | nothing | reserved | gaveUp => exact hI.lock
  | cancel => exact hI.lock.cancel
  | entered hs hl | suspended hs hl =>
    have := hI.lock.acquire (hnew hs)
    rwa [hl] at this
  | handed _ hl | cancelled _ hl => exact hI.lock.resume hl
  | exit _ hl => exact hI.lock.release hl

/-- Who is suspended in `slot` after a step that moves one place and removes it from the waiters. -/
theorem waiters_moved (hI : q.Inv) (hs : q.stage p = some s)
    (h : q'.places = q.places.set p ⟨w, t⟩) (ht : t ≠ .queued) {ids : List PlaceId}
    (hids : ∀ r, r ∈ ids ↔ r ∈ q.lock.ids ∧ r ≠ p) (r : PlaceId) :
    r ∈ ids ↔ q'.stage r = some .queued := by
  rw [hids, stage_set hs h, hI.waiters]
  by_cases hr : r = p
  · rw [if_pos hr]
    exact ⟨fun hc => absurd hr hc.2, fun hc => absurd (Option.some.inj hc) ht⟩
  · rw [if_neg hr]
    exact ⟨And.left, fun hc => ⟨hc, hr⟩⟩

theorem Effect.waiters (hI : q.Inv) (h : q.Effect a q') (r : PlaceId) :
    r ∈ q'.lock.ids ↔ q'.stage r = some .queued := by
  have hold : ∀ {p s}, q.stage p = some s → s ≠ .queued → ∀ r,
      r ∈ q.lock.ids ↔ r ∈ q.lock.ids ∧ r ≠ p := by
    refine fun hs hst r => ⟨fun hm => ⟨hm, fun e => ?_⟩, And.left⟩
    rw [hI.waiters, e, hs] at hm
    exact hst (Option.some.inj hm)
  cases h with
  | refused | nothing => exact hI.waiters r
  | cancel => rw [cancelSlot, ids_cancel]; exact hI.waiters r
  | reserved =>
    rw [stage_append rfl]
    by_cases hr : r = q.places.length
    · rw [if_pos hr, hI.waiters, hr, stage_length]; simp
    · rw [if_neg hr]; exact hI.waiters r
  | entered hs hl =>
    refine waiters_moved hI hs rfl (by simp) (fun r => ?_) r
    rw [← hold hs (by simp) r, ids_acquire_true hl]
  | @suspended p _ hs hl =>
    rw [stage_set hs rfl, ids_acquire_false hl, List.mem_append, List.mem_singleton, hI.waiters]
    by_cases hr : r = p
    · simp [hr]
    · simp [hr]
  | handed hs hl | cancelled hs hl =>
    refine waiters_moved hI hs rfl (by simp) (fun r => ?_) r
    rw [ids_resume hl, List.mem_filter, decide_eq_true_eq]
  | exit hs hl =>
    refine waiters_moved hI hs rfl (by simp) (fun r => ?_) r
    rw [← hold hs (by simp) r, ids_release hl]
  | gaveUp hs => exact waiters_moved hI hs rfl (by simp) (hold hs (by simp)) r

theorem Effect.waiting (hI : q.Inv) (h : q.Effect a q') :
    q'.waiting = q'.count Stage.isWaiting := by
  have hw := hI.waiting
  cases h with
  | refused | nothing | cancel => exact hw
  | reserved => rw [count_append rfl]; simp [Stage.isWaiting, hw]
  | entered hs | suspended hs | handed hs | cancelled hs | exit hs | gaveUp hs =>
    rw [count_set hs rfl]; simp [Stage.isWaiting, hw]

theorem Effect.active (hI : q.Inv) (h : q.Effect a q') :
    q'.active = q'.count (· = .running) := by
  have ha := hI.active
  cases h with
  | refused | nothing | cancel => exact ha
  | reserved => rw [count_append rfl]; simp [ha]
  | entered hs | suspended hs | handed hs | cancelled hs | exit hs | gaveUp hs =>
    rw [count_set hs rfl]; simp [ha]

theorem Effect.locked (hI : q.Inv) (h : q.Effect a q') :
    q'.active = if q'.lock.locked then 1 else 0 := by
  have hL := hI.locked
  cases h with
  | refused | nothing | cancel | reserved | gaveUp => exact hL
  | entered _ hl =>
    obtain ⟨hfree, -, rfl⟩ := acquire_true hl
    rw [hfree] at hL; simp [hL]
  | suspended _ hl =>
    obtain ⟨-, rfl⟩ := acquire_false hl
    exact hL
  | handed _ hl =>
    obtain ⟨_, _, -, -, -, hfree, rfl⟩ := hI.lock.resume_true hl
    rw [hfree] at hL; simp [hL]
  | cancelled _ hl =>
    obtain ⟨-, hl, -⟩ := resume_false hl
    rw [hl]; exact hL
  | exit _ hl =>
    obtain ⟨htaken, rfl⟩ := release_eq hl
    rw [htaken] at hL; simp [hL]

theorem Effect.bound (hI : q.Inv) (h : q.Effect a q') :
    q'.active + q'.waiting ≤ 1 + q'.queueSize := by
  have hb := hI.bound
  cases h with
  | refused | nothing | cancel | suspended => exact hb
  | reserved hf =>
    have : q.active + q.waiting < 1 + q.queueSize := by simpa [full] using hf
    show q.active + (q.waiting + 1) ≤ 1 + q.queueSize
    omega
  | entered | handed =>
    show q.active + 1 + (q.waiting - 1) ≤ 1 + q.queueSize
    omega
  | cancelled | gaveUp =>
    show q.active + (q.waiting - 1) ≤ 1 + q.queueSize
    omega
  | exit =>
    show q.active - 1 + q.waiting ≤ 1 + q.queueSize
    omega

theorem Effect.reported (hI : q.Inv) (h : q.Effect a q') :
    q'.changes.getLast? = some (q'.active, q'.waiting) ∨
      q'.changes = [] ∧ q'.active = 0 ∧ q'.waiting = 0 := by
  cases h with
  | refused | nothing | cancel | suspended => exact hI.reported
  | reserved | entered | handed | cancelled | exit | gaveUp => exact .inl (by simp)

/-- A place with which `slot` was called stays one. -/
theorem called_set (hI : q.Inv) (hs : q.stage p = some s)
    (h : q'.places = q.places.set p ⟨w, t⟩) (ht : t ≠ .accepted) :
    ∀ r ∈ q.called, q'.stage r ≠ none ∧ q'.stage r ≠ some .accepted := by
  intro r hr
  rw [stage_set hs h]
  split_ifs
  · simpa using ht
  · exact hI.called r hr

theorem Effect.called (hI : q.Inv) (h : q.Effect a q') :
    ∀ r ∈ q'.called, q'.stage r ≠ none ∧ q'.stage r ≠ some .accepted := by
  cases h with
  | refused | nothing | cancel => exact hI.called
  | reserved =>
    intro r hr
    have h := hI.called r hr
    rw [stage_append rfl]
    split_ifs with hlen
    · rw [hlen, stage_length] at h; simp at h
    · exact h
  | entered hs | suspended hs =>
    intro r hr
    rcases List.mem_append.1 hr with hr | hr
    · exact called_set hI hs rfl (by simp) r hr
    · rw [stage_set hs rfl, if_pos (List.mem_singleton.1 hr)]; simp
  | handed hs | cancelled hs | exit hs | gaveUp hs =>
    exact fun r hr => called_set (q := q) hI hs rfl (by simp) r hr

theorem Effect.nodup (hI : q.Inv) (h : q.Effect a q') : q'.called.Nodup := by
  cases h with
  | refused | nothing | cancel | reserved | handed | cancelled | exit | gaveUp => exact hI.nodup
  | entered hs | suspended hs =>
    refine List.nodup_append.2 ⟨hI.nodup, List.nodup_singleton _, fun r hr s hs' e => ?_⟩
    rw [e, List.mem_singleton.1 hs'] at hr
    exact (hI.called _ hr).2 hs

theorem Effect.fifo (hI : q.Inv) (h : q.Effect a q') : q'.lock.Fifo q'.called q'.entered := by
  cases h with
  | refused | nothing | reserved | gaveUp => exact hI.fifo
  | cancel => exact hI.fifo.cancel
  | entered _ hl => exact hI.fifo.acquire_true hl
  | suspended _ hl => exact hI.fifo.acquire_false hl
  | handed _ hl => exact hI.fifo.resume_true hI.lock hl
  | cancelled _ hl => exact hI.fifo.resume_false hl
  | exit _ hl => exact hI.fifo.release hl

/-! ## Runs -/

theorem Inv.new (queueSize : ℕ) : (new queueSize).Inv where
  flags := by intro pl hpl; cases hpl
  lock := Lock.Inv.new
  waiters p := by simp [RequestQueue.new, Lock.new, ids, stage]
  waiting := rfl
  active := rfl
  locked := rfl
  bound := by show (0 : ℤ) + 0 ≤ 1 + queueSize; omega
  reported := .inr ⟨rfl, rfl, rfl⟩
  called p hp := by cases hp
  nodup := List.nodup_nil
  fifo := List.Sublist.slnil

theorem Effect.inv (hI : q.Inv) (h : q.Effect a q') : q'.Inv :=
  ⟨h.flags hI.flags, h.lock hI, h.waiters hI, h.waiting hI, h.active hI, h.locked hI, h.bound hI,
    h.reported hI, h.called hI, h.nodup hI, h.fifo hI⟩

theorem Inv.step (hI : q.Inv) (h : q.step a = some q') : q'.Inv :=
  (step_effect hI.flags h).inv hI

/-- **The invariant holds in every reachable state.** -/
theorem reachable_inv {queueSize : ℕ} (h : Reachable step (new queueSize) q) : q.Inv :=
  h.invariant (Inv.new queueSize) fun _ _ _ hI _ hs => hI.step hs

end RequestQueue

end AgentLab.Gateway
