import Mathlib.Data.List.Basic
import Mathlib.Data.List.Nodup

/-!
# The lock of an event loop

The lock of `asyncio` (CPython 3.14, `asyncio.locks.Lock`) over waiters named by any type `ι`. One
operation is what runs between two suspension points of a task:

* `acquire` takes a free lock at once when every waiter is cancelled, and queues a future otherwise;
* `release` frees the lock and gives the first waiter's future its result, unless it is done;
* `cancel` is `Task.cancel` of a task that awaits its future: a pending future is cancelled, a done
  one leaves the task a `CancelledError` for its next step;
* `resume` is the next step of a task whose future is done: it takes the lock, or drops out and
  passes the wake-up on.

`Lock.Inv` is what all four keep: a result is only ever with the first waiter of a free lock, and
the first waiter of a free lock is done (no wake-up is lost). `Fifo` says that those who took the
lock and those who still may stand in the order in which they asked.
-/

namespace AsyncLock

variable {ι : Type*}

/-- A waiter's future. -/
inductive Fut
  | pending
  | result
  | cancelled
  deriving DecidableEq, Repr

/-- A task waiting in `acquire`; `mustCancel` is the task's `_must_cancel`. -/
structure Waiter (ι : Type*) where
  id : ι
  fut : Fut
  mustCancel : Bool
  deriving DecidableEq, Repr

/-- Whether the future is done, so that the loop runs the task. -/
def Waiter.done (w : Waiter ι) : Bool := w.fut ≠ .pending

/-- Whether the waiter may still get the lock. -/
def Waiter.alive (w : Waiter ι) : Bool := w.fut ≠ .cancelled && !w.mustCancel

/-- `Task.cancel` of the waiting task. -/
def Waiter.cancel (w : Waiter ι) : Waiter ι :=
  if w.fut = .pending then { w with fut := .cancelled } else { w with mustCancel := true }

structure Lock (ι : Type*) where
  locked : Bool
  waiters : List (Waiter ι)
  deriving DecidableEq, Repr

/-- A new lock. -/
def Lock.new : Lock ι := ⟨false, []⟩

/-- Wake the waiter, unless it is set to run already. -/
def Waiter.wake (w : Waiter ι) : Waiter ι :=
  if w.fut = .pending then { w with fut := .result } else w

/-- `_wake_up_first`. -/
def wakeUpFirst (ws : List (Waiter ι)) : List (Waiter ι) := ws.modifyHead Waiter.wake

/-- The call of `acquire`, up to its return (`true`) or its suspension (`false`). -/
def Lock.acquire (l : Lock ι) (i : ι) : Lock ι × Bool :=
  if l.locked = false ∧ ∀ w ∈ l.waiters, w.fut = .cancelled then ({ l with locked := true }, true)
  else ({ l with waiters := l.waiters ++ [⟨i, .pending, false⟩] }, false)

/-- `release`; `none` is its `RuntimeError`. -/
def Lock.release (l : Lock ι) : Option (Lock ι) :=
  if l.locked then some ⟨false, wakeUpFirst l.waiters⟩ else none

/-! ## One waiter -/

@[simp] theorem Waiter.wake_id (w : Waiter ι) : w.wake.id = w.id := by
  unfold Waiter.wake; split_ifs <;> rfl

@[simp] theorem Waiter.wake_alive (w : Waiter ι) : w.wake.alive = w.alive := by
  unfold Waiter.wake Waiter.alive; split_ifs with h <;> simp [h]

theorem Waiter.wake_done (w : Waiter ι) : w.wake.done = true := by
  unfold Waiter.wake Waiter.done; split_ifs with h <;> simp [h]

@[simp] theorem Waiter.cancel_id (w : Waiter ι) : w.cancel.id = w.id := by
  unfold Waiter.cancel; split_ifs <;> rfl

theorem Waiter.cancel_fut_ne_result {w : Waiter ι} (h : w.fut ≠ .result) :
    w.cancel.fut ≠ .result := by
  unfold Waiter.cancel; split_ifs
  · simp
  · exact h

theorem Waiter.cancel_done (w : Waiter ι) : w.cancel.done = true := by
  unfold Waiter.cancel Waiter.done; split_ifs with h <;> simp [h]

@[simp] theorem Waiter.cancel_alive (w : Waiter ι) : w.cancel.alive = false := by
  unfold Waiter.cancel Waiter.alive; split_ifs <;> simp

/-! ## Waking up the first waiter -/

@[simp] theorem wakeUpFirst_map_id (ws : List (Waiter ι)) :
    (wakeUpFirst ws).map Waiter.id = ws.map Waiter.id := by
  cases ws <;> simp [wakeUpFirst]

@[simp] theorem wakeUpFirst_tail (ws : List (Waiter ι)) : (wakeUpFirst ws).tail = ws.tail := by
  cases ws <;> simp [wakeUpFirst]

@[simp] theorem filter_alive_wakeUpFirst (ws : List (Waiter ι)) :
    ((wakeUpFirst ws).filter Waiter.alive).map Waiter.id =
      (ws.filter Waiter.alive).map Waiter.id := by
  cases ws with
  | nil => rfl
  | cons w ws => cases h : w.alive <;> simp [wakeUpFirst, h]

/-- Waking up the first waiter leaves it done. -/
theorem done_of_mem_head?_wakeUpFirst (ws : List (Waiter ι)) :
    ∀ w ∈ (wakeUpFirst ws).head?, w.done = true := by
  intro w hw
  cases ws with
  | nil => simp [wakeUpFirst] at hw
  | cons v ws =>
    rw [wakeUpFirst, List.modifyHead_cons, List.head?_cons, Option.mem_some] at hw
    rw [← hw]; exact v.wake_done

variable [DecidableEq ι]

/-- `Task.cancel` of the task `i`, suspended in `acquire`. -/
def Lock.cancel (l : Lock ι) (i : ι) : Lock ι :=
  { l with waiters := l.waiters.map fun w => if w.id = i then w.cancel else w }

/-- The next step of the task `i`, once its future is done: `acquire` returns (`true`) or raises
`CancelledError` (`false`). -/
def Lock.resume (l : Lock ι) (i : ι) : Option (Lock ι × Bool) :=
  match l.waiters.find? (·.id = i) with
  | none => none
  | some w =>
    let ws := l.waiters.filter (·.id ≠ i)
    if w.fut = .pending then none
    else if w.alive then some (⟨true, ws⟩, true)
    else some (⟨l.locked, if l.locked then ws else wakeUpFirst ws⟩, false)

/-- The waiters that may still get the lock, in the order of the deque. -/
def Lock.live (l : Lock ι) : List ι := (l.waiters.filter Waiter.alive).map Waiter.id

/-- The waiters, in the order of the deque. -/
def Lock.ids (l : Lock ι) : List ι := l.waiters.map Waiter.id

/-- What every operation keeps. -/
structure Lock.Inv (l : Lock ι) : Prop where
  nodup : l.ids.Nodup
  /-- Only the first waiter can have a result. -/
  tail : ∀ w ∈ l.waiters.tail, w.fut ≠ .result
  /-- A taken lock has woken nobody. -/
  held : l.locked = true → ∀ w ∈ l.waiters, w.fut ≠ .result
  /-- The first waiter of a free lock is about to run. -/
  awake : l.locked = false → ∀ w ∈ l.waiters.head?, w.done = true

namespace Lock

variable {l l' : Lock ι} {i j : ι} {called entered : List ι}

/-! ## What each operation does -/

omit [DecidableEq ι] in
theorem acquire_true (h : l.acquire i = (l', true)) :
    l.locked = false ∧ (∀ w ∈ l.waiters, w.fut = .cancelled) ∧ l' = { l with locked := true } := by
  unfold acquire at h
  split_ifs at h with hc
  · exact ⟨hc.1, hc.2, (Prod.mk.inj h).1.symm⟩
  · simp at h

omit [DecidableEq ι] in
theorem acquire_false (h : l.acquire i = (l', false)) :
    ¬(l.locked = false ∧ ∀ w ∈ l.waiters, w.fut = .cancelled) ∧
      l' = { l with waiters := l.waiters ++ [⟨i, .pending, false⟩] } := by
  unfold acquire at h
  split_ifs at h with hc
  · simp at h
  · exact ⟨hc, (Prod.mk.inj h).1.symm⟩

omit [DecidableEq ι] in
theorem release_eq (h : l.release = some l') :
    l.locked = true ∧ l' = ⟨false, wakeUpFirst l.waiters⟩ := by
  unfold release at h
  split_ifs at h with hl
  · exact ⟨hl, (Option.some.inj h).symm⟩

/-- A resumed task was a waiter whose future is done, and it is no waiter any more. -/
theorem resume_eq {b : Bool} (h : l.resume i = some (l', b)) :
    ∃ w ∈ l.waiters, w.id = i ∧ w.done = true ∧ b = w.alive ∧
      l' = if b then ⟨true, l.waiters.filter (·.id ≠ i)⟩
        else ⟨l.locked, if l.locked then l.waiters.filter (·.id ≠ i)
          else wakeUpFirst (l.waiters.filter (·.id ≠ i))⟩ := by
  unfold resume at h
  split at h
  · cases h
  · next w hw =>
    have hm := List.mem_of_find?_eq_some hw
    have hi : w.id = i := by simpa using List.find?_some hw
    dsimp only at h
    split_ifs at h with hp ha hl
    · obtain ⟨rfl, rfl⟩ := Prod.mk.inj (Option.some.inj h)
      exact ⟨w, hm, hi, by simp [Waiter.done, hp], ha.symm, by simp⟩
    all_goals
      obtain ⟨rfl, rfl⟩ := Prod.mk.inj (Option.some.inj h)
      exact ⟨w, hm, hi, by simp [Waiter.done, hp], by simpa using ha, by simp [hl]⟩

/-- A task whose future is done can be resumed. -/
theorem resume_isSome {w : Waiter ι} (hn : l.ids.Nodup) (hw : w ∈ l.waiters)
    (hd : w.done = true) : (l.resume w.id).isSome := by
  unfold resume
  have hf : l.waiters.find? (·.id = w.id) = some w := by
    cases hc : l.waiters.find? (·.id = w.id) with
    | none => simpa using List.find?_eq_none.1 hc w hw
    | some v =>
      have hv : v.id = w.id := by simpa using List.find?_some hc
      exact congrArg some (List.inj_on_of_nodup_map hn (List.mem_of_find?_eq_some hc) hw hv)
  rw [hf]
  dsimp only
  have hp : w.fut ≠ .pending := by simpa [Waiter.done] using hd
  rw [if_neg hp]
  split_ifs <;> rfl

/-! ## Who waits -/

omit [DecidableEq ι] in
theorem ids_acquire_true (h : l.acquire i = (l', true)) : l'.ids = l.ids := by
  obtain ⟨-, -, rfl⟩ := acquire_true h; rfl

omit [DecidableEq ι] in
theorem ids_acquire_false (h : l.acquire i = (l', false)) : l'.ids = l.ids ++ [i] := by
  obtain ⟨-, rfl⟩ := acquire_false h; simp [ids]

omit [DecidableEq ι] in
theorem ids_release (h : l.release = some l') : l'.ids = l.ids := by
  obtain ⟨-, rfl⟩ := release_eq h; exact wakeUpFirst_map_id _

@[simp] theorem ids_cancel (l : Lock ι) (i : ι) : (l.cancel i).ids = l.ids := by
  unfold ids Lock.cancel
  rw [List.map_map]
  refine List.map_congr_left fun w _ => ?_
  show (if w.id = i then w.cancel else w).id = w.id
  split_ifs <;> simp

theorem ids_resume {b : Bool} (h : l.resume i = some (l', b)) :
    l'.ids = l.ids.filter (· ≠ i) := by
  have hf : (l.waiters.filter (·.id ≠ i)).map Waiter.id = l.ids.filter (· ≠ i) := by
    unfold ids; rw [List.filter_map]; rfl
  obtain ⟨-, -, -, -, -, rfl⟩ := resume_eq h
  rw [← hf]
  split_ifs
  · rfl
  · rfl
  · exact wakeUpFirst_map_id _

/-! ## The invariant -/

omit [DecidableEq ι] in
theorem Inv.new : (Lock.new : Lock ι).Inv :=
  ⟨List.nodup_nil, by simp [Lock.new], by simp [Lock.new], by simp [Lock.new]⟩

omit [DecidableEq ι] in
/-- A waiter with a result is the first, and nobody holds the lock. -/
theorem Inv.head_of_result (hI : l.Inv) {w : Waiter ι} (hw : w ∈ l.waiters)
    (hr : w.fut = .result) : ∃ ws, l.waiters = w :: ws ∧ l.locked = false := by
  have hl : l.locked = false := by
    by_contra hc
    exact hI.held (by simpa using hc) w hw hr
  cases hws : l.waiters with
  | nil => rw [hws] at hw; cases hw
  | cons v ws =>
    rw [hws] at hw
    rcases List.mem_cons.1 hw with rfl | hm
    · exact ⟨ws, rfl, hl⟩
    · exact absurd hr (hI.tail w (by rw [hws]; exact hm))

omit [DecidableEq ι] in
theorem Inv.acquire (hI : l.Inv) (hi : i ∉ l.ids) : (l.acquire i).1.Inv := by
  rcases h : l.acquire i with ⟨l', b⟩
  cases b with
  | true =>
    obtain ⟨-, hall, rfl⟩ := acquire_true h
    exact ⟨hI.nodup, hI.tail, fun _ w hw hr => by simp [hall w hw] at hr, by simp⟩
  | false =>
    obtain ⟨hc, rfl⟩ := acquire_false h
    refine ⟨?_, ?_, ?_, ?_⟩
    · simpa [ids, List.nodup_append] using ⟨hI.nodup, fun w hw e => hi (by
        rw [← e]; exact List.mem_map_of_mem hw)⟩
    · intro w hw
      cases hws : l.waiters with
      | nil => simp [hws] at hw
      | cons v ws =>
        rw [hws, List.cons_append, List.tail_cons, List.mem_append, List.mem_singleton] at hw
        rcases hw with hw | rfl
        · exact hI.tail w (by rw [hws]; exact hw)
        · simp
    · intro hl w hw
      rcases List.mem_append.1 hw with hw | hw
      · exact hI.held hl w hw
      · rw [List.mem_singleton.1 hw]; simp
    · intro hl w hw
      cases hws : l.waiters with
      | nil => exact absurd ⟨hl, by simp [hws]⟩ hc
      | cons v ws =>
        rw [hws, List.cons_append, List.head?_cons] at hw
        exact hI.awake hl w (by rw [hws]; exact hw)

omit [DecidableEq ι] in
theorem Inv.release (hI : l.Inv) (h : l.release = some l') : l'.Inv := by
  obtain ⟨-, rfl⟩ := release_eq h
  refine ⟨by simpa [ids] using hI.nodup, by simpa using hI.tail, by simp, fun _ => ?_⟩
  exact done_of_mem_head?_wakeUpFirst _

theorem Inv.cancel (hI : l.Inv) : (l.cancel i).Inv := by
  have hf : ∀ w : Waiter ι, w.fut ≠ .result → (if w.id = i then w.cancel else w).fut ≠ .result := by
    intro w hw
    split_ifs
    · exact w.cancel_fut_ne_result hw
    · exact hw
  refine ⟨?_, ?_, ?_, ?_⟩
  · rw [ids_cancel]; exact hI.nodup
  · intro w hw
    rw [Lock.cancel, ← List.map_tail] at hw
    obtain ⟨v, hv, rfl⟩ := List.mem_map.1 hw
    exact hf v (hI.tail v hv)
  · intro hl w hw
    obtain ⟨v, hv, rfl⟩ := List.mem_map.1 hw
    exact hf v (hI.held hl v hv)
  · intro hl w hw
    rw [Lock.cancel, List.head?_map] at hw
    obtain ⟨v, hv, rfl⟩ := Option.map_eq_some_iff.1 hw
    split_ifs
    · exact v.cancel_done
    · exact hI.awake hl v hv

/-- A task that takes the lock on waking up was the first waiter. -/
theorem Inv.resume_true (hI : l.Inv) (h : l.resume i = some (l', true)) :
    ∃ w ws, l.waiters = w :: ws ∧ w.id = i ∧ w.alive = true ∧ l.locked = false ∧
      l' = ⟨true, ws⟩ := by
  obtain ⟨w, hw, hi, hd, ha, rfl⟩ := resume_eq h
  have hr : w.fut = .result := by
    have h1 : w.fut ≠ .pending := by simpa [Waiter.done] using hd
    have h2 : w.fut ≠ .cancelled := by
      intro hc; rw [Waiter.alive, hc] at ha; simp at ha
    cases hf : w.fut <;> simp_all
  obtain ⟨ws, hws, hl⟩ := hI.head_of_result hw hr
  refine ⟨w, ws, hws, hi, ha.symm, hl, ?_⟩
  have hn := hI.nodup
  rw [ids, hws, List.map_cons, List.nodup_cons] at hn
  have hne : ∀ v ∈ ws, v.id ≠ i := fun v hv e =>
    hn.1 (by rw [hi, ← e]; exact List.mem_map_of_mem hv)
  rw [if_pos rfl, hws, List.filter_cons, if_neg (by simp [hi])]
  rw [List.filter_eq_self.2 fun v hv => by simpa using hne v hv]

/-- A task that is cancelled on waking up only leaves the deque. -/
theorem resume_false (h : l.resume i = some (l', false)) :
    (∃ w ∈ l.waiters, w.id = i ∧ w.alive = false) ∧ l'.locked = l.locked ∧
      l'.live = ((l.waiters.filter (·.id ≠ i)).filter Waiter.alive).map Waiter.id := by
  obtain ⟨w, hw, hi, -, ha, rfl⟩ := resume_eq h
  refine ⟨⟨w, hw, hi, ha.symm⟩, rfl, ?_⟩
  rw [if_neg (by simp)]
  unfold live
  split_ifs
  · rfl
  · exact filter_alive_wakeUpFirst _

theorem Inv.resume {b : Bool} (hI : l.Inv) (h : l.resume i = some (l', b)) : l'.Inv := by
  have hnd : (l.waiters.filter (·.id ≠ i)).map Waiter.id |>.Nodup :=
    hI.nodup.sublist ((List.filter_sublist).map _)
  cases b with
  | true =>
    obtain ⟨w, ws, hws, hi, -, hl, rfl⟩ := hI.resume_true h
    have ht : ∀ v ∈ ws, v.fut ≠ .result := fun v hv => hI.tail v (by rw [hws]; exact hv)
    have hn := hI.nodup
    rw [ids, hws, List.map_cons, List.nodup_cons] at hn
    exact ⟨hn.2, fun v hv => ht v (List.mem_of_mem_tail hv), fun _ => ht, by simp⟩
  | false =>
    have htail : ∀ v ∈ (l.waiters.filter (·.id ≠ i)).tail, v.fut ≠ .result := by
      intro v hv
      cases hws : l.waiters with
      | nil => simp [hws] at hv
      | cons w ws =>
        refine hI.tail v ?_
        rw [hws, List.filter_cons] at hv
        rw [hws, List.tail_cons]
        split_ifs at hv
        · exact List.mem_of_mem_filter hv
        · exact List.mem_of_mem_filter (List.mem_of_mem_tail hv)
    obtain ⟨-, -, -, -, -, rfl⟩ := resume_eq h
    rw [if_neg (by simp)]
    cases hl : l.locked with
    | true =>
      refine ⟨hnd, htail, fun _ v hv => ?_, by simp⟩
      exact hI.held hl v (List.mem_of_mem_filter hv)
    | false =>
      refine ⟨?_, ?_, by simp, fun _ => done_of_mem_head?_wakeUpFirst _⟩
      · show ((wakeUpFirst _).map Waiter.id).Nodup
        rw [wakeUpFirst_map_id]; exact hnd
      · show ∀ v ∈ (wakeUpFirst _).tail, v.fut ≠ .result
        rw [wakeUpFirst_tail]; exact htail

/-! ## First in, first out -/

/-- Cancelling a task can only take it from those who may still get the lock. -/
theorem live_cancel_sublist (l : Lock ι) (i : ι) : (l.cancel i).live.Sublist l.live := by
  unfold live Lock.cancel
  induction l.waiters with
  | nil => exact List.Sublist.slnil
  | cons w ws ih =>
    rw [List.map_cons]
    by_cases hi : w.id = i
    · rw [if_pos hi, List.filter_cons, if_neg (by simp), List.filter_cons]
      split_ifs
      · exact ih.cons _
      · exact ih
    · rw [if_neg hi, List.filter_cons, List.filter_cons]
      split_ifs
      · exact ih.cons_cons _
      · exact ih

omit [DecidableEq ι] in
theorem live_release (h : l.release = some l') : l'.live = l.live := by
  obtain ⟨-, rfl⟩ := release_eq h
  exact filter_alive_wakeUpFirst _

/-- Those who took the lock, then those who may still get it, stand in the order of the calls of
`acquire`. -/
def Fifo (l : Lock ι) (called entered : List ι) : Prop := (entered ++ l.live).Sublist called

omit [DecidableEq ι] in
theorem Fifo.acquire_true (hF : l.Fifo called entered) (h : l.acquire i = (l', true)) :
    l'.Fifo (called ++ [i]) (entered ++ [i]) := by
  obtain ⟨-, hall, rfl⟩ := Lock.acquire_true h
  have hl : l.live = [] := by
    unfold live
    rw [List.filter_eq_nil_iff.2 fun w hw => by simp [Waiter.alive, hall w hw], List.map_nil]
  unfold Fifo at *
  rw [hl, List.append_nil] at hF
  show (entered ++ [i] ++ l.live).Sublist (called ++ [i])
  rw [hl, List.append_nil]
  exact hF.append (List.Sublist.refl _)

omit [DecidableEq ι] in
theorem Fifo.acquire_false (hF : l.Fifo called entered) (h : l.acquire i = (l', false)) :
    l'.Fifo (called ++ [i]) entered := by
  obtain ⟨-, rfl⟩ := Lock.acquire_false h
  unfold Fifo at *
  have : live { l with waiters := l.waiters ++ [⟨i, .pending, false⟩] } = l.live ++ [i] := by
    simp [live, Waiter.alive]
  rw [this, ← List.append_assoc]
  exact hF.append (List.Sublist.refl _)

theorem Fifo.cancel (hF : l.Fifo called entered) : (l.cancel i).Fifo called entered :=
  ((List.Sublist.refl _).append (l.live_cancel_sublist i)).trans hF

omit [DecidableEq ι] in
theorem Fifo.release (hF : l.Fifo called entered) (h : l.release = some l') :
    l'.Fifo called entered := by
  unfold Fifo; rw [live_release h]; exact hF

theorem Fifo.resume_true (hI : l.Inv) (hF : l.Fifo called entered)
    (h : l.resume i = some (l', true)) : l'.Fifo called (entered ++ [i]) := by
  obtain ⟨w, ws, hws, rfl, ha, -, rfl⟩ := hI.resume_true h
  unfold Fifo at *
  have : l.live = w.id :: live ⟨true, ws⟩ := by simp [live, hws, ha]
  rw [this] at hF
  simpa using hF

theorem Fifo.resume_false (hF : l.Fifo called entered) (h : l.resume i = some (l', false)) :
    l'.Fifo called entered := by
  obtain ⟨-, -, hl⟩ := Lock.resume_false h
  unfold Fifo
  rw [hl]
  exact ((List.Sublist.refl _).append ((List.filter_sublist.filter _).map _)).trans hF

omit [DecidableEq ι] in
/-- In a list without duplicates, two members of a sublist stand in it as in the list. -/
theorem pair_sublist_of_sublist {xs ys : List ι} (h : xs.Sublist ys) (hn : ys.Nodup)
    (hij : [i, j].Sublist ys) (hi : i ∈ xs) (hj : j ∈ xs) : [i, j].Sublist xs := by
  induction h with
  | slnil => cases hi
  | cons a h ih =>
    rw [List.nodup_cons] at hn
    cases hij with
    | cons _ hij => exact ih hn.2 hij hi hj
    | cons_cons _ _ => exact absurd (h.subset hi) hn.1
  | cons_cons a h ih =>
    rw [List.nodup_cons] at hn
    cases hij with
    | cons _ hij =>
      have hia : i ≠ a := fun e => hn.1 (e ▸ hij.subset (by simp))
      have hja : j ≠ a := fun e => hn.1 (e ▸ hij.subset (by simp))
      exact (ih hn.2 hij (List.mem_of_ne_of_mem hia hi) (List.mem_of_ne_of_mem hja hj)).cons a
    | cons_cons _ hj' =>
      have hji : j ≠ i := fun e => hn.1 (e ▸ hj'.subset (by simp))
      exact (List.singleton_sublist.2 (List.mem_of_ne_of_mem hji hj)).cons_cons i

omit [DecidableEq ι] in
/-- **No overtaking.** If `j` took the lock and `i` asked before it, `i` took it before `j` or
cannot get it any more. -/
theorem Fifo.no_overtaking (hF : l.Fifo called entered) (hn : called.Nodup)
    (hij : [i, j].Sublist called) (hj : j ∈ entered) :
    [i, j].Sublist entered ∨ (i ∉ entered ∧ i ∉ l.live) := by
  unfold Fifo at hF
  have he : entered.Sublist called := (List.sublist_append_left _ _).trans hF
  by_cases hi : i ∈ entered
  · exact .inl (pair_sublist_of_sublist he hn hij hi hj)
  · refine .inr ⟨hi, fun hl => ?_⟩
    have h := pair_sublist_of_sublist hF hn hij (List.mem_append_right _ hl)
      (List.mem_append_left _ hj)
    have hd := List.nodup_append.1 (hn.sublist hF)
    rw [List.sublist_append_iff] at h
    obtain ⟨xs, ys, hxy, hx, hy⟩ := h
    cases xs with
    | nil =>
      rw [List.nil_append] at hxy
      exact hd.2.2 j hj j (hy.subset (by simp [← hxy])) rfl
    | cons a xs =>
      rw [List.cons_append, List.cons.injEq] at hxy
      exact hi (hx.subset (by simp [hxy.1]))

end Lock

end AsyncLock
