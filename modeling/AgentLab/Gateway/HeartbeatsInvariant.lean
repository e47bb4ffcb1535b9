import AgentLab.Gateway.Heartbeats

/-!
# Heartbeats lose nothing

What was yielded, what is in the queue, what the producer holds and what the source still will
produce are, in this order, the chunks and how the source ends, as long as the generator is not left
(`Active`); after that what was yielded stays a prefix (`Left`). A timeout touches none of these.

`weight` counts the steps that are still to come: in a run that nobody stops, each step but those of
the timer takes one off, so that the generator is done after at most as many steps as the chunks and
the timeouts pay for, and some step of the program or the source is always possible.
-/

namespace AgentLab.Gateway

namespace Heartbeats

open Runs

variable {α ε : Type} {chunks : List α} {ending : Option ε} {s s' : State α ε}

/-! ## The invariant -/

/-- Everything that the source puts through the queue. -/
def stream (chunks : List α) (ending : Option ε) : List (Item α ε) :=
  chunks.map .chunk ++ [lastItem ending]

/-- What is still to be put once the producer is there. -/
def Producer.pending (rest : List α) (ending : Option ε) : Producer α ε → List (Item α ε)
  | .absent | .ready | .pulling => stream rest ending
  | .putting (.chunk c) _ => .chunk c :: stream rest ending
  | .putting item _ => [item]
  | .closing | .finished => []

/-- Whether the generator is in its loop. -/
def Consumer.active : Consumer ε → Bool
  | .joining _ | .gone _ => false
  | _ => true

/-- The timeouts that have not led to a comment yet. -/
def Consumer.due : Consumer ε → ℕ
  | .waiting _ true _ => 1
  | _ => 0

/-- How far the source is, by where the producer is. -/
def SourceOk : Producer α ε → Source → Prop
  | .absent, source | .ready, source => source = .unstarted
  | .pulling, source | .closing, source | .putting (.chunk _) _, source => source = .opened
  | .putting _ _, source => source = .closed
  | .finished, source => source ≠ .opened

/-- A future that is not set is waited for with reason. -/
structure Futures (s : State α ε) : Prop where
  getter : ∀ woken, s.consumer = .waiting woken false false → (woken = true ↔ s.queue ≠ [])
  putter : ∀ item woken, s.producer = .putting item woken →
    (woken = true ↔ s.queue.length < QUEUE_SIZE)

/-- The generator is in its loop. -/
structure Active (chunks : List α) (ending : Option ε) (s : State α ε) : Prop where
  active : s.consumer.active = true
  running : s.cancelled = false ∧ s.producer ≠ .closing
  absent : s.producer = .absent ↔ s.consumer = .created
  flow : s.yielded.map .chunk ++ s.queue ++ s.producer.pending s.rest ending = stream chunks ending
  timer : s.fired = s.comments + s.consumer.due
  futures : Futures s

/-- The outcome, once the loop is left. -/
def Consumer.left : Consumer ε → Option (Outcome ε)
  | .joining outcome | .gone outcome => some outcome
  | _ => none

/-- The outcome that is the source's. -/
def sourceOutcome : Option ε → Outcome ε
  | none => .returned
  | some exc => .raised exc

/-- What an outcome says of what was yielded. -/
def OutcomeOk (chunks : List α) (ending : Option ε) (yielded : List α) : Outcome ε → Prop
  | .returned => yielded = chunks ∧ ending = none
  | .raised exc => yielded = chunks ∧ ending = some exc
  | _ => yielded <+: chunks

/-- The generator is out of its loop. -/
structure Left (chunks : List α) (ending : Option ε) (s : State α ε) : Prop where
  outcome : ∃ outcome, s.consumer.left = some outcome ∧ OutcomeOk chunks ending s.yielded outcome
  gone : ∀ outcome, s.consumer = .gone outcome → s.producer = .finished ∨ s.producer = .absent
  timer : s.comments ≤ s.fired ∧ s.fired ≤ s.comments + 1

structure Inv (chunks : List α) (ending : Option ε) (s : State α ε) : Prop where
  capacity : s.queue.length ≤ QUEUE_SIZE
  source : SourceOk s.producer s.source
  phase : Active chunks ending s ∨ Left chunks ending s

/-! ## The stream -/

/-- The last item is after all chunks. -/
theorem stream_last : ∀ {ys : List α} {chunks : List α} {item : Item α ε} {q : List (Item α ε)},
    ys.map .chunk ++ item :: q = stream chunks ending → (∀ c, item ≠ .chunk c) →
      ys = chunks ∧ item = lastItem ending ∧ q = []
  | [], [], item, q, h, _ => by
    cases h
    exact ⟨rfl, rfl, rfl⟩
  | [], c :: chunks, item, q, h, hitem => by
    cases h
    exact absurd rfl (hitem c)
  | y :: ys, [], item, q, h, _ => by
    have hlen := congrArg List.length h
    simp [stream] at hlen
  | y :: ys, c :: chunks, item, q, h, hitem => by
    have h' : Item.chunk y :: (ys.map .chunk ++ item :: q) =
        Item.chunk c :: stream chunks ending := h
    injection h' with hy hrest
    cases hy
    obtain ⟨rfl, hlast⟩ := stream_last hrest hitem
    exact ⟨rfl, hlast⟩

/-- What was yielded is a prefix. -/
theorem yielded_ordered : ∀ {ys : List α} {chunks : List α} {q : List (Item α ε)},
    ys.map .chunk ++ q = stream chunks ending → ys <+: chunks
  | [], chunks, q, _ => List.nil_prefix
  | y :: ys, [], q, h => by
    have h' : Item.chunk y :: (ys.map .chunk ++ q) = [lastItem ending] := h
    injection h' with hy
    cases ending <;> cases hy
  | y :: ys, c :: chunks, q, h => by
    have h' : Item.chunk y :: (ys.map .chunk ++ q) = Item.chunk c :: stream chunks ending := h
    injection h' with hy hrest
    cases hy
    exact (List.prefix_cons_inj _).2 (yielded_ordered hrest)

theorem lastItem_ne_chunk (c : α) : lastItem ending ≠ Item.chunk c := by
  cases ending <;> exact nofun

/-! ## The operations of the queue -/

theorem pending_putting (item : Item α ε) (woken : Bool) (rest : List α) :
    (Producer.putting item woken).pending rest ending = item :: item.next.pending rest ending := by
  cases item <;> rfl

@[simp] theorem pending_wake (p : Producer α ε) (rest : List α) :
    p.wake.pending rest ending = p.pending rest ending := by
  cases p with
  | putting item woken => cases item <;> rfl
  | _ => rfl

/-- A producer that does not wait in `put` is where it was. -/
theorem wake_eq {p q : Producer α ε} (hq : ∀ item woken, q ≠ .putting item woken) :
    p.wake = q ↔ p = q := by
  cases p with
  | putting item woken =>
    exact ⟨fun h => absurd h.symm (hq item true), fun h => absurd h.symm (hq item woken)⟩
  | _ => exact Iff.rfl

@[simp] theorem active_wake (c : Consumer ε) : c.wake.active = c.active := by
  unfold Consumer.wake
  split <;> rfl

@[simp] theorem due_wake (c : Consumer ε) : c.wake.due = c.due := by
  unfold Consumer.wake
  split <;> rfl

theorem wake_eq_created {c : Consumer ε} : c.wake = .created ↔ c = .created := by
  unfold Consumer.wake
  split
  · exact ⟨nofun, nofun⟩
  · exact Iff.rfl

theorem wake_left (c : Consumer ε) : c.wake.left = c.left := by
  unfold Consumer.wake
  split <;> rfl

theorem next_ne_absent (item : Item α ε) : item.next ≠ .absent := by
  cases item <;> exact nofun

theorem sourceOk_wake {p : Producer α ε} {source : Source} :
    SourceOk p.wake source ↔ SourceOk p source := by
  cases p with
  | putting item woken => cases item <;> exact Iff.rfl
  | _ => exact Iff.rfl

theorem sourceOk_last {item : Item α ε} {woken : Bool} {source : Source}
    (hitem : ∀ c, item ≠ .chunk c) : SourceOk (.putting item woken) source ↔ source = .closed := by
  cases item with
  | chunk c => exact absurd rfl (hitem c)
  | ended | error exc => exact Iff.rfl

theorem put_capacity (item : Item α ε) (h : s.queue.length ≤ QUEUE_SIZE) :
    (s.put item).queue.length ≤ QUEUE_SIZE := by
  unfold State.put
  split_ifs with hfull
  · exact h
  · show (s.queue ++ [item]).length ≤ QUEUE_SIZE
    rw [List.length_append, List.length_singleton]
    omega

/-- `put` keeps the order, and wakes who waits. -/
theorem put_active {item : Item α ε} (hactive : s.consumer.active = true)
    (hcreated : s.consumer ≠ .created) (hcancelled : s.cancelled = false)
    (hflow : s.yielded.map .chunk ++ s.queue ++ item :: item.next.pending s.rest ending =
      stream chunks ending)
    (htimer : s.fired = s.comments + s.consumer.due)
    (hgetter : ∀ woken, s.consumer = .waiting woken false false →
      (woken = true ↔ s.queue ≠ [])) : Active chunks ending (s.put item) := by
  unfold State.put
  split_ifs with hfull
  · refine ⟨hactive, ⟨hcancelled, nofun⟩, ⟨nofun, fun h => absurd h hcreated⟩, ?_, htimer,
      hgetter, ?_⟩
    · show _ ++ (Producer.putting item false).pending s.rest ending = _
      rw [pending_putting]
      exact hflow
    · rintro item' woken ⟨⟩
      exact ⟨nofun, fun hlt => absurd hfull (Nat.not_le.2 hlt)⟩
  · have hnext : item.next ≠ .closing := by cases item <;> exact nofun
    refine ⟨by simpa using hactive, ⟨hcancelled, hnext⟩,
      ⟨fun h => absurd h (next_ne_absent item), fun h => absurd (wake_eq_created.1 h) hcreated⟩,
      ?_, by simpa using htimer, ?_, ?_⟩
    · show _ ++ (s.queue ++ [item]) ++ item.next.pending s.rest ending = _
      rw [← hflow]
      simp only [List.append_assoc, List.cons_append, List.nil_append]
    · intro woken hwoken
      have htrue : woken = true := by
        change s.consumer.wake = _ at hwoken
        unfold Consumer.wake at hwoken
        split at hwoken
        · cases hwoken
          rfl
        · next hne =>
          cases woken with
          | false => exact absurd hwoken hne
          | true => rfl
      exact ⟨fun _ => by simp, fun _ => htrue⟩
    · intro item' woken h
      change item.next = _ at h
      cases item <;> cases h

theorem leave_eq (s : State α ε) (outcome : Outcome ε) :
    s.producer = .finished ∧ s.leave outcome = { s with consumer := .gone outcome } ∨
      s.producer ≠ .finished ∧
        s.leave outcome = { s with consumer := .joining outcome, cancelled := true } := by
  unfold State.leave
  split
  · next h => exact .inl ⟨h, rfl⟩
  · next h => exact .inr ⟨h, rfl⟩

theorem leave_over (h : s.producer = .finished) (outcome : Outcome ε) :
    s.leave outcome = { s with consumer := .gone outcome } := by
  unfold State.leave
  rw [h]

theorem handle_last (s : State α ε) :
    s.handle (lastItem ending) = s.leave (sourceOutcome ending) := by
  cases ending <;> rfl

theorem pending_eq_nil {p : Producer α ε} {rest : List α} (h : p.pending rest ending = [])
    (hclosing : p ≠ .closing) : p = .finished := by
  cases p with
  | finished => rfl
  | closing => exact absurd rfl hclosing
  | putting item woken =>
    rw [pending_putting] at h
    cases h
  | absent | ready | pulling =>
    have hlen := congrArg List.length h
    simp [Producer.pending, stream] at hlen

/-- The generator ended as the source did, after all chunks. -/
structure Complete (chunks : List α) (ending : Option ε) (s : State α ε) : Prop where
  gone : s.consumer = .gone (sourceOutcome ending)
  finished : s.producer = .finished
  yielded : s.yielded = chunks
  timer : s.fired = s.comments

/-- What `get` needs to know of the state. -/
structure Gettable (chunks : List α) (ending : Option ε) (s : State α ε) : Prop where
  capacity : s.queue.length ≤ QUEUE_SIZE
  cancelled : s.cancelled = false
  closing : s.producer ≠ .closing
  absent : s.producer ≠ .absent
  flow : s.yielded.map .chunk ++ s.queue ++ s.producer.pending s.rest ending = stream chunks ending
  timer : s.fired = s.comments
  putter : ∀ item woken, s.producer = .putting item woken →
    (woken = true ↔ s.queue.length < QUEUE_SIZE)

/-- After the last item the generator is gone, and everything was yielded. -/
theorem get_last {item : Item α ε} {queue : List (Item α ε)} (h : Gettable chunks ending s)
    (hqueue : s.queue = item :: queue) (hitem : ∀ c, item ≠ .chunk c) :
    s.yielded = chunks ∧ item = lastItem ending ∧ s.producer = .finished := by
  have hflow := h.flow
  rw [hqueue, List.append_assoc, List.cons_append] at hflow
  obtain ⟨hyielded, hlast, hnil⟩ := stream_last hflow hitem
  exact ⟨hyielded, hlast, pending_eq_nil (List.append_eq_nil_iff.1 hnil).2 h.closing⟩

/-- **`get` takes the next item**, and yields it, ends or raises; or it waits. -/
theorem Gettable.get (h : Gettable chunks ending s) :
    Active chunks ending s.get ∨ Complete chunks ending s.get := by
  have hclosing : s.producer.wake ≠ .closing := fun hp => h.closing ((wake_eq (by nofun)).1 hp)
  have habsent : s.producer.wake ≠ .absent := fun hp => h.absent ((wake_eq (by nofun)).1 hp)
  unfold State.get
  split
  · next hqueue =>
    refine .inl ⟨rfl, ⟨h.cancelled, h.closing⟩, ⟨fun h' => absurd h' h.absent, nofun⟩, h.flow,
      h.timer, ?_, h.putter⟩
    rintro woken ⟨⟩
    exact ⟨nofun, fun hne => absurd hqueue hne⟩
  · next item queue hqueue =>
    cases item with
    | chunk c =>
      refine .inl ⟨rfl, ⟨h.cancelled, hclosing⟩, ⟨fun h' => absurd h' habsent, nofun⟩, ?_,
        h.timer, nofun, ?_⟩
      · show (s.yielded ++ [c]).map .chunk ++ queue ++ s.producer.wake.pending s.rest ending = _
        have hflow := h.flow
        rw [hqueue] at hflow
        rw [pending_wake, ← hflow]
        simp
      · intro item woken hwake
        have hlt : queue.length < QUEUE_SIZE := by
          have hcap := h.capacity
          rw [hqueue, List.length_cons] at hcap
          omega
        change s.producer.wake = _ at hwake
        refine ⟨fun _ => hlt, fun _ => ?_⟩
        cases hp : s.producer with
        | putting item' woken' =>
          rw [hp] at hwake
          cases hwake
          rfl
        | _ => rw [hp] at hwake; cases hwake
    | ended | error exc =>
      obtain ⟨hyielded, hlast, hover⟩ := get_last h hqueue nofun
      have hwake : s.producer.wake = .finished := by
        rw [hover]
        rfl
      rw [hlast, handle_last, leave_over hwake]
      exact .inr ⟨rfl, hwake, hyielded, h.timer⟩

/-! ## The steps -/

@[simp] theorem leave_producer (outcome : Outcome ε) : (s.leave outcome).producer = s.producer := by
  rcases leave_eq s outcome with ⟨-, heq⟩ | ⟨-, heq⟩ <;> rw [heq]

@[simp] theorem leave_source (outcome : Outcome ε) : (s.leave outcome).source = s.source := by
  rcases leave_eq s outcome with ⟨-, heq⟩ | ⟨-, heq⟩ <;> rw [heq]

@[simp] theorem leave_queue (outcome : Outcome ε) : (s.leave outcome).queue = s.queue := by
  rcases leave_eq s outcome with ⟨-, heq⟩ | ⟨-, heq⟩ <;> rw [heq]

@[simp] theorem leave_fired (outcome : Outcome ε) : (s.leave outcome).fired = s.fired := by
  rcases leave_eq s outcome with ⟨-, heq⟩ | ⟨-, heq⟩ <;> rw [heq]

theorem leave_left {outcome : Outcome ε} (houtcome : OutcomeOk chunks ending s.yielded outcome)
    (htimer : s.comments ≤ s.fired ∧ s.fired ≤ s.comments + 1) :
    Left chunks ending (s.leave outcome) := by
  rcases leave_eq s outcome with ⟨hover, heq⟩ | ⟨-, heq⟩
  · rw [heq]
    exact ⟨⟨outcome, rfl, houtcome⟩, fun _ _ => .inl hover, htimer⟩
  · rw [heq]
    exact ⟨⟨outcome, rfl, houtcome⟩, nofun, htimer⟩

/-- Where the producer and the source are after `get`. -/
theorem get_producer (s : State α ε) : s.get.producer = s.producer ∧ s.get.queue = s.queue ∨
    s.get.producer = s.producer.wake ∧ s.get.queue.length < s.queue.length := by
  unfold State.get
  split
  · exact .inl ⟨rfl, rfl⟩
  · next item queue hqueue =>
    refine .inr ?_
    cases item <;> simp [State.handle, hqueue]

theorem get_source (s : State α ε) : s.get.source = s.source := by
  unfold State.get
  split
  · rfl
  · next item queue hqueue => cases item <;> simp [State.handle]

theorem get_fired (s : State α ε) : s.get.fired = s.fired := by
  unfold State.get
  split
  · rfl
  · next item queue hqueue => cases item <;> simp [State.handle]

theorem put_source {item : Item α ε} (hitem : SourceOk (.putting item false) s.source) :
    SourceOk (s.put item).producer (s.put item).source := by
  unfold State.put
  split_ifs with hfull
  · exact hitem
  · cases item with
    | chunk c => exact hitem
    | ended | error exc =>
      have hclosed : s.source = .closed := hitem
      show s.source ≠ .opened
      rw [hclosed]
      exact nofun

/-- What each action does, and where it is possible. -/
inductive Moves (ending : Option ε) (s : State α ε) : Action ε → State α ε → Prop
  | begin (h : s.consumer = .created) : Moves ending s .next { s with producer := .ready }.get
  | next (h : s.consumer = .atYield) : Moves ending s .next s.get
  | stopUnused (h : s.consumer = .created) :
    Moves ending s .stop { s with consumer := .gone .stopped }
  | stop (h : s.consumer = .atYield) : Moves ending s .stop (s.leave .stopped)
  | cancelWaiting {woken expired cancelled : Bool}
      (h : s.consumer = .waiting woken expired cancelled) :
    Moves ending s .cancel { s with consumer := .waiting woken expired true }
  | cancelBeating {cancelled : Bool} (h : s.consumer = .beating cancelled) :
    Moves ending s .cancel { s with consumer := .beating true }
  | cancelJoining {outcome : Outcome ε} (h : s.consumer = .joining outcome) :
    Moves ending s .cancel { s with cancelled := true }
  | expire {woken cancelled : Bool} (h : s.consumer = .waiting woken false cancelled) :
    Moves ending s .expire
      { s with consumer := .waiting woken true cancelled, fired := s.fired + 1 }
  | cancelled {woken expired : Bool} (h : s.consumer = .waiting woken expired true) :
    Moves ending s .resume (s.leave .cancelled)
  | timeout {woken : Bool} (h : s.consumer = .waiting woken true false) :
    Moves ending s .resume { s with consumer := .beating false, comments := s.comments + 1 }
  | woken (h : s.consumer = .waiting true false false) : Moves ending s .resume s.get
  | sendCancelled (h : s.consumer = .beating true) :
    Moves ending s .sent (s.leave .cancelled)
  | sent (h : s.consumer = .beating false) : Moves ending s .sent s.get
  | sendFails {cancelled : Bool} (h : s.consumer = .beating cancelled) :
    Moves ending s .sendFails (s.leave .sendFailed)
  | join {outcome : Outcome ε} (h : s.consumer = .joining outcome)
      (hover : s.producer = .finished) :
    Moves ending s .join { s with consumer := .gone outcome }
  | startCancelled (h : s.producer = .ready) (hcancelled : s.cancelled = true) :
    Moves ending s .start { s with producer := .finished, cancelled := false }
  | start (h : s.producer = .ready) (hcancelled : s.cancelled = false) :
    Moves ending s .start { s with producer := .pulling, source := .opened }
  | pullCancelled (h : s.producer = .pulling) (hcancelled : s.cancelled = true) :
    Moves ending s .pull { s with producer := .closing, cancelled := false }
  | pull {c : α} {rest : List α} (h : s.producer = .pulling) (hcancelled : s.cancelled = false)
      (hrest : s.rest = c :: rest) :
    Moves ending s .pull ({ s with rest := rest }.put (.chunk c))
  | pullLast (h : s.producer = .pulling) (hcancelled : s.cancelled = false) (hrest : s.rest = []) :
    Moves ending s .pull ({ s with source := .closed }.put (lastItem ending))
  | putCancelled {c : α} {woken : Bool} (h : s.producer = .putting (.chunk c) woken)
      (hcancelled : s.cancelled = true) :
    Moves ending s .resumePut { s with producer := .closing, cancelled := false }
  | putLastCancelled {item : Item α ε} {woken : Bool} (h : s.producer = .putting item woken)
      (hcancelled : s.cancelled = true) (hitem : ∀ c, item ≠ .chunk c) :
    Moves ending s .resumePut { s with producer := .finished, cancelled := false }
  | put {item : Item α ε} (h : s.producer = .putting item true) (hcancelled : s.cancelled = false) :
    Moves ending s .resumePut (s.put item)
  | close (h : s.producer = .closing) :
    Moves ending s (.close none) { s with producer := .finished, source := .closed }
  | closeWith (h : s.producer = .closing) (ending' : Option ε) :
    Moves ending s (.close (some ending')) ({ s with source := .closed }.put (lastItem ending'))

theorem consumer_moves {a : Action ε} (h : consumerStep s a = some s') : Moves ending s a s' := by
  cases a with
  | next =>
    simp only [consumerStep] at h
    split at h <;> cases h
    · exact .begin ‹_›
    · exact .next ‹_›
  | stop =>
    simp only [consumerStep] at h
    split at h <;> cases h
    · exact .stopUnused ‹_›
    · exact .stop ‹_›
  | cancel =>
    simp only [consumerStep] at h
    split at h <;> cases h
    · exact .cancelWaiting ‹_›
    · exact .cancelBeating ‹_›
    · exact .cancelJoining ‹_›
  | expire =>
    simp only [consumerStep] at h
    split at h <;> cases h
    exact .expire ‹_›
  | resume =>
    simp only [consumerStep] at h
    split at h <;> cases h
    · exact .cancelled ‹_›
    · exact .timeout ‹_›
    · exact .woken ‹_›
  | sent =>
    simp only [consumerStep] at h
    split at h <;> cases h
    · exact .sendCancelled ‹_›
    · exact .sent ‹_›
  | sendFails =>
    simp only [consumerStep] at h
    split at h <;> cases h
    exact .sendFails ‹_›
  | join =>
    simp only [consumerStep] at h
    split at h <;> cases h
    exact .join ‹_› ‹_›
  | start | pull | resumePut | close how => cases h

theorem producer_moves {a : Action ε} (h : producerStep ending s a = some s') :
    Moves ending s a s' := by
  cases a with
  | start =>
    simp only [producerStep] at h
    split at h
    · split_ifs at h with hcancelled <;> cases h
      · exact .startCancelled ‹_› hcancelled
      · exact .start ‹_› (Bool.eq_false_iff.2 hcancelled)
    · cases h
  | pull =>
    simp only [producerStep] at h
    split at h
    · split_ifs at h with hcancelled
      · cases h
        exact .pullCancelled ‹_› hcancelled
      · split at h <;> cases h
        · exact .pull ‹_› (Bool.eq_false_iff.2 hcancelled) ‹_›
        · exact .pullLast ‹_› (Bool.eq_false_iff.2 hcancelled) ‹_›
    · cases h
  | resumePut =>
    simp only [producerStep] at h
    split at h
    · next item woken hputting =>
      split_ifs at h with hcancelled hwoken
      · split at h <;> cases h
        · exact .putCancelled hputting hcancelled
        · next hitem => exact .putLastCancelled hputting hcancelled hitem
      · cases h
        rw [hwoken] at hputting
        exact .put hputting (Bool.eq_false_iff.2 hcancelled)
    · cases h
  | close how =>
    simp only [producerStep] at h
    split at h <;> cases h
    · exact .close ‹_›
    · exact .closeWith ‹_› _
  | next | stop | cancel | expire | resume | sent | sendFails | join => cases h

theorem step_moves {a : Action ε} (h : step ending s a = some s') : Moves ending s a s' := by
  unfold step at h
  split at h
  iterate 4 exact producer_moves h
  exact consumer_moves h

/-- The queue and the source stay as they should be. -/
theorem capacity_source_step (hcap : s.queue.length ≤ QUEUE_SIZE)
    (hsource : SourceOk s.producer s.source)
    (hcreated : s.consumer = .created → s.producer = .absent) {a : Action ε}
    (h : step ending s a = some s') :
    s'.queue.length ≤ QUEUE_SIZE ∧ SourceOk s'.producer s'.source := by
  have hget : ∀ t : State α ε, t.queue.length ≤ QUEUE_SIZE → SourceOk t.producer t.source →
      t.get.queue.length ≤ QUEUE_SIZE ∧ SourceOk t.get.producer t.get.source := by
    intro t hcap hsource
    rw [get_source]
    rcases get_producer t with ⟨hp, hq⟩ | ⟨hp, hq⟩
    · rw [hp, hq]
      exact ⟨hcap, hsource⟩
    · rw [hp]
      exact ⟨Nat.le_trans (Nat.le_of_lt hq) hcap, sourceOk_wake.2 hsource⟩
  have hleave : ∀ outcome, (s.leave outcome).queue.length ≤ QUEUE_SIZE ∧
      SourceOk (s.leave outcome).producer (s.leave outcome).source := by
    intro outcome
    simpa using ⟨hcap, hsource⟩
  have hlast : ∀ e : Option ε, SourceOk (.putting (lastItem e : Item α ε) false) .closed := by
    intro e
    cases e <;> rfl
  cases step_moves h with
  | begin hc =>
    rw [hcreated hc] at hsource
    exact hget _ hcap hsource
  | next | woken | sent => exact hget s hcap hsource
  | stop | cancelled | sendCancelled | sendFails => exact hleave _
  | stopUnused | cancelWaiting | cancelBeating | cancelJoining | expire | timeout | join =>
    exact ⟨hcap, hsource⟩
  | startCancelled hp =>
    rw [hp] at hsource
    have hunstarted : s.source = .unstarted := hsource
    refine ⟨hcap, ?_⟩
    show s.source ≠ .opened
    rw [hunstarted]
    exact nofun
  | start => exact ⟨hcap, rfl⟩
  | pullCancelled hp | putCancelled hp =>
    rw [hp] at hsource
    exact ⟨hcap, hsource⟩
  | pull hp =>
    rw [hp] at hsource
    exact ⟨put_capacity _ hcap, put_source hsource⟩
  | pullLast => exact ⟨put_capacity _ hcap, put_source (hlast _)⟩
  | putLastCancelled hp _ hitem =>
    rw [hp] at hsource
    refine ⟨hcap, ?_⟩
    show s.source ≠ .opened
    rw [(sourceOk_last hitem).1 hsource]
    exact nofun
  | put hp =>
    rw [hp] at hsource
    exact ⟨put_capacity _ hcap, put_source (sourceOk_wake.1 hsource)⟩
  | close => exact ⟨hcap, nofun⟩
  | closeWith => exact ⟨put_capacity _ hcap, put_source (hlast _)⟩

/-- Whether somebody stops the generator, cancels its task, or `send` raises. -/
def Action.disturbs : Action ε → Bool
  | .stop | .cancel | .sendFails => true
  | _ => false

/-- Whether the task of the generator is not being cancelled. -/
def Consumer.calm : Consumer ε → Bool
  | .waiting _ _ true | .beating true => false
  | _ => true

/-- What the loop needs for its next `get`. -/
theorem Active.gettable (hA : Active chunks ending s) (hcap : s.queue.length ≤ QUEUE_SIZE)
    (hcreated : s.consumer ≠ .created) (hdue : s.consumer.due = 0) :
    Gettable chunks ending s where
  capacity := hcap
  cancelled := hA.running.1
  closing := hA.running.2
  absent h := hcreated (hA.absent.1 h)
  flow := hA.flow
  timer := by
    have htimer := hA.timer
    rw [hdue] at htimer
    exact htimer
  putter := hA.futures.putter

theorem due_le_one (c : Consumer ε) : c.due ≤ 1 := by
  unfold Consumer.due
  split <;> omega

theorem Active.timers (hA : Active chunks ending s) :
    s.comments ≤ s.fired ∧ s.fired ≤ s.comments + 1 := by
  have htimer := hA.timer
  have hdue := due_le_one s.consumer
  omega

theorem Active.ordered (hA : Active chunks ending s) : s.yielded <+: chunks := by
  have hflow := hA.flow
  rw [List.append_assoc] at hflow
  exact yielded_ordered hflow

/-- The generator is somewhere else in its loop. -/
theorem Active.move (hA : Active chunks ending s) (hcreated : s.consumer ≠ .created)
    (consumer : Consumer ε) (fired comments : ℕ) (hactive : consumer.active = true)
    (hcreated' : consumer ≠ .created) (hgetter : ∀ woken, consumer ≠ .waiting woken false false)
    (htimer : fired = comments + consumer.due) :
    Active chunks ending { s with consumer := consumer, fired := fired, comments := comments } where
  active := hactive
  running := hA.running
  absent := ⟨fun h => absurd (hA.absent.1 h) hcreated, fun h => absurd h hcreated'⟩
  flow := hA.flow
  timer := htimer
  futures := ⟨fun woken h => absurd h (hgetter woken), hA.futures.putter⟩

/-- The first `next` creates the producer. -/
theorem Active.begin (hA : Active chunks ending s) (hcap : s.queue.length ≤ QUEUE_SIZE)
    (hc : s.consumer = .created) : Active chunks ending { s with producer := .ready }.get ∨
      Complete chunks ending { s with producer := .ready }.get := by
  have hflow := hA.flow
  have htimer := hA.timer
  rw [hA.absent.2 hc] at hflow
  rw [hc] at htimer
  have hG : Gettable chunks ending { s with producer := .ready } :=
    ⟨hcap, hA.running.1, by nofun, by nofun, hflow, htimer, by nofun⟩
  exact hG.get

theorem Active.not_created (hA : Active chunks ending s) (hp : s.producer ≠ .absent) :
    s.consumer ≠ .created :=
  fun hc => hp (hA.absent.2 hc)

/-- The source is opened. -/
theorem Active.start (hA : Active chunks ending s) (hp : s.producer = .ready) :
    Active chunks ending { s with producer := .pulling, source := .opened } := by
  have hflow := hA.flow
  have hcreated := hA.not_created (by rw [hp]; exact nofun)
  rw [hp] at hflow
  exact ⟨hA.active, ⟨hA.running.1, nofun⟩, ⟨nofun, fun h => absurd h hcreated⟩, hflow, hA.timer,
    hA.futures.getter, nofun⟩

/-- The next item of the source is put. -/
theorem Active.put {t : State α ε} {item : Item α ε} (hA : Active chunks ending s)
    (hp : s.producer ≠ .absent) (hconsumer : t.consumer = s.consumer) (hqueue : t.queue = s.queue)
    (hyielded : t.yielded = s.yielded) (hcancelled : t.cancelled = s.cancelled)
    (htimer : t.fired = s.fired ∧ t.comments = s.comments)
    (hpending : s.producer.pending s.rest ending = item :: item.next.pending t.rest ending) :
    Active chunks ending (t.put item) := by
  have hflow := hA.flow
  rw [hpending, ← hyielded, ← hqueue] at hflow
  refine put_active (hconsumer ▸ hA.active) ?_ (hcancelled.trans hA.running.1) hflow ?_ ?_
  · rw [hconsumer]
    exact hA.not_created hp
  · rw [htimer.1, htimer.2, hconsumer]
    exact hA.timer
  · rw [hconsumer, hqueue]
    exact hA.futures.getter

/-- **A step in the loop** keeps to it, ends it as the source ended, or is one of a caller or a
client that leaves. -/
theorem Active.step (hA : Active chunks ending s) (hcap : s.queue.length ≤ QUEUE_SIZE)
    {a : Action ε} (h : step ending s a = some s') :
    Active chunks ending s' ∨ Complete chunks ending s' ∨
      Left chunks ending s' ∧ ¬ (a.disturbs = false ∧ s.consumer.calm = true) := by
  have hget : s.consumer ≠ .created → s.consumer.due = 0 →
      Active chunks ending s.get ∨ Complete chunks ending s.get ∨
        Left chunks ending s.get ∧ ¬ (a.disturbs = false ∧ s.consumer.calm = true) :=
    fun hcreated hdue => (hA.gettable hcap hcreated hdue).get.imp_right .inl
  have hleave : ∀ outcome, OutcomeOk chunks ending s.yielded outcome →
      Left chunks ending (s.leave outcome) := fun _ h => leave_left h hA.timers
  have htimer := hA.timer
  cases step_moves h with
  | begin hc => exact (hA.begin hcap hc).imp_right .inl
  | next hc | woken hc | sent hc => exact hget (by rw [hc]; exact nofun) (by rw [hc]; rfl)
  | stopUnused hc =>
    refine .inr (.inr ⟨⟨⟨_, rfl, hA.ordered⟩, fun _ _ => .inr (hA.absent.2 hc), hA.timers⟩, ?_⟩)
    exact fun h => nomatch h.1
  | stop | sendFails => exact .inr (.inr ⟨hleave _ hA.ordered, fun h => nomatch h.1⟩)
  | cancelled hc | sendCancelled hc =>
    refine .inr (.inr ⟨hleave _ hA.ordered, fun h => ?_⟩)
    rw [hc] at h
    cases h.2
  | @cancelWaiting woken expired _ hc =>
    rw [hc] at htimer
    refine .inl (hA.move (by rw [hc]; exact nofun) (.waiting woken expired true) _ _ rfl nofun
      nofun ?_)
    cases expired <;> exact htimer
  | cancelBeating hc =>
    rw [hc] at htimer
    exact .inl (hA.move (by rw [hc]; exact nofun) (.beating true) _ _ rfl nofun nofun htimer)
  | cancelJoining hc | join hc =>
    have hactive := hA.active
    rw [hc] at hactive
    cases hactive
  | @expire woken cancelled hc =>
    rw [hc] at htimer
    exact .inl (hA.move (by rw [hc]; exact nofun) (.waiting woken true cancelled) _ _ rfl nofun
      nofun (congrArg (· + 1) htimer))
  | timeout hc =>
    rw [hc] at htimer
    exact .inl (hA.move (by rw [hc]; exact nofun) (.beating false) _ _ rfl nofun nofun htimer)
  | startCancelled _ hcancelled | pullCancelled _ hcancelled | putCancelled _ hcancelled
  | putLastCancelled _ hcancelled => exact absurd (hA.running.1.symm.trans hcancelled) nofun
  | close hp | closeWith hp => exact absurd hp hA.running.2
  | start hp => exact .inl (hA.start hp)
  | pull hp _ hrest =>
    refine .inl (hA.put (by rw [hp]; exact nofun) rfl rfl rfl rfl ⟨rfl, rfl⟩ ?_)
    rw [hp, Producer.pending, hrest]
    rfl
  | pullLast hp _ hrest =>
    refine .inl (hA.put (by rw [hp]; exact nofun) rfl rfl rfl rfl ⟨rfl, rfl⟩ ?_)
    rw [hp, Producer.pending, hrest]
    cases ending <;> rfl
  | put hp =>
    refine .inl (hA.put (by rw [hp]; exact nofun) rfl rfl rfl rfl ⟨rfl, rfl⟩ ?_)
    rw [hp, pending_putting]

theorem put_frame (s : State α ε) (item : Item α ε) :
    ((s.put item).consumer = s.consumer ∨ (s.put item).consumer = s.consumer.wake) ∧
      (s.put item).yielded = s.yielded ∧ (s.put item).fired = s.fired ∧
      (s.put item).comments = s.comments := by
  unfold State.put
  split_ifs
  · exact ⟨.inl rfl, rfl, rfl, rfl⟩
  · exact ⟨.inr rfl, rfl, rfl, rfl⟩

/-- Out of the loop, the producer and the source go on by themselves. -/
theorem Left.producer (hL : Left chunks ending s) (hover : s.producer ≠ .finished)
    (habsent : s.producer ≠ .absent)
    (hconsumer : s'.consumer = s.consumer ∨ s'.consumer = s.consumer.wake)
    (hyielded : s'.yielded = s.yielded) (hfired : s'.fired = s.fired)
    (hcomments : s'.comments = s.comments) : Left chunks ending s' := by
  obtain ⟨outcome, hleft, houtcome⟩ := hL.outcome
  have hleft' : s'.consumer.left = some outcome := by
    rcases hconsumer with hc | hc <;> rw [hc]
    · exact hleft
    · rw [wake_left]
      exact hleft
  have hgone : ∀ o, s.consumer ≠ .gone o := fun o ho =>
    (hL.gone o ho).elim hover habsent
  refine ⟨⟨outcome, hleft', hyielded ▸ houtcome⟩, fun o ho => ?_, ?_⟩
  · rcases hconsumer with hc | hc
    · exact absurd (hc.symm.trans ho) (hgone o)
    · rw [hc] at ho
      unfold Consumer.wake at ho
      split at ho
      · cases ho
      · exact absurd ho (hgone o)
  · rw [hfired, hcomments]
    exact hL.timer

theorem Left.step (hL : Left chunks ending s) {a : Action ε} (h : step ending s a = some s') :
    Left chunks ending s' := by
  obtain ⟨outcome, hleft, houtcome⟩ := hL.outcome
  have hput : ∀ (t : State α ε) item, t.consumer = s.consumer → t.yielded = s.yielded →
      t.fired = s.fired → t.comments = s.comments → s.producer ≠ .finished → s.producer ≠ .absent →
      Left chunks ending (t.put item) := by
    intro t item hc hy hf hk hover habsent
    obtain ⟨hc', hy', hf', hk'⟩ := put_frame t item
    rw [hc] at hc'
    exact hL.producer hover habsent hc' (hy'.trans hy) (hf'.trans hf) (hk'.trans hk)
  cases step_moves h with
  | begin hc | next hc | stopUnused hc | stop hc | cancelWaiting hc | cancelBeating hc | expire hc
  | cancelled hc | timeout hc | woken hc | sendCancelled hc | sent hc | sendFails hc =>
    rw [hc] at hleft
    cases hleft
  | cancelJoining => exact ⟨⟨outcome, hleft, houtcome⟩, hL.gone, hL.timer⟩
  | join hc hover =>
    rw [hc] at hleft
    exact ⟨⟨outcome, hleft, houtcome⟩, fun _ _ => .inl hover, hL.timer⟩
  | startCancelled hp | start hp | pullCancelled hp | putCancelled hp | putLastCancelled hp
  | close hp =>
    exact hL.producer (by rw [hp]; exact nofun) (by rw [hp]; exact nofun) (.inl rfl) rfl rfl rfl
  | pull hp | pullLast hp | put hp | closeWith hp =>
    exact hput _ _ rfl rfl rfl rfl (by rw [hp]; exact nofun) (by rw [hp]; exact nofun)

theorem Complete.left (h : Complete chunks ending s) : Left chunks ending s where
  outcome := by
    refine ⟨sourceOutcome ending, by rw [h.gone]; rfl, ?_⟩
    cases ending <;> exact ⟨h.yielded, rfl⟩
  gone _ _ := .inl h.finished
  timer := by
    have htimer := h.timer
    omega

theorem Inv.init (chunks : List α) (ending : Option ε) : Inv chunks ending (init chunks) where
  capacity := Nat.zero_le _
  source := rfl
  phase := .inl ⟨rfl, ⟨rfl, nofun⟩, ⟨fun _ => rfl, fun _ => rfl⟩, rfl, rfl, ⟨nofun, nofun⟩⟩

theorem Inv.step (hI : Inv chunks ending s) {a : Action ε} (h : step ending s a = some s') :
    Inv chunks ending s' := by
  have hcreated : s.consumer = .created → s.producer = .absent := by
    intro hc
    rcases hI.phase with hA | hL
    · exact hA.absent.2 hc
    · obtain ⟨outcome, hleft, -⟩ := hL.outcome
      rw [hc] at hleft
      cases hleft
  obtain ⟨hcap, hsource⟩ := capacity_source_step hI.capacity hI.source hcreated h
  refine ⟨hcap, hsource, ?_⟩
  rcases hI.phase with hA | hL
  · rcases hA.step hI.capacity h with hA' | hC' | hL'
    · exact .inl hA'
    · exact .inr hC'.left
    · exact .inr hL'.1
  · exact .inr (hL.step h)

/-! ## Runs that nobody stops -/

/-- A step that stops nothing leaves the task of the generator alone. -/
theorem calm_step {a : Action ε} (ha : a.disturbs = false) (hcalm : s.consumer.calm = true)
    (h : step ending s a = some s') : s'.consumer.calm = true := by
  have hleave : ∀ (t : State α ε) outcome, (t.leave outcome).consumer.calm = true := by
    intro t outcome
    rcases leave_eq t outcome with ⟨-, heq⟩ | ⟨-, heq⟩ <;> rw [heq] <;> rfl
  have hget : ∀ t : State α ε, t.get.consumer.calm = true := by
    intro t
    unfold State.get
    split
    · rfl
    · next item queue _ =>
      cases item with
      | chunk c => rfl
      | ended | error exc => exact hleave _ _
  have hput : ∀ (t : State α ε) item, t.consumer = s.consumer →
      (t.put item).consumer.calm = true := by
    intro t item ht
    rcases (put_frame t item).1 with hc | hc <;> rw [hc, ht]
    · exact hcalm
    · unfold Consumer.wake
      split
      · rfl
      · exact hcalm
  cases step_moves h with
  | begin | next | woken | sent => exact hget _
  | stopUnused | stop | cancelWaiting | cancelBeating | cancelJoining | sendFails => cases ha
  | cancelled | sendCancelled => exact hleave _ _
  | @expire woken cancelled hc =>
    rw [hc] at hcalm
    cases cancelled
    · rfl
    · cases hcalm
  | timeout | join => rfl
  | startCancelled | start | pullCancelled | putCancelled | putLastCancelled | close => exact hcalm
  | pull | pullLast | put | closeWith => exact hput _ _ rfl

/-- The steps that the generator will take before its next timeout, at most. -/
def Consumer.weight : Consumer ε → ℕ
  | .created | .beating _ | .atYield | .joining _ => 1
  | .waiting _ true _ => 2
  | .waiting _ false _ | .gone _ => 0

/-- The steps that are to come for what is not in the queue yet, for the length of what the source
still will produce. -/
def Producer.weight (rest : ℕ) : Producer α ε → ℕ
  | .absent | .ready => 4 * (rest + 1) + 1
  | .pulling => 4 * (rest + 1)
  | .putting (.chunk _) _ => 4 * (rest + 1) + 3
  | .putting _ _ => 3
  | .closing | .finished => 0

def State.weight (s : State α ε) : ℕ :=
  s.consumer.weight + 2 * s.queue.length + s.producer.weight s.rest.length

theorem weight_wake (p : Producer α ε) (rest : ℕ) : p.wake.weight rest = p.weight rest := by
  cases p with
  | putting item woken => cases item <;> rfl
  | _ => rfl

theorem weight_consumer_wake (c : Consumer ε) : c.wake.weight = c.weight := by
  unfold Consumer.wake
  split <;> rfl

theorem weight_putting (item : Item α ε) (woken : Bool) (rest : ℕ) :
    (Producer.putting item woken).weight rest = item.next.weight rest + 3 := by
  cases item <;> rfl

theorem get_weight (h : s.consumer.weight = 1 ∨ s.queue ≠ []) : s.get.weight + 1 ≤ s.weight := by
  have hleave : ∀ (t : State α ε) outcome,
      (t.leave outcome).weight ≤ 1 + 2 * t.queue.length + t.producer.weight t.rest.length := by
    intro t outcome
    rcases leave_eq t outcome with ⟨-, heq⟩ | ⟨-, heq⟩ <;> rw [heq] <;>
      simp [State.weight, Consumer.weight]
  unfold State.get
  split
  · next hqueue =>
    have hone := h.resolve_right fun hne => hne hqueue
    show 0 + 2 * s.queue.length + s.producer.weight s.rest.length + 1 ≤ s.consumer.weight +
      2 * s.queue.length + s.producer.weight s.rest.length
    omega
  · next item queue hqueue =>
    have hhandle :
        (State.handle { s with queue := queue, producer := s.producer.wake } item).weight ≤
        1 + 2 * queue.length + s.producer.weight s.rest.length := by
      rw [← weight_wake]
      cases item with
      | chunk c => exact Nat.le_refl _
      | ended | error exc => exact hleave _ _
    unfold State.weight at hhandle ⊢
    rw [hqueue, List.length_cons]
    omega

theorem put_weight (s : State α ε) (item : Item α ε) :
    (s.put item).weight ≤ s.consumer.weight + 2 * s.queue.length +
        (item.next.weight s.rest.length + 3) ∧
      (s.queue.length < QUEUE_SIZE → (s.put item).weight ≤ s.consumer.weight +
        2 * s.queue.length + (item.next.weight s.rest.length + 2)) := by
  unfold State.put
  split_ifs with hfull
  · refine ⟨?_, fun hlt => absurd hfull (Nat.not_le.2 hlt)⟩
    unfold State.weight
    dsimp only
    refine Nat.le_of_eq ?_
    rw [weight_putting]
  · have hweight : State.weight { s with
        queue := s.queue ++ [item], consumer := s.consumer.wake, producer := item.next } =
        s.consumer.weight + 2 * s.queue.length + (item.next.weight s.rest.length + 2) := by
      unfold State.weight
      dsimp only
      rw [weight_consumer_wake, List.length_append, List.length_singleton]
      omega
    rw [hweight]
    exact ⟨by omega, fun _ => Nat.le_refl _⟩

theorem pull_weight {c : α} {rest : List α} (hp : s.producer = .pulling)
    (hrest : s.rest = c :: rest) : ({ s with rest := rest }.put (.chunk c)).weight + 1 ≤
      s.weight := by
  have hput := (put_weight { s with rest := rest } (.chunk c)).1
  have hs : s.weight = s.consumer.weight + 2 * s.queue.length + 4 * (rest.length + 1 + 1) := by
    unfold State.weight
    rw [hp, hrest]
    rfl
  rw [hs]
  simp only [Producer.weight, Item.next] at hput ⊢
  omega

theorem pullLast_weight (ending : Option ε) (hp : s.producer = .pulling) (hrest : s.rest = []) :
    ({ s with source := .closed }.put (lastItem ending)).weight + 1 ≤ s.weight := by
  have hput := (put_weight { s with source := .closed } (lastItem ending)).1
  have hnext : (lastItem ending : Item α ε).next = .finished := by cases ending <;> rfl
  have hs : s.weight = s.consumer.weight + 2 * s.queue.length + 4 := by
    unfold State.weight
    rw [hp, hrest]
    rfl
  rw [hs]
  rw [hnext] at hput
  simp only [Producer.weight] at hput ⊢
  omega

theorem resumePut_weight {item : Item α ε} (hA : Active chunks ending s)
    (hp : s.producer = .putting item true) : (s.put item).weight + 1 ≤ s.weight := by
  have hput := (put_weight s item).2 ((hA.futures.putter _ _ hp).1 rfl)
  have hs : s.weight = s.consumer.weight + 2 * s.queue.length +
      (item.next.weight s.rest.length + 3) := by
    unfold State.weight
    rw [hp, weight_putting]
  rw [hs]
  omega

/-- **Every step but the timer's brings the end nearer**, and a timeout puts it off by two steps. -/
theorem weight_step (hA : Active chunks ending s) {a : Action ε} (ha : a.disturbs = false)
    (hcalm : s.consumer.calm = true) (h : step ending s a = some s') :
    s'.weight + 1 + 3 * s.fired ≤ s.weight + 3 * s'.fired := by
  have hget : ∀ t : State α ε, t.consumer.weight = 1 ∨ t.queue ≠ [] → t.weight = s.weight →
      t.fired = s.fired → t.get.weight + 1 + 3 * s.fired ≤ s.weight + 3 * t.get.fired := by
    intro t ht hweight hfired
    have := get_weight ht
    rw [get_fired]
    omega
  cases step_moves h with
  | begin hc =>
    have habsent := hA.absent.2 hc
    refine hget _ (.inl (by rw [hc]; rfl)) ?_ rfl
    unfold State.weight
    rw [habsent]
    rfl
  | next hc | sent hc => exact hget s (.inl (by rw [hc]; rfl)) rfl rfl
  | woken hc => exact hget s (.inr ((hA.futures.getter _ hc).1 rfl)) rfl rfl
  | stopUnused | stop | cancelWaiting | cancelBeating | cancelJoining | sendFails => cases ha
  | cancelled hc | sendCancelled hc =>
    rw [hc] at hcalm
    cases hcalm
  | join hc =>
    have hactive := hA.active
    rw [hc] at hactive
    cases hactive
  | @expire woken cancelled hc =>
    unfold State.weight
    rw [hc]
    simp only [Consumer.weight]
    omega
  | timeout hc =>
    unfold State.weight
    rw [hc]
    simp only [Consumer.weight]
    omega
  | startCancelled _ hcancelled | pullCancelled _ hcancelled | putCancelled _ hcancelled
  | putLastCancelled _ hcancelled => exact absurd (hA.running.1.symm.trans hcancelled) nofun
  | close hp | closeWith hp => exact absurd hp hA.running.2
  | start hp =>
    unfold State.weight
    rw [hp]
    simp only [Producer.weight]
    omega
  | @pull c rest hp _ hrest =>
    have := pull_weight hp hrest
    rw [(put_frame _ _).2.2.1]
    show _ + 1 + 3 * s.fired ≤ s.weight + 3 * s.fired
    omega
  | pullLast hp _ hrest =>
    have := pullLast_weight ending hp hrest
    rw [(put_frame _ _).2.2.1]
    show _ + 1 + 3 * s.fired ≤ s.weight + 3 * s.fired
    omega
  | put hp =>
    have := resumePut_weight hA hp
    rw [(put_frame _ _).2.2.1]
    omega

/-- **Nothing waits for the timer.** While the generator is in its loop, some step is possible that
neither stops anything nor is the timer's. -/
theorem active_progress (hA : Active chunks ending s) :
    ∃ a, a.disturbs = false ∧ a ≠ .expire ∧ (step ending s a).isSome = true := by
  have hactive := hA.active
  have hrunning := hA.running.1
  have hproducer : s.queue = [] → s.producer ≠ .absent →
      ∃ a, a.disturbs = false ∧ a ≠ .expire ∧ (step ending s a).isSome = true := by
    intro hqueue habsent
    have hflow := hA.flow
    rw [hqueue] at hflow
    cases hp : s.producer with
    | absent => exact absurd hp habsent
    | ready => exact ⟨.start, rfl, nofun, by simp [step, producerStep, hp, hrunning]⟩
    | pulling =>
      refine ⟨.pull, rfl, nofun, ?_⟩
      cases hrest : s.rest <;> simp [step, producerStep, hp, hrunning, hrest]
    | putting item woken =>
      have hlt : s.queue.length < QUEUE_SIZE := by
        rw [hqueue]
        exact Nat.zero_lt_succ _
      have hwoken := (hA.futures.putter item woken hp).2 hlt
      exact ⟨.resumePut, rfl, nofun, by simp [step, producerStep, hp, hrunning, hwoken]⟩
    | closing => exact absurd hp hA.running.2
    | finished =>
      -- The last item is neither yielded nor anywhere else.
      rw [hp, Producer.pending, List.append_nil, List.append_nil, stream] at hflow
      have hlast : (lastItem ending : Item α ε) ∈ s.yielded.map Item.chunk := by
        rw [hflow]
        exact List.mem_append_right _ (List.mem_singleton.2 rfl)
      obtain ⟨c, -, hc⟩ := List.mem_map.1 hlast
      exact absurd hc.symm (lastItem_ne_chunk c)
  cases hc : s.consumer with
  | created | atYield => exact ⟨.next, rfl, nofun, by simp [step, consumerStep, hc]⟩
  | beating cancelled =>
    exact ⟨.sent, rfl, nofun, by cases cancelled <;> simp [step, consumerStep, hc]⟩
  | waiting woken expired cancelled =>
    have habsent : s.producer ≠ .absent := by
      intro h
      have hcreated := hA.absent.1 h
      rw [hc] at hcreated
      cases hcreated
    cases cancelled with
    | true => exact ⟨.resume, rfl, nofun, by simp [step, consumerStep, hc]⟩
    | false =>
      cases expired with
      | true => exact ⟨.resume, rfl, nofun, by simp [step, consumerStep, hc]⟩
      | false =>
        have hgetter := hA.futures.getter woken hc
        cases woken with
        | true => exact ⟨.resume, rfl, nofun, by simp [step, consumerStep, hc]⟩
        | false =>
          refine hproducer ?_ habsent
          by_contra hne
          exact nomatch hgetter.2 hne
  | joining | gone =>
    rw [hc] at hactive
    cases hactive

/-- A generator that is gone takes no more steps. -/
theorem Complete.stuck (h : Complete chunks ending s) {a : Action ε}
    (hstep : Heartbeats.step ending s a = some s') : False := by
  have hgone := h.gone
  have hover := h.finished
  cases step_moves hstep <;> simp_all

/-- **A run that nobody stops** loses nothing on the way, and each step brings it nearer to the
end. -/
theorem undisturbed_run : ∀ (as : List (Action ε)) {s s' : State α ε},
    Inv chunks ending s → Active chunks ending s ∨ Complete chunks ending s →
    s.consumer.calm = true → run (step ending) s as = some s' →
    (∀ a ∈ as, a.disturbs = false) →
    (Active chunks ending s' ∨ Complete chunks ending s') ∧
      as.length + s'.weight + 3 * s.fired ≤ s.weight + 3 * s'.fired
  | [], s, s', _, hphase, _, h, _ => by
    cases h
    exact ⟨hphase, by simp⟩
  | a :: as, s, s', hI, hphase, hcalm, h, has => by
    obtain ⟨ha, has⟩ := List.forall_mem_cons.1 has
    rw [run_cons, Option.bind_eq_some_iff] at h
    obtain ⟨s₁, h₁, h⟩ := h
    rcases hphase with hA | hC
    · have hphase' : Active chunks ending s₁ ∨ Complete chunks ending s₁ := by
        rcases hA.step hI.capacity h₁ with hA' | hC' | hL'
        · exact .inl hA'
        · exact .inr hC'
        · exact absurd ⟨ha, hcalm⟩ hL'.2
      have hweight := weight_step hA ha hcalm h₁
      obtain ⟨hend, hrun⟩ := undisturbed_run as (hI.step h₁) hphase' (calm_step ha hcalm h₁) h has
      refine ⟨hend, ?_⟩
      rw [List.length_cons]
      omega
    · exact (hC.stuck h₁).elim

/-! ## Nothing is lost -/

/-- What holds of every run, whoever stops it. -/
structure Faithful (chunks : List α) (ending : Option ε) (s : State α ε) : Prop where
  order : s.yielded <+: chunks
  /-- In the loop, what is not yielded yet is in the queue, with the producer or still to come. -/
  kept : s.consumer.active = true →
    s.yielded.map .chunk ++ s.queue ++ s.producer.pending s.rest ending = stream chunks ending
  returned : s.consumer = .gone .returned → s.yielded = chunks ∧ ending = none
  raised : ∀ exc, s.consumer = .gone (.raised exc) → s.yielded = chunks ∧ ending = some exc
  /-- A timeout leads to one comment, except for one that is overtaken by a cancellation. -/
  beats : s.comments ≤ s.fired ∧ s.fired ≤ s.comments + 1
  beatsInLoop : s.consumer.active = true → s.fired = s.comments + s.consumer.due
  closed : ∀ outcome, s.consumer = .gone outcome → s.source ≠ .opened

theorem Inv.faithful (hI : Inv chunks ending s) : Faithful chunks ending s := by
  have hclosed : ∀ outcome, s.consumer = .gone outcome → s.source ≠ .opened := by
    intro outcome hgone
    have hsource := hI.source
    rcases hI.phase with hA | hL
    · have hactive := hA.active
      rw [hgone] at hactive
      cases hactive
    · rcases hL.gone outcome hgone with hp | hp
      · rw [hp] at hsource
        exact hsource
      · rw [hp] at hsource
        have hunstarted : s.source = .unstarted := hsource
        rw [hunstarted]
        exact nofun
  rcases hI.phase with hA | hL
  · have hactive := hA.active
    refine ⟨hA.ordered, fun _ => hA.flow, fun hgone => ?_, fun exc hgone => ?_, hA.timers,
      fun _ => hA.timer, hclosed⟩
    all_goals
      rw [hgone] at hactive
      cases hactive
  · obtain ⟨outcome, hleft, houtcome⟩ := hL.outcome
    have hactive : s.consumer.active = true → False := by
      intro hactive
      cases hc : s.consumer <;> rw [hc] at hactive hleft <;> cases hactive <;> cases hleft
    refine ⟨?_, fun h => (hactive h).elim, fun hgone => ?_, fun exc hgone => ?_, hL.timer,
      fun h => (hactive h).elim, hclosed⟩
    · cases outcome with
      | returned | raised exc =>
        exact houtcome.1 ▸ List.prefix_rfl
      | stopped | cancelled | sendFailed => exact houtcome
    all_goals
      rw [hgone] at hleft
      cases hleft
      exact houtcome

/-- **Heartbeats lose nothing.** In every run what was yielded is a prefix of the chunks, all of
them if the generator ended or raised, which it then did as the source; the comments are the
timeouts; and the source is not left open. A run that nobody stops takes at most as many steps as
the chunks and the timeouts pay for, and unless it has ended with all chunks, and a comment for
every timeout, some step other than the timer's is possible. -/
theorem heartbeats_lose_nothing (chunks : List α) (ending : Option ε) :
    (∀ s, Reachable (step ending) (init chunks) s → Faithful chunks ending s) ∧
    ∀ as s, run (step ending) (init chunks) as = some s → (∀ a ∈ as, a.disturbs = false) →
      as.length ≤ 4 * chunks.length + 6 + 3 * s.fired ∧
      (Complete chunks ending s ∨
        ∃ a, a.disturbs = false ∧ a ≠ .expire ∧ (step ending s a).isSome = true) := by
  have hinit := Inv.init chunks ending
  constructor
  · intro s h
    exact (h.invariant hinit fun _ _ _ hI _ hs => hI.step hs).faithful
  · intro as s h has
    have hactive : Active chunks ending (init chunks) :=
      hinit.phase.resolve_right fun hL => let ⟨_, hleft, _⟩ := hL.outcome; nomatch hleft
    obtain ⟨hend, hweight⟩ := undisturbed_run as hinit (.inl hactive) rfl h has
    have hstart : (init chunks : State α ε).weight = 1 + 2 * 0 + (4 * (chunks.length + 1) + 1) :=
      rfl
    have hfired : (init chunks : State α ε).fired = 0 := rfl
    refine ⟨by omega, ?_⟩
    rcases hend with hA | hC
    · exact .inr (active_progress hA)
    · exact .inl hC

/-- The timer fires in the turn in which the first chunk is put. -/
def sameTurn : List (Action String) :=
  [.next, .start, .pull, .expire, .resume, .sent, .next, .pull, .resume, .pull, .next]

theorem heartbeats_lose_nothing_sameTurn : ∃ s, run (step none) (init [1, 2]) sameTurn = some s ∧
    s.comments = 1 ∧ Faithful [1, 2] none s ∧
    (Complete [1, 2] none s ∨
      ∃ a, a.disturbs = false ∧ a ≠ .expire ∧ (step none s a).isSome = true) := by
  have hrun : (run (step none) (init [1, 2]) sameTurn).map State.comments = some 1 := by decide
  obtain ⟨s, hs, hcomments⟩ := Option.map_eq_some_iff.1 hrun
  obtain ⟨hall, hundisturbed⟩ := heartbeats_lose_nothing [1, 2] (none : Option String)
  exact ⟨s, hs, hcomments, hall s (.of_run hs), (hundisturbed sameTurn s hs (by decide)).2⟩

end Heartbeats

end AgentLab.Gateway
