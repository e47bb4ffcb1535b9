import AgentLab.Lib.Runs

/-!
# Heartbeats

`_with_heartbeats` of `gateway/app.py`: a producer task pulls chunks from the source and puts them
into a queue of 64 entries; the generator takes them out, and sends a comment each time that
`asyncio.wait_for(queue.get(), interval)` times out.

The two tasks and the timer are a system of steps, each from one point where a task waits to the
next. `Queue.put` and `Queue.get` go on at once when they can, and otherwise wait for a future that
the other side sets; a task that is cancelled, by the timer or from outside, raises at the point
where it waits even if its future was set in the same turn of the loop, and a cancelled `get` leaves
the item in the queue.

The source is what it still will produce and how it ends. It closes when it is cancelled or closed,
as it likes: with the `CancelledError` or `GeneratorExit` that it got, or in another way. Chunks and
exceptions are of any type.
-/

namespace AgentLab.Gateway

namespace Heartbeats

variable {α ε : Type}

/-- An entry of the queue. -/
inductive Item (α ε : Type)
  | chunk (c : α)
  | ended
  | error (exc : ε)
  deriving DecidableEq

/-- How the generator is left. -/
inductive Outcome (ε : Type)
  | returned
  | raised (exc : ε)
  /-- The caller closed it. -/
  | stopped
  | cancelled
  /-- `send` raised. -/
  | sendFailed
  deriving DecidableEq

/-- Where the generator is. -/
inductive Consumer (ε : Type)
  | created
  /-- In `wait_for`: whether the future of `get` is set, whether the timer fired, and whether the
  task is cancelled. -/
  | waiting (woken expired cancelled : Bool)
  /-- In `send(KEEP_ALIVE)`. -/
  | beating (cancelled : Bool)
  | atYield
  /-- In `await producer`. -/
  | joining (outcome : Outcome ε)
  | gone (outcome : Outcome ε)
  deriving DecidableEq

/-- Where the task `produce` is. -/
inductive Producer (α ε : Type)
  | absent
  | ready
  /-- Waiting for the source. -/
  | pulling
  /-- In `queue.put`: whether its future is set. -/
  | putting (item : Item α ε) (woken : Bool)
  /-- The source was cancelled or closed, and is on its way out. -/
  | closing
  | finished
  deriving DecidableEq

inductive Source
  | unstarted
  | opened
  | closed
  deriving DecidableEq

structure State (α ε : Type) where
  consumer : Consumer ε
  producer : Producer α ε
  /-- Whether the producer is to be cancelled where it waits. -/
  cancelled : Bool
  source : Source
  /-- What the source still will produce. -/
  rest : List α
  queue : List (Item α ε)
  yielded : List α
  /-- How often the timer fired. -/
  fired : ℕ
  /-- How many comments were sent. -/
  comments : ℕ
  deriving DecidableEq

inductive Action (ε : Type)
  /-- The caller asks for the next chunk. -/
  | next
  /-- The caller closes the generator. -/
  | stop
  /-- The task of the caller is cancelled. -/
  | cancel
  /-- The timer fires. -/
  | expire
  /-- The generator goes on in `wait_for`. -/
  | resume
  | sent
  | sendFails
  | join
  /-- The producer begins. -/
  | start
  /-- The source goes on. -/
  | pull
  /-- The producer goes on in `put`. -/
  | resumePut
  /-- The source has closed, with what it was told or in a way of its own. -/
  | close (ending : Option (Option ε))
  deriving DecidableEq

def QUEUE_SIZE : ℕ := 64

/-- What the producer puts after the last chunk. -/
def lastItem : Option ε → Item α ε
  | none => .ended
  | some exc => .error exc

/-- A set future, unless it was cancelled. -/
def Consumer.wake : Consumer ε → Consumer ε
  | .waiting false false false => .waiting true false false
  | c => c

def Producer.wake : Producer α ε → Producer α ε
  | .putting item _ => .putting item true
  | p => p

/-- Where the producer is after it put an item. -/
def Item.next : Item α ε → Producer α ε
  | .chunk _ => .pulling
  | _ => .finished

/-- `queue.put`. -/
def State.put (s : State α ε) (item : Item α ε) : State α ε :=
  if QUEUE_SIZE ≤ s.queue.length then { s with producer := .putting item false }
  else { s with
    queue := s.queue ++ [item], consumer := s.consumer.wake, producer := item.next }

/-- The `finally` block, up to where it waits. -/
def State.leave (s : State α ε) (outcome : Outcome ε) : State α ε :=
  match s.producer with
  | .finished => { s with consumer := .gone outcome }
  | _ => { s with consumer := .joining outcome, cancelled := true }

/-- What the loop does with an item. -/
def State.handle (s : State α ε) : Item α ε → State α ε
  | .chunk c => { s with consumer := .atYield, yielded := s.yielded ++ [c] }
  | .ended => s.leave .returned
  | .error exc => s.leave (.raised exc)

/-- `queue.get`, and what follows if it need not wait. -/
def State.get (s : State α ε) : State α ε :=
  match s.queue with
  | [] => { s with consumer := .waiting false false false }
  | item :: queue => { s with queue := queue, producer := s.producer.wake }.handle item

def init (chunks : List α) : State α ε :=
  ⟨.created, .absent, false, .unstarted, chunks, [], [], 0, 0⟩

/-- The steps of the generator, its caller and the timer. -/
def consumerStep (s : State α ε) : Action ε → Option (State α ε)
  | .next =>
    match s.consumer with
    | .created => some { s with producer := .ready }.get
    | .atYield => some s.get
    | _ => none
  | .stop =>
    match s.consumer with
    | .created => some { s with consumer := .gone .stopped }
    | .atYield => some (s.leave .stopped)
    | _ => none
  | .cancel =>
    match s.consumer with
    | .waiting woken expired _ => some { s with consumer := .waiting woken expired true }
    | .beating _ => some { s with consumer := .beating true }
    -- Who awaits a task and is cancelled cancels the task.
    | .joining _ => some { s with cancelled := true }
    | _ => none
  | .expire =>
    match s.consumer with
    | .waiting woken false cancelled =>
      some { s with consumer := .waiting woken true cancelled, fired := s.fired + 1 }
    | _ => none
  | .resume =>
    match s.consumer with
    | .waiting _ _ true => some (s.leave .cancelled)
    | .waiting _ true false =>
      some { s with consumer := .beating false, comments := s.comments + 1 }
    | .waiting true false false => some s.get
    | _ => none
  | .sent =>
    match s.consumer with
    | .beating true => some (s.leave .cancelled)
    | .beating false => some s.get
    | _ => none
  | .sendFails =>
    match s.consumer with
    | .beating _ => some (s.leave .sendFailed)
    | _ => none
  | .join =>
    match s.consumer, s.producer with
    | .joining outcome, .finished => some { s with consumer := .gone outcome }
    | _, _ => none
  | _ => none

/-- The steps of the producer and the source. -/
def producerStep (ending : Option ε) (s : State α ε) : Action ε → Option (State α ε)
  | .start =>
    match s.producer with
    | .ready =>
      if s.cancelled then some { s with producer := .finished, cancelled := false }
      else some { s with producer := .pulling, source := .opened }
    | _ => none
  | .pull =>
    match s.producer with
    | .pulling =>
      if s.cancelled then some { s with producer := .closing, cancelled := false }
      else
        match s.rest with
        | c :: rest => some ({ s with rest := rest }.put (.chunk c))
        | [] => some ({ s with source := .closed }.put (lastItem ending))
    | _ => none
  | .resumePut =>
    match s.producer with
    | .putting item woken =>
      if s.cancelled then
        match item with
        | .chunk _ => some { s with producer := .closing, cancelled := false }
        | _ => some { s with producer := .finished, cancelled := false }
      else if woken then some (s.put item)
      else none
    | _ => none
  | .close how =>
    match s.producer, how with
    | .closing, none => some { s with producer := .finished, source := .closed }
    | .closing, some ending' => some ({ s with source := .closed }.put (lastItem ending'))
    | _, _ => none
  | _ => none

def step (ending : Option ε) (s : State α ε) (a : Action ε) : Option (State α ε) :=
  match a with
  | .start | .pull | .resumePut | .close _ => producerStep ending s a
  | _ => consumerStep s a

end Heartbeats

end AgentLab.Gateway
