import AgentLab.Gateway.Chat
import AgentLab.Gateway.Queue

/-!
# Chat requests at work

`Gateway.chat`, `ChatResponse` and `_with_heartbeats` as a system of tasks: any number of requests,
each with its handler, the answer task that the handler watches, and for a stream the producer task
that runs the generator `backend_chunks`. One event is what a task does between two suspension
points, and what the world answers there.

What is sent and logged is in `Answer`; here a send or a chunk only arrives, fails or has to wait. A
task that is cancelled while it is suspended has `CancelledError` raised in its next step; in
`slot` the lock does that. Events allow more than the event loop: a send may always suspend.

The first step that can suspend in `async with client.stream(...)` is the one that sends the POST,
so it is counted there, and the connection is taken to be open until the block has been left.
-/

namespace AgentLab.Gateway

open Python

/-! ## The tasks of a request -/

/-- How `backend_chunks` ends: at `[DONE]`, with a `BackendError`, with another exception, or by
`CancelledError` or `GeneratorExit`. -/
inductive Ended
  | done
  | failed
  | raised
  | cancelled
  deriving DecidableEq, Repr

/-- `backend_chunks`, where it is suspended. -/
inductive Gen
  /-- In `slot`, waiting for the lock. -/
  | queued
  /-- Sending the POST, or waiting for the head of the response. -/
  | connecting
  | reading
  /-- Leaving `client.stream`. -/
  | closing (e : Ended)
  deriving DecidableEq, Repr

/-- The items that `asyncio.Queue` of `_with_heartbeats` holds at most. -/
def MAXSIZE : ℕ := 64

/-- The task `produce`. -/
inductive Producer
  | ready
  | running (g : Gen)
  /-- Handing a chunk to a full queue; the generator is suspended at its `yield`. -/
  | putting
  /-- Handing the end or the error to a full queue. -/
  | puttingLast (e : Ended)
  /-- Over, with the end or the error behind the chunks in the queue, unless it was cancelled. -/
  | finished (last : Option Ended)
  deriving DecidableEq, Repr

/-- The loop of `_stream` over `_with_heartbeats`, where it is suspended. -/
inductive Loop
  | getting
  /-- Sending a keep-alive comment. -/
  | beating
  | sending
  /-- Waiting for the producer to end, with an exception to raise on or not. -/
  | joining (raised : Bool)
  deriving DecidableEq, Repr

/-- `_with_heartbeats`, started. -/
structure Beats where
  loop : Loop
  /-- The chunks in the queue. -/
  chunks : ℕ
  producer : Producer
  /-- The producer has a `CancelledError` coming. -/
  cancelled : Bool
  deriving DecidableEq, Repr

/-- The task of `_stream` or `_complete`. -/
inductive Task
  | ready
  /-- Sending the start of a stream. -/
  | starting
  /-- In the generator, for `_collect`. -/
  | collecting (g : Gen)
  | streaming (b : Beats)
  /-- Sending the end of an answer; so many sends are still to come after this one. -/
  | ending (n : ℕ)
  | finished (raised : Bool)
  deriving DecidableEq, Repr

structure Answering where
  streams : Bool
  task : Task
  /-- The task has a `CancelledError` coming. -/
  cancelled : Bool
  deriving DecidableEq, Repr

/-- Why a request is not answered. -/
inductive Refusal
  | error (e : ApiError)
  /-- The client left while its body was read. -/
  | disconnected
  | internal
  deriving DecidableEq, Repr

/-- `Gateway.chat` and `ChatResponse.__call__`, where they are suspended. -/
inductive Phase
  | reading
  | counting
  /-- In `asyncio.wait`; `left` is the watcher having ended. -/
  | answering (a : Answering) (left : Bool)
  /-- In `asyncio.gather`, after cancelling both. -/
  | gathering (a : Answering)
  | closed
  deriving DecidableEq, Repr

structure ChatRequest where
  /-- The Authorization header. -/
  header : Str
  /-- `KeyStore.check` when the request arrives; the keys are read again whenever their file
  changes. -/
  check : Str → Except PyExc (Option Str)
  body : Option Json
  prepared : Option Prepared
  promptTokens : Option ℕ
  maxTokens : Option ℤ
  place : Option PlaceId
  refusal : Option Refusal
  phase : Phase
  /-- The POSTs to the backend. -/
  posts : ℕ
  /-- The lines in the request log. -/
  logLines : ℕ

/-- What a gateway checks requests with, besides the keys. -/
structure Checks where
  rt : Runtime
  rules : Rules

/-! ## The generator -/

/-- The call of `slot`: the generator runs into the POST or into the lock. -/
def callSlot (q : RequestQueue) (p : PlaceId) : Option (RequestQueue × Gen × ℕ) :=
  (q.step (.slot p)).map fun q' =>
    if q'.stage p = some .running then (q', .connecting, 1) else (q', .queued, 0)

inductive GenEvent
  /-- The task in `slot` runs on. -/
  | wake
  | connected
  /-- The connection fails, the stream ends or a line of it fails. -/
  | stop (e : Ended)
  /-- `client.stream` has been left, perhaps with an exception of its own. -/
  | closed (raised : Option Ended)
  deriving DecidableEq, Repr

/-- The generator goes on, or ends. -/
def Gen.step (q : RequestQueue) (p : PlaceId) : Gen → GenEvent →
    Option (RequestQueue × (Gen ⊕ Ended) × ℕ)
  | .queued, .wake => (q.step (.wake p)).map fun q' =>
    if q'.stage p = some .running then (q', .inl .connecting, 1) else (q', .inr .cancelled, 0)
  | .connecting, .connected => some (q, .inl .reading, 0)
  | .connecting, .stop e =>
    if e = .failed ∨ e = .raised then some (q, .inl (.closing e), 0) else none
  | .reading, .stop e => if e = .cancelled then none else some (q, .inl (.closing e), 0)
  | .closing e, .closed raised =>
    if raised = some .done ∨ raised = some .cancelled then none
    else (q.step (.exit p)).map fun q' => (q', .inr (raised.getD e), 0)
  | _, _ => none

/-- `Task.cancel` of the task that runs the generator: in `slot` the lock is told, anywhere else the
task. -/
def Gen.cancel (q : RequestQueue) (p : PlaceId) : Gen → Option (RequestQueue × Bool)
  | .queued => (q.step (.cancel p)).map fun q' => (q', false)
  | _ => some (q, true)

/-! ## The producer -/

namespace Beats

def start : Beats := ⟨.getting, 0, .ready, false⟩

/-- The task `produce` starts the generator. -/
def produce (q : RequestQueue) (p : PlaceId) (b : Beats) : Option (RequestQueue × Beats × ℕ) :=
  match b.producer with
  | .ready =>
    if b.cancelled then none
    else (callSlot q p).map fun (q', g, n) => (q', { b with producer := .running g }, n)
  | _ => none

/-- A chunk arrives. -/
def chunk (b : Beats) : Option Beats :=
  match b.producer with
  | .running .reading =>
    if b.cancelled then none
    else if b.chunks < MAXSIZE then some { b with chunks := b.chunks + 1 }
    else some { b with producer := .putting }
  | _ => none

/-- `queue.put` of the end or the error. -/
def putLast (b : Beats) (e : Ended) : Beats :=
  if b.chunks < MAXSIZE then { b with producer := .finished (some e) }
  else { b with producer := .puttingLast e }

/-- The generator goes on in the producer. -/
def gen (q : RequestQueue) (p : PlaceId) (b : Beats) (e : GenEvent) :
    Option (RequestQueue × Beats × ℕ) :=
  match b.producer with
  | .running g =>
    if b.cancelled then none
    else (g.step q p e).map fun
      | (q', .inl g', n) => (q', { b with producer := .running g' }, n)
      | (q', .inr .cancelled, n) => (q', { b with producer := .finished none }, n)
      | (q', .inr e, n) => (q', b.putLast e, n)
  | _ => none

/-- The queue takes what the producer hands to it. -/
def put (b : Beats) : Option Beats :=
  if b.cancelled = true ∨ MAXSIZE ≤ b.chunks then none
  else
    match b.producer with
    | .putting => some { b with chunks := b.chunks + 1, producer := .running .reading }
    | .puttingLast e => some { b with producer := .finished (some e) }
    | _ => none

/-- `CancelledError` is raised in the producer; the generator is closed in it. -/
def raiseCancelled (b : Beats) : Option Beats :=
  if b.cancelled then
    match b.producer with
    | .ready | .puttingLast _ => some { b with producer := .finished none, cancelled := false }
    | .running .queued | .finished _ => none
    | .running _ | .putting =>
      some { b with producer := .running (.closing .cancelled), cancelled := false }
  else none

/-- `producer.cancel()`. -/
def cancel (q : RequestQueue) (p : PlaceId) (b : Beats) : Option (RequestQueue × Beats) :=
  match b.producer with
  | .finished _ => some (q, b)
  | .running g => (g.cancel q p).map fun (q', c) => (q', { b with cancelled := b.cancelled || c })
  | _ => some (q, { b with cancelled := true })

end Beats

/-! ## The answer task -/

/-- `finally` of `_with_heartbeats`: the producer is cancelled and waited for. -/
def leaveBeats (q : RequestQueue) (p : PlaceId) (b : Beats) (raised : Bool) :
    Option (RequestQueue × Task) :=
  (b.cancel q p).map fun (q', b') =>
    match b'.producer with
    | .finished _ => (q', .finished raised)
    | _ => (q', .streaming { b' with loop := .joining raised })

/-- What `_stream` does with a chunk: send it, leave it out, or raise. -/
inductive Reaction
  | send
  | skip
  | raise
  deriving DecidableEq, Repr

inductive TaskEvent
  /-- The first step. -/
  | start
  /-- A send returns, or raises. -/
  | sent (ok : Bool)
  /-- The generator goes on, in the task that runs it. -/
  | gen (e : GenEvent)
  /-- A chunk arrives; `_collect` may raise on it. -/
  | chunk (ok : Bool)
  /-- `queue.get` returns. -/
  | get (r : Reaction)
  /-- `queue.get` times out. -/
  | beat
  | joined
  /-- `CancelledError` is raised in the answer task. -/
  | cancelled
  | produce
  | put
  /-- `CancelledError` is raised in the producer. -/
  | producerCancelled
  deriving DecidableEq, Repr

namespace Answering

/-- The first step: a stream sends its start, and `_collect` runs the generator at once. -/
def start (q : RequestQueue) (p : PlaceId) (a : Answering) : Option (RequestQueue × Task × ℕ) :=
  if a.streams then some (q, .starting, 0)
  else (callSlot q p).map fun (q', g, n) => (q', .collecting g, n)

def sent (q : RequestQueue) (p : PlaceId) (ok : Bool) : Task → Option (RequestQueue × Task)
  | .starting => some (q, if ok then .streaming .start else .finished true)
  | .streaming b =>
    match b.loop with
    | .beating | .sending =>
      if ok then some (q, .streaming { b with loop := .getting }) else leaveBeats q p b true
    | _ => none
  | .ending n =>
    some (q, if ok then (if n = 0 then .finished false else .ending (n - 1)) else .finished true)
  | _ => none

/-- Where `_complete` goes on from the end of the generator. -/
def afterGen : Ended → Task
  | .done | .failed => .ending 1
  | .raised => .finished true
  | .cancelled => .finished false

def gen (q : RequestQueue) (p : PlaceId) (e : GenEvent) (cancelled : Bool) :
    Task → Option (RequestQueue × Task × ℕ)
  | .collecting g =>
    if cancelled then none
    else (g.step q p e).map fun
      | (q', .inl g', n) => (q', .collecting g', n)
      | (q', .inr e, n) => (q', afterGen e, n)
  | .streaming b => (b.gen q p e).map fun (q', b', n) => (q', .streaming b', n)
  | _ => none

def chunk (ok cancelled : Bool) : Task → Option Task
  | .collecting .reading =>
    if cancelled then none else some (.collecting (if ok then .reading else .closing .raised))
  | .streaming b => b.chunk.map .streaming
  | _ => none

def get (q : RequestQueue) (p : PlaceId) (r : Reaction) : Task → Option (RequestQueue × Task)
  | .streaming b =>
    match b.loop, b.chunks, b.producer with
    | .getting, n + 1, _ =>
      match r with
      | .send => some (q, .streaming { b with loop := .sending, chunks := n })
      | .skip => some (q, .streaming { b with chunks := n })
      | .raise => leaveBeats q p { b with chunks := n } true
    | .getting, 0, .finished (some e) => some (q, afterGen e)
    | _, _, _ => none
  | _ => none

/-- `CancelledError` is raised where the answer task is suspended. -/
def raiseCancelled (q : RequestQueue) (p : PlaceId) : Task → Option (RequestQueue × Task)
  | .ready | .starting | .ending _ => some (q, .finished false)
  | .collecting .queued | .finished _ => none
  | .collecting _ => some (q, .collecting (.closing .cancelled))
  | .streaming b =>
    match b.loop with
    | .joining _ => none
    | _ => leaveBeats q p b false

/-- `answer.cancel()`; a task that waits for its producer passes it on. -/
def cancel (q : RequestQueue) (p : PlaceId) (a : Answering) : Option (RequestQueue × Answering) :=
  match a.task with
  | .finished _ => some (q, a)
  | .collecting g => (g.cancel q p).map fun (q', c) => (q', { a with cancelled := c })
  | .streaming b =>
    match b.loop with
    | .joining _ => (b.cancel q p).map fun (q', b') => (q', { a with task := .streaming b' })
    | _ => some (q, { a with cancelled := true })
  | _ => some (q, { a with cancelled := true })

/-- The parts of a stream that are not the answer task's own. -/
def onBeats (f : Beats → Option Beats) : Task → Option Task
  | .streaming b => (f b).map .streaming
  | _ => none

/-- One event of the answer task or of its producer. -/
def step (q : RequestQueue) (p : PlaceId) (a : Answering) :
    TaskEvent → Option (RequestQueue × Answering × ℕ)
  | .start =>
    if a.task = .ready ∧ a.cancelled = false then
      (a.start q p).map fun (q', t, n) => (q', { a with task := t }, n)
    else none
  | .sent ok =>
    if a.cancelled then none
    else (sent q p ok a.task).map fun (q', t) => (q', { a with task := t }, 0)
  | .gen e => (gen q p e a.cancelled a.task).map fun (q', t, n) => (q', { a with task := t }, n)
  | .chunk ok => (chunk ok a.cancelled a.task).map fun t => (q, { a with task := t }, 0)
  | .get r =>
    if a.cancelled then none
    else (get q p r a.task).map fun (q', t) => (q', { a with task := t }, 0)
  | .beat =>
    match a.task with
    | .streaming b =>
      if a.cancelled = false ∧ b.loop = .getting then
        some (q, { a with task := .streaming { b with loop := .beating } }, 0)
      else none
    | _ => none
  | .joined =>
    match a.task with
    | .streaming ⟨.joining raised, _, .finished _, _⟩ =>
      some (q, { a with task := .finished raised }, 0)
    | _ => none
  | .cancelled =>
    if a.cancelled then
      (raiseCancelled q p a.task).map fun (q', t) =>
        (q', { a with task := t, cancelled := false }, 0)
    else none
  | .produce =>
    match a.task with
    | .streaming b =>
      (b.produce q p).map fun (q', b', n) => (q', { a with task := .streaming b' }, n)
    | _ => none
  | .put => (onBeats Beats.put a.task).map fun t => (q, { a with task := t }, 0)
  | .producerCancelled =>
    (onBeats Beats.raiseCancelled a.task).map fun t => (q, { a with task := t }, 0)

end Answering

/-! ## The handler -/

/-- How `read_json` ends. -/
inductive BodyRead
  | json (value : Json)
  | refused (e : ApiError)
  | disconnected
  | raised

inductive Event
  | body (r : BodyRead)
  /-- `counter.count` returns, or raises with this text. -/
  | counted (r : Except Str ℕ)
  /-- The watcher ends: the client has left. -/
  | left
  /-- `asyncio.wait` returns. -/
  | noticed
  /-- `asyncio.gather` returns. -/
  | gathered
  | task (e : TaskEvent)

namespace ChatRequest

variable (gw : Checks)

/-- The answer is an error; its line is written. -/
def refuse (r : ChatRequest) (why : Refusal) : ChatRequest :=
  { r with refusal := some why, phase := .closed, logLines := r.logLines + 1 }

/-- An exception of `authenticate` or `prepare`. -/
def refusalOf : Raised ApiError → Refusal
  | .own e => .error e
  | .builtin _ => .internal

/-- The first step of `chat`. -/
def arrive (header : Str) (check : Str → Except PyExc (Option Str)) : ChatRequest :=
  let r : ChatRequest := ⟨header, check, none, none, none, none, none, none, .reading, 0, 0⟩
  match authenticate check header with
  | .error x => r.refuse (refusalOf x)
  | .ok _ => r

/-- `chat` from the body on. -/
def readBody (q : RequestQueue) (r : ChatRequest) : BodyRead → ChatRequest
  | .json value =>
    let r := { r with body := some value }
    match prepare gw.rt value gw.rules with
    | .error x => r.refuse (refusalOf x)
    | .ok prepared =>
      let r := { r with prepared := some prepared }
      if q.full then r.refuse (.error busy) else { r with phase := .counting }
  | .refused e => r.refuse (.error e)
  | .disconnected => r.refuse .disconnected
  | .raised => r.refuse .internal

def noTemplate (text : Str) : ApiError :=
  ⟨400, str "cannot apply the chat template: " ++ text, none, none, str "invalid_request_error"⟩

/-- `chat` from the count on, and the first step of `ChatResponse.__call__`. -/
def count (q : RequestQueue) (r : ChatRequest) (prepared : Prepared) :
    Except Str ℕ → RequestQueue × ChatRequest
  | .error text => (q, r.refuse (.error (noTemplate text)))
  | .ok tokens =>
    let r := { r with promptTokens := some tokens }
    match limit tokens prepared.requestedMaxTokens gw.rules.limits with
    | .error e => (q, r.refuse (.error e))
    | .ok maxTokens =>
      let r := { r with maxTokens := some maxTokens }
      match q.reserve with
      | (q', .error _) => (q', r.refuse (.error busy))
      | (q', .ok place) =>
        (q', { r with place := some place,
                      phase := .answering ⟨prepared.stream, .ready, false⟩ false })

/-- One event of a request, with the queue. -/
def step (q : RequestQueue) (r : ChatRequest) : Event → Option (RequestQueue × ChatRequest)
  | .body read =>
    match r.phase with
    | .reading => some (q, r.readBody gw q read)
    | _ => none
  | .counted tokens =>
    match r.phase, r.prepared with
    | .counting, some prepared => some (r.count gw q prepared tokens)
    | _, _ => none
  | .left =>
    match r.phase with
    | .answering a _ => some (q, { r with phase := .answering a true })
    | _ => none
  | .noticed =>
    match r.phase, r.place with
    | .answering a left, some p =>
      if left = true ∨ ∃ raised, a.task = .finished raised then
        (a.cancel q p).map fun (q', a') => (q', { r with phase := .gathering a' })
      else none
    | _, _ => none
  | .gathered =>
    match r.phase, r.place with
    | .gathering a, some p =>
      match a.task with
      | .finished _ =>
        (q.step (.giveUp p)).map fun q' =>
          (q', { r with phase := .closed, logLines := r.logLines + 1 })
      | _ => none
    | _, _ => none
  | .task e =>
    match r.place with
    | none => none
    | some p =>
      match r.phase with
      | .answering a left => (a.step q p e).map fun (q', a', n) =>
          (q', { r with phase := .answering a' left, posts := r.posts + n })
      | .gathering a => (a.step q p e).map fun (q', a', n) =>
          (q', { r with phase := .gathering a', posts := r.posts + n })
      | _ => none

end ChatRequest

/-! ## The system -/

structure System where
  queue : RequestQueue
  requests : List ChatRequest

inductive Action
  | arrive (header : Str) (check : Str → Except PyExc (Option Str))
  | act (i : ℕ) (e : Event)

namespace System

def new (queueSize : ℕ) : System := ⟨RequestQueue.new queueSize, []⟩

def step (gw : Checks) (s : System) : Action → Option System
  | .arrive header check =>
    some { s with requests := s.requests ++ [ChatRequest.arrive header check] }
  | .act i e =>
    match s.requests[i]? with
    | none => none
    | some r => (r.step gw s.queue e).map fun (q', r') => ⟨q', s.requests.set i r'⟩

end System

end AgentLab.Gateway
