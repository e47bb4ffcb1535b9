import AgentLab.Lib.Runs

/-!
# Whom the signals of `terminate` reach

`terminate` of the backend's `process.py`, with `_wait_exit`, operation by operation, while the
process exits and its pid may get another owner. `start` calls it with the process it spawned, which
keeps its pid until `poll` has seen it exit; `stop` calls it for a process of another call, with a
check whether the pid still runs the module.

No signal reaches another process: with the process given in every run, whatever the checks say, and
without it in every run in which the pid gets no other owner (`terminate_spares`).
-/

namespace AgentLab.Backend.Terminate

open Runs

inductive Signal
  | sigterm
  | sigkill
  deriving DecidableEq, Repr

/-- Whose the pid is. -/
inductive Owner
  /-- The process to stop runs. -/
  | running
  /-- It has exited, and no one has waited for it. -/
  | zombie
  | nobody
  | another
  deriving DecidableEq, Repr

/-- Where `terminate` stands; `killed` says that SIGKILL was sent. -/
inductive Phase
  | entered
  | terminating
  /-- In `_wait_exit`, before the clock is read. -/
  | waiting (killed : Bool)
  /-- In `_wait_exit`, before `poll` or `alive`. -/
  | checking (killed : Bool)
  | killing
  | returned (killed : Bool)
  | raised
  deriving DecidableEq, Repr

structure Call where
  /-- `proc` is given. -/
  child : Bool
  owner : Owner
  /-- `proc.returncode` is set. -/
  reaped : Bool
  /-- The signals sent so far, and whose the pid was. -/
  signals : List (Signal × Owner)
  phase : Phase
  deriving DecidableEq, Repr

/-- What an operation finds. -/
structure Finds where
  /-- The deadline has passed. -/
  late : Bool
  /-- `alive(pid)`, of a pid that has an owner. -/
  alive : Bool
  deriving DecidableEq, Repr

inductive Action
  /-- The next operation of `terminate`. -/
  | go (e : Finds)
  | exits
  /-- The parent of a process that is not ours waits for it. -/
  | collected
  /-- The pid is used again. -/
  | reused
  | anotherExits
  deriving DecidableEq, Repr

/-- `proc.poll()`, which waits for a process that has exited; whether it is not `None`. -/
def poll (c : Call) : Call × Bool :=
  if c.reaped then (c, true)
  else if c.owner = .zombie then ({ c with owner := .nobody, reaped := true }, true)
  else (c, false)

/-- `alive(pid)`: the pid has an owner, and `ps` names the module. -/
def isAlive (owner : Owner) (e : Finds) : Bool :=
  match owner with
  | .running | .another => e.alive
  | .zombie | .nobody => false

/-- The check in `_wait_exit`; whether the process is gone. -/
def gone (c : Call) (e : Finds) : Call × Bool :=
  if c.child then poll c else (c, !isAlive c.owner e)

/-- `os.kill(pid, …)`; a pid without an owner is no error. -/
def send (c : Call) (s : Signal) : Call := { c with signals := c.signals ++ [(s, c.owner)] }

def next (c : Call) (e : Finds) : Option Call :=
  match c.phase with
  | .entered =>
    if c.child then
      some { (poll c).1 with phase := if (poll c).2 then .returned false else .terminating }
    else some { c with phase := .terminating }
  | .terminating => some { send c .sigterm with phase := .waiting false }
  | .waiting killed =>
    if !e.late then some { c with phase := .checking killed }
    else some { c with phase := if killed then .raised else .killing }
  | .checking killed =>
    some { (gone c e).1 with phase := if (gone c e).2 then .returned killed else .waiting killed }
  | .killing => some { send c .sigkill with phase := .waiting true }
  | .returned _ | .raised => none

def step (c : Call) : Action → Option Call
  | .go e => next c e
  | .exits => if c.owner = .running then some { c with owner := .zombie } else none
  | .collected =>
      if c.owner = .zombie ∧ c.child = false then some { c with owner := .nobody } else none
  | .reused => if c.owner = .nobody then some { c with owner := .another } else none
  | .anotherExits => if c.owner = .another then some { c with owner := .nobody } else none

/-- Without `proc`, the check is right about a process that runs, and the pid is not used again
meanwhile. -/
def Proper (c : Call) : Action → Prop
  | .go e => c.child = false → c.owner = .running → e.alive = true
  | .reused => c.child = true
  | .exits | .collected | .anotherExits => True

instance (c : Call) : (a : Action) → Decidable (Proper c a)
  | .go e => inferInstanceAs (Decidable (c.child = false → c.owner = .running → e.alive = true))
  | .reused => inferInstanceAs (Decidable (c.child = true))
  | .exits | .collected | .anotherExits => .isTrue trivial

def init (child reaped : Bool) (owner : Owner) : Call := ⟨child, owner, reaped, [], .entered⟩

/-! ## The invariant -/

/-- The signals sent in a phase. -/
def Phase.Sent : Phase → List Signal → Prop
  | .entered, sent | .terminating, sent => sent = []
  | .waiting killed, sent | .checking killed, sent =>
      sent = if killed then [.sigterm, .sigkill] else [.sigterm]
  | .killing, sent => sent = [.sigterm]
  | .returned killed, sent =>
    if killed then sent = [.sigterm, .sigkill] else sent = [] ∨ sent = [.sigterm]
  | .raised, sent => sent = [.sigterm, .sigkill]

theorem Phase.Sent.cases {p : Phase} {sent : List Signal} (h : p.Sent sent) :
    sent = [] ∨ sent = [.sigterm] ∨ sent = [.sigterm, .sigkill] := by
  cases p with
  | entered => exact .inl h
  | terminating => exact .inl h
  | waiting killed =>
    cases killed with
    | true => exact .inr (.inr h)
    | false => exact .inr (.inl h)
  | checking killed =>
    cases killed with
    | true => exact .inr (.inr h)
    | false => exact .inr (.inl h)
  | killing => exact .inr (.inl h)
  | returned killed =>
    cases killed with
    | true => exact .inr (.inr h)
    | false => exact h.imp_right .inl
  | raised => exact .inr (.inr h)

/-- A signal may follow, or a check. -/
def Phase.isGoing : Phase → Bool
  | .terminating | .waiting _ | .checking _ | .killing => true
  | .entered | .returned _ | .raised => false

/-- A process keeps its pid until its parent has waited for it. -/
structure Held (c : Call) : Prop where
  child : c.child = true → (c.reaped = true ↔ c.owner = .nobody ∨ c.owner = .another)
  spared : c.child = false → c.owner ≠ .another

structure Inv (c : Call) : Prop extends Held c where
  going : c.child = true → c.phase.isGoing = true → c.reaped = false
  signals : ∀ s ∈ c.signals, s.2 ≠ .another ∧ (c.child = true → s.2 ≠ .nobody)
  sent : c.phase.Sent (c.signals.map Prod.fst)
  ended : ∀ killed, c.phase = .returned killed → c.owner ≠ .running

variable {c c' : Call} {a : Action} {e : Finds}

/-- What `poll` does. -/
theorem poll_cases (h : Held c) (hchild : c.child = true) :
    poll c = (c, false) ∧ c.reaped = false ∨
      ∃ owner, (owner = .nobody ∨ owner = .another) ∧
        poll c = ({ c with owner, reaped := true }, true) := by
  have hpid := h.child hchild
  obtain ⟨child, owner, reaped, signals, phase⟩ := c
  cases reaped with
  | true => exact .inr ⟨owner, hpid.1 rfl, rfl⟩
  | false =>
    cases owner with
    | running => exact .inl ⟨rfl, rfl⟩
    | zombie => exact .inr ⟨.nobody, .inl rfl, rfl⟩
    | nobody => exact absurd (hpid.2 (.inl rfl)) Bool.false_ne_true
    | another => exact absurd (hpid.2 (.inr rfl)) Bool.false_ne_true

/-- A check finds the process there, or it has exited. -/
theorem gone_cases (h : Held c) (halive : c.child = false → c.owner = .running → e.alive = true) :
    gone c e = (c, false) ∧ (c.child = true → c.reaped = false) ∨
      ∃ d, gone c e = (d, true) ∧ Held d ∧ d.owner ≠ .running ∧ d.child = c.child ∧
        d.signals = c.signals := by
  unfold gone
  by_cases hchild : c.child = true
  · rw [if_pos hchild]
    rcases poll_cases h hchild with ⟨hpoll, hreaped⟩ | ⟨owner, howner, hpoll⟩
    · exact .inl ⟨hpoll, fun _ => hreaped⟩
    · refine .inr ⟨_, hpoll, ⟨fun _ => iff_of_true rfl howner, fun hnot => ?_⟩, ?_, rfl, rfl⟩
      · exact absurd hchild (by rw [show c.child = false from hnot]; exact Bool.false_ne_true)
      · rcases howner with rfl | rfl <;> exact fun hrun => by cases hrun
  · rw [if_neg hchild]
    have hchild' := Bool.eq_false_iff.2 hchild
    cases hfound : isAlive c.owner e with
    | true => exact .inl ⟨rfl, fun hc => absurd hc hchild⟩
    | false =>
      refine .inr ⟨c, rfl, h, fun hrun => ?_, rfl, rfl⟩
      have hcheck : isAlive .running e = e.alive := rfl
      rw [hrun, hcheck, halive hchild' hrun] at hfound
      cases hfound

theorem Inv.move (h : Inv c) {p : Phase}
    (hgoing : c.child = true → p.isGoing = true → c.reaped = false)
    (hsent : p.Sent (c.signals.map Prod.fst))
    (hended : ∀ killed, p = .returned killed → c.owner ≠ .running) :
    Inv { c with phase := p } where
  child := h.child
  spared := h.spared
  going := hgoing
  signals := h.signals
  sent := hsent
  ended := hended

/-- While signals may follow, the pid has no other owner, and that of a child is kept. -/
theorem Inv.owner_ne (h : Inv c) (hgoing : c.phase.isGoing = true) :
    c.owner ≠ .another ∧ (c.child = true → c.owner ≠ .nobody) := by
  have hkept : c.child = true → c.owner ≠ .nobody ∧ c.owner ≠ .another := by
    intro hchild
    rw [← not_or, ← h.child hchild, h.going hchild hgoing]
    exact Bool.false_ne_true
  refine ⟨?_, fun hchild => (hkept hchild).1⟩
  by_cases hchild : c.child = true
  · exact (hkept hchild).2
  · exact h.spared (Bool.eq_false_iff.2 hchild)

theorem Inv.send (h : Inv c) (hgoing : c.phase.isGoing = true) {s : Signal} {killed : Bool}
    (hsent : (Phase.waiting killed).Sent (c.signals.map Prod.fst ++ [s])) :
    Inv { send c s with phase := .waiting killed } where
  child := h.child
  spared := h.spared
  going hchild _ := h.going hchild hgoing
  signals s' hs' := by
    rcases List.mem_append.1 hs' with hs' | hs'
    · exact h.signals s' hs'
    · rw [List.mem_singleton.1 hs']
      exact h.owner_ne hgoing
  sent := by
    show (Phase.waiting killed).Sent ((c.signals ++ [(s, c.owner)]).map Prod.fst)
    rw [List.map_append]
    exact hsent
  ended _ hreturned := by cases hreturned

/-- After a check `terminate` returns, or it goes on. -/
theorem Inv.check (h : Inv c) (halive : c.child = false → c.owner = .running → e.alive = true)
    (p : Phase) (killed : Bool) (hp : p.Sent (c.signals.map Prod.fst))
    (hreturn : ∀ sent, p.Sent sent → (Phase.returned killed).Sent sent)
    (hgoing : p.isGoing = true) :
    Inv { (gone c e).1 with phase := if (gone c e).2 then .returned killed else p } := by
  rcases gone_cases h.toHeld halive with
    ⟨hgone, hreaped⟩ | ⟨d, hgone, hheld, howner, hchild, hsignals⟩
  · rw [hgone]
    refine h.move (fun hchild _ => hreaped hchild) hp fun killed' hp' => ?_
    rw [show p = .returned killed' from hp'] at hgoing
    cases hgoing
  · rw [hgone]
    refine ⟨⟨hheld.child, hheld.spared⟩, fun _ hgoing => ?_, fun s hs => ?_, ?_, fun _ _ => howner⟩
    · cases hgoing
    · show s.2 ≠ .another ∧ (d.child = true → s.2 ≠ .nobody)
      rw [hchild]
      exact h.signals s (hsignals ▸ hs)
    · show (Phase.returned killed).Sent (d.signals.map Prod.fst)
      rw [hsignals]
      exact hreturn _ hp

theorem Inv.next (h : Inv c) (halive : c.child = false → c.owner = .running → e.alive = true)
    (hstep : next c e = some c') : Inv c' := by
  have hsent := h.sent
  unfold Terminate.next at hstep
  cases hphase : c.phase with
  | entered =>
    rw [hphase] at hstep hsent
    dsimp only at hstep
    by_cases hchild : c.child = true
    · have hgone : gone c e = poll c := if_pos hchild
      rw [if_pos hchild, ← hgone] at hstep
      cases hstep
      exact h.check halive .terminating false hsent (fun sent hsent => .inl hsent) rfl
    · rw [if_neg hchild] at hstep
      cases hstep
      exact h.move (fun hc => absurd hc hchild) hsent fun _ hreturned => by cases hreturned
  | terminating =>
    rw [hphase] at hstep hsent
    cases hstep
    refine h.send (hphase ▸ rfl) ?_
    rw [show c.signals.map Prod.fst = [] from hsent]
    rfl
  | waiting killed =>
    rw [hphase] at hstep hsent
    have hgoing : c.child = true → c.reaped = false := fun hchild => h.going hchild (hphase ▸ rfl)
    dsimp only at hstep
    by_cases hlate : e.late = true
    · rw [hlate, if_neg (by decide)] at hstep
      cases hstep
      cases killed with
      | true =>
          exact h.move (fun hchild _ => hgoing hchild) hsent fun _ hreturned => by cases hreturned
      | false =>
          exact h.move (fun hchild _ => hgoing hchild) hsent fun _ hreturned => by cases hreturned
    · rw [Bool.eq_false_iff.2 hlate, if_pos (by decide)] at hstep
      cases hstep
      exact h.move (fun hchild _ => hgoing hchild) hsent fun _ hreturned => by cases hreturned
  | checking killed =>
    rw [hphase] at hstep hsent
    cases hstep
    refine h.check halive (.waiting killed) killed hsent (fun sent hsent => ?_) rfl
    cases killed with
    | true => exact hsent
    | false => exact .inr hsent
  | killing =>
    rw [hphase] at hstep hsent
    cases hstep
    refine h.send (hphase ▸ rfl) ?_
    rw [show c.signals.map Prod.fst = [.sigterm] from hsent]
    rfl
  | returned killed =>
    rw [hphase] at hstep
    cases hstep
  | raised =>
    rw [hphase] at hstep
    cases hstep

/-- The pid changes its owner on its own. -/
theorem Inv.changed (h : Inv c) {owner : Owner}
    (hchild : c.child = true →
      (owner = .nobody ∨ owner = .another ↔ c.owner = .nobody ∨ c.owner = .another))
    (hspared : c.child = false → owner ≠ .another) (hrun : owner ≠ .running) :
    Inv { c with owner } where
  child hc := (h.child hc).trans (hchild hc).symm
  spared := hspared
  going := h.going
  signals := h.signals
  sent := h.sent
  ended _ _ := hrun

theorem Inv.step (h : Inv c) (hproper : Proper c a) (hstep : step c a = some c') : Inv c' := by
  cases a with
  | go e => exact h.next hproper hstep
  | exits =>
    dsimp only [Terminate.step] at hstep
    split_ifs at hstep with howner
    cases hstep
    exact h.changed (fun _ => by rw [howner]; decide) (fun _ => by decide) (by decide)
  | collected =>
    dsimp only [Terminate.step] at hstep
    split_ifs at hstep with howner
    cases hstep
    refine h.changed (fun hc => ?_) (fun _ => by decide) (by decide)
    rw [howner.2] at hc
    cases hc
  | reused =>
    dsimp only [Terminate.step] at hstep
    split_ifs at hstep with howner
    cases hstep
    refine h.changed (fun _ => by rw [howner]; decide) (fun hc => ?_) (by decide)
    have hc' : c.child = true := hproper
    rw [hc] at hc'
    cases hc'
  | anotherExits =>
    dsimp only [Terminate.step] at hstep
    split_ifs at hstep with howner
    cases hstep
    exact h.changed (fun _ => by rw [howner]; decide) (fun _ => by decide) (by decide)

theorem Inv.init {child reaped : Bool} {owner : Owner} (h : Held (init child reaped owner)) :
    Inv (init child reaped owner) where
  child := h.child
  spared := h.spared
  going _ hgoing := by cases hgoing
  signals := List.forall_mem_nil _
  sent := rfl
  ended _ hreturned := by cases hreturned

/-- **The signals of `terminate` reach no other process**: with the process given, in every run,
each reaches the process itself, and none is sent where its pid has another owner because it was
waited for before; without it, this is so in every run in which the check is right and the pid is
not used again. SIGKILL follows SIGTERM, each is sent once, and where `terminate` returns, the
process has exited, and it says whether SIGKILL was sent. -/
theorem terminate_spares {child reaped : Bool} {owner : Owner}
    (hheld : Held (init child reaped owner)) (h : Reach step Proper (init child reaped owner) c) :
    (∀ s ∈ c.signals, s.2 ≠ .another ∧ (c.child = true → s.2 ≠ .nobody)) ∧
      c.signals.map Prod.fst <+: [.sigterm, .sigkill] ∧
      ∀ killed, c.phase = .returned killed → c.owner ≠ .running ∧
        (killed = true ↔ .sigkill ∈ c.signals.map Prod.fst) := by
  have hinv : Inv c := by
    induction h with
    | start => exact .init hheld
    | step _ hproper hstep ih => exact ih.step hproper hstep
  have hsent := hinv.sent
  refine ⟨hinv.signals, ?_, fun killed hreturned => ⟨hinv.ended killed hreturned, ?_⟩⟩
  · rcases hsent.cases with hlist | hlist | hlist <;> rw [hlist] <;> decide
  · rw [hreturned] at hsent
    cases killed with
    | true => exact iff_of_true rfl (by rw [show c.signals.map Prod.fst = _ from hsent]; decide)
    | false =>
      refine iff_of_false Bool.false_ne_true ?_
      rcases hsent with hsent | hsent <;> rw [hsent] <;> decide

/-- The child exits after SIGKILL, and its pid is used again when it has been waited for. -/
def lateKill : List Action :=
  [.go ⟨false, true⟩, .go ⟨false, true⟩, .go ⟨true, true⟩, .go ⟨false, true⟩, .exits,
    .go ⟨false, true⟩, .go ⟨false, true⟩, .reused]

theorem terminate_spares_lateKill :
    ∃ c, runIf step Proper (init true false .running) lateKill = some c ∧
    c.owner = .another ∧ c.phase = .returned true ∧ ∀ s ∈ c.signals, s.2 ≠ .another := by
  have hheld : Held (init true false .running) := ⟨by decide, by decide⟩
  obtain ⟨c, hrun⟩ : ∃ c, runIf step Proper (init true false .running) lateKill = some c := ⟨_, rfl⟩
  obtain ⟨hsignals, -⟩ := terminate_spares hheld (.of_runIf hrun)
  have hend : (runIf step Proper (init true false .running) lateKill).map
      (fun c => (c.owner, c.phase)) =
      some (.another, .returned true) := by decide
  rw [hrun] at hend
  obtain ⟨howner, hphase⟩ := Prod.mk.inj (Option.some.inj hend)
  exact ⟨c, hrun, howner, hphase, fun s hs => (hsignals s hs).1⟩

end AgentLab.Backend.Terminate
