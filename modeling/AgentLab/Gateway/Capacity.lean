import AgentLab.Config.Accepted
import AgentLab.Gateway.Prepared
import AgentLab.Gateway.RequestInvariant

/-!
# Who holds the backend

`connected` reads from where the tasks of a request are suspended that its connection to the backend
is open. For a sound request that is exactly while its place is running, so what the queue says of
its places holds of the connections: `who_reaches_backend`. Every place belongs to one request, so
the counters of the queue count requests in progress: `no_leaked_capacity`.
-/

namespace AgentLab.Gateway

open Config Python Runs

/-! ## Open connections -/

/-- Whether the POST may have been sent and `client.stream` has not been left. -/
def Gen.connected : Gen → Bool
  | .queued => false
  | .connecting | .reading | .closing _ => true

def Producer.connected : Producer → Bool
  | .running g => g.connected
  | .putting => true
  | .ready | .puttingLast _ | .finished _ => false

def Task.connected : Task → Bool
  | .collecting g => g.connected
  | .streaming b => b.producer.connected
  | .ready | .starting | .ending _ | .finished _ => false

theorem Gen.connected_iff (g : Gen) : g.connected = true ↔ g.stage = .running := by
  cases g <;> exact ⟨fun h => by cases h <;> rfl, fun h => by cases h <;> rfl⟩

theorem Producer.connected_iff {s : Stage} {t : Producer} (h : t.Fits s) :
    t.connected = true ↔ s = .running := by
  cases t with
  | ready => exact ⟨nofun, fun hs => by rw [show s = .accepted from h] at hs; cases hs⟩
  | running g => rw [show s = g.stage from h]; exact g.connected_iff
  | putting => exact ⟨fun _ => h, fun _ => rfl⟩
  | puttingLast e => exact ⟨nofun, fun hs => absurd hs h.2⟩
  | finished e => exact ⟨nofun, fun hs => absurd hs h.2⟩

theorem Task.connected_iff {s : Stage} {t : Task} (h : t.Fits s) :
    t.connected = true ↔ s = .running := by
  cases t with
  | ready | starting => exact ⟨nofun, fun hs => by rw [show s = .accepted from h] at hs; cases hs⟩
  | collecting g => rw [show s = g.stage from h]; exact g.connected_iff
  | streaming b => exact Producer.connected_iff h
  | ending n => exact ⟨nofun, fun hs => absurd hs h.2⟩
  | finished e => exact ⟨nofun, fun hs => absurd hs h.2⟩

namespace ChatRequest

variable {gw : Checks} {q : RequestQueue} {r : ChatRequest}

def connected (r : ChatRequest) : Bool :=
  match r.phase with
  | .answering a _ | .gathering a => a.task.connected
  | .reading | .counting | .closed => false

/-- The request is in the block of `slot`. -/
def HoldsSlot (q : RequestQueue) (r : ChatRequest) : Prop :=
  ∃ p, r.place = some p ∧ q.stage p = some .running

/-- The place of the request is waiting. -/
def waits (q : RequestQueue) (r : ChatRequest) : Bool := r.place.any q.placeWaiting

/-- **The connection is open while the slot is held**, and only then. -/
theorem Sound.connected_iff (h : r.Sound gw q) : r.connected = true ↔ r.HoldsSlot q := by
  cases hp : r.place with
  | none =>
    have hclosed : r.connected = false := by
      unfold connected
      rcases (h.unplaced hp).2 with hphase | hphase | hphase <;> rw [hphase]
    rw [hclosed]
    exact ⟨nofun, fun ⟨p, hplace, _⟩ => absurd (hp.symm.trans hplace) nofun⟩
  | some p =>
    obtain ⟨s, hs, hfits, -⟩ := h.placed p hp
    have hrunning : r.HoldsSlot q ↔ s = .running := by
      constructor
      · rintro ⟨p', hplace, hstage⟩
        cases hp.symm.trans hplace
        exact Option.some.inj (hs.symm.trans hstage)
      · rintro rfl
        exact ⟨p, hp, hs⟩
    rw [hrunning]
    unfold connected
    cases hphase : r.phase with
    | reading | counting => rw [hphase] at hfits; exact hfits.elim
    | answering a left => rw [hphase] at hfits; exact Task.connected_iff hfits
    | gathering a => rw [hphase] at hfits; exact Task.connected_iff hfits
    | closed => rw [hphase] at hfits; exact ⟨nofun, fun hc => absurd hc hfits.2⟩

theorem Accepted.authenticated (h : r.Accepted gw) : r.Authenticated := by
  obtain ⟨_, ⟨hname, -⟩, -⟩ := h
  exact hname

/-- Whoever made a POST has been let into the block, and has not made another one. -/
theorem Sound.posts_stage (h : r.Sound gw q) (hposts : 0 < r.posts) :
    r.posts = 1 ∧ ∃ p, r.place = some p ∧
      (q.stage p = some .running ∨ q.stage p = some .finished) := by
  cases hp : r.place with
  | none => exact absurd (h.unplaced hp).1 (Nat.ne_of_gt hposts)
  | some p =>
    obtain ⟨s, hs, -, hcount⟩ := h.placed p hp
    rw [hcount] at hposts ⊢
    cases s with
    | running => exact ⟨rfl, p, rfl, .inl hs⟩
    | finished => exact ⟨rfl, p, rfl, .inr hs⟩
    | _ => exact absurd hposts (Nat.lt_irrefl 0)

/-- What an ended request leaves behind: nothing. -/
theorem Sound.closed (h : r.Sound gw q)
    (hq : q.Inv) (hclosed : r.phase = .closed) :
    r.connected = false ∧ ∀ p, r.place = some p →
      q.placeWaiting p = false ∧ q.stage p ≠ some .running ∧ p ∉ q.lock.ids := by
  refine ⟨?_, fun p hp => ?_⟩
  · unfold connected
    rw [hclosed]
  · obtain ⟨s, hs, hfits, -⟩ := h.placed p hp
    rw [hclosed] at hfits
    refine ⟨?_, ?_, ?_⟩
    · unfold RequestQueue.placeWaiting
      rw [hq.flags.getElem? hs]
      exact hfits.1
    · rw [hs]
      exact fun hc => hfits.2 (Option.some.inj hc)
    · rw [hq.waiters, hs]
      exact fun hc => by cases hc; cases hfits.1

/-- The queue lets every generator out of `slot`. -/
theorem closing_isSome (hI : q.Inv) {p : PlaceId} {e : Ended} (hs : q.stage p = some .running) :
    ((Gen.closing e).step q p (.closed none)).isSome := by
  unfold Gen.step
  dsimp only
  rw [if_neg (by decide), Option.isSome_map]
  exact hI.exit_isSome hs

/-- **The handler gets out**: once its answer task is over, nothing keeps it from returning. -/
theorem Sound.gathered_isSome (h : r.Sound gw q) {a : Answering} {raised : Bool}
    (hphase : r.phase = .gathering a) (htask : a.task = .finished raised) :
    (r.step gw q .gathered).isSome := by
  obtain ⟨p, hp⟩ := h.exists_place (by rw [hphase]; exact ⟨nofun, nofun, nofun⟩)
  obtain ⟨s, hs, hfits, -⟩ := h.placed p hp
  rw [hphase, Phase.Fits, htask] at hfits
  unfold ChatRequest.step
  rw [hphase, hp]
  dsimp only
  rw [htask]
  dsimp only
  rw [Option.isSome_map]
  unfold RequestQueue.step
  dsimp only
  rw [hs]
  cases s with
  | queued => exact absurd rfl hfits.1
  | _ => rfl

end ChatRequest

/-! ## Requests to ci-tiny -/

def chatBody (stream : Bool) : Json :=
  .obj [(str "model", .str (str "qwen3-0.6b")),
    (str "messages", .list [.obj [(str "role", .str (str "user")),
      (str "content", .str (str "Hi"))]]),
    (str "stream", .bool stream)]

def ciTinyChecks : Checks := ⟨.plain, rulesFor .plain ciTinyProfile effortTemplate⟩

/-- A store with the key `sk-1`. -/
def aliceKeys (key : Str) : Except PyExc (Option Str) :=
  .ok (if key = str "sk-1" then some (str "alice") else none)

/-- A request up to the count of its prompt. -/
def arrived (i : ℕ) (stream : Bool) : List Action :=
  [.arrive (str "Bearer sk-1") aliceKeys, .act i (.body (.json (chatBody stream)))]

/-- And up to its place. -/
def accepted (i : ℕ) (stream : Bool) : List Action :=
  arrived i stream ++ [.act i (.counted (.ok 9))]

namespace System

variable {gw : Checks} {n : ℕ} {s : System}

/-- Two requests with open connections are one. -/
theorem Inv.connected_unique (hI : s.Inv gw) {i j : ℕ} {r r' : ChatRequest}
    (hi : s.requests[i]? = some r) (hj : s.requests[j]? = some r') (hr : r.connected = true)
    (hr' : r'.connected = true) : i = j := by
  obtain ⟨p, hp, hs⟩ := (hI.sound r (List.mem_of_getElem? hi)).connected_iff.1 hr
  obtain ⟨p', hp', hs'⟩ := (hI.sound r' (List.mem_of_getElem? hj)).connected_iff.1 hr'
  obtain rfl := hI.queue.running_unique hs hs'
  exact hI.distinct i j p (placeOf_eq_some.2 ⟨r, hi, hp⟩) (placeOf_eq_some.2 ⟨r', hj, hp'⟩)

/-- **Who reaches the backend.** In every reachable state, a request that has made a POST came with
an accepted key, a body that `prepare` accepted and a prompt within the limits, and got a place in
the queue, with which it entered the slot. No request makes two. A connection is open only while its
request holds the slot, and at most one is. A request that was refused, or whose wait for the slot
was cancelled, makes none. -/
theorem who_reaches_backend (h : Reachable (step gw) (new n) s) :
    (∀ r ∈ s.requests,
      (0 < r.posts → (∃ key name, r.check key = .ok (some name)) ∧ r.Accepted gw ∧
        ∃ p, r.place = some p ∧
          (s.queue.stage p = some .running ∨ s.queue.stage p = some .finished)) ∧
      r.posts ≤ 1 ∧
      (r.connected = true → r.HoldsSlot s.queue) ∧
      (r.refusal ≠ none → r.posts = 0) ∧
      ∀ p, r.place = some p → s.queue.stage p = some .cancelled → r.posts = 0) ∧
    ∀ (i j : ℕ) (r r' : ChatRequest), s.requests[i]? = some r → s.requests[j]? = some r' →
      r.connected = true → r'.connected = true → i = j := by
  have hI := reachable_inv h
  refine ⟨fun r hr => ?_, fun i j r r' => hI.connected_unique⟩
  have hsound := hI.sound r hr
  refine ⟨fun hposts => ?_, ?_, hsound.connected_iff.1, fun hrefused => ?_, fun p hp hs => ?_⟩
  · obtain ⟨-, p, hp, hs⟩ := hsound.posts_stage hposts
    have haccepted := hsound.accepted (by rw [hp]; nofun)
    obtain ⟨name, hname⟩ := haccepted.authenticated
    obtain ⟨key, hkey⟩ := authenticate_ok hname
    exact ⟨⟨key, name, hkey⟩, haccepted, p, hp, hs⟩
  · rcases Nat.eq_zero_or_pos r.posts with hzero | hpos
    · omega
    · exact Nat.le_of_eq (hsound.posts_stage hpos).1
  · exact (hsound.unplaced (hsound.refused hrefused).1).1
  · obtain ⟨s', hs', -, hposts⟩ := hsound.placed p hp
    cases hs'.symm.trans hs
    exact hposts

/-- One request is connecting while another one waits for the slot. -/
theorem who_reaches_backend_ciTiny : ∃ (s : System) (r : ChatRequest),
    s.requests[0]? = some r ∧ 0 < r.posts ∧ r.Accepted ciTinyChecks ∧ r.HoldsSlot s.queue := by
  have hrun : ((run (step ciTinyChecks) (new 1) (accepted 0 false ++ [.act 0 (.task .start)] ++
      accepted 1 true ++ [.act 1 (.task .start), .act 1 (.task (.sent true)),
        .act 1 (.task .produce)])).bind fun s => s.requests[0]?.map fun r =>
          (r.posts, r.connected)) = some (1, true) := by
    decide +kernel
  obtain ⟨s, hs, hr⟩ := Option.bind_eq_some_iff.1 hrun
  obtain ⟨r, hr, hview⟩ := Option.map_eq_some_iff.1 hr
  obtain ⟨hposts, hopen⟩ := Prod.mk.injEq .. ▸ hview
  obtain ⟨haccepted, -, hholds, -⟩ :=
    (who_reaches_backend (Reach.of_run hs)).1 r (List.mem_of_getElem? hr)
  have hpos : 0 < r.posts := by omega
  exact ⟨s, r, hr, hpos, (haccepted hpos).2.1, hholds hopen⟩

/-! ## The counters -/

/-- The places of the requests are those of the queue, each once. -/
theorem Inv.places_perm (hI : s.Inv gw) :
    (s.requests.filterMap ChatRequest.place).Perm (List.range s.queue.places.length) := by
  refine (List.perm_ext_iff_of_nodup ?_ List.nodup_range).2 fun p => ?_
  · rw [List.Nodup, List.pairwise_filterMap, List.pairwise_iff_getElem]
    intro i j hi hj hlt p hp p' hp' heq
    subst heq
    refine absurd (hI.distinct i j p ?_ ?_) (Nat.ne_of_lt hlt)
    · exact placeOf_eq_some.2 ⟨_, List.getElem?_eq_getElem hi, hp⟩
    · exact placeOf_eq_some.2 ⟨_, List.getElem?_eq_getElem hj, hp'⟩
  · rw [List.mem_filterMap, List.mem_range]
    constructor
    · rintro ⟨r, hr, hp⟩
      obtain ⟨i, hi⟩ := List.mem_iff_getElem?.1 hr
      exact hI.place_lt (placeOf_eq_some.2 ⟨r, hi, hp⟩)
    · intro hp
      obtain ⟨i, hi⟩ := hI.owned p hp
      obtain ⟨r, hr, hplace⟩ := placeOf_eq_some.1 hi
      exact ⟨r, List.mem_of_getElem? hr, hplace⟩

/-- **Counting places is counting requests.** -/
theorem Inv.count_eq (hI : s.Inv gw) (P : Stage → Bool) :
    s.queue.count P =
      s.requests.countP fun r => r.place.any fun p => (s.queue.stage p).any P := by
  have hrange : (List.range s.queue.places.length).map s.queue.stage =
      s.queue.places.map fun pl => some pl.stage :=
    List.ext_getElem (by simp) fun i hi hi' => by
      rw [List.length_map] at hi'
      simp [RequestQueue.stage, List.getElem?_eq_getElem hi']
  have hplaces : s.queue.places.countP (fun pl => P pl.stage) =
      (List.range s.queue.places.length).countP fun p => (s.queue.stage p).any P := by
    have := List.countP_map (p := Option.any P) (f := s.queue.stage)
      (l := List.range s.queue.places.length)
    rw [hrange, List.countP_map] at this
    exact this
  rw [RequestQueue.count, hplaces, ← hI.places_perm.countP_eq, List.countP_filterMap]
  congr 2
  funext r
  cases r.place <;> rfl

/-- `active` counts the open connections. -/
theorem Inv.active_eq (hI : s.Inv gw) :
    s.queue.active = s.requests.countP ChatRequest.connected := by
  rw [hI.queue.active, hI.count_eq]
  congr 1
  refine List.countP_congr fun r hr => ?_
  rw [(hI.sound r hr).connected_iff]
  simp [ChatRequest.HoldsSlot, Option.any_eq_true]

/-- `waiting` counts the requests whose place waits. -/
theorem Inv.waiting_eq (hI : s.Inv gw) :
    s.queue.waiting = s.requests.countP (ChatRequest.waits s.queue) := by
  rw [hI.queue.waiting, hI.count_eq]
  congr 2
  funext r
  unfold ChatRequest.waits
  congr 1
  funext p
  unfold RequestQueue.placeWaiting RequestQueue.stage
  cases hpl : s.queue.places[p]? with
  | none => rfl
  | some pl => exact (hI.queue.flags pl (List.mem_of_getElem? hpl)).symm

/-- **No leaked capacity.** In every reachable state, a request that has ended has written one line
to the log, its connection is closed, and its place neither waits nor runs nor stands in the lock.
`active` is the number of open connections, `waiting` that of the requests still waiting, and the
lock is only held for an open connection; so nothing of it is left when every request has ended. -/
theorem no_leaked_capacity (h : Reachable (step gw) (new n) s) :
    (∀ r ∈ s.requests, r.phase = .closed →
      r.logLines = 1 ∧ r.connected = false ∧ ∀ p, r.place = some p →
        s.queue.placeWaiting p = false ∧ s.queue.stage p ≠ some .running ∧ p ∉ s.queue.lock.ids) ∧
    s.queue.active = s.requests.countP ChatRequest.connected ∧
    s.queue.waiting = s.requests.countP (ChatRequest.waits s.queue) ∧
    (s.queue.lock.locked = true → ∃ r ∈ s.requests, r.connected = true) ∧
    ((∀ r ∈ s.requests, r.phase = .closed) →
      s.queue.active = 0 ∧ s.queue.waiting = 0 ∧ s.queue.lock.locked = false) := by
  have hI := reachable_inv h
  have hlocked : s.queue.lock.locked = true → ∃ r ∈ s.requests, r.connected = true := by
    intro hl
    have hone : s.queue.active = 1 := by rw [hI.queue.locked, if_pos hl]
    rw [hI.active_eq] at hone
    exact List.countP_pos_iff.1 (by omega)
  have hclosed := fun (r : ChatRequest) hr hc => (hI.sound r hr).closed hI.queue hc
  refine ⟨fun r hr hc => ⟨?_, hclosed r hr hc⟩, hI.active_eq, hI.waiting_eq, hlocked, fun hall =>
    ⟨?_, ?_, ?_⟩⟩
  · rw [(hI.sound r hr).logged, if_pos hc]
  · rw [hI.active_eq, Int.natCast_eq_zero, List.countP_eq_zero]
    intro r hr
    rw [(hclosed r hr (hall r hr)).1]
    nofun
  · rw [hI.waiting_eq, Int.natCast_eq_zero, List.countP_eq_zero]
    intro r hr hw
    obtain ⟨p, hp, hwait⟩ := (Option.any_eq_true _ _).1 hw
    rw [((hclosed r hr (hall r hr)).2 p hp).1] at hwait
    cases hwait
  · by_contra hc
    obtain ⟨r, hr, hopen⟩ := hlocked (eq_true_of_ne_false hc)
    rw [(hclosed r hr (hall r hr)).1] at hopen
    cases hopen

/-- A client leaves while a chunk is being sent to it, after another one that waited for the
slot. -/
theorem no_leaked_capacity_ciTiny : ∃ s : System, s.requests.length = 2 ∧
    s.queue.active = 0 ∧ s.queue.waiting = 0 ∧ s.queue.lock.locked = false ∧
    ∀ r ∈ s.requests, r.logLines = 1 := by
  have hrun : (run (step ciTinyChecks) (new 1) (accepted 0 true ++
      [.act 0 (.task .start), .act 0 (.task (.sent true)), .act 0 (.task .produce),
        .act 0 (.task (.gen .connected)), .act 0 (.task (.chunk true)),
        .act 0 (.task (.get .send))] ++ accepted 1 false ++
      [.act 1 (.task .start), .act 1 .left, .act 1 .noticed, .act 1 (.task (.gen .wake)),
        .act 1 .gathered, .act 0 .left, .act 0 .noticed, .act 0 (.task .cancelled),
        .act 0 (.task .producerCancelled), .act 0 (.task (.gen (.closed none))),
        .act 0 (.task .joined), .act 0 .gathered])).map (fun s => s.requests.map (·.phase)) =
      some [.closed, .closed] := by
    decide +kernel
  obtain ⟨s, hs, hphases⟩ := Option.map_eq_some_iff.1 hrun
  have hclosed : ∀ r ∈ s.requests, r.phase = .closed := fun r hr => by
    have := List.mem_map_of_mem (f := ChatRequest.phase) hr
    rw [hphases] at this
    simpa using this
  obtain ⟨hlines, -, -, -, hall⟩ := no_leaked_capacity (Reach.of_run hs)
  obtain ⟨hactive, hwaiting, hlocked⟩ := hall hclosed
  refine ⟨s, ?_, hactive, hwaiting, hlocked, fun r hr => (hlines r hr (hclosed r hr)).1⟩
  simpa using congrArg List.length hphases

end System

end AgentLab.Gateway
