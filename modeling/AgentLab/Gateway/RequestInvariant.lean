import AgentLab.Lib.Keyed
import AgentLab.Gateway.QueueOrder
import AgentLab.Gateway.RequestMoves

/-!
# The invariant of the requests

`ChatRequest.Sound` says what holds of one request: what its checks let through, that its place
stands where its tasks are, that its POSTs and log lines are counted. `System.Inv` adds that every
place belongs to one request; with `Moved` an event of one request then keeps all of it for the
others. `reachable_inv` is the result for a whole run.
-/

namespace AgentLab.Gateway

open Python Runs Keyed

/-! ## One request -/

/-- Where the request may be suspended when its place has this stage. -/
def Phase.Fits (s : Stage) : Phase → Prop
  | .reading | .counting => False
  | .answering a _ | .gathering a => a.task.Fits s
  | .closed => s.isWaiting = false ∧ s ≠ .running

namespace ChatRequest

variable {gw : Checks} {q q' : RequestQueue} {r r' : ChatRequest} {p : PlaceId}

/-- The key was accepted. -/
def Authenticated (r : ChatRequest) : Prop := ∃ name, authenticate r.check r.header = .ok name

/-- And the body was. -/
def IsPrepared (gw : Checks) (r : ChatRequest) (prepared : Prepared) : Prop :=
  r.Authenticated ∧ r.prepared = some prepared ∧
    ∃ value, r.body = some value ∧ prepare gw.rt value gw.rules = .ok prepared

/-- And the prompt was counted and fits. -/
def Accepted (gw : Checks) (r : ChatRequest) : Prop :=
  ∃ prepared, r.IsPrepared gw prepared ∧ ∃ tokens maxTokens, r.promptTokens = some tokens ∧
    r.maxTokens = some maxTokens ∧
    limit tokens prepared.requestedMaxTokens gw.rules.limits = .ok maxTokens

structure Sound (gw : Checks) (q : RequestQueue) (r : ChatRequest) : Prop where
  reading : r.phase = .reading → r.Authenticated
  counting : r.phase = .counting → ∃ prepared, r.IsPrepared gw prepared
  unplaced : r.place = none →
    r.posts = 0 ∧ (r.phase = .reading ∨ r.phase = .counting ∨ r.phase = .closed)
  placed : ∀ p, r.place = some p → ∃ s, q.stage p = some s ∧ r.phase.Fits s ∧ r.posts = s.posts
  accepted : r.place ≠ none → r.Accepted gw
  refused : r.refusal ≠ none → r.place = none ∧ r.phase = .closed
  logged : r.logLines = if r.phase = .closed then 1 else 0

/-- The place with which an event may call `slot`. -/
def callsSlot (r : ChatRequest) : Event → Option PlaceId
  | .task e =>
    match r.phase with
    | .answering a _ | .gathering a => if a.callsSlot e then r.place else none
    | _ => none
  | _ => none

/-- How an event changes the queue: it moves the request's own place, or reserves one for it. -/
inductive Via (q q' : RequestQueue) (r r' : ChatRequest) (e : Event) : Prop
  | same (hplace : r'.place = r.place) (hq : q' = q)
  | moved (p : PlaceId) (a : RequestQueue.Action) (hp : r.place = some p)
      (hplace : r'.place = some p) (ha : a.place = some p)
      (hslot : ∀ r', a = .slot r' → r.callsSlot e = some r') (hq : q.step a = some q')
  | reserved (hp : r.place = none) (hplace : r'.place = some q.places.length)
      (hq : q.step .reserve = some q') (hlength : q'.places.length = q.places.length + 1)

/-- A refusal keeps a request without a place sound. -/
theorem Sound.refuse (h : r.Sound gw q) (hp : r.place = none) (hphase : r.phase ≠ .closed)
    (why : Refusal) : (r.refuse why).Sound gw q where
  reading := nofun
  counting := nofun
  unplaced _ := ⟨(h.unplaced hp).1, .inr (.inr rfl)⟩
  placed p hplace := absurd (hp.symm.trans hplace) nofun
  accepted hplace := absurd hp hplace
  refused _ := ⟨hp, rfl⟩
  logged := by
    have hlog := h.logged
    rw [if_neg hphase] at hlog
    show r.logLines + 1 = 1
    rw [hlog]

theorem sound_arrive (gw : Checks) (q : RequestQueue) (header : Str)
    (check : Str → Except PyExc (Option Str)) : (arrive header check).Sound gw q := by
  unfold arrive
  dsimp only
  cases hauth : authenticate check header with
  | error x =>
    exact ⟨nofun, nofun, fun _ => ⟨rfl, .inr (.inr rfl)⟩, nofun, fun h => absurd rfl h,
      fun _ => ⟨rfl, rfl⟩, rfl⟩
  | ok name =>
    exact ⟨fun _ => ⟨name, hauth⟩, nofun, fun _ => ⟨rfl, .inl rfl⟩, nofun, fun h => absurd rfl h,
      fun h => absurd rfl h, rfl⟩

/-- A request that is being read or counted has no place. -/
theorem Sound.place_eq_none (h : r.Sound gw q) (hphase : r.phase = .reading ∨ r.phase = .counting) :
    r.place = none := by
  cases hp : r.place with
  | none => rfl
  | some p =>
    obtain ⟨s, -, hfits, -⟩ := h.placed p hp
    rcases hphase with hphase | hphase <;> rw [hphase] at hfits <;> exact hfits.elim

/-- `chat` from the body on. -/
theorem Sound.readBody (h : r.Sound gw q) (hphase : r.phase = .reading) (read : BodyRead) :
    (r.readBody gw q read).Sound gw q ∧ (r.readBody gw q read).place = r.place := by
  have hp := h.place_eq_none (.inl hphase)
  have hopen : r.phase ≠ .closed := by rw [hphase]; nofun
  cases read with
  | json value =>
    have hbody : ({ r with body := some value } : ChatRequest).Sound gw q :=
      ⟨h.reading, fun hc => absurd (hphase.symm.trans hc) nofun, h.unplaced, h.placed,
        fun hplace => absurd hp hplace, h.refused, h.logged⟩
    unfold ChatRequest.readBody
    dsimp only
    cases hprepare : prepare gw.rt value gw.rules with
    | error x => exact ⟨hbody.refuse hp hopen _, rfl⟩
    | ok prepared =>
      have hprepared : ({ r with body := some value, prepared := some prepared } :
          ChatRequest).Sound gw q :=
        ⟨h.reading, fun hc => absurd (hphase.symm.trans hc) nofun, h.unplaced, h.placed,
          fun hplace => absurd hp hplace, h.refused, h.logged⟩
      dsimp only
      split_ifs
      · exact ⟨hprepared.refuse hp hopen _, rfl⟩
      · refine ⟨⟨nofun, fun _ => ⟨prepared, h.reading hphase, rfl, value, rfl, hprepare⟩,
          fun _ => ⟨(h.unplaced hp).1, .inr (.inl rfl)⟩, fun p hplace => ?_,
          fun hplace => absurd hp hplace, fun hr => absurd (h.refused hr).2 hopen, ?_⟩, rfl⟩
        · exact absurd (hp.symm.trans hplace) nofun
        · have hlog := h.logged
          rw [if_neg hopen] at hlog
          exact hlog
  | refused | disconnected | raised => exact ⟨h.refuse hp hopen _, rfl⟩

/-- `chat` from the count on: the request is refused, or it has the next place. -/
theorem Sound.count {prepared : Prepared} {tokens : Except Str ℕ} {e : Event} (hI : q.Inv)
    (h : r.Sound gw q) (hphase : r.phase = .counting) (hprepared : r.prepared = some prepared)
    (hcount : r.count gw q prepared tokens = (q', r')) :
    r'.Sound gw q' ∧ Via q q' r r' e := by
  have hp := h.place_eq_none (.inr hphase)
  have hopen : r.phase ≠ .closed := by rw [hphase]; nofun
  obtain ⟨prepared', hauth, hprepared', hvalue⟩ := h.counting hphase
  obtain rfl : prepared' = prepared := Option.some.inj (hprepared'.symm.trans hprepared)
  unfold ChatRequest.count at hcount
  cases tokens with
  | error text =>
    cases hcount
    exact ⟨h.refuse hp hopen _, .same rfl rfl⟩
  | ok tokens =>
    dsimp only at hcount
    have hcounted : ({ r with promptTokens := some tokens } : ChatRequest).Sound gw q :=
      ⟨h.reading, h.counting, h.unplaced, h.placed, fun hplace => absurd hp hplace, h.refused,
        h.logged⟩
    cases hlimit : limit tokens prepared'.requestedMaxTokens gw.rules.limits with
    | error e =>
      rw [hlimit] at hcount
      cases hcount
      exact ⟨hcounted.refuse hp hopen _, .same rfl rfl⟩
    | ok maxTokens =>
      rw [hlimit] at hcount
      dsimp only at hcount
      cases hreserve : q.reserve with
      | mk q₁ result =>
        rw [hreserve] at hcount
        cases result with
        | error e =>
          cases hcount
          obtain rfl := RequestQueue.reserve_error hreserve
          have hlimited : ({ r with promptTokens := some tokens, maxTokens := some maxTokens } :
              ChatRequest).Sound gw _ :=
            ⟨h.reading, h.counting, h.unplaced, h.placed, fun hplace => absurd hp hplace,
              h.refused, h.logged⟩
          exact ⟨hlimited.refuse hp hopen _, .same rfl rfl⟩
        | ok place =>
          cases hcount
          obtain ⟨rfl, hstep, hstage, hlength⟩ := RequestQueue.reserve_ok hreserve
          have hlog := h.logged
          rw [if_neg hopen] at hlog
          refine ⟨⟨nofun, nofun, nofun, fun p hplace => ?_, fun _ => ?_,
            fun hr => absurd (h.refused hr).2 hopen, hlog⟩, .reserved hp rfl hstep hlength⟩
          · cases hplace
            exact ⟨.accepted, hstage, rfl, (h.unplaced hp).1⟩
          · exact ⟨prepared', ⟨hauth, hprepared', hvalue⟩, tokens, maxTokens, rfl, rfl, hlimit⟩

/-- An event of the answer task. -/
theorem Sound.task {a a' : Answering} {e : TaskEvent} {n : ℕ} {phase phase' : Phase} (hI : q.Inv)
    (h : r.Sound gw q) (hp : r.place = some p) (hphase : r.phase = phase)
    (hfits : ∀ s, phase.Fits s → a.task.Fits s) (hfits' : ∀ s, a'.task.Fits s → phase'.Fits s)
    (hopen : phase ≠ .closed) (hphase' : phase' ≠ .reading ∧ phase' ≠ .counting ∧ phase' ≠ .closed)
    (hcalls : a.callsSlot e = true → r.callsSlot (.task e) = some p)
    (hstep : a.step q p e = some (q', a', n)) :
    ({ r with phase := phase', posts := r.posts + n } : ChatRequest).Sound gw q' ∧
      Via q q' r { r with phase := phase', posts := r.posts + n } (.task e) := by
  obtain ⟨s, hs, hfit, hposts⟩ := h.placed p hp
  rw [hphase] at hfit
  obtain ⟨s', hmoved, hfit'⟩ := Answering.step_moved hI hs (hfits s hfit) hstep
  refine ⟨⟨fun hc => absurd hc hphase'.1, fun hc => absurd hc hphase'.2.1, fun hc => ?_, ?_,
    h.accepted, fun hr => absurd (hp.symm.trans (h.refused hr).1) nofun, ?_⟩, ?_⟩
  · exact absurd (hp.symm.trans hc) nofun
  · intro p' hp'
    obtain rfl : p = p' := Option.some.inj (hp.symm.trans hp')
    exact ⟨s', hmoved.stage, hfits' s' hfit', by rw [hmoved.posts, ← hposts]⟩
  · have hlog := h.logged
    rw [hphase, if_neg hopen] at hlog
    exact hlog.trans (if_neg hphase'.2.2).symm
  · rcases hmoved.via with hq | ⟨act, hact, hno, hq⟩ | ⟨hslot, hq⟩
    · exact .same rfl hq
    · exact .moved p act hp hp hact (fun r' hr => absurd hr (hno r')) hq
    · exact .moved p (.slot p) hp hp rfl (fun r' hr => by cases hr; exact hcalls hslot) hq

/-- The handler goes on with the place in the same stage. -/
theorem Sound.handler {s : Stage} {phase' : Phase} {lines : ℕ} (h : r.Sound gw q)
    (hp : r.place = some p) (hs : q'.stage p = some s) (hfits : phase'.Fits s)
    (hposts : r.posts = s.posts) (hlines : lines = if phase' = .closed then 1 else 0) :
    ({ r with phase := phase', logLines := lines } : ChatRequest).Sound gw q' where
  reading hc := by
    have hc : phase' = .reading := hc
    rw [hc] at hfits
    exact hfits.elim
  counting hc := by
    have hc : phase' = .counting := hc
    rw [hc] at hfits
    exact hfits.elim
  unplaced hc := absurd (hp.symm.trans hc) nofun
  placed p' hp' := by
    obtain rfl : p = p' := Option.some.inj (hp.symm.trans hp')
    exact ⟨s, hs, hfits, hposts⟩
  accepted := h.accepted
  refused hr := absurd (hp.symm.trans (h.refused hr).1) nofun
  logged := hlines

/-- A request that is being answered has a place. -/
theorem Sound.exists_place (h : r.Sound gw q)
    (hphase : r.phase ≠ .reading ∧ r.phase ≠ .counting ∧ r.phase ≠ .closed) :
    ∃ p, r.place = some p := by
  cases hp : r.place with
  | some p => exact ⟨p, rfl⟩
  | none =>
    rcases (h.unplaced hp).2 with hr | hc | hc
    · exact absurd hr hphase.1
    · exact absurd hc hphase.2.1
    · exact absurd hc hphase.2.2

/-- The server notices that the client is gone, or that the task is over. -/
theorem Sound.noticed {a a' : Answering} {left : Bool} (hI : q.Inv) (h : r.Sound gw q)
    (hphase : r.phase = .answering a left) (hp : r.place = some p)
    (hcancel : a.cancel q p = some (q', a')) :
    ({ r with phase := .gathering a' } : ChatRequest).Sound gw q' ∧
      Via q q' r { r with phase := .gathering a' } .noticed := by
  obtain ⟨s, hs, hfits, hposts⟩ := h.placed p hp
  have hlog := h.logged
  rw [hphase] at hfits hlog
  obtain ⟨hmoved, hfits'⟩ := Answering.cancel_moved hI hs hfits hcancel
  refine ⟨h.handler hp hmoved.stage hfits' hposts hlog, ?_⟩
  rcases hmoved.via with hq | ⟨act, hact, hno, hq⟩ | ⟨hfalse, -⟩
  · exact .same rfl hq
  · exact .moved p act hp hp hact (fun r' hr => absurd hr (hno r')) hq
  · cases hfalse

/-- The end: the place is given up, and the line is logged. -/
theorem Sound.gathered {a : Answering} {raised : Bool} (hI : q.Inv) (h : r.Sound gw q)
    (hphase : r.phase = .gathering a) (hp : r.place = some p) (htask : a.task = .finished raised)
    (hgive : q.step (.giveUp p) = some q') :
    ({ r with phase := .closed, logLines := r.logLines + 1 } : ChatRequest).Sound gw q' ∧
      Via q q' r { r with phase := .closed, logLines := r.logLines + 1 } .gathered := by
  obtain ⟨s, hs, hfits, hposts⟩ := h.placed p hp
  have hlog := h.logged
  rw [hphase] at hfits hlog
  have hidle : s.Idle := by
    have hfits : a.task.Fits s := hfits
    rw [htask] at hfits
    exact hfits
  have hstage := RequestQueue.stage_giveUp hI.flags hs hgive
  refine ⟨h.handler hp hstage ?_ ?_ (by rw [hlog]; rfl),
    .moved p (.giveUp p) hp hp rfl (fun r' hr => by cases hr) hgive⟩
  · obtain ⟨hqueued, hrunning⟩ := hidle
    cases s <;>
      first | exact absurd rfl hqueued | exact absurd rfl hrunning | exact ⟨rfl, nofun⟩
  · rw [hposts]
    cases s <;> rfl

/-- An event of the answer task, in either phase that has one. -/
theorem Sound.stepTask {e : TaskEvent} (hI : q.Inv) (h : r.Sound gw q)
    (hstep : r.step gw q (.task e) = some (q', r')) : r'.Sound gw q' ∧ Via q q' r r' (.task e) := by
  unfold ChatRequest.step at hstep
  dsimp only at hstep
  split at hstep
  · cases hstep
  · next p hp =>
    split at hstep
    · next a left hphase =>
      obtain ⟨⟨q₁, a', n⟩, htask, hstep⟩ := Option.map_eq_some_iff.1 hstep
      cases hstep
      refine h.task hI hp hphase (fun _ => id) (fun _ => id) nofun ⟨nofun, nofun, nofun⟩ ?_ htask
      intro hcalls
      unfold callsSlot
      rw [hphase]
      exact (if_pos hcalls).trans hp
    · next a hphase =>
      obtain ⟨⟨q₁, a', n⟩, htask, hstep⟩ := Option.map_eq_some_iff.1 hstep
      cases hstep
      refine h.task hI hp hphase (fun _ => id) (fun _ => id) nofun ⟨nofun, nofun, nofun⟩ ?_ htask
      intro hcalls
      unfold callsSlot
      rw [hphase]
      exact (if_pos hcalls).trans hp
    · cases hstep

/-- **One event of a request** keeps it sound, and moves at most its own place. -/
theorem Sound.step {e : Event} (hI : q.Inv) (h : r.Sound gw q)
    (hstep : r.step gw q e = some (q', r')) : r'.Sound gw q' ∧ Via q q' r r' e := by
  cases e with
  | task e => exact h.stepTask hI hstep
  | body read =>
    unfold ChatRequest.step at hstep
    dsimp only at hstep
    split at hstep
    · next hphase =>
      cases hstep
      obtain ⟨hsound, hplace⟩ := h.readBody hphase read
      exact ⟨hsound, .same hplace rfl⟩
    · cases hstep
  | counted tokens =>
    unfold ChatRequest.step at hstep
    dsimp only at hstep
    split at hstep
    · next hphase hprepared => exact h.count hI hphase hprepared (Option.some.inj hstep)
    · cases hstep
  | left =>
    unfold ChatRequest.step at hstep
    dsimp only at hstep
    split at hstep
    · next a left hphase =>
      cases hstep
      obtain ⟨p, hp⟩ := h.exists_place (by rw [hphase]; exact ⟨nofun, nofun, nofun⟩)
      obtain ⟨s, hs, hfits, hposts⟩ := h.placed p hp
      have hlog := h.logged
      rw [hphase] at hfits hlog
      exact ⟨h.handler hp hs hfits hposts hlog, .same rfl rfl⟩
    · cases hstep
  | noticed =>
    unfold ChatRequest.step at hstep
    dsimp only at hstep
    split at hstep
    · next a left p hphase hp =>
      split_ifs at hstep
      obtain ⟨⟨q₁, a'⟩, hcancel, hstep⟩ := Option.map_eq_some_iff.1 hstep
      cases hstep
      exact h.noticed hI hphase hp hcancel
    · cases hstep
  | gathered =>
    unfold ChatRequest.step at hstep
    dsimp only at hstep
    split at hstep
    · next a p hphase hp =>
      split at hstep
      · next raised htask =>
        obtain ⟨q₁, hgive, hstep⟩ := Option.map_eq_some_iff.1 hstep
        cases hstep
        exact h.gathered hI hphase hp htask hgive
      · cases hstep
    · cases hstep

/-- A request stays sound if its place stays where it is. -/
theorem Sound.frame (h : r.Sound gw q)
    (hstage : ∀ p, r.place = some p → q'.stage p = q.stage p) : r.Sound gw q' where
  reading := h.reading
  counting := h.counting
  unplaced := h.unplaced
  placed p hp := by
    obtain ⟨st, hs, hfits⟩ := h.placed p hp
    exact ⟨st, (hstage p hp).trans hs, hfits⟩
  accepted := h.accepted
  refused := h.refused
  logged := h.logged

end ChatRequest

/-! ## All requests -/

namespace System

/-- The place of a request. -/
def placeOf (s : System) (i : ℕ) : Option PlaceId := s.requests[i]?.bind ChatRequest.place

structure Inv (gw : Checks) (s : System) : Prop where
  queue : s.queue.Inv
  sound : ∀ r ∈ s.requests, r.Sound gw s.queue
  /-- No two requests have one place. -/
  distinct : ∀ i j p, s.placeOf i = some p → s.placeOf j = some p → i = j
  /-- Every place has a request. -/
  owned : ∀ p < s.queue.places.length, ∃ i, s.placeOf i = some p

variable {gw : Checks} {s s' : System} {q' : RequestQueue} {r r' : ChatRequest} {i : ℕ}
  {e : Event}

theorem placeOf_eq_some {p : PlaceId} :
    s.placeOf i = some p ↔ ∃ r, s.requests[i]? = some r ∧ r.place = some p :=
  keyAt_eq_some

/-- A place of a request is one of the queue. -/
theorem Inv.place_lt (h : s.Inv gw) {p : PlaceId} (hp : s.placeOf i = some p) :
    p < s.queue.places.length := by
  obtain ⟨r, hr, hplace⟩ := placeOf_eq_some.1 hp
  obtain ⟨st, hs, -⟩ := (h.sound r (List.mem_of_getElem? hr)).placed p hplace
  exact RequestQueue.stage_lt_length hs

theorem placeOf_arrive (s : System) (header : Str) (check : Str → Except PyExc (Option Str)) :
    placeOf { s with requests := s.requests ++ [ChatRequest.arrive header check] } = s.placeOf := by
  have hnew : (ChatRequest.arrive header check).place = none := by
    unfold ChatRequest.arrive
    dsimp only
    split <;> rfl
  exact keyAt_append hnew

/-- The requests after an event of the request `i` that leaves the places of the others alone. -/
theorem Inv.sound_set (h : s.Inv gw) (hsound : r'.Sound gw q')
    (hstage : ∀ j p, j ≠ i → s.placeOf j = some p → q'.stage p = s.queue.stage p) :
    ∀ r₂ ∈ s.requests.set i r', r₂.Sound gw q' := by
  intro r₂ hmem
  obtain ⟨j, hj⟩ := List.mem_iff_getElem?.1 hmem
  rw [List.getElem?_set] at hj
  split_ifs at hj with hij
  · rw [← Option.some.inj hj]
    exact hsound
  · refine ChatRequest.Sound.frame (h.sound r₂ (List.mem_of_getElem? hj)) fun p hp => ?_
    exact hstage j p (Ne.symm hij) (placeOf_eq_some.2 ⟨r₂, hj, hp⟩)

/-- **One step of the system.** -/
theorem Inv.step {a : Action} (h : s.Inv gw) (hstep : s.step gw a = some s') : s'.Inv gw := by
  cases a with
  | arrive header check =>
    cases hstep
    refine ⟨h.queue, fun r hr => ?_, fun i j p hi hj => ?_, fun p hp => ?_⟩
    · rcases List.mem_append.1 hr with hr | hr
      · exact h.sound r hr
      · rw [List.mem_singleton.1 hr]
        exact ChatRequest.sound_arrive gw s.queue header check
    · rw [placeOf_arrive] at hi hj
      exact h.distinct i j p hi hj
    · rw [placeOf_arrive]
      exact h.owned p hp
  | act i e =>
    unfold System.step at hstep
    dsimp only at hstep
    split at hstep
    · cases hstep
    · next r hr =>
      obtain ⟨⟨q', r'⟩, hevent, hstep⟩ := Option.map_eq_some_iff.1 hstep
      cases hstep
      obtain ⟨hsound, hvia⟩ := (h.sound r (List.mem_of_getElem? hr)).step h.queue hevent
      have hplaceOf : s.placeOf i = r.place := keyAt_eq hr
      -- the places of the requests change at most at `i`
      have hsame : r'.place = r.place → placeOf ⟨q', s.requests.set i r'⟩ = s.placeOf :=
        keyAt_set_same hr
      cases hvia with
      | same hplace hq =>
        subst hq
        refine ⟨h.queue, h.sound_set hsound fun _ _ _ _ => rfl, ?_, ?_⟩
        · rw [hsame hplace]
          exact h.distinct
        · rw [hsame hplace]
          exact h.owned
      | moved p act hp hplace hact _ hq =>
        have heffect := RequestQueue.step_effect h.queue.flags hq
        refine ⟨h.queue.step hq, h.sound_set hsound fun j p' hj hp' => ?_, ?_, ?_⟩
        · refine heffect.stage_of_ne hact fun heq => hj (h.distinct j i p' hp' ?_)
          rw [hplaceOf, hp, heq]
        · rw [hsame (hplace.trans hp.symm)]
          exact h.distinct
        · rw [hsame (hplace.trans hp.symm), heffect.length hact]
          exact h.owned
      | reserved hp hplace hq hlength =>
        have hnone : s.placeOf i = none := hplaceOf.trans hp
        refine ⟨h.queue.step hq, h.sound_set hsound fun j p' hj hp' => ?_, ?_, ?_⟩
        · exact RequestQueue.stage_reserve hq (h.place_lt hp')
        · refine Distinct.set h.distinct hr (.inr fun j p' hnew hj => ?_)
          rw [hplace] at hnew
          have hlt := h.place_lt hj
          rw [← Option.some.inj hnew] at hlt
          exact absurd hlt (Nat.lt_irrefl _)
        · intro p' hp'
          rw [show (⟨q', s.requests.set i r'⟩ : System).queue = q' from rfl, hlength] at hp'
          rcases Nat.lt_succ_iff_lt_or_eq.1 hp' with hlt | rfl
          · obtain ⟨j, hj⟩ := h.owned p' hlt
            have hji : j ≠ i := by rintro rfl; rw [hnone] at hj; cases hj
            exact ⟨j, (keyAt_set hr r' j).trans ((if_neg hji).trans hj)⟩
          · exact ⟨i, (keyAt_set hr r' i).trans ((if_pos rfl).trans hplace)⟩

theorem Inv.new (gw : Checks) (queueSize : ℕ) : (new queueSize).Inv gw where
  queue := RequestQueue.Inv.new queueSize
  sound _ hr := absurd hr List.not_mem_nil
  distinct _ _ _ hi _ := by cases hi
  owned _ hp := absurd hp (Nat.not_lt_zero _)

/-- **The invariant holds in every reachable state.** -/
theorem reachable_inv {queueSize : ℕ} (h : Reachable (step gw) (new queueSize) s) : s.Inv gw :=
  h.invariant (Inv.new gw queueSize) fun _ _ _ hI _ hs => hI.step hs

end System

end AgentLab.Gateway
