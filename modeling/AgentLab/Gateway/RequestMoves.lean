import AgentLab.Gateway.QueueInvariant
import AgentLab.Gateway.Request

/-!
# What the events of a request do to its place

Where the tasks of an answer are suspended tells the stage of its place (`Task.Fits`). Every event
of the answer keeps this, moves no other place, and counts a POST exactly when the place starts to
run (`Moved`): one lemma for each function of the model, up to `Answering.step_moved`.
-/

namespace AgentLab.Gateway

namespace RequestQueue

variable {q q' : RequestQueue} {p r : PlaceId} {a : Action} {s : Stage}

/-- The place that an action is about. -/
def Action.place : Action → Option PlaceId
  | .reserve => none
  | .slot p | .cancel p | .wake p | .exit p | .giveUp p => some p

/-- A step leaves the other places alone. -/
theorem Effect.stage_of_ne (h : q.Effect a q') (ha : a.place = some p) (hr : r ≠ p) :
    q'.stage r = q.stage r := by
  cases h with
  | refused | reserved => cases ha
  | cancel | nothing => rfl
  | entered hs | suspended hs | handed hs | cancelled hs | exit hs | gaveUp hs =>
    cases ha
    exact (stage_set hs rfl r).trans (if_neg hr)

theorem Effect.length (h : q.Effect a q') (ha : a.place = some p) :
    q'.places.length = q.places.length := by
  cases h with
  | refused | reserved => cases ha
  | cancel | nothing => rfl
  | entered | suspended | handed | cancelled | exit | gaveUp => exact List.length_set

theorem stage_slot (hF : q.Flags) (h : q.step (.slot p) = some q') :
    q.stage p = some .accepted ∧ (q'.stage p = some .running ∨ q'.stage p = some .queued) := by
  cases step_effect hF h with
  | entered hs => exact ⟨hs, .inl ((stage_set hs rfl p).trans (if_pos rfl))⟩
  | suspended hs => exact ⟨hs, .inr ((stage_set hs rfl p).trans (if_pos rfl))⟩

theorem stage_wake (hF : q.Flags) (h : q.step (.wake p) = some q') :
    q'.stage p = some .running ∨ q'.stage p = some .cancelled := by
  cases step_effect hF h with
  | handed hs => exact .inl ((stage_set hs rfl p).trans (if_pos rfl))
  | cancelled hs => exact .inr ((stage_set hs rfl p).trans (if_pos rfl))

theorem stage_exit (hF : q.Flags) (h : q.step (.exit p) = some q') :
    q'.stage p = some .finished := by
  cases step_effect hF h with
  | exit hs => exact (stage_set hs rfl p).trans (if_pos rfl)

theorem stage_cancel (hF : q.Flags) (h : q.step (.cancel p) = some q') :
    q'.stage p = q.stage p := by
  cases step_effect hF h with
  | cancel => rfl

theorem stage_giveUp (hF : q.Flags) (hs : q.stage p = some s) (h : q.step (.giveUp p) = some q') :
    q'.stage p = some (if s = .accepted then .gaveUp else s) := by
  cases step_effect hF h with
  | gaveUp hs' =>
    cases hs.symm.trans hs'
    exact (stage_set hs' rfl p).trans (if_pos rfl)
  | nothing hs' hw =>
    cases hs.symm.trans hs'
    have hne : s ≠ .accepted := by rintro rfl; cases hw
    rw [if_neg hne]
    exact hs

/-- A reservation leaves the places that there are alone. -/
theorem stage_reserve (h : q.step .reserve = some q') (hr : r < q.places.length) :
    q'.stage r = q.stage r := by
  rw [step, Option.some.injEq] at h
  subst h
  unfold reserve
  split_ifs
  · rfl
  · exact (stage_append rfl r).trans (if_neg (Nat.ne_of_lt hr))

theorem reserve_error {e : QueueFull} (h : q.reserve = (q', .error e)) : q' = q := by
  unfold reserve at h
  split_ifs at h <;> cases h
  rfl

/-- A new place is the next one, and accepted. -/
theorem reserve_ok (h : q.reserve = (q', .ok p)) :
    p = q.places.length ∧ q.step .reserve = some q' ∧ q'.stage p = some .accepted ∧
      q'.places.length = q.places.length + 1 := by
  have hstep : q.step .reserve = some q' := by rw [step, h]
  unfold reserve at h
  split_ifs at h
  · cases h
  obtain ⟨hq, hp⟩ := Prod.mk.inj h
  have hplaces : q'.places = q.places ++ [⟨true, .accepted⟩] := by rw [← hq]; rfl
  obtain rfl : q.places.length = p := Except.ok.inj hp
  exact ⟨rfl, hstep, (stage_append hplaces _).trans (if_pos rfl), by rw [hplaces]; simp⟩

end RequestQueue

/-! ## Stages and tasks -/

/-- The POSTs of a request whose place has got this far. -/
def Stage.posts : Stage → ℕ
  | .running | .finished => 1
  | _ => 0

/-- Neither waiting for the lock nor holding it. -/
def Stage.Idle (s : Stage) : Prop := s ≠ .queued ∧ s ≠ .running

def Gen.stage : Gen → Stage
  | .queued => .queued
  | .connecting | .reading | .closing _ => .running

def Producer.Fits (s : Stage) : Producer → Prop
  | .ready => s = .accepted
  | .running g => s = g.stage
  | .putting => s = .running
  | .puttingLast _ | .finished _ => s.Idle

def Task.Fits (s : Stage) : Task → Prop
  | .ready | .starting => s = .accepted
  | .collecting g => s = g.stage
  | .streaming b => b.producer.Fits s
  | .ending _ | .finished _ => s.Idle

/-- An event that moves the place from `s` to `s'` with `n` POSTs; only `calls` says that it may
call `slot`. -/
structure Moved (q q' : RequestQueue) (p : PlaceId) (s s' : Stage) (n : ℕ) (calls : Bool) :
    Prop where
  stage : q'.stage p = some s'
  posts : s'.posts = s.posts + n
  via : q' = q ∨ (∃ a, a.place = some p ∧ (∀ r, a ≠ .slot r) ∧ q.step a = some q') ∨
    calls = true ∧ q.step (.slot p) = some q'

variable {q q' : RequestQueue} {p : PlaceId} {s : Stage} {n : ℕ}

theorem Moved.refl (hs : q.stage p = some s) (calls : Bool) : Moved q q p s s 0 calls :=
  ⟨hs, rfl, .inl rfl⟩

/-! ## The generator -/

theorem callSlot_moved {g : Gen} (hI : q.Inv) (hs : q.stage p = some s)
    (h : callSlot q p = some (q', g, n)) : Moved q q' p s g.stage n true := by
  unfold callSlot at h
  obtain ⟨q₁, hq, h⟩ := Option.map_eq_some_iff.1 h
  obtain ⟨hacc, hstage⟩ := RequestQueue.stage_slot hI.flags hq
  cases hs.symm.trans hacc
  rcases hstage with hrun | hqueued
  · rw [if_pos hrun] at h
    cases h
    exact ⟨hrun, rfl, .inr (.inr ⟨rfl, hq⟩)⟩
  · rw [if_neg (by rw [hqueued]; decide)] at h
    cases h
    exact ⟨hqueued, rfl, .inr (.inr ⟨rfl, hq⟩)⟩

/-- What the generator is now, or that it has ended. -/
def GenFits (s : Stage) : Gen ⊕ Ended → Prop
  | .inl g => s = g.stage
  | .inr _ => s.Idle

theorem Gen.step_moved {g : Gen} {e : GenEvent} {out : Gen ⊕ Ended} (hI : q.Inv)
    (hs : q.stage p = some g.stage) (h : g.step q p e = some (q', out, n)) :
    ∃ s', Moved q q' p g.stage s' n false ∧ GenFits s' out := by
  cases g with
  | queued =>
    cases e with
    | wake =>
      unfold Gen.step at h
      obtain ⟨q₁, hq, h⟩ := Option.map_eq_some_iff.1 h
      have hvia : q₁ = q ∨ (∃ a, RequestQueue.Action.place a = some p ∧ (∀ r, a ≠ .slot r) ∧
          q.step a = some q₁) ∨ false = true ∧ q.step (.slot p) = some q₁ :=
        .inr (.inl ⟨.wake p, rfl, nofun, hq⟩)
      rcases RequestQueue.stage_wake hI.flags hq with hrun | hcancelled
      · rw [if_pos hrun] at h
        cases h
        exact ⟨.running, ⟨hrun, rfl, hvia⟩, rfl⟩
      · rw [if_neg (by rw [hcancelled]; decide)] at h
        cases h
        exact ⟨.cancelled, ⟨hcancelled, rfl, hvia⟩, nofun, nofun⟩
    | _ => cases h
  | connecting =>
    cases e with
    | connected => cases h; exact ⟨.running, .refl hs false, rfl⟩
    | stop e =>
      unfold Gen.step at h
      dsimp only at h
      split_ifs at h
      cases h
      exact ⟨.running, .refl hs false, rfl⟩
    | _ => cases h
  | reading =>
    cases e with
    | stop e =>
      unfold Gen.step at h
      dsimp only at h
      split_ifs at h
      cases h
      exact ⟨.running, .refl hs false, rfl⟩
    | _ => cases h
  | closing e' =>
    cases e with
    | closed raised =>
      unfold Gen.step at h
      dsimp only at h
      split_ifs at h
      obtain ⟨q₁, hq, h⟩ := Option.map_eq_some_iff.1 h
      cases h
      exact ⟨.finished, ⟨RequestQueue.stage_exit hI.flags hq, rfl,
        .inr (.inl ⟨.exit p, rfl, nofun, hq⟩)⟩, nofun, nofun⟩
    | _ => cases h

theorem Gen.cancel_moved {g : Gen} {c : Bool} (hI : q.Inv) (hs : q.stage p = some g.stage)
    (h : g.cancel q p = some (q', c)) : Moved q q' p g.stage g.stage 0 false := by
  cases g with
  | queued =>
    unfold Gen.cancel at h
    obtain ⟨q₁, hq, h⟩ := Option.map_eq_some_iff.1 h
    cases h
    exact ⟨(RequestQueue.stage_cancel hI.flags hq).trans hs, rfl,
      .inr (.inl ⟨.cancel p, rfl, nofun, hq⟩)⟩
  | _ => cases h; exact .refl hs false

/-! ## The producer -/

namespace Beats

variable {b b' : Beats}

theorem produce_moved (hI : q.Inv) (hs : q.stage p = some s)
    (h : b.produce q p = some (q', b', n)) :
    ∃ s', Moved q q' p s s' n true ∧ b'.producer.Fits s' := by
  unfold produce at h
  split at h
  · split_ifs at h
    obtain ⟨⟨q₁, g, n₁⟩, hcall, h⟩ := Option.map_eq_some_iff.1 h
    cases h
    exact ⟨g.stage, callSlot_moved hI hs hcall, rfl⟩
  · cases h

theorem chunk_fits (hb : b.producer.Fits s) (h : b.chunk = some b') : b'.producer.Fits s := by
  unfold chunk at h
  split at h
  · next hp =>
    rw [hp] at hb
    split_ifs at h
    · cases h; rw [hp]; exact hb
    · cases h; exact hb
  · cases h

theorem putLast_fits (hs : s.Idle) (e : Ended) : (b.putLast e).producer.Fits s := by
  unfold putLast
  split_ifs <;> exact hs

theorem gen_moved {e : GenEvent} (hI : q.Inv) (hs : q.stage p = some s) (hb : b.producer.Fits s)
    (h : b.gen q p e = some (q', b', n)) :
    ∃ s', Moved q q' p s s' n false ∧ b'.producer.Fits s' := by
  unfold gen at h
  split at h
  · next g hp =>
    rw [hp] at hb
    obtain rfl : s = g.stage := hb
    split_ifs at h
    obtain ⟨⟨q₁, out, n₁⟩, hstep, h⟩ := Option.map_eq_some_iff.1 h
    obtain ⟨s', hmoved, hfits⟩ := Gen.step_moved hI hs hstep
    refine ⟨s', ?_⟩
    cases out with
    | inl g' => cases h; exact ⟨hmoved, hfits⟩
    | inr e' =>
      cases e' with
      | cancelled => cases h; exact ⟨hmoved, hfits⟩
      | _ => cases h; exact ⟨hmoved, putLast_fits hfits _⟩
  · cases h

theorem put_fits (hb : b.producer.Fits s) (h : b.put = some b') : b'.producer.Fits s := by
  unfold put at h
  split_ifs at h
  split at h
  · next hp => cases h; rw [hp] at hb; exact hb
  · next hp => cases h; rw [hp] at hb; exact hb
  · cases h

theorem raiseCancelled_fits (hb : b.producer.Fits s) (h : b.raiseCancelled = some b') :
    b'.producer.Fits s := by
  unfold raiseCancelled at h
  split_ifs at h
  split at h
  · next hp => cases h; rw [hp] at hb; subst hb; exact ⟨nofun, nofun⟩
  · next hp => cases h; rw [hp] at hb; exact hb
  · cases h
  · cases h
  · next g hne hp =>
    cases h
    rw [hp] at hb
    cases g with
    | queued => exact absurd rfl hne
    | _ => exact hb
  · next hp => cases h; rw [hp] at hb; exact hb

theorem cancel_moved (hI : q.Inv) (hs : q.stage p = some s) (hb : b.producer.Fits s)
    (h : b.cancel q p = some (q', b')) :
    Moved q q' p s s 0 false ∧ b'.producer = b.producer := by
  unfold cancel at h
  split at h
  · cases h; exact ⟨.refl hs false, rfl⟩
  · next g hp =>
    rw [hp] at hb
    obtain rfl : s = g.stage := hb
    obtain ⟨⟨q₁, c⟩, hcancel, h⟩ := Option.map_eq_some_iff.1 h
    cases h
    exact ⟨Gen.cancel_moved hI hs hcancel, rfl⟩
  · cases h; exact ⟨.refl hs false, rfl⟩

end Beats

/-! ## The answer task -/

theorem leaveBeats_moved {b : Beats} {t : Task} {raised : Bool} (hI : q.Inv)
    (hs : q.stage p = some s) (hb : b.producer.Fits s)
    (h : leaveBeats q p b raised = some (q', t)) : Moved q q' p s s 0 false ∧ t.Fits s := by
  unfold leaveBeats at h
  obtain ⟨⟨q₁, b'⟩, hcancel, h⟩ := Option.map_eq_some_iff.1 h
  obtain ⟨hmoved, hproducer⟩ := Beats.cancel_moved hI hs hb hcancel
  rw [← hproducer] at hb
  dsimp only at h
  split at h
  · next hp => cases h; rw [hp] at hb; exact ⟨hmoved, hb⟩
  · cases h; exact ⟨hmoved, hb⟩

namespace Answering

variable {t t' : Task} {a a' : Answering}

theorem start_moved (hI : q.Inv) (hs : q.stage p = some s) (hfits : s = .accepted)
    (h : a.start q p = some (q', t, n)) :
    ∃ s', Moved q q' p s s' n (!a.streams) ∧ t.Fits s' := by
  unfold start at h
  split_ifs at h with hstreams
  · cases h; exact ⟨s, .refl hs _, hfits⟩
  · obtain ⟨⟨q₁, g, n₁⟩, hcall, h⟩ := Option.map_eq_some_iff.1 h
    cases h
    rw [Bool.not_eq_true] at hstreams
    exact ⟨g.stage, by rw [hstreams]; exact callSlot_moved hI hs hcall, rfl⟩

theorem sent_moved {ok : Bool} (hI : q.Inv) (hs : q.stage p = some s) (ht : t.Fits s)
    (h : sent q p ok t = some (q', t')) : Moved q q' p s s 0 false ∧ t'.Fits s := by
  cases t with
  | starting =>
    cases h
    refine ⟨.refl hs false, ?_⟩
    obtain rfl : s = .accepted := ht
    cases ok
    · exact ⟨nofun, nofun⟩
    · rfl
  | streaming b =>
    unfold sent at h
    dsimp only at h
    split at h
    · split_ifs at h
      · cases h; exact ⟨.refl hs false, ht⟩
      · exact leaveBeats_moved hI hs ht h
    · split_ifs at h
      · cases h; exact ⟨.refl hs false, ht⟩
      · exact leaveBeats_moved hI hs ht h
    · cases h
  | ending m =>
    cases h
    refine ⟨.refl hs false, ?_⟩
    cases ok
    · exact ht
    · show (if m = 0 then Task.finished false else .ending (m - 1)).Fits s
      split_ifs <;> exact ht
  | _ => cases h

theorem afterGen_fits (hs : s.Idle) (e : Ended) : (afterGen e).Fits s := by
  cases e <;> exact hs

theorem gen_moved {e : GenEvent} {c : Bool} (hI : q.Inv) (hs : q.stage p = some s) (ht : t.Fits s)
    (h : gen q p e c t = some (q', t', n)) : ∃ s', Moved q q' p s s' n false ∧ t'.Fits s' := by
  cases t with
  | collecting g =>
    unfold gen at h
    dsimp only at h
    split_ifs at h
    obtain rfl : s = g.stage := ht
    obtain ⟨⟨q₁, out, n₁⟩, hstep, h⟩ := Option.map_eq_some_iff.1 h
    obtain ⟨s', hmoved, hfits⟩ := Gen.step_moved hI hs hstep
    refine ⟨s', ?_⟩
    cases out with
    | inl g' => cases h; exact ⟨hmoved, hfits⟩
    | inr e' => cases h; exact ⟨hmoved, afterGen_fits hfits e'⟩
  | streaming b =>
    unfold gen at h
    obtain ⟨⟨q₁, b', n₁⟩, hstep, h⟩ := Option.map_eq_some_iff.1 h
    cases h
    exact Beats.gen_moved hI hs ht hstep
  | _ => cases h

theorem chunk_fits {ok c : Bool} (ht : t.Fits s) (h : chunk ok c t = some t') : t'.Fits s := by
  cases t with
  | collecting g =>
    cases g with
    | reading =>
      unfold chunk at h
      dsimp only at h
      split_ifs at h <;> cases h <;> exact ht
    | _ => cases h
  | streaming b =>
    obtain ⟨b', hb, h⟩ := Option.map_eq_some_iff.1 h
    cases h
    exact Beats.chunk_fits ht hb
  | _ => cases h

theorem get_moved {r : Reaction} (hI : q.Inv) (hs : q.stage p = some s) (ht : t.Fits s)
    (h : get q p r t = some (q', t')) : Moved q q' p s s 0 false ∧ t'.Fits s := by
  cases t with
  | streaming b =>
    unfold get at h
    dsimp only at h
    split at h
    · cases r with
      | send | skip => cases h; exact ⟨.refl hs false, ht⟩
      | raise =>
        dsimp only at h
        exact leaveBeats_moved hI hs (by exact ht) h
    · next e _ _ hp =>
      cases h
      have hidle : b.producer.Fits s := ht
      rw [hp] at hidle
      exact ⟨.refl hs false, afterGen_fits hidle e⟩
    · cases h
  | _ => cases h

theorem raiseCancelled_moved (hI : q.Inv) (hs : q.stage p = some s) (ht : t.Fits s)
    (h : raiseCancelled q p t = some (q', t')) : Moved q q' p s s 0 false ∧ t'.Fits s := by
  cases t with
  | ready | starting =>
    cases h
    obtain rfl : s = .accepted := ht
    exact ⟨.refl hs false, nofun, nofun⟩
  | ending => cases h; exact ⟨.refl hs false, ht⟩
  | finished => cases h
  | collecting g =>
    cases g with
    | queued => cases h
    | _ => cases h; exact ⟨.refl hs false, ht⟩
  | streaming b =>
    unfold raiseCancelled at h
    dsimp only at h
    split at h
    · cases h
    · exact leaveBeats_moved hI hs ht h

theorem cancel_moved (hI : q.Inv) (hs : q.stage p = some s) (ha : a.task.Fits s)
    (h : a.cancel q p = some (q', a')) : Moved q q' p s s 0 false ∧ a'.task.Fits s := by
  unfold cancel at h
  split at h
  · cases h; exact ⟨.refl hs false, ha⟩
  · next g ht =>
    obtain ⟨⟨q₁, c⟩, hcancel, h⟩ := Option.map_eq_some_iff.1 h
    cases h
    have hg : a.task.Fits s := ha
    rw [ht] at hg
    obtain rfl : s = g.stage := hg
    exact ⟨Gen.cancel_moved hI hs hcancel, ha⟩
  · next b ht =>
    rw [ht] at ha
    split at h
    · obtain ⟨⟨q₁, b'⟩, hcancel, h⟩ := Option.map_eq_some_iff.1 h
      cases h
      obtain ⟨hmoved, hproducer⟩ := Beats.cancel_moved hI hs ha hcancel
      refine ⟨hmoved, ?_⟩
      show b'.producer.Fits s
      rw [hproducer]
      exact ha
    · cases h
      refine ⟨.refl hs false, ?_⟩
      show a.task.Fits s
      rw [ht]
      exact ha
  · cases h; exact ⟨.refl hs false, ha⟩

theorem onBeats_fits {f : Beats → Option Beats}
    (hf : ∀ b b', b.producer.Fits s → f b = some b' → b'.producer.Fits s) (ht : t.Fits s)
    (h : onBeats f t = some t') : t'.Fits s := by
  cases t with
  | streaming b =>
    obtain ⟨b', hb, h⟩ := Option.map_eq_some_iff.1 h
    cases h
    exact hf b b' ht hb
  | _ => cases h

/-- Whether the event may call `slot`. -/
def callsSlot (a : Answering) : TaskEvent → Bool
  | .start => !a.streams
  | .produce => true
  | _ => false

/-- The loop of `_with_heartbeats` without the queue. -/
theorem loop_moved {e : TaskEvent} (he : e = .beat ∨ e = .joined) (hs : q.stage p = some s)
    (ha : a.task.Fits s) (h : a.step q p e = some (q', a', n)) :
    Moved q q' p s s n false ∧ a'.task.Fits s := by
  rcases he with rfl | rfl
  · unfold step at h
    dsimp only at h
    split at h
    · next b ht =>
      split_ifs at h
      cases h
      rw [ht] at ha
      exact ⟨.refl hs false, ha⟩
    · cases h
  · unfold step at h
    dsimp only at h
    split at h
    · next ht =>
      cases h
      rw [ht] at ha
      exact ⟨.refl hs false, ha⟩
    · cases h

/-- The producer of the beats goes on in the generator. -/
theorem produce_moved (hI : q.Inv) (hs : q.stage p = some s)
    (h : a.step q p .produce = some (q', a', n)) :
    ∃ s', Moved q q' p s s' n true ∧ a'.task.Fits s' := by
  unfold step at h
  dsimp only at h
  split at h
  · next b ht =>
    obtain ⟨⟨q₁, b', n₁⟩, hproduce, h⟩ := Option.map_eq_some_iff.1 h
    cases h
    exact Beats.produce_moved hI hs hproduce
  · cases h

/-- **One event of an answer**: its place goes from a stage that the task fits to another one. -/
theorem step_moved {e : TaskEvent} (hI : q.Inv) (hs : q.stage p = some s) (ha : a.task.Fits s)
    (h : a.step q p e = some (q', a', n)) :
    ∃ s', Moved q q' p s s' n (a.callsSlot e) ∧ a'.task.Fits s' := by
  cases e with
  | start =>
    unfold step at h
    dsimp only at h
    split_ifs at h with hc
    obtain ⟨⟨q₁, t, n₁⟩, hstart, h⟩ := Option.map_eq_some_iff.1 h
    cases h
    rw [hc.1] at ha
    exact start_moved hI hs ha hstart
  | sent ok =>
    unfold step at h
    dsimp only at h
    split_ifs at h
    obtain ⟨⟨q₁, t⟩, hsent, h⟩ := Option.map_eq_some_iff.1 h
    cases h
    exact ⟨s, sent_moved hI hs ha hsent⟩
  | gen e =>
    obtain ⟨⟨q₁, t, n₁⟩, hgen, h⟩ := Option.map_eq_some_iff.1 h
    cases h
    exact gen_moved hI hs ha hgen
  | chunk ok =>
    obtain ⟨t, hchunk, h⟩ := Option.map_eq_some_iff.1 h
    cases h
    exact ⟨s, .refl hs false, chunk_fits ha hchunk⟩
  | get r =>
    unfold step at h
    dsimp only at h
    split_ifs at h
    obtain ⟨⟨q₁, t⟩, hget, h⟩ := Option.map_eq_some_iff.1 h
    cases h
    exact ⟨s, get_moved hI hs ha hget⟩
  | beat => exact ⟨s, loop_moved (.inl rfl) hs ha h⟩
  | joined => exact ⟨s, loop_moved (.inr rfl) hs ha h⟩
  | cancelled =>
    unfold step at h
    dsimp only at h
    split_ifs at h
    obtain ⟨⟨q₁, t⟩, hcancelled, h⟩ := Option.map_eq_some_iff.1 h
    cases h
    exact ⟨s, raiseCancelled_moved hI hs ha hcancelled⟩
  | produce => exact produce_moved hI hs h
  | put =>
    obtain ⟨t, hput, h⟩ := Option.map_eq_some_iff.1 h
    cases h
    exact ⟨s, .refl hs false, onBeats_fits (fun _ _ => Beats.put_fits) ha hput⟩
  | producerCancelled =>
    obtain ⟨t, hcancelled, h⟩ := Option.map_eq_some_iff.1 h
    cases h
    exact ⟨s, .refl hs false, onBeats_fits (fun _ _ => Beats.raiseCancelled_fits) ha hcancelled⟩

end Answering

end AgentLab.Gateway
