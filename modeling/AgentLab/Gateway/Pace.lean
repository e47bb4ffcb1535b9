import Mathlib.Algebra.Order.Floor.Semiring
import Mathlib.Algebra.Order.Ring.Star
import Mathlib.Data.List.Chain
import Mathlib.Data.Rat.Star
import Mathlib.Tactic.FieldSimp
import Mathlib.Tactic.Linarith
import AgentLab.Gateway.Stream

/-!
# The pace of a streaming answer

`_with_heartbeats` and `_stream` against the clock: the chunks become available at given moments,
and what is written is written at once. Each time that a chunk is taken the timer starts anew, but
`_stream` holds back a chunk that only reports usage which the client did not ask for. Then the
timer runs from a moment at which nothing was written.

So the client can hear nothing for longer than the interval. It never does if and only if every
chunk that is held back is `Covered`: the silence that it found and the one up to the next write fit
into one interval (`no_silent_gap_iff`). Where no chunk is held back there is never a gap
(`covered_of_written`).
-/

namespace AgentLab.Gateway

open Python

/-- A moment in seconds since the start of the response. If the timer is due at this very moment,
either can be first. -/
structure Arrival where
  time : ℚ
  timerFirst : Bool

/-- `heartbeat_seconds`; a profile has at least one. -/
abbrev Interval := {h : ℚ // 0 < h}

/-- The timer that was set at `now` fires before the arrival. -/
def fires (h : Interval) (now : ℚ) (a : Arrival) : Bool :=
  now + h < a.time || (now + h = a.time && a.timerFirst)

variable {h : Interval} {now silent : ℚ} {a : Arrival}

theorem le_of_fires (hfires : fires h now a = true) : now + h ≤ a.time := by
  unfold fires at hfires
  rw [Bool.or_eq_true, Bool.and_eq_true, decide_eq_true_eq, decide_eq_true_eq] at hfires
  rcases hfires with hlt | ⟨heq, -⟩
  · exact hlt.le
  · exact heq.le

/-- One interval later there is one less to go. -/
theorem intervals_left (h : Interval) (now : ℚ) (a : Arrival) :
    (a.time - (now + h)) / h = (a.time - now) / h - 1 := by
  have hne : (h : ℚ) ≠ 0 := h.2.ne'
  field_simp
  ring

theorem one_le_of_fires (hfires : fires h now a = true) : 1 ≤ (a.time - now) / h := by
  rw [le_div_iff₀ h.2]
  have := le_of_fires hfires
  linarith

/-- The comments that are sent while nothing arrives, from `now` on. -/
def waitFor (h : Interval) (a : Arrival) (now : ℚ) : List ℚ :=
  if fires h now a then (now + h) :: waitFor h a (now + h) else []
termination_by ⌈(a.time - now) / h⌉₊
decreasing_by
  next hfires =>
    rw [intervals_left, Nat.ceil_sub_one]
    have := Nat.ceil_pos.2 (zero_lt_one.trans_le (one_le_of_fires hfires))
    omega

/-- The comments and the chunks of `_with_heartbeats`, with their moments. -/
def beatsAt (h : Interval) (ending : Arrival) : ℚ → List (Arrival × Json) → List (ℚ × Option Json)
  | now, [] => (waitFor h ending now).map fun t => (t, none)
  | now, (a, chunk) :: chunks =>
    (waitFor h a now).map (fun t => (t, none)) ++
      (a.time, some chunk) :: beatsAt h ending a.time chunks

variable (modelName : String) (includeUsage : Bool)

/-- What `_stream` writes for a chunk: nothing, if it holds it back. -/
def written (chunk : Json) : Except PyExc (Option Json) := do
  let usageOnly ← usageOnly chunk
  if usageOnly && !includeUsage then return none
  else return some (← publicChunk modelName chunk >>= sse)

/-- `streamBeats` with the moments. -/
def streamBeatsAt : List (ℚ × Option Json) → List (ℚ × Part) × Option PyExc
  | [] => ([], none)
  | (t, none) :: beats =>
    let (parts, crash) := streamBeatsAt beats
    ((t, .comment) :: parts, crash)
  | (t, some chunk) :: beats =>
    match written modelName includeUsage chunk with
    | .error x => ([], some x)
    | .ok none => streamBeatsAt beats
    | .ok (some v) =>
      let (parts, crash) := streamBeatsAt beats
      ((t, .event v) :: parts, crash)

/-- The event that ends the answer. -/
def finalPart : Outcome → Option Part
  | .done => some .done
  | .failed e =>
    match sse e.apiError.body with
    | .ok v => some (.event v)
    | .error _ => none
  | .raised _ => none

/-- The arrivals are in order. -/
def InOrder (ending : Arrival) : ℚ → List (Arrival × Json) → Prop
  | now, [] => now ≤ ending.time
  | now, (a, _) :: chunks => now ≤ a.time ∧ InOrder ending a.time chunks

/-- When the backend's chunks, and its end or error, become available. -/
structure Schedule where
  chunks : List (Arrival × Json)
  ending : Arrival
  outcome : Outcome
  inOrder : InOrder ending 0 chunks

/-- The body writes from `now` on, up to the final event. -/
def writesFrom (h : Interval) (ending : Arrival) (outcome : Outcome) (now : ℚ)
    (chunks : List (Arrival × Json)) : List (ℚ × Part) :=
  let (parts, crash) := streamBeatsAt modelName includeUsage (beatsAt h ending now chunks)
  match crash, finalPart outcome with
  | none, some part => parts ++ [(ending.time, part)]
  | _, _ => parts

/-- The body writes of `_stream` with their moments, up to the final event. -/
def Schedule.writes (h : Interval) (s : Schedule) : List (ℚ × Part) :=
  writesFrom modelName includeUsage h s.ending s.outcome 0 s.chunks

/-- The second moment is no more than the interval after the first. -/
def Near (h : Interval) (t t' : ℚ) : Prop := t' - t ≤ h

/-- From the start of the response on, each write is near the one before. -/
def NoGap (h : Interval) (writes : List (ℚ × Part)) : Prop :=
  (0 :: writes.map Prod.fst).IsChain (Near h)

/-! ## Without the moments -/

variable {modelName includeUsage}

theorem streamBeats_some (chunk : Json) (beats : List (Option Json)) :
    streamBeats modelName includeUsage (some chunk :: beats) =
      match written modelName includeUsage chunk with
      | .error x => ([], some x)
      | .ok none => streamBeats modelName includeUsage beats
      | .ok (some v) =>
        (.event v :: (streamBeats modelName includeUsage beats).1,
          (streamBeats modelName includeUsage beats).2) := by
  rw [streamBeats]
  unfold written
  cases usageOnly chunk with
  | error x => rfl
  | ok usageOnly =>
    rw [Except.ok_bind]
    dsimp only
    split_ifs
    · rfl
    · cases publicChunk modelName chunk >>= sse with
      | error x => rfl
      | ok v => rfl

variable (modelName includeUsage) in
theorem streamBeatsAt_eq (beats : List (ℚ × Option Json)) :
    ((streamBeatsAt modelName includeUsage beats).1.map Prod.snd,
      (streamBeatsAt modelName includeUsage beats).2) =
        streamBeats modelName includeUsage (beats.map Prod.snd) := by
  induction beats with
  | nil => rfl
  | cons beat beats ih =>
    obtain ⟨t, _ | chunk⟩ := beat
    · rw [List.map_cons, streamBeats, ← ih]
      rfl
    · rw [List.map_cons, streamBeats_some, streamBeatsAt, ← ih]
      cases written modelName includeUsage chunk with
      | error x => rfl
      | ok v => cases v <;> rfl

/-- The writes are the body messages of `streamMessages`, without the empty last one. -/
theorem writes_messages (h : Interval) (s : Schedule) :
    ∃ rest, (streamMessages modelName includeUsage ((beatsAt h s.ending 0 s.chunks).map Prod.snd)
      s.outcome).1 =
        .start 200 :: ((s.writes modelName includeUsage h).map fun write => .body write.2) ++ rest ∧
      (rest = [] ∨ rest = [.last]) := by
  obtain ⟨hparts, hcrash⟩ := Prod.ext_iff.1
    (streamBeatsAt_eq modelName includeUsage (beatsAt h s.ending 0 s.chunks))
  unfold streamMessages Schedule.writes writesFrom
  dsimp only at hparts hcrash ⊢
  rw [← hparts, ← hcrash, List.map_map]
  generalize streamBeatsAt modelName includeUsage (beatsAt h s.ending 0 s.chunks) = beats
  obtain ⟨parts, crash⟩ := beats
  dsimp only
  cases crash with
  | some x => exact ⟨[], by simp, .inl rfl⟩
  | none =>
    unfold finalPart
    cases s.outcome with
    | done => exact ⟨[.last], by simp, .inr rfl⟩
    | raised x => exact ⟨[], by simp, .inl rfl⟩
    | failed e =>
      dsimp only
      cases sse e.apiError.body with
      | ok v => exact ⟨[.last], by simp, .inr rfl⟩
      | error x => exact ⟨[], by simp, .inl rfl⟩

/-! ## Silence -/

/-- How often the timer that was set at `now` fires before the arrival. -/
def beatsBefore (h : Interval) (now : ℚ) (a : Arrival) : ℕ :=
  if a.timerFirst then ⌊(a.time - now) / h⌋₊ else ⌈(a.time - now) / h⌉₊ - 1

/-- How long nothing was written when the arrival comes, if this was so for `silent` at `now`. -/
def silence (h : Interval) (now silent : ℚ) (a : Arrival) : ℚ :=
  if beatsBefore h now a = 0 then silent + (a.time - now)
  else a.time - now - beatsBefore h now a * h

/-- The next write after `now` is in time: the first comment, or what is written on the arrival. -/
def InTime (h : Interval) (now silent : ℚ) (a : Arrival) (writes : Prop) : Prop :=
  if beatsBefore h now a = 0 then writes → silent + (a.time - now) ≤ h else silent = 0

/-- Every chunk that is held back is covered: from the silence that it leaves on, the next write is
in time. -/
def Covered (h : Interval) (modelName : String) (includeUsage : Bool) (ending : Arrival)
    (outcome : Outcome) : ℚ → ℚ → List (Arrival × Json) → Prop
  | now, silent, [] => InTime h now silent ending (finalPart outcome ≠ none)
  | now, silent, (a, chunk) :: chunks =>
    match written modelName includeUsage chunk with
    | .error _ => InTime h now silent a False
    | .ok none => InTime h now silent a False ∧
        Covered h modelName includeUsage ending outcome a.time (silence h now silent a) chunks
    | .ok (some _) => InTime h now silent a True ∧
        Covered h modelName includeUsage ending outcome a.time 0 chunks

theorem fires_iff : fires h now a = true ↔ beatsBefore h now a ≠ 0 := by
  have hpos : (0 : ℚ) < h := h.2
  unfold fires beatsBefore
  rw [Bool.or_eq_true, Bool.and_eq_true, decide_eq_true_eq, decide_eq_true_eq]
  split_ifs with hfirst
  · rw [hfirst, ne_eq, Nat.floor_eq_zero, not_lt, le_div_iff₀ hpos]
    constructor
    · rintro (hlt | ⟨heq, -⟩) <;> linarith
    · intro hle
      rcases eq_or_lt_of_le hle with heq | hlt
      · exact .inr ⟨by linarith, rfl⟩
      · exact .inl (by linarith)
  · have hcount : ⌈(a.time - now) / h⌉₊ - 1 ≠ 0 ↔ 1 < (a.time - now) / h := by
      have hceil := Nat.lt_ceil (a := (a.time - now) / h) (n := 1)
      rw [Nat.cast_one] at hceil
      rw [← hceil]
      omega
    rw [hcount, lt_div_iff₀ hpos]
    constructor
    · rintro (hlt | ⟨-, hfirst'⟩)
      · linarith
      · exact absurd hfirst' hfirst
    · exact fun hlt => .inl (by linarith)

/-- One interval later there is one beat less to come. -/
theorem beatsBefore_succ (hfires : fires h now a = true) :
    beatsBefore h now a = beatsBefore h (now + h) a + 1 := by
  have hone := one_le_of_fires hfires
  have hne := fires_iff.1 hfires
  unfold beatsBefore at hne ⊢
  rw [intervals_left]
  split_ifs at hne ⊢
  · rw [Nat.floor_sub_one]
    omega
  · rw [Nat.ceil_sub_one]
    omega

/-- After a beat, the silence is that since the last one. -/
theorem silence_beat (silent : ℚ) (hfires : fires h now a = true) :
    silence h (now + h) 0 a = silence h now silent a := by
  have hsucc := beatsBefore_succ hfires
  unfold silence
  rw [if_neg (by omega : ¬ beatsBefore h now a = 0), hsucc]
  split_ifs with hzero
  · rw [hzero]
    push_cast
    ring
  · push_cast
    ring

theorem silence_nonneg (hnow : now ≤ a.time) (hsilent : 0 ≤ silent) :
    0 ≤ silence h now silent a := by
  have hpos : (0 : ℚ) < h := h.2
  have hx : 0 ≤ (a.time - now) / h := div_nonneg (by linarith) hpos.le
  unfold silence
  split_ifs with hzero
  · linarith
  · have hle : (beatsBefore h now a : ℚ) ≤ (a.time - now) / h := by
      unfold beatsBefore at hzero ⊢
      split_ifs at hzero ⊢
      · exact Nat.floor_le hx
      · have hceil := (Nat.ceil_lt_add_one hx).le
        rw [Nat.cast_pred (by omega)]
        linarith
    rw [le_div_iff₀ hpos] at hle
    linarith

/-- What arrives after a beat is not late. -/
theorem silence_le (hbeats : beatsBefore h now a ≠ 0) : silence h now silent a ≤ h := by
  have hpos : (0 : ℚ) < h := h.2
  have hlt : (a.time - now) / h ≤ beatsBefore h now a + 1 := by
    unfold beatsBefore at hbeats ⊢
    split_ifs at hbeats ⊢
    · exact (Nat.lt_floor_add_one _).le
    · rw [Nat.cast_pred (by omega), sub_add_cancel]
      exact Nat.le_ceil _
  rw [div_le_iff₀ hpos] at hlt
  unfold silence
  rw [if_neg hbeats]
  linarith

/-! ## Waiting for one arrival -/

theorem chain_wait (hnow : now ≤ a.time) (hsilent : 0 ≤ silent) (l : List ℚ) :
    ((now - silent) :: (waitFor h a now ++ l)).IsChain (Near h) ↔
      (beatsBefore h now a ≠ 0 → silent = 0) ∧
        ((a.time - silence h now silent a) :: l).IsChain (Near h) := by
  fun_induction waitFor h a now generalizing silent with
  | case1 now hfires ih =>
    have hfirst : Near h (now - silent) (now + h) ↔ silent = 0 := by
      unfold Near
      constructor <;> intro hle <;> linarith
    have hrest := ih (le_of_fires hfires) le_rfl
    rw [sub_zero, silence_beat silent hfires] at hrest
    have hbeats := fires_iff.1 hfires
    rw [List.cons_append, List.isChain_cons_cons, hfirst, hrest]
    simp [hbeats]
  | case2 now hfires =>
    have hbeats : beatsBefore h now a = 0 := by
      by_contra hne
      exact hfires (fires_iff.2 hne)
    have hsince : a.time - silence h now silent a = now - silent := by
      unfold silence
      rw [if_pos hbeats]
      ring
    rw [hsince, List.nil_append]
    simp [hbeats]

theorem chain_held (hnow : now ≤ a.time) (hsilent : 0 ≤ silent) (l : List ℚ) :
    ((now - silent) :: (waitFor h a now ++ l)).IsChain (Near h) ↔
      InTime h now silent a False ∧
        ((a.time - silence h now silent a) :: l).IsChain (Near h) := by
  rw [chain_wait hnow hsilent]
  unfold InTime
  split_ifs with hbeats
  · simp [hbeats]
  · simp [hbeats]

theorem chain_written (hnow : now ≤ a.time) (hsilent : 0 ≤ silent) (l : List ℚ) :
    ((now - silent) :: (waitFor h a now ++ a.time :: l)).IsChain (Near h) ↔
      InTime h now silent a True ∧ (a.time :: l).IsChain (Near h) := by
  rw [chain_wait hnow hsilent, List.isChain_cons_cons, ← and_assoc]
  refine and_congr_left fun _ => ?_
  have hnear : Near h (a.time - silence h now silent a) a.time ↔ silence h now silent a ≤ h := by
    unfold Near
    rw [sub_sub_cancel]
  rw [hnear]
  unfold InTime
  split_ifs with hbeats
  · unfold silence
    simp [hbeats]
  · simp [hbeats, silence_le hbeats]

/-! ## The whole answer -/

variable (modelName includeUsage) in
theorem streamBeatsAt_wait (moments : List ℚ) (beats : List (ℚ × Option Json)) :
    streamBeatsAt modelName includeUsage ((moments.map fun t => (t, none)) ++ beats) =
      ((moments.map fun t => (t, Part.comment)) ++
        (streamBeatsAt modelName includeUsage beats).1,
        (streamBeatsAt modelName includeUsage beats).2) := by
  induction moments with
  | nil => rfl
  | cons t moments ih =>
    rw [List.map_cons, List.cons_append, streamBeatsAt, ih]
    rfl

variable {ending : Arrival} {outcome : Outcome}

theorem writesFrom_nil : (writesFrom modelName includeUsage h ending outcome now []).map Prod.fst =
    waitFor h ending now ++ (if finalPart outcome = none then [] else [ending.time]) := by
  unfold writesFrom beatsAt
  have hwait := streamBeatsAt_wait modelName includeUsage (waitFor h ending now) []
  rw [List.append_nil] at hwait
  rw [hwait]
  cases finalPart outcome with
  | none => simp [streamBeatsAt, Function.comp_def]
  | some part => simp [streamBeatsAt, Function.comp_def]

theorem writesFrom_cons (chunk : Json) (chunks : List (Arrival × Json)) :
    (writesFrom modelName includeUsage h ending outcome now ((a, chunk) :: chunks)).map Prod.fst =
      waitFor h a now ++ match written modelName includeUsage chunk with
        | .error _ => []
        | .ok none =>
          (writesFrom modelName includeUsage h ending outcome a.time chunks).map Prod.fst
        | .ok (some _) => a.time ::
          (writesFrom modelName includeUsage h ending outcome a.time chunks).map Prod.fst := by
  unfold writesFrom
  rw [beatsAt, streamBeatsAt_wait, streamBeatsAt]
  generalize streamBeatsAt modelName includeUsage (beatsAt h ending a.time chunks) = beats
  obtain ⟨parts, crash⟩ := beats
  cases written modelName includeUsage chunk with
  | error x => simp [Function.comp_def]
  | ok v =>
    cases v with
    | none =>
      dsimp only
      cases crash <;> cases finalPart outcome <;> simp [Function.comp_def]
    | some v =>
      dsimp only
      cases crash <;> cases finalPart outcome <;> simp [Function.comp_def]

variable (modelName includeUsage outcome) in
/-- The answer from `now` on, after a silence. -/
theorem writesFrom_chain : ∀ {chunks : List (Arrival × Json)} {now silent : ℚ},
    InOrder ending now chunks → 0 ≤ silent →
      (((now - silent) :: (writesFrom modelName includeUsage h ending outcome now chunks).map
        Prod.fst).IsChain (Near h) ↔
        Covered h modelName includeUsage ending outcome now silent chunks) := by
  intro chunks
  induction chunks with
  | nil =>
    intro now silent horder hsilent
    rw [writesFrom_nil, Covered]
    by_cases hfinal : finalPart outcome = none
    · rw [if_pos hfinal, chain_held horder hsilent]
      simp [hfinal]
    · rw [if_neg hfinal, chain_written horder hsilent]
      simp [hfinal]
  | cons arrival chunks ih =>
    intro now silent horder hsilent
    obtain ⟨a, chunk⟩ := arrival
    obtain ⟨hnow, horder⟩ := horder
    rw [writesFrom_cons, Covered]
    cases written modelName includeUsage chunk with
    | error x =>
      dsimp only
      rw [chain_held hnow hsilent]
      simp
    | ok v =>
      cases v with
      | none =>
        dsimp only
        rw [chain_held hnow hsilent, ih horder (silence_nonneg hnow hsilent)]
      | some v =>
        dsimp only
        rw [chain_written hnow hsilent, ← ih horder le_rfl, sub_zero]

theorem inTime_zero (writes : Prop) : InTime h now 0 a writes := by
  unfold InTime
  split_ifs with hbeats
  · intro _
    have hfires : ¬ fires h now a = true := fun hfires => fires_iff.1 hfires hbeats
    unfold fires at hfires
    rw [Bool.or_eq_true, not_or, decide_eq_true_eq] at hfires
    linarith [not_lt.1 hfires.1]
  · rfl

/-- There is no gap where no chunk is held back. -/
theorem covered_of_written : ∀ {chunks : List (Arrival × Json)} {now : ℚ},
    InOrder ending now chunks →
      (∀ arrival ∈ chunks, written modelName includeUsage arrival.2 ≠ .ok none) →
        Covered h modelName includeUsage ending outcome now 0 chunks := by
  intro chunks
  induction chunks with
  | nil => exact fun horder _ => inTime_zero _
  | cons arrival chunks ih =>
    intro now ⟨hnow, horder⟩ hall
    obtain ⟨hwritten, hall⟩ := List.forall_mem_cons.1 hall
    rw [Covered]
    cases hw : written modelName includeUsage arrival.2 with
    | error x => exact inTime_zero _
    | ok v =>
      cases v with
      | none => exact absurd hw hwritten
      | some v => exact ⟨inTime_zero _, ih horder hall⟩

/-- **Which answers have no silent gap.** -/
theorem no_silent_gap_iff (h : Interval) (s : Schedule) :
    NoGap h (s.writes modelName includeUsage h) ↔
      Covered h modelName includeUsage s.ending s.outcome 0 0 s.chunks := by
  have hchain := writesFrom_chain (h := h) modelName includeUsage s.outcome s.inOrder le_rfl
  rw [sub_zero] at hchain
  exact hchain

/-- A chunk that only reports usage. -/
def usageChunk : Json :=
  .obj [(str "choices", .list []), (str "usage", .obj [(str "prompt_tokens", .int 5)])]

/-- It comes just before the timer is due, and the end just before it is due again. -/
def silentSchedule : Schedule where
  chunks := [(⟨14, false⟩, usageChunk)]
  ending := ⟨28, false⟩
  outcome := .done
  inOrder := ⟨by norm_num, by norm_num [InOrder]⟩

/-- The client hears nothing for 28 seconds, where a comment is due after 15. -/
theorem silent_gap :
    wellFormed usageChunk = true ∧
      (silentSchedule.writes "qwen3-0.6b" false ⟨15, by norm_num⟩).map Prod.fst = [28] ∧
      ¬ NoGap ⟨15, by norm_num⟩
        (silentSchedule.writes "qwen3-0.6b" false ⟨15, by norm_num⟩) := by
  have hheld : written "qwen3-0.6b" false usageChunk = .ok none := rfl
  have hfirst : waitFor ⟨15, by norm_num⟩ ⟨14, false⟩ 0 = [] := by
    rw [waitFor, if_neg (by norm_num [fires])]
  have hsecond : waitFor ⟨15, by norm_num⟩ ⟨28, false⟩ 14 = [] := by
    rw [waitFor, if_neg (by norm_num [fires])]
  have hwrites : (silentSchedule.writes "qwen3-0.6b" false ⟨15, by norm_num⟩).map Prod.fst =
      [28] := by
    unfold Schedule.writes silentSchedule
    dsimp only
    rw [writesFrom_cons, hfirst, hheld, writesFrom_nil, hsecond]
    rfl
  refine ⟨by decide +kernel, hwrites, ?_⟩
  unfold NoGap
  rw [hwrites, List.isChain_cons_cons]
  rintro ⟨hnear, -⟩
  unfold Near at hnear
  norm_num at hnear

end AgentLab.Gateway
