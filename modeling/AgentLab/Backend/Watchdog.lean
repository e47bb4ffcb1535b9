import AgentLab.Backend.Settings
import AgentLab.Config.Valid
import AgentLab.Python.Float
import AgentLab.Python.Rounding

/-!
# The memory watchdog

The loop of `start_watchdog`, over the rounds that it takes: what the clock, the memory and the
sample come to in each of them, and whether the stop event was set before it. `Guards` is what the
log of its calls is to be. The loop keeps to it exactly if the reading it has to stop at has a
reason that can be told (`watchdog_guards_iff`): otherwise the thread ends before the call. The
readings of MLX and the limits of a profile can be told (`Sizable.of_lt`, `memoryLimit_sizable`), so
the watchdog guards (`watchdog_guards`).
-/

namespace AgentLab.Backend

open Python

def GIB : ℕ := 1024 ^ 3

def MIB : ℕ := 1024 ^ 2

/-- `_size`. -/
def size (n : ℤ) : Except PyExc String :=
  if GIB ≤ n then do return fixedText 2 (← trueDiv n GIB) ++ " GB"
  else do return fixedText 1 (← trueDiv n MIB) ++ " MB"

/-- `check_memory`: the reason to stop. -/
def checkMemory (activeBytes limit : ℤ) : Except PyExc (Option String) :=
  if activeBytes ≤ limit then return none
  else do
    return some ("Metal memory limit exceeded: MLX is using " ++ (← size activeBytes) ++
      ", the limit is " ++ (← size limit) ++ "; stopping the backend to protect the system")

/-- The arguments of `start_watchdog`; `samples` says that there is an `on_sample`. -/
structure WatchConfig where
  limit : ℤ
  samples : Bool
  sampleEvery : PyFloat

/-- How `read_active` fails. -/
inductive ReadFailure
  /-- With an `Exception`, and the text of it, or what `str` raises. -/
  | exception (text : Except PyExc String)
  /-- With another `BaseException`. -/
  | base

/-- A round of the loop. -/
structure Round where
  stopped : Bool
  reading : Except ReadFailure ℤ
  now : PyFloat
  sampleFails : Bool

/-- What the watchdog calls, and that its thread ends with an exception. -/
inductive WatchEvent
  | read
  | sample (active : ℤ)
  /-- `log.exception`, after a sample that failed. -/
  | logged
  | exceeded (reason : String)
  /-- The thread ends with an exception, or with one that is no `Exception`. -/
  | raised (x : Option PyExc)
  deriving DecidableEq

/-- `on_sample`, in its `try`. -/
def sampleEvents (active : ℤ) (fails : Bool) : List WatchEvent :=
  .sample active :: if fails then [.logged] else []

/-- `watch`, from a round on, with the time of the last sample. -/
def watchFrom (config : WatchConfig) (lastSample : PyFloat) : List Round → List WatchEvent
  | [] => []
  | r :: rounds =>
    if r.stopped then []
    else
      .read :: match r.reading with
        | .error (.exception (.ok exc)) =>
          [.exceeded ("cannot read MLX memory use (" ++ exc ++ "); stopping the backend")]
        | .error (.exception (.error x)) => [.raised (some x)]
        | .error .base => [.raised none]
        | .ok active =>
          match checkMemory active config.limit with
          | .error x => [.raised (some x)]
          | .ok (some reason) => [.exceeded reason]
          | .ok none =>
            if config.samples && config.sampleEvery.le (r.now.sub lastSample) then
              sampleEvents active r.sampleFails ++ watchFrom config r.now rounds
            else watchFrom config lastSample rounds

/-- `watch`: the log of the rounds. -/
def watch (config : WatchConfig) (rounds : List Round) : List WatchEvent :=
  watchFrom config (.finite 0) rounds

/-! ## What it is to do -/

/-- The reading failed or exceeds the limit. -/
def Bad (limit : ℤ) (r : Round) : Prop :=
  match r.reading with
  | .error _ => True
  | .ok active => limit < active

/-- The first round, of those before the stop event was seen, whose reading failed or exceeds the
limit. -/
structure FirstBad (limit : ℤ) (rounds : List Round) (k : ℕ) (r : Round) : Prop where
  at_k : rounds[k]? = some r
  running : r.stopped = false
  bad : Bad limit r
  before : ∀ r' ∈ rounds.take k, r'.stopped = false ∧ ¬ Bad limit r'

def WatchEvent.isExceeded : WatchEvent → Bool
  | .exceeded _ => true
  | _ => false

/-- The log is one of a watchdog that fires once and in time. -/
structure Guards (limit : ℤ) (rounds : List Round) (log : List WatchEvent) : Prop where
  once : log.countP WatchEvent.isExceeded ≤ 1
  fires : ∀ k r, FirstBad limit rounds k r → ∃ before reason,
    log = before ++ [.read, .exceeded reason] ∧ before.count .read = k
  only : ∀ reason, .exceeded reason ∈ log → ∃ k r, FirstBad limit rounds k r
  last : ∀ before reason after, log = before ++ .exceeded reason :: after → after = []
  samples : ∀ active, .sample active ∈ log → active ≤ limit

/-- `_size` has a quotient to show. -/
def Sizable (n : ℤ) : Prop := ∃ q, trueDiv n (if GIB ≤ n then GIB else MIB) = .ok q

/-- The reading can be told of: it has a size, or failed with an `Exception` of which `str` has a
text. -/
def Round.Readable (r : Round) : Prop :=
  match r.reading with
  | .error failure => ∃ text, failure = .exception (.ok text)
  | .ok active => Sizable active

/-- The reason to stop at the round has a text. -/
def Told (limit : ℤ) (r : Round) : Prop :=
  r.Readable ∧ ∀ active, r.reading = .ok active → Sizable limit

/-! ## Rounds -/

variable {config : WatchConfig} {limit : ℤ} {r r' : Round} {rounds : List Round} {k : ℕ}

theorem firstBad_stopped (h : r.stopped = true) : ¬ FirstBad limit (r :: rounds) k r' := by
  intro hfirst
  cases k with
  | zero =>
    obtain rfl : r = r' := Option.some.inj hfirst.at_k
    exact absurd (hfirst.running.symm.trans h) Bool.false_ne_true
  | succ k =>
    have hrunning := (hfirst.before r (List.mem_cons_self ..)).1
    exact absurd (hrunning.symm.trans h) Bool.false_ne_true

theorem firstBad_bad (hrunning : r.stopped = false) (hbad : Bad limit r) :
    FirstBad limit (r :: rounds) k r' ↔ k = 0 ∧ r' = r := by
  constructor
  · intro hfirst
    cases k with
    | zero => exact ⟨rfl, (Option.some.inj hfirst.at_k).symm⟩
    | succ k => exact absurd hbad (hfirst.before r (List.mem_cons_self ..)).2
  · rintro ⟨rfl, rfl⟩
    exact ⟨rfl, hrunning, hbad, List.forall_mem_nil _⟩

theorem firstBad_fine (hrunning : r.stopped = false) (hfine : ¬ Bad limit r) :
    FirstBad limit (r :: rounds) k r' ↔ ∃ j, k = j + 1 ∧ FirstBad limit rounds j r' := by
  constructor
  · intro hfirst
    cases k with
    | zero =>
      obtain rfl : r = r' := Option.some.inj hfirst.at_k
      exact absurd hfirst.bad hfine
    | succ k =>
      exact ⟨k, rfl, hfirst.at_k, hfirst.running, hfirst.bad,
        fun r'' h => hfirst.before r'' (List.mem_cons_of_mem r h)⟩
  · rintro ⟨j, rfl, hfirst⟩
    exact ⟨hfirst.at_k, hfirst.running, hfirst.bad,
      List.forall_mem_cons.2 ⟨⟨hrunning, hfine⟩, hfirst.before⟩⟩

/-! ## The reason to stop -/

theorem size_ok_iff {n : ℤ} : (∃ text, size n = .ok text) ↔ Sizable n := by
  unfold size Sizable
  split_ifs <;> cases trueDiv n _ <;> simp [pure, Except.pure, bind, Except.bind]

theorem checkMemory_fine {active : ℤ} (h : active ≤ limit) : checkMemory active limit = .ok none :=
  if_pos h

theorem checkMemory_bad {active : ℤ} (h : limit < active) :
    (Sizable active ∧ Sizable limit) ∧ (∃ reason, checkMemory active limit = .ok (some reason)) ∨
      ¬ (Sizable active ∧ Sizable limit) ∧ ∃ x, checkMemory active limit = .error x := by
  rw [← size_ok_iff, ← size_ok_iff]
  unfold checkMemory
  rw [if_neg (not_le.2 h)]
  cases size active <;> cases size limit <;> simp [pure, Except.pure, bind, Except.bind]

/-! ## What a round does -/

variable {lastSample : PyFloat}

/-- What stands between two readings. -/
def Quiet (limit : ℤ) (events : List WatchEvent) : Prop :=
  ∀ e ∈ events, e = .logged ∨ ∃ active ≤ limit, e = .sample active

theorem watchFrom_stopped (h : r.stopped = true) : watchFrom config lastSample (r :: rounds) = [] :=
  if_pos h

variable (lastSample rounds) in
theorem watchFrom_fine (hrunning : r.stopped = false) (hfine : ¬ Bad config.limit r) :
    ∃ extra lastSample', Quiet config.limit extra ∧
      watchFrom config lastSample (r :: rounds) =
        .read :: (extra ++ watchFrom config lastSample' rounds) := by
  rw [watchFrom, if_neg (by rw [hrunning]; exact Bool.false_ne_true)]
  cases hreading : r.reading with
  | error exc =>
    have hbad : Bad config.limit r := by rw [Bad, hreading]; trivial
    exact absurd hbad hfine
  | ok active =>
    rw [Bad, hreading] at hfine
    have hactive : active ≤ config.limit := not_lt.1 hfine
    simp only [checkMemory_fine hactive]
    split_ifs with hsample
    · refine ⟨sampleEvents active r.sampleFails, r.now, ?_, rfl⟩
      unfold Quiet sampleEvents
      rw [List.forall_mem_cons]
      refine ⟨.inr ⟨active, hactive, rfl⟩, ?_⟩
      split_ifs
      · exact List.forall_mem_singleton.2 (.inl rfl)
      · exact List.forall_mem_nil _
    · exact ⟨[], lastSample, List.forall_mem_nil _, rfl⟩

variable (lastSample rounds) in
theorem watchFrom_bad (hrunning : r.stopped = false) (hbad : Bad config.limit r) :
    Told config.limit r ∧
        (∃ reason, watchFrom config lastSample (r :: rounds) = [.read, .exceeded reason]) ∨
      ¬ Told config.limit r ∧
        ∃ x, watchFrom config lastSample (r :: rounds) = [.read, .raised x] := by
  unfold Bad at hbad
  unfold Told Round.Readable
  rw [watchFrom, if_neg (by rw [hrunning]; exact Bool.false_ne_true)]
  cases hreading : r.reading with
  | error failure =>
    cases failure with
    | exception text =>
      cases text with
      | ok text => exact .inl ⟨⟨⟨text, rfl⟩, nofun⟩, _, rfl⟩
      | error x => exact .inr ⟨fun ⟨⟨_, htext⟩, _⟩ => (nomatch htext), some x, rfl⟩
    | base => exact .inr ⟨fun ⟨⟨_, htext⟩, _⟩ => (nomatch htext), none, rfl⟩
  | ok active =>
    rw [hreading] at hbad
    obtain ⟨⟨hactive, hlimit⟩, reason, hreason⟩ | ⟨htold, x, hx⟩ := checkMemory_bad hbad
    · exact .inl ⟨⟨hactive, fun _ _ => hlimit⟩, reason, by simp only [hreason]⟩
    · refine .inr ⟨fun ⟨hactive, hlimit⟩ => htold ⟨hactive, hlimit active rfl⟩, some x, ?_⟩
      simp only [hx]

/-! ## Runs -/

variable {log extra : List WatchEvent}

theorem Quiet.isExceeded (h : Quiet limit extra) : ∀ e ∈ .read :: extra, e.isExceeded = false := by
  refine List.forall_mem_cons.2 ⟨rfl, fun e he => ?_⟩
  obtain rfl | ⟨active, -, rfl⟩ := h e he <;> rfl

theorem Quiet.count_read (h : Quiet limit extra) : extra.count .read = 0 := by
  refine List.count_eq_zero.2 fun hmem => ?_
  obtain heq | ⟨active, -, heq⟩ := h _ hmem <;> exact nomatch heq

theorem guards_nil (h : ∀ k r, ¬ FirstBad limit rounds k r) : Guards limit rounds [] where
  once := Nat.zero_le 1
  fires k r hfirst := absurd hfirst (h k r)
  only _ hmem := nomatch hmem
  last before _ after heq := by simp at heq
  samples _ hmem := nomatch hmem

theorem guards_bad (reason : String) (hrunning : r.stopped = false) (hbad : Bad limit r) :
    Guards limit (r :: rounds) [.read, .exceeded reason] where
  once := le_refl 1
  fires k r' hfirst := by
    obtain ⟨rfl, -⟩ := (firstBad_bad hrunning hbad).1 hfirst
    exact ⟨[], reason, rfl, rfl⟩
  only _ _ := ⟨0, r, (firstBad_bad hrunning hbad).2 ⟨rfl, rfl⟩⟩
  last before reason' after heq := by
    match before with
    | [] => exact nomatch heq
    | [_] => exact (List.cons.inj (List.cons.inj heq).2).2.symm
    | _ :: _ :: before => simp at heq
  samples _ hmem := by simp at hmem

theorem Guards.cons (h : Guards limit rounds log) (hrunning : r.stopped = false)
    (hfine : ¬ Bad limit r) (hextra : Quiet limit extra) :
    Guards limit (r :: rounds) (.read :: (extra ++ log)) := by
  have hquiet := hextra.isExceeded
  have hmem : ∀ reason, .exceeded reason ∈ .read :: (extra ++ log) → .exceeded reason ∈ log := by
    intro reason hmem
    rw [← List.cons_append, List.mem_append] at hmem
    exact hmem.resolve_left fun hmem => nomatch hquiet _ hmem
  constructor
  · have hcount : (WatchEvent.read :: extra).countP WatchEvent.isExceeded = 0 :=
      List.countP_eq_zero.2 fun e he => by rw [hquiet e he]; exact Bool.false_ne_true
    rw [← List.cons_append, List.countP_append, hcount, Nat.zero_add]
    exact h.once
  · intro k r' hfirst
    obtain ⟨j, rfl, hrest⟩ := (firstBad_fine hrunning hfine).1 hfirst
    obtain ⟨before, reason, rfl, hcount⟩ := h.fires j r' hrest
    refine ⟨.read :: (extra ++ before), reason, by simp, ?_⟩
    rw [List.count_cons_self, List.count_append, hextra.count_read, hcount, Nat.zero_add]
  · intro reason hexceeded
    obtain ⟨k, r', hfirst⟩ := h.only reason (hmem reason hexceeded)
    exact ⟨k + 1, r', (firstBad_fine hrunning hfine).2 ⟨k, rfl, hfirst⟩⟩
  · intro before reason after heq
    rw [← List.cons_append] at heq
    obtain ⟨before', -, heq⟩ | ⟨rest, hhead, heq⟩ := List.append_eq_append_iff.1 heq
    · exact h.last before' reason after heq
    · cases rest with
      | nil => exact h.last [] reason after heq.symm
      | cons e rest =>
        obtain ⟨rfl, -⟩ := List.cons.inj heq
        exact nomatch hquiet (.exceeded reason) (hhead ▸ by simp)
  · intro active hsample
    rw [List.mem_cons, List.mem_append] at hsample
    obtain heq | hsample | hsample := hsample
    · exact nomatch heq
    · obtain heq | ⟨active', hactive, heq⟩ := hextra _ hsample
      · exact nomatch heq
      · cases heq
        exact hactive
    · exact h.samples active hsample

theorem watchFrom_guards (htold : ∀ k r, FirstBad config.limit rounds k r → Told config.limit r) :
    Guards config.limit rounds (watchFrom config lastSample rounds) := by
  induction rounds generalizing lastSample with
  | nil => exact guards_nil fun k r hfirst => nomatch hfirst.at_k
  | cons r rounds ih =>
    cases hstopped : r.stopped with
    | true =>
      rw [watchFrom_stopped hstopped]
      exact guards_nil fun k r' => firstBad_stopped hstopped
    | false =>
      by_cases hbad : Bad config.limit r
      · have hfirst : FirstBad config.limit (r :: rounds) 0 r :=
          (firstBad_bad hstopped hbad).2 ⟨rfl, rfl⟩
        obtain ⟨-, reason, heq⟩ | ⟨hnot, -⟩ :=
          watchFrom_bad rounds lastSample hstopped hbad
        · rw [heq]
          exact guards_bad reason hstopped hbad
        · exact absurd (htold 0 r hfirst) hnot
      · obtain ⟨extra, lastSample', hextra, heq⟩ :=
          watchFrom_fine rounds lastSample hstopped hbad
        rw [heq]
        refine (ih fun k r' hfirst => ?_).cons hstopped hbad hextra
        exact htold (k + 1) r' ((firstBad_fine hstopped hbad).2 ⟨k, rfl, hfirst⟩)

/-- The text of the reason ends the thread, and the limit is not told of. -/
theorem watchFrom_silent (hfirst : FirstBad config.limit rounds k r)
    (hnot : ¬ Told config.limit r) :
    ∀ e ∈ watchFrom config lastSample rounds, e.isExceeded = false := by
  induction rounds generalizing lastSample k with
  | nil => cases hfirst.at_k
  | cons r' rounds ih =>
    cases hstopped : r'.stopped with
    | true => exact absurd hfirst (firstBad_stopped hstopped)
    | false =>
      by_cases hbad : Bad config.limit r'
      · obtain ⟨-, rfl⟩ := (firstBad_bad hstopped hbad).1 hfirst
        obtain ⟨htold, -⟩ | ⟨-, x, heq⟩ :=
          watchFrom_bad rounds lastSample hstopped hbad
        · exact absurd htold hnot
        · rw [heq]
          exact List.forall_mem_cons.2 ⟨rfl, List.forall_mem_singleton.2 rfl⟩
      · obtain ⟨j, rfl, hrest⟩ := (firstBad_fine hstopped hbad).1 hfirst
        obtain ⟨extra, lastSample', hextra, heq⟩ :=
          watchFrom_fine rounds lastSample hstopped hbad
        rw [heq, ← List.cons_append, List.forall_mem_append]
        exact ⟨hextra.isExceeded, ih hrest⟩

/-- Over any run, the watchdog fires once and in time, unless the first reading that it has to stop
at has no text. -/
theorem watchdog_guards_iff (config : WatchConfig) (rounds : List Round) :
    Guards config.limit rounds (watch config rounds) ↔
      ∀ k r, FirstBad config.limit rounds k r → Told config.limit r := by
  refine ⟨fun hguards k r hfirst => ?_, watchFrom_guards⟩
  by_contra hnot
  obtain ⟨before, reason, heq, -⟩ := hguards.fires k r hfirst
  have hsilent := watchFrom_silent hfirst hnot (.exceeded reason)
    (show _ ∈ watchFrom config (.finite 0) rounds by rw [← watch, heq]; simp)
  exact nomatch hsilent

/-- A number of bytes that MLX can report has a size. -/
theorem Sizable.of_lt {n : ℤ} (hpos : 0 ≤ n) (hlt : n < 2 ^ 1024) : Sizable n := by
  have hunit : (2 : ℚ) ^ 20 ≤ ((if GIB ≤ n then GIB else MIB : ℕ) : ℚ) := by
    split_ifs <;> norm_num [GIB, MIB]
  have hn : (0 : ℚ) ≤ n := Int.cast_nonneg hpos
  have hquotient : (n : ℚ) / ((if GIB ≤ n then GIB else MIB : ℕ) : ℚ) ≤ 2 ^ 1004 := by
    have hpow : (2 : ℚ) ^ 1024 = 2 ^ 1004 * 2 ^ 20 := by rw [← pow_add]
    rw [div_le_iff₀ (lt_of_lt_of_le (by positivity) hunit)]
    refine le_trans ?_ (mul_le_mul_of_nonneg_left hunit (by positivity))
    have hcast : (n : ℚ) ≤ ((2 ^ 1024 : ℤ) : ℚ) := Int.cast_le.2 hlt.le
    rwa [Int.cast_pow, Int.cast_ofNat, hpow] at hcast
  have hdyadic : IsDyadic (2 ^ 1004) := by
    refine ⟨1, 1004, by norm_num, by norm_num, ?_⟩
    rw [Nat.cast_one, one_mul]
    exact (zpow_natCast 2 1004).symm
  obtain ⟨q, hq, -⟩ := ofRat_le (div_nonneg hn (Nat.cast_nonneg _)) hquotient hdyadic
    (pow_lt_pow_right₀ one_lt_two (by norm_num))
  exact ⟨q, by unfold trueDiv; rw [hq]⟩

/-- And so has the limit that `launch.py` takes from an accepted profile. -/
theorem memoryLimit_sizable {py : Config.Texts} {name path : String}
    {data : List (String × Config.Toml)} {profile : Config.Profile}
    (h : Config.parseProfile py name path data = .ok profile) (modelDir : String → String)
    (dumps : Json → String) (repr : PyFloat → String) :
    Sizable (launchSettings modelDir dumps repr profile).memoryLimit := by
  obtain ⟨-, -, hdescribes⟩ := (Config.parseProfile_valid py name path data).2 profile h
  obtain ⟨_, -, hbackend⟩ := hdescribes.backend
  obtain ⟨_, -, hparse, hpos⟩ := hbackend.metalMemoryLimit
  exact .of_lt hpos.le (Config.parseSize_lt hparse)

/-- **The watchdog guards.** In every run in which the readings and the limit have sizes, and a
reading fails with an `Exception` that has a text only, `on_exceeded` is called once, in the first
round before the stop event was seen whose reading failed or exceeded the limit, and nothing comes
after it; no sample is above the limit. -/
theorem watchdog_guards (config : WatchConfig) (rounds : List Round) (hlimit : Sizable config.limit)
    (hreadings : ∀ r ∈ rounds, r.Readable) :
    Guards config.limit rounds (watch config rounds) := by
  refine (watchdog_guards_iff config rounds).2 fun k r hfirst => ?_
  exact ⟨hreadings r (List.mem_of_getElem? hfirst.at_k), fun _ _ => hlimit⟩

/-- A reading within the limit of `ci-tiny`, whose sample fails, and one above it. -/
def twoReadings : List Round :=
  [⟨false, .ok GIB, .finite 60, true⟩, ⟨false, .ok (2 * GIB), .finite 61, false⟩]

def ciTinyWatch : WatchConfig := ⟨1536 * MIB, true, .finite 30⟩

theorem watchdog_guards_two : watch ciTinyWatch twoReadings =
      [.read, .sample GIB, .logged, .read, .exceeded
        ("Metal memory limit exceeded: MLX is using 2.00 GB, the limit is 1.50 GB; " ++
          "stopping the backend to protect the system")] ∧
    Guards (1536 * MIB) twoReadings (watch ciTinyWatch twoReadings) := by
  have hlimit : Sizable (1536 * MIB) := memoryLimit_sizable Config.parseProfile_ciTiny
    (fun _ => "") (fun _ => "") fun _ => ""
  refine ⟨by decide +kernel, watchdog_guards ciTinyWatch twoReadings hlimit ?_⟩
  refine List.forall_mem_cons.2 ⟨?_, List.forall_mem_singleton.2 ?_⟩
  · exact Sizable.of_lt (n := GIB) (by decide) (by decide +kernel)
  · exact Sizable.of_lt (n := 2 * GIB) (by decide) (by decide +kernel)

end AgentLab.Backend
