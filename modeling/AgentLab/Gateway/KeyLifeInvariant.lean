import AgentLab.Gateway.KeyLife

/-!
# The life of an API key, over whole runs

`Inv` ties each phase of a call and of the check to the log and the file: the log is one that
`KeyLog` allows, the file is what the log says, a call that has loaded the file has its entries, and
the gateway has under the stamp of the file what is in the file. Each action keeps it: a call goes
on and writes what it did (`CallsOk.write`), and the file stays (`Inv.refuse`, `Inv.move`) or is
replaced (`Inv.save`).
-/

namespace AgentLab.Gateway

open Python Toml Runs KeyLog
open Log (At at_concat)

namespace KeyLife

variable {Stamp : Type} {tools : KeyTools}

/-! ## The invariant -/

/-- What the log says of a call in that phase. -/
def PhaseOk (log : List KeyEvent) (i : ℕ) : Phase → Prop
  | .starting | .locked => ∀ effect, .took i effect ∉ log
  | .loaded entries => (∀ effect, .took i effect ∉ log) ∧ entries = replay log
  | .finishing result | .returning result =>
    (∃ effect, .took i effect ∈ log ∧ result = effect.result) ∧ ∀ r, .ended i r ∉ log
  | .finished => True

/-- The calls, the lock and the log agree. -/
structure CallsOk (calls : List Call) (lock : Option ℕ) (log : List KeyEvent) : Prop where
  began : ∀ i op, .began i op ∈ log ↔ ∃ c, calls[i]? = some c ∧ c.op = op
  lock : ∀ i, lock = some i ↔ ∃ c, calls[i]? = some c ∧ c.phase.holds = true
  phase : ∀ i c, calls[i]? = some c → PhaseOk log i c.phase

/-- What the gateway has under the stamp of the file is what is in the file, and what it has now is
what was in the file since the check began. -/
structure CacheOk (store : KeyStore Stamp) (check : Check Stamp) (stamp : Option Stamp)
    (used : List Stamp) (log : List KeyEvent) : Prop where
  stored : ∀ st, store.stamp = some st → st ∈ used
  cached : store.stamp = stamp → stamp.isSome = true → store.hashes = hashesOf (replay log)
  statted : ∀ key st, check = .statted key st →
    (∃ a, LastAsked log a key) ∧ ∀ x, st = some x → x ∈ used
  refreshed : ∀ key, check = .refreshed key → ∃ a m, LastAsked log a key ∧ a < m ∧
    m ≤ log.length ∧ store.hashes = hashesOf (replay (log.take m))

variable (tools) in
structure Inv (s : State Stamp) : Prop where
  valid : Valid tools s.log
  file : loadKeys tools (.ok s.text) = .ok (replay s.log)
  used : ∀ stamp, s.stamp = some stamp → stamp ∈ s.used
  calls : CallsOk s.calls s.lock s.log
  cache : CacheOk s.store s.check s.stamp s.used s.log

/-- The call that an event is of. -/
def callOf : KeyEvent → Option ℕ
  | .began i _ | .took i _ | .ended i _ => some i
  | _ => none

section Frames

variable {log : List KeyEvent} {ev : KeyEvent} {calls : List Call} {lock : Option ℕ} {i : ℕ}
    {c : Call}

/-- A call outside the block, or any call when the file stays, does not see what others do. -/
theorem PhaseOk.concat {phase : Phase} (h : PhaseOk log i phase) (hev : callOf ev ≠ some i)
    (hfile : phase.holds = false ∨ after (replay log) ev = replay log) :
    PhaseOk (log ++ [ev]) i phase := by
  have htook : (∀ effect, .took i effect ∉ log) → ∀ effect, .took i effect ∉ log ++ [ev] := by
    intro h effect hmem
    rcases List.mem_append.1 hmem with hmem | hmem
    · exact h effect hmem
    · exact hev (by rw [← List.mem_singleton.1 hmem]; rfl)
  cases phase with
  | starting => exact htook h
  | locked => exact htook h
  | loaded entries =>
    refine ⟨htook h.1, ?_⟩
    rcases hfile with hfile | hfile
    · cases hfile
    · rw [replay_concat, hfile]
      exact h.2
  | finished => trivial
  | finishing result | returning result =>
    obtain ⟨⟨effect, heffect, hresult⟩, hended⟩ := h
    refine ⟨⟨effect, List.mem_append_left _ heffect, hresult⟩, fun r hmem => ?_⟩
    rcases List.mem_append.1 hmem with hmem | hmem
    · exact hended r hmem
    · exact hev (by rw [← List.mem_singleton.1 hmem]; rfl)

/-- Only one call is in the block. -/
theorem CallsOk.holder (h : CallsOk calls lock log) (hc : calls[i]? = some c)
    (hholds : c.phase.holds = true) {j : ℕ} {d : Call} (hd : calls[j]? = some d) (hij : j ≠ i) :
    d.phase.holds = false := by
  by_contra hnot
  have hi := (h.lock i).2 ⟨c, hc, hholds⟩
  have hj := (h.lock j).2 ⟨d, hd, by simpa using hnot⟩
  exact hij (Option.some.inj (hj.symm.trans hi))

/-- One call goes on. -/
theorem CallsOk.set (h : CallsOk calls lock log) (hc : calls[i]? = some c) {phase : Phase}
    {lock' : Option ℕ} {log' : List KeyEvent} (hphase : PhaseOk log' i phase)
    (hothers : ∀ j d, j ≠ i → calls[j]? = some d → PhaseOk log' j d.phase)
    (hbegan : ∀ j op, .began j op ∈ log' ↔ .began j op ∈ log)
    (hlock : if phase.holds then lock' = some i ∧ (lock = none ∨ c.phase.holds = true)
      else lock' = if c.phase.holds then none else lock) :
    CallsOk (calls.set i { c with phase := phase }) lock' log' := by
  have hlt := (List.getElem?_eq_some_iff.1 hc).1
  have hself : (calls.set i { c with phase := phase })[i]? = some { c with phase := phase } :=
    List.getElem?_set_self hlt
  have hother : ∀ j, j ≠ i → (calls.set i { c with phase := phase })[j]? = calls[j]? :=
    fun j hj => List.getElem?_set_ne (Ne.symm hj)
  refine ⟨fun j op => ?_, fun j => ?_, fun j d hd => ?_⟩
  · rw [hbegan, h.began]
    by_cases hj : j = i
    · subst hj
      rw [hself, hc]
      simp
    · rw [hother j hj]
  · by_cases hj : j = i
    · subst hj
      rw [hself]
      have hiff : (∃ d, some { c with phase := phase } = some d ∧ d.phase.holds = true) ↔
          phase.holds = true := by simp
      rw [hiff]
      split_ifs at hlock with hholds hheld
      · simp [hlock.1, hholds]
      · simp [hlock, hholds]
      · rw [hlock]
        refine ⟨fun hl => ?_, fun hp => absurd hp hholds⟩
        obtain ⟨d, hd, hdholds⟩ := (h.lock j).1 hl
        rw [hc] at hd
        cases hd
        exact absurd hdholds hheld
    · rw [hother j hj, ← h.lock j]
      split_ifs at hlock with hholds hheld
      · rw [hlock.1]
        rcases hlock.2 with hfree | hheld
        · simp [hfree, Ne.symm hj]
        · rw [(h.lock i).2 ⟨c, hc, hheld⟩]
      · rw [hlock, (h.lock i).2 ⟨c, hc, hheld⟩]
        simp [Ne.symm hj]
      · rw [hlock]
  · by_cases hj : j = i
    · subst hj
      rw [hself] at hd
      cases hd
      exact hphase
    · rw [hother j hj] at hd
      exact hothers j d hj hd

/-- One call goes on, and writes what it did. -/
theorem CallsOk.write (h : CallsOk calls lock log) (hc : calls[i]? = some c) {phase : Phase}
    {lock' : Option ℕ} (hphase : PhaseOk (log ++ [ev]) i phase) (hev : callOf ev = some i)
    (hbegan : ∀ op, ev ≠ .began i op)
    (hfile : c.phase.holds = true ∨ after (replay log) ev = replay log)
    (hlock : if phase.holds then lock' = some i ∧ (lock = none ∨ c.phase.holds = true)
      else lock' = if c.phase.holds then none else lock) :
    CallsOk (calls.set i { c with phase := phase }) lock' (log ++ [ev]) := by
  refine h.set hc hphase (fun j d hj hd => ?_) (fun j op => ?_) hlock
  · refine (h.phase j d hd).concat (fun hcall => hj ?_) ?_
    · rw [hev] at hcall
      exact (Option.some.inj hcall).symm
    · rcases hfile with hfile | hfile
      · exact .inl (h.holder hc hfile hd hj)
      · exact .inr hfile
  · rw [List.mem_append, List.mem_singleton]
    refine or_iff_left fun heq => ?_
    rw [← heq] at hev
    cases hev
    exact hbegan op heq.symm

/-- A call begins. -/
theorem CallsOk.call (h : CallsOk calls lock log) (op : Op)
    (hnone : ∀ effect, .took calls.length effect ∉ log) :
    CallsOk (calls ++ [⟨op, .starting⟩]) lock (log ++ [.began calls.length op]) := by
  refine ⟨fun i op' => ?_, fun i => ?_, fun i c hc => ?_⟩
  · rw [List.mem_append, List.mem_singleton, h.began, KeyEvent.began.injEq]
    constructor
    · rintro (⟨c, hc, hop⟩ | ⟨rfl, rfl⟩)
      · exact ⟨c, at_concat.2 (.inl hc), hop⟩
      · exact ⟨_, at_concat.2 (.inr ⟨rfl, rfl⟩), rfl⟩
    · rintro ⟨c, hc, hop⟩
      rcases at_concat.1 hc with hc | ⟨rfl, rfl⟩
      · exact .inl ⟨c, hc, hop⟩
      · exact .inr ⟨rfl, hop.symm⟩
  · rw [h.lock]
    constructor
    · rintro ⟨c, hc, hholds⟩
      exact ⟨c, at_concat.2 (.inl hc), hholds⟩
    · rintro ⟨c, hc, hholds⟩
      rcases at_concat.1 hc with hc | ⟨-, rfl⟩
      · exact ⟨c, hc, hholds⟩
      · cases hholds
  · rcases at_concat.1 hc with hc | ⟨rfl, rfl⟩
    · refine (h.phase i c hc).concat (fun heq => ?_) (.inr rfl)
      have hlt := (List.getElem?_eq_some_iff.1 hc).1
      rw [← Option.some.inj heq] at hlt
      exact lt_irrefl _ hlt
    · intro effect hmem
      rcases List.mem_append.1 hmem with hmem | hmem
      · exact hnone effect hmem
      · cases List.mem_singleton.1 hmem

/-- What is not done by a call. -/
theorem CallsOk.other (h : CallsOk calls lock log) (hev : callOf ev = none)
    (hfile : after (replay log) ev = replay log) : CallsOk calls lock (log ++ [ev]) := by
  refine ⟨fun i op => ?_, h.lock, fun i c hc => ?_⟩
  · rw [List.mem_append, List.mem_singleton, ← h.began i op]
    refine or_iff_left fun heq => ?_
    rw [← heq] at hev
    cases hev
  · exact (h.phase i c hc).concat (by rw [hev]; nofun) (.inr hfile)

variable {store : KeyStore Stamp} {check : Check Stamp} {stamp : Option Stamp} {used : List Stamp}

theorem refreshed_concat {key : Str} (hev : ∀ k, ev ≠ .asked k)
    (h : ∃ a m, LastAsked log a key ∧ a < m ∧ m ≤ log.length ∧
      store.hashes = hashesOf (replay (log.take m))) :
    ∃ a m, LastAsked (log ++ [ev]) a key ∧ a < m ∧ m ≤ (log ++ [ev]).length ∧
      store.hashes = hashesOf (replay ((log ++ [ev]).take m)) := by
  obtain ⟨a, m, hasked, ham, hm, hhashes⟩ := h
  refine ⟨a, m, hasked.concat hev, ham, ?_, ?_⟩
  · rw [List.length_append]
    omega
  · rw [List.take_append_of_le_length hm]
    exact hhashes

/-- The file stays as it is. -/
theorem CacheOk.concat (h : CacheOk store check stamp used log) (hev : ∀ k, ev ≠ .asked k)
    (hfile : after (replay log) ev = replay log) :
    CacheOk store check stamp used (log ++ [ev]) where
  stored := h.stored
  cached heq hsome := by
    rw [replay_concat, hfile]
    exact h.cached heq hsome
  statted key st hcheck :=
    let ⟨⟨a, ha⟩, hst⟩ := h.statted key st hcheck
    ⟨⟨a, ha.concat hev⟩, hst⟩
  refreshed key hcheck := refreshed_concat hev (h.refreshed key hcheck)

/-- The file is replaced, under a stamp that it never had. -/
theorem CacheOk.replace (h : CacheOk store check stamp used log) (hev : ∀ k, ev ≠ .asked k)
    {st : Stamp} (hst : st ∉ used) :
    CacheOk store check (some st) (st :: used) (log ++ [ev]) where
  stored x hx := List.mem_cons_of_mem _ (h.stored x hx)
  cached heq _ := absurd (h.stored st heq) hst
  statted key st' hcheck :=
    let ⟨⟨a, ha⟩, hused⟩ := h.statted key st' hcheck
    ⟨⟨a, ha.concat hev⟩, fun x hx => List.mem_cons_of_mem _ (hused x hx)⟩
  refreshed key hcheck := refreshed_concat hev (h.refreshed key hcheck)

end Frames

/-! ## The steps -/

variable {s s' : State Stamp} {i : ℕ} {c : Call}

theorem plain_replay {log : List KeyEvent} (h : Valid tools log) :
    ∀ e ∈ replay log, Plain e.created := by
  intro e he
  obtain ⟨n, i, key, hn, -⟩ := mem_replay.1 he
  obtain ⟨-, op, -, -, -, -, -, now, hname, heq⟩ := took_does h hn
  rw [heq]
  exact plain_isoformat now

theorem Inv.init : Inv tools (init : State Stamp) where
  valid := .nil
  file := rfl
  used := nofun
  calls := ⟨fun _ _ => ⟨nofun, fun ⟨_, hc, _⟩ => nomatch hc⟩,
    fun _ => ⟨nofun, fun ⟨_, hc, _⟩ => nomatch hc⟩, nofun⟩
  cache := ⟨nofun, nofun, nofun, nofun⟩

/-- A call that did nothing yet may do what its command does. -/
theorem Inv.allowed (hI : Inv tools s) (hc : s.calls[i]? = some c)
    (hnone : ∀ effect, .took i effect ∉ s.log) {effect : Effect}
    (hdoes : Does tools (replay s.log) c.op effect)
    (hfresh : ∀ e key, effect = .created e key → key ∉ createdKeys s.log) :
    Valid tools (s.log ++ [.took i effect]) := by
  refine hI.valid.concat ⟨⟨c.op, (hI.calls.began i c.op).2 ⟨c, hc, rfl⟩, hdoes⟩, hnone, ?_⟩
  intro e key heffect j e' hmem
  exact hfresh e key heffect (mem_createdKeys.2 ⟨j, e', hmem⟩)

/-- What is known of a call that took effect just now. -/
theorem Inv.result_ok (hI : Inv tools s) (hnone : ∀ effect, .took i effect ∉ s.log)
    (effect : Effect) : (∃ effect', .took i effect' ∈ s.log ++ [.took i effect] ∧
      effect.result = effect'.result) ∧ ∀ r, .ended i r ∉ s.log ++ [.took i effect] := by
  refine ⟨⟨effect, List.mem_append_right _ (List.mem_singleton.2 rfl), rfl⟩, fun r hmem => ?_⟩
  rcases List.mem_append.1 hmem with hmem | hmem
  · obtain ⟨n, hn⟩ := List.mem_iff_getElem?.1 hmem
    obtain ⟨_, m, _, effect', -, -, -, htook, -⟩ := ended_took hI.valid hn
    exact hnone effect' (List.mem_of_getElem? htook)
  · cases List.mem_singleton.1 hmem

/-- A call that leaves the file as it is takes effect. -/
theorem Inv.refuse (hI : Inv tools s) (hc : s.calls[i]? = some c)
    (hnone : ∀ effect, .took i effect ∉ s.log) {effect : Effect}
    (hdoes : Does tools (replay s.log) c.op effect)
    (hfresh : ∀ e key, effect = .created e key → key ∉ createdKeys s.log)
    (hfile : after (replay s.log) (.took i effect) = replay s.log)
    {phase : Except (Raised KeysError) (Option Str) → Phase}
    (hphase : PhaseOk (s.log ++ [.took i effect]) i (phase effect.result))
    (hholds : (phase effect.result).holds = c.phase.holds) :
    Inv tools (s.take i c effect phase) where
  valid := hI.allowed hc hnone hdoes hfresh
  file := by
    show loadKeys tools (.ok s.text) = .ok (replay (s.log ++ [.took i effect]))
    rw [replay_concat, hfile]
    exact hI.file
  used := hI.used
  calls := by
    refine hI.calls.write hc hphase rfl (fun _ => nofun) (.inr hfile) ?_
    show if (phase effect.result).holds then s.lock = some i ∧ _ else s.lock = _
    rw [hholds]
    split_ifs with hheld
    · exact ⟨(hI.calls.lock i).2 ⟨c, hc, hheld⟩, .inr hheld⟩
    · rfl
  cache := hI.cache.concat (fun _ => nofun) hfile

/-- A step of a call that writes nothing. -/
theorem Inv.move (hI : Inv tools s) (hc : s.calls[i]? = some c) {phase : Phase}
    {lock : Option ℕ} (hphase : PhaseOk s.log i phase)
    (hlock : if phase.holds then lock = some i ∧ (s.lock = none ∨ c.phase.holds = true)
      else lock = if c.phase.holds then none else s.lock) :
    Inv tools { s.setPhase i c phase with lock := lock } where
  valid := hI.valid
  file := hI.file
  used := hI.used
  calls := hI.calls.set hc hphase (fun j d _ hd => hI.calls.phase j d hd) (fun _ _ => .rfl) hlock
  cache := hI.cache

/-- `check_name` finds what `create` refuses. -/
theorem checkName_does {op : Op} {exc : KeysError} (entries : List KeyEntry)
    (h : checkName op = some exc) : Does tools entries op (.refused (.own exc)) := by
  unfold checkName at h
  split at h
  · split_ifs at h with hname
    cases h
    exact .inl ⟨by simpa using hname, rfl⟩
  · cases h

/-- The file is replaced. -/
theorem Inv.save (hI : Inv tools s) (htoml : Toml10 tools.loads) (hc : s.calls[i]? = some c)
    (hphase : c.phase = .loaded (replay s.log)) (hnone : ∀ effect, .took i effect ∉ s.log)
    {effect : Effect} (hdoes : Does tools (replay s.log) c.op effect)
    (hfresh : ∀ e key, effect = .created e key → key ∉ createdKeys s.log) {stamp : Stamp}
    (hstamp : stamp ∉ s.used) :
    Inv tools { s.take i c effect .finishing with
      file := some ⟨stamp, renderKeys (after (replay s.log) (.took i effect))⟩,
      used := stamp :: s.used } := by
  have hvalid := hI.allowed hc hnone hdoes hfresh
  have hholds : c.phase.holds = true := by
    rw [hphase]
    rfl
  refine ⟨hvalid, ?_, ?_, ?_, hI.cache.replace (fun _ => by simp) hstamp⟩
  · show loadKeys tools (.ok (some (renderKeys _))) = .ok (replay (s.log ++ [.took i effect]))
    rw [← replay_concat]
    exact load_render htoml (nodup_replay hvalid) (plain_replay hvalid)
  · rintro st ⟨⟩
    exact List.mem_cons_self
  · exact hI.calls.write hc (hI.result_ok hnone effect) rfl (fun _ => nofun) (.inl hholds)
      ⟨(hI.calls.lock i).2 ⟨c, hc, hholds⟩, .inr hholds⟩

variable [DecidableEq Stamp]

/-- `create` and `revoke` from the loaded entries on. -/
theorem Inv.saveStep (hI : Inv tools s) (htoml : Toml10 tools.loads) (hc : s.calls[i]? = some c)
    {j : ℕ} {token : Str} {now : UtcTime} {stamp : Stamp}
    (h : callStep tools s i c (.save j token now stamp) = some s') : Inv tools s' := by
  have hphase := hI.calls.phase i c hc
  simp only [KeyLife.callStep] at h
  split at h
  · next entries hloaded =>
    rw [hloaded] at hphase
    obtain ⟨hnone, rfl⟩ := hphase
    split_ifs at h with hguard
    obtain ⟨⟨htoken, hnew⟩, hstamp⟩ := hguard
    split at h
    · next effect text hcommit =>
      cases h
      obtain ⟨hdoes, hkey, htext, -⟩ := commit_does i (plain_replay hI.valid) htoken hcommit
      rw [htext text rfl]
      refine hI.save htoml hc hloaded hnone hdoes (fun e key heffect => ?_) hstamp
      rw [hkey e key heffect]
      exact hnew
    · next effect hcommit =>
      cases h
      obtain ⟨hdoes, hkey, -, hfile⟩ := commit_does i (plain_replay hI.valid) htoken hcommit
      refine hI.refuse hc hnone hdoes (fun e key heffect => ?_) (hfile rfl)
        (hI.result_ok hnone _) (by rw [hloaded]; rfl)
      rw [hkey e key heffect]
      exact hnew
    · cases h
  · cases h

/-- A call returns. -/
theorem Inv.leave (hI : Inv tools s) (hc : s.calls[i]? = some c) {j : ℕ}
    (h : callStep tools s i c (.leave j) = some s') : Inv tools s' := by
  have hphase := hI.calls.phase i c hc
  simp only [KeyLife.callStep] at h
  split at h
  · next result hreturning =>
    cases h
    rw [hreturning] at hphase
    refine ⟨hI.valid.concat hphase, ?_, hI.used, ?_, hI.cache.concat (fun _ => nofun) rfl⟩
    · show loadKeys tools (.ok s.text) = .ok (replay (s.log ++ [_]))
      rw [replay_concat]
      exact hI.file
    · exact hI.calls.write hc trivial rfl (fun _ => nofun) (.inr rfl) (by rw [hreturning]; rfl)
  · cases h

theorem Inv.callStep (hI : Inv tools s) (htoml : Toml10 tools.loads)
    (hc : s.calls[i]? = some c) {a : Action Stamp}
    (h : callStep tools s i c a = some s') : Inv tools s' := by
  have hphase := hI.calls.phase i c hc
  cases a with
  | enter _ =>
    simp only [KeyLife.callStep] at h
    split at h
    · next exc hstart hname =>
      cases h
      rw [hstart] at hphase
      exact hI.refuse hc hphase (checkName_does _ hname) nofun rfl
        (hI.result_ok hphase _) (by rw [hstart]; rfl)
    · next hstart hname =>
      split_ifs at h with hlock
      cases h
      rw [hstart] at hphase
      exact hI.move hc hphase ⟨rfl, .inl hlock⟩
    · cases h
  | load _ =>
    simp only [KeyLife.callStep] at h
    split at h
    · next hlocked =>
      rw [hlocked] at hphase
      rw [hI.file] at h
      cases h
      have hheld : c.phase.holds = true := by rw [hlocked]; rfl
      exact hI.move hc ⟨hphase, rfl⟩ ⟨(hI.calls.lock i).2 ⟨c, hc, hheld⟩, .inr hheld⟩
    · cases h
  | save j token now stamp => exact hI.saveStep htoml hc h
  | unlock _ =>
    simp only [KeyLife.callStep] at h
    split at h
    · next result hfinishing =>
      cases h
      rw [hfinishing] at hphase
      exact hI.move hc hphase (by rw [hfinishing]; rfl)
    · cases h
  | leave j => exact hI.leave hc h
  | die _ =>
    cases h
    exact hI.move hc trivial rfl
  | _ => cases h

theorem Inv.checkStep (hI : Inv tools s) {a : Action Stamp}
    (h : checkStep tools s a = some s') : Inv tools s' := by
  have hfile : ∀ ev, after (replay s.log) ev = replay s.log →
      loadKeys tools (.ok s.text) = .ok (replay (s.log ++ [ev])) := by
    intro ev hev
    rw [replay_concat, hev]
    exact hI.file
  cases a with
  | stat key =>
    simp only [KeyLife.checkStep] at h
    split at h
    · cases h
      have hasked : LastAsked (s.log ++ [KeyEvent.asked key]) s.log.length key := by
        refine ⟨at_concat.2 (.inr ⟨rfl, rfl⟩), fun n k hn => ?_⟩
        have hlt := hn.lt
        rw [List.length_append, List.length_singleton] at hlt
        omega
      refine ⟨hI.valid.concat trivial, hfile _ rfl, hI.used, hI.calls.other rfl rfl, ?_⟩
      refine ⟨hI.cache.stored, fun heq hsome => ?_, fun k st hcheck => ?_, fun k hcheck => ?_⟩
      · rw [replay_concat]
        exact hI.cache.cached heq hsome
      · dsimp only at hcheck
        split_ifs at hcheck
        cases hcheck
        exact ⟨⟨_, hasked⟩, hI.used⟩
      · dsimp only at hcheck
        split_ifs at hcheck with hcurrent
        cases hcheck
        simp only [KeyStore.isCurrent, Bool.and_eq_true, decide_eq_true_eq] at hcurrent
        refine ⟨_, (s.log ++ [KeyEvent.asked key]).length, hasked, ?_, le_refl _, ?_⟩
        · rw [List.length_append]
          exact Nat.lt_succ_self _
        · rw [List.take_length, replay_concat]
          exact hI.cache.cached hcurrent.1.symm hcurrent.2
    · cases h
  | read =>
    simp only [KeyLife.checkStep] at h
    split at h
    · next key stamp hcheck =>
      rw [hI.file] at h
      cases h
      obtain ⟨⟨a, hasked⟩, hstamp⟩ := hI.cache.statted key stamp hcheck
      refine ⟨hI.valid, hI.file, hI.used, hI.calls, hstamp, fun _ _ => rfl, by rintro k st ⟨⟩, ?_⟩
      rintro k ⟨⟩
      refine ⟨a, s.log.length, hasked, hasked.1.lt, le_refl _, ?_⟩
      rw [List.take_length]
    · cases h
  | answer =>
    simp only [KeyLife.checkStep] at h
    split at h
    · next key hcheck =>
      cases h
      obtain ⟨a, m, hasked, ham, hm, hhashes⟩ := hI.cache.refreshed key hcheck
      refine ⟨hI.valid.concat ⟨a, m, hasked, ham, hm, ?_⟩, hfile _ rfl, hI.used,
        hI.calls.other rfl rfl, ?_⟩
      · unfold lookup KeyStore.answer
        rw [hhashes]
      · have hcache : CacheOk s.store s.check s.stamp s.used
            (s.log ++ [.answered key (s.store.answer tools key)]) :=
          hI.cache.concat (by rintro k ⟨⟩) rfl
        exact ⟨hcache.stored, hcache.cached, by rintro k st ⟨⟩, by rintro k ⟨⟩⟩
    · cases h
  | _ => cases h

theorem Inv.step (hI : Inv tools s) (htoml : Toml10 tools.loads) {a : Action Stamp}
    (h : step tools s a = some s') : Inv tools s' := by
  unfold KeyLife.step at h
  split at h
  · next op =>
    cases h
    have hnew : ∀ op', .began s.calls.length op' ∉ s.log := by
      intro op' hmem
      obtain ⟨c, hc, -⟩ := (hI.calls.began _ _).1 hmem
      exact absurd (List.getElem?_eq_some_iff.1 hc).1 (lt_irrefl _)
    refine ⟨hI.valid.concat hnew, ?_, hI.used, ?_, hI.cache.concat (fun _ => nofun) rfl⟩
    · show loadKeys tools (.ok s.text) = .ok (replay (s.log ++ [_]))
      rw [replay_concat]
      exact hI.file
    · refine hI.calls.call op fun effect hmem => ?_
      obtain ⟨n, hn⟩ := List.mem_iff_getElem?.1 hmem
      obtain ⟨t, op', -, hbegan, -⟩ := took_does hI.valid hn
      exact hnew op' (List.mem_of_getElem? hbegan)
  · split at h
    · obtain ⟨c, hc, h⟩ := Option.bind_eq_some_iff.1 h
      exact hI.callStep htoml hc h
    · exact hI.checkStep h

/-! ## The life of a key -/

variable (tools) in
/-- What those who use the keys rely on, for the text of the file and the log. -/
structure Kept (text : Option Str) (log : List KeyEvent) : Prop where
  /-- The file holds what `create` added and no later `revoke` of the name dropped. -/
  file : loadKeys tools (.ok text) = .ok (replay log)
  content : ∀ e, e ∈ replay log ↔ ∃ n i key, At log n (.took i (.created e key)) ∧
    ∀ m j, n < m → ¬ At log m (.took j (.revoked e.name))
  unique : ((replay log).map KeyEntry.name).Nodup
  /-- A call that returned did what it says, once, between its beginning and its end. -/
  ended : ∀ i t result, At log t (.ended i result) → ∃ t₀ n op effect, t₀ < n ∧ n < t ∧
    At log t₀ (.began i op) ∧ At log n (.took i effect) ∧
    Does tools (replay (log.take n)) op effect ∧ result = effect.result ∧
    ∀ m effect', At log m (.took i effect') → m = n
  /-- A check that starts after `create` returned and ends before a `revoke` begins. -/
  accepted : ∀ i t₀ t a b name key result, At log t₀ (.began i (.create name)) →
    At log t (.ended i (.ok (some key))) → t < a → LastAsked (log.take b) a key →
    At log b (.answered key result) →
    (∀ n j, n < b → At log n (.began j (.revoke name)) →
      ∃ m r, m < t₀ ∧ At log m (.ended j r)) → result = .ok (some name)
  /-- A check that starts after `revoke` returned. -/
  rejected : ∀ i j n m t a b e key result, At log n (.took i (.created e key)) → n < m →
    At log m (.took j (.revoked e.name)) → At log t (.ended j (.ok none)) → t < a →
    LastAsked (log.take b) a key → At log b (.answered key result) → result = .ok none

/-- **The life of an API key.** In every run, no `create` or `revoke` is lost or undone by another,
names are unique, a key is accepted from when `create` returned it, and is not from when `revoke`
returned. -/
theorem key_life (htoml : Toml10 tools.loads) (h : Reachable (step tools) init s)
    (hsha : NoCollision tools s.log) : Kept tools s.text s.log := by
  have hI := h.invariant Inv.init fun _ _ _ hI _ hs => hI.step htoml hs
  exact ⟨hI.file, fun _ => mem_replay, nodup_replay hI.valid, fun _ _ _ => ended_took hI.valid,
    fun _ _ _ _ _ _ _ _ => KeyLog.accepted hI.valid hsha,
    fun _ _ _ _ _ _ _ _ _ _ => KeyLog.rejected hI.valid hsha⟩

/-- A key that is created, checked, revoked and checked again, with the stat of the second check
before the file is replaced. -/
def springLife : List (Action ℕ) :=
  [.call (.create (str "opencode")), .enter 0, .load 0, .save 0 (str "2f") springTime 1, .unlock 0,
    .leave 0, .stat (str "sk-alab-2f"), .call (.revoke (str "opencode")), .enter 1, .read, .load 1,
    .answer, .stat (str "sk-alab-2f"), .save 1 (str "") springTime 2, .answer, .unlock 1, .leave 1,
    .stat (str "sk-alab-2f"), .read, .answer]

def springLog : List KeyEvent :=
  [.began 0 (.create (str "opencode")), .took 0 (.created springEntry (str "sk-alab-2f")),
    .ended 0 (.ok (some (str "sk-alab-2f"))), .asked (str "sk-alab-2f"),
    .began 1 (.revoke (str "opencode")), .answered (str "sk-alab-2f") (.ok (some (str "opencode"))),
    .asked (str "sk-alab-2f"), .took 1 (.revoked (str "opencode")),
    .answered (str "sk-alab-2f") (.ok (some (str "opencode"))), .ended 1 (.ok none),
    .asked (str "sk-alab-2f"), .answered (str "sk-alab-2f") (.ok none)]

theorem used_springLog {key : Str} (h : Used springLog key) : key = str "sk-alab-2f" := by
  unfold Used springLog at h
  simpa using h

theorem key_life_spring : ∃ s : State ℕ,
    run (step .reader) init springLife = some s ∧ s.log = springLog ∧
      Kept .reader s.text springLog := by
  have hlog : (run (step .reader) init springLife).map State.log = some springLog := by
    decide +kernel
  obtain ⟨s, hrun, hs⟩ := Option.map_eq_some_iff.1 hlog
  refine ⟨s, hrun, hs, ?_⟩
  have hsha : NoCollision .reader s.log := by
    intro k k' hk hk' _
    rw [hs] at hk hk'
    rw [used_springLog hk, used_springLog hk']
  rw [← hs]
  exact key_life reader_toml10 (.of_run hrun) hsha

end KeyLife

end AgentLab.Gateway
