import AgentLab.Gateway.KeyCache
import AgentLab.Gateway.KeyLog

/-!
# Key commands and checks at work

Any number of `create` and `revoke` calls, in any processes, beside the checks of the gateway. A
call takes the lock of the keys file, loads it, replaces it, unlocks and returns, and can die
anywhere; a check is a `stat`, a `load` unless the stamp is the cached one, and an answer. Each of
these steps is an action, and the actions come in any order. The state keeps a log of what a user
sees and of when a call took effect.

`commit_does` says what a call does to the keys; `KeyLifeInvariant` follows whole runs.
-/

namespace AgentLab.Gateway

open Python Toml Runs KeyLog
open Log (At at_concat)

namespace KeyLife

variable {Stamp : Type}

/-- Where a call is. -/
inductive Phase
  | starting
  | locked
  | loaded (entries : List KeyEntry)
  | finishing (result : Except (Raised KeysError) (Option Str))
  | returning (result : Except (Raised KeysError) (Option Str))
  | finished

/-- Whether the call is in the `with _locked()` block. -/
def Phase.holds : Phase → Bool
  | .locked | .loaded _ | .finishing _ => true
  | _ => false

structure Call where
  op : Op
  phase : Phase

/-- Where the gateway is. -/
inductive Check (Stamp : Type)
  | idle
  | statted (key : Str) (stamp : Option Stamp)
  | refreshed (key : Str)

structure State (Stamp : Type) where
  file : Option (KeyCache.File Stamp)
  used : List Stamp
  lock : Option ℕ
  calls : List Call
  store : KeyStore Stamp
  check : Check Stamp
  log : List KeyEvent

inductive Action (Stamp : Type)
  /-- A call begins. -/
  | call (op : Op)
  /-- `check_name`, and waiting for the lock, which is free. -/
  | enter (i : ℕ)
  | load (i : ℕ)
  /-- The rest of the block: `create` gets this text of random bytes and this time, and the new file
  this stamp. -/
  | save (i : ℕ) (token : Str) (now : UtcTime) (stamp : Stamp)
  | unlock (i : ℕ)
  /-- The call returns, or raises. -/
  | leave (i : ℕ)
  /-- The process of the call is killed. -/
  | die (i : ℕ)
  /-- A check of the key begins. -/
  | stat (key : Str)
  /-- `load` in `_refresh`. -/
  | read
  | answer

def init : State Stamp := ⟨none, [], none, [], .new, .idle, []⟩

/-- The text of the file. -/
def State.text (s : State Stamp) : Option Str := s.file.map KeyCache.File.text

/-- The stamp of the file. -/
def State.stamp (s : State Stamp) : Option Stamp := s.file.map KeyCache.File.stamp

/-- The call is now in that phase. -/
def State.setPhase (s : State Stamp) (i : ℕ) (c : Call) (phase : Phase) : State Stamp :=
  { s with calls := s.calls.set i { c with phase := phase } }

/-- The call took effect, and goes on to return it. -/
def State.take (s : State Stamp) (i : ℕ) (c : Call) (effect : Effect)
    (phase : Except (Raised KeysError) (Option Str) → Phase) : State Stamp :=
  { s.setPhase i c (phase effect.result) with log := s.log ++ [.took i effect] }

def isTokenChar (c : CodePoint) : Bool :=
  (0x41 ≤ c.val && c.val ≤ 0x5A) || (0x61 ≤ c.val && c.val ≤ 0x7A) ||
    (0x30 ≤ c.val && c.val ≤ 0x39) || c = 0x2D || c = 0x5F

/-- The keys that were made. -/
def createdKeys (log : List KeyEvent) : List Str :=
  log.filterMap fun
    | .took _ (.created _ key) => some key
    | _ => none

/-- A text that `secrets.token_urlsafe` may give: no key was made of it before. -/
def State.IsNewToken (s : State Stamp) (token : Str) : Prop :=
  token.all isTokenChar = true ∧ KEY_PREFIX ++ token ∉ createdKeys s.log

instance (s : State Stamp) (token : Str) : Decidable (s.IsNewToken token) :=
  inferInstanceAs (Decidable (_ ∧ _))

/-- `check_name`. -/
def checkName : Op → Option KeysError
  | .create name => if isKeyName name = true then none else some (.invalidName name)
  | .revoke _ => none

variable (tools : KeyTools)

/-- What a call in the block does with the entries that it loaded: its effect, and the text of the
new file if it replaces the file. -/
def commit (op : Op) (token : Str) (now : UtcTime) (entries : List KeyEntry) :
    Option (Effect × Option Str) :=
  match op with
  | .create name =>
    if h : isKeyName name = true then
      match addKey tools name h token now entries with
      | .ok (key, text) => some (.created (.of tools name h key now) key, some text)
      | .error exc => some (.refused exc, none)
    else none
  | .revoke name =>
    match dropKey name entries with
    | .ok text => some (.revoked name, some text)
    | .error exc => some (.refused exc, none)

section Steps

variable [DecidableEq Stamp]

/-- The step of a call. -/
def callStep (s : State Stamp) (i : ℕ) (c : Call) : Action Stamp → Option (State Stamp)
  | .enter _ =>
    match c.phase, checkName c.op with
    | .starting, some exc => some (s.take i c (.refused (.own exc)) .returning)
    | .starting, none =>
      if s.lock = none then some { s.setPhase i c .locked with lock := some i } else none
    | _, _ => none
  | .load _ =>
    match c.phase with
    | .locked =>
      match loadKeys tools (.ok s.text) with
      | .ok entries => some (s.setPhase i c (.loaded entries))
      | .error exc => some (s.take i c (.refused exc) .finishing)
    | _ => none
  | .save _ token now stamp =>
    match c.phase with
    | .loaded entries =>
      if s.IsNewToken token ∧ stamp ∉ s.used then
        match commit tools c.op token now entries with
        | some (effect, some text) => some { s.take i c effect .finishing with
            file := some ⟨stamp, text⟩, used := stamp :: s.used }
        | some (effect, none) => some (s.take i c effect .finishing)
        | none => none
      else none
    | _ => none
  | .unlock _ =>
    match c.phase with
    | .finishing result => some { s.setPhase i c (.returning result) with lock := none }
    | _ => none
  | .leave _ =>
    match c.phase with
    | .returning result => some { s.setPhase i c .finished with log := s.log ++ [.ended i result] }
    | _ => none
  | .die _ =>
    some { s.setPhase i c .finished with lock := if c.phase.holds then none else s.lock }
  | _ => none

/-- The step of the gateway. -/
def checkStep (s : State Stamp) : Action Stamp → Option (State Stamp)
  | .stat key =>
    match s.check with
    | .idle => some { s with
        check := if s.store.isCurrent s.stamp then .refreshed key else .statted key s.stamp
        log := s.log ++ [.asked key] }
    | _ => none
  | .read =>
    match s.check with
    | .statted key stamp =>
      match KeyStore.reload stamp (loadKeys tools (.ok s.text)) with
      | .ok store => some { s with store := store, check := .refreshed key }
      | .error x => some { s with check := .idle, log := s.log ++ [.answered key (.error x)] }
    | _ => none
  | .answer =>
    match s.check with
    | .refreshed key => some { s with
        check := .idle, log := s.log ++ [.answered key (s.store.answer tools key)] }
    | _ => none
  | _ => none

/-- The call that an action is of. -/
def Action.call? : Action Stamp → Option ℕ
  | .enter i | .load i | .save i _ _ _ | .unlock i | .leave i | .die i => some i
  | _ => none

def step (s : State Stamp) (a : Action Stamp) : Option (State Stamp) :=
  match a with
  | .call op => some { s with
      calls := s.calls ++ [⟨op, .starting⟩], log := s.log ++ [.began s.calls.length op] }
  | a =>
    match a.call? with
    | some i => s.calls[i]?.bind fun c => callStep tools s i c a
    | none => checkStep tools s a

end Steps

/-! ## What a call does -/

variable {tools}

theorem mem_createdKeys {log : List KeyEvent} {key : Str} :
    key ∈ createdKeys log ↔ ∃ i e, .took i (.created e key) ∈ log := by
  unfold createdKeys
  rw [List.mem_filterMap]
  constructor
  · rintro ⟨ev, hev, h⟩
    split at h
    · cases h
      exact ⟨_, _, hev⟩
    · cases h
  · rintro ⟨i, e, hev⟩
    exact ⟨_, hev, rfl⟩

theorem encodable_token {token : Str} (h : token.all isTokenChar = true) :
    encodable (KEY_PREFIX ++ token) = true := by
  refine encodable_append.2 ⟨encodable_str _, ?_⟩
  unfold encodable
  rw [List.all_eq_true] at h ⊢
  intro c hc
  have hlt : c.val < 0x80 := by
    have htoken := h c hc
    simp only [isTokenChar, Bool.or_eq_true, Bool.and_eq_true, decide_eq_true_eq] at htoken
    rcases htoken with (((h | h) | h) | rfl) | rfl <;> omega
  simp only [isSurrogate, Bool.not_eq_true', Bool.and_eq_false_iff, decide_eq_false_iff_not]
  omega

/-- What `create` says when it adds no key. -/
theorem addKey_error {entries : List KeyEntry} {name token : Str} {hname : isKeyName name = true}
    {now : UtcTime} {exc : Raised KeysError} (hplain : ∀ e ∈ entries, Plain e.created)
    (h : addKey tools name hname token now entries = .error exc) :
    name ∈ entries.map KeyEntry.name ∧ exc = .own (.taken name) := by
  unfold addKey at h
  split_ifs at h with hany
  · obtain ⟨e, he, hen⟩ := List.any_eq_true.1 hany
    exact ⟨List.mem_map.2 ⟨e, he, by simpa using hen⟩, (Except.error.inj h).symm⟩
  · dsimp only at h
    rw [saveKeys_plain] at h
    · cases h
    · rw [List.forall_mem_append]
      exact ⟨hplain, List.forall_mem_singleton.2 (plain_isoformat now)⟩

/-- What `revoke` says when it drops no key. -/
theorem dropKey_error {entries : List KeyEntry} {name : Str} {exc : Raised KeysError}
    (hplain : ∀ e ∈ entries, Plain e.created) (h : dropKey name entries = .error exc) :
    name ∉ entries.map KeyEntry.name ∧ exc = .own (.missing name) := by
  unfold dropKey at h
  dsimp only at h
  split_ifs at h with hlen
  · refine ⟨fun hmem => ?_, (Except.error.inj h).symm⟩
    obtain ⟨e, he, rfl⟩ := List.mem_map.1 hmem
    have hkept := List.length_filter_eq_length_iff.1 hlen e he
    simp at hkept
  · rw [saveKeys_plain fun e he => hplain e (List.mem_of_mem_filter he)] at h
    cases h

/-- **What a call does in the block** is one of the effects of its command, and the new file is what
the effect makes of the entries. -/
theorem commit_does (i : ℕ) {op : Op} {token : Str} {now : UtcTime} {entries : List KeyEntry}
    {effect : Effect} {text : Option Str} (hplain : ∀ e ∈ entries, Plain e.created)
    (htoken : token.all isTokenChar = true)
    (h : commit tools op token now entries = some (effect, text)) :
    Does tools entries op effect ∧
      (∀ e key, effect = .created e key → key = KEY_PREFIX ++ token) ∧
      (∀ t, text = some t → t = renderKeys (after entries (.took i effect))) ∧
      (text = none → after entries (.took i effect) = entries) := by
  unfold commit at h
  split at h
  · next name =>
    split_ifs at h with hname
    split at h
    · next key text hadd =>
      cases h
      obtain ⟨rfl, hnew, rfl⟩ := addKey_ok hadd
      refine ⟨⟨rfl, hnew, encodable_token htoken, now, hname, rfl⟩, ?_, ?_, fun h => by cases h⟩
      · rintro e key ⟨⟩
        rfl
      · rintro t ⟨⟩
        rfl
    · next exc hadd =>
      cases h
      exact ⟨.inr (addKey_error hplain hadd), by rintro e key ⟨⟩, by rintro t ⟨⟩, fun _ => rfl⟩
  · next name =>
    split at h
    · next text hdrop =>
      cases h
      obtain ⟨hmem, rfl⟩ := dropKey_ok hdrop
      refine ⟨⟨rfl, hmem⟩, by rintro e key ⟨⟩, ?_, fun h => by cases h⟩
      rintro t ⟨⟩
      rfl
    · next exc hdrop =>
      cases h
      exact ⟨dropKey_error hplain hdrop, by rintro e key ⟨⟩, by rintro t ⟨⟩, fun _ => rfl⟩

end KeyLife

end AgentLab.Gateway
