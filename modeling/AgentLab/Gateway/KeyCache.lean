import AgentLab.Gateway.KeyFile
import AgentLab.Lib.Runs

/-!
# The key cache

Runs of `KeyStore.check` while the keys file is replaced, by anything, and reads fail. A check is a
`stat`, a `load` unless the stamp is the cached one, and an answer; the file may be replaced between
the steps, each time under a stamp that it never had.

The store keeps what it read under the stamp from before the read. `Inv` says that this is right
as long as the file has that stamp, which a `load` that fails under the stamp of the file breaks:
nothing is read, and the stamp is kept (`locked_out`).
-/

namespace AgentLab.Gateway

open Python Runs

namespace KeyCache

variable {Stamp : Type}

/-- The keys file: its inode, modification time and size, and its text. -/
structure File (Stamp : Type) where
  stamp : Stamp
  text : Str
  deriving DecidableEq

/-- Where the gateway is; `undisturbed` says that since the check began the file was not replaced
and no read failed. -/
inductive Phase (Stamp : Type)
  | idle
  | statted (key : Str) (stamp : Option Stamp) (undisturbed : Bool)
  | refreshed (key : Str) (undisturbed : Bool)
  deriving DecidableEq

structure State (Stamp : Type) where
  file : Option (File Stamp)
  used : List Stamp
  store : KeyStore Stamp
  phase : Phase Stamp
  deriving DecidableEq

inductive Action (Stamp : Type)
  /-- The file is replaced or removed. -/
  | replace (file : Option (File Stamp))
  /-- A check of the key begins; `stat` may fail with another `OSError` than that there is no
  file. -/
  | stat (key : Str) (fails : Bool)
  /-- `load`, which may fail with an `OSError` of that text. -/
  | load (fails : Option Str)
  | answer

def Phase.disturb : Phase Stamp → Phase Stamp
  | .idle => .idle
  | .statted key stamp _ => .statted key stamp false
  | .refreshed key _ => .refreshed key false

def init (file : Option (File Stamp)) : State Stamp :=
  ⟨file, (file.map File.stamp).toList, .new, .idle⟩

/-- The text of the file. -/
def State.text (s : State Stamp) : Option Str := s.file.map File.text

/-- The stamp of the file. -/
def State.stamp (s : State Stamp) : Option Stamp := s.file.map File.stamp

variable (tools : KeyTools)

def step [DecidableEq Stamp] (s : State Stamp) : Action Stamp → Option (State Stamp)
  | .replace file =>
    match file with
    | none => some { s with file := none, phase := s.phase.disturb }
    | some f => if f.stamp ∈ s.used then none
      else some { s with file := some f, used := f.stamp :: s.used, phase := s.phase.disturb }
  | .stat key fails =>
    match s.phase with
    | .idle =>
      if fails then some s
      else if s.store.isCurrent s.stamp then some { s with phase := .refreshed key true }
      else some { s with phase := .statted key s.stamp true }
    | _ => none
  | .load fails =>
    match s.phase with
    | .statted key stamp undisturbed =>
      let read := match fails with
        | none => .ok s.text
        | some exc => .error exc
      match KeyStore.reload stamp (loadKeys tools read) with
      | .ok store => some { s with
          store := store, phase := .refreshed key (undisturbed && fails.isNone) }
      | .error _ => some { s with phase := .idle }
    | _ => none
  | .answer =>
    match s.phase with
    | .refreshed _ _ => some { s with phase := .idle }
    | _ => none

/-! ## The invariant -/

/-- What the store holds is what the file holds, if it can be read. -/
def State.Fresh (s : State Stamp) : Prop :=
  ∀ entries, loadKeys tools (.ok s.text) = .ok entries → s.store.hashes = hashesOf entries

structure Inv (s : State Stamp) : Prop where
  used : ∀ stamp, s.stamp = some stamp → stamp ∈ s.used
  stored : ∀ stamp, s.store.stamp = some stamp → stamp ∈ s.used
  statted : ∀ key stamp undisturbed, s.phase = .statted key (some stamp) undisturbed →
    stamp ∈ s.used
  cached : s.store.stamp = s.stamp → s.stamp.isSome = true → s.Fresh tools
  refreshed : ∀ key, s.phase = .refreshed key true → s.Fresh tools

/-- No read fails while the file has the stamp that the check found. -/
def Careful (s : State Stamp) (a : Action Stamp) : Prop :=
  match s.phase, a with
  | .statted _ (some stamp) _, .load (some _) => s.stamp ≠ some stamp
  | _, _ => True

variable {tools} {s s' : State Stamp}

theorem Inv.init (file : Option (File Stamp)) : Inv tools (init file) where
  used stamp h := by
    unfold KeyCache.init
    cases file with
    | none => cases h
    | some f => exact Option.mem_toList.2 h
  stored := nofun
  statted := nofun
  cached h hsome := by
    rw [← h] at hsome
    cases hsome
  refreshed := nofun

theorem disturb_refreshed {p : Phase Stamp} {key : Str} : p.disturb ≠ .refreshed key true := by
  cases p <;> simp [Phase.disturb]

theorem disturb_statted {p : Phase Stamp} {key : Str} {stamp : Option Stamp} {b : Bool}
    (h : p.disturb = .statted key stamp b) : ∃ b', p = .statted key stamp b' := by
  cases p with
  | statted key' stamp' b' =>
    cases h
    exact ⟨b', rfl⟩
  | _ => cases h

/-- What `load` makes of the store, for the stamp that `stat` found. -/
theorem reload_ok {stamp : Option Stamp} {loaded : Except (Raised KeysError) (List KeyEntry)}
    {store : KeyStore Stamp} (h : KeyStore.reload stamp loaded = .ok store) :
    store.stamp = stamp ∧ ∀ entries, loaded = .ok entries → store.hashes = hashesOf entries := by
  rcases loaded with (e | x) | entries
  · cases h
    exact ⟨rfl, nofun⟩
  · cases h
  · cases h
    refine ⟨rfl, fun es hes => ?_⟩
    cases hes
    rfl

variable [DecidableEq Stamp]

theorem Inv.replace (hI : Inv tools s) {file : Option (File Stamp)}
    (h : step tools s (.replace file) = some s') : Inv tools s' := by
  have hphase : ∀ {key stamp b}, s.phase.disturb = .statted key (some stamp) b → stamp ∈ s.used :=
    fun h => let ⟨b', hb⟩ := disturb_statted h
      hI.statted _ _ b' hb
  cases file with
  | none =>
    cases h
    exact ⟨nofun, hI.stored, fun _ _ _ h => hphase h, nofun, fun _ h => absurd h disturb_refreshed⟩
  | some f =>
    unfold step at h
    dsimp only at h
    split_ifs at h with hf
    cases h
    refine ⟨fun stamp h => ?_, fun stamp h => List.mem_cons_of_mem _ (hI.stored stamp h),
      fun _ _ _ h => List.mem_cons_of_mem _ (hphase h), fun h _ => ?_,
      fun _ h => absurd h disturb_refreshed⟩
    · cases h
      exact List.mem_cons_self
    · exact absurd (hI.stored f.stamp h) hf

theorem Inv.step (hI : Inv tools s) {a : Action Stamp} (hC : Careful s a)
    (h : step tools s a = some s') : Inv tools s' := by
  cases a with
  | replace file => exact hI.replace h
  | stat key fails =>
    unfold KeyCache.step at h
    dsimp only at h
    split at h
    · split_ifs at h with hfails hcurrent
      · cases h
        exact hI
      · cases h
        refine ⟨hI.used, hI.stored, nofun, hI.cached, fun _ _ => ?_⟩
        simp only [KeyStore.isCurrent, Bool.and_eq_true, decide_eq_true_eq] at hcurrent
        exact hI.cached hcurrent.1.symm hcurrent.2
      · cases h
        refine ⟨hI.used, hI.stored, fun key' stamp b h => hI.used stamp ?_, hI.cached, nofun⟩
        injection h
    · cases h
  | load fails =>
    unfold KeyCache.step at h
    dsimp only at h
    split at h
    · next key stamp undisturbed hphase =>
      split at h
      · next store hstore =>
        cases h
        obtain ⟨hstamp, hhashes⟩ := reload_ok hstore
        have hused : ∀ st, store.stamp = some st → st ∈ s.used := by
          intro st hst
          rw [hstamp] at hst
          exact hI.statted key st undisturbed (hst ▸ hphase)
        cases fails with
        | none => exact ⟨hI.used, hused, nofun, fun _ _ => hhashes, fun _ _ => hhashes⟩
        | some exc =>
          refine ⟨hI.used, hused, nofun, fun heq hsome => ?_, fun key' h => ?_⟩
          · -- The stamp that is kept is no longer the one of the file.
            obtain ⟨st, hst⟩ := Option.isSome_iff_exists.1 hsome
            have hstamp' : stamp = some st := hstamp.symm.trans (heq.trans hst)
            unfold Careful at hC
            rw [hphase, hstamp'] at hC
            exact absurd hst hC
          · injection h with _ h
            simp at h
      · cases h
        exact ⟨hI.used, hI.stored, nofun, hI.cached, nofun⟩
    · cases h
  | answer =>
    unfold KeyCache.step at h
    dsimp only at h
    split at h
    · cases h
      exact ⟨hI.used, hI.stored, nofun, hI.cached, nofun⟩
    · cases h

/-- **The cache agrees with the file.** In every run in which no read fails while the file has the
stamp that the check found, a check that nothing disturbed answers as one without a cache would:
with the name of an entry that has the hash of the key, if there is one. -/
theorem cache_agrees {file : Option (File Stamp)} {key : Str} {entries : List KeyEntry}
    (h : Reach (step tools) Careful (init file) s) (hphase : s.phase = .refreshed key true)
    (hload : loadKeys tools (.ok s.text) = .ok entries) :
    s.store.answer tools key = (KeyStore.mk s.stamp (hashesOf entries)).answer tools key ∧
      ∀ found, s.store.answer tools key = .ok found → Answers tools entries key found := by
  have hI := h.invariant (Inv.init file) fun _ _ _ hI hC hs => hI.step hC hs
  have hhashes := hI.refreshed key hphase entries hload
  unfold KeyStore.answer
  rw [hhashes]
  refine ⟨rfl, fun found hfound => ?_⟩
  split_ifs at hfound
  rw [← Except.ok.inj hfound]
  exact findKey_answers tools entries key

/-! ## A key that is locked out -/

def springFile : File ℕ := ⟨1, renderKeys [springEntry]⟩

instance (s : State Stamp) (a : Action Stamp) : Decidable (Careful s a) := by
  unfold Careful
  split <;> infer_instance

/-- A check before there is a file, and one after. -/
def firstFile (key : Str) : List (Action ℕ) :=
  [.stat key false, .load none, .answer, .replace (some springFile), .stat key false, .load none]

theorem cache_agrees_firstFile :
    (runIf (step .reader) Careful (init none) (firstFile (str "sk-alab-2f"))).map
        (fun s => s.store.answer .reader (str "sk-alab-2f")) = some (.ok (some (str "opencode"))) ∧
      Answers .reader [springEntry] (str "sk-alab-2f") (some (str "opencode")) := by
  have hrun : runIf (step .reader) Careful (init none) (firstFile (str "sk-alab-2f")) =
      some ⟨some springFile, [1], ⟨some 1, hashesOf [springEntry]⟩,
        .refreshed (str "sk-alab-2f") true⟩ := by
    decide +kernel
  have hload : loadKeys .reader (.ok (some springFile.text)) = .ok [springEntry] := by
    decide +kernel
  have hanswer := (cache_agrees (.of_runIf hrun) rfl hload).2 (some (str "opencode"))
    (by decide +kernel)
  exact ⟨by rw [hrun]; decide +kernel, hanswer⟩

/-- A check whose read fails, and the next one. -/
def failedRead (key : Str) : List (Action ℕ) :=
  [.stat key false, .load (some (str "[Errno 24] Too many open files")), .answer, .stat key false]

/-- The second check reads nothing, and finds no key. -/
theorem locked_out :
    ¬ ∀ (s : State ℕ) key entries found, Reachable (step .reader) (init (some springFile)) s →
      s.phase = .refreshed key true → loadKeys .reader (.ok s.text) = .ok entries →
      s.store.answer .reader key = .ok found → Answers .reader entries key found := by
  intro hall
  have hrun : run (step .reader) (init (some springFile)) (failedRead (str "sk-alab-2f")) =
      some ⟨some springFile, [1], ⟨some 1, []⟩, .refreshed (str "sk-alab-2f") true⟩ := by
    decide +kernel
  have hload : loadKeys .reader (.ok (some springFile.text)) = .ok [springEntry] := by
    decide +kernel
  have hnone := hall _ _ _ none (.of_run hrun) rfl hload rfl
  exact hnone springEntry (List.mem_singleton.2 rfl) rfl

end KeyCache

end AgentLab.Gateway
