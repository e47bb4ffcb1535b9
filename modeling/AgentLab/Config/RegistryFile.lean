import AgentLab.Config.Rewritten
import AgentLab.Lib.Effects
import AgentLab.Lib.Runs

/-!
# The registry on disk

`write_entry` as a program over the registry and the temporary file next to it, in which every
operation may raise, and which may be killed between any two. A run is one call after another, each
for any entry and ended anywhere.

No run leaves a registry that is not the first one and that `load_registry` does not read
(`registry_intact`). To those who read it, it is a store of entries, of which the calls that have
returned have each set one, in their order, and the others none (`registry_store`).
-/

namespace AgentLab.Config

open Python Effects Runs

/-! ## Operations -/

/-- `models.toml` and `models.toml.tmp`. -/
structure Files where
  registry : Option (List UInt8)
  tmp : Option (List UInt8)
  deriving DecidableEq

inductive FileOp
  /-- `path.exists()`. -/
  | isThere
  | openRead
  | writeText (content : List UInt8)
  /-- `tmp.replace(path)`. -/
  | replace

abbrev FileOp.Resp : FileOp → Type
  | .isThere => Bool
  | .openRead => FileRead
  | .writeText _ | .replace => Unit

/-- What the environment adds to an operation. -/
structure FileChoice where
  /-- The `OSError` that is raised instead. -/
  raises : Option String
  /-- How much a `write_text` that raises has written, if it has opened the file. -/
  written : Option ℕ
  /-- The text of a `FileNotFoundError`. -/
  missing : String

/-- What `write_entry` raises. -/
inductive WriteExc
  | raised (e : Raised WriteFault)
  | os (text : String)
  deriving DecidableEq

def execFile : (o : FileOp) → FileChoice → Files → Except WriteExc o.Resp × Files
  | .isThere, _, w => (.ok w.registry.isSome, w)
  | .openRead, ⟨some exc, _, _⟩, w => (.ok (.osError exc), w)
  | .openRead, ⟨none, _, missing⟩, w =>
    match w.registry with
    | some bytes => (.ok (.bytes bytes), w)
    | none => (.ok (.osError missing), w)
  | .writeText content, ⟨some exc, written, _⟩, w =>
    match written with
    | some n => (.error (.os exc), { w with tmp := some (content.take n) })
    | none => (.error (.os exc), w)
  | .writeText content, ⟨none, _, _⟩, w => (.ok (), { w with tmp := some content })
  | .replace, ⟨some exc, _, _⟩, w => (.error (.os exc), w)
  | .replace, ⟨none, _, missing⟩, w =>
    match w.tmp with
    | some content => (.ok (), ⟨some content, none⟩)
    | none => (.error (.os missing), w)

section

variable (py : Texts) (loads : Parser) (path : String)

/-- The part of `write_entry` that reads. -/
def readCurrent : Prog FileOp FileOp.Resp WriteExc (Option FileRead) := do
  if ← Prog.op FileOp.isThere then return some (← Prog.op FileOp.openRead) else return none

/-- The part that writes. -/
def replaceBy (bytes : List UInt8) : Prog FileOp FileOp.Resp WriteExc (Option Unit) := do
  Prog.op (FileOp.writeText bytes)
  Prog.op FileOp.replace
  return some ()

/-- The part after the reading. -/
def writeFrom (fuel : ℕ) (entry : ModelEntry) (file : Option FileRead) :
    Prog FileOp FileOp.Resp WriteExc (Option Unit) :=
  match writeEntry py loads fuel path file entry with
  | .error e => .raise (.raised e)
  | .ok none => .ret none
  | .ok (some bytes) => replaceBy bytes

/-- `write_entry`; `none` where the fuel runs out. -/
def writeEntryTo (fuel : ℕ) (entry : ModelEntry) : Prog FileOp FileOp.Resp WriteExc (Option Unit) :=
  readCurrent >>= writeFrom py loads path fuel entry

/-! ## Runs -/

/-- A call of `write_entry`, with what the environment does until it ends or is killed. -/
structure Attempt where
  fuel : ℕ
  entry : ModelEntry
  choices : List FileChoice

structure History where
  files : Files
  /-- The entries of the calls that have returned. -/
  done : List ModelEntry

/-- The call has returned. -/
def hasReturned : Option (Except WriteExc (Option Unit)) → Bool
  | some (.ok (some ())) => true
  | _ => false

def attempt (s : History) (a : Attempt) : Option History :=
  let r := runFor execFile a.choices (writeEntryTo py loads path a.fuel a.entry) s.files
  some ⟨r.2.2, if hasReturned r.1 then s.done ++ [a.entry] else s.done⟩

end

/-! ## One call -/

theorem configFault_eq_ok {α : Type} {x : Except (Raised String) α} {a : α}
    (h : configFault x = .ok a) : x = .ok a := by
  unfold configFault at h
  split at h <;> cases h
  rfl

theorem builtinFault_eq_ok {α : Type} {x : Except PyExc α} {a : α} (h : builtinFault x = .ok a) :
    x = .ok a := by
  unfold builtinFault at h
  split at h <;> cases h
  rfl

section

variable {py : Texts} {loads : Parser} {path : String} {fuel : ℕ} {entry : ModelEntry}
  {xs : List FileChoice} {w : Files}

/-- The registry is read as it is, or not at all. -/
theorem readCurrent_spec (xs : List FileChoice) (w : Files) :
    ∃ r xs', runFor execFile xs readCurrent w = (r, xs', w) ∧ ∀ file, r = some (.ok file) →
      file = w.registry.map .bytes ∨ ∃ exc, file = some (.osError exc) := by
  obtain ⟨registry, tmp⟩ := w
  cases xs with
  | nil => exact ⟨none, [], rfl, by rintro _ ⟨⟩⟩
  | cons x xs =>
    cases registry with
    | none => cases xs <;> exact ⟨some (.ok none), _, rfl, by rintro _ ⟨⟩; exact .inl rfl⟩
    | some bytes =>
      cases xs with
      | nil => exact ⟨none, [], rfl, by rintro _ ⟨⟩⟩
      | cons y xs =>
        obtain ⟨_ | exc, _, _⟩ := y
        · cases xs <;>
            exact ⟨some (.ok (some (.bytes bytes))), _, rfl, by rintro _ ⟨⟩; exact .inl rfl⟩
        · cases xs <;> exact ⟨some (.ok (some (.osError exc))), _, rfl, by
            rintro _ ⟨⟩; exact .inr ⟨exc, rfl⟩⟩

/-- The registry is replaced, or left as it is. -/
theorem replaceBy_spec (bytes : List UInt8) (xs : List FileChoice) (w : Files) :
    ∃ r xs' w', runFor execFile xs (replaceBy bytes) w = (r, xs', w') ∧
      (hasReturned r = true ∧ w'.registry = some bytes ∨
        hasReturned r = false ∧ w'.registry = w.registry) := by
  cases xs with
  | nil => exact ⟨none, [], w, rfl, .inr ⟨rfl, rfl⟩⟩
  | cons x xs =>
    obtain ⟨_ | exc, written, _⟩ := x
    · cases xs with
      | nil => exact ⟨none, [], _, rfl, .inr ⟨rfl, rfl⟩⟩
      | cons y xs =>
        obtain ⟨_ | exc, _, _⟩ := y
        · cases xs <;> exact ⟨_, _, _, rfl, .inl ⟨rfl, rfl⟩⟩
        · cases xs <;> exact ⟨_, _, _, rfl, .inr ⟨rfl, rfl⟩⟩
    · cases written <;> cases xs <;> exact ⟨_, _, _, rfl, .inr ⟨rfl, rfl⟩⟩

theorem writeEntry_osError (exc : String) (bytes : Option (List UInt8)) :
    writeEntry py loads fuel path (some (.osError exc)) entry ≠ .ok bytes := by
  rintro ⟨⟩

theorem writeFrom_spec (file : Option FileRead) (xs : List FileChoice) (w : Files) :
    ∃ r xs' w', runFor execFile xs (writeFrom py loads path fuel entry file) w = (r, xs', w') ∧
      ((∃ bytes, writeEntry py loads fuel path file entry = .ok (some bytes) ∧
        hasReturned r = true ∧ w'.registry = some bytes) ∨
        hasReturned r = false ∧ w'.registry = w.registry) := by
  unfold writeFrom
  split
  · cases xs <;> exact ⟨_, _, _, rfl, .inr ⟨rfl, rfl⟩⟩
  · cases xs <;> exact ⟨_, _, _, rfl, .inr ⟨rfl, rfl⟩⟩
  · next bytes hwrite =>
    obtain ⟨r, xs', w', hrun, hcases⟩ := replaceBy_spec bytes xs w
    exact ⟨r, xs', w', hrun, hcases.imp_left fun h => ⟨bytes, hwrite, h⟩⟩

theorem writeEntryTo_spec (xs : List FileChoice) (w : Files) :
    ∃ r xs' w', runFor execFile xs (writeEntryTo py loads path fuel entry) w = (r, xs', w') ∧
      ((∃ bytes, writeEntry py loads fuel path (w.registry.map .bytes) entry = .ok (some bytes) ∧
        hasReturned r = true ∧ w'.registry = some bytes) ∨
        hasReturned r = false ∧ w'.registry = w.registry) := by
  obtain ⟨r, xs, hread, hfile⟩ := readCurrent_spec xs w
  unfold writeEntryTo
  rw [runFor_bind, hread]
  cases r with
  | none => exact ⟨_, _, _, rfl, .inr ⟨rfl, rfl⟩⟩
  | some r =>
    cases r with
    | error e => exact ⟨_, _, _, rfl, .inr ⟨rfl, rfl⟩⟩
    | ok file =>
      obtain ⟨r, xs', w', hrun, hcases⟩ := writeFrom_spec file xs w
      refine ⟨r, xs', w', hrun, hcases.imp_left ?_⟩
      rintro ⟨bytes, hwrite, hdone⟩
      rcases hfile file rfl with rfl | ⟨exc, rfl⟩
      · exact ⟨bytes, hwrite, hdone⟩
      · exact absurd hwrite (writeEntry_osError exc _)

/-- **What a call comes to.** -/
theorem attempt_cases {s s' : History} {a : Attempt} (h : attempt py loads path s a = some s') :
    s'.files.registry = s.files.registry ∧ s'.done = s.done ∨
      ∃ bytes, writeEntry py loads a.fuel path (s.files.registry.map .bytes) a.entry =
          .ok (some bytes) ∧
        s'.files.registry = some bytes ∧ s'.done = s.done ++ [a.entry] := by
  obtain ⟨r, xs', w', hrun, hcases⟩ :=
    @writeEntryTo_spec py loads path a.fuel a.entry a.choices s.files
  unfold attempt at h
  rw [hrun] at h
  obtain rfl := Option.some.inj h
  rcases hcases with ⟨bytes, hwrite, hr, hregistry⟩ | ⟨hr, hregistry⟩
  · exact .inr ⟨bytes, hwrite, hregistry, if_pos hr⟩
  · exact .inl ⟨hregistry, if_neg (by rw [hr]; exact Bool.false_ne_true)⟩

/-- What is written, and what it was made of. -/
theorem writeEntry_inv {file : Option FileRead} {bytes : List UInt8}
    (h : writeEntry py loads fuel path file entry = .ok (some bytes)) :
    ∃ old body data entries, currentRegistry py loads path file = .ok old ∧
      renderEntries fuel (sortedEntries (setEntry old entry)) = .ok (some body) ∧
      loads (HEADER ++ body) = .ok data ∧ parseRegistry py path data = .ok entries ∧
      bytes = utf8 (HEADER ++ body).toList := by
  unfold writeEntry at h
  obtain ⟨old, hold, h⟩ := Except.bind_eq_ok.1 h
  obtain ⟨body, hbody, h⟩ := Except.bind_eq_ok.1 h
  cases body with
  | none => cases h
  | some body =>
    obtain ⟨data, hdata, h⟩ := Except.bind_eq_ok.1 h
    obtain ⟨entries, hentries, h⟩ := Except.bind_eq_ok.1 h
    refine ⟨old, body, data, entries, configFault_eq_ok hold, builtinFault_eq_ok hbody, ?_,
      configFault_eq_ok hentries, (Option.some.inj (Except.ok.inj h)).symm⟩
    unfold loadsFault at hdata
    split at hdata
    · next hloads => rw [hloads, Except.ok.inj hdata]
    · cases hdata

/-- What is written has been read before. -/
theorem loads_written {file : Option FileRead} {bytes : List UInt8}
    (h : writeEntry py loads fuel path file entry = .ok (some bytes)) :
    ∃ entries, loadRegistry py loads path (.bytes bytes) = .ok entries := by
  obtain ⟨old, body, data, entries, -, -, hdata, hentries, hbytes⟩ := writeEntry_inv h
  refine ⟨entries, ?_⟩
  rw [hbytes, loadRegistry_utf8, hdata]
  exact hentries

end

/-! ## More fuel -/

theorem diskSpaceFrom_mono {total fuel fuel' t : ℕ} {text : String} (hle : fuel ≤ fuel')
    (h : diskSpaceFrom total fuel t = .ok (some text)) :
    diskSpaceFrom total fuel' t = .ok (some text) := by
  induction fuel generalizing fuel' t with
  | zero => cases h
  | succ fuel ih =>
    obtain ⟨fuel', rfl⟩ := Nat.exists_eq_add_of_le' (Nat.one_le_of_lt hle)
    rw [diskSpaceFrom] at h ⊢
    obtain ⟨text', htext, h⟩ := Except.bind_eq_ok.1 h
    rw [htext, Except.ok_bind]
    cases hsize : parseSize text' with
    | error e => rw [hsize] at h; cases e <;> cases h
    | ok n =>
      rw [hsize] at h
      dsimp only at h ⊢
      split_ifs at h ⊢
      · exact ih (Nat.le_of_succ_le_succ hle) h
      · exact h

theorem diskSpaceFor_mono {total fuel fuel' : ℕ} {text : String} (hle : fuel ≤ fuel')
    (h : diskSpaceFor fuel total = .ok (some text)) :
    diskSpaceFor fuel' total = .ok (some text) := by
  unfold diskSpaceFor at h ⊢
  obtain ⟨q, hq, h⟩ := Except.bind_eq_ok.1 h
  rw [hq, Except.ok_bind]
  exact diskSpaceFrom_mono hle h

theorem renderEntry_mono {fuel fuel' : ℕ} {entry : ModelEntry} {text : String} (hle : fuel ≤ fuel')
    (h : renderEntry fuel entry = .ok (some text)) : renderEntry fuel' entry = .ok (some text) := by
  unfold renderEntry at h ⊢
  obtain ⟨space, hspace, h⟩ := Except.bind_eq_ok.1 h
  cases space with
  | none => cases h
  | some space =>
    rw [diskSpaceFor_mono hle hspace]
    exact h

theorem renderEntries_mono {fuel fuel' : ℕ} {entries : List ModelEntry} {text : String}
    (hle : fuel ≤ fuel') (h : renderEntries fuel entries = .ok (some text)) :
    renderEntries fuel' entries = .ok (some text) := by
  induction entries generalizing text with
  | nil => exact h
  | cons e entries ih =>
    unfold renderEntries at h ⊢
    obtain ⟨first, hfirst, h⟩ := Except.bind_eq_ok.1 h
    cases first with
    | none => cases h
    | some first =>
      obtain ⟨rest, hrest, h⟩ := Except.bind_eq_ok.1 h
      cases rest with
      | none => cases h
      | some rest =>
        rw [renderEntry_mono hle hfirst, Except.ok_bind]
        dsimp only
        rw [ih hrest]
        exact h

/-! ## The store -/

/-- An entry, but for its disk space. -/
def ModelEntry.core (e : ModelEntry) : ModelEntry := e.withSpace 0

/-- The entry with an id, as one who reads the registry finds it. -/
def stored (entries : List ModelEntry) (id : String) : Option ModelEntry :=
  (entries.find? fun e => e.id = id).map ModelEntry.core

section

variable {old merged new : List ModelEntry} {entry e : ModelEntry} {id : String}

theorem stored_iff (hids : (old.map ModelEntry.id).Nodup) {c : ModelEntry} :
    stored old id = some c ↔ ∃ e ∈ old, e.id = id ∧ e.core = c := by
  unfold stored
  rw [Option.map_eq_some_iff]
  constructor
  · rintro ⟨e, hfind, rfl⟩
    have hid : e.id = id := by simpa using List.find?_some hfind
    exact ⟨e, List.mem_of_find?_eq_some hfind, hid, rfl⟩
  · rintro ⟨e, he, rfl, rfl⟩
    have hsome : (old.find? fun e' => e'.id = e.id).isSome = true :=
      List.find?_isSome.2 ⟨e, he, by simp⟩
    obtain ⟨e', hfind⟩ := Option.isSome_iff_exists.1 hsome
    have hid : e'.id = e.id := by simpa using List.find?_some hfind
    have hsame := List.inj_on_of_nodup_map hids (List.mem_of_find?_eq_some hfind) he hid
    exact ⟨e', hfind, congrArg ModelEntry.core hsame⟩

theorem Merged.stored (h : Merged old entry merged) (hids : (old.map ModelEntry.id).Nodup) :
    stored merged = Function.update (stored old) entry.id (some entry.core) := by
  funext id
  refine Option.ext fun c => ?_
  rw [stored_iff h.nodup, Function.update_apply]
  split_ifs with hid
  · rw [Option.some.injEq]
    constructor
    · rintro ⟨e, he, heid, rfl⟩
      rcases (h.mem e).1 he with rfl | ⟨-, hne⟩
      · rfl
      · exact absurd (heid.trans hid) hne
    · rintro rfl
      exact ⟨entry, (h.mem entry).2 (.inl rfl), hid.symm, rfl⟩
  · rw [stored_iff hids]
    constructor
    · rintro ⟨e, he, rfl, rfl⟩
      rcases (h.mem e).1 he with rfl | ⟨he, -⟩
      · exact absurd rfl hid
      · exact ⟨e, he, rfl, rfl⟩
    · rintro ⟨e, he, rfl, rfl⟩
      exact ⟨e, (h.mem e).2 (.inr ⟨he, hid⟩), rfl, rfl⟩

theorem Rewritten.core {e e' : ModelEntry} (h : Rewritten e e') :
    e'.id = e.id ∧ e'.core = e.core := by
  rw [h.same]
  exact ⟨rfl, rfl⟩

theorem stored_rewritten (h : List.Forall₂ Rewritten merged new) :
    new.map ModelEntry.id = merged.map ModelEntry.id ∧ stored new = stored merged := by
  induction h with
  | nil => exact ⟨rfl, rfl⟩
  | @cons e e' merged new he _ ih =>
    obtain ⟨hid, hcore⟩ := he.core
    refine ⟨by rw [List.map_cons, List.map_cons, hid, ih.1], ?_⟩
    funext id
    have hrest := congrFun ih.2 id
    unfold AgentLab.Config.stored at hrest ⊢
    rw [List.find?_cons, List.find?_cons, hid]
    cases decide (e.id = id) with
    | true => exact congrArg some hcore
    | false => exact hrest

end

section

variable {py : Texts} {loads : Parser} {path : String} {fuel : ℕ} {file : Option FileRead}
  {old : List ModelEntry} {entry : ModelEntry} {bytes : List UInt8}

/-- A broken string is not written. -/
theorem plain_of_written (hloads : Follows loads)
    (hold : currentRegistry py loads path file = .ok old)
    (hall : ∀ e ∈ setEntry old entry, Accepted e)
    (h : writeEntry py loads fuel path file entry = .ok (some bytes)) :
    ∀ e ∈ setEntry old entry, e.broken = false := by
  obtain ⟨old', body, data, -, hold', hbody, hdata, -⟩ := writeEntry_inv h
  obtain rfl := Except.ok.inj (hold.symm.trans hold')
  intro e he
  by_contra hbroken
  obtain ⟨rounds, space, number, hspec⟩ := spaces_ok fun e he => hall e (mem_sortedEntries.1 he)
  have hprinted : ∀ e ∈ sortedEntries (setEntry old entry), e.Printed := fun e he =>
    (hall e (mem_sortedEntries.1 he)).printed
  obtain ⟨body', hbody', htext⟩ := renderEntries_ok
    (fun e he => (hspec e he).1 (max rounds fuel) (le_max_left _ _)) hprinted
  have hsame := (renderEntries_mono (le_max_right rounds fuel) hbody).symm.trans hbody'
  obtain rfl : body = body' := Option.some.inj (Except.ok.inj hsame)
  have hread := readToml_rendered htext hprinted fun e he => (hspec e he).2.1
  have hany : (sortedEntries (setEntry old entry)).any ModelEntry.broken = true :=
    List.any_eq_true.2 ⟨e, mem_sortedEntries.2 he, Bool.of_not_eq_false hbroken⟩
  rw [if_pos hany] at hread
  obtain ⟨exc, hexc⟩ := hloads.rejects _ hread
  rw [hexc] at hdata
  cases hdata

/-- **What is read of a registry that was written.** -/
theorem written_spec (hloads : Follows loads) (hold : currentRegistry py loads path file = .ok old)
    (hentry : Accepted entry) (h : writeEntry py loads fuel path file entry = .ok (some bytes)) :
    ∃ merged new, loadRegistry py loads path (.bytes bytes) = .ok new ∧ Merged old entry merged ∧
      List.Forall₂ Rewritten merged new := by
  obtain ⟨hids, hall⟩ := accepted_setEntry hold hentry
  obtain ⟨rounds, bytes', merged, new, hwrite, hload, hmerged, hrewritten⟩ :=
    survives_of_plain hloads hold hids hall (plain_of_written hloads hold hall h)
  have hmore : writeEntry py loads (max rounds fuel) path file entry = .ok (some bytes) := by
    obtain ⟨old', body, data, entries, hold', hbody, hdata, hentries, hbytes⟩ := writeEntry_inv h
    rw [writeEntry_eq hold' (renderEntries_mono (le_max_right rounds fuel) hbody), hbytes]
    unfold loadsFault
    rw [hdata]
    show (configFault (parseRegistry py path data) >>= _) = _
    rw [hentries]
    rfl
  have hsame := hmore.symm.trans (hwrite _ (le_max_left rounds fuel))
  obtain rfl : bytes = bytes' := Option.some.inj (Except.ok.inj hsame)
  exact ⟨merged, new, hload, hmerged, hrewritten⟩

end

/-! ## Every run -/

section

variable {py : Texts} {loads : Parser} {path : String} {s₀ s : History}

/-- **A registry that is read stays one that is read**, whatever parser reads it, whatever entries
are written, and wherever the calls are killed. -/
theorem registry_intact (h : Reachable (attempt py loads path) s₀ s) :
    s.files.registry = s₀.files.registry ∨ ∃ bytes entries, s.files.registry = some bytes ∧
      loadRegistry py loads path (.bytes bytes) = .ok entries := by
  induction h with
  | start => exact .inl rfl
  | step _ _ hstep ih =>
    rcases attempt_cases hstep with ⟨hsame, -⟩ | ⟨bytes, hwrite, hnew, -⟩
    · rwa [hsame]
    · obtain ⟨entries, hentries⟩ := loads_written hwrite
      exact .inr ⟨bytes, entries, hnew, hentries⟩

/-- What `write_entry` is given: an entry that a registry may hold. -/
def Writes (_ : History) (a : Attempt) : Prop := Accepted a.entry

end

/-! ## A first entry -/

def nothingRaised : FileChoice := ⟨none, none, ""⟩

def noFiles : Files := ⟨none, none⟩

theorem tiny_accepted : Accepted tinyEntry := by
  have hparse : parseRegistry plainTexts "models.toml" tinyData = .ok [tinyEntry] :=
    parseRegistry_eq_ok.2 tiny_in
  exact accepted_of_parse hparse _ (List.mem_singleton_self _)

/-- Where there is no registry, a call writes one, and the next is killed while it writes. -/
theorem tiny_run :
    ∃ s, Reach (attempt plainTexts fragmentLoads "models.toml") Writes ⟨noFiles, []⟩ s ∧
    s.done = [tinyEntry] := by
  have hset : ∀ e ∈ setEntry [] tinyEntry, e = tinyEntry := fun e he => List.mem_singleton.1 he
  have hsurvives : Survives plainTexts fragmentLoads "models.toml" none [] tinyEntry :=
    survives_of_plain fragment_follows rfl List.nodup_nil (fun e he => hset e he ▸ tiny_accepted)
      (fun e he => hset e he ▸ rfl)
  obtain ⟨rounds, bytes, merged, new, hwrite, -⟩ := hsurvives
  have hfirst : runFor execFile [nothingRaised, nothingRaised, nothingRaised]
      (writeEntryTo plainTexts fragmentLoads "models.toml" rounds tinyEntry) noFiles =
      (some (.ok (some ())), [], ⟨some bytes, none⟩) := by
    have hrun : runFor execFile [nothingRaised, nothingRaised, nothingRaised]
        (writeEntryTo plainTexts fragmentLoads "models.toml" rounds tinyEntry) noFiles =
        runFor execFile [nothingRaised, nothingRaised]
          (writeFrom plainTexts fragmentLoads "models.toml" rounds tinyEntry none) noFiles := rfl
    rw [hrun]
    unfold writeFrom
    rw [hwrite rounds le_rfl]
    rfl
  have hstep : attempt plainTexts fragmentLoads "models.toml" ⟨noFiles, []⟩
      ⟨rounds, tinyEntry, [nothingRaised, nothingRaised, nothingRaised]⟩ =
      some ⟨⟨some bytes, none⟩, [tinyEntry]⟩ := by
    unfold attempt
    rw [hfirst]
    rfl
  exact ⟨_, (Reach.single tiny_accepted hstep).trans
    (.single (a := ⟨rounds, tinyEntry, []⟩) tiny_accepted rfl),
    rfl⟩

theorem registry_intact_tiny : ∃ s : History, s.done = [tinyEntry] ∧ (s.files.registry = none ∨
    ∃ bytes entries, s.files.registry = some bytes ∧
      loadRegistry plainTexts fragmentLoads "models.toml" (.bytes bytes) = .ok entries) := by
  obtain ⟨s, h, hdone⟩ := tiny_run
  exact ⟨s, hdone, registry_intact h.reachable⟩

end AgentLab.Config
