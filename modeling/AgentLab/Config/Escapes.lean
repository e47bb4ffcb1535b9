import AgentLab.Config.Entries
import AgentLab.Config.Reported

/-!
# What escapes from the registry

The conditions for `_parse_files`, `parse_registry` and the files: `always_reported_iff` says for
each function that reads the configuration when only a `ConfigError` can come out of it, and
`not_always_reported` what comes out else.
-/

namespace AgentLab.Config

open Python

section

variable (py : Texts)

/-! ## Files -/

/-- The messages about a file can be made. -/
def FileSafe : Toml → Prop
  | .table fields =>
    (∀ name, fields.lookup "name" = some (.str name) → fileNameProblem name ≠ none →
      Works (py.repr (.str name))) ∧
    (fileSize? (fields.lookup "size") = none → Works (pyRepr py (fields.lookup "size"))) ∧
    (fileSha? (fields.lookup "sha256") = none → Works (pyRepr py (fields.lookup "sha256")))
  | _ => True

def FilesSafe (value : Option Toml) : Prop :=
  ∀ items, value = some (.array items) → ∀ item ∈ items, FileSafe py item

/-- The files of a list that `_parse_files` takes. -/
def takeFiles : List Toml → List ModelFile → List ModelFile
  | [], files => files
  | .table fields :: items, files =>
    takeFiles items (files ++ (file? (files.map ModelFile.name) fields).toList)
  | _ :: items, files => takeFiles items files

def filesOf : Option Toml → List ModelFile
  | some (.array items) => takeFiles items []
  | _ => []

/-! ## Entries -/

def entryKinds : List (String × Kind) :=
  [("id", .string), ("description", .string), ("repo", .string), ("revision", .string),
    ("disk_space", .size)]

/-- The entry that a table is read as. -/
def entryOf (t : Table) : ModelEntry :=
  ⟨Reader.stringOf (t.lookup "id"), Reader.stringOf (t.lookup "description"),
    Reader.stringOf (t.lookup "repo"), Reader.stringOf (t.lookup "revision"),
    Reader.sizeOf (t.lookup "disk_space"), filesOf (t.lookup "files")⟩

/-- A table can be read, after entries with these ids. -/
structure TableSafe (ids : List String) (t : Table) : Prop where
  label : Works (pyStr py (t.lookup "id"))
  fields : FieldsSafe py entryKinds t
  files : FilesSafe py (t.lookup "files")
  space : (entryOf t).id ∉ ids → (entryOf t).tooSmall = true →
    Works (formatSize py (entryOf t).diskSpace) ∧ Works (py.str (.int (entryOf t).totalSize))

/-- The ids after a table. -/
def idsAfter (ids : List String) (t : Table) : List String :=
  if (entryOf t).id ∈ ids ∨ (entryOf t).id = "" then ids else ids ++ [(entryOf t).id]

/-- The items can be read, after entries with these ids. -/
def ItemsSafe : List Toml → List String → Prop
  | [], _ => True
  | .table t :: items, ids => TableSafe py ids t ∧ ItemsSafe items (idsAfter ids t)
  | _ :: items, ids => ItemsSafe items ids

/-- `parse_registry` returns or raises a `ConfigError`. -/
structure RegistrySafe (data : Table) : Prop where
  keys : ∀ key ∈ data.map Prod.fst, key ≠ "model" → Works (py.repr (.str key))
  items : ∀ raw, data.lookup "model" = some (.array raw) → ItemsSafe py raw []

end

section

open Reader

variable {py : Texts}

theorem works_nameProblems {label : String} {seen : List String} {value : Option Toml} :
    Works (nameProblems py label seen value) ↔ ∀ name, value = some (.str name) →
      fileNameProblem name ≠ none → Works (py.repr (.str name)) := by
  unfold nameProblems
  split
  · next name =>
    cases hproblem : fileNameProblem name with
    | some problem => exact works_map.trans (by simp [pyRepr, hproblem])
    | none => exact iff_of_true (works_ok _) fun name' h hp => by cases h; exact absurd hproblem hp
  · next hno => exact iff_of_true (works_ok _) fun name h => absurd h (hno name)

theorem works_readFile {label : String} {files : List ModelFile} {item : Toml} :
    Works (readFile py label files item) ↔ FileSafe py item := by
  have hsize : ∀ value, Works (sizeProblems py label value) ↔
      (fileSize? value = none → Works (pyRepr py value)) := by
    intro value
    unfold sizeProblems
    split_ifs with h
    · exact iff_of_true (works_ok _) fun hn => by rw [hn] at h; cases h
    · rw [Option.not_isSome_iff_eq_none] at h
      exact works_map.trans (by simp [h])
  have hsha : ∀ value, Works (shaProblems py label value) ↔
      (fileSha? value = none → Works (pyRepr py value)) := by
    intro value
    unfold shaProblems
    split_ifs with h
    · exact iff_of_true (works_ok _) fun hn => by rw [hn] at h; cases h
    · rw [Option.not_isSome_iff_eq_none] at h
      exact works_map.trans (by simp [h])
  cases item with
  | table fields =>
    refine (works_seq fun _ => works_seq fun _ => works_map).trans ?_
    rw [works_nameProblems, hsize, hsha]
    rfl
  | _ => exact iff_of_true (works_ok _) trivial

theorem readFile_files {label : String} {files files' : List ModelFile} {item : Toml}
    {problems : List String} (h : readFile py label files item = .ok (files', problems)) :
    files' = takeFiles [item] files := by
  cases item with
  | table fields =>
    obtain ⟨_, -, h⟩ := Except.bind_eq_ok.1 h
    obtain ⟨_, -, h⟩ := Except.bind_eq_ok.1 h
    obtain ⟨_, -, h⟩ := Except.bind_eq_ok.1 h
    exact (Prod.mk.inj (Except.ok.inj h)).1.symm
  | _ => exact (Prod.mk.inj (Except.ok.inj h)).1.symm

theorem takeFiles_cons (item : Toml) (items : List Toml) (files : List ModelFile) :
    takeFiles (item :: items) files = takeFiles items (takeFiles [item] files) := by
  cases item <;> rfl

theorem works_readFiles {label : String} {items : List Toml} :
    ∀ {index : ℕ} {files : List ModelFile},
    (Works (readFiles py label index items files) ↔ ∀ item ∈ items, FileSafe py item) ∧
      ∀ files' problems, readFiles py label index items files = .ok (files', problems) →
        files' = takeFiles items files := by
  induction items with
  | nil =>
    refine fun {index files} => ⟨iff_of_true (works_ok _) (by simp), fun files' problems h => ?_⟩
    exact (Prod.mk.inj (Except.ok.inj h)).1.symm
  | cons item items ih =>
    intro index files
    constructor
    · have hrest : ∀ r : List ModelFile × List String,
          Works (readFiles py label (index + 1) items r.1 >>= fun q => .ok (q.1, r.2 ++ q.2)) ↔
            ∀ item ∈ items, FileSafe py item :=
        fun _ => (works_text fun _ => works_ok _).trans ih.1
      refine (works_seq hrest).trans ?_
      rw [works_readFile, List.forall_mem_cons]
    · intro files' problems h
      obtain ⟨⟨files₁, p₁⟩, h₁, h⟩ := Except.bind_eq_ok.1 h
      obtain ⟨⟨files₂, p₂⟩, h₂, h⟩ := Except.bind_eq_ok.1 h
      rw [takeFiles_cons, ← readFile_files h₁, ← ih.2 _ _ h₂]
      exact (Prod.mk.inj (Except.ok.inj h)).1.symm

theorem works_parseFiles {label : String} {value : Option Toml} :
    Works (parseFiles py label value) ↔ FilesSafe py value := by
  unfold parseFiles
  split
  · next item items =>
    rw [works_readFiles.1]
    exact ⟨fun h items' hi => by cases hi; exact h, fun h => h _ rfl⟩
  · next hno =>
    refine iff_of_true (works_ok _) fun items hi => ?_
    cases items with
    | nil => exact fun _ h => absurd h List.not_mem_nil
    | cons item items => exact absurd hi (hno item items)

theorem parseFiles_files {label : String} {value : Option Toml} {files : List ModelFile}
    {problems : List String} (h : parseFiles py label value = .ok (files, problems)) :
    files = filesOf value := by
  unfold parseFiles at h
  split at h
  · exact works_readFiles.2 _ _ h
  · next hno =>
    obtain ⟨rfl, -⟩ := Prod.mk.inj (Except.ok.inj h)
    unfold filesOf
    split
    · next items =>
      cases items with
      | nil => rfl
      | cons item items => exact absurd rfl (hno item items)
    · rfl

/-! ### Tables -/

theorem Reader.Yields.modify (f : Section → Section) (hf : ∀ s, (f s).view = s.view) :
    Yields (fun _ => True) (fun _ => ()) (modify f : Reader Unit) where
  returns s _ := ⟨f s, rfl, hf s⟩
  raises _ h := absurd trivial h

/-- What a section of the registry is read as. -/
def entryAt (t : View) : ModelEntry :=
  { entryOf t.2 with files := if t.1 then filesOf (t.2.lookup "files") else [] }

theorem readEntry_yields (label : String) :
    Yields
      (fun t => FieldsSafe py entryKinds t.2 ∧ (t.1 = true → FilesSafe py (t.2.lookup "files")))
      entryAt (readEntry py label) := by
  unfold readEntry
  refine ((string_yields _ _).bind fun id => (string_yields _ _).bind fun description =>
    (string_yields _ _).bind fun repo => (string_yields _ _).bind fun revision =>
    (size_yields _).bind fun diskSpace =>
    (Yields.modify (fun s => { s with seen := s.seen ++ ["files"] }) fun _ => rfl).bind fun _ =>
    .state (C := fun t _ => t.1 = true → FilesSafe py (t.2.lookup "files"))
      (V := fun t _ => ModelEntry.mk id description repo revision diskSpace
        (if t.1 then filesOf (t.2.lookup "files") else [])) fun s => ?_).congr
        (fun t => ?_) fun _ _ => ?_
  · have hpure : ∀ files : List ModelFile, Yields (fun _ => True) (fun _ =>
        ModelEntry.mk id description repo revision diskSpace files) (do
          finish
          return ModelEntry.mk id description repo revision diskSpace files) := fun files =>
      (finish_yields.bind fun _ => .pure (ModelEntry.mk id description repo revision diskSpace
        files)).congr (fun _ => by simp) fun _ _ => rfl
    cases hs : s.valid with
    | true =>
      refine ((Yields.lift (parseFiles py label (s.table.lookup "files")) ([], [])).bind fun r =>
        (Yields.modify (fun s => { s with errors := s.errors ++ r.2 }) fun _ => rfl).bind
          fun _ => (Yields.pure r.1).bind hpure).congr (fun _ => ?_) fun _ h => ?_
      · rw [works_parseFiles]
        simp [Section.view, hs]
      · obtain ⟨⟨files, problems⟩, hr⟩ :
            Works (parseFiles py label (s.table.lookup "files")) := works_parseFiles.2 (h hs)
        rw [show s.view.1 = true from hs, if_pos rfl, hr]
        exact congrArg _ (parseFiles_files hr)
    | false =>
      refine ((Yields.pure []).bind fun files => hpure files).congr (fun _ => ?_) fun _ _ => ?_
      · simp [Section.view, hs]
      · simp [Section.view, hs]
  · simp only [FieldsSafe, entryKinds, List.forall_mem_cons, List.not_mem_nil, FieldSafe]
    simp [and_assoc]
  · rfl

theorem works_spaceProblems {label : String} {entry : ModelEntry} :
    Works (spaceProblems py label entry) ↔ (entry.tooSmall = true →
      Works (formatSize py entry.diskSpace) ∧ Works (py.str (.int entry.totalSize))) := by
  unfold spaceProblems
  split_ifs with h
  · exact (works_seq fun _ => works_map).trans (by simp [h])
  · exact iff_of_true (works_ok _) fun ht => absurd ht h

theorem readEntry_works {label : String} {t : Table} {errors : List String}
    (hfields : FieldsSafe py entryKinds t) (hfiles : FilesSafe py (t.lookup "files")) :
    ∃ s, readEntry py label (Section.new label (some (.table t)) errors) = .ok (entryOf t, s) := by
  obtain ⟨s, hs, -⟩ := (readEntry_yields label).returns
    (Section.new label (some (.table t)) errors) ⟨hfields, fun _ => hfiles⟩
  exact ⟨s, hs⟩

theorem readEntry_ok {label : String} {t : Table} {errors : List String} {r : ModelEntry × Section}
    (h : readEntry py label (Section.new label (some (.table t)) errors) = .ok r) :
    FieldsSafe py entryKinds t ∧ FilesSafe py (t.lookup "files") ∧ r.1 = entryOf t := by
  have hsafe : FieldsSafe py entryKinds t ∧ FilesSafe py (t.lookup "files") := by
    by_contra hno
    obtain ⟨x, hx⟩ := (readEntry_yields label).raises
      (Section.new label (some (.table t)) errors) fun hs => hno ⟨hs.1, hs.2 rfl⟩
    exact nomatch h.symm.trans hx
  obtain ⟨s, hs⟩ := @readEntry_works py label t errors hsafe.1 hsafe.2
  rw [hs] at h
  exact ⟨hsafe.1, hsafe.2, by rw [← Except.ok.inj h]⟩

theorem works_addEntry {label : String} {entries : List ModelEntry} {entry : ModelEntry}
    {errors : List String} : Works (addEntry py label entries entry errors) ↔
      (entry.id ∉ entries.map ModelEntry.id → entry.tooSmall = true →
        Works (formatSize py entry.diskSpace) ∧ Works (py.str (.int entry.totalSize))) := by
  unfold addEntry
  by_cases h : entry.id ∈ entries.map ModelEntry.id
  · rw [if_pos h]
    exact iff_of_true (works_ok _) fun hn => absurd h hn
  · rw [if_neg h]
    exact ((works_text fun _ => works_ok _).trans works_spaceProblems).trans
      ⟨fun hs _ => hs, fun hs => hs h⟩

theorem addEntry_ids {label : String} {entries : List ModelEntry} {entry : ModelEntry}
    {errors : List String} {r : List ModelEntry × List String}
    (h : addEntry py label entries entry errors = .ok r) : r.1.map ModelEntry.id =
      if entry.id ∈ entries.map ModelEntry.id ∨ entry.id = "" then entries.map ModelEntry.id
      else entries.map ModelEntry.id ++ [entry.id] := by
  unfold addEntry at h
  by_cases hid : entry.id ∈ entries.map ModelEntry.id
  · rw [if_pos hid] at h
    rw [← Except.ok.inj h, if_pos (.inl hid)]
  · rw [if_neg hid] at h
    obtain ⟨space, -, h⟩ := Except.bind_eq_ok.1 h
    rw [← Except.ok.inj h]
    by_cases hempty : entry.id = ""
    · rw [if_pos hempty, if_pos (.inr hempty)]
    · rw [if_neg hempty, if_neg (not_or.2 ⟨hid, hempty⟩), List.map_append]
      rfl

/-- **One round of the loop**, for a table. -/
theorem works_readItem {index : ℕ} {t : Table} {entries : List ModelEntry} {errors : List String} :
    Works (readItem py index (.table t) entries errors) ↔
      TableSafe py (entries.map ModelEntry.id) t := by
  rw [readItem_eq]
  constructor
  · rintro ⟨r, h⟩
    obtain ⟨label, hlabel, h⟩ := Except.bind_eq_ok.1 h
    obtain ⟨read, hread, h⟩ := Except.bind_eq_ok.1 h
    obtain ⟨hfields, hfiles, heq⟩ := readEntry_ok hread
    rw [heq] at h
    exact ⟨works_map.1 ⟨label, hlabel⟩, hfields, hfiles, works_addEntry.1 ⟨r, h⟩⟩
  · intro h
    obtain ⟨label, hlabel⟩ : Works (entryLabel py index (.table t)) := works_map.2 h.label
    obtain ⟨s, hs⟩ := @readEntry_works py label t errors h.fields h.files
    exact works_bind.2 ⟨label, hlabel, works_bind.2 ⟨_, hs, works_addEntry.2 h.space⟩⟩

theorem readItem_ids {index : ℕ} {t : Table} {entries : List ModelEntry} {errors : List String}
    {r : List ModelEntry × List String}
    (h : readItem py index (.table t) entries errors = .ok r) :
    r.1.map ModelEntry.id = idsAfter (entries.map ModelEntry.id) t := by
  rw [readItem_eq] at h
  obtain ⟨label, -, h⟩ := Except.bind_eq_ok.1 h
  obtain ⟨read, hread, h⟩ := Except.bind_eq_ok.1 h
  rw [(readEntry_ok hread).2.2] at h
  exact addEntry_ids h

/-- What is not a table adds no entry. -/
theorem readItem_other {index : ℕ} {item : Toml} {entries : List ModelEntry} {errors : List String}
    (h : ∀ t, item ≠ .table t) :
    ∃ problems, readItem py index item entries errors = .ok (entries, problems) := by
  obtain ⟨label, hlabel⟩ : Works (entryLabel py index item) := by
    cases item with
    | table t => exact absurd rfl (h t)
    | _ => exact works_ok _
  have hview : (Section.new label (some item) errors).view = (false, []) := by
    rw [new_view]
    split
    · next t ht => exact absurd (Option.some.inj ht) (h t)
    · rfl
  obtain ⟨s, hs, -⟩ := (@readEntry_yields py label).returns (Section.new label (some item) errors)
    (by rw [hview]; exact ⟨fieldsSafe_nil entryKinds, nofun⟩)
  rw [hview] at hs
  rw [readItem_eq, hlabel, Except.ok_bind, hs, Except.ok_bind]
  unfold addEntry
  by_cases hid : (entryAt (false, [])).id ∈ entries.map ModelEntry.id
  · rw [if_pos hid]
    exact ⟨_, rfl⟩
  · rw [if_neg hid]
    exact ⟨_, rfl⟩

theorem works_readItems {items : List Toml} : ∀ {index : ℕ} {entries : List ModelEntry}
    {errors : List String}, Works (readItems py index items entries errors) ↔
      ItemsSafe py items (entries.map ModelEntry.id) := by
  induction items with
  | nil => exact iff_of_true (works_ok _) trivial
  | cons item items ih =>
    intro index entries errors
    have hcons : readItems py index (item :: items) entries errors =
        readItem py index item entries errors >>= fun r =>
          readItems py (index + 1) items r.1 r.2 := rfl
    rw [hcons]
    have hother : (∀ t, item ≠ .table t) →
        (Works (readItem py index item entries errors >>= fun r =>
          readItems py (index + 1) items r.1 r.2) ↔
            ItemsSafe py items (entries.map ModelEntry.id)) := by
      intro hno
      obtain ⟨problems, hread⟩ := @readItem_other py index item entries errors hno
      rw [hread]
      exact ih
    cases item with
    | table t =>
      rw [works_bind]
      constructor
      · rintro ⟨r, hr, hrest⟩
        refine ⟨works_readItem.1 ⟨r, hr⟩, ?_⟩
        rw [← readItem_ids hr]
        exact ih.1 hrest
      · rintro ⟨htable, hrest⟩
        obtain ⟨r, hr⟩ := works_readItem.2 htable
        refine ⟨r, hr, ih.2 ?_⟩
        rw [readItem_ids hr]
        exact hrest
    | _ => exact hother nofun

theorem works_mapM {α β : Type} {f : α → Except PyExc β} {l : List α} :
    Works (l.mapM f) ↔ ∀ a ∈ l, Works (f a) := by
  induction l with
  | nil => exact iff_of_true (works_ok _) (by simp)
  | cons a l ih =>
    rw [List.mapM_cons, List.forall_mem_cons, ← ih]
    exact works_seq fun _ => works_map

/-- The part of `parse_registry` that reads the tables. -/
theorem works_model {data : Table} (problems : List String) :
    Works (match (data.lookup "model").getD (.array []) with
      | .array raw => readItems py 0 raw [] problems
      | _ => return ([], problems ++ ["model: expected [[model]] tables"])) ↔
        ∀ raw, data.lookup "model" = some (.array raw) → ItemsSafe py raw [] := by
  cases data.lookup "model" with
  | none => exact iff_of_true (works_ok _) (by rintro raw ⟨⟩)
  | some value =>
    cases value with
    | array raw => exact works_readItems.trans (by simp)
    | _ => exact iff_of_true (works_ok _) (by rintro raw ⟨⟩)

theorem works_readRegistry {data : Table} :
    Works (readRegistry py data) ↔ RegistrySafe py data := by
  have hmem : ∀ key, key ∈ unknown (data.map Prod.fst) ["model"] ↔
      key ∈ data.map Prod.fst ∧ key ≠ "model" := by
    intro key
    unfold unknown
    rw [List.mem_insertionSort, List.mem_dedup, List.mem_filter]
    simp
  have hkeys : Works ((unknown (data.map Prod.fst) ["model"]).mapM fun key => do
      return "unknown top-level key " ++ (← pyRepr py (some (.str key))) ++
        " (entries are [[model]] tables)") ↔
      ∀ key ∈ data.map Prod.fst, key ≠ "model" → Works (py.repr (.str key)) := by
    rw [works_mapM]
    constructor
    · exact fun h key hk hne => works_map.1 (h key ((hmem key).2 ⟨hk, hne⟩))
    · exact fun h key hk => works_map.2 (h key ((hmem key).1 hk).1 ((hmem key).1 hk).2)
  exact ((works_seq works_model).trans (and_congr_left' hkeys)).trans
    ⟨fun h => ⟨h.1, h.2⟩, fun h => ⟨h.1, h.2⟩⟩

theorem reported_parseRegistry {path : String} {data : Table} :
    Reported (parseRegistry py path data) ↔ RegistrySafe py data := by
  rw [← works_readRegistry]
  unfold parseRegistry
  constructor
  · intro h
    split at h
    · next x hx => exact absurd rfl (h x)
    · next hr => exact ⟨_, hr⟩
    · next hr => exact ⟨_, hr⟩
  · rintro ⟨⟨entries, errors⟩, hr⟩ e
    rw [hr]
    cases errors <;> exact nofun

/-! ## Files of the configuration -/

/-- A file is not there to read, or has a text whose document, if it is one, is safe. -/
def ContentSafe (loads : Parser) (safe : Table → Prop) (file : FileRead) : Prop :=
  ∀ content, file = .bytes content →
    ∃ text, decodeUtf8 content = .ok text ∧ ∀ data, loads text = .ok data → safe data

theorem reported_loadToml {α : Type} {loads : Parser} {path : String} {file : FileRead}
    {parse : Table → Except (Raised String) α} {safe : Table → Prop}
    (hparse : ∀ data, Reported (parse data) ↔ safe data) :
    Reported (loadToml loads path file >>= parse) ↔ ContentSafe loads safe file := by
  unfold loadToml ContentSafe
  cases file with
  | osError exc => exact iff_of_true nofun nofun
  | bytes content =>
    simp only [FileRead.bytes.injEq, forall_eq']
    cases hdecode : decodeUtf8 content with
    | error x => exact iff_of_false (fun h => h x rfl) (fun ⟨_, h, _⟩ => nomatch h)
    | ok text =>
      simp only [Except.ok.injEq, exists_eq_left']
      cases hloads : loads text with
      | error exc => exact iff_of_true nofun nofun
      | ok data => exact (hparse data).trans (by simp)

theorem reported_loadRegistry {loads : Parser} {path : String} {file : FileRead} :
    Reported (loadRegistry py loads path file) ↔ ContentSafe loads (RegistrySafe py) file :=
  reported_loadToml fun _ => reported_parseRegistry

theorem reported_loadProfile {loads : Parser} {dir : ProfilesDir} {name : String} :
    Reported (loadProfile py loads dir name) ↔ (profileNameRe name = true →
      ∀ file, dir.file name = some file → ContentSafe loads (ProfileSafe py) file) := by
  unfold loadProfile
  split_ifs with hname
  · cases hfile : dir.file name with
    | none => exact iff_of_true nofun nofun
    | some file =>
      exact (reported_loadToml fun _ => reported_parseProfile).trans (by simp [hname])
  · exact iff_of_true nofun fun h => absurd h hname

theorem works_size {key : String} {s : Section} :
    Works (size py key s) ↔ FieldSafe py key .size s.view := by
  constructor
  · rintro ⟨r, hr⟩
    by_contra hno
    obtain ⟨x, hx⟩ := (size_yields key).raises s hno
    exact nomatch hr.symm.trans hx
  · intro h
    obtain ⟨s', hs', -⟩ := (size_yields key).returns s h
    exact ⟨_, hs'⟩

end

/-- **When a bad configuration is reported.** Only a `ConfigError` escapes exactly if the bytes are
a text, and in the document that it stands for every size and number can be converted, and every
value that a message is about has a text. -/
theorem always_reported_iff (py : Texts) (loads : Parser) :
    (∀ dir name, Reported (loadProfile py loads dir name) ↔ (profileNameRe name = true →
      ∀ file, dir.file name = some file → ContentSafe loads (ProfileSafe py) file)) ∧
    (∀ path file, Reported (loadRegistry py loads path file) ↔
      ContentSafe loads (RegistrySafe py) file) ∧
    (∀ name path data, Reported (parseProfile py name path data) ↔ ProfileSafe py data) ∧
    (∀ path data, Reported (parseRegistry py path data) ↔ RegistrySafe py data) ∧
    (∀ label value, Works (parseFiles py label value) ↔ FilesSafe py value) ∧
    ∀ key s, Works (Reader.size py key s) ↔ Reader.FieldSafe py key .size s.view :=
  ⟨fun _ _ => reported_loadProfile, fun _ _ => reported_loadRegistry,
    fun _ _ _ => reported_parseProfile, fun _ _ => reported_parseRegistry,
    fun _ _ => works_parseFiles, fun _ _ => works_size⟩

theorem digitValue?_nine : digitValue? (codePoint '9') = some 9 := by decide +kernel

theorem decimalValue_nines (n : ℕ) :
    decimalValue (List.replicate n '9') [] = ((10 ^ n - 1 : ℕ) : ℚ) := by
  have hfold : ∀ k, (List.replicate n '9').foldl
      (fun n c => 10 * n + (digitValue? (codePoint c)).getD 0) k = (k + 1) * 10 ^ n - 1 := by
    induction n with
    | zero => intro k; simp
    | succ n ih =>
      intro k
      rw [List.replicate_succ, List.foldl_cons, ih, digitValue?_nine, Option.getD_some, pow_succ]
      congr 1
      ring
  unfold decimalValue
  rw [List.append_nil, hfold, List.length_nil, pow_zero, div_one, zero_add, one_mul]

/-- Nines and a unit are a size. -/
theorem sizeRe_nines {n : ℕ} (h : 0 < n) : sizeRe (String.ofList (List.replicate n '9') ++ "GB") =
    some (((10 ^ n - 1 : ℕ) : ℚ), ['G', 'B']) := by
  have htext : (String.ofList (List.replicate n '9') ++ "GB").toList =
      List.replicate n '9' ++ ['G', 'B'] := by
    rw [String.toList_append, String.toList_ofList]
    rfl
  have hdigits : ∀ c ∈ List.replicate n '9', isDecimal c = true := by
    intro c hc
    rw [List.eq_of_mem_replicate hc, isDecimal, digitValue?_nine]
    rfl
  have hspace : (List.replicate n '9' ++ ['G', 'B']).dropWhile isSpaceChar =
      List.replicate n '9' ++ ['G', 'B'] := by
    obtain ⟨m, rfl⟩ := Nat.exists_eq_add_one_of_ne_zero h.ne'
    exact List.dropWhile_cons_of_neg (by decide)
  have hspan : (List.replicate n '9' ++ ['G', 'B']).span isDecimal =
      (List.replicate n '9', ['G', 'B']) := by
    have htake : ['G', 'B'].takeWhile isDecimal = [] := by decide +kernel
    have hdrop : ['G', 'B'].dropWhile isDecimal = ['G', 'B'] := by decide +kernel
    rw [List.span_eq_takeWhile_dropWhile, List.takeWhile_append_of_pos hdigits,
      List.dropWhile_append_of_pos hdigits, htake, hdrop, List.append_nil]
  have hempty : (List.replicate n '9').isEmpty = false := by
    rw [List.isEmpty_eq_false_iff, ne_eq, List.replicate_eq_nil_iff]
    exact h.ne'
  unfold sizeRe
  rw [htext, hspace, hspan]
  dsimp only
  rw [hempty]
  exact congrArg (fun q => some (q, ['G', 'B'])) (decimalValue_nines n)

/-- A number that no float can hold. -/
theorem parseSize_inf {text : String} {q : ℚ} (hsize : sizeRe text = some (q, ['G', 'B']))
    (hinf : PyFloat.ofRat q = .inf) : parseSize text = .error .overflowError := by
  have hunit : sizeUnits.find? (fun u => u.1.toList = ['G', 'B'].map Char.toUpper) =
      some ("GB", 1024 ^ 3) := by decide +kernel
  unfold parseSize
  rw [hsize]
  dsimp only
  rw [hunit]
  dsimp only
  rw [hinf]

/-- A profile with a size of 310 digits. -/
def hugeSize : Table :=
  [("backend",
    .table [("metal_memory_limit", .str (String.ofList (List.replicate 310 '9') ++ "GB"))])]

/-- A byte that is no UTF-8 and a size that is infinite escape as other exceptions. -/
theorem not_always_reported :
    (¬ ∀ (py : Texts) (loads : Parser) path content,
      Reported (loadRegistry py loads path (.bytes content))) ∧
    ¬ ∀ (py : Texts) name path data, Reported (parseProfile py name path data) := by
  constructor
  · intro h
    have hread : loadRegistry ⟨fun _ => .ok "", fun _ => .ok ""⟩ (fun _ => .ok []) "models.toml"
        (.bytes [0xFF]) = .error (.builtin .unicodeDecodeError) := by decide +kernel
    exact h _ _ _ _ _ hread
  · intro h
    have hsafe :=
      reported_parseProfile.1 (h ⟨fun _ => .ok "", fun _ => .ok ""⟩ "huge" "huge.toml" hugeSize)
    have hfields := hsafe.sections ("backend", backendKinds) (by simp [sectionKinds]) _ rfl
    have hlimit := hfields ("metal_memory_limit", .size) (by simp [backendKinds]) _ rfl
    have hinf : PyFloat.ofRat ((10 ^ 310 - 1 : ℕ) : ℚ) = .inf := by decide +kernel
    exact parseSize_ne_overflow_iff.2 hlimit.1 (parseSize_inf (sizeRe_nines (by decide)) hinf)

end AgentLab.Config
