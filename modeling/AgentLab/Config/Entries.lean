import AgentLab.Config.Registry
import AgentLab.Config.Valid

/-!
# Accepted registries

What `parse_registry` accepts, and what it returns then, as `Describes` says it of profiles: an
entry is in a table (`ModelEntry.In`) with its files (`FilesIn`), and the entries of a document are
those of its tables, no two with one id and none with less space than its files need
(`parseRegistry_eq_ok`).
-/

namespace AgentLab.Config

open Python Reader

variable {py : Texts}

/-! ## Files -/

/-- The table of a file. -/
structure FileIn (fields : List (String × Toml)) (f : ModelFile) : Prop where
  name : fields.lookup "name" = some (.str f.name)
  size : fields.lookup "size" = some (.int f.size)
  sha256 : fields.lookup "sha256" = some (.str f.sha256)
  only : OnlyFields fields fileFields

/-- The checks of a file. -/
structure ModelFile.Valid (f : ModelFile) : Prop where
  name : fileNameProblem f.name = none
  sha256 : sha256Re f.sha256 = true

def FileItem (item : Toml) (f : ModelFile) : Prop :=
  ∃ fields, item = .table fields ∧ FileIn fields f ∧ f.Valid

/-- The list of files. -/
def FilesIn (value : Option Toml) (files : List ModelFile) : Prop :=
  ∃ items, value = some (.array items) ∧ items ≠ [] ∧ List.Forall₂ FileItem items files ∧
    (files.map ModelFile.name).Nodup

theorem forall_mem_of_forall₂ {α β : Type} {R : α → β → Prop} {p : β → Prop}
    (hp : ∀ a b, R a b → p b) {as : List α} {bs : List β} (h : List.Forall₂ R as bs) :
    ∀ b ∈ bs, p b := by
  induction h with
  | nil => exact nofun
  | cons hab _ ih => exact List.forall_mem_cons.2 ⟨hp _ _ hab, ih⟩

theorem FilesIn.valid {value : Option Toml} {files : List ModelFile} (h : FilesIn value files) :
    ∀ f ∈ files, f.Valid := by
  obtain ⟨items, -, -, hitems, -⟩ := h
  exact forall_mem_of_forall₂ (fun _ _ ⟨_, _, _, hvalid⟩ => hvalid) hitems

theorem nameProblems_nil {label : String} {seen : List String} {value : Option Toml} :
    nameProblems py label seen value = .ok [] ↔ ∃ name, fileName? seen value = some name := by
  unfold nameProblems fileName?
  split
  · next name =>
    cases hproblem : fileNameProblem name with
    | some problem =>
      refine iff_of_false (fun h => ?_) (by simp)
      obtain ⟨_, -, h⟩ := Except.bind_eq_ok.1 h
      cases h
    | none => by_cases hseen : name ∈ seen <;> simp [hseen]
  · simp

theorem sizeProblems_nil {label : String} {value : Option Toml} :
    sizeProblems py label value = .ok [] ↔ ∃ size, fileSize? value = some size := by
  unfold sizeProblems
  rw [← Option.isSome_iff_exists]
  split_ifs with h
  · exact iff_of_true rfl h
  · refine iff_of_false (fun hnil => ?_) h
    obtain ⟨_, -, hnil⟩ := Except.bind_eq_ok.1 hnil
    cases hnil

theorem shaProblems_nil {label : String} {value : Option Toml} :
    shaProblems py label value = .ok [] ↔ ∃ sha, fileSha? value = some sha := by
  unfold shaProblems
  rw [← Option.isSome_iff_exists]
  split_ifs with h
  · exact iff_of_true rfl h
  · refine iff_of_false (fun hnil => ?_) h
    obtain ⟨_, -, hnil⟩ := Except.bind_eq_ok.1 hnil
    cases hnil

theorem fileName?_some {seen : List String} {value : Option Toml} {name : String} :
    fileName? seen value = some name ↔
      value = some (.str name) ∧ fileNameProblem name = none ∧ name ∉ seen := by
  unfold fileName?
  split
  · next text =>
    rw [Option.ite_none_right_eq_some]
    simp only [Bool.and_eq_true, Option.isNone_iff_eq_none, decide_eq_true_eq, Option.some.injEq,
      Toml.str.injEq]
    constructor
    · rintro ⟨h, rfl⟩
      exact ⟨rfl, h⟩
    · rintro ⟨rfl, h⟩
      exact ⟨h, rfl⟩
  · next hno => exact iff_of_false nofun fun h => hno name h.1

theorem fileSize?_some {value : Option Toml} {size : ℕ} :
    fileSize? value = some size ↔ value = some (.int size) := by
  unfold fileSize?
  split
  · next n =>
    split_ifs with hn
    · simp only [Option.some.injEq, Toml.int.injEq, false_iff]
      omega
    · simp only [Option.some.injEq, Toml.int.injEq]
      omega
  · next hno => exact iff_of_false nofun fun h => hno _ h

theorem fileSha?_some {value : Option Toml} {sha : String} :
    fileSha? value = some sha ↔ value = some (.str sha) ∧ sha256Re sha = true := by
  unfold fileSha?
  split
  · next text =>
    rw [Option.ite_none_right_eq_some]
    simp only [Option.some.injEq, Toml.str.injEq]
    constructor
    · rintro ⟨h, rfl⟩
      exact ⟨rfl, h⟩
    · rintro ⟨rfl, h⟩
      exact ⟨h, rfl⟩
  · next hno => exact iff_of_false nofun fun h => hno sha h.1

/-- **One round of the loop over the files.** -/
theorem readFile_iff {label : String} {files files' : List ModelFile} {item : Toml} :
    readFile py label files item = .ok (files', []) ↔
      ∃ f, FileItem item f ∧ f.name ∉ files.map ModelFile.name ∧ files' = files ++ [f] := by
  cases item with
  | table fields =>
    have hunknown : ((unknown (fields.map Prod.fst) fileFields).map fun key =>
        label ++ " " ++ key ++ ": unknown field") = [] ↔ OnlyFields fields fileFields :=
      List.map_eq_nil_iff.trans unknown_eq_nil
    constructor
    · intro h
      obtain ⟨name, hname, h⟩ := Except.bind_eq_ok.1 h
      obtain ⟨size, hsize, h⟩ := Except.bind_eq_ok.1 h
      obtain ⟨sha, hsha, h⟩ := Except.bind_eq_ok.1 h
      obtain ⟨hfiles, hnil⟩ := Prod.mk.inj (Except.ok.inj h)
      simp only [List.append_eq_nil_iff] at hnil
      obtain ⟨⟨⟨honly, rfl⟩, rfl⟩, rfl⟩ := hnil
      obtain ⟨name, hname⟩ := nameProblems_nil.1 hname
      obtain ⟨size, hsize⟩ := sizeProblems_nil.1 hsize
      obtain ⟨sha, hsha⟩ := shaProblems_nil.1 hsha
      have hfile : file? (files.map ModelFile.name) fields = some ⟨name, size, sha⟩ := by
        unfold file?
        rw [hname, hsize, hsha]
        rfl
      rw [hfile] at hfiles
      obtain ⟨hname, hvalid, hseen⟩ := fileName?_some.1 hname
      obtain ⟨hsha, hhex⟩ := fileSha?_some.1 hsha
      exact ⟨⟨name, size, sha⟩, ⟨fields, rfl,
        ⟨hname, fileSize?_some.1 hsize, hsha, hunknown.1 honly⟩, ⟨hvalid, hhex⟩⟩, hseen,
        hfiles.symm⟩
    · rintro ⟨f, ⟨_, ⟨⟩, hin, hvalid⟩, hseen, rfl⟩
      have hname := fileName?_some.2 ⟨hin.name, hvalid.name, hseen⟩
      have hsize := fileSize?_some.2 hin.size
      have hsha := fileSha?_some.2 ⟨hin.sha256, hvalid.sha256⟩
      have hfile : file? (files.map ModelFile.name) fields = some f := by
        unfold file?
        rw [hname, hsize, hsha]
        rfl
      refine Except.bind_eq_ok.2 ⟨[], nameProblems_nil.2 ⟨_, hname⟩, ?_⟩
      refine Except.bind_eq_ok.2 ⟨[], sizeProblems_nil.2 ⟨_, hsize⟩, ?_⟩
      refine Except.bind_eq_ok.2 ⟨[], shaProblems_nil.2 ⟨_, hsha⟩, ?_⟩
      rw [hunknown.2 hin.only, hfile]
      rfl
  | _ =>
    refine iff_of_false (fun h => ?_) ?_
    · exact nomatch (Prod.mk.inj (Except.ok.inj h)).2
    · rintro ⟨f, ⟨_, h, -⟩, -⟩
      cases h

theorem readFiles_iff {label : String} {items : List Toml} :
    ∀ {index : ℕ} {files files' : List ModelFile}, (files.map ModelFile.name).Nodup →
      (readFiles py label index items files = .ok (files', []) ↔
        ∃ more, files' = files ++ more ∧ List.Forall₂ FileItem items more ∧
          (files'.map ModelFile.name).Nodup) := by
  induction items with
  | nil =>
    intro index files files' hnodup
    constructor
    · intro h
      obtain ⟨rfl, -⟩ := Prod.mk.inj (Except.ok.inj h)
      exact ⟨[], (List.append_nil _).symm, .nil, hnodup⟩
    · rintro ⟨more, rfl, hmore, -⟩
      cases hmore
      rw [List.append_nil]
      rfl
  | cons item items ih =>
    intro index files files' hnodup
    have hadd : ∀ f : ModelFile, f.name ∉ files.map ModelFile.name →
        ((files ++ [f]).map ModelFile.name).Nodup := by
      intro f hf
      rw [List.map_append]
      exact List.nodup_append'.2 ⟨hnodup, List.nodup_singleton _, by simpa using hf⟩
    constructor
    · intro h
      obtain ⟨⟨files₁, p₁⟩, h₁, h⟩ := Except.bind_eq_ok.1 h
      obtain ⟨⟨files₂, p₂⟩, h₂, h⟩ := Except.bind_eq_ok.1 h
      obtain ⟨rfl, hnil⟩ := Prod.mk.inj (Except.ok.inj h)
      obtain ⟨rfl, rfl⟩ := List.append_eq_nil_iff.1 hnil
      obtain ⟨f, hf, hseen, rfl⟩ := readFile_iff.1 h₁
      obtain ⟨more, rfl, hmore, hall⟩ := (ih (hadd f hseen)).1 h₂
      exact ⟨f :: more, by simp, .cons hf hmore, hall⟩
    · rintro ⟨more, rfl, hmore, hall⟩
      cases hmore with
      | @cons _ f _ more hf hmore =>
        have hseen : f.name ∉ files.map ModelFile.name := by
          rw [List.map_append, List.map_cons] at hall
          exact fun hmem => (List.nodup_append'.1 hall).2.2 hmem List.mem_cons_self
        refine Except.bind_eq_ok.2 ⟨(files ++ [f], []), readFile_iff.2 ⟨f, hf, hseen, rfl⟩, ?_⟩
        refine Except.bind_eq_ok.2 ⟨(files ++ f :: more, []),
          (ih (hadd f hseen)).2 ⟨more, by simp, hmore, hall⟩, rfl⟩

theorem parseFiles_iff {label : String} {value : Option Toml} {files : List ModelFile} :
    parseFiles py label value = .ok (files, []) ↔ FilesIn value files := by
  unfold parseFiles FilesIn
  split
  · next item items =>
    refine (@readFiles_iff py label _ 0 [] files List.nodup_nil).trans ⟨?_, ?_⟩
    · rintro ⟨more, rfl, hmore, hall⟩
      exact ⟨item :: items, rfl, List.cons_ne_nil _ _, hmore, hall⟩
    · rintro ⟨_, ⟨⟩, -, hmore, hall⟩
      exact ⟨files, rfl, hmore, hall⟩
  · next hno =>
    refine iff_of_false (fun h => nomatch (Prod.mk.inj (Except.ok.inj h)).2) ?_
    rintro ⟨items, rfl, hne, -⟩
    obtain ⟨item, items, rfl⟩ := List.exists_cons_of_ne_nil hne
    exact hno item items rfl

/-! ## Entries -/

def entryFields : List String := ["id", "description", "repo", "revision", "disk_space", "files"]

/-- The table of an entry. -/
structure ModelEntry.In (t : List (String × Toml)) (e : ModelEntry) : Prop where
  id : StringAt t "id" idRe e.id
  description : StringAt t "description" (fun _ => true) e.description
  repo : StringAt t "repo" repoRe e.repo
  revision : StringAt t "revision" revisionRe e.revision
  diskSpace : SizeAt t "disk_space" e.diskSpace
  files : FilesIn (t.lookup "files") e.files
  only : OnlyFields t entryFields

theorem checkId_none (v : String) : checkId v = none ↔ idRe v = true := by
  unfold checkId
  split_ifs <;> simp_all

theorem checkRepo_none (v : String) : checkRepo v = none ↔ repoRe v = true := by
  unfold checkRepo
  split_ifs <;> simp_all

theorem checkRevision_none (v : String) : checkRevision v = none ↔ revisionRe v = true := by
  unfold checkRevision
  split_ifs <;> simp_all

theorem Reader.Exact.see (key : String) : Exact [key] (fun _ _ => True)
    (modify fun s => { s with seen := s.seen ++ [key] } : Reader Unit) where
  sound := by
    rintro s _ _ ⟨⟩ he
    exact ⟨he, rfl, fun _ => trivial⟩
  iff s _ he v s' := by
    constructor
    · rintro ⟨⟨⟩, -⟩
      exact ⟨trivial, rfl⟩
    · rintro ⟨-, rfl⟩
      exact ⟨rfl, he⟩

theorem Reader.Exact.report (problems : List String) : Exact [] (fun _ _ => problems = [])
    (modify fun s => { s with errors := s.errors ++ problems } : Reader Unit) where
  sound := by
    rintro s _ _ ⟨⟩ he
    exact ⟨(List.append_eq_nil_iff.1 he).1, rfl, fun _ => trivial⟩
  iff s he hs v s' := by
    rw [read_nil]
    constructor
    · rintro ⟨⟨⟩, hnil⟩
      obtain rfl := (List.append_eq_nil_iff.1 hnil).2
      have hsame : { s with errors := s.errors ++ [] } = s := by rw [List.append_nil]
      exact ⟨rfl, hsame⟩
    · rintro ⟨rfl, rfl⟩
      have hsame : { s' with errors := s'.errors ++ [] } = s' := by rw [List.append_nil]
      exact ⟨congrArg (fun s => Except.ok (v, s)) hsame, hs⟩

/-- A reading that looks at the section itself. -/
theorem Reader.Exact.state {α : Type} {keys : List String} {P : Section → Section → α → Prop}
    {f : Section → Reader α} (hsound : ∀ s, Sound (fun _ => True) (f s))
    (h : ∀ s, s.valid = true → Exact keys (P s) (f s)) :
    Exact keys (fun s => P s s) (getThe Section >>= f) where
  sound s := hsound s s
  iff s hs := (h s hs).iff s hs

/-- The end of `readEntry`, from the files on. -/
theorem readFilesOf_exact (label : String) (value : Option Toml)
    (mk : List ModelFile → ModelEntry) :
    Exact [] (fun s e => ∃ files, FilesIn value files ∧ OnlyFields s.table s.seen ∧ e = mk files)
      (do
        let (files, problems) ← (liftM (parseFiles py label value) : Reader _)
        modify fun s => { s with errors := s.errors ++ problems }
        let files ← pure files
        finish
        return mk files) := by
  refine Exact.congr (.bind (.lift _) fun r => .bind (.report r.2) fun _ => .bind (.pure r.1)
    fun files => .bind finish_exact fun _ => .pure (mk files)) fun s e => ?_
  simp only [read_nil]
  constructor
  · rintro ⟨⟨files, problems⟩, hfiles, _, hnil, _, rfl, _, honly, rfl⟩
    obtain rfl : problems = [] := hnil
    exact ⟨_, parseFiles_iff.1 hfiles, honly, rfl⟩
  · rintro ⟨files, hfiles, honly, rfl⟩
    exact ⟨(files, []), parseFiles_iff.2 hfiles, (), rfl, files, rfl, (), honly, rfl⟩

theorem readEntry_takes (label : String) : Takes (readEntry py label) ModelEntry.In := by
  unfold readEntry
  refine Exact.takes (.bind (string_exact _ _ checkId_none) fun id =>
    .bind (string_exact _ (fun _ => true) fun _ => by simp) fun description =>
    .bind (string_exact _ _ checkRepo_none) fun repo =>
    .bind (string_exact _ _ checkRevision_none) fun revision =>
    .bind (size_exact _) fun diskSpace => .bind (.see "files") fun _ =>
    @Exact.state _ [] (fun s t e => ∃ files, FilesIn (s.table.lookup "files") files ∧
      OnlyFields t.table t.seen ∧ e = ⟨id, description, repo, revision, diskSpace, files⟩)
      _ (fun s => ?_) fun s hs => ?_) fun name t e => ?_
  · cases s.valid with
    | true => exact (readFilesOf_exact label _ _).sound
    | false =>
      exact .bind (P := fun _ => True) (.pure trivial) fun _ =>
        .bind finish_sound fun _ => .pure fun _ _ => trivial
  · rw [hs]
    exact readFilesOf_exact label _ _
  · constructor
    · rintro ⟨_, h₁, _, h₂, _, h₃, _, h₄, _, h₅, _, -, files, hfiles, honly, rfl⟩
      exact ⟨h₁, h₂, h₃, h₄, h₅, hfiles, honly⟩
    · intro h
      exact ⟨_, h.id, _, h.description, _, h.repo, _, h.revision, _, h.diskSpace, (), trivial,
        e.files, h.files, h.only, rfl⟩

/-! ## Registries -/

def EntryItem (item : Toml) (e : ModelEntry) : Prop := ∃ t, item = .table t ∧ e.In t

/-- The document describes the entries. -/
structure RegistryIn (data : List (String × Toml)) (entries : List ModelEntry) : Prop where
  items : ∃ raw, (data.lookup "model").getD (.array []) = .array raw ∧
    List.Forall₂ EntryItem raw entries
  ids : (entries.map ModelEntry.id).Nodup
  space : ∀ e ∈ entries, e.tooSmall = false
  only : OnlyFields data ["model"]

/-- Every entry of a registry is in a table. -/
theorem RegistryIn.table {data : List (String × Toml)} {entries : List ModelEntry}
    (h : RegistryIn data entries) : ∀ e ∈ entries, ∃ t, e.In t := by
  obtain ⟨raw, -, hitems⟩ := h.items
  exact forall_mem_of_forall₂ (fun _ _ ⟨t, _, ht⟩ => ⟨t, ht⟩) hitems

/-- What a round does with an entry that was read. -/
def addEntry (py : Texts) (label : String) (entries : List ModelEntry) (entry : ModelEntry)
    (errors : List String) : Except PyExc (List ModelEntry × List String) :=
  if entry.id ∈ entries.map ModelEntry.id then
    return (entries, errors ++ ["[" ++ label ++ "] id: listed twice"])
  else do
    let space ← spaceProblems py label entry
    return (if entry.id = "" then entries else entries ++ [entry], errors ++ space)

theorem readItem_eq {index : ℕ} {item : Toml} {entries : List ModelEntry} {errors : List String} :
    readItem py index item entries errors = (do
      let label ← entryLabel py index item
      let r ← readEntry py label (Section.new label (some item) errors)
      addEntry py label entries r.1 r.2.errors) := rfl

theorem spaceProblems_nil {label : String} {entry : ModelEntry} :
    spaceProblems py label entry = .ok [] ↔ entry.tooSmall = false := by
  unfold spaceProblems
  cases entry.tooSmall with
  | false => exact iff_of_true rfl rfl
  | true =>
    refine iff_of_false (fun h => ?_) nofun
    obtain ⟨_, -, h⟩ := Except.bind_eq_ok.1 h
    obtain ⟨_, -, h⟩ := Except.bind_eq_ok.1 h
    cases h

theorem addEntry_iff {label : String} {entries entries' : List ModelEntry} {e : ModelEntry}
    {errors : List String} : addEntry py label entries e errors = .ok (entries', []) ↔
      errors = [] ∧ e.id ∉ entries.map ModelEntry.id ∧ e.tooSmall = false ∧
        entries' = if e.id = "" then entries else entries ++ [e] := by
  unfold addEntry
  by_cases hmem : e.id ∈ entries.map ModelEntry.id
  · rw [if_pos hmem]
    refine iff_of_false (fun h => ?_) fun h => h.2.1 hmem
    exact List.append_ne_nil_of_right_ne_nil _ (List.cons_ne_nil _ _)
      (Prod.mk.inj (Except.ok.inj h)).2
  · rw [if_neg hmem]
    constructor
    · intro h
      obtain ⟨space, hspace, h⟩ := Except.bind_eq_ok.1 h
      obtain ⟨hentries, hnil⟩ := Prod.mk.inj (Except.ok.inj h)
      obtain ⟨rfl, rfl⟩ := List.append_eq_nil_iff.1 hnil
      exact ⟨rfl, hmem, spaceProblems_nil.1 hspace, hentries.symm⟩
    · rintro ⟨rfl, -, hspace, rfl⟩
      exact Except.bind_eq_ok.2 ⟨[], spaceProblems_nil.2 hspace, rfl⟩

theorem entryLabel_ok {index : ℕ} {t : List (String × Toml)} {e : ModelEntry} (h : e.In t) :
    entryLabel py index (.table t) = .ok ("model " ++ e.id) := by
  have hlabel : entryLabel py index (.table t) = do
      return "model " ++ (← pyStr py (t.lookup "id")) := rfl
  rw [hlabel, h.id.1]
  rfl

/-- **One round of the loop over the entries.** -/
theorem readItem_iff {index : ℕ} {item : Toml} {entries entries' : List ModelEntry}
    {errors : List String} : readItem py index item entries errors = .ok (entries', []) ↔
      errors = [] ∧ ∃ e, EntryItem item e ∧ e.id ∉ entries.map ModelEntry.id ∧
        e.tooSmall = false ∧ entries' = entries ++ [e] := by
  rw [readItem_eq]
  constructor
  · intro h
    obtain ⟨label, -, h⟩ := Except.bind_eq_ok.1 h
    obtain ⟨⟨e, s⟩, hread, h⟩ := Except.bind_eq_ok.1 h
    obtain ⟨hs, hmem, hspace, rfl⟩ := addEntry_iff.1 h
    obtain ⟨rfl, t, ⟨⟩, hin⟩ := ((readEntry_takes label).new_iff _ _ _ _).1 ⟨s, hread, hs⟩
    refine ⟨rfl, e, ⟨t, rfl, hin⟩, hmem, hspace, ?_⟩
    rw [if_neg hin.id.2.1]
  · rintro ⟨rfl, e, ⟨t, rfl, hin⟩, hmem, hspace, rfl⟩
    refine Except.bind_eq_ok.2 ⟨_, entryLabel_ok hin, ?_⟩
    obtain ⟨s, hread, hs⟩ := ((readEntry_takes ("model " ++ e.id)).new_iff _ _ [] _).2
      ⟨rfl, t, rfl, hin⟩
    refine Except.bind_eq_ok.2 ⟨(e, s), hread, addEntry_iff.2 ⟨hs, hmem, hspace, ?_⟩⟩
    rw [if_neg hin.id.2.1]

theorem readItems_iff {raw : List Toml} :
    ∀ {index : ℕ} {entries entries' : List ModelEntry} {errors : List String},
      readItems py index raw entries errors = .ok (entries', []) ↔
        errors = [] ∧ ∃ more, entries' = entries ++ more ∧ List.Forall₂ EntryItem raw more ∧
          (more.map ModelEntry.id).Nodup ∧
            ∀ e ∈ more, e.id ∉ entries.map ModelEntry.id ∧ e.tooSmall = false := by
  induction raw with
  | nil =>
    intro index entries entries' errors
    constructor
    · intro h
      obtain ⟨rfl, rfl⟩ := Prod.mk.inj (Except.ok.inj h)
      exact ⟨rfl, [], (List.append_nil _).symm, .nil, List.nodup_nil, nofun⟩
    · rintro ⟨rfl, more, rfl, hmore, -⟩
      cases hmore
      rw [List.append_nil]
      rfl
  | cons item raw ih =>
    intro index entries entries' errors
    have hstep : readItems py index (item :: raw) entries errors =
          readItem py index item entries errors >>= fun r =>
            readItems py (index + 1) raw r.1 r.2 := rfl
    rw [hstep, Except.bind_eq_ok]
    constructor
    · rintro ⟨⟨entries₁, errors₁⟩, h₁, h⟩
      obtain ⟨rfl, more, rfl, hmore, hnodup, hall⟩ := ih.1 h
      obtain ⟨rfl, e, he, hmem, hspace, rfl⟩ := readItem_iff.1 h₁
      simp only [List.map_append, List.map_singleton, List.mem_append, List.mem_singleton,
        not_or] at hall
      refine ⟨rfl, e :: more, by simp, .cons he hmore, List.nodup_cons.2 ⟨fun hin => ?_, hnodup⟩,
        ?_⟩
      · obtain ⟨e', he', hid⟩ := List.mem_map.1 hin
        exact (hall e' he').1.2 hid
      · exact List.forall_mem_cons.2
          ⟨⟨hmem, hspace⟩, fun e' he' => ⟨(hall e' he').1.1, (hall e' he').2⟩⟩
    · rintro ⟨rfl, more, rfl, hmore, hnodup, hall⟩
      cases hmore with
      | @cons _ e _ more he hmore =>
        obtain ⟨hid, hnodup⟩ := List.nodup_cons.1 hnodup
        obtain ⟨⟨hmem, hspace⟩, hall⟩ := List.forall_mem_cons.1 hall
        refine ⟨(entries ++ [e], []), readItem_iff.2 ⟨rfl, e, he, hmem, hspace, rfl⟩, ih.2
          ⟨rfl, more, by simp, hmore, hnodup, fun e' he' => ⟨fun hin => ?_, (hall e' he').2⟩⟩⟩
        rw [List.map_append, List.map_singleton, List.mem_append, List.mem_singleton] at hin
        rcases hin with hin | hin
        · exact (hall e' he').1 hin
        · exact hid (hin ▸ List.mem_map_of_mem he')

theorem mapM_eq_nil {α β ε : Type} {f : α → Except ε β} {l : List α} :
    l.mapM f = .ok [] ↔ l = [] := by
  cases l with
  | nil => exact iff_of_true rfl rfl
  | cons a l =>
    refine iff_of_false (fun h => ?_) (List.cons_ne_nil a l)
    rw [List.mapM_cons] at h
    obtain ⟨_, -, h⟩ := Except.bind_eq_ok.1 h
    obtain ⟨_, -, h⟩ := Except.bind_eq_ok.1 h
    cases h

/-- **Which registries are accepted**, and with what entries. -/
theorem parseRegistry_eq_ok {path : String} {data : List (String × Toml)}
    {entries : List ModelEntry} :
    parseRegistry py path data = .ok entries ↔ RegistryIn data entries := by
  have hread : parseRegistry py path data = .ok entries ↔
      readRegistry py data = .ok (entries, []) := by
    unfold parseRegistry
    constructor
    · intro h
      split at h
      · cases h
      · next hr => rw [hr, Except.ok.inj h]
      · cases h
    · intro h
      rw [h]
  rw [hread]
  unfold readRegistry
  rw [Except.bind_eq_ok]
  constructor
  · rintro ⟨unknown, hunknown, h⟩
    split at h
    · next raw hraw =>
      obtain ⟨rfl, more, rfl, hmore, hnodup, hall⟩ := readItems_iff.1 h
      exact ⟨⟨raw, hraw, hmore⟩, hnodup, fun e he => (hall e he).2,
        unknown_eq_nil.1 (mapM_eq_nil.1 hunknown)⟩
    · exact absurd (Prod.mk.inj (Except.ok.inj h)).2
        (List.append_ne_nil_of_right_ne_nil _ (List.cons_ne_nil _ _))
  · intro h
    obtain ⟨raw, hraw, hmore⟩ := h.items
    refine ⟨[], mapM_eq_nil.2 (unknown_eq_nil.2 h.only), ?_⟩
    rw [hraw]
    exact readItems_iff.2 ⟨rfl, entries, rfl, hmore, h.ids, fun e he => ⟨nofun, h.space e he⟩⟩

def emptyFile (name : String) : ModelFile := ⟨name, 0, "".pushn '0' 64⟩

/-- An entry of one empty file. -/
def tinyEntry : ModelEntry where
  id := "tiny"
  description := "A model."
  repo := "owner/tiny"
  revision := "".pushn '0' 40
  diskSpace := 1024 ^ 3
  files := [emptyFile "config.json"]

/-- And one of two, one of them in a directory. -/
def nestedEntry : ModelEntry :=
  { tinyEntry with
    id := "nested"
    files := [emptyFile "config.json", emptyFile "gguf/config.json"] }

/-- The table of such an entry. -/
def emptyFiles (id : String) (names : List String) : Toml :=
  .table [("id", .str id), ("description", .str "A model."), ("repo", .str "owner/tiny"),
    ("revision", .str ("".pushn '0' 40)), ("disk_space", .str "1.0GB"),
    ("files", .array (names.map fun name => .table [("name", .str name), ("size", .int 0),
      ("sha256", .str ("".pushn '0' 64))]))]

theorem tiny_item : EntryItem (emptyFiles "tiny" ["config.json"]) tinyEntry := by
  refine ⟨_, rfl, ⟨rfl, by decide, by decide⟩, ⟨rfl, by decide, rfl⟩, ⟨rfl, by decide, by decide⟩,
    ⟨rfl, by decide, by decide⟩, ⟨"1.0GB", rfl, by decide +kernel, by decide⟩, ?_, by decide⟩
  exact ⟨_, rfl, List.cons_ne_nil _ _, .cons ⟨_, rfl, ⟨rfl, rfl, rfl, by decide⟩, rfl, rfl⟩ .nil,
    List.nodup_singleton _⟩

theorem nested_item :
    EntryItem (emptyFiles "nested" ["config.json", "gguf/config.json"]) nestedEntry := by
  refine ⟨_, rfl, ⟨rfl, by decide, by decide⟩, ⟨rfl, by decide, rfl⟩, ⟨rfl, by decide, by decide⟩,
    ⟨rfl, by decide, by decide⟩, ⟨"1.0GB", rfl, by decide +kernel, by decide⟩, ?_, by decide⟩
  exact ⟨_, rfl, List.cons_ne_nil _ _, .cons ⟨_, rfl, ⟨rfl, rfl, rfl, by decide⟩, rfl, rfl⟩
    (.cons ⟨_, rfl, ⟨rfl, rfl, rfl, by decide⟩, rfl, rfl⟩ .nil), by decide⟩

def tinyData : List (String × Toml) := [("model", .array [emptyFiles "tiny" ["config.json"]])]

theorem tiny_in : RegistryIn tinyData [tinyEntry] :=
  ⟨⟨_, rfl, .cons tiny_item .nil⟩, List.nodup_singleton _, by decide, by decide⟩

def nestedData : List (String × Toml) :=
  [("model", .array [emptyFiles "tiny" ["config.json"],
    emptyFiles "nested" ["config.json", "gguf/config.json"]])]

theorem nested_in : RegistryIn nestedData [tinyEntry, nestedEntry] :=
  ⟨⟨_, rfl, .cons tiny_item (.cons nested_item .nil)⟩, by decide, by decide, by decide⟩

end AgentLab.Config
