import AgentLab.Config.RegistryFile

/-!
# Locking a model

`alab models lock --write`: `lock_entry` makes an entry of what Hugging Face says of a repository,
and `write_entry` puts it into the registry. `get_entry` then finds just that entry, and the others
as they were (`locked_read_back`).
-/

namespace AgentLab.Config

open Python

/-- A file of a repository. -/
structure Sibling where
  rfilename : String
  size : Option ℕ
  /-- The size and the sha256 of a file in LFS. -/
  lfs : Option (ℕ × String)

structure ModelInfo where
  sha : Option String
  siblings : Option (List Sibling)

/-- What is used of `huggingface_hub` and `hashlib`, with the texts of their exceptions. -/
structure Hub where
  modelInfo : String → String → Except String ModelInfo
  /-- The content of a file at a commit. -/
  content : String → String → String → Except String (List UInt8)
  sha256 : List UInt8 → String

inductive LockFault
  | configError (text : String)
  | hub (exc : String)
  | write (e : WriteFault)
  deriving DecidableEq

/-! ## The entry of a repository -/

section

variable (py : Texts) (hub : Hub)

def hubFault {α : Type} : Except String α → Except (Raised LockFault) α
  | .ok a => .ok a
  | .error exc => .error (.own (.hub exc))

/-- A built-in exception. -/
def raiseBuiltin {α : Type} : Except PyExc α → Except (Raised LockFault) α
  | .ok a => .ok a
  | .error x => .error (.builtin x)

def configError {α : Type} (text : String) : Except (Raised LockFault) α :=
  .error (.own (.configError text))

/-- The size and the sha256 of a file. -/
def contentOf (repo commit : String) (sibling : Sibling) : Except (Raised LockFault) (ℕ × String) :=
  match sibling.lfs with
  | some lfs => return lfs
  | none => do
    let content ← hubFault (hub.content repo sibling.rfilename commit)
    return (content.length, hub.sha256 content)

/-- One round of the loop in `lock_entry`. -/
def lockFile (repo commit : String) (sibling : Sibling) : Except (Raised LockFault) ModelFile :=
  let name := sibling.rfilename
  match fileNameProblem name with
  | some problem => do
    let text ← raiseBuiltin (pyRepr py (some (.str name)))
    configError (repo ++ ": file " ++ text ++ " " ++ problem)
  | none => do
    let file ← contentOf hub repo commit sibling
    match sibling.size with
    | some n =>
      if n ≠ file.1 then do
        let size ← raiseBuiltin (intText file.1)
        let said ← raiseBuiltin (intText n)
        configError (repo ++ ": " ++ name ++ " is " ++ size ++ " bytes, metadata says " ++ said)
      else return ⟨name, file.1, file.2⟩
    | none => return ⟨name, file.1, file.2⟩

/-- `sorted(info.siblings or [], key=lambda s: s.rfilename)`. -/
def sortedSiblings (info : ModelInfo) : List Sibling :=
  (info.siblings.getD []).mergeSort fun a b => a.rfilename ≤ b.rfilename

/-- `parse_size(disk_space_for(total))`. -/
def lockSpace (fuel total : ℕ) : Except (Raised LockFault) (Option ℤ) := do
  match ← raiseBuiltin (diskSpaceFor fuel total) with
  | none => return none
  | some text =>
    match parseSize text with
    | .ok n => return some n
    | .error (.valueError _) => .error (.builtin .valueError)
    | .error .overflowError => .error (.builtin .overflowError)

/-- `info.sha`, if it is a commit hash. -/
def commitOf (info : ModelInfo) : Option String :=
  match info.sha with
  | some commit => if (checkRevision commit).isNone then some commit else none
  | none => none

/-- `lock_entry`; `none` where the fuel runs out. -/
def lockEntry (fuel : ℕ) (id repo revision description : String) :
    Except (Raised LockFault) (Option ModelEntry) :=
  match checkId id, checkRepo repo with
  | some problem, _ => configError problem
  | none, some problem => configError problem
  | none, none => do
    let info ← hubFault (hub.modelInfo repo revision)
    match commitOf info with
    | none => configError ("Hugging Face returned no commit hash for " ++ repo ++ "@" ++ revision)
    | some commit => do
      let files ← (sortedSiblings info).mapM (lockFile py hub repo commit)
      if files = [] then configError (repo ++ "@" ++ commit ++ " has no files")
      else do
        let entry : ModelEntry := ⟨id, description, repo, commit, 0, files⟩
        let space ← lockSpace fuel entry.totalSize
        return space.map entry.withSpace

end

/-! ## The command -/

section

variable (py : Texts) (loads : Parser) (hub : Hub) (fuel : ℕ) (path : String)

/-- A `ConfigError` of the functions called. -/
def raiseConfig {α : Type} : Except (Raised String) α → Except (Raised LockFault) α
  | .ok a => .ok a
  | .error (.own text) => .error (.own (.configError text))
  | .error (.builtin x) => .error (.builtin x)

def raiseWrite {α : Type} : Except (Raised WriteFault) α → Except (Raised LockFault) α
  | .ok a => .ok a
  | .error (.own e) => .error (.own (.write e))
  | .error (.builtin x) => .error (.builtin x)

/-- `load_registry` of a file, or of none, with the text of the `FileNotFoundError`. -/
def loadFile (missing : String) (file : Option FileRead) :
    Except (Raised String) (List ModelEntry) :=
  loadRegistry py loads path (file.getD (.osError missing))

/-- The description that is asked for, or the one of the entry that is there, or the repository. -/
def chosenDescription (missing : String) (file : Option FileRead) (id repo : String) :
    Option String → Except (Raised LockFault) String
  | some description => return description
  | none => do
    let existing ← raiseConfig (loadFile py loads path missing file)
    return ((existing.find? fun e => e.id = id).map ModelEntry.description).getD repo

/-- `_cmd_models_lock` with `--write`: the bytes of the new registry. -/
def modelsLock (missing : String) (file : Option FileRead) (id repo revision : String)
    (description : Option String) :
    Except (Raised LockFault) (Option (List UInt8)) := do
  let description ← chosenDescription py loads path missing file id repo description
  match ← lockEntry py hub fuel id repo revision description with
  | none => return none
  | some entry => raiseWrite (writeEntry py loads fuel path file entry)

/-- `get_entry`. -/
def getEntry (missing : String) (file : Option FileRead) (id : String) :
    Except (Raised String) ModelEntry := do
  let registry ← loadFile py loads path missing file
  match registry.find? fun e => e.id = id with
  | some entry => return entry
  | none =>
    let known := ", ".intercalate ((registry.map ModelEntry.id).mergeSort fun a b => a ≤ b)
    .error (.own ("model \"" ++ id ++ "\" is not in the registry (known: " ++
      (if known = "" then "none" else known) ++ ")"))

end

/-! ## What is locked -/

theorem raiseBuiltin_eq_ok {α : Type} {x : Except PyExc α} {a : α} (h : raiseBuiltin x = .ok a) :
    x = .ok a := by
  unfold raiseBuiltin at h
  split at h <;> cases h
  rfl

theorem hubFault_eq_ok {α : Type} {x : Except String α} {a : α} (h : hubFault x = .ok a) :
    x = .ok a := by
  unfold hubFault at h
  split at h <;> cases h
  rfl

theorem raiseWrite_eq_ok {α : Type} {x : Except (Raised WriteFault) α} {a : α}
    (h : raiseWrite x = .ok a) : x = .ok a := by
  unfold raiseWrite at h
  split at h <;> cases h
  rfl

theorem raiseConfig_eq_ok {α : Type} {x : Except (Raised String) α} {a : α}
    (h : raiseConfig x = .ok a) : x = .ok a := by
  unfold raiseConfig at h
  split at h <;> cases h
  rfl

/-- What Hugging Face says of its own files, and `hashlib`. -/
structure Hub.Documented (hub : Hub) : Prop where
  digest : ∀ content, sha256Re (hub.sha256 content) = true
  lfs : ∀ repo revision info, hub.modelInfo repo revision = .ok info →
    ∀ s ∈ info.siblings.getD [], ∀ size sha256, s.lfs = some (size, sha256) → sha256Re sha256 = true
  names : ∀ repo revision info, hub.modelInfo repo revision = .ok info →
    ((info.siblings.getD []).map Sibling.rfilename).Nodup

/-- The file is the one of the repository, at that commit. -/
structure LockedFile (hub : Hub) (repo commit : String) (s : Sibling) (f : ModelFile) : Prop where
  name : f.name = s.rfilename
  valid : fileNameProblem f.name = none
  /-- What LFS has on record, or the content. -/
  content : s.lfs = some (f.size, f.sha256) ∨ s.lfs = none ∧ ∃ content,
    hub.content repo f.name commit = .ok content ∧ f.size = content.length ∧
    f.sha256 = hub.sha256 content
  size : ∀ n, s.size = some n → f.size = n

/-- The entry is the one of the repository, at the commit that its revision stands for. -/
structure LockedFrom (hub : Hub) (repo revision : String) (e : ModelEntry) : Prop where
  info : ∃ info, hub.modelInfo repo revision = .ok info ∧ info.sha = some e.revision ∧
    List.Forall₂ (LockedFile hub repo e.revision) (sortedSiblings info) e.files

section

variable {py : Texts} {hub : Hub} {repo revision commit id description : String} {fuel : ℕ}

theorem lockFile_spec {s : Sibling} {f : ModelFile} (h : lockFile py hub repo commit s = .ok f) :
    LockedFile hub repo commit s f := by
  unfold lockFile at h
  dsimp only at h
  cases hproblem : fileNameProblem s.rfilename with
  | some problem =>
    rw [hproblem] at h
    obtain ⟨_, -, h⟩ := Except.bind_eq_ok.1 h
    cases h
  | none =>
    rw [hproblem] at h
    obtain ⟨⟨size, sha256⟩, hcontent, h⟩ := Except.bind_eq_ok.1 h
    have hfile : (∀ n, s.size = some n → size = n) ∧ f = ⟨s.rfilename, size, sha256⟩ := by
      cases hsize : s.size with
      | none =>
        rw [hsize] at h
        cases h
        exact ⟨by rintro _ ⟨⟩, rfl⟩
      | some n =>
        rw [hsize] at h
        dsimp only at h
        split_ifs at h with hn
        · obtain ⟨_, -, h⟩ := Except.bind_eq_ok.1 h
          obtain ⟨_, -, h⟩ := Except.bind_eq_ok.1 h
          cases h
        · cases h
          refine ⟨?_, rfl⟩
          rintro _ ⟨⟩
          exact (not_not.1 hn).symm
    obtain ⟨hsize, rfl⟩ := hfile
    refine ⟨rfl, hproblem, ?_, hsize⟩
    unfold contentOf at hcontent
    cases hlfs : s.lfs with
    | some lfs =>
      rw [hlfs] at hcontent
      cases hcontent
      exact .inl rfl
    | none =>
      rw [hlfs] at hcontent
      obtain ⟨content, hget, hcontent⟩ := Except.bind_eq_ok.1 hcontent
      cases hcontent
      exact .inr ⟨rfl, content, hubFault_eq_ok hget, rfl, rfl⟩

theorem forall₂_of_mapM {α β ε : Type} {f : α → Except ε β} {R : α → β → Prop}
    (hR : ∀ a b, f a = .ok b → R a b) {as : List α} :
    ∀ {bs}, as.mapM f = .ok bs → List.Forall₂ R as bs := by
  induction as with
  | nil =>
    rintro _ ⟨⟩
    exact .nil
  | cons a as ih =>
    intro bs h
    rw [List.mapM_cons] at h
    obtain ⟨b, hb, h⟩ := Except.bind_eq_ok.1 h
    obtain ⟨bs', hbs, h⟩ := Except.bind_eq_ok.1 h
    cases h
    exact .cons (hR a b hb) (ih hbs)

/-- The disk space of an entry is the one of its files. -/
theorem lockSpace_spec {total : ℕ} {n : ℤ} (h : lockSpace fuel total = .ok (some n)) :
    ∃ text, diskSpaceFor fuel total = .ok (some text) ∧ parseSize text = .ok n := by
  unfold lockSpace at h
  obtain ⟨text, htext, h⟩ := Except.bind_eq_ok.1 h
  cases text with
  | none => cases h
  | some text =>
    refine ⟨text, raiseBuiltin_eq_ok htext, ?_⟩
    dsimp only at h
    split at h <;> cases h
    assumption

theorem lockEntry_spec {e : ModelEntry}
    (h : lockEntry py hub fuel id repo revision description = .ok (some e)) :
    e.id = id ∧ e.description = description ∧ e.repo = repo ∧ idRe e.id = true ∧
      repoRe e.repo = true ∧ revisionRe e.revision = true ∧ e.files ≠ [] ∧
      LockedFrom hub repo revision e ∧
      ∃ text, diskSpaceFor fuel e.totalSize = .ok (some text) ∧
        parseSize text = .ok e.diskSpace := by
  unfold lockEntry at h
  cases hid : checkId id with
  | some problem => rw [hid] at h; cases h
  | none =>
    cases hrepo : checkRepo repo with
    | some problem => rw [hid, hrepo] at h; cases h
    | none =>
      rw [hid, hrepo] at h
      obtain ⟨info, hinfo, h⟩ := Except.bind_eq_ok.1 h
      cases hcommit : commitOf info with
      | none => rw [hcommit] at h; cases h
      | some commit =>
        rw [hcommit] at h
        obtain ⟨files, hfiles, h⟩ := Except.bind_eq_ok.1 h
        dsimp only at h
        split_ifs at h with hnil
        · cases h
        · obtain ⟨space, hspace, h⟩ := Except.bind_eq_ok.1 h
          cases space with
          | none => cases h
          | some n =>
            cases h
            unfold commitOf at hcommit
            cases hsha : info.sha with
            | none => rw [hsha] at hcommit; cases hcommit
            | some sha =>
              rw [hsha] at hcommit
              dsimp only at hcommit
              split_ifs at hcommit with hrevision
              cases hcommit
              exact ⟨rfl, rfl, rfl, (checkId_none _).1 hid, (checkRepo_none _).1 hrepo,
                (checkRevision_none _).1 (Option.isNone_iff_eq_none.1 hrevision), hnil,
                ⟨info, hubFault_eq_ok hinfo, hsha,
                  forall₂_of_mapM (fun _ _ => lockFile_spec) hfiles⟩,
                lockSpace_spec hspace⟩

theorem lockEntry_ok {info : ModelInfo} {files : List ModelFile} {n : ℤ} (hid : checkId id = none)
    (hrepo : checkRepo repo = none) (hinfo : hub.modelInfo repo revision = .ok info)
    (hcommit : commitOf info = some commit)
    (hfiles : (sortedSiblings info).mapM (lockFile py hub repo commit) = .ok files)
    (hne : files ≠ []) (hspace : lockSpace fuel (files.map ModelFile.size).sum = .ok (some n)) :
    lockEntry py hub fuel id repo revision description =
      .ok (some ⟨id, description, repo, commit, n, files⟩) := by
  unfold lockEntry
  rw [hid, hrepo]
  dsimp only
  rw [hinfo, show hubFault (.ok info) = .ok info from rfl, Except.ok_bind, hcommit]
  dsimp only
  rw [hfiles, Except.ok_bind, if_neg hne]
  unfold ModelEntry.totalSize
  rw [hspace]
  rfl

/-- A text of the loop is one whose size is enough. -/
theorem diskSpaceFrom_le {total t : ℕ} {text : String}
    (h : diskSpaceFrom total fuel t = .ok (some text)) :
    ∃ n, parseSize text = .ok n ∧ (total : ℤ) ≤ n := by
  induction fuel generalizing t with
  | zero => cases h
  | succ fuel ih =>
    rw [diskSpaceFrom] at h
    obtain ⟨text', htext, h⟩ := Except.bind_eq_ok.1 h
    cases hsize : parseSize text' with
    | error e => rw [hsize] at h; cases e <;> cases h
    | ok n =>
      rw [hsize] at h
      dsimp only at h
      split_ifs at h with hlt
      · exact ih h
      · cases h
        exact ⟨n, hsize, not_lt.1 hlt⟩

/-- What a finished loop has found. -/
theorem diskSpaceFor_spec {total : ℕ} {text : String}
    (h : diskSpaceFor fuel total = .ok (some text)) :
    ∃ n, parseSize text = .ok n ∧ (total : ℤ) ≤ n ∧ 0 < n := by
  obtain ⟨q, -, hloop⟩ := Except.bind_eq_ok.1 h
  obtain ⟨n, hn, hle⟩ := diskSpaceFrom_le hloop
  obtain ⟨rounds, s, m, hrounds, hm, -, hpos⟩ := diskSpaceFor_ok (hle.trans (parseSize_le hn))
  have hsame := (diskSpaceFor_mono (le_max_right rounds fuel) h).symm.trans
    (hrounds _ (le_max_left rounds fuel))
  obtain rfl := Option.some.inj (Except.ok.inj hsame)
  obtain rfl := Except.ok.inj (hn.symm.trans hm)
  exact ⟨n, hn, hle, hpos⟩

theorem names_locked {siblings : List Sibling} {files : List ModelFile}
    (h : List.Forall₂ (LockedFile hub repo commit) siblings files) :
    files.map ModelFile.name = siblings.map Sibling.rfilename := by
  induction h with
  | nil => rfl
  | cons hf _ ih => rw [List.map_cons, List.map_cons, hf.name, ih]

theorem LockedFrom.valid (hhub : hub.Documented) {e : ModelEntry}
    (h : LockedFrom hub repo revision e) :
    (∀ f ∈ e.files, f.Valid) ∧ (e.files.map ModelFile.name).Nodup := by
  obtain ⟨info, hinfo, -, hfiles⟩ := h.info
  have hperm : (sortedSiblings info).Perm (info.siblings.getD []) := List.mergeSort_perm _ _
  constructor
  · have hmem :
        List.Forall₂ (fun s f => s ∈ info.siblings.getD [] ∧ LockedFile hub repo e.revision s f)
        (sortedSiblings info) e.files := by
      refine List.forall₂_iff_zip.2 ⟨hfiles.length_eq, fun {s f} hzip => ⟨?_, ?_⟩⟩
      · exact hperm.mem_iff.1 (List.of_mem_zip hzip).1
      · exact (List.forall₂_iff_zip.1 hfiles).2 hzip
    refine forall_mem_of_forall₂ (R := fun s f => s ∈ info.siblings.getD [] ∧
      LockedFile hub repo e.revision s f) (fun s f hsf => ?_) hmem
    obtain ⟨hs, hf⟩ := hsf
    refine ⟨hf.valid, ?_⟩
    rcases hf.content with hlfs | ⟨-, content, -, -, hsha⟩
    · exact hhub.lfs repo revision info hinfo s hs _ _ hlfs
    · rw [hsha]
      exact hhub.digest content
  · rw [names_locked hfiles]
    exact (hperm.map _).nodup_iff.2 (hhub.names repo revision info hinfo)

/-- **What is locked may be in a registry.** -/
theorem locked_accepted (hhub : hub.Documented) {e : ModelEntry} (hdescription : description ≠ "")
    (h : lockEntry py hub fuel id repo revision description = .ok (some e)) : Accepted e := by
  obtain ⟨-, hdesc, -, hid, hrepo, hrevision, hfiles, hfrom, text, htext, hparse⟩ :=
    lockEntry_spec h
  obtain ⟨hvalid, hnames⟩ := hfrom.valid hhub
  obtain ⟨n, hn, hle, hpos⟩ := diskSpaceFor_spec htext
  have hspace : n = e.diskSpace := Except.ok.inj (hn.symm.trans hparse)
  rw [hspace] at hle hpos
  have hids : ∀ {value : String}, idRe value = true → value ≠ "" := by
    rintro _ hre rfl
    cases hre
  have hrepos : ∀ {value : String}, repoRe value = true → value ≠ "" := by
    rintro _ hre rfl
    cases hre
  have hrevisions : e.revision ≠ "" :=
    ne_empty_of_length (of_decide_eq_true (Bool.and_eq_true_iff.1 hrevision).1) (by decide)
  refine ⟨⟨entryTable text e, ⟨rfl, hids hid, hid⟩, ⟨rfl, hdesc ▸ hdescription, rfl⟩,
    ⟨rfl, hrepos hrepo, hrepo⟩, ⟨rfl, hrevisions, hrevision⟩, ⟨text, rfl, hparse, hpos⟩, ?_,
    by simp [OnlyFields, entryTable, entryFields]⟩, ?_⟩
  · refine ⟨_, rfl, by simpa using hfiles, ?_, hnames⟩
    rw [List.forall₂_map_left_iff]
    exact List.forall₂_same.2 fun f hf => fileTable_item (hvalid f hf)
  · unfold ModelEntry.tooSmall
    rw [decide_eq_false (not_lt.2 hle), Bool.and_false]

/-- The locked entry, written and read again. -/
theorem Rewritten.same_space {e e' : ModelEntry} {text : String} (h : Rewritten e e')
    (htext : diskSpaceFor fuel e.totalSize = .ok (some text))
    (hparse : parseSize text = .ok e.diskSpace) :
    e' = e := by
  obtain ⟨rounds, text', hrounds, hparse'⟩ := h.space
  have hsame := (hrounds _ (le_max_left rounds fuel)).symm.trans
    (diskSpaceFor_mono (le_max_right rounds fuel) htext)
  obtain rfl := Option.some.inj (Except.ok.inj hsame)
  have hspace : e'.diskSpace = e.diskSpace := Except.ok.inj (hparse'.symm.trans hparse)
  rw [h.same, hspace]
  rfl

theorem mem_rewritten {merged new : List ModelEntry} (h : List.Forall₂ Rewritten merged new)
    {e : ModelEntry} (he : e ∈ merged) : ∃ e' ∈ new, Rewritten e e' := by
  induction h with
  | nil => cases he
  | @cons a b merged new hab _ ih =>
    rcases List.mem_cons.1 he with rfl | he
    · exact ⟨b, List.mem_cons_self, hab⟩
    · obtain ⟨e', he', hrewritten⟩ := ih he
      exact ⟨e', List.mem_cons_of_mem _ he', hrewritten⟩

end

section

variable {py : Texts} {loads : Parser} {hub : Hub} {fuel : ℕ} {path missing : String}
  {file : Option FileRead} {id repo revision : String} {description : Option String}
  {bytes : List UInt8}

theorem getEntry_mem {new : List ModelEntry} {e : ModelEntry}
    (hnew : loadFile py loads path missing file = .ok new) (hids : (new.map ModelEntry.id).Nodup)
    (he : e ∈ new) : getEntry py loads path missing file e.id = .ok e := by
  have hsome : (new.find? fun e' => e'.id = e.id).isSome = true :=
    List.find?_isSome.2 ⟨e, he, by simp⟩
  obtain ⟨e', hfind⟩ := Option.isSome_iff_exists.1 hsome
  have hid : e'.id = e.id := by simpa using List.find?_some hfind
  obtain rfl := List.inj_on_of_nodup_map hids (List.mem_of_find?_eq_some hfind) he hid
  unfold getEntry
  rw [hnew, Except.ok_bind, hfind]
  rfl

/-- The entries that are there have descriptions. -/
theorem chosenDescription_ne {text : String} (hrepo : repo ≠ "")
    (hdescription : description ≠ some "")
    (h : chosenDescription py loads path missing file id repo description = .ok text) :
    text ≠ "" := by
  unfold chosenDescription at h
  cases description with
  | some asked =>
    cases h
    exact fun hnil => hdescription (congrArg some hnil)
  | none =>
    obtain ⟨existing, hexisting, h⟩ := Except.bind_eq_ok.1 h
    obtain ⟨data, -, hparse⟩ := Except.bind_eq_ok.1 (raiseConfig_eq_ok hexisting)
    cases hfind : existing.find? fun e => e.id = id with
    | none =>
      rw [hfind] at h
      cases h
      exact hrepo
    | some e =>
      rw [hfind] at h
      cases h
      exact (accepted_of_parse hparse e (List.mem_of_find?_eq_some hfind)).printed.description

/-- **The locked entry is the one that is found.** It is what `lock_entry` returns for the
description that is chosen: the files of the repository at the commit, with the disk space for them.
The other entries are as they were. -/
theorem locked_read_back (hloads : Follows loads) (hhub : hub.Documented)
    (hdescription : description ≠ some "")
    (h : modelsLock py loads hub fuel path missing file id repo revision description =
      .ok (some bytes)) :
    ∃ old new text e space, currentRegistry py loads path file = .ok old ∧
      loadRegistry py loads path (.bytes bytes) = .ok new ∧
      chosenDescription py loads path missing file id repo description = .ok text ∧
      lockEntry py hub fuel id repo revision text = .ok (some e) ∧
      getEntry py loads path missing (some (.bytes bytes)) id = .ok e ∧
      (e.id = id ∧ e.description = text ∧ e.repo = repo ∧ LockedFrom hub repo revision e) ∧
      (diskSpaceFor fuel e.totalSize = .ok (some space) ∧ parseSize space = .ok e.diskSpace ∧
        (e.totalSize : ℤ) ≤ e.diskSpace) ∧
      ∀ id', id' ≠ id → stored new id' = stored old id' := by
  unfold modelsLock at h
  obtain ⟨text, htext, h⟩ := Except.bind_eq_ok.1 h
  obtain ⟨locked, hlocked, h⟩ := Except.bind_eq_ok.1 h
  cases locked with
  | none => cases h
  | some e =>
    have hwrite := raiseWrite_eq_ok h
    obtain ⟨rfl, hdesc, rfl, -, hrepo, -, -, hfrom, space, hspace, hparse⟩ := lockEntry_spec hlocked
    obtain ⟨n, hn, hle, -⟩ := diskSpaceFor_spec hspace
    obtain rfl : n = e.diskSpace := Except.ok.inj (hn.symm.trans hparse)
    obtain ⟨old, -, -, -, hold, -⟩ := writeEntry_inv hwrite
    have hne : e.repo ≠ "" := by
      intro hnil
      rw [hnil] at hrepo
      cases hrepo
    have haccepted := locked_accepted hhub (chosenDescription_ne hne hdescription htext) hlocked
    obtain ⟨merged, new, hnew, hmerged, hrewritten⟩ := written_spec hloads hold haccepted hwrite
    obtain ⟨hids, hstored⟩ := stored_rewritten hrewritten
    obtain ⟨e', he', hrewritten'⟩ := mem_rewritten hrewritten ((hmerged.mem e).2 (.inl rfl))
    obtain rfl := hrewritten'.same_space hspace hparse
    refine ⟨old, new, text, e', space, hold, hnew, htext, hlocked, ?_, ⟨rfl, hdesc, rfl, hfrom⟩,
      ⟨hspace, hparse, hle⟩, fun id' hid => ?_⟩
    · exact getEntry_mem hnew (by rw [hids]; exact hmerged.nodup) he'
    · rw [hstored, hmerged.stored (accepted_setEntry hold haccepted).1, Function.update_of_ne hid]

end

/-! ## A small repository -/

/-- One empty file. -/
def tinyHub : Hub where
  modelInfo _ _ := .ok ⟨some ("".pushn '0' 40), some [⟨"config.json", some 0, none⟩]⟩
  content _ _ _ := .ok []
  sha256 _ := "".pushn '0' 64

theorem tinyHub_documented : tinyHub.Documented where
  digest _ := (by decide : sha256Re ("".pushn '0' 64) = true)
  lfs := by
    rintro _ _ _ ⟨⟩ s hs size sha256 hlfs
    obtain rfl := List.mem_singleton.1 hs
    cases hlfs
  names := by
    rintro _ _ _ ⟨⟩
    exact List.nodup_singleton _

theorem tiny_locked : ∃ rounds e, (∀ fuel, rounds ≤ fuel →
    lockEntry plainTexts tinyHub fuel "tiny" "owner/tiny" "main" "A model." = .ok (some e)) ∧
      e.broken = false := by
  obtain ⟨rounds, s, n, hrounds, hparse, -⟩ := @diskSpaceFor_ok 0 (by positivity)
  have hbroken : (isBroken "A model." || [isBroken "config.json"].any id) = false := by decide
  refine ⟨rounds, ⟨"tiny", "A model.", "owner/tiny", "".pushn '0' 40, n,
    [⟨"config.json", 0, "".pushn '0' 64⟩]⟩, fun fuel hfuel => ?_, hbroken⟩
  have hfile : lockFile plainTexts tinyHub "owner/tiny" ("".pushn '0' 40)
      ⟨"config.json", some 0, none⟩ =
        .ok ⟨"config.json", 0, "".pushn '0' 64⟩ := by
    have hname : fileNameProblem "config.json" = none := by decide
    unfold lockFile
    dsimp only
    rw [hname]
    rfl
  refine lockEntry_ok (by decide) (by decide) rfl (by decide) ?_ (List.cons_ne_nil _ _) ?_
  · unfold sortedSiblings
    rw [Option.getD_some, List.mergeSort_singleton, List.mapM_cons, hfile]
    rfl
  · unfold lockSpace
    rw [List.map_singleton, List.sum_singleton, hrounds fuel hfuel,
      show ∀ text : Option String, raiseBuiltin (.ok text) = .ok text from fun _ => rfl,
      Except.ok_bind]
    dsimp only
    rw [hparse]
    rfl

/-- A model is locked where there is no registry. -/
theorem locked_read_back_tiny : ∃ fuel bytes old new text e space,
    currentRegistry plainTexts fragmentLoads "models.toml" none = .ok old ∧
      loadRegistry plainTexts fragmentLoads "models.toml" (.bytes bytes) = .ok new ∧
      chosenDescription plainTexts fragmentLoads "models.toml" "" none "tiny" "owner/tiny"
        (some "A model.") = .ok text ∧
      lockEntry plainTexts tinyHub fuel "tiny" "owner/tiny" "main" text = .ok (some e) ∧
      getEntry plainTexts fragmentLoads "models.toml" "" (some (.bytes bytes)) "tiny" = .ok e ∧
      (e.id = "tiny" ∧ e.description = text ∧ e.repo = "owner/tiny" ∧
        LockedFrom tinyHub "owner/tiny" "main" e) ∧
      (diskSpaceFor fuel e.totalSize = .ok (some space) ∧ parseSize space = .ok e.diskSpace ∧
        (e.totalSize : ℤ) ≤ e.diskSpace) ∧
      ∀ id', id' ≠ "tiny" → stored new id' = stored old id' := by
  obtain ⟨rounds, e, hlocked, hbroken⟩ := tiny_locked
  have haccepted := locked_accepted tinyHub_documented (by decide) (hlocked rounds le_rfl)
  have hset : ∀ e' ∈ setEntry [] e, e' = e := fun e' he => List.mem_singleton.1 he
  have hsurvives : Survives plainTexts fragmentLoads "models.toml" none [] e :=
    survives_of_plain fragment_follows rfl List.nodup_nil (fun e' he => hset e' he ▸ haccepted)
      (fun e' he => hset e' he ▸ hbroken)
  obtain ⟨rounds', bytes, merged, new, hwrite, -⟩ := hsurvives
  have hlock : modelsLock plainTexts fragmentLoads tinyHub (max rounds rounds') "models.toml" ""
      none "tiny" "owner/tiny" "main" (some "A model.") = .ok (some bytes) := by
    unfold modelsLock chosenDescription
    dsimp only
    rw [show (return "A model." : Except (Raised LockFault) String) = .ok "A model." from rfl,
      Except.ok_bind, hlocked _ (le_max_left _ _), Except.ok_bind]
    dsimp only
    rw [hwrite _ (le_max_right _ _)]
    rfl
  exact ⟨_, bytes, locked_read_back fragment_follows tinyHub_documented (by decide) hlock⟩

end AgentLab.Config
