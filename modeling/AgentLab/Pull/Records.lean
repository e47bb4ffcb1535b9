import Mathlib.Data.List.SplitBy
import AgentLab.Python.Value

/-!
# Models on disk

The files of a registry entry, the model directory, and the records of `.alab/state.json`, which say
for which size and modification time a file was hashed, and with which result; `local_state` reads
its verdict off them.

The directory is a tree of regular files and directories by path, apart from `.alab`: of that there
are `state.json`, as the value that it holds, and the partial downloads by name. A file name of the
registry is a relative path without empty, `.` and `..` parts that does not begin with `.alab`, so
that its path is the list of its parts.
-/

namespace AgentLab.Pull

open Python

abbrev Bytes := List UInt8

abbrev Path := List Str

/-! ## The registry -/

/-- `name.split("/")`. -/
def parts (name : Str) : Path := name.splitOn 0x2F

def STATE_DIR : Str := str ".alab"

/-- `_file_name_problem`. -/
def fileNameProblem (name : Str) : Option Str :=
  if name.isEmpty || (str "/").isPrefixOf name || name.contains 0x5C then
    some (str "must be a relative path")
  else if (parts name).any fun part => part = [] || part = str "." || part = str ".." then
    some (str "must not contain empty, \".\" or \"..\" parts")
  else if (parts name).head? = some STATE_DIR then
    some (str "\".alab\" is reserved for download state")
  else none

/-- A file of a model, with a name that the registry accepts. -/
structure ModelFile where
  name : Str
  size : ℕ
  sha256 : Str
  name_valid : fileNameProblem name = none
  deriving DecidableEq

/-- An entry of the registry, with no file listed twice. -/
structure ModelEntry where
  id : Str
  repo : Str
  revision : Str
  files : List ModelFile
  nodup : (files.map ModelFile.name).Nodup

/-- `root / f.name`, below `root`. -/
def ModelFile.path (f : ModelFile) : Path := parts f.name

/-- The name of `_partial_path`. -/
def ModelFile.partialName (f : ModelFile) : Str := f.sha256 ++ str ".part"

/-! ## The directory -/

structure File where
  bytes : Bytes
  mtime : ℕ
  deriving DecidableEq

inductive Node
  | file (f : File)
  | dir
  deriving DecidableEq

def Node.isFile : Option Node → Bool
  | some (.file _) => true
  | _ => false

/-- A model directory. `state.json` that is not there or is not JSON is `none`. -/
structure Disk where
  tree : Path → Option Node
  state : Option Json
  partials : Dict File

/-! ## Records -/

/-- `_Records`. -/
structure Records where
  verified : Dict Json
  failed : List Str

/-- `str(value)`, for a function that gives the text of what is not a string. -/
def textOf (text : Json → Str) : Json → Str
  | .str s => s
  | value => text value

/-- `_Records.load`. -/
def Records.load (text : Json → Str) (state : Option Json) : Records :=
  match state with
  | some (.obj data) =>
    match (Dict.get? data (str "verified")).getD (.obj []),
      (Dict.get? data (str "failed")).getD (.list []) with
    | .obj verified, .list failed => ⟨verified, failed.map (textOf text)⟩
    | _, _ => ⟨[], []⟩
  | _ => ⟨[], []⟩

/-- What `save` writes. -/
def Records.dump (records : Records) : Json :=
  .obj [(str "verified", .obj records.verified),
    (str "failed", .list (records.failed.map .str))]

/-- `value == n`. -/
def equalsNat (value : Json) (n : ℕ) : Bool :=
  match value with
  | .int k => k = n
  | .bool b => b.toNat = n
  | .float (.finite q) => q = n
  | _ => false

/-- The `sha256` of a record for a file of that size and time. -/
def recordSha (record : Json) (size mtime : ℕ) : Option Str :=
  match record with
  | .obj fields =>
    if equalsNat (getD fields (str "size")) size &&
      equalsNat (getD fields (str "mtime_ns")) mtime then
      match getD fields (str "sha256") with
      | .str sha => some sha
      | _ => none
    else none
  | _ => none

/-- The record of a file. -/
def Records.record (records : Records) (name : Str) : Json :=
  (Dict.get? records.verified name).getD .null

/-- `remember`, once the file's size and time are known. -/
def Records.remember (records : Records) (name : Str) (size mtime : ℕ) (sha : Str) : Records where
  verified := Dict.set records.verified name (.obj
    [(str "size", .int size), (str "mtime_ns", .int mtime), (str "sha256", .str sha)])
  failed := records.failed.erase name

/-- `forget`. -/
def Records.forget (records : Records) (name : Str) : Records :=
  { records with verified := Dict.pop records.verified name }

/-- `records.failed.append(name)`, unless it is there. -/
def Records.fail (records : Records) (name : Str) : Records :=
  if name ∈ records.failed then records else { records with failed := records.failed ++ [name] }

/-- `known_sha256`, of what is at the path of the file. -/
def Records.known (records : Records) (name : Str) : Option Node → Option Str
  | some (.file file) => recordSha (records.record name) file.bytes.length file.mtime
  | _ => none

inductive LocalState
  | notDownloaded
  | incomplete
  | unverified
  | downloaded
  | failed
  deriving DecidableEq

/-- `local_state`. -/
def localState (text : Json → Str) (entry : ModelEntry) (d : Disk) : LocalState :=
  let records := Records.load text d.state
  if entry.files.any fun f => f.name ∈ records.failed then .failed
  else
    let present := entry.files.filter fun f => Node.isFile (d.tree f.path)
    if present.length = entry.files.length then
      if present.all fun f => records.known f.name (d.tree f.path) = some f.sha256 then .downloaded
      else .unverified
    else if !present.isEmpty || !d.partials.isEmpty then .incomplete
    else .notDownloaded

/-! ## What the records say -/

variable {records : Records} {name name' : Str} {size mtime size' mtime' : ℕ} {sha sha' : Str}

/-- Records survive being written. -/
theorem load_dump (text : Json → Str) (records : Records) :
    Records.load text (some records.dump) = records := by
  have hfailed : (records.failed.map Json.str).map (textOf text) = records.failed := by
    rw [List.map_map]
    exact List.map_id _
  show Records.mk records.verified ((records.failed.map Json.str).map (textOf text)) = records
  rw [hfailed]

theorem record_remember : (records.remember name size mtime sha).record name' =
    if name = name' then .obj
      [(str "size", .int size), (str "mtime_ns", .int mtime), (str "sha256", .str sha)]
    else records.record name' := by
  unfold Records.remember Records.record
  rw [Dict.get?_set]
  split_ifs <;> rfl

theorem record_forget : (records.forget name).record name' =
    if name = name' then .null else records.record name' := by
  unfold Records.forget Records.record
  rw [Dict.get?_pop]
  split_ifs <;> rfl

@[simp] theorem record_fail : (records.fail name).record name' = records.record name' := by
  unfold Records.fail
  split_ifs <;> rfl

/-- The record that `remember` makes is of that size and time. -/
theorem recordSha_remember : recordSha (.obj
    [(str "size", .int size), (str "mtime_ns", .int mtime), (str "sha256", .str sha)])
    size' mtime' =
      some sha' ↔ size = size' ∧ mtime = mtime' ∧ sha = sha' := by
  have hsize : getD [(str "size", .int size), (str "mtime_ns", .int mtime),
      (str "sha256", .str sha)] (str "size") = .int size := rfl
  have hmtime : getD [(str "size", .int size), (str "mtime_ns", .int mtime),
      (str "sha256", .str sha)] (str "mtime_ns") = .int mtime := rfl
  have hsha : getD [(str "size", .int size), (str "mtime_ns", .int mtime),
      (str "sha256", .str sha)] (str "sha256") = .str sha := rfl
  unfold recordSha
  dsimp only
  rw [hsize, hmtime, hsha]
  simp only [equalsNat, Bool.and_eq_true, decide_eq_true_eq, Int.natCast_inj]
  split_ifs with h
  · simp [h.1, h.2]
  · simp only [false_iff]
    exact fun h' => h ⟨h'.1, h'.2.1⟩

theorem recordSha_null : recordSha .null size mtime = none := rfl

/-! ## The verdict -/

theorem isFile_of_known {node : Option Node} (h : records.known name node = some sha) :
    Node.isFile node = true := by
  unfold Records.known at h
  split at h
  · rfl
  · cases h

/-- What `DOWNLOADED` says: no file failed, and each is there with a record of its hash. -/
theorem localState_downloaded {text : Json → Str} {entry : ModelEntry} {d : Disk} :
    localState text entry d = .downloaded ↔
      (∀ f ∈ entry.files, f.name ∉ (Records.load text d.state).failed) ∧
        ∀ f ∈ entry.files, (Records.load text d.state).known f.name (d.tree f.path) =
          some f.sha256 := by
  unfold localState
  dsimp only
  split_ifs with hfailed hpresent hall hsome
  · obtain ⟨f, hf, hmem⟩ := List.any_eq_true.1 hfailed
    exact ⟨nofun, fun h => absurd (by simpa using hmem) (h.1 f hf)⟩
  · rw [List.filter_eq_self.2 (List.length_filter_eq_length_iff.1 hpresent)] at hall
    rw [List.all_eq_true] at hall
    refine ⟨fun _ => ⟨fun f hf hmem => hfailed ?_, fun f hf => ?_⟩, fun _ => rfl⟩
    · exact List.any_eq_true.2 ⟨f, hf, by simpa using hmem⟩
    · simpa using hall f hf
  · rw [List.filter_eq_self.2 (List.length_filter_eq_length_iff.1 hpresent)] at hall
    refine ⟨nofun, fun h => absurd (List.all_eq_true.2 fun f hf => ?_) hall⟩
    simpa using h.2 f hf
  · refine ⟨nofun, fun h => absurd (List.length_filter_eq_length_iff.2 fun f hf => ?_) hpresent⟩
    exact isFile_of_known (h.2 f hf)
  · refine ⟨nofun, fun h => absurd (List.length_filter_eq_length_iff.2 fun f hf => ?_) hpresent⟩
    exact isFile_of_known (h.2 f hf)

end AgentLab.Pull
