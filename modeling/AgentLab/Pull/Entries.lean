import AgentLab.Config.ModelPaths
import AgentLab.Pull.Records
import AgentLab.Python.Text

/-!
# The entries of a registry

The parser of the registry has its texts from TOML, without surrogates, and `pull` has code points,
as the JSON of its records. What the parser accepts is an entry for `pull`, which checks the names
of the files no more (`entry_of_registry`), and the path of a file in the model directory is the end
of the one that `model_dir` and its name make (`filePath_parts`).
-/

namespace AgentLab.Pull

open Python

/-! ## Texts -/

theorem str_injective : Function.Injective str := fun _ _ h =>
  String.toList_injective (points_injective h)

/-- A text is split as its code points are. -/
theorem splitOn_points (a : Char) (cs : List Char) :
    (points cs).splitOn (point a) = (cs.splitOn a).map points := by
  induction cs with
  | nil => rfl
  | cons c cs ih =>
    have hbeq : (point c == point a) = (c == a) := by
      rw [Bool.eq_iff_iff, beq_iff_eq, beq_iff_eq, point_injective.eq_iff]
    show (point c :: points cs).splitOn (point a) = _
    rw [List.splitOn_cons_eq_if_modifyHead, List.splitOn_cons_eq_if_modifyHead, ih, hbeq]
    split_ifs
    · rfl
    · cases cs.splitOn a <;> rfl

theorem parts_str (name : String) : parts (str name) = (Config.nameParts name).map points :=
  splitOn_points '/' name.toList

/-- **The two checks of a file name agree.** -/
theorem fileNameProblem_str (name : String) :
    fileNameProblem (str name) = (Config.fileNameProblem name).map str := by
  have hrelative : ((str name).isEmpty || (str "/").isPrefixOf (str name) ||
      (str name).contains 0x5C) =
        (decide (name = "") || decide (name.toList.head? = some '/') ||
          decide ('\\' ∈ name.toList)) := by
    have hempty : (str name).isEmpty = decide (name = "") := by
      rw [Bool.eq_iff_iff, List.isEmpty_iff, decide_eq_true_iff, ← str_injective.eq_iff]
      rfl
    have hslash : (str "/").isPrefixOf (str name) = decide (name.toList.head? = some '/') := by
      show [point '/'].isPrefixOf (points name.toList) = _
      cases name.toList with
      | nil => rfl
      | cons c cs =>
        show (point '/' == point c && true) = decide (some c = some '/')
        rw [Bool.eq_iff_iff, Bool.and_true, beq_iff_eq, decide_eq_true_iff, point_injective.eq_iff,
          Option.some_inj, eq_comm]
    have hback : (str name).contains 0x5C = decide ('\\' ∈ name.toList) := by
      rw [Bool.eq_iff_iff, List.contains_iff_mem, decide_eq_true_iff]
      exact List.mem_map_of_injective point_injective (a := '\\')
    rw [hempty, hslash, hback]
  have hparts :
      ((parts (str name)).any fun part => part = [] || part = str "." || part = str "..") =
      (Config.nameParts name).any fun part => part = [] || part = ['.'] || part = ['.', '.'] := by
    have hequal : ∀ part part' : List Char, decide (points part = points part') =
        decide (part = part') := fun _ _ => decide_eq_decide.2 points_injective.eq_iff
    rw [parts_str, List.any_map]
    refine congrArg _ (funext fun part => ?_)
    rw [← hequal part [], ← hequal part ['.'], ← hequal part ['.', '.']]
    rfl
  have hstate : (parts (str name)).head? = some STATE_DIR ↔
      (Config.nameParts name).head? = some ".alab".toList := by
    rw [parts_str, List.head?_map, show some STATE_DIR = (some ".alab".toList).map points from rfl]
    exact (Option.map_injective points_injective).eq_iff
  unfold fileNameProblem Config.fileNameProblem
  simp only [hrelative, hparts, hstate]
  split_ifs <;> rfl

/-! ## Entries -/

def ofFile (f : Config.ModelFile) (h : f.Valid) : ModelFile :=
  ⟨str f.name, f.size, str f.sha256, by rw [fileNameProblem_str, h.name]; rfl⟩

theorem map_ofFile {α : Type} {files : List Config.ModelFile} (h : ∀ f ∈ files, f.Valid)
    {g : ModelFile → α} {g' : Config.ModelFile → α} (hg : ∀ f hf, g (ofFile f hf) = g' f) :
    (files.pmap ofFile h).map g = files.map g' := by
  rw [List.map_pmap]
  simp only [hg]
  exact List.pmap_eq_map h

/-- An entry of the registry, with the fields that `pull` reads. -/
def ofEntry (e : Config.ModelEntry) (hfiles : ∀ f ∈ e.files, f.Valid)
    (hnames : (e.files.map Config.ModelFile.name).Nodup) : ModelEntry where
  id := str e.id
  repo := str e.repo
  revision := str e.revision
  files := e.files.pmap ofFile hfiles
  nodup := by
    have hmap : (e.files.pmap ofFile hfiles).map ModelFile.name =
        (e.files.map Config.ModelFile.name).map str := by
      rw [List.map_map]
      exact map_ofFile hfiles fun _ _ => rfl
    rw [hmap]
    exact hnames.map str_injective

/-- **Every entry of a registry is one for `pull`**, with the same files. -/
theorem entry_of_registry {py : Config.Texts} {path : String} {data : List (String × Config.Toml)}
    {entries : List Config.ModelEntry} (h : Config.parseRegistry py path data = .ok entries)
    {e : Config.ModelEntry} (he : e ∈ entries) :
    ∃ entry : ModelEntry, entry.id = str e.id ∧ entry.repo = str e.repo ∧
      entry.revision = str e.revision ∧
      entry.files.map (fun f => (f.name, f.size, f.sha256)) =
        e.files.map fun f => (str f.name, f.size, str f.sha256) := by
  obtain ⟨t, ht⟩ := (Config.parseRegistry_eq_ok.1 h).table e he
  obtain ⟨_, -, -, -, hnames⟩ := ht.files
  exact ⟨ofEntry e ht.files.valid hnames, rfl, rfl, rfl, map_ofFile _ fun _ _ => rfl⟩

/-- The path of a file, as `pathlib` has it, goes on in the model directory as `pull` has it. -/
theorem filePath_parts {models : PathText} {id : String} {f : Config.ModelFile}
    (hid : Config.idRe id = true) (hf : f.Valid) :
    (PurePosixPath.normalise (Config.filePath models id f)).parts.map points =
      (PurePosixPath.normalise (Config.modelDir models id)).parts.map points ++
        (ofFile f hf).path := by
  rw [Config.normalise_filePath hid hf, Config.normalise_modelDir hid]
  show _ = _ ++ parts (str f.name)
  rw [parts_str]
  simp

end AgentLab.Pull
