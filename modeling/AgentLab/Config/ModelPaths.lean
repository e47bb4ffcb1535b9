import AgentLab.Config.Entries
import AgentLab.Python.Path

/-!
# Where the files of models are

The paths of `pull.py` below `models_dir()`, from the texts of an entry. In normal form a file of an
accepted entry has the id and the parts of its name (`normalise_filePath`), and what the pull keeps
for itself has the id and `.alab` (`normalise_reserved`); from these two `model_files_apart`.
-/

namespace AgentLab.Config

open Python PurePosixPath

section

variable (models : PathText)

/-- `model_dir`. -/
def modelDir (modelId : String) : PathText := join models modelId.toList

def STATE_DIR : PathText := ".alab".toList

/-- `_state_dir`. -/
def stateDir (modelId : String) : PathText := join (modelDir models modelId) STATE_DIR

/-- `_partial_path`. -/
def partialPath (modelId : String) (f : ModelFile) : PathText :=
  join (join (stateDir models modelId) "partial".toList) (f.sha256.toList ++ ".part".toList)

/-- The path of the records, in `_Records`. -/
def statePath (modelId : String) : PathText := join (stateDir models modelId) "state.json".toList

/-- The path in `_pull_lock`. -/
def lockPath (modelId : String) : PathText := join (stateDir models modelId) "lock".toList

/-- `root / f.name` in `pull`. -/
def filePath (modelId : String) (f : ModelFile) : PathText :=
  join (modelDir models modelId) f.name.toList

/-- What the pull of an entry keeps for itself. -/
def reservedPaths (entry : ModelEntry) : List PathText :=
  statePath models entry.id :: lockPath models entry.id ::
    entry.files.map (partialPath models entry.id)

end

/-! ## Single parts -/

/-- A text that is one part of a path. -/
structure IsPart (text : PathText) : Prop where
  ne_nil : text ≠ []
  slash : '/' ∉ text
  ne_dot : text ≠ ['.']
  ne_parent : text ≠ parent

theorem IsPart.partsOf {text : PathText} (h : IsPart text) : partsOf text = [text] := by
  have hsplit : text.splitOn '/' = [text] := List.splitOn_eq_singleton h.slash
  rw [partsOf_eq, hsplit]
  rw [hsplit]
  exact List.forall_mem_singleton.2 ⟨h.ne_nil, h.ne_dot⟩

theorem IsPart.head {text : PathText} (h : IsPart text) : text.head? ≠ some '/' :=
  fun hhead => h.slash (List.mem_of_mem_head? hhead)

theorem normalise_join_part {path text : PathText} (h : IsPart text) :
    normalise (join path text) = ⟨(normalise path).root, (normalise path).parts ++ [text]⟩ := by
  rw [normalise_join h.head, h.partsOf]
  rw [h.partsOf]
  exact fun hmem => h.ne_parent (List.mem_singleton.1 hmem).symm

theorem isPart_of_head {text : PathText} {c : Char} (hhead : text.head? = some c) (hc : c ≠ '.')
    (hslash : '/' ∉ text) : IsPart text := by
  refine ⟨?_, hslash, ?_, ?_⟩ <;> rintro rfl
  · cases hhead
  · exact hc (Option.some.inj hhead).symm
  · exact hc (Option.some.inj hhead).symm

theorem isPart_id {id : String} (h : idRe id = true) : IsPart id.toList := by
  unfold idRe at h
  obtain ⟨hhead, hall⟩ := Bool.and_eq_true_iff.1 h
  obtain ⟨c, hc, hstart⟩ := (Option.any_eq_true _ _).1 hhead
  refine isPart_of_head hc ?_ fun hslash => ?_
  · rintro rfl
    exact absurd hstart (by decide)
  · exact absurd (List.all_eq_true.1 hall _ hslash) (by decide)

theorem isPart_sha {sha : String} (h : sha256Re sha = true) :
    IsPart (sha.toList ++ ".part".toList) := by
  unfold sha256Re at h
  obtain ⟨hlength, hall⟩ := Bool.and_eq_true_iff.1 h
  have hhex : ∀ c ∈ sha.toList, isHexChar c = true := List.all_eq_true.1 hall
  obtain ⟨c, rest, hsha⟩ := List.exists_cons_of_length_eq_add_one (of_decide_eq_true hlength)
  rw [hsha] at hhex ⊢
  refine @isPart_of_head _ c rfl ?_ fun hslash => ?_
  · rintro rfl
    exact absurd (hhex _ List.mem_cons_self) (by decide)
  · rcases List.mem_append.1 hslash with hslash | hslash
    · exact absurd (hhex _ hslash) (by decide)
    · exact absurd hslash (by decide)

/-! ## File names -/

/-- What a name that passes the check comes to. -/
structure IsFileName (name : String) : Prop where
  head : name.toList.head? ≠ some '/'
  parts : partsOf name.toList = nameParts name
  parent : parent ∉ nameParts name
  alab : (nameParts name).head? ≠ some STATE_DIR

theorem isFileName {name : String} (h : fileNameProblem name = none) : IsFileName name := by
  unfold fileNameProblem at h
  split_ifs at h with hrel hdots halab
  simp only [Bool.or_eq_true, decide_eq_true_eq, not_or] at hrel
  have hparts : ∀ part ∈ nameParts name, part ≠ [] ∧ part ≠ ['.'] ∧ part ≠ ['.', '.'] := by
    intro part hpart
    have := fun hbad => hdots (List.any_eq_true.2 ⟨part, hpart, hbad⟩)
    simpa [and_assoc] using this
  exact ⟨hrel.1.2, partsOf_eq fun part hpart => ⟨(hparts part hpart).1, (hparts part hpart).2.1⟩,
    fun hmem => (hparts _ hmem).2.2 rfl, halab⟩

/-- The check of file names as `_file_name_problem` has it, with the path that `pathlib` makes. -/
theorem fileNameProblem_pathlib (name : String) : fileNameProblem name =
    let path := parse name.toList
    if name = "" || path.isAbsolute || '\\' ∈ name.toList then some "must be a relative path"
    else if (nameParts name).any fun part => part = [] || part = ['.'] || part = ['.', '.'] then
      some "must not contain empty, \".\" or \"..\" parts"
    else if path.parts.head? = some STATE_DIR then
      some "\".alab\" is reserved for download state"
    else none := by
  have hparts : name.toList.head? ≠ some '/' →
      (∀ part ∈ nameParts name, ¬(part = [] ∨ part = ['.'] ∨ part = ['.', '.'])) →
        (parse name.toList).parts = nameParts name := by
    intro hhead hproper
    unfold parse
    rw [splitRoot_relative hhead]
    refine partsOf_eq fun part hpart => ?_
    have := hproper part hpart
    tauto
  have halab : ".alab".toList = STATE_DIR := rfl
  unfold fileNameProblem
  simp only [isAbsolute_parse, halab]
  split_ifs <;> simp_all

/-! ## The paths of an entry -/

variable {models : PathText}

theorem isPart_state : IsPart STATE_DIR := ⟨by decide, by decide, by decide, by decide⟩

theorem normalise_modelDir {id : String} (h : idRe id = true) : normalise (modelDir models id) =
    ⟨(normalise models).root, (normalise models).parts ++ [id.toList]⟩ :=
  normalise_join_part (isPart_id h)

theorem normalise_stateDir {id : String} (h : idRe id = true) : normalise (stateDir models id) =
    ⟨(normalise models).root, (normalise models).parts ++ [id.toList, STATE_DIR]⟩ := by
  unfold stateDir
  rw [normalise_join_part isPart_state, normalise_modelDir h, List.append_assoc]
  rfl

/-- What lies in the state directory. -/
theorem normalise_state_join {id : String} {text : PathText} (h : idRe id = true)
    (htext : IsPart text) : normalise (join (stateDir models id) text) =
      ⟨(normalise models).root, (normalise models).parts ++ [id.toList, STATE_DIR, text]⟩ := by
  rw [normalise_join_part htext, normalise_stateDir h, List.append_assoc]
  rfl

/-- **Where a file is.** -/
theorem normalise_filePath {id : String} {f : ModelFile} (h : idRe id = true) (hf : f.Valid) :
    normalise (filePath models id f) =
      ⟨(normalise models).root, (normalise models).parts ++ id.toList :: nameParts f.name⟩ := by
  have hname := isFileName hf.name
  unfold filePath
  rw [normalise_join hname.head (by rw [hname.parts]; exact hname.parent), normalise_modelDir h,
    hname.parts, List.append_assoc]
  rfl

/-- **What a pull keeps for itself** is in `.alab`. -/
theorem normalise_reserved {e : ModelEntry} (h : idRe e.id = true) (hfiles : ∀ f ∈ e.files, f.Valid)
    {p : PathText} (hp : p ∈ reservedPaths models e) : ∃ rest, normalise p =
      ⟨(normalise models).root, (normalise models).parts ++ e.id.toList :: STATE_DIR :: rest⟩ := by
  unfold reservedPaths at hp
  rcases List.mem_cons.1 hp with rfl | hp
  · exact ⟨["state.json".toList],
      normalise_state_join h ⟨by decide, by decide, by decide, by decide⟩⟩
  rcases List.mem_cons.1 hp with rfl | hp
  · exact ⟨["lock".toList], normalise_state_join h ⟨by decide, by decide, by decide, by decide⟩⟩
  · obtain ⟨f, hf, rfl⟩ := List.mem_map.1 hp
    refine ⟨["partial".toList, f.sha256.toList ++ ".part".toList], ?_⟩
    unfold partialPath
    rw [normalise_join_part (isPart_sha (hfiles f hf).sha256),
      normalise_state_join h ⟨by decide, by decide, by decide, by decide⟩, List.append_assoc]
    rfl

theorem RegistryIn.valid {data : List (String × Toml)} {entries : List ModelEntry}
    (h : RegistryIn data entries) {e : ModelEntry} (he : e ∈ entries) :
    idRe e.id = true ∧ ∀ f ∈ e.files, f.Valid := by
  obtain ⟨t, ht⟩ := h.table e he
  exact ⟨ht.id.2.2, ht.files.valid⟩

/-- The name of a file is that of its parts. -/
theorem nameParts_injective {name name' : String} (h : nameParts name = nameParts name') :
    name = name' := by
  have hjoin := congrArg (fun parts => ['/'].intercalate parts) h
  simp only [nameParts, List.intercalate_splitOn] at hjoin
  exact String.toList_injective hjoin

/-- **Model files cannot escape or collide.** -/
theorem model_files_apart (py : Texts) {path : String} {data : List (String × Toml)}
    {entries : List ModelEntry} (h : parseRegistry py path data = .ok entries) (models : PathText) :
    (∀ e ∈ entries, ∀ f ∈ e.files, Below (normalise (filePath models e.id f))
        (normalise (modelDir models e.id)) ∧
      normalise (filePath models e.id f) ≠ normalise (stateDir models e.id) ∧
      ¬ Below (normalise (filePath models e.id f)) (normalise (stateDir models e.id))) ∧
    (∀ e ∈ entries, ∀ f ∈ e.files, ∀ e' ∈ entries, ∀ p ∈ reservedPaths models e',
      normalise (filePath models e.id f) ≠ normalise p) ∧
    ∀ e ∈ entries, ∀ f ∈ e.files, ∀ e' ∈ entries, ∀ f' ∈ e'.files,
      normalise (filePath models e.id f) = normalise (filePath models e'.id f') →
        e.id = e'.id ∧ f.name = f'.name := by
  have hvalid := fun {e} => (parseRegistry_eq_ok.1 h).valid (e := e)
  have hparts : ∀ {f : ModelFile}, f.Valid → ∀ rest, nameParts f.name ≠ STATE_DIR :: rest := by
    intro f hf rest heq
    exact (isFileName hf.name).alab (by rw [heq]; rfl)
  refine ⟨fun e he f hf => ?_, fun e he f hf e' he' p hp heq => ?_,
    fun e he f hf e' he' f' hf' heq => ?_⟩
  · obtain ⟨hid, hfiles⟩ := hvalid he
    rw [normalise_filePath hid (hfiles f hf), normalise_modelDir hid, normalise_stateDir hid]
    refine ⟨⟨rfl, nameParts f.name, List.splitOn_ne_nil _ _, by simp⟩, fun heq => ?_, ?_⟩
    · injection heq with _ heq
      injection List.append_cancel_left heq with _ heq
      exact hparts (hfiles f hf) _ heq
    · rintro ⟨-, rest, -, heq⟩
      rw [List.append_assoc] at heq
      injection List.append_cancel_left heq with _ heq
      exact hparts (hfiles f hf) _ heq
  · obtain ⟨hid, hfiles⟩ := hvalid he
    obtain ⟨hid', hfiles'⟩ := hvalid he'
    obtain ⟨rest, hrest⟩ := normalise_reserved hid' hfiles' hp
    rw [normalise_filePath hid (hfiles f hf), hrest] at heq
    injection heq with _ heq
    injection List.append_cancel_left heq with _ heq
    exact hparts (hfiles f hf) _ heq
  · obtain ⟨hid, hfiles⟩ := hvalid he
    obtain ⟨hid', hfiles'⟩ := hvalid he'
    rw [normalise_filePath hid (hfiles f hf), normalise_filePath hid' (hfiles' f' hf')] at heq
    injection heq with _ heq
    injection List.append_cancel_left heq with hids hnames
    exact ⟨String.toList_injective hids, nameParts_injective hnames⟩

def labModels : PathText := "/lab/var/models".toList

example : filePath labModels "nested" (emptyFile "gguf/config.json") =
    "/lab/var/models/nested/gguf/config.json".toList := by decide

/-- Two entries, one of which has a file of the other's name, and one of that name in a
directory. -/
theorem model_files_apart_nested :
    let config := normalise (filePath labModels "nested" (emptyFile "config.json"))
    let gguf := normalise (filePath labModels "nested" (emptyFile "gguf/config.json"))
    gguf.Below (normalise (modelDir labModels "nested")) ∧
      gguf ≠ normalise (statePath labModels "tiny") ∧
      config ≠ normalise (filePath labModels "tiny" (emptyFile "config.json")) ∧
      config ≠ gguf := by
  have h : parseRegistry ⟨fun _ => .ok "", fun _ => .ok ""⟩ "models.toml" nestedData =
      .ok [tinyEntry, nestedEntry] := parseRegistry_eq_ok.2 nested_in
  have htiny : tinyEntry ∈ [tinyEntry, nestedEntry] := List.mem_cons_self
  have hnested : nestedEntry ∈ [tinyEntry, nestedEntry] := List.mem_cons_of_mem _ List.mem_cons_self
  have hconfig : emptyFile "config.json" ∈ nestedEntry.files := List.mem_cons_self
  have hgguf : emptyFile "gguf/config.json" ∈ nestedEntry.files :=
    List.mem_cons_of_mem _ List.mem_cons_self
  obtain ⟨hbelow, hreserved, hapart⟩ := model_files_apart _ h labModels
  refine ⟨(hbelow _ hnested _ hgguf).1,
    hreserved _ hnested _ hgguf _ htiny _ List.mem_cons_self, fun heq => ?_, fun heq => ?_⟩
  · obtain ⟨hid, -⟩ := hapart _ hnested _ hconfig _ htiny _ List.mem_cons_self heq
    exact absurd hid (by decide)
  · obtain ⟨-, hname⟩ := hapart _ hnested _ hconfig _ hnested _ hgguf heq
    exact absurd hname (by decide)

end AgentLab.Config
