import Mathlib.Data.List.Infix
import AgentLab.Pull.Pull

/-!
# What the operations do

For each operation that changes or reads files, what is known once it has answered; and which parts
of the disk the others leave alone. `_download` works on one partial file only (`download_uses`),
and the counting and cleaning of partial files is beside the model too.
-/

namespace AgentLab.Pull

open Python Effects

variable {o : Op} {x : Choice} {d d' : Disk} {p q : Path} {name : Str}

/-- An operation that answers was not made to raise. -/
theorem exec_ok {r : o.Resp} (h : exec o x d = (.ok r, d')) :
    x.raises = none ∧ perform o x d = (.ok r, d') := by
  unfold exec at h
  split at h
  · next hraises => exact ⟨hraises, h⟩
  · cases h

theorem exec_isFile {there : Bool} (h : exec (.isFile p) x d = (.ok there, d')) :
    d' = d ∧ there = Node.isFile (d.tree p) := by
  cases (exec_ok h).2
  exact ⟨rfl, rfl⟩

theorem exec_stat {st : ℕ × ℕ} (h : exec (.stat p) x d = (.ok st, d')) :
    d' = d ∧ ∃ f, d.tree p = some (.file f) ∧ st = (f.bytes.length, f.mtime) := by
  have h := (exec_ok h).2
  unfold perform at h
  dsimp only at h
  split at h <;> cases h
  exact ⟨rfl, _, ‹_›, rfl⟩

theorem exec_read {bytes : Bytes} (h : exec (.read p) x d = (.ok bytes, d')) :
    d' = d ∧ ∃ f, d.tree p = some (.file f) ∧ bytes = f.bytes := by
  have h := (exec_ok h).2
  unfold perform at h
  dsimp only at h
  split at h <;> cases h
  exact ⟨rfl, _, ‹_›, rfl⟩

theorem exec_unlink {u : Unit} (h : exec (.unlink p) x d = (.ok u, d')) :
    d' = d.put p none := by
  have h := (exec_ok h).2
  unfold perform at h
  dsimp only at h
  split at h <;> cases h
  rfl

theorem exec_loadState {state : Option Json} (h : exec .loadState x d = (.ok state, d')) :
    d' = d ∧ state = d.state := by
  cases (exec_ok h).2
  exact ⟨rfl, rfl⟩

theorem exec_saveState {data : Json} {u : Unit} (h : exec (.saveState data) x d = (.ok u, d')) :
    d' = { d with state := some data } := by
  cases (exec_ok h).2
  rfl

theorem exec_readPartial {bytes : Bytes} (h : exec (.readPartial name) x d = (.ok bytes, d')) :
    d' = d ∧ ∃ f, Dict.get? d.partials name = some f ∧ bytes = f.bytes := by
  have h := (exec_ok h).2
  unfold perform at h
  dsimp only at h
  split at h <;> cases h
  exact ⟨rfl, _, ‹_›, rfl⟩

theorem exec_removePartial {u : Unit} (h : exec (.removePartial name) x d = (.ok u, d')) :
    d' = d.dropPartial name := by
  have h := (exec_ok h).2
  unfold perform at h
  dsimp only at h
  split at h <;> cases h
  rfl

theorem exec_makeParents {u : Unit} (h : exec (.makeParents p) x d = (.ok u, d')) :
    d' = d.makeDirs p.dropLast ∧ ∀ q, q <+: p.dropLast → Node.isFile (d.tree q) = false := by
  have h := (exec_ok h).2
  unfold perform at h
  dsimp only at h
  split_ifs at h with hany
  · cases h
  refine ⟨(Prod.mk.inj h).2.symm, fun q hq => ?_⟩
  by_contra hfile
  exact hany (List.any_eq_true.2 ⟨q, (List.mem_inits _ _).2 hq, by simpa using hfile⟩)

theorem exec_replace {u : Unit} (h : exec (.replace name p) x d = (.ok u, d')) :
    ∃ f, Dict.get? d.partials name = some f ∧
      d' = (d.put p (some (.file f))).dropPartial name := by
  have h := (exec_ok h).2
  unfold perform at h
  dsimp only at h
  split at h <;> cases h
  exact ⟨_, ‹_›, rfl⟩

theorem put_self (d : Disk) (p : Path) (node : Option Node) : (d.put p node).tree p = node :=
  if_pos rfl

theorem put_of_ne (d : Disk) {p q : Path} (node : Option Node) (h : q ≠ p) :
    (d.put p node).tree q = d.tree q := if_neg h

theorem file_of_put {node : Option Node} {file : File} (hnode : Node.isFile node = false)
    (h : (d.put q node).tree p = some (.file file)) : d.tree p = some (.file file) := by
  unfold Disk.put at h
  dsimp only at h
  split_ifs at h
  · rw [h] at hnode
    cases hnode
  · exact h

theorem file_of_makeDirs {file : File} (h : (d.makeDirs q).tree p = some (.file file)) :
    d.tree p = some (.file file) := by
  unfold Disk.makeDirs at h
  dsimp only at h
  split_ifs at h
  · cases h
  · exact h

/-- A file that is there after an operation was there before, or is moved there. -/
theorem exec_file {file : File} (h : (exec o x d).2.tree p = some (.file file)) :
    d.tree p = some (.file file) ∨
      ∃ n, o = .replace n p ∧ Dict.get? d.partials n = some file := by
  unfold exec at h
  split at h
  · cases o with
    | makeRoot =>
      unfold perform at h
      dsimp only at h
      split at h
      · exact .inl h
      · exact .inl (file_of_put rfl h)
    | unlink q =>
      unfold perform at h
      dsimp only at h
      split at h
      · exact .inl (file_of_put rfl h)
      · exact .inl h
    | makeParents q =>
      unfold perform at h
      dsimp only at h
      split at h
      · exact .inl h
      · exact .inl (file_of_makeDirs h)
    | replace n q =>
      unfold perform at h
      dsimp only at h
      split at h
      · exact .inl h
      · exact .inl h
      · next file' hpartial _ _ =>
        change (d.put q (some (.file file'))).tree p = _ at h
        by_cases hq : p = q
        · subst hq
          obtain rfl : file' = file := by simpa only [put_self, Option.some.injEq,
            Node.file.injEq] using h
          exact .inr ⟨n, rfl, hpartial⟩
        · rw [put_of_ne d _ hq] at h
          exact .inl h
      · exact .inl h
    | removePartial n | stat q | read q | statPartial n | readPartial n =>
      unfold perform at h
      dsimp only at h
      split at h <;> exact .inl h
    | _ => exact .inl h
  · cases o <;> exact .inl h

/-! ## What stays -/

/-- The operations that only read. -/
def Reads : Op → Prop
  | .lock | .partialNames | .loadState | .isFile _ | .stat _ | .read _ | .partialSize _
  | .statPartial _ | .readPartial _ | .diskFree _ | .fetch _ _ | .diskUsage | .monotonic => True
  | _ => False

theorem exec_reads (ho : Reads o) (x : Choice) (d : Disk) : (exec o x d).2 = d := by
  unfold exec
  split
  · cases o with
    | stat p | read p | statPartial n | readPartial n =>
      simp only [perform]
      split <;> rfl
    | lock | partialNames | loadState | isFile p | partialSize n | diskFree n | fetch url offset
    | diskUsage | monotonic => rfl
    | _ => exact ho.elim
  · cases o with
    | writePartial n chunk => exact ho.elim
    | _ => rfl

/-- The operations on one partial file, and those that change nothing. -/
def OnPartial (name : Str) : Op → Prop
  | .removePartial n | .touchPartial n | .openPartial n _ | .writePartial n _ => n = name
  | .partialSize _ | .statPartial _ | .fetch _ _ => True
  | _ => False

/-- Two disks that differ in one partial file at most. -/
structure SameBut (name : Str) (d d' : Disk) : Prop where
  tree : d'.tree = d.tree
  state : d'.state = d.state
  partials : ∀ n, n ≠ name → Dict.get? d'.partials n = Dict.get? d.partials n

theorem SameBut.refl (name : Str) (d : Disk) : SameBut name d d := ⟨rfl, rfl, fun _ _ => rfl⟩

theorem SameBut.trans {d'' : Disk} (h : SameBut name d d') (h' : SameBut name d' d'') :
    SameBut name d d'' :=
  ⟨h'.tree.trans h.tree, h'.state.trans h.state,
    fun n hn => (h'.partials n hn).trans (h.partials n hn)⟩

theorem sameBut_setPartial (d : Disk) (name : Str) (f : File) :
    SameBut name d (d.setPartial name f) :=
  ⟨rfl, rfl, fun _ hn => Dict.get?_set_of_ne _ _ (Ne.symm hn)⟩

theorem sameBut_dropPartial (d : Disk) (name : Str) : SameBut name d (d.dropPartial name) := by
  refine ⟨rfl, rfl, fun n hn => ?_⟩
  show Dict.get? (Dict.pop d.partials name) n = _
  rw [Dict.get?_pop, if_neg (Ne.symm hn)]

theorem exec_onPartial (ho : OnPartial name o) (x : Choice) (d : Disk) :
    SameBut name d (exec o x d).2 := by
  have hperform : SameBut name d (perform o x d).2 := by
    cases o with
    | removePartial n =>
      cases ho
      simp only [perform]
      split
      · exact sameBut_dropPartial d name
      · exact .refl name d
    | touchPartial n | openPartial n _ | writePartial n _ =>
      cases ho
      exact sameBut_setPartial ..
    | statPartial n =>
      simp only [perform]
      split <;> exact .refl name d
    | partialSize n | fetch url offset => exact .refl name d
    | _ => cases ho
  unfold exec
  split
  · exact hperform
  · cases o with
    | writePartial n chunk =>
      cases ho
      exact sameBut_setPartial ..
    | _ => exact .refl name d

/-- The operations that leave the model and its records alone. -/
def Besides (o : Op) : Prop := Reads o ∨ ∃ name, OnPartial name o

theorem exec_besides (ho : Besides o) (x : Choice) (d : Disk) :
    (exec o x d).2.tree = d.tree ∧ (exec o x d).2.state = d.state := by
  obtain ho | ⟨name, ho⟩ := ho
  · rw [exec_reads ho]
    exact ⟨rfl, rfl⟩
  · have h := exec_onPartial ho x d
    exact ⟨h.tree, h.state⟩

/-! ## Programs beside the model -/

theorem removeStray_removes (wanted names : List Str) :
    Uses (fun o => ∃ n ∉ wanted, o = .removePartial n) (removeStray wanted names) := by
  induction names with
  | nil => trivial
  | cons name names ih =>
    unfold removeStray
    split_ifs with hwanted
    · exact ih
    · exact uses_bind (uses_op ⟨name, hwanted, rfl⟩) fun _ => ih

theorem removeStray_uses (wanted names : List Str) : Uses Besides (removeStray wanted names) := by
  refine uses_mono (fun o ho => ?_) (removeStray_removes wanted names)
  obtain ⟨name, -, rfl⟩ := ho
  exact .inr ⟨name, rfl⟩

theorem remaining_asks (files : List ModelFile) :
    Uses (fun o => ∃ name, o = .partialSize name) (remaining files) := by
  induction files with
  | nil => trivial
  | cons f files ih => exact uses_bind (uses_op ⟨_, rfl⟩) fun _ => uses_bind ih fun _ => trivial

theorem remaining_uses (files : List ModelFile) : Uses Besides (remaining files) := by
  refine uses_mono (fun o ho => ?_) (remaining_asks files)
  obtain ⟨name, rfl⟩ := ho
  exact .inl trivial

/-- What is recorded of a file is asked with a `stat` of it. -/
theorem recorded_asks (options : Options) (records : Records) (f : ModelFile) :
    Uses (fun o => o = .stat f.path) (recorded options records f) := by
  unfold recorded knownSha256
  split_ifs
  · trivial
  split
  · refine uses_handle (uses_bind (uses_op rfl) fun _ => trivial) fun e => ?_
    cases e <;> trivial
  · trivial

theorem writeChunks_writes (f : ModelFile) (breaks : Option Exc) (chunks : List Bytes) :
    Uses (fun o => ∃ chunk, o = .writePartial f.partialName chunk)
      (writeChunks f breaks chunks) := by
  induction chunks with
  | nil => cases breaks <;> trivial
  | cons chunk chunks ih =>
    refine uses_bind (uses_op ⟨chunk, rfl⟩) fun size => ?_
    split_ifs
    · trivial
    · exact ih

theorem writeChunks_uses (f : ModelFile) (breaks : Option Exc) (chunks : List Bytes) :
    Uses (OnPartial f.partialName) (writeChunks f breaks chunks) :=
  uses_mono (fun _ ⟨_, ho⟩ => by rw [ho]; rfl) (writeChunks_writes f breaks chunks)

theorem request_uses (url : Str) (f : ModelFile) (offset : ℕ) :
    Uses (OnPartial f.partialName) (request url f offset) := by
  refine uses_bind (uses_op trivial) fun reply => uses_bind (uses_op rfl) fun _ =>
    uses_bind (writeChunks_uses f _ _) fun _ => ?_
  cases reply.closes <;> trivial

theorem startOffset_uses (f : ModelFile) : Uses (OnPartial f.partialName) (startOffset f) := by
  refine uses_bind (uses_op trivial) fun size => ?_
  split_ifs
  · exact uses_bind (uses_op rfl) fun _ => trivial
  · trivial

theorem attempt_uses (options : Options) (url : Str) (f : ModelFile) (offset : ℕ) :
    Uses (OnPartial f.partialName) (attempt options url f offset) := by
  refine uses_handle (uses_bind (request_uses url f offset) fun _ => trivial) fun e => ?_
  cases transient? options e <;> trivial

/-- `_download` works on the partial file only. -/
theorem download_uses (options : Options) (url : Str) (f : ModelFile) (left : ℕ) :
    Uses (OnPartial f.partialName) (download options url f left) := by
  induction left with
  | zero => trivial
  | succ left ih =>
    refine uses_bind (startOffset_uses f) fun offset => ?_
    by_cases hsize : offset = f.size
    · rw [if_pos hsize]
      exact uses_op rfl
    rw [if_neg hsize]
    refine uses_bind (attempt_uses options url f offset) fun failure => ?_
    cases failure with
    | some text =>
      show Uses _ (if left = 0 then _ else _)
      split_ifs
      · trivial
      · exact ih
    | none =>
      refine uses_bind (uses_op trivial) fun size => ?_
      split_ifs
      · trivial
      · exact uses_bind (uses_op rfl) fun _ => trivial
      · trivial
      · exact ih

theorem download_besides (options : Options) (url : Str) (f : ModelFile) (left : ℕ) :
    Uses Besides (download options url f left) :=
  uses_mono (fun _ ho => .inr ⟨_, ho⟩) (download_uses options url f left)

end AgentLab.Pull
