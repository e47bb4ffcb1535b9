import AgentLab.Lib.Runs
import AgentLab.Pull.Operations

/-!
# What is downloaded is verified

Every record of `.alab/state.json` is true of the content that goes with its path, size and time: a
hash is recorded only next to the file that was hashed. This holds between any two operations of a
pull (`pull_keeps`), so it survives a kill, a change of the registry and a change of the files; and
then `local_state` says DOWNLOADED only of files with the hashes of the registry.
-/

namespace AgentLab.Pull

open Python Effects

/-- The content that goes with a path, a size and a modification time. -/
abbrev Contents := Path → ℕ → ℕ → Bytes

/-- Every file has the content that goes with its size and time. -/
def Consistent (K : Contents) (d : Disk) : Prop :=
  ∀ p f, d.tree p = some (.file f) → K p f.bytes.length f.mtime = f.bytes

/-- Every record has the hash of the content that goes with its size and time. -/
def Records.Truthful (tools : Tools) (K : Contents) (records : Records) : Prop :=
  ∀ name size mtime sha, recordSha (records.record name) size mtime = some sha →
    sha = tools.sha256 (K (parts name) size mtime)

/-- What holds between any two operations. -/
structure Sound (tools : Tools) (K : Contents) (d : Disk) : Prop where
  consistent : Consistent K d
  truthful : (Records.load tools.text d.state).Truthful tools K

variable {tools : Tools} {options : Options} {K : Contents} {records : Records} {f : ModelFile}
  {entry : ModelEntry} {d d' : Disk} {name : Str}

/-! ## Records -/

theorem truthful_nil : (Records.mk [] []).Truthful tools K := fun _ _ _ _ h => nomatch h

theorem truthful_forget (h : records.Truthful tools K) :
    (records.forget name).Truthful tools K := by
  intro name' size mtime sha hsha
  rw [record_forget] at hsha
  split_ifs at hsha
  · cases hsha
  · exact h _ _ _ _ hsha

theorem truthful_fail (h : records.Truthful tools K) : (records.fail name).Truthful tools K := by
  intro name' size mtime sha hsha
  rw [record_fail] at hsha
  exact h _ _ _ _ hsha

/-- The record of a file that was hashed is true. -/
theorem truthful_remember {file : File} (h : records.Truthful tools K) (hd : Consistent K d)
    (hfile : d.tree (parts name) = some (.file file)) :
    (records.remember name file.bytes.length file.mtime (tools.sha256 file.bytes)).Truthful
      tools K := by
  intro name' size mtime sha hsha
  rw [record_remember] at hsha
  split_ifs at hsha with hname
  · obtain ⟨rfl, rfl, rfl⟩ := recordSha_remember.1 hsha
    rw [← hname, hd _ _ hfile]
  · exact h _ _ _ _ hsha

/-! ## Operations -/

/-- No two contents of a path have the same size and time. -/
def distinct (K : Contents) : Disk → Op → Choice → Prop := fun d o x => Consistent K (exec o x d).2

def NotSave : Op → Prop
  | .saveState _ => False
  | _ => True

theorem perform_state {o : Op} (ho : NotSave o) (x : Choice) (d : Disk) :
    (perform o x d).2.state = d.state := by
  cases o with
  | saveState data => exact ho.elim
  | makeRoot | removePartial n | stat p | read p | unlink p | statPartial n | readPartial n
  | makeParents p | replace n p =>
    simp only [perform]
    split <;> rfl
  | _ => rfl

/-- Only `save` writes `state.json`. -/
theorem exec_state {o : Op} (ho : NotSave o) (x : Choice) (d : Disk) :
    (exec o x d).2.state = d.state := by
  unfold exec
  split
  · exact perform_state ho x d
  · cases o <;> rfl

theorem sound_exec {o : Op} (ho : NotSave o) (x : Choice) (h : Sound tools K d)
    (hx : distinct K d o x) : Sound tools K (exec o x d).2 :=
  ⟨hx, exec_state ho x d ▸ h.truthful⟩

/-- Every run of the program stays sound, and returns with `Q`. -/
abbrev Keeps (tools : Tools) (K : Contents) {α : Type} (Q : α → Disk → Prop) (p : Script α)
    (d : Disk) : Prop :=
  wp exec (distinct K) (Sound tools K) Q (fun _ => Sound tools K) p d

variable {α : Type} {Q : α → Disk → Prop}

/-- An operation other than `save`, and then the rest. -/
theorem keeps_call {o : Op} {k : o.Resp → Script α} (ho : NotSave o) (h : Sound tools K d)
    (hk : ∀ x r d', exec o x d = (.ok r, d') → Sound tools K d' → Keeps tools K Q (k r) d') :
    Keeps tools K Q (call o >>= k) d := by
  refine wp_op_bind (fun x hx => sound_exec ho x h hx) (fun x r d' hx hr => ?_)
    (fun x e d' hx hr => ?_)
  · exact hk x r d' hr (by simpa only [hr] using sound_exec ho x h hx)
  · simpa only [hr] using sound_exec ho x h hx

/-- `save` of true records, and then the rest. -/
theorem keeps_save {k : Unit → Script α} (h : Sound tools K d) (hrecords : records.Truthful tools K)
    (hk : ∀ d', Sound tools K d' → Keeps tools K Q (k ()) d') :
    Keeps tools K Q (call (.saveState records.dump) >>= k) d := by
  have hsound : ∀ x, distinct K d (.saveState records.dump) x →
      Sound tools K (exec (.saveState records.dump) x d).2 := by
    intro x hx
    refine ⟨hx, ?_⟩
    cases hraises : x.raises with
    | none =>
      simp only [exec, hraises, perform, load_dump]
      exact hrecords
    | some e =>
      simp only [exec, hraises]
      exact h.truthful
  refine wp_op_bind hsound (fun x r d' hx hr => ?_) fun x e d' hx hr => ?_
  · exact hk d' (by simpa only [hr] using hsound x hx)
  · simpa only [hr] using hsound x hx

/-- A program that does not save. -/
theorem keeps_uses {p : Script α} (hp : Uses NotSave p) (h : Sound tools K d) :
    Keeps tools K (fun _ => Sound tools K) p d :=
  wp_uses hp (fun _ x _ ho hd hx => sound_exec ho x hd hx) h

theorem keeps_besides {p : Script α} (hp : Uses Besides p) (h : Sound tools K d) :
    Keeps tools K (fun _ => Sound tools K) p d := by
  refine keeps_uses (uses_mono (fun o ho => ?_) hp) h
  cases o with
  | saveState data => exact ho.elim id fun h => h.elim fun _ h => h
  | _ => trivial

/-! ## The functions -/

theorem recorded_uses (options : Options) (records : Records) (f : ModelFile) :
    Uses NotSave (recorded options records f) := by
  refine uses_mono (fun o ho => ?_) (recorded_asks options records f)
  subst ho
  trivial

/-- `remember` of a file whose hash is known. -/
theorem remember_keeps {file : File} (h : Sound tools K d) (hrecords : records.Truthful tools K)
    (hfile : d.tree f.path = some (.file file)) :
    Keeps tools K (fun records d => Sound tools K d ∧ records.Truthful tools K)
      (remember records f (tools.sha256 file.bytes)) d := by
  refine keeps_call trivial h fun x st d' hx h' => wp_pure ?_
  obtain ⟨rfl, file', hfile', rfl⟩ := exec_stat hx
  obtain rfl : file = file' := by simpa using hfile.symm.trans hfile'
  exact ⟨h', truthful_remember hrecords h.consistent hfile⟩

theorem knownOrHashed_keeps (h : Sound tools K d) (hrecords : records.Truthful tools K) :
    Keeps tools K (fun known d => Sound tools K d ∧ known.1.Truthful tools K)
      (knownOrHashed tools options records f) d := by
  refine wp_seq (keeps_uses (recorded_uses options records f) h) fun known d₁ h₁ => ?_
  cases known with
  | some known => exact ⟨h₁, hrecords⟩
  | none =>
    refine keeps_call trivial h₁ fun x bytes d₂ hx h₂ => ?_
    obtain ⟨rfl, file, hfile, rfl⟩ := exec_read hx
    exact wp_bind (remember_keeps h₂ hrecords hfile)

theorem checkFile_keeps (h : Sound tools K d) (hrecords : records.Truthful tools K) :
    Keeps tools K (fun checked d => Sound tools K d ∧ checked.1.Truthful tools K)
      (checkFile tools options records f) d := by
  refine keeps_call trivial h fun x there d₁ hx h₁ => ?_
  cases there with
  | false => exact ⟨h₁, truthful_forget hrecords⟩
  | true =>
    refine wp_seq (knownOrHashed_keeps h₁ hrecords) fun known d₂ h₂ => ?_
    split_ifs
    · exact h₂
    · exact keeps_call trivial h₂.1 fun x _ d₃ hx h₃ => ⟨h₃, truthful_forget h₂.2⟩

theorem checkFiles_keeps (files : List ModelFile) : ∀ {records : Records} {d : Disk},
    Sound tools K d → records.Truthful tools K →
    Keeps tools K (fun checked d => Sound tools K d ∧ checked.1.Truthful tools K)
      (checkFiles tools options files records) d := by
  induction files with
  | nil => exact fun h hrecords => ⟨h, hrecords⟩
  | cons f files ih =>
    intro records d h hrecords
    refine wp_seq (checkFile_keeps h hrecords) fun checked d₁ h₁ => ?_
    exact wp_bind (ih h₁.1 h₁.2)

theorem install_keeps (h : Sound tools K d) (hrecords : records.Truthful tools K) :
    Keeps tools K (fun installed d => Sound tools K d ∧ installed.1.Truthful tools K)
      (install tools options entry records f) d := by
  refine wp_seq (keeps_besides (download_besides options _ f RETRIES) h) fun _ d₁ h₁ => ?_
  refine keeps_call trivial h₁ fun x bytes d₂ hx h₂ => ?_
  obtain ⟨rfl, file, hfile, rfl⟩ := exec_readPartial hx
  split_ifs with hsha
  · refine keeps_call trivial h₂ fun x _ d₃ hx h₃ => ?_
    obtain ⟨rfl, -⟩ := exec_makeParents hx
    refine keeps_call trivial h₃ fun x _ d₄ hx h₄ => ?_
    obtain ⟨file', hfile', rfl⟩ := exec_replace hx
    obtain rfl : file = file' := by simpa using hfile.symm.trans hfile'
    refine wp_seq (remember_keeps h₄ hrecords (put_self _ _ _)) fun records' d₅ h₅ => ?_
    exact keeps_save h₅.1 h₅.2 fun d₆ h₆ => ⟨h₆, h₅.2⟩
  · refine keeps_call trivial h₂ fun x _ d₃ hx h₃ => ?_
    exact keeps_save h₃ (truthful_fail hrecords) fun d₄ h₄ => ⟨h₄, truthful_fail hrecords⟩

theorem installAll_keeps (files : List ModelFile) : ∀ {records : Records} {d : Disk},
    Sound tools K d → records.Truthful tools K →
    Keeps tools K (fun installed d => Sound tools K d ∧ installed.1.Truthful tools K)
      (installAll tools options entry files records) d := by
  induction files with
  | nil => exact fun h hrecords => ⟨h, hrecords⟩
  | cons f files ih =>
    intro records d h hrecords
    refine wp_seq (install_keeps h hrecords) fun installed d₁ h₁ => ?_
    exact wp_bind (ih h₁.1 h₁.2)

theorem loadRecords_keeps (h : Sound tools K d) :
    Keeps tools K (fun records d => Sound tools K d ∧ records.Truthful tools K)
      (loadRecords tools) d := by
  have hload : ∀ x, distinct K d .loadState x → Sound tools K (exec .loadState x d).2 :=
    fun x hx => sound_exec (o := .loadState) trivial x h hx
  refine wp_bind (wp_handle (wp_op hload (fun x state d' hx hr => ?_) fun x e d' hx hr => ?_))
  · have h' : Sound tools K d' := by simpa only [hr] using hload x hx
    obtain ⟨rfl, rfl⟩ := exec_loadState hr
    exact ⟨h', h'.truthful⟩
  · have h' : Sound tools K d' := by simpa only [hr] using hload x hx
    cases e with
    | os text => exact ⟨h', truthful_nil⟩
    | _ => exact h'

theorem pullLocked_keeps (h : Sound tools K d) :
    Keeps tools K (fun _ => Sound tools K) (pullLocked tools options entry) d := by
  refine keeps_call trivial h fun x names d₁ hx h₁ => ?_
  refine wp_seq (keeps_besides (removeStray_uses _ names) h₁) fun _ d₂ h₂ => ?_
  refine wp_seq (loadRecords_keeps h₂) fun records d₃ h₃ => ?_
  refine wp_seq (checkFiles_keeps entry.files h₃.1 h₃.2) fun checked d₄ h₄ => ?_
  refine keeps_save h₄.1 h₄.2 fun d₅ h₅ => ?_
  refine wp_seq (keeps_besides (remaining_uses checked.2) h₅) fun needed d₆ h₆ => ?_
  refine keeps_call trivial h₆ fun x free d₇ hx h₇ => ?_
  split_ifs
  · exact h₇
  refine wp_seq (installAll_keeps checked.2 h₇ h₄.2) fun installed d₈ h₈ => ?_
  have hcleared : Records.Truthful tools K { installed.1 with failed := [] } := h₈.2
  split_ifs
  · exact h₈.1
  · exact keeps_save h₈.1 hcleared fun d₉ h₉ => h₉

/-- **A pull stays sound**, whatever happens. -/
theorem pull_keeps (h : Sound tools K d) :
    Keeps tools K (fun _ => Sound tools K) (pull tools options entry) d := by
  refine keeps_call trivial h fun x _ d₁ hx h₁ => ?_
  refine keeps_call trivial h₁ fun x started d₂ hx h₂ => ?_
  refine keeps_call trivial h₂ fun x unlocked d₃ hx h₃ => ?_
  cases unlocked with
  | false => exact h₃
  | true =>
    refine wp_seq (pullLocked_keeps h₃) fun needed d₄ h₄ => ?_
    refine keeps_call trivial h₄ fun x ended d₅ hx h₅ => ?_
    exact keeps_call trivial h₅ fun x usage d₆ hx h₆ => h₆

/-! ## Runs -/

/-- A model directory, and the pull that is running. -/
structure Life where
  disk : Disk
  running : Option (Script PullResult)

inductive Action
  /-- A pull starts, of an entry as the registry has it then. -/
  | pull (entry : ModelEntry) (options : Options)
  /-- The pull does its next operation. -/
  | step (x : Choice)
  /-- The pull has ended, or is killed. -/
  | finished
  /-- Files are changed from outside. -/
  | change (tree : Path → Option Node) (partials : Dict File)

/-- The life of the directory of one id. -/
def step (tools : Tools) (id : Str) (s : Life) : Action → Option Life
  | .pull entry options =>
    if s.running.isNone ∧ entry.id = id then
      some { s with running := some (pull tools options entry) }
    else none
  | .step x => s.running.bind fun p => (next exec p s.disk x).map fun r => ⟨r.2, some r.1⟩
  | .finished => some { s with running := none }
  | .change tree partials =>
    if s.running.isNone then some { s with disk := { s.disk with tree, partials } } else none

/-- No two contents of a path have the same size and time, after the step either. -/
def Distinct (tools : Tools) (id : Str) (K : Contents) (s : Life) (a : Action) : Prop :=
  ∀ s', step tools id s a = some s' → Consistent K s'.disk

/-- What holds in every state: the directory is sound, and stays so in every run of what is
running. -/
structure Living (tools : Tools) (K : Contents) (s : Life) : Prop where
  sound : Sound tools K s.disk
  running : ∀ p, s.running = some p → Keeps tools K (fun _ => Sound tools K) p s.disk

variable {id : Str} {s s' : Life} {a : Action}

theorem living_step (h : Living tools K s) (hd : Distinct tools id K s a)
    (hs : step tools id s a = some s') : Living tools K s' := by
  have hconsistent := hd s' hs
  cases a with
  | pull entry options =>
    simp only [step] at hs
    split_ifs at hs
    cases hs
    refine ⟨h.sound, fun p hp => ?_⟩
    cases hp
    exact pull_keeps h.sound
  | step x =>
    obtain ⟨p, hp, hs⟩ := Option.bind_eq_some_iff.1 hs
    obtain ⟨⟨p', d'⟩, hnext, rfl⟩ := Option.map_eq_some_iff.1 hs
    have hw := wp_next (h.running p hp) hnext fun o k ho => by
      subst ho
      cases hnext
      exact hconsistent
    exact ⟨hw.1, fun q hq => Option.some.inj hq ▸ hw.2⟩
  | finished =>
    cases hs
    exact ⟨h.sound, nofun⟩
  | change tree partials =>
    simp only [step] at hs
    split_ifs at hs with hnone
    cases hs
    refine ⟨⟨hconsistent, h.sound.truthful⟩, fun p hp => ?_⟩
    rw [Option.isNone_iff_eq_none.1 hnone] at hp
    cases hp

/-- A file that is recorded with a hash has it. -/
theorem Sound.known {sha : Str} (h : Sound tools K d)
    (hknown : (Records.load tools.text d.state).known name (d.tree (parts name)) = some sha) :
    ∃ file, d.tree (parts name) = some (.file file) ∧ tools.sha256 file.bytes = sha := by
  unfold Records.known at hknown
  split at hknown
  · next file hfile =>
    refine ⟨file, hfile, ?_⟩
    rw [h.truthful _ _ _ _ hknown, h.consistent _ _ hfile]
  · cases hknown

/-- **What is downloaded is verified.** The directory starts without `state.json`; then come pulls
of any entries with the id, with any answers and errors of the file system and the server, each of
them killed anywhere, and any changes of the files between them, where no two contents of a path
have the same size and time: `K` says which content goes with them. Whenever `local_state` of an
entry is DOWNLOADED, each of its files is there, with the hash of the registry. -/
theorem downloaded_verified (tools : Tools) (id : Str) (K : Contents) (d₀ : Disk)
    (hstate : d₀.state = none) (hconsistent : Consistent K d₀) (s : Life)
    (h : Runs.Reach (step tools id) (Distinct tools id K) ⟨d₀, none⟩ s) (entry : ModelEntry)
    (hlocal : localState tools.text entry s.disk = .downloaded) :
    ∀ f ∈ entry.files, ∃ file, s.disk.tree f.path = some (.file file) ∧
      tools.sha256 file.bytes = f.sha256 := by
  have hstart : Living tools K ⟨d₀, none⟩ := by
    refine ⟨⟨hconsistent, ?_⟩, nofun⟩
    rw [hstate]
    exact truthful_nil
  have hs : Living tools K s := h.invariant hstart fun _ _ _ hI hC hs => living_step hI hC hs
  intro f hf
  exact hs.sound.known ((localState_downloaded.1 hlocal).2 f hf)

/-- No file is changed from outside, and only the small file is moved into place. -/
def onlySmall (s : Life) : Action → Bool
  | .change _ _ => false
  | .step _ =>
    match s.running with
    | some (.call (.replace name _) _) => s.disk.partialBytes name = smallBytes
    | _ => true
  | _ => true

theorem onlySmall_step (hs : Consistent (fun _ _ _ => smallBytes) s.disk)
    (ha : onlySmall s a = true) : Distinct smallTools id (fun _ _ _ => smallBytes) s a := by
  intro s' hstep
  cases a with
  | pull entry options =>
    simp only [step] at hstep
    split_ifs at hstep
    cases hstep
    exact hs
  | step x =>
    obtain ⟨p, hp, hstep⟩ := Option.bind_eq_some_iff.1 hstep
    obtain ⟨⟨p', d'⟩, hnext, rfl⟩ := Option.map_eq_some_iff.1 hstep
    cases p with
    | ret result => cases hnext
    | raise e => cases hnext
    | call o k =>
      cases hnext
      intro q file hfile
      obtain hfile | ⟨name, rfl, hpartial⟩ := exec_file hfile
      · exact hs q file hfile
      · have hsmall : s.disk.partialBytes name = smallBytes := by simpa [onlySmall, hp] using ha
        rw [← hsmall, Disk.partialBytes, hpartial]
        rfl
  | finished =>
    cases hstep
    exact hs
  | change tree partials => cases ha

theorem onlySmall_reach {s₀ : Life} (h₀ : Consistent (fun _ _ _ => smallBytes) s₀.disk)
    (h : Runs.Reach (step smallTools id) (fun s a => onlySmall s a) s₀ s) :
    Runs.Reach (step smallTools id) (Distinct smallTools id fun _ _ _ => smallBytes) s₀ s := by
  have hboth : Consistent (fun _ _ _ => smallBytes) s.disk ∧
      Runs.Reach (step smallTools id) (Distinct smallTools id fun _ _ _ => smallBytes) s₀ s := by
    induction h with
    | start => exact ⟨h₀, .start⟩
    | step _ ha hs ih =>
      have hd : Distinct smallTools id _ _ _ := onlySmall_step ih.1 ha
      exact ⟨hd _ hs, .step ih.2 hd hs⟩
  exact hboth.2

/-- A first pull of the small model. -/
theorem downloaded_verified_small : ∃ s : Life,
    localState smallTools.text smallEntry s.disk = .downloaded ∧
      ∀ f ∈ smallEntry.files, ∃ file, s.disk.tree f.path = some (.file file) ∧
        smallTools.sha256 file.bytes = f.sha256 := by
  have hstart : Consistent (fun _ _ _ => smallBytes) ⟨fun _ => none, none, []⟩ :=
    fun _ _ hfile => by cases hfile
  have hrun : ∃ s : Life, Runs.runIf (step smallTools (str "tiny")) (fun s a => onlySmall s a)
      ⟨⟨fun _ => none, none, []⟩, none⟩
      (.pull smallEntry smallOptions :: List.replicate 22 (.step quiet) ++ [.finished]) = some s ∧
        localState smallTools.text smallEntry s.disk = .downloaded := ⟨_, rfl, by decide +kernel⟩
  obtain ⟨s, hrun, hlocal⟩ := hrun
  have hreach := onlySmall_reach hstart (Runs.Reach.of_runIf hrun)
  exact ⟨s, hlocal, downloaded_verified smallTools (str "tiny") _ _ rfl hstart s hreach
    smallEntry hlocal⟩

end AgentLab.Pull
