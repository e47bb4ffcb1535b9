import AgentLab.Lib.Interference
import AgentLab.Pull.Placed
import AgentLab.Pull.Verified

/-!
# Recorded hashes and changing files

Other processes write to the files of a model while it is pulled. Beside the directory, `Watched`
keeps what has been seen of its files: the times that each has had, and the bytes that were read of
it as it is now. A recorded hash is to be one of these bytes wherever size and time match
(`Current`).

`remember` asks for size and time once the file has been hashed or moved into place. A write just
before that makes the record one of the old bytes with the new size and time
(`wrong_record`). Without such a write, records stay current in every run (`recorded_current`): a
file is hashed in one moment here, so a write while it is read counts as one after that.
-/

namespace AgentLab.Pull

open Python Effects

/-! ## Files that are watched -/

/-- A directory, the last operation of a pull, and what has been seen of the files. -/
structure Watched where
  disk : Disk
  last : Option Op
  /-- The times that the file has had. -/
  times : Path → List ℕ
  /-- What was read of the file as it is now. -/
  read : Path → Option Bytes
  /-- What was read of the partial file as it is now. -/
  partialRead : Str → Option Bytes

/-- A write of another process. -/
structure Write where
  path : Path
  bytes : Bytes
  mtime : ℕ

def Write.apply (w : Write) (s : Watched) : Watched :=
  { s with
    disk := s.disk.put w.path (some (.file ⟨w.bytes, w.mtime⟩))
    times := fun p => if p = w.path then w.mtime :: s.times p else s.times p
    read := fun p => if p = w.path then none else s.read p }

/-- The times, with those that the files have now. -/
def timesAfter (s : Watched) (d : Disk) (p : Path) : List ℕ :=
  match d.fileAt p with
  | some file => file.mtime :: s.times p
  | none => s.times p

/-- What was read, of a file that has not changed. -/
def readKept (s : Watched) (d : Disk) (p : Path) : Option Bytes :=
  if d.fileAt p = s.disk.fileAt p then s.read p else none

def partialKept (s : Watched) (d : Disk) (name : Str) : Option Bytes :=
  if Dict.get? d.partials name = Dict.get? s.disk.partials name then s.partialRead name else none

/-- What was read after an operation; what is moved into place was read as a partial file. -/
def readAfter (s : Watched) (d : Disk) : (o : Op) → Except Exc o.Resp → Path → Option Bytes
  | .read p, .ok bytes, q => if q = p then some bytes else readKept s d q
  | .replace name p, .ok _, q => if q = p then s.partialRead name else readKept s d q
  | _, _, q => readKept s d q

def partialReadAfter (s : Watched) (d : Disk) :
    (o : Op) → Except Exc o.Resp → Str → Option Bytes
  | .readPartial name, .ok bytes, n => if n = name then some bytes else partialKept s d n
  | _, _, n => partialKept s d n

/-- An operation of a pull that is watched. -/
def watch (o : Op) (x : Choice) (s : Watched) : Except Exc o.Resp × Watched :=
  ((exec o x s.disk).1, {
    disk := (exec o x s.disk).2
    last := some o
    times := timesAfter s (exec o x s.disk).2
    read := readAfter s (exec o x s.disk).2 o (exec o x s.disk).1
    partialRead := partialReadAfter s (exec o x s.disk).2 o (exec o x s.disk).1 })

/-- The pull has just hashed this file, or moved it into place. -/
def Watched.justPlaced (s : Watched) (p : Path) : Bool :=
  match s.last with
  | some (.read q) | some (.replace _ q) => q = p
  | _ => false

/-- The operation is the `stat` of `remember` for the path. -/
def Watched.remembers (s : Watched) (o : Op) (p : Path) : Bool :=
  match o with
  | .stat q => q = p && s.justPlaced p
  | _ => false

/-! ## Pulls and writes -/

/-- A watched directory, and the pull that is running. -/
structure Shared where
  scene : Watched
  running : Option (Script PullResult)

inductive Turn
  /-- A pull starts, of an entry as the registry has it then. -/
  | pull (entry : ModelEntry) (options : Options)
  /-- The pull does its next operation. -/
  | step (x : Choice)
  /-- The pull has ended, or is killed. -/
  | finished
  /-- Another process writes to a file, which gets a time that it never had. -/
  | write (w : Write)

/-- A model directory that others write to. -/
def Shared.step (tools : Tools) (id : Str) (s : Shared) : Turn → Option Shared
  | .pull entry options =>
    if s.running.isNone ∧ entry.id = id then
      some { s with running := some (pull tools options entry) }
    else none
  | .step x => s.running.bind fun p => (next watch p s.scene x).map fun r => ⟨r.2, some r.1⟩
  | .finished => some { s with running := none }
  | .write w =>
    if w.mtime ∉ s.scene.times w.path then some { s with scene := w.apply s.scene } else none

/-- No write comes between hashing or moving the file and the `stat` of `remember`. -/
def NotBetween (s : Shared) : Turn → Prop
  | .write w =>
    match s.running with
    | some (.call o _) => s.scene.remembers o w.path = false
    | _ => True
  | _ => True

instance (s : Shared) : ∀ a, Decidable (NotBetween s a)
  | .write w =>
    match h : s.running with
    | some (.call o _) =>
      decidable_of_iff (s.scene.remembers o w.path = false) (by simp only [NotBetween, h])
    | some (.ret _) | some (.raise _) | none => .isTrue (by simp only [NotBetween, h])
  | .pull _ _ | .step _ | .finished => .isTrue trivial

/-- A directory of which nothing has been read yet. -/
def Watched.new (d : Disk) : Watched where
  disk := d
  last := none
  times p := ((d.fileAt p).map File.mtime).toList
  read _ := none
  partialRead _ := none

/-! ## What is known of a watched directory -/

/-- What has been seen is true of the files as they are. -/
structure Tracked (s : Watched) : Prop where
  times : ∀ p file, s.disk.fileAt p = some file → file.mtime ∈ s.times p
  read : ∀ p bytes, s.read p = some bytes → ∃ file, s.disk.fileAt p = some file ∧ file.bytes = bytes
  partialRead : ∀ name bytes, s.partialRead name = some bytes →
    ∃ file, Dict.get? s.disk.partials name = some file ∧ file.bytes = bytes

/-- Each record has a time that the file has had; where size and time are those of the file as it is
now, the hash is the one of what was read of it. -/
def Records.Current (tools : Tools) (s : Watched) (records : Records) : Prop :=
  ∀ name size mtime sha, recordSha (records.record name) size mtime = some sha →
    mtime ∈ s.times (parts name) ∧
      ∀ file, s.disk.fileAt (parts name) = some file → file.bytes.length = size →
        file.mtime = mtime → ∃ bytes, s.read (parts name) = some bytes ∧ sha = tools.sha256 bytes

/-- What holds of the directory at any time. -/
structure Kept (tools : Tools) (s : Watched) : Prop where
  tracked : Tracked s
  current : (Records.load tools.text s.disk.state).Current tools s

/-- What holds while a pull has these records. -/
structure Holds (tools : Tools) (records : Records) (s : Watched) : Prop where
  kept : Kept tools s
  current : records.Current tools s

variable {tools : Tools} {options : Options} {entry : ModelEntry} {f : ModelFile}
  {records records' : Records} {s s' : Watched} {d : Disk} {w : Write} {o : Op} {x : Choice}
  {name : Str} {p : Path} {bytes : Bytes} {file : File}

theorem new_tracked (d : Disk) : Tracked (.new d) := by
  refine ⟨fun p file hfile => ?_, nofun, nofun⟩
  have htimes : (Watched.new d).times p = ((d.fileAt p).map File.mtime).toList := rfl
  have hfile : d.fileAt p = some file := hfile
  rw [htimes, hfile]
  exact List.mem_singleton_self _

theorem current_nil : (Records.mk [] []).Current tools s := fun _ _ _ _ h => nomatch h

theorem current_forget (h : records.Current tools s) : (records.forget name).Current tools s := by
  intro name' size mtime sha hsha
  rw [record_forget] at hsha
  split_ifs at hsha
  · cases hsha
  · exact h _ _ _ _ hsha

theorem current_fail (h : records.Current tools s) : (records.fail name).Current tools s := by
  intro name' size mtime sha hsha
  rw [record_fail] at hsha
  exact h _ _ _ _ hsha

/-- The record of what was read of the file as it is now. -/
theorem current_remember (h : records.Current tools s) (hs : Tracked s)
    (hfile : s.disk.fileAt (parts name) = some file) (hread : s.read (parts name) = some bytes) :
    (records.remember name file.bytes.length file.mtime (tools.sha256 bytes)).Current tools s := by
  intro name' size mtime sha hsha
  rw [record_remember] at hsha
  split_ifs at hsha with hname
  · obtain ⟨rfl, rfl, rfl⟩ := recordSha_remember.1 hsha
    subst hname
    exact ⟨hs.times _ _ hfile, fun _ _ _ _ => ⟨bytes, hread, rfl⟩⟩
  · exact h _ _ _ _ hsha

/-! ## Writes -/

theorem fileAt_apply (w : Write) (s : Watched) (p : Path) : (w.apply s).disk.fileAt p =
    if p = w.path then some ⟨w.bytes, w.mtime⟩ else s.disk.fileAt p := by
  unfold Write.apply
  split_ifs with hp
  · rw [hp]
    exact fileAt_put_file
  · exact fileAt_put_of_ne _ hp

theorem tracked_apply (h : Tracked s) (w : Write) : Tracked (w.apply s) := by
  refine ⟨fun p file hfile => ?_, fun p bytes hread => ?_, h.partialRead⟩
  · rw [fileAt_apply] at hfile
    show file.mtime ∈ if p = w.path then w.mtime :: s.times p else s.times p
    split_ifs at hfile ⊢
    · cases hfile
      exact List.mem_cons_self
    · exact h.times p file hfile
  · have hread : (if p = w.path then none else s.read p) = some bytes := hread
    rw [fileAt_apply]
    split_ifs at hread ⊢
    exact h.read p bytes hread

/-- A write gives the file a time that no record has. -/
theorem current_apply (h : records.Current tools s) (hw : w.mtime ∉ s.times w.path) :
    records.Current tools (w.apply s) := by
  intro name size mtime sha hsha
  obtain ⟨htime, hcurrent⟩ := h name size mtime sha hsha
  refine ⟨?_, fun file hfile hsize hmtime => ?_⟩
  · show mtime ∈ if parts name = w.path then w.mtime :: s.times (parts name)
      else s.times (parts name)
    split_ifs
    · exact List.mem_cons_of_mem _ htime
    · exact htime
  · rw [fileAt_apply] at hfile
    show ∃ bytes, (if parts name = w.path then none else s.read (parts name)) = some bytes ∧ _
    split_ifs at hfile ⊢ with hpath
    · cases hfile
      rw [hpath, ← hmtime] at htime
      exact absurd htime hw
    · exact hcurrent file hfile hsize hmtime

theorem kept_apply (h : Kept tools s) (hw : w.mtime ∉ s.times w.path) : Kept tools (w.apply s) :=
  ⟨tracked_apply h.tracked w, current_apply h.current hw⟩

theorem holds_apply (h : Holds tools records s) (hw : w.mtime ∉ s.times w.path) :
    Holds tools records (w.apply s) := ⟨kept_apply h.kept hw, current_apply h.current hw⟩

/-! ## Operations -/

theorem readKept_eq_some (h : readKept s d p = some bytes) :
    d.fileAt p = s.disk.fileAt p ∧ s.read p = some bytes := by
  unfold readKept at h
  split_ifs at h with hsame
  exact ⟨hsame, h⟩

theorem partialKept_eq_some (h : partialKept s d name = some bytes) :
    Dict.get? d.partials name = Dict.get? s.disk.partials name ∧
      s.partialRead name = some bytes := by
  unfold partialKept at h
  split_ifs at h with hsame
  exact ⟨hsame, h⟩

theorem watch_eq {result : Except Exc o.Resp} (hx : exec o x s.disk = (result, d)) :
    watch o x s = (result, ⟨d, some o, timesAfter s d, readAfter s d o result,
      partialReadAfter s d o result⟩) := by
  unfold watch
  rw [hx]

/-- An operation that answers. -/
theorem watch_ok {r : o.Resp} (h : watch o x s = (.ok r, s')) :
    ∃ d, exec o x s.disk = (.ok r, d) ∧ s' = ⟨d, some o, timesAfter s d, readAfter s d o (.ok r),
      partialReadAfter s d o (.ok r)⟩ := by
  generalize hx : exec o x s.disk = result at h
  obtain ⟨answer, d⟩ := result
  rw [watch_eq hx] at h
  cases h
  exact ⟨d, rfl, rfl⟩

/-- What is said to be read of a file after an operation is what is in it. -/
theorem readAfter_sound {result : Except Exc o.Resp} (h : Tracked s)
    (hx : exec o x s.disk = (result, d)) (hread : readAfter s d o result p = some bytes) :
    ∃ file, d.fileAt p = some file ∧ file.bytes = bytes := by
  have hkept (hread : readKept s d p = some bytes) :
      ∃ file, d.fileAt p = some file ∧ file.bytes = bytes := by
    obtain ⟨hsame, hread⟩ := readKept_eq_some hread
    rw [hsame]
    exact h.read p bytes hread
  cases o with
  | read q =>
    cases result with
    | error e => exact hkept hread
    | ok bytes' =>
      simp only [readAfter] at hread
      split_ifs at hread with hpath
      · cases hread
        obtain ⟨rfl, file, hfile, rfl⟩ := exec_read hx
        exact ⟨file, fileAt_eq_some.2 (hpath ▸ hfile), rfl⟩
      · exact hkept hread
  | replace name q =>
    cases result with
    | error e => exact hkept hread
    | ok u =>
      simp only [readAfter] at hread
      split_ifs at hread with hpath
      · obtain ⟨file, hfile, hbytes⟩ := h.partialRead name bytes hread
        obtain ⟨file', hfile', rfl⟩ := exec_replace hx
        obtain rfl : file' = file := by simpa [hfile'] using hfile
        exact ⟨file', hpath ▸ fileAt_put_file, hbytes⟩
      · exact hkept hread
  | _ => exact hkept hread

theorem partialReadAfter_sound {result : Except Exc o.Resp} (h : Tracked s)
    (hx : exec o x s.disk = (result, d))
    (hread : partialReadAfter s d o result name = some bytes) :
    ∃ file, Dict.get? d.partials name = some file ∧ file.bytes = bytes := by
  have hkept (hread : partialKept s d name = some bytes) :
      ∃ file, Dict.get? d.partials name = some file ∧ file.bytes = bytes := by
    obtain ⟨hsame, hread⟩ := partialKept_eq_some hread
    rw [hsame]
    exact h.partialRead name bytes hread
  cases o with
  | readPartial n =>
    cases result with
    | error e => exact hkept hread
    | ok bytes' =>
      simp only [partialReadAfter] at hread
      split_ifs at hread with hname
      · cases hread
        obtain ⟨rfl, file, hfile, rfl⟩ := exec_readPartial hx
        exact ⟨file, hname ▸ hfile, rfl⟩
      · exact hkept hread
  | _ => exact hkept hread

theorem tracked_watch (h : Tracked s) (o : Op) (x : Choice) : Tracked (watch o x s).2 := by
  generalize hx : exec o x s.disk = r
  obtain ⟨result, d⟩ := r
  rw [watch_eq hx]
  refine ⟨fun p file hfile => ?_, fun p bytes hread => readAfter_sound h hx hread,
    fun name bytes hread => partialReadAfter_sound h hx hread⟩
  change d.fileAt p = some file at hfile
  show file.mtime ∈ timesAfter s d p
  unfold timesAfter
  rw [hfile]
  exact List.mem_cons_self

/-- What was read of a file that an operation leaves is still what was read of it. -/
theorem readAfter_kept {result : Except Exc o.Resp} (h : Tracked s)
    (hx : exec o x s.disk = (result, d)) (hsame : d.fileAt p = s.disk.fileAt p)
    (hreplace : ∀ name, o ≠ .replace name p) (hread : s.read p = some bytes) :
    readAfter s d o result p = some bytes := by
  have hkept : readKept s d p = some bytes := by
    unfold readKept
    rw [if_pos hsame, hread]
  cases o with
  | read q =>
    cases result with
    | error e => exact hkept
    | ok bytes' =>
      simp only [readAfter]
      split_ifs with hpath
      · obtain ⟨rfl, file, hfile, rfl⟩ := exec_read hx
        obtain ⟨file', hfile', rfl⟩ := h.read p bytes hread
        obtain rfl : file = file' := by
          rw [hpath, fileAt_eq_some.2 hfile] at hfile'
          exact Option.some.inj hfile'
        rfl
      · exact hkept
  | replace name q =>
    cases result with
    | error e => exact hkept
    | ok u =>
      simp only [readAfter]
      have hpath : p ≠ q := fun hpath => hreplace name (congrArg (Op.replace name) hpath.symm)
      rw [if_neg hpath]
      exact hkept
  | _ => exact hkept

/-- Records stay current in an operation that moves no file which they are about. -/
theorem current_watch (h : records.Current tools s) (hs : Tracked s)
    (hreplace : ∀ n p, o = .replace n p → ∀ name, parts name = p → ∀ size mtime,
      recordSha (records.record name) size mtime = none) (x : Choice) :
    records.Current tools (watch o x s).2 := by
  generalize hx : exec o x s.disk = r
  obtain ⟨result, d⟩ := r
  rw [watch_eq hx]
  intro name size mtime sha hsha
  obtain ⟨htime, hcurrent⟩ := h name size mtime sha hsha
  have hnot : ∀ n, o ≠ .replace n (parts name) := by
    intro n hn
    rw [hreplace n _ hn name rfl] at hsha
    cases hsha
  refine ⟨?_, fun file hfile hsize hmtime => ?_⟩
  · show mtime ∈ timesAfter s d (parts name)
    unfold timesAfter
    split
    · exact List.mem_cons_of_mem _ htime
    · exact htime
  · change d.fileAt (parts name) = some file at hfile
    have hbefore : s.disk.fileAt (parts name) = some file := by
      have hd : (exec o x s.disk).2 = d := by rw [hx]
      rw [fileAt_eq_some, ← hd] at hfile
      obtain hfile | ⟨n, hn, -⟩ := exec_file hfile
      · exact fileAt_eq_some.2 hfile
      · exact absurd hn (hnot n)
    obtain ⟨bytes, hread, hsha⟩ := hcurrent file hbefore hsize hmtime
    exact ⟨bytes, readAfter_kept hs hx (hfile.trans hbefore.symm) hnot hread, hsha⟩

/-- The operations that neither move a file nor write `state.json`. -/
def Plain : Op → Prop
  | .saveState _ | .replace _ _ => False
  | _ => True

theorem Plain.notSave (ho : Plain o) : NotSave o := by
  cases o <;> trivial

theorem holds_watch (ho : Plain o) (h : Holds tools records s) (x : Choice) :
    Holds tools records (watch o x s).2 := by
  have hreplace (records : Records) : ∀ n p, o = .replace n p → ∀ name, parts name = p →
      ∀ size mtime, recordSha (records.record name) size mtime = none := by
    rintro n p rfl
    exact ho.elim
  have hstate : (watch o x s).2.disk.state = s.disk.state := exec_state ho.notSave x s.disk
  refine ⟨⟨tracked_watch h.kept.tracked o x, ?_⟩,
    current_watch h.current h.kept.tracked (hreplace records) x⟩
  rw [hstate]
  exact current_watch h.kept.current h.kept.tracked (hreplace _) x

theorem holds_after {result : Except Exc o.Resp} (ho : Plain o) (h : Holds tools records s)
    (hx : watch o x s = (result, s')) : Holds tools records s' := by
  have hs' := holds_watch ho h x
  rwa [hx] at hs'

/-! ## Pulls among writes -/

/-- A write that gives the file a time that it never had, and does not come between. -/
def MayWrite (s : Watched) (o : Op) (w : Write) : Prop :=
  w.mtime ∉ s.times w.path ∧ s.remembers o w.path = false

/-- Every run of the program among such writes keeps to `Kept`, and returns with `Q`. -/
abbrev Guards (tools : Tools) {α : Type} (Q : α → Watched → Prop) (p : Script α)
    (s : Watched) : Prop :=
  wp (amid Write.apply watch) (Amid Write.apply MayWrite fun _ _ _ => True) (Kept tools) Q
    (fun _ => Kept tools) p s

variable {α : Type} {Q : α → Watched → Prop} {J : Watched → Prop}

/-- A plain operation, and then the rest; `J` is what else is known that no write changes. -/
theorem guards_call_with {k : o.Resp → Script α} (ho : Plain o) (h : Holds tools records s)
    (hJ : J s) (hstable : ∀ s (w : Write), J s → J (w.apply s))
    (hk : ∀ s x r s', J s → watch o x s = (.ok r, s') → Holds tools records s' →
      Guards tools Q (k r) s') : Guards tools Q (call o >>= k) s := by
  have hI : ∀ (s : Watched) (w : Write), Holds tools records s ∧ J s → MayWrite s o w →
      Holds tools records (w.apply s) ∧ J (w.apply s) :=
    fun s w hI hw => ⟨holds_apply hI.1 hw.1, hstable s w hI.2⟩
  exact wp_amid_bind ⟨h, hJ⟩ hI (fun s x hI _ => (holds_watch ho hI.1 x).kept)
    (fun s x r s' hI _ hr => hk s x r s' hI.2 hr (holds_after ho hI.1 hr))
    fun s x e s' hI _ he => (holds_after ho hI.1 he).kept

/-- A plain operation, and then the rest. -/
theorem guards_call {k : o.Resp → Script α} (ho : Plain o) (h : Holds tools records s)
    (hk : ∀ s x r s', watch o x s = (.ok r, s') → Holds tools records s' →
      Guards tools Q (k r) s') : Guards tools Q (call o >>= k) s :=
  guards_call_with (J := fun _ => True) ho h trivial (fun _ _ _ => trivial)
    fun s x r s' _ hr hs' => hk s x r s' hr hs'

/-- A program of plain operations. -/
theorem guards_plain {p : Script α} (hp : Uses Plain p) (h : Holds tools records s) :
    Guards tools (fun _ s' => Holds tools records s' ∧ s'.disk.state = s.disk.state) p s := by
  refine wp_mono (fun _ h => h.1.kept) (fun _ _ h => h) (fun _ _ h => h.1.kept)
    (wp_amid_uses hp (I := fun s' => Holds tools records s' ∧ s'.disk.state = s.disk.state)
      (fun _ _ _ _ hI hw => ⟨holds_apply hI.1 hw.1, hI.2⟩) (fun o x s' ho hI _ => ?_) ⟨h, rfl⟩)
  exact ⟨holds_watch ho hI.1 x, (exec_state ho.notSave x s'.disk).trans hI.2⟩

/-- What a round of a loop may do to the records. -/
def RecordsOnly (files : List ModelFile) (records records' : Records) : Prop :=
  ∀ n, (∀ f ∈ files, n ≠ f.name) → records'.record n = records.record n

theorem recordsOnly_forget : RecordsOnly [f] records (records.forget f.name) := by
  intro n hn
  rw [record_forget, if_neg (Ne.symm (hn f (List.mem_singleton_self f)))]

theorem recordsOnly_remember {size mtime : ℕ} {sha : Str} :
    RecordsOnly [f] records (records.remember f.name size mtime sha) := by
  intro n hn
  rw [record_remember, if_neg (Ne.symm (hn f (List.mem_singleton_self f)))]

/-- The file was just hashed or moved into place, with these bytes. -/
def Ready (p : Path) (bytes : Bytes) (s : Watched) : Prop :=
  s.justPlaced p = true ∧ s.read p = some bytes

/-- **`remember` of what was just read.** -/
theorem remember_guards (h : Holds tools records s) (hready : Ready f.path bytes s) :
    Guards tools (fun records' s' => Holds tools records' s' ∧
        s'.disk.state = s.disk.state ∧ RecordsOnly [f] records records')
      (remember records f (tools.sha256 bytes)) s := by
  have hI : ∀ (s' : Watched) (w : Write), (Holds tools records s' ∧ Ready f.path bytes s' ∧
      s'.disk.state = s.disk.state) → MayWrite s' (.stat f.path) w →
      Holds tools records (w.apply s') ∧ Ready f.path bytes (w.apply s') ∧
        (w.apply s').disk.state = s.disk.state := by
    intro s' w ⟨hs', ⟨hplaced, hread⟩, hstate⟩ hw
    have hpath : f.path ≠ w.path := by
      intro heq
      have hremembers := hw.2
      unfold Watched.remembers at hremembers
      rw [← heq, hplaced] at hremembers
      simp at hremembers
    refine ⟨holds_apply hs' hw.1, ⟨hplaced, ?_⟩, hstate⟩
    show (if f.path = w.path then none else s'.read f.path) = some bytes
    rw [if_neg hpath, hread]
  refine wp_amid_bind ⟨h, hready, rfl⟩ hI (fun s' x hI _ => ?_) (fun s' x st s'' hI _ hr => ?_)
    fun s' x e s'' hI _ he => ?_
  · exact (holds_watch (o := .stat f.path) trivial hI.1 x).kept
  · obtain ⟨hs', ⟨-, hread⟩, hstate⟩ := hI
    have hs'' := holds_after (o := .stat f.path) trivial hs' hr
    obtain ⟨d, hx, rfl⟩ := watch_ok hr
    obtain ⟨rfl, file, hfile, rfl⟩ := exec_stat hx
    have hfile := fileAt_eq_some.2 hfile
    have hread' := readAfter_kept hs'.kept.tracked hx rfl nofun hread
    exact ⟨⟨hs''.kept, current_remember hs''.current hs''.kept.tracked hfile hread'⟩, hstate,
      recordsOnly_remember⟩
  · exact (holds_after (o := .stat f.path) trivial hI.1 he).kept

theorem recordsOnly_refl (files : List ModelFile) (records : Records) :
    RecordsOnly files records records := fun _ _ => rfl

theorem RecordsOnly.trans {files : List ModelFile} {records'' : Records}
    (h : RecordsOnly files records records') (h' : RecordsOnly files records' records'') :
    RecordsOnly files records records'' := fun n hn => (h' n hn).trans (h n hn)

theorem RecordsOnly.mono {files files' : List ModelFile} (h : RecordsOnly files records records')
    (hsub : files ⊆ files') : RecordsOnly files' records records' :=
  fun n hn => h n fun f hf => hn f (hsub hf)

theorem recorded_plain (options : Options) (records : Records) (f : ModelFile) :
    Uses Plain (recorded options records f) := by
  refine uses_mono (fun o ho => ?_) (recorded_asks options records f)
  subst ho
  trivial

theorem knownOrHashed_guards (h : Holds tools records s) :
    Guards tools (fun known s' => Holds tools known.1 s' ∧ RecordsOnly [f] records known.1)
      (knownOrHashed tools options records f) s := by
  refine wp_seq (guards_plain (recorded_plain options records f) h) fun known s₁ ⟨h₁, _⟩ => ?_
  cases known with
  | some sha => exact ⟨h₁, recordsOnly_refl _ _⟩
  | none =>
    refine guards_call trivial h₁ fun s₂ x bytes s₃ hr h₃ => ?_
    have hready : Ready f.path bytes s₃ := by
      obtain ⟨d, hx, rfl⟩ := watch_ok hr
      exact ⟨by simp [Watched.justPlaced], if_pos rfl⟩
    exact wp_seq (remember_guards h₃ hready) fun records' s₄ ⟨h₄, _, honly⟩ => ⟨h₄, honly⟩

theorem checkFile_guards (h : Holds tools records s) :
    Guards tools (fun checked s' => Holds tools checked.1 s' ∧ RecordsOnly [f] records checked.1 ∧
        (checked.2 = true → checked.1.record f.name = .null))
      (checkFile tools options records f) s := by
  have hforgotten (records : Records) : (records.forget f.name).record f.name = .null := by
    rw [record_forget, if_pos rfl]
  have hcurrent {records : Records} {s : Watched} (h : Holds tools records s) :
      Holds tools (records.forget f.name) s := ⟨h.kept, current_forget h.current⟩
  refine guards_call trivial h fun s₁ x there s₂ _ h₂ => ?_
  cases there with
  | false => exact ⟨hcurrent h₂, recordsOnly_forget, fun _ => hforgotten _⟩
  | true =>
    refine wp_seq (knownOrHashed_guards h₂) fun known s₃ ⟨h₃, honly⟩ => ?_
    split_ifs
    · exact ⟨h₃, honly, nofun⟩
    · refine guards_call trivial h₃ fun s₄ x _ s₅ _ h₅ => ?_
      exact ⟨hcurrent h₅, honly.trans recordsOnly_forget, fun _ => hforgotten _⟩

theorem checkFiles_guards : ∀ {files : List ModelFile}, (files.map ModelFile.name).Nodup →
    ∀ {records : Records} {s : Watched}, Holds tools records s →
    Guards tools (fun checked s' => Holds tools checked.1 s' ∧
        RecordsOnly files records checked.1 ∧ checked.2.Sublist files ∧
        ∀ f ∈ checked.2, checked.1.record f.name = .null)
      (checkFiles tools options files records) s
  | [], _, _, _, h => ⟨h, recordsOnly_refl _ _, List.Sublist.refl _, nofun⟩
  | f :: files, hnodup, records, s, h => by
    obtain ⟨hf, hnodup⟩ := List.nodup_cons.1 hnodup
    refine wp_seq (checkFile_guards h) fun checked s₁ ⟨h₁, honly₁, hnull₁⟩ => ?_
    refine wp_seq (checkFiles_guards hnodup h₁) fun rest s₂ ⟨h₂, honly₂, hsub, hnull₂⟩ => ?_
    refine ⟨h₂, (honly₁.mono (by simp)).trans (honly₂.mono (List.subset_cons_self f files)), ?_⟩
    have hkept : rest.1.record f.name = checked.1.record f.name :=
      honly₂ _ fun g hg heq => hf (heq ▸ List.mem_map_of_mem hg)
    show (if checked.2 = true then f :: rest.2 else rest.2).Sublist (f :: files) ∧
      ∀ g ∈ (if checked.2 = true then f :: rest.2 else rest.2), rest.1.record g.name = .null
    split_ifs with hmissing
    · refine ⟨hsub.cons_cons f, List.forall_mem_cons.2 ⟨?_, hnull₂⟩⟩
      rw [hkept, hnull₁ hmissing]
    · exact ⟨hsub.cons f, hnull₂⟩

theorem current_save (h : records.Current tools s) (hs : Tracked s) (data : Json) (x : Choice) :
    records.Current tools (watch (.saveState data) x s).2 := by
  refine current_watch h hs (fun n p hsave => ?_) x
  cases hsave

theorem kept_save (h : Holds tools records s) (x : Choice) :
    Kept tools (watch (.saveState records.dump) x s).2 := by
  refine ⟨tracked_watch h.kept.tracked _ x, ?_⟩
  have hstate : (watch (.saveState records.dump) x s).2.disk.state =
      if x.raises = none then some records.dump else s.disk.state := by
    unfold watch exec
    cases x.raises <;> rfl
  rw [hstate]
  split_ifs
  · rw [load_dump]
    exact current_save h.current h.kept.tracked _ x
  · exact current_save h.kept.current h.kept.tracked _ x

/-- `save`, and then the rest. -/
theorem guards_save {k : Unit → Script α} (h : Holds tools records s)
    (hk : ∀ s', Holds tools records s' → s'.disk.state = some records.dump →
      Guards tools Q (k ()) s') : Guards tools Q (call (.saveState records.dump) >>= k) s := by
  refine wp_amid_bind h (fun s w hI hw => holds_apply hI hw.1) (fun s x hI _ => kept_save hI x)
    (fun s x u s' hI _ hr => hk s' ?_ ?_) fun s x e s' hI _ he => ?_
  · have hs' : s' = (watch (.saveState records.dump) x s).2 := by rw [hr]
    rw [hs']
    exact ⟨kept_save hI x, current_save hI.current hI.kept.tracked _ x⟩
  · obtain ⟨d, hx, rfl⟩ := watch_ok hr
    rw [exec_saveState hx]
  · have hs' := kept_save hI x
    rwa [he] at hs'

/-! ## The second loop -/

theorem besides_plain (ho : Besides o) : Plain o := by
  obtain ho | ⟨name, ho⟩ := ho
  · cases o <;> trivial
  · cases o <;> trivial

/-- A file without a record is moved into place. -/
theorem holds_replace (h : Holds tools records s) (hstate : s.disk.state = some records.dump)
    (hnull : records.record f.name = .null) (name : Str) (x : Choice) :
    Holds tools records (watch (.replace name f.path) x s).2 := by
  have hcurrent : records.Current tools (watch (.replace name f.path) x s).2 := by
    refine current_watch h.current h.kept.tracked (fun n p hp name' hname size mtime => ?_) x
    cases hp
    rw [parts_injective (hname : parts name' = parts f.name), hnull, recordSha_null]
  have hstate' : (watch (.replace name f.path) x s).2.disk.state = some records.dump :=
    (exec_state (o := .replace name f.path) trivial x s.disk).trans hstate
  refine ⟨⟨tracked_watch h.kept.tracked _ x, ?_⟩, hcurrent⟩
  rw [hstate', load_dump]
  exact hcurrent

theorem install_guards (h : Holds tools records s) (hstate : s.disk.state = some records.dump)
    (hnull : records.record f.name = .null) :
    Guards tools (fun installed s' => Holds tools installed.1 s' ∧
        s'.disk.state = some installed.1.dump ∧ RecordsOnly [f] records installed.1)
      (install tools options entry records f) s := by
  have hdownload := uses_mono (fun _ ho => besides_plain ho)
    (download_besides options (fileUrl tools options entry f) f RETRIES)
  refine wp_seq (guards_plain hdownload h) fun _ s₁ ⟨h₁, hstate₁⟩ => ?_
  rw [hstate] at hstate₁
  refine guards_call_with (J := fun s => s.disk.state = some records.dump) trivial h₁ hstate₁
    (fun _ _ h => h) fun s₂ x bytes s₃ hstate₂ hr h₃ => ?_
  have h₃' : s₃.disk.state = some records.dump ∧
      s₃.partialRead f.partialName = some bytes := by
    obtain ⟨d, hx, rfl⟩ := watch_ok hr
    obtain ⟨rfl, -⟩ := exec_readPartial hx
    exact ⟨hstate₂, if_pos rfl⟩
  split_ifs with hsha
  · refine guards_call_with (J := fun s => s.disk.state = some records.dump ∧
      s.partialRead f.partialName = some bytes) trivial h₃ h₃' (fun _ _ h => h)
      fun s₄ x _ s₅ ⟨hstate₄, hpartial₄⟩ hr h₅ => ?_
    have h₅' : s₅.disk.state = some records.dump ∧
        s₅.partialRead f.partialName = some bytes := by
      obtain ⟨d, hx, rfl⟩ := watch_ok hr
      obtain ⟨rfl, -⟩ := exec_makeParents hx
      exact ⟨hstate₄, (if_pos rfl).trans hpartial₄⟩
    have hI : ∀ (s : Watched) (w : Write), (Holds tools records s ∧
        s.disk.state = some records.dump ∧ s.partialRead f.partialName = some bytes) →
        MayWrite s (.replace f.partialName f.path) w → Holds tools records (w.apply s) ∧
          (w.apply s).disk.state = some records.dump ∧
            (w.apply s).partialRead f.partialName = some bytes :=
      fun s w hI hw => ⟨holds_apply hI.1 hw.1, hI.2⟩
    refine wp_amid_bind ⟨h₅, h₅'⟩ hI (fun s x hI _ => (holds_replace hI.1 hI.2.1 hnull _ x).kept)
      (fun s x _ s₆ hI _ hr => ?_) fun s x e s₆ hI _ he => ?_
    · have h₆ := holds_replace hI.1 hI.2.1 hnull f.partialName x
      have hready : Ready f.path bytes s₆ ∧ s₆.disk.state = some records.dump := by
        obtain ⟨d, hx, rfl⟩ := watch_ok hr
        obtain ⟨file, -, rfl⟩ := exec_replace hx
        exact ⟨⟨by simp [Watched.justPlaced], (if_pos rfl).trans hI.2.2⟩, hI.2.1⟩
      rw [hr] at h₆
      refine wp_seq (remember_guards h₆ hready.1) fun records' s₇ ⟨h₇, _, honly⟩ => ?_
      exact guards_save h₇ fun s₈ h₈ hstate₈ => ⟨h₈, hstate₈, honly⟩
    · have h₆ := (holds_replace hI.1 hI.2.1 hnull f.partialName x).kept
      rwa [he] at h₆
  · refine guards_call trivial h₃ fun s₄ x _ s₅ _ h₅ => ?_
    have hfailed : Holds tools (records.fail f.name) s₅ := ⟨h₅.kept, current_fail h₅.current⟩
    exact guards_save hfailed fun s₆ h₆ hstate₆ => ⟨h₆, hstate₆, fun _ _ => record_fail⟩

theorem installAll_guards : ∀ {files : List ModelFile}, (files.map ModelFile.name).Nodup →
    ∀ {records : Records} {s : Watched}, Holds tools records s →
    s.disk.state = some records.dump → (∀ f ∈ files, records.record f.name = .null) →
    Guards tools (fun installed s' => Holds tools installed.1 s')
      (installAll tools options entry files records) s
  | [], _, _, _, h, _, _ => h
  | f :: files, hnodup, records, s, h, hstate, hnull => by
    obtain ⟨hf, hnodup⟩ := List.nodup_cons.1 hnodup
    obtain ⟨hnull, hnulls⟩ := List.forall_mem_cons.1 hnull
    refine wp_seq (install_guards h hstate hnull) fun installed s₁ ⟨h₁, hstate₁, honly⟩ => ?_
    refine wp_seq (installAll_guards hnodup h₁ hstate₁ fun g hg => ?_) fun rest s₂ h₂ => h₂
    rw [honly g.name fun f' hf' heq => hf ?_]
    · exact hnulls g hg
    · rw [← List.mem_singleton.1 hf', ← heq]
      exact List.mem_map_of_mem hg

theorem loadRecords_guards (h : Kept tools s) :
    Guards tools (fun records s' => Holds tools records s') (loadRecords tools) s := by
  have hstart : Holds tools (Records.load tools.text s.disk.state) s := ⟨h, h.current⟩
  have hI : ∀ (s' : Watched) (w : Write), (Holds tools (Records.load tools.text s.disk.state) s' ∧
      s'.disk.state = s.disk.state) → MayWrite s' .loadState w →
      Holds tools (Records.load tools.text s.disk.state) (w.apply s') ∧
        (w.apply s').disk.state = s.disk.state :=
    fun s' w hI hw => ⟨holds_apply hI.1 hw.1, hI.2⟩
  refine wp_bind (wp_handle (wp_amid_op ⟨hstart, rfl⟩ hI
    (fun s' x hI _ => (holds_watch (o := .loadState) trivial hI.1 x).kept)
    (fun s' x state s'' hI _ hr => ?_) fun s' x e s'' hI _ he => ?_))
  · have hs'' := holds_after (o := .loadState) trivial hI.1 hr
    obtain ⟨d, hx, rfl⟩ := watch_ok hr
    obtain ⟨rfl, rfl⟩ := exec_loadState hx
    show Holds tools (Records.load tools.text s'.disk.state) _
    rw [hI.2]
    exact hs''
  · have hs'' := holds_after (o := .loadState) trivial hI.1 he
    cases e with
    | os text => exact ⟨hs''.kept, current_nil⟩
    | _ => exact hs''.kept

theorem pullLocked_guards (h : Kept tools s) :
    Guards tools (fun _ => Kept tools) (pullLocked tools options entry) s := by
  have hempty {s : Watched} (h : Kept tools s) : Holds tools ⟨[], []⟩ s := ⟨h, current_nil⟩
  refine guards_call trivial (hempty h) fun _ x names s₁ _ h₁ => ?_
  have hstray := uses_mono (fun _ ho => besides_plain ho)
    (removeStray_uses (entry.files.map ModelFile.partialName) names)
  refine wp_seq (guards_plain hstray h₁) fun _ s₂ ⟨h₂, _⟩ => ?_
  refine wp_seq (loadRecords_guards h₂.kept) fun records s₃ h₃ => ?_
  refine wp_seq (checkFiles_guards entry.nodup h₃) fun checked s₄ ⟨h₄, _, hsub, hnull⟩ => ?_
  refine guards_save h₄ fun s₅ h₅ hstate₅ => ?_
  have hcount := uses_mono (fun _ ho => besides_plain ho) (remaining_uses checked.2)
  refine wp_seq (guards_plain hcount h₅) fun needed s₆ ⟨h₆, hstate₆⟩ => ?_
  refine guards_call_with (J := fun s => s.disk.state = some checked.1.dump) trivial h₆
    (hstate₆.trans hstate₅) (fun _ _ h => h) fun s₇ x free s₈ hstate₇ hr h₈ => ?_
  have hstate₈ : s₈.disk.state = some checked.1.dump := by
    have hstate := exec_state (o := .diskFree needed) trivial x s₇.disk
    have hs₈ : s₈ = (watch (.diskFree needed) x s₇).2 := by rw [hr]
    rw [hs₈]
    exact hstate.trans hstate₇
  split_ifs
  · exact h₈.kept
  have hnodup := entry.nodup.sublist (hsub.map ModelFile.name)
  refine wp_seq (installAll_guards hnodup h₈ hstate₈ hnull) fun installed s₉ h₉ => ?_
  split_ifs
  · exact h₉.kept
  · have hcleared : Holds tools { installed.1 with failed := [] } s₉ := ⟨h₉.kept, h₉.current⟩
    exact guards_save hcleared fun s₁₀ h₁₀ _ => h₁₀.kept

/-- **A pull among writes that do not come between** keeps the records current. -/
theorem pull_guards (h : Kept tools s) :
    Guards tools (fun _ => Kept tools) (pull tools options entry) s := by
  have hempty {s : Watched} (h : Kept tools s) : Holds tools ⟨[], []⟩ s := ⟨h, current_nil⟩
  refine guards_call trivial (hempty h) fun _ x _ s₁ _ h₁ => ?_
  refine guards_call trivial h₁ fun _ x started s₂ _ h₂ => ?_
  refine guards_call trivial h₂ fun _ x unlocked s₃ _ h₃ => ?_
  cases unlocked with
  | false => exact h₃.kept
  | true =>
    refine wp_seq (pullLocked_guards h₃.kept) fun needed s₄ h₄ => ?_
    refine guards_call trivial (hempty h₄) fun _ x ended s₅ _ h₅ => ?_
    exact guards_call trivial h₅ fun _ x usage s₆ _ h₆ => h₆.kept

/-! ## Runs -/

/-- What holds in every state of a run. -/
structure Shared.Sound (tools : Tools) (s : Shared) : Prop where
  kept : Kept tools s.scene
  running : ∀ p, s.running = some p →
    Rests Write.apply MayWrite watch (fun _ _ _ => True) (Kept tools) (fun _ => Kept tools)
      (fun _ => Kept tools) p s.scene

theorem Shared.Sound.step {id : Str} {s s' : Shared} {a : Turn} (h : s.Sound tools)
    (ha : NotBetween s a) (hs : s.step tools id a = some s') : s'.Sound tools := by
  cases a with
  | pull entry options =>
    simp only [Shared.step] at hs
    split_ifs at hs
    cases hs
    refine ⟨h.kept, fun p hp => ?_⟩
    cases hp
    exact .start (pull_guards h.kept)
  | step x =>
    obtain ⟨p, hp, hs⟩ := Option.bind_eq_some_iff.1 hs
    obtain ⟨⟨p', scene⟩, hnext, rfl⟩ := Option.map_eq_some_iff.1 hs
    obtain ⟨hkept, hrests⟩ := (h.running p hp).next hnext fun _ _ _ => trivial
    exact ⟨hkept, fun q hq => Option.some.inj hq ▸ hrests⟩
  | finished =>
    cases hs
    exact ⟨h.kept, nofun⟩
  | write w =>
    simp only [Shared.step] at hs
    split_ifs at hs with htime
    cases hs
    refine ⟨kept_apply h.kept htime, fun p hp => (h.running p hp).others fun o k hcall => ?_⟩
    refine ⟨htime, ?_⟩
    unfold NotBetween at ha
    rw [show s.running = some p from hp, hcall] at ha
    exact ha

/-- **A recorded hash belongs to the recorded version of the file**, where no write comes between.
The directory starts without `state.json`; then come pulls of any entries with the id, with any
answers and errors, each of them killed anywhere, and between any two of their operations writes to
any files, each with a time that the file never had. If none of these falls between hashing a file,
or moving it into place, and the `stat` of `remember`, then `known_sha256` only answers with the
hash of what was read of the file as it is now. -/
theorem recorded_current (tools : Tools) (id : Str) (d₀ : Disk) (hstate : d₀.state = none)
    (s : Shared) (h : Runs.Reach (Shared.step tools id) NotBetween ⟨.new d₀, none⟩ s)
    (name sha : Str) (hknown : (Records.load tools.text s.scene.disk.state).known name
      (s.scene.disk.tree (parts name)) = some sha) :
    ∃ file, s.scene.disk.tree (parts name) = some (.file file) ∧
      s.scene.read (parts name) = some file.bytes ∧ sha = tools.sha256 file.bytes := by
  have hstart : (⟨.new d₀, none⟩ : Shared).Sound tools := by
    refine ⟨⟨new_tracked d₀, ?_⟩, nofun⟩
    show (Records.load tools.text d₀.state).Current tools _
    rw [hstate]
    exact current_nil
  have hs : s.Sound tools := h.invariant hstart fun _ _ _ hI ha hs => hI.step ha hs
  unfold Records.known at hknown
  split at hknown
  · next file hfile =>
    obtain ⟨-, hcurrent⟩ := hs.kept.current name _ _ sha hknown
    obtain ⟨bytes, hread, hsha⟩ := hcurrent file (fileAt_eq_some.2 hfile) rfl rfl
    obtain ⟨file', hfile', rfl⟩ := hs.kept.tracked.read _ _ hread
    obtain rfl : file = file' := by
      rw [fileAt_eq_some.2 hfile] at hfile'
      exact Option.some.inj hfile'
    exact ⟨file, hfile, hread, hsha⟩
  · cases hknown

/-- Another process writes four bytes of its own. -/
def smallWrite (bytes : Bytes) : Write := ⟨smallFile.path, bytes, 2⟩

/-- The small file is written once more before it is hashed. -/
theorem recorded_current_small : ∃ s : Shared,
    (Records.load smallTools.text s.scene.disk.state).known smallFile.name
      (s.scene.disk.tree smallFile.path) = some smallSha ∧
    s.scene.read smallFile.path = some smallBytes := by
  have hrun : ∃ s : Shared, Runs.runIf (Shared.step smallTools (str "tiny")) NotBetween
      ⟨.new (smallDisk [0]), none⟩ (.pull smallEntry smallOptions ::
        List.replicate 6 (.step quiet) ++ .write (smallWrite smallBytes) ::
          List.replicate 3 (.step quiet)) = some s ∧
      (Records.load smallTools.text s.scene.disk.state).known smallFile.name
        (s.scene.disk.tree smallFile.path) = some smallSha ∧
      s.scene.disk.tree smallFile.path = some (.file ⟨smallBytes, 2⟩) := ⟨_, rfl, rfl, rfl⟩
  obtain ⟨s, hrun, hknown, hnow⟩ := hrun
  obtain ⟨file, hfile, hread, -⟩ := recorded_current smallTools (str "tiny") (smallDisk [0]) rfl s
    (Runs.Reach.of_runIf hrun) smallFile.name smallSha hknown
  have hbytes : file = ⟨smallBytes, 2⟩ := by
    rw [show parts smallFile.name = smallFile.path from rfl, hnow] at hfile
    cases hfile
    rfl
  rw [hbytes] at hread
  exact ⟨s, hknown, hread⟩

/-- **A wrong record**: the small file is written to after it was hashed and before the `stat` of
`remember`. Other bytes are recorded with its hash then, and `local_state` says DOWNLOADED. -/
theorem wrong_record : ∃ s : Shared,
    Runs.Reachable (Shared.step smallTools (str "tiny")) ⟨.new (smallDisk smallBytes), none⟩ s ∧
    (Records.load smallTools.text s.scene.disk.state).known smallFile.name
      (s.scene.disk.tree smallFile.path) = some smallSha ∧
    s.scene.disk.tree smallFile.path = some (.file ⟨[0, 0, 0, 0], 2⟩) ∧
    smallTools.sha256 [0, 0, 0, 0] ≠ smallSha ∧ s.scene.read smallFile.path = none ∧
    localState smallTools.text smallEntry s.scene.disk = .downloaded := by
  have hrun : ∃ s : Shared, Runs.run (Shared.step smallTools (str "tiny"))
      ⟨.new (smallDisk smallBytes), none⟩ (.pull smallEntry smallOptions ::
        List.replicate 7 (.step quiet) ++ .write (smallWrite [0, 0, 0, 0]) ::
          List.replicate 2 (.step quiet)) = some s ∧
      (Records.load smallTools.text s.scene.disk.state).known smallFile.name
        (s.scene.disk.tree smallFile.path) = some smallSha ∧
      s.scene.disk.tree smallFile.path = some (.file ⟨[0, 0, 0, 0], 2⟩) ∧
      s.scene.read smallFile.path = none ∧
      localState smallTools.text smallEntry s.scene.disk = .downloaded :=
    ⟨_, rfl, rfl, rfl, rfl, by decide +kernel⟩
  obtain ⟨s, hrun, hknown, hnow, hread, hlocal⟩ := hrun
  exact ⟨s, Runs.Reach.of_run hrun, hknown, hnow, by decide +kernel, hread, hlocal⟩

end AgentLab.Pull
