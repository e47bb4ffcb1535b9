import AgentLab.Lib.Keyed
import AgentLab.Pull.Resumed

/-!
# Room on the disk

The second step of `pull` counts what is still to come, file by file, and the third downloads it.
For a server that honours ranges and fails no attempt, `Adds n` follows how many bytes the programs
append to partial files: a download what its file is short of (`download_costs`), a list of files
what they are short of in turn (`installAll_costs`), where the partial file of a hash is used up by
the first file that has it. The count credits it to each of them, so it is right exactly when no
file comes after one of its hash while there is a part of it (`fits_iff`); `shared_partial` is a
pull where it is not.
-/

namespace AgentLab.Pull

open Python Effects

abbrev History := List (Event Op Choice Disk)

variable {tools : Tools} {options : Options} {entry : ModelEntry}

/-! ## The count -/

/-- The bytes that an operation appends to a partial file. -/
def appends (e : Event Op Choice Disk) : Bytes :=
  match e.op with
  | .writePartial _ chunk => chunk
  | _ => []

/-- A measurement of the free space: what is needed, and what is free. -/
def measures (e : Event Op Choice Disk) : List (ℕ × ℕ) :=
  match e.op with
  | .diskFree needed => [(needed, e.choice.free)]
  | _ => []

/-- How many bytes were appended to partial files. -/
def appended (history : History) : ℕ := (history.flatMap appends).length

/-- Where the free space was enough, no more was appended than was counted, and the margin is
left. -/
def Fits (history : History) : Prop :=
  ∀ m ∈ history.flatMap measures, m.1 + DISK_MARGIN ≤ m.2 →
    appended history ≤ m.1 ∧ appended history + DISK_MARGIN ≤ m.2

/-- The server honours ranges, and sends what is left of the file; no attempt fails. The records and
what they are about can be read. -/
def Serves (tools : Tools) (options : Options) (entry : ModelEntry) (_ : Disk) (o : Op)
    (x : Choice) : Prop :=
  match o with
  | .fetch url offset => x.raises = none ∧ x.reply.breaks = none ∧ x.reply.closes = none ∧
      (offset ≠ 0 → x.reply.status = 206) ∧
      ∀ f ∈ entry.files, url = fileUrl tools options entry f →
        x.reply.chunks.flatten.length = f.size - offset
  | .openPartial _ _ | .writePartial _ _ | .stat _ | .loadState => x.raises = none
  | _ => True

instance (d : Disk) : ∀ (o : Op) (x : Choice), Decidable (Serves tools options entry d o x)
  | .fetch _ _, _ => inferInstanceAs (Decidable (_ ∧ _))
  | .openPartial _ _, x | .writePartial _ _, x | .stat _, x | .loadState, x =>
    inferInstanceAs (Decidable (x.raises = none))
  | .makeRoot, _ | .lock, _ | .partialNames, _ | .removePartial _, _ | .saveState _,
      _ | .isFile _, _
  | .read _, _ | .unlink _, _ | .partialSize _, _ | .statPartial _, _ | .touchPartial _, _
  | .readPartial _, _ | .makeParents _, _ | .replace _ _, _ | .diskFree _, _ | .diskUsage, _
  | .monotonic, _ => .isTrue trivial

/-- How much of a file is there. -/
def Disk.have (d : Disk) (f : ModelFile) : ℕ := (d.partialBytes f.partialName).length

/-- What is still to come of a file, with that much of it there. -/
def owed (f : ModelFile) (size : ℕ) : ℕ := if size ≤ f.size then f.size - size else f.size

/-- The hash of a file that is there, as the first loop has it. -/
def currentSha (tools : Tools) (options : Options) (records : Records) (f : ModelFile)
    (file : File) : Str :=
  (if options.recheck then none
    else recordSha (records.record f.name) file.bytes.length file.mtime).getD
      (tools.sha256 file.bytes)

/-- The first loop finds the file missing. -/
def isMissing (tools : Tools) (options : Options) (records : Records) (d : Disk)
    (f : ModelFile) : Bool :=
  match d.fileAt f.path with
  | some file => currentSha tools options records f file ≠ f.sha256
  | none => true

/-- The files that the first loop finds missing. -/
def missingFiles (tools : Tools) (options : Options) (entry : ModelEntry) (d : Disk) :
    List ModelFile :=
  entry.files.filter (isMissing tools options (Records.load tools.text d.state) d)

/-- No missing file comes after one with its hash while a part of it is there. -/
def Unshared (tools : Tools) (options : Options) (entry : ModelEntry) (d : Disk) : Prop :=
  (missingFiles tools options entry d).Pairwise fun f g =>
    f.sha256 = g.sha256 → d.have g = 0 ∨ g.size < d.have g

variable {f g : ModelFile} {files : List ModelFile} {d d' : Disk} {records records' : Records}
  {file : File} {log : History}
  {url : Str} {offset left n m : ℕ}

/-! ## What is missing -/

theorem recorded_reads (hfile : d.fileAt f.path = some file) :
    Does (Serves tools options entry) (fun known d' => d' = d ∧
      known.getD (tools.sha256 file.bytes) = currentSha tools options records f file)
      (recorded options records f) d := by
  unfold recorded knownSha256 currentSha
  split_ifs
  · exact ⟨rfl, rfl⟩
  split
  · next fields hrecord =>
    have hstat := fileAt_eq_some.1 hfile
    refine wp_handle (wp_op_bind (fun _ _ => trivial) (fun x st d' _ hx => ?_)
      fun x e d' hserves hx => ?_)
    · obtain ⟨rfl, file', hfile', rfl⟩ := exec_stat hx
      obtain rfl : file = file' := by simpa [hstat] using hfile'
      rw [hrecord]
      exact ⟨rfl, rfl⟩
    · have hraises : x.raises = none := hserves
      simp [exec, perform, hraises, hstat] at hx
  · next hrecord =>
    refine ⟨rfl, ?_⟩
    have hnone : recordSha (records.record f.name) file.bytes.length file.mtime = none := by
      unfold recordSha
      split
      · exact absurd ‹_› (hrecord _)
      · rfl
    rw [hnone]

theorem knownOrHashed_finds (hfile : d.fileAt f.path = some file) :
    Does (Serves tools options entry) (fun known d' => d' = d ∧
      known.2 = currentSha tools options records f file ∧ OnlyAt [f] d d records known.1)
      (knownOrHashed tools options records f) d := by
  refine wp_seq (recorded_reads hfile) fun known d₁ ⟨hd₁, hknown⟩ => ?_
  subst hd₁
  cases known with
  | some sha => exact ⟨rfl, hknown, .refl _ _ _⟩
  | none =>
    refine does_call fun x bytes d₂ hx => ?_
    obtain ⟨rfl, file', hfile', rfl⟩ := exec_read hx
    obtain rfl : file = file' := by simpa [fileAt_eq_some.1 hfile] using hfile'
    refine wp_seq (remember_does hfile) fun records' d₃ ⟨hd₃, hrecords'⟩ => ?_
    subst hd₃ hrecords'
    exact ⟨rfl, hknown, onlyAt_remember rfl⟩

theorem checkFile_finds : Does (Serves tools options entry) (fun checked d' =>
      checked.2 = isMissing tools options records d f ∧ OnlyAt [f] d d' records checked.1 ∧
        d'.partials = d.partials)
      (checkFile tools options records f) d := by
  refine does_call fun x there d₁ hx => ?_
  obtain ⟨rfl, rfl⟩ := exec_isFile hx
  unfold isMissing
  cases hfile : d₁.fileAt f.path with
  | none =>
    rw [fileAt_eq_none.1 hfile]
    exact ⟨rfl, onlyAt_forget rfl, rfl⟩
  | some file =>
    have hthere : Node.isFile (d₁.tree f.path) = true := by
      rw [fileAt_eq_some.1 hfile]
      rfl
    rw [if_pos hthere]
    refine wp_seq (knownOrHashed_finds hfile) fun known d₂ ⟨hd₂, hsha, honly⟩ => ?_
    subst hd₂
    dsimp only
    rw [← hsha]
    split_ifs with hsame
    · exact ⟨by simp [hsame], honly, rfl⟩
    · refine does_call fun x _ d₃ hx => ?_
      obtain rfl := exec_unlink hx
      exact ⟨by simp [hsame], (honly.trans (onlyAt_unlink f _ _)).trans (onlyAt_forget rfl), rfl⟩

/-- Work on other files changes nothing about whether a file is missing. -/
theorem isMissing_other (honly : OnlyAt files d d' records records')
    (hf : f.name ∉ files.map ModelFile.name) :
    isMissing tools options records' d' f = isMissing tools options records d f := by
  have hne : ∀ g ∈ files, f.name ≠ g.name := fun g hg heq =>
    hf (heq ▸ List.mem_map_of_mem hg)
  unfold isMissing currentSha
  rw [honly.fileAt _ fun g hg => path_ne (hne g hg), honly.record _ hne]

theorem checkFiles_finds : ∀ {files : List ModelFile}, (files.map ModelFile.name).Nodup →
    ∀ {records : Records} {d : Disk}, Does (Serves tools options entry) (fun checked d' =>
      checked.2 = files.filter (isMissing tools options records d) ∧ d'.partials = d.partials)
      (checkFiles tools options files records) d
  | [], _, _, _ => ⟨rfl, rfl⟩
  | f :: files, hnodup, records, d => by
    obtain ⟨hf, hnodup⟩ := List.nodup_cons.1 hnodup
    refine wp_seq checkFile_finds fun checked d₁ ⟨hchecked, honly, hpartials⟩ => ?_
    refine wp_seq (checkFiles_finds hnodup) fun rest d₂ ⟨hrest, hpartials'⟩ => ?_
    refine ⟨?_, hpartials'.trans hpartials⟩
    have hothers : files.filter (isMissing tools options checked.1 d₁) =
        files.filter (isMissing tools options records d) := by
      refine List.filter_congr fun g hg => isMissing_other honly fun hname => hf ?_
      rw [← List.mem_singleton.1 hname]
      exact List.mem_map_of_mem hg
    rw [hrest, hothers, hchecked, List.filter_cons]

/-- **The count**: what each of the files is short of. -/
theorem remaining_counts {allowed : Disk → Op → Choice → Prop} :
    ∀ (files : List ModelFile) {d : Disk}, Does allowed
      (fun needed d' => d' = d ∧ needed = (files.map fun f => owed f (d.have f)).sum)
      (remaining files) d
  | [], _ => ⟨rfl, rfl⟩
  | f :: files, _ => by
    refine does_call fun x size d₁ hx => ?_
    obtain ⟨rfl, hsize⟩ := exec_partialSize hx
    refine wp_seq (remaining_counts files) fun rest d₂ ⟨hd₂, hrest⟩ => ?_
    refine ⟨hd₂, ?_⟩
    rw [List.map_cons, List.sum_cons, ← hrest]
    unfold owed Disk.have
    rw [hsize]

/-! ## What is appended -/

/-- So many bytes were appended since then, and nothing was measured. -/
structure Adds (n : ℕ) (log log' : History) : Prop where
  appended : appended log' = appended log + n
  measured : log'.flatMap measures = log.flatMap measures

/-- The operations that neither append nor measure. -/
def Silent : Op → Prop
  | .writePartial _ _ | .diskFree _ => False
  | _ => True

theorem Adds.trans {log' log'' : History} (h : Adds n log log') (h' : Adds m log' log'') :
    Adds (n + m) log log'' :=
  ⟨by rw [h'.appended, h.appended, Nat.add_assoc], h'.measured.trans h.measured⟩

theorem adds_event (log : History) (e : Event Op Choice Disk) (he : measures e = []) :
    Adds (appends e).length log (log ++ [e]) := by
  constructor
  · unfold appended
    rw [List.flatMap_append, List.flatMap_singleton, List.length_append]
  · rw [List.flatMap_append, List.flatMap_singleton, he, List.append_nil]

theorem silent_appends {o : Op} (ho : Silent o) (x : Choice) (d : Disk) :
    appends ⟨o, x, d⟩ = [] := by
  cases o <;> first | rfl | exact ho.elim

theorem silent_measures {o : Op} (ho : Silent o) (x : Choice) (d : Disk) :
    measures ⟨o, x, d⟩ = [] := by
  cases o <;> first | rfl | exact ho.elim

theorem adds_silent {o : Op} (ho : Silent o) (log : History) (x : Choice) (d : Disk) :
    Adds 0 log (log ++ [⟨o, x, d⟩]) := by
  have hadds := adds_event log ⟨o, x, d⟩ (silent_measures ho x d)
  rwa [silent_appends ho] at hadds

section Costs

variable (tools options entry) {α β : Type}

/-- The program returns with `Q` after it appended so many bytes, and never raises. -/
abbrev Sends (n : ℕ) (Q : α → Disk → Prop) (p : Script α) (s : Disk × History) : Prop :=
  wp (logged exec) (fun s => Serves tools options entry s.1) (fun _ => True)
    (fun a s' => Q a s'.1 ∧ Adds n s.2 s'.2) (fun _ _ => False) p s

/-- The program returns with `Q` after it appended so many bytes, or raises after no more. -/
abbrev Costs (n : ℕ) (Q : α → Disk → Prop) (p : Script α) (s : Disk × History) : Prop :=
  wp (logged exec) (fun s => Serves tools options entry s.1) (fun _ => True)
    (fun a s' => Q a s'.1 ∧ Adds n s.2 s'.2) (fun _ s' => ∃ m ≤ n, Adds m s.2 s'.2) p s

variable {tools options entry} {P : α → Disk → Prop} {Q : β → Disk → Prop} {p : Script α}
  {k : α → Script β}

theorem costs_seq {s : Disk × History} (hp : Costs tools options entry n P p s)
    (hk : ∀ a d' log', P a d' → Costs tools options entry m Q (k a) (d', log')) :
    Costs tools options entry (n + m) Q (p >>= k) s := by
  have hthen : ∀ a s', P a s'.1 ∧ Adds n s.2 s'.2 → wp (logged exec)
      (fun s => Serves tools options entry s.1) (fun _ => True)
      (fun b s'' => Q b s''.1 ∧ Adds (n + m) s.2 s''.2)
      (fun _ s'' => ∃ i ≤ n + m, Adds i s.2 s''.2) (k a) s' := by
    intro a s' ⟨ha, hadds⟩
    refine wp_mono (fun _ h => h) (fun _ _ h => ⟨h.1, hadds.trans h.2⟩) (fun _ s'' h => ?_)
      (hk a s'.1 s'.2 ha)
    obtain ⟨i, hi, h⟩ := h
    exact ⟨n + i, Nat.add_le_add_left hi n, hadds.trans h⟩
  refine wp_bind (wp_mono (fun _ h => h) hthen (fun _ s' h => ?_) hp)
  obtain ⟨i, hi, h⟩ := h
  exact ⟨i, Nat.le_add_right_of_le hi, h⟩

/-- A program that neither appends nor measures. -/
theorem costs_silent (hp : Uses Silent p) (h : Does (Serves tools options entry) P p d)
    (log : History) : Costs tools options entry 0 P p (d, log) := by
  have hstep : ∀ (o : Op) (x : Choice) (s : Disk × History), Silent o → Adds 0 log s.2 →
      Serves tools options entry s.1 o x → Adds 0 log (logged exec o x s).2.2 :=
    fun o x s ho hs _ => hs.trans (adds_silent ho _ x _)
  have hnil : Adds 0 log ((d, log) : Disk × History).2 := ⟨rfl, rfl⟩
  exact wp_mono (fun _ _ => trivial) (fun _ _ h => h) (fun _ _ h => ⟨0, Nat.le_refl 0, h.2⟩)
    (wp_and (does_logged h log) (wp_uses hp hstep hnil))

/-- A program that neither appends nor measures, and then the rest. -/
theorem silent_seq {R : β → Disk × History → Prop} {E : Disk × History → Prop}
    (hp : Uses Silent p) (h : Does (Serves tools options entry) P p d)
    (hE : ∀ s, Adds 0 log s.2 → E s)
    (hk : ∀ a d' log', P a d' → Adds 0 log log' → wp (logged exec)
      (fun s => Serves tools options entry s.1) (fun _ => True) R (fun _ => E) (k a) (d', log')) :
    wp (logged exec) (fun s => Serves tools options entry s.1) (fun _ => True) R (fun _ => E)
      (p >>= k) (d, log) := by
  refine wp_bind (wp_mono (fun _ h => h) (fun a s h => hk a s.1 s.2 h.1 h.2) (fun _ s h => ?_)
    (costs_silent hp h log))
  obtain ⟨m, hm, hadds⟩ := h
  obtain rfl : m = 0 := Nat.le_zero.1 hm
  exact hE s hadds

/-- What the program is otherwise known to return with. -/
theorem costs_does {P' : α → Disk → Prop} (hp : Costs tools options entry n P p (d, log))
    (h : Does (Serves tools options entry) P' p d) :
    Costs tools options entry n P' p (d, log) :=
  wp_mono (fun _ _ => trivial) (fun _ _ h => ⟨h.2, h.1.2⟩) (fun _ _ h => h.1)
    (wp_and hp (does_logged h log))

end Costs

/-! ## Downloads -/

theorem writeChunks_sends : ∀ {chunks : List Bytes} {d : Disk} {log : History},
    d.have f + chunks.flatten.length ≤ f.size →
      Sends tools options entry chunks.flatten.length
        (fun _ d' => d'.have f = d.have f + chunks.flatten.length) (writeChunks f none chunks)
        (d, log) := by
  intro chunks
  induction chunks with
  | nil => exact fun _ => ⟨rfl, rfl, rfl⟩
  | cons chunk chunks ih =>
    intro d log h
    rw [List.flatten_cons, List.length_append] at h ⊢
    refine wp_logged_bind (fun _ _ => trivial) (fun x (size : ℕ) d₁ _ hx => ?_)
      fun x e d₁ hserves hx => ?_
    · have hbytes := exec_writePartial_ok hx
      have hhave : d₁.have f = d.have f + chunk.length := by
        unfold Disk.have
        rw [hbytes, List.length_append]
      have hsize : size = d.have f + chunk.length := by
        cases (exec_ok hx).2
        rfl
      rw [if_neg (by omega)]
      have hadds := adds_event log ⟨.writePartial f.partialName chunk, x, d₁⟩ rfl
      refine wp_mono (fun _ h => h) (fun _ s' h => ?_) (fun _ _ h => h) (ih (by omega))
      have hrest : s'.1.have f = d₁.have f + chunks.flatten.length := h.1
      exact ⟨by omega, hadds.trans h.2⟩
    · have hraises : x.raises = none := hserves
      simp [exec, perform, hraises] at hx

theorem request_sends (hf : f ∈ entry.files) (hhave : d.have f = offset) (hle : offset ≤ f.size) :
    Sends tools options entry (f.size - offset) (fun _ d' => d'.have f = f.size)
      (request (fileUrl tools options entry f) f offset) (d, log) := by
  refine wp_logged_bind (fun _ _ => trivial) (fun x reply d₁ hserves hx => ?_)
    fun x e d₁ hserves hx => ?_
  · obtain ⟨-, hbreaks, hcloses, hstatus, hlength⟩ := hserves
    cases (exec_ok hx).2
    have hsent := hlength f hf rfl
    refine wp_logged_bind (fun _ _ => trivial) (fun x' u d₂ _ hx' => ?_)
      fun x' e d₂ hserves hx' => ?_
    · have hkept : d₂.have f = offset := by
        unfold Disk.have at hhave ⊢
        rw [exec_openPartial hx']
        by_cases hzero : offset = 0
        · simp [hzero]
        · rw [if_pos (by simp [hzero, hstatus hzero]), hhave]
      rw [hbreaks, hcloses]
      refine wp_seq (writeChunks_sends (by omega)) fun _ s ⟨hs, hadds⟩ => ⟨?_, ?_⟩
      · show s.1.have f = f.size
        omega
      · rw [← hsent]
        have hfetch :=
          adds_silent (o := .fetch (fileUrl tools options entry f) offset) trivial log x d
        have hopen := hfetch.trans (adds_silent (o := .openPartial f.partialName
          (offset ≠ 0 ∧ x.reply.status = 206)) trivial _ x' d₂)
        have hall := hopen.trans hadds
        rwa [Nat.zero_add] at hall
    · have hraises : x'.raises = none := hserves
      simp [exec, perform, hraises] at hx'
  · simp [exec, perform, hserves.1] at hx

theorem attempt_costs (hf : f ∈ entry.files) (hhave : d.have f = offset) (hle : offset ≤ f.size) :
    Costs tools options entry (f.size - offset)
      (fun failure d' => failure = none ∧ d'.have f = f.size)
      (attempt options (fileUrl tools options entry f) f offset) (d, log) := by
  refine wp_handle (wp_mono (fun _ h => h) (fun _ _ h => h) (fun _ _ h => h.elim)
    (wp_seq (request_sends hf hhave hle) fun _ s h => ?_))
  exact ⟨⟨rfl, h.1⟩, h.2⟩

theorem startOffset_owed {allowed : Disk → Op → Choice → Prop} : Does allowed
    (fun offset d' => d'.have f = offset ∧ offset ≤ f.size ∧ f.size - offset = owed f (d.have f))
    (startOffset f) d := by
  refine does_call fun x size d₁ hx => ?_
  obtain ⟨rfl, hsize⟩ := exec_partialSize hx
  change size.getD 0 = d₁.have f at hsize
  unfold owed
  by_cases hlong : f.size < size.getD 0
  · rw [if_pos hlong, if_neg (by omega)]
    refine does_call fun x u d₂ hx => ?_
    obtain rfl := exec_removePartial hx
    refine ⟨?_, Nat.zero_le _, rfl⟩
    unfold Disk.have
    rw [partialBytes_dropPartial]
    rfl
  · rw [if_neg hlong, if_pos (by omega)]
    exact ⟨hsize.symm, by omega, by rw [hsize]⟩

theorem round_costs (hf : f ∈ entry.files) (hhave : d.have f = offset) (hle : offset ≤ f.size) :
    Costs tools options entry (f.size - offset) (fun _ _ => True)
      (round options (fileUrl tools options entry f) f left offset) (d, log) := by
  unfold round
  by_cases hsize : offset = f.size
  · rw [if_pos hsize, hsize, Nat.sub_self]
    have huses : Uses Silent (call (.touchPartial f.partialName)) := uses_op trivial
    exact costs_silent huses (does_op fun _ _ _ _ => trivial) log
  · rw [if_neg hsize]
    refine costs_seq (m := 0) (attempt_costs hf hhave hle) fun failure d₁ log₁ ⟨hnone, h₁⟩ => ?_
    subst hnone
    have hstat : Does (Serves tools options entry) (fun (size : ℕ) _ => size = f.size)
        (call (.statPartial f.partialName)) d₁ := by
      refine does_op fun x size d₂ hx => ?_
      obtain ⟨-, file, hfile, hlength⟩ := exec_statPartial hx
      rw [← hlength, ← h₁]
      unfold Disk.have
      rw [partialBytes_of_get? hfile]
    have huses : Uses Silent (call (.statPartial f.partialName)) := uses_op trivial
    refine costs_seq (m := 0) (costs_silent huses hstat log₁) fun size d₂ log₂ h₂ => ?_
    rw [if_pos h₂]
    exact ⟨trivial, rfl, rfl⟩

/-- **A download appends what the file is short of.** -/
theorem download_costs (hf : f ∈ entry.files) : ∀ left, left ≠ 0 →
    Costs tools options entry (owed f (d.have f)) (fun _ _ => True)
      (download options (fileUrl tools options entry f) f left) (d, log)
  | 0, h => absurd rfl h
  | left + 1, _ => by
    rw [download_succ]
    have huses : Uses Silent (startOffset f) := by
      refine uses_bind (uses_op trivial) fun size => ?_
      split_ifs
      · exact uses_bind (uses_op trivial) fun _ => trivial
      · trivial
    rw [← Nat.zero_add (owed f (d.have f))]
    refine costs_seq (costs_silent huses startOffset_owed log) fun offset d₁ log₁ h₁ => ?_
    obtain ⟨hhave, hle, howed⟩ := h₁
    rw [← howed]
    exact round_costs hf hhave hle

/-! ## The second loop -/

theorem does_true {allowed : Disk → Op → Choice → Prop} {α : Type} (p : Script α) :
    ∀ d, Does allowed (fun _ _ => True) p d := by
  induction p with
  | ret a => exact fun _ => trivial
  | raise e => exact fun _ => trivial
  | call o k ih => exact fun _ _ _ => ⟨trivial, ih _ _⟩

theorem SameBut.have (h : SameBut f.partialName d d') (hg : g.partialName ≠ f.partialName) :
    d'.have g = d.have g := by
  unfold Disk.have Disk.partialBytes
  rw [h.partials _ hg]

theorem have_dropPartial : (d.dropPartial f.partialName).have f = 0 := by
  unfold Disk.have
  rw [partialBytes_dropPartial]
  rfl

theorem have_of_partials (h : d'.partials = d.partials) (f : ModelFile) : d'.have f = d.have f := by
  unfold Disk.have Disk.partialBytes
  rw [h]

/-- A round of the second loop uses up the partial file, and leaves the others. -/
theorem install_partials {allowed : Disk → Op → Choice → Prop} :
    Does allowed (fun _ d' => d'.have f = 0 ∧
        ∀ g : ModelFile, g.partialName ≠ f.partialName → d'.have g = d.have g)
      (install tools options entry records f) d := by
  have hdownload : Does allowed (fun _ d' => SameBut f.partialName d d')
      (download options (fileUrl tools options entry f) f RETRIES) d :=
    wp_mono (fun _ _ => trivial) (fun _ _ h => h) (fun _ _ _ => trivial)
      (wp_uses (download_uses options _ f RETRIES)
        (fun o x d' ho h _ => h.trans (exec_onPartial ho x d')) (.refl _ d))
  have hdrop (d₁ : Disk) (h : SameBut f.partialName d d₁) : ∀ g : ModelFile,
      g.partialName ≠ f.partialName → (d₁.dropPartial f.partialName).have g = d.have g :=
    fun g hg => (h.trans (sameBut_dropPartial d₁ f.partialName)).have hg
  refine wp_seq hdownload fun _ d₁ h₁ => does_call fun x bytes d₂ hx => ?_
  obtain ⟨rfl, -⟩ := exec_readPartial hx
  split_ifs
  · refine does_call fun x _ d₃ hx => ?_
    obtain ⟨rfl, -⟩ := exec_makeParents hx
    refine does_call fun x _ d₄ hx => ?_
    obtain ⟨file, -, rfl⟩ := exec_replace hx
    refine wp_bind (does_call fun x st d₅ hx => ?_)
    obtain ⟨rfl, -⟩ := exec_stat hx
    refine does_call fun x _ d₆ hx => ?_
    obtain rfl := exec_saveState hx
    exact ⟨have_dropPartial, hdrop d₂ h₁⟩
  · refine does_call fun x _ d₃ hx => ?_
    obtain rfl := exec_removePartial hx
    refine does_call fun x _ d₄ hx => ?_
    obtain rfl := exec_saveState hx
    exact ⟨have_dropPartial, hdrop d₂ h₁⟩

theorem install_costs (hf : f ∈ entry.files) :
    Costs tools options entry (owed f (d.have f)) (fun _ d' => d'.have f = 0 ∧
        ∀ g : ModelFile, g.partialName ≠ f.partialName → d'.have g = d.have g)
      (install tools options entry records f) (d, log) := by
  have hrest (bytes : Bytes) : Uses Silent (do
      if tools.sha256 bytes = f.sha256 then do
        call (.makeParents f.path)
        call (.replace f.partialName f.path)
        let records ← remember records f (tools.sha256 bytes)
        call (.saveState records.dump)
        return (records, false)
      else do
        call (.removePartial f.partialName)
        call (.saveState (records.fail f.name).dump)
        return (records.fail f.name, true) : Script (Records × Bool)) := by
    split_ifs
    · refine uses_bind (uses_op trivial) fun _ => uses_bind (uses_op trivial) fun _ => ?_
      refine uses_bind (uses_bind (uses_op trivial) fun _ => trivial) fun _ => ?_
      exact uses_bind (uses_op trivial) fun _ => trivial
    · refine uses_bind (uses_op trivial) fun _ => uses_bind (uses_op trivial) fun _ => trivial
  have hread : Uses Silent (call (.readPartial f.partialName)) := uses_op trivial
  have hcosts : Costs tools options entry (owed f (d.have f)) (fun _ _ => True)
      (install tools options entry records f) (d, log) :=
    costs_seq (m := 0) (download_costs hf RETRIES nofun) fun _ d₁ log₁ _ =>
      costs_silent (uses_bind hread hrest) (does_true _ _) log₁
  exact costs_does hcosts install_partials

/-- **The second loop appends what the files are short of in turn**, where the partial file of a
hash is used up by the first file that has it. -/
theorem installAll_costs {d₀ : Disk} : ∀ (files : List ModelFile) (used : List Str)
    {records : Records} {d : Disk} {log : History}, (∀ f ∈ files, f ∈ entry.files) →
    (∀ f ∈ files, d.have f = if f.partialName ∈ used then 0 else d₀.have f) →
    Costs tools options entry
      (Keyed.spent ModelFile.partialName (fun f => owed f (d₀.have f)) ModelFile.size used files)
      (fun _ _ => True) (installAll tools options entry files records) (d, log)
  | [], _, _, _, _, _, _ => ⟨trivial, rfl, rfl⟩
  | f :: files, used, records, d, log, hfiles, hhave => by
    have howed (_ : Decidable (f.partialName ∈ used)) :
        (if f.partialName ∈ used then f.size else owed f (d₀.have f)) = owed f (d.have f) := by
      rw [hhave f List.mem_cons_self]
      by_cases hused : f.partialName ∈ used
      · rw [if_pos hused, if_pos hused]
        rfl
      · rw [if_neg hused, if_neg hused]
    rw [Keyed.spent, howed]
    refine costs_seq (install_costs (hfiles f List.mem_cons_self)) fun installed d₁ log₁ h₁ => ?_
    refine costs_seq (m := 0) (installAll_costs files (f.partialName :: used)
      (fun g hg => hfiles g (List.mem_cons_of_mem f hg)) fun g hg => ?_)
      fun rest d₂ log₂ _ => ⟨trivial, rfl, rfl⟩
    by_cases hname : g.partialName = f.partialName
    · rw [if_pos (by rw [hname]; exact List.mem_cons_self)]
      unfold Disk.have at h₁ ⊢
      rw [hname]
      exact h₁.1
    · rw [h₁.2 g hname, hhave g (List.mem_cons_of_mem f hg)]
      simp [hname]

/-! ## The check -/

theorem fits_iff {needed free : ℕ} (hmeasured : log.flatMap measures = [(needed, free)])
    (henough : needed + DISK_MARGIN ≤ free) : Fits log ↔ appended log ≤ needed := by
  unfold Fits
  rw [hmeasured, List.forall_mem_singleton]
  constructor
  · exact fun h => (h henough).1
  · intro h _
    exact ⟨h, by omega⟩

theorem fits_of_nil (h : log.flatMap measures = []) : Fits log := by
  unfold Fits
  rw [h]
  nofun

theorem unshared_iff : Unshared tools options entry d ↔
    Keyed.spent ModelFile.partialName (fun f => owed f (d.have f)) ModelFile.size []
        (missingFiles tools options entry d) ≤
      ((missingFiles tools options entry d).map fun f => owed f (d.have f)).sum := by
  have hle (f : ModelFile) : owed f (d.have f) ≤ f.size := by
    unfold owed
    split_ifs <;> omega
  rw [Keyed.spent_le_iff hle]
  unfold Unshared
  refine List.Pairwise.iff fun f g => ?_
  have hname : f.partialName = g.partialName ↔ f.sha256 = g.sha256 :=
    List.append_left_inj _
  have howed : g.size ≤ owed g (d.have g) ↔ d.have g = 0 ∨ g.size < d.have g := by
    unfold owed
    split_ifs <;> omega
  rw [hname, howed]

/-- The disk as far as the count depends on it. -/
theorem unshared_congr (hfile : d'.fileAt = d.fileAt) (hstate : d'.state = d.state)
    (hhave : ∀ f ∈ entry.files, d'.have f = d.have f) :
    Unshared tools options entry d' ↔ Unshared tools options entry d := by
  have hmissing : missingFiles tools options entry d' = missingFiles tools options entry d := by
    unfold missingFiles isMissing
    rw [hfile, hstate]
  unfold Unshared
  rw [hmissing]
  constructor
  all_goals
    refine fun h => h.imp_of_mem fun _ hg hpair hsha => ?_
    have hg := hhave _ (List.mem_filter.1 hg).1
    have := hpair hsha
    omega

theorem removeStray_keeps {allowed : Disk → Op → Choice → Prop} (wanted names : List Str) :
    Does allowed (fun _ d' => d'.tree = d.tree ∧ d'.state = d.state ∧
      ∀ n ∈ wanted, d'.partialBytes n = d.partialBytes n) (removeStray wanted names) d := by
  refine wp_mono (fun _ _ => trivial) (fun _ _ h => h) (fun _ _ _ => trivial)
    (wp_uses (removeStray_removes wanted names) (fun o x d₁ ho h _ => ?_)
      ⟨rfl, rfl, fun _ _ => rfl⟩)
  obtain ⟨n, hn, rfl⟩ := ho
  obtain ⟨htree, hstate, hbytes⟩ := h
  have hsame : SameBut n d₁ (exec (.removePartial n) x d₁).2 :=
    exec_onPartial (o := .removePartial n) rfl x d₁
  refine ⟨hsame.tree.trans htree, hsame.state.trans hstate, fun n' hn' => ?_⟩
  rw [← hbytes n' hn']
  unfold Disk.partialBytes
  rw [hsame.partials n' fun heq => hn (heq ▸ hn')]

theorem loadRecords_reads : Does (Serves tools options entry) (fun records d' => d' = d ∧
    records = Records.load tools.text d.state) (loadRecords tools) d := by
  refine wp_bind (wp_handle (wp_op (fun _ _ => trivial) (fun x state d' _ hx => ?_)
    fun x e d' hserves hx => ?_))
  · obtain ⟨rfl, rfl⟩ := exec_loadState hx
    exact ⟨rfl, rfl⟩
  · have hraises : x.raises = none := hserves
    simp [exec, perform, hraises] at hx

theorem checkFiles_silent (files : List ModelFile) (records : Records) :
    Uses Silent (checkFiles tools options files records) := by
  have hrecorded (records : Records) (f : ModelFile) :
      Uses Silent (recorded options records f) := by
    refine uses_mono (fun o ho => ?_) (recorded_asks options records f)
    subst ho
    trivial
  have hknown (records : Records) (f : ModelFile) :
      Uses Silent (knownOrHashed tools options records f) := by
    refine uses_bind (hrecorded records f) fun known => ?_
    cases known with
    | some sha => trivial
    | none =>
      refine uses_bind (uses_op trivial) fun bytes => ?_
      exact uses_bind (uses_bind (uses_op trivial) fun _ => trivial) fun _ => trivial
  have hcheck (records : Records) (f : ModelFile) :
      Uses Silent (checkFile tools options records f) := by
    refine uses_bind (uses_op trivial) fun there => ?_
    split_ifs
    · refine uses_bind (hknown records f) fun known => ?_
      split_ifs
      · trivial
      · exact uses_bind (uses_op trivial) fun _ => trivial
    · trivial
  induction files generalizing records with
  | nil => trivial
  | cons f files ih =>
    exact uses_bind (hcheck records f) fun _ => uses_bind (ih _) fun _ => trivial

theorem removeStray_silent (wanted names : List Str) : Uses Silent (removeStray wanted names) := by
  refine uses_mono (fun o ho => ?_) (removeStray_removes wanted names)
  obtain ⟨n, -, rfl⟩ := ho
  trivial

theorem loadRecords_silent : Uses Silent (loadRecords tools) := by
  refine uses_bind (uses_handle (uses_op trivial) fun e => ?_) fun _ => trivial
  cases e <;> trivial

theorem remaining_silent (files : List ModelFile) : Uses Silent (remaining files) := by
  refine uses_mono (fun o ho => ?_) (remaining_asks files)
  obtain ⟨name, rfl⟩ := ho
  trivial

/-- After the check: what was measured, and when no more was appended than that. -/
def Settled (tools : Tools) (options : Options) (entry : ModelEntry) (d : Disk) (needed : ℕ)
    (history : History) : Prop :=
  ∃ free, history.flatMap measures = [(needed, free)] ∧ needed + DISK_MARGIN ≤ free ∧
    (appended history ≤ needed ↔ Unshared tools options entry d)

theorem Settled.adds {needed : ℕ} {log' : History} (h : Settled tools options entry d needed log)
    (hadds : Adds 0 log log') : Settled tools options entry d needed log' := by
  obtain ⟨free, hmeasured, henough, hiff⟩ := h
  refine ⟨free, hadds.measured.trans hmeasured, henough, ?_⟩
  rw [hadds.appended]
  exact hiff

theorem Settled.fits {needed : ℕ} (h : Settled tools options entry d needed log) :
    Fits log ↔ Unshared tools options entry d := by
  obtain ⟨free, hmeasured, henough, hiff⟩ := h
  rw [fits_iff hmeasured henough, hiff]

/-- The downloads after a check that passed. -/
theorem installed_settles {d₀ : Disk} {missing : List ModelFile} {needed free : ℕ}
    (hmeasured : log.flatMap measures = [(needed, free)]) (hnothing : appended log = 0)
    (henough : needed + DISK_MARGIN ≤ free)
    (hmissing : missing = missingFiles tools options entry d₀)
    (hneeded : needed = (missing.map fun f => owed f (d₀.have f)).sum)
    (hfiles : ∀ f ∈ missing, f ∈ entry.files) (hhave : ∀ f ∈ missing, d.have f = d₀.have f) :
    wp (logged exec) (fun s => Serves tools options entry s.1) (fun _ => True)
      (fun needed s => Settled tools options entry d₀ needed s.2)
      (fun _ s => Unshared tools options entry d₀ → Fits s.2)
      (do
        let installed ← installAll tools options entry missing records
        if installed.2 ≠ [] then .raise (.pull (.mismatch installed.2))
        else do
          call (.saveState { installed.1 with failed := [] }.dump)
          return needed) (d, log) := by
  have hunshared : Keyed.spent ModelFile.partialName (fun f => owed f (d₀.have f)) ModelFile.size
      [] missing ≤ needed ↔ Unshared tools options entry d₀ := by
    rw [unshared_iff, hneeded, hmissing]
  have hcosts : Costs tools options entry _ (fun _ _ => True)
      (installAll tools options entry missing records) (d, log) :=
    installAll_costs missing [] hfiles fun f hf => hhave f hf
  refine wp_bind (wp_mono (fun _ h => h) (fun installed s ⟨_, hadds⟩ => ?_)
    (fun _ s ⟨m, hm, hadds⟩ hpairs => ?_) hcosts)
  · have hsettled : Settled tools options entry d₀ needed s.2 := by
      refine ⟨free, hadds.measured.trans hmeasured, henough, ?_⟩
      rw [hadds.appended, hnothing, Nat.zero_add]
      exact hunshared
    split_ifs
    · exact hsettled.fits.2
    · exact silent_seq (uses_op trivial) (does_true _ _)
        (fun s' h => (hsettled.adds h).fits.2) fun _ d' log' _ h => hsettled.adds h
  · rw [fits_iff (hadds.measured.trans hmeasured) henough, hadds.appended, hnothing, Nat.zero_add]
    exact hm.trans (hunshared.2 hpairs)

/-- The check, where nothing was measured or appended before. -/
theorem check_settles {d₀ : Disk} {missing : List ModelFile} {needed : ℕ} (hlog : Adds 0 [] log)
    (hmissing : missing = missingFiles tools options entry d₀)
    (hneeded : needed = (missing.map fun f => owed f (d₀.have f)).sum)
    (hfiles : ∀ f ∈ missing, f ∈ entry.files) (hhave : ∀ f ∈ missing, d.have f = d₀.have f) :
    wp (logged exec) (fun s => Serves tools options entry s.1) (fun _ => True)
      (fun needed s => Settled tools options entry d₀ needed s.2)
      (fun _ s => Unshared tools options entry d₀ → Fits s.2)
      (do
        let free ← call (.diskFree needed)
        if free < needed + DISK_MARGIN then .raise (.pull (.noSpace needed free))
        else do
          let installed ← installAll tools options entry missing records
          if installed.2 ≠ [] then .raise (.pull (.mismatch installed.2))
          else do
            call (.saveState { installed.1 with failed := [] }.dump)
            return needed) (d, log) := by
  have hmeasured (x : Choice) (d' : Disk) :
      (log ++ [⟨.diskFree needed, x, d'⟩] : History).flatMap measures = [(needed, x.free)] := by
    rw [List.flatMap_append, hlog.measured]
    rfl
  have hnothing (x : Choice) (d' : Disk) :
      appended (log ++ [⟨.diskFree needed, x, d'⟩]) = 0 := by
    unfold appended
    rw [List.flatMap_append, List.length_append]
    exact hlog.appended
  have hfits (x : Choice) (d' : Disk) : Fits (log ++ [⟨.diskFree needed, x, d'⟩]) := by
    intro m hm henough
    rw [hmeasured, List.mem_singleton] at hm
    subst hm
    rw [hnothing]
    exact ⟨Nat.zero_le _, by omega⟩
  refine wp_logged_bind (fun _ _ => trivial) (fun x (free : ℕ) d' _ hx => ?_)
    fun x e d' _ _ _ => hfits x d'
  obtain rfl : d' = d := by simpa only [hx] using exec_reads (o := .diskFree needed) trivial x d
  obtain rfl : free = x.free := by
    cases (exec_ok hx).2
    rfl
  split_ifs with hroom
  · exact fun _ => hfits x d'
  · exact installed_settles (hmeasured x d') (hnothing x d') (Nat.le_of_not_lt hroom) hmissing
      hneeded hfiles hhave

/-- **The check and the downloads.** -/
theorem pullLocked_settles (hlog : Adds 0 [] log) : wp (logged exec)
    (fun s => Serves tools options entry s.1) (fun _ => True)
    (fun needed s => Settled tools options entry d needed s.2)
    (fun _ s => Unshared tools options entry d → Fits s.2)
    (pullLocked tools options entry) (d, log) := by
  -- nothing is measured before the check
  have hbefore {log' : History} (h : Adds 0 [] log') : Unshared tools options entry d → Fits log' :=
    fun _ => fits_of_nil h.measured
  refine silent_seq (P := fun _ d' => d' = d) (uses_op trivial) (does_op fun x names d₁ hx => ?_)
    (fun s h => hbefore (hlog.trans h)) fun names d₁ log₁ hd₁ h₁ => ?_
  · simpa only [hx] using exec_reads (o := .partialNames) trivial x d
  subst hd₁
  replace h₁ := hlog.trans h₁
  refine silent_seq (removeStray_silent _ names) (removeStray_keeps _ names)
    (fun s h => hbefore (h₁.trans h)) fun _ d₂ log₂ ⟨htree₂, hstate₂, hbytes₂⟩ h₂ => ?_
  replace h₂ := h₁.trans h₂
  refine silent_seq loadRecords_silent loadRecords_reads (fun s h => hbefore (h₂.trans h))
    fun records d₃ log₃ ⟨hd₃, hrecords⟩ h₃ => ?_
  subst hd₃
  replace h₃ := h₂.trans h₃
  refine silent_seq (checkFiles_silent _ _) (checkFiles_finds entry.nodup)
    (fun s h => hbefore (h₃.trans h)) fun checked d₄ log₄ ⟨hmissing, hpartials₄⟩ h₄ => ?_
  replace h₄ := h₃.trans h₄
  refine silent_seq (P := fun _ d' => d'.partials = d₄.partials) (uses_op trivial)
    (does_op fun x _ d₅ hx => ?_) (fun s h => hbefore (h₄.trans h))
    fun _ d₅ log₅ hpartials₅ h₅ => ?_
  · rw [exec_saveState hx]
  replace h₅ := h₄.trans h₅
  refine silent_seq (remaining_silent _) (remaining_counts _) (fun s h => hbefore (h₅.trans h))
    fun needed d₆ log₆ ⟨hd₆, hneeded⟩ h₆ => ?_
  subst hd₆
  replace h₆ := h₅.trans h₆
  -- the files that are missing, and how much of them is there
  have hsame : checked.2 = missingFiles tools options entry d₁ := by
    rw [hmissing, hrecords]
    unfold missingFiles isMissing
    rw [fileAt_of_tree htree₂, hstate₂]
  have hhave : ∀ f ∈ entry.files, d₆.have f = d₁.have f := by
    intro f hf
    rw [have_of_partials (hpartials₅.trans hpartials₄)]
    unfold Disk.have
    rw [hbytes₂ _ (List.mem_map_of_mem hf)]
  have hfiles : ∀ f ∈ checked.2, f ∈ entry.files := by
    rw [hmissing]
    exact fun f hf => (List.mem_filter.1 hf).1
  have hneeded' : needed = (checked.2.map fun f => owed f (d₁.have f)).sum := by
    rw [hneeded]
    exact congrArg List.sum (List.map_congr_left fun f hf => by rw [hhave f (hfiles f hf)])
  exact check_settles h₆ hsame hneeded' hfiles fun f hf => hhave f (hfiles f hf)

theorem pull_settles : wp (logged exec) (fun s => Serves tools options entry s.1) (fun _ => True)
    (fun result s => Settled tools options entry d result.downloadedBytes s.2)
    (fun _ s => Unshared tools options entry d → Fits s.2)
    (pull tools options entry) (d, []) := by
  have hbefore {log : History} (h : Adds 0 [] log) : Unshared tools options entry d → Fits log :=
    fun _ => fits_of_nil h.measured
  have hroot : Does (Serves tools options entry) (fun _ d' => d'.fileAt = d.fileAt ∧
      d'.state = d.state ∧ d'.partials = d.partials) (call .makeRoot) d := by
    refine does_op fun x _ d' hx => ?_
    obtain ⟨hfile, hstate⟩ := exec_makeRoot hx
    refine ⟨hfile, hstate, ?_⟩
    have hx := (exec_ok hx).2
    simp only [perform] at hx
    split at hx <;> cases hx
    rfl
  refine silent_seq (uses_op trivial) hroot (fun s h => hbefore h)
    fun _ d₁ log₁ hsame h₁ => ?_
  obtain ⟨hfile, hstate, hpartials⟩ := hsame
  have hcongr : Unshared tools options entry d₁ ↔ Unshared tools options entry d :=
    unshared_congr hfile hstate fun f _ => have_of_partials hpartials f
  refine silent_seq (P := fun _ d' => d' = d₁) (uses_op trivial) (does_op fun x _ d' hx => ?_)
    (fun s h => hbefore (h₁.trans h)) fun started d₂ log₂ hd₂ h₂ => ?_
  · simpa only [hx] using exec_reads (o := .monotonic) trivial x d₁
  subst hd₂
  replace h₂ := h₁.trans h₂
  refine silent_seq (P := fun _ d' => d' = d₂) (uses_op trivial) (does_op fun x _ d' hx => ?_)
    (fun s h => hbefore (h₂.trans h)) fun unlocked d₃ log₃ hd₃ h₃ => ?_
  · simpa only [hx] using exec_reads (o := .lock) trivial x d₂
  subst hd₃
  replace h₃ := h₂.trans h₃
  cases unlocked with
  | false => exact hbefore h₃
  | true =>
    refine wp_bind (wp_mono (fun _ h => h) (fun needed s hsettled => ?_)
      (fun _ s h hpairs => h (hcongr.2 hpairs)) (pullLocked_settles h₃))
    refine silent_seq (uses_op trivial) (does_true _ _)
      (fun s' h hpairs => (hsettled.adds h).fits.2 (hcongr.2 hpairs)) fun ended d₄ log₄ _ h₄ => ?_
    replace hsettled := hsettled.adds h₄
    refine silent_seq (uses_op trivial) (does_true _ _)
      (fun s' h hpairs => (hsettled.adds h).fits.2 (hcongr.2 hpairs)) fun usage d₅ log₅ _ h₅ => ?_
    obtain ⟨free, hmeasured, henough, hiff⟩ := hsettled.adds h₅
    exact ⟨free, hmeasured, henough, hiff.trans hcongr⟩

/-- **The disk check counts what will be written, unless a partial file is counted twice**: no more
is appended than was counted where no missing file comes after one with its hash while a part of it
is there; and in a pull that returns, only there. What was counted is what it reports. -/
theorem disk_check_iff (tools : Tools) (options : Options) (entry : ModelEntry) (d d' : Disk)
    (result : Except Exc PullResult) (history : History)
    (h : Ends (logged exec) (fun s => Serves tools options entry s.1) (pull tools options entry)
      (d, []) result (d', history)) :
    (Unshared tools options entry d → Fits history) ∧ ∀ r, result = .ok r →
      (Fits history ↔ Unshared tools options entry d) ∧
        ∃ free, history.flatMap measures = [(r.downloadedBytes, free)] := by
  obtain ⟨hok, herror⟩ := wp_ends pull_settles h
  have hsettled : ∀ r, result = .ok r →
      Settled tools options entry d r.downloadedBytes history := hok
  constructor
  · cases result with
    | ok r => exact (hsettled r rfl).fits.2
    | error e => exact herror e rfl
  · intro r hr
    obtain ⟨free, hmeasured, -⟩ := hsettled r hr
    exact ⟨(hsettled r hr).fits, free, hmeasured⟩

/-- Half of the small file has been downloaded. -/
def halfDisk : Disk := ⟨fun _ => none, none, [(smallFile.partialName, ⟨[0x47, 0x47], 1⟩)]⟩

theorem disk_check_iff_small : ∃ result d' history,
    Ends (logged exec) (fun s => Serves smallTools smallOptions smallEntry s.1)
      (pull smallTools smallOptions smallEntry) (halfDisk, []) (.ok result) (d', history) ∧
    Fits history ∧ appended history = 2 := by
  have hrun : ∃ result d' history, runWith (logged exec)
      (fun s => Serves smallTools smallOptions smallEntry s.1)
      (List.replicate 22 { quiet with reply := ⟨206, [[0x55, 0x46]], none, none⟩ })
      (pull smallTools smallOptions smallEntry) (halfDisk, []) = some (.ok result, d', history) ∧
      appended history = 2 := ⟨_, _, _, rfl, rfl⟩
  obtain ⟨result, d', history, hrun, htwo⟩ := hrun
  have hends := Ends.of_runWith hrun
  have hcheck := disk_check_iff smallTools smallOptions smallEntry halfDisk d' (.ok result) history
    hends
  exact ⟨result, d', history, hends, hcheck.1 (List.pairwise_singleton _ smallFile), htwo⟩

/-! ## Two files with one hash -/

/-- A copy of the small file under another name. -/
def copyFile : ModelFile := ⟨str "gguf/copy.gguf", 4, smallSha, by decide +kernel⟩

def twinEntry : ModelEntry :=
  ⟨str "tiny", str "lab/tiny", str "0a1b", [smallFile, copyFile], by decide +kernel⟩

/-- A server that sends the other half first, and then the whole file. -/
def halfThenWhole : List Choice :=
  List.replicate 21 { quiet with reply := ⟨206, [[0x55, 0x46]], none, none⟩ } ++
    List.replicate 13 quiet

/-- **A partial file is counted twice**: four bytes are counted, and six are written. -/
theorem shared_partial : ∃ result d' history,
    Ends (logged exec) (fun s => Serves smallTools smallOptions twinEntry s.1)
      (pull smallTools smallOptions twinEntry) (halfDisk, []) (.ok result) (d', history) ∧
    result.downloadedBytes = 4 ∧ appended history = 6 ∧ ¬Fits history := by
  have hrun : ∃ result d' history, runWith (logged exec)
      (fun s => Serves smallTools smallOptions twinEntry s.1) halfThenWhole
      (pull smallTools smallOptions twinEntry) (halfDisk, []) = some (.ok result, d', history) ∧
      result.downloadedBytes = 4 ∧ appended history = 6 ∧
      history.flatMap measures = [(4, 2 ^ 30)] := ⟨_, _, _, rfl, rfl, rfl, rfl⟩
  obtain ⟨result, d', history, hrun, hbytes, hsix, hmeasured⟩ := hrun
  refine ⟨result, d', history, Ends.of_runWith hrun, hbytes, hsix, ?_⟩
  rw [fits_iff hmeasured (by decide), hsix]
  decide

end AgentLab.Pull
