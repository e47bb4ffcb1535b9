import Mathlib.Data.List.Dedup
import AgentLab.Pull.Exactly
import AgentLab.Pull.Room

/-!
# Pulls that heal

For a server that serves the content of the registry, enough space and no interruption, whatever the
partial files and the files of the model are like. Nothing raises then but the mismatch error at the
end of `pull` (`pull_heals`): the names of the files do not stand in each other's way (`Clear`), and
a download brings its partial file to the size of the file in one request (`download_heals`).

A partial file that does not match is gone after the pull (`installAll_heals`), so the next one
downloads its file from the start, to the content of the registry, and returns
(`pull_heals_itself`).
-/

namespace AgentLab.Pull

open Python Effects

/-- No name of a file is a directory of another one's. -/
def Apart (entry : ModelEntry) : Prop :=
  ∀ f ∈ entry.files, ∀ g ∈ entry.files, ¬f.path <+: g.path.dropLast

/-- The targets are absent or regular files, and no directory on the way to one is a regular
file. -/
structure Clear (entry : ModelEntry) (d : Disk) : Prop where
  root : Node.isFile (d.tree []) = false
  target : ∀ f ∈ entry.files, d.tree f.path ≠ some .dir
  parents : ∀ f ∈ entry.files, ∀ q, q <+: f.path.dropLast → Node.isFile (d.tree q) = false

/-- The content at the URL of each file is the one of the registry. -/
def Registered (tools : Tools) (options : Options) (entry : ModelEntry) (content : Str → Bytes) :
    Prop :=
  ∀ f ∈ entry.files, (content (fileUrl tools options entry f)).length = f.size ∧
    tools.sha256 (content (fileUrl tools options entry f)) = f.sha256

/-- Nothing is interrupted: the lock is free, there is enough space, and the server answers with the
bytes from the offset on and status 206, or with all of them and status 200. -/
def Faithful (content : Str → Bytes) (_ : Disk) (o : Op) (x : Choice) : Prop :=
  x.raises = none ∧
    match o with
    | .lock => x.unlocked = true
    | .diskFree needed => needed + DISK_MARGIN ≤ x.free
    | .fetch url offset => x.reply.breaks = none ∧ x.reply.closes = none ∧
        (x.reply.status = 206 ∧ x.reply.chunks.flatten = (content url).drop offset ∨
          x.reply.status = 200 ∧ x.reply.chunks.flatten = content url)
    | _ => True

variable {tools : Tools} {options : Options} {entry : ModelEntry} {content : Str → Bytes}
  {f g : ModelFile} {d d' : Disk} {records : Records} {file : File} {url : Str} {offset : ℕ}
  {p : Path}

/-- The environment always has such a choice. -/
theorem faithful_total (content : Str → Bytes) (d : Disk) (o : Op) :
    ∃ x, Faithful content d o x := by
  cases o with
  | fetch url offset =>
    exact ⟨{ quiet with reply := ⟨200, [content url], none, none⟩ }, rfl, rfl, rfl,
      .inr ⟨rfl, List.append_nil _⟩⟩
  | diskFree needed => exact ⟨{ quiet with free := needed + DISK_MARGIN }, rfl, Nat.le_refl _⟩
  | lock => exact ⟨quiet, rfl, rfl⟩
  | _ => exact ⟨quiet, rfl, trivial⟩

/-! ## Names that do not stand in each other's way -/

theorem path_ne_nil (f : ModelFile) : f.path ≠ [] := List.splitOn_ne_nil 0x2F f.name

theorem Clear.of_tree (h : Clear entry d) (htree : d'.tree = d.tree) : Clear entry d' := by
  refine ⟨?_, fun f hf => ?_, fun f hf q hq => ?_⟩
  · rw [htree]
    exact h.root
  · rw [htree]
    exact h.target f hf
  · rw [htree]
    exact h.parents f hf q hq

/-- What is put there is no regular file. -/
theorem isFile_put (node : Option Node) (hnode : Node.isFile node = false) {q : Path}
    (h : Node.isFile (d.tree q) = false) : Node.isFile ((d.put p node).tree q) = false := by
  by_cases hp : q = p
  · rw [hp, put_self, hnode]
  · rw [put_of_ne _ _ hp, h]

theorem Clear.put_none (h : Clear entry d) (p : Path) : Clear entry (d.put p none) := by
  refine ⟨isFile_put none rfl h.root, fun f hf => ?_,
    fun f hf q hq => isFile_put none rfl (h.parents f hf q hq)⟩
  by_cases hp : f.path = p
  · rw [hp, put_self]
    rintro ⟨⟩
  · rw [put_of_ne _ _ hp]
    exact h.target f hf

theorem Clear.put_root (h : Clear entry d) : Clear entry (d.put [] (some .dir)) := by
  refine ⟨isFile_put _ rfl h.root, fun f hf => ?_,
    fun f hf q hq => isFile_put _ rfl (h.parents f hf q hq)⟩
  rw [put_of_ne _ _ (path_ne_nil f)]
  exact h.target f hf

/-- A file that is moved into place is in nobody's way. -/
theorem Clear.install (h : Clear entry d) (hapart : Apart entry) (hf : f ∈ entry.files)
    (file : File) : Clear entry ((d.makeDirs f.path.dropLast).put f.path (some (.file file))) := by
  have hdirs {q : Path} (h : Node.isFile (d.tree q) = false) :
      Node.isFile ((d.makeDirs f.path.dropLast).tree q) = false := by
    unfold Disk.makeDirs
    dsimp only
    split_ifs
    · rfl
    · exact h
  refine ⟨?_, fun g hg => ?_, fun g hg q hq => ?_⟩
  · rw [put_of_ne _ _ (path_ne_nil f).symm]
    exact hdirs h.root
  · by_cases hp : g.path = f.path
    · rw [hp, put_self]
      rintro ⟨⟩
    · rw [put_of_ne _ _ hp]
      unfold Disk.makeDirs
      dsimp only
      rw [if_neg fun hpre => hapart g hg f hf (List.isPrefixOf_iff_prefix.1 hpre)]
      exact h.target g hg
  · have hp : q ≠ f.path := fun hp => hapart f hf g hg (hp ▸ hq)
    rw [put_of_ne _ _ hp]
    exact hdirs (h.parents g hg q hq)

/-! ## The first loop -/

variable {α : Type} {Q : α → Disk → Prop} {E : Exc → Disk → Prop}

/-- Every run of the program with such an environment returns with `Q` or raises with `E`. -/
abbrev Heals (content : Str → Bytes) {α : Type} (Q : α → Disk → Prop) (E : Exc → Disk → Prop)
    (p : Script α) (d : Disk) : Prop :=
  wp exec (Faithful content) (fun _ => True) Q E p d

/-- An operation that succeeds if it is not made to raise, and then the rest. -/
theorem heals_call {o : Op} {k : o.Resp → Script α}
    (hno : ∀ x e d', Faithful content d o x → perform o x d ≠ (.error e, d'))
    (hk : ∀ x r d', Faithful content d o x → exec o x d = (.ok r, d') →
      Heals content Q E (k r) d') : Heals content Q E (call o >>= k) d := by
  refine wp_op_bind (fun _ _ => trivial) hk fun x e d' hx he => absurd ?_ (hno x e d' hx)
  unfold exec at he
  rwa [hx.1] at he

/-- What else the program is known to do. -/
theorem heals_and {Q' : α → Disk → Prop} {p : Script α} (h : Heals content Q E p d)
    (h' : Does (Faithful content) Q' p d) :
    Heals content (fun a d' => Q a d' ∧ Q' a d') E p d :=
  wp_mono (fun _ _ => trivial) (fun _ _ h => h) (fun _ _ h => h.1) (wp_and h h')

theorem recorded_heals (hfile : d.fileAt f.path = some file) :
    Heals content (fun _ d' => d' = d) E (recorded options records f) d := by
  unfold recorded knownSha256
  split_ifs
  · exact rfl
  split
  · refine wp_handle (heals_call (fun x e d' _ => ?_) fun x st d' _ hx => (exec_stat hx).1)
    simp only [perform, fileAt_eq_some.1 hfile]
    rintro ⟨⟩
  · exact rfl

theorem knownOrHashed_heals (hfile : d.fileAt f.path = some file) :
    Heals content (fun _ d' => d' = d) E (knownOrHashed tools options records f) d := by
  have hthere := fileAt_eq_some.1 hfile
  refine wp_seq (recorded_heals hfile) fun known d₁ hd₁ => ?_
  subst hd₁
  cases known with
  | some sha => exact rfl
  | none =>
    refine heals_call (fun x e d' _ => ?_) fun x bytes d₂ _ hx => ?_
    · simp only [perform, hthere]
      rintro ⟨⟩
    · obtain ⟨rfl, -⟩ := exec_read hx
      refine wp_bind (heals_call (fun x e d' _ => ?_) fun x st d₃ _ hx => ?_)
      · simp only [perform, hthere]
        rintro ⟨⟩
      · obtain ⟨rfl, -⟩ := exec_stat hx
        exact rfl

theorem checkFile_heals (h : Clear entry d) :
    Heals content (fun _ d' => Clear entry d') E (checkFile tools options records f) d := by
  refine heals_call (fun x e d' _ h => by cases h) fun x there d₁ _ hx => ?_
  obtain ⟨rfl, rfl⟩ := exec_isFile hx
  split_ifs with hthere
  · obtain ⟨file, hfile⟩ : ∃ file, d₁.fileAt f.path = some file := by
      rw [← Option.ne_none_iff_exists', Ne, fileAt_eq_none, hthere]
      rintro ⟨⟩
    refine wp_seq (knownOrHashed_heals hfile) fun known d₂ hd₂ => ?_
    subst hd₂
    split_ifs
    · exact h
    · refine heals_call (fun x e d' _ => ?_) fun x _ d₃ _ hx => ?_
      · simp only [perform, fileAt_eq_some.1 hfile]
        rintro ⟨⟩
      · obtain rfl := exec_unlink hx
        exact h.put_none _
  · exact h

theorem checkFiles_heals (files : List ModelFile) : ∀ {records : Records} {d : Disk},
    Clear entry d →
    Heals content (fun _ d' => Clear entry d') E (checkFiles tools options files records) d := by
  induction files with
  | nil => exact fun h => h
  | cons f files ih =>
    intro records d h
    refine wp_seq (checkFile_heals h) fun checked d₁ h₁ => ?_
    exact wp_seq (ih h₁) fun _ _ h₂ => h₂

/-! ## Downloads -/

theorem writeChunks_heals : ∀ {chunks : List Bytes} {d : Disk},
    d.have f + chunks.flatten.length ≤ f.size →
      Heals content (fun _ d' => d'.partialBytes f.partialName =
        d.partialBytes f.partialName ++ chunks.flatten) E (writeChunks f none chunks) d := by
  intro chunks
  induction chunks with
  | nil => exact fun _ => (List.append_nil _).symm
  | cons chunk chunks ih =>
    intro d h
    rw [List.flatten_cons, List.length_append] at h
    refine heals_call (fun x e d' _ h => by cases h) fun x (size : ℕ) d₁ _ hx => ?_
    have hbytes := exec_writePartial_ok hx
    have hsize : size = d.have f + chunk.length := by
      cases (exec_ok hx).2
      rfl
    have hhave : d₁.have f = d.have f + chunk.length := by
      unfold Disk.have
      rw [hbytes, List.length_append]
    rw [if_neg (by omega)]
    refine wp_mono (fun _ h => h) (fun _ d' h => ?_) (fun _ _ h => h) (ih (by omega))
    rw [h, hbytes, List.flatten_cons, List.append_assoc]

/-- **One request** brings the partial file to its size; to the content, if nothing was there. -/
theorem request_heals (hcontent : (content url).length = f.size) (hhave : d.have f = offset)
    (hle : offset ≤ f.size) :
    Heals content (fun _ d' => d'.have f = f.size ∧
        (offset = 0 → d'.partialBytes f.partialName = content url)) E (request url f offset) d := by
  refine heals_call (fun x e d' _ h => by cases h) fun x reply d₁ hx hr => ?_
  obtain ⟨-, hbreaks, hcloses, hreply⟩ := hx
  cases (exec_ok hr).2
  rw [hbreaks, hcloses]
  refine heals_call (fun x' e d' _ => nofun) fun x' u d₂ _ hr' => ?_
  have hopened := exec_openPartial hr'
  -- what the partial file has in the end
  have hall : d₂.partialBytes f.partialName ++ x.reply.chunks.flatten = content url ∨
      offset ≠ 0 ∧ d₂.have f = offset ∧
        x.reply.chunks.flatten = (content url).drop offset := by
    by_cases happend : offset ≠ 0 ∧ x.reply.status = 206
    · rw [if_pos (by simpa using happend)] at hopened
      obtain ⟨-, hchunks⟩ | ⟨hstatus, -⟩ := hreply
      · refine .inr ⟨happend.1, ?_, hchunks⟩
        unfold Disk.have at hhave ⊢
        rw [hopened, hhave]
      · rw [happend.2] at hstatus
        cases hstatus
    · rw [if_neg (by simpa using happend)] at hopened
      rw [hopened, List.nil_append]
      obtain ⟨hstatus, hchunks⟩ | ⟨-, hchunks⟩ := hreply
      · have hzero : offset = 0 := by
          by_contra hne
          exact happend ⟨hne, hstatus⟩
        rw [hzero, List.drop_zero] at hchunks
        exact .inl hchunks
      · exact .inl hchunks
  have hlength : d₂.have f + x.reply.chunks.flatten.length = f.size := by
    obtain hall | ⟨-, hkept, hchunks⟩ := hall
    · unfold Disk.have
      rw [← List.length_append, hall, hcontent]
    · rw [hchunks, List.length_drop, hcontent, hkept]
      omega
  refine wp_seq (writeChunks_heals hlength.le) fun _ d₃ h₃ => ⟨?_, fun hzero => ?_⟩
  · unfold Disk.have
    rw [h₃, List.length_append]
    exact hlength
  · rw [h₃]
    obtain hall | ⟨hne, -⟩ := hall
    · exact hall
    · exact absurd hzero hne

theorem exists_partial (h : 0 < d.have f) :
    ∃ file, Dict.get? d.partials f.partialName = some file := by
  unfold Disk.have Disk.partialBytes at h
  cases hfile : Dict.get? d.partials f.partialName with
  | some file => exact ⟨file, rfl⟩
  | none =>
    rw [hfile] at h
    cases h

theorem startOffset_heals : Heals content (fun offset d' => d'.have f = offset ∧
    offset ≤ f.size ∧ (d.have f = 0 → offset = 0)) E (startOffset f) d := by
  refine heals_call (fun x e d' _ h => by cases h) fun x size d₁ _ hx => ?_
  obtain ⟨rfl, hsize⟩ := exec_partialSize hx
  change size.getD 0 = d₁.have f at hsize
  split_ifs with hlong
  · obtain ⟨file, hfile⟩ := exists_partial (d := d₁) (f := f) (by omega)
    refine heals_call (fun x e d' _ => ?_) fun x _ d₂ _ hx => ?_
    · simp only [perform, hfile]
      rintro ⟨⟩
    · obtain rfl := exec_removePartial hx
      exact ⟨have_dropPartial, Nat.zero_le _, fun _ => rfl⟩
  · exact ⟨hsize.symm, by omega, fun hzero => hsize.trans hzero⟩

/-- **A download** brings the partial file to its size; to the content, if nothing was there. -/
theorem download_heals (hcontent : (content url).length = f.size) (left : ℕ) :
    Heals content (fun _ d' => HasSize f f.size d' ∧
        (d.have f = 0 → d'.partialBytes f.partialName = content url)) E
      (download options url f (left + 1)) d := by
  rw [download_succ]
  refine wp_seq startOffset_heals fun offset d₁ hstart => ?_
  obtain ⟨hhave, hle, hzero⟩ := hstart
  unfold round
  by_cases hsize : offset = f.size
  · rw [if_pos hsize]
    refine wp_op (C := fun _ => True) (fun _ _ => trivial) (fun x _ d₂ _ hx => ?_)
      fun x e d₂ hx he => ?_
    · cases (exec_ok hx).2
      have hbytes : (d₁.append f.partialName [] x.mtime).partialBytes f.partialName =
          d₁.partialBytes f.partialName := by
        rw [partialBytes_append, List.append_nil]
      refine ⟨⟨_, Dict.get?_set_self _ _ _, ?_⟩, fun hnone => ?_⟩
      · rw [List.append_nil]
        exact hhave.trans hsize
      · rw [hbytes]
        have hlength : (content url).length = 0 := by rw [hcontent, ← hsize, hzero hnone]
        have hnil : (d₁.partialBytes f.partialName).length = 0 := hhave.trans (hzero hnone)
        rw [List.eq_nil_of_length_eq_zero hlength, List.eq_nil_of_length_eq_zero hnil]
    · simp [exec, perform, hx.1] at he
  · rw [if_neg hsize]
    have hattempt : Heals content (fun failure d' => failure = none ∧ d'.have f = f.size ∧
        (offset = 0 → d'.partialBytes f.partialName = content url)) E
        (attempt options url f offset) d₁ := by
      refine wp_handle (wp_seq (P := fun _ d' => d'.have f = f.size ∧
        (offset = 0 → d'.partialBytes f.partialName = content url)) ?_ fun _ d' h => ⟨rfl, h⟩)
      exact request_heals hcontent hhave hle
    refine wp_seq hattempt fun failure d₂ hreceived => ?_
    obtain ⟨rfl, h₂, hbytes⟩ := hreceived
    obtain ⟨file, hfile⟩ := exists_partial (d := d₂) (f := f) (by omega)
    refine heals_call (fun x e d' _ => ?_) fun x size d₃ _ hx => ?_
    · simp only [perform, hfile]
      rintro ⟨⟩
    · obtain ⟨rfl, file', hfile', rfl⟩ := exec_statPartial hx
      have hlength : file'.bytes.length = f.size := by
        rw [← h₂]
        unfold Disk.have
        rw [partialBytes_of_get? hfile']
      rw [if_pos hlength]
      exact ⟨⟨file', hfile', hlength⟩, fun hnone => hbytes (hzero hnone)⟩

/-! ## The second loop -/

/-- The directories on the way to a target can be made. -/
theorem perform_makeParents (h : Clear entry d) (hf : f ∈ entry.files) (x : Choice) :
    perform (.makeParents f.path) x d = (.ok (), d.makeDirs f.path.dropLast) := by
  simp only [perform]
  rw [if_neg]
  intro hany
  obtain ⟨q, hq, hfile⟩ := List.any_eq_true.1 hany
  rw [h.parents f hf q ((List.mem_inits _ _).1 hq)] at hfile
  cases hfile

/-- A partial file can then be moved into place. -/
theorem perform_replace (h : Clear entry d) (hapart : Apart entry) (hf : f ∈ entry.files)
    (hfile : Dict.get? d.partials f.partialName = some file) (x : Choice) :
    perform (.replace f.partialName f.path) x (d.makeDirs f.path.dropLast) =
      (.ok (), ((d.makeDirs f.path.dropLast).put f.path (some (.file file))).dropPartial
        f.partialName) := by
  have hparent : (d.makeDirs f.path.dropLast).tree f.path.dropLast = some .dir :=
    if_pos (List.isPrefixOf_iff_prefix.2 (List.prefix_refl _))
  have htarget : (d.makeDirs f.path.dropLast).tree f.path = d.tree f.path :=
    if_neg fun hpre => hapart f hf f hf (List.isPrefixOf_iff_prefix.1 hpre)
  have hnot := h.target f hf
  have hpartial : Dict.get? (d.makeDirs f.path.dropLast).partials f.partialName = some file :=
    hfile
  -- the target is no directory (`hnot`)
  simp only [perform, hpartial, hparent, htarget]

theorem install_heals (h : Clear entry d) (hapart : Apart entry)
    (hcontent : Registered tools options entry content) (hf : f ∈ entry.files) :
    Heals content (fun installed d' => Clear entry d' ∧ (d.have f = 0 → installed.2 = false)) E
      (install tools options entry records f) d := by
  obtain ⟨hlength, hsha⟩ := hcontent f hf
  have hdownload : Heals content _ E
      (download options (fileUrl tools options entry f) f RETRIES) d :=
    heals_and (download_heals hlength 2) (besides_does (download_besides options _ f RETRIES) d)
  refine wp_seq hdownload fun _ d₁ ⟨⟨⟨file, hfile, _⟩, hwhole⟩, htree, _⟩ => ?_
  have h₁ := h.of_tree htree
  refine heals_call (fun x e d' _ => ?_) fun x bytes d₂ _ hx => ?_
  · simp only [perform, hfile]
    rintro ⟨⟩
  obtain ⟨rfl, file', hfile', rfl⟩ := exec_readPartial hx
  obtain rfl : file' = file := by simpa [hfile] using hfile'.symm
  split_ifs with hmatch
  · refine heals_call (fun x e d' _ => ?_) fun x _ d₃ _ hx => ?_
    · rw [perform_makeParents h₁ hf x]
      rintro ⟨⟩
    obtain ⟨rfl, -⟩ := exec_makeParents hx
    refine heals_call (fun x e d' _ => ?_) fun x _ d₄ _ hx => ?_
    · rw [perform_replace h₁ hapart hf hfile' x]
      rintro ⟨⟩
    obtain ⟨file'', hfile'', rfl⟩ := exec_replace hx
    have hplaced := put_self (d₂.makeDirs f.path.dropLast) f.path (some (.file file''))
    refine wp_bind (heals_call (fun x e d' _ => ?_) fun x st d₅ _ hx => ?_)
    · simp only [perform]
      split
      · rintro ⟨⟩
      · next hnone => exact absurd hplaced (hnone _)
    obtain ⟨rfl, -⟩ := exec_stat hx
    refine heals_call (fun x e d' _ h => by cases h) fun x _ d₆ _ hx => ?_
    obtain rfl := exec_saveState hx
    exact ⟨(h₁.install hapart hf file'').of_tree rfl, fun _ => rfl⟩
  · refine heals_call (fun x e d' _ => ?_) fun x _ d₃ _ hx => ?_
    · simp only [perform, hfile']
      rintro ⟨⟩
    obtain rfl := exec_removePartial hx
    refine heals_call (fun x e d' _ h => by cases h) fun x _ d₄ _ hx => ?_
    obtain rfl := exec_saveState hx
    refine ⟨h₁.of_tree rfl, fun hnone => absurd ?_ hmatch⟩
    rw [← hsha, ← hwhole hnone, partialBytes_of_get? hfile']

theorem have_congr (h : f.partialName = g.partialName) : d.have f = d.have g := by
  unfold Disk.have
  rw [h]

/-- **The second loop** uses up the partial files; where there were none, every file matches. -/
theorem installAll_heals (hapart : Apart entry)
    (hcontent : Registered tools options entry content) : ∀ {files : List ModelFile},
    (∀ f ∈ files, f ∈ entry.files) → ∀ {records : Records} {d : Disk}, Clear entry d →
    Heals content (fun installed d' => Clear entry d' ∧ (∀ g, d.have g = 0 → d'.have g = 0) ∧
        (∀ f ∈ files, d'.have f = 0) ∧ ((∀ f ∈ files, d.have f = 0) → installed.2 = [])) E
      (installAll tools options entry files records) d
  | [], _, _, _, h => ⟨h, fun _ h => h, nofun, fun _ => rfl⟩
  | f :: files, hfiles, records, d, h => by
    refine wp_seq (heals_and (install_heals h hapart hcontent (hfiles f List.mem_cons_self))
      install_partials) fun installed d₁ ⟨⟨h₁, hmatch⟩, hused, hothers⟩ => ?_
    have hkept : ∀ g, d.have g = 0 → d₁.have g = 0 := by
      intro g hg
      by_cases hname : g.partialName = f.partialName
      · rw [have_congr hname, hused]
      · rw [hothers g hname, hg]
    refine wp_seq (installAll_heals hapart hcontent
      (fun g hg => hfiles g (List.mem_cons_of_mem f hg)) h₁) fun rest d₂ h₂ => ?_
    obtain ⟨hclear, hkept', hgone, hmatches⟩ := h₂
    refine ⟨hclear, fun g hg => hkept' g (hkept g hg), ?_, fun hnone => ?_⟩
    · exact List.forall_mem_cons.2 ⟨hkept' f hused, hgone⟩
    · obtain ⟨hf, hrest⟩ := List.forall_mem_cons.1 hnone
      show (if installed.2 = true then f.name :: rest.2 else rest.2) = []
      rw [hmatch hf, if_neg Bool.false_ne_true]
      exact hmatches fun g hg => hkept g (hrest g hg)

/-! ## The pull -/

/-- The mismatch error, after every other file was installed; not where all that was missing was to
be downloaded from the start. -/
def Mismatched (tools : Tools) (entry : ModelEntry) (d : Disk) (e : Exc) (d' : Disk) : Prop :=
  (∃ names, e = .pull (.mismatch names) ∧ ∀ f ∈ entry.files, f.name ∉ names →
      Installed tools d' (Records.load tools.text d'.state) f) ∧
    TruthfulNow tools d' (Records.load tools.text d'.state) ∧ Clear entry d' ∧
      (∀ f ∈ entry.files, Has tools d' f ∨ d'.have f = 0) ∧
        ¬∀ f ∈ entry.files, Has tools d f ∨ d.have f = 0

theorem removeStray_heals (wanted : List Str) : ∀ {names : List Str} {d : Disk}, names.Nodup →
    (∀ n ∈ names, ∃ file, Dict.get? d.partials n = some file) →
    Heals content (fun _ _ => True) E (removeStray wanted names) d
  | [], _, _, _ => trivial
  | name :: names, d, hnodup, hthere => by
    obtain ⟨hname, hnodup⟩ := List.nodup_cons.1 hnodup
    obtain ⟨⟨file, hfile⟩, hrest⟩ := List.forall_mem_cons.1 hthere
    unfold removeStray
    split_ifs
    · exact removeStray_heals wanted hnodup hrest
    · refine heals_call (fun x e d' _ => ?_) fun x _ d₁ _ hx => ?_
      · simp only [perform, hfile]
        rintro ⟨⟩
      obtain rfl := exec_removePartial hx
      refine removeStray_heals wanted hnodup fun n hn => ?_
      have hne : name ≠ n := fun heq => hname (heq ▸ hn)
      obtain ⟨file', hfile'⟩ := hrest n hn
      refine ⟨file', ?_⟩
      show Dict.get? (Dict.pop d.partials name) n = _
      rw [Dict.get?_pop, if_neg hne, hfile']

theorem loadRecords_heals : Heals content (fun _ _ => True) E (loadRecords tools) d := by
  refine wp_bind (wp_handle (wp_op (C := fun _ => True) (fun _ _ => trivial)
    (fun _ _ _ _ _ => trivial) fun x e d' hx he => ?_))
  simp [exec, perform, hx.1] at he

theorem remaining_heals : ∀ (files : List ModelFile) {d : Disk},
    Heals content (fun _ _ => True) E (remaining files) d
  | [], _ => trivial
  | _ :: files, _ =>
    heals_call (fun _ _ _ _ h => by cases h) fun _ _ _ _ _ =>
      wp_seq (remaining_heals files) fun _ _ _ => trivial

theorem pullLocked_heals (hapart : Apart entry) (hcontent : Registered tools options entry content)
    (h : Clear entry d) (htrue : TruthfulNow tools d (Records.load tools.text d.state)) :
    Heals content (fun _ d' => Clear entry d') (Mismatched tools entry d)
      (pullLocked tools options entry) d := by
  refine heals_call (fun x e d' _ h => by cases h) fun x names d₁ _ hx => ?_
  cases (exec_ok hx).2
  have hnames : ∀ n ∈ (d.partials.map Prod.fst).dedup,
      ∃ file, Dict.get? d.partials n = some file := by
    intro n hn
    rw [← Option.ne_none_iff_exists', Ne, Dict.get?_eq_none, not_not]
    exact List.mem_dedup.1 hn
  refine wp_seq (heals_and (removeStray_heals _ (List.nodup_dedup _) hnames)
    (removeStray_keeps _ _)) fun _ d₂ ⟨_, htree₂, hstate₂, hbytes₂⟩ => ?_
  have htrue₂ : TruthfulNow tools d₂ (Records.load tools.text d₂.state) := by
    rw [hstate₂]
    exact htrue.fewer fun p file hp => fileAt_of_tree htree₂ ▸ hp
  refine wp_seq (heals_and loadRecords_heals (loadRecords_does htrue₂))
    fun records d₃ ⟨_, hd₃, htrue₃⟩ => ?_
  subst hd₃
  refine wp_seq (heals_and (checkFiles_heals entry.files (h.of_tree htree₂))
    (checkFiles_does entry.nodup htrue₃)) fun checked d₄ ⟨hclear₄, h₄⟩ => ?_
  refine heals_call (fun x e d' _ h => by cases h) fun x _ d₅ _ hx => ?_
  obtain rfl := exec_saveState hx
  refine wp_seq (heals_and (remaining_heals checked.2) (remaining_counts checked.2))
    fun needed d₆ ⟨_, hd₆, _⟩ => ?_
  subst hd₆
  refine heals_call (fun x e d' _ h => by cases h) fun x (free : ℕ) d₇ hroom hx => ?_
  cases (exec_ok hx).2
  rw [if_neg (Nat.not_lt.2 hroom.2)]
  have hnodup := entry.nodup.sublist (h₄.sublist.map ModelFile.name)
  have htrue₇ : TruthfulNow tools _ checked.1 := h₄.truthful
  refine wp_seq (heals_and (installAll_heals hapart hcontent (fun f hf => h₄.sublist.subset hf)
    (hclear₄.of_tree rfl)) (installAll_does hnodup htrue₇)) fun installed d₈ ⟨hheals, h₈⟩ => ?_
  obtain ⟨hclear₈, -, hgone, hmatches⟩ := hheals
  have htree : ({ d₄ with state := some checked.1.dump } : Disk).tree = d₄.tree := rfl
  have hinstalled := h₄.installed_after htree h₈ entry.nodup
  split_ifs with hmismatched
  · have hstate₈ : d₈.state = some installed.1.dump := h₈.saved rfl
    have hrecords : Records.load tools.text d₈.state = installed.1 := by
      rw [hstate₈, load_dump]
    refine ⟨⟨installed.2, rfl, ?_⟩, ?_, hclear₈, fun f hf => ?_, fun hfresh => hmismatched ?_⟩
    · rw [hrecords]
      exact hinstalled
    · rw [hrecords]
      exact h₈.truthful
    · by_cases hname : f.name ∈ installed.2
      · obtain ⟨g, hg, hgf⟩ := List.mem_map.1 (h₈.sublist.subset hname)
        obtain rfl := List.inj_on_of_nodup_map entry.nodup (h₄.sublist.subset hg) hf hgf
        exact .inr (hgone g hg)
      · exact .inl (hinstalled f hf hname).has
    · refine hmatches fun f hf => ?_
      have hmem := h₄.sublist.subset hf
      have hhas : ¬Has tools d f := by
        rw [← Has.congr (congrFun (fileAt_of_tree htree₂) f.path)]
        exact h₄.missing f hf
      show (d₄.partialBytes f.partialName).length = 0
      rw [← (hfresh f hmem).resolve_left hhas]
      unfold Disk.have
      rw [← hbytes₂ _ (List.mem_map_of_mem hmem)]
      unfold Disk.partialBytes
      rw [h₄.partials]
  · refine heals_call (fun x e d' _ h => by cases h) fun x _ d₉ _ hx => ?_
    obtain rfl := exec_saveState hx
    exact hclear₈.of_tree rfl

theorem pull_heals (hapart : Apart entry) (hcontent : Registered tools options entry content)
    (h : Clear entry d) (htrue : TruthfulNow tools d (Records.load tools.text d.state)) :
    Heals content (fun _ d' => Clear entry d') (Mismatched tools entry d)
      (pull tools options entry) d := by
  refine heals_call (fun x e d' _ => ?_) fun x _ d₁ _ hx => ?_
  · simp only [perform]
    split
    · next file hfile =>
      have hroot := h.root
      rw [hfile] at hroot
      cases hroot
    · rintro ⟨⟩
  have hfiles := (exec_makeRoot hx).1
  obtain rfl : d₁ = d.put [] (some .dir) := by
    have hx := (exec_ok hx).2
    simp only [perform] at hx
    split at hx <;> cases hx
    rfl
  have htrue₁ : TruthfulNow tools (d.put [] (some .dir)) (Records.load tools.text d.state) :=
    htrue.fewer fun p file hp => hfiles ▸ hp
  have hbefore : ∀ e d', Mismatched tools entry (d.put [] (some .dir)) e d' →
      Mismatched tools entry d e d' := by
    rintro e d' ⟨hnames, htrue', hclear', hfresh', hnot⟩
    refine ⟨hnames, htrue', hclear', hfresh', fun hfresh => hnot fun f hf => ?_⟩
    rw [Has.congr (congrFun hfiles f.path)]
    exact hfresh f hf
  refine heals_call (fun x e d' _ h => by cases h) fun x started d₂ _ hx => ?_
  cases (exec_ok hx).2
  refine heals_call (fun x e d' _ h => by cases h) fun x unlocked d₃ hfree hx => ?_
  cases (exec_ok hx).2
  rw [hfree.2]
  refine wp_bind (wp_mono (fun _ h => h) (fun needed d₄ h₄ => ?_) hbefore
    (pullLocked_heals hapart hcontent h.put_root htrue₁))
  refine heals_call (fun x e d' _ h => by cases h) fun x ended d₅ _ hx => ?_
  cases (exec_ok hx).2
  refine heals_call (fun x e d' _ h => by cases h) fun x usage d₆ _ hx => ?_
  cases (exec_ok hx).2
  exact h₄

/-- **A pull heals itself.** The targets are absent or regular files, the records are truthful, and
the partial files are anything. Then a pull ends; it returns, or raises the mismatch error, and has
installed every file that this does not name. And the pull after it, with any options, ends and
returns, and `local_state` is DOWNLOADED. -/
theorem pull_heals_itself (tools : Tools) (options options' : Options) (entry : ModelEntry)
    (content : Str → Bytes) (d : Disk) (hapart : Apart entry) (hclear : Clear entry d)
    (hrecords : TruthfulNow tools d (Records.load tools.text d.state))
    (hcontent : Registered tools options entry content)
    (hcontent' : Registered tools options' entry content) :
    (∃ result d', Ends exec (Faithful content) (pull tools options entry) d result d') ∧
    ∀ result d', Ends exec (Faithful content) (pull tools options entry) d result d' →
      (∀ e, result = .error e → ∃ names, e = .pull (.mismatch names) ∧
        ∀ f ∈ entry.files, f.name ∉ names →
          Installed tools d' (Records.load tools.text d'.state) f) ∧
      (∃ result' d'', Ends exec (Faithful content) (pull tools options' entry) d' result' d'') ∧
      ∀ result' d'', Ends exec (Faithful content) (pull tools options' entry) d' result' d'' →
        (∃ r, result' = .ok r) ∧ localState tools.text entry d'' = .downloaded := by
  refine ⟨exists_end (faithful_total content) _ d, fun result d' h => ?_⟩
  have hpull := pull_heals hapart hcontent hclear hrecords
  have hfirst := wp_ends hpull h
  have hreturned := wp_ends (pull_does hrecords) h
  -- in either case, what the next pull finds missing is downloaded from the start
  have hnext : TruthfulNow tools d' (Records.load tools.text d'.state) ∧ Clear entry d' ∧
      ∀ f ∈ entry.files, Has tools d' f ∨ d'.have f = 0 := by
    cases result with
    | ok r =>
      have hpulled := hreturned.1 r rfl
      exact ⟨hpulled.truthful, hfirst.1 r rfl, fun f hf => .inl (hpulled.installed f hf).has⟩
    | error e =>
      obtain ⟨-, htrue', hclear', hfresh', -⟩ := hfirst.2 e rfl
      exact ⟨htrue', hclear', hfresh'⟩
  obtain ⟨htrue', hclear', hfresh'⟩ := hnext
  refine ⟨fun e he => (hfirst.2 e he).1, exists_end (faithful_total content) _ d',
    fun result' d'' h' => ?_⟩
  have hsecond := wp_ends (pull_heals hapart hcontent' hclear' htrue') h'
  cases result' with
  | error e =>
    obtain ⟨-, -, -, -, hnot⟩ := hsecond.2 e rfl
    exact absurd hfresh' hnot
  | ok r =>
    have hpulled : Pulled tools entry d' d'' := (wp_ends (pull_does htrue') h').1 r rfl
    refine ⟨⟨r, rfl⟩, localState_downloaded.2 ⟨fun f _ => ?_, fun f hf => ?_⟩⟩
    · rw [hpulled.failed]
      exact List.not_mem_nil
    · exact (hpulled.installed f hf).known

/-- A partial file of the right size, with wrong bytes. -/
def corruptDisk : Disk := ⟨fun _ => none, none, [(smallFile.partialName, ⟨[0, 0, 0, 0], 1⟩)]⟩

theorem pull_heals_itself_corrupt : ∃ result d' result' d'',
    Ends exec (Faithful fun _ => smallBytes) (pull smallTools smallOptions smallEntry) corruptDisk
      result d' ∧
    Ends exec (Faithful fun _ => smallBytes) (pull smallTools smallOptions smallEntry) d'
      result' d'' ∧
    localState smallTools.text smallEntry d'' = .downloaded := by
  have hapart : Apart smallEntry := by
    intro f hf g hg
    rw [List.mem_singleton.1 hf, List.mem_singleton.1 hg]
    decide
  have hclear : Clear smallEntry corruptDisk := ⟨rfl, nofun, fun _ _ _ _ => rfl⟩
  have hcontent : Registered smallTools smallOptions smallEntry fun _ => smallBytes := by
    intro f hf
    rw [List.mem_singleton.1 hf]
    exact ⟨rfl, rfl⟩
  obtain ⟨⟨result, d', h⟩, hall⟩ := pull_heals_itself smallTools smallOptions smallOptions
    smallEntry (fun _ => smallBytes) corruptDisk hapart hclear truthfulNow_nil hcontent hcontent
  obtain ⟨-, ⟨result', d'', h'⟩, hlocal⟩ := hall result d' h
  exact ⟨result, d', result', d'', h, h', (hlocal result' d'' h').2⟩

end AgentLab.Pull
