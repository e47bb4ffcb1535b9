import Mathlib.Data.List.Nodup
import AgentLab.Pull.Operations

/-!
# What a pull puts in place

Whatever the environment does, where the first loop of `pull` gets to its end each file that it does
not list as missing is installed: it is there, with the hash of the registry, and is recorded with
it (`checkFiles_does`). The second loop installs each missing file that it does not list as
mismatched (`installAll_does`). Neither touches another file, or another record.
-/

namespace AgentLab.Pull

open Python Effects

/-- The regular file at a path. -/
def Disk.fileAt (d : Disk) (p : Path) : Option File :=
  match d.tree p with
  | some (.file file) => some file
  | _ => none

/-- Each record of a file as it is now is true. -/
def TruthfulNow (tools : Tools) (d : Disk) (records : Records) : Prop :=
  ∀ name file sha, d.fileAt (parts name) = some file →
    recordSha (records.record name) file.bytes.length file.mtime = some sha →
      sha = tools.sha256 file.bytes

/-- The file is there, with the hash of the registry. -/
def Has (tools : Tools) (d : Disk) (f : ModelFile) : Prop :=
  ∃ file, d.fileAt f.path = some file ∧ tools.sha256 file.bytes = f.sha256

/-- The file is there, with the hash of the registry, and is recorded with it. -/
def Installed (tools : Tools) (d : Disk) (records : Records) (f : ModelFile) : Prop :=
  ∃ file, d.fileAt f.path = some file ∧ tools.sha256 file.bytes = f.sha256 ∧
    recordSha (records.record f.name) file.bytes.length file.mtime = some f.sha256

/-- Only these files, their records and the directories on the way to them are changed. -/
structure OnlyAt (files : List ModelFile) (d d' : Disk) (records records' : Records) : Prop where
  fileAt : ∀ p, (∀ f ∈ files, p ≠ f.path) → d'.fileAt p = d.fileAt p
  dir : ∀ p, d'.tree p = some .dir → d.tree p = some .dir ∨ ∃ f ∈ files, p <+: f.path.dropLast
  record : ∀ n, (∀ f ∈ files, n ≠ f.name) → records'.record n = records.record n

variable {tools : Tools} {options : Options} {entry : ModelEntry} {f : ModelFile}
  {files files' : List ModelFile} {d d' d'' : Disk} {records records' records'' : Records}
  {name : Str} {p : Path} {file : File}

/-! ## Paths and files -/

theorem parts_injective : Function.Injective parts := by
  intro name name' h
  calc name = [0x2F].intercalate (parts name) := (List.intercalate_splitOn 0x2F).symm
    _ = [0x2F].intercalate (parts name') := by rw [h]
    _ = name' := List.intercalate_splitOn 0x2F

theorem path_ne {g : ModelFile} (h : f.name ≠ g.name) : f.path ≠ g.path :=
  fun h' => h (parts_injective h')

theorem fileAt_eq_some : d.fileAt p = some file ↔ d.tree p = some (.file file) := by
  unfold Disk.fileAt
  split
  · simp [*]
  · next h =>
    exact ⟨nofun, fun h' => absurd h' (h file)⟩

theorem fileAt_of_tree (h : d'.tree = d.tree) : d'.fileAt = d.fileAt := by
  funext p
  unfold Disk.fileAt
  rw [h]

theorem fileAt_eq_none : d.fileAt p = none ↔ Node.isFile (d.tree p) = false := by
  unfold Disk.fileAt
  split <;> simp_all [Node.isFile]

theorem fileAt_put_of_ne {q : Path} (node : Option Node) (h : q ≠ p) :
    (d.put p node).fileAt q = d.fileAt q := by
  unfold Disk.fileAt
  rw [put_of_ne d node h]

theorem fileAt_put_file : (d.put p (some (.file file))).fileAt p = some file :=
  fileAt_eq_some.2 (put_self d p _)

theorem fileAt_makeDirs (h : ∀ q, q <+: p → Node.isFile (d.tree q) = false) :
    (d.makeDirs p).fileAt = d.fileAt := by
  funext q
  by_cases hq : q <+: p
  · have hdir : (d.makeDirs p).tree q = some .dir := if_pos (List.isPrefixOf_iff_prefix.2 hq)
    rw [fileAt_eq_none.2 (h q hq), fileAt_eq_none, hdir]
    rfl
  · have hsame : (d.makeDirs p).tree q = d.tree q :=
      if_neg fun hpre => hq (List.isPrefixOf_iff_prefix.1 hpre)
    unfold Disk.fileAt
    rw [hsame]

theorem exec_makeRoot {x : Choice} {u : Unit} (h : exec .makeRoot x d = (.ok u, d')) :
    d'.fileAt = d.fileAt ∧ d'.state = d.state := by
  have h := (exec_ok h).2
  simp only [perform] at h
  split at h <;> cases h
  next hroot =>
  refine ⟨?_, rfl⟩
  funext p
  by_cases hp : p = []
  · subst hp
    have hdir : (d.put [] (some .dir)).fileAt [] = none := by
      rw [fileAt_eq_none, put_self]
      rfl
    rw [hdir, eq_comm, fileAt_eq_none]
    cases hnode : d.tree [] with
    | none => rfl
    | some node =>
      cases node with
      | file file => exact absurd hnode (hroot file)
      | dir => rfl
  · exact fileAt_put_of_ne _ hp

theorem Has.congr (h : d'.fileAt f.path = d.fileAt f.path) : Has tools d' f ↔ Has tools d f := by
  unfold Has
  rw [h]

theorem Installed.has (h : Installed tools d records f) : Has tools d f :=
  h.imp fun _ h => ⟨h.1, h.2.1⟩

theorem Installed.known (h : Installed tools d records f) :
    records.known f.name (d.tree f.path) = some f.sha256 := by
  obtain ⟨file, hfile, -, hrecord⟩ := h
  rw [fileAt_eq_some.1 hfile]
  exact hrecord

/-- Where the files stay, only the records matter. -/
theorem OnlyAt.of_tree (hd : d'.tree = d.tree)
    (hrecord : ∀ n, (∀ f ∈ files, n ≠ f.name) → records'.record n = records.record n) :
    OnlyAt files d d' records records' :=
  ⟨fun _ _ => by rw [fileAt_of_tree hd], fun p h => .inl (hd ▸ h), hrecord⟩

theorem OnlyAt.refl (files : List ModelFile) (d : Disk) (records : Records) :
    OnlyAt files d d records records := .of_tree rfl fun _ _ => rfl

theorem onlyAt_forget (hd : d'.tree = d.tree) :
    OnlyAt [f] d d' records (records.forget f.name) := by
  refine .of_tree hd fun n hn => ?_
  rw [record_forget, if_neg (Ne.symm (hn f (List.mem_singleton_self f)))]

theorem onlyAt_remember {size mtime : ℕ} {sha : Str} (hd : d'.tree = d.tree) :
    OnlyAt [f] d d' records (records.remember f.name size mtime sha) := by
  refine .of_tree hd fun n hn => ?_
  rw [record_remember, if_neg (Ne.symm (hn f (List.mem_singleton_self f)))]

theorem onlyAt_unlink (f : ModelFile) (d : Disk) (records : Records) :
    OnlyAt [f] d (d.put f.path none) records records := by
  refine ⟨fun p hp => fileAt_put_of_ne _ (hp f (List.mem_singleton_self f)), fun p hp => .inl ?_,
    fun _ _ => rfl⟩
  by_cases h : p = f.path
  · rw [h, put_self] at hp
    cases hp
  · rwa [put_of_ne d _ h] at hp

/-- A file that is moved into place changes no other. -/
theorem onlyAt_replace (file : File) (records : Records)
    (h : ∀ q, q <+: f.path.dropLast → Node.isFile (d.tree q) = false) :
    OnlyAt [f] d ((d.makeDirs f.path.dropLast).put f.path (some (.file file))) records records := by
  refine ⟨fun p hp => ?_, fun p hp => ?_, fun _ _ => rfl⟩
  · rw [fileAt_put_of_ne _ (hp f (List.mem_singleton_self f)), fileAt_makeDirs h]
  · by_cases hpath : p = f.path
    · rw [hpath, put_self] at hp
      cases hp
    · rw [put_of_ne _ _ hpath] at hp
      unfold Disk.makeDirs at hp
      dsimp only at hp
      split_ifs at hp with hpre
      · exact .inr ⟨f, List.mem_singleton_self f, List.isPrefixOf_iff_prefix.1 hpre⟩
      · exact .inl hp

theorem OnlyAt.mono (h : OnlyAt files d d' records records') (hsub : files ⊆ files') :
    OnlyAt files' d d' records records' where
  fileAt p hp := h.fileAt p fun f hf => hp f (hsub hf)
  dir p hp := (h.dir p hp).imp_right fun ⟨f, hf, hpre⟩ => ⟨f, hsub hf, hpre⟩
  record n hn := h.record n fun f hf => hn f (hsub hf)

theorem OnlyAt.trans (h : OnlyAt files d d' records records')
    (h' : OnlyAt files d' d'' records' records'') : OnlyAt files d d'' records records'' where
  fileAt p hp := (h'.fileAt p hp).trans (h.fileAt p hp)
  dir p hp := (h'.dir p hp).elim (h.dir p) .inr
  record n hn := (h'.record n hn).trans (h.record n hn)

/-- What is installed stays installed, where another file is at work. -/
theorem Installed.other (h : Installed tools d records f)
    (honly : OnlyAt files d d' records records') (hf : f.name ∉ files.map ModelFile.name) :
    Installed tools d' records' f := by
  have hne : ∀ g ∈ files, f.name ≠ g.name := fun g hg heq =>
    hf (heq ▸ List.mem_map_of_mem hg)
  unfold Installed
  rw [honly.fileAt _ fun g hg => path_ne (hne g hg), honly.record _ hne]
  exact h

/-! ## Records -/

theorem truthfulNow_nil : TruthfulNow tools d ⟨[], []⟩ := fun _ _ _ _ h => nomatch h

theorem TruthfulNow.fewer (h : TruthfulNow tools d records)
    (hfile : ∀ p file, d'.fileAt p = some file → d.fileAt p = some file) :
    TruthfulNow tools d' records :=
  fun name file sha hf hsha => h name file sha (hfile _ _ hf) hsha

theorem TruthfulNow.fail (h : TruthfulNow tools d records) (name : Str) :
    TruthfulNow tools d (records.fail name) := by
  intro name' file sha hfile hsha
  rw [record_fail] at hsha
  exact h _ _ _ hfile hsha

theorem TruthfulNow.forget (h : TruthfulNow tools d records) (name : Str) :
    TruthfulNow tools d (records.forget name) := by
  intro name' file sha hfile hsha
  rw [record_forget] at hsha
  split_ifs at hsha
  · cases hsha
  · exact h _ _ _ hfile hsha

/-- The record of a file with its hash is true. -/
theorem TruthfulNow.remember (h : TruthfulNow tools d records)
    (hfile : d'.fileAt (parts name) = some file)
    (hother : ∀ p, p ≠ parts name → d'.fileAt p = d.fileAt p) :
    TruthfulNow tools d'
      (records.remember name file.bytes.length file.mtime (tools.sha256 file.bytes)) := by
  intro name' file' sha hfile' hsha
  rw [record_remember] at hsha
  split_ifs at hsha with hname
  · subst hname
    obtain rfl : file = file' := by simpa using hfile.symm.trans hfile'
    exact (recordSha_remember.1 hsha).2.2.symm
  · rw [hother _ fun heq => hname (parts_injective heq).symm] at hfile'
    exact h _ _ _ hfile' hsha

theorem recordSha_remembered (sha : Str) :
    recordSha ((records.remember name file.bytes.length file.mtime sha).record name)
      file.bytes.length file.mtime = some sha := by
  rw [record_remember, if_pos rfl]
  exact recordSha_remember.2 ⟨rfl, rfl, rfl⟩

/-! ## What the loops do -/

/-- What the first loop has done, of these files, when it finds these missing. -/
structure Checked (tools : Tools) (files : List ModelFile) (d d' : Disk)
    (records records' : Records) (missing : List ModelFile) : Prop where
  only : OnlyAt files d d' records records'
  truthful : TruthfulNow tools d' records'
  partials : d'.partials = d.partials
  sublist : missing.Sublist files
  installed : ∀ f ∈ files, f ∉ missing → Installed tools d' records' f
  missing : ∀ f ∈ missing, ¬Has tools d f

/-- What the second loop has done, of these files, when it finds these mismatched. -/
structure Placed (tools : Tools) (files : List ModelFile) (d d' : Disk) (records records' : Records)
    (mismatched : List Str) : Prop where
  only : OnlyAt files d d' records records'
  truthful : TruthfulNow tools d' records'
  saved : d.state = some records.dump → d'.state = some records'.dump
  sublist : mismatched.Sublist (files.map ModelFile.name)
  installed : ∀ f ∈ files, f.name ∉ mismatched → Installed tools d' records' f

theorem Checked.cons {missing missing' : List ModelFile}
    (h : Checked tools [f] d d' records records' missing)
    (h' : Checked tools files d' d'' records' records'' missing')
    (hf : f.name ∉ files.map ModelFile.name) :
    Checked tools (f :: files) d d'' records records'' (missing ++ missing') where
  only := (h.only.mono (by simp)).trans (h'.only.mono (List.subset_cons_self f files))
  truthful := h'.truthful
  partials := h'.partials.trans h.partials
  sublist := h.sublist.append h'.sublist
  installed g hg hmissing := by
    rw [List.mem_append, not_or] at hmissing
    rcases List.mem_cons.1 hg with rfl | hg
    · exact (h.installed g (List.mem_singleton_self g) hmissing.1).other h'.only hf
    · exact h'.installed g hg hmissing.2
  missing g hg := by
    rcases List.mem_append.1 hg with hg | hg
    · exact h.missing g hg
    · have hne : f.name ≠ g.name := fun heq =>
        hf (heq ▸ List.mem_map_of_mem (h'.sublist.subset hg))
      rw [← Has.congr (h.only.fileAt g.path (by simpa using path_ne hne.symm))]
      exact h'.missing g hg

theorem Placed.cons {mismatched mismatched' : List Str}
    (h : Placed tools [f] d d' records records' mismatched)
    (h' : Placed tools files d' d'' records' records'' mismatched')
    (hf : f.name ∉ files.map ModelFile.name) :
    Placed tools (f :: files) d d'' records records'' (mismatched ++ mismatched') where
  only := (h.only.mono (by simp)).trans (h'.only.mono (List.subset_cons_self f files))
  truthful := h'.truthful
  saved hsaved := h'.saved (h.saved hsaved)
  sublist := h.sublist.append h'.sublist
  installed g hg hmismatched := by
    rw [List.mem_append, not_or] at hmismatched
    rcases List.mem_cons.1 hg with rfl | hg
    · exact (h.installed g (List.mem_singleton_self g) hmismatched.1).other h'.only hf
    · exact h'.installed g hg hmismatched.2

/-- After both loops, what is not mismatched is installed. -/
theorem Checked.installed_after {d₁ : Disk} {missing : List ModelFile} {mismatched : List Str}
    (h : Checked tools files d d' records records' missing) (hd : d₁.tree = d'.tree)
    (h' : Placed tools missing d₁ d'' records' records'' mismatched)
    (hnodup : (files.map ModelFile.name).Nodup) :
    ∀ f ∈ files, f.name ∉ mismatched → Installed tools d'' records'' f := by
  intro f hf hname
  by_cases hmissing : f ∈ missing
  · exact h'.installed f hmissing hname
  · have hinstalled : Installed tools d₁ records' f := by
      unfold Installed
      rw [fileAt_of_tree hd]
      exact h.installed f hf hmissing
    refine hinstalled.other h'.only fun hmem => hmissing ?_
    obtain ⟨g, hg, hgf⟩ := List.mem_map.1 hmem
    rwa [← List.inj_on_of_nodup_map hnodup (h.sublist.subset hg) hf hgf]

/-! ## The functions -/

variable {allowed : Disk → Op → Choice → Prop} {α : Type} {Q : α → Disk → Prop}

/-- Where the program returns, it returns with `Q`. -/
abbrev Does (allowed : Disk → Op → Choice → Prop) (Q : α → Disk → Prop) (p : Script α)
    (d : Disk) : Prop :=
  wp exec allowed (fun _ => True) Q (fun _ _ => True) p d

theorem does_op {o : Op} {Q : o.Resp → Disk → Prop}
    (hQ : ∀ x r d', exec o x d = (.ok r, d') → Q r d') : Does allowed Q (call o) d :=
  wp_op (fun _ _ => trivial) (fun x r d' _ h => hQ x r d' h) fun _ _ _ _ _ => trivial

theorem does_call {o : Op} {k : o.Resp → Script α}
    (hk : ∀ x r d', exec o x d = (.ok r, d') → Does allowed Q (k r) d') :
    Does allowed Q (call o >>= k) d :=
  wp_op_bind (fun _ _ => trivial) (fun x r d' _ h => hk x r d' h) fun _ _ _ _ _ => trivial

/-- A recorded hash is the one of the record. -/
theorem recorded_does (hfile : d.fileAt f.path = some file) :
    Does allowed (fun known d' => d' = d ∧ ∀ sha, known = some sha →
      recordSha (records.record f.name) file.bytes.length file.mtime = some sha)
      (recorded options records f) d := by
  unfold recorded knownSha256
  split_ifs
  · exact ⟨rfl, nofun⟩
  split
  · next fields hrecord =>
    refine wp_handle (wp_op_bind (fun _ _ => trivial) (fun x st d' _ hx => ?_)
      fun x e d' _ hx => ?_)
    · obtain ⟨rfl, file', hfile', rfl⟩ := exec_stat hx
      obtain rfl : file = file' := by simpa [fileAt_eq_some.1 hfile] using hfile'
      exact ⟨rfl, fun sha hsha => hrecord ▸ hsha⟩
    · have hd' : d' = d := by simpa only [hx] using exec_reads (o := .stat f.path) trivial x d
      cases e with
      | os text => exact ⟨hd', nofun⟩
      | _ => trivial
  · exact ⟨rfl, nofun⟩

theorem remember_does {sha : Str} (hfile : d.fileAt f.path = some file) :
    Does allowed (fun records' d' => d' = d ∧
      records' = records.remember f.name file.bytes.length file.mtime sha)
      (remember records f sha) d := by
  refine does_call fun x st d' hx => ?_
  obtain ⟨rfl, file', hfile', rfl⟩ := exec_stat hx
  obtain rfl : file = file' := by simpa [fileAt_eq_some.1 hfile] using hfile'
  exact ⟨rfl, rfl⟩

/-- The hash is the one of the content, and is recorded. -/
theorem knownOrHashed_does (h : TruthfulNow tools d records) (hfile : d.fileAt f.path = some file) :
    Does allowed (fun known d' => d' = d ∧ known.2 = tools.sha256 file.bytes ∧
      OnlyAt [f] d d records known.1 ∧ TruthfulNow tools d known.1 ∧
      recordSha (known.1.record f.name) file.bytes.length file.mtime = some known.2)
      (knownOrHashed tools options records f) d := by
  refine wp_seq (recorded_does hfile) fun known d₁ ⟨hd₁, hknown⟩ => ?_
  subst hd₁
  cases known with
  | some sha => exact ⟨rfl, h _ _ _ hfile (hknown _ rfl), .refl _ _ _, h, hknown _ rfl⟩
  | none =>
    refine does_call fun x bytes d₂ hx => ?_
    obtain ⟨rfl, file', hfile', rfl⟩ := exec_read hx
    obtain rfl : file = file' := by simpa [fileAt_eq_some.1 hfile] using hfile'
    refine wp_seq (remember_does hfile) fun records' d₃ ⟨hd₃, hrecords'⟩ => ?_
    subst hd₃ hrecords'
    exact ⟨rfl, rfl, onlyAt_remember rfl, h.remember hfile fun _ _ => rfl, recordSha_remembered _⟩

theorem checkFile_does (h : TruthfulNow tools d records) :
    Does allowed (fun checked d' => Checked tools [f] d d' records checked.1
      (if checked.2 then [f] else [])) (checkFile tools options records f) d := by
  refine does_call fun x there d₁ hx => ?_
  obtain ⟨rfl, rfl⟩ := exec_isFile hx
  cases hfile : Node.isFile (d₁.tree f.path) with
  | false =>
    refine ⟨onlyAt_forget rfl, h.forget _, rfl, List.Sublist.refl _, ?_, fun g hg => ?_⟩
    · exact fun g hg hmissing => absurd hg hmissing
    · obtain rfl := List.mem_singleton.1 hg
      rintro ⟨file, hfile', -⟩
      rw [fileAt_eq_none.2 hfile] at hfile'
      cases hfile'
  | true =>
    obtain ⟨file, hfile⟩ : ∃ file, d₁.fileAt f.path = some file := by
      rw [← Option.ne_none_iff_exists', Ne, fileAt_eq_none, hfile]
      simp
    refine wp_seq (knownOrHashed_does h hfile) fun known d₂ ⟨hd₂, hsha, honly, htrue, hrecord⟩ => ?_
    subst hd₂
    split_ifs with hsame
    · refine ⟨honly, htrue, rfl, List.nil_sublist _, fun g hg _ => ?_, nofun⟩
      obtain rfl := List.mem_singleton.1 hg
      exact ⟨file, hfile, hsha ▸ hsame, hsame ▸ hrecord⟩
    · refine does_call fun x _ d₃ hx => ?_
      obtain rfl := exec_unlink hx
      refine ⟨(honly.trans (onlyAt_unlink f _ _)).trans (onlyAt_forget rfl),
        (htrue.fewer fun p file hp => ?_).forget _, rfl, List.Sublist.refl _, ?_, fun g hg => ?_⟩
      · exact fileAt_eq_some.2 (file_of_put rfl (fileAt_eq_some.1 hp))
      · exact fun g hg hmissing => absurd hg hmissing
      · obtain rfl := List.mem_singleton.1 hg
        rintro ⟨file', hfile', hsha'⟩
        obtain rfl : file = file' := by simpa [hfile] using hfile'
        exact hsame (hsha.trans hsha')

/-- **The first loop**: what is not missing is installed. -/
theorem checkFiles_does : ∀ {files : List ModelFile}, (files.map ModelFile.name).Nodup →
    ∀ {records : Records} {d : Disk}, TruthfulNow tools d records →
    Does allowed (fun checked d' => Checked tools files d d' records checked.1 checked.2)
      (checkFiles tools options files records) d
  | [], _, records, d, h =>
    ⟨.refl _ _ _, h, rfl, List.nil_sublist _, nofun, nofun⟩
  | f :: files, hnodup, records, d, h => by
    obtain ⟨hf, hnodup⟩ := List.nodup_cons.1 hnodup
    refine wp_seq (checkFile_does h) fun checked d₁ h₁ => ?_
    refine wp_seq (checkFiles_does hnodup h₁.truthful) fun rest d₂ h₂ => ?_
    have hcons := h₁.cons h₂ hf
    split_ifs at hcons ⊢
    · exact hcons
    · exact hcons

/-- A program beside the model. -/
theorem besides_does {p : Script α} (hp : Uses Besides p) (d : Disk) :
    Does allowed (fun _ d' => d'.tree = d.tree ∧ d'.state = d.state) p d := by
  have hstep : ∀ o x d', Besides o → d'.tree = d.tree ∧ d'.state = d.state → allowed d' o x →
      (exec o x d').2.tree = d.tree ∧ (exec o x d').2.state = d.state := by
    intro o x d' ho hd' _
    obtain ⟨htree, hstate⟩ := exec_besides ho x d'
    exact ⟨htree.trans hd'.1, hstate.trans hd'.2⟩
  exact wp_mono (fun _ _ => trivial) (fun _ _ h => h) (fun _ _ _ => trivial)
    (wp_uses hp hstep ⟨rfl, rfl⟩)

theorem install_does (h : TruthfulNow tools d records) :
    Does allowed (fun installed d' => Placed tools [f] d d' records installed.1
      (if installed.2 then [f.name] else [])) (install tools options entry records f) d := by
  refine wp_seq (besides_does (download_besides options _ f RETRIES) d) fun _ d₁ ⟨h₁, _⟩ => ?_
  have hfiles₁ : d₁.fileAt = d.fileAt := fileAt_of_tree h₁
  refine does_call fun x bytes d₂ hx => ?_
  obtain ⟨rfl, file, hpartial, rfl⟩ := exec_readPartial hx
  split_ifs with hsha
  · refine does_call fun x _ d₃ hx => ?_
    obtain ⟨rfl, hdirs⟩ := exec_makeParents hx
    refine does_call fun x _ d₄ hx => ?_
    obtain ⟨file', hpartial', rfl⟩ := exec_replace hx
    obtain rfl : file = file' := by simpa [Disk.makeDirs, hpartial] using hpartial'
    have honly := onlyAt_replace file records hdirs
    refine wp_seq (remember_does fileAt_put_file) fun records' d₅ ⟨hd₅, hrecords'⟩ => ?_
    subst hd₅ hrecords'
    refine does_call fun x _ d₆ hx => ?_
    obtain rfl := exec_saveState hx
    have htrue : TruthfulNow tools _ _ := h.remember (fileAt_put_file (p := f.path)) fun p hp => by
      rw [honly.fileAt p fun g hg => List.mem_singleton.1 hg ▸ hp, hfiles₁]
    refine ⟨((OnlyAt.of_tree h₁ fun _ _ => rfl).trans honly).trans (onlyAt_remember rfl),
      htrue, fun _ => rfl, List.nil_sublist _, fun g hg _ => ?_⟩
    obtain rfl := List.mem_singleton.1 hg
    exact ⟨file, fileAt_put_file, hsha, hsha ▸ recordSha_remembered _⟩
  · refine does_call fun x _ d₃ hx => ?_
    obtain rfl := exec_removePartial hx
    refine does_call fun x _ d₄ hx => ?_
    obtain rfl := exec_saveState hx
    refine ⟨.of_tree h₁ fun n _ => record_fail, ?_, fun _ => rfl, List.Sublist.refl _, ?_⟩
    · refine (h.fail f.name).fewer fun p file hp => ?_
      rwa [← hfiles₁]
    · exact fun g hg hmismatched => absurd (List.mem_map_of_mem hg) hmismatched

/-- **The second loop**: what is not mismatched is installed. -/
theorem installAll_does : ∀ {files : List ModelFile}, (files.map ModelFile.name).Nodup →
    ∀ {records : Records} {d : Disk}, TruthfulNow tools d records →
    Does allowed (fun installed d' => Placed tools files d d' records installed.1 installed.2)
      (installAll tools options entry files records) d
  | [], _, records, d, h => ⟨.refl _ _ _, h, fun h => h, List.nil_sublist _, nofun⟩
  | f :: files, hnodup, records, d, h => by
    obtain ⟨hf, hnodup⟩ := List.nodup_cons.1 hnodup
    refine wp_seq (install_does h) fun installed d₁ h₁ => ?_
    refine wp_seq (installAll_does hnodup h₁.truthful) fun rest d₂ h₂ => ?_
    have hcons := h₁.cons h₂ hf
    split_ifs at hcons ⊢
    · exact hcons
    · exact hcons

end AgentLab.Pull
