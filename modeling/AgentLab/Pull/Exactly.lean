import AgentLab.Pull.Placed

/-!
# Which files a pull leaves

A pull that returns has installed every file of its entry (`pull_does`). It removes no other file:
the directory then holds exactly the files of the registry if and only if it held no other file
before (`pull_exactly_iff`), so not after an older revision with another file (`pull_keeps_old`).
-/

namespace AgentLab.Pull

open Python Effects

/-- The paths of the regular files outside `.alab`. -/
def regularFiles (d : Disk) : Set Path :=
  {p | p.head? ≠ some STATE_DIR ∧ (d.fileAt p).isSome}

/-- The paths of the files of the registry. -/
def registryFiles (entry : ModelEntry) : Set Path := {p | ∃ f ∈ entry.files, p = f.path}

/-- The directory holds exactly the files of the registry, each with its hash. -/
def Exactly (tools : Tools) (entry : ModelEntry) (d : Disk) : Prop :=
  regularFiles d = registryFiles entry ∧ ∀ f ∈ entry.files, Has tools d f

/-- What a pull that returns has done. -/
structure Pulled (tools : Tools) (entry : ModelEntry) (d d' : Disk) : Prop where
  installed : ∀ f ∈ entry.files, Installed tools d' (Records.load tools.text d'.state) f
  failed : (Records.load tools.text d'.state).failed = []
  fileAt : ∀ p, (∀ f ∈ entry.files, p ≠ f.path) → d'.fileAt p = d.fileAt p
  truthful : TruthfulNow tools d' (Records.load tools.text d'.state)

variable {tools : Tools} {options : Options} {entry : ModelEntry} {d d' : Disk}
  {allowed : Disk → Op → Choice → Prop}

/-! ## Pulls that return -/

theorem loadRecords_does (h : TruthfulNow tools d (Records.load tools.text d.state)) :
    Does allowed (fun records d' => d' = d ∧ TruthfulNow tools d records)
    (loadRecords tools) d := by
  refine wp_bind (wp_handle (wp_op (fun _ _ => trivial) (fun x state d' _ hr => ?_)
    fun x e d' _ hr => ?_))
  · obtain ⟨rfl, rfl⟩ := exec_loadState hr
    exact ⟨rfl, h⟩
  · have hd' : d' = d := by simpa only [hr] using exec_reads (o := .loadState) trivial x d
    cases e with
    | os text => exact ⟨hd', truthfulNow_nil⟩
    | _ => trivial

theorem pullLocked_does (h : TruthfulNow tools d (Records.load tools.text d.state)) :
    Does allowed (fun _ => Pulled tools entry d) (pullLocked tools options entry) d := by
  refine does_call fun x names d₁ hx => ?_
  obtain rfl : d₁ = d := by simpa only [hx] using exec_reads (o := .partialNames) trivial x d
  refine wp_seq (besides_does (removeStray_uses _ names) d₁) fun _ d₂ ⟨htree₂, hstate₂⟩ => ?_
  have htrue₂ : TruthfulNow tools d₂ (Records.load tools.text d₂.state) := by
    rw [hstate₂]
    exact h.fewer fun p file hp => fileAt_of_tree htree₂ ▸ hp
  refine wp_seq (loadRecords_does htrue₂) fun records d₃ ⟨hd₃, htrue₃⟩ => ?_
  subst hd₃
  refine wp_seq (checkFiles_does entry.nodup htrue₃) fun checked d₄ h₄ => ?_
  refine does_call fun x _ d₅ hx => ?_
  obtain rfl := exec_saveState hx
  refine wp_seq (besides_does (remaining_uses checked.2) _) fun needed d₆ ⟨htree₆, _⟩ => ?_
  refine does_call fun x free d₇ hx => ?_
  obtain rfl : d₇ = d₆ := by simpa only [hx] using exec_reads (o := .diskFree needed) trivial x d₆
  split_ifs
  · trivial
  have hnodup := entry.nodup.sublist (h₄.sublist.map ModelFile.name)
  have htrue₇ : TruthfulNow tools d₇ checked.1 :=
    h₄.truthful.fewer fun p file hp => fileAt_of_tree htree₆ ▸ hp
  refine wp_seq (installAll_does hnodup htrue₇) fun installed d₈ h₈ => ?_
  split_ifs with hmismatched
  · trivial
  rw [not_not] at hmismatched
  refine does_call fun x _ d₉ hx => ?_
  obtain rfl := exec_saveState hx
  refine ⟨?_, ?_, fun p hp => ?_, ?_⟩
  · rw [load_dump]
    intro f hf
    exact h₄.installed_after htree₆ h₈ entry.nodup f hf (by simp [hmismatched])
  · rw [load_dump]
  · calc d₈.fileAt p = d₇.fileAt p := h₈.only.fileAt p fun f hf => hp f (h₄.sublist.subset hf)
      _ = d₄.fileAt p := by rw [fileAt_of_tree htree₆]; rfl
      _ = d₃.fileAt p := h₄.only.fileAt p hp
      _ = d₁.fileAt p := by rw [fileAt_of_tree htree₂]
  · rw [load_dump]
    exact h₈.truthful

/-- **A pull that returns** has installed the files of the registry, and changed no other. -/
theorem pull_does (h : TruthfulNow tools d (Records.load tools.text d.state)) :
    Does allowed (fun _ => Pulled tools entry d) (pull tools options entry) d := by
  refine does_call fun x _ d₁ hx => ?_
  obtain ⟨hfiles, hstate⟩ := exec_makeRoot hx
  refine does_call fun x started d₂ hx => ?_
  obtain rfl : d₂ = d₁ := by simpa only [hx] using exec_reads (o := .monotonic) trivial x d₁
  refine does_call fun x unlocked d₃ hx => ?_
  obtain rfl : d₃ = d₂ := by simpa only [hx] using exec_reads (o := .lock) trivial x d₂
  cases unlocked with
  | false => trivial
  | true =>
    have htrue : TruthfulNow tools d₃ (Records.load tools.text d₃.state) := by
      rw [hstate]
      exact h.fewer fun p file hp => hfiles ▸ hp
    refine wp_seq (pullLocked_does htrue) fun needed d₄ h₄ => ?_
    refine does_call fun x ended d₅ hx => ?_
    obtain rfl : d₅ = d₄ := by simpa only [hx] using exec_reads (o := .monotonic) trivial x d₄
    refine does_call fun x usage d₆ hx => ?_
    obtain rfl : d₆ = d₅ := by simpa only [hx] using exec_reads (o := .diskUsage) trivial x d₅
    exact ⟨h₄.installed, h₄.failed, fun p hp => (h₄.fileAt p hp).trans (congrFun hfiles p),
      h₄.truthful⟩

/-! ## Other files -/

theorem registryFiles_outside {p : Path} (h : p ∈ registryFiles entry) :
    p.head? ≠ some STATE_DIR := by
  obtain ⟨f, -, rfl⟩ := h
  intro hhead
  have hvalid := f.name_valid
  unfold fileNameProblem at hvalid
  split_ifs at hvalid with _ _ hstate
  exact hstate hhead

theorem Pulled.other (h : Pulled tools entry d d') {p : Path} (hp : p ∉ registryFiles entry) :
    p ∈ regularFiles d' ↔ p ∈ regularFiles d := by
  show (_ ∧ (d'.fileAt p).isSome) ↔ (_ ∧ (d.fileAt p).isSome)
  rw [h.fileAt p fun f hf heq => hp ⟨f, hf, heq⟩]

theorem Pulled.exactly (h : Pulled tools entry d d')
    (hbefore : regularFiles d ⊆ registryFiles entry) : Exactly tools entry d' := by
  refine ⟨Set.Subset.antisymm (fun p hp => ?_) fun p hp => ⟨registryFiles_outside hp, ?_⟩,
    fun f hf => (h.installed f hf).has⟩
  · by_contra hnot
    exact hnot (hbefore ((h.other hnot).1 hp))
  · obtain ⟨f, hf, rfl⟩ := hp
    obtain ⟨file, hfile, -⟩ := h.installed f hf
    rw [hfile]
    rfl

/-- **A pull that returns leaves exactly the files of the registry if and only if no other regular
file was there before.** -/
theorem pull_exactly_iff (tools : Tools) (options : Options) (entry : ModelEntry) (d d' : Disk)
    (result : PullResult) (hrecords : TruthfulNow tools d (Records.load tools.text d.state))
    (h : Ends exec (fun _ _ _ => True) (pull tools options entry) d (.ok result) d') :
    Exactly tools entry d' ↔ regularFiles d ⊆ registryFiles entry := by
  have hpulled : Pulled tools entry d d' := (wp_ends (pull_does hrecords) h).1 result rfl
  constructor
  · intro hexactly p hp
    by_contra hnot
    exact hnot (hexactly.1 ▸ (hpulled.other hnot).2 hp)
  · exact hpulled.exactly

/-- A first pull of the small model. -/
theorem pull_exactly_iff_small : ∃ result d',
    Ends exec (fun _ _ _ => True) (pull smallTools smallOptions smallEntry)
      ⟨fun _ => none, none, []⟩ (.ok result) d' ∧ Exactly smallTools smallEntry d' := by
  have hrun : ∃ result d', runWith exec (fun _ _ _ => True) (List.replicate 22 quiet)
      (pull smallTools smallOptions smallEntry) ⟨fun _ => none, none, []⟩ =
        some (.ok result, d') := ⟨_, _, rfl⟩
  obtain ⟨result, d', hrun⟩ := hrun
  have hends := Ends.of_runWith hrun
  refine ⟨result, d', hends, (pull_exactly_iff smallTools smallOptions smallEntry _ d' result
    truthfulNow_nil hends).2 fun p hp => ?_⟩
  cases hp.2

/-! ## An older revision -/

def oldFile : ModelFile := ⟨str "tiny-v1.gguf", 4, smallSha, by decide +kernel⟩

/-- An older revision of the small model, with the file under another name. -/
def oldEntry : ModelEntry := ⟨str "tiny", str "lab/tiny", str "09f1", [oldFile], by simp⟩

/-- **The file of an older revision stays**: the directory held exactly the files of that revision,
the pull of the new one returns, and the directory does not hold exactly the new files. -/
theorem pull_keeps_old : ∃ result result' d d',
    Ends exec (fun _ _ _ => True) (pull smallTools smallOptions oldEntry)
      ⟨fun _ => none, none, []⟩ (.ok result) d ∧
    Exactly smallTools oldEntry d ∧
    TruthfulNow smallTools d (Records.load smallTools.text d.state) ∧
    Ends exec (fun _ _ _ => True) (pull smallTools smallOptions smallEntry) d (.ok result') d' ∧
    oldFile.path ∈ regularFiles d' ∧ ¬Exactly smallTools smallEntry d' := by
  have hrun : ∃ result d, runWith exec (fun _ _ _ => True) (List.replicate 22 quiet)
      (pull smallTools smallOptions oldEntry) ⟨fun _ => none, none, []⟩ = some (.ok result, d) ∧
      ∃ result' d', runWith exec (fun _ _ _ => True) (List.replicate 22 quiet)
        (pull smallTools smallOptions smallEntry) d = some (.ok result', d') :=
    ⟨_, _, rfl, _, _, rfl⟩
  obtain ⟨result, d, hrun, result', d', hrun'⟩ := hrun
  have hends := Ends.of_runWith hrun
  have hends' := Ends.of_runWith hrun'
  have hold : Pulled smallTools oldEntry _ d := (wp_ends (pull_does truthfulNow_nil) hends).1 _ rfl
  have hnew : Pulled smallTools smallEntry d d' :=
    (wp_ends (pull_does hold.truthful) hends').1 _ rfl
  have hne : ∀ f ∈ smallEntry.files, oldFile.path ≠ f.path := by
    intro f hf
    rw [List.mem_singleton.1 hf]
    decide
  have hfile : oldFile.path ∈ regularFiles d' := by
    refine ⟨by decide, ?_⟩
    obtain ⟨file, hfile, -⟩ := hold.installed oldFile (List.mem_singleton_self oldFile)
    rw [hnew.fileAt _ hne, hfile]
    rfl
  refine ⟨result, result', d, d', hends, hold.exactly fun p hp => ?_, hold.truthful, hends', hfile,
    fun hexactly => ?_⟩
  · cases hp.2
  · obtain ⟨f, hf, heq⟩ := hexactly.1 ▸ hfile
    exact hne f hf heq

end AgentLab.Pull
