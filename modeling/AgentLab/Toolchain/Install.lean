import AgentLab.Lib.Runs
import AgentLab.Toolchain.Stamp

/-!
# Installing a tool

`install_tool` of `bootstrap.sh`, one command after another, and `verify_tool`, by which `doctor`
checks what it has left. The pin may change from one installation to the next, a download can be
anything, an installation can fail or be killed at any command, also in the middle of the stamp, and
between two of them the binary may be replaced by hand.

A tool that passes the check came from a download with the pinned hash. The shell skips an
installation in just the states that pass it and in which the binary can be executed, for which
`verify_tool` does not ask; and it passes after an installation that returns (`tool_verified`).
-/

namespace AgentLab.Toolchain

open Python Runs

abbrev Bytes := List UInt8

/-- What `tools.toml` has of a tool. -/
structure Pin where
  version : Str
  sha256 : Str
  format : Str
  /-- The path of the binary in the archive. -/
  member : Str
  version_line : OneLine version
  sha256_line : OneLine sha256

structure Shell where
  sha256 : Bytes → Str
  tar : Bytes → Str → Option Bytes
  sha256_length : ∀ bytes, (sha256 bytes).length = 64
  sha256_line : ∀ bytes, OneLine (sha256 bytes)

/-- The binary in a download. -/
def Shell.binaryOf (sh : Shell) (p : Pin) (download : Bytes) : Option Bytes :=
  if p.format = str "tar.gz" then sh.tar download p.member
  else if p.format = str "binary" then some download
  else none

structure Binary where
  content : Bytes
  /-- `[ -x … ]`. -/
  executable : Bool

/-- The files of a tool. -/
structure Tool where
  binary : Option Binary
  stamp : Option Str

section

variable (sh : Shell)

/-- `verify_tool`, for the path of the binary: the problem, if there is one. -/
def verifyTool (path : Str) (t : Tool) (p : Pin) : Option Str :=
  match t.binary with
  | none => some (path ++ str " is missing")
  | some binary =>
    let stamp := readStamp t.stamp
    if Dict.get? stamp VERSION ≠ some p.version ∨ Dict.get? stamp SHA256 ≠ some p.sha256 then
      some (str "installed " ++ (Dict.get? stamp VERSION).getD (str "unknown version") ++
        str " does not match config/tools.toml (" ++ p.version ++ str ")")
    else if Dict.get? stamp BINARY_SHA256 ≠ some (sh.sha256 binary.content) then
      some (path ++ str " was modified after installation")
    else none

/-- The test by which `install_tool` is done at once. -/
def alreadyInstalled (t : Tool) (p : Pin) : Bool :=
  match t.binary with
  | none => false
  | some binary => binary.executable && stampGet t.stamp VERSION = p.version &&
      stampGet t.stamp SHA256 = p.sha256 && stampGet t.stamp BINARY_SHA256 =
        sh.sha256 binary.content

end

/-- Where `install_tool` stands. -/
inductive Phase
  | checking
  | downloaded (download : Bytes)
  /-- The binary has its mode, and is about to be moved. -/
  | extracted (content : Bytes)
  /-- The binary is in place. -/
  | moved
  | returned
  | died

def Phase.ended : Phase → Bool
  | .returned | .died => true
  | .checking | .downloaded _ | .extracted _ | .moved => false

/-- What a command of the step finds. -/
structure Env where
  /-- What `curl` gets. -/
  download : Option Bytes
  /-- Modes can be set, directories made and files moved. -/
  works : Bool
  /-- `sha256_of` can read the binary. -/
  hashed : Bool
  /-- How much of the stamp is written, if not all. -/
  written : Option ℕ

structure Machine where
  tool : Tool
  pin : Pin
  phase : Phase

inductive Action
  | install (p : Pin)
  /-- The next command. -/
  | go (e : Env)
  /-- While the stamp is written, after so much of it. -/
  | kill (written : Option ℕ)
  | replaceBinary (binary : Option Binary)

variable {sh : Shell}

section

variable (sh)

/-- The stamp of the binary that is in place. -/
def Machine.newStamp (m : Machine) (hashed : Bool) : Str :=
  stampText m.pin.version m.pin.sha256
    (if hashed then (m.tool.binary.map fun b => sh.sha256 b.content).getD [] else [])

/-- `install_tool`, command by command. -/
def Machine.install (m : Machine) (e : Env) : Machine :=
  match m.phase with
  | .checking =>
    if alreadyInstalled sh m.tool m.pin then { m with phase := .returned }
    else
      match e.download with
      | none => { m with phase := .died }
      | some download => { m with phase := .downloaded download }
  | .downloaded download =>
    if sh.sha256 download ≠ m.pin.sha256 then { m with phase := .died }
    else
      match sh.binaryOf m.pin download with
      | none => { m with phase := .died }
      | some content => { m with phase := if e.works then .extracted content else .died }
  | .extracted content =>
    if e.works then
      { m with tool := { m.tool with binary := some ⟨content, true⟩ }, phase := .moved }
    else { m with phase := .died }
  | .moved =>
    match e.written with
    | none =>
      { m with tool := { m.tool with stamp := some (m.newStamp sh e.hashed) }, phase := .returned }
    | some n =>
      { m with
        tool := { m.tool with stamp := some ((m.newStamp sh e.hashed).take n) }, phase := .died }
  | .returned | .died => m

/-- The installation is killed. -/
def Machine.kill (m : Machine) (written : Option ℕ) : Machine :=
  match m.phase, written with
  | .moved, some n =>
    { m with tool := { m.tool with stamp := some ((m.newStamp sh true).take n) }, phase := .died }
  | _, _ => { m with phase := .died }

def step (m : Machine) : Action → Option Machine
  | .install p => if m.phase.ended then some { m with pin := p, phase := .checking } else none
  | .go e => if m.phase.ended then none else some (m.install sh e)
  | .kill written => if m.phase.ended then none else some (m.kill sh written)
  | .replaceBinary binary =>
      if m.phase.ended then some { m with tool := { m.tool with binary } } else none

end

/-- Nothing is installed. -/
def Machine.init (p : Pin) : Machine := ⟨⟨none, none⟩, p, .died⟩

/-! ## The invariant -/

/-- The content came from a download with the hash of the pin. -/
def Made (sh : Shell) (p : Pin) (content : Bytes) : Prop :=
  ∃ download, sh.sha256 download = p.sha256 ∧ sh.binaryOf p download = some content

/-- A stamp of a binary that was made, of which the writing may have ended early. -/
structure Stamped (sh : Shell) (p : Pin) (content : Bytes) (stamp : Str) : Prop where
  made : Made sh p content
  cut : ∃ digest, (digest = sh.sha256 content ∨ digest = []) ∧
    stamp <+: stampText p.version p.sha256 digest

structure Inv (sh : Shell) (m : Machine) : Prop where
  stamp : ∀ stamp, m.tool.stamp = some stamp → ∃ p content, Stamped sh p content stamp
  extracted : ∀ content, m.phase = .extracted content → Made sh m.pin content
  moved : m.phase = .moved → ∃ binary, m.tool.binary = some binary ∧ Made sh m.pin binary.content

variable {m m' : Machine} {p : Pin} {e : Env} {content : Bytes} {stamp path : Str}

theorem Inv.init (p : Pin) : Inv sh (.init p) where
  stamp _ h := by cases h
  extracted _ h := by cases h
  moved h := by cases h

/-- A step that leaves the stamp, and is not about to write one. -/
theorem Inv.of_stamp (h : Inv sh m) (hstamp : m'.tool.stamp = m.tool.stamp)
    (hextracted : ∀ content, m'.phase ≠ .extracted content) (hmoved : m'.phase ≠ .moved) :
    Inv sh m' where
  stamp stamp hs := h.stamp stamp (hstamp ▸ hs)
  extracted content hphase := absurd hphase (hextracted content)
  moved hphase := absurd hphase hmoved

/-- The stamp that is written. -/
theorem Inv.newStamp (h : Inv sh m) (hphase : m.phase = .moved) (hashed : Bool) {cut : Str}
    (hcut : cut <+: m.newStamp sh hashed) :
    ∃ binary, m.tool.binary = some binary ∧ Stamped sh m.pin binary.content cut := by
  obtain ⟨binary, hbinary, hmade⟩ := h.moved hphase
  refine ⟨binary, hbinary, hmade, _, ?_, hcut⟩
  rw [hbinary]
  cases hashed
  · exact .inr rfl
  · exact .inl rfl

theorem Inv.write (h : Inv sh m) (hphase : m.phase = .moved) (hashed : Bool) {cut : Str}
    (hcut : cut <+: m.newStamp sh hashed) (hstamp : m'.tool.stamp = some cut)
    (hended : m'.phase.ended = true) :
    Inv sh m' where
  stamp stamp hs := by
    obtain rfl := Option.some.inj (hstamp.symm.trans hs)
    obtain ⟨binary, -, hstamped⟩ := h.newStamp hphase hashed hcut
    exact ⟨m.pin, binary.content, hstamped⟩
  extracted _ hphase := by rw [hphase] at hended; cases hended
  moved hphase := by rw [hphase] at hended; cases hended

/-- **One command.** -/
theorem Inv.install (h : Inv sh m) (e : Env) : Inv sh (m.install sh e) := by
  unfold Machine.install
  cases hphase : m.phase with
  | checking =>
    dsimp only
    split_ifs
    · exact h.of_stamp rfl (by rintro _ ⟨⟩) (by rintro ⟨⟩)
    · cases e.download <;> exact h.of_stamp rfl (by rintro _ ⟨⟩) (by rintro ⟨⟩)
  | downloaded download =>
    dsimp only
    by_cases hhash : sh.sha256 download = m.pin.sha256
    · rw [if_neg (not_not.2 hhash)]
      cases hbinary : sh.binaryOf m.pin download with
      | none => exact h.of_stamp rfl (by rintro _ ⟨⟩) (by rintro ⟨⟩)
      | some binary =>
        dsimp only
        cases e.works
        · exact h.of_stamp rfl (by rintro _ ⟨⟩) (by rintro ⟨⟩)
        · refine ⟨h.stamp, ?_, by rintro ⟨⟩⟩
          rintro _ ⟨⟩
          exact ⟨download, hhash, hbinary⟩
    · rw [if_pos hhash]
      exact h.of_stamp rfl (by rintro _ ⟨⟩) (by rintro ⟨⟩)
  | extracted content =>
    dsimp only
    split_ifs
    · exact ⟨h.stamp, by rintro _ ⟨⟩, fun _ => ⟨⟨content, true⟩, rfl, h.extracted content hphase⟩⟩
    · exact h.of_stamp rfl (by rintro _ ⟨⟩) (by rintro ⟨⟩)
  | moved =>
    dsimp only
    cases e.written with
    | none => exact h.write hphase e.hashed List.prefix_rfl rfl rfl
    | some n => exact h.write hphase e.hashed (List.take_prefix _ _) rfl rfl
  | returned | died => exact h

theorem Inv.kill (h : Inv sh m) (written : Option ℕ) : Inv sh (m.kill sh written) := by
  unfold Machine.kill
  split
  · next n hphase => exact h.write hphase true (List.take_prefix _ _) rfl rfl
  · exact h.of_stamp rfl (by rintro _ ⟨⟩) (by rintro ⟨⟩)

theorem Inv.step {a : Action} (h : Inv sh m) (hstep : step sh m a = some m') : Inv sh m' := by
  unfold Toolchain.step at hstep
  cases a with
  | install p =>
    dsimp only at hstep
    split_ifs at hstep
    cases hstep
    exact h.of_stamp rfl (by rintro _ ⟨⟩) (by rintro ⟨⟩)
  | go e =>
    dsimp only at hstep
    split_ifs at hstep
    cases hstep
    exact h.install e
  | kill written =>
    dsimp only at hstep
    split_ifs at hstep
    cases hstep
    exact h.kill written
  | replaceBinary binary =>
    dsimp only at hstep
    split_ifs at hstep with hended
    cases hstep
    refine ⟨h.stamp, fun _ hphase => ?_, fun hphase => ?_⟩ <;>
      rw [show m.phase = _ from hphase] at hended <;> cases hended

/-! ## The check -/

theorem verifyTool_eq_none : verifyTool sh path m.tool p = none ↔
    ∃ binary, m.tool.binary = some binary ∧
    Dict.get? (readStamp m.tool.stamp) VERSION = some p.version ∧
      Dict.get? (readStamp m.tool.stamp) SHA256 = some p.sha256 ∧
        Dict.get? (readStamp m.tool.stamp) BINARY_SHA256 = some (sh.sha256 binary.content) := by
  unfold verifyTool
  cases m.tool.binary with
  | none =>
    refine iff_of_false (by rintro ⟨⟩) ?_
    rintro ⟨_, ⟨⟩, -⟩
  | some binary =>
    dsimp only
    constructor
    · intro h
      split_ifs at h with hpin hdigest
      rw [not_or, not_not, not_not] at hpin
      exact ⟨binary, rfl, hpin.1, hpin.2, not_not.1 hdigest⟩
    · rintro ⟨_, ⟨⟩, hversion, hsha256, hdigest⟩
      rw [if_neg (not_or.2 ⟨not_not.2 hversion, not_not.2 hsha256⟩), if_neg (not_not.2 hdigest)]

theorem alreadyInstalled_iff : alreadyInstalled sh m.tool p = true ↔
    ∃ binary, m.tool.binary = some binary ∧
    (stampGet m.tool.stamp VERSION = p.version ∧ stampGet m.tool.stamp SHA256 = p.sha256 ∧
      stampGet m.tool.stamp BINARY_SHA256 = sh.sha256 binary.content) ∧
      binary.executable = true := by
  unfold alreadyInstalled
  cases m.tool.binary with
  | none =>
    refine iff_of_false (by rintro ⟨⟩) ?_
    rintro ⟨_, ⟨⟩, -⟩
  | some binary => simp [and_assoc, and_comm, and_left_comm]

theorem Stamped.cutStamp (h : Stamped sh p content stamp) :
    ∃ digest, (digest = sh.sha256 content ∨ digest = []) ∧
    OneLine digest ∧ CutStamp p.version p.sha256 digest stamp := by
  obtain ⟨digest, hdigest, hcut⟩ := h.cut
  have hline : OneLine digest := by
    rcases hdigest with rfl | rfl
    · exact sh.sha256_line content
    · exact List.forall_mem_nil _
  exact ⟨digest, hdigest, hline, Toolchain.cutStamp p.version_line p.sha256_line hline hcut⟩

theorem sha256_ne_nil (sh : Shell) (bytes : Bytes) : sh.sha256 bytes ≠ [] := fun hnil => by
  have hlength := sh.sha256_length bytes
  rw [hnil] at hlength
  cases hlength

/-- **The shell and `verify_tool`** read the same of every stamp; only the shell asks whether the
binary can be executed. -/
theorem Inv.agree (h : Inv sh m) : alreadyInstalled sh m.tool p = true ↔
    verifyTool sh path m.tool p = none ∧
      ∃ binary, m.tool.binary = some binary ∧ binary.executable = true := by
  rw [alreadyInstalled_iff, verifyTool_eq_none]
  cases hbinary : m.tool.binary with
  | none => simp
  | some binary =>
    have hread :
        (stampGet m.tool.stamp VERSION = p.version ∧ stampGet m.tool.stamp SHA256 = p.sha256 ∧
        stampGet m.tool.stamp BINARY_SHA256 = sh.sha256 binary.content) ↔
        Dict.get? (readStamp m.tool.stamp) VERSION = some p.version ∧
          Dict.get? (readStamp m.tool.stamp) SHA256 = some p.sha256 ∧
            Dict.get? (readStamp m.tool.stamp) BINARY_SHA256 = some (sh.sha256 binary.content) := by
      cases hstamp : m.tool.stamp with
      | none =>
        refine iff_of_false (fun hc => sha256_ne_nil sh binary.content hc.2.2.symm) ?_
        rintro ⟨⟨⟩, -⟩
      | some stamp =>
        obtain ⟨p', content, hstamped⟩ := h.stamp stamp hstamp
        obtain ⟨digest, -, hline, hcut⟩ := hstamped.cutStamp
        exact (hcut.readers_agree hline p'.version_line p'.sha256_line
          (sha256_ne_nil sh binary.content) _ _).symm
    simp [hread]

/-- **What passes the check** came from a download with the hash of the pin. -/
theorem Inv.verified (h : Inv sh m) (hverify : verifyTool sh path m.tool p = none) :
    ∃ p' content binary, Made sh p' content ∧ p'.version = p.version ∧ p'.sha256 = p.sha256 ∧
      m.tool.binary = some binary ∧ sh.sha256 binary.content = sh.sha256 content := by
  obtain ⟨binary, hbinary, hversion, hsha256, hdigest⟩ := verifyTool_eq_none.1 hverify
  cases hstamp : m.tool.stamp with
  | none =>
    rw [hstamp] at hversion
    cases hversion
  | some stamp =>
    obtain ⟨p', content, hstamped⟩ := h.stamp stamp hstamp
    obtain ⟨digest, hcases, hline, hcut⟩ := hstamped.cutStamp
    obtain ⟨hv, hs, hb⟩ := equals_not_mem
    rw [hstamp, get?_readStamp hv hcut.oneLineEnd] at hversion
    rw [hstamp, get?_readStamp hs hcut.oneLineEnd] at hsha256
    rw [hstamp, get?_readStamp hb hcut.oneLineEnd] at hdigest
    obtain ⟨hvs, hss, -, hpre⟩ := hcut.complete _ (List.mem_of_getLast? hdigest)
    rw [hvs] at hversion
    rw [hss] at hsha256
    have hwhole : sh.sha256 binary.content = sh.sha256 content := by
      rcases hcases with rfl | rfl
      · exact hpre.eq_of_length (by rw [sh.sha256_length, sh.sha256_length])
      · exact absurd (List.prefix_nil.1 hpre) (sha256_ne_nil sh binary.content)
    exact ⟨p', content, binary, hstamped.made, Option.some.inj hversion,
      Option.some.inj hsha256, hbinary, hwhole⟩

/-- **An installation that returns** leaves a tool that passes. -/
theorem Inv.installed (h : Inv sh m) (hrun : m.phase.ended = false) (hhashed : e.hashed = true)
    (hreturned : (m.install sh e).phase = .returned) :
    verifyTool sh path (m.install sh e).tool (m.install sh e).pin = none := by
  unfold Machine.install at hreturned ⊢
  cases hphase : m.phase with
  | checking =>
    rw [hphase] at hreturned
    dsimp only at hreturned ⊢
    by_cases halready : alreadyInstalled sh m.tool m.pin = true
    · rw [if_pos halready]
      exact (h.agree.1 halready).1
    · rw [if_neg halready] at hreturned
      cases hdownload : e.download <;> rw [hdownload] at hreturned <;> cases hreturned
  | downloaded download =>
    rw [hphase] at hreturned
    dsimp only at hreturned
    split at hreturned
    · cases hreturned
    · split at hreturned
      · cases hreturned
      · cases hworks : e.works <;> rw [hworks] at hreturned <;> cases hreturned
  | extracted content =>
    rw [hphase] at hreturned
    dsimp only at hreturned
    split_ifs at hreturned
  | moved =>
    rw [hphase] at hreturned
    dsimp only at hreturned ⊢
    obtain ⟨binary, hbinary, -⟩ := h.moved hphase
    cases hwritten : e.written with
    | some n =>
      rw [hwritten] at hreturned
      cases hreturned
    | none =>
      have hnew : m.newStamp sh e.hashed =
          stampText m.pin.version m.pin.sha256 (sh.sha256 binary.content) := by
        unfold Machine.newStamp
        rw [hhashed, hbinary]
        rfl
      have hcut := Toolchain.cutStamp m.pin.version_line m.pin.sha256_line
        (sh.sha256_line binary.content) List.prefix_rfl
      obtain ⟨hv, hs, hb⟩ := equals_not_mem
      obtain ⟨hvs, hss, hbs⟩ :=
        values_stampText m.pin.version_line m.pin.sha256_line (sh.sha256_line binary.content)
      refine verifyTool_eq_none.2 ⟨binary, hbinary, ?_⟩
      dsimp only
      rw [hnew, get?_readStamp hv hcut.oneLineEnd, get?_readStamp hs hcut.oneLineEnd,
        get?_readStamp hb hcut.oneLineEnd, hvs, hss, hbs]
      exact ⟨rfl, rfl, rfl⟩
  | returned | died =>
    rw [hphase] at hrun
    cases hrun

end AgentLab.Toolchain
