import AgentLab.Config.Profile
import AgentLab.Lib.History
import AgentLab.Python.Float

/-!
# The GPU limit

`gpulimit.py`, with the check of `doctor.py` and what `serve` does with it, as programs that ask the
platform, `sysctl`, MLX, the terminal and `sudo`. Any of these may raise; what they answer is up to
the environment.
-/

namespace AgentLab.Gpu

open Python Config Effects

def MIB : ℕ := 1024 ^ 2

def SYSCTL : String := "/usr/sbin/sysctl"

def SYSCTL_NAME : String := "iogpu.wired_limit_mb"

def MEMSIZE : String := "hw.memsize"

def SUDO : String := "/usr/bin/sudo"

def HEADROOM_MB : ℤ := 3 * 1024

def SYSTEM_DEFAULT : ℤ := 0

/-! ## Operations -/

/-- `MetalInfo`: what MLX recommends, or why that is not known. -/
structure MetalInfo where
  recommendedBytes : Option ℤ
  note : String
  deriving DecidableEq

inductive Op
  /-- `platform.system()`. -/
  | system
  /-- `macos.sysctl`: the text of a value, empty if it cannot be read. -/
  | sysctl (name : String)
  /-- `read_metal_info`. -/
  | metal
  | print (line : String)
  /-- `sys.stdin.isatty()`. -/
  | isatty
  /-- `input`, which answers nothing at the end of the input. -/
  | input (prompt : String)
  /-- `run_command`: the exit status. -/
  | run (argv : List String)
  deriving DecidableEq

abbrev Op.Resp : Op → Type
  | .system => String
  | .sysctl _ => Str
  | .metal => MetalInfo
  | .print _ => Unit
  | .isatty => Bool
  | .input _ => Option Str
  | .run _ => ℤ

/-- What the environment answers. -/
structure Choice where
  /-- Raise this instead. -/
  raises : Option PyExc
  system : String
  text : Str
  metal : MetalInfo
  tty : Bool
  answer : Option Str
  status : ℤ
  deriving DecidableEq

/-- The answer of an operation. -/
def result (o : Op) (x : Choice) : Except PyExc o.Resp :=
  match x.raises with
  | some exc => .error exc
  | none =>
    match o with
    | .system => .ok x.system
    | .sysctl _ => .ok x.text
    | .metal => .ok x.metal
    | .print _ => .ok ()
    | .isatty => .ok x.tty
    | .input _ => .ok x.answer
    | .run _ => .ok x.status

/-- `GpuLimitError` and `ServeError`. -/
inductive Failure
  | gpuLimit (message : String)
  | serve (message : String)
  deriving DecidableEq

abbrev Exc := Raised Failure

abbrev Script := Prog Op Op.Resp Exc

/-- The operations leave nothing behind but their history. -/
def exec (o : Op) (x : Choice) (w : Unit) : Except Exc o.Resp × Unit :=
  ((result o x).mapError .builtin, w)

def op (o : Op) : Script o.Resp := Prog.op o

def raise {α : Type} (message : String) : Script α := .raise (.own (.gpuLimit message))

def lift {α : Type} : Except PyExc α → Script α
  | .ok a => pure a
  | .error exc => .raise (.builtin exc)

/-! ## Numbers and their texts -/

/-- `f"{n}"`, which Python refuses from 4301 digits on. -/
def intText (n : ℤ) : Except PyExc String :=
  if 4300 < (toString n.natAbs).length then .error .valueError else .ok (toString n)

/-- `_gb`. -/
def gb (bytes : ℤ) : Except PyExc String := do return fixed1 (← trueDiv bytes (1024 ^ 3)) ++ " GB"

/-- What `sysctl_int` makes of a text. -/
def intOf (text : Str) : Except PyExc (Option ℤ) :=
  if isDigit text then (readInt text).map some else .ok none

def sysctlInt (name : String) : Script (Option ℤ) := do lift (intOf (← op (.sysctl name)))

/-! ## The state of the limit -/

structure LimitState where
  /-- 0 for the default of the system. -/
  wiredLimitMb : Option ℤ
  metal : MetalInfo
  memoryBytes : Option ℤ

/-- `effective_mb`: the limit in force, if it is known. -/
def LimitState.effectiveMb (state : LimitState) : Option ℤ :=
  match state.wiredLimitMb with
  | none => none
  | some limit =>
    if limit ≠ SYSTEM_DEFAULT then some limit
    else
      match state.metal.recommendedBytes with
      | some bytes => if bytes ≠ 0 then some (bytes / MIB) else none
      | none => none

def readState : Script LimitState := do
  let wired ← sysctlInt SYSCTL_NAME
  let metal ← op .metal
  let memory ← sysctlInt MEMSIZE
  return ⟨wired, metal, memory⟩

def ceilingMb (memory : ℤ) : ℤ := memory / MIB - HEADROOM_MB

def sysctlCommand (value : ℤ) : Except PyExc (List String) := do
  return [SUDO, SYSCTL, SYSCTL_NAME ++ "=" ++ (← intText value)]

/-- `_describe_limit`. -/
def describeLimit (state : LimitState) : Except PyExc String :=
  match state.wiredLimitMb with
  | none => .ok "unknown (cannot read the sysctl)"
  | some limit =>
    if limit = SYSTEM_DEFAULT then .ok "0 (system default)"
    else do return (← intText limit) ++ " MB"

/-! ## Changing it -/

/-- `str.lower` of a character that it is compared with; no other one has these as its lower
case. -/
def lower (c : CodePoint) : CodePoint := if 0x41 ≤ c.val && c.val ≤ 0x5A then c + 32 else c

/-- Whether an answer means yes. -/
def isYes (answer : Str) : Bool :=
  let said := (strip answer).map lower
  said = str "y" || said = str "yes"

def confirm (prompt : String) : Script Bool := do
  if ← op .isatty then
    match ← op (.input (prompt ++ " [y/N] ")) with
    | some answer => return isYes answer
    | none => return false
  else raise "confirmation needs a terminal; run it in one, or pass --yes"

/-- `_require_macos`. -/
def requireMacos : Script Unit := do
  let system ← op .system
  if system = "Darwin" then return ()
  else raise (SYSCTL_NAME ++ " only exists on macOS (this is " ++ system ++ ")")

/-- `str` of a reading. -/
def readingText : Option ℤ → Except PyExc String
  | none => .ok "None"
  | some n => intText n

/-- The part of `_set` after the question. -/
def runSysctl (value : ℤ) (argv : List String) : Script Unit := do
  let code ← op (.run argv)
  if code ≠ 0 then
    raise ("sudo sysctl exited with status " ++ (← lift (intText code)) ++ "; nothing was changed")
  else
    let now ← sysctlInt SYSCTL_NAME
    if now ≠ some value then
      raise (SYSCTL_NAME ++ " reads " ++ (← lift (readingText now)) ++
        " after the change, expected " ++
        (← lift (intText value)))
    else return ()

/-- `_set`. The words of the command need no quotes. -/
def setLimit (value : ℤ) (promptLines : List String) (assumeYes : Bool) : Script Unit := do
  let argv ← lift (sysctlCommand value)
  promptLines.forM fun line => op (.print line)
  op (.print ("Command: " ++ " ".intercalate argv))
  let agreed ← if assumeYes then pure true else confirm "Run it?"
  if agreed then runSysctl value argv else raise "cancelled; nothing was changed"

/-- The lines that `apply` shows before the question. -/
def applyLines (profile : Profile) (state : LimitState) (value left : ℤ) :
    Except PyExc (List String) := do
  return ["This sets " ++ SYSCTL_NAME ++ " from " ++ (← describeLimit state) ++ " to " ++
      (← intText value) ++ " MB (profile " ++ profile.name ++ ").",
    "  - Wired memory cannot be swapped out. If the model plus macOS and your apps need more " ++
      "than the " ++ (← gb left) ++ " left, the Mac can stall or freeze until rebooted.",
    "  - Close memory-heavy apps before `./alab serve`.",
    "  - It is temporary: a reboot restores the default, " ++
      "and `./alab gpu-limit revert` restores it now."]

/-- `apply`. -/
def applyLimit (profile : Profile) (assumeYes : Bool) : Script Unit := do
  requireMacos
  let value := profile.system.gpuWiredLimitMb
  let state ← readState
  match state.memoryBytes with
  | none => raise "cannot read physical memory, so the safe ceiling is unknown"
  | some memory =>
    let ceiling := ceilingMb memory
    if ceiling < value then
      raise ("refusing " ++ (← lift (intText value)) ++ " MB: above the ceiling of " ++
        (← lift (intText ceiling)) ++ " MB (physical memory " ++
        (← lift (intText (memory / MIB))) ++ " MB minus " ++ (← lift (intText HEADROOM_MB)) ++
        " MB). Lower [system] gpu_wired_limit_mb in " ++ profile.path)
    else if state.wiredLimitMb = some value then
      op (.print (SYSCTL_NAME ++ " is already " ++ (← lift (intText value)) ++
        " MB; nothing to do"))
    else
      let lines ← lift (applyLines profile state value (memory - value * MIB))
      setLimit value lines assumeYes
      op (.print (SYSCTL_NAME ++ " is now " ++ (← lift (intText value)) ++
        " MB until reboot or `./alab gpu-limit revert`"))

/-- `revert`. -/
def revertLimit (assumeYes : Bool) : Script Unit := do
  requireMacos
  let current ← sysctlInt SYSCTL_NAME
  if current = some SYSTEM_DEFAULT then
    op (.print (SYSCTL_NAME ++ " is already 0 (system default); nothing to do"))
  else
    let shown ← match current with
      | none => pure "unknown"
      | some limit => do pure ((← lift (intText limit)) ++ " MB")
    setLimit SYSTEM_DEFAULT
      ["This restores " ++ SYSCTL_NAME ++ " from " ++ shown ++ " to 0 (the system default)."]
      assumeYes
    op (.print (SYSCTL_NAME ++ " is back to 0 (system default)"))

/-! ## The check -/

inductive Status
  | ok
  | warn
  | fail
  deriving DecidableEq, Repr

structure Check where
  name : String
  status : Status
  detail : String
  deriving DecidableEq

/-- Where the limit in force comes from. -/
def limitSource (state : LimitState) (effective : ℤ) : Except PyExc String :=
  match state.wiredLimitMb with
  | some limit =>
    if limit ≠ 0 then do return SYSCTL_NAME ++ "=" ++ (← intText limit)
    else do return "system default, Metal recommends " ++ (← intText effective) ++ " MB"
  | none => do return "system default, Metal recommends " ++ (← intText effective) ++ " MB"

/-- The part of `check_gpu_limit` on macOS. -/
def judge (profile : Profile) (state : LimitState) : Except PyExc Check := do
  let needed := profile.system.gpuWiredLimitMb
  let warn (detail : String) : Check := ⟨"GPU limit", .warn, detail⟩
  match state.memoryBytes.filter fun memory => memory ≠ 0 && ceilingMb memory < needed with
  | some memory =>
    return warn ("profile " ++ profile.name ++ " needs " ++ (← intText needed) ++
      " MB, above this machine's ceiling of " ++ (← intText (ceilingMb memory)) ++
      " MB; it cannot run here")
  | none =>
    match state.effectiveMb with
    | none =>
      return warn ("limit in force is unknown: " ++
        if state.wiredLimitMb = some 0 then state.metal.note else "cannot read the sysctl")
    | some effective =>
      let source ← limitSource state effective
      if effective < needed then
        return warn (source ++ ", below the " ++ (← intText needed) ++
          " MB the profile needs; run ./alab gpu-limit apply before serving (resets on reboot)")
      else return ⟨"GPU limit", .ok, source ++ " (profile needs " ++ (← intText needed) ++ " MB)"⟩

/-- `check_gpu_limit`, for the system that `collect_system` found. -/
def checkGpuLimit (system : String) (profile : Profile) : Script Check := do
  if system = "Darwin" then lift (judge profile (← readState))
  else return ⟨"GPU limit", .warn, SYSCTL_NAME ++ " only exists on macOS"⟩

/-- The part of `preflight` on the GPU limit: the warnings, if it goes on. -/
def preflightGpu (profile : Profile) (force : Bool) : Script (List String) := do
  let system ← op .system
  let gpu ← checkGpuLimit system profile
  if gpu.status = .ok then return []
  else if force then
    return ["GPU limit: " ++ gpu.detail ++ " (starting anyway because of --force)"]
  else
    .raise (.own (.serve ("GPU limit: " ++ gpu.detail ++
      "\nrefusing to start; pass --force to start anyway")))

end AgentLab.Gpu
