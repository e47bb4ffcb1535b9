import AgentLab.Lib.Runs
import AgentLab.Lib.Split
import AgentLab.Python.Value
import Mathlib.Data.List.ReduceOption

/-!
# Printed text in the log

`_LogStream`, which takes the place of `sys.stdout` and `sys.stderr`, while many threads write and
flush at once. The section under the lock is one step, and so is each line that is logged after it,
so the lines of the threads mix.

No text is lost and none is logged twice: what was logged, with what the threads are about to log,
are the lines of the text in the order in which it came under the lock, and the buffer is what
follows the last of them (`log_stream`).
-/

namespace AgentLab.Backend

open Python Lib Runs

/-- `line.rstrip()`. -/
def rstrip (line : Str) : Str := (line.reverse.dropWhile isSpace).reverse

/-- What is logged of a line. -/
def logLine (line : Str) : Option Str := if strip line = [] then none else some (rstrip line)

namespace LogStream

inductive Call
  | write (text : Str)
  | flush
  /-- After the lock, with the lines to log. -/
  | logging (lines : List Str)
  deriving DecidableEq, Repr

/-- The text that the call brings, with a `none` for a flush. -/
def Call.text : Call → List (Option CodePoint)
  | .write text => text.map some
  | .flush => [none]
  | .logging _ => []

/-- The lines that the call is about to log. -/
def Call.lines : Call → List Str
  | .logging lines => lines
  | .write _ | .flush => []

structure Stream where
  buffer : Str
  calls : List Call
  logged : List Str
  /-- The text of the calls in the order in which they came under the lock. -/
  text : List (Option CodePoint)
  deriving DecidableEq, Repr

inductive Action
  | write (text : Str)
  | flush
  /-- The next step of a call. -/
  | go (i : ℕ)
  deriving DecidableEq, Repr

def init : Stream := ⟨[], [], [], []⟩

/-- A step of a call. -/
def run (s : Stream) : Call → Option (Stream × Call)
  | .write text =>
    let lines := (s.buffer ++ text).splitOn 0xA
    some ({ s with buffer := lines.getLastD [] }, .logging lines.dropLast)
  | .flush => some ({ s with buffer := [] }, .logging [s.buffer])
  | .logging (line :: lines) =>
      some ({ s with logged := s.logged ++ (logLine line).toList }, .logging lines)
  | .logging [] => none

def step (s : Stream) : Action → Option Stream
  | .write text => some { s with calls := s.calls ++ [.write text] }
  | .flush => some { s with calls := s.calls ++ [.flush] }
  | .go i =>
    match s.calls[i]? with
    | none => none
    | some call => (run s call).map fun r =>
      { r.1 with calls := s.calls.set i r.2, text := s.text ++ call.text }

/-- A line ends at a newline and at a flush. -/
def isCut : Option CodePoint → Bool
  | none => true
  | some c => c = 0xA

/-- The lines of a text, the last of which is open. -/
def linesOf (text : List (Option CodePoint)) : List Str :=
  (text.splitOnP isCut).map List.reduceOption

/-- What the calls are about to log. -/
def Stream.pending (s : Stream) : List Str :=
  s.calls.flatMap fun call => call.lines.filterMap logLine

/-- The lines that were taken from the buffer are logged or about to be. -/
def Inv (s : Stream) : Prop :=
  ∃ taken : List Str, s.text.splitOnP isCut = (taken ++ [s.buffer]).map (List.map some) ∧
    (s.logged ++ s.pending).Perm (taken.filterMap logLine)

variable {s s' : Stream} {call call' : Call} {i : ℕ} {taken : List Str}

theorem splitOnP_write (h : s.text.splitOnP isCut = (taken ++ [s.buffer]).map (List.map some))
    (text : Str) :
    (s.text ++ text.map some).splitOnP isCut =
      (taken ++ (s.buffer ++ text).splitOn 0xA).map (List.map some) := by
  have hcut : isCut ∘ some = (· == (0xA : CodePoint)) := rfl
  rw [List.map_append, List.map_singleton] at h
  rw [splitOnP_append h, ← List.map_append, splitOnP_map, hcut, ← List.splitOn_eq_splitOnP,
    List.map_append]

theorem splitOnP_flush (h : s.text.splitOnP isCut = (taken ++ [s.buffer]).map (List.map some)) :
    (s.text ++ [none]).splitOnP isCut = (taken ++ [s.buffer] ++ [[]]).map (List.map some) := by
  rw [List.splitOnP_append_cons _ _ rfl, h, List.splitOnP_nil]
  show _ ++ ([[]] : List Str).map (List.map some) = _
  rw [← List.map_append]

/-- The lines that a step of a call takes from the buffer, `more`, become its own. -/
theorem run_taken (hrun : run s call = some (s', call'))
    (h : s.text.splitOnP isCut = (taken ++ [s.buffer]).map (List.map some)) :
    ∃ more,
      (s.text ++ call.text).splitOnP isCut = (taken ++ more ++ [s'.buffer]).map (List.map some) ∧
      s'.logged ++ call'.lines.filterMap logLine =
        s.logged ++ call.lines.filterMap logLine ++ more.filterMap logLine := by
  cases call with
  | write text =>
    cases hrun
    have hne : (s.buffer ++ text).splitOn 0xA ≠ [] := by
      rw [List.splitOn_eq_splitOnP]
      exact List.splitOnP_ne_nil _ _
    refine ⟨((s.buffer ++ text).splitOn 0xA).dropLast, ?_, ?_⟩
    · dsimp only
      rw [List.append_assoc, List.getLastD_eq_getLast?, List.getLast?_eq_some_getLast hne,
        Option.getD_some, List.dropLast_append_getLast]
      exact splitOnP_write h text
    · dsimp only [Call.lines]
      rw [List.filterMap_nil, List.append_nil]
  | flush =>
    cases hrun
    refine ⟨[s.buffer], splitOnP_flush h, ?_⟩
    dsimp only [Call.lines]
    rw [List.filterMap_nil, List.append_nil]
  | logging lines =>
    cases lines with
    | nil => cases hrun
    | cons line lines =>
      cases hrun
      refine ⟨[], by rw [Call.text, List.append_nil, List.append_nil]; exact h, ?_⟩
      dsimp only [Call.lines]
      rw [List.filterMap_nil, List.append_nil, List.filterMap_cons]
      cases logLine line <;> simp

/-- What is pending when a call goes on. -/
theorem flatMap_set {f : Call → List Str} {calls : List Call} (h : calls[i]? = some call)
    (call' : Call) :
    ((calls.set i call').flatMap f ++ f call).Perm (calls.flatMap f ++ f call') := by
  obtain ⟨hlt, rfl⟩ := List.getElem?_eq_some_iff.1 h
  have hcalls : calls = calls.take i ++ calls[i] :: calls.drop (i + 1) := by
    rw [← List.drop_eq_getElem_cons hlt, List.take_append_drop]
  conv_rhs => rw [hcalls]
  rw [List.set_eq_take_append_cons_drop, if_pos hlt]
  refine List.perm_iff_count.2 fun a => ?_
  simp only [List.flatMap_append, List.flatMap_cons, List.count_append]
  omega

theorem Inv.step {a : Action} (h : Inv s) (hstep : step s a = some s') : Inv s' := by
  unfold LogStream.step at hstep
  obtain ⟨taken, htext, hperm⟩ := h
  cases a with
  | write text =>
    cases hstep
    refine ⟨taken, htext, ?_⟩
    unfold Stream.pending
    rwa [List.flatMap_append, List.flatMap_singleton, Call.lines, List.filterMap_nil,
      List.append_nil]
  | flush =>
    cases hstep
    refine ⟨taken, htext, ?_⟩
    unfold Stream.pending
    rwa [List.flatMap_append, List.flatMap_singleton, Call.lines, List.filterMap_nil,
      List.append_nil]
  | go i =>
    dsimp only at hstep
    cases hcall : s.calls[i]? with
    | none =>
      rw [hcall] at hstep
      cases hstep
    | some call =>
      rw [hcall] at hstep
      obtain ⟨r, hrun, rfl⟩ := Option.map_eq_some_iff.1 hstep
      obtain ⟨more, hmore, hlines⟩ := run_taken hrun htext
      refine ⟨taken ++ more, hmore, List.perm_iff_count.2 fun line => ?_⟩
      have hset := List.perm_iff_count.1
        (flatMap_set (f := fun call => call.lines.filterMap logLine) hcall r.2) line
      have hcount := congrArg (List.count line) hlines
      have hbefore := List.perm_iff_count.1 hperm line
      simp only [Stream.pending, List.filterMap_append, List.count_append] at hset hcount hbefore ⊢
      omega

/-- **No text is lost and none is logged twice**: in every run, what was logged and what is about to
be are the lines of the text that came, each once, and the buffer is the line that is open. -/
theorem log_stream (h : Reachable step init s) : ∃ taken, linesOf s.text = taken ++ [s.buffer] ∧
    (s.logged ++ s.pending).Perm (taken.filterMap logLine) := by
  have hinv : Inv s := by
    induction h with
    | start => exact ⟨[], rfl, List.Perm.refl _⟩
    | step _ _ hstep ih => exact ih.step hstep
  obtain ⟨taken, htext, hperm⟩ := hinv
  refine ⟨taken, ?_, hperm⟩
  unfold linesOf
  rw [htext, List.map_map]
  exact List.map_id'' (fun line => by
    induction line with
    | nil => rfl
    | cons c line ih => exact congrArg (c :: ·) ih) _

/-- Two threads print at once, and one flushes. -/
def twoThreads : List Action :=
  [.write (str "load"), .write (str "ing\nerror: \n"), .go 0, .go 1, .write (str "x"), .go 2,
    .flush, .go 3, .go 3, .go 1, .go 1]

def twoPrinted : Stream where
  buffer := []
  calls := [.logging [], .logging [], .logging [], .logging []]
  logged := [str "x", str "loading", str "error:"]
  text := (str "loading\nerror: \nx").map some ++ [none]

theorem log_stream_two : Runs.run step init twoThreads = some twoPrinted ∧
    ∃ taken, linesOf twoPrinted.text = taken ++ [[]] ∧
      [str "x", str "loading", str "error:"].Perm (taken.filterMap logLine) := by
  have hrun : Runs.run step init twoThreads = some twoPrinted := by decide
  exact ⟨hrun, log_stream (.of_run hrun)⟩

end LogStream

end AgentLab.Backend
