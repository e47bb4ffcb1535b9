import AgentLab.Python.Replace

/-!
# The end of a log

`log_tail` and the message of a start that failed. Of a log that may be long, and may hold any
bytes, the last 64 KiB are read, which start anywhere, and are decoded on their own.

What is shown are the last lines of the log all the same: all of them, where the part has more lines
than are asked for, and else all but the first (`log_tail_lines`); and the lines of the message are
those that it was made of (`splitlines_failure`).
-/

namespace AgentLab.Backend

open Python

def LOG_TAIL_LINES : ℕ := 20

/-- `lines[-n:]`. -/
def lastLines (n : ℕ) (lines : List Str) : List Str :=
  if n = 0 then lines else lines.drop (lines.length - n)

/-- The part of a log that is read, where it had `seen` bytes when it was opened. -/
def logWindow (seen : ℕ) (content : List UInt8) : List UInt8 := content.drop (seen - 64 * 1024)

/-- `log_tail`. -/
def logTail (n seen : ℕ) : Option (List UInt8) → List Str
  | none => []
  | some content => lastLines n (splitlines (decodeReplace (logWindow seen content)))

/-- A log, by its path: how long it was when it was opened, and what was read. -/
structure LogRead where
  path : Str
  seen : ℕ
  content : Option (List UInt8)

def LogRead.report (log : LogRead) : List Str :=
  let tail := logTail LOG_TAIL_LINES log.seen log.content
  if tail = [] then []
  else (str "last lines of " ++ log.path ++ str ":") :: tail.map fun line => str "  " ++ line

/-- `_failure`. -/
def failure (message : Str) (logs : List LogRead) : Str :=
  join (str "\n") (message :: logs.flatMap LogRead.report)

/-! ## The last lines -/

variable {n seen : ℕ} {content : List UInt8}

theorem lastLines_suffix (n : ℕ) (lines : List Str) : lastLines n lines <:+ lines := by
  unfold lastLines
  split_ifs
  · exact List.suffix_rfl
  · exact List.drop_suffix _ _

theorem tail_lastLines_suffix (n : ℕ) (lines : List Str) :
    (lastLines n lines).tail <:+ lines.tail := by
  unfold lastLines
  split_ifs
  · exact List.suffix_rfl
  · rw [List.tail_drop, ← List.drop_tail]
    exact List.drop_suffix _ _

theorem length_lastLines_le (hn : n ≠ 0) (lines : List Str) : (lastLines n lines).length ≤ n := by
  unfold lastLines
  rw [if_neg hn, List.length_drop]
  omega

/-- The end of a list that has enough lines. -/
theorem lastLines_of_suffix {few lines : List Str} (h : few <:+ lines) (hn : n ≠ 0)
    (hlength : n ≤ few.length) :
    lastLines n few = lastLines n lines := by
  obtain ⟨more, rfl⟩ := h
  unfold lastLines
  rw [if_neg hn, if_neg hn, List.length_append, Nat.add_sub_assoc hlength,
    List.drop_length_add_append]

/-- **The last lines of a log**: of the part that is read, all lines but the first are lines of the
log, and where it has enough of them, or is all of the log, what is shown are the last lines of the
log. -/
theorem log_tail_lines (content : List UInt8) (seen : ℕ) (hn : 0 < n) :
    (logTail n seen (some content)).length ≤ n ∧
      (logTail n seen (some content)).tail <:+ splitlines (decodeReplace content) ∧
      (n < (splitlines (decodeReplace (logWindow seen content))).length ∨ seen ≤ 64 * 1024 →
        logTail n seen (some content) = lastLines n (splitlines (decodeReplace content))) := by
  have hne : n ≠ 0 := Nat.pos_iff_ne_zero.1 hn
  have htail := tail_splitlines_drop content (seen - 64 * 1024)
  refine ⟨length_lastLines_le hne _, (tail_lastLines_suffix n _).trans htail, fun h => ?_⟩
  rcases h with hlong | hsmall
  · have hlength : n ≤ (splitlines (decodeReplace (logWindow seen content))).tail.length := by
      rw [List.length_tail]
      omega
    exact (lastLines_of_suffix (List.tail_suffix _) hne hlength).symm.trans
      (lastLines_of_suffix htail hne hlength)
  · have hwindow : logWindow seen content = content := by
      unfold logWindow
      rw [Nat.sub_eq_zero_of_le hsmall, List.drop_zero]
    unfold logTail
    dsimp only
    rw [hwindow]

def smallLog : List UInt8 := utf8 "loading\n\u00e9t\u00e9\ndone\n".toList

theorem log_tail_small : logTail 2 smallLog.length (some smallLog) =
    [str "\u00e9t\u00e9", str "done"] := by
  obtain ⟨-, -, hlast⟩ := log_tail_lines smallLog smallLog.length (by decide : 0 < 2)
  rw [hlast (.inr (by decide))]
  unfold smallLog
  rw [decodeReplace_utf8]
  decide

/-! ## The message -/

theorem isLineEnd_of_mem_splitlinesFrom {line l : Str} {cr : Bool} (s : Str)
    (hline : ∀ c ∈ line, isLineEnd c = false) (hl : l ∈ splitlinesFrom isLineEnd line cr s) :
    ∀ c ∈ l, isLineEnd c = false := by
  induction s generalizing line cr with
  | nil =>
    unfold splitlinesFrom at hl
    split_ifs at hl
    · cases hl
    · rw [List.mem_singleton.1 hl]
      exact hline
  | cons c s ih =>
    unfold splitlinesFrom at hl
    split_ifs at hl with hcrlf hend
    · exact ih hline hl
    · rcases List.mem_cons.1 hl with rfl | hl
      · exact hline
      · exact ih (List.forall_mem_nil _) hl
    · refine ih (List.forall_mem_append.2 ⟨hline, List.forall_mem_singleton.2 ?_⟩) hl
      exact Bool.not_eq_true _ ▸ hend

/-- Lines that are put together are found again. -/
theorem splitlines_join {lines : List Str}
    (h : ∀ l ∈ lines, l ≠ [] ∧ ∀ c ∈ l, isLineEnd c = false) :
    splitlines (join (str "\n") lines) = lines := by
  induction lines with
  | nil => rfl
  | cons l lines ih =>
    obtain ⟨⟨hne, hl⟩, hlines⟩ := List.forall_mem_cons.1 h
    have hopen := splitlinesFrom_open hl []
    cases lines with
    | nil =>
      have hjoin : join (str "\n") [l] = l ++ [] := rfl
      unfold splitlines
      rw [hjoin, hopen, splitlinesFrom, if_neg (by simpa using hne)]
      rfl
    | cons l' lines =>
      have hjoin : join (str "\n") (l :: l' :: lines) = l ++ 0xA :: join (str "\n") (l' :: lines) :=
        rfl
      unfold splitlines
      rw [hjoin, hopen, splitlinesFrom, if_neg fun hcrlf => Bool.false_ne_true hcrlf.2,
        if_pos (by decide)]
      exact congrArg (l :: ·) (ih hlines)

theorem of_all {s : Str} (h : s.all (fun c => !isLineEnd c) = true) :
    ∀ c ∈ s, isLineEnd c = false := by
  simpa using h

theorem LogRead.report_lines {log : LogRead} (hpath : ∀ c ∈ log.path, isLineEnd c = false) :
    ∀ l ∈ log.report, l ≠ [] ∧ ∀ c ∈ l, isLineEnd c = false := by
  have htail : ∀ l ∈ logTail LOG_TAIL_LINES log.seen log.content, ∀ c ∈ l, isLineEnd c = false := by
    unfold logTail
    cases log.content with
    | none => exact List.forall_mem_nil _
    | some content =>
      intro l hl
      exact isLineEnd_of_mem_splitlinesFrom _ (List.forall_mem_nil _)
        ((lastLines_suffix _ _).subset hl)
  unfold LogRead.report
  dsimp only
  split_ifs
  · exact List.forall_mem_nil _
  · refine List.forall_mem_cons.2
      ⟨⟨List.append_ne_nil_of_right_ne_nil _ (List.cons_ne_nil _ _), ?_⟩, fun l hl => ?_⟩
    · simp only [List.forall_mem_append]
      exact ⟨⟨of_all (by decide), hpath⟩, of_all (by decide)⟩
    · obtain ⟨line, hline, rfl⟩ := List.mem_map.1 hl
      exact ⟨List.append_ne_nil_of_left_ne_nil (List.cons_ne_nil _ _) _,
        List.forall_mem_append.2 ⟨of_all (by decide), htail line hline⟩⟩

/-- **The message of a failed start** has the lines that it was made of. -/
theorem splitlines_failure {message : Str} {logs : List LogRead} (hmessage : message ≠ [])
    (hline : ∀ c ∈ message, isLineEnd c = false)
    (hpaths : ∀ log ∈ logs, ∀ c ∈ log.path, isLineEnd c = false) :
    splitlines (failure message logs) = message :: logs.flatMap LogRead.report := by
  refine splitlines_join (List.forall_mem_cons.2 ⟨⟨hmessage, hline⟩, fun l hl => ?_⟩)
  obtain ⟨log, hlog, hl⟩ := List.mem_flatMap.1 hl
  exact log.report_lines (hpaths log hlog) l hl

/-- A log of two lines, and a console log that is not there. -/
def smallLogs : List LogRead :=
  [⟨str "backend.log", 4, some (utf8 "a\nb\n".toList)⟩, ⟨str "console.log", 0, none⟩]

theorem splitlines_failure_small : splitlines (failure (str "the backend exited") smallLogs) =
    [str "the backend exited", str "last lines of backend.log:", str "  a", str "  b"] := by
  have hreport : smallLogs.flatMap LogRead.report =
      [str "last lines of backend.log:", str "  a", str "  b"] := by
    decide
  have hpaths : ∀ log ∈ smallLogs, ∀ c ∈ log.path, isLineEnd c = false := by
    intro log hlog
    rcases List.mem_cons.1 hlog with rfl | hlog
    · exact of_all (by decide)
    · rw [List.mem_singleton.1 hlog]
      exact of_all (by decide)
  have hmessage : str "the backend exited" ≠ [] := by decide
  rw [splitlines_failure hmessage (of_all (by decide)) hpaths, hreport]

end AgentLab.Backend
