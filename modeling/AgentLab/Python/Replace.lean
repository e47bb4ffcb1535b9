import Mathlib.Data.List.Infix
import AgentLab.Python.Text

/-!
# Bytes that are no text

`bytes.decode(errors="replace")`, byte by byte: a byte that cannot go on the character that was
begun puts U+FFFD in its place, and is read anew.

What comes from a byte that goes on no character on does not depend on what was before it
(`decodeFrom_append`), and so the lines of a file that is cut anywhere, even within a character, are
those of the file, but for the first (`tail_splitlines_drop`).
-/

namespace AgentLab.Python

/-! ## Decoding -/

/-- A character of which some bytes were read: how many are left, the bounds of the next one, and
the value so far. -/
structure Begun where
  left : ℕ
  low : ℕ
  high : ℕ
  value : ℕ
  low_ge : 0x80 ≤ low
  high_lt : high < 0xC0

/-- The first byte of a character of several. -/
def leadByte (b : ℕ) : Option Begun :=
  if b < 0xC2 then none
  else if b < 0xE0 then some ⟨0, 0x80, 0xBF, b - 0xC0, by decide, by decide⟩
  else if b < 0xF0 then
    some ⟨1, if b = 0xE0 then 0xA0 else 0x80, if b = 0xED then 0x9F else 0xBF, b - 0xE0,
      by split_ifs <;> decide, by split_ifs <;> decide⟩
  else if b < 0xF5 then
    some ⟨2, if b = 0xF0 then 0x90 else 0x80, if b = 0xF4 then 0x8F else 0xBF, b - 0xF0,
      by split_ifs <;> decide, by split_ifs <;> decide⟩
  else none

/-- A byte where no character was begun. -/
def startByte (b : UInt8) : Str × Option Begun :=
  if b.toNat < 0x80 then ([Fin.ofNat _ b.toNat], none)
  else
    match leadByte b.toNat with
    | some p => ([], some p)
    | none => ([REPLACEMENT], none)

/-- What a byte adds to the text, and the character that is begun after it. -/
def decodeByte : Option Begun → UInt8 → Str × Option Begun
  | none, b => startByte b
  | some p, b =>
    if p.low ≤ b.toNat ∧ b.toNat ≤ p.high then
      let value := p.value * 64 + (b.toNat - 0x80)
      match p.left with
      | 0 => ([Fin.ofNat _ value], none)
      | left + 1 => ([], some ⟨left, 0x80, 0xBF, value, by decide, by decide⟩)
    else (REPLACEMENT :: (startByte b).1, (startByte b).2)

def decodeFrom : Option Begun → List UInt8 → Str
  | none, [] => []
  | some _, [] => [REPLACEMENT]
  | p, b :: bytes => (decodeByte p b).1 ++ decodeFrom (decodeByte p b).2 bytes

/-- `bytes.decode(errors="replace")`. -/
def decodeReplace (bytes : List UInt8) : Str := decodeFrom none bytes

/-- A byte that goes on a character. -/
def isContinuation (b : UInt8) : Bool := 0x80 ≤ b.toNat && b.toNat < 0xC0

variable {p : Option Begun} {b : UInt8}

theorem decodeFrom_cons (p : Option Begun) (b : UInt8) (bytes : List UInt8) :
    decodeFrom p (b :: bytes) = (decodeByte p b).1 ++ decodeFrom (decodeByte p b).2 bytes := by
  cases p <;> rfl

/-- A byte that goes on no character ends the one that was begun. -/
theorem decodeByte_start (p : Option Begun) (h : isContinuation b = false) :
    decodeByte p b = (decodeFrom p [] ++ (startByte b).1, (startByte b).2) := by
  cases p with
  | none => rfl
  | some p =>
    have hout : ¬(p.low ≤ b.toNat ∧ b.toNat ≤ p.high) := by
      rintro ⟨hlow, hhigh⟩
      have hge := p.low_ge
      have hlt := p.high_lt
      simp only [isContinuation, Bool.and_eq_false_iff, decide_eq_false_iff_not] at h
      omega
    unfold decodeByte
    dsimp only
    rw [if_neg hout]
    rfl

/-- **What follows such a byte** is read as if nothing had been before. -/
theorem decodeFrom_append (a bytes : List UInt8) (h : isContinuation b = false) (p : Option Begun) :
    decodeFrom p (a ++ b :: bytes) = decodeFrom p a ++ decodeReplace (b :: bytes) := by
  induction a generalizing p with
  | nil =>
    unfold decodeReplace
    rw [List.nil_append, decodeFrom_cons, decodeFrom_cons, decodeByte_start p h, List.append_assoc]
    rfl
  | cons a₀ a ih =>
      rw [List.cons_append, decodeFrom_cons, ih, ← List.append_assoc, ← decodeFrom_cons]

/-- Bytes that go on a character, where none was begun. -/
theorem decodeReplace_continuations {a : List UInt8} (h : ∀ b ∈ a, isContinuation b = true)
    (bytes : List UInt8) :
    decodeReplace (a ++ bytes) = List.replicate a.length REPLACEMENT ++ decodeReplace bytes := by
  induction a with
  | nil => rfl
  | cons b a ih =>
    obtain ⟨hb, ha⟩ := List.forall_mem_cons.1 h
    have hstart : startByte b = ([REPLACEMENT], none) := by
      simp only [isContinuation, Bool.and_eq_true, decide_eq_true_eq] at hb
      unfold startByte leadByte
      rw [if_neg (by omega), if_pos (by omega)]
    have hcons : decodeReplace (b :: (a ++ bytes)) =
        (startByte b).1 ++ decodeFrom (startByte b).2 (a ++ bytes) := rfl
    have hnext : decodeFrom none (a ++ bytes) = _ := ih ha
    rw [List.cons_append, hcons, hstart, hnext]
    rfl

/-! ### Texts -/

theorem decodeReplace_ascii {n : ℕ} (h : n < 0x80) (bytes : List UInt8) :
    decodeReplace (UInt8.ofNat n :: bytes) = Fin.ofNat _ n :: decodeReplace bytes := by
  have hn : (UInt8.ofNat n).toNat = n := UInt8.toNat_ofNat_of_lt' (by unfold UInt8.size; omega)
  have hstart : startByte (UInt8.ofNat n) = ([Fin.ofNat _ n], none) := by
    unfold startByte
    rw [hn, if_pos h]
  unfold decodeReplace
  rw [decodeFrom_cons, decodeByte, hstart]
  rfl

theorem decodeReplace_lead {n : ℕ} {q : Begun} (h : 0x80 ≤ n) (hn : n < 0x100)
    (hlead : leadByte n = some q)
    (bytes : List UInt8) : decodeReplace (UInt8.ofNat n :: bytes) = decodeFrom (some q) bytes := by
  have hn : (UInt8.ofNat n).toNat = n := UInt8.toNat_ofNat_of_lt' hn
  have hstart : startByte (UInt8.ofNat n) = ([], some q) := by
    unfold startByte
    rw [hn, if_neg (by omega), hlead]
  unfold decodeReplace
  rw [decodeFrom_cons, decodeByte, hstart]
  rfl

section

variable {left low high value n : ℕ} {hlow : 0x80 ≤ low} {hhigh : high < 0xC0}

theorem decodeFrom_last (hn : low ≤ n + 0x80 ∧ n + 0x80 ≤ high) (bytes : List UInt8) :
    decodeFrom (some ⟨0, low, high, value, hlow, hhigh⟩) (UInt8.ofNat (n + 0x80) :: bytes) =
      Fin.ofNat _ (value * 64 + n) :: decodeReplace bytes := by
  have hnat : (UInt8.ofNat (n + 0x80)).toNat = n + 0x80 :=
    UInt8.toNat_ofNat_of_lt' (by unfold UInt8.size; omega)
  rw [decodeFrom_cons, decodeByte]
  dsimp only
  rw [hnat, if_pos hn, Nat.add_sub_cancel]
  rfl

theorem decodeFrom_next (hn : low ≤ n + 0x80 ∧ n + 0x80 ≤ high) (bytes : List UInt8) :
    decodeFrom (some ⟨left + 1, low, high, value, hlow, hhigh⟩) (UInt8.ofNat (n + 0x80) :: bytes) =
      decodeFrom (some ⟨left, 0x80, 0xBF, value * 64 + n, by decide, by decide⟩) bytes := by
  have hnat : (UInt8.ofNat (n + 0x80)).toNat = n + 0x80 :=
    UInt8.toNat_ofNat_of_lt' (by unfold UInt8.size; omega)
  rw [decodeFrom_cons, decodeByte]
  dsimp only
  rw [hnat, if_pos hn]
  simp only [Nat.add_sub_cancel]
  rfl

end

theorem leadByte_two {n : ℕ} (h : 0xC2 ≤ n) (hn : n < 0xE0) :
    leadByte n = some ⟨0, 0x80, 0xBF, n - 0xC0, by decide, by decide⟩ := by
  unfold leadByte
  rw [if_neg (by omega), if_pos hn]

theorem leadByte_three {n : ℕ} (h : 0xE0 ≤ n) (hn : n < 0xF0) : leadByte n =
    some ⟨1, if n = 0xE0 then 0xA0 else 0x80, if n = 0xED then 0x9F else 0xBF, n - 0xE0,
      by split_ifs <;> decide, by split_ifs <;> decide⟩ := by
  unfold leadByte
  rw [if_neg (by omega), if_neg (by omega), if_pos hn]

theorem leadByte_four {n : ℕ} (h : 0xF0 ≤ n) (hn : n < 0xF5) : leadByte n =
    some ⟨2, if n = 0xF0 then 0x90 else 0x80, if n = 0xF4 then 0x8F else 0xBF, n - 0xF0,
      by split_ifs <;> decide, by split_ifs <;> decide⟩ := by
  unfold leadByte
  rw [if_neg (by omega), if_neg (by omega), if_neg (by omega), if_pos hn]

/-- The bytes of a character. -/
theorem decodeReplace_char (c : Char) (bytes : List UInt8) :
    decodeReplace (String.utf8EncodeChar c ++ bytes) = point c :: decodeReplace bytes := by
  have hvalid : c.toNat < 0xD800 ∨ 0xDFFF < c.toNat ∧ c.toNat < 0x110000 := c.valid
  have hpoint : ∀ {n}, n = c.toNat → Fin.ofNat 0x110000 n = point c := fun h => congrArg _ h
  unfold String.utf8EncodeChar
  dsimp only
  rw [show c.val.toNat = c.toNat from rfl]
  generalize hv : c.toNat = v at hvalid hpoint
  split_ifs with hone htwo hthree
  · exact (decodeReplace_ascii (by omega) bytes).trans (by rw [hpoint rfl])
  · have hlead := @leadByte_two (v / 64 % 0x20 + 0xC0) (by omega) (by omega)
    rw [List.cons_append, decodeReplace_lead (by omega) (by omega) hlead, List.cons_append,
      decodeFrom_last (by omega), hpoint (by omega), List.nil_append]
  · have hlead := @leadByte_three (v / 4096 % 0x10 + 0xE0) (by omega) (by omega)
    rw [List.cons_append, decodeReplace_lead (by omega) (by omega) hlead, List.cons_append,
      decodeFrom_next (by split_ifs <;> omega), List.cons_append, decodeFrom_last (by omega),
      hpoint (by omega), List.nil_append]
  · have hlead := @leadByte_four (v / 262144 % 0x08 + 0xF0) (by omega) (by omega)
    rw [List.cons_append, decodeReplace_lead (by omega) (by omega) hlead, List.cons_append,
      decodeFrom_next (by split_ifs <;> omega), List.cons_append, decodeFrom_next (by omega),
      List.cons_append,
      decodeFrom_last (by omega), hpoint (by omega), List.nil_append]

theorem decodeReplace_utf8 (text : List Char) : decodeReplace (utf8 text) = points text := by
  induction text with
  | nil => rfl
  | cons c text ih =>
    have hcons : utf8 (c :: text) = String.utf8EncodeChar c ++ utf8 text := rfl
    rw [hcons, decodeReplace_char, ih]
    rfl

/-! ## Lines of a file that is cut -/

/-- The lines of a text that more comes after. -/
theorem splitlinesFrom_append (s : Str) {line : Str} {cr : Bool} (h : cr = true → line = []) :
    ∃ done line' cr', (cr' = true → line' = []) ∧
      ∀ t, splitlinesFrom isLineEnd line cr (s ++ t) = done ++
        splitlinesFrom isLineEnd line' cr' t := by
  induction s generalizing line cr with
  | nil => exact ⟨[], line, cr, h, fun _ => rfl⟩
  | cons c s ih =>
    by_cases hcrlf : c = 0xA ∧ cr = true
    · obtain ⟨done, line', cr', hcr', hdone⟩ := @ih line false (by rintro ⟨⟩)
      refine ⟨done, line', cr', hcr', fun t => ?_⟩
      rw [List.cons_append, splitlinesFrom, if_pos hcrlf, hdone]
    · by_cases hend : isLineEnd c = true
      · obtain ⟨done, line', cr', hcr', hdone⟩ := @ih [] (c = 0xD) fun _ => rfl
        refine ⟨line :: done, line', cr', hcr', fun t => ?_⟩
        rw [List.cons_append, splitlinesFrom, if_neg hcrlf, if_pos hend, hdone, List.cons_append]
      · obtain ⟨done, line', cr', hcr', hdone⟩ := @ih (line ++ [c]) false (by rintro ⟨⟩)
        refine ⟨done, line', cr', hcr', fun t => ?_⟩
        rw [List.cons_append, splitlinesFrom, if_neg hcrlf, if_neg hend, hdone]

/-- Where the first line ends does not depend on how it starts. -/
theorem tail_splitlinesFrom (t : Str) {line line' : Str} {cr : Bool} (h : cr = true → line' = []) :
    (splitlinesFrom isLineEnd line false t).tail <:+ splitlinesFrom isLineEnd line' cr t := by
  induction t generalizing line line' cr with
  | nil =>
    unfold splitlinesFrom
    split_ifs <;> exact List.nil_suffix
  | cons c t ih =>
    have hno : ¬(c = 0xA ∧ false = true) := fun hcrlf => Bool.false_ne_true hcrlf.2
    rw [splitlinesFrom, if_neg hno, splitlinesFrom]
    by_cases hend : isLineEnd c = true
    · rw [if_pos hend, if_pos hend, List.tail_cons]
      split_ifs with hcrlf
      · have hcr : decide (c = 0xD) = false := by rw [hcrlf.1]; decide
        rw [h hcrlf.2, hcr]
      · exact List.suffix_cons _ _
    · have hlf : ¬(c = 0xA ∧ cr = true) := fun hcrlf => hend (by rw [hcrlf.1]; decide)
      rw [if_neg hend, if_neg hlf, if_neg hend]
      exact ih (by rintro ⟨⟩)

/-- **The lines from anywhere in a file on** are lines of the file, but for the first. -/
theorem tail_splitlines_drop (bytes : List UInt8) (n : ℕ) :
    (splitlines (decodeReplace (bytes.drop n))).tail <:+ splitlines (decodeReplace bytes) := by
  have hwhole := List.takeWhile_append_dropWhile (p := isContinuation) (l := bytes.drop n)
  have hcut : ∀ b ∈ (bytes.drop n).takeWhile isContinuation, isContinuation b = true :=
    fun b hb => List.mem_takeWhile_imp hb
  have hopen : ∀ c ∈ List.replicate ((bytes.drop n).takeWhile isContinuation).length REPLACEMENT,
      isLineEnd c = false := by
    intro c hc
    rw [List.eq_of_mem_replicate hc]
    decide
  have hwindow := decodeReplace_continuations hcut ((bytes.drop n).dropWhile isContinuation)
  rw [hwhole] at hwindow
  unfold splitlines
  rw [hwindow, splitlinesFrom_open hopen]
  cases hrest : (bytes.drop n).dropWhile isContinuation with
  | nil =>
    unfold decodeReplace decodeFrom splitlinesFrom
    split_ifs <;> exact List.nil_suffix
  | cons b rest =>
    have hb : isContinuation b = false := by
      have hhead := List.head?_dropWhile_not isContinuation (bytes.drop n)
      rw [hrest] at hhead
      simpa using hhead
    have hbytes : bytes = bytes.take n ++ (bytes.drop n).takeWhile isContinuation ++ b :: rest := by
      rw [← hrest, List.append_assoc, hwhole, List.take_append_drop]
    obtain ⟨done, line', cr', hcr', hdone⟩ := @splitlinesFrom_append
      (decodeFrom none (bytes.take n ++ (bytes.drop n).takeWhile isContinuation)) [] false
      (by rintro ⟨⟩)
    have hall : decodeReplace bytes =
        decodeFrom none (bytes.take n ++ (bytes.drop n).takeWhile isContinuation) ++
        decodeReplace (b :: rest) := by
      conv_lhs => rw [hbytes]
      exact decodeFrom_append _ _ hb none
    rw [hall, hdone]
    exact (tail_splitlinesFrom _ hcr').trans (List.suffix_append _ _)

end AgentLab.Python
