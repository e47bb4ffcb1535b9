import AgentLab.Python.Value
import Mathlib.Data.List.DropRight

/-!
# Lines and bytes

`str.splitlines` and `str.strip` of a text that is cut, and the UTF-8 bytes of a text. Which
characters end a line is a parameter of the loop.

Each line of a cut text starts a line of the whole text (`mem_splitlinesFrom_append`), and a cut
text that is stripped starts the stripped one (`strip_mono`). Bytes that start those of a text are
those of a shorter text, and maybe of a part of the next character (`prefix_utf8`).
-/

namespace AgentLab.Python

/-! ## Lines -/

/-- The characters that end a line for `str.splitlines`. -/
def isLineEnd (c : CodePoint) : Bool :=
  [(0xA, 0xD), (0x1C, 0x1E), (0x85, 0x85), (0x2028, 0x2029)].any
    fun r => r.1 ≤ c.val && c.val ≤ r.2

/-- The lines from the one so far on; a line feed right after a carriage return (`cr`) belongs to
it. -/
def splitlinesFrom (isEnd : CodePoint → Bool) (line : Str) (cr : Bool) : Str → List Str
  | [] => if line.isEmpty then [] else [line]
  | c :: s =>
    if c = 0xA ∧ cr = true then splitlinesFrom isEnd line false s
    else if isEnd c then line :: splitlinesFrom isEnd [] (c = 0xD) s
    else splitlinesFrom isEnd (line ++ [c]) false s

/-- `str.splitlines`. -/
def splitlines (s : Str) : List Str := splitlinesFrom isLineEnd [] false s

/-- The lines of a text in which these characters end a line. -/
def linesBy (isEnd : CodePoint → Bool) (s : Str) : List Str := splitlinesFrom isEnd [] false s

/-- No line is left open. -/
def Terminated (isEnd : CodePoint → Bool) (s : Str) : Prop :=
  s = [] ∨ ∃ init c, s = init ++ [c] ∧ isEnd c = true

variable {isEnd : CodePoint → Bool}

theorem splitlinesFrom_nil (line : Str) (cr : Bool) :
    splitlinesFrom isEnd line cr [] = if line.isEmpty then [] else [line] := rfl

theorem splitlinesFrom_cons (line : Str) (cr : Bool) (c : CodePoint) (s : Str) :
    splitlinesFrom isEnd line cr (c :: s) =
      if c = 0xA ∧ cr = true then splitlinesFrom isEnd line false s
      else if isEnd c then line :: splitlinesFrom isEnd [] (c = 0xD) s
      else splitlinesFrom isEnd (line ++ [c]) false s := rfl

theorem prefix_splitlinesFrom {line : Str} (h : line ≠ []) (cr : Bool) (s : Str) :
    ∃ full ∈ splitlinesFrom isEnd line cr s, line <+: full := by
  induction s generalizing line cr with
  | nil =>
    refine ⟨line, ?_, List.prefix_rfl⟩
    rw [splitlinesFrom_nil, if_neg (by simpa using h)]
    exact List.mem_singleton_self line
  | cons c s ih =>
    rw [splitlinesFrom_cons]
    split_ifs
    · exact ih h false
    · exact ⟨line, List.mem_cons_self, List.prefix_rfl⟩
    · have hne : line ++ [c] ≠ [] := List.append_ne_nil_of_right_ne_nil _ (List.cons_ne_nil _ _)
      obtain ⟨full, hfull, hline⟩ := ih hne false
      exact ⟨full, hfull, (List.prefix_append _ _).trans hline⟩

/-- The lines of a text of which some more follows, with an unfinished line at its end. -/
theorem mem_splitlinesFrom_append {l : Str} (s t : Str) {line : Str} {cr : Bool}
    (h : l ∈ splitlinesFrom isEnd line cr s) :
    ∃ full ∈ splitlinesFrom isEnd line cr (s ++ t), l <+: full := by
  induction s generalizing line cr with
  | nil =>
    rw [splitlinesFrom_nil] at h
    split_ifs at h with he
    · exact absurd h List.not_mem_nil
    · obtain rfl := List.mem_singleton.1 h
      exact prefix_splitlinesFrom (by simpa using he) cr t
  | cons c s ih =>
    rw [List.cons_append, splitlinesFrom_cons]
    rw [splitlinesFrom_cons] at h
    split_ifs at h ⊢
    · exact ih h
    · rcases List.mem_cons.1 h with rfl | h
      · exact ⟨l, List.mem_cons_self, List.prefix_rfl⟩
      · obtain ⟨full, hfull, hl⟩ := ih h
        exact ⟨full, List.mem_cons_of_mem _ hfull, hl⟩
    · exact ih h

/-- A line of a text with one more character, which is not the character, starts a line of the text
however it goes on. -/
theorem mem_splitlinesFrom_concat {l : Str} (s t : Str) {d : CodePoint} (hd : isEnd d = false)
    (hd' : d ≠ 0xA) {line : Str} {cr : Bool} (h : l ∈ splitlinesFrom isEnd line cr (s ++ [d])) :
    (∃ full ∈ splitlinesFrom isEnd line cr (s ++ t), l <+: full) ∨ ∃ q, l = q ++ [d] := by
  induction s generalizing line cr with
  | nil =>
    rw [List.nil_append, splitlinesFrom_cons, if_neg (fun hc => hd' hc.1), hd] at h
    exact .inr ⟨line, by simpa [splitlinesFrom_nil] using h⟩
  | cons c s ih =>
    rw [List.cons_append, splitlinesFrom_cons] at h ⊢
    split_ifs at h ⊢
    · exact ih h
    · rcases List.mem_cons.1 h with rfl | h
      · exact .inl ⟨l, List.mem_cons_self, List.prefix_rfl⟩
      · refine (ih h).imp_left ?_
        rintro ⟨full, hfull, hl⟩
        exact ⟨full, List.mem_cons_of_mem _ hfull, hl⟩
    · exact ih h

/-- A text in which no line ends. -/
theorem splitlinesFrom_open {s : Str} (hs : ∀ c ∈ s, isEnd c = false) (line t : Str) :
    splitlinesFrom isEnd line false (s ++ t) = splitlinesFrom isEnd (line ++ s) false t := by
  induction s generalizing line with
  | nil => rw [List.nil_append, List.append_nil]
  | cons c s ih =>
    obtain ⟨hc, hs⟩ := List.forall_mem_cons.1 hs
    rw [List.cons_append, splitlinesFrom_cons, if_neg fun hcrlf => Bool.false_ne_true hcrlf.2,
      if_neg (Bool.not_eq_true _ ▸ hc), ih hs, List.append_assoc]
    rfl

theorem splitlinesFrom_cr {t : Str} (h : t.head? ≠ some 0xA) (cr : Bool) :
    splitlinesFrom isEnd [] cr t = linesBy isEnd t := by
  cases t with
  | nil => rfl
  | cons c t =>
    have hc : c ≠ 0xA := fun hc => h (congrArg some hc)
    unfold linesBy
    simp only [splitlinesFrom_cons, hc, false_and, if_false]

/-- Lines that are all ended, and more of them. -/
theorem linesBy_append {s t : Str} (hs : Terminated isEnd s) (ht : t.head? ≠ some 0xA) :
    linesBy isEnd (s ++ t) = linesBy isEnd s ++ linesBy isEnd t := by
  have key : ∀ (init : Str) {c : CodePoint}, isEnd c = true → ∀ (line : Str) (cr : Bool),
      (cr = true → line = []) → splitlinesFrom isEnd line cr (init ++ [c] ++ t) =
        splitlinesFrom isEnd line cr (init ++ [c]) ++ linesBy isEnd t := by
    intro init
    induction init with
    | nil =>
      intro c hc line cr hcr
      show splitlinesFrom isEnd line cr (c :: t) = splitlinesFrom isEnd line cr [c] ++
        linesBy isEnd t
      rw [splitlinesFrom_cons, splitlinesFrom_cons]
      split_ifs with hlf
      · rw [hcr hlf.2, splitlinesFrom_cr ht]; rfl
      · rw [splitlinesFrom_cr ht]; rfl
    | cons d init ih =>
      intro c hc line cr hcr
      rw [List.cons_append, List.cons_append, splitlinesFrom_cons, splitlinesFrom_cons]
      split_ifs
      · exact ih hc line false nofun
      · rw [ih hc [] _ fun _ => rfl]; rfl
      · exact ih hc (line ++ [d]) false nofun
  obtain rfl | ⟨init, c, rfl, hc⟩ := hs
  · rfl
  · exact key init hc [] false nofun

/-- The newlines that reading a file in text mode leaves, of the rest of it; `cr` says that a
carriage return was the last character. -/
def newlinesFrom (cr : Bool) : Str → Str
  | [] => []
  | c :: s =>
    if c = 0xA ∧ cr = true then newlinesFrom false s
    else (if c = 0xD then 0xA else c) :: newlinesFrom (c = 0xD) s

/-- The universal newlines of text mode: a carriage return, with or without a line feed after it, is
read as a line feed. -/
def universalNewlines (s : Str) : Str := newlinesFrom false s

theorem universalNewlines_eq_self {s : Str} (h : 0xD ∉ s) : universalNewlines s = s := by
  unfold universalNewlines
  induction s with
  | nil => rfl
  | cons c s ih =>
    have hc : c ≠ 0xD := fun hc => h (hc ▸ List.mem_cons_self)
    unfold newlinesFrom
    rw [if_neg (fun hcr => Bool.false_ne_true hcr.2), if_neg hc, decide_eq_false hc,
      ih fun hs => h (List.mem_cons_of_mem _ hs)]

/-! ## Stripping -/

theorem dropWhile_mono {p : CodePoint → Bool} {s t : Str} (h : s <+: t) :
    s.dropWhile p <+: t.dropWhile p := by
  obtain ⟨u, rfl⟩ := h
  rw [List.dropWhile_append]
  split_ifs with he
  · rw [List.isEmpty_iff.1 he]; exact List.nil_prefix
  · exact List.prefix_append _ _

theorem rdropWhile_mono {p : CodePoint → Bool} {s t : Str} (h : s <+: t) :
    s.rdropWhile p <+: t.rdropWhile p := by
  obtain ⟨u, rfl⟩ := h
  have hs : s.rdropWhile p <+: s := List.rdropWhile_prefix p s
  unfold List.rdropWhile at hs ⊢
  rw [List.reverse_append, List.dropWhile_append]
  split_ifs
  · exact List.prefix_rfl
  · rw [List.reverse_append, List.reverse_reverse]
    exact hs.trans (List.prefix_append _ _)

/-- A text that is cut and then stripped. -/
theorem strip_mono {s t : Str} (h : s <+: t) : strip s <+: strip t :=
  rdropWhile_mono (dropWhile_mono h)

theorem strip_concat (s : Str) {c : CodePoint} (hc : isSpace c = false) :
    ∃ q, strip (s ++ [c]) = q ++ [c] := by
  have hdrop : ∃ q, (s ++ [c]).dropWhile isSpace = q ++ [c] := by
    rw [List.dropWhile_append]
    split_ifs
    · exact ⟨[], by simp [hc]⟩
    · exact ⟨_, rfl⟩
  obtain ⟨q, hq⟩ := hdrop
  refine ⟨q, ?_⟩
  unfold strip
  rw [hq, List.reverse_append]
  simp [hc]

/-! ## Bytes -/

/-- The code point of a Unicode scalar value. -/
def point (c : Char) : CodePoint := Fin.ofNat 0x110000 c.toNat

def points (text : List Char) : Str := text.map point

theorem points_append (s t : List Char) : points (s ++ t) = points s ++ points t := List.map_append

theorem point_injective : Function.Injective point := by
  intro c d h
  have hlt : ∀ c : Char, c.toNat < 0x110000 := fun c => by
    have hvalid := c.valid
    simp only [UInt32.isValidChar, Nat.isValidChar] at hvalid
    show c.val.toNat < _
    omega
  have hval := congrArg Fin.val h
  simp only [point, Fin.val_ofNat, Nat.mod_eq_of_lt (hlt _)] at hval
  exact Char.toNat_inj.1 hval

theorem points_injective : Function.Injective points := List.map_injective_iff.2 point_injective

/-- `text.encode()`. -/
def utf8 (text : List Char) : List UInt8 := text.flatMap String.utf8EncodeChar

/-- Some bytes of a character, not all. -/
structure PartOf (c : Char) (cut : List UInt8) : Prop where
  nonempty : cut ≠ []
  starts : cut <+: String.utf8EncodeChar c
  ne : cut ≠ String.utf8EncodeChar c

theorem utf8_append (s t : List Char) : utf8 (s ++ t) = utf8 s ++ utf8 t := List.flatMap_append

/-- **The bytes of a text, cut anywhere.** -/
theorem prefix_utf8 {b : List UInt8} {text : List Char} (h : b <+: utf8 text) :
    ∃ s t, text = s ++ t ∧
      (b = utf8 s ∨ ∃ c t' cut, t = c :: t' ∧ PartOf c cut ∧ b = utf8 s ++ cut) := by
  induction text generalizing b with
  | nil => exact ⟨[], [], rfl, .inl (List.prefix_nil.1 h)⟩
  | cons c text ih =>
    rcases List.prefix_or_prefix_of_prefix h (List.prefix_append _ _) with hb | ⟨b', rfl⟩
    · by_cases hnil : b = []
      · exact ⟨[], c :: text, rfl, .inl hnil⟩
      · by_cases hall : b = String.utf8EncodeChar c
        · exact ⟨[c], text, rfl, .inl (by simp [utf8, hall])⟩
        · exact ⟨[], c :: text, rfl, .inr ⟨c, text, b, rfl, ⟨hnil, hb, hall⟩, rfl⟩⟩
    · obtain ⟨s, t, rfl, hb⟩ := ih ((List.prefix_append_right_inj _).1 h)
      refine ⟨c :: s, t, rfl, ?_⟩
      rcases hb with rfl | ⟨d, t', cut, rfl, hcut, rfl⟩
      · exact .inl rfl
      · exact .inr ⟨d, t', cut, rfl, hcut, (List.append_assoc _ _ _).symm⟩

/-! ## Decoding -/

/-- `b.decode()`. -/
def decodeStrict (b : List UInt8) : Except PyExc Str :=
  match String.fromUTF8? ⟨b.toArray⟩ with
  | some text => .ok (str text)
  | none => .error .unicodeDecodeError

/-- U+FFFD, which a decoder puts in the place of a character that is cut. -/
def REPLACEMENT : CodePoint := 0xFFFD

/-- The character that the bytes start with. -/
def decodeChar? (b : List UInt8) : Option Char := b.toByteArray.utf8DecodeChar? 0

/-- `b.decode(errors="replace")` for the bytes of a text that may be cut, of at most `fuel`
characters. -/
def decode (fuel : ℕ) (b : List UInt8) : Str :=
  match fuel with
  | 0 => []
  | fuel + 1 =>
    if b.isEmpty then []
    else
      match decodeChar? b with
      | some c => point c :: decode fuel (b.drop c.utf8Size)
      | none => [REPLACEMENT]

theorem decodeChar?_append (c : Char) (b : List UInt8) :
    decodeChar? (String.utf8EncodeChar c ++ b) = some c := by
  unfold decodeChar?
  rw [List.toByteArray_append]
  exact ByteArray.utf8DecodeChar?_utf8EncodeChar_append

theorem decodeChar?_part {c : Char} {cut : List UInt8} (h : PartOf c cut) :
    decodeChar? cut = none := by
  cases hd : decodeChar? cut with
  | none => rfl
  | some d =>
    have hprefix : String.utf8EncodeChar d <+: cut := by
      have hbytes := congrArg (fun b : ByteArray => b.data.toList)
        (String.toByteArray_utf8EncodeChar_of_utf8DecodeChar?_eq_some hd)
      have htake : String.utf8EncodeChar d = cut.take d.utf8Size := by
        simpa [ByteArray.data_extract, List.extract] using hbytes
      rw [htake]
      exact List.take_prefix _ _
    obtain ⟨more, hmore⟩ := hprefix
    obtain ⟨rest, hrest⟩ := h.starts
    have hcd : d = c := by
      have hc := decodeChar?_append c []
      rw [List.append_nil, ← hrest, ← hmore, List.append_assoc, decodeChar?_append] at hc
      exact Option.some.inj hc
    subst hcd
    exact absurd (h.starts.eq_of_length_le (hmore ▸ by simp)) h.ne

theorem decode_append (text : List Char) (b : List UInt8) (fuel : ℕ) :
    decode (text.length + fuel) (utf8 text ++ b) = points text ++ decode fuel b := by
  induction text with
  | nil => rw [List.length_nil, Nat.zero_add]; rfl
  | cons c text ih =>
    have hutf8 : utf8 (c :: text) ++ b = String.utf8EncodeChar c ++ (utf8 text ++ b) :=
      List.append_assoc _ _ _
    have hne : ¬(String.utf8EncodeChar c ++ (utf8 text ++ b)).isEmpty = true := by
      simp [String.utf8EncodeChar_ne_nil]
    rw [hutf8, List.length_cons, Nat.add_right_comm, decode, if_neg hne, decodeChar?_append]
    dsimp only
    rw [← String.length_utf8EncodeChar, List.drop_left, ih]
    rfl

theorem length_le_utf8 (text : List Char) : text.length ≤ (utf8 text).length := by
  induction text with
  | nil => exact Nat.le_refl 0
  | cons c text ih =>
    have hpos := c.utf8Size_pos
    have hutf8 : utf8 (c :: text) = String.utf8EncodeChar c ++ utf8 text := rfl
    rw [hutf8, List.length_cons, List.length_append, String.length_utf8EncodeChar]
    omega

/-- The bytes of a text, and a part of another character. -/
theorem decode_utf8 (text : List Char) : decode (utf8 text).length (utf8 text) = points text := by
  obtain ⟨fuel, hfuel⟩ := Nat.exists_eq_add_of_le (length_le_utf8 text)
  have h := decode_append text [] fuel
  rw [List.append_nil, ← hfuel] at h
  rw [h]
  cases fuel <;> simp [decode]

theorem decode_part (text : List Char) {c : Char} {cut : List UInt8} (h : PartOf c cut) :
    decode (utf8 text ++ cut).length (utf8 text ++ cut) = points text ++ [REPLACEMENT] := by
  obtain ⟨fuel, hfuel⟩ := Nat.exists_eq_add_of_le (length_le_utf8 text)
  have hpos := List.length_pos_iff.2 h.nonempty
  obtain ⟨more, hmore⟩ := Nat.exists_eq_add_of_le hpos
  have hlength : (utf8 text ++ cut).length = text.length + (fuel + more + 1) := by
    rw [List.length_append]
    omega
  rw [hlength, decode_append, decode, if_neg (by simpa using h.nonempty), decodeChar?_part h]

/-! ## Texts without surrogates -/

/-- The characters of a text without surrogates. -/
def charsOf (s : Str) : List Char := s.map fun c => Char.ofNat c.val

/-- `text.encode()` of a text without surrogates. -/
def encode (s : Str) : List UInt8 := utf8 (charsOf s)

theorem points_charsOf {s : Str} (h : encodable s = true) : points (charsOf s) = s := by
  unfold points charsOf
  rw [List.map_map]
  refine (List.map_congr_left fun c hc => ?_).trans s.map_id
  have hscalar : isSurrogate c = false := by simpa using List.all_eq_true.1 h c hc
  have hvalid : c.val.isValidChar := by
    have hlt := c.isLt
    simp only [isSurrogate, Bool.and_eq_false_iff, decide_eq_false_iff_not, not_le] at hscalar
    unfold Nat.isValidChar
    omega
  have hnat : (Char.ofNat c.val).toNat = c.val := by
    unfold Char.ofNat
    rw [dif_pos hvalid]
    rfl
  refine Fin.ext ?_
  simp only [Function.comp_apply, point, Fin.ofNat, hnat, id]
  exact Nat.mod_eq_of_lt c.isLt

theorem fromUTF8?_utf8 (text : List Char) :
    String.fromUTF8? ⟨(utf8 text).toArray⟩ = some (String.ofList text) := by
  have hbytes : (⟨(utf8 text).toArray⟩ : ByteArray) = (String.ofList text).toByteArray := by
    rw [String.toByteArray_ofList, List.utf8Encode]
    exact ByteArray.ext List.data_toByteArray.symm
  have hvalid : ByteArray.IsValidUTF8 ⟨(utf8 text).toArray⟩ :=
    hbytes ▸ (String.ofList text).isValidUTF8
  unfold String.fromUTF8?
  rw [dif_pos hvalid]
  exact congrArg some (String.toByteArray_inj.1 hbytes)

theorem decodeStrict_encode {s : Str} (h : encodable s = true) :
    decodeStrict (encode s) = .ok s := by
  have hpoints : str (String.ofList (charsOf s)) = points (charsOf s) := by
    rw [str, String.toList_ofList]
    rfl
  unfold decodeStrict encode
  rw [fromUTF8?_utf8]
  dsimp only
  rw [hpoints, points_charsOf h]

end AgentLab.Python
