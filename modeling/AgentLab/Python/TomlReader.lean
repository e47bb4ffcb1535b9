import AgentLab.Python.Toml

/-!
# A reader that follows TOML

`readToml` reads the documents of `Toml.document`, and strings between apostrophes, line by line;
anything else it refuses. It does what TOML says of a parser (`readToml_toml10`), so that what is
assumed of `tomllib` can be met.
-/

namespace AgentLab.Python

namespace Toml

/-! ## Lines -/

/-- The lines of a text whose last line is ended. -/
def linesOf : Str → Option (List Str)
  | [] => some []
  | c :: s =>
    if c = newline then (linesOf s).map ([] :: ·)
    else match linesOf s with
      | some (line :: lines) => some ((c :: line) :: lines)
      | _ => none

theorem linesOf_line {line : Str} (h : newline ∉ line) (s : Str) :
    linesOf (line ++ newline :: s) = (linesOf s).map (line :: ·) := by
  induction line with
  | nil => exact if_pos rfl
  | cons c line ih =>
    have hc : c ≠ newline := fun hc => h (hc ▸ List.mem_cons_self)
    have hline : newline ∉ line := fun hmem => h (List.mem_cons_of_mem _ hmem)
    rw [List.cons_append, linesOf, if_neg hc, ih hline]
    cases linesOf s <;> rfl

theorem linesOf_eq_nil {s : Str} (h : linesOf s = some []) : s = [] := by
  cases s with
  | nil => rfl
  | cons c s =>
    unfold linesOf at h
    split_ifs at h
    · obtain ⟨ls, -, heq⟩ := Option.map_eq_some_iff.1 h
      cases heq
    · split at h
      · cases h
      · cases h

theorem linesOf_eq_cons {s line : Str} {lines : List Str} (h : linesOf s = some (line :: lines)) :
    newline ∉ line ∧ ∃ t, s = line ++ newline :: t ∧ linesOf t = some lines := by
  induction s generalizing line with
  | nil => cases h
  | cons c s ih =>
    unfold linesOf at h
    split_ifs at h with hc
    · obtain ⟨ls, hls, heq⟩ := Option.map_eq_some_iff.1 h
      cases heq
      exact ⟨List.not_mem_nil, s, by rw [hc]; rfl, hls⟩
    · cases hs : linesOf s with
      | none =>
        rw [hs] at h
        cases h
      | some ls =>
        cases ls with
        | nil =>
          rw [hs] at h
          cases h
        | cons l ls =>
          rw [hs] at h
          cases h
          obtain ⟨hnot, t, rfl, ht⟩ := ih hs
          refine ⟨fun hmem => ?_, t, rfl, ht⟩
          rcases List.mem_cons.1 hmem with rfl | hmem
          · exact hc rfl
          · exact hnot hmem

def isBareChar (c : CodePoint) : Bool :=
  (0x41 ≤ c.val && c.val ≤ 0x5A) || (0x61 ≤ c.val && c.val ≤ 0x7A) ||
    (0x30 ≤ c.val && c.val ≤ 0x39) || c = 0x2D || c = 0x5F

/-- The line that the text may be. -/
def guessLine : Str → Line
  | [] => .blank
  | c :: s =>
    if c = 0x23 then .comment s
    else if c = 0x5B then .header (s.dropLast.splitOn 0x2E)
    else
      let key := (c :: s).takeWhile isBareChar
      .pair key (((c :: s).drop (key.length + 4)).dropLast)

def parseLine (s : Str) : Option Line :=
  if (guessLine s).text = s then some (guessLine s) else none

/-- A key and its value between apostrophes. -/
def literal? (s : Str) : Option (Str × Str) :=
  let key := s.takeWhile isBareChar
  let value := (s.drop (key.length + 4)).dropLast
  if s = key ++ str " = '" ++ value ++ str "'" ∧ isBareKey key ∧
      (value.all fun c => isPrintable c && c ≠ 0x27) then some (key, value)
  else none

/-- The document with a line read from its text. -/
def Document.readLine (doc : Document) (s : Str) : Option Document :=
  match parseLine s with
  | some line => doc.line line
  | none => (literal? s).bind fun pair =>
      (insertNew (doc.path ++ [pair.1]) (.string pair.2) doc.items).map (⟨doc.path, ·⟩)

def readToml (s : Str) : Option (Dict Toml) :=
  (linesOf s).bind fun lines =>
    (lines.foldlM Document.readLine ⟨[], []⟩).map Document.items

/-! ### The lines of a document -/

theorem isBareKey_eq (key : Str) : isBareKey key = (!key.isEmpty && key.all isBareChar) := rfl

theorem newline_notMem_of_bare {key : Str} (h : isBareKey key = true) : newline ∉ key := by
  intro hmem
  rw [isBareKey_eq, Bool.and_eq_true, List.all_eq_true] at h
  exact absurd (h.2 _ hmem) (by decide)

theorem newline_notMem_join {path : List Str} (h : ∀ key ∈ path, isBareKey key = true) :
    newline ∉ join (str ".") path := by
  induction path with
  | nil => exact List.not_mem_nil
  | cons key path ih =>
    obtain ⟨hkey, hpath⟩ := List.forall_mem_cons.1 h
    cases path with
    | nil =>
      show newline ∉ key ++ []
      rw [List.append_nil]
      exact newline_notMem_of_bare hkey
    | cons key' path =>
      show newline ∉ key ++ (str "." ++ join (str ".") (key' :: path))
      rw [List.mem_append, List.mem_append]
      rintro (hmem | hmem | hmem)
      · exact newline_notMem_of_bare hkey hmem
      · exact absurd hmem (by decide)
      · exact ih hpath hmem

/-- A line that a document takes. -/
theorem Document.newline_notMem {doc doc' : Document} {line : Line}
    (h : doc.line line = some doc') : newline ∉ line.text := by
  unfold Document.line at h
  cases line with
  | blank => exact List.not_mem_nil
  | comment text =>
    dsimp only at h
    split_ifs at h with hc
    intro hmem
    rcases List.mem_append.1 hmem with hmem | hmem
    · exact absurd hmem (by decide)
    · exact absurd (List.all_eq_true.1 hc _ hmem) (by decide)
  | header path =>
    dsimp only at h
    split_ifs at h with hpath
    intro hmem
    rcases List.mem_append.1 hmem with hmem | hmem
    · rcases List.mem_append.1 hmem with hmem | hmem
      · exact absurd hmem (by decide)
      · exact newline_notMem_join (List.all_eq_true.1 hpath) hmem
    · exact absurd hmem (by decide)
  | pair key value =>
    dsimp only at h
    split_ifs at h with hpair
    simp only [Line.text, List.mem_append, not_or]
    refine ⟨⟨⟨newline_notMem_of_bare hpair.1, by decide⟩, fun hmem => ?_⟩, by decide⟩
    exact (hpair.2 _ hmem).ne_newline rfl

/-- Where a bare key ends. -/
theorem takeWhile_bare {key s : Str} (h : isBareKey key = true) {c : CodePoint}
    (hc : isBareChar c = false) : (key ++ c :: s).takeWhile isBareChar = key := by
  rw [isBareKey_eq, Bool.and_eq_true, List.all_eq_true] at h
  rw [List.takeWhile_append_of_pos h.2, List.takeWhile_cons, hc]
  exact List.append_nil _

theorem guessLine_pair {key s : Str} (h : isBareKey key = true) {c : CodePoint}
    (hc : isBareChar c = false) : guessLine (key ++ c :: s) =
      .pair key (((key ++ c :: s).drop (key.length + 4)).dropLast) := by
  cases key with
  | nil => cases h
  | cons d key =>
    have hd : isBareChar d = true := by
      rw [isBareKey_eq, Bool.and_eq_true, List.all_eq_true] at h
      exact h.2 d List.mem_cons_self
    have h₁ : d ≠ 0x23 := by rintro rfl; exact absurd hd (by decide)
    have h₂ : d ≠ 0x5B := by rintro rfl; exact absurd hd (by decide)
    have htake := takeWhile_bare h (s := s) hc
    rw [List.cons_append] at htake ⊢
    unfold guessLine
    dsimp only
    rw [if_neg h₁, if_neg h₂, htake]

theorem parseLine_text {doc doc' : Document} {line : Line} (h : doc.line line = some doc') :
    parseLine line.text = some line := by
  have hguess : guessLine line.text = line := by
    cases line with
    | blank => rfl
    | comment text =>
      show guessLine (0x23 :: text) = _
      unfold guessLine
      exact if_pos rfl
    | header path =>
      unfold Document.line at h
      dsimp only at h
      split_ifs at h with hpath
      rw [List.all_eq_true] at hpath
      have hne : path ≠ [] := by
        rintro rfl
        cases h
      show Line.header (((join (str ".") path ++ str "]").dropLast).splitOn 0x2E) = _
      have hlast : (join (str ".") path ++ str "]").dropLast = join (str ".") path :=
        List.dropLast_concat
      have hsplit : (join (str ".") path).splitOn 0x2E = path := by
        refine List.splitOn_intercalate 0x2E (fun key hkey hmem => ?_) hne
        have hbare := hpath key hkey
        rw [isBareKey_eq, Bool.and_eq_true, List.all_eq_true] at hbare
        exact absurd (hbare.2 _ hmem) (by decide)
      rw [hlast, hsplit]
    | pair key value =>
      unfold Document.line at h
      dsimp only at h
      split_ifs at h with hpair
      have htext : (Line.pair key value).text =
          key ++ 0x20 :: (str "= \"" ++ value ++ str "\"") := by
        simp only [Line.text, List.append_assoc]
        rfl
      have hdrop : ((key ++ 0x20 :: (str "= \"" ++ value ++ str "\"")).drop
          (key.length + 4)).dropLast = value := by
        rw [List.drop_append, List.drop_of_length_le (by omega), Nat.add_sub_cancel_left]
        exact List.dropLast_concat
      rw [htext, guessLine_pair hpair.1 (by decide), hdrop]
  unfold parseLine
  rw [hguess, if_pos rfl]

theorem readLine_text {doc doc' : Document} {line : Line} (h : doc.line line = some doc') :
    doc.readLine line.text = some doc' := by
  unfold Document.readLine
  rw [parseLine_text h]
  exact h

/-- The lines of a document, and what comes after them. -/
theorem linesOf_linesText {lines : List Line} {doc doc' : Document}
    (h : lines.foldlM Document.line doc = some doc') (rest : Str) :
    linesOf (linesText lines ++ rest) = (linesOf rest).map (lines.map Line.text ++ ·) ∧
      ∀ more, (lines.map Line.text ++ more).foldlM Document.readLine doc =
        more.foldlM Document.readLine doc' := by
  induction lines generalizing doc with
  | nil =>
    cases h
    exact ⟨by simp [linesText], fun _ => rfl⟩
  | cons line lines ih =>
    rw [List.foldlM_cons] at h
    obtain ⟨doc₁, hline, h⟩ := Option.bind_eq_some_iff.1 h
    obtain ⟨hlines, hread⟩ := ih h
    constructor
    · have htext : linesText (line :: lines) ++ rest =
          line.text ++ newline :: (linesText lines ++ rest) := by
        simp [linesText]
      rw [htext, linesOf_line (Document.newline_notMem hline), hlines, Option.map_map]
      rfl
    · intro more
      rw [List.map_cons, List.cons_append, List.foldlM_cons, readLine_text hline]
      exact hread more

/-! ## Definitions stay -/

/-- What `insertNew` does, for one key of the path. -/
theorem insertNew_cons {key : Str} {path : List Str} {v : Toml} {d d' : Dict Toml}
    (h : insertNew (key :: path) v d = some d') :
    path = [] ∧ Dict.get? d key = none ∧ d' = d ++ [(key, v)] ∨
      Dict.get? d key = none ∧
        (∃ t, insertNew path v [] = some t ∧ d' = d ++ [(key, .table t)]) ∨
      ∃ t t', Dict.get? d key = some (.table t) ∧ insertNew path v t = some t' ∧
        d' = Dict.set d key (.table t') := by
  cases path with
  | nil =>
    unfold insertNew at h
    split_ifs at h with hkey
    exact .inl ⟨rfl, Option.not_isSome_iff_eq_none.1 hkey, (Option.some.inj h).symm⟩
  | cons key' path =>
    unfold insertNew at h
    split at h
    · next hnone =>
      obtain ⟨t, ht, rfl⟩ := Option.map_eq_some_iff.1 h
      exact .inr (.inl ⟨hnone, t, ht, rfl⟩)
    · next t hsome =>
      obtain ⟨t', ht, rfl⟩ := Option.map_eq_some_iff.1 h
      exact .inr (.inr ⟨t, t', hsome, ht, rfl⟩)
    · cases h

theorem getAt_cons (key : Str) (path : List Str) (d : Dict Toml) :
    getAt (key :: path) (.table d) = (Dict.get? d key).bind (getAt path) := rfl

/-- The new value is at its path. -/
theorem getAt_insertNew {path : List Str} {v : Toml} {d d' : Dict Toml}
    (h : insertNew path v d = some d') : getAt path (.table d') = some v := by
  induction path generalizing d d' with
  | nil => cases h
  | cons key path ih =>
    rw [getAt_cons]
    rcases insertNew_cons h with ⟨rfl, hnone, rfl⟩ | ⟨hnone, t, ht, rfl⟩ | ⟨t, t', -, ht, rfl⟩
    · rw [Dict.get?_append, hnone, Option.none_or, Dict.get?_cons, if_pos rfl]
      rfl
    · rw [Dict.get?_append, hnone, Option.none_or, Dict.get?_cons, if_pos rfl]
      exact ih ht
    · rw [Dict.get?_set_self]
      exact ih ht

/-- A string stays where it was defined. -/
theorem getAt_of_insertNew {path at' : List Str} {v : Toml} {w : Str} {d d' : Dict Toml}
    (h : insertNew path v d = some d') (hw : getAt at' (.table d) = some (.string w)) :
    getAt at' (.table d') = some (.string w) := by
  induction path generalizing d d' at' with
  | nil => cases h
  | cons key path ih =>
    cases at' with
    | nil => cases hw
    | cons key' at' =>
      rw [getAt_cons] at hw ⊢
      obtain ⟨u, hu, hw⟩ := Option.bind_eq_some_iff.1 hw
      rcases insertNew_cons h with ⟨rfl, -, rfl⟩ | ⟨-, t, ht, rfl⟩ | ⟨t, t', hget, ht, rfl⟩
      · rw [Dict.get?_append, hu]
        exact hw
      · rw [Dict.get?_append, hu]
        exact hw
      · rw [Dict.get?_set]
        split_ifs with hkey
        · rw [← hkey, hget] at hu
          cases hu
          exact ih ht hw
        · rw [hu]
          exact hw

/-- No key is there twice, in the table and those in it. -/
inductive Distinct : Dict Toml → Prop
  | intro {d : Dict Toml} : (d.map Prod.fst).Nodup →
      (∀ key t, Dict.get? d key = some (.table t) → Distinct t) → Distinct d

theorem Distinct.nodup {d : Dict Toml} (h : Distinct d) : (d.map Prod.fst).Nodup := by
  cases h with
  | intro hnodup _ => exact hnodup

theorem Distinct.table {d t : Dict Toml} {key : Str} (h : Distinct d)
    (hget : Dict.get? d key = some (.table t)) : Distinct t := by
  cases h with
  | intro _ htables => exact htables key t hget

theorem Distinct.nil : Distinct [] := .intro List.nodup_nil nofun

theorem Distinct.append {d : Dict Toml} {key : Str} {v : Toml} (h : Distinct d)
    (hnone : Dict.get? d key = none) (hv : ∀ t, v = .table t → Distinct t) :
    Distinct (d ++ [(key, v)]) := by
  constructor
  · rw [List.map_append, List.nodup_append]
    refine ⟨h.nodup, List.pairwise_singleton .., ?_⟩
    rintro x hx y hy rfl
    obtain rfl : x = key := List.mem_singleton.1 hy
    exact (Dict.get?_eq_none _ _).1 hnone hx
  · intro key' t ht
    rw [Dict.get?_append] at ht
    cases hd : Dict.get? d key' with
    | some u =>
      rw [hd] at ht
      exact h.table (hd.trans ht)
    | none =>
      rw [hd, Option.none_or, Dict.get?_cons] at ht
      split_ifs at ht
      · exact hv t (Option.some.inj ht)
      · cases ht

theorem map_fst_set {d : Dict Toml} {key : Str} {v : Toml} (h : Dict.get? d key ≠ none) :
    (Dict.set d key v).map Prod.fst = d.map Prod.fst := by
  induction d with
  | nil => exact absurd rfl h
  | cons item d ih =>
    rw [Dict.get?_cons] at h
    unfold Dict.set
    split_ifs at h ⊢ with hk
    · rw [List.map_cons, List.map_cons]
    · rw [List.map_cons, List.map_cons, ih h]

theorem Distinct.set {d t : Dict Toml} {key : Str} (h : Distinct d)
    (hget : Dict.get? d key ≠ none) (ht : Distinct t) : Distinct (Dict.set d key (.table t)) := by
  constructor
  · rw [map_fst_set hget]
    exact h.nodup
  · intro key' u hu
    rw [Dict.get?_set] at hu
    split_ifs at hu
    · cases hu
      exact ht
    · exact h.table hu

theorem Distinct.insertNew {path : List Str} {v : Toml} {d d' : Dict Toml} (h : Distinct d)
    (hv : ∀ t, v = .table t → Distinct t) (hd : insertNew path v d = some d') : Distinct d' := by
  induction path generalizing d d' with
  | nil => cases hd
  | cons key path ih =>
    rcases insertNew_cons hd with ⟨rfl, hnone, rfl⟩ | ⟨hnone, t, ht, rfl⟩ | ⟨t, t', hget, ht, rfl⟩
    · exact h.append hnone hv
    · refine h.append hnone fun u hu => ?_
      cases hu
      exact ih .nil ht
    · exact h.set (by rw [hget]; exact nofun) (ih (h.table hget) ht)

/-! ## The reader -/

/-- A line that is read defines at most one value, where there was none. -/
theorem readLine_effect {doc doc' : Document} {s : Str} (h : doc.readLine s = some doc') :
    doc'.items = doc.items ∨ ∃ path v, (∀ t, v = .table t → t = []) ∧
      insertNew path v doc.items = some doc'.items := by
  unfold Document.readLine at h
  split at h
  · next line _ =>
    unfold Document.line at h
    cases line with
    | blank =>
      cases h
      exact .inl rfl
    | comment text =>
      dsimp only at h
      split_ifs at h
      cases h
      exact .inl rfl
    | header path =>
      dsimp only at h
      split_ifs at h
      obtain ⟨items, hitems, rfl⟩ := Option.map_eq_some_iff.1 h
      exact .inr ⟨path, _, fun t ht => (Toml.table.inj ht).symm, hitems⟩
    | pair key value =>
      dsimp only at h
      split_ifs at h
      obtain ⟨items, hitems, rfl⟩ := Option.map_eq_some_iff.1 h
      exact .inr ⟨_, _, fun t ht => Toml.noConfusion ht, hitems⟩
  · obtain ⟨pair, -, h⟩ := Option.bind_eq_some_iff.1 h
    obtain ⟨items, hitems, rfl⟩ := Option.map_eq_some_iff.1 h
    exact .inr ⟨_, _, fun t ht => Toml.noConfusion ht, hitems⟩

/-- What every line keeps, all of them keep. -/
theorem foldlM_readLine {I : Dict Toml → Prop}
    (hI : ∀ path v d d', (∀ t, v = .table t → t = []) → insertNew path v d = some d' → I d → I d')
    {lines : List Str} {doc doc' : Document} (h : lines.foldlM Document.readLine doc = some doc')
    (hdoc : I doc.items) : I doc'.items := by
  induction lines generalizing doc with
  | nil =>
    cases h
    exact hdoc
  | cons line lines ih =>
    rw [List.foldlM_cons] at h
    obtain ⟨doc₁, hline, h⟩ := Option.bind_eq_some_iff.1 h
    refine ih h ?_
    rcases readLine_effect hline with heq | ⟨path, v, hv, hinsert⟩
    · rw [heq]
      exact hdoc
    · exact hI path v _ _ hv hinsert hdoc

/-- `readToml`, with an error for what it refuses. -/
def loadsToml {ε : Type} (e : ε) (s : Str) : Except ε (Dict Toml) :=
  (readToml s).elim (.error e) .ok

theorem loadsToml_ok {ε : Type} {e : ε} {s : Str} {d : Dict Toml} (h : loadsToml e s = .ok d) :
    ∃ lines doc, linesOf s = some lines ∧
      lines.foldlM Document.readLine ⟨[], []⟩ = some doc ∧ doc.items = d := by
  unfold loadsToml at h
  cases hread : readToml s with
  | none =>
    rw [hread] at h
    cases h
  | some items =>
    rw [hread] at h
    cases h
    obtain ⟨lines, hlines, hmap⟩ := Option.bind_eq_some_iff.1 hread
    obtain ⟨doc, hdoc, hitems⟩ := Option.map_eq_some_iff.1 hmap
    exact ⟨lines, doc, hlines, hdoc, hitems⟩

/-- A line that begins with a key and a quotation mark. -/
theorem readLine_pair {doc doc' : Document} {key s : Str} (hkey : isBareKey key = true)
    (h : doc.readLine (key ++ str " = \"" ++ s) = some doc') :
    ∃ v, s = v ++ [quote] ∧ Plain v ∧
      insertNew (doc.path ++ [key]) (.string v) doc.items = some doc'.items := by
  have htext : key ++ str " = \"" ++ s = key ++ 0x20 :: (str "= \"" ++ s) := by
    rw [List.append_assoc]
    rfl
  have htake : (key ++ str " = \"" ++ s).takeWhile isBareChar = key := by
    rw [htext]
    exact takeWhile_bare hkey (by decide)
  have hliteral : literal? (key ++ str " = \"" ++ s) = none := by
    unfold literal?
    rw [htake]
    refine if_neg fun hlit => ?_
    have hlit := hlit.1
    simp only [List.append_assoc, List.append_cancel_left_eq] at hlit
    exact absurd (List.cons.inj (List.cons.inj (List.cons.inj (List.cons.inj hlit).2).2).2).1
      (by decide)
  unfold Document.readLine at h
  split at h
  · next line hparse =>
    unfold parseLine at hparse
    split_ifs at hparse with hguess
    rw [htext, guessLine_pair hkey (by decide)] at hguess hparse
    cases hparse
    unfold Document.line at h
    dsimp only at h
    split_ifs at h with hpair
    obtain ⟨items, hitems, rfl⟩ := Option.map_eq_some_iff.1 h
    refine ⟨_, ?_, hpair.2, hitems⟩
    rw [Line.text, ← htext] at hguess
    simp only [List.append_assoc, List.append_cancel_left_eq] at hguess
    exact hguess.symm
  · rw [hliteral] at h
    cases h

/-- **The reader follows TOML.** -/
theorem readToml_toml10 {ε : Type} (e : ε) : Toml10 (loadsToml e) where
  lines {lines doc} h := by
    obtain ⟨hlines, hread⟩ := linesOf_linesText h []
    have hnil : readToml (linesText lines) = some doc.items := by
      rw [List.append_nil] at hlines
      unfold readToml
      rw [hlines]
      show ((lines.map Line.text ++ []).foldlM Document.readLine ⟨[], []⟩).map _ = _
      rw [hread]
      rfl
    unfold loadsToml
    rw [hnil]
    rfl
  token {lines doc key text d} h hkey hd := by
    obtain ⟨ls, doc', hls, hfold, rfl⟩ := loadsToml_ok hd
    obtain ⟨hlines, hread⟩ := linesOf_linesText h (key ++ str " = \"" ++ text)
    rw [List.append_assoc, List.append_assoc, ← List.append_assoc key, hlines] at hls
    obtain ⟨rest, hrest, rfl⟩ := Option.map_eq_some_iff.1 hls
    rw [hread] at hfold
    cases rest with
    | nil =>
      have hnil := linesOf_eq_nil hrest
      simp only [List.append_eq_nil_iff] at hnil
      exact absurd hnil.1.2 (by decide)
    | cons line rest =>
      -- The line goes on after the mark, and ends in the text.
      obtain ⟨hnot, after, hsplit, -⟩ := linesOf_eq_cons hrest
      obtain ⟨s, hline, htext⟩ : ∃ s, line = key ++ str " = \"" ++ s ∧
          text = s ++ newline :: after := by
        rcases List.append_eq_append_iff.1 hsplit with ⟨s, hs, ht⟩ | ⟨s, hs, ht⟩
        · exact ⟨s, hs, ht⟩
        · cases s with
          | nil => exact ⟨[], by rw [hs]; simp, by simpa using ht.symm⟩
          | cons c s =>
            obtain ⟨rfl, -⟩ := List.cons.inj ht
            have hmem : newline ∈ key ++ str " = \"" :=
              hs ▸ List.mem_append_right _ List.mem_cons_self
            rcases List.mem_append.1 hmem with hmem | hmem
            · exact absurd hmem (newline_notMem_of_bare hkey)
            · exact absurd hmem (by decide)
      rw [List.foldlM_cons] at hfold
      obtain ⟨doc₁, hfirst, hfold⟩ := Option.bind_eq_some_iff.1 hfold
      rw [hline] at hfirst
      obtain ⟨v, rfl, hplain, hinsert⟩ := readLine_pair hkey hfirst
      refine ⟨v, ?_, foldlM_readLine (fun path w d d' _ hw hd => getAt_of_insertNew hw hd) hfold
        (getAt_insertNew hinsert)⟩
      have hquote : text = v ++ quote :: newline :: after := by
        rw [htext, List.append_assoc]
        rfl
      rw [hquote]
      refine .basic (fun hp => ?_) (hplain.basic _)
      cases v with
      | nil => exact absurd (List.cons_prefix_cons.1 (List.cons_prefix_cons.1 hp).2).1 (by decide)
      | cons c v =>
        exact (hplain c List.mem_cons_self).ne_quote (List.cons_prefix_cons.1 hp).1.symm
  distinct {text d t key} h hget := by
    obtain ⟨lines, doc, -, hfold, rfl⟩ := loadsToml_ok h
    have hdistinct : Distinct doc.items := by
      refine foldlM_readLine (fun path v d d' hv hinsert hd => ?_) hfold .nil
      refine hd.insertNew (fun t ht => ?_) hinsert
      rw [hv t ht]
      exact .nil
    exact (hdistinct.table hget).nodup

end Toml

end AgentLab.Python
