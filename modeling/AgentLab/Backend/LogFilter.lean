import AgentLab.Lib.Search
import AgentLab.Python.Value

/-!
# Request bodies in the backend log

`_NoBodies` on the two messages in which mlx-lm has the body of a request that it rejects. The
markers are looked for one after the other, the first one in the whole message, so that a body after
the second marker is cut at the first one if that is in the body (`filter_invalidBody`):
`body_hidden_iff`.
-/

namespace AgentLab.Backend

open Python Lib

/-- A `LogRecord`, with no arguments or with those for its message. -/
structure LogRecord (Args : Type) where
  msg : Str
  args : Option Args

section

variable {Args : Type} (format : Str → Args → Str)

/-- `getMessage`, with `msg % args` as `format`. -/
def LogRecord.getMessage (record : LogRecord Args) : Str :=
  match record.args with
  | none => record.msg
  | some args => format record.msg args

def RAW_BODY : Str := str "Raw body:"

def INVALID_BODY : Str := str "Invalid Request Body:"

def MARKERS : List Str := [RAW_BODY, INVALID_BODY]

def OMITTED : Str := str " [request body omitted]"

/-- `_NoBodies.filter`, which lets every record through; the record is changed. -/
def filter (record : LogRecord Args) : LogRecord Args :=
  let message := record.getMessage format
  match MARKERS.findSome? fun marker =>
    (before? marker message).map fun before => before ++ marker ++ OMITTED with
  | some text => ⟨text, none⟩
  | none => record

/-- What is logged of a record. -/
def logged (record : LogRecord Args) : Str := (filter format record).getMessage format

end

/-! ## The messages -/

/-- The two forms of mlx-lm's messages. -/
inductive Form
  | rawBody
  | invalidBody
  deriving DecidableEq

def Form.marker : Form → Str
  | .rawBody => RAW_BODY
  | .invalidBody => INVALID_BODY

def Form.message (form : Form) (before body : Str) : Str :=
  before ++ (form.marker ++ (str " " ++ body))

/-- A text in which no marker occurs. -/
def NoMarker (text : Str) : Prop := ∀ marker ∈ MARKERS, ¬ marker <:+: text

variable {Args : Type} {format : Str → Args → Str} {record record' : LogRecord Args}
  {before body body' : Str}

theorem logged_eq {text : Str} (h : record.getMessage format = text) : logged format record =
    match before? RAW_BODY text, before? INVALID_BODY text with
    | some before, _ => before ++ RAW_BODY ++ OMITTED
    | none, some before => before ++ INVALID_BODY ++ OMITTED
    | none, none => text := by
  unfold logged filter
  rw [h]
  cases hraw : before? RAW_BODY text with
  | some before => simp [MARKERS, hraw, LogRecord.getMessage]
  | none =>
    cases hinvalid : before? INVALID_BODY text with
    | some before => simp [MARKERS, hraw, hinvalid, LogRecord.getMessage]
    | none => simpa [MARKERS, hraw, hinvalid] using h

/-- The marker of a message is found where it stands. -/
theorem before?_marker {form : Form} (h : NoMarker before) (body : Str) :
    before? form.marker (form.message before body) = some before := by
  have hmem : form.marker ∈ MARKERS := by cases form <;> decide
  have hover : NoOverlap form.marker form.marker := by cases form <;> decide
  have hnext : form.marker <+: form.marker ++ (str " " ++ body) := List.prefix_append _ _
  unfold Form.message
  rw [before?_append_of_overlap (h _ hmem) hover hnext, before?_front hnext]
  simp

/-- The first marker is found in the body. -/
theorem before?_rawBody (h : NoMarker before) (body : Str) :
    before? RAW_BODY (Form.invalidBody.message before body) =
      (before? RAW_BODY body).map fun front => before ++ (INVALID_BODY ++ (str " " ++ front)) := by
  have hover : NoOverlap RAW_BODY INVALID_BODY := by decide
  have hclear : Clear RAW_BODY (INVALID_BODY ++ str " ") := by decide
  have hfront : ¬ RAW_BODY <:+: before := h _ List.mem_cons_self
  unfold Form.message Form.marker
  rw [before?_append_of_overlap hfront hover (List.prefix_append _ _), ← List.append_assoc,
    before?_append_of_clear hclear, Option.map_map]
  congr 1

theorem logged_rawBody (h : NoMarker before)
    (hrecord : record.getMessage format = Form.rawBody.message before body) :
    logged format record = before ++ RAW_BODY ++ OMITTED := by
  have hfound : before? RAW_BODY (Form.rawBody.message before body) = some before :=
    @before?_marker _ .rawBody h body
  rw [logged_eq hrecord, hfound]

theorem logged_invalidBody (h : NoMarker before)
    (hrecord : record.getMessage format = Form.invalidBody.message before body) :
    logged format record =
      match before? RAW_BODY body with
      | some front => before ++ (INVALID_BODY ++ (str " " ++ front)) ++ RAW_BODY ++ OMITTED
      | none => before ++ INVALID_BODY ++ OMITTED := by
  have hfound : before? INVALID_BODY (Form.invalidBody.message before body) = some before :=
    @before?_marker _ .invalidBody h body
  rw [logged_eq hrecord, before?_rawBody h, hfound]
  cases before? RAW_BODY body <;> rfl

/-- **Which bodies stay out of the log.** What is logged of two messages that differ in the body is
the same exactly if, where the body comes after the second marker, the first marker is in neither of
the bodies or comes after the same text in both. -/
theorem body_hidden_iff {form : Form} (h : NoMarker before)
    (hrecord : record.getMessage format = form.message before body)
    (hrecord' : record'.getMessage format = form.message before body') :
    logged format record = logged format record' ↔
      (form = .invalidBody → before? RAW_BODY body = before? RAW_BODY body') := by
  cases form with
  | rawBody =>
    rw [logged_rawBody h hrecord, logged_rawBody h hrecord']
    exact iff_of_true rfl nofun
  | invalidBody =>
    rw [logged_invalidBody h hrecord, logged_invalidBody h hrecord']
    have hlonger : ∀ front : Str,
        before ++ (INVALID_BODY ++ (str " " ++ front)) ++ RAW_BODY ++ OMITTED ≠
        before ++ INVALID_BODY ++ OMITTED := by
      intro front heq
      have := congrArg List.length heq
      simp only [List.length_append] at this
      have hraw : 0 < RAW_BODY.length := by decide
      omega
    cases hfound : before? RAW_BODY body with
    | none =>
      cases hfound' : before? RAW_BODY body' with
      | none => exact iff_of_true rfl fun _ => rfl
      | some front => exact iff_of_false (hlonger front).symm fun h => nomatch h rfl
    | some front =>
      cases hfound' : before? RAW_BODY body' with
      | none => exact iff_of_false (hlonger front) fun h => nomatch h rfl
      | some front' => simp

/-- What comes before the first marker in a body is logged. -/
theorem body_logged : ¬ ∀ (form : Form) (before body body' : Str), NoMarker before →
    ∀ record record' : LogRecord Unit,
      record.getMessage (fun msg _ => msg) = form.message before body →
      record'.getMessage (fun msg _ => msg) = form.message before body' →
        logged (fun msg _ => msg) record = logged (fun msg _ => msg) record' := by
  intro h
  have hbody := h .invalidBody [] (str "[\"secret Raw body:\"]") (str "[]")
    (by unfold NoMarker; decide) ⟨_, none⟩ ⟨_, none⟩ rfl rfl
  exact absurd hbody (by decide)

theorem body_hidden_iff_form : logged (fun msg (_ : Unit) => msg)
      ⟨Form.invalidBody.message [] (str "[1]"), none⟩ =
    logged (fun msg (_ : Unit) => msg) ⟨Form.invalidBody.message [] (str "[2]"), none⟩ := by
  have hmarker : NoMarker [] := by
    unfold NoMarker
    decide
  exact (@body_hidden_iff Unit (fun msg _ => msg) ⟨_, none⟩ ⟨_, none⟩ [] (str "[1]") (str "[2]")
    .invalidBody hmarker rfl rfl).2 fun _ => by decide

end AgentLab.Backend
