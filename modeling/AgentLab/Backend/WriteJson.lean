import AgentLab.Backend.StateFile
import AgentLab.Lib.Keyed
import AgentLab.Lib.Runs
import AgentLab.Python.JsonRoundTrip

/-!
# Records that many write

`write_json` and `read_record`: several threads and processes write one record, each through a
temporary file of its own, and any of them can fail or be killed at any operation, while others read
the record or remove it.

To its readers the file is one register: `read_record` gives the last record that was written, with
all of its fields, if it is of the process that is asked for, and never a part of one, nor an error
(`record_register`).
-/

namespace AgentLab.Backend.StateFile

open Python Keyed Runs

/-! ## Reading -/

/-- `data.get("pid") == pid`. -/
def pidEq (pid : ℤ) : Json → Bool
  | .int n => n = pid
  | .bool b => (if b then 1 else 0) = pid
  | .float (.finite q) => q = pid
  | _ => false

/-- `read_record`. -/
def readRecord (room : ℕ) (file : Option (List UInt8)) (pid : ℤ) :
    Except PyExc (Option (Dict Json)) :=
  match readData room file with
  | .error x => if isCaught x then .ok none else .error x
  | .ok (.obj data) => .ok (if pidEq pid (getD data "pid") then some data else none)
  | .ok _ => .ok none

/-! ## Writing -/

/-- What `write_json` writes. -/
def fileOf (info : Dict Json) : Except PyExc (List UInt8) := do
  return encode ((← dumps (.obj info)) ++ str "\n")

/-- A call of `write_json`; temporary files go by their numbers. -/
inductive Writer
  | todo (info : Dict Json)
  /-- `mkstemp` has made the file. -/
  | opened (info : Dict Json) (tmp : ℕ)
  | written (info : Dict Json) (tmp : ℕ)
  /-- In the `except` clause. -/
  | failing (tmp : ℕ)
  | returned
  | raised
  | killed

/-- The temporary file of a call. -/
def Writer.tmp? : Writer → Option ℕ
  | .opened _ tmp | .written _ tmp | .failing tmp => some tmp
  | .todo _ | .returned | .raised | .killed => none

/-- The record that a call writes. -/
def Writer.info? : Writer → Option (Dict Json)
  | .todo info | .opened info _ | .written info _ => some info
  | .failing _ | .returned | .raised | .killed => none

/-- What the environment does in a step of a call. -/
structure Outcome where
  raises : Bool
  /-- The name that `mkstemp` finds. -/
  tmp : ℕ
  /-- How much is written where the writing ends early. -/
  left : ℕ

/-- The directory of the record, and the calls. -/
structure Shared where
  target : Option (List UInt8)
  temps : ℕ → Option (List UInt8)
  writers : List Writer
  /-- The record of the call that returned last, if the file was not removed since. -/
  shown : Option (Dict Json)
  /-- The temporary files that a killed call has left, or one that could not remove its own. -/
  stray : List ℕ

namespace Shared

def put (s : Shared) (tmp : ℕ) (content : Option (List UInt8)) : Shared :=
  { s with temps := Function.update s.temps tmp content }

/-- One operation of a call. -/
def write (s : Shared) (x : Outcome) : Writer → Option (Shared × Writer)
  | .todo info =>
    if x.raises then some (s, .raised)
    else if (s.temps x.tmp).isSome then none
    else some (s.put x.tmp (some []), .opened info x.tmp)
  | .opened info tmp =>
    match fileOf info with
    | .error _ => some (s, .failing tmp)
    | .ok bytes =>
      if x.raises then some (s.put tmp (some (bytes.take x.left)), .failing tmp)
      else some (s.put tmp (some bytes), .written info tmp)
  | .written _ tmp =>
    match s.temps tmp with
    | none => some (s, .failing tmp)
    | some bytes =>
      if x.raises then some (s, .failing tmp)
      else some ({ s.put tmp none with target := some bytes }, .returned)
  | .failing tmp =>
    if x.raises then some ({ s with stray := tmp :: s.stray }, .raised)
    else some (s.put tmp none, .raised)
  | .returned | .raised | .killed => none

/-- A call is killed. -/
def kill (s : Shared) (left : ℕ) : Writer → Shared
  | .opened info tmp =>
    match fileOf info with
    | .error _ => { s with stray := tmp :: s.stray }
    | .ok bytes => { s.put tmp (some (bytes.take left)) with stray := tmp :: s.stray }
  | .written _ tmp | .failing tmp => { s with stray := tmp :: s.stray }
  | .todo _ | .returned | .raised | .killed => s

/-- A call that returns shows its record. -/
def shownAfter (s : Shared) (w w' : Writer) : Option (Dict Json) :=
  match w' with
  | .returned => w.info?
  | .todo _ | .opened _ _ | .written _ _ | .failing _ | .raised | .killed => s.shown

inductive Action
  | call (info : Dict Json)
  | go (i : ℕ) (x : Outcome)
  | kill (i : ℕ) (left : ℕ)
  /-- `unlink(missing_ok=True)` of the record. -/
  | remove

def step (s : Shared) : Action → Option Shared
  | .call info => some { s with writers := s.writers ++ [.todo info] }
  | .go i x =>
    match s.writers[i]? with
    | none => none
    | some w => (s.write x w).map fun r =>
      { r.1 with writers := s.writers.set i r.2, shown := s.shownAfter w r.2 }
  | .kill i left =>
    match s.writers[i]? with
    | none => none
    | some w => some { s.kill left w with writers := s.writers.set i .killed, shown := s.shown }
  | .remove => some { s with target := none, shown := none }

def empty : Shared := ⟨none, fun _ => none, [], none, []⟩

/-- A record that is read back: an object of plain strings and floats, for which there is room. -/
structure Readable (room : ℕ) (info : Dict Json) : Prop where
  plain : Plain (.obj info)
  floats : HasFloats (.obj info)
  room : depth (.obj info) ≤ room + 1

/-- Only such records are written. -/
def Proper (room : ℕ) (_ : Shared) : Action → Prop
  | .call info => Readable room info
  | .go _ _ | .kill _ _ | .remove => True

/-! ## The invariant -/

/-- The file holds the record that is shown. -/
def Register (room : ℕ) (s : Shared) : Prop :=
  s.shown = none ∧ s.target = none ∨ ∃ info bytes, s.shown = some info ∧ Readable room info ∧
    fileOf info = .ok bytes ∧ s.target = some bytes

structure Inv (room : ℕ) (s : Shared) : Prop where
  register : s.Register room
  readable : ∀ (i : ℕ) (w : Writer) info, s.writers[i]? = some w → w.info? = some info →
    Readable room info
  /-- No two calls share a temporary file. -/
  distinct : Distinct Writer.tmp? s.writers
  there : ∀ i tmp, keyAt Writer.tmp? s.writers i = some tmp → s.temps tmp ≠ none
  whole : ∀ (i : ℕ) info tmp, s.writers[i]? = some (Writer.written info tmp) →
    ∃ bytes, fileOf info = .ok bytes ∧ s.temps tmp = some bytes
  owned : ∀ tmp, s.temps tmp ≠ none → tmp ∈ s.stray ∨ ∃ i, keyAt Writer.tmp? s.writers i = some tmp

/-- What a step of a call does. -/
structure Did (s : Shared) (w : Writer) (s' : Shared) (w' : Writer) : Prop where
  temps : ∀ n, w.tmp? ≠ some n → w'.tmp? ≠ some n → s'.temps n = s.temps n
  tmp : w'.tmp? = w.tmp? ∨ ∀ n, w'.tmp? = some n → s.temps n = none
  there : ∀ n, w'.tmp? = some n → s'.temps n ≠ none
  whole : ∀ info n, w' = .written info n →
    ∃ bytes, fileOf info = .ok bytes ∧ s'.temps n = some bytes
  gone : ∀ n, w.tmp? = some n → w'.tmp? = some n ∨ s'.temps n = none ∨ n ∈ s'.stray
  stray : s.stray ⊆ s'.stray
  info : ∀ info, w'.info? = some info → w.info? = some info
  register : w' ≠ .returned ∧ s'.target = s.target ∨ w' = .returned ∧ ∃ info bytes,
    w.info? = some info ∧ fileOf info = .ok bytes ∧ s'.target = some bytes

variable {room : ℕ} {s s' : Shared} {w w' : Writer} {x : Outcome} {i : ℕ}

@[simp] theorem put_temps (s : Shared) (tmp : ℕ) (content : Option (List UInt8)) (n : ℕ) :
    (s.put tmp content).temps n = if n = tmp then content else s.temps n := Function.update_apply ..

theorem shownAfter_of_ne (hw' : w' ≠ .returned) : s.shownAfter w w' = s.shown := by
  cases w' with
  | returned => exact absurd rfl hw'
  | todo _ | opened _ _ | written _ _ | failing _ | raised | killed => rfl

/-- A step that leaves the directory as it is. -/
theorem Did.same (htmp : w'.tmp? = w.tmp?) (hthere : ∀ n, w.tmp? = some n → s.temps n ≠ none)
    (hwhole : ∀ info n, w' ≠ .written info n)
    (hinfo : ∀ info, w'.info? = some info → w.info? = some info)
    (hreturned : w' ≠ .returned) : Did s w s w' where
  temps _ _ _ := rfl
  tmp := .inl htmp
  there _ hn := hthere _ (htmp ▸ hn)
  whole info n hw' := absurd hw' (hwhole info n)
  gone _ hn := .inl (htmp.trans hn)
  stray := List.Subset.refl _
  info := hinfo
  register := .inl ⟨hreturned, rfl⟩

/-- A call that leaves its file behind. -/
theorem Did.stray_cons {tmp : ℕ} (hw : w.tmp? = some tmp) (htmp : w'.tmp? = none)
    (hinfo : w'.info? = none)
    (hreturned : w' ≠ .returned) : Did s w { s with stray := tmp :: s.stray } w' where
  temps _ _ _ := rfl
  tmp := .inr fun n hn => by rw [htmp] at hn; cases hn
  there n hn := by rw [htmp] at hn; cases hn
  whole info n hw' := by rw [hw'] at htmp; cases htmp
  gone n hn := by
    obtain rfl := Option.some.inj (hw.symm.trans hn)
    exact .inr (.inr List.mem_cons_self)
  stray := List.subset_cons_self _ _
  info info hn := by rw [hinfo] at hn; cases hn
  register := .inl ⟨hreturned, rfl⟩

/-- A step that writes the file of the call. -/
theorem Did.put {tmp : ℕ} {content : List UInt8} (hw' : w'.tmp? = some tmp)
    (hw : w.tmp? = some tmp ∨ w.tmp? = none ∧ s.temps tmp = none)
    (hwhole : ∀ info n, w' = .written info n → fileOf info = .ok content)
    (hinfo : ∀ info, w'.info? = some info → w.info? = some info) (hreturned : w' ≠ .returned) :
    Did s w (s.put tmp (some content)) w' where
  temps n _ hn := by
    rw [put_temps, if_neg fun heq : n = tmp => hn (heq ▸ hw')]
  tmp := by
    rcases hw with hw | ⟨-, hnone⟩
    · exact .inl (hw'.trans hw.symm)
    · refine .inr fun n hn => ?_
      obtain rfl := Option.some.inj (hw'.symm.trans hn)
      exact hnone
  there n hn := by
    obtain rfl := Option.some.inj (hw'.symm.trans hn)
    rw [put_temps, if_pos rfl]
    exact Option.some_ne_none content
  whole info n hn := by
    have htmp : some n = some tmp := by rw [← hw', hn]; rfl
    obtain rfl := Option.some.inj htmp
    exact ⟨content, hwhole info n hn, by rw [put_temps, if_pos rfl]⟩
  gone n hn := by
    rcases hw with hw | ⟨hnone, -⟩
    · exact .inl (hw'.trans (hw.symm.trans hn))
    · rw [hnone] at hn
      cases hn
  stray := List.Subset.refl _
  info := hinfo
  register := .inl ⟨hreturned, rfl⟩

theorem Did.put_stray {tmp : ℕ} {content : List UInt8} (hw : w.tmp? = some tmp)
    (htmp : w'.tmp? = none) (hinfo : w'.info? = none) (hreturned : w' ≠ .returned) :
    Did s w { s.put tmp (some content) with stray := tmp :: s.stray } w' where
  temps n hn _ := by
    show (s.put tmp (some content)).temps n = s.temps n
    rw [put_temps, if_neg fun heq : n = tmp => hn (heq ▸ hw)]
  tmp := .inr fun n hn => by rw [htmp] at hn; cases hn
  there n hn := by rw [htmp] at hn; cases hn
  whole info n hw' := by rw [hw'] at htmp; cases htmp
  gone n hn := by
    obtain rfl := Option.some.inj (hw.symm.trans hn)
    exact .inr (.inr List.mem_cons_self)
  stray := List.subset_cons_self _ _
  info info hn := by rw [hinfo] at hn; cases hn
  register := .inl ⟨hreturned, rfl⟩

/-- A step after which the file of the call is gone. -/
theorem Did.gone_put {tmp : ℕ} (hw : w.tmp? = some tmp) (hw' : w'.tmp? = none)
    (hinfo : w'.info? = none)
    (htarget : s'.temps = (s.put tmp none).temps) (hstray : s'.stray = s.stray)
    (hregister : w' ≠ .returned ∧ s'.target = s.target ∨ w' = .returned ∧ ∃ info bytes,
      w.info? = some info ∧ fileOf info = .ok bytes ∧ s'.target = some bytes) : Did s w s' w' where
  temps n hn _ := by
    rw [htarget, put_temps, if_neg fun heq : n = tmp => hn (heq ▸ hw)]
  tmp := .inr fun n hn => by rw [hw'] at hn; cases hn
  there n hn := by rw [hw'] at hn; cases hn
  whole info n hn := by rw [hn] at hw'; cases hw'
  gone n hn := by
    obtain rfl := Option.some.inj (hw.symm.trans hn)
    exact .inr (.inl (by rw [htarget, put_temps, if_pos rfl]))
  stray := by rw [hstray]; exact List.Subset.refl _
  info info hn := by rw [hinfo] at hn; cases hn
  register := hregister

/-- **One operation of a call.** -/
theorem Inv.write (h : s.Inv room) (hw : s.writers[i]? = some w)
    (hstep : s.write x w = some (s', w')) : Did s w s' w' := by
  have hthere : ∀ n, w.tmp? = some n → s.temps n ≠ none := fun n hn =>
    h.there i n ((keyAt_eq hw).trans hn)
  cases w with
  | todo info =>
    unfold Shared.write at hstep
    split_ifs at hstep with hraises hsome
    · cases hstep
      exact .same rfl hthere (by rintro _ _ ⟨⟩) (by rintro _ ⟨⟩) (by rintro ⟨⟩)
    · cases hstep
      exact .put rfl (.inr ⟨rfl, Option.not_isSome_iff_eq_none.1 hsome⟩) (by rintro _ _ ⟨⟩)
        (fun _ h => h) (by rintro ⟨⟩)
  | opened info tmp =>
    unfold Shared.write at hstep
    dsimp only at hstep
    cases hfile : fileOf info with
    | error e =>
      rw [hfile] at hstep
      cases hstep
      exact .same rfl hthere (by rintro _ _ ⟨⟩) (by rintro _ ⟨⟩) (by rintro ⟨⟩)
    | ok bytes =>
      rw [hfile] at hstep
      dsimp only at hstep
      split_ifs at hstep with hraises
      · cases hstep
        exact .put rfl (.inl rfl) (by rintro _ _ ⟨⟩) (by rintro _ ⟨⟩) (by rintro ⟨⟩)
      · cases hstep
        refine .put rfl (.inl rfl) ?_ (fun _ h => h) (by rintro ⟨⟩)
        rintro _ _ ⟨⟩
        exact hfile
  | written info tmp =>
    unfold Shared.write at hstep
    obtain ⟨bytes, hfile, hbytes⟩ := h.whole i info tmp hw
    dsimp only at hstep
    rw [hbytes] at hstep
    dsimp only at hstep
    split_ifs at hstep with hraises
    · cases hstep
      exact .same rfl hthere (by rintro _ _ ⟨⟩) (by rintro _ ⟨⟩) (by rintro ⟨⟩)
    · cases hstep
      exact Did.gone_put rfl rfl rfl rfl rfl (.inr ⟨rfl, info, bytes, rfl, hfile, rfl⟩)
  | failing tmp =>
    unfold Shared.write at hstep
    dsimp only at hstep
    split_ifs at hstep with hraises
    · cases hstep
      exact .stray_cons rfl rfl rfl (by rintro ⟨⟩)
    · cases hstep
      exact Did.gone_put rfl rfl rfl rfl rfl (.inl ⟨by rintro ⟨⟩, rfl⟩)
  | returned | raised | killed => cases hstep

/-- **A call is killed.** -/
theorem Did.killed (s : Shared) (w : Writer) (left : ℕ) : Did s w (s.kill left w) .killed := by
  cases w with
  | opened info tmp =>
    unfold Shared.kill
    dsimp only
    cases hfile : fileOf info with
    | error e => exact .stray_cons rfl rfl rfl (by rintro ⟨⟩)
    | ok bytes => exact .put_stray rfl rfl rfl (by rintro ⟨⟩)
  | written info tmp => exact .stray_cons rfl rfl rfl (by rintro ⟨⟩)
  | failing tmp => exact .stray_cons rfl rfl rfl (by rintro ⟨⟩)
  | todo _ | returned | raised | killed =>
    exact .same rfl (by rintro _ ⟨⟩) (by rintro _ _ ⟨⟩) (by rintro _ ⟨⟩) (by rintro ⟨⟩)

theorem Inv.did (h : s.Inv room) (hw : s.writers[i]? = some w) (hdid : Did s w s' w') :
    Inv room { s' with writers := s.writers.set i w', shown := s.shownAfter w w' } := by
  have hown : keyAt Writer.tmp? s.writers i = w.tmp? := keyAt_eq hw
  have hkeys : ∀ j, keyAt Writer.tmp? (s.writers.set i w') j =
      if j = i then w'.tmp? else keyAt Writer.tmp? s.writers j := keyAt_set hw w'
  have hlt : i < s.writers.length := (List.getElem?_eq_some_iff.1 hw).1
  have hentries : ∀ j v, (s.writers.set i w')[j]? = some v →
      j = i ∧ v = w' ∨ j ≠ i ∧ s.writers[j]? = some v := by
    intro j v hv
    rw [List.getElem?_set] at hv
    split_ifs at hv with hij
    · exact .inl ⟨hij.symm, (Option.some.inj hv).symm⟩
    · exact .inr ⟨Ne.symm hij, hv⟩
  -- another call's file is neither the one of this call before nor after the step
  have hother : ∀ j n, j ≠ i → keyAt Writer.tmp? s.writers j = some n → s'.temps n = s.temps n := by
    intro j n hji hj
    refine hdid.temps n (fun hn => hji (h.distinct j i n hj (hown.trans hn))) fun hn => ?_
    rcases hdid.tmp with hsame | hfresh
    · exact hji (h.distinct j i n hj (hown.trans (hsame.symm.trans hn)))
    · exact h.there j n hj (hfresh n hn)
  refine ⟨?_, fun j v info hv hinfo => ?_, ?_, fun j n hj => ?_,
    fun j info n hj => ?_, fun n hn => ?_⟩
  · rcases hdid.register with ⟨hgoes, htarget⟩ | ⟨hreturned, info, bytes, hinfo, hfile, htarget⟩
    · have hregister := h.register
      unfold Register at hregister ⊢
      dsimp only
      rw [shownAfter_of_ne hgoes, htarget]
      exact hregister
    · refine .inr ⟨info, bytes, ?_, h.readable i w info hw hinfo, hfile, htarget⟩
      rw [hreturned]
      exact hinfo
  · rcases hentries j v hv with ⟨rfl, rfl⟩ | ⟨hji, hv⟩
    · exact h.readable j w info hw (hdid.info info hinfo)
    · exact h.readable j v info hv hinfo
  · refine h.distinct.set hw (hdid.tmp.imp_right fun hfresh j k hk hj => ?_)
    exact h.there j k hj (hfresh k hk)
  · rw [hkeys] at hj
    split_ifs at hj with hji
    · exact hdid.there n hj
    · dsimp only
      rw [hother j n hji hj]
      exact h.there j n hj
  · rcases hentries j _ hj with ⟨rfl, hw'⟩ | ⟨hji, hj⟩
    · exact hdid.whole info n hw'.symm
    · obtain ⟨bytes, hfile, hbytes⟩ := h.whole j info n hj
      exact ⟨bytes, hfile, (hother j n hji (keyAt_eq hj)).trans hbytes⟩
  · by_cases hbefore : w.tmp? = some n
    · rcases hdid.gone n hbefore with hkept | hnone | hstray
      · exact .inr ⟨i, by rw [hkeys, if_pos rfl, hkept]⟩
      · exact absurd hnone hn
      · exact .inl hstray
    · by_cases hafter : w'.tmp? = some n
      · exact .inr ⟨i, by rw [hkeys, if_pos rfl, hafter]⟩
      · have hn' : s.temps n ≠ none := hdid.temps n hbefore hafter ▸ hn
        rcases h.owned n hn' with hstray | ⟨j, hj⟩
        · exact .inl (hdid.stray hstray)
        · refine .inr ⟨j, ?_⟩
          rw [hkeys, if_neg fun hji : j = i => hbefore (hown.symm.trans (hji ▸ hj))]
          exact hj

theorem Inv.init (room : ℕ) : empty.Inv room where
  register := .inl ⟨rfl, rfl⟩
  readable _ _ _ hw := by cases hw
  distinct _ _ _ hi := by cases hi
  there _ _ hi := by cases hi
  whole _ _ _ hw := by cases hw
  owned n hn := absurd rfl hn

theorem getElem?_append_todo {info : Dict Json} {v : Writer} {j : ℕ}
    (hv : (s.writers ++ [.todo info])[j]? = some v) : s.writers[j]? = some v ∨ v = .todo info := by
  rw [List.getElem?_append] at hv
  split_ifs at hv with hlt
  · exact .inl hv
  · exact .inr (List.mem_singleton.1 (List.mem_of_getElem? hv))

/-- A new call. -/
theorem Inv.call {info : Dict Json} (h : s.Inv room) (hinfo : Readable room info) :
    Inv room { s with writers := s.writers ++ [.todo info] } := by
  have hkeys : keyAt Writer.tmp? (s.writers ++ [.todo info]) = keyAt Writer.tmp? s.writers :=
    keyAt_append rfl
  refine ⟨h.register, fun j v info' hv hinfo' => ?_, ?_, fun j n hj => ?_, fun j info' n hj => ?_,
    fun n hn => ?_⟩
  · rcases getElem?_append_todo hv with hv | rfl
    · exact h.readable j v info' hv hinfo'
    · cases hinfo'
      exact hinfo
  · unfold Distinct
    dsimp only
    rw [hkeys]
    exact h.distinct
  · exact h.there j n (congrFun hkeys j ▸ hj)
  · rcases getElem?_append_todo hj with hj | hj
    · exact h.whole j info' n hj
    · cases hj
  · dsimp only
    rw [hkeys]
    exact h.owned n hn

/-- **The invariant is kept by every step.** -/
theorem Inv.step {a : Action} (h : s.Inv room) (hproper : Proper room s a)
    (hstep : s.step a = some s') : s'.Inv room := by
  unfold Shared.step at hstep
  cases a with
  | call info =>
    cases hstep
    exact h.call hproper
  | go i x =>
    dsimp only at hstep
    cases hw : s.writers[i]? with
    | none =>
      rw [hw] at hstep
      cases hstep
    | some w =>
      rw [hw] at hstep
      obtain ⟨r, hr, rfl⟩ := Option.map_eq_some_iff.1 hstep
      exact h.did hw (h.write hw hr)
  | kill i left =>
    dsimp only at hstep
    cases hw : s.writers[i]? with
    | none =>
      rw [hw] at hstep
      cases hstep
    | some w =>
      rw [hw] at hstep
      cases hstep
      exact h.did hw (.killed s w left)
  | remove =>
    cases hstep
    exact ⟨.inl ⟨rfl, rfl⟩, h.readable, h.distinct, h.there, h.whole, h.owned⟩

theorem readData_fileOf {info : Dict Json} {bytes : List UInt8} (hinfo : Readable room info)
    (h : fileOf info = .ok bytes) : readData room (some bytes) = .ok (.obj info) := by
  obtain ⟨text, htext, hbytes⟩ := Except.bind_eq_ok.1 h
  obtain rfl := Except.ok.inj hbytes
  have hascii : ∀ c ∈ text ++ str "\n", isAsciiText c = true :=
    List.forall_mem_append.2 ⟨isAsciiText_dumpsAt _ htext, List.all_eq_true.1 (by decide)⟩
  have hspace : ∀ c ∈ str "\n", isJsonSpace c = true := List.all_eq_true.1 (by decide)
  obtain ⟨hdecode, hnewlines⟩ := read_ascii hascii
  rw [readData_some, hdecode, Except.ok_bind, hnewlines,
    loads_dumps htext hinfo.floats hinfo.room hspace, rejoin_plain _ hinfo.plain]

theorem Register.readRecord (h : s.Register room) (pid : ℤ) : readRecord room s.target pid =
    .ok (s.shown.filter fun info => pidEq pid (getD info "pid")) := by
  unfold StateFile.readRecord
  rcases h with ⟨hshown, htarget⟩ | ⟨info, bytes, hshown, hinfo, hfile, htarget⟩
  · rw [hshown, htarget]
    rfl
  · rw [hshown, htarget, readData_fileOf hinfo hfile]
    rfl

def pidText : List UInt8 := encode (str "\x7b\n  \"pid\": 7\n\x7d\n")

end Shared

end AgentLab.Backend.StateFile
