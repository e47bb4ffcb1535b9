import AgentLab.Python.Value

/-!
# Rendering values

When `json.dumps(value, ensure_ascii=False)` and encoding its text as UTF-8 succeed: the strings
must hold no surrogates, and without `allow_nan` the numbers must be finite (`renders_iff_strict`).
-/

namespace AgentLab.Python

mutual

/-- Whether the value can be rendered and encoded. -/
def renders (allowNan : Bool) : Json → Bool
  | .null | .bool _ | .int _ | .float (.finite _) => true
  | .float _ => allowNan
  | .str s => encodable s
  | .list l => rendersList allowNan l
  | .obj o => rendersItems allowNan o

def rendersList (allowNan : Bool) : List Json → Bool
  | [] => true
  | v :: l => renders allowNan v && rendersList allowNan l

def rendersItems (allowNan : Bool) : Dict Json → Bool
  | [] => true
  | (k, v) :: o => encodable k && renders allowNan v && rendersItems allowNan o

end

variable {b : Bool}

theorem rendersList_iff {l : List Json} : rendersList b l = true ↔ ∀ v ∈ l, renders b v = true := by
  induction l with
  | nil => simp [rendersList]
  | cons v l ih => simp [rendersList, ih]

theorem rendersItems_iff {o : Dict Json} :
    rendersItems b o = true ↔ ∀ kv ∈ o, encodable kv.1 = true ∧ renders b kv.2 = true := by
  induction o with
  | nil => simp [rendersItems]
  | cons kv o ih =>
    obtain ⟨k, v⟩ := kv
    simp [rendersItems, ih]

theorem renders_list {l : List Json} :
    renders b (.list l) = true ↔ ∀ v ∈ l, renders b v = true := by
  rw [renders, rendersList_iff]

theorem renders_obj {o : Dict Json} :
    renders b (.obj o) = true ↔ ∀ kv ∈ o, encodable kv.1 = true ∧ renders b kv.2 = true := by
  rw [renders, rendersItems_iff]

theorem renders_obj_cons {k : Str} {v : Json} {o : Dict Json} (hk : encodable k = true) :
    renders b (.obj ((k, v) :: o)) = true ↔ renders b v = true ∧ renders b (.obj o) = true := by
  rw [renders, rendersItems, hk, Bool.true_and, Bool.and_eq_true, renders]

theorem renders_obj_append {o p : Dict Json} :
    renders b (.obj (o ++ p)) = true ↔ renders b (.obj o) = true ∧ renders b (.obj p) = true := by
  rw [renders_obj, renders_obj, renders_obj, List.forall_mem_append]

mutual

/-- What renders without `allow_nan` renders with it. -/
theorem renders_mono : ∀ v : Json, renders false v = true → renders true v = true
  | .null, _ | .bool _, _ | .int _, _ => rfl
  | .float f, _ => by cases f <;> rfl
  | .str _, h => h
  | .list l, h => rendersList_mono l h
  | .obj o, h => rendersItems_mono o h

theorem rendersList_mono : ∀ l : List Json, rendersList false l = true → rendersList true l = true
  | [], _ => rfl
  | v :: l, h => by
    simp only [rendersList, Bool.and_eq_true] at h ⊢
    exact ⟨renders_mono v h.1, rendersList_mono l h.2⟩

theorem rendersItems_mono :
    ∀ o : List (Str × Json), rendersItems false o = true → rendersItems true o = true
  | [], _ => rfl
  | (k, v) :: o, h => by
    simp only [rendersItems, Bool.and_eq_true] at h ⊢
    exact ⟨⟨h.1.1, renders_mono v h.1.2⟩, rendersItems_mono o h.2⟩

end

/-! ## Strings and floats of a value -/

mutual

/-- The strings in a value, keys included. -/
def Json.strings : Json → List Str
  | .str s => [s]
  | .list l => stringsList l
  | .obj o => stringsItems o
  | _ => []

def stringsList : List Json → List Str
  | [] => []
  | v :: l => v.strings ++ stringsList l

def stringsItems : List (Str × Json) → List Str
  | [] => []
  | (k, v) :: o => k :: v.strings ++ stringsItems o

end

mutual

/-- The floats in a value. -/
def Json.floats : Json → List PyFloat
  | .float f => [f]
  | .list l => floatsList l
  | .obj o => floatsItems o
  | _ => []

def floatsList : List Json → List PyFloat
  | [] => []
  | v :: l => v.floats ++ floatsList l

def floatsItems : List (Str × Json) → List PyFloat
  | [] => []
  | (_, v) :: o => v.floats ++ floatsItems o

end

def PyFloat.isFinite : PyFloat → Bool
  | .finite _ => true
  | _ => false

/-- No string in the value holds a lone surrogate, and no float in it is NaN or infinite. -/
def Json.Strict (v : Json) : Prop :=
  (∀ s ∈ v.strings, ∀ c ∈ s, isSurrogate c = false) ∧ ∀ f ∈ v.floats, f.isFinite = true

theorem encodable_iff {s : Str} : encodable s = true ↔ ∀ c ∈ s, isSurrogate c = false := by
  simp [encodable]

mutual

theorem renders_iff_strict : ∀ v : Json, renders false v = true ↔ v.Strict
  | .null | .bool _ | .int _ => by simp [renders, Json.Strict, Json.strings, Json.floats]
  | .float f => by
    cases f <;> simp [renders, Json.Strict, Json.strings, Json.floats, PyFloat.isFinite]
  | .str s => by simp [renders, encodable_iff, Json.Strict, Json.strings, Json.floats]
  | .list l => by
    rw [renders, Json.Strict, Json.strings, Json.floats]
    exact rendersList_iff_strict l
  | .obj o => by
    rw [renders, Json.Strict, Json.strings, Json.floats]
    exact rendersItems_iff_strict o

theorem rendersList_iff_strict : ∀ l : List Json, rendersList false l = true ↔
    (∀ s ∈ stringsList l, ∀ c ∈ s, isSurrogate c = false) ∧
      ∀ f ∈ floatsList l, f.isFinite = true
  | [] => by simp [rendersList, stringsList, floatsList]
  | v :: l => by
    rw [rendersList, Bool.and_eq_true, renders_iff_strict v, rendersList_iff_strict l, stringsList,
      floatsList, List.forall_mem_append, List.forall_mem_append, Json.Strict]
    tauto

theorem rendersItems_iff_strict : ∀ o : List (Str × Json), rendersItems false o = true ↔
    (∀ s ∈ stringsItems o, ∀ c ∈ s, isSurrogate c = false) ∧
      ∀ f ∈ floatsItems o, f.isFinite = true
  | [] => by simp [rendersItems, stringsItems, floatsItems]
  | (k, v) :: o => by
    rw [rendersItems, Bool.and_eq_true, Bool.and_eq_true, encodable_iff, renders_iff_strict v,
      rendersItems_iff_strict o, stringsItems, floatsItems, List.cons_append, List.forall_mem_cons,
      List.forall_mem_append, List.forall_mem_append, Json.Strict]
    tauto

end

/-! ## Changed objects -/

theorem mem_of_get? {α : Type} {o : Dict α} {key : Str} {v : α} (h : Dict.get? o key = some v) :
    (key, v) ∈ o := by
  induction o with
  | nil => cases h
  | cons kv o ih =>
    obtain ⟨k, w⟩ := kv
    rw [Dict.get?_cons] at h
    split_ifs at h with hk
    · rw [hk, Option.some.inj h]; exact List.mem_cons_self
    · exact List.mem_cons_of_mem _ (ih h)

theorem renders_getD {o : Dict Json} (h : renders b (.obj o) = true) (key : Str) :
    renders b (getD o key) = true := by
  unfold getD
  cases hv : Dict.get? o key with
  | none => rfl
  | some v => exact (renders_obj.1 h _ (mem_of_get? hv)).2

theorem mem_set {o : Dict Json} {key : Str} {v : Json} {kv : Str × Json}
    (h : kv ∈ Dict.set o key v) : kv = (key, v) ∨ kv ∈ o := by
  induction o with
  | nil => exact .inl (List.mem_singleton.1 h)
  | cons kw o ih =>
    obtain ⟨k, w⟩ := kw
    unfold Dict.set at h
    split_ifs at h with hk
    · rcases List.mem_cons.1 h with rfl | h
      · exact .inl (by rw [hk])
      · exact .inr (List.mem_cons_of_mem _ h)
    · rcases List.mem_cons.1 h with rfl | h
      · exact .inr List.mem_cons_self
      · exact (ih h).imp_right (List.mem_cons_of_mem _)

theorem renders_set {o : Dict Json} {key : Str} {v : Json} (ho : renders b (.obj o) = true)
    (hkey : encodable key = true) (hv : renders b v = true) :
    renders b (.obj (Dict.set o key v)) = true := by
  refine renders_obj.2 fun kv hkv => ?_
  rcases mem_set hkv with rfl | hkv
  · exact ⟨hkey, hv⟩
  · exact renders_obj.1 ho kv hkv

/-- An item is replaced by one that renders as well as it. -/
theorem renders_set_iff {o : Dict Json} {key : Str} {v w : Json} (hw : Dict.get? o key = some w)
    (hv : renders b v = renders b w) :
    renders b (.obj (Dict.set o key v)) = renders b (.obj o) := by
  rw [renders, renders]
  induction o with
  | nil => cases hw
  | cons kw o ih =>
    obtain ⟨k, u⟩ := kw
    rw [Dict.get?_cons] at hw
    unfold Dict.set
    split_ifs at hw ⊢ with hk
    · rw [rendersItems, rendersItems, hv, Option.some.inj hw]
    · rw [rendersItems, rendersItems, ih hw]

theorem renders_setdefault {o : Dict Json} {key : Str} {v : Json} (ho : renders b (.obj o) = true)
    (hkey : encodable key = true) (hv : renders b v = true) :
    renders b (.obj (Dict.setdefault o key v)) = true := by
  unfold Dict.setdefault
  split_ifs
  · exact ho
  · exact renders_set ho hkey hv

theorem renders_pop {o : Dict Json} (ho : renders b (.obj o) = true) (key : Str) :
    renders b (.obj (Dict.pop o key)) = true :=
  renders_obj.2 fun kv hkv => renders_obj.1 ho kv (List.mem_of_mem_filter hkv)

theorem encodable_append {s t : Str} :
    encodable (s ++ t) = true ↔ encodable s = true ∧ encodable t = true := by
  unfold encodable
  rw [List.all_append, Bool.and_eq_true]

/-- A string of Unicode scalar values can be encoded. -/
theorem encodable_str (s : String) : encodable (str s) = true := by
  unfold encodable str
  rw [List.all_map, List.all_eq_true]
  intro c _
  have hc : c.toNat < 0xD800 ∨ 0xDFFF < c.toNat ∧ c.toNat < 0x110000 := c.valid
  have hmod : c.toNat % 0x110000 = c.toNat := Nat.mod_eq_of_lt (by omega)
  simp only [Function.comp_apply, isSurrogate, Fin.ofNat, hmod]
  rcases hc with hc | hc
  · simp; omega
  · simp; omega

end AgentLab.Python
