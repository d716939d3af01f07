import TaskForge.Bytes

/-!
# JSON values

The value type of `boost::json`: eight kinds, with 64-bit integers apart from
doubles, and objects that keep their fields in insertion order.  The type of
strings is a parameter, because programs in different languages write JSON from
different string types; what a reader produces has byte strings.  A double is
kept as the decimal number `mantissa · 10^exponent` that its text denotes.

`JsonCodec` collects what a program may rely on of a library's `parse` and
`serialize`.
-/

/-- A JSON value with strings of type `σ` (`boost::json::value` for `Bytes`). -/
inductive Json (σ : Type) where
  | null
  | bool (b : Bool)
  | int64 (n : Int64)
  | uint64 (n : UInt64)
  | double (mantissa exponent : Int)
  | string (s : σ)
  | array (values : List (Json σ))
  | object (fields : List (σ × Json σ))
deriving Repr, BEq, Inhabited

namespace Json

/-- `boost::json::object`: fields in insertion order. -/
abbrev Object := List (Bytes × Json Bytes)

namespace Object

/-- `object.contains(key)` together with `object.at(key)`. -/
def get (o : Object) (key : Bytes) : Option (Json Bytes) := o.lookup key

/-- `object[key] = value`: overwrite in place, or append. -/
def set : Object → Bytes → Json Bytes → Object
  | [], key, value => [(key, value)]
  | (k, v) :: rest, key, value =>
      if k = key then (key, value) :: rest else (k, v) :: set rest key value

/-- `object.erase(key)`.  The library moves the last field into the gap; the
    order of the fields is not observed by any reader. -/
def erase (o : Object) (key : Bytes) : Object := o.filter (fun field => field.1 != key)

def keys (o : Object) : List Bytes := o.map Prod.fst

@[simp] theorem get_nil (key : Bytes) : get [] key = none := rfl

@[simp] theorem get_cons_self (key : Bytes) (value : Json Bytes) (o : Object) :
    get ((key, value) :: o) key = some value := by
  simp [get]

theorem get_cons_ne {key other : Bytes} (h : key ≠ other) (value : Json Bytes) (o : Object) :
    get ((other, value) :: o) key = get o key := by
  have hb : (key == other) = false := by simpa using h
  simp only [get, List.lookup_cons, hb]

@[simp] theorem get_set_self (o : Object) (key : Bytes) (value : Json Bytes) :
    (o.set key value).get key = some value := by
  induction o with
  | nil => simp [set]
  | cons field rest ih =>
    obtain ⟨k, v⟩ := field
    by_cases hk : k = key
    · simp [set, hk]
    · rw [set, if_neg hk, get_cons_ne (Ne.symm hk), ih]

theorem get_set_ne (o : Object) {key other : Bytes} (h : other ≠ key) (value : Json Bytes) :
    (o.set key value).get other = o.get other := by
  induction o with
  | nil => simp [set, get_cons_ne h]
  | cons field rest ih =>
    obtain ⟨k, v⟩ := field
    by_cases hk : k = key
    · subst hk
      rw [set, if_pos rfl, get_cons_ne h, get_cons_ne h]
    · rw [set, if_neg hk]
      by_cases ho : other = k
      · subst ho; simp
      · rw [get_cons_ne ho, get_cons_ne ho, ih]

@[simp] theorem get_erase_self (o : Object) (key : Bytes) : (o.erase key).get key = none := by
  induction o with
  | nil => rfl
  | cons field rest ih =>
    obtain ⟨k, v⟩ := field
    by_cases hk : k = key
    · simpa [erase, hk] using ih
    · have hne : (k != key) = true := by simpa using hk
      simp only [erase, List.filter_cons, hne, if_true]
      rw [get_cons_ne (Ne.symm hk)]
      exact ih

theorem get_erase_ne (o : Object) {key other : Bytes} (h : other ≠ key) :
    (o.erase key).get other = o.get other := by
  induction o with
  | nil => rfl
  | cons field rest ih =>
    obtain ⟨k, v⟩ := field
    by_cases hk : k = key
    · subst hk
      rw [get_cons_ne h, ← ih]
      simp [erase]
    · have hne : (k != key) = true := by simpa using hk
      simp only [erase, List.filter_cons, hne, if_true]
      by_cases ho : other = k
      · subst ho; simp
      · rw [get_cons_ne ho, get_cons_ne ho]
        exact ih

theorem mem_of_get {o : Object} {key : Bytes} {value : Json Bytes} (h : o.get key = some value) :
    (key, value) ∈ o := by
  induction o with
  | nil => simp at h
  | cons field rest ih =>
    obtain ⟨k, v⟩ := field
    by_cases hk : key = k
    · subst hk
      simp only [get_cons_self, Option.some.injEq] at h
      simp [h]
    · rw [get_cons_ne hk] at h
      exact List.mem_cons_of_mem _ (ih h)

theorem get_eq_none {o : Object} {key : Bytes} (h : key ∉ o.keys) : o.get key = none := by
  cases hget : o.get key with
  | none => rfl
  | some value => exact absurd (List.mem_map_of_mem (f := Prod.fst) (mem_of_get hget)) h

theorem mem_set {o : Object} {key : Bytes} {value : Json Bytes} {field : Bytes × Json Bytes}
    (h : field ∈ o.set key value) : field = (key, value) ∨ field ∈ o := by
  induction o with
  | nil => exact Or.inl (by simpa [set] using h)
  | cons head rest ih =>
    obtain ⟨k, v⟩ := head
    by_cases hk : k = key
    · rw [set, if_pos hk] at h
      rcases List.mem_cons.mp h with h | h
      · exact Or.inl h
      · exact Or.inr (List.mem_cons_of_mem _ h)
    · rw [set, if_neg hk] at h
      rcases List.mem_cons.mp h with h | h
      · exact Or.inr (by simp [h])
      · rcases ih h with h | h
        · exact Or.inl h
        · exact Or.inr (List.mem_cons_of_mem _ h)

/-- A new key goes to the end. -/
theorem set_of_notMem {o : Object} {key : Bytes} (h : key ∉ o.keys) (value : Json Bytes) :
    o.set key value = o ++ [(key, value)] := by
  induction o with
  | nil => rfl
  | cons field rest ih =>
    obtain ⟨k, v⟩ := field
    simp only [keys, List.map_cons, List.mem_cons, not_or] at h
    rw [set, if_neg (Ne.symm h.1), ih h.2, List.cons_append]

theorem mem_of_mem_erase {o : Object} {key : Bytes} {field : Bytes × Json Bytes}
    (h : field ∈ o.erase key) : field ∈ o :=
  (List.mem_filter.mp h).1

theorem keys_set (o : Object) (key : Bytes) (value : Json Bytes) :
    (o.set key value).keys = if key ∈ o.keys then o.keys else o.keys ++ [key] := by
  induction o with
  | nil => simp [set, keys]
  | cons field rest ih =>
    obtain ⟨k, v⟩ := field
    by_cases hk : k = key
    · subst hk; simp [set, keys]
    · have hcons : keys (set ((k, v) :: rest) key value) = k :: keys (set rest key value) := by
        simp [set, if_neg hk, keys]
      have hmem : key ∈ keys ((k, v) :: rest) ↔ key ∈ keys rest := by
        simp only [keys, List.map_cons, List.mem_cons]
        exact or_iff_right (fun h => hk h.symm)
      rw [hcons, ih, if_congr hmem rfl rfl]
      split <;> simp [keys]

theorem nodup_keys_set {o : Object} (h : o.keys.Nodup) (key : Bytes) (value : Json Bytes) :
    (o.set key value).keys.Nodup := by
  rw [keys_set]
  split
  · exact h
  · rename_i hkey
    exact List.nodup_append.mpr ⟨h, by simp, by
      intro a ha b hb
      simp only [List.mem_singleton] at hb
      subst hb
      rintro rfl
      exact hkey ha⟩

theorem erase_erase_comm (o : Object) (key other : Bytes) :
    (o.erase key).erase other = (o.erase other).erase key := by
  simp only [erase, List.filter_filter, Bool.and_comm]

@[simp] theorem erase_set_self (o : Object) (key : Bytes) (value : Json Bytes) :
    (o.set key value).erase key = o.erase key := by
  induction o with
  | nil => simp [set, erase]
  | cons field rest ih =>
    obtain ⟨k, v⟩ := field
    by_cases hk : k = key
    · simp [set, erase, hk]
    · simpa [set, erase, hk] using ih

theorem erase_set_ne (o : Object) {key other : Bytes} (h : key ≠ other) (value : Json Bytes) :
    (o.set key value).erase other = (o.erase other).set key value := by
  induction o with
  | nil => simp [set, erase, h]
  | cons field rest ih =>
    obtain ⟨k, v⟩ := field
    by_cases hk : k = key
    · simp [set, erase, hk, h]
    · by_cases ho : k = other
      · simpa [set, erase, ho, Ne.symm h] using ih
      · simpa [set, erase, hk, ho] using ih

theorem get_of_mem {o : Object} (h : o.keys.Nodup) {key : Bytes} {value : Json Bytes}
    (hmem : (key, value) ∈ o) : o.get key = some value := by
  induction o with
  | nil => cases hmem
  | cons field rest ih =>
    obtain ⟨k, v⟩ := field
    rw [keys, List.map_cons, List.nodup_cons] at h
    rcases List.mem_cons.mp hmem with heq | hmem
    · cases heq
      exact get_cons_self ..
    · have hne : key ≠ k := fun heq => h.1 (List.mem_map.mpr ⟨_, hmem, heq⟩)
      rw [get_cons_ne hne]
      exact ih h.2 hmem

theorem nodup_keys_erase {o : Object} (h : o.keys.Nodup) (key : Bytes) :
    (o.erase key).keys.Nodup := by
  unfold keys erase
  exact h.sublist ((List.filter_sublist).map _)

end Object

/-! ### Well-formedness -/

mutual
/-- Every string and every key satisfies `p`. -/
def strings (p : Bytes → Prop) [DecidablePred p] : Json Bytes → Bool
  | .string s => decide (p s)
  | .array values => stringsList p values
  | .object fields => stringsFields p fields
  | _ => true
def stringsList (p : Bytes → Prop) [DecidablePred p] : List (Json Bytes) → Bool
  | [] => true
  | value :: values => value.strings p && stringsList p values
def stringsFields (p : Bytes → Prop) [DecidablePred p] : List (Bytes × Json Bytes) → Bool
  | [] => true
  | (key, value) :: fields => decide (p key) && value.strings p && stringsFields p fields
end

/-- Every string and every key is well-formed UTF-8. -/
abbrev utf8 (v : Json Bytes) : Bool := v.strings Bytes.Utf8

mutual
/-- Keys are distinct, and an unsigned integer is one that does not fit `int64`
    (the reader prefers the signed kind). -/
def canonical : Json Bytes → Bool
  | .uint64 n => decide (2 ^ 63 ≤ n.toNat)
  | .array values => canonicalList values
  | .object fields => decide (fields.map Prod.fst).Nodup && canonicalFields fields
  | _ => true
def canonicalList : List (Json Bytes) → Bool
  | [] => true
  | value :: values => value.canonical && canonicalList values
def canonicalFields : List (Bytes × Json Bytes) → Bool
  | [] => true
  | (_, value) :: fields => value.canonical && canonicalFields fields
end

mutual
/-- Nesting of arrays and objects. -/
def depth : Json Bytes → Nat
  | .array values => depthList values + 1
  | .object fields => depthFields fields + 1
  | _ => 0
def depthList : List (Json Bytes) → Nat
  | [] => 0
  | value :: values => max value.depth (depthList values)
def depthFields : List (Bytes × Json Bytes) → Nat
  | [] => 0
  | (_, value) :: fields => max value.depth (depthFields fields)
end

/-- `parse_options::max_depth`. -/
def maxDepth : Nat := 32

/-- A value with distinct keys and normal integers, `n` levels deep at most, whose
    strings satisfy `p`. -/
structure FormedAt (p : Bytes → Prop) [DecidablePred p] (n : Nat) (v : Json Bytes) : Prop where
  strings : v.strings p = true
  canonical : v.canonical = true
  depth : v.depth ≤ n

/-- A value the reader can produce with `n` levels of nesting to spare. -/
abbrev ReadableAt (n : Nat) (v : Json Bytes) : Prop := FormedAt Bytes.Utf8 n v

/-- The values that can come out of the reader. -/
abbrev Readable (v : Json Bytes) : Prop := ReadableAt maxDepth v

section Formed

variable {p : Bytes → Prop} [DecidablePred p]

instance (n : Nat) (v : Json Bytes) : Decidable (FormedAt p n v) :=
  decidable_of_iff (v.strings p = true ∧ v.canonical = true ∧ v.depth ≤ n)
    ⟨fun h => ⟨h.1, h.2.1, h.2.2⟩, fun h => ⟨h.strings, h.canonical, h.depth⟩⟩

theorem stringsFields_iff (fields : Object) :
    stringsFields p fields = true ↔
      ∀ field ∈ fields, p field.1 ∧ field.2.strings p = true := by
  induction fields with
  | nil => simp [stringsFields]
  | cons field rest ih =>
    obtain ⟨k, v⟩ := field
    simp [stringsFields, ih]

theorem stringsList_iff (values : List (Json Bytes)) :
    stringsList p values = true ↔ ∀ value ∈ values, value.strings p = true := by
  induction values with
  | nil => simp [stringsList]
  | cons value rest ih => simp [stringsList, ih]

theorem strings_of_get {o : Object} {key : Bytes} {value : Json Bytes}
    (ho : (Json.object o).strings p = true) (hget : o.get key = some value) :
    value.strings p = true := by
  rw [strings, stringsFields_iff] at ho
  exact (ho _ (Object.mem_of_get hget)).2

theorem of_strings_string {s : Bytes} (h : (Json.string s).strings p = true) : p s := by
  simpa [strings] using h

mutual
theorem strings_any (v : Json Bytes) : v.strings (fun _ => True) = true := by
  match v with
  | .null | .bool _ | .int64 _ | .uint64 _ | .double _ _ => rfl
  | .string s => simp [strings]
  | .array values => rw [strings]; exact stringsList_any values
  | .object fields => rw [strings]; exact stringsFields_any fields

theorem stringsList_any (values : List (Json Bytes)) :
    stringsList (fun _ => True) values = true := by
  match values with
  | [] => rfl
  | v :: rest => rw [stringsList, strings_any v, stringsList_any rest]; rfl

theorem stringsFields_any (fields : Object) : stringsFields (fun _ => True) fields = true := by
  match fields with
  | [] => rfl
  | (k, v) :: rest => rw [stringsFields, strings_any v, stringsFields_any rest]; simp
end

/-- Forget what the strings are. -/
theorem FormedAt.any {n : Nat} {v : Json Bytes} (h : FormedAt p n v) :
    FormedAt (fun _ => True) n v :=
  ⟨strings_any v, h.canonical, h.depth⟩

theorem canonicalFields_iff (fields : Object) :
    canonicalFields fields = true ↔ ∀ field ∈ fields, field.2.canonical = true := by
  induction fields with
  | nil => simp [canonicalFields]
  | cons field rest ih =>
    obtain ⟨k, v⟩ := field
    simp [canonicalFields, ih]

theorem depthFields_le_iff (fields : Object) (n : Nat) :
    depthFields fields ≤ n ↔ ∀ field ∈ fields, field.2.depth ≤ n := by
  induction fields with
  | nil => simp [depthFields]
  | cons field rest ih =>
    obtain ⟨k, v⟩ := field
    simp only [depthFields, Nat.max_le, ih, List.forall_mem_cons]

theorem canonicalList_iff (values : List (Json Bytes)) :
    canonicalList values = true ↔ ∀ value ∈ values, value.canonical = true := by
  induction values with
  | nil => simp [canonicalList]
  | cons value rest ih => simp [canonicalList, ih]

theorem depthList_le_iff (values : List (Json Bytes)) (n : Nat) :
    depthList values ≤ n ↔ ∀ value ∈ values, value.depth ≤ n := by
  induction values with
  | nil => simp [depthList]
  | cons value rest ih => simp only [depthList, Nat.max_le, ih, List.forall_mem_cons]

theorem FormedAt.mono {m n : Nat} {v : Json Bytes} (h : FormedAt p m v) (hmn : m ≤ n) :
    FormedAt p n v :=
  ⟨h.strings, h.canonical, Nat.le_trans h.depth hmn⟩

/-- An object is readable when its keys are distinct and each field is. -/
theorem formedAt_object_iff (n : Nat) (o : Object) :
    FormedAt p (n + 1) (.object o) ↔
      o.keys.Nodup ∧ ∀ field ∈ o, p field.1 ∧ FormedAt p n field.2 := by
  constructor
  · intro h
    have hstrings := h.strings
    have hcanonical := h.canonical
    have hdepth := h.depth
    simp only [Json.strings, stringsFields_iff] at hstrings
    simp only [Json.canonical, Bool.and_eq_true, decide_eq_true_eq, canonicalFields_iff]
      at hcanonical
    simp only [Json.depth, Nat.add_le_add_iff_right, depthFields_le_iff] at hdepth
    exact ⟨hcanonical.1, fun field hfield => ⟨(hstrings field hfield).1,
      (hstrings field hfield).2, hcanonical.2 field hfield, hdepth field hfield⟩⟩
  · rintro ⟨hkeys, hfields⟩
    refine ⟨?_, ?_, ?_⟩
    · simp only [Json.strings, stringsFields_iff]
      exact fun field hfield => ⟨(hfields field hfield).1, (hfields field hfield).2.strings⟩
    · simp only [Json.canonical, Bool.and_eq_true, decide_eq_true_eq, canonicalFields_iff]
      exact ⟨hkeys, fun field hfield => (hfields field hfield).2.canonical⟩
    · simp only [Json.depth, Nat.add_le_add_iff_right, depthFields_le_iff]
      exact fun field hfield => (hfields field hfield).2.depth

theorem formedAt_array_iff (n : Nat) (values : List (Json Bytes)) :
    FormedAt p (n + 1) (.array values) ↔ ∀ value ∈ values, FormedAt p n value := by
  constructor
  · intro h value hvalue
    have hstrings := h.strings
    have hcanonical := h.canonical
    have hdepth := h.depth
    simp only [Json.strings, stringsList_iff] at hstrings
    simp only [Json.canonical, canonicalList_iff] at hcanonical
    simp only [Json.depth, Nat.add_le_add_iff_right, depthList_le_iff] at hdepth
    exact ⟨hstrings value hvalue, hcanonical value hvalue, hdepth value hvalue⟩
  · intro h
    refine ⟨?_, ?_, ?_⟩
    · simp only [Json.strings, stringsList_iff]
      exact fun value hvalue => (h value hvalue).strings
    · simp only [Json.canonical, canonicalList_iff]
      exact fun value hvalue => (h value hvalue).canonical
    · simp only [Json.depth, Nat.add_le_add_iff_right, depthList_le_iff]
      exact fun value hvalue => (h value hvalue).depth

theorem formedAt_set {n : Nat} {o : Object} {key : Bytes} {value : Json Bytes}
    (ho : FormedAt p (n + 1) (.object o)) (hkey : p key) (hvalue : FormedAt p n value) :
    FormedAt p (n + 1) (.object (o.set key value)) := by
  rw [formedAt_object_iff] at ho ⊢
  refine ⟨Object.nodup_keys_set ho.1 key value, ?_⟩
  intro field hfield
  rcases Object.mem_set hfield with rfl | hfield
  · exact ⟨hkey, hvalue⟩
  · exact ho.2 field hfield

theorem formedAt_erase {n : Nat} {o : Object} (key : Bytes)
    (ho : FormedAt p (n + 1) (.object o)) : FormedAt p (n + 1) (.object (o.erase key)) := by
  rw [formedAt_object_iff] at ho ⊢
  refine ⟨Object.nodup_keys_erase ho.1 key, ?_⟩
  intro field hfield
  exact ho.2 field (Object.mem_of_mem_erase hfield)

@[simp] theorem formedAt_null (n : Nat) : FormedAt p n .null := ⟨rfl, rfl, Nat.zero_le n⟩

@[simp] theorem formedAt_int64 (n : Nat) (i : Int64) : FormedAt p n (.int64 i) :=
  ⟨rfl, rfl, Nat.zero_le n⟩

@[simp] theorem formedAt_string_iff (n : Nat) (s : Bytes) :
    FormedAt p n (.string s) ↔ p s := by
  constructor
  · intro h
    simpa [Json.strings] using h.strings
  · intro h
    exact ⟨by simpa [Json.strings] using h, rfl, Nat.zero_le n⟩

end Formed

end Json

/-- What a program may rely on of `boost::json::parse` and `boost::json::serialize`:
    a value the reader can produce survives a round trip, the reader produces
    nothing else, text whose strings are not UTF-8 is refused, and the writer
    escapes control characters, NUL among them. -/
structure JsonCodec where
  parse : Bytes → Option (Json Bytes)
  serialize : Json Bytes → Bytes
  parse_serialize : ∀ v : Json Bytes, v.Readable → parse (serialize v) = some v
  parse_serialize_of_not_utf8 : ∀ v : Json Bytes, v.utf8 = false → parse (serialize v) = none
  readable_of_parse : ∀ (text : Bytes) (v : Json Bytes), parse text = some v → v.Readable
  zero_notMem_serialize : ∀ v : Json Bytes, (0 : UInt8) ∉ serialize v

namespace JsonCodec

variable (codec : JsonCodec)

/-- Parse a text whose root must be an object. -/
def parseObject (text : Bytes) : Option Json.Object :=
  match codec.parse text with
  | some (.object o) => some o
  | _ => none

theorem parseObject_eq_some {text : Bytes} {o : Json.Object} :
    codec.parseObject text = some o ↔ codec.parse text = some (.object o) := by
  unfold parseObject
  constructor
  · intro h
    split at h
    · rename_i o' hparse
      cases h
      exact hparse
    · cases h
  · intro h
    rw [h]

end JsonCodec
