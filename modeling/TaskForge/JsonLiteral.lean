import TaskForge.JsonWriter

/-!
# String literals, and the plain writer

`Scans text tokens` says that the reader turns a stretch of a string literal into
`tokens`, whatever follows; stretches concatenate.  With it the plain writer, which
escapes quotes, backslashes and control characters and copies every other byte
(as `boost::json::serialize` does), is shown to spell well-formed strings and
nothing else.  Reader and plain writer together are a `JsonCodec`.
-/

namespace JsonText

/-! ### Stretches of a literal -/

/-- The reader turns this stretch into these tokens. -/
def Scans (text : Bytes) (tokens : List Token) : Prop :=
  ∀ rest, scan (text ++ rest) = (scan rest).map fun r => (tokens ++ r.1, r.2)

theorem scans_nil : Scans [] [] := by
  intro rest
  cases h : scan rest <;> simp [h]

theorem Scans.append {text text' : Bytes} {tokens tokens' : List Token}
    (h : Scans text tokens) (h' : Scans text' tokens') :
    Scans (text ++ text') (tokens ++ tokens') := by
  intro rest
  rw [List.append_assoc, h, h', Option.map_map]
  simp only [Function.comp_def, List.append_assoc]

theorem scans_flatMap {α : Type} (write : α → Bytes) (tokens : α → List Token) (xs : List α)
    (h : ∀ x ∈ xs, Scans (write x) (tokens x)) :
    Scans (xs.flatMap write) (xs.flatMap tokens) := by
  induction xs with
  | nil => exact scans_nil
  | cons x xs ih =>
    rw [List.flatMap_cons, List.flatMap_cons]
    exact (h x (by simp)).append (ih fun y hy => h y (List.mem_cons_of_mem x hy))

/-- A byte that needs no escape. -/
def isPlain (b : UInt8) : Bool := 32 ≤ b && b != 34 && b != 92

theorem scans_raw {b : UInt8} (h : isPlain b = true) : Scans [b] [.raw b] := by
  simp only [isPlain, Bool.and_eq_true, decide_eq_true_eq, bne_iff_ne] at h
  intro rest
  have hcontrol : ¬ b < 32 := UInt8.not_lt.mpr h.1.1
  rw [List.singleton_append, scan.eq_def]
  simp only [h.1.2, h.2, hcontrol, if_false]
  rfl

theorem scans_simpleEscape {c x : UInt8} (h : simpleEscape c = some x) (hc : c ≠ 117) :
    Scans [92, c] [.raw x] := by
  intro rest
  rw [List.cons_append, List.singleton_append, scan.eq_def]
  simp only [show ¬ (92 : UInt8) = 34 by decide, if_false, if_true, if_neg hc, h,
    Option.bind_some]
  rfl

/-- A lower-case hexadecimal digit. -/
def hexDigit (n : Nat) : UInt8 := if n < 10 then UInt8.ofNat (48 + n) else UInt8.ofNat (87 + n)

/-- `\uXXXX`. -/
def unicodeEscape (u : Nat) : Bytes :=
  [92, 117, hexDigit (u / 4096 % 16), hexDigit (u / 256 % 16), hexDigit (u / 16 % 16),
    hexDigit (u % 16)]

theorem hexValue_hexDigit : ∀ n < 16, hexValue (hexDigit n) = some n := by decide

theorem scans_unicodeEscape {u : Nat} (h : u < 65536) : Scans (unicodeEscape u) [.unit u] := by
  intro rest
  have hunit : hex4 (hexDigit (u / 4096 % 16)) (hexDigit (u / 256 % 16))
      (hexDigit (u / 16 % 16)) (hexDigit (u % 16)) = some u := by
    have hdigit : ∀ n, hexValue (hexDigit (n % 16)) = some (n % 16) := fun n =>
      hexValue_hexDigit _ (Nat.mod_lt _ (by omega))
    simp only [hex4, hdigit, Option.bind_eq_bind, Option.bind_some, Option.some.injEq]
    omega
  simp only [unicodeEscape, List.cons_append, List.nil_append]
  rw [scan.eq_def]
  simp only [show ¬ (92 : UInt8) = 34 by decide, if_false, if_true, hunit, Option.bind_some]
  rfl

theorem readString_of_scans {text : Bytes} {tokens : List Token} (h : Scans text tokens)
    (rest : Bytes) :
    readString (text ++ 34 :: rest) =
      ((assemble tokens).filter fun s => decide (Bytes.Utf8 s)).map fun s => (s, rest) := by
  have hclose : scan (34 :: rest) = some ([], rest) := by rw [scan.eq_def]; rfl
  unfold readString
  rw [h, hclose]
  simp only [Option.map_some, List.append_nil, Option.bind_eq_bind, Option.bind_some]
  cases assemble tokens with
  | none => rfl
  | some s => by_cases hs : Bytes.Utf8 s <;> simp [hs, Option.filter]

/-! ### The plain writer -/

def quoteByte (b : UInt8) : Bytes :=
  if b = 34 then [92, 34]
  else if b = 92 then [92, 92]
  else if b = 8 then [92, 98]
  else if b = 12 then [92, 102]
  else if b = 10 then [92, 110]
  else if b = 13 then [92, 114]
  else if b = 9 then [92, 116]
  else if b < 32 then unicodeEscape b.toNat
  else [b]

/-- The token a byte comes back as. -/
def byteToken (b : UInt8) : Token :=
  if b < 32 ∧ b ≠ 8 ∧ b ≠ 12 ∧ b ≠ 10 ∧ b ≠ 13 ∧ b ≠ 9 then .unit b.toNat else .raw b

theorem scans_quoteByte (b : UInt8) : Scans (quoteByte b) [byteToken b] := by
  unfold quoteByte
  split
  · rename_i h; subst h; exact scans_simpleEscape (by decide) (by decide)
  split
  · rename_i h; subst h; exact scans_simpleEscape (by decide) (by decide)
  split
  · rename_i h; subst h; exact scans_simpleEscape (by decide) (by decide)
  split
  · rename_i h; subst h; exact scans_simpleEscape (by decide) (by decide)
  split
  · rename_i h; subst h; exact scans_simpleEscape (by decide) (by decide)
  split
  · rename_i h; subst h; exact scans_simpleEscape (by decide) (by decide)
  split
  · rename_i h; subst h; exact scans_simpleEscape (by decide) (by decide)
  rename_i hquote hback hb hf hn hr ht
  split
  · rename_i hcontrol
    rw [byteToken, if_pos ⟨hcontrol, hb, hf, hn, hr, ht⟩]
    exact scans_unicodeEscape (Nat.lt_trans b.toNat_lt (by decide))
  · rename_i hcontrol
    rw [byteToken, if_neg (fun h => hcontrol h.1)]
    refine scans_raw ?_
    simp only [isPlain, Bool.and_eq_true, decide_eq_true_eq, bne_iff_ne]
    exact ⟨⟨UInt8.not_lt.mp hcontrol, hquote⟩, hback⟩

theorem assemble_byteToken (s : Bytes) : assemble (s.map byteToken) = some s := by
  induction s with
  | nil => rfl
  | cons b rest ih =>
    rw [List.map_cons, byteToken]
    split
    · rename_i h
      have hlt : b.toNat < 32 := UInt8.lt_iff_toNat_lt.mp h.1
      have hhigh : isHigh b.toNat = false := by simp [isHigh]; omega
      have hlow : isLow b.toNat = false := by simp [isLow]; omega
      rw [assemble.eq_def]
      simp [hhigh, hlow, ih, Bytes.utf8EncodeChar_ascii (Nat.lt_trans hlt (by decide))]
    · rw [assemble, ih]
      rfl

/-- The style of `boost::json::serialize`. -/
def plainStyle : Style Bytes where
  gap := []
  quote := fun s => s.flatMap quoteByte
  gap_blank := by simp

/-- What a literal of the plain writer denotes. -/
def checked (s : Bytes) : Option Bytes := if Bytes.Utf8 s then some s else none

theorem plainStyle_spells : plainStyle.Spells checked := by
  intro s rest
  have hscans : Scans (s.flatMap quoteByte) (s.map byteToken) := by
    rw [← List.flatMap_pure_eq_map]
    exact scans_flatMap quoteByte _ s fun b _ => scans_quoteByte b
  have hread := readString_of_scans hscans rest
  rw [assemble_byteToken] at hread
  rw [show plainStyle.quote s = s.flatMap quoteByte from rfl, hread]
  by_cases hs : Bytes.Utf8 s <;> simp [checked, hs, Option.filter]

/-! ### The reference codec -/

theorem checked_of_utf8 {s : Bytes} (h : Bytes.Utf8 s) : checked s = some s := if_pos h

mutual
theorem denote_of_readable (v : Json Bytes) :
    ∀ levels, v.ReadableAt levels → denote checked v levels = some v := by
  intro levels h
  match v with
  | .null => rw [denote]
  | .bool b => rw [denote]
  | .int64 n => rw [denote]
  | .uint64 n =>
    have hn : 2 ^ 63 ≤ n.toNat := by simpa [Json.canonical] using h.canonical
    have hlt : n.toNat < 2 ^ 64 := n.toNat_lt
    rw [denote, ofInteger, if_neg (by omega), if_pos (by omega)]
    simp
  | .double m e => rw [denote]
  | .string s =>
    rw [denote, checked_of_utf8 ((Json.formedAt_string_iff levels s).mp h)]
    rfl
  | .array values =>
    cases levels with
    | zero => exact absurd h.depth (by simp [Json.depth])
    | succ levels =>
      rw [denote, denoteElements_of_readable values levels
        ((Json.formedAt_array_iff levels values).mp h)]
      rfl
  | .object fields =>
    cases levels with
    | zero => exact absurd h.depth (by simp [Json.depth])
    | succ levels =>
      have hobject := (Json.formedAt_object_iff levels fields).mp h
      rw [denote, denoteFields_of_readable fields levels hobject.2]
      simp only [Option.map_some, ofFields_eq_self hobject.1]

theorem denoteElements_of_readable (values : List (Json Bytes)) :
    ∀ levels, (∀ v ∈ values, v.ReadableAt levels) →
      denoteElements checked values levels = some values := by
  intro levels h
  match values with
  | [] => rw [denoteElements]
  | v :: rest =>
    rw [denoteElements, denote_of_readable v levels (h v (by simp)),
      denoteElements_of_readable rest levels fun w hw => h w (List.mem_cons_of_mem v hw)]
    rfl

theorem denoteFields_of_readable (fields : List (Bytes × Json Bytes)) :
    ∀ levels, (∀ field ∈ fields, Bytes.Utf8 field.1 ∧ field.2.ReadableAt levels) →
      denoteFields checked fields levels = some fields := by
  intro levels h
  match fields with
  | [] => rw [denoteFields]
  | (k, v) :: rest =>
    have hfield := h (k, v) (by simp)
    rw [denoteFields, checked_of_utf8 hfield.1, denote_of_readable v levels hfield.2,
      denoteFields_of_readable rest levels fun f hf => h f (List.mem_cons_of_mem _ hf)]
    rfl
end

mutual
theorem utf8_of_denote (v : Json Bytes) :
    ∀ levels, (denote checked v levels).isSome = true → v.utf8 = true := by
  intro levels h
  match v with
  | .null => rfl
  | .bool b => rfl
  | .int64 n => rfl
  | .uint64 n => rfl
  | .double m e => rfl
  | .string s =>
    rw [denote, checked] at h
    split at h
    · simpa [Json.strings]
    · simp at h
  | .array values =>
    cases levels with
    | zero => simp [denote] at h
    | succ levels =>
      rw [denote, Option.isSome_map] at h
      rw [Json.utf8, Json.strings]
      exact utf8_of_denoteElements values levels h
  | .object fields =>
    cases levels with
    | zero => simp [denote] at h
    | succ levels =>
      rw [denote, Option.isSome_map] at h
      rw [Json.utf8, Json.strings]
      exact utf8_of_denoteFields fields levels h

theorem utf8_of_denoteElements (values : List (Json Bytes)) :
    ∀ levels, (denoteElements checked values levels).isSome = true →
      Json.stringsList Bytes.Utf8 values = true := by
  intro levels h
  match values with
  | [] => rfl
  | v :: rest =>
    rw [denoteElements] at h
    cases hv : denote checked v levels with
    | none => simp [hv] at h
    | some v' =>
      rw [hv, Option.bind_some, Option.isSome_map] at h
      have hhead : v.strings Bytes.Utf8 = true := utf8_of_denote v levels (by rw [hv]; rfl)
      rw [Json.stringsList, hhead, utf8_of_denoteElements rest levels h]
      rfl

theorem utf8_of_denoteFields (fields : List (Bytes × Json Bytes)) :
    ∀ levels, (denoteFields checked fields levels).isSome = true →
      Json.stringsFields Bytes.Utf8 fields = true := by
  intro levels h
  match fields with
  | [] => rfl
  | (k, v) :: rest =>
    rw [denoteFields] at h
    by_cases hk : Bytes.Utf8 k
    · rw [checked_of_utf8 hk, Option.bind_some] at h
      cases hv : denote checked v levels with
      | none => simp [hv] at h
      | some v' =>
        rw [hv, Option.bind_some, Option.isSome_map] at h
        have hhead : v.strings Bytes.Utf8 = true :=
          utf8_of_denote v levels (by rw [hv]; rfl)
        rw [Json.stringsFields, hhead, utf8_of_denoteFields rest levels h]
        simpa using hk
    · simp [checked, hk] at h
end

theorem hexDigit_ne_zero : ∀ n < 16, hexDigit n ≠ 0 := by decide

theorem zero_notMem_literal (s : Bytes) : (0 : UInt8) ∉ plainStyle.literal s := by
  have hbyte : ∀ b, (0 : UInt8) ∉ quoteByte b := by
    intro b
    have hdigit : ∀ n, hexDigit (n % 16) ≠ 0 := fun n =>
      hexDigit_ne_zero _ (Nat.mod_lt _ (by omega))
    unfold quoteByte
    repeat' split
    all_goals simp [unicodeEscape, Ne.symm (hdigit _)]
    rintro rfl
    simp_all
  simp only [Style.literal, plainStyle, List.mem_cons, List.mem_append, List.mem_flatMap]
  rintro (h | ⟨b, -, hb⟩ | h)
  · cases h
  · exact hbyte b hb
  · simp at h

mutual
theorem zero_notMem_write (v : Json Bytes) : (0 : UInt8) ∉ write plainStyle v := by
  match v with
  | .null => decide
  | .bool true => decide
  | .bool false => decide
  | .int64 n => rw [write]; exact Bytes.zero_notMem_decimalInt _
  | .uint64 n => rw [write]; exact Bytes.zero_notMem_decimal _
  | .double m e =>
    rw [write]
    simp [Bytes.zero_notMem_decimalInt]
  | .string s => rw [write]; exact zero_notMem_literal s
  | .array values =>
    rw [write, List.mem_cons]
    rintro (h | h)
    · cases h
    · exact zero_notMem_writeElements values h
  | .object fields =>
    rw [write, List.mem_cons]
    rintro (h | h)
    · cases h
    · exact zero_notMem_writeFields fields h

theorem zero_notMem_writeElements (values : List (Json Bytes)) :
    (0 : UInt8) ∉ writeElements plainStyle values := by
  match values with
  | [] => decide
  | [v] =>
    have hv := zero_notMem_write v
    simp [writeElements, hv]
  | v :: w :: rest =>
    have hv := zero_notMem_write v
    have hrest := zero_notMem_writeElements (w :: rest)
    simp [writeElements, hv, hrest, show plainStyle.gap = [] from rfl]

theorem zero_notMem_writeFields (fields : List (Bytes × Json Bytes)) :
    (0 : UInt8) ∉ writeFields plainStyle fields := by
  match fields with
  | [] => decide
  | [(k, v)] =>
    have hk := zero_notMem_literal k
    have hv := zero_notMem_write v
    simp [writeFields, hk, hv, show plainStyle.gap = [] from rfl]
  | (k, v) :: field :: rest =>
    have hk := zero_notMem_literal k
    have hv := zero_notMem_write v
    have hrest := zero_notMem_writeFields (field :: rest)
    simp [writeFields, hk, hv, hrest, show plainStyle.gap = [] from rfl]
end

/-- **Reader and plain writer form a codec.** -/
def codec : JsonCodec where
  parse := parse
  serialize := write plainStyle
  parse_serialize := by
    intro v hv
    rw [parse_write plainStyle_spells]
    exact denote_of_readable v Json.maxDepth hv
  parse_serialize_of_not_utf8 := by
    intro v hv
    rw [parse_write plainStyle_spells]
    cases h : denote checked v Json.maxDepth with
    | none => rfl
    | some w =>
      have := utf8_of_denote v Json.maxDepth (by rw [h]; rfl)
      rw [hv] at this
      cases this
  readable_of_parse := fun _ _ h => readable_of_parse h
  zero_notMem_serialize := zero_notMem_write

end JsonText
