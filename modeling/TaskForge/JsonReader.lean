import Mathlib.Data.List.Induction
import TaskForge.Json

/-!
# Reading JSON text

An executable reader for RFC 8259 texts with the choices `boost::json::parse`
documents: integers that fit are 64-bit integers, other numbers are doubles, the
last of several equal keys wins, nesting is limited, strings must be well-formed
UTF-8 and their `\u` escapes well-formed UTF-16.

A string literal is read in two passes: `scan` splits it into tokens up to the
closing quote, `assemble` joins the surrogate pairs.  The mutual functions on
values take fuel; `parse` supplies as much as the text is long.
-/

namespace JsonText

/-! ### String literals -/

/-- A piece of a string literal: a byte, or the code unit of a `\u` escape. -/
inductive Token where
  | raw (b : UInt8)
  | unit (u : Nat)
deriving DecidableEq, Repr

/-- The value of a hexadecimal digit, in either case. -/
def hexValue (b : UInt8) : Option Nat :=
  if 48 ≤ b && b ≤ 57 then some (b.toNat - 48)
  else if 97 ≤ b && b ≤ 102 then some (b.toNat - 87)
  else if 65 ≤ b && b ≤ 70 then some (b.toNat - 55)
  else none

/-- The code unit four hexadecimal digits spell. -/
def hex4 (a b c d : UInt8) : Option Nat := do
  let a ← hexValue a
  let b ← hexValue b
  let c ← hexValue c
  let d ← hexValue d
  some (((a * 16 + b) * 16 + c) * 16 + d)

/-- The byte a two-character escape stands for. -/
def simpleEscape (b : UInt8) : Option UInt8 :=
  if b = 34 ∨ b = 92 ∨ b = 47 then some b
  else if b = 98 then some 8
  else if b = 102 then some 12
  else if b = 110 then some 10
  else if b = 114 then some 13
  else if b = 116 then some 9
  else none

/-- Prepend a token to a scanned literal. -/
def consToken (t : Token) (scanned : List Token × Bytes) : List Token × Bytes :=
  (t :: scanned.1, scanned.2)

/-- Tokens up to the closing quote, and the text behind it. -/
def scan : Bytes → Option (List Token × Bytes)
  | [] => none
  | b :: rest =>
    if b = 34 then some ([], rest)
    else if b = 92 then
      match rest with
      | [] => none
      | c :: rest' =>
        if c = 117 then
          match rest' with
          | h₁ :: h₂ :: h₃ :: h₄ :: rest'' =>
            (hex4 h₁ h₂ h₃ h₄).bind fun u => (scan rest'').map (consToken (.unit u))
          | _ => none
        else (simpleEscape c).bind fun x => (scan rest').map (consToken (.raw x))
    else if b < 32 then none
    else (scan rest).map (consToken (.raw b))

/-- A leading surrogate. -/
def isHigh (u : Nat) : Bool := 0xD800 ≤ u && u < 0xDC00

/-- A trailing surrogate. -/
def isLow (u : Nat) : Bool := 0xDC00 ≤ u && u < 0xE000

/-- The character of a surrogate pair. -/
def pairChar (high low : Nat) : Char :=
  Char.ofNat (0x10000 + (high - 0xD800) * 0x400 + (low - 0xDC00))

/-- Bytes of a token sequence; an unpaired surrogate is an error. -/
def assemble : List Token → Option Bytes
  | [] => some []
  | .raw b :: rest => (assemble rest).map (b :: ·)
  | .unit u :: rest =>
    if isHigh u then
      match rest with
      | .unit v :: rest' =>
        if isLow v then
          (assemble rest').map (String.utf8EncodeChar (pairChar u v) ++ ·)
        else none
      | _ => none
    else if isLow u then none
    else (assemble rest).map (String.utf8EncodeChar (Char.ofNat u) ++ ·)

/-- The string whose opening quote has been read. -/
def readString (text : Bytes) : Option (Bytes × Bytes) := do
  let (tokens, rest) ← scan text
  let s ← assemble tokens
  if Bytes.Utf8 s then some (s, rest) else none

/-! ### Numbers -/

/-- The longest digit prefix, and what follows it. -/
def spanDigits (text : Bytes) : Bytes × Bytes :=
  (text.takeWhile Bytes.isDigit, text.dropWhile Bytes.isDigit)

/-- An optional minus sign. -/
def readSign : Bytes → Bool × Bytes
  | [] => (false, [])
  | b :: rest => if b = 45 then (true, rest) else (false, b :: rest)

def applySign (negative : Bool) (n : Nat) : Int := if negative then -(n : Int) else n

/-- Digits without a redundant leading zero. -/
def wellFormedInt (digits : Bytes) : Bool :=
  !digits.isEmpty && (digits.head? != some 48 || digits.length == 1)

/-- An optional fraction: its digits and the rest. -/
def readFraction (text : Bytes) : Option (Bytes × Bytes) :=
  match text with
  | [] => some ([], [])
  | b :: rest =>
    if b = 46 then
      if (spanDigits rest).1.isEmpty then none else some (spanDigits rest)
    else some ([], b :: rest)

/-- The sign of an exponent, which may also be a plus. -/
def readExponentSign : Bytes → Bool × Bytes
  | [] => (false, [])
  | b :: rest => if b = 43 then (false, rest) else readSign (b :: rest)

/-- An optional exponent. -/
def readExponent (text : Bytes) : Option (Option Int × Bytes) :=
  match text with
  | [] => some (none, [])
  | b :: rest =>
    if b = 101 ∨ b = 69 then
      let (negative, rest) := readExponentSign rest
      let (digits, rest) := spanDigits rest
      if digits.isEmpty then none
      else some (some (applySign negative (Bytes.digitsValue 0 digits)), rest)
    else some (none, b :: rest)

/-- An integer literal: 64-bit if it fits, a double otherwise. -/
def ofInteger (n : Int) : Json Bytes :=
  if -2 ^ 63 ≤ n ∧ n < 2 ^ 63 then .int64 (Int64.ofInt n)
  else if 0 ≤ n ∧ n < 2 ^ 64 then .uint64 (UInt64.ofNat n.toNat)
  else .double n 0

def readNumber (text : Bytes) : Option (Json Bytes × Bytes) := do
  let (negative, rest) := readSign text
  let (digits, rest) := spanDigits rest
  if wellFormedInt digits then
    let (fraction, rest) ← readFraction rest
    let (exponent, rest) ← readExponent rest
    let mantissa := applySign negative (Bytes.digitsValue 0 (digits ++ fraction))
    if fraction.isEmpty && exponent.isNone then some (ofInteger mantissa, rest)
    else some (.double mantissa (exponent.getD 0 - fraction.length), rest)
  else none

/-! ### Values -/

def isSpace (b : UInt8) : Bool := b == 32 || b == 9 || b == 10 || b == 13

def skipSpace (text : Bytes) : Bytes := text.dropWhile isSpace

/-- An expected literal. -/
def readLiteral (literal : Bytes) (v : Json Bytes) (text : Bytes) :
    Option (Json Bytes × Bytes) :=
  if literal.isPrefixOf text then some (v, text.drop literal.length) else none

/-- Fields in reading order, a later field replacing an earlier one of its key. -/
def ofFields (fields : List (Bytes × Json Bytes)) : Json.Object :=
  fields.foldl (fun o field => Json.Object.set o field.1 field.2) []

mutual
/-- A value, `levels` deep at most. -/
def readValue : (fuel levels : Nat) → Bytes → Option (Json Bytes × Bytes)
  | 0, _, _ => none
  | fuel + 1, levels, text =>
    match skipSpace text with
    | [] => none
    | b :: rest =>
      if b = 34 then (readString rest).map fun r => (.string r.1, r.2)
      else if b = 91 then
        match levels with
        | 0 => none
        | levels + 1 =>
          match skipSpace rest with
          | [] => none
          | c :: rest' =>
            if c = 93 then some (.array [], rest')
            else (readElements fuel levels (c :: rest')).map fun r => (.array r.1, r.2)
      else if b = 123 then
        match levels with
        | 0 => none
        | levels + 1 =>
          match skipSpace rest with
          | [] => none
          | c :: rest' =>
            if c = 125 then some (.object [], rest')
            else (readFields fuel levels (c :: rest')).map
              fun r => (.object (ofFields r.1), r.2)
      else if b = 110 then readLiteral (Bytes.ofString "null") .null (b :: rest)
      else if b = 116 then readLiteral (Bytes.ofString "true") (.bool true) (b :: rest)
      else if b = 102 then readLiteral (Bytes.ofString "false") (.bool false) (b :: rest)
      else readNumber (b :: rest)

/-- The elements of a non-empty array, with the closing bracket. -/
def readElements : (fuel levels : Nat) → Bytes → Option (List (Json Bytes) × Bytes)
  | 0, _, _ => none
  | fuel + 1, levels, text => do
    let (v, rest) ← readValue fuel levels text
    match skipSpace rest with
    | [] => none
    | b :: rest =>
      if b = 44 then
        (readElements fuel levels rest).map fun r => (v :: r.1, r.2)
      else if b = 93 then some ([v], rest)
      else none

/-- The fields of a non-empty object, with the closing brace. -/
def readFields : (fuel levels : Nat) → Bytes → Option (List (Bytes × Json Bytes) × Bytes)
  | 0, _, _ => none
  | fuel + 1, levels, text =>
    match skipSpace text with
    | [] => none
    | q :: rest =>
      if q = 34 then do
        let (key, rest) ← readString rest
        match skipSpace rest with
        | [] => none
        | c :: rest =>
          if c = 58 then do
            let (v, rest) ← readValue fuel levels rest
            match skipSpace rest with
            | [] => none
            | b :: rest =>
              if b = 44 then
                (readFields fuel levels rest).map fun r => ((key, v) :: r.1, r.2)
              else if b = 125 then some ([(key, v)], rest)
              else none
          else none
      else none
end

/-- The value a whole text denotes. -/
def parse (text : Bytes) : Option (Json Bytes) := do
  let (v, rest) ← readValue (text.length + 1) Json.maxDepth text
  if skipSpace rest = [] then some v else none

example : (parse (Bytes.ofString "\x7b\"a\": [1, -2, \"\\u00e9\"]\x7d")).isSome = true := by
  decide

/-! ### What the reader produces is readable -/

theorem utf8_of_readString {text s rest : Bytes} (h : readString text = some (s, rest)) :
    Bytes.Utf8 s := by
  simp only [readString, Option.bind_eq_bind, Option.bind_eq_some_iff] at h
  obtain ⟨⟨tokens, rest'⟩, -, s', -, hs⟩ := h
  split at hs
  · cases hs; assumption
  · cases hs

theorem readable_ofInteger (n : Nat) (i : Int) : (ofInteger i).ReadableAt n := by
  unfold ofInteger
  split
  · exact Json.formedAt_int64 n _
  · split
    · refine ⟨rfl, ?_, Nat.zero_le n⟩
      have hsize : i.toNat < UInt64.size := by
        simp only [UInt64.size]
        omega
      simp only [Json.canonical, decide_eq_true_eq]
      rw [UInt64.toNat_ofNat_of_lt' hsize]
      omega
    · exact ⟨rfl, rfl, Nat.zero_le n⟩

theorem readable_of_readNumber {n : Nat} {text rest : Bytes} {v : Json Bytes}
    (h : readNumber text = some (v, rest)) : v.ReadableAt n := by
  simp only [readNumber, Option.bind_eq_bind] at h
  split at h
  · simp only [Option.bind_eq_some_iff] at h
    obtain ⟨fraction, -, exponent, -, h⟩ := h
    split at h
    · cases h; exact readable_ofInteger n _
    · cases h; exact ⟨rfl, rfl, Nat.zero_le n⟩
  · cases h

theorem readable_of_readLiteral {n : Nat} {literal text rest : Bytes} {v w : Json Bytes}
    (hw : w.ReadableAt n) (h : readLiteral literal w text = some (v, rest)) :
    v.ReadableAt n := by
  unfold readLiteral at h
  split at h
  · cases h; exact hw
  · cases h

theorem ofFields_append (fields : List (Bytes × Json Bytes)) (field : Bytes × Json Bytes) :
    ofFields (fields ++ [field]) = Json.Object.set (ofFields fields) field.1 field.2 := by
  simp [ofFields]

theorem nodup_keys_ofFields (fields : List (Bytes × Json Bytes)) :
    (ofFields fields).keys.Nodup := by
  induction fields using List.reverseRecOn with
  | nil => simp [ofFields, Json.Object.keys]
  | append_singleton fields field ih =>
    rw [ofFields_append]
    exact Json.Object.nodup_keys_set ih _ _

theorem mem_of_mem_ofFields {fields : List (Bytes × Json Bytes)} {field : Bytes × Json Bytes}
    (h : field ∈ ofFields fields) : field ∈ fields := by
  induction fields using List.reverseRecOn with
  | nil => simp [ofFields] at h
  | append_singleton fields last ih =>
    rw [ofFields_append] at h
    rcases Json.Object.mem_set h with rfl | h
    · simp
    · exact List.mem_append_left _ (ih h)

/-- Distinct keys are kept as they were read. -/
theorem ofFields_eq_self {fields : List (Bytes × Json Bytes)}
    (h : (fields.map Prod.fst).Nodup) : ofFields fields = fields := by
  induction fields using List.reverseRecOn with
  | nil => rfl
  | append_singleton fields field ih =>
    simp only [List.map_append, List.map_cons, List.map_nil] at h
    have hparts := List.nodup_append.mp h
    have hfresh : field.1 ∉ fields.map Prod.fst := fun hmem =>
      hparts.2.2 _ hmem field.1 (by simp) rfl
    rw [ofFields_append, ih hparts.1]
    exact Json.Object.set_of_notMem hfresh _

/-- With this fuel, what is read is readable. -/
structure ReadsReadable (fuel : Nat) : Prop where
  value : ∀ {levels text v rest}, readValue fuel levels text = some (v, rest) → v.ReadableAt levels
  elements : ∀ {levels text vs rest}, readElements fuel levels text = some (vs, rest) →
    ∀ v ∈ vs, v.ReadableAt levels
  fields : ∀ {levels text fields rest}, readFields fuel levels text = some (fields, rest) →
    ∀ field ∈ fields, Bytes.Utf8 field.1 ∧ field.2.ReadableAt levels

section Step

variable {fuel levels : Nat} {text rest : Bytes} (ih : ReadsReadable fuel)

include ih

/-- Strings are checked where they are read, nesting by `levels`, and keys become distinct
    in `ofFields`. -/
theorem ReadsReadable.value_step {v : Json Bytes}
    (h : readValue (fuel + 1) levels text = some (v, rest)) : v.ReadableAt levels := by
  rw [readValue] at h
  split at h
  · cases h
  rename_i b rest' _
  split at h
  · -- a string
    obtain ⟨r, hr, heq⟩ := Option.map_eq_some_iff.mp h
    cases heq
    exact (Json.formedAt_string_iff _ _).mpr (utf8_of_readString hr)
  split at h
  · -- an array
    split at h
    · cases h
    split at h
    · cases h
    split at h
    · cases h
      exact (Json.formedAt_array_iff _ _).mpr (by simp)
    · obtain ⟨r, hr, heq⟩ := Option.map_eq_some_iff.mp h
      cases heq
      exact (Json.formedAt_array_iff _ _).mpr (ih.elements hr)
  split at h
  · -- an object
    split at h
    · cases h
    split at h
    · cases h
    split at h
    · cases h
      exact (Json.formedAt_object_iff _ _).mpr (by simp [Json.Object.keys])
    · obtain ⟨r, hr, heq⟩ := Option.map_eq_some_iff.mp h
      cases heq
      refine (Json.formedAt_object_iff _ _).mpr ⟨nodup_keys_ofFields _, ?_⟩
      intro field hfield
      exact ih.fields hr field (mem_of_mem_ofFields hfield)
  split at h
  · exact readable_of_readLiteral (Json.formedAt_null _) h
  split at h
  · exact readable_of_readLiteral ⟨rfl, rfl, Nat.zero_le _⟩ h
  split at h
  · exact readable_of_readLiteral ⟨rfl, rfl, Nat.zero_le _⟩ h
  · exact readable_of_readNumber h

theorem ReadsReadable.elements_step {vs : List (Json Bytes)}
    (h : readElements (fuel + 1) levels text = some (vs, rest)) :
    ∀ v ∈ vs, v.ReadableAt levels := by
  simp only [readElements, Option.bind_eq_bind, Option.bind_eq_some_iff] at h
  obtain ⟨⟨v, rest'⟩, hv, h⟩ := h
  have hread := ih.value hv
  dsimp only at h
  split at h
  · cases h
  split at h
  · obtain ⟨r, hr, heq⟩ := Option.map_eq_some_iff.mp h
    cases heq
    exact List.forall_mem_cons.mpr ⟨hread, ih.elements hr⟩
  split at h
  · cases h
    exact List.forall_mem_singleton.mpr hread
  · cases h

theorem ReadsReadable.fields_step {fields : List (Bytes × Json Bytes)}
    (h : readFields (fuel + 1) levels text = some (fields, rest)) :
    ∀ field ∈ fields, Bytes.Utf8 field.1 ∧ field.2.ReadableAt levels := by
  rw [readFields] at h
  split at h
  · cases h
  split at h
  · simp only [Option.bind_eq_bind, Option.bind_eq_some_iff] at h
    obtain ⟨⟨key, rest₁⟩, hkey, h⟩ := h
    have hutf8 := utf8_of_readString hkey
    dsimp only at h
    split at h
    · cases h
    split at h
    · simp only [Option.bind_eq_some_iff] at h
      obtain ⟨⟨v, rest₂⟩, hv, h⟩ := h
      have hread := ih.value hv
      dsimp only at h
      split at h
      · cases h
      split at h
      · obtain ⟨r, hr, heq⟩ := Option.map_eq_some_iff.mp h
        cases heq
        exact List.forall_mem_cons.mpr ⟨⟨hutf8, hread⟩, ih.fields hr⟩
      split at h
      · cases h
        exact List.forall_mem_singleton.mpr ⟨hutf8, hread⟩
      · cases h
    · cases h
  · cases h

end Step

theorem readsReadable (fuel : Nat) : ReadsReadable fuel := by
  induction fuel with
  | zero =>
    refine ⟨?_, ?_, ?_⟩ <;>
      intro _ _ _ _ h <;> simp [readValue, readElements, readFields] at h
  | succ fuel ih => exact ⟨ih.value_step, ih.elements_step, ih.fields_step⟩

/-- **The reader produces readable values only.** -/
theorem readable_of_parse {text : Bytes} {v : Json Bytes} (h : parse text = some v) :
    v.Readable := by
  simp only [parse, Option.bind_eq_bind, Option.bind_eq_some_iff] at h
  obtain ⟨⟨w, rest⟩, hread, h⟩ := h
  dsimp only at h
  split at h
  · cases h; exact (readsReadable _).value hread
  · cases h

end JsonText
