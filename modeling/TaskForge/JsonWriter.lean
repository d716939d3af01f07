import TaskForge.JsonReader

/-!
# Writing JSON text, and reading it back

A writer is given by a `Style`: the blanks it puts after commas and colons and the
way it quotes its strings.  `parse_write` says what the reader makes of the text,
for any style: the written tree with every string replaced by what its literal
denotes, or an error if some literal denotes nothing.  A writer is therefore
understood as soon as its string literals are.
-/

namespace JsonText

/-- How a writer lays out a text and quotes its strings. -/
structure Style (σ : Type) where
  gap : Bytes
  quote : σ → Bytes
  gap_blank : ∀ b ∈ gap, isSpace b = true

variable {σ : Type} (style : Style σ)

/-- A quoted string. -/
def Style.literal (s : σ) : Bytes := 34 :: (style.quote s ++ [34])

mutual
def write : Json σ → Bytes
  | .null => Bytes.ofString "null"
  | .bool true => Bytes.ofString "true"
  | .bool false => Bytes.ofString "false"
  | .int64 n => Bytes.decimalInt n.toInt
  | .uint64 n => Bytes.decimal n.toNat
  | .double mantissa exponent =>
      Bytes.decimalInt mantissa ++ 69 :: Bytes.decimalInt exponent
  | .string s => style.literal s
  | .array values => 91 :: writeElements values
  | .object fields => 123 :: writeFields fields
def writeElements : List (Json σ) → Bytes
  | [] => [93]
  | [v] => write v ++ [93]
  | v :: w :: rest => write v ++ 44 :: (style.gap ++ writeElements (w :: rest))
def writeFields : List (σ × Json σ) → Bytes
  | [] => [125]
  | [(k, v)] => style.literal k ++ 58 :: (style.gap ++ (write v ++ [125]))
  | (k, v) :: field :: rest =>
      style.literal k ++ 58 :: (style.gap ++ (write v ++ 44 ::
        (style.gap ++ writeFields (field :: rest))))
end

section Denotation

variable (decode : σ → Option Bytes)

mutual
/-- What a tree denotes when its strings denote `decode`, `levels` deep at most. -/
def denote : Json σ → (levels : Nat) → Option (Json Bytes)
  | .null, _ => some .null
  | .bool b, _ => some (.bool b)
  | .int64 n, _ => some (.int64 n)
  | .uint64 n, _ => some (ofInteger n.toNat)
  | .double mantissa exponent, _ => some (.double mantissa exponent)
  | .string s, _ => (decode s).map .string
  | .array _, 0 => none
  | .array values, levels + 1 => (denoteElements values levels).map .array
  | .object _, 0 => none
  | .object fields, levels + 1 =>
      (denoteFields fields levels).map fun fields => .object (ofFields fields)
def denoteElements : List (Json σ) → Nat → Option (List (Json Bytes))
  | [], _ => some []
  | v :: rest, levels =>
      (denote v levels).bind fun v' => (denoteElements rest levels).map (v' :: ·)
def denoteFields : List (σ × Json σ) → Nat → Option (List (Bytes × Json Bytes))
  | [], _ => some []
  | (k, v) :: rest, levels =>
      (decode k).bind fun k' => (denote v levels).bind fun v' =>
        (denoteFields rest levels).map ((k', v') :: ·)
end

end Denotation

/-! ### Numbers -/

/-- Nothing that could continue a number. -/
def Delimited (rest : Bytes) : Prop :=
  ∀ b ∈ rest.head?, Bytes.isDigit b = false ∧ b ≠ 46 ∧ b ≠ 101 ∧ b ≠ 69

theorem delimited_nil : Delimited [] := by simp [Delimited]

theorem delimited_cons {b : UInt8} {rest : Bytes} (hdigit : Bytes.isDigit b = false)
    (hdot : b ≠ 46) (he : b ≠ 101) (hE : b ≠ 69) : Delimited (b :: rest) := by
  intro c hc
  cases hc
  exact ⟨hdigit, hdot, he, hE⟩

theorem spanDigits_append {digits rest : Bytes}
    (hdigits : ∀ b ∈ digits, Bytes.isDigit b = true)
    (hrest : ∀ b ∈ rest.head?, Bytes.isDigit b = false) :
    spanDigits (digits ++ rest) = (digits, rest) := by
  unfold spanDigits
  rw [List.takeWhile_append_of_pos hdigits, List.dropWhile_append_of_pos hdigits]
  cases rest with
  | nil => simp
  | cons b rest =>
    have hb := hrest b (by simp)
    simp [hb]

theorem wellFormedInt_decimal (n : Nat) : wellFormedInt (Bytes.decimal n) = true := by
  have hne := Bytes.decimal_ne_nil n
  cases hdec : Bytes.decimal n with
  | nil => exact absurd hdec hne
  | cons b digits =>
    by_cases hb : b = 48
    · subst hb
      have := Bytes.decimal_leading_zero hdec
      simp [wellFormedInt, this]
    · simp [wellFormedInt, hb]

theorem applySign_decimalInt (i : Int) (rest : Bytes) :
    ∃ negative n, readSign (Bytes.decimalInt i ++ rest) = (negative, Bytes.decimal n ++ rest) ∧
      applySign negative n = i := by
  cases i with
  | ofNat n =>
    refine ⟨false, n, ?_, by simp [applySign]⟩
    cases hdec : Bytes.decimal n with
    | nil => exact absurd hdec (Bytes.decimal_ne_nil n)
    | cons b digits =>
      have hb := Bytes.isDigit_of_mem_decimal (n := n) (b := b) (by simp [hdec])
      have : b ≠ 45 := by rintro rfl; simp [Bytes.isDigit] at hb
      simp [Bytes.decimalInt, hdec, readSign, this]
  | negSucc n =>
    exact ⟨true, n + 1, by simp [Bytes.decimalInt, readSign], by simp [applySign]; omega⟩

theorem readFraction_of_ne_dot {b : UInt8} (rest : Bytes) (h : b ≠ 46) :
    readFraction (b :: rest) = some ([], b :: rest) := by
  simp [readFraction, h]

theorem readFraction_delimited {rest : Bytes} (h : Delimited rest) :
    readFraction rest = some ([], rest) := by
  cases rest with
  | nil => rfl
  | cons b rest => exact readFraction_of_ne_dot rest (h b (by simp)).2.1

theorem readExponent_delimited {rest : Bytes} (h : Delimited rest) :
    readExponent rest = some (none, rest) := by
  cases rest with
  | nil => rfl
  | cons b rest =>
    have hb := h b (by simp)
    simp [readExponent, hb.2.2.1, hb.2.2.2]

theorem readNumber_decimalInt (i : Int) {rest : Bytes} (h : Delimited rest) :
    readNumber (Bytes.decimalInt i ++ rest) = some (ofInteger i, rest) := by
  obtain ⟨negative, n, hsign, hvalue⟩ := applySign_decimalInt i rest
  have hspan : spanDigits (Bytes.decimal n ++ rest) = (Bytes.decimal n, rest) :=
    spanDigits_append (fun _ hb => Bytes.isDigit_of_mem_decimal hb) (fun b hb => (h b hb).1)
  simp only [readNumber, hsign, hspan, wellFormedInt_decimal, if_true,
    readFraction_delimited h]
  simp [hvalue, readExponent_delimited h]

theorem readExponentSign_decimalInt (e : Int) (rest : Bytes) :
    readExponentSign (Bytes.decimalInt e ++ rest) = readSign (Bytes.decimalInt e ++ rest) := by
  have hplus : ∀ b digits, Bytes.decimalInt e = b :: digits → b ≠ 43 := by
    rintro b digits hdec rfl
    cases e with
    | ofNat n =>
      have := Bytes.isDigit_of_mem_decimal (n := n) (b := 43) (by
        have h : Bytes.decimal n = 43 :: digits := hdec
        simp [h])
      simp [Bytes.isDigit] at this
    | negSucc n => simp [Bytes.decimalInt] at hdec
  cases hdec : Bytes.decimalInt e with
  | nil => exact absurd hdec (Bytes.decimalInt_ne_nil e)
  | cons b digits => simp [readExponentSign, hplus b digits hdec]

theorem readExponent_decimalInt (e : Int) {rest : Bytes} (h : Delimited rest) :
    readExponent (69 :: (Bytes.decimalInt e ++ rest)) = some (some e, rest) := by
  obtain ⟨negative, n, hsign, hvalue⟩ := applySign_decimalInt e rest
  have hspan : spanDigits (Bytes.decimal n ++ rest) = (Bytes.decimal n, rest) :=
    spanDigits_append (fun _ hb => Bytes.isDigit_of_mem_decimal hb) (fun b hb => (h b hb).1)
  simp [readExponent, readExponentSign_decimalInt, hsign, hspan, Bytes.decimal_ne_nil, hvalue]

theorem readNumber_double (m e : Int) {rest : Bytes} (h : Delimited rest) :
    readNumber (Bytes.decimalInt m ++ 69 :: (Bytes.decimalInt e ++ rest)) =
      some (.double m e, rest) := by
  obtain ⟨negative, n, hsign, hvalue⟩ :=
    applySign_decimalInt m (69 :: (Bytes.decimalInt e ++ rest))
  have hspan : spanDigits (Bytes.decimal n ++ 69 :: (Bytes.decimalInt e ++ rest)) =
      (Bytes.decimal n, 69 :: (Bytes.decimalInt e ++ rest)) :=
    spanDigits_append (fun _ hb => Bytes.isDigit_of_mem_decimal hb)
      (fun b hb => by cases hb; rfl)
  simp only [readNumber, hsign, hspan, wellFormedInt_decimal, if_true,
    readFraction_of_ne_dot _ (show (69 : UInt8) ≠ 46 by decide)]
  simp [hvalue, readExponent_decimalInt e h]

/-! ### Reading a written tree -/

theorem skipSpace_append {blank : Bytes} (h : ∀ b ∈ blank, isSpace b = true) (text : Bytes) :
    skipSpace (blank ++ text) = skipSpace text := by
  unfold skipSpace
  exact List.dropWhile_append_of_pos h

theorem skipSpace_cons {b : UInt8} (h : isSpace b = false) (text : Bytes) :
    skipSpace (b :: text) = b :: text := by
  simp [skipSpace, h]

/-- A first byte of a value: no blank, and no closing bracket or brace. -/
def isStart (b : UInt8) : Bool := 34 ≤ b && b != 93 && b != 125

theorem isSpace_of_isStart {b : UInt8} (h : isStart b = true) : isSpace b = false := by
  simp only [isStart, Bool.and_eq_true, decide_eq_true_eq, UInt8.le_iff_toNat_le] at h
  have h34 : (34 : UInt8).toNat = 34 := rfl
  simp only [isSpace, Bool.or_eq_false_iff, beq_eq_false_iff_ne]
  refine ⟨⟨⟨?_, ?_⟩, ?_⟩, ?_⟩ <;> rintro rfl <;> simp at h

theorem ne_bracket_of_isStart {b : UInt8} (h : isStart b = true) : b ≠ 93 := by
  simp only [isStart, Bool.and_eq_true, bne_iff_ne] at h
  exact h.1.2

theorem isStart_of_isDigit {b : UInt8} (h : Bytes.isDigit b = true) : isStart b = true := by
  simp only [Bytes.isDigit, Bool.and_eq_true, decide_eq_true_eq, UInt8.le_iff_toNat_le] at h
  have h48 : (48 : UInt8).toNat = 48 := rfl
  have h57 : (57 : UInt8).toNat = 57 := rfl
  simp only [isStart, Bool.and_eq_true, decide_eq_true_eq, bne_iff_ne, UInt8.le_iff_toNat_le]
  have h34 : (34 : UInt8).toNat = 34 := rfl
  refine ⟨⟨by omega, ?_⟩, ?_⟩ <;> rintro rfl <;> simp at h

/-- A number starts with a digit or a minus sign. -/
theorem decimalInt_eq_cons (i : Int) :
    ∃ b digits, Bytes.decimalInt i = b :: digits ∧ (b = 45 ∨ Bytes.isDigit b = true) := by
  cases i with
  | ofNat n =>
    cases hdec : Bytes.decimal n with
    | nil => exact absurd hdec (Bytes.decimal_ne_nil n)
    | cons b digits =>
      exact ⟨b, digits, hdec, Or.inr (Bytes.isDigit_of_mem_decimal (n := n) (by simp [hdec]))⟩
  | negSucc n => exact ⟨45, _, rfl, Or.inl rfl⟩

theorem isStart_of_number {b : UInt8} (h : b = 45 ∨ Bytes.isDigit b = true) :
    isStart b = true := by
  rcases h with rfl | h
  · rfl
  · exact isStart_of_isDigit h

theorem write_eq_cons (v : Json σ) : ∃ b text, write style v = b :: text ∧ isStart b = true := by
  cases v with
  | null => exact ⟨_, _, rfl, rfl⟩
  | bool b => cases b <;> exact ⟨_, _, rfl, rfl⟩
  | int64 n =>
    obtain ⟨b, digits, hdec, hb⟩ := decimalInt_eq_cons n.toInt
    exact ⟨b, digits, by rw [write, hdec], isStart_of_number hb⟩
  | uint64 n =>
    obtain ⟨b, digits, hdec, hb⟩ := decimalInt_eq_cons (n.toNat : Int)
    exact ⟨b, digits, by rw [write, ← hdec]; rfl, isStart_of_number hb⟩
  | double m e =>
    obtain ⟨b, digits, hdec, hb⟩ := decimalInt_eq_cons m
    exact ⟨b, digits ++ 69 :: Bytes.decimalInt e, by rw [write, hdec]; rfl,
      isStart_of_number hb⟩
  | string s => exact ⟨_, _, by rw [write, Style.literal], rfl⟩
  | array values => exact ⟨_, _, by rw [write], rfl⟩
  | object fields => exact ⟨_, _, by rw [write], rfl⟩

theorem readValue_number {b : UInt8} (hb : b = 45 ∨ Bytes.isDigit b = true)
    (fuel levels : Nat) {blank : Bytes} (hblank : ∀ b ∈ blank, isSpace b = true)
    (text : Bytes) :
    readValue (fuel + 1) levels (blank ++ b :: text) = readNumber (b :: text) := by
  have hspace := isSpace_of_isStart (isStart_of_number hb)
  have hne : b ≠ 34 ∧ b ≠ 91 ∧ b ≠ 123 ∧ b ≠ 110 ∧ b ≠ 116 ∧ b ≠ 102 := by
    refine ⟨?_, ?_, ?_, ?_, ?_, ?_⟩ <;> rintro rfl <;> simp [Bytes.isDigit] at hb
  rw [readValue, skipSpace_append hblank, skipSpace_cons hspace]
  simp [hne]

theorem readValue_decimalInt (i : Int) {fuel : Nat} (levels : Nat) {blank rest : Bytes}
    (hblank : ∀ b ∈ blank, isSpace b = true) (hrest : Delimited rest) :
    readValue (fuel + 1) levels (blank ++ (Bytes.decimalInt i ++ rest)) =
      some (ofInteger i, rest) := by
  have hread := readNumber_decimalInt i hrest
  obtain ⟨b, digits, hdec, hb⟩ := decimalInt_eq_cons i
  rw [hdec, List.cons_append] at hread ⊢
  rw [readValue_number hb fuel levels hblank, hread]

theorem readValue_double (m e : Int) {fuel : Nat} (levels : Nat) {blank rest : Bytes}
    (hblank : ∀ b ∈ blank, isSpace b = true) (hrest : Delimited rest) :
    readValue (fuel + 1) levels
        (blank ++ (Bytes.decimalInt m ++ 69 :: Bytes.decimalInt e ++ rest)) =
      some (.double m e, rest) := by
  have hread := readNumber_double m e hrest
  obtain ⟨b, digits, hdec, hb⟩ := decimalInt_eq_cons m
  rw [hdec] at hread ⊢
  simp only [List.cons_append, List.append_assoc] at hread ⊢
  rw [readValue_number hb fuel levels hblank, hread]

theorem ofInteger_toInt (n : Int64) : ofInteger n.toInt = .int64 n := by
  have hlow := Int64.le_toInt n
  have hhigh := Int64.toInt_lt n
  unfold ofInteger
  rw [if_pos ⟨hlow, hhigh⟩, Int64.ofInt_toInt]

/-- The literals of a writer denote `decode`. -/
def Style.Spells (decode : σ → Option Bytes) : Prop :=
  ∀ s rest, readString (style.quote s ++ 34 :: rest) = (decode s).map fun t => (t, rest)

variable {style} {decode : σ → Option Bytes}

theorem Style.Spells.readString_literal (hspells : style.Spells decode) (s : σ) (rest : Bytes) :
    style.literal s ++ rest = 34 :: (style.quote s ++ 34 :: rest) ∧
      readString (style.quote s ++ 34 :: rest) = (decode s).map fun t => (t, rest) := by
  refine ⟨?_, hspells s rest⟩
  simp [Style.literal]

theorem delimited_comma (rest : Bytes) : Delimited (44 :: rest) :=
  delimited_cons rfl (by decide) (by decide) (by decide)

theorem delimited_bracket (rest : Bytes) : Delimited (93 :: rest) :=
  delimited_cons rfl (by decide) (by decide) (by decide)

theorem delimited_brace (rest : Bytes) : Delimited (125 :: rest) :=
  delimited_cons rfl (by decide) (by decide) (by decide)

theorem writeElements_eq_cons (style : Style σ) {values : List (Json σ)} (h : values ≠ []) :
    ∃ b text, writeElements style values = b :: text ∧ isStart b = true := by
  match values with
  | [] => exact absurd rfl h
  | [v] =>
    obtain ⟨b, text, hv, hb⟩ := write_eq_cons style v
    exact ⟨b, text ++ [93], by rw [writeElements, hv, List.cons_append], hb⟩
  | v :: w :: tail =>
    obtain ⟨b, text, hv, hb⟩ := write_eq_cons style v
    exact ⟨b, _, by rw [writeElements, hv, List.cons_append], hb⟩

theorem writeFields_eq_cons (style : Style σ) {fields : List (σ × Json σ)} (h : fields ≠ []) :
    ∃ text, writeFields style fields = 34 :: text := by
  match fields with
  | [] => exact absurd rfl h
  | [(k, v)] => exact ⟨_, by rw [writeFields, Style.literal, List.cons_append]⟩
  | (k, v) :: field :: tail =>
    exact ⟨_, by rw [writeFields, Style.literal, List.cons_append]⟩

-- Fuel is measured by the length of the text still to be read: every call of the
-- reader on a part of the tree leaves at least one byte (a bracket, a comma) behind.
mutual
theorem readValue_write (hspells : style.Spells decode) (v : Json σ) :
    ∀ (fuel levels : Nat) (blank rest : Bytes), (write style v).length ≤ fuel →
      (∀ b ∈ blank, isSpace b = true) → Delimited rest →
      readValue fuel levels (blank ++ (write style v ++ rest)) =
        (denote decode v levels).map fun v' => (v', rest) := by
  intro fuel levels blank rest hfuel hblank hrest
  obtain ⟨first, text, hstart, -⟩ := write_eq_cons style v
  obtain ⟨fuel, rfl⟩ : ∃ m, fuel = m + 1 :=
    Nat.exists_eq_succ_of_ne_zero (by rw [hstart, List.length_cons] at hfuel; omega)
  match v with
  | .null =>
    rw [readValue, skipSpace_append hblank]
    rfl
  | .bool true =>
    rw [readValue, skipSpace_append hblank]
    rfl
  | .bool false =>
    rw [readValue, skipSpace_append hblank]
    rfl
  | .int64 n =>
    rw [write, readValue_decimalInt _ levels hblank hrest, ofInteger_toInt]
    rfl
  | .uint64 n =>
    rw [write, denote]
    exact readValue_decimalInt (n.toNat : Int) levels hblank hrest
  | .double m e =>
    rw [write, readValue_double _ _ levels hblank hrest]
    rfl
  | .string s =>
    obtain ⟨hliteral, hread⟩ := hspells.readString_literal s rest
    rw [write, hliteral, readValue, skipSpace_append hblank, skipSpace_cons rfl, denote]
    simp only [if_true, hread, Option.map_map]
    rfl
  | .array values =>
    rw [write, List.cons_append, readValue, skipSpace_append hblank, skipSpace_cons rfl]
    simp only [show ¬ (91 : UInt8) = 34 by decide, if_false, if_true]
    cases levels with
    | zero => rw [denote]; rfl
    | succ levels =>
      rw [denote]
      dsimp only
      by_cases hempty : values = []
      · subst hempty
        rfl
      · obtain ⟨c, elements, hc, hstart'⟩ := writeElements_eq_cons style hempty
        have hne : c ≠ 93 := ne_bracket_of_isStart hstart'
        have hlen : (writeElements style values).length ≤ fuel := by
          rw [write, List.length_cons] at hfuel
          omega
        have hread := readElements_write hspells values hempty fuel levels [] rest hlen (by simp)
        rw [hc, List.nil_append, List.cons_append] at hread
        rw [hc, List.cons_append, skipSpace_cons (isSpace_of_isStart hstart')]
        simp only [if_neg hne, hread, Option.map_map]
        rfl
  | .object fields =>
    rw [write, List.cons_append, readValue, skipSpace_append hblank, skipSpace_cons rfl]
    simp only [show ¬ (123 : UInt8) = 34 by decide, show ¬ (123 : UInt8) = 91 by decide,
      if_false, if_true]
    cases levels with
    | zero => rw [denote]; rfl
    | succ levels =>
      rw [denote]
      dsimp only
      by_cases hempty : fields = []
      · subst hempty
        rfl
      · obtain ⟨members, hc⟩ := writeFields_eq_cons style hempty
        have hlen : (writeFields style fields).length ≤ fuel := by
          rw [write, List.length_cons] at hfuel
          omega
        have hread := readFields_write hspells fields hempty fuel levels [] rest hlen (by simp)
        rw [hc, List.nil_append, List.cons_append] at hread
        rw [hc, List.cons_append, skipSpace_cons rfl]
        simp only [show ¬ (34 : UInt8) = 125 by decide, if_false, hread, Option.map_map]
        rfl

theorem readElements_write (hspells : style.Spells decode) (values : List (Json σ)) :
    values ≠ [] → ∀ (fuel levels : Nat) (blank rest : Bytes),
      (writeElements style values).length ≤ fuel → (∀ b ∈ blank, isSpace b = true) →
      readElements fuel levels (blank ++ (writeElements style values ++ rest)) =
        (denoteElements decode values levels).map fun vs => (vs, rest) := by
  intro hne fuel levels blank rest hfuel hblank
  match values with
  | [] => exact absurd rfl hne
  | [v] =>
    simp only [writeElements, List.length_append, List.length_singleton] at hfuel
    obtain ⟨fuel, rfl⟩ : ∃ m, fuel = m + 1 := Nat.exists_eq_succ_of_ne_zero (by omega)
    have hread := readValue_write hspells v fuel levels blank (93 :: rest) (by omega) hblank
      (delimited_bracket rest)
    simp only [writeElements, List.append_assoc, List.singleton_append, readElements, hread,
      denoteElements]
    cases denote decode v levels with
    | none => rfl
    | some v' => rfl
  | v :: w :: tail =>
    simp only [writeElements, List.length_append, List.length_cons] at hfuel
    obtain ⟨fuel, rfl⟩ : ∃ m, fuel = m + 1 := Nat.exists_eq_succ_of_ne_zero (by omega)
    have hread := readValue_write hspells v fuel levels blank
      (44 :: (style.gap ++ (writeElements style (w :: tail) ++ rest))) (by omega) hblank
      (delimited_comma _)
    have htail := readElements_write hspells (w :: tail) (by simp) fuel levels style.gap rest
      (by omega) style.gap_blank
    rw [denoteElements]
    simp only [writeElements, List.append_assoc, List.cons_append, readElements, hread]
    cases denote decode v levels with
    | none => rfl
    | some v' =>
      show (readElements fuel levels (style.gap ++ (writeElements style (w :: tail) ++ rest))).map
        _ = _
      rw [htail]
      simp only [Option.bind_some, Option.map_map]
      rfl

theorem readFields_write (hspells : style.Spells decode) (fields : List (σ × Json σ)) :
    fields ≠ [] → ∀ (fuel levels : Nat) (blank rest : Bytes),
      (writeFields style fields).length ≤ fuel → (∀ b ∈ blank, isSpace b = true) →
      readFields fuel levels (blank ++ (writeFields style fields ++ rest)) =
        (denoteFields decode fields levels).map fun fs => (fs, rest) := by
  intro hne fuel levels blank rest hfuel hblank
  match fields with
  | [] => exact absurd rfl hne
  | [(k, v)] =>
    simp only [writeFields, List.length_append, List.length_cons] at hfuel
    obtain ⟨fuel, rfl⟩ : ∃ m, fuel = m + 1 := Nat.exists_eq_succ_of_ne_zero (by omega)
    obtain ⟨hliteral, hkey⟩ := hspells.readString_literal k
      (58 :: (style.gap ++ (write style v ++ 125 :: rest)))
    have hread := readValue_write hspells v fuel levels style.gap (125 :: rest) (by omega)
      style.gap_blank (delimited_brace rest)
    simp only [writeFields, List.append_assoc, List.cons_append, List.nil_append, hliteral,
      readFields, skipSpace_append hblank, skipSpace_cons (show isSpace 34 = false from rfl),
      if_true, hkey, denoteFields]
    cases decode k with
    | none => rfl
    | some k' =>
      simp only [Option.map_some, Option.bind_eq_bind, Option.bind_some,
        skipSpace_cons (show isSpace 58 = false from rfl), if_true, hread]
      cases denote decode v levels with
      | none => rfl
      | some v' => rfl
  | (k, v) :: field :: tail =>
    simp only [writeFields, List.length_append, List.length_cons] at hfuel
    obtain ⟨fuel, rfl⟩ : ∃ m, fuel = m + 1 := Nat.exists_eq_succ_of_ne_zero (by omega)
    obtain ⟨hliteral, hkey⟩ := hspells.readString_literal k
      (58 :: (style.gap ++ (write style v ++
        44 :: (style.gap ++ (writeFields style (field :: tail) ++ rest)))))
    have hread := readValue_write hspells v fuel levels style.gap
      (44 :: (style.gap ++ (writeFields style (field :: tail) ++ rest))) (by omega)
      style.gap_blank (delimited_comma _)
    have htail := readFields_write hspells (field :: tail) (by simp) fuel levels style.gap rest
      (by omega) style.gap_blank
    rw [denoteFields]
    simp only [writeFields, List.append_assoc, List.cons_append, hliteral,
      readFields, skipSpace_append hblank, skipSpace_cons (show isSpace 34 = false from rfl),
      if_true, hkey]
    cases decode k with
    | none => rfl
    | some k' =>
      simp only [Option.map_some, Option.bind_eq_bind, Option.bind_some,
        skipSpace_cons (show isSpace 58 = false from rfl), if_true, hread]
      cases denote decode v levels with
      | none => rfl
      | some v' =>
        show (readFields fuel levels
          (style.gap ++ (writeFields style (field :: tail) ++ rest))).map _ = _
        rw [htail]
        simp only [Option.bind_some, Option.map_map]
        rfl
end

/-- **Reading what was written**: every string is replaced by what its literal
    denotes. -/
theorem parse_write (hspells : style.Spells decode) (v : Json σ) :
    parse (write style v) = denote decode v Json.maxDepth := by
  have hread := readValue_write hspells v ((write style v).length + 1) Json.maxDepth [] []
    (Nat.le_succ _) (by simp) delimited_nil
  rw [List.nil_append, List.append_nil] at hread
  rw [parse, hread]
  cases denote decode v Json.maxDepth with
  | none => rfl
  | some v' => rfl

end JsonText
