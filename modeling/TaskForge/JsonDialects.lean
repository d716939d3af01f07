import TaskForge.JsonLiteral

/-!
# Writers that escape

Strings of JavaScript and Python are sequences of code points that may contain
surrogates.  Their JSON writers, and that of Go, differ in the characters they copy
and in the blanks they insert, and agree in everything else: `Escaping` is what they
differ in.

What the reader makes of such a literal does not depend on the writer.  It is the
UTF-8 encoding of the string if its surrogates pair up, and nothing otherwise
(`Escaping.spells`).
-/

namespace JsonText

/-! ### Code points -/

/-- A code point; unlike a `Char` it may be a surrogate. -/
@[ext] structure CodePoint where
  value : Nat
  lt : value < 0x110000
deriving DecidableEq, Repr

/-- A string as a sequence of code points. -/
abbrev CodePoints := List CodePoint

def CodePoint.ofChar (c : Char) : CodePoint := ⟨c.toNat, by
  have := c.valid
  rcases this with h | ⟨-, h⟩
  · exact Nat.lt_trans h (by decide)
  · exact h⟩

/-- A string without surrogates. -/
def codePoints (cs : List Char) : CodePoints := cs.map CodePoint.ofChar

/-- The UTF-8 encoding; an unpaired surrogate has none. -/
def encodePoints : CodePoints → Option Bytes
  | [] => some []
  | c :: rest =>
    if isHigh c.value then
      match rest with
      | d :: rest' =>
        if isLow d.value then
          (encodePoints rest').map (String.utf8EncodeChar (pairChar c.value d.value) ++ ·)
        else none
      | [] => none
    else if isLow c.value then none
    else (encodePoints rest).map (String.utf8EncodeChar (Char.ofNat c.value) ++ ·)

theorem isHigh_iff {u : Nat} : isHigh u = true ↔ 0xD800 ≤ u ∧ u < 0xDC00 := by simp [isHigh]

theorem isLow_iff {u : Nat} : isLow u = true ↔ 0xDC00 ≤ u ∧ u < 0xE000 := by simp [isLow]

/-- Neither half of a surrogate pair. -/
def isScalar (u : Nat) : Bool := !isHigh u && !isLow u

theorem encodePoints_scalar {c : CodePoint} (hc : isScalar c.value = true) (rest : CodePoints) :
    encodePoints (c :: rest) =
      (encodePoints rest).map (String.utf8EncodeChar (Char.ofNat c.value) ++ ·) := by
  simp only [isScalar, Bool.and_eq_true, Bool.not_eq_true'] at hc
  rw [encodePoints.eq_def]
  simp [hc.1, hc.2]

theorem isScalar_toNat (c : Char) : isScalar c.toNat = true := by
  have hvalid : c.toNat < 0xd800 ∨ 0xdfff < c.toNat ∧ c.toNat < 0x110000 := c.valid
  simp only [isScalar, isHigh, isLow, Bool.and_eq_true, Bool.not_eq_true', Bool.and_eq_false_iff,
    decide_eq_false_iff_not]
  omega

theorem isScalar_ofChar (c : Char) : isScalar (CodePoint.ofChar c).value = true :=
  isScalar_toNat c

theorem encodePoints_append (cs : List Char) (rest : CodePoints) :
    encodePoints (codePoints cs ++ rest) = (encodePoints rest).map (Bytes.encode cs ++ ·) := by
  induction cs with
  | nil => simp [codePoints]
  | cons c cs ih =>
    show encodePoints (CodePoint.ofChar c :: (codePoints cs ++ rest)) = _
    rw [encodePoints_scalar (isScalar_ofChar c), ih, Option.map_map]
    simp only [CodePoint.ofChar, Char.ofNat_toNat, Function.comp_def, Bytes.encode_cons,
      List.append_assoc]

/-- ASCII text as a string. -/
def asciiPoints (s : Bytes) : CodePoints :=
  s.map fun b => ⟨b.toNat, Nat.lt_trans b.toNat_lt (by decide)⟩

theorem encodePoints_ascii {s : Bytes} (h : ∀ b ∈ s, b < 128) (rest : CodePoints) :
    encodePoints (asciiPoints s ++ rest) = (encodePoints rest).map (s ++ ·) := by
  induction s with
  | nil => simp [asciiPoints]
  | cons b s ih =>
    have hb : b.toNat < 128 := UInt8.lt_iff_toNat_lt.mp (h b (by simp))
    have hscalar : isScalar b.toNat = true := by
      simp only [isScalar, isHigh, isLow, Bool.and_eq_true, Bool.not_eq_true',
        Bool.and_eq_false_iff, decide_eq_false_iff_not]
      omega
    show encodePoints (⟨b.toNat, _⟩ :: (asciiPoints s ++ rest)) = _
    rw [encodePoints_scalar hscalar, ih fun c hc => h c (List.mem_cons_of_mem b hc),
      Option.map_map]
    simp only [Bytes.utf8EncodeChar_ascii hb, UInt8.ofNat_toNat]
    rfl

theorem encodePoints_codePoints (cs : List Char) :
    encodePoints (codePoints cs) = some (Bytes.encode cs) := by
  have h := encodePoints_append cs []
  rw [List.append_nil] at h
  rw [h, encodePoints]
  simp

theorem val_ofNat {u : Nat} (hscalar : isScalar u = true) (hu : u < 0x110000) :
    (Char.ofNat u).val.toNat = u := by
  simp only [isScalar, isHigh, isLow, Bool.and_eq_true, Bool.not_eq_true', Bool.and_eq_false_iff,
    decide_eq_false_iff_not] at hscalar
  have hvalid : u.isValidChar := by
    unfold Nat.isValidChar
    omega
  rw [Char.ofNat, dif_pos hvalid]
  rfl

theorem le_pairChar {u v : Nat} (hhigh : isHigh u = true) (hlow : isLow v = true) :
    ¬ (pairChar u v).val.toNat < 128 := by
  rw [isHigh_iff] at hhigh
  rw [isLow_iff] at hlow
  have hscalar : isScalar (0x10000 + (u - 0xD800) * 0x400 + (v - 0xDC00)) = true := by
    simp only [isScalar, isHigh, isLow, Bool.and_eq_true, Bool.not_eq_true',
      Bool.and_eq_false_iff, decide_eq_false_iff_not]
    omega
  rw [pairChar, val_ofNat hscalar (by omega)]
  omega

/-- The ASCII characters of a string are the ASCII bytes of its encoding. -/
theorem mem_encodePoints {s : CodePoints} {b : UInt8} (hb : b.toNat < 128) :
    ∀ {t : Bytes}, encodePoints s = some t → (b ∈ t ↔ ∃ c ∈ s, c.value = b.toNat) := by
  fun_induction encodePoints s with
  | case1 =>
    intro t h
    cases h
    simp
  | case2 c hhigh d rest hlow ih =>
    intro t h
    obtain ⟨t', ht', rfl⟩ := Option.map_eq_some_iff.mp h
    have hpair : b ∉ String.utf8EncodeChar (pairChar c.value d.value) := fun hmem =>
      absurd (Bytes.le_of_mem_utf8EncodeChar (le_pairChar hhigh hlow) hmem) (Nat.not_le.mpr hb)
    have hne : c.value ≠ b.toNat ∧ d.value ≠ b.toNat := by
      rw [isHigh_iff] at hhigh
      rw [isLow_iff] at hlow
      omega
    simp [List.mem_append, hpair, ih ht', hne.1, hne.2]
  | case3 | case4 | case5 => exact nofun
  | case6 c rest hhigh hlow ih =>
    intro t h
    obtain ⟨t', ht', rfl⟩ := Option.map_eq_some_iff.mp h
    have hscalar : isScalar c.value = true := by simp [isScalar, hhigh, hlow]
    have hhead : b ∈ String.utf8EncodeChar (Char.ofNat c.value) ↔ c.value = b.toNat := by
      by_cases hascii : c.value < 128
      · rw [Bytes.utf8EncodeChar_ascii hascii, List.mem_singleton, ← UInt8.toNat_inj]
        simp only [UInt8.toNat_ofNat']
        omega
      · refine iff_of_false (fun hmem => ?_) (by omega)
        have hle := Bytes.le_of_mem_utf8EncodeChar
          (by rwa [val_ofNat hscalar c.lt]) hmem
        omega
    simp [List.mem_append, hhead, ih ht']

theorem utf8EncodeChar_ne_nil (c : Char) : String.utf8EncodeChar c ≠ [] := by
  unfold String.utf8EncodeChar
  dsimp only
  repeat' split
  all_goals exact List.cons_ne_nil _ _

/-- A string whose encoding starts with an ASCII byte starts with that character. -/
theorem encodePoints_cons_ascii {s : CodePoints} {b : UInt8} {t : Bytes}
    (hb : b.toNat < 128) (h : encodePoints s = some (b :: t)) :
    ∃ c rest, s = c :: rest ∧ c.value = b.toNat ∧ encodePoints rest = some t := by
  have hnot : ∀ {c : Char} {u : Bytes}, ¬ c.val.toNat < 128 →
      String.utf8EncodeChar c ++ u ≠ b :: t := by
    intro c u hc heq
    cases hchar : String.utf8EncodeChar c with
    | nil => exact utf8EncodeChar_ne_nil c hchar
    | cons b' u' =>
      rw [hchar] at heq
      obtain rfl : b' = b := (List.cons.inj heq).1
      have hle := Bytes.le_of_mem_utf8EncodeChar hc (hchar ▸ List.mem_cons_self ..)
      omega
  rw [encodePoints.eq_def] at h
  split at h
  · cases h
  · rename_i c rest
    split at h
    · rename_i hhigh
      split at h
      · split at h
        · rename_i hlow
          obtain ⟨u, -, heq⟩ := Option.map_eq_some_iff.mp h
          exact absurd heq (hnot (le_pairChar hhigh hlow))
        · cases h
      · cases h
    · rename_i hhigh
      split at h
      · cases h
      · rename_i hlow
        obtain ⟨u, hu, heq⟩ := Option.map_eq_some_iff.mp h
        have hscalar : isScalar c.value = true := by simp [isScalar, hhigh, hlow]
        by_cases hascii : c.value < 128
        · rw [Bytes.utf8EncodeChar_ascii hascii] at heq
          obtain ⟨rfl, rfl⟩ := List.cons.inj heq
          refine ⟨c, rest, rfl, ?_, hu⟩
          simp only [UInt8.toNat_ofNat']
          omega
        · exact absurd heq (hnot (by rwa [val_ofNat hscalar c.lt]))

/-- What has an encoding is well-formed. -/
theorem utf8_of_encodePoints {s : CodePoints} :
    ∀ {t : Bytes}, encodePoints s = some t → Bytes.Utf8 t := by
  have hchar : ∀ c : Char, Bytes.Utf8 (String.utf8EncodeChar c) := fun c => ⟨[c], by simp⟩
  fun_induction encodePoints s with
  | case1 =>
    intro t h
    cases h
    exact Bytes.utf8_nil
  | case2 c hhigh d rest hlow ih =>
    intro t h
    obtain ⟨t', ht', rfl⟩ := Option.map_eq_some_iff.mp h
    exact (hchar _).append (ih ht')
  | case3 | case4 | case5 => exact nofun
  | case6 c rest hhigh hlow ih =>
    intro t h
    obtain ⟨t', ht', rfl⟩ := Option.map_eq_some_iff.mp h
    exact (hchar _).append (ih ht')

/-- Only the empty string has an empty encoding. -/
theorem ne_nil_of_encodePoints {s : CodePoints} {t : Bytes} (h : encodePoints s = some t)
    (hs : s ≠ []) : t ≠ [] := by
  have hnil : ∀ {c : Char} {u : Option Bytes}, u.map (String.utf8EncodeChar c ++ ·) ≠ some [] := by
    intro c u heq
    obtain ⟨t, -, ht⟩ := Option.map_eq_some_iff.mp heq
    exact utf8EncodeChar_ne_nil c (List.append_eq_nil_iff.mp ht).1
  rintro rfl
  revert h hs
  fun_cases encodePoints s with
  | case1 => exact fun hs _ => absurd rfl hs
  | case2 | case6 => exact fun _ h => hnil h
  | case3 | case4 | case5 => exact nofun

/-! ### Escaping -/

/-- The letter of a two-character escape. -/
def shortEscape (u : Nat) : Option UInt8 :=
  if u = 34 then some 34
  else if u = 92 then some 92
  else if u = 8 then some 98
  else if u = 12 then some 102
  else if u = 10 then some 110
  else if u = 13 then some 114
  else if u = 9 then some 116
  else none

/-- Which characters a writer copies, of those that have no short escape. -/
structure Escaping where
  copies : Nat → Bool
  copies_plain : ∀ u, copies u = true → 32 ≤ u ∧ isScalar u = true

/-- The halves of a character beyond the basic plane. -/
def highHalf (u : Nat) : Nat := 0xD800 + (u - 0x10000) / 0x400

def lowHalf (u : Nat) : Nat := 0xDC00 + (u - 0x10000) % 0x400

variable (escaping : Escaping)

def Escaping.quotePoint (u : Nat) : Bytes :=
  match shortEscape u with
  | some letter => [92, letter]
  | none =>
    if escaping.copies u then String.utf8EncodeChar (Char.ofNat u)
    else if u < 0x10000 then unicodeEscape u
    else unicodeEscape (highHalf u) ++ unicodeEscape (lowHalf u)

/-- The tokens a code point comes back as. -/
def Escaping.tokens (u : Nat) : List Token :=
  match shortEscape u with
  | some _ => [.raw (UInt8.ofNat u)]
  | none =>
    if escaping.copies u then (String.utf8EncodeChar (Char.ofNat u)).map .raw
    else if u < 0x10000 then [.unit u]
    else [.unit (highHalf u), .unit (lowHalf u)]

/-- The writer with this escaping. -/
def Escaping.style (gap : Bytes) (hgap : ∀ b ∈ gap, isSpace b = true) : Style CodePoints where
  gap := gap
  quote := fun s => s.flatMap fun c => escaping.quotePoint c.value
  gap_blank := hgap

theorem shortEscape_cases {u : Nat} {letter : UInt8} (h : shortEscape u = some letter) :
    simpleEscape letter = some (UInt8.ofNat u) ∧ letter ≠ 117 ∧ u < 128 := by
  unfold shortEscape at h
  repeat' split at h
  all_goals first | (cases h; subst_vars; decide) | cases h

/-- The bytes of a copied character need no escape. -/
theorem isPlain_of_mem_utf8EncodeChar {u : Nat} (hshort : shortEscape u = none)
    (hscalar : isScalar u = true) (hle : 32 ≤ u) (hu : u < 0x110000) {b : UInt8}
    (hb : b ∈ String.utf8EncodeChar (Char.ofNat u)) : isPlain b = true := by
  by_cases hascii : u < 128
  · rw [Bytes.utf8EncodeChar_ascii hascii, List.mem_singleton] at hb
    subst hb
    have hquote : u ≠ 34 ∧ u ≠ 92 := by
      constructor <;> rintro rfl <;> cases hshort
    have hvalue : (UInt8.ofNat u).toNat = u := by simp; omega
    simp only [isPlain, Bool.and_eq_true, decide_eq_true_eq, bne_iff_ne, ne_eq,
      UInt8.le_iff_toNat_le, ← UInt8.toNat_inj, hvalue]
    exact ⟨⟨hle, hquote.1⟩, hquote.2⟩
  · have hhigh : 128 ≤ b.toNat :=
      Bytes.le_of_mem_utf8EncodeChar (by rwa [val_ofNat hscalar hu]) hb
    simp only [isPlain, Bool.and_eq_true, decide_eq_true_eq, bne_iff_ne, ne_eq,
      UInt8.le_iff_toNat_le, ← UInt8.toNat_inj]
    refine ⟨⟨Nat.le_trans (by decide) hhigh, ?_⟩, ?_⟩
    · exact fun h => absurd (h ▸ hhigh) (by decide)
    · exact fun h => absurd (h ▸ hhigh) (by decide)

theorem Escaping.scans_quotePoint {u : Nat} (hu : u < 0x110000) :
    Scans (escaping.quotePoint u) (escaping.tokens u) := by
  unfold quotePoint tokens
  cases hshort : shortEscape u with
  | some letter =>
    obtain ⟨hsimple, hne, -⟩ := shortEscape_cases hshort
    exact scans_simpleEscape hsimple hne
  | none =>
    dsimp only
    split
    · rename_i hcopies
      obtain ⟨hle, hscalar⟩ := escaping.copies_plain u hcopies
      have hraw := scans_flatMap (fun b => [b]) (fun b => [Token.raw b])
        (String.utf8EncodeChar (Char.ofNat u)) fun b hb =>
          scans_raw (isPlain_of_mem_utf8EncodeChar hshort hscalar hle hu hb)
      rwa [List.flatMap_singleton', ← List.map_eq_flatMap] at hraw
    split
    · rename_i hlt
      exact scans_unicodeEscape hlt
    · refine (scans_unicodeEscape ?_).append (scans_unicodeEscape ?_)
      · unfold highHalf
        omega
      · unfold lowHalf
        omega

/-! ### Reading -/

theorem assemble_raw (bytes : Bytes) (rest : List Token) :
    assemble (bytes.map .raw ++ rest) = (assemble rest).map (bytes ++ ·) := by
  induction bytes with
  | nil => simp
  | cons b bytes ih =>
    rw [List.map_cons, List.cons_append, assemble, ih, Option.map_map]
    rfl

theorem assemble_unit {u : Nat} (hscalar : isScalar u = true) (rest : List Token) :
    assemble (.unit u :: rest) =
      (assemble rest).map (String.utf8EncodeChar (Char.ofNat u) ++ ·) := by
  simp only [isScalar, Bool.and_eq_true, Bool.not_eq_true'] at hscalar
  rw [assemble.eq_def]
  simp [hscalar.1, hscalar.2]

theorem assemble_pair {u v : Nat} (hhigh : isHigh u = true) (hlow : isLow v = true)
    (rest : List Token) :
    assemble (.unit u :: .unit v :: rest) =
      (assemble rest).map (String.utf8EncodeChar (pairChar u v) ++ ·) := by
  rw [assemble.eq_def]
  simp [hhigh, hlow]

theorem isHigh_highHalf {u : Nat} (hge : 0x10000 ≤ u) (hu : u < 0x110000) :
    isHigh (highHalf u) = true := by
  rw [isHigh_iff]
  unfold highHalf
  omega

theorem isLow_lowHalf (u : Nat) : isLow (lowHalf u) = true := by
  rw [isLow_iff]
  unfold lowHalf
  omega

theorem pairChar_halves {u : Nat} (hge : 0x10000 ≤ u) :
    pairChar (highHalf u) (lowHalf u) = Char.ofNat u := by
  have hsum : 0x10000 + (highHalf u - 0xD800) * 0x400 + (lowHalf u - 0xDC00) = u := by
    unfold highHalf lowHalf
    omega
  unfold pairChar
  rw [hsum]

/-- However it is written, a scalar value is read as its encoding. -/
theorem Escaping.assemble_scalar {u : Nat} (hscalar : isScalar u = true) (hu : u < 0x110000)
    (rest : List Token) :
    assemble (escaping.tokens u ++ rest) =
      (assemble rest).map (String.utf8EncodeChar (Char.ofNat u) ++ ·) := by
  unfold tokens
  cases hshort : shortEscape u with
  | some letter =>
    obtain ⟨-, -, hascii⟩ := shortEscape_cases hshort
    rw [Bytes.utf8EncodeChar_ascii hascii]
    rfl
  | none =>
    dsimp only
    split
    · exact assemble_raw _ rest
    split
    · exact assemble_unit hscalar rest
    · rename_i hge
      have hge' : 0x10000 ≤ u := by omega
      rw [← pairChar_halves hge']
      exact assemble_pair (isHigh_highHalf hge' hu) (isLow_lowHalf u) rest

/-- A surrogate is written as the escape of itself. -/
theorem Escaping.tokens_surrogate {u : Nat} (hscalar : isScalar u = false) :
    escaping.tokens u = [.unit u] := by
  have hrange : 0xD800 ≤ u ∧ u < 0xE000 := by
    simp only [isScalar, isHigh, isLow, Bool.and_eq_false_iff, Bool.not_eq_false',
      Bool.and_eq_true, decide_eq_true_eq] at hscalar
    omega
  have hshort : shortEscape u = none := by
    unfold shortEscape
    repeat' rw [if_neg (by omega)]
  have hcopies : escaping.copies u = false := by
    cases h : escaping.copies u with
    | false => rfl
    | true =>
      rw [(escaping.copies_plain u h).2] at hscalar
      cases hscalar
  unfold tokens
  rw [hshort, hcopies]
  simp only [Bool.false_eq_true, if_false]
  rw [if_pos (by omega)]

/-- Only a trailing surrogate is written so that it completes a pair. -/
theorem Escaping.assemble_high {u v : Nat} (hhigh : isHigh u = true) (hlow : isLow v = false)
    (hv : v < 0x110000) (rest : List Token) :
    assemble (.unit u :: (escaping.tokens v ++ rest)) = none := by
  have hunit : ∀ {x : Nat} {rest : List Token}, isLow x = false →
      assemble (.unit u :: .unit x :: rest) = none := by
    intro x rest hx
    rw [assemble.eq_def]
    simp [hhigh, hx]
  have hraw : ∀ {b : UInt8} {rest : List Token}, assemble (.unit u :: .raw b :: rest) = none := by
    intro b rest
    rw [assemble.eq_def]
    simp [hhigh]
  unfold tokens
  cases hshort : shortEscape v with
  | some letter => exact hraw
  | none =>
    dsimp only
    split
    · cases hbytes : String.utf8EncodeChar (Char.ofNat v) with
      | nil => exact absurd hbytes (utf8EncodeChar_ne_nil _)
      | cons b bytes => exact hraw
    split
    · exact hunit hlow
    · refine hunit (Bool.eq_false_iff.mpr fun hlow' => ?_)
      rw [isLow_iff] at hlow'
      unfold highHalf at hlow'
      omega

theorem Escaping.assemble_tokens (s : CodePoints) :
    assemble (s.flatMap fun c => escaping.tokens c.value) = encodePoints s := by
  have hsurrogate : ∀ {u : Nat}, isHigh u = true ∨ isLow u = true →
      escaping.tokens u = [.unit u] := by
    intro u hu
    refine escaping.tokens_surrogate ?_
    rcases hu with hu | hu <;> simp [isScalar, hu]
  fun_induction encodePoints s with
  | case1 => rfl
  | case2 c hhigh d rest hlow ih =>
    rw [List.flatMap_cons, List.flatMap_cons, hsurrogate (Or.inl hhigh), hsurrogate (Or.inr hlow),
      List.singleton_append, List.singleton_append, assemble_pair hhigh hlow, ih]
  | case3 c hhigh d rest hlow =>
    rw [List.flatMap_cons, List.flatMap_cons, hsurrogate (Or.inl hhigh), List.singleton_append]
    exact escaping.assemble_high hhigh (by simpa using hlow) d.lt _
  | case4 c hhigh =>
    rw [List.flatMap_cons, hsurrogate (Or.inl hhigh), List.flatMap_nil, List.append_nil,
      assemble.eq_def]
    simp [hhigh]
  | case5 c rest hhigh hlow =>
    rw [List.flatMap_cons, hsurrogate (Or.inr hlow), List.singleton_append, assemble.eq_def]
    simp [hhigh, hlow]
  | case6 c rest hhigh hlow ih =>
    rw [List.flatMap_cons, escaping.assemble_scalar (by simp [isScalar, hhigh, hlow]) c.lt, ih]

/-- **Reading what was written**: a literal denotes the encoding of its string. -/
theorem Escaping.spells (gap : Bytes) (hgap : ∀ b ∈ gap, isSpace b = true) :
    (escaping.style gap hgap).Spells encodePoints := by
  intro s rest
  have hscans := scans_flatMap (fun c : CodePoint => escaping.quotePoint c.value)
    (fun c => escaping.tokens c.value) s fun c _ => escaping.scans_quotePoint c.lt
  have hread := readString_of_scans hscans rest
  rw [escaping.assemble_tokens] at hread
  rw [show (escaping.style gap hgap).quote s = s.flatMap fun c => escaping.quotePoint c.value from
    rfl, hread]
  cases hencode : encodePoints s with
  | none => rfl
  | some t => simp [Option.filter, utf8_of_encodePoints hencode]

/-! ### Three writers -/

/-- `json.Marshal` of Go: `<`, `>`, `&` and the two line separators are escaped as well. -/
def goEscaping : Escaping where
  copies u := 32 ≤ u && isScalar u && u != 60 && u != 62 && u != 38 && u != 0x2028 && u != 0x2029
  copies_plain u h := by
    simp only [Bool.and_eq_true, decide_eq_true_eq] at h
    exact h.1.1.1.1.1

/-- `json.dumps` of Python: everything beyond printable ASCII is escaped. -/
def pythonEscaping : Escaping where
  copies u := 32 ≤ u && u ≤ 126
  copies_plain u h := by
    simp only [Bool.and_eq_true, decide_eq_true_eq] at h
    refine ⟨h.1, ?_⟩
    simp [isScalar, isHigh, isLow]
    omega

/-- `JSON.stringify` of JavaScript: surrogates without a partner are escaped. -/
def jsEscaping : Escaping where
  copies u := 32 ≤ u && isScalar u
  copies_plain u h := by
    simp only [Bool.and_eq_true, decide_eq_true_eq] at h
    exact h

def goStyle : Style CodePoints := goEscaping.style [] nofun

def pythonStyle : Style CodePoints := pythonEscaping.style [32] (by simp [isSpace])

def jsStyle : Style CodePoints := jsEscaping.style [] nofun

/-- How the three write the same string. -/
example : jsStyle.literal (codePoints "<é".toList) = Bytes.ofString "\"<é\"" ∧
    goStyle.literal (codePoints "<é".toList) = Bytes.ofString "\"\\u003cé\"" ∧
    pythonStyle.literal (codePoints "<é".toList) = Bytes.ofString "\"<\\u00e9\"" := by
  decide +kernel

end JsonText
