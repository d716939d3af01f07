import Mathlib.Algebra.Group.Int.Defs
import Mathlib.Algebra.Group.Nat.Defs
import Mathlib.Data.List.Basic
import Mathlib.Data.List.TakeWhile
import Mathlib.Tactic.Common

/-!
# Byte strings

Text as C++ programs hold it: a sequence of bytes that may or may not be
well-formed UTF-8.  The module fixes literals, C strings (cut at the first NUL),
decimal rendering, and the notion of well-formed UTF-8, which is stated through
Lean's own character encoder.
-/

/-- A byte string (`std::string`, `Aws::String`, file contents). -/
abbrev Bytes := List UInt8

namespace Bytes

/-- The bytes of a source literal. -/
def ofString (s : String) : Bytes := s.toUTF8.data.toList

instance : Coe String Bytes := ⟨ofString⟩

theorem ofString_injective : Function.Injective ofString := by
  intro s t h
  unfold ofString at h
  have harr : s.toUTF8.data = t.toUTF8.data := Array.toList_inj.mp h
  have hbytes : s.toUTF8 = t.toUTF8 := ByteArray.ext harr
  exact String.toByteArray_inj.mp hbytes

@[simp] theorem ofString_inj {s t : String} : ofString s = ofString t ↔ s = t :=
  ofString_injective.eq_iff

/-- What survives of a byte string passed through `c_str()`: everything before
    the first NUL. -/
def cStr (s : Bytes) : Bytes := s.takeWhile (fun b => b != 0)

theorem cStr_eq_self {s : Bytes} (h : (0 : UInt8) ∉ s) : cStr s = s := by
  unfold cStr
  rw [List.takeWhile_eq_self_iff]
  intro b hb
  simp only [bne_iff_ne, ne_eq]
  rintro rfl
  exact h hb

theorem zero_notMem_cStr (s : Bytes) : (0 : UInt8) ∉ cStr s := by
  intro h
  have := List.mem_takeWhile_imp h
  simp at this

theorem cStr_append {s : Bytes} (h : (0 : UInt8) ∉ s) (t : Bytes) :
    cStr (s ++ t) = s ++ cStr t :=
  List.takeWhile_append_of_pos fun b hb => by
    have hne : b ≠ 0 := fun heq => h (heq ▸ hb)
    simpa using hne

@[simp] theorem cStr_cStr (s : Bytes) : cStr (cStr s) = cStr s :=
  cStr_eq_self (zero_notMem_cStr s)

/-! ### Decimal rendering -/

/-- The byte of an ASCII character. -/
def ofChar (c : Char) : UInt8 := c.val.toUInt8

/-- `std::format("{}", n)` for an unsigned number. -/
def decimal (n : Nat) : Bytes := (Nat.toDigits 10 n).map ofChar

/-- `std::format("{}", n)` for a signed number. -/
def decimalInt : Int → Bytes
  | .ofNat n => decimal n
  | .negSucc n => 45 :: decimal (n + 1)

/-- The ASCII digits `0`–`9`. -/
def isDigit (b : UInt8) : Bool := 48 ≤ b && b ≤ 57

/-- Value of a digit string, most significant digit first, continuing `acc`. -/
def digitsValue (acc : Nat) (s : Bytes) : Nat :=
  s.foldl (fun acc b => 10 * acc + (b.toNat - 48)) acc

theorem char_of_isDigit {c : Char} (h : c.isDigit = true) :
    48 ≤ c.toNat ∧ c.toNat ≤ 57 := by
  simp only [Char.isDigit, Bool.and_eq_true, decide_eq_true_eq, UInt32.le_iff_toNat_le] at h
  exact h

theorem toNat_ofChar_of_isDigit {c : Char} (h : c.isDigit = true) :
    (ofChar c).toNat = c.toNat := by
  have hc := char_of_isDigit h
  have : c.val.toNat = c.toNat := rfl
  simp only [ofChar, UInt32.toNat_toUInt8]
  omega

theorem isDigit_ofChar {c : Char} (h : c.isDigit = true) : isDigit (ofChar c) = true := by
  have hc := char_of_isDigit h
  have hn := toNat_ofChar_of_isDigit h
  simp only [isDigit, Bool.and_eq_true, decide_eq_true_eq, UInt8.le_iff_toNat_le]
  rw [hn]
  exact hc

theorem isDigit_of_mem_decimal {n : Nat} {b : UInt8} (h : b ∈ decimal n) :
    isDigit b = true := by
  unfold decimal at h
  obtain ⟨c, hc, rfl⟩ := List.mem_map.mp h
  exact isDigit_ofChar (Nat.isDigit_of_mem_toDigits (by decide) (by decide) hc)

theorem decimal_ne_nil (n : Nat) : decimal n ≠ [] := by
  unfold decimal
  simp [Nat.toDigits_ne_nil]

theorem digitsValue_map_ofChar (cs : List Char) (acc : Nat)
    (h : ∀ c ∈ cs, c.isDigit = true) :
    digitsValue acc (cs.map ofChar) = Nat.ofDigitChars 10 cs acc := by
  induction cs generalizing acc with
  | nil => rw [Nat.ofDigitChars_nil]; rfl
  | cons c cs ih =>
    have hc : (ofChar c).toNat = c.toNat := toNat_ofChar_of_isDigit (h c (by simp))
    have hcs := ih (10 * acc + (c.toNat - 48)) (fun d hd => h d (by simp [hd]))
    rw [Nat.ofDigitChars_cons, List.map_cons]
    simp only [digitsValue, List.foldl_cons, hc]
    exact hcs

@[simp] theorem digitsValue_decimal (n : Nat) : digitsValue 0 (decimal n) = n := by
  unfold decimal
  rw [digitsValue_map_ofChar]
  · exact Nat.ofDigitChars_ten_toDigits
  · intro c hc
    exact Nat.isDigit_of_mem_toDigits (by decide) (by decide) hc

theorem digitsValue_lt (s : Bytes) (acc : Nat) (h : ∀ b ∈ s, isDigit b = true) :
    digitsValue acc s < (acc + 1) * 10 ^ s.length := by
  induction s generalizing acc with
  | nil => simp [digitsValue]
  | cons b rest ih =>
    have hb : b.toNat - 48 < 10 := by
      have := h b (by simp)
      simp only [isDigit, Bool.and_eq_true, decide_eq_true_eq, UInt8.le_iff_toNat_le] at this
      have h57 : (57 : UInt8).toNat = 57 := rfl
      omega
    have hrest := ih (10 * acc + (b.toNat - 48)) fun c hc => h c (List.mem_cons_of_mem b hc)
    have hstep : digitsValue acc (b :: rest) =
        digitsValue (10 * acc + (b.toNat - 48)) rest := rfl
    calc digitsValue acc (b :: rest)
        < (10 * acc + (b.toNat - 48) + 1) * 10 ^ rest.length := hstep ▸ hrest
      _ ≤ (10 * (acc + 1)) * 10 ^ rest.length := Nat.mul_le_mul_right _ (by omega)
      _ = (acc + 1) * 10 ^ (b :: rest).length := by
          rw [List.length_cons, Nat.pow_succ]; ac_rfl

/-- Only zero is rendered with a leading zero. -/
theorem decimal_leading_zero {n : Nat} {digits : Bytes} (h : decimal n = 48 :: digits) :
    digits = [] := by
  by_contra hne
  have hdigit : ∀ b ∈ digits, isDigit b = true := fun b hb =>
    isDigit_of_mem_decimal (n := n) (by rw [h]; exact List.mem_cons_of_mem _ hb)
  have hvalue : n = digitsValue 0 digits := by
    rw [← digitsValue_decimal n, h]
    rfl
  have hlt : n < 10 ^ digits.length := by
    have := digitsValue_lt digits 0 hdigit
    omega
  have hlen : (Nat.toDigits 10 n).length = digits.length + 1 := by
    have := congrArg List.length h
    simpa [decimal] using this
  have hle := (Nat.length_toDigits_le_iff (b := 10) (by omega)
    (List.length_pos_iff.mpr hne)).mpr hlt
  omega

theorem mem_decimalInt {i : Int} {b : UInt8} (h : b ∈ decimalInt i) :
    b = 45 ∨ isDigit b = true := by
  cases i with
  | ofNat n => exact Or.inr (isDigit_of_mem_decimal h)
  | negSucc n =>
    rcases List.mem_cons.mp h with h | h
    · exact Or.inl h
    · exact Or.inr (isDigit_of_mem_decimal h)

theorem decimalInt_ne_nil (i : Int) : decimalInt i ≠ [] := by
  cases i with
  | ofNat n => exact decimal_ne_nil n
  | negSucc n => simp [decimalInt]

theorem zero_notMem_decimal (n : Nat) : (0 : UInt8) ∉ decimal n := by
  intro h
  have := isDigit_of_mem_decimal h
  simp [isDigit] at this

theorem zero_notMem_decimalInt (i : Int) : (0 : UInt8) ∉ decimalInt i := by
  cases i with
  | ofNat n => exact zero_notMem_decimal n
  | negSucc n => simp [decimalInt, zero_notMem_decimal]

theorem decimal_injective : Function.Injective decimal := by
  intro m n h
  have := congrArg (digitsValue 0) h
  simpa using this

theorem minus_notMem_decimal (n : Nat) : (45 : UInt8) ∉ decimal n := by
  intro h
  exact absurd (isDigit_of_mem_decimal h) (by decide)

theorem decimalInt_injective : Function.Injective decimalInt := by
  intro m n h
  cases m with
  | ofNat m =>
    cases n with
    | ofNat n => exact congrArg Int.ofNat (decimal_injective h)
    | negSucc n =>
      refine absurd ?_ (minus_notMem_decimal m)
      simp only [decimalInt] at h
      simp [h]
  | negSucc m =>
    cases n with
    | ofNat n =>
      refine absurd ?_ (minus_notMem_decimal n)
      simp only [decimalInt] at h
      simp [← h]
    | negSucc n =>
      simp only [decimalInt, List.cons.injEq, true_and] at h
      have := decimal_injective h
      simp only [Nat.add_right_cancel_iff] at this
      rw [this]

theorem decimalInt_eq_append (i : Int) :
    ∃ sign, (sign = [] ∨ sign = [45]) ∧ decimalInt i = sign ++ decimal i.natAbs := by
  cases i with
  | ofNat n => exact ⟨[], Or.inl rfl, rfl⟩
  | negSucc n => exact ⟨[45], Or.inr rfl, rfl⟩

/-- Digits at the end of a text can be told from what stands before them. -/
theorem append_digits_cancel {s t d e : Bytes} {a b : UInt8} (ha : isDigit a = false)
    (hb : isDigit b = false) (hd : ∀ x ∈ d, isDigit x = true) (he : ∀ x ∈ e, isDigit x = true)
    (h : s ++ [a] ++ d = t ++ [b] ++ e) : s ++ [a] = t ++ [b] ∧ d = e := by
  have hlonger : ∀ {s t d e : Bytes} {a b : UInt8}, isDigit b = false →
      (∀ x ∈ d, isDigit x = true) → ∀ c, t ++ [b] = s ++ [a] ++ c → d = c ++ e → c = [] := by
    intro s t d e a b hb hd c hleft hright
    rcases List.eq_nil_or_concat c with rfl | ⟨c', x, rfl⟩
    · rfl
    · -- the last byte of `c` is both a digit and the byte `b`
      have hx : b = x := by
        have := congrArg List.getLast? hleft
        simpa [← List.append_assoc] using this
      have hdigit := hd x (by rw [hright]; simp)
      rw [← hx, hb] at hdigit
      cases hdigit
  rcases List.append_eq_append_iff.mp h with ⟨c, hleft, hright⟩ | ⟨c, hleft, hright⟩
  · obtain rfl := hlonger hb hd c hleft hright
    exact ⟨by rw [hleft, List.append_nil], hright⟩
  · obtain rfl := hlonger ha he c hleft hright
    exact ⟨by rw [hleft, List.append_nil], hright.symm⟩

/-! ### Well-formed UTF-8 -/

/-- The UTF-8 encoding of a list of Unicode scalar values. -/
def encode (cs : List Char) : Bytes := cs.flatMap String.utf8EncodeChar

/-- Well-formed UTF-8: the encoding of some list of scalar values. -/
def Utf8 (s : Bytes) : Prop := ∃ cs : List Char, encode cs = s

theorem utf8_iff_isValidUTF8 (s : Bytes) : Utf8 s ↔ s.toByteArray.IsValidUTF8 := by
  constructor
  · rintro ⟨cs, rfl⟩
    exact ⟨cs, rfl⟩
  · rintro ⟨cs, h⟩
    refine ⟨cs, ?_⟩
    have hdata := congrArg (fun b => b.data.toList) h
    simpa [List.utf8Encode, encode] using hdata.symm

instance (s : Bytes) : Decidable (Utf8 s) :=
  decidable_of_iff _ (utf8_iff_isValidUTF8 s).symm

@[simp] theorem encode_nil : encode [] = [] := rfl

@[simp] theorem encode_cons (c : Char) (cs : List Char) :
    encode (c :: cs) = String.utf8EncodeChar c ++ encode cs := rfl

@[simp] theorem encode_append (cs ds : List Char) :
    encode (cs ++ ds) = encode cs ++ encode ds := by
  simp [encode]

@[simp] theorem utf8_nil : Utf8 [] := ⟨[], rfl⟩

theorem Utf8.append {s t : Bytes} (hs : Utf8 s) (ht : Utf8 t) : Utf8 (s ++ t) := by
  obtain ⟨cs, rfl⟩ := hs
  obtain ⟨ds, rfl⟩ := ht
  exact ⟨cs ++ ds, encode_append cs ds⟩

theorem utf8EncodeChar_ascii {n : Nat} (h : n < 128) :
    String.utf8EncodeChar (Char.ofNat n) = [UInt8.ofNat n] := by
  have hvalid : n.isValidChar := Or.inl (by omega)
  have hval : (Char.ofNat n).val.toNat = n := by
    rw [Char.ofNat, dif_pos hvalid]
    rfl
  unfold String.utf8EncodeChar
  simp only [hval]
  rw [if_pos (by omega)]

/-- ASCII text is well-formed. -/
theorem utf8_of_ascii {s : Bytes} (h : ∀ b ∈ s, b < 128) : Utf8 s := by
  induction s with
  | nil => exact utf8_nil
  | cons b rest ih =>
    have hb : b.toNat < 128 := UInt8.lt_iff_toNat_lt.mp (h b (by simp))
    have hhead : Utf8 [b] := ⟨[Char.ofNat b.toNat], by simp [utf8EncodeChar_ascii hb]⟩
    exact hhead.append (ih fun c hc => h c (List.mem_cons_of_mem b hc))

theorem utf8EncodeChar_of_lt {c : Char} (h : c.val.toNat < 128) :
    String.utf8EncodeChar c = [UInt8.ofNat c.val.toNat] := by
  unfold String.utf8EncodeChar
  exact if_pos (Nat.le_of_lt_succ h)

/-- A character outside ASCII has no ASCII byte. -/
theorem le_of_mem_utf8EncodeChar {c : Char} (h : ¬ c.val.toNat < 128) {b : UInt8}
    (hb : b ∈ String.utf8EncodeChar c) : 128 ≤ b.toNat := by
  have hbyte : ∀ n : Nat, 128 ≤ n % 256 → 128 ≤ (UInt8.ofNat n).toNat := by
    intro n hn
    simpa using hn
  have hsize := c.val.toNat_lt
  unfold String.utf8EncodeChar at hb
  dsimp only at hb
  rw [if_neg (by omega)] at hb
  split at hb
  · simp only [List.mem_cons, List.not_mem_nil, or_false] at hb
    rcases hb with rfl | rfl <;> exact hbyte _ (by omega)
  split at hb
  · simp only [List.mem_cons, List.not_mem_nil, or_false] at hb
    rcases hb with rfl | rfl | rfl <;> exact hbyte _ (by omega)
  · simp only [List.mem_cons, List.not_mem_nil, or_false] at hb
    rcases hb with rfl | rfl | rfl | rfl <;> exact hbyte _ (by omega)

theorem zero_notMem_utf8EncodeChar {c : Char} (h : c.val.toNat ≠ 0) :
    (0 : UInt8) ∉ String.utf8EncodeChar c := by
  intro hzero
  by_cases hascii : c.val.toNat < 128
  · rw [utf8EncodeChar_of_lt hascii, List.mem_singleton] at hzero
    have hvalue := congrArg UInt8.toNat hzero
    simp only [UInt8.toNat_ofNat', UInt8.toNat_zero] at hvalue
    omega
  · exact absurd (le_of_mem_utf8EncodeChar hascii hzero) (by decide)

/-- A cut at a NUL falls between characters. -/
theorem utf8_cStr {s : Bytes} (h : Utf8 s) : Utf8 (cStr s) := by
  obtain ⟨cs, rfl⟩ := h
  induction cs with
  | nil => exact utf8_nil
  | cons c cs ih =>
    rw [encode_cons]
    by_cases hc : c.val.toNat = 0
    · have hnul : String.utf8EncodeChar c = [0] := by
        simp [String.utf8EncodeChar, hc]
      rw [hnul]
      exact utf8_nil
    · have hnonzero : ∀ b ∈ String.utf8EncodeChar c, (b != 0) = true := by
        intro b hb
        simp only [bne_iff_ne, ne_eq]
        rintro rfl
        exact zero_notMem_utf8EncodeChar hc hb
      unfold cStr at ih ⊢
      rw [List.takeWhile_append_of_pos hnonzero]
      exact Utf8.append ⟨[c], by simp⟩ ih

theorem encode_toList (s : String) : encode s.toList = ofString s := by
  have h := congrArg (fun b => b.data.toList) (String.utf8Encode_toList (b := s))
  simpa [List.utf8Encode, encode, ofString] using h

theorem utf8_ofString (s : String) : Utf8 (ofString s) := ⟨s.toList, encode_toList s⟩

/-! ### Cuts in well-formed UTF-8 -/

/-- A byte `10xxxxxx`, which continues a character. -/
def isTrailing (b : UInt8) : Bool := 128 ≤ b.toNat && b.toNat < 192

/-- A character is a leading byte and at most three trailing ones. -/
theorem utf8EncodeChar_eq_cons (c : Char) :
    ∃ b rest, String.utf8EncodeChar c = b :: rest ∧ isTrailing b = false ∧
      (∀ t ∈ rest, isTrailing t = true) ∧ rest.length ≤ 3 := by
  have hlead : ∀ n : Nat, n % 256 < 128 ∨ 192 ≤ n % 256 → isTrailing (UInt8.ofNat n) = false := by
    intro n hn
    simp only [isTrailing, UInt8.toNat_ofNat', Bool.and_eq_false_iff, decide_eq_false_iff_not]
    omega
  have htrail : ∀ n : Nat, isTrailing (UInt8.ofNat (n % 64 + 128)) = true := by
    intro n
    simp only [isTrailing, UInt8.toNat_ofNat', Bool.and_eq_true, decide_eq_true_eq]
    omega
  unfold String.utf8EncodeChar
  dsimp only
  split
  · exact ⟨_, [], rfl, hlead _ (by omega), List.forall_mem_nil _, by simp⟩
  split
  · exact ⟨_, _, rfl, hlead _ (by omega), List.forall_mem_singleton.mpr (htrail _), by simp⟩
  split
  · refine ⟨_, _, rfl, hlead _ (by omega), ?_, by simp⟩
    exact List.forall_mem_cons.mpr ⟨htrail _, List.forall_mem_singleton.mpr (htrail _)⟩
  · refine ⟨_, _, rfl, hlead _ (by omega), ?_, by simp⟩
    exact List.forall_mem_cons.mpr ⟨htrail _, List.forall_mem_cons.mpr
      ⟨htrail _, List.forall_mem_singleton.mpr (htrail _)⟩⟩

theorem dropWhile_isTrailing_encode (cs : List Char) :
    (encode cs).dropWhile isTrailing = encode cs := by
  cases cs with
  | nil => rfl
  | cons c cs =>
    obtain ⟨b, rest, hencode, hlead, -⟩ := utf8EncodeChar_eq_cons c
    rw [encode_cons, hencode, List.cons_append, List.dropWhile_cons_of_neg (by simp [hlead])]

/-- What follows a cut in well-formed UTF-8 is well-formed from the next leading byte on,
    and at most three bytes stand before it. -/
theorem Utf8.dropWhile_isTrailing {s t : Bytes} (h : Utf8 (s ++ t)) :
    Utf8 (t.dropWhile isTrailing) ∧ t.length ≤ (t.dropWhile isTrailing).length + 3 := by
  obtain ⟨cs, hcs⟩ := h
  induction cs generalizing s with
  | nil =>
    obtain ⟨-, rfl⟩ := List.append_eq_nil_iff.mp hcs.symm
    simp
  | cons c cs ih =>
    rw [encode_cons] at hcs
    rcases List.append_eq_append_iff.mp hcs with ⟨before, rfl, hlater⟩ | ⟨after, hchar, rfl⟩
    · exact ih hlater
    -- the cut is in the character `c`, of which `after` is left
    obtain ⟨b, rest, hencode, hlead, htrailing, hlength⟩ := utf8EncodeChar_eq_cons c
    rw [hencode] at hchar
    cases s with
    | nil =>
      rw [List.nil_append] at hchar
      rw [← hchar, List.cons_append, List.dropWhile_cons_of_neg (by simp [hlead]),
        ← List.cons_append, ← hencode, ← encode_cons]
      exact ⟨⟨c :: cs, rfl⟩, by omega⟩
    | cons b' s =>
      have hrest : rest = s ++ after := (List.cons.inj hchar).2
      rw [hrest] at htrailing hlength
      have hafter : ∀ t ∈ after, isTrailing t = true := fun t ht =>
        htrailing t (List.mem_append_right s ht)
      rw [List.dropWhile_append_of_pos hafter, dropWhile_isTrailing_encode]
      simp only [List.length_append] at hlength ⊢
      exact ⟨⟨cs, rfl⟩, by omega⟩

end Bytes
