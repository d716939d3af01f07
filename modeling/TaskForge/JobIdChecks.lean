import Mathlib.Tactic.Common
import TaskForge.Patterns

/-!
# The identifier in `GET /api/v1/jobs/{job_id}`

Documents are stored under the identifier of their job, next to keys that are no jobs, so
each interface checks the identifier before it reads.  The Python and JavaScript checks are
regular expressions for the form in which identifiers are issued.  The Go check is
`uuid.Parse`, which reads three more forms.
-/

namespace TaskForge

/-- `[0-9a-fA-F]` -/
def isHexChar (c : Char) : Bool :=
  ('0' ≤ c && c ≤ '9') || ('a' ≤ c && c ≤ 'f') || ('A' ≤ c && c ≤ 'F')

/-! ### The regular expressions -/

/-- `^[…]{8}-[…]{4}-[…]{4}-[…]{4}-[…]{12}$` -/
def uuidPattern (hex : Char → Bool) : Pattern Char :=
  let dash : Pattern Char := .one (· == '-')
  .seq .start (.seq (.times hex 8) (.seq dash (.seq (.times hex 4) (.seq dash (.seq (.times hex 4)
    (.seq dash (.seq (.times hex 4) (.seq dash (.seq (.times hex 12) .finish)))))))))

/-- `_JOB_ID_PATTERN` on a path parameter.  The engine is that of pydantic, for which `$` is
    the end of the text and nothing else. -/
def jobIdPattern (s : List Char) : Bool := (uuidPattern isHexChar).test s

/-- A class under `/i`: a character matches if its upper case is that of a member.  The upper
    case of a character outside ASCII is not in ASCII here, as ECMAScript has it. -/
def ignoreCase (members : List Char) (c : Char) : Bool :=
  members.any fun member => member.toUpper == c.toUpper

/-- `isJobId`: `/^[0-9a-f]{8}-…$/i`. -/
def isJobId (s : List Char) : Bool :=
  (uuidPattern (ignoreCase "0123456789abcdef".toList)).test s

/-! ### `uuid.Parse` -/

/-- Groups of 8, 4, 4, 4 and 12 digits with dashes between them. -/
def isDashed (s : List Char) : Bool :=
  (s.splitOn '-').map List.length == [8, 4, 4, 4, 12] && (s.splitOn '-').all (·.all isHexChar)

/-- What `uuid.Parse` accepts, by the length of the text.  Of the characters around the
    dashed form nothing is checked but that each is one: `isSide` says which are, all of them
    or, where lengths are counted in bytes, those of ASCII. -/
def uuidParse (isSide : Char → Bool) (s : List Char) : Bool :=
  match s.length with
  | 36 => isDashed s
  | 45 => (s.take 9).map Char.toLower == "urn:uuid:".toList && isDashed (s.drop 9)
  | 38 => (s.head?.any isSide && s.getLast?.any isSide) && isDashed (s.drop 1).dropLast
  | 32 => s.all isHexChar
  | _ => false

/-- `validJobID` -/
def validJobID (isSide : Char → Bool) (s : List Char) : Bool := uuidParse isSide s

/-! ### The forms -/

/-- The form in which identifiers are issued. -/
def Dashed (s : List Char) : Prop :=
  ∃ groups : List (List Char), groups.map List.length = [8, 4, 4, 4, 12] ∧
    (∀ group ∈ groups, ∀ c ∈ group, isHexChar c = true) ∧ s = ['-'].intercalate groups

/-- `urn:uuid:` in any case, and the dashed form. -/
def UrnForm (s : List Char) : Prop :=
  ∃ scheme form, scheme.map Char.toLower = "urn:uuid:".toList ∧ Dashed form ∧ s = scheme ++ form

/-- The dashed form between two characters. -/
def WrappedForm (isSide : Char → Bool) (s : List Char) : Prop :=
  ∃ left right form, isSide left = true ∧ isSide right = true ∧ Dashed form ∧
    s = left :: form ++ [right]

/-- 32 digits without a dash. -/
def BareForm (s : List Char) : Prop := s.length = 32 ∧ ∀ c ∈ s, isHexChar c = true

theorem isHexChar_dash : isHexChar '-' = false := by decide

theorem isDashed_iff {s : List Char} : isDashed s = true ↔ Dashed s := by
  simp only [isDashed, Bool.and_eq_true, beq_iff_eq, List.all_eq_true]
  constructor
  · rintro ⟨hlengths, hhex⟩
    exact ⟨s.splitOn '-', hlengths, hhex, (List.intercalate_splitOn '-').symm⟩
  · rintro ⟨groups, hlengths, hhex, rfl⟩
    have hne : groups ≠ [] := by
      rintro rfl
      cases hlengths
    have hdash : ∀ group ∈ groups, '-' ∉ group := fun group hgroup hmem =>
      Bool.false_ne_true (isHexChar_dash.symm.trans (hhex group hgroup '-' hmem))
    rw [List.splitOn_intercalate '-' hdash hne]
    exact ⟨hlengths, hhex⟩

/-- The five groups. -/
theorem dashed_iff {s : List Char} :
    Dashed s ↔ ∃ a b c d e : List Char,
      (a.length = 8 ∧ b.length = 4 ∧ c.length = 4 ∧ d.length = 4 ∧ e.length = 12) ∧
      (∀ group ∈ [a, b, c, d, e], ∀ x ∈ group, isHexChar x = true) ∧
      s = a ++ '-' :: (b ++ '-' :: (c ++ '-' :: (d ++ '-' :: e))) := by
  constructor
  · rintro ⟨groups, hlengths, hhex, rfl⟩
    obtain ⟨a, _, rfl, ha, hlengths⟩ := List.map_eq_cons_iff.mp hlengths
    obtain ⟨b, _, rfl, hb, hlengths⟩ := List.map_eq_cons_iff.mp hlengths
    obtain ⟨c, _, rfl, hc, hlengths⟩ := List.map_eq_cons_iff.mp hlengths
    obtain ⟨d, _, rfl, hd, hlengths⟩ := List.map_eq_cons_iff.mp hlengths
    obtain ⟨e, _, rfl, he, hlengths⟩ := List.map_eq_cons_iff.mp hlengths
    obtain rfl := List.map_eq_nil_iff.mp hlengths
    exact ⟨a, b, c, d, e, ⟨ha, hb, hc, hd, he⟩, hhex, by simp [List.intercalate]⟩
  · rintro ⟨a, b, c, d, e, ⟨ha, hb, hc, hd, he⟩, hhex, rfl⟩
    exact ⟨[a, b, c, d, e], by simp [ha, hb, hc, hd, he], hhex, by simp [List.intercalate]⟩

theorem Dashed.length_eq {s : List Char} (h : Dashed s) : s.length = 36 := by
  obtain ⟨a, b, c, d, e, ⟨ha, hb, hc, hd, he⟩, -, rfl⟩ := dashed_iff.mp h
  simp [ha, hb, hc, hd, he]

/-- A pattern of the family matches the dashed form if its class is that of the digits. -/
theorem test_uuidPattern {hex : Char → Bool} (hhex : ∀ c, hex c = isHexChar c) (s : List Char) :
    (uuidPattern hex).test s = true ↔ Dashed s := by
  rw [uuidPattern, Pattern.test_start, dashed_iff]
  simp only [Pattern.mem_rests_seq, Pattern.mem_rests_times, Pattern.mem_rests_one,
    Pattern.mem_rests_finish, beq_iff_eq, hhex]
  constructor
  · rintro ⟨_, _, ⟨a, rfl, ha, hea⟩, _, ⟨_, rfl, rfl⟩, _, ⟨b, rfl, hb, heb⟩, _, ⟨_, rfl, rfl⟩, _,
      ⟨c, rfl, hc, hec⟩, _, ⟨_, rfl, rfl⟩, _, ⟨d, rfl, hd, hed⟩, _, ⟨_, rfl, rfl⟩, _,
      ⟨e, rfl, he, hee⟩, rfl, rfl⟩
    refine ⟨a, b, c, d, e, ⟨ha, hb, hc, hd, he⟩, ?_, by rw [List.append_nil]⟩
    simp only [List.forall_mem_cons]
    exact ⟨hea, heb, hec, hed, hee, List.forall_mem_nil _⟩
  · rintro ⟨a, b, c, d, e, ⟨ha, hb, hc, hd, he⟩, hgroups, rfl⟩
    simp only [List.forall_mem_cons] at hgroups
    obtain ⟨hea, heb, hec, hed, hee, -⟩ := hgroups
    exact ⟨[], _, ⟨a, rfl, ha, hea⟩, _, ⟨_, rfl, rfl⟩, _, ⟨b, rfl, hb, heb⟩, _, ⟨_, rfl, rfl⟩, _,
      ⟨c, rfl, hc, hec⟩, _, ⟨_, rfl, rfl⟩, _, ⟨d, rfl, hd, hed⟩, _, ⟨_, rfl, rfl⟩, [],
      ⟨e, (List.append_nil e).symm, he, hee⟩, rfl, rfl⟩

/-- The two classes of digits are the same. -/
theorem ignoreCase_hex (c : Char) :
    ignoreCase "0123456789abcdef".toList c = isHexChar c := by
  by_cases hascii : c.toNat < 128
  · have hall : ∀ n < 128, ignoreCase "0123456789abcdef".toList (Char.ofNat n) =
        isHexChar (Char.ofNat n) := by decide +kernel
    have hc := hall c.toNat hascii
    rwa [Char.ofNat_toNat] at hc
  · -- outside ASCII there is no digit, and no upper case of one
    have hbound : ∀ d : Char, c ≤ d → 128 ≤ d.toNat := fun d hd =>
      Nat.le_trans (Nat.not_lt.mp hascii) hd
    have hhex : isHexChar c = false := by
      simp only [isHexChar, Bool.or_eq_false_iff, Bool.and_eq_false_iff, decide_eq_false_iff_not]
      exact ⟨⟨Or.inr fun h => absurd (hbound _ h) (by decide),
        Or.inr fun h => absurd (hbound _ h) (by decide)⟩,
        Or.inr fun h => absurd (hbound _ h) (by decide)⟩
    have hupper : c.toUpper = c :=
      dif_neg fun h => absurd (hbound 'z' h.2) (by decide)
    have hmembers : ("0123456789abcdef".toList.all fun member => member.toUpper.toNat < 128) =
        true := by decide +kernel
    rw [hhex, ignoreCase, List.any_eq_false, hupper]
    intro member hmember heq
    rw [beq_iff_eq] at heq
    exact hascii (heq ▸ of_decide_eq_true (List.all_eq_true.mp hmembers member hmember))

/-! ### What is accepted -/

theorem UrnForm.length_eq {s : List Char} (h : UrnForm s) : s.length = 45 := by
  obtain ⟨scheme, form, hscheme, hform, rfl⟩ := h
  have hlength := congrArg List.length hscheme
  rw [List.length_map] at hlength
  rw [List.length_append, hlength, hform.length_eq]
  rfl

theorem UrnForm.parse {s : List Char} (h : UrnForm s) (isSide : Char → Bool) :
    uuidParse isSide s = true := by
  rw [uuidParse, h.length_eq]
  obtain ⟨scheme, form, hscheme, hform, rfl⟩ := h
  have hlength : scheme.length = 9 := by
    have hmapped := congrArg List.length hscheme
    rwa [List.length_map] at hmapped
  simp only [List.take_left' hlength, List.drop_left' hlength, hscheme, beq_self_eq_true,
    Bool.true_and]
  exact isDashed_iff.mpr hform

theorem WrappedForm.length_eq {isSide : Char → Bool} {s : List Char} (h : WrappedForm isSide s) :
    s.length = 38 := by
  obtain ⟨left, right, form, -, -, hform, rfl⟩ := h
  simp [hform.length_eq]

theorem WrappedForm.parse {isSide : Char → Bool} {s : List Char} (h : WrappedForm isSide s) :
    uuidParse isSide s = true := by
  rw [uuidParse, h.length_eq]
  obtain ⟨left, right, form, hleft, hright, hform, rfl⟩ := h
  have hlast : (left :: (form ++ [right])).getLast? = some right :=
    List.getLast?_concat (l := left :: form)
  simp [hlast, hleft, hright, isDashed_iff.mpr hform]

/-- A text of length 38 with the dashed form inside. -/
theorem wrappedForm_of_length {isSide : Char → Bool} {s : List Char} {left right : Char}
    (hlength : s.length = 38) (hhead : s.head? = some left) (hleft : isSide left = true)
    (hlast : s.getLast? = some right) (hright : isSide right = true)
    (hform : Dashed (s.drop 1).dropLast) : WrappedForm isSide s := by
  obtain ⟨init, rfl⟩ := List.getLast?_eq_some_iff.mp hlast
  cases init with
  | nil => cases hlength
  | cons c init =>
    cases hhead
    refine ⟨left, right, init, hleft, hright, ?_, rfl⟩
    simpa using hform

theorem uuidParse_iff {isSide : Char → Bool} {s : List Char} :
    uuidParse isSide s = true ↔
      Dashed s ∨ UrnForm s ∨ WrappedForm isSide s ∨ BareForm s := by
  constructor
  · intro h
    unfold uuidParse at h
    split at h
    · exact Or.inl (isDashed_iff.mp h)
    · rw [Bool.and_eq_true, beq_iff_eq] at h
      exact Or.inr (Or.inl ⟨_, _, h.1, isDashed_iff.mp h.2, (List.take_append_drop 9 s).symm⟩)
    · rename_i hlength
      simp only [Bool.and_eq_true, Option.any_eq_true] at h
      obtain ⟨⟨⟨left, hhead, hleft⟩, right, hlast, hright⟩, hform⟩ := h
      exact Or.inr (Or.inr (Or.inl (wrappedForm_of_length hlength hhead hleft hlast hright
        (isDashed_iff.mp hform))))
    · rename_i hlength
      exact Or.inr (Or.inr (Or.inr ⟨hlength, List.all_eq_true.mp h⟩))
    · cases h
  · rintro (h | h | h | ⟨hlength, hhex⟩)
    · rw [uuidParse, h.length_eq]
      exact isDashed_iff.mpr h
    · exact h.parse isSide
    · exact h.parse
    · rw [uuidParse, hlength]
      exact List.all_eq_true.mpr hhex

/-- **The three checks of an identifier agree** if and only if it is in none of the forms that
    only `uuid.Parse` reads. -/
theorem job_id_checks_agree_iff (isSide : Char → Bool) (s : List Char) :
    (validJobID isSide s = jobIdPattern s ∧ jobIdPattern s = isJobId s) ↔
      ¬ UrnForm s ∧ ¬ WrappedForm isSide s ∧ ¬ BareForm s := by
  have hpython : jobIdPattern s = true ↔ Dashed s := test_uuidPattern (fun _ => rfl) s
  have hjs : isJobId s = true ↔ Dashed s := test_uuidPattern ignoreCase_hex s
  have hgo : validJobID isSide s = true ↔
      Dashed s ∨ UrnForm s ∨ WrappedForm isSide s ∨ BareForm s := uuidParse_iff
  -- the lengths keep the forms apart
  have hurn : UrnForm s → ¬ Dashed s := fun h hdashed => by
    have := h.length_eq.symm.trans hdashed.length_eq
    omega
  have hwrapped : WrappedForm isSide s → ¬ Dashed s := fun h hdashed => by
    have := h.length_eq.symm.trans hdashed.length_eq
    omega
  have hbare : BareForm s → ¬ Dashed s := fun h hdashed => by
    have := h.1.symm.trans hdashed.length_eq
    omega
  have hfirst : validJobID isSide s = jobIdPattern s ↔
      (Dashed s ∨ UrnForm s ∨ WrappedForm isSide s ∨ BareForm s ↔ Dashed s) := by
    rw [Bool.eq_iff_iff, hgo, hpython]
  have hsecond : jobIdPattern s = isJobId s := by
    rw [Bool.eq_iff_iff, hpython, hjs]
  rw [hfirst]
  constructor
  · rintro ⟨h, -⟩
    exact ⟨fun hu => hurn hu (h.mp (Or.inr (Or.inl hu))),
      fun hw => hwrapped hw (h.mp (Or.inr (Or.inr (Or.inl hw)))),
      fun hb => hbare hb (h.mp (Or.inr (Or.inr (Or.inr hb))))⟩
  · rintro ⟨hu, hw, hb⟩
    refine ⟨⟨?_, Or.inl⟩, hsecond⟩
    rintro (h | h | h | h)
    · exact h
    · exact absurd h hu
    · exact absurd h hw
    · exact absurd h hb

/-- An identifier without its dashes. -/
theorem bare_digits_disagree :
    let s := "123e4567e89b12d3a456426614174000".toList
    validJobID (fun _ => true) s = true ∧ jobIdPattern s = false ∧ isJobId s = false := by
  decide +kernel

end TaskForge
