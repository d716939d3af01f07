import TaskForge.Interfaces
import TaskForge.Patterns

/-!
# The three checks of a file name

`validFilename` in Go, `InputFile` in Python and `InputFileDto` in JavaScript refuse the
same characters, and differ in how they count: Go counts bytes, Python code points, and
`isLength` of validator.js code points without the two variation selectors.
-/

namespace TaskForge

open JsonText (CodePoint CodePoints codePoints)

/-! ### Python -/

/-- `InputFile`: the field constraints, and `reject_path_traversal`. -/
def inputFile (filename : CodePoints) : Bool :=
  1 ≤ filename.length && filename.length ≤ 255 && plainFilename filename

theorem PythonRequest.accepted_inputFiles {request : PythonRequest}
    (h : request.accepted = true) : request.inputFiles.all inputFile = true := by
  simp only [accepted, Bool.and_eq_true] at h
  exact h.1.2

/-! ### JavaScript -/

/-- U+FE0E and U+FE0F. -/
def isVariationSelector (c : CodePoint) : Bool := c.value == 0xFE0E || c.value == 0xFE0F

/-- `isLength` of validator.js takes the variation selectors and the second halves of
    surrogate pairs off the number of code units. -/
def validatorLength : LengthCheck where
  length s := (s.filter fun c => !isVariationSelector c).length
  length_le _ := List.length_filter_le _ _

/-- Neither `/` nor `\`. -/
def isNoSeparator (c : CodePoint) : Bool :=
  c != CodePoint.ofChar '/' && c != CodePoint.ofChar (Char.ofNat 92)

def isDot (c : CodePoint) : Bool := c == CodePoint.ofChar '.'

/-- `/^(?!.*\.\.)[^/\\]+$/s`; with the flag `s` a dot stands for every character. -/
def filenamePattern : Pattern CodePoint :=
  .seq .start (.seq
    (.notAhead (.seq (.many fun _ => true) (.seq (.one isDot) (.one isDot))))
    (.seq (.plus isNoSeparator) .finish))

/-- `InputFileDto` -/
def inputFileDto (check : LengthCheck) (filename : CodePoints) : Bool :=
  check.within 1 255 filename && filenamePattern.test filename

theorem forall_isNoSeparator {s : CodePoints} :
    (∀ c ∈ s, isNoSeparator c = true) ↔
      CodePoint.ofChar '/' ∉ s ∧ CodePoint.ofChar (Char.ofNat 92) ∉ s := by
  simp only [isNoSeparator, Bool.and_eq_true, bne_iff_ne, ne_eq]
  constructor
  · intro h
    exact ⟨fun hmem => (h _ hmem).1 rfl, fun hmem => (h _ hmem).2 rfl⟩
  · rintro ⟨hslash, hbackslash⟩ c hc
    exact ⟨fun heq => hslash (heq ▸ hc), fun heq => hbackslash (heq ▸ hc)⟩

/-- `.*\.\.` finds two dots in a row, wherever they are. -/
theorem mem_rests_dots {text s t : CodePoints} :
    t ∈ Pattern.rests text (.seq (.many fun _ => true) (.seq (.one isDot) (.one isDot))) s ↔
      ∃ u, s = u ++ CodePoint.ofChar '.' :: CodePoint.ofChar '.' :: t := by
  simp only [Pattern.mem_rests_seq, Pattern.mem_rests_many, Pattern.mem_rests_one, isDot,
    beq_iff_eq]
  constructor
  · rintro ⟨_, ⟨u, rfl, -⟩, _, ⟨_, rfl, rfl⟩, _, rfl, rfl⟩
    exact ⟨u, rfl⟩
  · rintro ⟨u, rfl⟩
    exact ⟨_, ⟨u, rfl, fun _ _ => trivial⟩, _, ⟨_, rfl, rfl⟩, _, rfl, rfl⟩

/-- The pattern says the same as the membership tests of the other two. -/
theorem test_filenamePattern (s : CodePoints) :
    filenamePattern.test s = true ↔ s ≠ [] ∧ plainFilename s = true := by
  have hdots : (∀ t, t ∉ Pattern.rests s (.seq (.many fun _ => true)
      (.seq (.one isDot) (.one isDot))) s) ↔
        ¬ [CodePoint.ofChar '.', CodePoint.ofChar '.'] <:+: s := by
    simp only [mem_rests_dots, not_exists]
    constructor
    · rintro h ⟨u, t, rfl⟩
      exact h t u (List.append_assoc ..)
    · rintro h t u rfl
      exact h ⟨u, t, List.append_assoc ..⟩
  rw [filenamePattern, Pattern.test_start]
  simp only [plainFilename, Bool.and_eq_true, Bool.not_eq_true', List.contains_eq_mem,
    decide_eq_false_iff_not]
  constructor
  · rintro ⟨t, ht⟩
    obtain ⟨_, hahead, hend⟩ := Pattern.mem_rests_seq.mp ht
    obtain ⟨hnone, rfl⟩ := Pattern.mem_rests_notAhead.mp hahead
    obtain ⟨-, hne, hclass⟩ := Pattern.mem_rests_plus_finish.mp hend
    exact ⟨hne, forall_isNoSeparator.mp hclass, hdots.mp hnone⟩
  · rintro ⟨hne, hclass, hnone⟩
    refine ⟨[], Pattern.mem_rests_seq.mpr ⟨s, ?_, ?_⟩⟩
    · exact Pattern.mem_rests_notAhead.mpr ⟨hdots.mpr hnone, rfl⟩
    · exact Pattern.mem_rests_plus_finish.mpr ⟨rfl, hne, forall_isNoSeparator.mpr hclass⟩

theorem inputFileDto_eq (check : LengthCheck) (filename : CodePoints) :
    inputFileDto check filename = (check.within 1 255 filename && plainFilename filename) := by
  rw [Bool.eq_iff_iff, inputFileDto, Bool.and_eq_true, Bool.and_eq_true, test_filenamePattern]
  refine and_congr_right fun hwithin => and_iff_right ?_
  simp only [LengthCheck.within, Bool.and_eq_true, decide_eq_true_eq] at hwithin
  exact List.ne_nil_of_length_pos (Nat.le_trans hwithin.1 (check.length_le _))

theorem JsRequest.accepted_inputFiles {check : LengthCheck} {request : JsRequest}
    (h : request.accepted check = true) :
    (request.inputFiles.getD []).all (inputFileDto check) = true := by
  simp only [accepted, Bool.and_eq_true] at h
  cases hfiles : request.inputFiles with
  | absent | null => rfl
  | value filenames =>
    have haccepted := h.1.2
    rw [hfiles] at haccepted
    simp only [Member.isOptional, Bool.and_eq_true] at haccepted
    simp only [Member.getD, funext (inputFileDto_eq check)]
    exact haccepted.2

/-! ### The same names? -/

/-- The number of characters `isLength` counts. -/
def countedLength (filename : List Char) : Nat := validatorLength.length (codePoints filename)

theorem length_le_encode (s : List Char) : s.length ≤ (Bytes.encode s).length := by
  induction s with
  | nil => exact Nat.le_refl _
  | cons c s ih =>
    rw [Bytes.encode_cons, List.length_append, List.length_cons]
    have hpos : 0 < (String.utf8EncodeChar c).length :=
      List.length_pos_of_ne_nil (JsonText.utf8EncodeChar_ne_nil c)
    omega

section Accepted

variable (filename : List Char)

theorem validFilename_iff : validFilename filename = true ↔
    (0 < filename.length ∧ (Bytes.encode filename).length ≤ 255) ∧
      plainFilename (codePoints filename) = true := by
  simp [validFilename, List.length_pos_iff]

theorem inputFile_iff : inputFile (codePoints filename) = true ↔
    (0 < filename.length ∧ filename.length ≤ 255) ∧
      plainFilename (codePoints filename) = true := by
  simp [inputFile, codePoints, Nat.one_le_iff_ne_zero, List.length_pos_iff]

theorem inputFileDto_iff : inputFileDto validatorLength (codePoints filename) = true ↔
    (0 < countedLength filename ∧ countedLength filename ≤ 255) ∧
      plainFilename (codePoints filename) = true := by
  simp [inputFileDto_eq, LengthCheck.within, countedLength, Nat.one_le_iff_ne_zero,
    Nat.pos_iff_ne_zero]

end Accepted

/-- The lengths on which the three agree: at most 255 bytes with something to count, or more
    than 255 code points of which `isLength` counts more than 255, or none. -/
def LengthsAgree (filename : List Char) : Prop :=
  ((Bytes.encode filename).length ≤ 255 ∧ 0 < countedLength filename) ∨
    (255 < filename.length ∧ (255 < countedLength filename ∨ countedLength filename = 0))

/-- **The three checks accept the same names** as far as they count the same: they agree on
    the empty name and on names with a separator or two dots, and on the others if and only
    if the lengths do. -/
theorem filename_checks_agree_iff (filename : List Char) :
    (validFilename filename = inputFile (codePoints filename) ∧
      inputFile (codePoints filename) = inputFileDto validatorLength (codePoints filename)) ↔
    (filename ≠ [] → plainFilename (codePoints filename) = true → LengthsAgree filename) := by
  have hbytes := length_le_encode filename
  have hcounted : countedLength filename ≤ filename.length := by
    have hle := validatorLength.length_le (codePoints filename)
    rwa [codePoints, List.length_map] at hle
  have hgo : validFilename filename = inputFile (codePoints filename) ↔ _ := Bool.eq_iff_iff
  have hjs : inputFile (codePoints filename) =
      inputFileDto validatorLength (codePoints filename) ↔ _ := Bool.eq_iff_iff
  rw [hgo, hjs, validFilename_iff, inputFile_iff, inputFileDto_iff, LengthsAgree,
    ← List.length_pos_iff]
  by_cases hplain : plainFilename (codePoints filename) = true
  · simp only [hplain, and_true, true_implies]
    omega
  · simp [hplain]

/-- 200 times `é`, which is too long in Go only. -/
theorem filename_checks_differ :
    validFilename (List.replicate 200 'é') = false ∧
      inputFile (codePoints (List.replicate 200 'é')) = true ∧
      inputFileDto validatorLength (codePoints (List.replicate 200 'é')) = true := by
  decide +kernel

end TaskForge
