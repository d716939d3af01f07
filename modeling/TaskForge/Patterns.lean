import Mathlib.Data.List.Infix

/-!
# Patterns

A fragment of the regular expressions of ECMAScript: the anchors, character classes,
repeated classes and negative lookahead.  Matching is by backtracking: `rests` lists what
can be left of the text after a match, in the order in which the matches are tried, and
`test` searches for a match at every position.
-/

/-- A regular expression over an alphabet. -/
inductive Pattern (α : Type) where
  /-- `^` -/
  | start
  /-- `$` -/
  | finish
  /-- `[…]` -/
  | one (p : α → Bool)
  /-- `[…]*` -/
  | many (p : α → Bool)
  | seq (first second : Pattern α)
  /-- `(?!…)` -/
  | notAhead (pattern : Pattern α)

namespace Pattern

variable {α : Type}

/-- `[…]+` -/
def plus (p : α → Bool) : Pattern α := .seq (.one p) (.many p)

/-- What matches the empty text only: a repeated class of no characters. -/
def empty : Pattern α := .many fun _ => false

/-- `[…]{n}` -/
def times (p : α → Bool) : Nat → Pattern α
  | 0 => empty
  | n + 1 => .seq (.one p) (times p n)

/-- What is left after a repeated class, the longest match first. -/
def manyRests (p : α → Bool) : List α → List (List α)
  | [] => [[]]
  | c :: s => if p c then manyRests p s ++ [c :: s] else [c :: s]

/-- What can be left of a suffix of the text. -/
def rests (text : List α) : Pattern α → List α → List (List α)
  | .start, s => if s.length = text.length then [s] else []
  | .finish, s => if s.isEmpty then [s] else []
  | .one _, [] => []
  | .one p, c :: s => if p c then [s] else []
  | .many p, s => manyRests p s
  | .seq first second, s => (rests text first s).flatMap (rests text second)
  | .notAhead pattern, s => if (rests text pattern s).isEmpty then [s] else []

/-- `pattern.test(text)` -/
def test (pattern : Pattern α) (text : List α) : Bool :=
  text.tails.any fun s => !(rests text pattern s).isEmpty

variable {text s t : List α} {p : α → Bool}

theorem mem_manyRests : t ∈ manyRests p s ↔ ∃ u, s = u ++ t ∧ ∀ c ∈ u, p c = true := by
  induction s with
  | nil =>
    simp only [manyRests, List.mem_singleton]
    constructor
    · rintro rfl
      exact ⟨[], rfl, List.forall_mem_nil _⟩
    · rintro ⟨u, hsplit, -⟩
      exact (List.append_eq_nil_iff.mp hsplit.symm).2
  | cons c s ih =>
    constructor
    · intro h
      by_cases hc : p c = true
      · rw [manyRests, if_pos hc, List.mem_append, List.mem_singleton] at h
        rcases h with h | rfl
        · obtain ⟨u, rfl, hu⟩ := ih.mp h
          exact ⟨c :: u, rfl, List.forall_mem_cons.mpr ⟨hc, hu⟩⟩
        · exact ⟨[], rfl, List.forall_mem_nil _⟩
      · rw [manyRests, if_neg hc, List.mem_singleton] at h
        exact ⟨[], h.symm, List.forall_mem_nil _⟩
    · rintro ⟨u, hsplit, hu⟩
      cases u with
      | nil =>
        rw [← List.nil_append t, ← hsplit]
        by_cases hc : p c = true <;> simp [manyRests, hc]
      | cons d u =>
        obtain ⟨rfl, rfl⟩ := List.cons.inj hsplit
        obtain ⟨hc, hu⟩ := List.forall_mem_cons.mp hu
        rw [manyRests, if_pos hc]
        exact List.mem_append_left _ (ih.mpr ⟨u, rfl, hu⟩)

@[simp] theorem mem_rests_one :
    t ∈ rests text (.one p) s ↔ ∃ c, s = c :: t ∧ p c = true := by
  cases s with
  | nil => simp [rests]
  | cons c s =>
    constructor
    · intro h
      by_cases hc : p c = true
      · rw [rests, if_pos hc, List.mem_singleton] at h
        exact ⟨c, by rw [h], hc⟩
      · rw [rests, if_neg hc] at h
        cases h
    · rintro ⟨d, hsplit, hd⟩
      cases hsplit
      rw [rests, if_pos hd]
      exact List.mem_singleton_self _

@[simp] theorem mem_rests_many :
    t ∈ rests text (.many p) s ↔ ∃ u, s = u ++ t ∧ ∀ c ∈ u, p c = true :=
  mem_manyRests

@[simp] theorem mem_rests_seq {first second : Pattern α} :
    t ∈ rests text (.seq first second) s ↔
      ∃ u ∈ rests text first s, t ∈ rests text second u :=
  List.mem_flatMap

@[simp] theorem mem_rests_finish : t ∈ rests text .finish s ↔ s = [] ∧ t = [] := by
  cases s <;> simp [rests]

theorem mem_rests_start : t ∈ rests text .start s ↔ s.length = text.length ∧ t = s := by
  by_cases h : s.length = text.length <;> simp [rests, h]

@[simp] theorem mem_rests_notAhead {pattern : Pattern α} :
    t ∈ rests text (.notAhead pattern) s ↔ (∀ u, u ∉ rests text pattern s) ∧ t = s := by
  rw [← List.eq_nil_iff_forall_not_mem]
  by_cases h : rests text pattern s = [] <;> simp [rests, h]

@[simp] theorem mem_rests_empty : t ∈ rests text empty s ↔ t = s := by
  rw [empty, mem_rests_many]
  constructor
  · rintro ⟨u, rfl, hu⟩
    cases u with
    | nil => rfl
    | cons c u => cases hu c (.head _)
  · rintro rfl
    exact ⟨[], rfl, List.forall_mem_nil _⟩

@[simp] theorem mem_rests_times {n : Nat} :
    t ∈ rests text (times p n) s ↔ ∃ u, s = u ++ t ∧ u.length = n ∧ ∀ c ∈ u, p c = true := by
  induction n generalizing s with
  | zero =>
    rw [times, mem_rests_empty]
    constructor
    · rintro rfl
      exact ⟨[], rfl, rfl, List.forall_mem_nil _⟩
    · rintro ⟨u, rfl, hlength, -⟩
      rw [List.length_eq_zero_iff.mp hlength, List.nil_append]
  | succ n ih =>
    rw [times, mem_rests_seq]
    constructor
    · rintro ⟨v, hone, hrest⟩
      obtain ⟨c, rfl, hc⟩ := mem_rests_one.mp hone
      obtain ⟨u, rfl, hlength, hu⟩ := ih.mp hrest
      exact ⟨c :: u, rfl, congrArg (· + 1) hlength, List.forall_mem_cons.mpr ⟨hc, hu⟩⟩
    · rintro ⟨u, rfl, hlength, hu⟩
      cases u with
      | nil => cases hlength
      | cons c u =>
        obtain ⟨hc, hu⟩ := List.forall_mem_cons.mp hu
        refine ⟨u ++ t, mem_rests_one.mpr ⟨c, rfl, hc⟩, ih.mpr ⟨u, rfl, ?_, hu⟩⟩
        exact Nat.succ.inj hlength

theorem test_eq_true {pattern : Pattern α} :
    pattern.test text = true ↔ ∃ s t, s <:+ text ∧ t ∈ rests text pattern s := by
  simp only [test, List.any_eq_true, List.mem_tails, Bool.not_eq_true', List.isEmpty_eq_false_iff]
  constructor
  · rintro ⟨s, hs, hne⟩
    obtain ⟨t, ht⟩ := List.exists_mem_of_ne_nil _ hne
    exact ⟨s, t, hs, ht⟩
  · rintro ⟨s, t, hs, ht⟩
    exact ⟨s, hs, List.ne_nil_of_mem ht⟩

/-- A pattern that begins with `^` is tried at the beginning only. -/
theorem test_start {pattern : Pattern α} :
    (Pattern.seq .start pattern).test text = true ↔ ∃ t, t ∈ rests text pattern text := by
  rw [test_eq_true]
  constructor
  · rintro ⟨s, t, hs, ht⟩
    obtain ⟨u, hu, hrest⟩ := mem_rests_seq.mp ht
    obtain ⟨hlength, rfl⟩ := mem_rests_start.mp hu
    rw [hs.eq_of_length hlength] at hrest
    exact ⟨t, hrest⟩
  · rintro ⟨t, ht⟩
    refine ⟨text, t, List.suffix_refl text, ?_⟩
    exact mem_rests_seq.mpr ⟨text, mem_rests_start.mpr ⟨rfl, rfl⟩, ht⟩

/-- `[…]+$` matches what is not empty and all of the class. -/
theorem mem_rests_plus_finish :
    t ∈ rests text (.seq (.plus p) .finish) s ↔
      t = [] ∧ s ≠ [] ∧ ∀ c ∈ s, p c = true := by
  simp only [plus, mem_rests_seq, mem_rests_one, mem_rests_many, mem_rests_finish]
  constructor
  · rintro ⟨_, ⟨u, ⟨c, rfl, hc⟩, v, rfl, hv⟩, rfl, rfl⟩
    rw [List.append_nil]
    exact ⟨rfl, List.cons_ne_nil _ _, List.forall_mem_cons.mpr ⟨hc, hv⟩⟩
  · rintro ⟨rfl, hne, hs⟩
    cases s with
    | nil => exact absurd rfl hne
    | cons c s =>
      obtain ⟨hc, hs⟩ := List.forall_mem_cons.mp hs
      exact ⟨[], ⟨s, ⟨c, rfl, hc⟩, s, (List.append_nil s).symm, hs⟩, rfl, rfl⟩

end Pattern
