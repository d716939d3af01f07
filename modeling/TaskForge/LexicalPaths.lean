import Mathlib.Data.List.Infix

/-!
# Paths as texts

Paths of the kind POSIX has, over any alphabet with a separator and a dot: joining,
lexical normalisation, and the extension of a file name, as `std::filesystem::path` defines
them.  Normalisation goes through the parts of a path and keeps a list of names, so to join
is to descend from the normal form of the left side (`normal_join`), and one name at the
end is a child if it is a proper name and nothing else (`isChild_descend_iff`).
-/

/-- What is special in a path. -/
structure PathAlphabet (α : Type) where
  separator : α
  dot : α

/-- A path in normal form, up to separators at its end. -/
@[ext] structure LexicalPath (α : Type) where
  absolute : Bool
  parts : List (List α)
deriving DecidableEq

/-- The file of this name in a directory. -/
def LexicalPath.child {α : Type} (dir : LexicalPath α) (name : List α) : LexicalPath α :=
  ⟨dir.absolute, dir.parts ++ [name]⟩

theorem LexicalPath.child_injective {α : Type} {dir : LexicalPath α} {first second : List α}
    (h : dir.child first = dir.child second) : first = second := by
  have hparts : dir.parts ++ [first] = dir.parts ++ [second] := congrArg LexicalPath.parts h
  exact List.singleton_inj.mp (List.append_cancel_left hparts)

namespace PathAlphabet

variable {α : Type} (a : PathAlphabet α)

/-! ### Names and places -/

/-- `..` -/
def up : List α := [a.dot, a.dot]

/-- A name a file can have. -/
structure Proper (name : List α) : Prop where
  plain : a.separator ∉ name
  ne_nil : name ≠ []
  ne_dot : name ≠ [a.dot]
  ne_up : name ≠ a.up

theorem proper_iff {name : List α} (h : a.separator ∉ name) :
    a.Proper name ↔ ¬ (name = [] ∨ name = [a.dot]) ∧ name ≠ a.up := by
  rw [not_or]
  exact ⟨fun hproper => ⟨⟨hproper.ne_nil, hproper.ne_dot⟩, hproper.ne_up⟩,
    fun hname => ⟨h, hname.1.1, hname.1.2, hname.2⟩⟩

/-- The file lies in the directory itself. -/
def IsChild (dir path : LexicalPath α) : Prop := ∃ name, a.Proper name ∧ path = dir.child name

/-- The directory, or what lies in it at any depth. -/
def Beneath (dir path : LexicalPath α) : Prop :=
  path.absolute = dir.absolute ∧
    ∃ names, (∀ name ∈ names, a.Proper name) ∧ path.parts = dir.parts ++ names

variable {a}

theorem Proper.head?_ne {name : List α} (h : a.Proper name) : name.head? ≠ some a.separator :=
  fun hhead => h.plain (List.mem_of_mem_head? hhead)

theorem IsChild.ne {dir path : LexicalPath α} (h : a.IsChild dir path) : path ≠ dir := by
  obtain ⟨name, -, rfl⟩ := h
  intro heq
  have hlength := congrArg (fun p => p.parts.length) heq
  simp [LexicalPath.child] at hlength

theorem beneath_refl (dir : LexicalPath α) : a.Beneath dir dir :=
  ⟨rfl, [], List.forall_mem_nil _, (List.append_nil _).symm⟩

theorem Beneath.child {dir path : LexicalPath α} (h : a.Beneath dir path) {name : List α}
    (hname : a.Proper name) : a.Beneath dir (path.child name) := by
  obtain ⟨habsolute, names, hnames, hparts⟩ := h
  refine ⟨habsolute, names ++ [name], ?_, ?_⟩
  · exact List.forall_mem_append.mpr ⟨hnames, List.forall_mem_singleton.mpr hname⟩
  · rw [LexicalPath.child, hparts, List.append_assoc]

/-- Of two children neither lies beneath the other. -/
theorem not_beneath_child {dir : LexicalPath α} {first second : List α} (h : first ≠ second) :
    ¬ a.Beneath (dir.child first) (dir.child second) := by
  rintro ⟨-, names, -, hparts⟩
  rw [LexicalPath.child, LexicalPath.child, List.append_assoc] at hparts
  exact h (List.cons.inj (List.append_cancel_left hparts)).1.symm

/-! ### Joining and descending -/

variable [DecidableEq α] (a)

/-- `base / rest`: an absolute right operand replaces the left. -/
def join (base rest : List α) : List α :=
  if rest.head? = some a.separator then rest
  else if base = [] ∨ base.getLast? = some a.separator then base ++ rest
  else base ++ a.separator :: rest

/-- One part of a path after those in normal form. -/
def push (absolute : Bool) (parts : List (List α)) (part : List α) : List (List α) :=
  if part = [] ∨ part = [a.dot] then parts
  else if part = a.up then
    match parts.getLast? with
    | none => if absolute then [] else [a.up]
    | some last => if last = a.up then parts ++ [a.up] else parts.dropLast
  else parts ++ [part]

/-- `path.lexically_normal()` -/
def normal (path : List α) : LexicalPath α where
  absolute := path.head? = some a.separator
  parts := (path.splitOn a.separator).foldl (a.push (path.head? = some a.separator)) []

/-- From a path in normal form along another one. -/
def descend (path : LexicalPath α) (rest : List α) : LexicalPath α where
  absolute := path.absolute
  parts := (rest.splitOn a.separator).foldl (a.push path.absolute) path.parts

variable {a}

theorem splitOn_append_cons (first second : List α) :
    (first ++ a.separator :: second).splitOn a.separator =
      first.splitOn a.separator ++ second.splitOn a.separator :=
  List.splitOnP_append_cons first second (beq_self_eq_true a.separator)

theorem push_nil (absolute : Bool) (parts : List (List α)) : a.push absolute parts [] = parts :=
  if_pos (Or.inl rfl)

theorem push_up (absolute : Bool) (parts : List (List α)) :
    a.push absolute parts a.up =
      match parts.getLast? with
      | none => if absolute then [] else [a.up]
      | some last => if last = a.up then parts ++ [a.up] else parts.dropLast := by
  rw [push, if_neg (by simp [up]), if_pos rfl]

theorem Proper.push_eq {name : List α} (h : a.Proper name) (absolute : Bool)
    (parts : List (List α)) : a.push absolute parts name = parts ++ [name] := by
  rw [push, if_neg (not_or.mpr ⟨h.ne_nil, h.ne_dot⟩), if_neg h.ne_up]

/-- **To join a relative path is to descend along it.** -/
theorem normal_join {base rest : List α} (hrest : rest.head? ≠ some a.separator) :
    a.normal (a.join base rest) = a.descend (a.normal base) rest := by
  have hhead : ∀ {first second : List α} {c : α}, first ≠ [] →
      (first ++ c :: second).head? = first.head? := fun hne => by
    rw [List.head?_append_of_ne_nil _ hne]
  unfold join
  rw [if_neg hrest]
  split
  · rename_i hbase
    rcases hbase with rfl | hlast
    · simp [normal, descend, hrest, push_nil]
    · -- the empty part after the separator adds nothing
      obtain ⟨init, rfl⟩ := List.getLast?_eq_some_iff.mp hlast
      have hsplit : (init ++ [a.separator]).splitOn a.separator =
          init.splitOn a.separator ++ [[]] := splitOn_append_cons init []
      rw [List.append_assoc, List.singleton_append, normal, descend, normal, hsplit,
        splitOn_append_cons, List.foldl_append, List.foldl_append, List.foldl_cons, List.foldl_nil,
        push_nil]
      cases init with
      | nil => rfl
      | cons c init => rfl
  · rename_i hbase
    rw [not_or] at hbase
    rw [normal, descend, normal, hhead hbase.1, splitOn_append_cons, List.foldl_append]

theorem descend_plain {path : LexicalPath α} {name : List α} (h : a.separator ∉ name) :
    a.descend path name = ⟨path.absolute, a.push path.absolute path.parts name⟩ := by
  rw [descend, List.splitOn_eq_singleton h, List.foldl_cons, List.foldl_nil]

theorem Proper.descend_eq {path : LexicalPath α} {name : List α} (h : a.Proper name) :
    a.descend path name = path.child name := by
  rw [descend_plain h.plain, h.push_eq]
  rfl

/-- The file of a proper name is a child. -/
theorem Proper.normal_join {base name : List α} (h : a.Proper name) :
    a.normal (a.join base name) = (a.normal base).child name := by
  rw [PathAlphabet.normal_join h.head?_ne, h.descend_eq]

/-- A name without a separator leads to a child if it is a proper name, and not otherwise. -/
theorem isChild_descend_iff {path : LexicalPath α} {name : List α} (h : a.separator ∉ name) :
    a.IsChild path (a.descend path name) ↔ a.Proper name := by
  constructor
  · rintro ⟨other, hother, heq⟩
    rw [descend_plain h] at heq
    have hparts : a.push path.absolute path.parts name = path.parts ++ [other] :=
      congrArg LexicalPath.parts heq
    rw [proper_iff a h]
    constructor
    · intro hname
      rw [push, if_pos hname] at hparts
      exact absurd (congrArg List.length hparts) (by simp)
    · rintro rfl
      rw [push_up] at hparts
      split at hparts
      · rename_i hnone
        rw [List.getLast?_eq_none_iff.mp hnone] at hparts
        split at hparts
        · cases hparts
        · exact hother.ne_up (List.singleton_inj.mp hparts).symm
      · split at hparts
        · exact hother.ne_up (List.singleton_inj.mp (List.append_cancel_left hparts)).symm
        · have hlength := congrArg List.length hparts
          simp at hlength
  · intro hproper
    exact ⟨name, hproper, hproper.descend_eq⟩

/-- One name from a child, be it `..`, does not leave the directory. -/
theorem beneath_descend_child {dir : LexicalPath α} {inner name : List α}
    (hinner : a.Proper inner) (hname : a.separator ∉ name) :
    a.Beneath dir (a.descend (dir.child inner) name) := by
  have hchild := (beneath_refl dir).child hinner
  by_cases hproper : a.Proper name
  · rw [hproper.descend_eq]
    exact hchild.child hproper
  · rw [proper_iff a hname, not_and_or, not_not, not_not] at hproper
    rw [descend_plain hname]
    rcases hproper with hstay | rfl
    · rw [push, if_pos hstay]
      exact hchild
    · have hback : a.push dir.absolute (dir.parts ++ [inner]) a.up = dir.parts := by
        rw [push_up]
        simp [hinner.ne_up]
      rw [LexicalPath.child, hback]
      exact beneath_refl dir

/-! ### Extensions -/

variable (a) in
/-- `filename.extension()` -/
def extension (name : List α) : List α :=
  if name = a.up then []
  else match name.reverse.dropWhile (· ≠ a.dot) with
    | _ :: _ :: _ => a.dot :: (name.reverse.takeWhile (· ≠ a.dot)).reverse
    | _ => []

theorem extension_append {stem ext : List α} (hstem : stem ≠ []) (hext : ext ≠ [])
    (hdot : a.dot ∉ ext) : a.extension (stem ++ a.dot :: ext) = a.dot :: ext := by
  have hpos : ∀ c ∈ ext.reverse, decide (c ≠ a.dot) = true := by
    intro c hc
    have hne : c ≠ a.dot := fun heq => hdot (heq ▸ List.mem_reverse.mp hc)
    simpa using hne
  have hreverse : (stem ++ a.dot :: ext).reverse = ext.reverse ++ a.dot :: stem.reverse := by
    simp
  have hup : stem ++ a.dot :: ext ≠ a.up := by
    intro heq
    have hlength := congrArg List.length heq
    have hstem' := List.length_pos_iff.mpr hstem
    have hext' := List.length_pos_iff.mpr hext
    simp only [List.length_append, List.length_cons, up, List.length_nil] at hlength
    omega
  rw [extension, if_neg hup, hreverse, List.dropWhile_append_of_pos hpos,
    List.takeWhile_append_of_pos hpos]
  cases hstem' : stem.reverse with
  | nil => exact absurd (List.reverse_eq_nil_iff.mp hstem') hstem
  | cons c rest => simp

end PathAlphabet
