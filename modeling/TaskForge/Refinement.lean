import Mathlib.Init

/-!
# Objects and their specifications

An object is used through calls, each of which is answered and changes its state.  What
it is for is said by an object that computes its answers; what it does is a relation, since
its environment may have a choice.  `Refines` speaks about one call, where it is allowed:
the specified answer is possible, no other is given, and the states stay related.  What
follows for a sequence of calls is `Refines.calls`.
-/

/-- An object that computes its answers. -/
structure Specification (Op : Type) (Answer : Op → Type) (S : Type) where
  answer : S → (op : Op) → Answer op
  next : S → Op → S

namespace Specification

variable {Op S : Type} {Answer : Op → Type} (spec : Specification Op Answer S)

/-- The calls with their answers. -/
def answers : S → List Op → List ((op : Op) × Answer op)
  | _, [] => []
  | s, op :: ops => ⟨op, spec.answer s op⟩ :: answers (spec.next s op) ops

/-- The state after the calls. -/
def after (s : S) (ops : List Op) : S := ops.foldl spec.next s

/-- Every call is made in a state that allows it. -/
def Permits (allowed : S → Op → Prop) : S → List Op → Prop
  | _, [] => True
  | s, op :: ops => allowed s op ∧ Permits allowed (spec.next s op) ops

end Specification

section Refines

variable {Op S W : Type} {Answer : Op → Type}

/-- One call after the other. -/
inductive Calls (call : W → (op : Op) → Answer op → W → Prop) :
    W → List ((op : Op) × Answer op) → W → Prop
  | nil (w : W) : Calls call w [] w
  | cons {w w' w'' : W} {op : Op} {answer : Answer op} {rest : List ((op : Op) × Answer op)} :
      call w op answer w' → Calls call w' rest w'' → Calls call w (⟨op, answer⟩ :: rest) w''

/-- The object does what is specified, one call at a time. -/
structure Refines (call : W → (op : Op) → Answer op → W → Prop)
    (spec : Specification Op Answer S) (allowed : S → Op → Prop) (holds : W → S → Prop) :
    Prop where
  possible : ∀ {w s op}, holds w s → allowed s op → ∃ w', call w op (spec.answer s op) w'
  correct : ∀ {w s op answer w'}, holds w s → allowed s op → call w op answer w' →
    answer = spec.answer s op ∧ holds w' (spec.next s op)

variable {call : W → (op : Op) → Answer op → W → Prop} {spec : Specification Op Answer S}
  {allowed : S → Op → Prop} {holds : W → S → Prop}

theorem Refines.calls_possible (h : Refines call spec allowed holds) {ops : List Op} {w : W}
    {s : S} (hholds : holds w s) (hpermits : spec.Permits allowed s ops) :
    ∃ w', Calls call w (spec.answers s ops) w' := by
  induction ops generalizing w s with
  | nil => exact ⟨w, .nil w⟩
  | cons op ops ih =>
    obtain ⟨hallowed, hrest⟩ := hpermits
    obtain ⟨w', hcall⟩ := h.possible hholds hallowed
    obtain ⟨w'', hcalls⟩ := ih (h.correct hholds hallowed hcall).2 hrest
    exact ⟨w'', .cons hcall hcalls⟩

theorem Refines.calls_correct (h : Refines call spec allowed holds) {w w' : W} {s : S}
    {exchanges : List ((op : Op) × Answer op)} (hcalls : Calls call w exchanges w')
    (hholds : holds w s) (hpermits : spec.Permits allowed s (exchanges.map Sigma.fst)) :
    exchanges = spec.answers s (exchanges.map Sigma.fst) ∧
      holds w' (spec.after s (exchanges.map Sigma.fst)) := by
  induction hcalls generalizing s with
  | nil w => exact ⟨rfl, hholds⟩
  | @cons w w' w'' op answer rest hcall _ ih =>
    rw [List.map_cons] at hpermits ⊢
    obtain ⟨hallowed, hrest⟩ := hpermits
    obtain ⟨hanswer, hnext⟩ := h.correct hholds hallowed hcall
    obtain ⟨hanswers, hafter⟩ := ih hnext hrest
    refine ⟨?_, hafter⟩
    rw [Specification.answers, ← hanswers, ← hanswer]

/-- **Any number of calls** can be answered as specified, and is not answered otherwise. -/
theorem Refines.calls (h : Refines call spec allowed holds) {w : W} {s : S} (hholds : holds w s)
    {ops : List Op} (hpermits : spec.Permits allowed s ops) :
    (∃ w', Calls call w (spec.answers s ops) w') ∧
    ∀ exchanges w', exchanges.map Sigma.fst = ops → Calls call w exchanges w' →
      exchanges = spec.answers s ops ∧ holds w' (spec.after s ops) := by
  refine ⟨h.calls_possible hholds hpermits, ?_⟩
  rintro exchanges w' rfl hcalls
  exact h.calls_correct hcalls hholds hpermits

end Refines
