import Mathlib.Logic.IsEmpty.Basic
import Mathlib.Logic.Relation
import Mathlib.Tactic.Common

/-!
# Effect programs and their protocols

A program is a tree of effects: at each node it performs an effect and continues
with the response.  Nothing is said about what an effect does; that is the business
of a `Semantics`, a relation between a world, an effect, its response and the next
world, together with the interference that may happen between two effects.

`Follows` relates a program to a protocol, an automaton over effects.  It is about
the program alone.  `Outline` relates the protocol to a semantics: an assertion for
every phase, kept by the transitions and by interference.  A program is verified
by showing once which protocol it follows, and then, for each property, one outline
of the protocol.
-/

/-- A program that performs effects from `E`; effect `e` is answered by an `R e`. -/
inductive Prog (E : Type) (R : E → Type) (α : Type) where
  | pure (a : α)
  | step (e : E) (next : R e → Prog E R α)

namespace Prog

variable {E : Type} {R : E → Type} {α β : Type}

def bind : Prog E R α → (α → Prog E R β) → Prog E R β
  | .pure a, f => f a
  | .step e next, f => .step e fun r => (next r).bind f

instance : Monad (Prog E R) where
  pure := Prog.pure
  bind := Prog.bind

/-- Perform one effect and return its response. -/
def perform (e : E) : Prog E R (R e) := .step e .pure

theorem bind_pure_eq (p : Prog E R α) : p.bind .pure = p := by
  induction p with
  | pure a => rfl
  | step e next ih => exact congrArg (Prog.step e) (funext ih)

theorem bind_bind {γ : Type} (p : Prog E R α) (f : α → Prog E R β) (g : β → Prog E R γ) :
    (p.bind f).bind g = p.bind fun a => (f a).bind g := by
  induction p with
  | pure a => rfl
  | step e next ih => exact congrArg (Prog.step e) (funext ih)

instance : LawfulMonad (Prog E R) :=
  LawfulMonad.mk' _ (fun p => bind_pure_eq p) (fun _ _ => rfl) bind_bind

/-! ### Protocols -/

variable {Φ : Type}

/-- The program follows a protocol from a phase on: whatever the responses, each of
    its effects is a transition, and where it returns `post` holds. -/
def Follows (next : Φ → (e : E) → R e → Φ → Prop) (post : α → Φ → Prop) :
    Prog E R α → Φ → Prop
  | .pure a, φ => post a φ
  | .step e k, φ => ∀ r, ∃ φ', next φ e r φ' ∧ (k r).Follows next post φ'

variable {next : Φ → (e : E) → R e → Φ → Prop} {post : α → Φ → Prop}

@[simp] theorem follows_pure (a : α) (φ : Φ) :
    (Pure.pure a : Prog E R α).Follows next post φ ↔ post a φ := Iff.rfl

@[simp] theorem follows_bind (p : Prog E R α) (f : α → Prog E R β) (post : β → Φ → Prop)
    (φ : Φ) :
    (p >>= f).Follows next post φ ↔
      p.Follows next (fun a φ' => (f a).Follows next post φ') φ := by
  induction p generalizing φ with
  | pure a => exact Iff.rfl
  | step e k ih =>
    constructor
    · intro h r
      obtain ⟨φ', htrans, hrest⟩ := h r
      exact ⟨φ', htrans, (ih r φ').mp hrest⟩
    · intro h r
      obtain ⟨φ', htrans, hrest⟩ := h r
      exact ⟨φ', htrans, (ih r φ').mpr hrest⟩

theorem Follows.mono {p : Prog E R α} {post' : α → Φ → Prop} {φ : Φ}
    (h : p.Follows next post φ) (himp : ∀ a φ', post a φ' → post' a φ') :
    p.Follows next post' φ := by
  induction p generalizing φ with
  | pure a => exact himp a φ h
  | step e k ih =>
    intro r
    obtain ⟨φ', htrans, hrest⟩ := h r
    exact ⟨φ', htrans, ih r hrest⟩

/-- With some responses, the program performs this effect. -/
inductive Performs (e : E) : Prog E R α → Prop
  | here {k : R e → Prog E R α} : Performs e (.step e k)
  | later {e' : E} {k : R e' → Prog E R α} (r : R e') :
      Performs e (k r) → Performs e (.step e' k)

/-- An effect of a program that follows a protocol is a transition. -/
theorem Follows.performs {p : Prog E R α} {e : E} (hp : p.Performs e) :
    ∀ {φ : Φ}, p.Follows next post φ → ∀ r : R e, ∃ φ φ', next φ e r φ' := by
  induction hp with
  | here =>
    intro φ hfollows r
    obtain ⟨φ', htrans, -⟩ := hfollows r
    exact ⟨φ, φ', htrans⟩
  | later r' _ ih =>
    intro φ hfollows r
    obtain ⟨φ', -, hrest⟩ := hfollows r'
    exact ih hrest r

/-- As long as responses are `ok`, the program performs effects from `F` only and
    returns a value that satisfies `P`. -/
def Within (ok : (e : E) → R e → Prop) (F : E → Prop) (P : α → Prop) : Prog E R α → Prop
  | .pure a => P a
  | .step e k => F e ∧ ∀ r, ok e r → (k r).Within ok F P

variable {ok : (e : E) → R e → Prop} {F : E → Prop} {P : α → Prop}

@[simp] theorem within_pure (a : α) : (Pure.pure a : Prog E R α).Within ok F P ↔ P a := Iff.rfl

theorem within_perform {e : E} {P : R e → Prop} (he : F e) (hr : ∀ r, ok e r → P r) :
    (perform e).Within ok F P := ⟨he, hr⟩

theorem Within.bind {p : Prog E R α} {f : α → Prog E R β} {Q : β → Prop}
    (hp : p.Within ok F P) (hf : ∀ a, P a → (f a).Within ok F Q) : (p >>= f).Within ok F Q := by
  induction p with
  | pure a => exact hf a hp
  | step e k ih => exact ⟨hp.1, fun r hr => ih r (hp.2 r hr)⟩

theorem Within.mono {p : Prog E R α} {F' : E → Prop} {P' : α → Prop} (hp : p.Within ok F P)
    (hF : ∀ e, F e → F' e) (hP : ∀ a, P a → P' a) : p.Within ok F' P' := by
  induction p with
  | pure a => exact hP a hp
  | step e k ih => exact ⟨hF e hp.1, fun r hr => ih r (hp.2 r hr)⟩

theorem Within.weaken_ok {p : Prog E R α} {ok' : (e : E) → R e → Prop} (hp : p.Within ok F P)
    (hok : ∀ e r, ok' e r → ok e r) : p.Within ok' F P := by
  induction p with
  | pure a => exact hp
  | step e k ih => exact ⟨hp.1, fun r hr => ih r (hp.2 r (hok e r hr))⟩

/-- Whatever the responses, a program performs effects of its footprint only. -/
theorem Within.performs {p : Prog E R α} (hp : p.Within (fun _ _ => True) F P) {e : E}
    (he : p.Performs e) : F e := by
  induction he with
  | here => exact hp.1
  | later r _ ih => exact ih (hp.2 r trivial)

/-- A property of programs that sequences keep and that these effects have. -/
structure Closed (F : E → Prop) (P : (α : Type) → Prog E R α → Prop) : Prop where
  pure : ∀ {α : Type} (a : α), P α (Pure.pure a)
  bind : ∀ {α β : Type} {p : Prog E R α} {f : α → Prog E R β},
    P α p → (∀ a, P β (f a)) → P β (p >>= f)
  perform : ∀ {e : E}, F e → P (R e) (Prog.perform e)

theorem Closed.perform_bind {Q : (α : Type) → Prog E R α → Prop} (h : Closed F Q) {e : E}
    {f : R e → Prog E R β} (he : F e) (hf : ∀ r, Q β (f r)) : Q β (Prog.perform e >>= f) :=
  h.bind (h.perform he) hf

theorem Closed.of_within {Q : (α : Type) → Prog E R α → Prop} (h : Closed F Q) {p : Prog E R α}
    (hp : p.Within (fun _ _ => True) F P) : Q α p := by
  induction p with
  | pure a => exact h.pure a
  | step e k ih => exact h.bind (h.perform hp.1) fun r => ih r (hp.2 r trivial)

/-- A program stays in a phase whose transitions on its effects are loops. -/
theorem Within.follows {p : Prog E R α} (hp : p.Within (fun _ _ => True) F P) {φ : Φ}
    (hloop : ∀ e, F e → ∀ r, next φ e r φ) :
    p.Follows next (fun a φ' => φ' = φ ∧ P a) φ := by
  induction p with
  | pure a => exact ⟨rfl, hp⟩
  | step e k ih => exact fun r => ⟨φ, hloop e hp.1 r, ih r (hp.2 r trivial)⟩

/-- A program that follows a protocol performs effects of its transitions only. -/
theorem Follows.within (hnext : ∀ {φ e r φ'}, next φ e r φ' → F e)
    (hsilent : ∀ e, IsEmpty (R e) → F e) {p : Prog E R α} {φ : Φ} (h : p.Follows next post φ) :
    p.Within (fun _ _ => True) F fun _ => True := by
  induction p generalizing φ with
  | pure a => trivial
  | step e k ih =>
    constructor
    · rcases isEmpty_or_nonempty (R e) with hempty | ⟨⟨r⟩⟩
      · exact hsilent e hempty
      · obtain ⟨φ', htrans, -⟩ := h r
        exact hnext htrans
    · intro r _
      obtain ⟨φ', -, hrest⟩ := h r
      exact ih r hrest

/-! ### Complete traces -/

/-- The program performs these effects, answered like this, and returns `a`. -/
inductive Trace : Prog E R α → List ((e : E) × R e) → α → Prop
  | done (a : α) : Trace (.pure a) [] a
  | step {e : E} {k : R e → Prog E R α} {events : List ((e : E) × R e)} {a : α} (r : R e) :
      Trace (k r) events a → Trace (.step e k) (⟨e, r⟩ :: events) a

theorem trace_pure {a b : α} {events : List ((e : E) × R e)} :
    (Pure.pure a : Prog E R α).Trace events b ↔ events = [] ∧ b = a := by
  constructor
  · rintro ⟨⟩
    exact ⟨rfl, rfl⟩
  · rintro ⟨rfl, rfl⟩
    exact .done b

theorem trace_step {e : E} {k : R e → Prog E R α} {events : List ((e : E) × R e)} {a : α} :
    (Prog.step e k).Trace events a ↔
      ∃ r rest, events = ⟨e, r⟩ :: rest ∧ (k r).Trace rest a := by
  constructor
  · rintro (_ | ⟨r, hrest⟩)
    exact ⟨r, _, rfl, hrest⟩
  · rintro ⟨r, rest, rfl, hrest⟩
    exact .step r hrest

theorem trace_perform_bind {e : E} {f : R e → Prog E R β} {events : List ((e : E) × R e)}
    {b : β} :
    (perform e >>= f).Trace events b ↔
      ∃ r rest, events = ⟨e, r⟩ :: rest ∧ (f r).Trace rest b :=
  trace_step

/-- The events of a sequence are those of its first part and then of the second. -/
theorem trace_bind {p : Prog E R α} {f : α → Prog E R β} {events : List ((e : E) × R e)}
    {b : β} :
    (p >>= f).Trace events b ↔
      ∃ first a second, events = first ++ second ∧ p.Trace first a ∧ (f a).Trace second b := by
  induction p generalizing events with
  | pure a =>
    constructor
    · exact fun h => ⟨[], a, events, rfl, .done a, h⟩
    · rintro ⟨_, _, second, rfl, ⟨⟩, h⟩
      exact h
  | step e k ih =>
    constructor
    · intro h
      obtain ⟨r, rest, rfl, hrest⟩ := trace_step.mp h
      obtain ⟨first, a, second, rfl, hfirst, hsecond⟩ := (ih r).mp hrest
      exact ⟨⟨e, r⟩ :: first, a, second, rfl, .step r hfirst, hsecond⟩
    · rintro ⟨first, a, second, rfl, hfirst, hsecond⟩
      obtain ⟨r, rest, rfl, hrest⟩ := trace_step.mp hfirst
      exact .step r ((ih r).mpr ⟨rest, a, second, rfl, hrest, hsecond⟩)

/-- What comes after a trace of the first part is a trace of the second. -/
theorem Trace.rest {p : Prog E R α} {f : α → Prog E R β} {first second : List ((e : E) × R e)}
    {a : α} {b : β} (hp : p.Trace first a) (h : (p >>= f).Trace (first ++ second) b) :
    (f a).Trace second b := by
  induction hp with
  | done a => exact h
  | step r _ ih =>
    obtain ⟨r', rest, heq, hrest⟩ := trace_step.mp h
    cases heq
    exact ih hrest

/-- What all effects and results of a program satisfy holds along each of its traces. -/
theorem Within.trace {p : Prog E R α} (hp : p.Within ok F P) {events : List ((e : E) × R e)}
    {a : α} (htrace : p.Trace events a) (hok : ∀ event ∈ events, ok event.1 event.2) :
    (∀ event ∈ events, F event.1) ∧ P a := by
  induction htrace with
  | done a => exact ⟨List.forall_mem_nil _, hp⟩
  | step r _ ih =>
    rw [List.forall_mem_cons] at hok ⊢
    obtain ⟨hrest, ha⟩ := ih (hp.2 r hok.1) hok.2
    exact ⟨⟨hp.1, hrest⟩, ha⟩

/-! ### Traces that end in an exception -/

section Throws

variable {exception : E → Prop}

/-- The program performs these effects, answered like this, and then an exception. -/
inductive Throws (exception : E → Prop) : Prog E R α → List ((e : E) × R e) → Prop
  | now {e : E} {k : R e → Prog E R α} : exception e → Throws exception (.step e k) []
  | later {e : E} {k : R e → Prog E R α} {events : List ((e : E) × R e)} (r : R e) :
      Throws exception (k r) events → Throws exception (.step e k) (⟨e, r⟩ :: events)

theorem not_throws_pure {a : α} {events : List ((e : E) × R e)} :
    ¬ (Pure.pure a : Prog E R α).Throws exception events := nofun

theorem throws_step {e : E} (he : ¬ exception e) {k : R e → Prog E R α}
    {events : List ((e : E) × R e)} :
    (Prog.step e k).Throws exception events ↔
      ∃ r rest, events = ⟨e, r⟩ :: rest ∧ (k r).Throws exception rest := by
  constructor
  · rintro (hnow | ⟨r, hrest⟩)
    · exact absurd hnow he
    · exact ⟨r, _, rfl, hrest⟩
  · rintro ⟨r, rest, rfl, hrest⟩
    exact .later r hrest

theorem throws_perform_bind {e : E} (he : ¬ exception e) {f : R e → Prog E R β}
    {events : List ((e : E) × R e)} :
    (perform e >>= f).Throws exception events ↔
      ∃ r rest, events = ⟨e, r⟩ :: rest ∧ (f r).Throws exception rest :=
  throws_step he

/-- A sequence throws in its first part, or in the second after a trace of the first. -/
theorem throws_bind {p : Prog E R α} {f : α → Prog E R β} {events : List ((e : E) × R e)} :
    (p >>= f).Throws exception events ↔ p.Throws exception events ∨
      ∃ first a second, events = first ++ second ∧ p.Trace first a ∧
        (f a).Throws exception second := by
  induction p generalizing events with
  | pure a =>
    constructor
    · exact fun h => .inr ⟨[], a, events, rfl, .done a, h⟩
    · rintro (h | ⟨_, _, second, rfl, ⟨⟩, h⟩)
      · cases h
      · exact h
  | step e k ih =>
    constructor
    · rintro (hnow | ⟨r, hrest⟩)
      · exact .inl (.now hnow)
      rcases (ih r).mp hrest with hfirst | ⟨first, a, second, rfl, hfirst, hsecond⟩
      · exact .inl (.later r hfirst)
      · exact .inr ⟨⟨e, r⟩ :: first, a, second, rfl, .step r hfirst, hsecond⟩
    · rintro ((hnow | ⟨r, hrest⟩) | ⟨_, a, second, rfl, hfirst, hsecond⟩)
      · exact .now hnow
      · exact .later r ((ih r).mpr (.inl hrest))
      · obtain ⟨r, rest, rfl, hrest⟩ := trace_step.mp hfirst
        exact .later r ((ih r).mpr (.inr ⟨rest, a, second, rfl, hrest, hsecond⟩))

/-- Where a program returns it has not thrown. -/
theorem Trace.not_throws {p : Prog E R α} {first second : List ((e : E) × R e)} {a : α}
    (h : p.Trace first a) (hexception : ∀ e, exception e → IsEmpty (R e)) :
    ¬ p.Throws exception (first ++ second) := by
  induction h with
  | done a => exact nofun
  | @step e k events a r _ ih =>
    intro hthrows
    have he : ¬ exception e := fun hempty => (hexception e hempty).false r
    obtain ⟨r', rest, heq, hrest⟩ := (throws_step he).mp hthrows
    cases heq
    exact ih hrest

/-- What all effects of a program satisfy holds before an exception. -/
theorem Within.throws {p : Prog E R α} (hp : p.Within ok F P) {events : List ((e : E) × R e)}
    (hthrows : p.Throws exception events) (hok : ∀ event ∈ events, ok event.1 event.2) :
    (∀ event ∈ events, F event.1) ∧ ∃ e, F e ∧ exception e := by
  induction hthrows with
  | now he => exact ⟨List.forall_mem_nil _, _, hp.1, he⟩
  | later r _ ih =>
    rw [List.forall_mem_cons] at hok ⊢
    obtain ⟨hrest, hexception⟩ := ih (hp.2 r hok.1) hok.2
    exact ⟨⟨hp.1, hrest⟩, hexception⟩

/-- The exchanges of a whole execution: the program returns or throws. -/
def Ends (exception : E → Prop) (p : Prog E R α) (events : List ((e : E) × R e)) : Prop :=
  (∃ a, p.Trace events a) ∨ p.Throws exception events

theorem Trace.ends {p : Prog E R α} {events : List ((e : E) × R e)} {a : α}
    (h : p.Trace events a) : p.Ends exception events :=
  .inl ⟨a, h⟩

theorem ends_pure {a : α} {events : List ((e : E) × R e)} :
    (Pure.pure a : Prog E R α).Ends exception events ↔ events = [] := by
  constructor
  · rintro (⟨_, htrace⟩ | hthrows)
    · exact (trace_pure.mp htrace).1
    · exact absurd hthrows not_throws_pure
  · rintro rfl
    exact .inl ⟨a, .done a⟩

theorem Ends.of_bind {p : Prog E R α} {f : α → Prog E R β} {events : List ((e : E) × R e)}
    (h : (p >>= f).Ends exception events) :
    p.Throws exception events ∨ ∃ first a second, events = first ++ second ∧
      p.Trace first a ∧ (f a).Ends exception second := by
  rcases h with ⟨b, htrace⟩ | hthrows
  · obtain ⟨first, a, second, heq, hfirst, hsecond⟩ := trace_bind.mp htrace
    exact .inr ⟨first, a, second, heq, hfirst, hsecond.ends⟩
  · rcases throws_bind.mp hthrows with hfirst | ⟨first, a, second, heq, hfirst, hsecond⟩
    · exact .inl hfirst
    · exact .inr ⟨first, a, second, heq, hfirst, .inr hsecond⟩

theorem Within.ends {p : Prog E R α} (hp : p.Within ok F P) {events : List ((e : E) × R e)}
    (hends : p.Ends exception events) (hok : ∀ event ∈ events, ok event.1 event.2) :
    ∀ event ∈ events, F event.1 := by
  rcases hends with ⟨a, htrace⟩ | hthrows
  · exact (hp.trace htrace hok).1
  · exact (hp.throws hthrows hok).1

end Throws

/-! ### Meaning -/

/-- What effects do to a world, and what may happen to it between them. -/
structure Semantics (E : Type) (R : E → Type) (W : Type) where
  effect : W → (e : E) → R e → W → Prop
  rely : W → W → Prop

variable {W : Type} {S : Semantics E R W}

/-- A complete execution, interference included. -/
inductive Exec (S : Semantics E R W) : W → Prog E R α → α → W → Prop
  | done (w : W) (a : α) : Exec S w (.pure a) a w
  | effect {w w' w'' : W} {e : E} {r : R e} {k : R e → Prog E R α} {a : α} :
      S.effect w e r w' → Exec S w' (k r) a w'' → Exec S w (.step e k) a w''
  | rely {w w' w'' : W} {p : Prog E R α} {a : α} :
      S.rely w w' → Exec S w' p a w'' → Exec S w p a w''

/-- Part of an execution, without interference: from `p` in `w` to `p'` in `w'`. -/
inductive Runs (effect : W → (e : E) → R e → W → Prop) :
    W → Prog E R α → W → Prog E R α → Prop
  | refl (w : W) (p : Prog E R α) : Runs effect w p w p
  | step {w w' w'' : W} {e : E} {r : R e} {k : R e → Prog E R α} {p' : Prog E R α} :
      effect w e r w' → Runs effect w' (k r) w'' p' → Runs effect w (.step e k) w'' p'

variable {effect : W → (e : E) → R e → W → Prop}

theorem Runs.trans {w w' w'' : W} {p p' p'' : Prog E R α} (h : Runs effect w p w' p')
    (h' : Runs effect w' p' w'' p'') : Runs effect w p w'' p'' := by
  induction h with
  | refl => exact h'
  | step heffect _ ih => exact .step heffect (ih h')

theorem Runs.perform {w w' : W} {e : E} {r : R e} (h : effect w e r w') :
    Runs effect w (Prog.perform e) w' (.pure r) :=
  .step h (.refl _ _)

theorem runs_pure {w w' : W} {a b : α} :
    Runs effect w (.pure a) w' (.pure b) ↔ a = b ∧ w = w' := by
  constructor
  · intro h
    cases h
    exact ⟨rfl, rfl⟩
  · rintro ⟨rfl, rfl⟩
    exact .refl w _

theorem runs_perform_bind {w w' : W} {e : E} {f : R e → Prog E R β} {b : β} :
    Runs effect w (Prog.perform e >>= f) w' (.pure b) ↔
      ∃ r v, effect w e r v ∧ Runs effect v (f r) w' (.pure b) := by
  constructor
  · intro h
    cases h with
    | step heffect hrest => exact ⟨_, _, heffect, hrest⟩
  · rintro ⟨r, v, heffect, hrest⟩
    exact .step heffect hrest

/-- Run the first part of a sequence, then the rest. -/
theorem Runs.bind {w w' w'' : W} {p : Prog E R α} {f : α → Prog E R β} {a : α}
    {q : Prog E R β} (hp : Runs effect w p w' (.pure a)) (hf : Runs effect w' (f a) w'' q) :
    Runs effect w (p >>= f) w'' q := by
  generalize hend : Prog.pure a = p' at hp
  induction hp with
  | refl => exact hend ▸ hf
  | step heffect _ ih => exact .step heffect (ih hf hend)

/-- A complete trace of the rest, extended to the start of a run. -/
theorem Runs.exists_trace {w w' : W} {p p' : Prog E R α} (h : Runs effect w p w' p')
    {events : List ((e : E) × R e)} {a : α} (htrace : p'.Trace events a) :
    ∃ first, p.Trace (first ++ events) a := by
  induction h with
  | refl => exact ⟨[], htrace⟩
  | @step _ _ _ e r k _ _ _ ih =>
    obtain ⟨first, hfirst⟩ := ih htrace
    exact ⟨⟨e, r⟩ :: first, Trace.step (e := e) (k := k) r hfirst⟩

/-- The same run, inside a larger world. -/
theorem Runs.embed {V : Type} {effect' : V → (e : E) → R e → V → Prop} (f : W → V)
    (hf : ∀ {w e r w'}, effect w e r w' → effect' (f w) e r (f w')) {w w' : W}
    {p p' : Prog E R α} (h : Runs effect w p w' p') : Runs effect' (f w) p (f w') p' := by
  induction h with
  | refl => exact .refl _ _
  | step heffect _ ih => exact .step (hf heffect) ih

theorem Runs.performs {w w' : W} {p p' : Prog E R α} {e : E} (h : Runs effect w p w' p')
    (hp : p'.Performs e) : p.Performs e := by
  induction h with
  | refl => exact hp
  | step _ _ ih => exact .later _ (ih hp)

/-- A run up to an exception. -/
theorem Runs.throws {exception : E → Prop} {w w' : W} {p : Prog E R α} {e : E}
    {k : R e → Prog E R α} (h : Runs effect w p w' (.step e k)) (he : exception e) :
    ∃ events, p.Throws exception events := by
  generalize hend : Prog.step e k = p' at h
  induction h with
  | refl => exact ⟨[], hend ▸ .now he⟩
  | @step _ _ _ _ r _ _ _ _ ih =>
    obtain ⟨events, hevents⟩ := ih hend
    exact ⟨_, .later r hevents⟩

theorem Runs.exec {w w' : W} {p : Prog E R α} {a : α} (h : Runs S.effect w p w' (.pure a)) :
    Exec S w p a w' := by
  generalize hend : Prog.pure a = p' at h
  induction h with
  | refl => exact hend ▸ .done _ a
  | step heffect _ ih => exact .effect heffect (ih hend)

/-- An assertion for every phase, kept by transitions and by interference. -/
structure Outline (S : Semantics E R W) (next : Φ → (e : E) → R e → Φ → Prop)
    (holds : Φ → W → Prop) : Prop where
  effect : ∀ {φ e r φ' w w'}, next φ e r φ' → holds φ w → S.effect w e r w' → holds φ' w'
  rely : ∀ {φ w w'}, S.rely w w' → holds φ w → holds φ w'

/-- **Soundness**: a program that follows the protocol ends in a phase whose
    assertion holds. -/
theorem Outline.exec {holds : Φ → W → Prop} (outline : Outline S next holds)
    {p : Prog E R α} {w w' : W} {a : α} (hexec : Exec S w p a w') :
    ∀ {φ : Φ}, p.Follows next post φ → holds φ w → ∃ φ', post a φ' ∧ holds φ' w' := by
  induction hexec with
  | done w a => exact fun hfollows hw => ⟨_, hfollows, hw⟩
  | effect heffect _ ih =>
    intro φ hfollows hw
    obtain ⟨φ', htrans, hrest⟩ := hfollows _
    exact ih hrest (outline.effect htrans hw heffect)
  | rely hrely _ ih =>
    intro φ hfollows hw
    exact ih hfollows (outline.rely hrely hw)

/-- The same for a run that has not ended. -/
theorem Outline.runs {holds : Φ → W → Prop} (outline : Outline S next holds)
    {p p' : Prog E R α} {w w' : W} (hruns : Runs S.effect w p w' p') :
    ∀ {φ : Φ}, p.Follows next post φ → holds φ w → ∃ φ', p'.Follows next post φ' ∧ holds φ' w' := by
  induction hruns with
  | refl => exact fun hfollows hw => ⟨_, hfollows, hw⟩
  | step heffect _ ih =>
    intro φ hfollows hw
    obtain ⟨φ', htrans, hrest⟩ := hfollows _
    exact ih hrest (outline.effect htrans hw heffect)

end Prog
