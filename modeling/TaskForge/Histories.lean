import TaskForge.Program

/-!
# Programs and their histories

Two protocols every program could follow, as they allow any effect: one whose phase is the
list of events so far, and one whose phase is the price of them.  What makes them useful is
the condition under which an effect is allowed.  It is about the past, so a program that
follows the protocol performs an effect only after what the condition asks for.
-/

namespace Prog

variable {E : Type} {R : E → Type} {α : Type}

/-! ### Phases along a trace -/

section Along

variable {Φ : Type} {next : Φ → (e : E) → R e → Φ → Prop}

/-- These events take the protocol from one phase to another. -/
inductive Along (next : Φ → (e : E) → R e → Φ → Prop) : Φ → List ((e : E) × R e) → Φ → Prop
  | nil (φ : Φ) : Along next φ [] φ
  | cons {φ φ' φ'' : Φ} {e : E} {r : R e} {events : List ((e : E) × R e)} :
      next φ e r φ' → Along next φ' events φ'' → Along next φ (⟨e, r⟩ :: events) φ''

/-- A trace of a program that follows the protocol ends in a phase where `post` holds. -/
theorem Follows.along {p : Prog E R α} {events : List ((e : E) × R e)} {a : α}
    {post : α → Φ → Prop} {φ : Φ} (h : p.Follows next post φ) (htrace : p.Trace events a) :
    ∃ φ', Along next φ events φ' ∧ post a φ' := by
  induction htrace generalizing φ with
  | done a => exact ⟨φ, .nil φ, h⟩
  | step r _ ih =>
    obtain ⟨φ', hnext, hrest⟩ := h r
    obtain ⟨φ'', halong, hpost⟩ := ih hrest
    exact ⟨φ'', .cons hnext halong, hpost⟩

theorem Along.split {φ φ'' : Φ} {first second : List ((e : E) × R e)}
    (h : Along next φ (first ++ second) φ'') :
    ∃ φ', Along next φ first φ' ∧ Along next φ' second φ'' := by
  induction first generalizing φ with
  | nil => exact ⟨φ, .nil φ, h⟩
  | cons event first ih =>
    cases h with
    | cons hnext hrest =>
      obtain ⟨φ', hfirst, hsecond⟩ := ih hrest
      exact ⟨φ', .cons hnext hfirst, hsecond⟩

/-- The phase before an effect of a trace, which is a transition from there. -/
theorem Follows.before {p : Prog E R α} {first second : List ((e : E) × R e)} {e : E} {r : R e}
    {a : α} {post : α → Φ → Prop} {φ : Φ} (h : p.Follows next post φ)
    (htrace : p.Trace (first ++ ⟨e, r⟩ :: second) a) :
    ∃ φ' φ'', Along next φ first φ' ∧ next φ' e r φ'' := by
  obtain ⟨_, halong, -⟩ := h.along htrace
  obtain ⟨φ', hfirst, hsecond⟩ := halong.split
  cases hsecond with
  | cons hnext => exact ⟨φ', _, hfirst, hnext⟩

end Along

/-! ### Events -/

section Events

variable {allowed : List ((e : E) × R e) → E → Prop} {p : Prog E R α}
  {events first second past past' : List ((e : E) × R e)} {a : α}
  {post : α → List ((e : E) × R e) → Prop}

/-- The protocol that records events, and allows an effect or not by what is recorded. -/
def Records (allowed : List ((e : E) × R e) → E → Prop) (past : List ((e : E) × R e)) (e : E)
    (r : R e) (past' : List ((e : E) × R e)) : Prop :=
  allowed past e ∧ past' = past ++ [⟨e, r⟩]

theorem Along.recorded (h : Along (Records allowed) past events past') :
    past' = past ++ events := by
  induction h with
  | nil => rw [List.append_nil]
  | cons hnext _ ih =>
    obtain ⟨-, rfl⟩ := hnext
    rw [ih, List.append_assoc, List.singleton_append]

/-- What is known of the record where the program returns holds of its trace. -/
theorem Follows.recorded (h : p.Follows (Records allowed) post past) (htrace : p.Trace events a) :
    post a (past ++ events) := by
  obtain ⟨past', halong, hpost⟩ := h.along htrace
  rwa [halong.recorded] at hpost

/-- An effect is performed if what was performed before allows it. -/
theorem Follows.allowed_after (h : p.Follows (Records allowed) post past)
    (htrace : p.Trace events a) {e : E} {r : R e} (hevents : events = first ++ ⟨e, r⟩ :: second) :
    allowed (past ++ first) e := by
  subst hevents
  obtain ⟨past', _, halong, hallowed, -⟩ := h.before htrace
  rwa [halong.recorded] at hallowed

end Events

/-! ### Prices -/

section Prices

variable {cost : (e : E) → R e → Nat} {allowed : Nat → E → Prop} {p : Prog E R α}
  {events first second : List ((e : E) × R e)} {a : α} {post : α → Nat → Prop} {total total' : Nat}

/-- The protocol that adds up prices, and allows an effect or not by the total so far. -/
def Charges (cost : (e : E) → R e → Nat) (allowed : Nat → E → Prop) (total : Nat) (e : E) (r : R e)
    (total' : Nat) : Prop :=
  allowed total e ∧ total' = total + cost e r

/-- The price of a list of events. -/
def spent (cost : (e : E) → R e → Nat) : List ((e : E) × R e) → Nat
  | [] => 0
  | ⟨e, r⟩ :: events => cost e r + spent cost events

theorem Along.spent (h : Along (Charges cost allowed) total events total') :
    total' = total + Prog.spent cost events := by
  induction h with
  | nil => rfl
  | cons hnext _ ih =>
    obtain ⟨-, rfl⟩ := hnext
    rw [ih, Prog.spent, Nat.add_assoc]

/-- What is known of the total where the program returns holds of the price of its trace. -/
theorem Follows.spent (h : p.Follows (Charges cost allowed) post total)
    (htrace : p.Trace events a) : post a (total + Prog.spent cost events) := by
  obtain ⟨total', halong, hpost⟩ := h.along htrace
  rwa [halong.spent] at hpost

/-- An effect is performed if what was spent before allows it. -/
theorem Follows.allowed_of_trace (h : p.Follows (Charges cost allowed) post total)
    (htrace : p.Trace events a) {e : E} {r : R e} (hevents : events = first ++ ⟨e, r⟩ :: second) :
    allowed (total + Prog.spent cost first) e := by
  subst hevents
  obtain ⟨total', _, halong, hallowed, -⟩ := h.before htrace
  rwa [halong.spent] at hallowed

end Prices

end Prog
