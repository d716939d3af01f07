import TaskForge.Histories

/-!
# Programs with additional effects

A program over two kinds of effects, and the same program without the second kind.  `Erases`
relates the two: whatever the additional effects are answered, the rest goes on in the same
way.  So both have the same traces, up to the additional events, and what was proved of the
plain program holds of the other one.
-/

namespace Prog

variable {E D : Type} {R : E → Type} {Q : D → Type} {α β : Type}

/-- The program, among programs with more effects. -/
def lift : Prog E R α → Prog (E ⊕ D) (Sum.elim R Q) α
  | .pure a => .pure a
  | .step e k => .step (.inl e) fun r => (k r).lift

instance : MonadLift (Prog E R) (Prog (E ⊕ D) (Sum.elim R Q)) := ⟨lift⟩

/-- The second program is the first without its additional effects, which are all answered. -/
def Erases : Prog (E ⊕ D) (Sum.elim R Q) α → Prog E R α → Prop
  | .pure a, q => q = .pure a
  | .step (.inl e) k, q => ∃ k', q = .step e k' ∧ ∀ r, (k r).Erases (k' r)
  | .step (.inr d) k, q => Nonempty (Q d) ∧ ∀ r, (k r).Erases q

theorem erases_pure (a : α) :
    (Pure.pure a : Prog (E ⊕ D) (Sum.elim R Q) α).Erases (Pure.pure a : Prog E R α) := rfl

theorem erases_lift (p : Prog E R α) : (p.lift : Prog (E ⊕ D) (Sum.elim R Q) α).Erases p := by
  induction p with
  | pure a => rfl
  | step e k ih => exact ⟨k, rfl, ih⟩

theorem Erases.bind {p : Prog (E ⊕ D) (Sum.elim R Q) α} {q : Prog E R α}
    {f : α → Prog (E ⊕ D) (Sum.elim R Q) β} {g : α → Prog E R β} (hp : p.Erases q)
    (hf : ∀ a, (f a).Erases (g a)) : (p >>= f).Erases (q >>= g) := by
  induction p generalizing q with
  | pure a =>
    obtain rfl : q = .pure a := hp
    exact hf a
  | step x k ih =>
    cases x with
    | inl e =>
      obtain ⟨k', rfl, hk⟩ := hp
      exact ⟨_, rfl, fun r => ih r (hk r)⟩
    | inr d => exact ⟨hp.1, fun r => ih r (hp.2 r)⟩

/-- An event of the plain program. -/
def plain : (x : E ⊕ D) × Sum.elim R Q x → Option ((e : E) × R e)
  | ⟨.inl e, r⟩ => some ⟨e, r⟩
  | ⟨.inr _, _⟩ => none

/-- Without the additional events, a trace is one of the plain program. -/
theorem Erases.trace {p : Prog (E ⊕ D) (Sum.elim R Q) α} {events : List _} {a : α}
    (htrace : p.Trace events a) : ∀ {q : Prog E R α}, p.Erases q →
      q.Trace (events.filterMap plain) a := by
  induction htrace with
  | done a =>
    rintro q rfl
    exact .done a
  | @step x k events a r _ ih =>
    intro q hp
    cases x with
    | inl e =>
      obtain ⟨k', rfl, hk⟩ := hp
      exact Trace.step (e := e) (k := k') r (ih (hk r))
    | inr d => exact ih (hp.2 r)

/-- And every trace of the plain program is one of these. -/
theorem Erases.exists_trace {p : Prog (E ⊕ D) (Sum.elim R Q) α} :
    ∀ {q : Prog E R α} {events : List ((e : E) × R e)} {a : α}, p.Erases q → q.Trace events a →
      ∃ full, p.Trace full a ∧ full.filterMap plain = events := by
  induction p with
  | pure a =>
    rintro q events b rfl htrace
    obtain ⟨rfl, rfl⟩ := trace_pure.mp htrace
    exact ⟨[], .done _, rfl⟩
  | step x k ih =>
    intro q events a hp htrace
    cases x with
    | inl e =>
      obtain ⟨k', rfl, hk⟩ := hp
      obtain ⟨r, rest, rfl, hrest⟩ := trace_step.mp htrace
      obtain ⟨full, hfull, hplain⟩ := ih r (hk r) hrest
      exact ⟨⟨.inl e, r⟩ :: full, Trace.step (e := Sum.inl e) (k := k) r hfull,
        congrArg (List.cons _) hplain⟩
    | inr d =>
      obtain ⟨⟨r⟩, hk⟩ := hp
      obtain ⟨full, hfull, hplain⟩ := ih r (hk r) htrace
      exact ⟨⟨.inr d, r⟩ :: full, Trace.step (e := Sum.inr d) (k := k) r hfull, hplain⟩

/-! ### Prices -/

/-- The plain program is free of charge. -/
theorem charges_lift {cost : (x : E ⊕ D) → Sum.elim R Q x → Nat} {allowed : Nat → E ⊕ D → Prop}
    {F : E → Prop} {P : α → Prop} (hfree : ∀ e r, cost (.inl e) r = 0) {p : Prog E R α}
    (hp : p.Within (fun _ _ => True) F P) {total : Nat} (hF : ∀ e, F e → allowed total (.inl e)) :
    (p.lift : Prog (E ⊕ D) (Sum.elim R Q) α).Follows (Charges cost allowed)
      (fun a total' => total' = total ∧ P a) total := by
  induction p with
  | pure a => exact ⟨rfl, hp⟩
  | step e k ih =>
    intro r
    refine ⟨total, ⟨hF e hp.1, (congrArg (total + ·) (hfree e r)).symm⟩, ?_⟩
    exact ih r (hp.2 r trivial)

end Prog
