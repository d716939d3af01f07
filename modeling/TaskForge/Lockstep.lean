import TaskForge.Program

/-!
# Running programs in lockstep

With a function that answers every effect, a program has one run.  Two runs are compared
without unfolding either: `Lockstep` says of two programs that they perform the same
effects up to some relation as long as the responses are the same up to another one.  It
is closed under sequencing.

`Lockstep.run` turns it into a statement about worlds.  What one run changes at all is a
matter of the effects alone (`Within.run`).
-/

namespace Prog

variable {E : Type} {R : E → Type} {α β γ δ W : Type}

/-- Run a program.  The response to the `n`-th effect and the next world are given by
    `answer`, which may also stop the program. -/
def run (answer : Nat → W → (e : E) → Option (R e × W)) : Prog E R α → Nat → W → W
  | .pure _, _, w => w
  | .step e k, n, w =>
    match answer n w e with
    | none => w
    | some (r, w') => (k r).run answer (n + 1) w'

section Run

variable {answer answer' : Nat → W → (e : E) → Option (R e × W)} {F : E → Prop} {P : α → Prop}

theorem run_stopped {e : E} {k : R e → Prog E R α} {n : Nat} {w : W}
    (h : answer n w e = none) : (Prog.step e k).run answer n w = w := by
  simp [run, h]

theorem run_answered {e : E} {k : R e → Prog E R α} {n : Nat} {w w' : W} {r : R e}
    (h : answer n w e = some (r, w')) :
    (Prog.step e k).run answer n w = (k r).run answer (n + 1) w' := by
  simp [run, h]

/-- What each effect keeps, a run keeps. -/
theorem Within.run {T : W → W → Prop} (hrefl : ∀ w, T w w)
    (htrans : ∀ {u v w}, T u v → T v w → T u w)
    (hstep : ∀ {n w e r w'}, F e → answer n w e = some (r, w') → T w w') {p : Prog E R α}
    (hp : p.Within (fun _ _ => True) F P) (n : Nat) (w : W) : T w (p.run answer n w) := by
  induction p generalizing n w with
  | pure a => exact hrefl w
  | step e k ih =>
    cases hanswer : answer n w e with
    | none =>
      rw [run_stopped hanswer]
      exact hrefl w
    | some reply =>
      obtain ⟨r, w'⟩ := reply
      rw [run_answered hanswer]
      exact htrans (hstep hp.1 hanswer) (ih r (hp.2 r trivial) (n + 1) w')

/-- A program that is stopped at exceptions only runs to its end or to one of them. -/
theorem runs_run {effect : W → (e : E) → R e → W → Prop} {exception : E → Prop}
    (hanswer : ∀ n w e, ¬ exception e → ∃ r w', answer n w e = some (r, w') ∧ effect w e r w')
    (hstop : ∀ n w e, exception e → answer n w e = none) (p : Prog E R α) (n : Nat) (w : W) :
    ∃ p', Runs effect w p (p.run answer n w) p' ∧
      ((∃ a, p' = .pure a) ∨ ∃ e k, p' = .step e k ∧ exception e) := by
  induction p generalizing n w with
  | pure a => exact ⟨.pure a, .refl _ _, .inl ⟨a, rfl⟩⟩
  | step e k ih =>
    by_cases he : exception e
    · rw [run_stopped (hstop n w e he)]
      exact ⟨.step e k, .refl _ _, .inr ⟨e, k, rfl, he⟩⟩
    · obtain ⟨r, w', hreply, heffect⟩ := hanswer n w e he
      obtain ⟨p', hruns, hend⟩ := ih r (n + 1) w'
      rw [run_answered hreply]
      exact ⟨p', .step heffect hruns, hend⟩

end Run

/-- The programs perform related effects as long as they get related responses, and return
    related values. -/
def Lockstep (same : E → E → Prop) (couples : (e : E) → R e → (e' : E) → R e' → Prop)
    (Q : α → β → Prop) : Prog E R α → Prog E R β → Prop
  | .pure a, .pure b => Q a b
  | .step e k, .step e' k' =>
    same e e' ∧ ∀ r r', couples e r e' r' → (k r).Lockstep same couples Q (k' r')
  | _, _ => False

section Lockstep

variable {same : E → E → Prop} {couples : (e : E) → R e → (e' : E) → R e' → Prop}
  {Q : α → β → Prop} {p : Prog E R α} {q : Prog E R β}

theorem lockstep_pure {a : α} {b : β} (h : Q a b) :
    (Pure.pure a : Prog E R α).Lockstep same couples Q (Pure.pure b) := h

theorem lockstep_perform_bind {e e' : E} {f : R e → Prog E R α} {g : R e' → Prog E R β}
    (hsame : same e e')
    (hrest : ∀ r r', couples e r e' r' → (f r).Lockstep same couples Q (g r')) :
    (perform e >>= f).Lockstep same couples Q (perform e' >>= g) := ⟨hsame, hrest⟩

theorem Lockstep.bind {f : α → Prog E R γ} {g : β → Prog E R δ} {S : γ → δ → Prop}
    (h : p.Lockstep same couples Q q)
    (hrest : ∀ a b, Q a b → (f a).Lockstep same couples S (g b)) :
    (p >>= f).Lockstep same couples S (q >>= g) := by
  induction p generalizing q with
  | pure a =>
    cases q with
    | pure b => exact hrest a b h
    | step => exact h.elim
  | step e k ih =>
    cases q with
    | pure => exact h.elim
    | step e' k' => exact ⟨h.1, fun r r' hcouple => ih r (h.2 r r' hcouple)⟩

/-- What is known of the effects of each program is known of related ones. -/
theorem Lockstep.within {F : E → Prop} {P : α → Prop} {P' : β → Prop}
    (h : p.Lockstep same couples Q q) (hp : p.Within (fun _ _ => True) F P)
    (hq : q.Within (fun _ _ => True) F P') :
    p.Lockstep (fun e e' => same e e' ∧ F e ∧ F e') couples Q q := by
  induction p generalizing q with
  | pure a =>
    cases q with
    | pure b => exact h
    | step => exact h.elim
  | step e k ih =>
    cases q with
    | pure => exact h.elim
    | step e' k' =>
      exact ⟨⟨h.1, hp.1, hq.1⟩, fun r r' hcouple =>
        ih r (h.2 r r' hcouple) (hp.2 r trivial) (hq.2 r' trivial)⟩

/-- **Two runs of programs in lockstep**: a relation between worlds that related effects
    keep, if they are answered at all, holds at the end. -/
theorem Lockstep.run {answer answer' : Nat → W → (e : E) → Option (R e × W)}
    {I : W → W → Prop}
    (hstep : ∀ {n w v e e'}, same e e' → I w v →
      answer n w e = none ∧ answer' n v e' = none ∨
      ∃ r w' r' v', answer n w e = some (r, w') ∧ answer' n v e' = some (r', v') ∧
        couples e r e' r' ∧ I w' v')
    (h : p.Lockstep same couples Q q) (n : Nat) {w v : W} (hworlds : I w v) :
    I (p.run answer n w) (q.run answer' n v) := by
  induction p generalizing q n w v with
  | pure a =>
    cases q with
    | pure b => exact hworlds
    | step => exact h.elim
  | step e k ih =>
    cases q with
    | pure => exact h.elim
    | step e' k' =>
      rcases hstep h.1 hworlds with ⟨hstop, hstop'⟩ | ⟨r, w', r', v', hanswer, hanswer', hcouple, hnext⟩
      · rw [run_stopped hstop, run_stopped hstop']
        exact hworlds
      · rw [run_answered hanswer, run_answered hanswer']
        exact ih r (h.2 r r' hcouple) (n + 1) hnext

end Lockstep

end Prog
