import Mathlib.Logic.Function.Basic
import TaskForge.Program

/-!
# Message servers

Workers that take messages from a shared world and run one handler program each.
A step of the whole system is one effect of one worker, so handlers of different
workers interleave freely; a worker may also crash between any two effects, which
forgets its handler and nothing else, and the environment may change the world.

`Reach` collects the states of all runs whose steps are allowed.  For a server with
one worker `SerialOutline.reach` reduces an invariant of all runs to one obligation
per kind of step.
-/

/-- Workers `ι` handling messages `M` in a world `W`. -/
structure Server (ι M E : Type) (R : E → Type) (W : Type) where
  /-- The program a worker runs for a message. -/
  handler : ι → M → Prog E R Unit
  /-- What an effect performed by a worker does. -/
  effect : ι → W → (e : E) → R e → W → Prop
  /-- The message may be delivered. -/
  ready : W → M → Prop
  /-- What follows the return of a handler. -/
  finish : W → M → W → Prop
  /-- What happens without the workers. -/
  env : W → W → Prop

namespace Server

variable {ι M E : Type} {R : E → Type} {W : Type}

/-- A handler at work: its message, the effects performed so far, and what remains. -/
structure Handling (M E : Type) (R : E → Type) where
  message : M
  past : List ((e : E) × R e)
  rest : Prog E R Unit

structure State (ι M E : Type) (R : E → Type) (W : Type) where
  world : W
  current : ι → Option (Handling M E R)

inductive Label (ι M E : Type) (R : E → Type) where
  | deliver (i : ι) (m : M)
  | perform (i : ι) (e : E) (r : R e)
  | finish (i : ι)
  | crash (i : ι)
  | env

/-- No worker is handling anything. -/
def idle (w : W) : State ι M E R W := ⟨w, fun _ => none⟩

variable [DecidableEq ι] (S : Server ι M E R W)

inductive Step : State ι M E R W → Label ι M E R → State ι M E R W → Prop
  | deliver {w current i m} : current i = none → S.ready w m →
      Step ⟨w, current⟩ (.deliver i m)
        ⟨w, Function.update current i (some ⟨m, [], S.handler i m⟩)⟩
  | perform {w w' current i m past e r k} : current i = some ⟨m, past, .step e k⟩ →
      S.effect i w e r w' →
      Step ⟨w, current⟩ (.perform i e r)
        ⟨w', Function.update current i (some ⟨m, past ++ [⟨e, r⟩], k r⟩)⟩
  | finish {w w' current i m past} : current i = some ⟨m, past, .pure ()⟩ →
      S.finish w m w' →
      Step ⟨w, current⟩ (.finish i) ⟨w', Function.update current i none⟩
  | crash {w current i} :
      Step ⟨w, current⟩ (.crash i) ⟨w, Function.update current i none⟩
  | env {w w' current} : S.env w w' → Step ⟨w, current⟩ .env ⟨w', current⟩

/-- States reached by runs all of whose steps are allowed. -/
inductive Reach (allowed : State ι M E R W → Label ι M E R → Prop)
    (s₀ : State ι M E R W) : State ι M E R W → Prop
  | start : Reach allowed s₀ s₀
  | step {s l s'} : Reach allowed s₀ s → allowed s l → S.Step s l s' → Reach allowed s₀ s'

variable {S} {allowed : State ι M E R W → Label ι M E R → Prop}

/-- What holds at the start and is kept by every allowed step holds in every run. -/
theorem Reach.invariant {s₀ s : State ι M E R W} (hreach : S.Reach allowed s₀ s)
    {inv : State ι M E R W → Prop} (h₀ : inv s₀)
    (hstep : ∀ {s l s'}, inv s → allowed s l → S.Step s l s' → inv s') : inv s := by
  induction hreach with
  | start => exact h₀
  | step _ hallowed hs ih => exact hstep ih hallowed hs

theorem Reach.trans {s₀ s₁ s₂ : State ι M E R W} (h₁ : S.Reach allowed s₀ s₁)
    (h₂ : S.Reach allowed s₁ s₂) : S.Reach allowed s₀ s₂ := by
  induction h₂ with
  | start => exact h₁
  | step _ hallowed hs ih => exact .step ih hallowed hs

/-- A worker carries on with its handler, as far as its effects are allowed. -/
theorem Reach.runs {s₀ : State ι M E R W} {w w' : W}
    {current : ι → Option (Handling M E R)} {i : ι} {m : M}
    {past : List ((e : E) × R e)} {p p' : Prog E R Unit}
    (hreach : S.Reach allowed s₀ ⟨w, Function.update current i (some ⟨m, past, p⟩)⟩)
    (hruns : Prog.Runs (S.effect i) w p w' p')
    (hallowed : ∀ w past p e r,
      allowed ⟨w, Function.update current i (some ⟨m, past, p⟩)⟩ (.perform i e r)) :
    ∃ past', S.Reach allowed s₀
      ⟨w', Function.update current i (some ⟨m, past ++ past', p'⟩)⟩ := by
  induction hruns generalizing past with
  | refl => exact ⟨[], by rwa [List.append_nil]⟩
  | @step w w' _ e r k _ heffect _ ih =>
    have hstep := hreach.step (hallowed _ _ _ e r)
      (.perform (Function.update_self i (some ⟨m, past, .step e k⟩) current) heffect)
    rw [Function.update_idem] at hstep
    obtain ⟨past', hrest⟩ := ih hstep
    exact ⟨⟨e, r⟩ :: past', by rwa [List.append_assoc] at hrest⟩

/-- An idle worker takes a message and crashes somewhere in its handler. -/
theorem Reach.interrupted {s₀ : State ι M E R W} {w w' : W} {i : ι} {m : M}
    {p : Prog E R Unit} (hreach : S.Reach (fun _ _ => True) s₀ (idle w)) (hready : S.ready w m)
    (hruns : Prog.Runs (S.effect i) w (S.handler i m) w' p) :
    S.Reach (fun _ _ => True) s₀ (idle w') := by
  obtain ⟨past, hrun⟩ := (hreach.step trivial (.deliver rfl hready)).runs hruns
    fun _ _ _ _ _ => trivial
  have hcrash := hrun.step trivial (.crash (i := i))
  rwa [Function.update_idem, Function.update_eq_self i] at hcrash

/-- An idle worker takes a message, and its handler returns. -/
theorem Reach.handled {s₀ : State ι M E R W} {w w' w'' : W} {i : ι} {m : M}
    (hreach : S.Reach (fun _ _ => True) s₀ (idle w)) (hready : S.ready w m)
    (hruns : Prog.Runs (S.effect i) w (S.handler i m) w' (.pure ()))
    (hfinish : S.finish w' m w'') : S.Reach (fun _ _ => True) s₀ (idle w'') := by
  obtain ⟨past, hrun⟩ := (hreach.step trivial (.deliver rfl hready)).runs hruns
    fun _ _ _ _ _ => trivial
  have hend := hrun.step trivial (.finish (Function.update_self ..) hfinish)
  rwa [Function.update_idem, Function.update_eq_self i] at hend

variable {Φ : Type}

/-- Every handler at work has an admitted message, and follows the protocol for it. -/
theorem Reach.follows (admitted : ι → M → Prop) {next : ι → M → Φ → (e : E) → R e → Φ → Prop}
    {start : ι → M → Φ} {final : Φ → Prop}
    (hfollows : ∀ i m, (S.handler i m).Follows (next i m) (fun _ φ => final φ) (start i m))
    (hdeliver : ∀ {s i m}, allowed s (.deliver i m) → admitted i m) {w : W}
    {s : State ι M E R W} (hreach : S.Reach allowed (idle w) s) :
    ∀ i h, s.current i = some h → admitted i h.message ∧
      ∃ φ, h.rest.Follows (next i h.message) (fun _ φ => final φ) φ := by
  induction hreach with
  | start => exact fun _ _ hbusy => nomatch hbusy
  | step _ hallowed hstep hs =>
    intro j handling hj
    cases hstep with
    | @deliver w current i m hidle hready =>
      by_cases hji : j = i
      · subst hji
        cases (Function.update_self ..).symm.trans hj
        exact ⟨hdeliver hallowed, _, hfollows j m⟩
      · exact hs j handling ((Function.update_of_ne hji ..).symm.trans hj)
    | @perform w w' current i m past e r k hbusy heffect =>
      by_cases hji : j = i
      · subst hji
        cases (Function.update_self ..).symm.trans hj
        obtain ⟨hadmitted, φ, hφ⟩ := hs j _ hbusy
        obtain ⟨φ', -, hrest⟩ := hφ r
        exact ⟨hadmitted, φ', hrest⟩
      · exact hs j handling ((Function.update_of_ne hji ..).symm.trans hj)
    | @finish w w' current i m past hbusy hfinish =>
      by_cases hji : j = i
      · subst hji
        cases (Function.update_self ..).symm.trans hj
      · exact hs j handling ((Function.update_of_ne hji ..).symm.trans hj)
    | @crash w current i =>
      by_cases hji : j = i
      · subst hji
        cases (Function.update_self ..).symm.trans hj
      · exact hs j handling ((Function.update_of_ne hji ..).symm.trans hj)
    | env => exact hs j handling hj

/-! ### One worker -/

/-- Obligations for an invariant `keep` of a server with one worker: `holds m φ`
    is what is known while the handler of `m` is in phase `φ`, and `ok` what is
    assumed of the effects of a run. -/
structure SerialOutline (S : Server ι M E R W) (next : M → Φ → (e : E) → R e → Φ → Prop)
    (start : M → Φ) (final : M → Φ → Prop) (ok : W → (e : E) → R e → Prop)
    (keep : W → Prop) (holds : M → Φ → W → Prop) : Prop where
  follows : ∀ i m, (S.handler i m).Follows (next m) (fun _ φ => final m φ) (start m)
  deliver : ∀ {w m}, keep w → S.ready w m → holds m (start m) w
  perform : ∀ {i w w' m φ e r φ'}, keep w → holds m φ w → next m φ e r φ' → ok w e r →
    S.effect i w e r w' → keep w' ∧ holds m φ' w'
  finish : ∀ {w w' m φ}, keep w → holds m φ w → final m φ → S.finish w m w' → keep w'
  env : ∀ {w w'}, S.env w w' → keep w → keep w' ∧ ∀ m φ, holds m φ w → holds m φ w'

variable [Subsingleton ι] {next : M → Φ → (e : E) → R e → Φ → Prop} {start : M → Φ}
  {final : M → Φ → Prop} {ok : W → (e : E) → R e → Prop} {keep : W → Prop}
  {holds : M → Φ → W → Prop}

theorem update_of_subsingleton {β : Type} (f : ι → β) (i : ι) (x : β) (j : ι) :
    Function.update f i x j = x := by
  rw [Subsingleton.elim j i, Function.update_self]

/-- The worker's handler is in some phase, and what that phase knows holds. -/
def Tracked (next : M → Φ → (e : E) → R e → Φ → Prop) (final : M → Φ → Prop)
    (keep : W → Prop) (holds : M → Φ → W → Prop) (s : State ι M E R W) : Prop :=
  keep s.world ∧ ∀ i h, s.current i = some h → ∃ φ,
    h.rest.Follows (next h.message) (fun _ φ => final h.message φ) φ ∧ holds h.message φ s.world

theorem SerialOutline.tracked_step (outline : SerialOutline S next start final ok keep holds)
    (hok : ∀ {s i e r}, allowed s (.perform i e r) → ok s.world e r)
    {s s' : State ι M E R W} {l : Label ι M E R} (hs : Tracked next final keep holds s)
    (hallowed : allowed s l) (hstep : S.Step s l s') : Tracked next final keep holds s' := by
  obtain ⟨hkeep, hcurrent⟩ := hs
  cases hstep with
  | deliver hidle hready =>
    refine ⟨hkeep, fun i h hi => ?_⟩
    cases (update_of_subsingleton _ _ _ i).symm.trans hi
    exact ⟨_, outline.follows _ _, outline.deliver hkeep hready⟩
  | perform hbusy heffect =>
    obtain ⟨φ, hfollows, hholds⟩ := hcurrent _ _ hbusy
    obtain ⟨φ', hnext, hrest⟩ := hfollows _
    have hafter := outline.perform hkeep hholds hnext (hok hallowed) heffect
    refine ⟨hafter.1, fun i h hi => ?_⟩
    cases (update_of_subsingleton _ _ _ i).symm.trans hi
    exact ⟨φ', hrest, hafter.2⟩
  | finish hbusy hfinish =>
    obtain ⟨φ, hfollows, hholds⟩ := hcurrent _ _ hbusy
    refine ⟨outline.finish hkeep hholds hfollows hfinish, fun i h hi => ?_⟩
    cases (update_of_subsingleton _ _ _ i).symm.trans hi
  | crash =>
    refine ⟨hkeep, fun i h hi => ?_⟩
    cases (update_of_subsingleton _ _ _ i).symm.trans hi
  | env henv =>
    have hafter := outline.env henv hkeep
    refine ⟨hafter.1, fun i h hi => ?_⟩
    obtain ⟨φ, hfollows, hholds⟩ := hcurrent i h hi
    exact ⟨φ, hfollows, hafter.2 _ _ hholds⟩

/-- **Invariants of a serial server**: `keep` holds in every state of every allowed
    run, crashes included. -/
theorem SerialOutline.reach (outline : SerialOutline S next start final ok keep holds)
    (hok : ∀ {s i e r}, allowed s (.perform i e r) → ok s.world e r)
    {w : W} (hw : keep w) {s : State ι M E R W} (hreach : S.Reach allowed (idle w) s) :
    keep s.world :=
  have htracked : Tracked next final keep holds s :=
    hreach.invariant ⟨hw, fun _ _ h => nomatch h⟩ fun hs => outline.tracked_step hok hs
  htracked.1

end Server
