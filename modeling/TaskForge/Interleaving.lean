import Mathlib.Data.Finset.Card
import Mathlib.Data.Fintype.Defs
import TaskForge.Server

/-!
# Servers with many workers

For one worker the invariant of a run and the knowledge of its handler are kept by the same
steps.  With many, what a handler knows has to survive the steps of all others.
`SharedOutline` asks for it once: every step makes the world grow, in a sense chosen with the
outline that may depend on who takes the step, and knowledge is monotone in that sense.

`Run` keeps the labels of a run, so that steps can be counted: where a potential is never
raised and each counted step lowers it, there are no more counted steps than the potential
had at the start (`Run.potential`).
-/

namespace Server

variable {ι M E : Type} {R : E → Type} {W Φ : Type} [DecidableEq ι] {S : Server ι M E R W}
  {allowed : State ι M E R W → Label ι M E R → Prop}

/-! ### Invariants -/

/-- Who takes a step, if a worker does. -/
def Label.actor : Label ι M E R → Option ι
  | .deliver i _ => some i
  | .perform i _ _ => some i
  | .finish i => some i
  | .crash i => some i
  | .env => none

/-- Obligations for an invariant `keep` of a server: `holds i m φ` is what worker `i` knows
    in phase `φ` of the handler of `m`, and `ok` what is assumed of the steps of a run. -/
structure SharedOutline (S : Server ι M E R W) (next : ι → M → Φ → (e : E) → R e → Φ → Prop)
    (start : ι → M → Φ) (final : Φ → Prop) (ok : W → Label ι M E R → Prop)
    (grows : Option ι → W → W → Prop) (keep : W → Prop) (holds : ι → M → Φ → W → Prop) :
    Prop where
  follows : ∀ i m, (S.handler i m).Follows (next i m) (fun _ φ => final φ) (start i m)
  mono : ∀ {i a m φ w w'}, a ≠ some i → grows a w w' → holds i m φ w → holds i m φ w'
  deliver : ∀ {i w m}, keep w → S.ready w m → ok w (.deliver i m) → holds i m (start i m) w
  perform : ∀ {i w w' m φ e r φ'}, keep w → holds i m φ w → next i m φ e r φ' →
    ok w (.perform i e r) → S.effect i w e r w' → keep w' ∧ grows (some i) w w' ∧ holds i m φ' w'
  finish : ∀ {i w w' m φ}, keep w → holds i m φ w → final φ → S.finish w m w' →
    keep w' ∧ grows (some i) w w'
  env : ∀ {w w'}, keep w → S.env w w' → keep w' ∧ grows none w w'

/-- Each handler is in some phase, and what its worker knows there holds. -/
structure AllTracked (next : ι → M → Φ → (e : E) → R e → Φ → Prop) (final : Φ → Prop)
    (keep : W → Prop) (holds : ι → M → Φ → W → Prop) (s : State ι M E R W) : Prop where
  keep : keep s.world
  known : ∀ i h, s.current i = some h → ∃ φ,
    h.rest.Follows (next i h.message) (fun _ φ => final φ) φ ∧ holds i h.message φ s.world

section Outline

variable {next : ι → M → Φ → (e : E) → R e → Φ → Prop} {start : ι → M → Φ} {final : Φ → Prop}
  {ok : W → Label ι M E R → Prop} {grows : Option ι → W → W → Prop} {keep : W → Prop}
  {holds : ι → M → Φ → W → Prop}

/-- A step changes the handler of one worker and lets the world grow. -/
theorem SharedOutline.step (outline : SharedOutline S next start final ok grows keep holds)
    (hrefl : ∀ a w, grows a w w) (hok : ∀ {s l}, allowed s l → ok s.world l)
    {s s' : State ι M E R W} {l : Label ι M E R} (h : AllTracked next final keep holds s)
    (hallowed : allowed s l) (hstep : S.Step s l s') :
    AllTracked next final keep holds s' ∧ grows l.actor s.world s'.world := by
  -- the other workers: same handler, larger world
  have hothers : ∀ {w w' : W} {current : ι → Option (Handling M E R)} {i j : ι}
      {busy : Option (Handling M E R)} {h' : Handling M E R},
      AllTracked next final keep holds ⟨w, current⟩ → grows (some i) w w' → j ≠ i →
      Function.update current i busy j = some h' → ∃ φ,
        h'.rest.Follows (next j h'.message) (fun _ φ => final φ) φ ∧ holds j h'.message φ w' := by
    intro w w' current i j busy h' htracked hgrows hji hj
    obtain ⟨φ, hfollows, hholds⟩ :=
      htracked.known j h' ((Function.update_of_ne hji ..).symm.trans hj)
    exact ⟨φ, hfollows, outline.mono (fun hi => hji (Option.some.inj hi).symm) hgrows hholds⟩
  cases hstep with
  | @deliver w current i m hidle hready =>
    have hassumed : ok w (.deliver i m) := hok hallowed
    refine ⟨⟨h.keep, fun j h' hj => ?_⟩, hrefl _ w⟩
    by_cases hji : j = i
    · subst hji
      cases (Function.update_self ..).symm.trans hj
      exact ⟨_, outline.follows j m, outline.deliver h.keep hready hassumed⟩
    · exact hothers h (hrefl _ w) hji hj
  | @perform w w' current i m past e r k hbusy heffect =>
    obtain ⟨φ, hfollows, hholds⟩ := h.known i _ hbusy
    obtain ⟨φ', hnext, hrest⟩ := hfollows r
    obtain ⟨hkeep, hgrows, hafter⟩ := outline.perform h.keep hholds hnext (hok hallowed) heffect
    refine ⟨⟨hkeep, fun j h' hj => ?_⟩, hgrows⟩
    by_cases hji : j = i
    · subst hji
      cases (Function.update_self ..).symm.trans hj
      exact ⟨φ', hrest, hafter⟩
    · exact hothers h hgrows hji hj
  | @finish w w' current i m past hbusy hfinish =>
    obtain ⟨φ, hfollows, hholds⟩ := h.known i _ hbusy
    obtain ⟨hkeep, hgrows⟩ := outline.finish h.keep hholds hfollows hfinish
    refine ⟨⟨hkeep, fun j h' hj => ?_⟩, hgrows⟩
    by_cases hji : j = i
    · subst hji
      cases (Function.update_self ..).symm.trans hj
    · exact hothers h hgrows hji hj
  | @crash w current i =>
    refine ⟨⟨h.keep, fun j h' hj => ?_⟩, hrefl _ w⟩
    by_cases hji : j = i
    · subst hji
      cases (Function.update_self ..).symm.trans hj
    · exact hothers h (hrefl _ w) hji hj
  | @env w w' current henv =>
    obtain ⟨hkeep, hgrows⟩ := outline.env h.keep henv
    refine ⟨⟨hkeep, fun j h' hj => ?_⟩, hgrows⟩
    obtain ⟨φ, hfollows, hholds⟩ := h.known j h' hj
    exact ⟨φ, hfollows, outline.mono (a := none) nofun hgrows hholds⟩

/-- **Invariants of a server with many workers**: `keep` and the knowledge of every handler
    hold in every state of every allowed run, crashes included. -/
theorem SharedOutline.tracked (outline : SharedOutline S next start final ok grows keep holds)
    (hrefl : ∀ a w, grows a w w) (hok : ∀ {s l}, allowed s l → ok s.world l)
    {w : W} (hw : keep w) {s : State ι M E R W} (hreach : S.Reach allowed (idle w) s) :
    AllTracked next final keep holds s :=
  hreach.invariant ⟨hw, fun _ _ h => nomatch h⟩
    fun hs hallowed hstep => (outline.step hrefl hok hs hallowed hstep).1

end Outline

/-- What holds of every handler, and of what is left after each of its effects, holds of the
    handlers at work. -/
theorem Reach.rest {P : Prog E R Unit → Prop} (hhandler : ∀ i m, P (S.handler i m))
    (hrest : ∀ {e k}, P (.step e k) → ∀ r, P (k r)) {w : W} {s : State ι M E R W}
    (hreach : S.Reach allowed (idle w) s) : ∀ i h, s.current i = some h → P h.rest := by
  -- one worker's handler is replaced
  have hupdate : ∀ {current : ι → Option (Handling M E R)} {i : ι}
      {busy : Option (Handling M E R)}, (∀ j h, current j = some h → P h.rest) →
      (∀ h, busy = some h → P h.rest) →
      ∀ j h, Function.update current i busy j = some h → P h.rest := by
    intro current i busy hcurrent hbusy j h hj
    by_cases hji : j = i
    · rw [hji, Function.update_self] at hj
      exact hbusy h hj
    · exact hcurrent j h ((Function.update_of_ne hji ..).symm.trans hj)
  induction hreach with
  | start => exact fun _ _ h => nomatch h
  | step _ _ hstep hs =>
    cases hstep with
    | @deliver w current i m hidle hready =>
      refine hupdate hs ?_
      rintro h ⟨⟩
      exact hhandler i m
    | perform hbusy heffect =>
      refine hupdate hs ?_
      rintro h ⟨⟩
      exact hrest (hs _ _ hbusy) _
    | finish => exact hupdate hs nofun
    | crash => exact hupdate hs nofun
    | env => exact hs

/-- A server that allows less after a handler and between the steps. -/
theorem Step.widen {finish : W → M → W → Prop} {env : W → W → Prop} {s s' : State ι M E R W}
    {l : Label ι M E R} (hfinish : ∀ {w m w'}, finish w m w' → S.finish w m w')
    (henv : ∀ {w w'}, env w w' → S.env w w')
    (h : Step { S with finish := finish, env := env } s l s') : S.Step s l s' := by
  cases h with
  | deliver hidle hready => exact .deliver hidle hready
  | perform hbusy heffect => exact .perform hbusy heffect
  | finish hbusy hend => exact .finish hbusy (hfinish hend)
  | crash => exact .crash
  | env hchange => exact .env (henv hchange)

/-! ### Counting steps -/

def Label.isFinish : Label ι M E R → Bool
  | .finish _ => true
  | _ => false

/-- Runs all of whose steps are allowed, with their labels. -/
inductive Run (S : Server ι M E R W) (allowed : State ι M E R W → Label ι M E R → Prop)
    (s₀ : State ι M E R W) : List (Label ι M E R) → State ι M E R W → Prop
  | start : Run S allowed s₀ [] s₀
  | step {labels s l s'} : Run S allowed s₀ labels s → allowed s l → S.Step s l s' →
      Run S allowed s₀ (labels ++ [l]) s'

variable {s₀ s : State ι M E R W} {labels : List (Label ι M E R)}

theorem Run.reach (h : S.Run allowed s₀ labels s) : S.Reach allowed s₀ s := by
  induction h with
  | start => exact .start
  | step _ hallowed hstep ih => exact .step ih hallowed hstep

/-- A worker carries on with its handler, as far as its effects are allowed. -/
theorem Run.runs {F : E → Prop} {w w' : W} {current : ι → Option (Handling M E R)} {i : ι} {m : M}
    {past : List ((e : E) × R e)} {p p' : Prog E R Unit}
    (hrun : S.Run allowed s₀ labels ⟨w, Function.update current i (some ⟨m, past, p⟩)⟩)
    (hruns : Prog.Runs (fun v e r v' => S.effect i v e r v' ∧ F e) w p w' p')
    (hallowed : ∀ s e r, F e → allowed s (.perform i e r)) :
    ∃ labels' past', labels'.countP Label.isFinish = labels.countP Label.isFinish ∧
      S.Run allowed s₀ labels' ⟨w', Function.update current i (some ⟨m, past', p'⟩)⟩ := by
  induction hruns generalizing labels past with
  | refl => exact ⟨labels, past, rfl, hrun⟩
  | @step w w' _ e r k _ heffect _ ih =>
    have hstep := hrun.step (hallowed _ e r heffect.2)
      (.perform (Function.update_self i (some ⟨m, past, .step e k⟩) current) heffect.1)
    rw [Function.update_idem] at hstep
    obtain ⟨labels', past', hcount, hrest⟩ := ih hstep
    refine ⟨labels', past', hcount.trans ?_, hrest⟩
    rw [List.countP_append]
    rfl

/-- What holds of the steps of one server holds of the runs of another that takes no others. -/
theorem Reach.transfer {S' : Server ι M E R W}
    {allowed' : State ι M E R W → Label ι M E R → Prop}
    (hallowed : ∀ {s l}, allowed s l → allowed' s l)
    (hstep : ∀ {s l s'}, S.Step s l s' → S'.Step s l s') (h : S.Reach allowed s₀ s) :
    S'.Reach allowed' s₀ s := by
  induction h with
  | start => exact .start
  | step _ hok hs ih => exact .step ih (hallowed hok) (hstep hs)

/-- **Counted steps** are paid for by a potential that no step raises. -/
theorem Run.potential (h : S.Run allowed s₀ labels s) (p : State ι M E R W → Nat)
    (counted : Label ι M E R → Bool)
    (hstep : ∀ {s l s'}, S.Reach allowed s₀ s → allowed s l → S.Step s l s' →
      p s' + (if counted l then 1 else 0) ≤ p s) :
    labels.countP counted + p s ≤ p s₀ := by
  induction h with
  | start => simp
  | step hrun hallowed hs ih =>
    have hpaid := hstep hrun.reach hallowed hs
    rw [List.countP_append, List.countP_singleton]
    omega

/-! ### Messages that are lent out -/

section Leases

variable [Fintype ι] [DecidableEq M]

/-- The workers at work on a message. -/
def holders (s : State ι M E R W) (m : M) : Finset ι :=
  Finset.univ.filter fun i => (s.current i).map Handling.message = some m

omit [DecidableEq ι] in
theorem mem_holders {m : M} {i : ι} :
    i ∈ holders s m ↔ ∃ h, s.current i = some h ∧ h.message = m := by
  simp [holders]

/-- One worker's handler has changed: the holders of a message, up to that worker. -/
theorem holders_update_erase (w w' : W) (current : ι → Option (Handling M E R)) (i : ι)
    (busy : Option (Handling M E R)) (m : M) :
    (holders ⟨w', Function.update current i busy⟩ m).erase i =
      (holders (⟨w, current⟩ : State ι M E R W) m).erase i := by
  ext j
  simp only [Finset.mem_erase, mem_holders]
  refine and_congr_right fun hji => ?_
  rw [Function.update_of_ne hji]

/-- No message is lent to more workers than there are copies of it. -/
def Leased (pending : W → M → Nat) (s : State ι M E R W) : Prop :=
  ∀ m, (holders s m).card ≤ pending s.world m

/-- A message is delivered only while one of its copies is not lent out. -/
def lends (pending : W → M → Nat) (s : State ι M E R W) : Label ι M E R → Prop
  | .deliver _ m => (holders s m).card < pending s.world m
  | _ => True

variable {pending : W → M → Nat}

omit [DecidableEq ι] in
/-- A message that no worker holds may be delivered. -/
theorem lends_deliver {i : ι} {m : M} (hpos : 0 < pending s.world m)
    (hfree : ∀ i h, s.current i = some h → h.message ≠ m) : lends pending s (.deliver i m) := by
  have hnone : holders s m = ∅ := by
    ext j
    simp only [mem_holders, Finset.notMem_empty, iff_false]
    rintro ⟨h, hj, hm⟩
    exact hfree j h hj hm
  show (holders s m).card < pending s.world m
  rwa [hnone, Finset.card_empty]

/-- Copies stay lent to one worker each, as long as nothing is taken from the queue but one
    copy of a message at the end of its handler. -/
theorem Leased.step
    (heffect : ∀ {i w e r w'} (m : M), S.effect i w e r w' → pending w m ≤ pending w' m)
    (hfinish : ∀ {w m w'} (m' : M), S.finish w m w' →
      pending w m' ≤ pending w' m' + if m' = m then 1 else 0)
    (henv : ∀ {w w'} (m : M), S.env w w' → pending w m ≤ pending w' m)
    {s s' : State ι M E R W} {l : Label ι M E R} (h : Leased pending s)
    (hallowed : lends pending s l) (hstep : S.Step s l s') : Leased pending s' := by
  intro m'
  have hbefore := h m'
  cases hstep with
  | @deliver w current i m hidle hready =>
    have hlent : (holders (⟨w, current⟩ : State ι M E R W) m).card < pending w m := hallowed
    have hnot : i ∉ holders (⟨w, current⟩ : State ι M E R W) m' := by
      simp [mem_holders, hidle]
    have herase := holders_update_erase w w current i (some ⟨m, [], S.handler i m⟩) m'
    rw [Finset.erase_eq_of_notMem hnot] at herase
    by_cases hm : m' = m
    · subst hm
      have hle := Finset.pred_card_le_card_erase
        (s := holders ⟨w, Function.update current i (some ⟨m', [], S.handler i m'⟩)⟩ m') (a := i)
      rw [herase] at hle
      show (holders _ m').card ≤ pending w m'
      omega
    · rwa [← Finset.erase_eq_of_notMem (a := i)
        (s := holders ⟨w, Function.update current i (some ⟨m, [], S.handler i m⟩)⟩ m')
        (by simp [mem_holders, Ne.symm hm]), herase]
  | @perform w w' current i m past e r k hbusy hacts =>
    refine le_trans (le_of_eq (congrArg Finset.card ?_)) (hbefore.trans (heffect m' hacts))
    ext j
    by_cases hji : j = i
    · subst hji
      simp [mem_holders, hbusy]
    · simp [mem_holders, Function.update_of_ne hji]
  | @finish w w' current i m past hbusy hend =>
    have hpending := hfinish m' hend
    have hnot : i ∉ holders (⟨w', Function.update current i none⟩ : State ι M E R W) m' := by
      simp [mem_holders]
    have herase := holders_update_erase w w' current i none m'
    rw [Finset.erase_eq_of_notMem hnot] at herase
    show (holders _ m').card ≤ pending w' m'
    rw [herase]
    by_cases hm : m' = m
    · subst hm
      have hmem : i ∈ holders (⟨w, current⟩ : State ι M E R W) m' :=
        mem_holders.mpr ⟨_, hbusy, rfl⟩
      rw [Finset.card_erase_of_mem hmem]
      rw [if_pos rfl] at hpending
      have hle : (holders (⟨w, current⟩ : State ι M E R W) m').card ≤ pending w m' := hbefore
      omega
    · rw [if_neg hm] at hpending
      exact (Finset.card_erase_le).trans (hbefore.trans hpending)
  | @crash w current i =>
    refine le_trans (Finset.card_le_card fun j hj => ?_) hbefore
    obtain ⟨h', hj', hm⟩ := mem_holders.mp hj
    by_cases hji : j = i
    · subst hji
      cases (Function.update_self ..).symm.trans hj'
    · exact mem_holders.mpr ⟨h', (Function.update_of_ne hji ..).symm.trans hj', hm⟩
  | @env w w' current hmoved => exact hbefore.trans (henv m' hmoved)

omit [DecidableEq ι] in
theorem leased_idle (w : W) : Leased pending (idle w : State ι M E R W) := by
  intro m
  have hnone : holders (idle w : State ι M E R W) m = ∅ := by
    ext j
    simp [mem_holders, idle]
  rw [hnone]
  exact Nat.zero_le _

omit [DecidableEq ι] in
/-- A message at work is still there. -/
theorem Leased.pos (h : Leased pending s) {i : ι} {handling : Handling M E R}
    (hbusy : s.current i = some handling) : 0 < pending s.world handling.message :=
  (Finset.card_pos.mpr ⟨i, mem_holders.mpr ⟨handling, hbusy, rfl⟩⟩).trans_le (h handling.message)

end Leases

end Server
