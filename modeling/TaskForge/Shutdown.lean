import TaskForge.Lifecycle

/-!
# Orderly shutdown

What `main` and the callback of a signal can rely on while they run side by side.  From the
moment the worker has started until its promise is set, `main` waits and the callback is alone
with the worker; afterwards the callback does nothing to it.  So the two never touch the
worker at the same time, and each of them finds what it uses (`shutdown_is_orderly`); and
`main` never waits for a promise that nobody will set (`process_never_stuck`).
-/

namespace TaskForge

/-! ### What holds -/

namespace LifeWorld

/-- The members are released, and the promise was set if anyone waits for it. -/
structure Released (w : LifeWorld) : Prop where
  running : w.running = false
  absent : ∀ k, w.present k = false
  promises_le : w.promises ≤ 1
  promised : w.started = true → w.promises = 1

/-- A release is not undone by what `main` does to the rest of the process. -/
theorem Released.outside {w : LifeWorld} (h : w.Released) (registered hasWorker alive : Bool)
    (exited : Option Int32) :
    ({ w with registered := registered, hasWorker := hasWorker, alive := alive,
              exited := exited } : LifeWorld).Released :=
  ⟨h.running, h.absent, h.promises_le, h.promised⟩

/-- A worker that runs. -/
structure Serving (w : LifeWorld) : Prop where
  started : w.started = true
  running : w.running = true
  alive : w.alive = true
  hasWorker : w.hasWorker = true
  promises : w.promises = 0
  exited : w.exited = none

/-- A worker that is being started. -/
structure Starting (w : LifeWorld) (stored : Bool) (made : List Component) : Prop where
  registered : w.registered = true
  started : w.started = false
  running : w.running = stored
  alive : w.alive = true
  hasWorker : w.hasWorker = true
  promises : w.promises = 0
  exited : w.exited = none
  present : ∀ k, w.present k = true ↔ k ∈ made
  stored : stored = false → made = []

/-- What a call of `stop` knows. -/
def StopKnows (w : LifeWorld) : StopAt → Prop
  | .exchange => (w.running = true ∧ w.promises = 0) ∨ w.Released
  | .releasing todo => w.running = false ∧ w.promises = 0 ∧ ∀ k ∉ todo, w.present k = false
  | .holding k todo => w.running = false ∧ w.promises = 0 ∧ w.present k = true ∧
      ∀ k' ∉ k :: todo, w.present k' = false
  | .ended => w.Released

/-- What `stop` leaves alone. -/
structure SameProcess (w w' : LifeWorld) : Prop where
  registered : w'.registered = w.registered
  hasWorker : w'.hasWorker = w.hasWorker
  alive : w'.alive = w.alive
  started : w'.started = w.started
  exited : w'.exited = w.exited

theorem SameProcess.refl (w : LifeWorld) : SameProcess w w := ⟨rfl, rfl, rfl, rfl, rfl⟩

/-- A call of a member leaves the process as it is. -/
theorem acts_of_uses {w w' : LifeWorld} {e : LifeEffect} {r : LifeResponse e} {k : Component}
    (huses : e.uses = some k) (h : w.acts (.inl e) r w') : w' = w := by
  cases e <;> first
    | exact h
    | cases huses

theorem acts_of_isQuiet {w w' : LifeWorld} {e : LifeEffect} {r : LifeResponse e}
    (hquiet : e.isQuiet = true) (h : w.acts (.inl e) r w') : w' = w := by
  cases e <;> first
    | exact h
    | cases hquiet

/-- A start is not undone, nor is a promise. -/
theorem acts_mono {w w' : LifeWorld} {x : LifeEffect ⊕ Pause}
    {r : Sum.elim LifeResponse PauseResponse x} (h : w.acts x r w') :
    (w.started = true → w'.started = true) ∧ w.promises ≤ w'.promises := by
  cases x with
  | inr p =>
    obtain rfl := h
    exact ⟨id, le_rfl⟩
  | inl e =>
    cases e with
    | hasWorker => exact h.2 ▸ ⟨id, le_rfl⟩
    | exchangeRunning => exact h.2 ▸ ⟨id, le_rfl⟩
    | isSet => exact h.2 ▸ ⟨id, le_rfl⟩
    | waitPromise => exact h.2 ▸ ⟨id, le_rfl⟩
    | logStarted =>
      obtain rfl := h
      exact ⟨fun _ => rfl, le_rfl⟩
    | setPromise =>
      obtain rfl := h
      exact ⟨id, Nat.le_succ _⟩
    | _ =>
      obtain rfl := h
      exact ⟨id, le_rfl⟩

theorem mem_releaseOrder (k : Component) : k ∈ releaseOrder := by
  cases k <;> decide

/-- After a member is null, it is one less to be released. -/
theorem absent_update {present : Component → Bool} {k : Component} {todo : List Component}
    (h : ∀ k' ∉ k :: todo, present k' = false) :
    ∀ k' ∉ todo, Function.update present k false k' = false := by
  intro k' hk'
  by_cases heq : k' = k
  · subst heq
    exact Function.update_self ..
  · rw [Function.update_of_ne heq]
    exact h k' fun hmem => (List.mem_cons.mp hmem).elim heq hk'

/-- One step of `stop`. -/
theorem StopKnows.step {w w' : LifeWorld} {place place' : StopAt} {e : LifeEffect}
    {r : LifeResponse e} (h : w.StopKnows place) (hnext : StopNext place e r place')
    (hacts : w.acts (.inl e) r w') : w'.StopKnows place' ∧ SameProcess w w' := by
  cases hnext with
  | won =>
    obtain ⟨hwon, rfl⟩ := hacts
    rcases h with ⟨-, hpromises⟩ | hreleased
    · exact ⟨⟨rfl, hpromises, fun k hk => absurd (mem_releaseOrder k) hk⟩, rfl, rfl, rfl, rfl, rfl⟩
    · exact absurd (hwon.trans hreleased.running) nofun
  | lost =>
    obtain ⟨hlost, rfl⟩ := hacts
    rcases h with ⟨hrunning, -⟩ | hreleased
    · exact absurd (hlost.trans hrunning) nofun
    · exact ⟨⟨rfl, hreleased.absent, hreleased.promises_le, hreleased.promised⟩,
        rfl, rfl, rfl, rfl, rfl⟩
  | found =>
    obtain ⟨hset, rfl⟩ := hacts
    exact ⟨⟨h.1, h.2.1, hset.symm, h.2.2⟩, .refl _⟩
  | @missing k todo =>
    obtain ⟨hunset, rfl⟩ := hacts
    refine ⟨⟨h.1, h.2.1, fun k' hk' => ?_⟩, .refl _⟩
    by_cases heq : k' = k
    · subst heq
      exact hunset.symm
    · exact h.2.2 k' fun hmem => (List.mem_cons.mp hmem).elim heq hk'
  | drop =>
    obtain rfl := hacts
    exact ⟨⟨h.1, h.2.1, absent_update h.2.2⟩, rfl, rfl, rfl, rfl, rfl⟩
  | use huses =>
    obtain rfl := acts_of_uses huses hacts
    exact ⟨h, .refl _⟩
  | release =>
    obtain rfl := hacts
    exact ⟨⟨h.1, h.2.1, absent_update h.2.2.2⟩, rfl, rfl, rfl, rfl, rfl⟩
  | promise =>
    obtain rfl := hacts
    have hone : w.promises + 1 = 1 := by rw [h.2.1]
    exact ⟨⟨h.1, fun k => h.2.2 k List.not_mem_nil, hone.le, fun _ => hone⟩, rfl, rfl, rfl, rfl, rfl⟩

/-- `stop` goes through a pointer only where it has found it set. -/
theorem StopKnows.safe {w : LifeWorld} {place place' : StopAt} {e : LifeEffect}
    {r : LifeResponse e} (h : w.StopKnows place) (hnext : StopNext place e r place')
    {k : Component} (huses : e.uses = some k) : w.present k = true := by
  cases hnext with
  | use hk =>
    cases hk.symm.trans huses
    exact h.2.2.1
  | _ => cases huses

/-- A call that has won the exchange and has not returned. -/
theorem StopKnows.promises_eq_zero {w : LifeWorld} {place : StopAt} (h : w.StopKnows place)
    (hexchange : place ≠ .exchange) (hended : place ≠ .ended) : w.promises = 0 := by
  cases place with
  | exchange => exact absurd rfl hexchange
  | releasing => exact h.2.1
  | holding => exact h.2.1
  | ended => exact absurd rfl hended

/-- The exit code says whether the worker had started. -/
def Reports (w : LifeWorld) (code : Int32) : Prop :=
  (w.started = true ∧ code = 0) ∨ (w.started = false ∧ code = 1)

/-- The invariant of the process. -/
structure Sound (w : LifeWorld) : Prop where
  promises_le : w.promises ≤ 1
  serving : w.started = true → w.registered = true → w.Serving
  released : w.started = true → w.promises ≠ 0 → w.Released
  exited : ∀ code, w.exited = some code → w.alive = false ∧ w.Released ∧ w.Reports code

/-- What `main` and the callback know. -/
def Knows (w : LifeWorld) : Actor → LifePhase → Prop
  | .main, .boot => w = initial
  | .main, .named => w = { initial with registered := true }
  | .main, .starting stored made => w.Starting stored made
  | .main, .waiting => w.started = true ∧ w.alive = true ∧ w.exited = none
  | .main, .failed place => w.started = false ∧ w.alive = true ∧ w.exited = none ∧
      place ≠ .exchange ∧ w.StopKnows place
  | .main, .leaving code => w.Released ∧ w.alive = true ∧ w.exited = none ∧ w.Reports code
  | .main, .destroying code place => w.Released ∧ w.alive = true ∧ w.exited = none ∧
      w.Reports code ∧ (place = .exchange ∨ place = .ended)
  | .main, .quitting code => w.Released ∧ w.alive = false ∧ w.exited = none ∧ w.Reports code
  | .main, .gone => True
  | .signal, .arrived => w.Serving
  | .signal, .checking => w.Serving ∧ w.registered = false
  | .signal, .answering .exchange => w.Serving ∧ w.registered = false
  | .signal, .answering .ended => w.started = true ∧ w.promises ≠ 0
  | .signal, .answering place => w.started = true ∧ w.registered = false ∧ w.alive = true ∧
      w.exited = none ∧ w.promises = 0 ∧ w.StopKnows place
  | _, _ => False

/-- What the steps of one do to the other.  While a worker has started and not stopped, `main`
    waits; the callback does nothing but stop such a worker. -/
def Grows : Option Actor → LifeWorld → LifeWorld → Prop
  | some .main, w, w' => w.started = true → w'.started = true ∧ w.promises ≤ w'.promises ∧
      (w.promises = 0 → w' = w)
  | some .signal, w, w' => w' = w ∨ (w.started = true ∧ w.promises = 0 ∧ w'.started = true ∧
      w'.alive = w.alive ∧ w'.exited = w.exited)
  | none, w, w' => w' = w

theorem Grows.refl (a : Option Actor) (w : LifeWorld) : Grows a w w := by
  cases a with
  | none => rfl
  | some i =>
    cases i with
    | main => exact fun h => ⟨h, le_rfl, fun _ => rfl⟩
    | signal => exact .inl rfl

/-- What the callback knows, it knows of a worker that has started and not stopped. -/
theorem Knows.signal {w : LifeWorld} {φ : LifePhase} (h : w.Knows .signal φ)
    (hφ : φ ≠ .answering .ended) : w.started = true ∧ w.promises = 0 := by
  cases φ with
  | arrived => exact ⟨h.started, h.promises⟩
  | checking => exact ⟨h.1.started, h.1.promises⟩
  | answering place =>
    cases place with
    | exchange => exact ⟨h.1.started, h.1.promises⟩
    | ended => exact absurd rfl hφ
    | releasing => exact ⟨h.1, h.2.2.2.2.1⟩
    | holding => exact ⟨h.1, h.2.2.2.2.1⟩
  | _ => cases h

/-- Of a worker that has started and not stopped, `main` knows only that it waits for it. -/
theorem Knows.main {w : LifeWorld} {φ : LifePhase} (h : w.Knows .main φ)
    (hstarted : w.started = true) (hpromises : w.promises = 0) : φ = .waiting ∨ φ = .gone := by
  have hreleased : ¬ w.Released := fun hr => by
    have hone := hr.promised hstarted
    omega
  cases φ with
  | waiting => exact .inl rfl
  | gone => exact .inr rfl
  | boot =>
    rw [show w = _ from h] at hstarted
    cases hstarted
  | named =>
    rw [show w = _ from h] at hstarted
    cases hstarted
  | starting => exact absurd (hstarted.symm.trans h.started) nofun
  | failed => exact absurd (hstarted.symm.trans h.1) nofun
  | leaving => exact absurd h.1 hreleased
  | destroying => exact absurd h.1 hreleased
  | quitting => exact absurd h.1 hreleased
  | _ => cases h

theorem Knows.mono {w w' : LifeWorld} {i : Actor} {a : Option Actor} {φ : LifePhase}
    (ha : a ≠ some i) (hgrows : Grows a w w') (h : w.Knows i φ) : w'.Knows i φ := by
  cases a with
  | none =>
    obtain rfl := hgrows
    exact h
  | some j =>
    cases i with
    | main =>
      cases j with
      | main => exact absurd rfl ha
      | signal =>
        rcases hgrows with rfl | ⟨hstarted, hpromises, hstarted', halive, hexited⟩
        · exact h
        rcases h.main hstarted hpromises with rfl | rfl
        · exact ⟨hstarted', halive.trans h.2.1, hexited.trans h.2.2⟩
        · trivial
    | signal =>
      cases j with
      | signal => exact absurd rfl ha
      | main =>
        by_cases hended : φ = .answering .ended
        · subst hended
          obtain ⟨hstarted', hle, -⟩ := hgrows h.1
          exact ⟨hstarted', fun hzero => h.2 (by omega)⟩
        obtain ⟨hstarted, hpromises⟩ := h.signal hended
        rwa [(hgrows hstarted).2.2 hpromises]

/-! ### Steps -/

theorem sound_of_unstarted {w : LifeWorld} (hstarted : w.started = false) (hpromises : w.promises ≤ 1)
    (hexited : w.exited = none) : w.Sound where
  promises_le := hpromises
  serving h := absurd (h.symm.trans hstarted) nofun
  released h := absurd (h.symm.trans hstarted) nofun
  exited _ h := absurd (h.symm.trans hexited) nofun

theorem sound_of_released {w : LifeWorld} (h : w.Released)
    (hregistered : w.started = true → w.registered = false)
    (hexited : ∀ code, w.exited = some code → w.alive = false ∧ w.Reports code) : w.Sound where
  promises_le := h.promises_le
  serving hstarted hreg := absurd (hreg.symm.trans (hregistered hstarted)) nofun
  released _ _ := h
  exited code hcode := ⟨(hexited code hcode).1, h, (hexited code hcode).2⟩

theorem sound_of_leaving {w : LifeWorld} (h : w.Released)
    (hregistered : w.started = true → w.registered = false) (hexited : w.exited = none) : w.Sound :=
  sound_of_released h hregistered fun _ hcode => absurd (hcode.symm.trans hexited) nofun

/-- A signal that has stopped the worker was deregistered before. -/
theorem Sound.unregistered {w : LifeWorld} (h : w.Sound) (hreleased : w.Released)
    (hstarted : w.started = true) : w.registered = false := by
  rw [← Bool.not_eq_true]
  intro hregistered
  exact absurd ((h.serving hstarted hregistered).running.symm.trans hreleased.running) nofun

theorem StopKnows.promises_le {w : LifeWorld} {place : StopAt} (h : w.StopKnows place) :
    w.promises ≤ 1 := by
  cases place with
  | exchange => exact h.elim (fun hrun => hrun.2.le.trans (Nat.zero_le 1)) Released.promises_le
  | releasing => exact h.2.1.le.trans (Nat.zero_le 1)
  | holding => exact h.2.1.le.trans (Nat.zero_le 1)
  | ended => exact Released.promises_le h

/-- A stop that a failed start ends with. -/
theorem knows_failed {w w' : LifeWorld} {place place' : StopAt} {e : LifeEffect}
    {r : LifeResponse e} (hstarted : w.started = false) (halive : w.alive = true)
    (hexited : w.exited = none) (hstop : w.StopKnows place) (hnext : StopNext place e r place')
    (hacts : w.acts (.inl e) r w') : w'.Sound ∧ w'.Knows .main (.failed place') := by
  obtain ⟨hstop', hsame⟩ := hstop.step hnext hacts
  have hstarted' := hsame.started.trans hstarted
  have hexited' := hsame.exited.trans hexited
  refine ⟨sound_of_unstarted hstarted' hstop'.promises_le hexited', hstarted',
    hsame.alive.trans halive, hexited', ?_, hstop'⟩
  rintro rfl
  cases hnext

/-- The stop of the destructor finds nothing to do. -/
theorem knows_destroying {w w' : LifeWorld} {code : Int32} {place place' : StopAt} {e : LifeEffect}
    {r : LifeResponse e} (hsound : w.Sound) (h : w.Knows .main (.destroying code place))
    (hnext : StopNext place e r place') (hacts : w.acts (.inl e) r w') :
    w'.Sound ∧ w'.Knows .main (.destroying code place') := by
  obtain ⟨hreleased, halive, hexited, hreports, rfl | rfl⟩ := h
  · cases hnext with
    | won => exact absurd (hacts.1.trans hreleased.running) nofun
    | lost =>
      obtain ⟨-, rfl⟩ := hacts
      have hreleased' : ({ w with running := false } : LifeWorld).Released :=
        ⟨rfl, hreleased.absent, hreleased.promises_le, hreleased.promised⟩
      exact ⟨sound_of_leaving hreleased' (hsound.unregistered hreleased) hexited,
        hreleased', halive, hexited, hreports, .inr rfl⟩
  · cases hnext

/-- The state of a start when `stop` is called. -/
theorem Starting.stopKnows {w : LifeWorld} {stored : Bool} {made : List Component}
    (h : w.Starting stored made) : w.StopKnows .exchange := by
  cases stored with
  | true => exact .inl ⟨h.running, h.promises⟩
  | false =>
    refine .inr ⟨h.running, fun k => ?_, h.promises.le.trans (Nat.zero_le 1),
      fun hstarted => absurd (hstarted.symm.trans h.started) nofun⟩
    rw [← Bool.not_eq_true, h.present, h.stored rfl]
    exact List.not_mem_nil

theorem Starting.make {w : LifeWorld} {made : List Component} (h : w.Starting true made)
    (k : Component) :
    ({ w with present := Function.update w.present k true } : LifeWorld).Starting true (k :: made) := by
  refine ⟨h.registered, h.started, h.running, h.alive, h.hasWorker, h.promises, h.exited,
    fun k' => ?_, nofun⟩
  by_cases heq : k' = k
  · subst heq
    simp
  · simp [heq, h.present]

theorem Starting.sound {w : LifeWorld} {stored : Bool} {made : List Component}
    (h : w.Starting stored made) : w.Sound :=
  sound_of_unstarted h.started (h.promises.le.trans (Nat.zero_le 1)) h.exited

/-- One step of `main`. -/
theorem main_step {w w' : LifeWorld} {φ φ' : LifePhase} {x : LifeEffect ⊕ Pause}
    {r : Sum.elim LifeResponse PauseResponse x} (hsound : w.Sound) (h : w.Knows .main φ)
    (hnext : LifeNext φ x r φ') (hacts : w.acts x r w') : w'.Sound ∧ w'.Knows .main φ' := by
  cases hnext with
  | register =>
    obtain rfl := hacts
    obtain rfl := h
    exact ⟨sound_of_unstarted rfl (Nat.zero_le 1) rfl, rfl⟩
  | makeWorker =>
    obtain rfl := hacts
    obtain rfl := h
    exact ⟨sound_of_unstarted rfl (Nat.zero_le 1) rfl, rfl, rfl, rfl, rfl, rfl, rfl, rfl,
      fun _ => ⟨nofun, nofun⟩, fun _ => rfl⟩
  | store =>
    obtain rfl := hacts
    have hstored : ({ w with running := true } : LifeWorld).Starting true [] :=
      ⟨h.registered, h.started, rfl, h.alive, h.hasWorker, h.promises, h.exited, h.present, nofun⟩
    exact ⟨hstored.sound, hstored⟩
  | quiet hquiet =>
    obtain rfl := acts_of_isQuiet hquiet hacts
    exact ⟨hsound, h⟩
  | pause =>
    obtain rfl := hacts
    exact ⟨hsound, h⟩
  | make =>
    obtain rfl := hacts
    exact ⟨(Starting.make h _).sound, Starting.make h _⟩
  | use huses =>
    obtain rfl := acts_of_uses huses hacts
    exact ⟨hsound, h⟩
  | started =>
    obtain rfl := hacts
    have hserving : ({ w with started := true } : LifeWorld).Serving :=
      ⟨rfl, h.running, h.alive, h.hasWorker, h.promises, h.exited⟩
    refine ⟨⟨hsound.promises_le, fun _ _ => hserving, fun _ hne => absurd h.promises hne,
      fun code hcode => absurd (hcode.symm.trans h.exited) nofun⟩, rfl, h.alive, h.exited⟩
  | wait =>
    obtain ⟨hpos, rfl⟩ := hacts
    exact ⟨hsound, hsound.released h.1 hpos.ne', h.2.1, h.2.2, .inl ⟨h.1, rfl⟩⟩
  | fail hstop => exact knows_failed h.started h.alive h.exited h.stopKnows hstop hacts
  | failed hstop => exact knows_failed h.1 h.2.1 h.2.2.1 h.2.2.2.2 hstop hacts
  | leaveFailed =>
    obtain rfl := hacts
    obtain ⟨hstarted, halive, hexited, -, hreleased⟩ := h
    exact ⟨sound_of_unstarted hstarted hsound.promises_le hexited,
      hreleased.outside .., halive, hexited, .inr ⟨hstarted, rfl⟩, .inl rfl⟩
  | leave =>
    obtain rfl := hacts
    obtain ⟨hreleased, halive, hexited, hreports⟩ := h
    have hreleased' : ({ w with hasWorker := false } : LifeWorld).Released := hreleased.outside ..
    exact ⟨sound_of_leaving hreleased' (hsound.unregistered hreleased) hexited,
      hreleased', halive, hexited, hreports, .inl rfl⟩
  | destroying hstop => exact knows_destroying hsound h hstop hacts
  | destroyed =>
    obtain rfl := hacts
    obtain ⟨hreleased, -, hexited, hreports, -⟩ := h
    have hreleased' : ({ w with alive := false } : LifeWorld).Released := hreleased.outside ..
    exact ⟨sound_of_leaving hreleased' (hsound.unregistered hreleased) hexited,
      hreleased', rfl, hexited, hreports⟩
  | deregister =>
    obtain rfl := hacts
    obtain ⟨hreleased, halive, hexited, hreports⟩ := h
    have hreleased' : ({ w with registered := false } : LifeWorld).Released := hreleased.outside ..
    exact ⟨sound_of_leaving hreleased' (fun _ => rfl) hexited,
      hreleased', halive, hexited, hreports⟩
  | exit =>
    obtain rfl := hacts
    obtain ⟨hreleased, halive, -, hreports⟩ := h
    refine ⟨sound_of_released (hreleased.outside ..) (hsound.unregistered hreleased) ?_, trivial⟩
    rintro code ⟨⟩
    exact ⟨halive, hreports⟩
  | arrive => cases h
  | answer => cases h
  | ignore => cases h
  | answering => cases h

/-- While a worker has started and not stopped, `main` waits. -/
theorem main_grows {w w' : LifeWorld} {φ φ' : LifePhase} {x : LifeEffect ⊕ Pause}
    {r : Sum.elim LifeResponse PauseResponse x} (h : w.Knows .main φ)
    (hnext : LifeNext φ x r φ') (hacts : w.acts x r w') : Grows (some .main) w w' := by
  intro hstarted
  obtain ⟨hkept, hle⟩ := acts_mono hacts
  refine ⟨hkept hstarted, hle, fun hpromises => ?_⟩
  rcases h.main hstarted hpromises with rfl | rfl
  · cases hnext
    exact absurd hpromises hacts.1.ne'
  · cases hnext

/-- The callback in `stop`, after the exchange. -/
theorem knows_answering {w : LifeWorld} {place : StopAt} (hstarted : w.started = true)
    (hregistered : w.registered = false) (halive : w.alive = true) (hexited : w.exited = none)
    (hexchange : place ≠ .exchange) (hstop : w.StopKnows place) :
    w.Sound ∧ w.Knows .signal (.answering place) := by
  have hreleased : w.promises ≠ 0 → w.Released := by
    intro hpromises
    by_cases hended : place = .ended
    · subst hended
      exact hstop
    · exact absurd (hstop.promises_eq_zero hexchange hended) hpromises
  refine ⟨⟨hstop.promises_le, fun _ hreg => absurd (hreg.symm.trans hregistered) nofun,
    fun _ => hreleased, fun code hcode => absurd (hcode.symm.trans hexited) nofun⟩, ?_⟩
  cases place with
  | exchange => exact absurd rfl hexchange
  | ended =>
    have hone : w.promises = 1 := Released.promised hstop hstarted
    exact ⟨hstarted, by omega⟩
  | releasing => exact ⟨hstarted, hregistered, halive, hexited, hstop.2.1, hstop⟩
  | holding => exact ⟨hstarted, hregistered, halive, hexited, hstop.2.1, hstop⟩

/-- What the callback knows in `stop`. -/
theorem Knows.answering {w : LifeWorld} {place : StopAt} (h : w.Knows .signal (.answering place))
    (hended : place ≠ .ended) : w.started = true ∧ w.registered = false ∧ w.alive = true ∧
      w.exited = none ∧ w.promises = 0 ∧ w.StopKnows place := by
  cases place with
  | exchange =>
    exact ⟨h.1.started, h.2, h.1.alive, h.1.exited, h.1.promises, .inl ⟨h.1.running, h.1.promises⟩⟩
  | ended => exact absurd rfl hended
  | releasing => exact h
  | holding => exact h

/-- One step of the callback. -/
theorem signal_step {w w' : LifeWorld} {φ φ' : LifePhase} {x : LifeEffect ⊕ Pause}
    {r : Sum.elim LifeResponse PauseResponse x} (hsound : w.Sound) (h : w.Knows .signal φ)
    (hnext : LifeNext φ x r φ') (hacts : w.acts x r w') :
    w'.Sound ∧ Grows (some .signal) w w' ∧ w'.Knows .signal φ' := by
  cases hnext with
  | arrive =>
    obtain rfl := hacts
    have hserving : ({ w with registered := false } : LifeWorld).Serving :=
      ⟨h.started, h.running, h.alive, h.hasWorker, h.promises, h.exited⟩
    exact ⟨⟨hsound.promises_le, nofun, fun _ hne => absurd h.promises hne,
      fun code hcode => absurd (hcode.symm.trans h.exited) nofun⟩,
      .inr ⟨h.started, h.promises, h.started, rfl, rfl⟩, hserving, rfl⟩
  | answer =>
    obtain ⟨-, rfl⟩ := hacts
    exact ⟨hsound, .inl rfl, h⟩
  | ignore => exact absurd (hacts.1.trans h.1.hasWorker) nofun
  | @answering place e r place' hstop =>
    have hended : place ≠ .ended := by
      rintro rfl
      cases hstop
    obtain ⟨hstarted, hregistered, halive, hexited, hpromises, hknows⟩ := h.answering hended
    obtain ⟨hknows', hsame⟩ := hknows.step hstop hacts
    have hexchange : place' ≠ .exchange := by
      rintro rfl
      cases hstop
    obtain ⟨hsound', h'⟩ := knows_answering (hsame.started.trans hstarted)
      (hsame.registered.trans hregistered) (hsame.alive.trans halive)
      (hsame.exited.trans hexited) hexchange hknows'
    exact ⟨hsound', .inr ⟨hstarted, hpromises, hsame.started.trans hstarted, hsame.alive,
      hsame.exited⟩, h'⟩
  | _ => cases h

/-- Every effect finds what it goes through. -/
theorem Knows.safe {w : LifeWorld} {i : Actor} {φ φ' : LifePhase} {e : LifeEffect}
    {r : LifeResponse e} (h : w.Knows i φ) (hnext : LifeNext φ (.inl e) r φ') :
    (e.ofWorker = true → w.alive = true) ∧ ∀ k, e.uses = some k → w.present k = true := by
  cases i with
  | main =>
    cases hnext with
    | store => exact ⟨fun _ => h.alive, nofun⟩
    | quiet hquiet =>
      cases e with
      | createDlqDirectory => exact ⟨nofun, nofun⟩
      | utcNow => exact ⟨nofun, nofun⟩
      | _ => cases hquiet
    | make => exact ⟨fun _ => h.alive, nofun⟩
    | use huses hk =>
      refine ⟨fun _ => h.alive, fun k hk' => ?_⟩
      cases huses.symm.trans hk'
      exact (h.present _).mpr hk
    | wait => exact ⟨fun _ => h.2.1, nofun⟩
    | fail hstop => exact ⟨fun _ => h.alive, fun _ => h.stopKnows.safe hstop⟩
    | failed hstop => exact ⟨fun _ => h.2.1, fun _ => h.2.2.2.2.safe hstop⟩
    | destroying hstop =>
      obtain ⟨hreleased, halive, -, -, rfl | rfl⟩ := h
      · have hknows : w.StopKnows .exchange := .inr hreleased
        exact ⟨fun _ => halive, fun _ => hknows.safe hstop⟩
      · cases hstop
    | destroyed => exact ⟨fun _ => h.2.1, nofun⟩
    | register => exact ⟨nofun, nofun⟩
    | makeWorker => exact ⟨nofun, nofun⟩
    | started => exact ⟨nofun, nofun⟩
    | leaveFailed => exact ⟨nofun, nofun⟩
    | leave => exact ⟨nofun, nofun⟩
    | deregister => exact ⟨nofun, nofun⟩
    | exit => exact ⟨nofun, nofun⟩
    | _ => cases h
  | signal =>
    cases hnext with
    | arrive => exact ⟨nofun, nofun⟩
    | answer => exact ⟨nofun, nofun⟩
    | ignore => exact ⟨nofun, nofun⟩
    | @answering place e r place' hstop =>
      have hended : place ≠ .ended := by
        rintro rfl
        cases hstop
      obtain ⟨-, -, halive, -, -, hknows⟩ := h.answering hended
      exact ⟨fun _ => halive, fun _ => hknows.safe hstop⟩
    | _ => cases h

end LifeWorld

/-! ### Runs of the process -/

section Runs

open LifeWorld

variable (codec : JsonCodec) (c : FullConfigurations)

/-- Where the code of each begins. -/
def firstPhase : Actor → LifePhase
  | .main => .boot
  | .signal => .arrived

/-- `main` and the callback, side by side. -/
theorem process_outline : Server.SharedOutline (processServer codec c) (fun _ _ => LifeNext)
    (fun _ m => firstPhase m) LifePhase.isFinal AfterStart Grows Sound
    (fun i m φ w => i = m ∧ w.Knows i φ) where
  follows i m := by
    cases m with
    | main => exact mainProgram_follows codec c
    | signal => exact signalCallback_follows
  mono ha hgrows h := ⟨h.1, h.2.mono ha hgrows⟩
  deliver {i w m} hsound hready hok := by
    obtain ⟨rfl, hstarted⟩ := hok
    cases i with
    | main => exact ⟨rfl, hready⟩
    | signal => exact ⟨rfl, hsound.serving (hstarted rfl) hready⟩
  perform {i w w' m φ x r φ'} hsound h hnext _ hacts := by
    cases i with
    | main =>
      obtain ⟨hsound', h'⟩ := main_step hsound h.2 hnext hacts
      exact ⟨hsound', main_grows h.2 hnext hacts, h.1, h'⟩
    | signal =>
      obtain ⟨hsound', hgrows, h'⟩ := signal_step hsound h.2 hnext hacts
      exact ⟨hsound', hgrows, h.1, h'⟩
  finish {i w w' m φ} hsound _ _ hend := by
    obtain rfl := hend
    exact ⟨hsound, .refl _ _⟩
  env _ h := h.elim

abbrev ProcessTracked : LifeState → Prop :=
  Server.AllTracked (fun _ _ => LifeNext) LifePhase.isFinal Sound fun i m φ w => i = m ∧ w.Knows i φ

variable {codec c}

theorem process_tracked {s : LifeState}
    (hreach : (processServer codec c).Reach signalAfterStart (Server.idle initial) s) :
    ProcessTracked s :=
  (process_outline codec c).tracked Grows.refl id
    (sound_of_unstarted rfl (Nat.zero_le 1) rfl) hreach

end Runs

/-! ### A whole life -/

section Sample

/-- A worker that runs, with all its members. -/
def servingWorld : LifeWorld := ⟨true, true, true, true, true, fun _ => true, 0, none⟩

/-- A worker that a signal has stopped. -/
def stoppedWorld : LifeWorld := ⟨false, true, true, false, true, fun _ => false, 1, none⟩

theorem runs_life {α : Type} {e : LifeEffect} {k : LifeResponse e → Life α} {w w' w'' : LifeWorld}
    {p : Life α} (r : LifeResponse e) (h : w.acts (.inl e) r w')
    (hrest : Prog.Runs LifeWorld.acts w' (k r) w'' p) :
    Prog.Runs LifeWorld.acts w (Prog.step (Sum.inl e) k : Life α) w'' p := .step h hrest

theorem runs_end {α : Type} {p : Life α} {w w' : LifeWorld} (h : w = w') :
    Prog.Runs LifeWorld.acts w p w' p := h ▸ .refl w p

/-- A start in which every call succeeds. -/
theorem mainProgram_serves (codec : JsonCodec) {c : FullConfigurations}
    (hvalid : validateRequired c = .ok ()) :
    Prog.Runs LifeWorld.acts LifeWorld.initial (mainProgram codec c) servingWorld (do
      let () ← life .waitPromise
      endProcess 0) := by
  unfold mainProgram start
  rw [hvalid]
  refine runs_life (e := .registerSignal) () rfl (runs_life (e := .makeWorker) () rfl ?_)
  refine runs_life (e := .storeRunning) () rfl (runs_life (e := .createDlqDirectory _) () rfl ?_)
  refine runs_life (e := .make _) () rfl (runs_life (e := .startPool _) (.ok ()) rfl ?_)
  refine runs_life (e := .make _) () rfl (runs_life (e := .redisConnect) (.ok ()) rfl ?_)
  refine runs_life (e := .redisSet _ _ _) (.ok ()) rfl
    (runs_life (e := .utcNow) sampleTime rfl ?_)
  refine runs_life (e := .redisSet _ _ _) (.ok ()) rfl (runs_life (e := .make _) () rfl ?_)
  refine runs_life (e := .make _) () rfl (runs_life (e := .make _) () rfl ?_)
  refine runs_life (e := .registerConsumeHandler) (.ok ()) rfl
    (runs_life (e := .startConsumer) (.ok ()) rfl ?_)
  refine runs_life (e := .startConsume) (.ok ()) rfl
    (runs_life (e := .pushMonitor) (.ok ()) rfl ?_)
  refine runs_life (e := .logStarted) () rfl (runs_end ?_)
  refine congrArg (fun present => LifeWorld.mk true true true true true present 0 none) ?_
  funext k
  cases k <;> rfl

theorem signalCallback_stops :
    Prog.Runs LifeWorld.acts servingWorld signalCallback stoppedWorld (.pure ()) := by
  refine runs_life (e := .deregisterSignal) () rfl (runs_life (e := .hasWorker) true ⟨rfl, rfl⟩ ?_)
  refine runs_life (e := .exchangeRunning) true ⟨rfl, rfl⟩ ?_
  refine runs_life (e := .isSet .consumer) true ⟨rfl, rfl⟩ ?_
  refine runs_life (e := .stopConsume) () rfl (runs_life (e := .stopConsumer) () rfl ?_)
  refine runs_life (e := .reset _) () rfl (runs_life (e := .reset _) () rfl ?_)
  refine runs_life (e := .reset _) () rfl (runs_life (e := .isSet .pool) true ⟨rfl, rfl⟩ ?_)
  refine runs_life (e := .stopPool) () rfl (runs_life (e := .reset _) () rfl ?_)
  refine runs_life (e := .isSet .redis) true ⟨rfl, rfl⟩ ?_
  refine runs_life (e := .redisDisconnect) () rfl (runs_life (e := .reset _) () rfl ?_)
  refine runs_life (e := .setPromise) () rfl (runs_end ?_)
  refine congrArg (fun present => LifeWorld.mk false true true false true present 1 none) ?_
  funext k
  cases k <;> rfl

theorem endProcess_exits : Prog.Runs LifeWorld.acts stoppedWorld
    (do let () ← life .waitPromise
        endProcess 0)
    ⟨false, false, false, false, true, fun _ => false, 1, some 0⟩ (.pure ()) := by
  refine runs_life (e := .waitPromise) () ⟨by decide, rfl⟩ ?_
  refine runs_life (e := .resetWorker) () rfl ?_
  refine runs_life (e := .exchangeRunning) false ⟨rfl, rfl⟩ ?_
  refine runs_life (e := .destroyWorker) () rfl ?_
  exact runs_life (e := .deregisterSignal) () rfl (runs_life (e := .exit 0) () rfl (.refl _ _))

variable (codec : JsonCodec) {c : FullConfigurations} (hvalid : validateRequired c = .ok ())

include hvalid

/-- The worker runs, and `main` waits. -/
theorem serving_reached : ∃ past, (processServer codec c).Reach signalAfterStart
    (Server.idle LifeWorld.initial) ⟨servingWorld,
      Function.update (fun _ => none) .main (some ⟨.main, past, do
        let () ← life .waitPromise
        endProcess 0⟩)⟩ := by
  have hmain : (processServer codec c).Reach signalAfterStart (Server.idle LifeWorld.initial)
      ⟨LifeWorld.initial, Function.update (fun _ => none) Actor.main
        (some ⟨Actor.main, [], mainProgram codec c⟩)⟩ :=
    Server.Reach.start.step (l := .deliver Actor.main Actor.main) ⟨rfl, nofun⟩ (.deliver rfl rfl)
  exact hmain.runs (mainProgram_serves codec hvalid) fun _ _ _ _ _ => trivial

/-- A signal comes, and the process exits. -/
theorem exit_reached : ∃ s, (processServer codec c).Reach signalAfterStart
    (Server.idle LifeWorld.initial) s ∧ s.world.exited = some 0 := by
  obtain ⟨past, hserving⟩ := serving_reached codec hvalid
  have hcalled := hserving.step (l := .deliver Actor.signal Actor.signal) ⟨rfl, fun _ => rfl⟩
    (.deliver rfl rfl)
  obtain ⟨past', hstopped⟩ := hcalled.runs signalCallback_stops fun _ _ _ _ _ => trivial
  rw [Function.update_comm (by decide)] at hstopped
  obtain ⟨past'', hexited⟩ := hstopped.runs endProcess_exits fun _ _ _ _ _ => trivial
  exact ⟨_, hexited, rfl⟩

end Sample

/-- **Orderly shutdown.**  However `main` and the callback of a signal interleave, neither uses
    a worker that is destroyed or a member that is null, the promise is set at most once, and
    when the process has exited the worker and all its members are gone and the exit code says
    whether the worker had started. -/
theorem shutdown_is_orderly (codec : JsonCodec) (c : FullConfigurations) (s : LifeState)
    (hreach : (processServer codec c).Reach signalAfterStart (Server.idle LifeWorld.initial) s) :
    (∀ i e r s', (processServer codec c).Step s (.perform i (.inl e) r) s' →
      (e.ofWorker = true → s.world.alive = true) ∧
        ∀ k, e.uses = some k → s.world.present k = true) ∧
    s.world.promises ≤ 1 ∧
    ∀ code, s.world.exited = some code →
      s.world.alive = false ∧ (∀ k, s.world.present k = false) ∧
        ((s.world.started = true ∧ s.world.promises = 1 ∧ code = 0) ∨
          (s.world.started = false ∧ code = 1)) := by
  have htracked := process_tracked hreach
  refine ⟨?_, htracked.keep.promises_le, ?_⟩
  · rintro i e r s' hstep
    cases hstep with
    | perform hbusy hacts =>
      obtain ⟨φ, hfollows, -, hknows⟩ := htracked.known i _ hbusy
      obtain ⟨φ', hnext, -⟩ := hfollows r
      exact hknows.safe hnext
  · intro code hcode
    obtain ⟨halive, hreleased, hreports⟩ := htracked.keep.exited code hcode
    exact ⟨halive, hreleased.absent, hreports.imp
      (fun h => ⟨h.1, hreleased.promised h.1, h.2⟩) id⟩

theorem sample_shutdown_is_orderly :
    ∃ s, (processServer JsonText.codec sampleConfigurations).Reach signalAfterStart
        (Server.idle LifeWorld.initial) s ∧
      s.world.exited = some 0 ∧ ∀ k, s.world.present k = false := by
  obtain ⟨s, hreach, hexited⟩ := exit_reached JsonText.codec (c := sampleConfigurations) (by decide)
  obtain ⟨-, -, hafter⟩ := shutdown_is_orderly JsonText.codec sampleConfigurations s hreach
  exact ⟨s, hreach, hexited, (hafter 0 hexited).2.1⟩

/-! ### Progress -/

section Progress

open LifeWorld

/-- An effect that some response answers. -/
def Answerable (x : LifeEffect ⊕ Pause) : Prop :=
  Nonempty (Sum.elim LifeResponse PauseResponse x)

/-- Code all of whose effects can be answered. -/
abbrev Answered {α : Type} (p : Life α) : Prop :=
  p.Within (fun _ _ => True) Answerable fun _ => True

theorem answered_life (e : LifeEffect) : Answered (life e) := by
  refine ⟨?_, fun _ _ => trivial⟩
  cases e <;> first
    | exact ⟨()⟩
    | exact ⟨true⟩
    | exact ⟨(.ok () : Except Bytes Unit)⟩
    | exact ⟨sampleTime⟩

theorem Answered.bind {α β : Type} {p : Life α} {f : α → Life β} (hp : Answered p)
    (hf : ∀ a, Answered (f a)) : Answered (p >>= f) :=
  Prog.Within.bind hp fun a _ => hf a

theorem answered_pure {α : Type} (a : α) : Answered (pure a : Life α) := trivial

theorem answered_sleepBackoff {baseDelayMs maxDelayMs : Int32}
    (range : BackoffRange baseDelayMs maxDelayMs) (attempt : Int32) :
    Answered (sleepBackoff attempt baseDelayMs maxDelayMs) :=
  ⟨jitter_nonempty range attempt, fun _ _ => ⟨⟨()⟩, fun _ _ => trivial⟩⟩

theorem connectAttempts_answered (attempts : Nat) (lastError : Bytes) :
    Answered (connectAttempts attempts lastError) := by
  induction attempts generalizing lastError with
  | zero => exact answered_pure _
  | succ attempts ih =>
    have hagain : ∀ attempt error, Answered (do
        let () ← sleepBackoff attempt redisBaseDelayMs redisMaxDelayMs
        connectAttempts attempts error) :=
      fun attempt error => (answered_sleepBackoff redisRange attempt).bind fun _ => ih error
    refine (answered_life _).bind ?_
    rintro (error | ⟨⟩)
    · exact hagain _ error
    refine (answered_life _).bind ?_
    rintro (error | ⟨⟩)
    · exact hagain _ error
    · exact answered_pure _

theorem connectAwsService_answered (c : FullConfigurations) : Answered (connectAwsService c) := by
  refine (answered_life _).bind fun _ => (answered_life _).bind fun _ =>
    (answered_life _).bind fun _ => (answered_life _).bind ?_
  rintro (error | ⟨⟩)
  · exact answered_pure _
  refine (answered_life _).bind ?_
  rintro (error | ⟨⟩)
  · exact answered_pure _
  · exact answered_life _

theorem orReport_answered {heading : Bytes} {stage next : Life (Except Bytes Unit)}
    (hstage : Answered stage) (hnext : Answered next) : Answered (orReport heading stage next) := by
  refine hstage.bind ?_
  rintro (error | ⟨⟩)
  · exact answered_pure _
  · exact hnext

theorem start_answered (codec : JsonCodec) (c : FullConfigurations) :
    Answered (start codec c) := by
  unfold start
  cases validateRequired c with
  | error error => exact answered_pure _
  | ok =>
    refine (answered_life _).bind fun _ => (answered_life _).bind fun _ => ?_
    refine orReport_answered ((answered_life _).bind fun _ => answered_life _) ?_
    refine orReport_answered ((answered_life _).bind fun _ => connectAttempts_answered _ _) ?_
    refine orReport_answered ((answered_life _).bind fun _ => answered_life _) ?_
    refine orReport_answered (connectAwsService_answered c) ?_
    refine orReport_answered (answered_life _) ?_
    exact (answered_life _).bind fun _ => answered_pure _

theorem releaseIfSet_answered {k : Component} {before : Life Unit} (hbefore : Answered before) :
    Answered (releaseIfSet k before) := by
  refine (answered_life _).bind ?_
  rintro (_ | _)
  · exact answered_pure _
  · exact hbefore.bind fun _ => answered_life _

theorem stop_answered : Answered stop := by
  refine (answered_life _).bind ?_
  rintro (_ | _)
  · exact answered_pure _
  refine (releaseIfSet_answered ((answered_life _).bind fun _ => answered_life _)).bind fun _ => ?_
  refine (answered_life _).bind fun _ => (answered_life _).bind fun _ => ?_
  refine (releaseIfSet_answered (answered_life _)).bind fun _ => ?_
  exact (releaseIfSet_answered (answered_life _)).bind fun _ => answered_life _

theorem endProcess_answered (code : Int32) : Answered (endProcess code) :=
  (answered_life _).bind fun _ => stop_answered.bind fun _ => (answered_life _).bind fun _ =>
    (answered_life _).bind fun _ => answered_life _

theorem process_answered (codec : JsonCodec) (c : FullConfigurations) (i m : Actor) :
    Answered ((processServer codec c).handler i m) := by
  cases m with
  | main =>
    refine (answered_life _).bind fun _ => (answered_life _).bind fun _ => ?_
    refine (start_answered codec c).bind ?_
    rintro (error | ⟨⟩)
    · exact stop_answered.bind fun _ => endProcess_answered 1
    · exact (answered_life _).bind fun _ => endProcess_answered 0
  | signal =>
    refine (answered_life _).bind fun _ => (answered_life _).bind ?_
    rintro (_ | _)
    · exact answered_pure _
    · exact stop_answered

/-- Only the wait can block. -/
theorem acts_enabled (w : LifeWorld) {x : LifeEffect ⊕ Pause} (hanswer : Answerable x)
    (hwait : x = .inl .waitPromise → 0 < w.promises) : ∃ r w', w.acts x r w' := by
  obtain ⟨r⟩ := hanswer
  cases x with
  | inr p => exact ⟨r, w, rfl⟩
  | inl e =>
    cases e with
    | hasWorker => exact ⟨w.hasWorker, w, rfl, rfl⟩
    | exchangeRunning => exact ⟨w.running, _, rfl, rfl⟩
    | isSet k => exact ⟨w.present k, w, rfl, rfl⟩
    | waitPromise => exact ⟨(), w, hwait rfl, rfl⟩
    | _ => exact ⟨r, _, rfl⟩

variable {codec : JsonCodec} {c : FullConfigurations} {s : LifeState}

/-- Code that is being run goes on by itself. -/
def GoesOn (codec : JsonCodec) (c : FullConfigurations) (s : LifeState) : Prop :=
  ∃ l s', (∀ i m, l ≠ .deliver i m) ∧ signalAfterStart s l ∧ (processServer codec c).Step s l s'

theorem goesOn_of_handler {i : Actor}
    {h : Server.Handling Actor (LifeEffect ⊕ Pause) (Sum.elim LifeResponse PauseResponse)}
    (hbusy : s.current i = some h) (hanswered : Answered h.rest)
    (hwait : ∀ k, h.rest = .step (.inl .waitPromise) k → 0 < s.world.promises) :
    GoesOn codec c s := by
  obtain ⟨m, past, rest⟩ := h
  cases rest with
  | pure a => exact ⟨.finish i, _, nofun, trivial, .finish hbusy rfl⟩
  | step x k =>
    obtain ⟨r, w', hacts⟩ := acts_enabled s.world hanswered.1 fun hx => by
      subst hx
      exact hwait k rfl
    exact ⟨.perform i x r, _, nofun, trivial, .perform hbusy hacts⟩

/-- Only `main` waits, and only for a worker that has started. -/
theorem LifeNext.waiting {φ φ' : LifePhase} {r : Unit}
    (h : LifeNext φ (.inl .waitPromise) r φ') : φ = .waiting := by
  cases h with
  | wait => rfl
  | quiet hquiet => cases hquiet
  | use huses => cases huses
  | fail hstop => cases hstop
  | failed hstop =>
    cases hstop with
    | use huses => cases huses
  | destroying hstop =>
    cases hstop with
    | use huses => cases huses
  | answering hstop =>
    cases hstop with
    | use huses => cases huses

/-- A worker that runs, with nobody listening for a signal. -/
def Deaf (w : LifeWorld) : Prop :=
  w.started = true ∧ w.promises = 0 ∧ w.registered = false

/-- `main` makes no worker deaf. -/
theorem main_deaf {w w' : LifeWorld} {φ φ' : LifePhase} {x : LifeEffect ⊕ Pause}
    {r : Sum.elim LifeResponse PauseResponse x} (hsound : w.Sound) (h : w.Knows .main φ)
    (hnext : LifeNext φ x r φ') (hacts : w.acts x r w') (hdeaf : Deaf w') : Deaf w := by
  obtain ⟨hstarted', hpromises', hregistered'⟩ := hdeaf
  have hpromises : w.promises = 0 := Nat.le_zero.mp (hpromises' ▸ (acts_mono hacts).2)
  have hwaiting := (main_step hsound h hnext hacts).2.main hstarted' hpromises'
  by_cases hstarted : w.started = true
  · obtain rfl := ((main_grows h hnext hacts) hstarted).2.2 hpromises
    exact ⟨hstarted, hpromises, hregistered'⟩
  · -- the step is the end of the start, and signals are registered before it
    rcases hwaiting with rfl | rfl
    · cases hnext
      obtain rfl := hacts
      exact absurd (h.registered.symm.trans hregistered') nofun
    · cases hnext
      obtain rfl := hacts
      exact absurd hstarted' hstarted

/-- As long as nobody listens for a signal and the worker runs, the callback is at work. -/
theorem attended (hreach : (processServer codec c).Reach signalAfterStart (Server.idle initial) s)
    (hdeaf : Deaf s.world) : ∃ h, s.current .signal = some h := by
  induction hreach with
  | start => exact absurd hdeaf.1 nofun
  | step hreach hallowed hstep ih =>
    have htracked := process_tracked hreach
    cases hstep with
    | @deliver w current i m hidle hready =>
      obtain ⟨h, hh⟩ := ih hdeaf
      have hi : Actor.signal ≠ i := by
        rintro rfl
        exact absurd (hidle.symm.trans hh) nofun
      exact ⟨h, (Function.update_of_ne hi ..).trans hh⟩
    | @perform w w' current i m past x r k hbusy hacts =>
      cases i with
      | signal => exact ⟨_, rfl⟩
      | main =>
        obtain ⟨φ, hfollows, -, hknows⟩ := htracked.known .main _ hbusy
        obtain ⟨φ', hnext, -⟩ := hfollows r
        obtain ⟨h, hh⟩ := ih (main_deaf htracked.keep hknows hnext hacts hdeaf)
        exact ⟨h, hh⟩
    | @finish w w' current i m past hbusy hend =>
      obtain rfl := hend
      obtain ⟨h, hh⟩ := ih hdeaf
      cases i with
      | main => exact ⟨h, hh⟩
      | signal =>
        -- the callback returns after the promise was set
        obtain ⟨φ, hfinal, -, hknows⟩ := htracked.known .signal _ hbusy
        have hended : φ = .answering .ended := by
          cases φ with
          | gone => cases hknows
          | answering place =>
            cases place with
            | ended => rfl
            | _ => cases hfinal
          | _ => cases hfinal
        subst hended
        exact absurd hdeaf.2.1 hknows.2
    | crash => exact absurd hallowed id
    | env henv => exact henv.elim

end Progress

/-- **No deadlock.**  While `main` is at work, it or the callback can go on, unless the worker
    runs, signals are listened for and none has come. -/
theorem process_never_stuck (codec : JsonCodec) (c : FullConfigurations) (s : LifeState)
    (h : Server.Handling Actor (LifeEffect ⊕ Pause) (Sum.elim LifeResponse PauseResponse))
    (hreach : (processServer codec c).Reach signalAfterStart (Server.idle LifeWorld.initial) s)
    (hmain : s.current .main = some h) :
    GoesOn codec c s ∨
      (s.world.started = true ∧ s.world.running = true ∧ s.world.registered = true ∧
        s.current .signal = none) := by
  have htracked := process_tracked hreach
  have hanswered := hreach.rest (P := Answered) (process_answered codec c)
    fun hp r => hp.2 r trivial
  by_cases hwaits : ∃ k, h.rest = .step (.inl .waitPromise) k
  swap
  · exact .inl (goesOn_of_handler hmain (hanswered _ _ hmain) fun k hk => absurd ⟨k, hk⟩ hwaits)
  obtain ⟨k, hk⟩ := hwaits
  by_cases hpromises : 0 < s.world.promises
  · exact .inl (goesOn_of_handler hmain (hanswered _ _ hmain) fun _ _ => hpromises)
  have hstarted : s.world.started = true := by
    obtain ⟨φ, hfollows, -, hknows⟩ := htracked.known .main h hmain
    rw [hk] at hfollows
    obtain ⟨φ', hnext, -⟩ := hfollows ()
    obtain rfl := hnext.waiting
    exact hknows.1
  cases hsignal : s.current .signal with
  | some h' =>
    refine .inl (goesOn_of_handler hsignal (hanswered _ _ hsignal) fun k' hk' => ?_)
    obtain ⟨φ, hfollows, -, hknows⟩ := htracked.known .signal h' hsignal
    rw [hk'] at hfollows
    obtain ⟨φ', hnext, -⟩ := hfollows ()
    obtain rfl := hnext.waiting
    cases hknows
  | none =>
    have hregistered : s.world.registered = true := by
      rw [← Bool.not_eq_false]
      intro hoff
      obtain ⟨h', hh'⟩ := attended hreach ⟨hstarted, by omega, hoff⟩
      exact absurd (hsignal.symm.trans hh') nofun
    exact .inr ⟨hstarted, (htracked.keep.serving hstarted hregistered).running, hregistered, rfl⟩

/-- A worker that runs, and a signal that comes. -/
theorem sample_process_never_stuck :
    ∃ s, (processServer JsonText.codec sampleConfigurations).Reach signalAfterStart
        (Server.idle LifeWorld.initial) s ∧ s.world.promises = 0 ∧
      s.current .main ≠ none ∧ GoesOn JsonText.codec sampleConfigurations s := by
  obtain ⟨past, hserving⟩ := serving_reached JsonText.codec (c := sampleConfigurations) (by decide)
  have hcalled := hserving.step (l := .deliver Actor.signal Actor.signal) ⟨rfl, fun _ => rfl⟩
    (.deliver rfl rfl)
  refine ⟨_, hcalled, rfl, nofun, ?_⟩
  rcases process_never_stuck JsonText.codec sampleConfigurations _ _ hcalled rfl with hon | hwaits
  · exact hon
  · exact absurd hwaits.2.2.2 nofun

end TaskForge
