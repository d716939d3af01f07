import TaskForge.Interleaving
import TaskForge.Startup

/-!
# The life of the process

`main`, `stop` and the callback of a signal.  `main` waits for a promise that `stop` sets as
its last act; `stop` is called by the callback, by `main` after a failed start, and by the
destructor, and an exchange of `running_` decides which call does the work.  The callback runs
beside `main`, between any two effects.

What is shown is for one signal that comes after the start has succeeded, or for none.
A signal that comes earlier would release what `start` still uses.
-/

namespace TaskForge

/-! ### The source -/

/-- `if (component_ != nullptr) { … component_.reset(); }` -/
def releaseIfSet (component : Component) (before : Life Unit) : Life Unit := do
  if ← life (.isSet component) then do
    let () ← before
    life (.reset component)
  else pure ()

/-- `TaskForgeWorker::stop`. -/
def stop : Life Unit := do
  if ← life .exchangeRunning then do
    let () ← releaseIfSet .consumer (do
      let () ← life .stopConsume
      life .stopConsumer)
    let () ← life (.reset .publisher)
    let () ← life (.reset .s3)
    let () ← releaseIfSet .pool (life .stopPool)
    let () ← releaseIfSet .redis (life .redisDisconnect)
    life .setPromise
  else pure ()

/-- `signal_callback`. -/
def signalCallback : Life Unit := do
  let () ← life .deregisterSignal
  if ← life .hasWorker then stop else pure ()

/-- `main` from `worker_.reset()` on.  The destructor calls `stop`. -/
def endProcess (exitCode : Int32) : Life Unit := do
  let () ← life .resetWorker
  let () ← stop
  let () ← life .destroyWorker
  let () ← life .deregisterSignal
  life (.exit exitCode)

/-- `main` from `register_signal()` on. -/
def mainProgram (codec : JsonCodec) (c : FullConfigurations) : Life Unit := do
  let () ← life .registerSignal
  let () ← life .makeWorker
  match ← start codec c with
  | .error _ => do
    let () ← stop
    endProcess 1
  | .ok () => do
    let () ← life .waitPromise
    endProcess 0

/-! ### The process -/

/-- The member an effect goes through a pointer to. -/
def LifeEffect.uses : LifeEffect → Option Component
  | .startPool _ => some .pool
  | .stopPool => some .pool
  | .pushMonitor => some .pool
  | .redisConnect => some .redis
  | .redisSet .. => some .redis
  | .redisDisconnect => some .redis
  | .registerConsumeHandler => some .consumer
  | .startConsumer => some .consumer
  | .startConsume => some .consumer
  | .stopConsume => some .consumer
  | .stopConsumer => some .consumer
  | _ => none

/-- The effect is on the worker or its members. -/
def LifeEffect.ofWorker : LifeEffect → Bool
  | .storeRunning => true
  | .exchangeRunning => true
  | .make _ => true
  | .isSet _ => true
  | .reset _ => true
  | .setPromise => true
  | .waitPromise => true
  | .destroyWorker => true
  | e => e.uses.isSome

structure LifeWorld where
  /-- signals go to `signal_callback` -/
  registered : Bool
  /-- `worker_ != nullptr` -/
  hasWorker : Bool
  /-- the worker has been constructed and not destroyed -/
  alive : Bool
  /-- `running_` -/
  running : Bool
  /-- the start has succeeded -/
  started : Bool
  /-- the members that are not null -/
  present : Component → Bool
  /-- how often the promise was set -/
  promises : Nat
  exited : Option Int32

namespace LifeWorld

/-- The process before `register_signal()`. -/
def initial : LifeWorld := ⟨false, false, false, false, false, fun _ => false, 0, none⟩

/-- What an effect does.  The calls of members may have any outcome. -/
def acts (w : LifeWorld) : (x : LifeEffect ⊕ Pause) → Sum.elim LifeResponse PauseResponse x →
    LifeWorld → Prop
  | .inl .registerSignal, _, w' => w' = { w with registered := true }
  | .inl .deregisterSignal, _, w' => w' = { w with registered := false }
  | .inl .makeWorker, _, w' => w' = { w with hasWorker := true, alive := true }
  | .inl .hasWorker, answer, w' => answer = w.hasWorker ∧ w' = w
  | .inl .resetWorker, _, w' => w' = { w with hasWorker := false }
  | .inl .destroyWorker, _, w' => w' = { w with alive := false }
  | .inl .storeRunning, _, w' => w' = { w with running := true }
  | .inl .exchangeRunning, won, w' => won = w.running ∧ w' = { w with running := false }
  | .inl (.make k), _, w' => w' = { w with present := Function.update w.present k.component true }
  | .inl (.isSet k), answer, w' => answer = w.present k ∧ w' = w
  | .inl (.reset k), _, w' => w' = { w with present := Function.update w.present k false }
  | .inl .logStarted, _, w' => w' = { w with started := true }
  | .inl .setPromise, _, w' => w' = { w with promises := w.promises + 1 }
  | .inl .waitPromise, _, w' => 0 < w.promises ∧ w' = w
  | .inl (.exit code), _, w' => w' = { w with exited := some code }
  | _, _, w' => w' = w

end LifeWorld

/-- The two that run code of the process. -/
inductive Actor where
  | main
  | signal
deriving DecidableEq, Repr

/-- `main`, and the callback of a signal that is registered. -/
def processServer (codec : JsonCodec) (c : FullConfigurations) :
    Server Actor Actor (LifeEffect ⊕ Pause) (Sum.elim LifeResponse PauseResponse) LifeWorld where
  handler _
    | .main => mainProgram codec c
    | .signal => signalCallback
  effect _ := LifeWorld.acts
  ready w
    | .main => w = LifeWorld.initial
    | .signal => w.registered = true
  finish w _ w' := w' = w
  env _ _ := False

abbrev LifeLabel :=
  Server.Label Actor Actor (LifeEffect ⊕ Pause) (Sum.elim LifeResponse PauseResponse)

abbrev LifeState :=
  Server.State Actor Actor (LifeEffect ⊕ Pause) (Sum.elim LifeResponse PauseResponse) LifeWorld

/-- Each of the two runs its own code, and a signal comes after the start. -/
def AfterStart (w : LifeWorld) : LifeLabel → Prop
  | .deliver i m => i = m ∧ (m = .signal → w.started = true)
  | .crash _ => False
  | _ => True

def signalAfterStart (s : LifeState) : LifeLabel → Prop := AfterStart s.world

/-! ### The protocol -/

/-- The order in which `stop` goes through the members. -/
def releaseOrder : List Component := [.consumer, .publisher, .s3, .pool, .redis]

/-- A place in `stop`: before the exchange, between two members, at a member that was found
    to be set, or at the end. -/
inductive StopAt where
  | exchange
  | releasing (todo : List Component)
  | holding (component : Component) (todo : List Component)
  | ended
deriving DecidableEq, Repr

inductive StopNext : StopAt → (e : LifeEffect) → LifeResponse e → StopAt → Prop
  | won : StopNext .exchange .exchangeRunning true (.releasing releaseOrder)
  | lost : StopNext .exchange .exchangeRunning false .ended
  | found {k todo} : StopNext (.releasing (k :: todo)) (.isSet k) true (.holding k todo)
  | missing {k todo} : StopNext (.releasing (k :: todo)) (.isSet k) false (.releasing todo)
  | drop {k todo} : StopNext (.releasing (k :: todo)) (.reset k) () (.releasing todo)
  | use {k todo e r} : e.uses = some k → StopNext (.holding k todo) e r (.holding k todo)
  | release {k todo} : StopNext (.holding k todo) (.reset k) () (.releasing todo)
  | promise : StopNext (.releasing []) .setPromise () .ended

/-- Phases of `main`, up to `gone`, and of the callback. -/
inductive LifePhase where
  | boot
  | named
  | starting (stored : Bool) (made : List Component)
  | waiting
  | failed (place : StopAt)
  | leaving (code : Int32)
  | destroying (code : Int32) (place : StopAt)
  | quitting (code : Int32)
  | gone
  | arrived
  | checking
  | answering (place : StopAt)

/-- Effects of a start that change nothing here. -/
def LifeEffect.isQuiet : LifeEffect → Bool
  | .createDlqDirectory _ => true
  | .utcNow => true
  | _ => false

inductive LifeNext : LifePhase → (x : LifeEffect ⊕ Pause) → Sum.elim LifeResponse PauseResponse x →
    LifePhase → Prop
  | register : LifeNext .boot (.inl .registerSignal) () .named
  | makeWorker : LifeNext .named (.inl .makeWorker) () (.starting false [])
  | store : LifeNext (.starting false []) (.inl .storeRunning) () (.starting true [])
  | quiet {stored made e r} : e.isQuiet = true →
      LifeNext (.starting stored made) (.inl e) r (.starting stored made)
  | pause {stored made p r} : LifeNext (.starting stored made) (.inr p) r (.starting stored made)
  | make {made construction} : LifeNext (.starting true made) (.inl (.make construction)) ()
      (.starting true (construction.component :: made))
  | use {made e r k} : e.uses = some k → k ∈ made →
      LifeNext (.starting true made) (.inl e) r (.starting true made)
  | started {made} : LifeNext (.starting true made) (.inl .logStarted) () .waiting
  | wait : LifeNext .waiting (.inl .waitPromise) () (.leaving 0)
  | fail {stored made e r place} : StopNext .exchange e r place →
      LifeNext (.starting stored made) (.inl e) r (.failed place)
  | failed {place e r place'} : StopNext place e r place' →
      LifeNext (.failed place) (.inl e) r (.failed place')
  | leaveFailed : LifeNext (.failed .ended) (.inl .resetWorker) () (.destroying 1 .exchange)
  | leave {code} : LifeNext (.leaving code) (.inl .resetWorker) () (.destroying code .exchange)
  | destroying {code place e r place'} : StopNext place e r place' →
      LifeNext (.destroying code place) (.inl e) r (.destroying code place')
  | destroyed {code} : LifeNext (.destroying code .ended) (.inl .destroyWorker) () (.quitting code)
  | deregister {code} : LifeNext (.quitting code) (.inl .deregisterSignal) () (.quitting code)
  | exit {code} : LifeNext (.quitting code) (.inl (.exit code)) () .gone
  | arrive : LifeNext .arrived (.inl .deregisterSignal) () .checking
  | answer : LifeNext .checking (.inl .hasWorker) true (.answering .exchange)
  | ignore : LifeNext .checking (.inl .hasWorker) false (.answering .ended)
  | answering {place e r place'} : StopNext place e r place' →
      LifeNext (.answering place) (.inl e) r (.answering place')

def LifePhase.isFinal : LifePhase → Prop
  | .gone => True
  | .answering .ended => True
  | _ => False

section Follows

variable {α : Type} {post : α → LifePhase → Prop}

theorem follows_life {e : LifeEffect} {f : LifeResponse e → Life α} {φ : LifePhase}
    (h : ∀ r : LifeResponse e, ∃ φ', LifeNext φ (.inl e) r φ' ∧ (f r).Follows LifeNext post φ') :
    (life e >>= f).Follows LifeNext post φ := h

/-- A phase in which a call of `stop` may stand. -/
def CarriesStop (at' : StopAt → LifePhase) : Prop :=
  ∀ {place e r place'}, StopNext place e r place' → LifeNext (at' place) (.inl e) r (at' place')

variable {at' : StopAt → LifePhase}

/-- One member, from the check to the next member. -/
theorem releaseIfSet_follows (hat : CarriesStop at') {k : Component} {todo : List Component}
    {before : Life Unit} {f : Unit → Life α}
    (hbefore : before.Follows LifeNext (fun _ φ => φ = at' (.holding k todo))
      (at' (.holding k todo)))
    (hf : (f ()).Follows LifeNext post (at' (.releasing todo))) :
    (releaseIfSet k before >>= f).Follows LifeNext post (at' (.releasing (k :: todo))) := by
  rw [Prog.follows_bind]
  rintro (_ | _)
  · exact ⟨_, hat .missing, hf⟩
  · refine ⟨_, hat .found, ?_⟩
    refine (Prog.follows_bind before _ _ _).mpr (hbefore.mono ?_)
    rintro ⟨⟩ φ rfl
    exact fun _ => ⟨_, hat .release, hf⟩

theorem use_follows (hat : CarriesStop at') {e : LifeEffect} {k : Component} {todo : List Component}
    (huses : e.uses = some k) :
    (life e).Follows LifeNext (fun _ φ => φ = at' (.holding k todo)) (at' (.holding k todo)) :=
  fun _ => ⟨_, hat (.use huses), rfl⟩

/-- `stop` from the exchange on. -/
theorem stop_follows_from {φ : LifePhase} (hat : CarriesStop at')
    (hentry : ∀ {e r place}, StopNext .exchange e r place → LifeNext φ (.inl e) r (at' place))
    {f : Unit → Life α} (hf : (f ()).Follows LifeNext post (at' .ended)) :
    (stop >>= f).Follows LifeNext post φ := by
  rw [Prog.follows_bind]
  rintro (_ | _)
  · exact ⟨_, hentry .lost, hf⟩
  refine ⟨_, hentry .won, ?_⟩
  refine releaseIfSet_follows hat (k := .consumer) ?_ ?_
  · rw [Prog.follows_bind]
    refine (use_follows hat rfl).mono ?_
    rintro _ φ rfl
    exact use_follows hat rfl
  refine fun _ => ⟨_, hat .drop, fun _ => ⟨_, hat .drop, ?_⟩⟩
  refine releaseIfSet_follows hat (k := .pool) (use_follows hat rfl) ?_
  refine releaseIfSet_follows hat (k := .redis) (use_follows hat rfl) ?_
  exact fun _ => ⟨_, hat .promise, hf⟩

theorem signalCallback_follows :
    signalCallback.Follows LifeNext (fun _ φ => φ.isFinal) .arrived := by
  refine follows_life fun _ => ⟨_, .arrive, ?_⟩
  rintro (_ | _)
  · exact ⟨_, .ignore, trivial⟩
  refine ⟨_, .answer, ?_⟩
  have hstop : (stop >>= pure).Follows LifeNext (fun _ φ => φ.isFinal) (.answering .exchange) :=
    stop_follows_from .answering .answering trivial
  rwa [bind_pure] at hstop

theorem endProcess_follows {code : Int32} {φ : LifePhase}
    (h : LifeNext φ (.inl .resetWorker) () (.destroying code .exchange)) :
    (endProcess code).Follows LifeNext (fun _ φ => φ.isFinal) φ := by
  refine follows_life fun _ => ⟨_, h, ?_⟩
  refine stop_follows_from .destroying .destroying ?_
  exact fun _ => ⟨_, .destroyed, fun _ => ⟨_, .deregister, fun _ => ⟨_, .exit, trivial⟩⟩⟩

/-! ### The start -/

/-- A stage of the start: it leaves these members behind, with or without an error. -/
def Makes (made made' : List Component) (stage : Life (Except Bytes Unit)) : Prop :=
  stage.Follows LifeNext (fun _ φ => φ = .starting true made') (.starting true made)

variable {made made' : List Component}

theorem makes_use {e : LifeEffect} {f : LifeResponse e → Life (Except Bytes Unit)}
    {k : Component} (huses : e.uses = some k) (hk : k ∈ made) (hf : ∀ r, Makes made made' (f r)) :
    Makes made made' (life e >>= f) :=
  fun r => ⟨_, .use huses hk, hf r⟩

theorem makes_make {construction : Construction}
    {f : Unit → Life (Except Bytes Unit)}
    (hf : Makes (construction.component :: made) made' (f ())) :
    Makes made made' (life (.make construction) >>= f) :=
  fun _ => ⟨_, .make, hf⟩

theorem makes_sleepBackoff {attempt base maximum : Int32} {f : Unit → Life (Except Bytes Unit)}
    (hf : Makes made made' (f ())) :
    Makes made made' (sleepBackoff attempt base maximum >>= f) :=
  fun _ => ⟨_, .pause, fun _ => ⟨_, .pause, hf⟩⟩

theorem makes_pure (result : Except Bytes Unit) : Makes made made (pure result) := rfl

theorem createThreadPool_makes (c : FullConfigurations) :
    Makes [] [.pool] (createThreadPool c) :=
  makes_make fun _ => ⟨_, .use rfl (List.mem_singleton_self _), rfl⟩

theorem connectAttempts_makes (hredis : .redis ∈ made) (attempts : Nat) (lastError : Bytes) :
    Makes made made (connectAttempts attempts lastError) := by
  induction attempts generalizing lastError with
  | zero => exact makes_pure _
  | succ attempts ih =>
    refine makes_use rfl hredis ?_
    rintro (error | ⟨⟩)
    · exact makes_sleepBackoff (ih error)
    refine makes_use rfl hredis ?_
    rintro (error | ⟨⟩)
    · exact makes_sleepBackoff (ih error)
    · exact makes_pure _

theorem connectRedis_makes (c : FullConfigurations) :
    Makes made (.redis :: made) (connectRedis c) :=
  makes_make (connectAttempts_makes List.mem_cons_self _ _)

theorem publishTaskCatalog_makes (codec : JsonCodec) (c : FullConfigurations)
    (hredis : .redis ∈ made) : Makes made made (publishTaskCatalog codec c) :=
  fun _ => ⟨_, .quiet rfl, fun _ => ⟨_, .use rfl hredis, rfl⟩⟩

theorem connectAwsService_makes (c : FullConfigurations) :
    Makes made (.consumer :: .publisher :: .s3 :: made) (connectAwsService c) := by
  refine makes_make (makes_make (makes_make ?_))
  refine makes_use rfl List.mem_cons_self ?_
  rintro (error | ⟨⟩)
  · exact makes_pure _
  refine makes_use rfl List.mem_cons_self ?_
  rintro (error | ⟨⟩)
  · exact makes_pure _
  · exact fun _ => ⟨_, .use rfl List.mem_cons_self, rfl⟩

/-- Where `start` ends. -/
def StartEnds : Except Bytes Unit → LifePhase → Prop
  | .ok (), φ => φ = .waiting
  | .error _, φ => ∃ stored made, φ = .starting stored made

theorem orReport_follows {heading : Bytes} {stage next : Life (Except Bytes Unit)}
    (hstage : Makes made made' stage)
    (hnext : next.Follows LifeNext StartEnds (.starting true made')) :
    (orReport heading stage next).Follows LifeNext StartEnds (.starting true made) := by
  refine (Prog.follows_bind stage _ _ _).mpr (Prog.Follows.mono hstage ?_)
  rintro (error | ⟨⟩) φ rfl
  · exact ⟨_, _, rfl⟩
  · exact hnext

theorem start_follows (codec : JsonCodec) (c : FullConfigurations) :
    (start codec c).Follows LifeNext StartEnds (.starting false []) := by
  unfold start
  cases validateRequired c with
  | error error => exact ⟨false, [], rfl⟩
  | ok =>
    refine follows_life fun _ => ⟨_, .store, fun _ => ⟨_, .quiet rfl, ?_⟩⟩
    refine orReport_follows (createThreadPool_makes c) ?_
    refine orReport_follows (connectRedis_makes c) ?_
    refine orReport_follows (publishTaskCatalog_makes codec c List.mem_cons_self) ?_
    refine orReport_follows (connectAwsService_makes c) ?_
    refine orReport_follows (fun _ => ⟨_, .use rfl (by decide), rfl⟩) ?_
    exact fun _ => ⟨_, .started, rfl⟩

theorem mainProgram_follows (codec : JsonCodec) (c : FullConfigurations) :
    (mainProgram codec c).Follows LifeNext (fun _ φ => φ.isFinal) .boot := by
  refine follows_life fun _ => ⟨_, .register, fun _ => ⟨_, .makeWorker, ?_⟩⟩
  refine (Prog.follows_bind (start codec c) _ _ _).mpr ((start_follows codec c).mono ?_)
  rintro (error | ⟨⟩) φ hends
  · obtain ⟨stored, made, rfl⟩ := hends
    exact stop_follows_from .failed .fail (endProcess_follows .leaveFailed)
  · obtain rfl := hends
    exact fun _ => ⟨_, .wait, endProcess_follows .leave⟩

end Follows

end TaskForge
