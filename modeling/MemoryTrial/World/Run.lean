import MemoryTrial.World.Registry

/-! Running client programs. -/

namespace MemoryTrial

variable {κ η σ : Type}

/-- An operation on an owned allocator.  It leaves its place in the meantime, so that its memory is
changed in place. -/
def Run.onOwned {β : Type} (i : Nat) (x : Op (Allocator × Option Frame) β) : Run κ η σ β := do
  match (← get).owned[i]? with
  | none => Run.raise (.outOfRange (← get).owned.size i)
  | some a =>
    modify fun w => { w with owned := w.owned.setIfInBounds i .empty }
    Run.onPart (fun w => (a, w.frame))
      (fun s w => { w with owned := w.owned.setIfInBounds i s.1, frame := s.2 }) x

variable [DecidableEq η]

/-- The answer of a call, in an environment.  `bound` limits the loops that calls start. -/
def Call.run (env : Environment κ η σ) (nested : Nested κ η σ) (bound : Nat) {β : Type} :
    Call κ η σ β → Run κ η σ β
  | .get => return (← MonadState.get).client
  | .set s => modify fun w => { w with client := s }
  | .say text => Run.note [.event text]
  | .journal start => do
    let w ← MonadState.get
    return (w.journal.extract start w.journal.size).toList
  | .compute x => Run.compute x
  | .checkpoint => Run.checkpoint
  | .isReplayActive => return (← MonadState.get).frame.isSome
  | .lookUp k => Run.during (.lookUp k) (Run.lookUp env nested k)
  | .build k => Run.during (.build k) (Run.build env nested k)
  | .delete h => Run.delete env nested h
  | .teardown => do
    Run.reachRegistry
    Run.drainCache env nested bound
  | .kinds => Run.kinds
  | .use h r => Run.use h r
  | .isDestroyed h => Run.isDestroyed h
  | .describe h => do
    let inst ← Run.instanceOf h
    return (inst.id, inst.name)
  | .setFixture f => do
    Run.log (.fixtureSelected f.name)
    modify fun w => { w with fixture := f }
  | .fixture => return (← MonadState.get).fixture
  | .own a => do
    let i := (← MonadState.get).owned.size
    modify fun w => { w with owned := w.owned.push a }
    return i
  | .useOwned i r => Run.onOwned i (Allocator.perform r)
  | .tearDownOwned i => Run.onOwned i fun s =>
    match s.1.teardown with
    | ⟨value, a, records⟩ => ⟨value, (a, s.2), records⟩
  | .readOwned i f => Run.onOwned i (Op.read fun s => f s.1)
  | .register hook priority => Run.register (.client hook) priority
  | .runHooks => Run.drainHooks env nested bound bound

/-- One run of a replay: does `body` while a frame is active, and answers also with the frame that
is left. -/
def Run.underFrame (body : Run κ η σ Bool) (frame : Frame) : Run κ η σ (Bool × Frame) := do
  modify fun w => { w with frame := some frame }
  let result ← body
  return (result, (← get).frame.getD frame.reset)

/-- Replays `body`.  Afterwards the frame that was active before is active again. -/
def Run.replay (body : Run κ η σ Bool) : Run κ η σ Outcome := do
  let outer := (← get).frame
  let loop : Run κ η σ Outcome := do
    match ← Frame.replay (Run.underFrame body) Run.log with
    | some outcome => return outcome
    | none => throw .endless
  Run.ensuring loop fun w => { w with frame := outer }

/-- Does `body` under a fixture.  Afterwards the fixture that was selected before is selected
again. -/
def Run.scope {β : Type} (f : Fixture κ) (body : Run κ η σ β) : Run κ η σ β := do
  let outer := (← get).fixture
  Run.log (.fixtureSelected f.name)
  modify fun w => { w with fixture := f }
  Run.ensuring body fun w => { w with fixture := outer }

/-- Does `body` on a thread of its own: no replay is active there, and its fixture is `fixture`. -/
def Run.thread {β : Type} (fixture : Fixture κ) (body : Run κ η σ β) :
    Run κ η σ (Except Panic β) := do
  let w ← get
  set { w with frame := none, fixture }
  Run.ensuring (Run.attempt body) fun w' => { w' with frame := w.frame, fixture := w.fixture }

/-- Runs a program; `nested` runs the programs inside its calls. -/
def Client.runWith (env : Environment κ η σ) (nested : Nested κ η σ) (bound : Nat) {α : Type} :
    Client κ η σ α → Run κ η σ α
  | .pure a => return a
  | .call c next => do (next (← c.run env nested bound)).runWith env nested bound
  | .replay body next => do
    (next (← Run.replay (body.runWith env nested bound))).runWith env nested bound
  | .attempt body next => do
    (next (← Run.attempt (body.runWith env nested bound))).runWith env nested bound
  | .scope f body next => do
    (next (← Run.scope f (body.runWith env nested bound))).runWith env nested bound
  | .within h p edit body next => do
    let b ← Run.within h p edit fun bytes => (body bytes).runWith env nested bound
    (next b).runWith env nested bound
  | .thread inherits body next => do
    let w ← get
    let fixture := if inherits then w.fixture else env.production
    (next (← Run.thread fixture (body.runWith env nested bound))).runWith env nested bound

/-- Runs a program in which calls run programs at most `depth` deep. -/
def Client.runTo (env : Environment κ η σ) (bound : Nat) {α : Type} :
    (depth : Nat) → Client κ η σ α → Run κ η σ α
  | 0, c => c.runWith env (fun _ => throw .endless) bound
  | depth + 1, c => c.runWith env (fun d => d.runTo env bound depth) bound

/-- How deep calls nest, and how long the loops in them are, before a program counts as endless. -/
def runLimit : Nat := 1000000

def Client.run (env : Environment κ η σ) {α : Type} (c : Client κ η σ α) : Run κ η σ α :=
  c.runTo env runLimit runLimit

/-- A process at its start: nothing exists yet.  `hooked` says that the registry will not register
its teardown. -/
def World.start (production : Fixture κ) (hooked : Bool) (client : σ) : World κ η σ :=
  { instances := #[], cache := [], obtained := [], tasks := .empty, hooks := .empty,
    teardownHooked := hooked, frame := none, fixture := production, owned := #[], client,
    journal := #[] }

end MemoryTrial
