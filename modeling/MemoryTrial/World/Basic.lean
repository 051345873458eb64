import MemoryTrial.Allocator

/-! The state of a process, as one thread at a time sees it: the instances of allocators and the
registry that caches them, the exit hooks, the fixture and the active replay of the running thread,
and a journal of what happened.  Kinds of allocators are named by `κ`, exit hooks by `η`, and `σ` is
the state of the client. -/

namespace MemoryTrial

/-- An instance of an allocator, by its number in the order of creation. -/
structure Handle where
  number : Nat
  deriving DecidableEq

/-- A block that an instance keeps on another one. -/
structure Holding where
  owner : Handle
  /-- There is no block when the owner refused it. -/
  block : Option Ptr
  deriving DecidableEq

structure Instance (κ : Type) where
  kind : κ
  /-- The name under which a registry caches it. -/
  id : KindId
  name : String
  /-- The allocator; `none` once the instance was destroyed. -/
  state : Option Allocator
  /-- Whether a payload of the instance is in use. -/
  busy : Bool
  /-- What the instance keeps on others until its teardown. -/
  holdings : List Holding
  /-- The instances that were looked up while this one was created, the last one first. -/
  sources : List Handle
  /-- Whether the instance was built by a look-up, which caches it. -/
  shared : Bool

/-- Which allocator memory calls of a thread go to. -/
structure Fixture (κ : Type) where
  name : String
  kind : κ
  deriving DecidableEq

/-- What can be registered to run at the exit of the process. -/
inductive Hook (η : Type)
  | teardown
  | client (hook : η)
  deriving DecidableEq

structure HookEntry (η : Type) where
  hook : Hook η
  priority : Int

/-- Something that happened to the exit hooks.  This is not written anywhere. -/
inductive HookEvent (η : Type)
  /-- Somebody registered a hook, which was not in the table if it is `fresh`. -/
  | registered (entry : HookEntry η) (fresh : Bool)
  /-- All hooks were taken out of the table, to run. -/
  | emptied
  | started (entry : HookEntry η)

/-- The table of exit hooks. -/
structure HookTable (η : Type) where
  /-- The hooks in the order in which they will run. -/
  entries : List (HookEntry η)
  /-- What happened so far, the last event first. -/
  past : List (HookEvent η)

def HookTable.empty {η : Type} : HookTable η := ⟨[], []⟩

def HookTable.note {η : Type} (table : HookTable η) (event : HookEvent η) : HookTable η :=
  { table with past := event :: table.past }

/-- The priority of the teardown of the registry. -/
def allocatorExitPriority : Int := 20

/-- The priority at which thread-local storage is cleaned up: before allocators. -/
def threadStorageExitPriority : Int := 30

/-- Something that happened. -/
inductive Entry
  | record (r : Record)
  | event (text : String)
  /-- The teardown of an instance began.  This is not written anywhere, nor is what follows. -/
  | tornDown (h : Handle)
  /-- The teardown of an instance is over. -/
  | closed (h : Handle)
  /-- A request came to an instance after its teardown had begun. -/
  | denied (h : Handle)
  deriving DecidableEq

/-- Something that a process is doing.  This is not written anywhere. -/
inductive Task (κ : Type)
  | lookUp (k : κ)
  /-- The creation of an instance that is not cached. -/
  | build (k : κ)
  | teardown (h : Handle) (k : κ)
  deriving DecidableEq

/-- What a process is doing, and what it was doing before. -/
structure Tasks (κ : Type) where
  /-- The tasks that are under way, each inside the next one. -/
  active : List (Task κ)
  /-- What was under way at the beginning of each task, which comes first.  The last one that was begun
  comes first. -/
  begun : List (List (Task κ))

def Tasks.empty {κ : Type} : Tasks κ := ⟨[], []⟩

/-- The state of a process. -/
structure World (κ η σ : Type) where
  instances : Array (Instance κ)
  /-- The cached instances by the ids of their kinds, oldest first. -/
  cache : List (KindId × Handle)
  /-- The handles that the running creation has looked up so far, the last one first. -/
  obtained : List Handle
  tasks : Tasks κ
  hooks : HookTable η
  /-- Whether the teardown of the registry has been registered as an exit hook. -/
  teardownHooked : Bool
  /-- The frame of the replay that is active on the thread. -/
  frame : Option Frame
  fixture : Fixture κ
  /-- Allocators that the client owns and shares with nobody. -/
  owned : Array Allocator
  client : σ
  journal : Array Entry

/-- Why a computation did not return. -/
inductive Halt
  /-- A panic unwound it. -/
  | unwound (p : Panic)
  /-- It would have gone on for ever. -/
  | endless

/-- A computation on the state of a process.  When it does not return, the state is the one at that
point. -/
abbrev Run (κ η σ : Type) := EStateM Halt (World κ η σ)

namespace Run

variable {κ η σ α β : Type}

def note (entries : List Entry) : Run κ η σ Unit :=
  modify fun w => { w with journal := entries.foldl Array.push w.journal }

def log (r : Record) : Run κ η σ Unit := note [.record r]

/-- Unwinds; a violation is reported first. -/
def raise (p : Panic) : Run κ η σ α := do
  note (p.records.map .record)
  throw (.unwound p)

def fatal (v : Violation) : Run κ η σ α := raise (.violation v)

/-- Does `x`, and then `cleanUp` however `x` ends. -/
def ensuring (x : Run κ η σ α) (cleanUp : World κ η σ → World κ η σ) : Run κ η σ α := fun w =>
  match x w with
  | .ok a w => .ok a (cleanUp w)
  | .error e w => .error e (cleanUp w)

/-- Does `x`, and answers with the panic if it is unwound. -/
def attempt (x : Run κ η σ α) : Run κ η σ (Except Panic α) := fun w =>
  match x w with
  | .ok a w => .ok (.ok a) w
  | .error (.unwound p) w => .ok (.error p) w
  | .error .endless w => .error .endless w

/-- Does an operation on the part of the state that `extract` reads and `insert` puts back. -/
def onPart {τ : Type} (extract : World κ η σ → τ) (insert : τ → World κ η σ → World κ η σ)
    (x : Op τ α) : Run κ η σ α := fun w =>
  match x (extract w) with
  | ⟨value, t, records⟩ =>
    let w := insert t w
    let w := { w with journal := (records.map Entry.record).foldl Array.push w.journal }
    match value with
    | .ok a => .ok a w
    | .error p => .error (.unwound p) w

/-- Does an operation that needs no part of the state. -/
def compute (x : Op Unit α) : Run κ η σ α := onPart (fun _ => ()) (fun _ w => w) x

/-- Passes a checkpoint of the active replay. -/
def checkpoint : Run κ η σ Bool :=
  onPart (fun w => w.frame) (fun frame w => { w with frame }) MemoryTrial.checkpoint

end Run

end MemoryTrial
