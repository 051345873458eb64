import MemoryTrial.World.Basic
import MemoryTrial.Replay.Loop

/-! Client programs.  A program is a tree: at each node it calls the toolkit and goes on with the
answer.  Besides single calls there are five constructs with programs inside them, which end however
the inner program ends: replays, caught panics, fixture scopes, uses of a payload, and threads. -/

namespace MemoryTrial

/-- A call to the toolkit, with the type of its answer. -/
inductive Call (κ η σ : Type) : Type → Type 1
  | get : Call κ η σ σ
  | set (s : σ) : Call κ η σ Unit
  | say (text : String) : Call κ η σ Unit
  /-- The journal from an index on. -/
  | journal (start : Nat) : Call κ η σ (List Entry)
  /-- Something that depends on no shared state. -/
  | compute {β : Type} (x : Op Unit β) : Call κ η σ β
  /-- Passes a checkpoint, and answers whether it fails. -/
  | checkpoint : Call κ η σ Bool
  /-- Whether a replay is active on the thread. -/
  | isReplayActive : Call κ η σ Bool
  /-- The cached instance of a kind, created on first use. -/
  | lookUp (k : κ) : Call κ η σ (Except ConfigError Handle)
  /-- A new instance of a kind that is not cached. -/
  | build (k : κ) : Call κ η σ (Except ConfigError Handle)
  | delete (h : Option Handle) : Call κ η σ Unit
  /-- Destroys all cached instances, newest first. -/
  | teardown : Call κ η σ Unit
  /-- The ids of the cached instances, oldest first. -/
  | kinds : Call κ η σ (List KindId)
  | use {β : Type} (h : Handle) (r : Request β) : Call κ η σ β
  | isDestroyed (h : Handle) : Call κ η σ Bool
  /-- The id and the diagnostic name of an instance. -/
  | describe (h : Handle) : Call κ η σ (KindId × String)
  | setFixture (f : Fixture κ) : Call κ η σ Unit
  | fixture : Call κ η σ (Fixture κ)
  /-- Takes an allocator that nobody else has; the answer is its number. -/
  | own (a : Allocator) : Call κ η σ Nat
  | useOwned {β : Type} (i : Nat) (r : Request β) : Call κ η σ β
  | tearDownOwned (i : Nat) : Call κ η σ Unit
  /-- Something about an owned allocator. -/
  | readOwned {β : Type} (i : Nat) (f : Allocator → β) : Call κ η σ β
  /-- Registers an exit hook, and answers whether it was not there. -/
  | register (hook : η) (priority : Int) : Call κ η σ Bool
  | runHooks : Call κ η σ Unit

/-- A program with an answer of type `α`. -/
inductive Client (κ η σ : Type) : Type → Type 1
  | pure {α : Type} (a : α) : Client κ η σ α
  | call {α β : Type} (c : Call κ η σ β) (next : β → Client κ η σ α) : Client κ η σ α
  /-- Repeats `body` until a run has no failing checkpoint. -/
  | replay {α : Type} (body : Client κ η σ Bool) (next : Outcome → Client κ η σ α) :
      Client κ η σ α
  /-- Catches a panic of `body`. -/
  | attempt {α β : Type} (body : Client κ η σ β) (next : Except Panic β → Client κ η σ α) :
      Client κ η σ α
  /-- Selects a fixture until `body` ends. -/
  | scope {α β : Type} (f : Fixture κ) (body : Client κ η σ β) (next : β → Client κ η σ α) :
      Client κ η σ α
  /-- Uses the bytes of the block `p` of an instance: changes them by `edit`, and then goes on
  inside the use with the bytes that were there. -/
  | within {α β : Type} (h : Handle) (p : Ptr) (edit : ByteArray → ByteArray)
      (body : ByteArray → Client κ η σ β) (next : β → Client κ η σ α) : Client κ η σ α
  /-- Does `body` on a thread of its own, which starts with the fixture of this one if it inherits
  it, and waits for its end.  The thread runs in place.  Inside the use of a payload it would wait for
  the critical section of this one, which waits for it: such a program is given a meaning here that it
  does not have in a process. -/
  | thread {α β : Type} (inherits : Bool) (body : Client κ η σ β)
      (next : Except Panic β → Client κ η σ α) : Client κ η σ α

namespace Client

variable {κ η σ α β : Type}

protected def bind {α β : Type} : Client κ η σ α → (α → Client κ η σ β) → Client κ η σ β
  | .pure a, f => f a
  | .call c next, f => .call c fun b => (next b).bind f
  | .replay body next, f => .replay body fun o => (next o).bind f
  | .attempt body next, f => .attempt body fun r => (next r).bind f
  | .scope g body next, f => .scope g body fun b => (next b).bind f
  | .within h p edit body next, f => .within h p edit body fun b => (next b).bind f
  | .thread inherits body next, f => .thread inherits body fun r => (next r).bind f

instance : Monad (Client κ η σ) where
  pure := .pure
  bind := Client.bind

def ask (c : Call κ η σ α) : Client κ η σ α := .call c .pure

def state : Client κ η σ σ := ask .get

def modify (f : σ → σ) : Client κ η σ Unit := do
  let s ← state
  ask (.set (f s))

def raise (p : Panic) : Client κ η σ α := ask (.compute (Op.raise p))

/-- A replay as a program of its own. -/
def replayed (body : Client κ η σ Bool) : Client κ η σ Outcome := .replay body .pure

def caught (body : Client κ η σ α) : Client κ η σ (Except Panic α) := .attempt body .pure

def under (f : Fixture κ) (body : Client κ η σ α) : Client κ η σ α := .scope f body .pure

/-- A program on a thread of its own. -/
def onThread (inherits : Bool) (body : Client κ η σ α) : Client κ η σ (Except Panic α) :=
  .thread inherits body .pure

end Client

/-- An allocator of a kind, as its creation leaves it. -/
structure Built where
  allocator : Allocator
  holdings : List Holding

/-- A kind of allocators: how its instances are created, and what they do in their teardown before
the memory of the allocator itself goes. -/
structure Kind (κ η σ : Type) where
  id : KindId
  name : String
  create : Client κ η σ (Except ConfigError Built)
  close : List Holding → Client κ η σ Unit

/-- What the names of a program stand for. -/
structure Environment (κ η σ : Type) where
  kind : κ → Kind κ η σ
  hook : η → Client κ η σ Unit
  production : Fixture κ

end MemoryTrial
