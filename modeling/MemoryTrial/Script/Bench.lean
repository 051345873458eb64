import MemoryTrial.Script.Answer
import MemoryTrial.Allocator

/-! A bench: one allocator that a script works on, and what can be seen of its state. -/

namespace MemoryTrial.Script

/-- What allocator a script works on. -/
inductive Target
  /-- An arena over a fresh buffer. -/
  | arena (config : Arena.Config) (kind : Option KindId)
  /-- An arena over a buffer of `count` equal words. -/
  | buffer (count word : Nat) (poison : Bool)
  | heap
  | faulty
  /-- The target as an instance that its kind built, of which nothing is seen but its answers. -/
  | instance (target : Target)

/-- How much is seen of an allocator. -/
inductive View
  | arena
  | heap
  | faulty
  | hidden
  deriving DecidableEq

/-- An allocator under test, and the pointers that the script named. -/
structure Bench where
  allocator : Allocator
  view : View
  vars : Vars

namespace Target

/-- Builds an arena, and names its kind. -/
private def buildArena {σ : Type} (build : Op σ (Except ConfigError Arena))
    (kind : Option KindId) : Op σ (Except ConfigError Bench) := do
  match ← build with
  | .error e => return .error e
  | .ok a =>
    let a := match kind with
      | some kind => a.withKind kind
      | none => a
    return .ok ⟨.arena a, .arena, .empty⟩

def build {σ : Type} : Target → Op σ (Except ConfigError Bench)
  | .arena config kind => buildArena (Arena.ofConfig config) kind
  | .buffer count word poison =>
    match Arena.Buffer.ofWord? count word with
    | none => Op.raise .capacityOverflow
    | some b => buildArena (Arena.ofBuffer b poison) none
  | .heap => return .ok ⟨.heap Heap.empty, .heap, .empty⟩
  | .faulty => return .ok ⟨.faulty FaultyHeap.empty, .faulty, .empty⟩
  | .instance target => do
    match ← target.build with
    | .error e => return .error e
    | .ok bench => return .ok { bench with view := .hidden }

end Target

namespace Bench

/-- A request to the allocator, outside replays. -/
def perform {α : Type} (r : Request α) : Op Bench α := fun ⟨allocator, view, vars⟩ =>
  match Allocator.perform r (allocator, none) with
  | ⟨value, (allocator, _), records⟩ => ⟨value, ⟨allocator, view, vars⟩, records⟩

def teardown : Op Bench Unit := fun ⟨allocator, view, vars⟩ =>
  match allocator.teardown with
  | ⟨value, allocator, records⟩ => ⟨value, ⟨allocator, view, vars⟩, records⟩

/-- The arena, if it may be looked into. -/
def arena? (b : Bench) : Option Arena :=
  match b.view, b.allocator with
  | .arena, .arena a => some a
  | _, _ => none

/-- A node by its size and whether it is handed out. -/
def nodeText (node : Arena.Node) : String :=
  toString node.size ++ if node.allocated then "a" else "f"

def nodesText (nodes : List Arena.Node) : String := " ".intercalate (nodes.map nodeText)

def statsAnswer (s : Arena.Stats) : Answer :=
  .list [.number s.allocatedNodes, .number s.allocatedBytes, .number s.freeNodes,
    .number s.freeBytes]

/-- What is seen of the allocator; `brief` counts the nodes and does not list them. -/
def state (b : Bench) (brief : Bool) : List (String × Answer) :=
  match b.view, b.allocator with
  | .arena, .arena a =>
    let nodes :=
      if brief then a.stats.map statsAnswer else a.nodes.map fun ns => .text (nodesText ns)
    [("cursor", .number a.cursor), ("nodes", .ofExcept nodes)]
  | .heap, .heap h => [("live", .number h.live)]
  | .faulty, .faulty f => [("live", .number f.live), ("forced", .number f.forced)]
  | _, _ => []

end Bench

end MemoryTrial.Script
