import MemoryTrial.Allocator
import MemoryTrial.Replay.Loop

/-! Plans: workloads over a table of slots, each of which holds at most one block.  Driving a plan
against an allocator leaves no block behind: what is in the table at the end is released. -/

namespace MemoryTrial

inductive PlanStep
  /-- Releases what is in the slot, and allocates into it. -/
  | grab (slot bytes : Nat)
  /-- Resizes what is in the slot, if there is a block. -/
  | resize (slot bytes : Nat)
  /-- Releases what is in the slot, if there is a block. -/
  | release (slot : Nat)
  deriving DecidableEq

abbrev Plan := List PlanStep

namespace Plan

/-- What a plan is driven against: an allocator, on a thread with an active replay or none. -/
abbrev Ground := Allocator × Option Frame

/-- The blocks of the slots. -/
abbrev Table := Array (Option Ptr)

def slotSize : Nat := 8

/-- An empty table; there is at least one slot. -/
def Table.empty (slots : Nat) : Table := Array.replicate (max slots 1) none

/-- What a slot holds. -/
def lookUp (table : Table) (slot : Nat) : Op Ground (Option Ptr) :=
  match table[slot]? with
  | some held => return held
  | none => Op.raise (.outOfRange table.size slot)

/-- Gives a block back, if there is one. -/
def releaseHeld : Option Ptr → Op Ground Unit
  | some p => Allocator.perform (.release p)
  | none => return ()

/-- Does a step.  The answer is the table after it, and whether a request was refused. -/
def step (table : Table) : PlanStep → Op Ground (Table × Bool)
  | .grab slot bytes => do
    releaseHeld (← lookUp table slot)
    let p ← Allocator.perform (.grab bytes)
    return (table.setIfInBounds slot p, p.isNone)
  | .resize slot bytes => do
    match ← lookUp table slot with
    | none => return (table, false)
    | some old =>
      match ← Allocator.perform (.resize old bytes) with
      | some p => return (table.setIfInBounds slot (some p), false)
      | none => return (table, true)
  | .release slot => do
    releaseHeld (← lookUp table slot)
    return (table.setIfInBounds slot none, false)

/-- Does the steps in order, after `refused` refusals; with `stop` it ends at the first refusal. -/
def steps (stop : Bool) (table : Table) (refused : Nat) : Plan → Op Ground (Table × Nat)
  | [] => return (table, refused)
  | s :: rest => do
    let (table, refusal) ← step table s
    let refused := refused + refusal.toNat
    if stop && refused != 0 then return (table, refused)
    else steps stop table refused rest

/-- The blocks in a table, in the order of the slots. -/
def Table.blocks (table : Table) : List Ptr := (table.filterMap id).toList

def releaseAll : List Ptr → Op Ground Unit
  | [] => return ()
  | p :: rest => do
    Allocator.perform (.release p)
    releaseAll rest

/-- Drives a plan over a table of so many slots, if memory can hold the table.  Then releases what
is left, and answers how many requests were refused. -/
def drive (stop : Bool) (plan : Plan) (slots : Nat) : Op Ground Nat := do
  reserve (slotSize * max slots 1)
  let (table, refused) ← steps stop (Table.empty slots) 0 plan
  releaseAll table.blocks
  return refused

/-- Drives the whole plan, and answers how many requests were refused. -/
def run (plan : Plan) (slots : Nat) : Op Ground Nat := drive false plan slots

/-- Drives the plan up to the first refusal, and answers whether there was none. -/
def tryRun (plan : Plan) (slots : Nat) : Op Ground Bool := do
  let refused ← drive true plan slots
  return refused == 0

/-- Does an operation while a frame is active, and answers also with the frame that it leaves. -/
def underFrame {α : Type} (x : Op Ground α) (frame : Frame) : Op Allocator (α × Frame) :=
  fun allocator =>
    match x (allocator, some frame) with
    | ⟨.ok a, (allocator, active), records⟩ =>
      ⟨.ok (a, active.getD frame), allocator, records⟩
    | ⟨.error p, (allocator, _), records⟩ => ⟨.error p, allocator, records⟩

/-- Replays a plan on an allocator, up to the first refusal in each run. -/
def replay (plan : Plan) (slots : Nat) : Op Allocator (Option Outcome) :=
  Frame.replay (underFrame (tryRun plan slots)) Op.log

end Plan

end MemoryTrial
