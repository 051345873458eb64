import MemoryTrial.Heap.Basic
import MemoryTrial.Replay.Frame

/-! Checkpoints before requests.  The state of an operation with checkpoints has two parts: what it
works on, and the frame of the replay that is active on the thread, if there is one. -/

namespace MemoryTrial

/-- Passes a checkpoint of the active replay, and answers whether it fails.  Without a replay
nothing fails. -/
def checkpoint : Op (Option Frame) Bool := fun active =>
  match active with
  | none => ⟨.ok false, none, []⟩
  | some frame =>
    match frame.checkpoint with
    | .ok (fails, next) => ⟨.ok fails, some next, []⟩
    | .error p => Op.raise p (some frame)

/-- A system heap whose requests fail where the active replay says so. -/
structure FaultyHeap where
  heap : Heap
  /-- The requests that a replay refused.  As with the runs of a replay (`Outcome.runs`), the word that
  counts them is taken to be large enough. -/
  forced : Nat

namespace FaultyHeap

def empty : FaultyHeap := ⟨Heap.empty, 0⟩

def live (f : FaultyHeap) : Nat := f.heap.live

def onHeap {α : Type} (x : Op Heap α) : Op (FaultyHeap × Option Frame) α := fun s =>
  match s with
  | (⟨heap, forced⟩, active) =>
    match x heap with
    | ⟨value, heap, records⟩ => ⟨value, (⟨heap, forced⟩, active), records⟩

/-- Passes a checkpoint, and does the request only if it does not fail. -/
def guard (name : RequestName) (n : Nat) (request : Op Heap (Option Ptr)) :
    Op (FaultyHeap × Option Frame) (Option Ptr) := do
  let refused ← Op.focus Prod.snd (fun active s => (s.1, active)) checkpoint
  if refused then
    Op.modify fun s => ({ s.1 with forced := s.1.forced + 1 }, s.2)
    Op.log (.forcedFailure name n)
    return none
  else onHeap request

/-- Allocates `n` bytes, unless a checkpoint fails. -/
def grab (n : Nat) : Op (FaultyHeap × Option Frame) (Option Ptr) := guard .grab n (Heap.grab n)

/-- Makes the block `p` hold `n` bytes, unless a checkpoint fails. -/
def resize (p : Ptr) (n : Nat) : Op (FaultyHeap × Option Frame) (Option Ptr) :=
  guard .resize n (Heap.resize p n)

end FaultyHeap

end MemoryTrial
