import MemoryTrial.Script.Answer
import MemoryTrial.Script.Trace
import MemoryTrial.Replay.Loop
import MemoryTrial.Op

/-! Scripts for a failure pattern: one frame that is worked on, and a second one to compare with. -/

namespace MemoryTrial.Script

inductive FrameStep
  | reset
  /-- Passes so many checkpoints. -/
  | checkpoints (count : Nat)
  /-- Passes checkpoints until one fails, at most so many. -/
  | untilFailure (limit : Nat)
  /-- So many rounds, each from reset until a failure, and then on to the next pattern. -/
  | walk (count limit : Nat)
  /-- All runs of a test with so many checkpoints. -/
  | enumerate (count : Nat)
  | advance
  | willFail (i : Nat)
  /-- Which of all checkpoints fail. -/
  | armed
  | save
  | load
  /-- Whether the two frames are equal. -/
  | compare
  deriving DecidableEq

/-- The frame that a script works on, and the saved one. -/
structure FrameBench where
  frame : Frame
  saved : Frame

namespace FrameBench

def fresh : FrameBench := ⟨Frame.fresh, Frame.fresh⟩

/-- Letters by their runs. -/
def letters (outcomes : List Bool) : Answer :=
  .text (Text.runLength (fun fails => String.singleton (TraceText.letter fails)) outcomes)

def pass : Op FrameBench Bool := fun b =>
  match b.frame.checkpoint with
  | .ok (fails, frame) => ⟨.ok fails, { b with frame }, []⟩
  | .error p => Op.raise p b

/-- Passes so many checkpoints, and answers which of them fail. -/
def passMany : Nat → Op FrameBench (List Bool)
  | 0 => return []
  | count + 1 => do
    let fails ← pass
    let rest ← passMany count
    return fails :: rest

/-- Passes at most `limit` checkpoints up to one that fails, and answers how many do not, counted
from `passed`. -/
def passUntil (passed : Nat) : (limit : Nat) → Op FrameBench (Option Nat)
  | 0 => return none
  | limit + 1 => do
    if ← pass then return some passed
    else passUntil (passed + 1) limit

def reset : Op FrameBench Unit := Op.modify fun b => { b with frame := b.frame.reset }

/-- Moves on to the next pattern, if there is one. -/
def advance : Op FrameBench Bool := fun b =>
  match b.frame.advance with
  | (moved, frame) => ⟨.ok moved, { b with frame }, []⟩

def walkRound (limit : Nat) : Op FrameBench Answer := do
  reset
  let hit ← passUntil 0 limit
  let advanced ← advance
  let hitAnswer : Answer := match hit with
    | some n => .number n
    | none => .null
  return .list [hitAnswer, .flag advanced]

def walk (limit : Nat) : (count : Nat) → Op FrameBench (List Answer)
  | 0 => return []
  | count + 1 => do
    let answer ← walkRound limit
    let answers ← walk limit count
    return answer :: answers

/-- Bytes of a letter in memory. -/
def letterSize : Nat := 4

/-- One run of an enumeration: so many checkpoints, whose letters are written down.  There must be
memory for the letters before the first checkpoint. -/
def enumerateRun (count : Nat) (frame : Frame) :
    Op (FrameBench × List String) (Bool × Frame) := do
  Op.modify fun s => ({ s.1 with frame }, s.2)
  reserve (letterSize * count)
  let outcomes ← Op.focus Prod.fst (fun b s => (b, s.2)) (passMany count)
  Op.modify fun s => (s.1, String.ofList (outcomes.map TraceText.letter) :: s.2)
  let left ← Op.read fun s => s.1.frame
  return (true, left)

/-- The letters of all runs from the current pattern on. -/
def enumerate (count : Nat) : Op FrameBench (List String) := fun b =>
  match b.frame.replayFrom (enumerateRun count) (fun _ => pure ()) 0 (b, []) with
  | ⟨value, (b, runs), records⟩ => ⟨value.map fun _ => runs.reverse, b, records⟩

def step : FrameStep → Op FrameBench Answer
  | .reset => do
    reset
    return .null
  | .checkpoints count => letters <$> passMany count
  | .untilFailure limit => do
    match ← passUntil 0 limit with
    | some n => return .number n
    | none => return .null
  | .walk count limit => do
    let answers ← walk limit count
    return .list answers
  | .enumerate count => do
    let runs ← enumerate count
    return .list (runs.map .text)
  | .advance => do
    let advanced ← advance
    return .flag advanced
  | .willFail i => Op.read fun b => .flag (b.frame.willFail i)
  | .armed => Op.read fun b => letters ((List.range maxCheckpoints).map b.frame.willFail)
  | .save => do
    Op.modify fun b => { b with saved := b.frame }
    return .null
  | .load => do
    Op.modify fun b => { b with frame := b.saved }
    return .null
  | .compare => Op.read fun b => .flag (b.frame = b.saved)

/-- What a step shows: its answer, the frame after it, and the records of the step. -/
structure Report where
  answer : Answer
  triggered : Bool
  count : Nat
  records : List Record

/-- Does the steps of a script one after the other. -/
def report : List FrameStep → FrameBench → List Report
  | [], _ => []
  | s :: steps, bench =>
    let r := step s bench
    ⟨.ofExcept r.value, r.state.frame.triggered, r.state.frame.count, r.records⟩ ::
      report steps r.state

end FrameBench

end MemoryTrial.Script
