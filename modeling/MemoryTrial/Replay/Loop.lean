import MemoryTrial.Replay.Frame
import MemoryTrial.Record

/-! The loop of a replay: a test is run under one failure pattern after the other until a run has no
failing checkpoint. -/

namespace MemoryTrial

structure Outcome where
  /-- The answer of the test in the last run. -/
  result : Bool
  /-- How often the test ran.  It is a word in a process, which no replay lives to fill, so that it is
  not bounded here. -/
  runs : Nat
  /-- The checkpoints that the last run passed. -/
  checkpoints : Nat
  deriving DecidableEq

namespace Frame

variable {m : Type → Type} [Monad m]

/-- The frame after a run that had this pattern, given the frame that the run left. -/
def afterRun (pattern left : Frame) : Frame :=
  { pattern with triggered := left.triggered, count := left.count }

theorem value_afterRun (pattern left : Frame) : (pattern.afterRun left).value = pattern.value :=
  valueTo_congr fun _ _ => rfl

/-- Runs the test from the pattern of `frame` on, after `runs` runs.  `run` does one run under a
frame: it answers with the result of the test and the frame that the run left.  A run that failed
somewhere but left no failing checkpoint to move on from would be repeated for ever; then the answer
is `none`. -/
def replayFrom (run : Frame → m (Bool × Frame)) (note : Record → m Unit) (runs : Nat)
    (frame : Frame) : m (Option Outcome) := do
  let (result, left) ← run frame.reset
  let after := frame.afterRun left
  if after.triggered then
    note (.runForced (runs + 1) after.count)
    match _h : (frame.afterRun left).advance? with
    | some next => replayFrom run note (runs + 1) next
    | none => return none
  else
    note (.replayFinished (runs + 1) after.count result)
    return some ⟨result, runs + 1, after.count⟩
termination_by frame.value
decreasing_by
  have := value_advance?_lt _h
  rwa [value_afterRun] at this

/-- Runs the test until a run has no failing checkpoint. -/
def replay (run : Frame → m (Bool × Frame)) (note : Record → m Unit) : m (Option Outcome) :=
  replayFrom run note 0 fresh

end Frame

end MemoryTrial
