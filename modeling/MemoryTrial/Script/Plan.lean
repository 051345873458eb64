import MemoryTrial.Script.Bench
import MemoryTrial.Plan.Basic

/-! Scripts that drive a plan: once against an allocator, or under a replay against a new faulty
heap in each run. -/

namespace MemoryTrial.Script

inductive PlanMode
  /-- All of it, counting refusals. -/
  | whole
  /-- Up to the first refusal. -/
  | upToRefusal
  deriving DecidableEq

namespace Bench

/-- Drives a plan against the allocator of a bench, outside replays. -/
def drive (mode : PlanMode) (plan : Plan) (slots : Nat) (bench : Bench) : Result Bench Answer :=
  let x : Op Plan.Ground Answer :=
    match mode with
    | .whole => Answer.number <$> Plan.run plan slots
    | .upToRefusal => Answer.flag <$> Plan.tryRun plan slots
  match x (bench.allocator, none) with
  | ⟨value, (allocator, _), records⟩ => ⟨value, { bench with allocator }, records⟩

end Bench

/-- What one run of a replayed plan shows. -/
structure PlanRun where
  complete : Bool
  forced : Nat
  live : Nat

/-- One run: a new faulty heap, driven up to the first refusal. -/
def planRun (plan : Plan) (slots : Nat) (frame : Frame) :
    Op (List PlanRun) (Bool × Frame) := fun runs =>
  match Plan.underFrame (Plan.tryRun plan slots) frame (.faulty FaultyHeap.empty) with
  | ⟨.ok (complete, left), .faulty heap, records⟩ =>
    ⟨.ok (complete, left), ⟨complete, heap.forced, heap.live⟩ :: runs, records⟩
  | ⟨value, _, records⟩ => ⟨value, runs, records⟩

/-- The outcome of a replayed plan, and its runs in order. -/
def replayPlan (plan : Plan) (slots : Nat) :
    Except Panic (Option Outcome) × List PlanRun × List Record :=
  match Frame.replay (planRun plan slots) Op.log [] with
  | ⟨value, runs, records⟩ => (value, runs.reverse, records)

end MemoryTrial.Script
