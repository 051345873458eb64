import MemoryTrial.Plan.Basic
import MemoryTrial.Random.ChaCha

/-! Churn plans: mixed workloads drawn from a stream of random words.  Half of the steps allocate, a
quarter resize and a quarter release. -/

namespace MemoryTrial.Plan

/-- The step that five words of a stream from `i` on give, over so many slots and sizes. -/
def churnStep (stream : Nat → UInt32) (slots maxBytes i : Nat) : PlanStep :=
  let slot := Random.pairAt stream i % max slots 1
  let bytes := 1 + Random.pairAt stream (i + 2) % max maxBytes 1
  match (stream (i + 4)).toNat % 4 with
  | 0 | 1 => .grab slot bytes
  | 2 => .resize slot bytes
  | _ => .release slot

/-- A plan of `length` steps, each drawn from the next five words of a stream. -/
def churnFrom (stream : Nat → UInt32) (length slots maxBytes : Nat) : Plan :=
  (List.range length).map fun k => churnStep stream slots maxBytes (5 * k)

def stepSize : Nat := 24

/-- The plan of a seed, if memory can hold it. -/
def churn (seed : UInt64) (length slots maxBytes : Nat) : Except Panic Plan := do
  reserve (stepSize * length)
  let words := Random.chachaWords (Random.seedKey seed) (5 * length / 16 + 1)
  return churnFrom (fun i => words[i]?.getD 0) length slots maxBytes

end MemoryTrial.Plan

namespace MemoryTrial

def PlanStep.text : PlanStep → String
  | .grab slot bytes => s!"grab {slot} {bytes}"
  | .resize slot bytes => s!"resize {slot} {bytes}"
  | .release slot => s!"release {slot}"

end MemoryTrial
