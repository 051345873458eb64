import MemoryTrial.Script.Bench

/-! Scripts for one allocator: requests, uses of payloads, and questions to an arena. -/

namespace MemoryTrial.Script

/-- A step for an allocator.  `into` names the variable for the answer. -/
inductive AllocatorStep
  | grab (n : Nat) (into : Option String)
  /-- So many requests of one size; the variables are numbered from 0. -/
  | grabs (count n : Nat) (into : String)
  | release (p : PtrArg)
  | resize (p : PtrArg) (n : Nat) (into : Option String)
  | payload (p : PtrArg)
  /-- Fills a payload with one byte. -/
  | fill (p : PtrArg) (byte : UInt8)
  /-- Writes bytes into a payload where they fit. -/
  | write (p : PtrArg) (start : Nat) (bytes : ByteArray)
  | «repeat» (count : Nat) (steps : List AllocatorStep)
  | teardown
  | nodes
  | stats
  | check
  | len
  | isEmpty
  /-- All payloads. -/
  | dump
  /-- A step that is not spelled right: it fails when it is reached. -/
  | malformed (reason : String)

namespace AllocatorStep

/-- Does something with the block that an argument names. -/
def withPtr (p : PtrArg) (f : Ptr → Op Bench Answer) : Op Bench Answer := do
  match ← Op.read fun b => b.vars.resolve p with
  | some p => f p
  | none => return .noPointer

/-- What only an arena can be asked. -/
def unsupported : Answer := .text "unsupported"

/-- A question that only an arena answers. -/
def askArena (f : Arena → Except Panic Answer) : Op Bench Answer :=
  Op.inspect fun b =>
    match b.arena? with
    | some a => f a
    | none => .ok unsupported

/-- Allocates, and keeps the pointer in a variable. -/
def grabInto (n : Nat) (into : Option String) : Op Bench Answer := do
  let p ← Bench.perform (.grab n)
  Op.modify fun b => { b with vars := b.vars.set? into p }
  return .ofPtr? p

/-- The payload of a node with its address, read like any other payload. -/
def dumpNode (node : Arena.Node) : Op Bench Answer := do
  let bytes ← Bench.perform (.payload ⟨node.address, Nat.succ_pos _⟩)
  return .list [.number node.address, .ofBytes bytes]

/-- The payloads of all nodes that are handed out. -/
def dumpAll : Op Bench Answer := do
  let nodes ← Op.inspect fun b =>
    match b.arena? with
    | some a => a.nodes.map some
    | none => .ok none
  match nodes with
  | some nodes => Answer.list <$> (nodes.filter (·.allocated)).mapM dumpNode
  | none => return unsupported

/-- So many requests of one size; `first` is the number of the first variable. -/
def grabMany (n : Nat) (into : String) (first : Nat) : (count : Nat) → Op Bench (List Answer)
  | 0 => return []
  | count + 1 => do
    let answer ← grabInto n (some (into ++ toString first))
    let answers ← grabMany n into (first + 1) count
    return answer :: answers

mutual

def run : AllocatorStep → Op Bench Answer
  | grab n into => grabInto n into
  | grabs count n into => do
    let answers ← grabMany n into 0 count
    return .list answers
  | release p => withPtr p fun p => do
    Bench.perform (.release p)
    return .null
  | resize p n into => withPtr p fun p => do
    let q ← Bench.perform (.resize p n)
    if q.isSome then
      Op.modify fun b => { b with vars := b.vars.set? into q }
    return .ofPtr? q
  | payload p => withPtr p fun p => do
    let bytes ← Bench.perform (.payload p)
    return .ofBytes bytes
  | fill p byte => withPtr p fun p => do
    Bench.perform (.edit p fun bytes => Bytes.replicate bytes.size byte)
    return .null
  | write p start bytes => withPtr p fun p => do
    let block ← Bench.perform (.payload p)
    if fits block.size start bytes then
      Bench.perform (.edit p fun block => Bytes.write block start bytes)
      return .text "ok"
    else
      return .text "range"
  | «repeat» count steps => do
    let answers ← rounds count (runAll steps)
    return .list answers
  | teardown => do
    Bench.teardown
    return .null
  | nodes => askArena fun a => do
    let nodes ← a.nodes
    .ok <| .list <| nodes.map fun node =>
      .list [.number node.offset, .number node.size, .flag node.allocated]
  | stats => askArena fun a => a.stats.map Bench.statsAnswer
  | check => askArena fun a => do
    match ← a.check with
    | .ok () => .ok (.text "ok")
    | .error v => .ok (.violation v)
  | len => askArena fun a => .ok (.number a.len)
  | isEmpty => askArena fun a => .ok (.flag (a.len == 0))
  | dump => dumpAll
  | malformed reason => Op.raise (.message reason)

def runAll : List AllocatorStep → Op Bench (List Answer)
  | [] => return []
  | step :: steps => do
    let answer ← run step
    let answers ← runAll steps
    return answer :: answers

end

/-- What a step shows: its answer, the state of the allocator after it, and the records of the
step. -/
structure Report where
  answer : Answer
  state : List (String × Answer)
  records : List Record

/-- Does the steps of a script one after the other. -/
def report (brief : Bool) : List AllocatorStep → Bench → List Report
  | [], _ => []
  | step :: steps, bench =>
    let r := run step bench
    ⟨.ofExcept r.value, r.state.state brief, r.records⟩ :: report brief steps r.state

end AllocatorStep

end MemoryTrial.Script
