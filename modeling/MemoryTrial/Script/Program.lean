import MemoryTrial.Script.Session
import MemoryTrial.Script.Trace
import MemoryTrial.Text.Quoted

/-! Scripted programs: boolean expressions that use the toolkit and leave a trace.  Each evaluates
to a boolean, from left to right. -/

namespace MemoryTrial.Script

/-- A scripted program.  Slots are variables for blocks. -/
inductive Expr
  | const (b : Bool)
  /-- Conjunction and disjunction that stop early. -/
  | all (es : List Expr)
  | any (es : List Expr)
  /-- Conjunction of all, none left out. -/
  | each (es : List Expr)
  /-- All in order; the value is that of the last. -/
  | seq (es : List Expr)
  | not (e : Expr)
  | cond (c t e : Expr)
  /-- At most so often, until it is false. -/
  | loop (count : Nat) (e : Expr)
  /-- So often, and the conjunction. -/
  | times (count : Nat) (e : Expr)
  /-- Counts a label. -/
  | mark (label : String)
  /-- Whether the run of the innermost replay has a number below `k`. -/
  | runBelow (k : Nat)
  | panic (text : String)
  | caught (e : Expr)
  | checkpoint
  | isReplayActive
  | replay (e : Expr)
  /-- A replay of which only the result is shown. -/
  | replayResult (e : Expr)
  /-- On a thread that starts with the production fixture. -/
  | thread (e : Expr)
  /-- On a thread that inherits the fixture. -/
  | spawn (e : Expr)
  /-- All on threads of their own. -/
  | parallel (es : List Expr)
  | fixture (name : String) (e : Expr)
  | setFixture (name : String)
  | showFixture
  | resolve
  /-- Whether the default allocator is the faulty heap. -/
  | isFaulty
  | kinds
  | teardown
  | delete
  | alloc (slot : String) (n : Nat)
  | resize (slot : String) (n : Nat)
  | free (slot : String)
  /-- Like `free`, but the slot keeps its pointer. -/
  | freeKeep (slot : String)
  /-- Sets a slot to an address. -/
  | poke (slot : String) (address : Nat)
  | fill (slot : String) (byte : UInt8)
  | read (slot : String)
  /-- Requests to the program's own faulty heap. -/
  | ownGrab (slot : String) (n : Nat)
  | ownResize (slot : String) (n : Nat)
  | ownRelease (slot : String)
  | ownFill (slot : String) (byte : UInt8)
  | ownRead (slot : String)
  | ownTeardown
  | ownStats
  /-- A program that is not spelled right: it fails when it is reached. -/
  | malformed (reason : String)

/-- What belongs to one thread of a program. -/
structure ProgramState where
  slots : List (String × Ptr)
  trace : Trace
  /-- How often each label was counted. -/
  marks : List (String × Nat)
  /-- For each enclosing replay, the innermost first, the number of runs that have begun. -/
  runs : List Nat
  /-- The number of the thread's own faulty heap. -/
  heap : Nat

namespace Expr

/-- Programs of scripted programs. -/
abbrev Step := Play ProgramState

/-- Adds texts to the trace, after the events that came before them. -/
def write (texts : List String) : Step Unit := do
  let entries ← Play.news
  Play.modifyOwn fun s => { s with trace := s.trace.write (eventsOf entries ++ texts) }

/-- Adds the letter of a checkpoint to the trace. -/
def writeLetter (fails : Bool) : Step Unit :=
  Play.modifyOwn fun s => { s with trace := s.trace.writeLetter fails }

/-- Marks with so many more of a label. -/
def addMark (count : Nat) (label : String) : List (String × Nat) → List (String × Nat)
  | [] => [(label, count)]
  | (known, n) :: rest =>
    if known = label then (known, n + count) :: rest
    else (known, n) :: addMark count label rest

def slot (name : String) : Step (Option Ptr) := return (← Play.own).slots.lookup name

def setSlot (name : String) (p : Option Ptr) : Step Unit :=
  Play.modifyOwn fun s =>
    let others := s.slots.filter (·.1 ≠ name)
    { s with slots := match p with
      | some p => (name, p) :: others
      | none => others }

/-- Does something with the block in a slot. -/
def withSlot (name : String) (f : Ptr → Step Bool) : Step Bool := do
  match ← slot name with
  | some p => f p
  | none => do
    write ["no block"]
    return false

/-- A request to the thread's own faulty heap. -/
def onOwn {α : Type} (r : Request α) : Step α := do
  let s ← Play.own
  Client.ask (.useOwned s.heap r)

def tearDownOwn : Step Unit := do
  let s ← Play.own
  Client.ask (.tearDownOwned s.heap)

/-- The requests that the thread's own faulty heap refused, and its blocks. -/
def ownCounts : Step (Nat × Nat) := do
  let s ← Play.own
  Client.ask (.readOwned s.heap fun
    | .faulty f => (f.forced, f.live)
    | _ => (0, 0))

/-- A panic by its sort and text. -/
def panicText (p : Panic) : String := p.sort ++ ": " ++ p.text

/-- The body of a replay: each run is announced with its number. -/
def replayRun (body : Step Bool) : Step Bool := do
  let s ← Play.own
  let begun := s.runs.headD 0
  write [s!"run {begun}"]
  Play.modifyOwn fun s => { s with runs := (begun + 1) :: s.runs.tail }
  body

/-- A replay in the trace; `ending` says how its outcome is shown. -/
def replayed (body : Step Bool) (ending : Outcome → String) : Step Bool := do
  write ["replay \x7b"]
  Play.modifyOwn fun s => { s with runs := 0 :: s.runs }
  let outcome ← Client.replayed (replayRun body)
  Play.modifyOwn fun s => { s with runs := s.runs.tail }
  write ["\x7d " ++ ending outcome]
  return outcome.result

/-- Does a program on a thread of its own, which has a copy of the slots and a new faulty heap.  The
answer is its value and its part of the state at the end. -/
def onThread (inherits : Bool) (body : Step Bool) : Step (Except Panic Bool × ProgramState) := do
  let parent ← Play.own
  let heap ← Client.ask (.own (.faulty FaultyHeap.empty))
  Play.modifyOwn fun s => { slots := s.slots, trace := [], marks := [], runs := [], heap }
  let value ← Client.onThread inherits body
  let child ← Play.own
  Play.modifyOwn fun _ => parent
  return (value, child)

def joined (label : String) : Except Panic Bool × ProgramState → Step Bool
  | (.ok value, child) => do
    write ([label ++ " \x7b"] ++ child.trace.texts ++ ["\x7d " ++ toString value])
    Play.modifyOwn fun s =>
      { s with marks := child.marks.foldl (fun marks m => addMark m.2 m.1 marks) s.marks }
    return value
  | (.error p, _) => do
    write [label ++ " " ++ panicText p]
    return false

def joinedAll : List (Except Panic Bool × ProgramState) → Step Bool
  | [] => return true
  | child :: rest => do
    let first ← joined "par" child
    let others ← joinedAll rest
    return first && others

/-- At most so often, until it is false. -/
def whileTrue (body : Step Bool) : Nat → Step Bool
  | 0 => return true
  | count + 1 => do
    if ← body then whileTrue body count else return false

/-- So often; the conjunction of the values and of `before`. -/
def conjunction (body : Step Bool) (before : Bool) : Nat → Step Bool
  | 0 => return before
  | count + 1 => do
    let value ← body
    conjunction body (before && value) count

abbrev Fixtures := List (String × String)

def fixtureOf (fixtures : Fixtures) (name : String) : Step (Fixture KindRef) := do
  match fixtures.lookup name with
  | some kind => return ⟨name, .named kind⟩
  | none =>
    if name = productionFixture.name then return productionFixture
    else if name = testFixture.name then return testFixture
    else Client.raise (.message s!"no fixture {name}")

mutual

def run (kindId : KindRef → KindId) (fixtures : Fixtures) : Expr → Step Bool
  | .const b => return b
  | .all es => runAllOf kindId fixtures es
  | .any es => runAnyOf kindId fixtures es
  | .each es => runEach kindId fixtures es
  | .seq es => runSeq kindId fixtures es
  | .not e => return !(← run kindId fixtures e)
  | .cond c t e => do
    if ← run kindId fixtures c then run kindId fixtures t else run kindId fixtures e
  | .loop count e => whileTrue (run kindId fixtures e) count
  | .times count e => conjunction (run kindId fixtures e) true count
  | .mark label => do
    Play.modifyOwn fun s => { s with marks := addMark 1 label s.marks }
    write [label]
    return true
  | .runBelow k => do
    match (← Play.own).runs with
    | begun :: _ => return begun - 1 < k
    | [] => return false
  | .panic text => Client.raise (.message text)
  | .caught e => do
    let before ← Play.own
    match ← Client.caught (run kindId fixtures e) with
    | .ok value => return value
    | .error p => do
      Play.modifyOwn fun s => { s with runs := before.runs }
      write ["caught " ++ panicText p]
      return false
  | .checkpoint => do
    let fails ← Client.ask .checkpoint
    writeLetter fails
    return !fails
  | .isReplayActive => do
    let active ← Client.ask .isReplayActive
    write [if active then "active" else "inactive"]
    return active
  | .replay e => replayed (run kindId fixtures e) fun o =>
    s!"{o.result} runs={o.runs} checkpoints={o.checkpoints}"
  | .replayResult e => replayed (run kindId fixtures e) fun o => toString o.result
  | .thread e => do joined "thread" (← onThread false (run kindId fixtures e))
  | .spawn e => do joined "spawn" (← onThread true (run kindId fixtures e))
  | .parallel es => do joinedAll (← runThreads kindId fixtures es)
  | .fixture name e => do
    Client.under (← fixtureOf fixtures name) (run kindId fixtures e)
  | .setFixture name => do
    Client.ask (.setFixture (← fixtureOf fixtures name))
    return true
  | .showFixture => do
    let f ← Client.ask .fixture
    write [f.name ++ " Fixture \x7b name: " ++ Text.quoted f.name ++ ", default_kind: KindId(" ++
      Text.quoted (kindId f.kind).name ++ ") \x7d"]
    return true
  | .resolve => do
    match ← Memory.defaultAllocator with
    | .ok h => do
      let (id, name) ← Client.ask (.describe h)
      write [s!"default is {id.name} ({name})"]
      return true
    | .error e => do
      write [s!"default error: {e.message}"]
      return false
  | .isFaulty => do
    let chosen ← Memory.defaultAllocator
    let faulty ← Client.ask (.lookUp testFixture.kind)
    let same := match chosen, faulty with
      | .ok a, .ok b => decide (a = b)
      | _, _ => false
    write [s!"is_faulty {same}"]
    return same
  | .kinds => do
    let ids ← Client.ask .kinds
    write ["kinds " ++ idsText ids]
    return true
  | .teardown => do
    Client.ask .teardown
    write ["teardown"]
    return true
  | .delete => do
    match ← Memory.defaultAllocator with
    | .ok h => Client.ask (.delete (some h))
    | .error _ => Client.ask (.delete none)
    write ["delete"]
    return true
  | .alloc name n => do
    let p ← Memory.allocate n
    setSlot name p
    write [s!"alloc {n} = " ++ Ptr.textOrNull p]
    return p.isSome
  | .resize name n => do
    let p ← Memory.resize (← slot name) n
    if p.isSome || n == 0 then setSlot name p
    write [s!"resize {n} = " ++ Ptr.textOrNull p]
    return p.isSome
  | .free name => do
    Memory.free (← slot name)
    setSlot name none
    write ["free"]
    return true
  | .freeKeep name => do
    Memory.free (← slot name)
    write ["free"]
    return true
  | .poke name address => do
    setSlot name (Ptr.ofAddr? address)
    return true
  | .fill name byte => withSlot name fun p => do
    Memory.edit p fun bytes => Bytes.replicate bytes.size byte
    return true
  | .read name => withSlot name fun p => do
    let bytes ← Memory.bytes p
    write ["read " ++ Text.bytesText bytes]
    return true
  | .ownGrab name n => do
    let p ← onOwn (.grab n)
    setSlot name p
    write [s!"fgrab {n} = " ++ Ptr.textOrNull p]
    return p.isSome
  | .ownResize name n => withSlot name fun p => do
    let q ← onOwn (.resize p n)
    write [s!"fresize {n} = " ++ Ptr.textOrNull q]
    return q.isSome
  | .ownRelease name => withSlot name fun p => do
    onOwn (.release p)
    return true
  | .ownFill name byte => withSlot name fun p => do
    onOwn (.edit p fun bytes => Bytes.replicate bytes.size byte)
    return true
  | .ownRead name => withSlot name fun p => do
    let bytes ← onOwn (.payload p)
    write ["fread " ++ Text.bytesText bytes]
    return true
  | .ownTeardown => do
    tearDownOwn
    return true
  | .ownStats => do
    let (forced, live) ← ownCounts
    write [s!"forced={forced} live={live}"]
    return true
  | .malformed reason => Client.raise (.message reason)

/-- Does programs in order up to one that is false; the value is their conjunction. -/
def runAllOf (kindId : KindRef → KindId) (fixtures : Fixtures) : List Expr → Step Bool
  | [] => return true
  | e :: es => do
    if ← run kindId fixtures e then runAllOf kindId fixtures es else return false

/-- Does programs in order up to one that is true; the value is their disjunction. -/
def runAnyOf (kindId : KindRef → KindId) (fixtures : Fixtures) : List Expr → Step Bool
  | [] => return false
  | e :: es => do
    if ← run kindId fixtures e then return true else runAnyOf kindId fixtures es

/-- Does all programs in order; the value is their conjunction. -/
def runEach (kindId : KindRef → KindId) (fixtures : Fixtures) : List Expr → Step Bool
  | [] => return true
  | e :: es => do
    let first ← run kindId fixtures e
    let others ← runEach kindId fixtures es
    return first && others

/-- Does all programs in order; the value is that of the last, and true if there is none. -/
def runSeq (kindId : KindRef → KindId) (fixtures : Fixtures) : List Expr → Step Bool
  | [] => return true
  | [e] => run kindId fixtures e
  | e :: es => do
    let _ ← run kindId fixtures e
    runSeq kindId fixtures es

/-- Does programs on threads of their own, which all start from the same state. -/
def runThreads (kindId : KindRef → KindId) (fixtures : Fixtures) :
    List Expr → Step (List (Except Panic Bool × ProgramState))
  | [] => return []
  | e :: es => do
    let child ← onThread false (run kindId fixtures e)
    let others ← runThreads kindId fixtures es
    return child :: others

end

structure Report where
  result : Except Panic Bool
  trace : List String
  marks : List (String × Nat)
  slots : List (String × Ptr)
  active : Bool
  fixture : String
  forced : Nat
  live : Nat
  records : List Record

/-- A whole program: its own faulty heap is new, and events after the last text end the trace. -/
def whole (kindId : KindRef → KindId) (fixtures : Fixtures) (e : Expr) : Step Report := do
  let heap ← Client.ask (.own (.faulty FaultyHeap.empty))
  Play.modifyOwn fun s => { s with heap }
  let result ← Client.caught (run kindId fixtures e)
  write []
  let (forced, live) ← ownCounts
  let active ← Client.ask .isReplayActive
  let f ← Client.ask .fixture
  let journal ← Client.ask (.journal 0)
  let s ← Play.own
  return { result, trace := s.trace.texts, marks := s.marks, slots := s.slots, active,
           fixture := f.name, forced, live, records := recordsOf journal }

def play (catalog : Catalog) (fixtures : Fixtures) (e : Expr) : Except Halt Report :=
  let env : Environment KindRef Nat (Session ProgramState) :=
    { kind := catalog.kind, hook := fun _ => return (), production := productionFixture }
  let start := World.start productionFixture true (Session.start ⟨[], [], [], [], 0⟩)
  match (whole (fun kind => (env.kind kind).id) fixtures e).run env start with
  | .ok report _ => .ok report
  | .error h _ => .error h

end Expr

end MemoryTrial.Script
