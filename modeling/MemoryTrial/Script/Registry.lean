import MemoryTrial.Script.Session
import MemoryTrial.Text.Quoted

/-! Scripts for a registry: look-ups, deletions and uses of instances through named handles. -/

namespace MemoryTrial.Script

/-- A step for a registry.  Handles and pointers have names; `into` names what takes the answer. -/
inductive RegistryStep
  | get (kind into : String)
  | build (kind into : String)
  | clone (handle into : String)
  | delete (handle : Option String)
  | drop (handle : String)
  | len
  | isEmpty
  | teardown
  | kind (handle : String)
  | name (handle : String)
  | debug (handle : String)
  | isDestroyed (handle : String)
  | same (first second : String)
  | allocate (handle : String) (n : Nat) (into : Option String)
  | resize (handle : String) (p : PtrArg) (n : Nat) (into : Option String)
  | free (handle : String) (p : PtrArg)
  | read (handle : String) (p : PtrArg)
  | write (handle : String) (p : PtrArg) (start : Nat) (bytes : ByteArray)
  | fill (handle : String) (p : PtrArg) (byte : UInt8)
  /-- Does steps while a payload is in use; with `unwinds`, a panic of one ends the use. -/
  | within (handle : String) (p : PtrArg) (unwinds : Bool) (steps : List RegistryStep)
  /-- Does steps on a thread of their own. -/
  | thread (steps : List RegistryStep)
  | «repeat» (count : Nat) (steps : List RegistryStep)
  /-- A step that is not spelled right: it fails when it is reached. -/
  | malformed (reason : String)

/-- The names that a script gave. -/
structure RegistryNames where
  handles : List (String × Handle)
  vars : Vars

namespace RegistryStep

/-- Programs of scripts for a registry. -/
abbrev Step := Play RegistryNames

def handle (name : String) : Step Handle := do
  match (← Play.own).handles.lookup name with
  | some h => return h
  | none => Client.raise (.message s!"no instance {name}")

def setHandle (name : String) (h : Handle) : Step Unit :=
  Play.modifyOwn fun s => { s with handles := (name, h) :: s.handles.filter (·.1 ≠ name) }

/-- Sets a variable if there is one to set. -/
def setVar (name : Option String) (p : Option Ptr) : Step Unit :=
  Play.modifyOwn fun s => { s with vars := s.vars.set? name p }

def pointer (p : PtrArg) : Step (Option Ptr) := return (← Play.own).vars.resolve p

/-- Does something with the block that an argument names, on the instance of a name. -/
def withPtr (name : String) (p : PtrArg) (f : Handle → Ptr → Step Answer) : Step Answer := do
  match ← pointer p with
  | some p => f (← handle name) p
  | none => return .noPointer

/-- Names an instance that was found or built. -/
def named (into : String) : Except ConfigError Handle → Step Answer
  | .error e => return .setupError e
  | .ok h => do
    setHandle into h
    let (id, _) ← Client.ask (.describe h)
    return .fields [("ok", .text id.name)]

/-- What a program answers, or its panic. -/
def answered (x : Step Answer) : Step Answer := return .ofExcept (← Client.caught x)

/-- What a step shows: its answer, the cached kinds after it, and the events and records of the
step. -/
def report (level : Option Level) (answer : Answer) : Step Answer := do
  let entries ← Play.news
  let ids ← Client.ask .kinds
  let events := eventsOf entries
  let lines := match level with
    | some level => linesOf level (recordsOf entries)
    | none => []
  let list (key : String) (texts : List String) : List (String × Answer) :=
    if texts.isEmpty then [] else [(key, .list (texts.map .text))]
  return .fields ([("r", answer), ("kinds", .list (ids.map fun id => .text id.name))] ++
    list "events" events ++ list "log" lines)

mutual

def run (level : Option Level) : RegistryStep → Step Answer
  | .get k into => do named into (← Client.ask (.lookUp (.named k)))
  | .build k into => do named into (← Client.ask (.build (.named k)))
  | .clone ref into => do named into (.ok (← handle ref))
  | .delete none => do
    Client.ask (.delete none)
    return .null
  | .delete (some ref) => do
    let h ← handle ref
    Client.ask (.delete (some h))
    return .null
  | .drop ref => do
    let known := ((← Play.own).handles.lookup ref).isSome
    Play.modifyOwn fun s => { s with handles := s.handles.filter (·.1 ≠ ref) }
    return .flag known
  | .len => return .number (← Client.ask .kinds).length
  | .isEmpty => return .flag (← Client.ask .kinds).isEmpty
  | .teardown => do
    Client.ask .teardown
    return .null
  | .kind ref => do
    let (id, _) ← Client.ask (.describe (← handle ref))
    return .text id.name
  | .name ref => do
    let (_, text) ← Client.ask (.describe (← handle ref))
    return .text text
  | .debug ref => do
    let (id, _) ← Client.ask (.describe (← handle ref))
    return .text ("AllocatorRef \x7b kind: KindId(" ++ Text.quoted id.name ++ "), .. \x7d")
  | .isDestroyed ref => do
    let destroyed ← Client.ask (.isDestroyed (← handle ref))
    return .flag destroyed
  | .same first second => do
    let a ← handle first
    let b ← handle second
    return .flag (a = b)
  | .allocate ref n into => do
    let h ← handle ref
    let p ← h.allocate n
    setVar into p
    return .ofPtr? p
  | .resize ref p n into => do
    let p ← pointer p
    let h ← handle ref
    let q ← h.resize p n
    if q.isSome then setVar into q
    return .ofPtr? q
  | .free ref p => do
    let p ← pointer p
    let h ← handle ref
    h.free p
    return .null
  | .read ref p => withPtr ref p fun h p => do
    let bytes ← h.bytes p
    return .ofBytes bytes
  | .write ref p start bytes => withPtr ref p fun h p => do
    let fitting ← Client.within h p (fun block => Bytes.write block start bytes)
      (fun block => return fits block.size start bytes) .pure
    return .text (if fitting then "ok" else "range")
  | .fill ref p byte => withPtr ref p fun h p => do
    h.edit p fun block => Bytes.replicate block.size byte
    return .null
  | .within ref p unwinds steps => withPtr ref p fun h p =>
    .within h p id
      (fun block => do
        let answers ← if unwinds then runAll level steps else runEach level steps
        return .fields [("len", .number block.size), ("inner", .list answers)])
      .pure
  | .thread steps => do
    match ← Client.onThread false (reportAll level steps) with
    | .ok answers => return .list answers
    | .error p => return .panic p
  | .«repeat» count steps => do
    let answers ← rounds count (runAll level steps)
    return .list answers
  | .malformed reason => Client.raise (.message reason)

def runAll (level : Option Level) : List RegistryStep → Step (List Answer)
  | [] => return []
  | step :: steps => do
    let answer ← run level step
    let answers ← runAll level steps
    return answer :: answers

/-- Does steps in order; a panic ends only the step that it occurs in. -/
def runEach (level : Option Level) : List RegistryStep → Step (List Answer)
  | [] => return []
  | step :: steps => do
    let answer ← answered (run level step)
    let answers ← runEach level steps
    return answer :: answers

/-- Does steps in order and shows each of them. -/
def reportAll (level : Option Level) : List RegistryStep → Step (List Answer)
  | [] => return []
  | step :: steps => do
    let answer ← answered (run level step)
    let shown ← report level answer
    let rest ← reportAll level steps
    return shown :: rest

end

def play (catalog : Catalog) (level : Option Level) (steps : List RegistryStep) :
    Except Halt (List Answer) :=
  let env : Environment KindRef Nat (Session RegistryNames) :=
    { kind := catalog.kind, hook := fun _ => return (), production := productionFixture }
  let start := World.start productionFixture true (Session.start ⟨[], .empty⟩)
  match (reportAll level steps).run env start with
  | .ok answers _ => .ok answers
  | .error e _ => .error e

end RegistryStep

end MemoryTrial.Script
