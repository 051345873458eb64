import MemoryTrial.Script.Session

/-! Scripts for the exit of a process: they register exit hooks, use the registry, and end with the
exit.  A hook has a number, says that it runs, and then does the steps that the script gives it.

A look-up catches panics with the help of storage of the thread, which the first look-up creates.
When the exit begins, storage that was created before is destroyed and cannot be had again: a hook
that then looks something up aborts the process, and so does one that leaves the process once
more. -/

namespace MemoryTrial.Script

/-- A step of a script for an exit. -/
inductive ExitStep
  | register (hook : Nat) (priority : Int)
  | run
  | get (kind : String)
  | kinds
  | teardown
  /-- Leaves the process at once. -/
  | leave (status : Int)
  /-- A step that is not spelled right: it fails when it is reached. -/
  | malformed (reason : String)

namespace ExitStep

/-- How far a process is. -/
inductive Phase
  | running
  /-- A step left it with a status. -/
  | left (status : Int)
  /-- Its exit hooks run, for the last time. -/
  | exiting
  deriving DecidableEq

/-- The storage of a thread. -/
inductive Storage
  /-- Nothing needed it yet. -/
  | unused
  | used
  /-- It was destroyed when the exit began. -/
  | destroyed
  deriving DecidableEq

/-- The storage when the exit begins: there is nothing to destroy in unused storage. -/
def Storage.atExit : Storage → Storage
  | unused => unused
  | used | destroyed => destroyed

/-- The main thread of a process. -/
structure MainThread where
  phase : Phase
  storage : Storage

/-- The main thread at its start. -/
def MainThread.start : MainThread := ⟨.running, .unused⟩

/-- How a process ends, as its parent sees it. -/
inductive Ending
  /-- With a status, which is taken modulo 256. -/
  | status (n : Nat)
  | aborted
  deriving DecidableEq

/-- Programs of scripts for an exit. -/
abbrev Step := Play MainThread

/-- What hooks do, by their numbers. -/
abbrev Actions := List (Nat × List ExitStep)

/-- How a look-up ended. -/
def foundText : Except Panic (Except ConfigError KindId) → String
  | .ok (.ok id) => "ok " ++ id.name
  | .ok (.error e) => "error " ++ e.message
  | .error p => p.sort ++ " " ++ p.text

/-- Creates the storage of the thread unless it is there. -/
def needStorage : Step Unit := do
  if (← Play.own).storage = .destroyed then
    Client.raise (.message "the storage of the thread was destroyed")
  else Play.modifyOwn fun s => { s with storage := .used }

/-- Looks up a kind; a panic is caught. -/
def found (kind : String) : Step (Except Panic (Except ConfigError KindId)) := do
  needStorage
  Client.caught do
    match ← Client.ask (.lookUp (.named kind)) with
    | .ok h => do
      let (id, _) ← Client.ask (.describe h)
      return .ok id
    | .error e => return .error e

def perform : ExitStep → Step Unit
  | register hook priority => do
    let fresh ← Client.ask (.register hook priority)
    Play.say s!"register {hook} {priority} -> {fresh}"
  | run => do
    Play.say "run \x7b"
    Client.ask .runHooks
    Play.say "\x7d"
  | get kind => do
    let answer ← found kind
    Play.say (s!"get {kind} -> " ++ foundText answer)
  | kinds => do
    let ids ← Client.ask .kinds
    Play.say ("kinds " ++ idsText ids)
  | teardown => Client.ask .teardown
  | leave status => do
    if (← Play.own).phase = .exiting then
      Client.raise (.message "the process is being left already")
    else
      Play.modifyOwn fun s => { s with phase := .left status }
      Client.raise (.message "the process is left")
  | malformed reason => Client.raise (.message reason)

def performAll : List ExitStep → Step Unit
  | [] => return ()
  | step :: steps => do
    perform step
    performAll steps

/-- What a hook does. -/
def hook (actions : Actions) (number : Nat) : Step Unit := do
  Play.say s!"handler {number}"
  performAll ((actions.lookup number).getD [])

/-- The status of a process whose main program was unwound. -/
def unwoundStatus : Int := 101

/-- The main program of a process, up to its exit.  The answer is its status. -/
def main (steps : List ExitStep) : Step Int := do
  match ← Client.caught (performAll steps) with
  | .ok () => do
    Play.say "main returns"
    return 0
  | .error _ => do
    match (← Play.own).phase with
    | .left status => return status
    | _ => return unwoundStatus

/-- A whole process.  If `usesRegistry`, it does so before its steps. -/
def process (usesRegistry : Bool) (steps : List ExitStep) : Step Ending := do
  if usesRegistry then
    let _ ← Client.ask .kinds
  let status ← main steps
  Play.modifyOwn fun s => ⟨.exiting, s.storage.atExit⟩
  match ← Client.caught (Client.ask .runHooks) with
  | .ok () => return .status (status % 256).toNat
  | .error _ => return .aborted

/-- Runs a program of a script in a new process; `hooked` says that the registry will not register
its teardown. -/
def start {α : Type} (catalog : Catalog) (actions : Actions) (hooked : Bool) (program : Step α) :
    Except Halt (α × List Entry) :=
  let env : Environment KindRef Nat (Session MainThread) :=
    { kind := catalog.kind, hook := hook actions, production := productionFixture }
  match program.run env (World.start productionFixture hooked (Session.start .start)) with
  | .ok a w => .ok (a, w.journal.toList)
  | .error e _ => .error e

/-- What happens in a script for the table of exit hooks, without the registry's teardown in it. -/
def play (catalog : Catalog) (actions : Actions) (steps : List ExitStep) :
    Except Halt (List Entry) :=
  (start catalog actions true (performAll steps)).map (·.2)

/-- How a process ends, and what happens in it. -/
def playProcess (catalog : Catalog) (actions : Actions) (usesRegistry : Bool)
    (steps : List ExitStep) : Except Halt (Ending × List Entry) :=
  start catalog actions false (process usesRegistry steps)

/-- The texts of events and of the records of a level, in the order in which they happened. -/
def linesOfAll (level : Option Level) (entries : List Entry) : List String :=
  entries.filterMap fun
    | .event text => some text
    | .record r =>
      match level with
      | some level => if r.isAtLeast level then some r.line else none
      | none => none
    | .tornDown _ | .closed _ | .denied _ => none

end ExitStep

end MemoryTrial.Script
