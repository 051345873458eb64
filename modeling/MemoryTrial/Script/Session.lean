import MemoryTrial.World.Run
import MemoryTrial.World.Memory
import MemoryTrial.World.Kinds
import MemoryTrial.Script.Answer

/-! What the scripts for a whole process share: kinds that a script declares by name, and the part
of their state that threads have in common. -/

namespace MemoryTrial.Script

/-- A kind that is built on top of other kinds and says when it is created and destroyed. -/
structure Layered where
  id : KindId
  name : String
  /-- The kinds that a creation looks up. -/
  sources : List String
  /-- The bytes that an instance keeps on the last of them. -/
  hold : Nat
  /-- How many creations of the kind may be under way for one more to look up others. -/
  depth : Nat
  /-- The kinds that the first teardown of an instance looks up. -/
  revived : List String

/-- A kind that a script declares. -/
inductive KindSpec
  | heap
  | faulty
  | arena (id : KindId) (config : Arena.Config)
  | flaky (id : KindId) (config : Arena.Config)
  | broken (id : KindId) (reason : String)
  | layered (spec : Layered)

/-- What is known of layered kinds: the creations under way, and the kinds of which an instance was
torn down before. -/
structure Ledger where
  creating : List String
  closed : List String

/-- The state of a script: `local` is the part of the running thread. -/
structure Session (τ : Type) where
  ledger : Ledger
  /-- How much of the journal was reported. -/
  reported : Nat
  own : τ

def Session.start {τ : Type} (own : τ) : Session τ := ⟨⟨[], []⟩, 0, own⟩

/-- A kind, as a script refers to it. -/
inductive KindRef
  /-- The system heap, whatever the script declares. -/
  | heap
  /-- The faulty heap, whatever the script declares. -/
  | faulty
  /-- The kind that a name stands for. -/
  | named (name : String)
  deriving DecidableEq

/-- Programs of scripts: exit hooks have numbers. -/
abbrev Play (τ : Type) : Type → Type 1 := Client KindRef Nat (Session τ)

namespace Play

variable {τ α : Type}

def modifyLedger (f : Ledger → Ledger) : Play τ Unit :=
  Client.modify fun s => { s with ledger := f s.ledger }

/-- Applies `f` to the thread's part of the state. -/
def modifyOwn (f : τ → τ) : Play τ Unit := Client.modify fun s => { s with own := f s.own }

/-- The thread's part of the state. -/
def own : Play τ τ := return (← Client.state).own

def say (text : String) : Play τ Unit := Client.ask (.say text)

/-- The entries of the journal that were not reported before. -/
def news : Play τ (List Entry) := do
  let s ← Client.state
  let entries ← Client.ask (.journal s.reported)
  Client.modify fun s => { s with reported := s.reported + entries.length }
  return entries

/-- Looks up kinds in order, up to the first that cannot be created. -/
def lookUpAll : List String → Play τ (Except ConfigError (List Handle))
  | [] => return .ok []
  | name :: names => do
    match ← Client.ask (.lookUp (.named name)) with
    | .error e => return .error e
    | .ok h =>
      match ← lookUpAll names with
      | .error e => return .error e
      | .ok hs => return .ok (h :: hs)

end Play

namespace Layered

variable {τ : Type}

/-- Looks up the sources of a kind, unless too many creations of it are under way. -/
def lookUpSources (name : String) (spec : Layered) :
    Play τ (Except ConfigError (List Handle)) := do
  let underWay := (← Client.state).ledger.creating.count name
  if underWay < spec.depth then do
    Play.modifyLedger fun l => { l with creating := name :: l.creating }
    let found ← Client.caught (Play.lookUpAll spec.sources)
    Play.modifyLedger fun l => { l with creating := l.creating.erase name }
    match found with
    | .ok found => return found
    | .error p => Client.ask (.compute (Op.unwind p))
  else return .ok []

def create (name : String) (spec : Layered) : Play τ (Except ConfigError Built) := do
  match ← spec.lookUpSources name with
  | .error e => return .error e
  | .ok sources => do
    Play.say s!"create {spec.id.name}"
    match sources.getLast?, spec.hold with
    | some owner, hold + 1 => do
      let block ← owner.allocate (hold + 1)
      return .ok ⟨.heap Heap.empty, [⟨owner, block⟩]⟩
    | _, _ => return .ok ⟨.heap Heap.empty, []⟩

/-- Gives back what an instance keeps. -/
def returnAll : List Holding → Play τ Unit
  | [] => return ()
  | holding :: rest => do
    holding.owner.free holding.block
    let (id, _) ← Client.ask (.describe holding.owner)
    Play.say s!"returned block to {id.name}"
    returnAll rest

/-- Looks up kinds again and takes a block of each. -/
def reviveAll : List String → Play τ Unit
  | [] => return ()
  | name :: names => do
    match ← Client.ask (.lookUp (.named name)) with
    | .ok h => do
      let p ← h.allocate 8
      let (id, _) ← Client.ask (.describe h)
      Play.say s!"revived {id.name} block {p.isSome}"
    | .error e => Play.say s!"revive failed: {e.message}"
    reviveAll names

/-- What an instance does in its teardown. -/
def close (name : String) (spec : Layered) (holdings : List Holding) : Play τ Unit := do
  Play.say s!"destroy {spec.id.name}"
  returnAll holdings
  let closed := (← Client.state).ledger.closed
  if !closed.contains name then do
    Play.modifyLedger fun l => { l with closed := name :: l.closed }
    reviveAll spec.revived

end Layered

abbrev Catalog := List (String × KindSpec)

/-- What a name means that a script does not declare. -/
def standardKind (name : String) : KindSpec :=
  if name = "system" then .heap
  else if name = "faulty" then .faulty
  else if name = "arena" then .arena Arena.defaultKind Arena.Config.standard
  else .broken ⟨name⟩ "unknown kind"

/-- The kind that a specification under a name describes. -/
def KindSpec.kind {τ : Type} (name : String) : KindSpec → Kind KindRef Nat (Session τ)
  | heap => .heap
  | faulty => .faulty
  | arena id config => .arena id config
  | flaky id config => .flaky id config
  | broken id reason => .broken id reason
  | layered spec =>
    { id := spec.id, name := spec.name, create := spec.create name, close := spec.close name }

def Catalog.kind {τ : Type} (catalog : Catalog) : KindRef → Kind KindRef Nat (Session τ)
  | .heap => .heap
  | .faulty => .faulty
  | .named name => ((catalog.lookup name).getD (standardKind name)).kind name

def productionFixture : Fixture KindRef := ⟨"default", .heap⟩

/-- The fixture whose allocator fails where a replay says so. -/
def testFixture : Fixture KindRef := ⟨"test", .faulty⟩

/-- The texts of the events among journal entries. -/
def eventsOf (entries : List Entry) : List String :=
  entries.filterMap fun
    | .event text => some text
    | _ => none

def recordsOf (entries : List Entry) : List Record :=
  entries.filterMap fun
    | .record r => some r
    | _ => none

def linesOf (level : Level) (records : List Record) : List String :=
  (records.filter (Record.isAtLeast level)).map Record.line

/-- Ids in brackets. -/
def idsText (ids : List KindId) : String :=
  "[" ++ ",".intercalate (ids.map (·.name)) ++ "]"

end MemoryTrial.Script
