import MemoryTrial.World.Client

/-! The registry: it caches one instance for each kind id and destroys them newest first.  A kind's
creation and an instance's teardown are client programs, which may use the registry themselves;
`nested` runs them. -/

namespace MemoryTrial

/-- Runs programs inside calls. -/
abbrev Nested (κ η σ : Type) : Type 1 := {β : Type} → Client κ η σ β → Run κ η σ β

namespace Run

variable {κ η σ α : Type} (env : Environment κ η σ) (nested : Nested κ η σ)

def instanceOf (h : Handle) : Run κ η σ (Instance κ) := do
  let w ← get
  match w.instances[h.number]? with
  | some inst => return inst
  | none => raise (.outOfRange w.instances.size h.number)

def modifyInstance (h : Handle) (f : Instance κ → Instance κ) : Run κ η σ Unit :=
  modify fun w => { w with instances := w.instances.modify h.number f }

/-- The instance of a handle and its allocator, for an operation.  Neither a busy instance nor a
destroyed one can be used. -/
def liveInstance (h : Handle) : Run κ η σ (Instance κ × Allocator) := do
  let inst ← instanceOf h
  if inst.busy then fatal (.reentrantUse inst.id)
  else
    match inst.state with
    | some a => return (inst, a)
    | none => do
      note [.denied h]
      fatal (.destroyedAllocator inst.id)

/-- Does an operation on an instance's allocator, which is `a`.  The instance is without it in the
meantime, so that its memory is changed in place. -/
def onAllocator (h : Handle) (a : Allocator) (x : Op (Allocator × Option Frame) α) :
    Run κ η σ α := do
  modifyInstance h fun inst => { inst with state := none }
  onPart (fun w => (a, w.frame))
    (fun s w => { w with
      instances := w.instances.modify h.number fun inst => { inst with state := some s.1 }
      frame := s.2 })
    x

def use (h : Handle) (r : Request α) : Run κ η σ α := do
  let (_, a) ← liveInstance h
  onAllocator h a (Allocator.perform r)

/-- Changes the bytes of a block of an instance by `edit`, and does `body` with the bytes that were
there; until it ends the instance is busy. -/
def within (h : Handle) (p : Ptr) (edit : ByteArray → ByteArray)
    (body : ByteArray → Run κ η σ α) : Run κ η σ α := do
  let (_, a) ← liveInstance h
  modifyInstance h fun inst => { inst with busy := true }
  let inside : Run κ η σ α := do
    let bytes ← onAllocator h a do
      let bytes ← Allocator.perform (.payload p)
      Allocator.perform (.edit p edit)
      return bytes
    body bytes
  ensuring inside fun w =>
    { w with instances := w.instances.modify h.number fun inst => { inst with busy := false } }

/-- Whether an instance was destroyed.  A busy one was not. -/
def isDestroyed (h : Handle) : Run κ η σ Bool := do
  let inst ← instanceOf h
  return !inst.busy && inst.state.isNone

/-- Does `x` and collects the handles that it looks up. -/
def obtaining (x : Run κ η σ α) : Run κ η σ (α × List Handle) := do
  let outer := (← get).obtained
  modify fun w => { w with obtained := [] }
  let inside : Run κ η σ (α × List Handle) := do
    let a ← x
    return (a, (← get).obtained)
  ensuring inside fun w => { w with obtained := outer }

/-- Does `x` as a task inside what is under way. -/
def during (task : Task κ) (x : Run κ η σ α) : Run κ η σ α := do
  let outer := (← get).tasks.active
  modify fun w => { w with tasks := ⟨task :: outer, (task :: outer) :: w.tasks.begun⟩ }
  ensuring x fun w => { w with tasks := ⟨outer, w.tasks.begun⟩ }

def create (k : κ) (shared : Bool) : Run κ η σ (Except ConfigError Handle) := do
  let kind := env.kind k
  let (built, sources) ← obtaining (nested kind.create)
  match built with
  | .error e => return .error e
  | .ok built => do
    log (.instanceCreated kind.name)
    let h : Handle := ⟨(← get).instances.size⟩
    let inst : Instance κ :=
      { kind := k, id := kind.id, name := kind.name, state := some built.allocator, busy := false,
        holdings := built.holdings, sources, shared }
    modify fun w => { w with instances := w.instances.push inst }
    return .ok h

/-- The teardown of an instance, whose allocator is `a`. -/
def tearDown (inst : Instance κ) (a : Allocator) : Run κ η σ Unit := do
  let _ ← obtaining (nested ((env.kind inst.kind).close inst.holdings))
  compute fun _ =>
    let r := a.teardown
    ⟨r.value, (), r.records⟩
  log (.instanceDestroyed inst.name)

/-- Destroys an instance, unless that was done before.  From then on it cannot be used, also not by
its own teardown. -/
def destroy (h : Handle) : Run κ η σ Unit := do
  let inst ← instanceOf h
  if inst.busy then fatal (.reentrantUse inst.id)
  else
    match inst.state with
    | none => return ()
    | some a => do
      modifyInstance h fun inst => { inst with state := none }
      note [.tornDown h]
      ensuring (during (.teardown h inst.kind) (tearDown env nested inst a)) fun w =>
        { w with journal := w.journal.push (.closed h) }

/-- Puts a hook into the table of exit hooks, before the first entry that does not have a higher
priority, unless it is there. -/
def insertHook [DecidableEq η] (hook : Hook η) (priority : Int)
    (table : List (HookEntry η)) : Option (List (HookEntry η)) :=
  if table.any (·.hook = hook) then none
  else
    some (table.takeWhile (priority < ·.priority) ++
      ⟨hook, priority⟩ :: table.dropWhile (priority < ·.priority))

/-- Registers an exit hook, and answers whether it was not in the table. -/
def register [DecidableEq η] (hook : Hook η) (priority : Int) : Run κ η σ Bool := do
  match insertHook hook priority (← get).hooks.entries with
  | none =>
    modify fun w => { w with hooks := w.hooks.note (.registered ⟨hook, priority⟩ false) }
    return false
  | some entries =>
    modify fun w =>
      { w with hooks := ⟨entries, .registered ⟨hook, priority⟩ true :: w.hooks.past⟩ }
    return true

/-- Before its first use the registry registers its teardown as an exit hook. -/
def reachRegistry [DecidableEq η] : Run κ η σ Unit := do
  if !(← get).teardownHooked then
    modify fun w => { w with teardownHooked := true }
    let _ ← register .teardown allocatorExitPriority

/-- Remembers that the running creation looked up a handle. -/
def obtain (h : Handle) : Run κ η σ Handle := do
  modify fun w => { w with obtained := h :: w.obtained }
  return h

/-- The cached instance of a kind.  On first use it is created; if its creation looked up its own
kind, the instance that was cached then is kept and the new one destroyed. -/
def lookUp [DecidableEq η] (k : κ) : Run κ η σ (Except ConfigError Handle) := do
  reachRegistry
  let id := (env.kind k).id
  match (← get).cache.lookup id with
  | some found => return .ok (← obtain found)
  | none =>
    match ← create env nested k true with
    | .error e => return .error e
    | .ok h =>
      match (← get).cache.lookup id with
      | some found => do
        destroy env nested h
        return .ok (← obtain found)
      | none =>
        modify fun w => { w with cache := w.cache ++ [(id, h)] }
        return .ok (← obtain h)

/-- A new instance that is not cached. -/
def build [DecidableEq η] (k : κ) : Run κ η σ (Except ConfigError Handle) := do
  reachRegistry
  create env nested k false

/-- Destroys an instance; if it is the cached one of its kind, it leaves the cache first. -/
def delete [DecidableEq η] (h : Option Handle) : Run κ η σ Unit := do
  reachRegistry
  match h with
  | none => return ()
  | some h => do
    let inst ← instanceOf h
    modify fun w =>
      if w.cache.lookup inst.id = some h then
        { w with cache := w.cache.filter (·.1 ≠ inst.id) }
      else w
    destroy env nested h

/-- Takes the newest cached instance out of the cache and destroys it, until none is left.  A
teardown may cache new instances; `rounds` bounds how many are destroyed. -/
def drainCache : (rounds : Nat) → Run κ η σ Unit
  | 0 => throw .endless
  | rounds + 1 => do
    match (← get).cache.getLast? with
    | none => return ()
    | some (_, newest) => do
      modify fun w => { w with cache := w.cache.dropLast }
      destroy env nested newest
      drainCache rounds

/-- The ids of the cached instances, oldest first. -/
def kinds [DecidableEq η] : Run κ η σ (List KindId) := do
  reachRegistry
  return (← get).cache.map (·.1)

/-- Starts an exit hook. -/
def handle (bound : Nat) (entry : HookEntry η) : Run κ η σ Unit := do
  modify fun w => { w with hooks := w.hooks.note (.started entry) }
  log (.exitHook entry.priority)
  match entry.hook with
  | .teardown => drainCache env nested bound
  | .client hook => nested (env.hook hook)

/-- Takes all hooks out of the table and runs them in order, until none is left.  A hook may
register hooks, which run after all that were taken out with it; `rounds` bounds how often the table
is emptied, and how many instances the registry's teardown destroys. -/
def drainHooks (bound : Nat) : (rounds : Nat) → Run κ η σ Unit
  | 0 => throw .endless
  | rounds + 1 => do
    match (← get).hooks.entries with
    | [] => return ()
    | taken => do
      modify fun w => { w with hooks := ⟨[], .emptied :: w.hooks.past⟩ }
      runAll taken
      drainHooks bound rounds
where
  runAll : List (HookEntry η) → Run κ η σ Unit
    | [] => return ()
    | entry :: rest => do
      handle env nested bound entry
      runAll rest

end Run

end MemoryTrial
