import MemoryTrial.World.Client

/-! The standard kinds of allocators. -/

namespace MemoryTrial

variable {κ η σ : Type}

namespace Kind

/-- A kind whose instances stand alone. -/
def simple (id : KindId) (create : Op Unit (Except ConfigError Allocator)) : Kind κ η σ where
  id := id
  name := id.name
  create := do
    let built ← Client.ask (.compute create)
    return built.map fun allocator => ⟨allocator, []⟩
  close _ := return ()

def heap : Kind κ η σ := simple ⟨"system"⟩ (return .ok (.heap Heap.empty))

/-- A system heap that fails where the active replay says so. -/
def faulty : Kind κ η σ := simple ⟨"faulty"⟩ (return .ok (.faulty FaultyHeap.empty))

/-- Arenas of one configuration, each over a fresh buffer. -/
def arena (id : KindId) (config : Arena.Config) : Kind κ η σ := simple id do
  let built ← Arena.ofConfig config
  return built.map fun a => .arena (a.withKind id)

/-- Arenas with a checkpoint before each request for memory. -/
def flaky (id : KindId) (config : Arena.Config) : Kind κ η σ := simple id do
  let built ← Arena.ofConfig config
  return built.map fun a => .flaky (a.withKind id)

/-- A kind that cannot create an instance. -/
def broken (id : KindId) (reason : String) : Kind κ η σ :=
  simple id (return .error (.kindCreateFailed id reason))

end Kind

end MemoryTrial
