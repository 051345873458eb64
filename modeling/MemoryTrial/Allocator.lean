import MemoryTrial.Arena.Operations
import MemoryTrial.Heap.Faulty

/-! Allocators of every kind behind one set of requests. -/

namespace MemoryTrial

/-- A request to an allocator, with the type of its answer. -/
inductive Request : Type → Type
  | grab (n : Nat) : Request (Option Ptr)
  | release (p : Ptr) : Request Unit
  /-- Makes a block hold `n` bytes. -/
  | resize (p : Ptr) (n : Nat) : Request (Option Ptr)
  | payload (p : Ptr) : Request ByteArray
  /-- Replaces the bytes of a block by what a function makes of them. -/
  | edit (p : Ptr) (f : ByteArray → ByteArray) : Request Unit

def Arena.perform {α : Type} : Request α → Op Arena α
  | .grab n => grab n
  | .release p => release p
  | .resize p n => resize p n
  | .payload p => payload p
  | .edit p f => editPayload p f

def Heap.perform {α : Type} : Request α → Op Heap α
  | .grab n => grab n
  | .release p => release p
  | .resize p n => resize p n
  | .payload p => payload p
  | .edit p f => editPayload p f

/-- A request to a faulty heap: only those that ask for memory have checkpoints. -/
def FaultyHeap.perform {α : Type} : Request α → Op (FaultyHeap × Option Frame) α
  | .grab n => grab n
  | .resize p n => resize p n
  | .release p => onHeap (Heap.release p)
  | .payload p => onHeap (Heap.payload p)
  | .edit p f => onHeap (Heap.editPayload p f)

/-- An allocator.  Requests come to one of these: the arena, the heap and the faulty heap, or the arena
behind checkpoints that clients build from the first.  A kind of a client wraps one of them, and what
else it does is in the programs for its creation and its teardown (`Kind`).  So what a request does
depends on the allocator and the active replay alone. -/
inductive Allocator
  | arena (a : Arena)
  /-- An arena with a checkpoint before each request for memory. -/
  | flaky (a : Arena)
  | heap (h : Heap)
  | faulty (f : FaultyHeap)

namespace Allocator

def empty : Allocator := heap Heap.empty

/-- A request to an allocator, on a thread with an active replay or none. -/
def perform {α : Type} (r : Request α) : Op (Allocator × Option Frame) α := fun s =>
  match s with
  | (arena a, active) => onArena arena r a active
  | (flaky a, active) =>
    match r with
    | .grab n => guard (Request.grab n) a active
    | .resize p n => guard (Request.resize p n) a active
    | .release p => onArena flaky (.release p) a active
    | .payload p => onArena flaky (.payload p) a active
    | .edit p f => onArena flaky (.edit p f) a active
  | (heap h, active) =>
    match Heap.perform r h with
    | ⟨value, h, records⟩ => ⟨value, (heap h, active), records⟩
  | (faulty f, active) =>
    match FaultyHeap.perform r (f, active) with
    | ⟨value, (f, active), records⟩ => ⟨value, (faulty f, active), records⟩
where
  /-- A request to the arena of an allocator. -/
  onArena {β : Type} (wrap : Arena → Allocator) (r : Request β) (a : Arena)
      (active : Option Frame) : Result (Allocator × Option Frame) β :=
    match Arena.perform r a with
    | ⟨value, a, records⟩ => ⟨value, (wrap a, active), records⟩
  /-- A request for memory behind a checkpoint. -/
  guard (r : Request (Option Ptr)) (a : Arena) (active : Option Frame) :
      Result (Allocator × Option Frame) (Option Ptr) :=
    match checkpoint active with
    | ⟨.ok true, active, records⟩ => ⟨.ok none, (flaky a, active), records⟩
    | ⟨.ok false, active, records⟩ => Result.after records (onArena flaky r a active)
    | ⟨.error p, active, records⟩ => ⟨.error p, (flaky a, active), records⟩

def teardown : Op Allocator Unit
  | arena a => wrap arena (Arena.teardown a)
  | flaky a => wrap flaky (Arena.teardown a)
  | heap h => wrap heap (Heap.teardown h)
  | faulty f => wrap (fun heap => faulty { f with heap }) (Heap.teardown f.heap)
where
  wrap {τ : Type} (f : τ → Allocator) (r : Result τ Unit) : Result Allocator Unit :=
    ⟨r.value, f r.state, r.records⟩

end Allocator

end MemoryTrial
