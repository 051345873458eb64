import MemoryTrial.World.Client

/-! Memory calls of client programs: through the handle of an instance, and through the default
allocator of the thread, which is resolved afresh for every call. -/

namespace MemoryTrial

variable {κ η σ : Type}

namespace Handle

/-- Allocates `n` bytes; a request for none has no block. -/
def allocate (h : Handle) (n : Nat) : Client κ η σ (Option Ptr) :=
  if n = 0 then return none else .ask (.use h (.grab n))

/-- Gives a block back, if there is one. -/
def free (h : Handle) : Option Ptr → Client κ η σ Unit
  | some p => .ask (.use h (.release p))
  | none => return ()

/-- Makes a block hold `n` bytes.  Without a block this allocates, and a block of no bytes is given
back. -/
def resize (h : Handle) (p : Option Ptr) (n : Nat) : Client κ η σ (Option Ptr) :=
  match p with
  | none => h.allocate n
  | some p =>
    if n = 0 then do
      h.free (some p)
      return none
    else .ask (.use h (.resize p n))

def bytes (h : Handle) (p : Ptr) : Client κ η σ ByteArray :=
  .within h p id (fun bytes => return bytes) .pure

def edit (h : Handle) (p : Ptr) (f : ByteArray → ByteArray) : Client κ η σ Unit :=
  .within h p f (fun _ => return ()) .pure

end Handle

namespace Memory

/-- The instance that memory calls of the thread go to. -/
def defaultAllocator : Client κ η σ (Except ConfigError Handle) := do
  let f ← Client.ask .fixture
  Client.ask (.lookUp f.kind)

/-- The default allocator; when it cannot be built, this is reported. -/
def resolve : Client κ η σ (Option Handle) := do
  match ← defaultAllocator with
  | .ok h => return some h
  | .error e => do
    Client.ask (.compute (Op.log (.noDefaultAllocator e)))
    return none

def allocate (n : Nat) : Client κ η σ (Option Ptr) := do
  match ← resolve with
  | some h => h.allocate n
  | none => return none

def resize (p : Option Ptr) (n : Nat) : Client κ η σ (Option Ptr) := do
  match ← resolve with
  | some h => h.resize p n
  | none => return none

/-- Gives a block back, if there is one. -/
def free : Option Ptr → Client κ η σ Unit
  | none => return ()
  | some p => do
    match ← resolve with
    | some h => h.free (some p)
    | none => return ()

/-- Uses the bytes of a block of the default allocator, as `Client.within` does. -/
def within {α : Type} (p : Ptr) (edit : ByteArray → ByteArray)
    (body : ByteArray → Client κ η σ α) : Client κ η σ α := do
  match ← resolve with
  | some h => .within h p edit body .pure
  | none => Client.raise (.violation (.unknownPointer p))

def bytes (p : Ptr) : Client κ η σ ByteArray := within p id fun bytes => return bytes

def edit (p : Ptr) (f : ByteArray → ByteArray) : Client κ η σ Unit := within p f fun _ => return ()

end Memory

end MemoryTrial
