import MemoryTrial.Pointer

/-! What can go wrong, by cause.  A `ConfigError` is an answer that setup code may act on.  A
`Violation` is a broken promise of the caller: it unwinds the running operation as a `Panic`.
Running out of memory is neither; it is the answer `none`.  But a table or buffer that cannot fit
any memory (`reserve`) unwinds too. -/

namespace MemoryTrial

/-- Why an allocator cannot be built. -/
inductive ConfigError
  /-- The buffer has fewer bytes than the smallest block. -/
  | bufferTooSmall (bytes minimum : Nat)
  /-- The size of the buffer is no multiple of 16. -/
  | bufferNotMultipleOf16 (bytes : Nat)
  /-- The kind could not build an instance. -/
  | kindCreateFailed (kind : KindId) (reason : String)
  deriving DecidableEq

def ConfigError.message : ConfigError → String
  | .bufferTooSmall bytes minimum => s!"buffer too small: {bytes} bytes, minimum {minimum}"
  | .bufferNotMultipleOf16 bytes => s!"buffer size {bytes} is not a multiple of 16"
  | .kindCreateFailed kind reason => s!"cannot create allocator '{kind.name}': {reason}"

/-- A promise that the caller of an allocator or a replay broke. -/
inductive Violation
  /-- Released or resized a block that is not allocated. -/
  | doubleRelease (ptr : Ptr)
  /-- Used the payload of a block that is not allocated. -/
  | useAfterRelease (ptr : Ptr)
  /-- The header word `raw` at `offset` holds a size that cannot tile the buffer. -/
  | corruptHeader (offset raw : Nat)
  /-- The pointer lies outside the buffer. -/
  | outOfBounds (ptr : Ptr) (len : Nat)
  /-- The pointer is no multiple of the header size. -/
  | misalignedPointer (ptr : Ptr)
  /-- The allocator never issued the pointer. -/
  | unknownPointer (ptr : Ptr)
  /-- A run passed more checkpoints than a frame records. -/
  | checkpointOverflow (limit : Nat)
  /-- The allocator was torn down before. -/
  | destroyedAllocator (kind : KindId)
  /-- The allocator was called from inside one of its own operations. -/
  | reentrantUse (kind : KindId)
  deriving DecidableEq

def Violation.message : Violation → String
  | .doubleRelease ptr => s!"double release of block {ptr.text}"
  | .useAfterRelease ptr => s!"use of released block {ptr.text}"
  | .corruptHeader offset raw =>
    s!"corrupted node header at offset {offset}: {Text.hexPadded 16 raw}"
  | .outOfBounds ptr len => s!"pointer {ptr.text} outside buffer of {len} bytes"
  | .misalignedPointer ptr => s!"pointer {ptr.text} is not header-aligned"
  | .unknownPointer ptr => s!"pointer {ptr.text} was not issued by this allocator"
  | .checkpointOverflow limit => s!"too many allocation requests: more than {limit} checkpoints"
  | .destroyedAllocator kind => s!"allocator '{kind.name}' used after teardown"
  | .reentrantUse kind => s!"allocator '{kind.name}' re-entered while busy"

/-- Why an operation was cut short. -/
inductive Panic
  | violation (v : Violation)
  /-- A table of `length` items was asked for item `index`. -/
  | outOfRange (length index : Nat)
  /-- More bytes were asked for at once than any memory has. -/
  | capacityOverflow
  /-- Anything else, raised with its text. -/
  | message (text : String)
  deriving DecidableEq

def Panic.text : Panic → String
  | .violation v => v.message
  | .outOfRange length index =>
    s!"index out of bounds: the len is {length} but the index is {index}"
  | .capacityOverflow => "capacity overflow"
  | .message text => text

def Panic.isViolation : Panic → Bool
  | .violation _ => true
  | _ => false

/-- The word for the sort of a panic. -/
def Panic.sort (p : Panic) : String := if p.isViolation then "fatal" else "panic"

/-- Half of the 64-bit addresses: no memory is so large, so that a sum of two offsets into it fits a
word. -/
def memoryLimit : Nat := 0x8000000000000000

/-- Sets so many bytes aside, as far as there can be so many.  This is for tables, of which a process
that the system refuses memory would abort: between the limit of the system (`Heap.grants`) and this
one they count as held. -/
def reserve (bytes : Nat) : Except Panic Unit :=
  if bytes < memoryLimit then .ok () else .error .capacityOverflow

theorem reserve_eq_ok_iff {bytes : Nat} : reserve bytes = .ok () ↔ bytes < memoryLimit := by
  unfold reserve
  split
  next h => exact iff_of_true rfl h
  next h => exact iff_of_false nofun h

end MemoryTrial
