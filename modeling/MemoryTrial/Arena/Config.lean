import MemoryTrial.Failure

/-! The sizes of an arena: header, smallest block and buffer.  Arenas are those of a debug build, with
its checks on: sums are checked for overflow, a buffer has poison unless told otherwise, and a pointer
is looked up among the nodes (`Arena.nodeOf`). -/

namespace MemoryTrial.Arena

/-- Bytes of a header, and the alignment of nodes. -/
def headerSize : Nat := 8

/-- The smallest block: a header and one word. -/
def minBlock : Nat := 16

/-- Bytes of a buffer whose size is not given. -/
def defaultCapacity : Nat := 1048576

structure Config where
  capacity : Nat
  /-- Whether the buffer is filled with a pattern at the start and released payloads with another,
  which shows the use of stale bytes. -/
  poison : Bool
  deriving DecidableEq

/-- A buffer of the usual size, with poison. -/
def Config.standard : Config := ⟨defaultCapacity, true⟩

/-- A buffer of `capacity` bytes, with poison. -/
def Config.ofCapacity (capacity : Nat) : Config := ⟨capacity, true⟩

/-- A buffer holds the smallest block, and its size is a multiple of 16.  Of two faults the small
size is reported. -/
def validateCapacity (bytes : Nat) : Except ConfigError Unit :=
  if bytes < minBlock then .error (.bufferTooSmall bytes minBlock)
  else if bytes % 16 ≠ 0 then .error (.bufferNotMultipleOf16 bytes)
  else .ok ()

/-- Whether an arena can have this configuration. -/
def Config.validate (c : Config) : Except ConfigError Unit := validateCapacity c.capacity

end MemoryTrial.Arena
