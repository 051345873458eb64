import MemoryTrial.Bytes
import MemoryTrial.Op

/-! The system heap: blocks of bytes in a table of slots.  A pointer holds the number of a slot and
the generation of the block in it.  Releasing a block moves its slot to the next generation, so the
pointer stays invalid when the slot is used again; a slot without generations left is retired. -/

namespace MemoryTrial

/-- A place for a block, and the generation of the block that it holds or will hold next. -/
structure Slot where
  generation : UInt32
  block : Option ByteArray

/-- A table of blocks. -/
structure Heap where
  slots : Array Slot
  /-- The empty slots that can be used again, the next one first. -/
  freeSlots : List Nat
  live : Nat

namespace Heap

def empty : Heap := ⟨#[], [], 0⟩

/-- The bytes that a process can address: the system refuses to grow by so many or more. -/
def growthLimit : Nat := 0x800000000000

/-- Whether the system has memory for `growth` more bytes.  This is for blocks, which are refused where
it has not; tables have the wider limit of `reserve`. -/
def grants (growth : Nat) : Bool := growth < growthLimit

/-- The number of generations of a slot. -/
def generations : Nat := 0x100000000

/-- A slot has a number of 32 bits, from 1: there are fewer numbered slots than this. -/
def slotLimit : Nat := 0x100000000

/-- The pointer to a block: the number of its slot, from 1, above 32 bits of generation.  The word has
64 bits, so that the number is lost from above; where nothing is left of the word there is no
pointer. -/
def encode (slot : Nat) (generation : UInt32) : Option Ptr :=
  Ptr.ofAddr? ((slot + 1) % slotLimit * generations + generation.toNat)

/-- The slot and generation that a pointer holds.  A small address holds no slot. -/
def decode (p : Ptr) : Option (Nat × UInt32) :=
  if generations ≤ p.addr then some (p.addr / generations - 1, UInt32.ofNat p.addr) else none

/-- A block in a heap: where it is, and its bytes. -/
structure Block where
  slot : Nat
  generation : UInt32
  bytes : ByteArray

/-- The block `p`, if there is such a block. -/
def find? (h : Heap) (p : Ptr) : Option Block := do
  let (i, generation) ← decode p
  let slot ← h.slots[i]?
  if slot.generation = generation then slot.block.map (⟨i, generation, ·⟩) else none

/-- What it is to release or resize a pointer that names no block. -/
def misuse (h : Heap) (p : Ptr) : Violation :=
  match decode p with
  | some (i, _) => if i < h.slots.size then .doubleRelease p else .unknownPointer p
  | none => .unknownPointer p

/-- The heap with other bytes in a slot. -/
def setBlock (h : Heap) (slot : Nat) (generation : UInt32) (bytes : ByteArray) : Heap :=
  { h with slots := h.slots.setIfInBounds slot ⟨generation, some bytes⟩ }

/-- The heap without a block that it holds. -/
def drop (h : Heap) (b : Block) : Heap :=
  { slots := h.slots.setIfInBounds b.slot ⟨b.generation + 1, none⟩
    freeSlots := if b.generation + 1 = 0 then h.freeSlots else b.slot :: h.freeSlots
    live := h.live - 1 }

/-- Puts a block into the next slot, and answers with the pointer to it.  A slot past the numbered ones
takes its block as well, although no pointer to it, or one to another slot, is the answer. -/
def insert (bytes : ByteArray) : Op Heap (Option Ptr) := fun
  | ⟨slots, [], live⟩ =>
    ⟨.ok (encode slots.size 0), ⟨slots.push ⟨0, some bytes⟩, [], live + 1⟩, []⟩
  | ⟨slots, i :: rest, live⟩ =>
    match slots[i]? with
    | none => Op.raise (.outOfRange slots.size i) ⟨slots, i :: rest, live⟩
    | some ⟨generation, _⟩ =>
      ⟨.ok (encode i generation),
        ⟨slots.setIfInBounds i ⟨generation, some bytes⟩, rest, live + 1⟩, []⟩

/-- Allocates `n` bytes, all zero, if the system grants them. -/
def grabIf (granted : Bool) (n : Nat) : Op Heap (Option Ptr) := do
  if granted then
    insert (Bytes.replicate n 0)
  else
    Op.log (.heapGrabRefused n)
    return none

def grab (n : Nat) : Op Heap (Option Ptr) := grabIf (grants n) n

def release (p : Ptr) : Op Heap Unit := do
  match ← Op.read fun h => h.find? p with
  | some b => Op.modify fun h => h.drop b
  | none => Op.fatal (← Op.read fun h => h.misuse p)

/-- Makes the block `p` hold `n` bytes, if the system grants its growth.  The pointer stays. -/
def resizeIf (granted : Nat → Bool) (p : Ptr) (n : Nat) : Op Heap (Option Ptr) := do
  match ← Op.read fun h => h.find? p with
  | none => Op.fatal (← Op.read fun h => h.misuse p)
  | some b =>
    if granted (n - b.bytes.size) then
      Op.modify fun h => h.setBlock b.slot b.generation (Bytes.fitted n b.bytes)
      return some p
    else
      Op.log (.heapResizeRefused p n)
      return none

/-- Makes the block `p` hold `n` bytes. -/
def resize (p : Ptr) (n : Nat) : Op Heap (Option Ptr) := resizeIf grants p n

/-- The block `p`, whose bytes are used. -/
def usedBlock (p : Ptr) : Op Heap Block := do
  match ← Op.read fun h => h.find? p with
  | some b => return b
  | none => Op.fatal (.useAfterRelease p)

def payload (p : Ptr) : Op Heap ByteArray := do
  let b ← usedBlock p
  return b.bytes

/-- Replaces the bytes of the block `p` by what `f` makes of them; their number stays. -/
def editPayload (p : Ptr) (f : ByteArray → ByteArray) : Op Heap Unit := do
  let b ← usedBlock p
  Op.modify fun h =>
    h.setBlock b.slot b.generation (Bytes.fitted b.bytes.size (f b.bytes))

/-- Drops all blocks, and reports those that were live. -/
def teardown : Op Heap Unit := do
  let live ← Op.read Heap.live
  if live ≠ 0 then
    Op.log (.blocksLeaked live)
  Op.set empty

end Heap

end MemoryTrial
