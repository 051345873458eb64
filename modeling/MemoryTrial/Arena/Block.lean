import MemoryTrial.Arena.Config

/-! Blocks and their headers.  A header is one 64-bit word that holds the size of its block, which
is even, and in bit 0 whether the block is handed out. -/

namespace MemoryTrial.Arena

/-- The number of 64-bit words' values: sizes are below it. -/
def wordLimit : Nat := 0x10000000000000000

/-- `a + b`, unless it does not fit a word. -/
def checkedAdd (a b : Nat) : Option Nat := if a + b < wordLimit then some (a + b) else none

/-- The size of the block for a request of `n` bytes: a header and `n` rounded up to whole words,
and at least the smallest block.  A size that does not fit a word is `none`. -/
def blockSize (n : Nat) : Option Nat :=
  if n < headerSize then some minBlock
  else do
    let padded ← checkedAdd n 7
    checkedAdd (padded / 8 * 8) headerSize

/-- What a header word says: the size of its block, header included, and whether it is handed
out. -/
structure Header where
  size : Nat
  allocated : Bool
  deriving DecidableEq

namespace Header

def ofWord (raw : Nat) : Header := ⟨raw / 2 * 2, raw % 2 = 1⟩

def toWord (h : Header) : Nat := if h.allocated then h.size / 2 * 2 + 1 else h.size

def free (size : Nat) : Header := ⟨size, false⟩

def taken (size : Nat) : Header := ⟨size, true⟩

/-- A block of whole words that ends within `room` bytes. -/
def Fits (h : Header) (room : Nat) : Prop := 8 ≤ h.size ∧ h.size % 8 = 0 ∧ h.size ≤ room

instance (h : Header) (room : Nat) : Decidable (h.Fits room) := by
  unfold Fits; infer_instance

/-- A header of even size is read back from its word. -/
theorem ofWord_toWord {h : Header} (even : h.size % 2 = 0) : ofWord h.toWord = h := by
  obtain ⟨size, allocated⟩ := h
  cases allocated <;> simp only [ofWord, toWord, Header.mk.injEq] at * <;> simp <;> omega

end Header

/-- A node of the tiling of a buffer: where its header is, its size, header included, and whether
it is handed out. -/
structure Node where
  offset : Nat
  size : Nat
  allocated : Bool
  deriving DecidableEq

namespace Node

def address (node : Node) : Nat := node.offset + headerSize

def stop (node : Node) : Nat := node.offset + node.size

end Node

end MemoryTrial.Arena
