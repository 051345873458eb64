import MemoryTrial.Text.Hex

/-! Pointers and the names of allocator kinds. -/

namespace MemoryTrial

/-- The address of a block.  No block has address 0; `none` of type `Option Ptr` says that there is
no block. -/
@[ext]
structure Ptr where
  addr : Nat
  addr_pos : 0 < addr
  deriving DecidableEq

namespace Ptr

/-- The pointer with an address, unless that is 0. -/
def ofAddr? (addr : Nat) : Option Ptr :=
  if h : 0 < addr then some ⟨addr, h⟩ else none

def text (p : Ptr) : String := Text.hex p.addr

/-- The text of a pointer that may be absent. -/
def textOrNull : Option Ptr → String
  | some p => p.text
  | none => "null"

@[simp] theorem ofAddr?_addr (p : Ptr) : ofAddr? p.addr = some p := by
  simp [ofAddr?, p.addr_pos]

end Ptr

/-- The name by which a registry tells kinds of allocators apart. -/
structure KindId where
  name : String
  deriving DecidableEq

end MemoryTrial
