import MemoryTrial.Arena.Walk
import MemoryTrial.Op

/-! Arenas: how one is built, and what can be asked of it without changing it. -/

namespace MemoryTrial

/-- An allocator over one fixed buffer, which its nodes tile.  A pointer is the offset of a payload
in the buffer. -/
structure Arena where
  /-- The kind that diagnostics name. -/
  kind : KindId
  buffer : Arena.Buffer
  /-- The offset of the node where the next search begins. -/
  cursor : Nat
  /-- Whether released payloads are filled with a pattern. -/
  poison : Bool
  /-- Whether the arena was not torn down yet. -/
  live : Bool

namespace Arena

def freshPoison : UInt8 := 0xcc

def releasedPoison : UInt8 := 0xff

/-- The kind of an arena that no kind built. -/
def defaultKind : KindId := ⟨"arena"⟩

/-- An arena over a buffer, whose bytes do not matter: one free node covers it. -/
def ofBuffer {σ : Type} (buffer : Buffer) (poison : Bool) : Op σ (Except ConfigError Arena) :=
  match validateCapacity buffer.len with
  | .error e => pure (.error e)
  | .ok () => do
    let fresh := if poison then buffer.fill freshPoison else buffer
    Op.log (.arenaCreated buffer.len)
    pure (.ok
      { kind := defaultKind, buffer := fresh.setHeader 0 (.free buffer.len), cursor := 0,
        poison, live := true })

/-- An arena over a fresh buffer of zeros. -/
def ofConfig {σ : Type} (config : Config) : Op σ (Except ConfigError Arena) :=
  match config.validate with
  | .error e => pure (.error e)
  | .ok () =>
    match Buffer.filled? config.capacity 0 with
    | none => Op.raise .capacityOverflow
    | some buffer => ofBuffer buffer config.poison

/-- The arena with another kind in its diagnostics. -/
def withKind (a : Arena) (kind : KindId) : Arena := { a with kind }

/-- The size of the buffer in bytes. -/
def len (a : Arena) : Nat := a.buffer.len

/-- The nodes, in the order of the buffer, with free neighbours as separate nodes. -/
def nodes (a : Arena) : Except Panic (List Node) := a.buffer.nodes

/-- What is handed out and what is free. -/
def stats (a : Arena) : Except Panic Stats := a.nodes.map Stats.ofNodes

/-- Whether the nodes tile the buffer and the cursor is on one of them. -/
def check (a : Arena) : Except Panic (Except Violation Unit) :=
  a.buffer.checkFrom a.cursor 0 false

/-- The offset after the `size` bytes at `offset`; the end of the buffer is its start. -/
def successor (a : Arena) (offset size : Nat) : Nat :=
  if offset + size = a.len then 0 else offset + size

/-- The offset of the node whose payload is at `p`.  Bytes inside a payload can look like a header,
so only the start of a node will do.  This is the test of a debug build, which others leave out. -/
def nodeOf (a : Arena) (p : Ptr) : Except Panic Nat :=
  if p.addr < headerSize ∨ a.len < p.addr then .error (.violation (.outOfBounds p a.len))
  else if p.addr % headerSize ≠ 0 then .error (.violation (.misalignedPointer p))
  else do
    let found ← a.buffer.reaches (p.addr - headerSize) 0
    if found then .ok (p.addr - headerSize) else .error (.violation (.unknownPointer p))

/-- The node whose payload is at `p`, which must be handed out; `misuse` says what it is to use a
free one. -/
def takenNode (a : Arena) (p : Ptr) (misuse : Ptr → Violation) : Except Panic Node := do
  let offset ← a.nodeOf p
  let h ← a.buffer.header offset
  if h.allocated then .ok ⟨offset, h.size, true⟩ else .error (.violation (misuse p))

/-- An arena that was torn down serves no request. -/
def ensureLive (a : Arena) : Except Panic Unit :=
  if a.live then .ok () else .error (.violation (.destroyedAllocator a.kind))

end Arena

end MemoryTrial
