import MemoryTrial.Arena.Basic

/-! The requests that an arena serves.  A search goes once round the buffer from the cursor and
takes the first free run that is large enough; free neighbours are merged when the search comes by
them, and not before. -/

namespace MemoryTrial.Arena

def withHeader (a : Arena) (offset : Nat) (h : Header) : Arena :=
  { a with buffer := a.buffer.setHeader offset h }

/-- Merges what begins at `offset` into one free node of `merged` bytes.  A cursor on a node that
disappears moves to the node after the merged one. -/
def merge (a : Arena) (offset merged : Nat) : Arena :=
  let cursor :=
    if offset < a.cursor ∧ a.cursor < offset + merged then a.successor offset merged else a.cursor
  { a with buffer := a.buffer.setHeader offset (.free merged), cursor }

/-- Hands out the first `need` of the `size` free bytes at `offset`.  What is left becomes a free
node, which may be a header alone. -/
def split (a : Arena) (offset size need : Nat) : Arena :=
  if need < size then
    { a with
      buffer := (a.buffer.setHeader offset (.taken need)).setHeader (offset + need)
        (.free (size - need))
      cursor := offset }
  else { a with buffer := a.buffer.setHeader offset (.taken size), cursor := offset }

/-- Hands out `need` bytes from the front of the node at `offset`. -/
def takeNode (offset need : Nat) : Op Arena Ptr := do
  let h ← Op.inspect fun a => a.buffer.header offset
  if h.size < need then
    Op.raise (.message "assertion failed: need <= size")
  else
    Op.modify fun a => a.split offset h.size need
    return ⟨offset + headerSize, Nat.succ_pos _⟩

/-- Serves a request for `n` bytes from the node at `offset`. -/
def place (n need offset : Nat) : Op Arena (Option Ptr) := do
  let p ← takeNode offset need
  Op.log (.grabPlaced n offset)
  return some p

/-- Looks for `need` free bytes, for a request of `n`, from the node at `offset` on, after the
search has passed `walked` of the `len` bytes. -/
def search (len n need offset walked : Nat) (a : Arena) : Result Arena (Option Ptr) :=
  if walked < len then
    match _hr : a.buffer.header offset with
    | .error p => Op.raise p a
    | .ok h =>
      if h.allocated then
        search len n need (a.successor offset h.size) (walked + h.size) a
      else
        match _hm : a.buffer.freeRun offset h.size with
        | .error p => Op.raise p a
        | .ok merged =>
          if merged = h.size then
            if need ≤ h.size then place n need offset a
            else search len n need (a.successor offset h.size) (walked + h.size) a
          else
            Result.after [.coalesced h.size merged offset] <|
              if need ≤ merged then place n need offset (a.merge offset merged)
              else
                search len n need (a.successor offset merged) (walked + merged)
                  (a.merge offset merged)
  else ⟨.ok none, a, [.grabFailed n need]⟩
termination_by len - walked
decreasing_by
  all_goals have := Buffer.header_bounds _hr
  · omega
  · omega
  · have := Buffer.le_freeRun _hm
    omega

def grab (n : Nat) : Op Arena (Option Ptr) := do
  Op.inspect ensureLive
  let len ← Op.read Arena.len
  match (blockSize n).filter (· ≤ len) with
  | some need => fun a => search len n need a.cursor 0 a
  | none =>
    Op.log (.grabTooLarge n)
    return none

/-- Marks the node at `offset` as free.  A search then begins no later than there. -/
def freeNode (a : Arena) (node : Node) : Arena :=
  let cursor := min node.offset a.cursor
  if a.poison then
    { a with
      buffer := (a.buffer.setHeader node.offset (.free node.size)).put node.address
        (Bytes.replicate (node.size - headerSize) releasedPoison)
      cursor }
  else { a with buffer := a.buffer.setHeader node.offset (.free node.size), cursor }

def release (p : Ptr) : Op Arena Unit := do
  Op.inspect ensureLive
  let node ← Op.inspect fun a => a.takenNode p .doubleRelease
  Op.modify fun a => a.freeNode node
  Op.log (.released node.offset node.size)

/-- Copies `count` bytes from offset `source` to offset `target`. -/
def copyBytes (source count target : Nat) : Op Arena Unit := do
  let len ← Op.read Arena.len
  if len < source + count then Op.raise (.message "source range is out of bounds")
  else if len < target + count then Op.raise (.message "dest is out of bounds")
  else
    Op.modify fun a =>
      { a with buffer := a.buffer.put target (a.buffer.slice source (source + count)) }

/-- Makes the block `p` hold `n` bytes: where it is, when the free nodes behind it suffice, and else
in a new block that takes over the bytes that fit.  When there is no such block, nothing happens to
`p`. -/
def resize (p : Ptr) (n : Nat) : Op Arena (Option Ptr) := do
  Op.inspect ensureLive
  let node ← Op.inspect fun a => a.takenNode p .doubleRelease
  let available ← Op.inspect fun a => a.buffer.freeRun node.offset node.size
  match (blockSize n).filter (· ≤ available) with
  | some need =>
    Op.modify fun a => a.withHeader node.offset (.free available)
    Op.log (.resizedInPlace n node.offset)
    let q ← takeNode node.offset need
    return some q
  | none =>
    match ← grab n with
    | none => return none
    | some q =>
      copyBytes p.addr (min (node.size - headerSize) n) q.addr
      release p
      Op.log (.resizedMoved n node.offset q)
      return some q

/-- The node of a block whose bytes are used. -/
def usedNode (p : Ptr) : Op Arena Node := do
  Op.inspect ensureLive
  Op.inspect fun a => a.takenNode p .useAfterRelease

def payload (p : Ptr) : Op Arena ByteArray := do
  let node ← usedNode p
  Op.read fun a => a.buffer.slice node.address node.stop

/-- Replaces the bytes of the block `p` by what `f` makes of them; their number stays. -/
def editPayload (p : Ptr) (f : ByteArray → ByteArray) : Op Arena Unit := do
  let node ← usedNode p
  Op.modify fun a =>
    let bytes := f (a.buffer.slice node.address node.stop)
    { a with
      buffer := a.buffer.put node.address (Bytes.fitted (node.size - headerSize) bytes) }

/-- Ends the arena.  Doing so again changes nothing. -/
def teardown : Op Arena Unit := do
  if ← Op.read Arena.live then
    Op.modify fun a =>
      { a with
        buffer := if a.poison then a.buffer.fill releasedPoison else a.buffer, live := false }
    let kind ← Op.read Arena.kind
    Op.log (.arenaDestroyed kind)
  else
    return ()

end MemoryTrial.Arena
