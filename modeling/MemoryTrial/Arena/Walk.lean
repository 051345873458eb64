import MemoryTrial.Arena.Buffer

/-! Walks over the nodes of a buffer.  Each node's header says where the next node begins.  A header
whose size cannot tile the rest of the buffer ends every walk with `corruptHeader`, so each step
moves forward and stays inside the buffer, whatever the bytes are. -/

namespace MemoryTrial.Arena

namespace Buffer

/-- The header at `offset`.  A header whose block is not made of whole words that end inside the
buffer is corrupt. -/
@[inline] def header (b : Buffer) (offset : Nat) : Except Panic Header :=
  match b.word? (offset / 8) with
  | none => .error (.outOfRange (b.len / 8) (offset / 8))
  | some raw =>
    if (Header.ofWord raw).Fits (b.len - offset) then .ok (Header.ofWord raw)
    else .error (.violation (.corruptHeader offset raw))

/-- A header that is read lies inside the buffer, and so does its block. -/
theorem header_bounds {b : Buffer} {offset : Nat} {h : Header} (hr : b.header offset = .ok h) :
    offset < b.len ∧ 8 ≤ h.size ∧ h.size % 8 = 0 ∧ offset + h.size ≤ b.len := by
  unfold header at hr
  split at hr
  · cases hr
  · rename_i raw hw
    have hin := lt_of_word?_eq_some hw
    split at hr
    · rename_i hfits
      cases hr
      obtain ⟨h8, hmod, hroom⟩ := hfits
      exact ⟨by omega, h8, hmod, by omega⟩
    · cases hr

def setHeader (b : Buffer) (offset : Nat) (h : Header) : Buffer :=
  b.put (offset / 8 * 8) (littleEndian 8 h.toWord).toByteArray

@[simp] theorem len_setHeader (b : Buffer) (offset : Nat) (h : Header) :
    (b.setHeader offset h).len = b.len := by
  simp [setHeader]

/-- The nodes from `offset` to the end of the buffer, in order. -/
def nodesFrom (b : Buffer) (offset : Nat) : Except Panic (List Node) :=
  if offset < b.len then
    match _hr : b.header offset with
    | .error p => .error p
    | .ok h => do
      let rest ← nodesFrom b (offset + h.size)
      .ok (⟨offset, h.size, h.allocated⟩ :: rest)
  else .ok []
termination_by b.len - offset
decreasing_by have := header_bounds _hr; omega

/-- The nodes of the buffer, in order. -/
def nodes (b : Buffer) : Except Panic (List Node) := b.nodesFrom 0

/-- Whether the walk from `offset` comes by a node at `target`.  It stops at the first node that is
not before `target`. -/
def reaches (b : Buffer) (target offset : Nat) : Except Panic Bool :=
  if offset < b.len then
    match _hr : b.header offset with
    | .error p => .error p
    | .ok h =>
      if target < offset then .ok false
      else if offset = target then .ok true
      else reaches b target (offset + h.size)
  else .ok false
termination_by b.len - offset
decreasing_by have := header_bounds _hr; omega

/-- The bytes from `offset` on that a free node there has when the free nodes behind it are added,
given that it has the first `run` of them: up to the next node that is handed out or the end of the
buffer. -/
def freeRun (b : Buffer) (offset run : Nat) : Except Panic Nat :=
  if offset + run = b.len then .ok run
  else
    match _hr : b.header (offset + run) with
    | .error p => .error p
    | .ok h => if h.allocated then .ok run else freeRun b offset (run + h.size)
termination_by b.len - (offset + run)
decreasing_by have := header_bounds _hr; omega

/-- A free run has at least the bytes that it starts with. -/
theorem le_freeRun {b : Buffer} {offset run merged : Nat}
    (h : b.freeRun offset run = .ok merged) : run ≤ merged := by
  fun_induction freeRun b offset run with
  | case1 => cases h; exact Nat.le_refl _
  | case2 => cases h
  | case3 => cases h; exact Nat.le_refl _
  | case4 run _ _ _ _ ih => have := ih h; omega

/-- Walks on from `offset` and looks for a corrupt header, which is the answer, and for a node at
`cursor`, which `seen` says was found before.  A cursor that is on no node is reported as a corrupt
header at the cursor. -/
def checkFrom (b : Buffer) (cursor offset : Nat) (seen : Bool) :
    Except Panic (Except Violation Unit) :=
  if offset < b.len then
    match b.word? (offset / 8) with
    | none => .error (.outOfRange (b.len / 8) (offset / 8))
    | some raw =>
      if _hf : (Header.ofWord raw).Fits (b.len - offset) then
        checkFrom b cursor (offset + (Header.ofWord raw).size) (seen || offset == cursor)
      else .ok (.error (.corruptHeader offset raw))
  else if seen then .ok (.ok ())
  else .ok (.error (.corruptHeader cursor ((b.word? (cursor / 8)).getD 0)))
termination_by b.len - offset
decreasing_by obtain ⟨h8, -, -⟩ := _hf; omega

end Buffer

/-- How much of an arena is handed out.  Bytes include headers. -/
structure Stats where
  allocatedNodes : Nat
  allocatedBytes : Nat
  freeNodes : Nat
  freeBytes : Nat
  deriving DecidableEq

namespace Stats

def empty : Stats := ⟨0, 0, 0, 0⟩

def add (s : Stats) (node : Node) : Stats :=
  if node.allocated then
    { s with
      allocatedNodes := s.allocatedNodes + 1, allocatedBytes := s.allocatedBytes + node.size }
  else { s with freeNodes := s.freeNodes + 1, freeBytes := s.freeBytes + node.size }

def ofNodes (nodes : List Node) : Stats := nodes.foldl add empty

end Stats

end MemoryTrial.Arena
