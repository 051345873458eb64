import Std.Data.HashMap
import MemoryTrial.Text.Runs
import MemoryTrial.Failure

/-! The answers of scripts.  A script is a list of steps that drive a part of the toolkit and ask it
questions.  Each step has an answer; a panic ends the step that it occurs in and is its answer. -/

namespace MemoryTrial.Script

/-- What a step answers. -/
inductive Answer
  | null
  | flag (b : Bool)
  | number (n : Nat)
  | pointer (p : Ptr)
  | text (s : String)
  | list (items : List Answer)
  | fields (items : List (String × Answer))
  /-- The step was unwound. -/
  | panic (p : Panic)
  /-- A check found a violation and reported it. -/
  | violation (v : Violation)
  /-- Something could not be built. -/
  | setupError (e : ConfigError)

namespace Answer

/-- A pointer that may be absent. -/
def ofPtr? : Option Ptr → Answer
  | some p => pointer p
  | none => null

def ofBytes (bytes : ByteArray) : Answer := text (Text.bytesText bytes)

/-- The answer of a step that may be unwound. -/
def ofExcept : Except Panic Answer → Answer
  | .ok a => a
  | .error p => panic p

/-- What a step without a pointer answers. -/
def noPointer : Answer := text "no pointer"

end Answer

/-- A pointer in a step: absent, an address, or the value of a variable. -/
inductive PtrArg
  | absent
  | address (n : Nat)
  | variable (name : String)
  deriving DecidableEq

/-- Variables for pointers.  A variable keeps its pointer when the block is released. -/
structure Vars where
  pointers : Std.HashMap String (Option Ptr)

namespace Vars

def empty : Vars := ⟨∅⟩

def set (vars : Vars) (name : String) (p : Option Ptr) : Vars := ⟨vars.pointers.insert name p⟩

/-- Sets a variable if there is one to set. -/
def set? (vars : Vars) (name : Option String) (p : Option Ptr) : Vars :=
  match name with
  | some name => vars.set name p
  | none => vars

def get (vars : Vars) (name : String) : Option Ptr := vars.pointers[name]?.join

/-- A variable holds what was last set. -/
theorem get_set (vars : Vars) (name other : String) (p : Option Ptr) :
    (vars.set name p).get other = if name = other then p else vars.get other := by
  simp only [get, set, Std.HashMap.getElem?_insert, beq_iff_eq]
  split <;> rfl

def resolve (vars : Vars) : PtrArg → Option Ptr
  | .absent => none
  | .address n => Ptr.ofAddr? n
  | .variable name => vars.get name

end Vars

/-- Whether `bytes` fit a block of `length` bytes from index `start` on. -/
def fits (length start : Nat) (bytes : ByteArray) : Bool := start + bytes.size ≤ length

/-- Does `round` so often, and answers with the list of its last answers. -/
def rounds.{u} {m : Type → Type u} [Monad m] (count : Nat) (round : m (List Answer)) :
    m (List Answer) :=
  match count with
  | 0 => pure []
  | 1 => round
  | count + 1 => do
    let _ ← round
    rounds count round

end MemoryTrial.Script
