import MemoryTrial.CriticalSection
import MemoryTrial.Script.Answer

/-! Scripts for the critical section: one thread enters and leaves it, and a second one tries to
enter and leaves at once. -/

namespace MemoryTrial.Script

inductive CriticalStep
  | enter
  /-- Enters if no other thread is inside. -/
  | tryEnter
  | leave
  /-- A second thread tries to enter. -/
  | other
  /-- A second thread tries to enter twice, one inside the other. -/
  | otherTwice

namespace CriticalStep

/-- The thread that runs the script. -/
def main : Nat := 0

/-- The second thread. -/
def second : Nat := 1

/-- Whether a thread can enter, and the section then. -/
def entering (thread : Nat) (s : CriticalSection) : Bool × CriticalSection :=
  match s.tryEnter thread with
  | some entered => (true, entered)
  | none => (false, s)

/-- The answer of a step, and the section after it.  The second thread never keeps a guard, so that
the first one need not wait. -/
def run (s : CriticalSection) : CriticalStep → Answer × CriticalSection
  | enter | tryEnter =>
    let (entered, s') := entering main s
    (.flag entered, s')
  | leave => if s.guards main = 0 then (.flag false, s) else (.flag true, s.leave)
  | other => (.flag (entering second s).1, s)
  | otherTwice =>
    let (first, inside) := entering second s
    (.list [.flag first, .flag (entering second inside).1], s)

/-- The answers of steps, each with the guards that the first thread holds after it. -/
def report : List CriticalStep → CriticalSection → List Answer
  | [], _ => []
  | step :: steps, s =>
    let (answer, s') := run s step
    .list [answer, .number (s'.guards main)] :: report steps s'

end CriticalStep

end MemoryTrial.Script
