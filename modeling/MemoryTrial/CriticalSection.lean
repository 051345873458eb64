/-! The critical section: a lock that one thread at a time holds.  The thread that holds it may
enter again; the section is free when all its guards are gone.  Threads are numbered. -/

namespace MemoryTrial

inductive CriticalSection
  | free
  /-- A thread holds it with one guard and `more` further ones. -/
  | held (thread more : Nat)
  deriving DecidableEq

namespace CriticalSection

/-- The section after a thread entered it; `none` when another thread holds it. -/
def tryEnter (thread : Nat) : CriticalSection → Option CriticalSection
  | free => some (held thread 0)
  | held owner more => if owner = thread then some (held owner (more + 1)) else none

/-- The section after its newest guard is gone. -/
def leave : CriticalSection → CriticalSection
  | free => free
  | held _ 0 => free
  | held owner (more + 1) => held owner more

def guards (thread : Nat) : CriticalSection → Nat
  | free => 0
  | held owner more => if owner = thread then more + 1 else 0

/-- A thread that enters has one guard more. -/
theorem guards_of_tryEnter {thread : Nat} {s entered : CriticalSection}
    (h : s.tryEnter thread = some entered) : entered.guards thread = s.guards thread + 1 := by
  cases s with
  | free => cases h; simp [guards]
  | held owner more =>
    by_cases ho : owner = thread
    · simp only [tryEnter, ho, if_true, Option.some.injEq] at h
      subst h
      simp [guards, ho]
    · simp [tryEnter, ho] at h

/-- A guard that goes leaves the section as it was before it was taken. -/
theorem leave_of_tryEnter {thread : Nat} {s entered : CriticalSection}
    (h : s.tryEnter thread = some entered) : entered.leave = s := by
  cases s with
  | free => cases h; rfl
  | held owner more =>
    by_cases ho : owner = thread
    · simp only [tryEnter, ho, if_true, Option.some.injEq] at h
      subst h
      simp [leave, ho]
    · simp [tryEnter, ho] at h

/-- A thread is kept out exactly while another thread holds a guard. -/
theorem tryEnter_eq_none_iff {thread : Nat} {s : CriticalSection} :
    s.tryEnter thread = none ↔ ∃ other, other ≠ thread ∧ 0 < s.guards other := by
  cases s with
  | free => simp [tryEnter, guards]
  | held owner more =>
    by_cases ho : owner = thread
    · subst ho
      simp only [tryEnter, if_true, reduceCtorEq, false_iff, not_exists, not_and]
      intro other hne
      simp [guards, Ne.symm hne]
    · simp only [tryEnter, ho, if_false, true_iff]
      exact ⟨owner, ho, by simp [guards]⟩

end CriticalSection

end MemoryTrial
