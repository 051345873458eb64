import MemoryTrial.Replay.Pattern

/-! The frame of a replay.  Its pattern says of each checkpoint whether it fails.  After a run with a
failure the pattern moves on: the last checkpoint that failed passes from now on, and all later ones
fail again.  Read as a number with checkpoint 0 as the most significant digit, the pattern goes down,
so a replay ends. -/

namespace MemoryTrial

/-- Which checkpoints of a run fail, and how far the run is. -/
structure Frame where
  /-- Whether a checkpoint of this run failed. -/
  triggered : Bool
  /-- The checkpoints that this run passed. -/
  count : Nat
  pattern : Pattern
  deriving DecidableEq

namespace Frame

/-- The frame of the first run: every checkpoint fails. -/
def fresh : Frame := ⟨false, 0, .full⟩

/-- The frame at the start of the next run. -/
def reset (f : Frame) : Frame := { f with triggered := false, count := 0 }

/-- Whether checkpoint `i` fails.  Checkpoints that no run reaches do not. -/
def willFail (f : Frame) (i : Nat) : Bool := i < maxCheckpoints && f.pattern.bit i

/-- Passes the next checkpoint, and answers whether it fails. -/
def checkpoint (f : Frame) : Except Panic (Bool × Frame) :=
  if f.count < maxCheckpoints then
    let fails := f.willFail f.count
    .ok (fails, { f with triggered := f.triggered || fails, count := f.count + 1 })
  else .error (.violation (.checkpointOverflow maxCheckpoints))

/-- The last failing one of the first `n` checkpoints. -/
def lastFailing (f : Frame) : Nat → Option Nat
  | 0 => none
  | n + 1 => if f.willFail n then some n else f.lastFailing n

/-- The pattern with checkpoint `i` passing and all after it failing. -/
def rearm (f : Frame) (i : Nat) : Frame :=
  { f with pattern := (f.pattern.set i false).armFrom (i + 1) }

/-- The frame with the next pattern, if a checkpoint of this run failed. -/
def advance? (f : Frame) : Option Frame :=
  if f.triggered then (f.lastFailing f.count).map f.rearm else none

/-- Moves on to the next pattern, and answers whether there is one.  Else the frame stays as it is. -/
def advance (f : Frame) : Bool × Frame :=
  match f.advance? with
  | some next => (true, next)
  | none => (false, f)

/-- The first `n` digits of the pattern as a number, the first one most significant. -/
def valueTo (f : Frame) : Nat → Nat
  | 0 => 0
  | n + 1 => 2 * f.valueTo n + (f.willFail n).toNat

/-- The pattern as a number with checkpoint 0 as its most significant digit. -/
def value (f : Frame) : Nat := f.valueTo maxCheckpoints

theorem valueTo_congr {f g : Frame} {n : Nat} (h : ∀ i < n, f.willFail i = g.willFail i) :
    f.valueTo n = g.valueTo n := by
  induction n with
  | zero => rfl
  | succ n ih => rw [valueTo, valueTo, ih fun i hi => h i (by omega), h n (by omega)]

/-- A first difference decides which of two patterns is the smaller number. -/
theorem valueTo_lt {f g : Frame} {i n : Nat} (hi : i < n)
    (same : ∀ j < i, f.willFail j = g.willFail j) (hf : f.willFail i = true)
    (hg : g.willFail i = false) : g.valueTo n < f.valueTo n := by
  induction n with
  | zero => omega
  | succ n ih =>
    rw [valueTo, valueTo]
    by_cases h : i = n
    · subst h
      rw [valueTo_congr same, hf, hg]
      simp
    · have := ih (by omega)
      have := Bool.toNat_le (g.willFail n)
      omega

theorem lastFailing_eq_some {f : Frame} {n i : Nat} (h : f.lastFailing n = some i) :
    i < n ∧ f.willFail i = true := by
  induction n with
  | zero => cases h
  | succ n ih =>
    rw [lastFailing] at h
    split at h
    · cases h; exact ⟨by omega, by assumption⟩
    · have := ih h; exact ⟨by omega, this.2⟩

theorem lt_of_willFail {f : Frame} {i : Nat} (h : f.willFail i = true) : i < maxCheckpoints :=
  of_decide_eq_true (Bool.and_eq_true_iff.mp h).1

theorem willFail_rearm (f : Frame) (i j : Nat) (hj : j < maxCheckpoints) :
    (f.rearm i).willFail j = if j < i then f.willFail j else decide (i < j) := by
  rw [willFail, willFail, decide_eq_true hj, Bool.true_and, Bool.true_and, rearm,
    Pattern.bit_armFrom _ _ hj, Pattern.bit_set _ _ _ hj]
  rcases Nat.lt_trichotomy j i with before | rfl | behind
  · rw [if_pos before, if_neg (by omega), decide_eq_false (by omega), Bool.false_or]
  · simp
  · rw [decide_eq_true (show i + 1 ≤ j from behind), Bool.true_or, if_neg (by omega),
      decide_eq_true behind]

/-- The next pattern is a smaller number. -/
theorem value_advance?_lt {f g : Frame} (h : f.advance? = some g) : g.value < f.value := by
  unfold advance? at h
  split at h
  · obtain ⟨i, hi, rfl⟩ := Option.map_eq_some_iff.mp h
    obtain ⟨-, hfail⟩ := lastFailing_eq_some hi
    have hlt := lt_of_willFail hfail
    refine valueTo_lt hlt (fun j hj => ?_) hfail ?_
    · rw [willFail_rearm f i j (by omega), if_pos hj]
    · rw [willFail_rearm f i i hlt]; simp
  · cases h

end Frame

end MemoryTrial
