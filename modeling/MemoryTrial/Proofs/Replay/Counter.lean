import Mathlib.Tactic.Ring
import MemoryTrial.Replay.Frame

/-! The failure pattern as a counter.  Read as a number with checkpoint 0 as the most significant
digit, what a run came by is the number without its last digits (`passedValue_eq`).  Moving on takes
one from that part and sets all digits behind it (`advance_decrements`). -/

namespace MemoryTrial.Frame

variable {f g : Frame} {n k last : Nat}

/-- The digits of the checkpoints that the run passed, as a number. -/
def passedValue (f : Frame) : Nat := f.value / 2 ^ (maxCheckpoints - f.count)

/-- From `f` to `g` the counter goes down: `last` is the last checkpoint that failed in the run of
`f`. -/
structure Decrements (f g : Frame) (last : Nat) : Prop where
  value : g.value = f.passedValue * 2 ^ (maxCheckpoints - f.count) - 1
  triggered : g.triggered = f.triggered
  count : g.count = f.count
  passed : last < f.count
  failing : f.willFail last = true
  later : ∀ i, last < i → i < f.count → f.willFail i = false
  before : ∀ i < last, g.willFail i = f.willFail i
  passes : g.willFail last = false
  behind : ∀ i, last < i → i < maxCheckpoints → g.willFail i = true

/-- The first digits are the whole number without the others. -/
theorem valueTo_add_div (f : Frame) (n k : Nat) : f.valueTo (n + k) / 2 ^ k = f.valueTo n := by
  induction k with
  | zero => simp
  | succ k ih =>
    have digit := Bool.toNat_le (f.willFail (n + k))
    have cut : f.valueTo (n + (k + 1)) / 2 = f.valueTo (n + k) := by
      rw [← Nat.add_assoc, valueTo]
      omega
    rw [pow_succ', ← Nat.div_div_eq_div_mul, cut, ih]

theorem valueTo_add_of_passes (passes : ∀ i, n ≤ i → i < n + k → f.willFail i = false) :
    f.valueTo (n + k) = f.valueTo n * 2 ^ k := by
  induction k with
  | zero => simp
  | succ k ih =>
    rw [← Nat.add_assoc, valueTo, ih fun i lo hi => passes i lo (by omega),
      passes (n + k) (by omega) (by omega), Bool.toNat_false]
    ring

theorem valueTo_add_of_fails (fails : ∀ i, n ≤ i → i < n + k → f.willFail i = true) :
    f.valueTo (n + k) + 1 = (f.valueTo n + 1) * 2 ^ k := by
  induction k with
  | zero => simp
  | succ k ih =>
    have shorter := ih fun i lo hi => fails i lo (by omega)
    rw [← Nat.add_assoc, valueTo, fails (n + k) (by omega) (by omega), Bool.toNat_true,
      show 2 * f.valueTo (n + k) + 1 + 1 = 2 * (f.valueTo (n + k) + 1) by ring, shorter]
    ring

/-- A run passes no more checkpoints than there are digits. -/
theorem passedValue_eq (f : Frame) : f.passedValue = f.valueTo (min f.count maxCheckpoints) := by
  have whole : min f.count maxCheckpoints + (maxCheckpoints - f.count) = maxCheckpoints := by omega
  have cut := f.valueTo_add_div (min f.count maxCheckpoints) (maxCheckpoints - f.count)
  rwa [whole] at cut

/-- Behind the last failing one of some checkpoints all of them pass, and all do when there is no such
one. -/
theorem passes_of_lastFailing {i : Nat} (hi : i < n)
    (behind : ∀ last, f.lastFailing n = some last → last < i) : f.willFail i = false := by
  induction n with
  | zero => omega
  | succ n ih =>
    rw [lastFailing] at behind
    split at behind
    next fails =>
      have := behind n rfl
      omega
    next passes =>
      by_cases here : i = n
      · rw [here]
        exact Bool.eq_false_of_not_eq_true passes
      · exact ih (by omega) behind

theorem passes_of_lastFailing_eq_some {i : Nat} (h : f.lastFailing n = some last) (lo : last < i)
    (hi : i < n) : f.willFail i = false :=
  passes_of_lastFailing hi fun found hfound => by
    cases h.symm.trans hfound
    exact lo

/-- The digits up to the last failing checkpoint of a run, and the zeros behind it. -/
theorem passedValue_of_lastFailing (h : f.lastFailing f.count = some last) :
    f.passedValue * 2 ^ (maxCheckpoints - f.count) =
      (2 * f.valueTo last + 1) * 2 ^ (maxCheckpoints - (last + 1)) := by
  obtain ⟨passed, fails⟩ := lastFailing_eq_some h
  have inside := lt_of_willFail fails
  obtain ⟨k, hk⟩ : ∃ k, min f.count maxCheckpoints = last + 1 + k :=
    Nat.exists_eq_add_of_le (by omega)
  have digits : f.valueTo (last + 1) = 2 * f.valueTo last + 1 := by
    rw [valueTo, fails, Bool.toNat_true]
  have zeros : f.valueTo (last + 1 + k) = f.valueTo (last + 1) * 2 ^ k :=
    valueTo_add_of_passes fun i lo hi => passes_of_lastFailing_eq_some h lo (by omega)
  have exponents : k + (maxCheckpoints - f.count) = maxCheckpoints - (last + 1) := by omega
  rw [passedValue_eq, hk, zeros, digits, Nat.mul_assoc, ← Nat.pow_add, exponents]

/-- The next pattern has the same digits up to the last failing checkpoint, a zero there and ones
behind it. -/
theorem value_rearm (inside : last < maxCheckpoints) :
    (f.rearm last).value + 1 = (2 * f.valueTo last + 1) * 2 ^ (maxCheckpoints - (last + 1)) := by
  have before : (f.rearm last).valueTo last = f.valueTo last := valueTo_congr fun i hi => by
    rw [willFail_rearm f last i (by omega), if_pos hi]
  have here : (f.rearm last).willFail last = false := by
    rw [willFail_rearm f last last inside]
    simp
  have digits : (f.rearm last).valueTo (last + 1) = 2 * f.valueTo last := by
    rw [valueTo, before, here, Bool.toNat_false, Nat.add_zero]
  have ones : (f.rearm last).valueTo (last + 1 + (maxCheckpoints - (last + 1))) + 1 =
      ((f.rearm last).valueTo (last + 1) + 1) * 2 ^ (maxCheckpoints - (last + 1)) :=
    valueTo_add_of_fails fun i lo hi => by
      rw [willFail_rearm f last i (by omega), if_neg (by omega)]
      exact decide_eq_true lo
  rwa [show last + 1 + (maxCheckpoints - (last + 1)) = maxCheckpoints by omega, digits] at ones

theorem decrements_rearm (h : f.lastFailing f.count = some last) :
    Decrements f (f.rearm last) last := by
  obtain ⟨passed, fails⟩ := lastFailing_eq_some h
  have inside := lt_of_willFail fails
  refine ⟨?_, rfl, rfl, passed, fails, fun i lo hi => passes_of_lastFailing_eq_some h lo hi,
    fun i hi => ?_, ?_, fun i lo hi => ?_⟩
  · have := value_rearm (f := f) inside
    rw [passedValue_of_lastFailing h]
    omega
  · rw [willFail_rearm f last i (by omega), if_pos hi]
  · rw [willFail_rearm f last last inside]
    simp
  · rw [willFail_rearm f last i hi, if_neg (by omega)]
    exact decide_eq_true lo

theorem passedValue_pos_iff : 0 < f.passedValue ↔ ∃ last, f.lastFailing f.count = some last := by
  cases h : f.lastFailing f.count with
  | none =>
    have none : f.valueTo (0 + min f.count maxCheckpoints) = f.valueTo 0 * 2 ^ _ :=
      valueTo_add_of_passes fun i _ hi =>
        passes_of_lastFailing (show i < f.count by omega) (by simp [h])
    rw [Nat.zero_add] at none
    rw [passedValue_eq, none, valueTo]
    simp
  | some last =>
    have positive : 0 < (2 * f.valueTo last + 1) * 2 ^ (maxCheckpoints - (last + 1)) :=
      Nat.mul_pos (Nat.succ_pos _) (Nat.two_pow_pos _)
    rw [← passedValue_of_lastFailing h] at positive
    exact iff_of_true (Nat.pos_of_mul_pos_right positive) ⟨last, rfl⟩

/-- Moving on takes one from the number that the checkpoints of the run make, and arms all behind
them.  A frame whose run had no failing checkpoint, or none that its pattern shows, stays as it is. -/
theorem advance_decrements (f : Frame) :
    (f.triggered = true ∧ 0 < f.passedValue →
      ∃ g last, f.advance = (true, g) ∧ Decrements f g last) ∧
    (¬(f.triggered = true ∧ 0 < f.passedValue) → f.advance = (false, f)) := by
  constructor
  · rintro ⟨fired, positive⟩
    obtain ⟨last, h⟩ := passedValue_pos_iff.mp positive
    refine ⟨f.rearm last, last, ?_, decrements_rearm h⟩
    rw [advance, advance?, if_pos fired, h]
    rfl
  · intro still
    by_cases fired : f.triggered = true
    · have none : f.lastFailing f.count = none := by
        by_contra some
        exact still ⟨fired, passedValue_pos_iff.mpr (Option.ne_none_iff_exists'.mp some)⟩
      rw [advance, advance?, if_pos fired, none]
      rfl
    · rw [advance, advance?, if_neg fired]

end MemoryTrial.Frame
