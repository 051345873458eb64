import Mathlib.Order.Bounds.Basic
import MemoryTrial.Arena.Block

/-! Sizes of blocks.  `blockSize` gives the least size that a block for a request can have, as long
as that fits a machine word, and no size at all beyond (`blockSize_eq_some_iff`).  In the words of a
machine, where sums wrap and a mask rounds, it is `wordBlockSize`. -/

namespace MemoryTrial.Arena

variable {m n need more : Nat}

/-- `a + b`, unless that wraps, which is when the sum is less than `a`. -/
def wordAdd (a b : UInt64) : Option UInt64 := if a + b < a then none else some (a + b)

/-- The size of the block for a request of `n` bytes, in words: a mask clears the three lowest
bits. -/
def wordBlockSize (n : UInt64) : Option UInt64 :=
  if n < 8 then some 16
  else do
    let padded ← wordAdd n 7
    wordAdd (padded &&& ~~~7) 8

/-- The sizes that a block for `n` bytes can have: whole words, with room for a header and the `n`
bytes, and no less than the smallest block. -/
def sufficient (n : Nat) : Set Nat :=
  {size | size % 8 = 0 ∧ minBlock ≤ size ∧ n + headerSize ≤ size}

theorem toNat_wordAdd (a b : UInt64) : (wordAdd a b).map UInt64.toNat = checkedAdd a.toNat b.toNat := by
  have ha : a.toNat < wordLimit := a.toNat_lt
  have hb : b.toNat < wordLimit := b.toNat_lt
  have sum : (a + b).toNat = (a.toNat + b.toNat) % wordLimit := UInt64.toNat_add a b
  have wraps : a + b < a ↔ (a.toNat + b.toNat) % wordLimit < a.toNat := by
    rw [UInt64.lt_iff_toNat_lt, sum]
  unfold wordAdd checkedAdd
  by_cases fits : a.toNat + b.toNat < wordLimit
  · rw [Nat.mod_eq_of_lt fits] at sum wraps
    rw [if_pos fits, if_neg (by rw [wraps]; omega), Option.map_some, sum]
  · have rest : (a.toNat + b.toNat) % wordLimit = a.toNat + b.toNat - wordLimit := by
      rw [Nat.mod_eq_sub_mod (by omega), Nat.mod_eq_of_lt (by omega)]
    rw [if_neg fits, if_pos (by rw [wraps]; omega), Option.map_none]

/-- Clearing the three lowest bits rounds down to whole words. -/
theorem toNat_mask (a : UInt64) : (a &&& ~~~7).toNat = a.toNat / 8 * 8 := by
  have shifts : (a &&& ~~~7).toBitVec = a.toBitVec >>> 3 <<< 3 := by
    rw [BitVec.shiftLeft_ushiftRight, UInt64.toBitVec_and]
    rfl
  have ha := a.toNat_lt
  rw [← UInt64.toNat_toBitVec, shifts, BitVec.toNat_shiftLeft, BitVec.toNat_ushiftRight,
    Nat.shiftLeft_eq, Nat.shiftRight_eq_div_pow, UInt64.toNat_toBitVec]
  omega

theorem toNat_wordBlockSize (n : UInt64) : (wordBlockSize n).map UInt64.toNat = blockSize n.toNat := by
  have small : n < 8 ↔ n.toNat < headerSize := UInt64.lt_iff_toNat_lt
  unfold wordBlockSize blockSize
  by_cases h : n < 8
  · rw [if_pos h, if_pos (small.mp h)]
    rfl
  rw [if_neg h, if_neg (mt small.mpr h)]
  have first : (wordAdd n 7).map UInt64.toNat = checkedAdd n.toNat 7 := toNat_wordAdd n 7
  rw [← first]
  cases wordAdd n 7 with
  | none => rfl
  | some padded =>
    have second : (wordAdd (padded &&& ~~~7) 8).map UInt64.toNat =
        checkedAdd (padded &&& ~~~7).toNat headerSize := toNat_wordAdd (padded &&& ~~~7) 8
    rw [toNat_mask] at second
    exact second

/-- The least sufficient size, whether or not it fits a word. -/
def leastSize (n : Nat) : Nat := max minBlock ((n + 7) / 8 * 8 + headerSize)

theorem isLeast_leastSize (n : Nat) : IsLeast (sufficient n) (leastSize n) := by
  constructor
  · refine ⟨?_, Nat.le_max_left .., ?_⟩
    all_goals
      simp only [leastSize, minBlock, headerSize]
      omega
  · rintro size ⟨whole, smallest, room⟩
    simp only [leastSize, minBlock, headerSize] at *
    omega

theorem blockSize_eq (n : Nat) :
    blockSize n = if n ≤ wordLimit - 16 then some (leastSize n) else none := by
  unfold blockSize
  by_cases small : n < headerSize
  · have size : leastSize n = minBlock := by
      simp only [leastSize, minBlock, headerSize] at *
      omega
    rw [if_pos small, if_pos (by simp only [headerSize, wordLimit] at *; omega), size]
  have size : leastSize n = (n + 7) / 8 * 8 + headerSize := by
    simp only [leastSize, minBlock, headerSize] at *
    omega
  rw [if_neg small, size]
  unfold checkedAdd
  by_cases padded : n + 7 < wordLimit
  · rw [if_pos padded, Option.bind_eq_bind, Option.bind_some]
    refine if_congr ?_ rfl rfl
    simp only [headerSize, wordLimit] at *
    omega
  · rw [if_neg padded, if_neg (by simp only [wordLimit] at *; omega)]
    rfl

/-- A request has a block size as long as the least sufficient size fits a word, and then it is
that. -/
theorem blockSize_eq_some_iff :
    blockSize n = some need ↔ n ≤ wordLimit - 16 ∧ IsLeast (sufficient n) need := by
  rw [blockSize_eq, Option.ite_none_right_eq_some, Option.some.injEq]
  refine and_congr_right fun _ => ⟨fun size => size ▸ isLeast_leastSize n, fun least => ?_⟩
  exact (isLeast_leastSize n).unique least

example : blockSize (wordLimit - 16) = some (wordLimit - 8) ∧ blockSize (wordLimit - 15) = none := by
  decide

theorem blockSize_bounds (h : blockSize n = some need) : 16 ≤ need ∧ need % 8 = 0 ∧ n + 8 ≤ need := by
  obtain ⟨-, ⟨whole, smallest, room⟩, -⟩ := blockSize_eq_some_iff.mp h
  exact ⟨smallest, whole, room⟩

theorem blockSize_pos (h : blockSize n = some need) : 0 < need :=
  Nat.lt_of_lt_of_le (by decide) (blockSize_bounds h).1

/-- There is a block size for a request that a block can hold, and it is no larger than the block. -/
theorem exists_blockSize_le {size : Nat} (h16 : 16 ≤ size) (hmod : size % 8 = 0) (room : n + 8 ≤ size)
    (bounded : size < wordLimit) : ∃ need, blockSize n = some need ∧ need ≤ size := by
  have small : n ≤ wordLimit - 16 := by
    simp only [wordLimit] at *
    omega
  have least := isLeast_leastSize n
  exact ⟨_, blockSize_eq_some_iff.mpr ⟨small, least⟩, least.2 ⟨hmod, h16, room⟩⟩

/-- A larger request needs no smaller block. -/
theorem blockSize_mono (h : m ≤ n) (hmore : blockSize n = some more) :
    ∃ need, blockSize m = some need ∧ need ≤ more := by
  obtain ⟨room, ⟨whole, smallest, enough⟩, -⟩ := blockSize_eq_some_iff.mp hmore
  refine ⟨_, blockSize_eq_some_iff.mpr ⟨h.trans room, isLeast_leastSize m⟩, ?_⟩
  exact (isLeast_leastSize m).2 ⟨whole, smallest, (Nat.add_le_add_right h _).trans enough⟩

end MemoryTrial.Arena
