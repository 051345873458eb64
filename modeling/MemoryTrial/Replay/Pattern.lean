import MemoryTrial.Failure

/-! Failure patterns: one bit for each checkpoint of a run, kept in 64-bit words.  The first
checkpoint has the least significant bit of the first word.  `bit_set` and `bit_armFrom` say what
the operations on words do to the bits. -/

namespace MemoryTrial

/-- The number of checkpoints that one run may pass. -/
def maxCheckpoints : Nat := 1024

/-- Which checkpoints of a run fail. -/
structure Pattern where
  words : Vector UInt64 (maxCheckpoints / 64)
  deriving DecidableEq

namespace Pattern

/-- A word with all bits set. -/
def allOnes : UInt64 := ~~~0

/-- The word with bit `i` set and no other. -/
def mask (i : Nat) : UInt64 := 1 <<< UInt64.ofNat i

/-- Bit `i` of a word. -/
def wordBit (w : UInt64) (i : Nat) : Bool := (w >>> UInt64.ofNat i) &&& 1 != 0

/-- Every checkpoint fails. -/
def full : Pattern := ⟨Vector.replicate (maxCheckpoints / 64) allOnes⟩

def word (p : Pattern) (j : Nat) : UInt64 := p.words[j]?.getD 0

/-- Whether checkpoint `i` fails. -/
def bit (p : Pattern) (i : Nat) : Bool := wordBit (p.word (i / 64)) (i % 64)

/-- Makes checkpoint `i` fail, or pass. -/
def set (p : Pattern) (i : Nat) (fails : Bool) : Pattern :=
  ⟨p.words.setIfInBounds (i / 64)
    (if fails then p.word (i / 64) ||| mask (i % 64) else p.word (i / 64) &&& ~~~mask (i % 64))⟩

/-- Makes all checkpoints from `start` on fail: the rest of the word that has the first of them, and
all words behind it. -/
def armFrom (p : Pattern) (start : Nat) : Pattern :=
  ⟨p.words.mapFinIdx fun j w _ =>
    if j < start / 64 then w
    else if j = start / 64 then w ||| (allOnes <<< UInt64.ofNat (start % 64))
    else allOnes⟩

section Word

variable {w : UInt64} {i j : Nat}

theorem toNat_ofNat_mod (hi : i < 64) : (UInt64.ofNat i).toNat % 64 = i := by
  rw [UInt64.toNat_ofNat']
  omega

theorem wordBit_eq (w : UInt64) (hi : i < 64) : wordBit w i = w.toBitVec.getLsbD i := by
  rw [wordBit, Bool.eq_iff_iff, bne_iff_ne, ne_eq, ← UInt64.toNat_inj, UInt64.toNat_and,
    UInt64.toNat_shiftRight, toNat_ofNat_mod hi]
  simp [BitVec.getLsbD, Nat.testBit, Nat.and_comm]

theorem wordBit_shiftLeft (w : UInt64) (hi : i < 64) (hj : j < 64) :
    wordBit (w <<< UInt64.ofNat i) j = (decide (i ≤ j) && wordBit w (j - i)) := by
  have amount : ((UInt64.ofNat i).toBitVec % 64).toNat = i := by
    simpa using toNat_ofNat_mod hi
  have from_start : (!decide (j < i)) = decide (i ≤ j) := by
    rw [← decide_not]
    exact decide_eq_decide.mpr Nat.not_lt
  rw [wordBit_eq _ hj, wordBit_eq _ (by omega), UInt64.toBitVec_shiftLeft, BitVec.shiftLeft_eq',
    amount, BitVec.getLsbD_shiftLeft, decide_eq_true hj, Bool.true_and, from_start]

theorem wordBit_or (w w' : UInt64) (hi : i < 64) :
    wordBit (w ||| w') i = (wordBit w i || wordBit w' i) := by
  rw [wordBit_eq _ hi, wordBit_eq _ hi, wordBit_eq _ hi, UInt64.toBitVec_or, BitVec.getLsbD_or]

theorem wordBit_and (w w' : UInt64) (hi : i < 64) :
    wordBit (w &&& w') i = (wordBit w i && wordBit w' i) := by
  rw [wordBit_eq _ hi, wordBit_eq _ hi, wordBit_eq _ hi, UInt64.toBitVec_and, BitVec.getLsbD_and]

theorem wordBit_not (w : UInt64) (hi : i < 64) : wordBit (~~~w) i = !wordBit w i := by
  rw [wordBit_eq _ hi, wordBit_eq _ hi, UInt64.toBitVec_not, BitVec.getLsbD_not, decide_eq_true hi,
    Bool.true_and]

theorem wordBit_allOnes (hi : i < 64) : wordBit allOnes i = true := by
  rw [allOnes, wordBit_not _ hi, wordBit_eq _ hi]
  simp

theorem wordBit_mask (hi : i < 64) (hj : j < 64) : wordBit (mask i) j = decide (i = j) := by
  rw [mask, wordBit_shiftLeft _ hi hj, wordBit_eq _ (by omega)]
  have one : (1 : UInt64).toBitVec.getLsbD (j - i) = decide (j - i = 0) := by
    simp
  rw [one, ← Bool.decide_and]
  exact decide_eq_decide.mpr (by omega)

end Word

variable {i j : Nat}

/-- Where the bit of a checkpoint is. -/
theorem word_inside (hi : i < maxCheckpoints) : i / 64 < maxCheckpoints / 64 := by
  simp only [maxCheckpoints] at hi ⊢
  omega

theorem bit_full (hi : i < maxCheckpoints) : full.bit i = true := by
  rw [bit, word, full, Vector.getElem?_replicate, if_pos (word_inside hi)]
  exact wordBit_allOnes (Nat.mod_lt _ (by decide))

theorem bit_set (p : Pattern) (i : Nat) (fails : Bool) (hj : j < maxCheckpoints) :
    (p.set i fails).bit j = if i = j then fails else p.bit j := by
  have small (k : Nat) : k % 64 < 64 := Nat.mod_lt _ (by decide)
  rw [bit, bit, word, set, Vector.getElem?_setIfInBounds]
  by_cases same : i / 64 = j / 64
  -- the two bits are in one word
  · rw [if_pos same, if_pos (same ▸ word_inside hj), Option.getD_some, ← same]
    have mine : (i = j) = (i % 64 = j % 64) := propext (by omega)
    cases fails with
    | true =>
      rw [if_pos rfl, wordBit_or _ _ (small j), wordBit_mask (small i) (small j)]
      by_cases here : i = j
      · simp [here]
      · rw [if_neg here, decide_eq_false (mine ▸ here), Bool.or_false]
    | false =>
      rw [if_neg Bool.false_ne_true, wordBit_and _ _ (small j), wordBit_not _ (small j),
        wordBit_mask (small i) (small j)]
      by_cases here : i = j
      · simp [here]
      · rw [if_neg here, decide_eq_false (mine ▸ here), Bool.not_false, Bool.and_true]
  · rw [if_neg same, if_neg (by rintro rfl; exact same rfl)]
    rfl

theorem bit_armFrom (p : Pattern) (start : Nat) (hj : j < maxCheckpoints) :
    (p.armFrom start).bit j = (decide (start ≤ j) || p.bit j) := by
  have inside := word_inside hj
  have small (k : Nat) : k % 64 < 64 := Nat.mod_lt _ (by decide)
  have there : p.word (j / 64) = p.words[j / 64] := by
    rw [word, Vector.getElem?_eq_getElem inside, Option.getD_some]
  rw [bit, bit, there, word, armFrom, Vector.getElem?_eq_getElem inside, Option.getD_some,
    Vector.getElem_mapFinIdx]
  split
  next before => rw [decide_eq_false (by omega), Bool.false_or]
  split
  next first =>
    rw [wordBit_or _ _ (small j), wordBit_shiftLeft _ (small start) (small j),
      wordBit_allOnes (by omega), Bool.and_true, Bool.or_comm]
    exact congrArg (· || _) (decide_eq_decide.mpr (by omega))
  next behind =>
    rw [wordBit_allOnes (small j), decide_eq_true (by omega), Bool.true_or]

end Pattern

end MemoryTrial
