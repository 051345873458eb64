import MemoryTrial.Arena.Block
import MemoryTrial.Bytes

/-! The memory of an arena: bytes, some of which hold header words with the least significant byte
first.  Payloads and headers share the bytes, so every operation on nodes is an operation on bytes:
`byte_put` says which bytes a write changes, and `word?_eq_some_iff` that a word is what its bytes
write. -/

namespace MemoryTrial.Arena

/-- The `count` least significant bytes of `n`, least significant first. -/
def littleEndian : (count n : Nat) → List UInt8
  | 0, _ => []
  | count + 1, n => UInt8.ofNat n :: littleEndian count (n / 256)

/-- The number that bytes write, least significant first. -/
def ofLittleEndian : List UInt8 → Nat
  | [] => 0
  | b :: bs => b.toNat + 256 * ofLittleEndian bs

@[simp] theorem length_littleEndian (count n : Nat) : (littleEndian count n).length = count := by
  induction count generalizing n with
  | zero => rfl
  | succ count ih => simp [littleEndian, ih]

/-- A number is read back from its bytes when they suffice. -/
theorem ofLittleEndian_littleEndian (count n : Nat) :
    ofLittleEndian (littleEndian count n) = n % Nat.pow 256 count := by
  induction count generalizing n with
  | zero => simp [littleEndian, ofLittleEndian, Nat.mod_one]
  | succ count ih =>
    have h : n % (256 * Nat.pow 256 count) = n % 256 + 256 * (n / 256 % Nat.pow 256 count) :=
      Nat.mod_mul
    rw [littleEndian, ofLittleEndian, ih,
      show Nat.pow 256 (count + 1) = 256 * Nat.pow 256 count from
        Nat.mul_comm (Nat.pow 256 count) 256, h]
    rfl

/-- The bytes of an arena, which are whole words. -/
structure Buffer where
  bytes : ByteArray
  aligned : bytes.size % 8 = 0
  bounded : bytes.size < memoryLimit

namespace Buffer

def len (b : Buffer) : Nat := b.bytes.size

/-- A buffer of `size` bytes that all are `fill`, when there can be such a buffer. -/
def filled? (size : Nat) (fill : UInt8) : Option Buffer :=
  if h : size % 8 = 0 ∧ size < memoryLimit then
    some ⟨Bytes.replicate size fill, by simpa using h.1, by simpa using h.2⟩
  else none

/-- A buffer of `count` words that all are `word`, when there can be such a buffer. -/
def ofWord? (count word : Nat) : Option Buffer :=
  if h : count * 8 < memoryLimit then
    some ⟨Bytes.copies count (littleEndian 8 word).toByteArray,
      by simp [List.size_toByteArray], by simpa [List.size_toByteArray] using h⟩
  else none

/-- The byte at `i`; beyond the end it is 0. -/
def byte (b : Buffer) (i : Nat) : UInt8 := if h : i < b.bytes.size then b.bytes[i] else 0

/-- The bytes from `start` up to `stop`. -/
def slice (b : Buffer) (start stop : Nat) : ByteArray := b.bytes.extract start stop

/-- Writes `src` at `start`, where it must fit. -/
def put (b : Buffer) (start : Nat) (src : ByteArray) : Buffer :=
  ⟨Bytes.write b.bytes start src, by rw [Bytes.size_write]; exact b.aligned,
    by rw [Bytes.size_write]; exact b.bounded⟩

def fill (b : Buffer) (fill : UInt8) : Buffer :=
  ⟨Bytes.replicate b.bytes.size fill, by rw [Bytes.size_replicate]; exact b.aligned,
    by rw [Bytes.size_replicate]; exact b.bounded⟩

/-- The number that `count` bytes from `start` on write, least significant first. -/
def number (b : Buffer) (start : Nat) : (count : Nat) → UInt64
  | 0 => 0
  | count + 1 => (b.byte start).toUInt64 + 256 * b.number (start + 1) count

/-- The word that eight bytes from `start` on write. -/
def word (b : Buffer) (start : Nat) (h : start + 8 ≤ b.bytes.size) : UInt64 :=
  b.bytes[start].toUInt64 + 256 * (b.bytes[start + 1].toUInt64 + 256 *
    (b.bytes[start + 2].toUInt64 + 256 * (b.bytes[start + 3].toUInt64 + 256 *
      (b.bytes[start + 4].toUInt64 + 256 * (b.bytes[start + 5].toUInt64 + 256 *
        (b.bytes[start + 6].toUInt64 + 256 * b.bytes[start + 7].toUInt64))))))

/-- Word number `i`, if the buffer has so many. -/
@[inline] def word? (b : Buffer) (i : Nat) : Option Nat :=
  if h : 8 * i + 8 ≤ b.bytes.size then some (b.word (8 * i) h).toNat else none

@[simp] theorem len_put (b : Buffer) (start : Nat) (src : ByteArray) :
    (b.put start src).len = b.len := by
  simp [put, len]

@[simp] theorem len_fill (b : Buffer) (x : UInt8) : (b.fill x).len = b.len := by
  simp [fill, len]

theorem byte_eq (b : Buffer) (i : Nat) : b.byte i = b.bytes.data[i]?.getD 0 := by
  unfold byte
  split
  next h => rw [ByteArray.getElem_eq_getElem_data, Array.getElem?_eq_getElem h]; rfl
  next h => rw [Array.getElem?_eq_none (Nat.le_of_not_lt h)]; rfl

/-- A write inside the buffer changes the bytes that it covers, to `src`, and no others. -/
theorem byte_put (b : Buffer) (start : Nat) (src : ByteArray) (i : Nat)
    (h : start + src.size ≤ b.len) :
    (b.put start src).byte i =
      if start ≤ i ∧ i < start + src.size then src.data[i - start]?.getD 0 else b.byte i := by
  simp only [byte_eq, put]
  rw [Bytes.getElem?_write h]
  split <;> rfl

/-- The bytes from `start` on, one by one. -/
theorem toList_slice (b : Buffer) {start stop : Nat} (h : stop ≤ b.len) :
    (b.slice start stop).data.toList = (List.range' start (stop - start)).map b.byte := by
  apply List.ext_getElem?
  intro i
  rw [slice, ByteArray.data_extract, Array.getElem?_toList, Array.getElem?_extract,
    List.getElem?_map]
  have hlen : b.bytes.data.size = b.len := rfl
  by_cases hi : i < stop - start
  · rw [if_pos (by omega), List.getElem?_range' hi, Option.map_some, Nat.one_mul, byte_eq,
      Array.getElem?_eq_getElem (by omega)]
    rfl
  · rw [if_neg (by omega), List.getElem?_eq_none (by simp; omega)]
    rfl

/-- Up to eight bytes write their number without overflow. -/
theorem toNat_number (b : Buffer) (start count : Nat) (h : count ≤ 8) :
    (b.number start count).toNat = ofLittleEndian ((List.range' start count).map b.byte) ∧
      (b.number start count).toNat < Nat.pow 256 count := by
  induction count generalizing start with
  | zero => exact ⟨rfl, Nat.one_pos⟩
  | succ count ih =>
    obtain ⟨heq, hlt⟩ := ih (start + 1) (by omega)
    have hpow : Nat.pow 256 count ≤ 0x100000000000000 :=
      Nat.pow_le_pow_right (show 0 < 256 by decide) (show count ≤ 7 by omega)
    have hbyte := (b.byte start).toNat_lt
    have hsum : (b.number start (count + 1)).toNat =
        (b.byte start).toNat + 256 * (b.number (start + 1) count).toNat := by
      rw [number, UInt64.toNat_add, UInt64.toNat_mul, UInt8.toNat_toUInt64]
      rw [show (256 : UInt64).toNat = 256 from rfl]
      omega
    have hnext : Nat.pow 256 (count + 1) = 256 * Nat.pow 256 count := Nat.mul_comm _ _
    rw [hsum, List.range'_succ, List.map_cons, ofLittleEndian, ← heq, hnext]
    exact ⟨rfl, by omega⟩

theorem word_eq_number (b : Buffer) (start : Nat) (h : start + 8 ≤ b.bytes.size) :
    b.word start h = b.number start 8 := by
  have inside (k : Nat) (hk : k < 8) : b.byte (start + k) = b.bytes[start + k] :=
    dif_pos (by omega)
  have first : b.byte start = b.bytes[start] := inside 0 (by omega)
  simp only [word, number, Nat.add_assoc, Nat.reduceAdd, first, inside 1 (by omega),
    inside 2 (by omega), inside 3 (by omega), inside 4 (by omega), inside 5 (by omega),
    inside 6 (by omega), inside 7 (by omega), UInt64.mul_zero, UInt64.add_zero]

/-- The words lie inside the buffer, and each is what its eight bytes write. -/
theorem word?_eq_some_iff {b : Buffer} {i w : Nat} :
    b.word? i = some w ↔
      8 * i + 8 ≤ b.len ∧ w = ofLittleEndian (b.slice (8 * i) (8 * i + 8)).data.toList := by
  unfold word?
  split
  next h =>
    rw [toList_slice b h, Nat.add_sub_cancel_left, word_eq_number,
      ← (b.toNat_number (8 * i) 8 (Nat.le_refl 8)).1, Option.some.injEq, eq_comm]
    exact (and_iff_right h).symm
  next h => exact iff_of_false nofun fun hw => h hw.1

theorem lt_of_word?_eq_some {b : Buffer} {i w : Nat} (h : b.word? i = some w) :
    8 * i + 8 ≤ b.len := (word?_eq_some_iff.mp h).1

end Buffer

end MemoryTrial.Arena
