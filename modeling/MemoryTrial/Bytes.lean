/-! Arrays of bytes that are filled, written into and cut to a length.  Each of these functions is
explained by the bytes that it makes, one by one. -/

namespace MemoryTrial.Bytes

/-- `n` copies of a block, made by doubling; `rounds` bounds how often. -/
def doubled (block : ByteArray) : (rounds n : Nat) → ByteArray
  | 0, _ => .empty
  | rounds + 1, n =>
    if n = 0 then .empty
    else
      let half := doubled block rounds (n / 2)
      if n % 2 = 0 then half ++ half else half ++ half ++ block

/-- `n` copies of a block, one after the other. -/
def copies (n : Nat) (block : ByteArray) : ByteArray := doubled block n n

def replicate (n : Nat) (x : UInt8) : ByteArray := copies n ⟨#[x]⟩

theorem toList_doubled (block : ByteArray) (rounds n : Nat) (h : n ≤ rounds) :
    (doubled block rounds n).data.toList = (List.replicate n block.data.toList).flatten := by
  induction rounds generalizing n with
  | zero => simp [doubled, Nat.le_zero.mp h]
  | succ rounds ih =>
    have half := ih (n / 2) (by omega)
    rw [doubled]
    split
    next zero => simp [zero]
    split
    next even =>
      rw [ByteArray.data_append, Array.toList_append, half, ← List.flatten_append,
        List.replicate_append_replicate]
      congr 2
      omega
    next odd =>
      rw [ByteArray.data_append, ByteArray.data_append, Array.toList_append, Array.toList_append,
        half, ← List.flatten_append, List.replicate_append_replicate, ← List.flatten_concat,
        ← List.replicate_succ']
      congr 2
      omega

theorem toList_copies (n : Nat) (block : ByteArray) :
    (copies n block).data.toList = (List.replicate n block.data.toList).flatten :=
  toList_doubled block n n (Nat.le_refl n)

@[simp] theorem size_copies (n : Nat) (block : ByteArray) :
    (copies n block).size = n * block.size := by
  rw [← ByteArray.size_data, ← Array.length_toList, toList_copies]
  simp

@[simp] theorem toList_replicate (n : Nat) (x : UInt8) :
    (replicate n x).data.toList = List.replicate n x := by
  rw [replicate, toList_copies]
  simp

@[simp] theorem size_replicate (n : Nat) (x : UInt8) : (replicate n x).size = n := by
  rw [← ByteArray.size_data, ← Array.length_toList, toList_replicate, List.length_replicate]

/-- The bytes with `src` written from index `start` on.  Where it does not fit, nothing is
written. -/
def write (bytes : ByteArray) (start : Nat) (src : ByteArray) : ByteArray :=
  if start + src.size ≤ bytes.size then src.copySlice 0 bytes start src.size else bytes

/-- What is written replaces as many bytes. -/
@[simp] theorem size_write (bytes : ByteArray) (start : Nat) (src : ByteArray) :
    (write bytes start src).size = bytes.size := by
  unfold write
  split
  · simp only [ByteArray.copySlice_eq_append, ByteArray.size_append, ByteArray.size_extract]
    simp only [ByteArray.size_data]
    omega
  · rfl

/-- A write that fits changes the bytes that it covers, and no others. -/
theorem getElem?_write {bytes src : ByteArray} {start : Nat} (h : start + src.size ≤ bytes.size)
    (i : Nat) :
    (write bytes start src).data[i]? =
      if start ≤ i ∧ i < start + src.size then src.data[i - start]? else bytes.data[i]? := by
  have hbytes : bytes.data.size = bytes.size := rfl
  have hsrc : src.data.size = src.size := rfl
  simp only [write, if_pos h, ByteArray.copySlice, Nat.zero_add, Nat.sub_zero,
    Array.getElem?_append, Array.size_append, Array.size_extract, Array.getElem?_extract]
  grind

/-- The bytes cut or filled with zeros to the length `n`. -/
def fitted (n : Nat) (bytes : ByteArray) : ByteArray :=
  bytes.extract 0 n ++ replicate (n - bytes.size) 0

@[simp] theorem size_fitted (n : Nat) (bytes : ByteArray) : (fitted n bytes).size = n := by
  simp only [fitted, ByteArray.size_append, ByteArray.size_extract, size_replicate]
  omega

/-- The first bytes stay, as far as there are, and all behind them are zero. -/
theorem toList_fitted (n : Nat) (bytes : ByteArray) :
    (fitted n bytes).data.toList =
      bytes.data.toList.take n ++ List.replicate (n - bytes.size) 0 := by
  simp [fitted, ByteArray.data_append, ByteArray.data_extract]

end MemoryTrial.Bytes
