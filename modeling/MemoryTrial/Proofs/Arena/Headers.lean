import MemoryTrial.Arena.Walk

/-! Headers in memory.  A header is read back from where it was written, and a write elsewhere
leaves it alone: what is read at an offset depends on the size of the buffer and on the eight bytes
at the offset only. -/

namespace MemoryTrial.Arena

theorem length_toList (bytes : ByteArray) : bytes.data.toList.length = bytes.size := by
  rw [Array.length_toList, ByteArray.size_data]

namespace Buffer

variable {b b' : Buffer} {offset : Nat}

/-- The bytes of `b` and `b'` from `start` up to `stop` are the same. -/
def Agree (b b' : Buffer) (start stop : Nat) : Prop :=
  ∀ i, start ≤ i → i < stop → b'.byte i = b.byte i

theorem Agree.refl (b : Buffer) (start stop : Nat) : Agree b b start stop := fun _ _ _ => rfl

theorem Agree.trans {b'' : Buffer} {start stop : Nat} (h : Agree b b' start stop)
    (h' : Agree b' b'' start stop) : Agree b b'' start stop :=
  fun i lo hi => (h' i lo hi).trans (h i lo hi)

theorem Agree.mono {start stop start' stop' : Nat} (h : Agree b b' start stop)
    (hstart : start ≤ start') (hstop : stop' ≤ stop) : Agree b b' start' stop' :=
  fun i lo hi => h i (by omega) (by omega)

theorem Agree.slice {start stop : Nat} (h : Agree b b' start stop) (hlen : b'.len = b.len)
    (hstop : stop ≤ b.len) : b'.slice start stop = b.slice start stop := by
  apply ByteArray.ext
  rw [← Array.toList_inj, toList_slice b hstop, toList_slice b' (by omega)]
  refine List.map_congr_left fun i hi => ?_
  rw [List.mem_range'_1] at hi
  exact h i hi.1 (by omega)

theorem slice_eq_slice {start start' count : Nat} (h : start + count ≤ b.len)
    (h' : start' + count ≤ b'.len)
    (same : ∀ i < count, b'.byte (start' + i) = b.byte (start + i)) :
    b'.slice start' (start' + count) = b.slice start (start + count) := by
  apply ByteArray.ext
  rw [← Array.toList_inj, toList_slice b h, toList_slice b' h', Nat.add_sub_cancel_left,
    Nat.add_sub_cancel_left, List.range'_eq_map_range, List.range'_eq_map_range, List.map_map,
    List.map_map]
  exact List.map_congr_left fun i hi => same i (List.mem_range.mp hi)

theorem extract_slice (b : Buffer) {start stop count : Nat} (h : start + count ≤ stop) :
    (b.slice start stop).extract 0 count = b.slice start (start + count) := by
  rw [slice, slice, ByteArray.extract_extract, Nat.add_zero, Nat.min_eq_left h]

theorem size_slice (b : Buffer) {start stop : Nat} (h : stop ≤ b.len) :
    (b.slice start stop).size = stop - start := by
  rw [← length_toList, toList_slice b h, List.length_map, List.length_range']

theorem getElem?_slice (b : Buffer) {start stop i : Nat} (h : stop ≤ b.len) (hi : start + i < stop) :
    (b.slice start stop).data[i]? = some (b.byte (start + i)) := by
  rw [← Array.getElem?_toList, toList_slice b h, List.getElem?_map,
    List.getElem?_range' (show i < stop - start by omega), Nat.one_mul]
  rfl

/-- A write changes no byte outside the bytes that it covers. -/
theorem agree_put (b : Buffer) {start : Nat} {src : ByteArray} (h : start + src.size ≤ b.len)
    {lo hi : Nat} (apart : hi ≤ start ∨ start + src.size ≤ lo) :
    Agree b (b.put start src) lo hi := by
  intro i hlo hhi
  rw [byte_put b start src i h, if_neg (by omega)]

theorem slice_put (b : Buffer) {start : Nat} {src : ByteArray} (h : start + src.size ≤ b.len) :
    (b.put start src).slice start (start + src.size) = src := by
  apply ByteArray.ext
  rw [← Array.toList_inj, toList_slice _ (by rw [len_put]; exact h)]
  apply List.ext_getElem
  · simp
  · intro i hi hi'
    rw [length_toList] at hi'
    have inside : i < src.data.size := hi'
    rw [List.getElem_map, List.getElem_range', Nat.one_mul, byte_put b start src _ h,
      if_pos (by omega), Nat.add_sub_cancel_left, Array.getElem_toList,
      Array.getElem?_eq_getElem inside]
    rfl

theorem size_littleEndian (count n : Nat) : (littleEndian count n).toByteArray.size = count := by
  rw [List.size_toByteArray, length_littleEndian]

/-- Where a header may be: at a word of the buffer. -/
theorem word_fits (aligned : offset % 8 = 0) (inside : offset < b.len) : offset + 8 ≤ b.len := by
  have whole : b.len % 8 = 0 := b.aligned
  omega

/-- A header changes its own eight bytes and no others. -/
theorem agree_setHeader (b : Buffer) (h : Header) (aligned : offset % 8 = 0)
    (inside : offset < b.len) {lo hi : Nat} (apart : hi ≤ offset ∨ offset + 8 ≤ lo) :
    Agree b (b.setHeader offset h) lo hi := by
  have fits := word_fits aligned inside
  have start : offset / 8 * 8 = offset := by omega
  rw [setHeader, start]
  exact agree_put b (by rw [size_littleEndian]; exact fits) (by rw [size_littleEndian]; exact apart)

theorem word?_setHeader (b : Buffer) {h : Header} (aligned : offset % 8 = 0)
    (inside : offset < b.len) (small : h.toWord < wordLimit) :
    (b.setHeader offset h).word? (offset / 8) = some h.toWord := by
  have fits := word_fits aligned inside
  have start : 8 * (offset / 8) = offset := by omega
  have start' : offset / 8 * 8 = offset := by omega
  have written : ((b.setHeader offset h).slice offset (offset + 8)) =
      (littleEndian 8 h.toWord).toByteArray := by
    have src := size_littleEndian 8 h.toWord
    have read := slice_put b (by rw [src]; exact fits)
    rw [src] at read
    rw [setHeader, start', read]
  rw [word?_eq_some_iff, len_setHeader, start, written]
  refine ⟨fits, ?_⟩
  rw [List.data_toByteArray, ofLittleEndian_littleEndian]
  exact (Nat.mod_eq_of_lt small).symm

theorem word?_congr (hlen : b'.len = b.len) {i : Nat} (same : Agree b b' (8 * i) (8 * i + 8)) :
    b'.word? i = b.word? i := by
  apply Option.ext
  intro w
  rw [word?_eq_some_iff, word?_eq_some_iff, hlen]
  refine and_congr_right fun h => ?_
  rw [same.slice hlen h]

theorem header_congr (hlen : b'.len = b.len) (aligned : offset % 8 = 0)
    (same : Agree b b' offset (offset + 8)) : b'.header offset = b.header offset := by
  have start : 8 * (offset / 8) = offset := by omega
  have word : b'.word? (offset / 8) = b.word? (offset / 8) :=
    word?_congr hlen (by rw [start]; exact same)
  rw [header, header, word, hlen]

theorem header_setHeader (b : Buffer) {h : Header} (aligned : offset % 8 = 0)
    (inside : offset < b.len) (fits : h.Fits (b.len - offset)) :
    (b.setHeader offset h).header offset = .ok h := by
  have hmod : h.size % 8 = 0 := fits.2.1
  have hroom : h.size ≤ b.len - offset := fits.2.2
  have hbound : b.len < memoryLimit := b.bounded
  have small : h.toWord < wordLimit := by
    unfold Header.toWord
    simp only [memoryLimit, wordLimit] at hbound ⊢
    split <;> omega
  rw [header, word?_setHeader b aligned inside small]
  simp only [len_setHeader, Header.ofWord_toWord (show h.size % 2 = 0 by omega)]
  exact if_pos fits

end Buffer

end MemoryTrial.Arena
