import Mathlib.Data.Finmap
import MemoryTrial.Proofs.Heap.Blocks

/-! A system heap as a finite map from handles to byte strings.  `Answers` says what a request does to
such a map, which has no slots, no generations and no list of free places.  Whatever the system grants,
each run of a heap is a run of a map with the same answers, as long as every slot has a number
(`Served.refines_map`). -/

namespace MemoryTrial.Heap

/-- The bytes of each handle. -/
abbrev HandleMap : Type := Finmap fun _ : Ptr => List UInt8

/-- The first `n` bytes, with zeros behind them up to exactly `n`. -/
def fit (n : Nat) (bytes : List UInt8) : List UInt8 :=
  bytes.take n ++ List.replicate (n - bytes.length) 0

/-- A map answers a request and becomes `m'`, on a system that grants growth as `granted` says. -/
def Answers (granted : Nat → Bool) (m : HandleMap) :
    {α : Type} → Request α → α → HandleMap → Prop
  | _, .grab n, some p, m' =>
    granted n = true ∧ p ∉ m ∧ m' = m.insert p (List.replicate n 0)
  | _, .grab n, none, m' => granted n = false ∧ m' = m
  | _, .release p, (), m' => p ∈ m ∧ m' = m.erase p
  | _, .resize p n, some q, m' => ∃ bytes, m.lookup p = some bytes ∧
    granted (n - bytes.length) = true ∧ q = p ∧ m' = m.insert p (fit n bytes)
  | _, .resize p n, none, m' => ∃ bytes, m.lookup p = some bytes ∧
    granted (n - bytes.length) = false ∧ m' = m
  | _, .payload p, bytes, m' => m.lookup p = some bytes.data.toList ∧ m' = m
  | _, .edit p f, (), m' => ∃ bytes, m.lookup p = some bytes ∧
    m' = m.insert p (fit bytes.length (f ⟨⟨bytes⟩⟩).data.toList)

/-- A request that was answered, and what the system granted then. -/
structure Exchange where
  {α : Type}
  request : Request α
  granted : Nat → Bool
  answer : α

/-- The exchanges that led from the empty heap to `h`, the last one first. -/
inductive Served : List Exchange → Heap → Prop
  | start : Served [] empty
  | step {past : List Exchange} {h h' : Heap} {records : List Record} (e : Exchange) :
    Served past h → performIf e.granted e.request h = ⟨.ok e.answer, h', records⟩ →
      Served (e :: past) h'

/-- The exchanges that led from the empty map to `m`, the last one first. -/
inductive MapServed : List Exchange → HandleMap → Prop
  | start : MapServed [] ∅
  | step {past : List Exchange} {m m' : HandleMap} (e : Exchange) :
    MapServed past m → Answers e.granted m e.request e.answer m' → MapServed (e :: past) m'

/-- What a client sees of a heap whose history is `past` is the map `m`. -/
structure Refines (past : List Exchange) (h : Heap) (m : HandleMap) : Prop where
  served : MapServed past m
  payload : ∀ granted p bytes,
    (performIf granted (.payload p) h).value = .ok bytes ↔ m.lookup p = some bytes.data.toList
  live : h.live = m.keys.card
  /-- A request that names no handle, or a live one, is answered. -/
  proceeds : ∀ {α : Type} (granted : Nat → Bool) (r : Request α),
    (∀ p, r.pointer = some p → p ∈ m) → ∃ answer, (performIf granted r h).value = .ok answer

/-- The map `m` has the blocks of a heap in order. -/
structure Represents (h : Heap) (m : HandleMap) : Prop where
  sound : h.Sound
  bytes : ∀ p, m.lookup p = (h.bytes? p).map fun bytes => bytes.data.toList
  live : h.live = m.keys.card

variable {h h' : Heap} {m : HandleMap} {p : Ptr} {bytes : ByteArray} {past : List Exchange}

theorem represents_empty : Represents empty ∅ where
  sound := sound_empty
  bytes p := by simp [bytes?, find?, Heap.empty]
  live := rfl

theorem toList_fitted_eq_fit (n : Nat) (bytes : ByteArray) :
    (Bytes.fitted n bytes).data.toList = fit n bytes.data.toList :=
  Bytes.toList_fitted n bytes

theorem card_keys_insert (m : HandleMap) (p : Ptr) (new : List UInt8) :
    (m.insert p new).keys.card + (m.lookup p).toList.length = m.keys.card + 1 := by
  have keys : (m.insert p new).keys = Insert.insert p m.keys := by
    ext q
    simp [Finmap.mem_keys, Finmap.mem_insert]
  rw [keys]
  by_cases mem : p ∈ m
  · obtain ⟨old, found⟩ := Finmap.mem_iff.mp mem
    rw [Finset.insert_eq_of_mem (Finmap.mem_keys.mpr mem), found]
    rfl
  · rw [Finset.card_insert_of_notMem (by rwa [Finmap.mem_keys]),
      Finmap.lookup_eq_none.mpr mem]
    rfl

namespace Represents

variable (rep : Represents h m)
include rep

theorem lookup_of_bytes? (held : h.bytes? p = some bytes) :
    m.lookup p = some bytes.data.toList := by
  rw [rep.bytes, held]
  rfl

theorem mem_iff : p ∈ m ↔ ∃ bytes, h.bytes? p = some bytes := by
  rw [Finmap.mem_iff, rep.bytes]
  simp

theorem length_lookup (p : Ptr) :
    (m.lookup p).toList.length = (h.bytes? p).toList.length := by
  rw [rep.bytes]
  cases h.bytes? p <;> rfl

theorem put {new : ByteArray} (puts : Puts h p (some new) h') :
    Represents h' (m.insert p new.data.toList) where
  sound := puts.sound
  bytes q := by
    rw [puts.bytes q]
    by_cases same : q = p
    · rw [same, Finmap.lookup_insert, if_pos rfl]
      rfl
    · rw [Finmap.lookup_insert_of_ne m same, if_neg same, rep.bytes]
  live := by
    have counted := puts.live
    have keys := card_keys_insert m p new.data.toList
    rw [rep.length_lookup] at keys
    have before := rep.live
    simp only [Option.toList_some, List.length_singleton] at counted
    omega

theorem drop (held : h.bytes? p = some bytes) (puts : Puts h p none h') :
    Represents h' (m.erase p) where
  sound := puts.sound
  bytes q := by
    rw [puts.bytes q]
    by_cases same : q = p
    · rw [same, Finmap.lookup_erase, if_pos rfl]
      rfl
    · rw [Finmap.lookup_erase_ne same, if_neg same, rep.bytes]
  live := by
    have counted := puts.live
    have before := rep.live
    have mem : p ∈ m.keys := Finmap.mem_keys.mpr (rep.mem_iff.mpr ⟨bytes, held⟩)
    rw [Finmap.keys_erase, Finset.card_erase_of_mem mem]
    simp only [held, Option.toList_some, Option.toList_none, List.length_singleton,
      List.length_nil] at counted
    omega

/-- A request that is answered does to the map what it does to the heap. -/
theorem step {α : Type} {granted : Nat → Bool} {r : Request α} {answer : α}
    {records : List Record} (run : performIf granted r h = ⟨.ok answer, h', records⟩)
    (few : h'.Indexed) : ∃ m', Answers granted m r answer m' ∧ Represents h' m' := by
  -- a pointer without a block would have cut the request short
  have live {p : Ptr} (named : r.pointer = some p) : ∃ bytes, h.bytes? p = some bytes := by
    cases found : h.find? p with
    | none =>
      rw [performIf_of_stray granted r named found] at run
      cases run
    | some b => exact bytes?_of_find? (by rw [found]; rfl)
  cases r with
  | grab n =>
    by_cases yes : granted n = true
    · rw [performIf, grabIf_of_granted yes] at run
      obtain ⟨p, after, inserted, fresh, puts⟩ :=
        insert_puts rep.sound (Bytes.replicate n 0) (by rw [run]; exact few)
      rw [inserted] at run
      cases run
      have new : p ∉ m := fun mem => by
        obtain ⟨bytes, held⟩ := rep.mem_iff.mp mem
        rw [fresh] at held
        cases held
      exact ⟨_, ⟨yes, new, rfl⟩, Bytes.toList_replicate n 0 ▸ rep.put puts⟩
    · rw [performIf, grabIf_of_refused yes] at run
      cases run
      exact ⟨m, ⟨Bool.eq_false_iff.mpr yes, rfl⟩, rep⟩
  | release p =>
    obtain ⟨bytes, held⟩ := live rfl
    obtain ⟨b, found, -, puts⟩ := puts_drop rep.sound held
    rw [performIf, release_of_find? found] at run
    cases run
    exact ⟨_, ⟨rep.mem_iff.mpr ⟨bytes, held⟩, rfl⟩, rep.drop held puts⟩
  | resize p n =>
    obtain ⟨bytes, held⟩ := live rfl
    obtain ⟨b, found, rfl, puts⟩ := puts_setBlock rep.sound held (Bytes.fitted n bytes)
    have bound := rep.lookup_of_bytes? held
    by_cases yes : granted (n - b.bytes.size) = true
    · rw [performIf, resizeIf_of_find? found yes] at run
      cases run
      exact ⟨_, ⟨_, bound, yes, rfl, rfl⟩, toList_fitted_eq_fit n b.bytes ▸ rep.put puts⟩
    · rw [performIf, resizeIf_of_refused found yes] at run
      cases run
      exact ⟨m, ⟨_, bound, Bool.eq_false_iff.mpr yes, rfl⟩, rep⟩
  | payload p =>
    obtain ⟨bytes, held⟩ := live rfl
    rw [performIf, payload_of_bytes? held] at run
    cases run
    exact ⟨m, ⟨rep.lookup_of_bytes? held, rfl⟩, rep⟩
  | edit p f =>
    obtain ⟨bytes, held⟩ := live rfl
    obtain ⟨b, found, rfl, puts⟩ :=
      puts_setBlock rep.sound held (Bytes.fitted bytes.size (f bytes))
    rw [performIf, editPayload_of_find? found] at run
    cases run
    exact ⟨_, ⟨_, rep.lookup_of_bytes? held, rfl⟩,
      toList_fitted_eq_fit b.bytes.size (f b.bytes) ▸ rep.put puts⟩

theorem proceeds {α : Type} (granted : Nat → Bool) (r : Request α)
    (live : ∀ p, r.pointer = some p → p ∈ m) :
    ∃ answer, (performIf granted r h).value = .ok answer := by
  cases named : r.pointer with
  | none => exact answers_of_no_pointer granted rep.sound named
  | some p =>
    obtain ⟨bytes, held⟩ := rep.mem_iff.mp (live p named)
    obtain ⟨i, g, -, -, found⟩ := exists_of_bytes? held
    exact answers_of_find? granted r named found

theorem payload_iff (granted : Nat → Bool) (p : Ptr) (bytes : ByteArray) :
    (performIf granted (.payload p) h).value = .ok bytes ↔
      m.lookup p = some bytes.data.toList := by
  rw [rep.bytes p]
  cases held : h.bytes? p with
  | none =>
    rw [performIf_of_stray granted (.payload p) rfl (Option.map_eq_none_iff.mp held)]
    simp
  | some old =>
    rw [performIf, payload_of_bytes? held]
    simp [← ByteArray.ext_iff, Array.toList_inj]

end Represents

theorem Served.represents (run : Served past h) (few : h.Indexed) :
    ∃ m, MapServed past m ∧ Represents h m := by
  induction run with
  | start => exact ⟨∅, .start, represents_empty⟩
  | step e _ answered ih =>
    obtain ⟨m, served, rep⟩ := ih (few.before answered)
    obtain ⟨m', answers, rep'⟩ := rep.step answered few
    exact ⟨m', .step e served answers, rep'⟩

/-- Each run of a heap is a run of a map, whatever the system grants. -/
theorem Served.refines_map (run : Served past h) (few : h.Indexed) : ∃ m, Refines past h m := by
  obtain ⟨m, served, rep⟩ := run.represents few
  exact ⟨m, served, rep.payload_iff, rep.live, rep.proceeds⟩

/-- A block that was filled, was not allowed to grow, and gave its slot to a second block. -/
def renewal : List Exchange :=
  [⟨.grab 4, fun _ => true, some (handle 0 1)⟩, ⟨.release (handle 0 0), fun _ => true, ()⟩,
    ⟨.resize (handle 0 0) 9, fun _ => false, none⟩,
    ⟨.edit (handle 0 0) fun _ => ⟨#[1, 2, 3]⟩, fun _ => true, ()⟩,
    ⟨.grab 3, fun _ => true, some (handle 0 0)⟩]

/-- The heap with that history. -/
def renewed : Heap := ⟨#[⟨1, some (Bytes.replicate 4 0)⟩], [], 1⟩

theorem served_renewal : Served renewal renewed := by
  have grabbed : Served (renewal.drop 4) ⟨#[⟨0, some (Bytes.replicate 3 0)⟩], [], 1⟩ :=
    .step _ .start rfl
  have filled : Served (renewal.drop 3) ⟨#[⟨0, some ⟨#[1, 2, 3]⟩⟩], [], 1⟩ := .step _ grabbed rfl
  have refused : Served (renewal.drop 2) ⟨#[⟨0, some ⟨#[1, 2, 3]⟩⟩], [], 1⟩ := .step _ filled rfl
  have released : Served (renewal.drop 1) ⟨#[⟨1, none⟩], [0], 0⟩ := .step _ refused rfl
  exact .step _ released rfl

theorem renewed_refines_map : ∃ m, Refines renewal renewed m :=
  Served.refines_map served_renewal (by decide)

end MemoryTrial.Heap
