import MemoryTrial.Proofs.Arena.History

/-! The blocks of a system heap.  A heap is a finite map from pointers to bytes: a request changes it
at one pointer, and all other pointers keep their blocks (`Puts`).  What the system decides is left
open (`performIf`).  A new block has a pointer as long as every slot has a number (`Indexed`). -/

namespace MemoryTrial.Heap

theorem fitted_size_self (bytes : ByteArray) : Bytes.fitted bytes.size bytes = bytes := by
  apply ByteArray.ext
  rw [← Array.toList_inj, Bytes.toList_fitted, Nat.sub_self, List.replicate_zero, List.append_nil]
  have length : bytes.data.toList.length = bytes.size := rfl
  exact List.take_of_length_le (Nat.le_of_eq length)

variable {h h' : Heap} {p q : Ptr} {bytes : ByteArray} {i : Nat} {g : UInt32} {n : Nat}

/-- The bytes in a slot, for the generation that it is in. -/
def at? (h : Heap) (i : Nat) (g : UInt32) : Option ByteArray :=
  h.slots[i]?.bind fun slot => if slot.generation = g then slot.block else none

/-- The bytes of the block `p`, if there is such a block. -/
def bytes? (h : Heap) (p : Ptr) : Option ByteArray := (h.find? p).map Block.bytes

/-- The slots that can be used again are empty, and the blocks are counted. -/
structure Sound (h : Heap) : Prop where
  free : ∀ i ∈ h.freeSlots, ∃ g, h.slots[i]? = some ⟨g, none⟩
  distinct : h.freeSlots.Nodup
  live : h.live = h.slots.toList.countP (·.block.isSome)

/-- Every slot of the table has a number. -/
def Indexed (h : Heap) : Prop := h.slots.size < slotLimit

instance (h : Heap) : Decidable h.Indexed := Nat.decLt _ _

/-- The pointer to a block of a slot that has a number. -/
def handle (slot : Nat) (generation : UInt32) : Ptr :=
  ⟨(slot + 1) * generations + generation.toNat, by simp only [generations]; omega⟩

theorem encode_eq (numbered : i + 1 < slotLimit) (g : UInt32) :
    encode i g = some (handle i g) := by
  rw [encode, Nat.mod_eq_of_lt numbered]
  exact Ptr.ofAddr?_addr (handle i g)

/-- A pointer is read back as the slot and generation that it was made of. -/
@[simp] theorem decode_handle (slot : Nat) (generation : UInt32) :
    decode (handle slot generation) = some (slot, generation) := by
  have hlt := generation.toNat_lt
  have hle : generations ≤ (handle slot generation).addr := by
    simp only [handle, generations]; omega
  have hslot : (handle slot generation).addr / generations - 1 = slot := by
    simp only [handle, generations]; omega
  have hgen : UInt32.ofNat (handle slot generation).addr = generation := by
    apply UInt32.toNat_inj.mp
    simp only [handle, generations, UInt32.toNat_ofNat']
    omega
  rw [decode, if_pos hle, hslot, hgen]

theorem eq_handle_of_decode (found : decode p = some (i, g)) : p = handle i g := by
  unfold decode at found
  split at found
  next large =>
    cases found
    obtain ⟨addr, pos⟩ := p
    simp only [generations] at large ⊢
    simp only [handle, generations, Ptr.mk.injEq, UInt32.toNat_ofNat']
    omega
  next => cases found

theorem bytes?_handle (h : Heap) (i : Nat) (g : UInt32) : h.bytes? (handle i g) = h.at? i g := by
  cases hs : h.slots[i]? with
  | none => simp [bytes?, find?, at?, hs]
  | some slot =>
    by_cases same : slot.generation = g
    · simp [bytes?, find?, at?, hs, same, Function.comp_def]
    · simp [bytes?, find?, at?, hs, same]

theorem bytes?_of_find? (held : (h.find? p).isSome) : ∃ bytes, h.bytes? p = some bytes := by
  obtain ⟨b, found⟩ := Option.isSome_iff_exists.mp held
  exact ⟨b.bytes, by rw [bytes?, found]; rfl⟩

theorem bytes?_of_decode_none (foreign : decode p = none) (h : Heap) : h.bytes? p = none := by
  rw [bytes?, find?, foreign]
  rfl

theorem exists_of_bytes? (found : h.bytes? p = some bytes) :
    ∃ i g, p = handle i g ∧ h.slots[i]? = some ⟨g, some bytes⟩ ∧
      h.find? p = some ⟨i, g, bytes⟩ := by
  cases hd : decode p with
  | none =>
    rw [bytes?_of_decode_none hd] at found
    cases found
  | some place =>
    obtain ⟨i, g⟩ := place
    obtain rfl := eq_handle_of_decode hd
    rw [bytes?_handle, at?] at found
    cases hs : h.slots[i]? with
    | none =>
      rw [hs] at found
      cases found
    | some slot =>
      obtain ⟨now, block⟩ := slot
      rw [hs, Option.bind_some] at found
      split at found
      next same =>
        simp only at same found
        subst same found
        exact ⟨i, now, rfl, hs, by simp [find?, hs]⟩
      next => cases found

/-- From `h` to `h'` the block at `p` becomes `block`, and all others stay. -/
structure Puts (h : Heap) (p : Ptr) (block : Option ByteArray) (h' : Heap) : Prop where
  sound : h'.Sound
  bytes : ∀ q, h'.bytes? q = if q = p then block else h.bytes? q
  live : h'.live + (h.bytes? p).toList.length = h.live + block.toList.length

theorem countP_setIfInBounds {slots : Array Slot} {old : Slot} (held : slots[i]? = some old)
    (new : Slot) :
    (slots.setIfInBounds i new).toList.countP (·.block.isSome) + old.block.toList.length =
      slots.toList.countP (·.block.isSome) + new.block.toList.length := by
  obtain ⟨inside, here⟩ := Array.getElem?_eq_some_iff.mp held
  have one (slot : Slot) : slot.block.toList.length = if slot.block.isSome = true then 1 else 0 := by
    cases slot.block <;> rfl
  have counted : (if old.block.isSome = true then 1 else 0) ≤
      slots.toList.countP (·.block.isSome) := by
    split
    next full =>
      exact List.one_le_countP_iff.mpr ⟨old, by rw [← here]; simp, full⟩
    next => exact Nat.zero_le _
  rw [Array.toList_setIfInBounds, List.countP_set (by simpa using inside), Array.getElem_toList, here,
    one old, one new]
  omega

theorem at?_setIfInBounds {old new : Option ByteArray} {g' : UInt32}
    (held : h.slots[i]? = some ⟨g, old⟩) (same : g' = g ∨ new = none)
    (slots : h'.slots = h.slots.setIfInBounds i ⟨g', new⟩) (j : Nat) (k : UInt32) :
    h'.at? j k = if j = i ∧ k = g then new else h.at? j k := by
  obtain ⟨inside, -⟩ := Array.getElem?_eq_some_iff.mp held
  rw [at?, at?, slots, Array.getElem?_setIfInBounds]
  by_cases here : j = i
  · subst here
    rw [if_pos rfl, if_pos inside, held]
    by_cases now : k = g
    · subst now
      rcases same with rfl | rfl <;> simp
    · have other : g ≠ k := fun eq => now eq.symm
      rcases same with rfl | rfl <;> simp [now, other]
  · simp [here, Ne.symm here]

theorem handle_inj {j : Nat} {k : UInt32} : handle i g = handle j k ↔ i = j ∧ g = k := by
  constructor
  · intro same
    have decoded := congrArg decode same
    simpa using decoded
  · rintro ⟨rfl, rfl⟩
    rfl

theorem bytes?_eq_of_at? {block : Option ByteArray}
    (other : ∀ j k, h'.at? j k = if j = i ∧ k = g then block else h.at? j k) (q : Ptr) :
    h'.bytes? q = if q = handle i g then block else h.bytes? q := by
  cases hd : decode q with
  | none =>
    have foreign : q ≠ handle i g := fun same => by
      rw [same, decode_handle] at hd
      cases hd
    rw [if_neg foreign, bytes?_of_decode_none hd, bytes?_of_decode_none hd]
  | some found =>
    obtain ⟨j, k⟩ := found
    obtain rfl := eq_handle_of_decode hd
    simp only [bytes?_handle, other, handle_inj]

theorem puts_of_set {old new : Option ByteArray} {g' : UInt32} (sound : h.Sound)
    (held : h.slots[i]? = some ⟨g, old⟩) (same : g' = g ∨ new = none)
    (slots : h'.slots = h.slots.setIfInBounds i ⟨g', new⟩)
    (free : ∀ j ∈ h'.freeSlots, j ∈ h.freeSlots ∧ j ≠ i ∨ j = i ∧ new = none)
    (distinct : h'.freeSlots.Nodup)
    (live : h'.live + old.toList.length = h.live + new.toList.length) :
    Puts h (handle i g) new h' := by
  obtain ⟨inside, -⟩ := Array.getElem?_eq_some_iff.mp held
  have before : h.bytes? (handle i g) = old := by simp [bytes?_handle, at?, held]
  refine ⟨⟨fun j mem => ?_, distinct, ?_⟩, bytes?_eq_of_at? (at?_setIfInBounds held same slots),
    by rw [before]; exact live⟩
  · rw [slots, Array.getElem?_setIfInBounds]
    rcases free j mem with ⟨old_free, other⟩ | ⟨rfl, rfl⟩
    · rw [if_neg (Ne.symm other)]
      exact sound.free j old_free
    · exact ⟨g', by rw [if_pos rfl, if_pos inside]⟩
  · have counted := countP_setIfInBounds held ⟨g', new⟩
    rw [slots]
    have := sound.live
    simp only at counted
    omega

/-- A block is put into a slot where no block was.  The answer is the pointer that this slot has. -/
theorem insert_places (sound : h.Sound) (bytes : ByteArray) :
    ∃ i g h', insert bytes h = ⟨.ok (encode i g), h', []⟩ ∧ i < h'.slots.size ∧
      h.bytes? (handle i g) = none ∧ Puts h (handle i g) (some bytes) h' := by
  obtain ⟨slots, freeSlots, live⟩ := h
  cases freeSlots with
  | nil =>
    refine ⟨slots.size, 0, _, rfl, by simp, ?_, ⟨⟨nofun, List.nodup_nil, ?_⟩, ?_, ?_⟩⟩
    · simp [bytes?_handle, at?]
    · have := sound.live
      simp_all
    · refine bytes?_eq_of_at? fun j k => ?_
      simp only [at?, Array.getElem?_push]
      by_cases last : j = slots.size
      · subst last
        by_cases zero : k = 0
        · simp [zero]
        · simp [zero, Ne.symm zero]
      · simp [last]
    · simp [bytes?_handle, at?]
  | cons i rest =>
    obtain ⟨g, held⟩ := sound.free i List.mem_cons_self
    obtain ⟨inside, -⟩ := Array.getElem?_eq_some_iff.mp held
    obtain ⟨fresh, distinct⟩ := List.nodup_cons.mp sound.distinct
    refine ⟨i, g, ⟨slots.setIfInBounds i ⟨g, some bytes⟩, rest, live + 1⟩, ?_, ?_, ?_, ?_⟩
    · simp only at held
      simp only [insert, held]
    · simpa using inside
    · simp only at held
      simp [bytes?_handle, at?, held]
    · refine puts_of_set sound held (.inl rfl) rfl (fun j mem => .inl ?_) distinct (by simp)
      exact ⟨List.mem_cons_of_mem _ mem, fun same => fresh (same ▸ mem)⟩

/-- While every slot has a number, a block that is put into the heap gets a pointer that no block
has. -/
theorem insert_puts (sound : h.Sound) (bytes : ByteArray)
    (few : (insert bytes h).state.Indexed) :
    ∃ p h', insert bytes h = ⟨.ok (some p), h', []⟩ ∧ h.bytes? p = none ∧
      Puts h p (some bytes) h' := by
  obtain ⟨i, g, h', inserted, inside, fresh, puts⟩ := insert_places sound bytes
  rw [inserted] at few
  rw [encode_eq (Nat.lt_of_le_of_lt inside few)] at inserted
  exact ⟨handle i g, h', inserted, fresh, puts⟩

theorem grabIf_of_granted {granted : Bool} (yes : granted = true) (n : Nat) (h : Heap) :
    grabIf granted n h = insert (Bytes.replicate n 0) h := by
  rw [grabIf, if_pos yes]

theorem grabIf_of_refused {granted : Bool} (refused : ¬granted = true) (h : Heap) :
    grabIf granted n h = ⟨.ok none, h, [.heapGrabRefused n]⟩ := by
  rw [grabIf, if_neg refused]
  rfl

theorem grab_puts (sound : h.Sound) (granted : grants n = true) (few : (grab n h).state.Indexed) :
    ∃ p h', grab n h = ⟨.ok (some p), h', []⟩ ∧ h.bytes? p = none ∧
      Puts h p (some (Bytes.replicate n 0)) h' := by
  rw [grab, grabIf_of_granted granted] at few ⊢
  exact insert_puts sound (Bytes.replicate n 0) few

theorem grab_of_not_grants (h : Heap) (refused : ¬grants n = true) :
    grab n h = ⟨.ok none, h, [.heapGrabRefused n]⟩ :=
  grabIf_of_refused refused h

/-! ### A pointer that names a block -/

section Found

variable {b : Block} (found : h.find? p = some b)
include found

theorem read_find? : Op.read (fun h => h.find? p) h = ⟨.ok (some b), h, []⟩ := by
  rw [Op.read, found]

theorem usedBlock_of_find? : usedBlock p h = ⟨.ok b, h, []⟩ := by
  rw [usedBlock, Op.bind_of_ok (read_find? found)]
  rfl

theorem release_of_find? : release p h = ⟨.ok (), h.drop b, []⟩ := by
  rw [release, Op.bind_of_ok (read_find? found)]
  rfl

theorem resizeIf_of_find? {granted : Nat → Bool} (yes : granted (n - b.bytes.size) = true) :
    resizeIf granted p n h =
      ⟨.ok (some p), h.setBlock b.slot b.generation (Bytes.fitted n b.bytes), []⟩ := by
  rw [resizeIf, Op.bind_of_ok (read_find? found)]
  simp only [yes]
  rfl

theorem resizeIf_of_refused {granted : Nat → Bool} (no : ¬granted (n - b.bytes.size) = true) :
    resizeIf granted p n h = ⟨.ok none, h, [.heapResizeRefused p n]⟩ := by
  rw [resizeIf, Op.bind_of_ok (read_find? found)]
  simp only [if_neg no]
  rfl

theorem editPayload_of_find? (f : ByteArray → ByteArray) :
    editPayload p f h =
      ⟨.ok (), h.setBlock b.slot b.generation (Bytes.fitted b.bytes.size (f b.bytes)), []⟩ := by
  rw [editPayload, Op.bind_of_ok (usedBlock_of_find? found)]
  rfl

theorem payload_of_find? : payload p h = ⟨.ok b.bytes, h, []⟩ := by
  rw [payload, Op.bind_of_ok (usedBlock_of_find? found)]
  rfl

end Found

section Held

variable (sound : h.Sound) (held : h.bytes? p = some bytes)
include sound held

theorem puts_setBlock (new : ByteArray) :
    ∃ b, h.find? p = some b ∧ b.bytes = bytes ∧
      Puts h p (some new) (h.setBlock b.slot b.generation new) := by
  obtain ⟨i, g, rfl, slot, found⟩ := exists_of_bytes? held
  refine ⟨_, found, rfl, puts_of_set sound slot (.inl rfl) rfl (fun j mem => .inl ⟨mem, ?_⟩)
    sound.distinct (by simp [setBlock])⟩
  -- the slot is in use
  rintro rfl
  obtain ⟨g', empty⟩ := sound.free j mem
  rw [slot] at empty
  cases empty

theorem puts_drop : ∃ b, h.find? p = some b ∧ b.bytes = bytes ∧ Puts h p none (h.drop b) := by
  obtain ⟨i, g, rfl, slot, found⟩ := exists_of_bytes? held
  obtain ⟨inside, here⟩ := Array.getElem?_eq_some_iff.mp slot
  have used : i ∉ h.freeSlots := fun mem => by
    obtain ⟨g', empty⟩ := sound.free i mem
    rw [slot] at empty
    cases empty
  have counted : 1 ≤ h.live := by
    rw [sound.live]
    exact List.one_le_countP_iff.mpr ⟨⟨g, some bytes⟩, by rw [← here]; simp, rfl⟩
  refine ⟨_, found, rfl, puts_of_set sound slot (.inr rfl) rfl (fun j mem => ?_) ?_ ?_⟩
  · have others : j ∈ h.freeSlots → j ∈ h.freeSlots ∧ j ≠ i := fun free =>
      ⟨free, fun same => used (same ▸ free)⟩
    simp only [drop] at mem
    split at mem
    next => exact .inl (others mem)
    next =>
      rcases List.mem_cons.mp mem with rfl | free
      · exact .inr ⟨rfl, rfl⟩
      · exact .inl (others free)
  · simp only [drop]
    split
    next => exact sound.distinct
    next => exact List.nodup_cons.mpr ⟨used, sound.distinct⟩
  · simp only [drop, Option.toList_some, Option.toList_none, List.length_cons, List.length_nil]
    omega

theorem release_puts : ∃ h', release p h = ⟨.ok (), h', []⟩ ∧ Puts h p none h' := by
  obtain ⟨b, found, -, puts⟩ := puts_drop sound held
  exact ⟨_, release_of_find? found, puts⟩

theorem resize_puts (granted : grants (n - bytes.size) = true) :
    ∃ h', resize p n h = ⟨.ok (some p), h', []⟩ ∧
      Puts h p (some (Bytes.fitted n bytes)) h' := by
  obtain ⟨b, found, rfl, puts⟩ := puts_setBlock sound held (Bytes.fitted n bytes)
  exact ⟨_, resizeIf_of_find? found granted, puts⟩

theorem editPayload_puts (f : ByteArray → ByteArray) :
    ∃ h', editPayload p f h = ⟨.ok (), h', []⟩ ∧
      Puts h p (some (Bytes.fitted bytes.size (f bytes))) h' := by
  obtain ⟨b, found, rfl, puts⟩ := puts_setBlock sound held (Bytes.fitted bytes.size (f bytes))
  exact ⟨_, editPayload_of_find? found f, puts⟩

omit sound in
theorem payload_of_bytes? : payload p h = ⟨.ok bytes, h, []⟩ := by
  obtain ⟨i, g, rfl, slot, found⟩ := exists_of_bytes? held
  exact payload_of_find? found

end Held

theorem resize_of_not_grants (held : h.bytes? p = some bytes)
    (refused : ¬grants (n - bytes.size) = true) :
    resize p n h = ⟨.ok none, h, [.heapResizeRefused p n]⟩ := by
  obtain ⟨i, g, rfl, slot, found⟩ := exists_of_bytes? held
  exact resizeIf_of_refused found refused

theorem grab_answers (sound : h.Sound) (n : Nat) :
    ∃ a h' records, grab n h = ⟨.ok a, h', records⟩ := by
  by_cases granted : grants n = true
  · obtain ⟨i, g, h', inserted, -⟩ := insert_places sound (Bytes.replicate n 0)
    exact ⟨_, _, _, (grabIf_of_granted granted n h).trans inserted⟩
  · exact ⟨_, _, _, grab_of_not_grants h granted⟩

theorem resize_answers (sound : h.Sound) (held : h.bytes? p = some bytes) (n : Nat) :
    ∃ a h' records, resize p n h = ⟨.ok a, h', records⟩ := by
  by_cases granted : grants (n - bytes.size) = true
  · obtain ⟨h', resized, -⟩ := resize_puts sound held granted
    exact ⟨_, _, _, resized⟩
  · exact ⟨_, _, _, resize_of_not_grants held granted⟩

/-- The heaps that requests lead to. -/
inductive Reachable : Heap → Prop
  | empty : Reachable empty
  | step {h : Heap} {α : Type} (r : Request α) : Reachable h → Reachable (perform r h).state

/-! ### Requests on a system that decides for itself -/

/-- A request to a heap, on a system that grants growth as `granted` says. -/
def performIf {α : Type} (granted : Nat → Bool) : Request α → Op Heap α
  | .grab n => grabIf (granted n) n
  | .release p => release p
  | .resize p n => resizeIf granted p n
  | .payload p => payload p
  | .edit p f => editPayload p f

theorem perform_eq_performIf {α : Type} (r : Request α) : perform r = performIf grants r := by
  cases r <;> rfl

theorem size_le_insert (h : Heap) (bytes : ByteArray) :
    h.slots.size ≤ (insert bytes h).state.slots.size := by
  obtain ⟨slots, freeSlots, live⟩ := h
  cases freeSlots with
  | nil => simp [insert]
  | cons i rest =>
    simp only [insert]
    split
    next => exact Nat.le_refl _
    next => simp

/-- What a request is blamed for whose pointer names no block. -/
def blame {α : Type} (h : Heap) (p : Ptr) : Request α → Violation
  | .payload _ | .edit _ _ => .useAfterRelease p
  | .grab _ | .release _ | .resize _ _ => h.misuse p

/-- A pointer that names no block changes nothing. -/
theorem performIf_of_stray {α : Type} (granted : Nat → Bool) (r : Request α)
    (named : r.pointer = some p) (stray : h.find? p = none) :
    performIf granted r h =
      ⟨.error (.violation (h.blame p r)), h, [.fatal (h.blame p r)]⟩ := by
  have read : Op.read (fun h => h.find? p) h = ⟨.ok none, h, []⟩ := by
    rw [Op.read, stray]
  have unused : usedBlock p h =
      ⟨.error (.violation (.useAfterRelease p)), h, [.fatal (.useAfterRelease p)]⟩ := by
    rw [usedBlock, Op.bind_of_ok read]
    rfl
  cases r with
  | grab n => cases named
  | release q =>
    cases named
    exact Op.bind_of_ok read
  | resize q n =>
    cases named
    exact Op.bind_of_ok read
  | payload q =>
    cases named
    exact Op.bind_of_error unused
  | edit q f =>
    cases named
    exact Op.bind_of_error unused

/-- A request on a block that the heap holds is answered. -/
theorem answers_of_find? {α : Type} {b : Block} (granted : Nat → Bool) (r : Request α)
    (named : r.pointer = some p) (found : h.find? p = some b) :
    ∃ answer, (performIf granted r h).value = .ok answer := by
  cases r with
  | grab n => cases named
  | release q =>
    cases named
    exact ⟨_, by rw [performIf, release_of_find? found]⟩
  | resize q n =>
    cases named
    by_cases yes : granted (n - b.bytes.size) = true
    · exact ⟨_, by rw [performIf, resizeIf_of_find? found yes]⟩
    · exact ⟨_, by rw [performIf, resizeIf_of_refused found yes]⟩
  | payload q =>
    cases named
    exact ⟨_, by rw [performIf, payload_of_find? found]⟩
  | edit q f =>
    cases named
    exact ⟨_, by rw [performIf, editPayload_of_find? found]⟩

/-- A request that names no block is answered. -/
theorem answers_of_no_pointer {α : Type} {r : Request α} (granted : Nat → Bool) (sound : h.Sound)
    (named : r.pointer = none) : ∃ answer, (performIf granted r h).value = .ok answer := by
  cases r with
  | grab n =>
    by_cases yes : granted n = true
    · obtain ⟨i, g, h', inserted, -, -, -⟩ := insert_places sound (Bytes.replicate n 0)
      exact ⟨_, by rw [performIf, grabIf_of_granted yes, inserted]⟩
    · exact ⟨_, by rw [performIf, grabIf_of_refused yes]⟩
  | release | resize | payload | edit => cases named

/-- No request takes slots out of the table. -/
theorem size_le_performIf {α : Type} (granted : Nat → Bool) (r : Request α) (h : Heap) :
    h.slots.size ≤ (performIf granted r h).state.slots.size := by
  have stray {p : Ptr} (named : r.pointer = some p) (none : h.find? p = none) :
      h.slots.size ≤ (performIf granted r h).state.slots.size := by
    rw [performIf_of_stray granted r named none]
  cases r with
  | grab n =>
    by_cases yes : granted n = true
    · rw [performIf, grabIf_of_granted yes]
      exact size_le_insert h _
    · rw [performIf, grabIf_of_refused yes]
  | release p =>
    cases found : h.find? p with
    | none => exact stray rfl found
    | some b => simp [performIf, release_of_find? found, drop]
  | resize p n =>
    cases found : h.find? p with
    | none => exact stray rfl found
    | some b =>
      by_cases yes : granted (n - b.bytes.size) = true
      · simp [performIf, resizeIf_of_find? found yes, setBlock]
      · rw [performIf, resizeIf_of_refused found yes]
  | payload p =>
    cases found : h.find? p with
    | none => exact stray rfl found
    | some b => rw [performIf, payload_of_find? found]
  | edit p f =>
    cases found : h.find? p with
    | none => exact stray rfl found
    | some b => simp [performIf, editPayload_of_find? found, setBlock]

theorem Indexed.before {α : Type} {granted : Nat → Bool} {r : Request α} {value : Except Panic α}
    {records : List Record} (few : h'.Indexed)
    (run : performIf granted r h = ⟨value, h', records⟩) : h.Indexed := by
  have grown := size_le_performIf granted r h
  rw [run] at grown
  exact Nat.lt_of_le_of_lt grown few

theorem Sound.performIf {α : Type} (sound : h.Sound) (granted : Nat → Bool) (r : Request α) :
    (performIf granted r h).state.Sound := by
  have stray {p : Ptr} (named : r.pointer = some p) (none : h.bytes? p = none) :
      (Heap.performIf granted r h).state.Sound := by
    rw [performIf_of_stray granted r named (Option.map_eq_none_iff.mp none)]
    exact sound
  cases r with
  | grab n =>
    by_cases yes : granted n = true
    · obtain ⟨i, g, h', inserted, -, -, puts⟩ := insert_places sound (Bytes.replicate n 0)
      rw [Heap.performIf, grabIf_of_granted yes, inserted]
      exact puts.sound
    · rw [Heap.performIf, grabIf_of_refused yes]
      exact sound
  | release p =>
    cases held : h.bytes? p with
    | none => exact stray rfl held
    | some bytes =>
      obtain ⟨b, found, -, puts⟩ := puts_drop sound held
      rw [Heap.performIf, release_of_find? found]
      exact puts.sound
  | resize p n =>
    cases held : h.bytes? p with
    | none => exact stray rfl held
    | some bytes =>
      obtain ⟨b, found, rfl, puts⟩ := puts_setBlock sound held (Bytes.fitted n bytes)
      by_cases yes : granted (n - b.bytes.size) = true
      · rw [Heap.performIf, resizeIf_of_find? found yes]
        exact puts.sound
      · rw [Heap.performIf, resizeIf_of_refused found yes]
        exact sound
  | payload p =>
    cases held : h.bytes? p with
    | none => exact stray rfl held
    | some bytes =>
      rw [Heap.performIf, payload_of_bytes? held]
      exact sound
  | edit p f =>
    cases held : h.bytes? p with
    | none => exact stray rfl held
    | some bytes =>
      obtain ⟨b, found, rfl, puts⟩ := puts_setBlock sound held (Bytes.fitted bytes.size (f bytes))
      rw [Heap.performIf, editPayload_of_find? found]
      exact puts.sound

theorem sound_empty : empty.Sound := ⟨nofun, List.nodup_nil, rfl⟩

theorem Reachable.sound (reached : h.Reachable) : h.Sound := by
  induction reached with
  | empty => exact sound_empty
  | step r _ ih =>
    rw [perform_eq_performIf]
    exact ih.performIf grants r

/-! ### A full table -/

/-- A heap with a block of one byte in each of `n` slots. -/
def crowded (n : Nat) : Heap := ⟨Array.replicate n ⟨0, some (Bytes.replicate 1 0)⟩, [], n⟩

theorem crowded_reachable (n : Nat) : (crowded n).Reachable := by
  induction n with
  | zero => exact .empty
  | succ n ih =>
    have more : crowded (n + 1) = (perform (.grab 1) (crowded n)).state :=
      congrArg (fun slots => (⟨slots, [], n + 1⟩ : Heap)) Array.replicate_succ
    rw [more]
    exact ih.step (.grab 1)

/-- Where every number is taken, a block that the system grants is counted and lost. -/
theorem grab_of_crowded {n : Nat} (granted : grants n = true) :
    ∃ h, grab n (crowded 0xffffffff) = ⟨.ok none, h, []⟩ ∧ h.live = 0x100000000 := by
  have slots : (crowded 0xffffffff).slots.size = 0xffffffff := Array.size_replicate
  have lost : encode (crowded 0xffffffff).slots.size 0 = none := by
    rw [slots]
    rfl
  refine ⟨⟨(crowded 0xffffffff).slots.push ⟨0, some (Bytes.replicate n 0)⟩, [], 0x100000000⟩, ?_,
    rfl⟩
  rw [grab, grabIf_of_granted granted, ← lost]
  rfl

end MemoryTrial.Heap
