import MemoryTrial.Proofs.Heap.Blocks

/-! The handles of a system heap.  A heap issues no handle twice, and a handle that was released names
no block ever after, whatever was put into its slot meanwhile.  The reason is that the table of slots
never falls behind a handle that it issued (`Met`): a slot that is free is past its generation, and a
slot without generations left is never used again. -/

namespace MemoryTrial.Heap

variable {h h' : Heap} {p q : Ptr} {bytes : ByteArray} {i : Nat} {g : UInt32} {α : Type}
  {issued released : List Ptr} {granted : Nat → Bool}

/-- The handles that a request issues, by its answer. -/
def issuedBy : {α : Type} → Request α → Except Panic α → List Ptr
  | _, .grab _, .ok (some p) => [p]
  | _, _, _ => []

/-- The handles that a request gives back, by its answer. -/
def releasedBy : {α : Type} → Request α → Except Panic α → List Ptr
  | _, .release p, .ok () => [p]
  | _, _, _ => []

/-- The heaps that there are after any requests, whatever the system granted at each, with the handles
that were issued and those that were released until then, the last ones first. -/
inductive Past : Heap → List Ptr → List Ptr → Prop
  | start : Past empty [] []
  | step {h : Heap} {issued released : List Ptr} {α : Type} (granted : Nat → Bool) (r : Request α) :
    Past h issued released →
      Past (performIf granted r h).state (issuedBy r (performIf granted r h).value ++ issued)
        (releasedBy r (performIf granted r h).value ++ released)

/-- A request is cut short by a violation, and the heap stays as it was. -/
def Rejects (granted : Nat → Bool) (r : Request α) (h : Heap) (v : Violation) : Prop :=
  performIf granted r h = ⟨.error (.violation v), h, [.fatal v]⟩

/-- What a heap makes of the handles of its history. -/
structure Guards (h : Heap) (issued released : List Ptr) : Prop where
  distinct : issued.Nodup
  names : ∀ p, (h.find? p).isSome = true ↔ p ∈ issued ∧ p ∉ released
  /-- The blocks that are counted are those that were issued and not released. -/
  live : h.live + released.length = issued.length
  proceeds : ∀ {α : Type} (granted : Nat → Bool) (r : Request α) p, r.pointer = some p →
    p ∈ issued → p ∉ released → ∃ answer, (performIf granted r h).value = .ok answer
  stale : ∀ {α : Type} (granted : Nat → Bool) (r : Request α) p, r.pointer = some p →
    p ∈ released → Rejects granted r h (r.misuse p)
  stray : ∀ {α : Type} (granted : Nat → Bool) (r : Request α) p, r.pointer = some p →
    ¬(p ∈ issued ∧ p ∉ released) → Rejects granted r h (h.blame p r)
  /-- Every handle is a word of 64 bits. -/
  words : ∀ p ∈ issued, p.addr < 0x10000000000000000

/-- The table has come to the handle `p`: a free slot is past it, and a slot in use is not before
it. -/
def Met (h : Heap) (p : Ptr) : Prop :=
  ∃ i g slot, p = handle i g ∧ h.slots[i]? = some slot ∧
    (i ∈ h.freeSlots → g < slot.generation) ∧ (slot.block.isSome = true → g ≤ slot.generation)

/-- A handle is new when its block is put into the table, and no handle is forgotten. -/
theorem insert_met (sound : h.Sound) (inserted : insert bytes h = ⟨.ok (some p), h', []⟩)
    (few : h'.Indexed) : ¬h.Met p ∧ h'.Met p ∧ ∀ q, h.Met q → h'.Met q := by
  obtain ⟨slots, freeSlots, live⟩ := h
  cases freeSlots with
  | nil =>
    simp only [insert, Result.mk.injEq, Except.ok.injEq] at inserted
    obtain ⟨answer, rfl, -⟩ := inserted
    rw [encode_eq (by simpa [Indexed] using few)] at answer
    cases answer
    refine ⟨?_, ?_, ?_⟩
    · rintro ⟨i, g, slot, same, held, -, -⟩
      obtain ⟨rfl, -⟩ := handle_inj.mp same
      simp at held
    · exact ⟨slots.size, 0, ⟨0, some bytes⟩, rfl, by simp, fun mem => absurd mem List.not_mem_nil,
        fun _ => Nat.le_refl 0⟩
    · rintro q ⟨i, g, slot, rfl, held, -, used⟩
      obtain ⟨inside, -⟩ := Array.getElem?_eq_some_iff.mp held
      refine ⟨i, g, slot, rfl, ?_, fun mem => absurd mem List.not_mem_nil, used⟩
      rw [Array.getElem?_push_lt inside, ← held]
      exact (Array.getElem?_eq_getElem inside).symm
  | cons i rest =>
    obtain ⟨g, here⟩ := sound.free i List.mem_cons_self
    obtain ⟨fresh, -⟩ := List.nodup_cons.mp sound.distinct
    obtain ⟨inside, -⟩ := Array.getElem?_eq_some_iff.mp here
    simp only at here inside
    simp only [insert, here, Result.mk.injEq, Except.ok.injEq] at inserted
    obtain ⟨answer, rfl, -⟩ := inserted
    have numbered : slots.size < slotLimit := by simpa [Indexed] using few
    rw [encode_eq (Nat.lt_of_le_of_lt inside numbered)] at answer
    cases answer
    refine ⟨?_, ?_, ?_⟩
    · rintro ⟨j, k, slot, same, held, free, -⟩
      obtain ⟨rfl, rfl⟩ := handle_inj.mp same
      rw [here] at held
      cases held
      exact UInt32.lt_irrefl _ (free List.mem_cons_self)
    · refine ⟨i, g, ⟨g, some bytes⟩, rfl, ?_, fun mem => absurd mem fresh, fun _ => UInt32.le_refl g⟩
      rw [Array.getElem?_setIfInBounds, if_pos rfl, if_pos inside]
    · rintro q ⟨j, k, slot, rfl, held, free, used⟩
      by_cases same : i = j
      · subst same
        rw [here] at held
        cases held
        refine ⟨i, k, ⟨g, some bytes⟩, rfl, ?_, fun mem => absurd mem fresh, fun _ => ?_⟩
        · rw [Array.getElem?_setIfInBounds, if_pos rfl, if_pos inside]
        · exact UInt32.le_of_lt (free List.mem_cons_self)
      · refine ⟨j, k, slot, rfl, ?_, fun mem => free (List.mem_cons_of_mem _ mem), used⟩
        rw [Array.getElem?_setIfInBounds, if_neg same]
        exact held

theorem setBlock_met (slot : h.slots[i]? = some ⟨g, some bytes⟩) (new : ByteArray)
    (met : h.Met q) : (h.setBlock i g new).Met q := by
  obtain ⟨j, k, other, rfl, held, free, used⟩ := met
  obtain ⟨inside, -⟩ := Array.getElem?_eq_some_iff.mp slot
  by_cases same : i = j
  · subst same
    rw [slot] at held
    cases held
    refine ⟨i, k, ⟨g, some new⟩, rfl, ?_, free, used⟩
    rw [setBlock, Array.getElem?_setIfInBounds, if_pos rfl, if_pos inside]
  · refine ⟨j, k, other, rfl, ?_, free, used⟩
    rw [setBlock, Array.getElem?_setIfInBounds, if_neg same]
    exact held

theorem lt_add_one_of_le {k : UInt32} (le : k ≤ g) (more : g + 1 ≠ 0) : k < g + 1 := by
  have bound := g.toNat_lt
  have wrapped : (g + 1).toNat = (g.toNat + 1) % 4294967296 := UInt32.toNat_add g 1
  have positive : (g + 1).toNat ≠ 0 := fun zero => more (UInt32.toNat_inj.mp zero)
  rw [UInt32.le_iff_toNat_le] at le
  rw [UInt32.lt_iff_toNat_lt]
  omega

/-- A slot that gives up its block is past every handle that it issued, or is retired. -/
theorem drop_met (sound : h.Sound) (slot : h.slots[i]? = some ⟨g, some bytes⟩) (met : h.Met q) :
    (h.drop ⟨i, g, bytes⟩).Met q := by
  obtain ⟨j, k, other, rfl, held, free, used⟩ := met
  obtain ⟨inside, -⟩ := Array.getElem?_eq_some_iff.mp slot
  by_cases same : i = j
  · subst same
    rw [slot] at held
    cases held
    refine ⟨i, k, ⟨g + 1, none⟩, rfl, ?_, fun mem => ?_, nofun⟩
    · rw [drop, Array.getElem?_setIfInBounds, if_pos rfl, if_pos inside]
    · -- the slot held a block, so that it was not free before
      apply lt_add_one_of_le (used rfl)
      intro retired
      rw [drop, if_pos retired] at mem
      obtain ⟨g', empty⟩ := sound.free i mem
      rw [slot] at empty
      cases empty
  · refine ⟨j, k, other, rfl, ?_, fun mem => free ?_, used⟩
    · rw [drop, Array.getElem?_setIfInBounds, if_neg same]
      exact held
    · simp only [drop] at mem
      split at mem
      next => exact mem
      next => exact List.mem_of_ne_of_mem (Ne.symm same) mem

/-- A heap in order, with the handles of its history. -/
structure Books (h : Heap) (issued released : List Ptr) : Prop where
  sound : h.Sound
  met : ∀ p ∈ issued, h.Met p
  distinct : issued.Nodup
  held : ∀ p, (h.bytes? p).isSome = true ↔ p ∈ issued ∧ p ∉ released
  once : ∀ p ∈ released, p ∈ issued
  live : h.live + released.length = issued.length

namespace Books

variable (books : Books h issued released)
include books

/-- A block that is put into the heap has a handle that was never issued. -/
theorem insert (inserted : Heap.insert bytes h = ⟨.ok (some p), h', []⟩) (few : h'.Indexed)
    (empty : h.bytes? p = none) (puts : Puts h p (some bytes) h') :
    Books h' (p :: issued) released := by
  obtain ⟨unmet, met, kept⟩ := insert_met books.sound inserted few
  have fresh : p ∉ issued := fun mem => unmet (books.met p mem)
  refine ⟨puts.sound, ?_, List.nodup_cons.mpr ⟨fresh, books.distinct⟩, fun q => ?_, ?_, ?_⟩
  · intro q mem
    rcases List.mem_cons.mp mem with rfl | mem
    · exact met
    · exact kept q (books.met q mem)
  · rw [puts.bytes q, List.mem_cons]
    by_cases same : q = p
    · subst same
      simpa using fun mem => fresh (books.once q mem)
    · simpa [same] using books.held q
  · exact fun q mem => List.mem_cons_of_mem p (books.once q mem)
  · have counted := puts.live
    have before := books.live
    simp only [empty, Option.toList_none, Option.toList_some, List.length_nil,
      List.length_cons] at counted ⊢
    omega

theorem edit (found : h.bytes? p = some bytes) {new : ByteArray} (puts : Puts h p (some new) h')
    (kept : ∀ q, h.Met q → h'.Met q) : Books h' issued released := by
  refine ⟨puts.sound, fun q mem => kept q (books.met q mem), books.distinct, fun q => ?_,
    books.once, ?_⟩
  · rw [puts.bytes q]
    by_cases same : q = p
    · subst same
      simpa [found] using books.held q
    · simpa [same] using books.held q
  · have counted := puts.live
    have before := books.live
    simp only [found, Option.toList_some, List.length_cons, List.length_nil] at counted
    omega

theorem drop (found : h.bytes? p = some bytes) (puts : Puts h p none h')
    (kept : ∀ q, h.Met q → h'.Met q) : Books h' issued (p :: released) := by
  have alive := (books.held p).mp (by rw [found]; rfl)
  refine ⟨puts.sound, fun q mem => kept q (books.met q mem), books.distinct, fun q => ?_, ?_, ?_⟩
  · rw [puts.bytes q, List.mem_cons, not_or]
    by_cases same : q = p
    · simp [same]
    · simpa [same] using books.held q
  · intro q mem
    rcases List.mem_cons.mp mem with rfl | mem
    · exact alive.1
    · exact books.once q mem
  · have counted := puts.live
    have before := books.live
    simp only [found, Option.toList_none, Option.toList_some, List.length_cons,
      List.length_nil] at counted ⊢
    omega

theorem step (granted : Nat → Bool) (r : Request α)
    (few : (performIf granted r h).state.Indexed) :
    Books (performIf granted r h).state (issuedBy r (performIf granted r h).value ++ issued)
      (releasedBy r (performIf granted r h).value ++ released) := by
  have stray {p : Ptr} (named : r.pointer = some p) (none : h.bytes? p = none) :
      Books (performIf granted r h).state (issuedBy r (performIf granted r h).value ++ issued)
        (releasedBy r (performIf granted r h).value ++ released) := by
    rw [performIf_of_stray granted r named (Option.map_eq_none_iff.mp none)]
    cases r <;> exact books
  cases r with
  | grab n =>
    by_cases yes : granted n = true
    · rw [performIf, grabIf_of_granted yes] at few ⊢
      obtain ⟨p, h', inserted, empty, puts⟩ := insert_puts books.sound (Bytes.replicate n 0) few
      rw [inserted] at few ⊢
      exact books.insert inserted few empty puts
    · rw [performIf, grabIf_of_refused yes]
      exact books
  | release p =>
    cases held : h.bytes? p with
    | none => exact stray rfl held
    | some bytes =>
      obtain ⟨b, found, -, puts⟩ := puts_drop books.sound held
      obtain ⟨i, g, rfl, slot, found'⟩ := exists_of_bytes? held
      cases found.symm.trans found'
      rw [performIf, release_of_find? found]
      exact books.drop held puts fun q => drop_met books.sound slot
  | resize p n =>
    cases held : h.bytes? p with
    | none => exact stray rfl held
    | some bytes =>
      obtain ⟨b, found, -, puts⟩ := puts_setBlock books.sound held (Bytes.fitted n bytes)
      obtain ⟨i, g, rfl, slot, found'⟩ := exists_of_bytes? held
      cases found.symm.trans found'
      by_cases yes : granted (n - bytes.size) = true
      · rw [performIf, resizeIf_of_find? found yes]
        exact books.edit held puts fun q => setBlock_met slot _
      · rw [performIf, resizeIf_of_refused found yes]
        exact books
  | payload p =>
    cases held : h.bytes? p with
    | none => exact stray rfl held
    | some bytes =>
      rw [performIf, payload_of_bytes? held]
      exact books
  | edit p f =>
    cases held : h.bytes? p with
    | none => exact stray rfl held
    | some bytes =>
      obtain ⟨b, found, -, puts⟩ :=
        puts_setBlock books.sound held (Bytes.fitted bytes.size (f bytes))
      obtain ⟨i, g, rfl, slot, found'⟩ := exists_of_bytes? held
      cases found.symm.trans found'
      rw [performIf, editPayload_of_find? found]
      exact books.edit held puts fun q => setBlock_met slot _

theorem names_iff : (h.find? p).isSome = true ↔ p ∈ issued ∧ p ∉ released := by
  rw [← books.held p, bytes?, Option.isSome_map]

theorem proceeds (granted : Nat → Bool) (r : Request α) (named : r.pointer = some p)
    (alive : p ∈ issued ∧ p ∉ released) : ∃ answer, (performIf granted r h).value = .ok answer := by
  obtain ⟨b, found⟩ := Option.isSome_iff_exists.mp (books.names_iff.mpr alive)
  exact answers_of_find? granted r named found

theorem stray (granted : Nat → Bool) (r : Request α) (named : r.pointer = some p)
    (dead : ¬(p ∈ issued ∧ p ∉ released)) : Rejects granted r h (h.blame p r) := by
  apply performIf_of_stray granted r named
  rw [← Option.not_isSome_iff_eq_none, books.names_iff]
  exact dead

/-- The slot of a handle that was issued is still in the table. -/
theorem misuse_eq (mem : p ∈ issued) : h.misuse p = .doubleRelease p := by
  obtain ⟨i, g, slot, rfl, held, -, -⟩ := books.met p mem
  obtain ⟨inside, -⟩ := Array.getElem?_eq_some_iff.mp held
  rw [misuse, decode_handle]
  exact if_pos inside

theorem stale (granted : Nat → Bool) (r : Request α) (named : r.pointer = some p)
    (gone : p ∈ released) : Rejects granted r h (r.misuse p) := by
  have rejects := books.stray granted r named fun alive => alive.2 gone
  have blamed : h.blame p r = r.misuse p := by
    cases r with
    | grab n => cases named
    | release q => exact books.misuse_eq (books.once p gone)
    | resize q n => exact books.misuse_eq (books.once p gone)
    | payload q => rfl
    | edit q f => rfl
  rwa [blamed] at rejects

theorem words (few : h.Indexed) (mem : p ∈ issued) : p.addr < 0x10000000000000000 := by
  obtain ⟨i, g, slot, rfl, held, -, -⟩ := books.met p mem
  obtain ⟨inside, -⟩ := Array.getElem?_eq_some_iff.mp held
  have bound := g.toNat_lt
  simp only [Indexed, slotLimit] at few
  simp only [handle, generations]
  omega

end Books

theorem Past.sound (past : Past h issued released) : h.Sound := by
  induction past with
  | start => exact sound_empty
  | step granted r _ ih => exact ih.performIf granted r

theorem Past.books (past : Past h issued released) (few : h.Indexed) :
    Books h issued released := by
  induction past with
  | start => exact ⟨sound_empty, nofun, List.nodup_nil, fun p => by
      simp [bytes?, find?, Heap.empty], nofun, rfl⟩
  | step granted r _ ih => exact (ih (few.before rfl)).step granted r few

/-- While every slot has a number, handles are issued once, and a handle that was released is rejected
for ever. -/
theorem Past.guards_handles (past : Past h issued released) (few : h.Indexed) :
    Guards h issued released where
  distinct := (past.books few).distinct
  names _ := (past.books few).names_iff
  live := (past.books few).live
  proceeds granted r _ named mem kept := (past.books few).proceeds granted r named ⟨mem, kept⟩
  stale granted r _ named gone := (past.books few).stale granted r named gone
  stray granted r _ named dead := (past.books few).stray granted r named dead
  words _ mem := (past.books few).words few mem

/-- A heap whose first slot holds its second block. -/
def recycled : Heap := ⟨#[⟨1, some (Bytes.replicate 4 0)⟩, ⟨0, some (Bytes.replicate 3 0)⟩], [], 2⟩

theorem past_recycled : Past recycled [handle 0 1, handle 1 0, handle 0 0] [handle 0 0] := by
  have first := Past.start.step (fun _ => true) (.grab 2)
  have second := first.step (fun _ => true) (.grab 3)
  have back := second.step (fun _ => true) (.release (handle 0 0))
  have refused := back.step (fun _ => false) (.resize (handle 1 0) 9)
  exact refused.step (fun _ => true) (.grab 4)

theorem recycled_guards_handles :
    Guards recycled [handle 0 1, handle 1 0, handle 0 0] [handle 0 0] :=
  Past.guards_handles past_recycled (by decide)

end MemoryTrial.Heap
