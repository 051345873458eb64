import MemoryTrial.Plan.Basic
import MemoryTrial.Proofs.Arena.Misuse
import MemoryTrial.Proofs.Heap.Faulty
import MemoryTrial.Proofs.Heap.Handles

/-! Allocators in use, as a client sees them: by the bytes of the blocks that it can read
(`contents`).  An arena moves and merges blocks, a heap keeps them in slots, and a faulty heap refuses
some requests.  What all of them do for a client that uses its own blocks is the same: the client
trades a block for another, and every other block keeps its bytes (`Serving.serves`). -/

namespace MemoryTrial.Plan

/-- A request, and what came of it. -/
structure Exchange where
  {α : Type}
  request : Request α
  value : Except Panic α

namespace Exchange

/-- The request asks for memory. -/
def demands (e : Exchange) : Bool := e.request.demand.isSome

/-- The request asked for memory and got none. -/
def refused : Exchange → Bool
  | ⟨.grab _, .ok none⟩ | ⟨.resize _ _, .ok none⟩ => true
  | _ => false

/-- The block that the client gave up. -/
def gave : Exchange → Option Ptr
  | ⟨.release p, .ok ()⟩ | ⟨.resize p _, .ok (some _)⟩ | ⟨.edit p _, .ok ()⟩ => some p
  | _ => none

/-- The block that the client got. -/
def got : Exchange → Option Ptr
  | ⟨.grab _, .ok answer⟩ | ⟨.resize _ _, .ok answer⟩ => answer
  | ⟨.edit p _, .ok ()⟩ => some p
  | _ => none

end Exchange

/-- The bytes of each block. -/
abbrev Contents := Ptr → Option ByteArray

/-- The blocks of an allocator, as a client can read them. -/
def contents (s : Ground) : Contents := fun p => (Allocator.perform (.payload p) s).value.toOption

/-- From `m` to `m'` the block `old` gives way to the block `new`, and all others stay. -/
structure Swaps (m : Contents) (old new : Option Ptr) (m' : Contents) : Prop where
  fresh : ∀ q, new = some q → old = some q ∨ m q = none
  held : ∀ q, new = some q → (m' q).isSome = true
  gone : ∀ q, old = some q → new = some q ∨ m' q = none
  others : ∀ q, old ≠ some q → new ≠ some q → m' q = m q

theorem Swaps.refl (m : Contents) : Swaps m none none m := ⟨nofun, nofun, nofun, fun _ _ _ => rfl⟩

/-- A request, on a system that grants a heap growth as `granted` says. -/
def performIf {α : Type} (granted : Nat → Bool) (r : Request α) : Op Ground α := fun s =>
  match s with
  | (.heap h, active) =>
    match Heap.performIf granted r h with
    | ⟨value, h, records⟩ => ⟨value, (.heap h, active), records⟩
  | (.faulty f, active) =>
    match FaultyHeap.performIf granted r (f, active) with
    | ⟨value, (f, active), records⟩ => ⟨value, (.faulty f, active), records⟩
  | (.arena a, active) => Allocator.perform r (.arena a, active)
  | (.flaky a, active) => Allocator.perform r (.flaky a, active)

theorem perform_eq_performIf {α : Type} (r : Request α) :
    Allocator.perform r = performIf Heap.grants r := by
  funext s
  obtain ⟨allocator, active⟩ := s
  cases allocator with
  | arena a | flaky a => rfl
  | heap h => rw [Allocator.perform, Heap.perform_eq_performIf, performIf]
  | faulty f => rw [Allocator.perform, FaultyHeap.perform_eq_performIf, performIf]

theorem indexed_before {α : Type} (granted : Nat → Bool) (r : Request α) {s : Ground}
    (few : (performIf granted r s).state.1.Indexed) : s.1.Indexed := by
  obtain ⟨allocator, active⟩ := s
  cases allocator with
  | arena a | flaky a => trivial
  | heap h => exact Nat.lt_of_le_of_lt (Heap.size_le_performIf granted r h) few
  | faulty f => exact Nat.lt_of_le_of_lt (f.size_le_performIf active granted r) few

/-- The allocators that there are after any history, while they are in use, with any blocks. -/
inductive Serving : Ground → Prop
  | arena {a : Arena} {held : List Arena.Lease} (active : Option Frame) :
    Arena.Reachable a held → Serving (.arena a, active)
  | heap {h : Heap} {issued released : List Ptr} (active : Option Frame) :
    Heap.Past h issued released → Serving (.heap h, active)
  | faulty {f : FaultyHeap} {issued released : List Ptr} (active : Option Frame) :
    Heap.Past f.heap issued released → Serving (.faulty f, active)

/-- The active replay has a checkpoint for each demand of `past`.  Only a faulty heap passes any. -/
def Spare : Ground → List Exchange → Prop
  | (.faulty _, some frame), past =>
    frame.count + past.countP Exchange.demands ≤ maxCheckpoints
  | _, _ => True

variable {α : Type} {granted : Nat → Bool} {r : Request α} {answer : α}

/-! ### Arenas -/

section Arena

variable {a : Arena} {held : List Arena.Lease} {active : Option Frame} {q : Ptr}

theorem contents_isSome_iff (reached : Arena.Reachable a held) :
    (contents (.arena a, active) q).isSome = true ↔ ∃ lease ∈ held, lease.ptr = q := by
  obtain ⟨nodes, accounts⟩ := reached.accounts
  rw [← accounts.detects.blocks q, ← accounts.detects.proceeds (.payload q) q rfl]
  change ((Arena.payload q a).value.toOption).isSome = true ↔
    ∃ bytes, (Arena.payload q a).value = .ok bytes
  cases (Arena.payload q a).value with
  | error panic => exact iff_of_false nofun nofun
  | ok bytes => exact iff_of_true rfl ⟨bytes, rfl⟩

theorem contents_of_not_held (reached : Arena.Reachable a held)
    (out : ¬∃ lease ∈ held, lease.ptr = q) : contents (.arena a, active) q = none :=
  Option.not_isSome_iff_eq_none.mp fun some => out ((contents_isSome_iff reached).mp some)

theorem mem_drop_iff {p : Ptr} :
    (∃ lease ∈ Arena.Lease.drop p held, lease.ptr = q) ↔
      p ≠ q ∧ ∃ lease ∈ held, lease.ptr = q := by
  simp only [Arena.Lease.drop, List.mem_filter, decide_eq_true_eq]
  constructor
  · rintro ⟨lease, ⟨mem, other⟩, rfl⟩
    exact ⟨Ne.symm other, lease, mem, rfl⟩
  · rintro ⟨other, lease, mem, rfl⟩
    exact ⟨lease, ⟨mem, Ne.symm other⟩, rfl⟩

/-- The leases after an answer, by what the client gave and got. -/
theorem held_after_iff (mine : ∀ p, r.pointer = some p → ∃ lease ∈ held, lease.ptr = p) :
    (∃ lease ∈ Arena.Lease.after r (.ok answer) held, lease.ptr = q) ↔
      Exchange.got ⟨r, .ok answer⟩ = some q ∨
        Exchange.gave ⟨r, .ok answer⟩ ≠ some q ∧ ∃ lease ∈ held, lease.ptr = q := by
  cases r with
  | grab n => cases answer <;> simp [Arena.Lease.after, Exchange.got, Exchange.gave]
  | release p => simp [Arena.Lease.after, Exchange.got, Exchange.gave, mem_drop_iff]
  | resize p n =>
    cases answer with
    | none => simp [Arena.Lease.after, Exchange.got, Exchange.gave]
    | some p' =>
      simp only [Arena.Lease.after, Exchange.got, Exchange.gave, List.exists_mem_cons_iff,
        mem_drop_iff, ne_eq, Option.some.injEq]
  | payload p => simp [Arena.Lease.after, Exchange.got, Exchange.gave]
  | edit p f =>
    have known : p = q → ∃ lease ∈ held, lease.ptr = q := fun same => same ▸ mine p rfl
    simp only [Arena.Lease.after, Exchange.got, Exchange.gave, ne_eq, Option.some.injEq]
    tauto

/-- A block that an arena hands out was handed out to nobody else. -/
theorem fresh_of_nodup (distinct : ((Arena.Lease.after r (.ok answer) held).map Arena.Lease.ptr).Nodup)
    (new : Exchange.got ⟨r, .ok answer⟩ = some q) :
    Exchange.gave ⟨r, .ok answer⟩ = some q ∨ ¬∃ lease ∈ held, lease.ptr = q := by
  have absent {rest : List Arena.Lease} {n : Nat}
      (nodup : ((⟨q, n⟩ :: rest : List Arena.Lease).map Arena.Lease.ptr).Nodup) :
      ¬∃ lease ∈ rest, lease.ptr = q := by
    rintro ⟨lease, mem, here⟩
    exact (List.nodup_cons.mp nodup).1 (List.mem_map.mpr ⟨lease, mem, here⟩)
  cases r with
  | grab n =>
    obtain rfl : answer = some q := new
    exact .inr (absent distinct)
  | release p => cases new
  | resize p n =>
    obtain rfl : answer = some q := new
    have out := absent distinct
    rw [mem_drop_iff] at out
    by_cases same : p = q
    · exact .inl (congrArg some same)
    · exact .inr fun mem => out ⟨same, mem⟩
  | payload p => cases new
  | edit p f => exact .inl new

/-- A block that the client did not give up is as it was. -/
theorem payload_kept (reached : Arena.Reachable a held)
    (value : (Arena.perform r a).value = .ok answer) (mem : ∃ lease ∈ held, lease.ptr = q)
    (other : Exchange.gave ⟨r, .ok answer⟩ ≠ some q) :
    (Arena.payload q (Arena.perform r a).state).value = (Arena.payload q a).value := by
  obtain ⟨lease, mem, rfl⟩ := mem
  obtain ⟨nodes, accounts⟩ := reached.accounts
  have isolated := accounts.isolated
  have kept (away : r.target ≠ some lease.ptr) := (isolated.kept r lease mem away).2
  cases r with
  | grab n => exact kept nofun
  | release p => exact kept other
  | resize p n =>
    cases answer with
    | none => exact (isolated.refused p n value).2 lease mem
    | some p' => exact kept other
  | payload p => exact kept nofun
  | edit p f => exact kept other

theorem serves_arena (reached : Arena.Reachable a held)
    (mine : ∀ p, r.pointer = some p → (contents (.arena a, active) p).isSome = true) :
    ∃ answer a' records, Arena.perform r a = ⟨.ok answer, a', records⟩ ∧
      Serving (.arena a', active) ∧ Swaps (contents (.arena a, active))
        (Exchange.gave ⟨r, .ok answer⟩) (Exchange.got ⟨r, .ok answer⟩)
        (contents (.arena a', active)) := by
  have owned : ∀ p, r.pointer = some p → ∃ lease ∈ held, lease.ptr = p := fun p named =>
    (contents_isSome_iff reached).mp (mine p named)
  obtain ⟨nodes, accounts⟩ := reached.accounts
  obtain ⟨answer, value⟩ := accounts.isolated.answered r owned
  have after := reached.step r
  rw [value] at after
  have known (q : Ptr) : (∃ lease ∈ Arena.Lease.after r (.ok answer) held, lease.ptr = q) ↔ _ :=
    held_after_iff owned
  refine ⟨answer, (Arena.perform r a).state, (Arena.perform r a).records, by rw [← value],
    .arena active after, ?_, fun q new => ?_, fun q old => ?_, fun q notOld notNew => ?_⟩
  · intro q new
    obtain ⟨nodes, accounts⟩ := after.accounts
    exact (fresh_of_nodup accounts.nodup new).imp_right (contents_of_not_held reached)
  · exact (contents_isSome_iff after).mpr ((known q).mpr (.inl new))
  · by_cases new : Exchange.got ⟨r, .ok answer⟩ = some q
    · exact .inl new
    · refine .inr (contents_of_not_held after fun mem => ?_)
      exact ((known q).mp mem).elim new fun kept => kept.1 old
  · by_cases mem : ∃ lease ∈ held, lease.ptr = q
    · exact congrArg Except.toOption (payload_kept reached value mem notOld)
    · rw [contents_of_not_held reached mem]
      refine contents_of_not_held after fun still => ?_
      exact ((known q).mp still).elim notNew fun kept => mem kept.2

end Arena

/-! ### Heaps -/

section Heap

variable {h h' : Heap} {p : Ptr} {new : Option ByteArray} {active : Option Frame}

theorem toOption_payload (h : Heap) (p : Ptr) :
    (Heap.performIf Heap.grants (.payload p) h).value.toOption = h.bytes? p := by
  cases held : h.bytes? p with
  | none =>
    rw [Heap.performIf_of_stray Heap.grants (.payload p) rfl (Option.map_eq_none_iff.mp held)]
    rfl
  | some bytes =>
    rw [Heap.performIf, Heap.payload_of_bytes? held]
    rfl

theorem contents_heap : contents (.heap h, active) = h.bytes? := by
  funext p
  exact toOption_payload h p

theorem contents_faulty {f : FaultyHeap} : contents (.faulty f, active) = f.heap.bytes? := by
  funext p
  exact toOption_payload f.heap p

theorem Swaps.of_puts (puts : Heap.Puts h p new h') :
    Swaps h.bytes? ((h.bytes? p).map fun _ => p) (new.map fun _ => p) h'.bytes? where
  fresh q is := by
    obtain ⟨bytes, -, rfl⟩ := Option.map_eq_some_iff.mp is
    cases held : h.bytes? p with
    | none => exact .inr rfl
    | some old => exact .inl rfl
  held q is := by
    obtain ⟨bytes, rfl, rfl⟩ := Option.map_eq_some_iff.mp is
    rw [puts.bytes, if_pos rfl]
    rfl
  gone q was := by
    obtain ⟨old, -, rfl⟩ := Option.map_eq_some_iff.mp was
    rw [puts.bytes, if_pos rfl]
    cases new with
    | none => exact .inr rfl
    | some bytes => exact .inl rfl
  others q notOld notNew := by
    rw [puts.bytes]
    split
    next same =>
      subst same
      cases held : h.bytes? q <;> cases new <;> simp_all
    next => rfl

/-- A heap changes no block but the one that a request is about. -/
theorem serves_heap (granted : Nat → Bool) (sound : h.Sound)
    (mine : ∀ p, r.pointer = some p → (h.bytes? p).isSome = true)
    (few : (Heap.performIf granted r h).state.Indexed) :
    ∃ answer h' records, Heap.performIf granted r h = ⟨.ok answer, h', records⟩ ∧
      Swaps h.bytes? (Exchange.gave ⟨r, .ok answer⟩) (Exchange.got ⟨r, .ok answer⟩) h'.bytes? := by
  have block {p : Ptr} (named : r.pointer = some p) :
      ∃ bytes, h.bytes? p = some bytes := Option.isSome_iff_exists.mp (mine p named)
  cases r with
  | grab n =>
    by_cases yes : granted n = true
    · rw [Heap.performIf, Heap.grabIf_of_granted yes] at few ⊢
      obtain ⟨p, h', inserted, empty, puts⟩ := Heap.insert_puts sound (Bytes.replicate n 0) few
      have swaps := Swaps.of_puts puts
      rw [empty] at swaps
      exact ⟨_, _, _, inserted, swaps⟩
    · exact ⟨_, _, _, Heap.grabIf_of_refused yes h, .refl _⟩
  | release p =>
    obtain ⟨bytes, held⟩ := block rfl
    obtain ⟨h', released, puts⟩ := Heap.release_puts sound held
    have swaps := Swaps.of_puts puts
    rw [held] at swaps
    exact ⟨_, _, _, released, swaps⟩
  | resize p n =>
    obtain ⟨bytes, held⟩ := block rfl
    obtain ⟨b, found, rfl, puts⟩ := Heap.puts_setBlock sound held (Bytes.fitted n bytes)
    by_cases yes : granted (n - b.bytes.size) = true
    · have swaps := Swaps.of_puts puts
      rw [held] at swaps
      exact ⟨_, _, _, Heap.resizeIf_of_find? found yes, swaps⟩
    · exact ⟨_, _, _, Heap.resizeIf_of_refused found yes, .refl _⟩
  | payload p =>
    obtain ⟨bytes, held⟩ := block rfl
    exact ⟨_, _, _, Heap.payload_of_bytes? held, .refl _⟩
  | edit p f =>
    obtain ⟨bytes, held⟩ := block rfl
    obtain ⟨h', edited, puts⟩ := Heap.editPayload_puts sound held f
    have swaps := Swaps.of_puts puts
    rw [held] at swaps
    exact ⟨_, _, _, edited, swaps⟩

end Heap

/-! ### Faulty heaps -/

section Faulty

variable {f : FaultyHeap} {active : Option Frame} {rest : List Exchange}

theorem spare_of_no_demand {allocator : Allocator} {f' : FaultyHeap} {e : Exchange}
    (plain : e.demands = false) (faulty : allocator = .faulty f)
    (spare : Spare (allocator, active) (e :: rest)) : Spare (.faulty f', active) rest := by
  subst faulty
  cases active with
  | none => trivial
  | some frame =>
    rw [Spare, List.countP_cons_of_neg (by simp [plain])] at spare
    exact spare

/-- A demand passes a checkpoint, and the replay has one more for each demand after it. -/
theorem spare_of_demand {f' : FaultyHeap} {e : Exchange} {frame next : Frame}
    (demands : e.demands = true) (count : next.count = frame.count + 1)
    (spare : Spare (.faulty f, some frame) (e :: rest)) :
    frame.count < maxCheckpoints ∧ Spare (.faulty f', some next) rest := by
  rw [Spare, List.countP_cons_of_pos demands] at spare
  refine ⟨by omega, ?_⟩
  rw [Spare, count]
  omega

/-- What a faulty heap leaves of a request. -/
def Answers (f : FaultyHeap) (rest : List Exchange) (r : Request α)
    (result : Result (FaultyHeap × Option Frame) α) : Prop :=
  ∃ answer f' active' records, result = ⟨.ok answer, (f', active'), records⟩ ∧
    (f'.heap = f.heap ∨ ∃ granted, f'.heap = (Heap.performIf granted r f.heap).state) ∧
    Spare (.faulty f', active') rest ∧ Swaps f.heap.bytes? (Exchange.gave ⟨r, .ok answer⟩)
      (Exchange.got ⟨r, .ok answer⟩) f'.heap.bytes?

/-- A request that comes to the heap behind is served there. -/
theorem answers_of_admitted (sound : f.heap.Sound)
    (mine : ∀ p, r.pointer = some p → (f.heap.bytes? p).isSome = true)
    (spare : ∀ f', Spare (.faulty f', active) rest)
    (few : (Heap.performIf granted r f.heap).state.Indexed) :
    Answers f rest r (f.through active (Heap.performIf granted r f.heap)) := by
  obtain ⟨answer, h', records, served, swaps⟩ := serves_heap granted sound mine few
  refine ⟨answer, { f with heap := h' }, active, records, ?_, .inr ⟨granted, ?_⟩, spare _, swaps⟩
  · rw [FaultyHeap.through, served]
  · rw [served]

theorem answers_of_demand {r : Request (Option Ptr)} (asks : r.demand.isSome = true)
    (sound : f.heap.Sound) (mine : ∀ p, r.pointer = some p → (f.heap.bytes? p).isSome = true)
    (spare : Spare (.faulty f, active)
      (⟨r, (FaultyHeap.performIf granted r (f, active)).value⟩ :: rest))
    (few : (FaultyHeap.performIf granted r (f, active)).state.1.heap.Indexed) :
    Answers f rest r (FaultyHeap.performIf granted r (f, active)) := by
  cases active with
  | none =>
    rw [f.shadows.outside granted r] at few ⊢
    exact answers_of_admitted sound mine (fun _ => trivial) few
  | some frame =>
    obtain ⟨⟨name, n⟩, demand⟩ := Option.isSome_iff_exists.mp asks
    have demands : Exchange.demands
        ⟨r, (FaultyHeap.performIf granted r (f, some frame)).value⟩ = true := asks
    have room (f' : FaultyHeap) (next : Frame) (count : next.count = frame.count + 1) :
        frame.count < maxCheckpoints ∧ Spare (.faulty f', some next) rest :=
      spare_of_demand demands count spare
    have inside := (room f { frame with count := frame.count + 1 } rfl).1
    cases fails : frame.willFail frame.count with
    | true =>
      rw [f.shadows.refused granted r name n frame demand inside fails]
      refine ⟨none, _, _, _, rfl, .inl rfl, (room _ _ rfl).2, ?_⟩
      rcases Request.cases_of_demand demand with ⟨rfl, -⟩ | ⟨p, rfl, -⟩
      · exact .refl _
      · exact .refl _
    | false =>
      rw [f.shadows.admitted granted r frame asks inside fails] at few ⊢
      exact answers_of_admitted sound mine (fun f' => (room f' _ rfl).2) few

theorem serves_faulty (granted : Nat → Bool) (sound : f.heap.Sound)
    (mine : ∀ p, r.pointer = some p → (f.heap.bytes? p).isSome = true)
    (spare : Spare (.faulty f, active)
      (⟨r, (FaultyHeap.performIf granted r (f, active)).value⟩ :: rest))
    (few : (FaultyHeap.performIf granted r (f, active)).state.1.heap.Indexed) :
    Answers f rest r (FaultyHeap.performIf granted r (f, active)) := by
  have plain (none : r.demand = none) :
      Answers f rest r (FaultyHeap.performIf granted r (f, active)) := by
    have quiet : Exchange.demands ⟨r, (FaultyHeap.performIf granted r (f, active)).value⟩ = false := by
      rw [Exchange.demands, none]
      rfl
    rw [f.shadows.uncounted granted r active none] at few ⊢
    exact answers_of_admitted sound mine (fun f' => spare_of_no_demand quiet rfl spare) few
  cases r with
  | grab n => exact answers_of_demand rfl sound mine spare few
  | resize p n => exact answers_of_demand rfl sound mine spare few
  | release p | payload p | edit p f => exact plain rfl

end Faulty

/-- A client that uses its own blocks is answered, by whatever allocator, and no other block changes. -/
theorem Serving.serves {s : Ground} {rest : List Exchange} (serving : Serving s)
    (granted : Nat → Bool)
    (mine : ∀ p, r.pointer = some p → (contents s p).isSome = true)
    (spare : Spare s (⟨r, (performIf granted r s).value⟩ :: rest))
    (few : (performIf granted r s).state.1.Indexed) :
    ∃ answer s' records, performIf granted r s = ⟨.ok answer, s', records⟩ ∧ Serving s' ∧
      Spare s' rest ∧ Swaps (contents s) (Exchange.gave ⟨r, .ok answer⟩)
        (Exchange.got ⟨r, .ok answer⟩) (contents s') := by
  cases serving with
  | arena active reached =>
    obtain ⟨answer, a', records, served, serving, swaps⟩ := serves_arena reached mine
    refine ⟨answer, _, records, ?_, serving, trivial, swaps⟩
    rw [performIf, Allocator.perform, Allocator.perform.onArena, served]
  | heap active past =>
    rw [contents_heap] at mine ⊢
    have after := past.step granted r
    obtain ⟨answer, h', records, served, swaps⟩ :=
      serves_heap granted past.sound mine few
    rw [served] at after
    refine ⟨answer, (.heap h', active), records, ?_, .heap active after, trivial, ?_⟩
    · rw [performIf, served]
    · rw [contents_heap]
      exact swaps
  | @faulty f issued released active past =>
    rw [contents_faulty] at mine ⊢
    obtain ⟨answer, f', active', records, served, moved, spare, swaps⟩ :=
      serves_faulty granted past.sound mine spare few
    have serving : Serving (.faulty f', active') := by
      rcases moved with same | ⟨granted, same⟩
      · exact .faulty active' (same ▸ past)
      · exact .faulty active' (same ▸ past.step granted r)
    refine ⟨answer, (.faulty f', active'), records, ?_, serving, spare, ?_⟩
    · rw [performIf, served]
    · rw [contents_faulty]
      exact swaps

end MemoryTrial.Plan
