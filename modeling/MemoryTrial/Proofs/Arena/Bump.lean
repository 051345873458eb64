import MemoryTrial.Proofs.Arena.Refusal

/-! Filling an arena.  As long as nothing is given back, an arena hands out its buffer from the start
on, block after block, like a counter of the bytes that are taken (`bump`).  The invariant is
`Packed`: what is free is one node, and it reaches from the counter to the end.  A request that it
does not serve changes nothing. -/

namespace MemoryTrial.Arena

variable {a start : Arena} {nodes : List Node} {node run : Node} {past : List (Nat × Option Ptr)}
  {len used n need : Nat}

/-- From `start` to an arena that was asked for memory only, and whose blocks were read and written:
the sizes that it was asked for, with its answers, the latest first. -/
inductive Filling (start : Arena) : Arena → List (Nat × Option Ptr) → Prop
  | refl : Filling start start []
  | grab {a : Arena} {past : List (Nat × Option Ptr)} {answer : Option Ptr} (n : Nat) :
    Filling start a past → (grab n a).value = .ok answer →
      Filling start (grab n a).state ((n, answer) :: past)
  | payload {a : Arena} {past : List (Nat × Option Ptr)} (p : Ptr) :
    Filling start a past → Filling start (payload p a).state past
  | edit {a : Arena} {past : List (Nat × Option Ptr)} (p : Ptr) (f : ByteArray → ByteArray) :
    Filling start a past → Filling start (editPayload p f a).state past

/-- The bytes of the blocks that were handed out: the block sizes of the requests that were served. -/
def usedBytes : List (Nat × Option Ptr) → Nat
  | [] => 0
  | (n, some _) :: past => usedBytes past + (blockSize n).getD 0
  | (_, none) :: past => usedBytes past

theorem address_pos (offset : Nat) : 0 < offset + headerSize := Nat.succ_pos _

/-- What a counter of the bytes taken answers to a request for `n` bytes, and where it is then. -/
def bump (len used n : Nat) : Option Ptr × Nat :=
  match (blockSize n).filter (used + · ≤ len) with
  | some need => (some ⟨used + headerSize, address_pos used⟩, used + need)
  | none => (none, used)

/-- The answers of the counter to one request after the other. -/
def bumpAll (len : Nat) : Nat → List Nat → List (Option Ptr)
  | _, [] => []
  | used, n :: ns => (bump len used n).1 :: bumpAll len (bump len used n).2 ns

/-- One request for memory after the other. -/
def grabAll : List Nat → Op Arena (List (Option Ptr))
  | [] => pure []
  | n :: ns => do
    let p ← grab n
    let ps ← grabAll ns
    return p :: ps

/-- How an arena of `len` bytes serves requests when the blocks that it handed out have `used`
bytes. -/
structure Bumps (len used : Nat) (a : Arena) : Prop where
  served_iff : ∀ n, (∃ p, (grab n a).value = .ok (some p)) ↔
    ∃ need, blockSize n = some need ∧ used + need ≤ len
  address : ∀ n p, (grab n a).value = .ok (some p) → p.addr = used + 8
  /-- A request that is not served has no influence on later ones. -/
  refused : ∀ n, (∀ p, (grab n a).value ≠ .ok (some p)) →
    (grab n a).value = .ok none ∧ (grab n a).state = a

/-- An arena of `len` bytes that only hands out blocks is a counter of the bytes that it handed
out. -/
structure FillsUp (len : Nat) (start : Arena) : Prop where
  bumps : ∀ a past, Filling start a past → Bumps len (usedBytes past) a
  runs : ∀ ns, (grabAll ns start).value = .ok (bumpAll len 0 ns)
  /-- Of requests for one size the first `len / need` are served. -/
  repeated : ∀ n need, blockSize n = some need → ∀ count,
    (grabAll (List.replicate count n) start).value = .ok ((List.range count).map fun i =>
      if i < len / need then some ⟨i * need + 8, Nat.succ_pos _⟩ else none)

/-- The blocks of an arena have `used` bytes, and what is free is one node from there to the end. -/
structure Packed (used : Nat) (a : Arena) (nodes : List Node) : Prop where
  sound : Sound a nodes
  used_eq : span (taken nodes) = used
  free : ∀ m ∈ nodes, m.allocated = false → m.offset = used ∧ m.stop = a.len

/-- The free node of a packed arena. -/
def remainder (used : Nat) (a : Arena) : Node := ⟨used, a.len - used, false⟩

/-! ### The counter -/

theorem bump_of_served (hneed : blockSize n = some need) (fits : used + need ≤ len) :
    bump len used n = (some ⟨used + headerSize, address_pos used⟩, used + need) := by
  rw [bump, hneed, Option.filter_some, if_pos (decide_eq_true fits)]

theorem bump_of_refused (short : ∀ need, blockSize n = some need → len < used + need) :
    bump len used n = (none, used) := by
  have none_fits : (blockSize n).filter (used + · ≤ len) = none := by
    rw [Option.filter_eq_none_iff]
    intro need hneed
    simpa using short need hneed
  rw [bump, none_fits]

theorem served_or_refused (len used n : Nat) :
    (∃ need, blockSize n = some need ∧ used + need ≤ len) ∨
      ∀ need, blockSize n = some need → len < used + need := by
  by_cases served : ∃ need, blockSize n = some need ∧ used + need ≤ len
  · exact .inl served
  · refine .inr fun need hneed => Nat.lt_of_not_le fun fits => served ⟨need, hneed, fits⟩

/-- Of requests for one size the counter serves as many as there are blocks of that size left. -/
theorem bumpAll_replicate (hneed : blockSize n = some need) (len used count : Nat) :
    bumpAll len used (List.replicate count n) = (List.range count).map fun i =>
      if i < (len - used) / need then some ⟨used + i * need + 8, Nat.succ_pos _⟩ else none := by
  have pos := blockSize_pos hneed
  induction count generalizing used with
  | zero => rfl
  | succ count ih =>
    rw [List.replicate_succ, bumpAll, List.range_succ_eq_map, List.map_cons, List.map_map]
    by_cases fits : used + need ≤ len
    · have quotient : (len - used) / need = (len - (used + need)) / need + 1 := by
        rw [Nat.div_eq_sub_div pos (by omega), Nat.sub_sub]
      rw [bump_of_served hneed fits, ih, quotient, if_pos (Nat.succ_pos _)]
      refine congrArg₂ List.cons ?_ (List.map_congr_left fun i _ => ?_)
      · rw [Option.some.injEq, Ptr.ext_iff]
        simp [headerSize]
      · simp only [Function.comp, Nat.succ_eq_add_one, Nat.add_lt_add_iff_right]
        refine if_congr Iff.rfl ?_ rfl
        rw [Option.some.injEq, Ptr.ext_iff]
        simp only [Nat.succ_mul]
        omega
    -- once a request is refused the quotient is zero, so all later ones are refused as well
    · have quotient : (len - used) / need = 0 := Nat.div_eq_of_lt (by omega)
      rw [bump_of_refused fun need' hneed' => by
        cases hneed.symm.trans hneed'
        omega]
      rw [ih, quotient]
      simp [Function.comp_def]

/-! ### Searches in a packed arena -/

theorem span_taken_le (nodes : List Node) : span (taken nodes) ≤ span nodes := by
  have := span_taken_add_free nodes
  omega

/-- A free node takes none of the bytes of the blocks. -/
theorem size_add_span_taken_le (mem : node ∈ nodes) (free : node.allocated = false) :
    node.size + span (taken nodes) ≤ span nodes := by
  obtain ⟨pre, post, rfl⟩ := List.append_of_mem mem
  have left := span_taken_le pre
  have right := span_taken_le post
  simp only [taken_append, taken_cons_of_free free, span_append, span_cons]
  omega

/-- Where the blocks have all the bytes, no node is free. -/
theorem allocated_of_span_taken (full : span (taken nodes) = span nodes) (mem : node ∈ nodes)
    (pos : 0 < node.size) : node.allocated = true := by
  cases allocated : node.allocated with
  | true => rfl
  | false =>
    have := size_add_span_taken_le mem allocated
    omega

/-- What is free of a carved node is the part behind the block. -/
theorem free_of_mem_carve (mem : run ∈ carve node need) (free : run.allocated = false) :
    need < node.size ∧ run = ⟨node.offset + need, node.size - need, false⟩ := by
  unfold carve at mem
  rcases List.mem_cons.mp mem with rfl | mem
  · cases free
  split at mem
  next short => exact ⟨short, List.mem_singleton.mp mem⟩
  next => cases mem

theorem fuse_of_fused (fused : Fused nodes) : fuse nodes = nodes := by
  induction nodes with
  | nil => rfl
  | cons node rest ih =>
    rw [fuse, List.foldr_cons, ← fuse, ih (fused.suffix (List.suffix_cons ..))]
    cases rest with
    | nil => rfl
    | cons next rest =>
      rcases (List.isChain_cons_cons.mp fused).1 with taken | taken
      · exact join_of_allocated taken _
      · simp [join, Node.isFree, taken]

theorem find?_of_unique {P : Node → Bool} (mem : node ∈ nodes) (will : P node = true)
    (only : ∀ m ∈ nodes, P m = true → m = node) : nodes.find? P = some node := by
  cases found : nodes.find? P with
  | none => exact absurd will (List.find?_eq_none.mp found node mem)
  | some m => rw [only m (List.mem_of_find?_eq_some found) (List.find?_some found)]

/-- Where only one node suffices, it is the first fit, wherever the search begins. -/
theorem firstFit_of_unique (fused : Fused nodes) (mem : node ∈ nodes) (fits : node.fits need = true)
    (only : ∀ m ∈ nodes, m.fits need = true → m = node) (cursor : Nat) :
    firstFit nodes cursor need = some node := by
  have suffix : nodes.dropWhile (fun node => decide (node.offset < cursor)) <:+ nodes :=
    List.dropWhile_suffix _
  rw [firstFit, fuse_of_fused fused, fuse_of_fused (fused.suffix suffix)]
  split
  next m found =>
    rw [only m (suffix.subset (List.mem_of_find?_eq_some found)) (by simpa using List.find?_some found)]
  next none =>
    have before : node.offset < cursor := by
      rw [← List.takeWhile_append_dropWhile (p := fun node => decide (node.offset < cursor))
        (l := nodes)] at mem
      rcases List.mem_append.mp mem with passed | ahead
      · simpa using List.mem_takeWhile_imp passed
      · exact absurd fits (List.find?_eq_none.mp none node ahead)
    refine find?_of_unique mem (by simp [fits, before]) fun m hm will => only m hm ?_
    exact (Bool.and_eq_true_iff.mp will).1

namespace Packed

theorem span_free (h : Packed used a nodes) : used + span (nodes.filter Node.isFree) = a.len := by
  have all := h.sound.tiles.span_eq
  have parts := span_taken_add_free nodes
  rw [h.used_eq] at parts
  omega

theorem eq_remainder (h : Packed used a nodes) (mem : node ∈ nodes) (free : node.allocated = false) :
    node = remainder used a := by
  obtain ⟨here, stop⟩ := h.free node mem free
  obtain ⟨offset, size, allocated⟩ := node
  simp only [Node.stop] at here stop free
  subst here free
  rw [remainder, ← stop, Nat.add_sub_cancel_left]

theorem remainder_mem (h : Packed used a nodes) (left : used < a.len) : remainder used a ∈ nodes := by
  have free := h.span_free
  cases hfree : nodes.filter Node.isFree with
  | nil =>
    rw [hfree, span_nil] at free
    omega
  | cons node others =>
    obtain ⟨mem, is_free⟩ := List.mem_filter.mp (hfree ▸ List.mem_cons_self)
    rw [← h.eq_remainder mem (by simpa using is_free)]
    exact mem

theorem fused (h : Packed used a nodes) : Fused nodes := by
  refine List.Pairwise.isChain ((List.pairwise_map.mp h.sound.tiles.pairwise_lt).imp_of_mem ?_)
  intro node next mem mem' before
  by_contra both
  simp only [not_or, Bool.not_eq_true] at both
  rw [h.eq_remainder mem both.1, h.eq_remainder mem' both.2] at before
  exact Nat.lt_irrefl _ before

theorem fits_iff (h : Packed used a nodes) (pos : 0 < need) (mem : node ∈ nodes) :
    node.fits need = true ↔ node = remainder used a ∧ used + need ≤ a.len := by
  rw [Node.fits_iff]
  constructor
  · rintro ⟨free, enough⟩
    have same := h.eq_remainder mem free
    rw [same] at enough
    simp only [remainder] at enough
    exact ⟨same, by omega⟩
  · rintro ⟨rfl, enough⟩
    exact ⟨rfl, by simp only [remainder]; omega⟩

/-- A request that the rest has room for is served at its start. -/
theorem grab_served (h : Packed used a nodes) (hneed : blockSize n = some need)
    (fits : used + need ≤ a.len) :
    (grab n a).value = .ok (some ⟨used + headerSize, address_pos used⟩) ∧
      (grab n a).state.len = a.len ∧ ∃ nodes', Packed (used + need) (grab n a).state nodes' := by
  obtain ⟨h16, hmod, -⟩ := blockSize_bounds hneed
  have mem := h.remainder_mem (by omega)
  have fit := firstFit_of_unique h.fused mem ((h.fits_iff (by omega) mem).mpr ⟨rfl, fits⟩)
    (fun m hm will => ((h.fits_iff (by omega) hm).mp will).1) a.cursor
  have placed := grab_placed h.sound hneed fit
  obtain ⟨before, after, hnodes, still⟩ := placed.nodes
  have len := placed.keeps.len
  have sound : Sound (grab n a).state (before ++ (carve (remainder used a) need ++ after)) :=
    ⟨placed.keeps.live.trans h.sound.live,
      ⟨⟨used, need, true⟩, by simp [carve, remainder], placed.cursor.symm⟩, hnodes⟩
  have blocks : span (taken before) + span (taken after) = used := by
    rw [← span_append, still, h.used_eq]
  refine ⟨placed.value, len, _, sound, ?_, ?_⟩
  · simp only [taken_append, taken_carve, span_append, span_cons, span_nil, remainder]
    omega
  -- all that was free was carved, so what is beside it is taken
  · have total := sound.tiles.span_eq
    have whole := (h.sound.tiles.bounds mem).2.2.2.1
    have carved := (tiles_carve (by omega) hmod whole (by simp only [remainder]; omega)).span_eq
    simp only [span_append, Node.stop, remainder, len] at total carved
    have full : span (taken (before ++ after)) = span (before ++ after) := by
      simp only [taken_append, span_append]
      omega
    intro m hm free
    have pos : 0 < m.size := Nat.lt_of_lt_of_le (by decide) (sound.tiles.bounds hm).2.2.1
    have inside : m ∈ carve (remainder used a) need := by
      by_contra outside
      have beside : m ∈ before ++ after := by
        simpa only [List.mem_append, outside, false_or] using hm
      cases free.symm.trans (allocated_of_span_taken full beside pos)
    obtain ⟨short, rfl⟩ := free_of_mem_carve inside free
    simp only [remainder] at short
    exact ⟨rfl, by simp only [Node.stop, remainder, len]; omega⟩

theorem grab_refused (h : Packed used a nodes)
    (short : ∀ need, blockSize n = some need → a.len < used + need) :
    (grab n a).value = .ok none ∧ (grab n a).state = a := by
  refine grab_of_fused h.sound h.fused fun need hneed m mem => ?_
  rw [← Bool.not_eq_true, h.fits_iff (blockSize_pos hneed) mem]
  exact fun fits => Nat.not_le.mpr (short need hneed) fits.2

/-- A packed arena answers as the counter does, and is packed up to where the counter is then. -/
theorem grab_bump (h : Packed used a nodes) (n : Nat) :
    (grab n a).value = .ok (bump a.len used n).1 ∧ (grab n a).state.len = a.len ∧
      ∃ nodes', Packed (bump a.len used n).2 (grab n a).state nodes' := by
  rcases served_or_refused a.len used n with ⟨need, hneed, fits⟩ | short
  · rw [bump_of_served hneed fits]
    exact h.grab_served hneed fits
  · obtain ⟨value, state⟩ := h.grab_refused short
    rw [bump_of_refused short, state]
    exact ⟨value, rfl, nodes, h⟩

theorem grabAll_bump (h : Packed used a nodes) (ns : List Nat) :
    (grabAll ns a).value = .ok (bumpAll a.len used ns) := by
  induction ns generalizing used a nodes with
  | nil => rfl
  | cons n ns ih =>
    obtain ⟨value, len, nodes', packed⟩ := h.grab_bump n
    have rest := ih packed
    rw [len] at rest
    rw [grabAll, Op.bind_of_ok (show grab n a = ⟨.ok _, _, _⟩ from by rw [← value]),
      Op.bind_of_ok (show grabAll ns (grab n a).state = ⟨.ok _, _, _⟩ from by rw [← rest])]
    rfl

theorem bumps (h : Packed used a nodes) : Bumps a.len used a where
  served_iff n := by
    rw [(h.grab_bump n).1]
    rcases served_or_refused a.len used n with ⟨need, hneed, fits⟩ | short
    · rw [bump_of_served hneed fits]
      exact iff_of_true ⟨_, rfl⟩ ⟨need, hneed, fits⟩
    · rw [bump_of_refused short]
      constructor
      · rintro ⟨p, served⟩
        cases served
      · rintro ⟨need, hneed, fits⟩
        exact absurd fits (Nat.not_le.mpr (short need hneed))
  address n p served := by
    rw [(h.grab_bump n).1] at served
    rcases served_or_refused a.len used n with ⟨need, hneed, fits⟩ | short
    · rw [bump_of_served hneed fits] at served
      cases served
      rfl
    · rw [bump_of_refused short] at served
      cases served
  refused n unserved := by
    rcases served_or_refused a.len used n with ⟨need, hneed, fits⟩ | short
    · exact absurd (h.grab_served hneed fits).1 (unserved _)
    · exact h.grab_refused short

theorem payload (h : Packed used a nodes) (p : Ptr) : (payload p a).state = a := by
  cases named : a.takenNode p .useAfterRelease with
  | error panic => exact congrArg Result.state (perform_of_misuse h.sound (.payload p) rfl named)
  | ok node => exact congrArg Result.state (payload_eq h.sound named)

theorem edit (h : Packed used a nodes) (p : Ptr) (f : ByteArray → ByteArray) :
    (editPayload p f a).state.len = a.len ∧ Packed used (editPayload p f a).state nodes := by
  cases named : a.takenNode p .useAfterRelease with
  | error panic =>
    have same : (editPayload p f a).state = a :=
      congrArg Result.state (perform_of_misuse h.sound (.edit p f) rfl named)
    rw [same]
    exact ⟨rfl, h⟩
  | ok node =>
    obtain ⟨mem, allocated, -⟩ := takenNode_spec h.sound named
    have perm := List.perm_cons_erase (mem_taken.mpr ⟨mem, allocated⟩)
    obtain ⟨-, sound, trades, -⟩ := editPayload_trades h.sound named perm f
    have len := trades.keeps.len
    exact ⟨len, sound, h.used_eq, by rw [len]; exact h.free⟩

end Packed

/-! ### Histories -/

/-- A history that gives nothing back keeps an arena packed. -/
theorem Filling.packed (h : Filling start a past) (fresh : ∃ nodes, Packed 0 start nodes) :
    a.len = start.len ∧ ∃ nodes, Packed (usedBytes past) a nodes := by
  induction h with
  | refl => exact ⟨rfl, fresh⟩
  | @grab a past answer n _ value ih =>
    obtain ⟨len, nodes, packed⟩ := ih
    obtain ⟨bumped, len', nodes', packed'⟩ := packed.grab_bump n
    cases value.symm.trans bumped
    refine ⟨len'.trans len, nodes', ?_⟩
    rcases served_or_refused a.len (usedBytes past) n with ⟨need, hneed, fits⟩ | short
    · rw [bump_of_served hneed fits] at packed' ⊢
      rwa [usedBytes, hneed]
    · rw [bump_of_refused short] at packed' ⊢
      exact packed'
  | payload p _ ih =>
    obtain ⟨len, nodes, packed⟩ := ih
    rw [packed.payload p]
    exact ⟨len, nodes, packed⟩
  | edit p f _ ih =>
    obtain ⟨len, nodes, packed⟩ := ih
    obtain ⟨len', packed'⟩ := packed.edit p f
    exact ⟨len'.trans len, nodes, packed'⟩

theorem ofBuffer_packed {buffer : Buffer} {poison : Bool} {records : List Record}
    (built : (ofBuffer buffer poison : Op Unit _) () = ⟨.ok (.ok a), (), records⟩) :
    Packed 0 a [⟨0, a.len, false⟩] := by
  refine ⟨ofBuffer_sound built, rfl, fun m mem _ => ?_⟩
  rw [List.mem_singleton.mp mem]
  exact ⟨rfl, Nat.zero_add _⟩

/-- Over every buffer of a size that an arena can have there is an arena, and it fills up. -/
theorem ofBuffer_fillsUp (buffer : Buffer) (poison : Bool)
    (valid : validateCapacity buffer.len = .ok ()) :
    ∃ a records, (ofBuffer buffer poison : Op Unit _) () = ⟨.ok (.ok a), (), records⟩ ∧
      FillsUp buffer.len a := by
  have built : ∃ a records, (ofBuffer buffer poison : Op Unit _) () = ⟨.ok (.ok a), (), records⟩ := by
    rw [ofBuffer, valid]
    exact ⟨_, _, rfl⟩
  obtain ⟨a, records, built⟩ := built
  have fresh := ofBuffer_packed built
  have len := (ofBuffer_len built).1
  refine ⟨a, records, built, ⟨fun a' past filling => ?_, fun ns => ?_, fun n need hneed count => ?_⟩⟩
  · obtain ⟨len', nodes, packed⟩ := filling.packed ⟨_, fresh⟩
    have := packed.bumps
    rwa [len', len] at this
  · rw [← len]
    exact fresh.grabAll_bump ns
  · rw [fresh.grabAll_bump, len, bumpAll_replicate hneed]
    simp only [Nat.sub_zero, Nat.zero_add]

theorem smallArena_fillsUp :
    ∃ buffer : Buffer, validateCapacity buffer.len = .ok () ∧
      (ofBuffer buffer false : Op Unit _) () = ⟨.ok (.ok smallArena), (), [.arenaCreated 64]⟩ ∧
      FillsUp buffer.len smallArena ∧
      Filling smallArena (grab 100 (grab 20 smallArena).state).state
        [(100, none), (20, some ⟨8, Nat.succ_pos _⟩)] ∧
      Bumps buffer.len 32 (grab 100 (grab 20 smallArena).state).state := by
  have valid : validateCapacity
      (Buffer.len ⟨Bytes.replicate 64 0, by simp, by simp [memoryLimit]⟩) = .ok () := by decide
  have built : (ofBuffer ⟨Bytes.replicate 64 0, by simp, by simp [memoryLimit]⟩ false : Op Unit _) ()
      = ⟨.ok (.ok smallArena), (), [.arenaCreated 64]⟩ := rfl
  obtain ⟨a, records, built', fills⟩ := ofBuffer_fillsUp _ false valid
  cases built'.symm.trans built
  have served : (grab 20 smallArena).value = .ok (some ⟨8, Nat.succ_pos _⟩) := by decide +kernel
  have refused : (grab 100 (grab 20 smallArena).state).value = .ok none := by decide +kernel
  have filling := Filling.grab 100 (.grab 20 .refl served) refused
  exact ⟨_, valid, built, fills, filling, fills.bumps _ _ filling⟩

end MemoryTrial.Arena
