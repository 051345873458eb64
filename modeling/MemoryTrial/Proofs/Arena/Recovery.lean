import MemoryTrial.Proofs.Arena.FirstFit

/-! Recovery of released space.  A release merges nothing and a search does so only where it comes by,
but no byte is lost: once all blocks in a range are free, in whatever order they were released, the
range lies in one free run (`exists_freeRun`), and a request that fits the range is served
(`Reachable.release_recovers`). -/

namespace MemoryTrial.Arena

variable {a : Arena} {held : List Lease} {nodes : List Node} {node : Node} {p : Ptr} {ps : List Ptr}
  {start stop n need : Nat}

/-- A node after the blocks at `ps` were released. -/
def Node.without (ps : List Ptr) (node : Node) : Node :=
  { node with allocated := node.allocated && ps.all fun p => p.addr != node.address }

/-- A place where a node begins, or the end of the buffer. -/
def Boundary (nodes : List Node) (len place : Nat) : Prop :=
  place = len ∨ ∃ node ∈ nodes, node.offset = place

/-- The leases of the blocks whose nodes begin in a range of the buffer. -/
def leasesIn (held : List Lease) (start stop : Nat) : List Lease :=
  held.filter fun lease =>
    start + headerSize ≤ lease.ptr.addr ∧ lease.ptr.addr < stop + headerSize

/-- The blocks of a range were released, and a request that fits the range is served. -/
structure Recovered (ps : List Ptr) (start stop : Nat) (a : Arena) (r : Result Arena Unit) : Prop where
  released : r.value = .ok ()
  served : ∀ n need, blockSize n = some need → need ≤ stop - start →
    ∃ q, (grab n r.state).value = .ok (some q)
  /-- When the range begins with a block that was released, the request is served there or before. -/
  placed : (∃ p ∈ ps, p.addr = start + headerSize) → ∀ n need q, blockSize n = some need →
    need ≤ stop - start → (grab n r.state).value = .ok (some q) →
      q.addr ≤ start + headerSize ∧ (start ≤ a.cursor → q.addr = start + headerSize)

/-- The releases of an arena in order recover what they release. -/
structure Recovers (held : List Lease) (nodes : List Node) (a : Arena) : Prop where
  range : ∀ start stop, Boundary nodes a.len start → Boundary nodes a.len stop →
    ∀ ps : List Ptr, ps.Perm ((leasesIn held start stop).map Lease.ptr) →
      Recovered ps start stop a ((forM ps release : Op Arena Unit) a)
  whole : ∀ ps : List Ptr, ps.Perm (held.map Lease.ptr) →
    ((forM ps release : Op Arena Unit) a).value = .ok () ∧
      (grab (a.len - headerSize) ((forM ps release : Op Arena Unit) a).state).value =
        .ok (some ⟨8, Nat.succ_pos _⟩)

/-- What releases leave: the blocks are free, and the cursor is at the first of them unless it was
before it. -/
structure Released (ps : List Ptr) (nodes : List Node) (a : Arena) (r : Result Arena Unit) : Prop where
  value : r.value = .ok ()
  sound : Sound r.state (nodes.map (Node.without ps))
  len : r.state.len = a.len
  cursor_le : r.state.cursor ≤ a.cursor ∧ ∀ p ∈ ps, r.state.cursor + headerSize ≤ p.addr
  cursor_mem : r.state.cursor = a.cursor ∨ ∃ p ∈ ps, r.state.cursor + headerSize = p.addr

theorem without_of_ne (ne : node.address ≠ p.addr) : node.without [p] = node := by
  have : (p.addr != node.address) = true := by simpa using ne.symm
  simp [Node.without, this]

theorem without_of_eq (here : node.address = p.addr) :
    node.without [p] = { node with allocated := false } := by
  simp [Node.without, here]

theorem map_without_nil (nodes : List Node) : nodes.map (Node.without []) = nodes := by
  have : Node.without [] = id := by
    funext node
    simp [Node.without]
  rw [this, List.map_id]

theorem map_without_cons (p : Ptr) (ps : List Ptr) (nodes : List Node) :
    nodes.map (Node.without (p :: ps)) = (nodes.map (Node.without [p])).map (Node.without ps) := by
  rw [List.map_map]
  refine List.map_congr_left fun node _ => ?_
  simp [Node.without, Node.address, Bool.and_assoc]

theorem map_without_of_ne (others : ∀ m ∈ nodes, m.address ≠ p.addr) :
    nodes.map (Node.without [p]) = nodes := by
  rw [List.map_congr_left fun m mem => without_of_ne (others m mem)]
  exact List.map_id' nodes

theorem sound_freeNode (sound : Sound a nodes) (mem : node ∈ nodes)
    (allocated : node.allocated = true) (here : node.address = p.addr) :
    Sound (a.freeNode node) (nodes.map (Node.without [p])) := by
  have perm := List.perm_cons_erase (mem_taken.mpr ⟨mem, allocated⟩)
  obtain ⟨nodes', sound', -⟩ := (freeNode_trades sound mem allocated perm).after
  have h8 := (sound.tiles.bounds mem).2.2.1
  obtain ⟨pre, post, rfl, left, right⟩ := sound.around mem
  have before : pre.map (Node.without [p]) = pre := map_without_of_ne fun m hm => by
    have := left.bounds hm
    simp only [Node.address, Node.stop] at *
    omega
  have behind : post.map (Node.without [p]) = post := map_without_of_ne fun m hm => by
    have := right.bounds hm
    simp only [Node.address, Node.stop] at *
    omega
  rw [List.map_append, List.map_cons, without_of_eq here, before, behind]
  have walk := sound'.nodes.symm.trans (nodes_freeNode sound.nodes)
  exact Except.ok.inj walk ▸ sound'

/-- One release, and then the others. -/
theorem Released.cons {r : Result Arena Unit} (here : node.address = p.addr)
    (rest : Released ps (nodes.map (Node.without [p])) (a.freeNode node) r) (records : List Record) :
    Released (p :: ps) nodes a (.after records r) := by
  obtain ⟨value, sound, len, ⟨before, least⟩, member⟩ := rest
  rw [cursor_freeNode] at before member
  rw [← map_without_cons] at sound
  simp only [Node.address] at here
  refine ⟨value, sound, len.trans (len_freeNode ..),
    ⟨Nat.le_trans before (Nat.min_le_right ..), fun q hq => ?_⟩, ?_⟩
  · rcases List.mem_cons.mp hq with rfl | hq
    · exact here ▸ Nat.add_le_add_right (Nat.le_trans before (Nat.min_le_left ..)) _
    · exact least q hq
  · rcases member with same | ⟨q, hq, there⟩
    · rcases Nat.le_total node.offset a.cursor with first | first
      · rw [Nat.min_eq_left first] at same
        exact .inr ⟨p, List.mem_cons_self, same ▸ here⟩
      · rw [Nat.min_eq_right first] at same
        exact .inl same
    · exact .inr ⟨q, List.mem_cons_of_mem _ hq, there⟩

/-- Releases of blocks that are handed out succeed, in whatever order they are made. -/
theorem released_of_named (sound : Sound a nodes) (distinct : ps.Nodup)
    (named : ∀ p ∈ ps, ∃ node ∈ nodes, node.allocated = true ∧ node.address = p.addr) :
    Released ps nodes a ((forM ps release : Op Arena Unit) a) := by
  induction ps generalizing a nodes with
  | nil =>
    have sound' : Sound a (nodes.map (Node.without [])) := by rwa [map_without_nil]
    exact ⟨rfl, sound', rfl, ⟨Nat.le_refl _, nofun⟩, .inl rfl⟩
  | cons p ps ih =>
    obtain ⟨node, mem, allocated, here⟩ := named p List.mem_cons_self
    obtain ⟨fresh, distinct⟩ := List.nodup_cons.mp distinct
    have found : a.takenNode p .doubleRelease = .ok node :=
      (takenNode_eq_ok_iff sound.nodes).mpr ⟨mem, allocated, here⟩
    rw [List.forM_cons, Op.bind_of_ok (release_eq sound found)]
    refine Released.cons here (ih (sound_freeNode sound mem allocated here) distinct ?_) _
    intro q hq
    obtain ⟨other, hother, taken, there⟩ := named q (List.mem_cons_of_mem _ hq)
    have ne : other.address ≠ p.addr := by
      intro same
      exact fresh ((Ptr.ext (same.symm.trans there) : p = q) ▸ hq)
    have kept := without_of_ne ne
    exact ⟨_, List.mem_map_of_mem hother, by rw [kept, taken], by rw [kept, there]⟩

/-- A stretch in which no node is handed out lies in one free run. -/
theorem exists_freeRun {lo len : Nat} (tiles : Tiles lo nodes len)
    (begins : ∃ node ∈ nodes, node.offset = start) (order : start < stop) (inside : stop ≤ len)
    (free : ∀ m ∈ nodes, start ≤ m.offset → m.offset < stop → m.allocated = false) :
    ∃ first last, FreeRun nodes first last ∧ first ≤ start ∧ stop ≤ last := by
  induction nodes using runs_induction generalizing lo with
  | nil =>
    obtain ⟨node, mem, -⟩ := begins
    cases mem
  | taken node rest taken ih =>
    obtain ⟨-, -, -, right⟩ := tiles
    have later : ∃ m ∈ rest, m.offset = start := by
      obtain ⟨m, mem, rfl⟩ := begins
      rcases List.mem_cons.mp mem with rfl | mem
      · have := free m mem (Nat.le_refl _) order
        rw [taken] at this
        cases this
      · exact ⟨m, mem, rfl⟩
    obtain ⟨first, last, run, lower, upper⟩ :=
      ih right later fun m mem => free m (List.mem_cons_of_mem _ mem)
    exact ⟨first, last, (freeRun_cons_of_allocated taken).mpr run, lower, upper⟩
  | free node run rest hfree all after ih =>
    have alone : ∀ m ∈ node :: run, m.allocated = false := List.forall_mem_cons.mpr ⟨hfree, all⟩
    rw [← List.cons_append] at tiles begins free
    obtain ⟨left, right⟩ := Tiles.append_iff_span.mp tiles
    have here : node.offset = lo := left.1
    by_cases within : start < lo + span (node :: run)
    · refine ⟨node.offset, node.offset + span (node :: run),
        (freeRun_cons_of_free alone after).mpr (.inl ⟨rfl, rfl⟩), ?_, ?_⟩
      · obtain ⟨m, mem, rfl⟩ := begins
        exact here ▸ (tiles.bounds mem).1
      -- the node behind the run is handed out, so the stretch ends before it
      · cases rest with
        | nil =>
          have at_end : lo + span (node :: run) = len := right
          omega
        | cons m rest =>
          have there : m.offset = lo + span (node :: run) := right.1
          by_contra beyond
          have := free m (by simp) (by omega) (by omega)
          rw [after m rfl] at this
          cases this
    · have later : ∃ m ∈ rest, m.offset = start := by
        obtain ⟨m, mem, rfl⟩ := begins
        rcases List.mem_append.mp mem with mem | mem
        · have := left.bounds mem
          simp only [Node.stop] at this
          omega
        · exact ⟨m, mem, rfl⟩
      obtain ⟨first, last, found, lower, upper⟩ :=
        ih right later fun m mem => free m (List.mem_append_right _ mem)
      exact ⟨first, last, (freeRun_cons_of_free alone after).mpr (.inr found), lower, upper⟩

/-- A request that fits a free run is served, at the circular first fit. -/
theorem Sound.grab_served {first last : Nat} (sound : Sound a nodes) (run : FreeRun nodes first last)
    (hneed : blockSize n = some need) (room : need ≤ last - first) :
    ∃ offset, CircularFit nodes a.cursor need offset ∧ offset + need ≤ a.len ∧
      (grab n a).value = .ok (some ⟨offset + headerSize, Nat.succ_pos _⟩) := by
  have pos := (blockSize_bounds hneed).1
  cases fit : firstFit nodes a.cursor need with
  | none =>
    have := (sound.firstFit_eq_none_iff (by omega)).mp fit _ _ run
    omega
  | some found =>
    obtain ⟨fits, inside⟩ := firstFit_eq_some sound.tiles fit
    have enough := (Node.fits_iff.mp fits).2
    simp only [Node.stop] at inside
    exact ⟨found.offset, sound.circularFit fit, by omega, (grab_placed sound hneed fit).value⟩

/-- A free run that reaches far enough beyond the cursor bounds the first fit. -/
theorem CircularFit.bounds {first last cursor offset : Nat} (fit : CircularFit nodes cursor need offset)
    (run : FreeRun nodes first last) (lower : first ≤ start) (before : cursor ≤ start) (pos : 0 < need)
    (room : start + need ≤ last) : cursor ≤ offset ∧ offset ≤ start := by
  have candidate : max first cursor ∈ ahead nodes cursor need :=
    ⟨first, last, run, by omega, rfl, by omega⟩
  rcases fit with ⟨⟨_, _, -, -, rfl, -⟩, least⟩ | ⟨none, -⟩
  · have := least candidate
    omega
  · rw [none] at candidate
    cases candidate

theorem mem_leasesIn {lease : Lease} : lease ∈ leasesIn held start stop ↔
    lease ∈ held ∧ start + headerSize ≤ lease.ptr.addr ∧ lease.ptr.addr < stop + headerSize := by
  rw [leasesIn, List.mem_filter, decide_eq_true_eq]

namespace Accounts

variable (h : Accounts a held nodes)
include h

/-- Some of the blocks that are held can be released in any order. -/
theorem released {part : List Lease} (sub : part.Sublist held)
    (order : ps.Perm (part.map Lease.ptr)) :
    Released ps nodes a ((forM ps release : Op Arena Unit) a) := by
  refine released_of_named h.sound (order.nodup_iff.mpr (h.nodup.sublist (sub.map _))) fun p hp => ?_
  obtain ⟨lease, mem, rfl⟩ := List.mem_map.mp (order.mem_iff.mp hp)
  obtain ⟨node, hnode, allocated, here, -⟩ := h.exists_node (sub.subset mem)
  exact ⟨node, hnode, allocated, here⟩

/-- After the blocks in a range were released the range lies in one free run. -/
theorem run_released {r : Result Arena Unit} (released : Released ps nodes a r)
    (begins : Boundary nodes a.len start) (order : start < stop) (inside : stop ≤ a.len)
    (all : ∀ lease ∈ leasesIn held start stop, lease.ptr ∈ ps) :
    ∃ first last, FreeRun (nodes.map (Node.without ps)) first last ∧ first ≤ start ∧ stop ≤ last := by
  have tiles := released.sound.tiles
  rw [released.len] at tiles
  refine exists_freeRun tiles ?_ order inside fun m mem lower upper => ?_
  · rcases begins with at_end | ⟨node, mem, rfl⟩
    · omega
    · exact ⟨node.without ps, List.mem_map_of_mem mem, rfl⟩
  · obtain ⟨node, hnode, rfl⟩ := List.mem_map.mp mem
    cases allocated : node.allocated with
    | false => simp [Node.without, allocated]
    | true =>
      obtain ⟨lease, hlease, here, -⟩ := h.exists_lease hnode allocated
      have gone := all lease (mem_leasesIn.mpr ⟨hlease, by
        simp only [Node.without, Node.address, headerSize] at lower upper here ⊢
        omega⟩)
      have named : (ps.all fun p => p.addr != node.address) = false :=
        List.all_eq_false.mpr ⟨lease.ptr, gone, by simp [here]⟩
      simp [Node.without, named]

theorem recovered (begins : Boundary nodes a.len start) (ends : Boundary nodes a.len stop)
    (order : ps.Perm ((leasesIn held start stop).map Lease.ptr)) :
    Recovered ps start stop a ((forM ps release : Op Arena Unit) a) := by
  have released := h.released List.filter_sublist order
  obtain ⟨r, hr⟩ : ∃ r, r = (forM ps release : Op Arena Unit) a := ⟨_, rfl⟩
  rw [← hr] at released ⊢
  have inside : stop ≤ a.len := by
    rcases ends with rfl | ⟨node, mem, rfl⟩
    · exact Nat.le_refl _
    · exact (h.sound.tiles.bounds mem).2.2.2.2.trans' (Nat.le_add_right ..)
  have spans {n need : Nat} (hneed : blockSize n = some need) (room : need ≤ stop - start) :
      ∃ first last, FreeRun (nodes.map (Node.without ps)) first last ∧ first ≤ start ∧
        stop ≤ last ∧ need ≤ last - first := by
    have pos := (blockSize_bounds hneed).1
    obtain ⟨first, last, run, lower, upper⟩ :=
      h.run_released released begins (by omega) inside fun lease mem =>
        order.mem_iff.mpr (List.mem_map_of_mem mem)
    exact ⟨first, last, run, lower, upper, by omega⟩
  refine ⟨released.value, fun n need hneed room => ?_, fun ⟨p, hp, here⟩ n need q hneed room served => ?_⟩
  · obtain ⟨first, last, run, -, -, fits⟩ := spans hneed room
    obtain ⟨offset, -, -, value⟩ := released.sound.grab_served run hneed fits
    exact ⟨_, value⟩
  · obtain ⟨first, last, run, lower, upper, fits⟩ := spans hneed room
    obtain ⟨offset, fit, -, value⟩ := released.sound.grab_served run hneed fits
    cases served.symm.trans value
    have pos := (blockSize_bounds hneed).1
    have low := released.cursor_le.2 p hp
    have bounds := fit.bounds run lower (show r.state.cursor ≤ start by omega) (by omega) (by omega)
    refine ⟨Nat.add_le_add_right bounds.2 _, fun before => ?_⟩
    -- all blocks that were released are at `start` or behind it, so the cursor is there
    have there : start ≤ r.state.cursor := by
      rcases released.cursor_mem with same | ⟨p', hp', here'⟩
      · omega
      · obtain ⟨lease, mem, rfl⟩ := List.mem_map.mp (order.mem_iff.mp hp')
        have := (mem_leasesIn.mp mem).2.1
        omega
    rw [Nat.le_antisymm bounds.2 (Nat.le_trans there bounds.1)]

/-- Once all blocks were released, all of the buffer can be handed out at once. -/
theorem recovered_whole (room : minBlock ≤ a.len) (order : ps.Perm (held.map Lease.ptr)) :
    ((forM ps release : Op Arena Unit) a).value = .ok () ∧
      (grab (a.len - headerSize) ((forM ps release : Op Arena Unit) a).state).value =
        .ok (some ⟨8, Nat.succ_pos _⟩) := by
  have released := h.released (List.Sublist.refl held) order
  obtain ⟨r, hr⟩ : ∃ r, r = (forM ps release : Op Arena Unit) a := ⟨_, rfl⟩
  rw [← hr] at released ⊢
  refine ⟨released.value, ?_⟩
  simp only [minBlock] at room
  obtain ⟨first, last, run, lower, upper⟩ :=
    h.run_released released h.sound.tiles.boundary (by omega) (Nat.le_refl _) fun lease mem =>
      order.mem_iff.mpr (List.mem_map_of_mem (mem_leasesIn.mp mem).1)
  have bounded := a.buffer.bounded
  obtain ⟨need, hneed, fits⟩ := exists_blockSize_le (n := a.len - headerSize) room
    a.buffer.aligned (by simp only [headerSize]; omega) (by
      simp only [len_eq, Buffer.len, wordLimit, memoryLimit] at *
      omega)
  obtain ⟨offset, -, inside, value⟩ := released.sound.grab_served run hneed (by omega)
  have whole := (blockSize_bounds hneed).2.2
  simp only [headerSize] at whole
  obtain rfl : offset = 0 := by
    rw [released.len] at inside
    omega
  exact value

end Accounts

/-- Whatever the history, no byte is lost: what is released can be handed out again, as far as the
free space reaches. -/
theorem Reachable.release_recovers (h : Reachable a held) :
    ∃ nodes, a.nodes = .ok nodes ∧ Recovers held nodes a := by
  obtain ⟨nodes, accounts⟩ := h.accounts
  exact ⟨nodes, accounts.sound.nodes, fun _ _ begins ends _ order => accounts.recovered begins ends order,
    fun _ order => accounts.recovered_whole h.minBlock_le_len order⟩

theorem variedArena_recovers :
    ∃ nodes, variedArena.nodes = .ok nodes ∧ Recovers variedLeases nodes variedArena :=
  variedArena_reachable.release_recovers

end MemoryTrial.Arena
