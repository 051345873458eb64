import MemoryTrial.Proofs.Arena.History

/-! Memory safety of arenas.  After any history the nodes of an arena account for its buffer and for
the leases of its clients (`Reachable.in_order`), no request of one client changes a byte of
another's block (`Reachable.blocks_isolated`), and each block has the least size that holds what was
asked for (`blockSize_rounds`). -/

namespace MemoryTrial.Arena

variable {a : Arena} {held : List Lease} {nodes : List Node} {node : Node} {lease : Lease} {p : Ptr}

theorem foldl_add (nodes : List Node) (s : Stats) :
    nodes.foldl Stats.add s =
      ⟨s.allocatedNodes + (taken nodes).length, s.allocatedBytes + span (taken nodes),
        s.freeNodes + (nodes.filter Node.isFree).length,
        s.freeBytes + span (nodes.filter Node.isFree)⟩ := by
  induction nodes generalizing s with
  | nil => rfl
  | cons node rest ih =>
    rw [List.foldl_cons, ih]
    cases h : node.allocated <;> simp [Stats.add, taken, Node.isFree, h] <;> omega

theorem span_taken_add_free (nodes : List Node) :
    span (taken nodes) + span (nodes.filter Node.isFree) = span nodes := by
  induction nodes with
  | nil => rfl
  | cons node rest ih =>
    cases h : node.allocated <;> simp [taken, Node.isFree, h] at ih ⊢ <;> omega

/-- The bytes of the blocks that leases are for, headers included. -/
def Lease.total : List Lease → Nat
  | [] => 0
  | lease :: rest => (blockSize lease.bytes).getD 0 + total rest

/-- The bytes that some entries speak of. -/
def entryTotal : List (Nat × Option Nat) → Nat
  | [] => 0
  | entry :: rest => entry.2.getD 0 + entryTotal rest

theorem entryTotal_perm {xs ys : List (Nat × Option Nat)} (h : xs.Perm ys) :
    entryTotal xs = entryTotal ys := by
  induction h with
  | nil => rfl
  | cons entry _ ih => exact congrArg (entry.2.getD 0 + ·) ih
  | swap first second rest =>
    simp only [entryTotal]
    omega
  | trans _ _ ih ih' => exact ih.trans ih'

theorem entryTotal_nodes (nodes : List Node) : entryTotal (nodes.map nodeEntry) = span nodes := by
  induction nodes with
  | nil => rfl
  | cons node rest ih => simp [entryTotal, nodeEntry, ih]

theorem entryTotal_leases (held : List Lease) :
    entryTotal (held.map Lease.entry) = Lease.total held := by
  induction held with
  | nil => rfl
  | cons lease rest ih => simp [entryTotal, Lease.entry, Lease.total, ih]

/-- What is in order after any history of an arena whose clients hold the leases `held`. -/
structure InOrder (a : Arena) (held : List Lease) (nodes : List Node) : Prop where
  /-- The headers, read one after the other from the start of the buffer. -/
  walk : a.nodes = .ok nodes
  tiles : Tiles 0 nodes a.len
  sizes : span nodes = a.len
  cursor : ∃ node ∈ nodes, node.offset = a.cursor
  /-- No two leases are for the same block. -/
  distinct : (held.map Lease.ptr).Nodup
  /-- A lease is for a node of exactly the size of the block that was last asked for. -/
  leased : ∀ lease ∈ held, ∃ node ∈ nodes, node.allocated = true ∧
    node.address = lease.ptr.addr ∧ blockSize lease.bytes = some node.size
  /-- A node that is handed out has a lease. -/
  accounted : ∀ node ∈ nodes, node.allocated = true → ∃ lease ∈ held, lease.ptr.addr = node.address
  check : a.check = .ok (.ok ())
  /-- A payload has room for what was last asked for. -/
  room : ∀ lease ∈ held, ∃ bytes, (payload lease.ptr a).value = .ok bytes ∧ lease.bytes ≤ bytes.size
  stats : ∃ s, a.stats = .ok s ∧ s.allocatedNodes = held.length ∧
    s.allocatedBytes = Lease.total held ∧ s.allocatedBytes + s.freeBytes = a.len

namespace Accounts

theorem inOrder (h : Accounts a held nodes) : InOrder a held nodes where
  walk := h.sound.nodes
  tiles := h.sound.tiles
  sizes := by simpa using h.sound.tiles.span_eq
  cursor := h.sound.cursor
  distinct := h.nodup
  leased lease mem := h.exists_node mem
  accounted node mem allocated := by
    obtain ⟨lease, hlease, here, -⟩ := h.exists_lease mem allocated
    exact ⟨lease, hlease, here⟩
  check := (check_eq_ok_iff h.sound.nodes).mpr h.sound.cursor
  room lease mem := by
    obtain ⟨node, named, hnode, -, -, size⟩ := h.named mem .useAfterRelease
    obtain ⟨-, -, hn⟩ := blockSize_bounds size
    have hstop := (h.sound.tiles.bounds hnode).2.2.2.2
    refine ⟨_, congrArg Result.value (payload_eq h.sound named), ?_⟩
    rw [Buffer.size_slice _ hstop]
    simp only [Node.address, Node.stop, headerSize]
    omega
  stats := by
    have sizes := entryTotal_perm h.ledger
    rw [entryTotal_nodes, entryTotal_leases] at sizes
    refine ⟨_, show a.stats = .ok (Stats.ofNodes nodes) by rw [stats, h.sound.nodes]; rfl, ?_⟩
    rw [Stats.ofNodes, foldl_add]
    simp only [Stats.empty, Nat.zero_add]
    refine ⟨?_, sizes, ?_⟩
    · simpa using h.ledger.length_eq
    · have := h.sound.tiles.span_eq
      rw [span_taken_add_free]
      omega

end Accounts

/-- The representation of an arena is in order after any history. -/
theorem Reachable.in_order (h : Reachable a held) : ∃ nodes, InOrder a held nodes := by
  obtain ⟨nodes, accounts⟩ := h.accounts
  exact ⟨nodes, accounts.inOrder⟩

theorem variedArena_in_order : ∃ nodes, InOrder variedArena variedLeases nodes :=
  variedArena_reachable.in_order

/-- The block `p` consists of `bytes`, which lie in the buffer from its address on and contain no
header. -/
structure Occupies (a : Arena) (p : Ptr) (bytes : ByteArray) : Prop where
  payload : payload p a = ⟨.ok bytes, a, []⟩
  memory : a.buffer.slice p.addr (p.addr + bytes.size) = bytes
  inside : p.addr + bytes.size ≤ a.len
  clear : ∃ nodes, a.nodes = .ok nodes ∧
    ∀ node ∈ nodes, node.offset + headerSize ≤ p.addr ∨ p.addr + bytes.size ≤ node.offset

/-- What the clients of an arena that hold the leases `held` can rely on. -/
structure Isolated (a : Arena) (held : List Lease) : Prop where
  occupied : ∀ lease ∈ held, ∃ bytes, Occupies a lease.ptr bytes
  /-- The blocks do not overlap. -/
  apart : held.Pairwise fun lease other => ∀ bytes bytes', Occupies a lease.ptr bytes →
    Occupies a other.ptr bytes' → lease.ptr.addr + bytes.size ≤ other.ptr.addr ∨
      other.ptr.addr + bytes'.size ≤ lease.ptr.addr
  /-- A request that is not a write, a release or a resize of a block leaves it where it is, with all
  its bytes. -/
  kept : ∀ {α : Type} (r : Request α), ∀ lease ∈ held, r.target ≠ some lease.ptr →
    lease ∈ Lease.after r (perform r a).value held ∧
      (payload lease.ptr (perform r a).state).value = (payload lease.ptr a).value
  /-- A block that was resized begins with the bytes that it had. -/
  resized : ∀ lease ∈ held, ∀ n q, (resize lease.ptr n a).value = .ok (some q) →
    ∃ old new, (payload lease.ptr a).value = .ok old ∧
      (payload q (resize lease.ptr n a).state).value = .ok new ∧ min old.size n ≤ new.size ∧
      new.extract 0 (min old.size n) = old.extract 0 (min old.size n)
  /-- A resize that is refused leaves all blocks where they are, with all their bytes. -/
  refused : ∀ p n, (resize p n a).value = .ok none →
    Lease.after (.resize p n) (resize p n a).value held = held ∧ ∀ lease ∈ held,
      (payload lease.ptr (resize p n a).state).value = (payload lease.ptr a).value
  /-- Requests for blocks that are held, and requests for new ones, do not panic. -/
  answered : ∀ {α : Type} (r : Request α), (∀ p, r.pointer = some p → ∃ lease ∈ held, lease.ptr = p) →
    ∃ value, (perform r a).value = .ok value

/-- How large the block for a request of `n` bytes is, and that requests are served by such blocks. -/
structure RoundsUp (n : UInt64) : Prop where
  /-- In the words of a machine the size is the same. -/
  words : (wordBlockSize n).map UInt64.toNat = blockSize n.toNat
  isSome_iff : (blockSize n.toNat).isSome = true ↔ n.toNat ≤ wordLimit - 16
  least : ∀ need, blockSize n.toNat = some need → IsLeast (sufficient n.toNat) need
  monotone : ∀ m ≤ n, ∀ more, blockSize n.toNat = some more →
    ∃ need, blockSize m.toNat = some need ∧ need ≤ more
  grabbed : ∀ a held, Reachable a held → ∀ p, (grab n.toNat a).value = .ok (some p) →
    ∃ bytes, (payload p (grab n.toNat a).state).value = .ok bytes ∧
      blockSize n.toNat = some (bytes.size + headerSize) ∧ n.toNat ≤ bytes.size
  resized : ∀ a held, Reachable a held → ∀ p q, (resize p n.toNat a).value = .ok (some q) →
    ∃ bytes, (payload q (resize p n.toNat a).state).value = .ok bytes ∧
      blockSize n.toNat = some (bytes.size + headerSize) ∧ n.toNat ≤ bytes.size

theorem payload_of_trades {a' : Arena} {old new rest : List Node} (sound : a.Sound nodes)
    (trades : Trades nodes old new rest a a') (mem : node ∈ rest) (allocated : node.allocated = true)
    (here : node.address = p.addr) : (payload p a').value = (payload p a).value := by
  obtain ⟨before, keeps, nodes', sound', after⟩ := trades
  have old_mem := (mem_taken.mp (before.mem_iff.mpr (List.mem_append_right _ mem))).1
  have new_mem := (mem_taken.mp (after.mem_iff.mpr (List.mem_append_right _ mem))).1
  have named : a.takenNode p .useAfterRelease = .ok node :=
    (takenNode_eq_ok_iff sound.nodes).mpr ⟨old_mem, allocated, here⟩
  have named' : a'.takenNode p .useAfterRelease = .ok node :=
    (takenNode_eq_ok_iff sound'.nodes).mpr ⟨new_mem, allocated, here⟩
  have bytes := (keeps.bytes node (mem_taken.mpr ⟨mem, allocated⟩)).mono
    (Nat.le_add_right node.offset headerSize) (Nat.le_refl node.stop)
  rw [payload_eq sound named, payload_eq sound' named']
  exact congrArg Except.ok (bytes.slice keeps.len (sound.tiles.bounds old_mem).2.2.2.2)

/-- A lease stays unless its block is released or resized. -/
theorem Lease.mem_after {α : Type} (r : Request α) (value : Except Panic α) (mem : lease ∈ held)
    (other : r.target ≠ some lease.ptr) : lease ∈ Lease.after r value held := by
  have keep {p : Ptr} (ne : some p ≠ some lease.ptr) : lease ∈ Lease.drop p held := by
    refine List.mem_filter.mpr ⟨mem, decide_eq_true fun same => ne ?_⟩
    rw [same]
  cases r with
  | grab n =>
    rcases value with panic | _ | q
    · exact mem
    · exact mem
    · exact List.mem_cons_of_mem _ mem
  | release p =>
    cases value with
    | error panic => exact mem
    | ok => exact keep other
  | resize p n =>
    rcases value with panic | _ | q
    · exact mem
    · exact mem
    · exact List.mem_cons_of_mem _ (keep other)
  | payload p => exact mem
  | edit p f => exact mem

namespace Accounts

theorem occupies (h : Accounts a held nodes) (hnode : node ∈ nodes)
    (named : a.takenNode p .useAfterRelease = .ok node) :
    ∃ bytes, Occupies a p bytes ∧ p.addr + bytes.size = node.stop := by
  obtain ⟨-, -, here⟩ := (takenNode_eq_ok_iff h.sound.nodes).mp named
  obtain ⟨-, -, h8, -, hstop⟩ := h.sound.tiles.bounds hnode
  obtain ⟨bytes, hbytes⟩ : ∃ bytes, bytes = a.buffer.slice node.address node.stop := ⟨_, rfl⟩
  have size : p.addr + bytes.size = node.stop := by
    rw [hbytes, Buffer.size_slice _ hstop, ← here]
    simp only [Node.address, Node.stop, headerSize]
    omega
  refine ⟨bytes, ⟨?_, ?_, by omega, nodes, h.sound.nodes, fun other mem => ?_⟩, size⟩
  · rw [hbytes]
    exact payload_eq h.sound named
  · rw [size, ← here, hbytes]
  · rw [size, ← here]
    simp only [Node.address]
    rcases h.sound.tiles.eq_or_apart hnode mem with rfl | apart | apart
    · exact .inl (Nat.le_refl _)
    · exact .inr apart
    · have := (h.sound.tiles.bounds mem).2.2.1
      simp only [Node.stop, headerSize] at *
      omega

theorem apart {other : Lease} (h : Accounts a held nodes) (mem : lease ∈ held)
    (mem' : other ∈ held) (ne : lease.ptr ≠ other.ptr) {bytes bytes' : ByteArray}
    (occupied : Occupies a lease.ptr bytes) (occupied' : Occupies a other.ptr bytes') :
    lease.ptr.addr + bytes.size ≤ other.ptr.addr ∨
      other.ptr.addr + bytes'.size ≤ lease.ptr.addr := by
  have ends {lease : Lease} {bytes : ByteArray} (mem : lease ∈ held)
      (occupied : Occupies a lease.ptr bytes) : ∃ node ∈ nodes,
        node.address = lease.ptr.addr ∧ lease.ptr.addr + bytes.size = node.stop := by
    obtain ⟨node, named, hnode, -, here, -⟩ := h.named mem .useAfterRelease
    obtain ⟨found, again, stop⟩ := h.occupies hnode named
    have same : bytes = found := by
      have := occupied.payload.symm.trans again.payload
      injection this with this
      exact Except.ok.inj this
    exact ⟨node, hnode, here, same ▸ stop⟩
  obtain ⟨node, hnode, here, stop⟩ := ends mem occupied
  obtain ⟨node', hnode', here', stop'⟩ := ends mem' occupied'
  rw [stop, stop']
  simp only [Node.address] at here here'
  rcases h.sound.tiles.eq_or_apart hnode hnode' with rfl | before | after
  · exact absurd (Ptr.ext (here.symm.trans here')) ne
  · exact .inl (by omega)
  · exact .inr (by omega)

theorem kept {α : Type} (h : Accounts a held nodes) (r : Request α) (mem : lease ∈ held)
    (other : r.target ≠ some lease.ptr) :
    (payload lease.ptr (perform r a).state).value = (payload lease.ptr a).value := by
  obtain ⟨node, hnode, allocated, here, -⟩ := h.exists_node mem
  obtain ⟨old, new, rest, trades, only⟩ := perform_trades h.sound r
  have still : node ∈ rest := by
    have := trades.before.mem_iff.mp (mem_taken.mpr ⟨hnode, allocated⟩)
    rcases List.mem_append.mp this with gone | still
    · exact absurd ((only node gone).trans (congrArg some (Ptr.ext here))) other
    · exact still
  exact payload_of_trades h.sound trades still allocated here

theorem refused {n : Nat} (h : Accounts a held nodes) (value : (resize p n a).value = .ok none)
    (mem : lease ∈ held) :
    (payload lease.ptr (resize p n a).state).value = (payload lease.ptr a).value := by
  obtain ⟨node, hnode, allocated, here, -⟩ := h.exists_node mem
  cases found : a.takenNode p .doubleRelease with
  | error panic =>
    rw [resize_of_error h.sound found] at value
    cases value
  | ok other =>
    have perm := List.perm_cons_erase
      (mem_taken.mpr ((takenNode_spec h.sound found).imp_right And.left))
    rcases resize_trades h.sound found perm n with ⟨-, trades⟩ | ⟨_, _, _, _, _, value', _⟩
    · exact payload_of_trades h.sound trades (mem_taken.mpr ⟨hnode, allocated⟩) allocated here
    · rw [value] at value'
      cases value'

theorem resized {n : Nat} {q : Ptr} (h : Accounts a held nodes) (mem : lease ∈ held)
    (value : (resize lease.ptr n a).value = .ok (some q)) :
    ∃ old new, (payload lease.ptr a).value = .ok old ∧
      (payload q (resize lease.ptr n a).state).value = .ok new ∧ min old.size n ≤ new.size ∧
      new.extract 0 (min old.size n) = old.extract 0 (min old.size n) := by
  obtain ⟨node, named, hnode, allocated, here, -⟩ := h.named mem .doubleRelease
  have perm := List.perm_cons_erase (mem_taken.mpr ⟨hnode, allocated⟩)
  rcases resize_trades h.sound named perm n with
    ⟨value', -⟩ | ⟨need, new, hneed, size, taken_new, value', trades, bytes⟩
  · rw [value] at value'
    cases value'
  · obtain rfl : q = ⟨new.address, Nat.succ_pos _⟩ := by
      rw [value] at value'
      cases value'
      rfl
    obtain ⟨-, keeps, nodes', sound', after⟩ := trades
    have hnew := (mem_taken.mp (after.mem_iff.mpr (List.mem_cons_self (a := new)))).1
    have named' : (resize lease.ptr n a).state.takenNode ⟨new.address, Nat.succ_pos _⟩
        .useAfterRelease = .ok new :=
      (takenNode_eq_ok_iff sound'.nodes).mpr ⟨hnew, taken_new, rfl⟩
    have used : a.takenNode lease.ptr .useAfterRelease = .ok node :=
      (takenNode_eq_ok_iff h.sound.nodes).mpr ⟨hnode, allocated, here⟩
    have hstop := (h.sound.tiles.bounds hnode).2.2.2.2
    have hstop' := (sound'.tiles.bounds hnew).2.2.2.2
    obtain ⟨h16, -, hn⟩ := blockSize_bounds hneed
    obtain ⟨count, hcount⟩ : ∃ count, count = min (node.size - headerSize) n := ⟨_, rfl⟩
    have old_fits : node.address + count ≤ node.stop := by
      have := (h.sound.tiles.bounds hnode).2.2.1
      simp only [Node.address, Node.stop, headerSize] at *
      omega
    have new_fits : new.address + count ≤ new.stop := by
      simp only [Node.address, Node.stop, headerSize] at *
      omega
    have old_size : (a.buffer.slice node.address node.stop).size = node.size - headerSize := by
      rw [Buffer.size_slice _ hstop]
      simp only [Node.address, Node.stop]
      omega
    refine ⟨_, _, congrArg Result.value (payload_eq h.sound used),
      congrArg Result.value (payload_eq sound' named'), ?_, ?_⟩
    · rw [old_size, ← hcount, Buffer.size_slice _ hstop']
      omega
    · rw [old_size, ← hcount, Buffer.extract_slice _ old_fits, Buffer.extract_slice _ new_fits]
      exact Buffer.slice_eq_slice (Nat.le_trans old_fits hstop) (Nat.le_trans new_fits hstop')
        (by rwa [← hcount] at bytes)

theorem answered {α : Type} (h : Accounts a held nodes) (r : Request α)
    (mine : ∀ p, r.pointer = some p → ∃ lease ∈ held, lease.ptr = p) :
    ∃ value, (perform r a).value = .ok value := by
  have named {p : Ptr} (hp : r.pointer = some p) (misuse : Ptr → Violation) :
      ∃ node rest, a.takenNode p misuse = .ok node ∧ (taken nodes).Perm (node :: rest) := by
    obtain ⟨lease, mem, rfl⟩ := mine p hp
    obtain ⟨node, found, hnode, allocated, -⟩ := h.named mem misuse
    exact ⟨node, _, found, List.perm_cons_erase (mem_taken.mpr ⟨hnode, allocated⟩)⟩
  cases r with
  | grab n =>
    rcases grab_trades h.sound n with ⟨value, -⟩ | ⟨_, _, _, _, _, value, -⟩
    · exact ⟨_, value⟩
    · exact ⟨_, value⟩
  | release p =>
    obtain ⟨node, rest, found, -⟩ := named rfl .doubleRelease
    exact ⟨_, congrArg Result.value (release_eq h.sound found)⟩
  | resize p n =>
    obtain ⟨node, rest, found, perm⟩ := named rfl .doubleRelease
    rcases resize_trades h.sound found perm n with ⟨value, -⟩ | ⟨_, _, _, _, _, value, -⟩
    · exact ⟨_, value⟩
    · exact ⟨_, value⟩
  | payload p =>
    obtain ⟨node, rest, found, -⟩ := named rfl .useAfterRelease
    exact ⟨_, congrArg Result.value (payload_eq h.sound found)⟩
  | edit p f =>
    obtain ⟨node, rest, found, perm⟩ := named rfl .useAfterRelease
    exact ⟨_, (editPayload_trades h.sound found perm f).1⟩

theorem isolated (h : Accounts a held nodes) : Isolated a held where
  occupied lease mem := by
    obtain ⟨node, named, hnode, -⟩ := h.named mem .useAfterRelease
    obtain ⟨bytes, occupied, -⟩ := h.occupies hnode named
    exact ⟨bytes, occupied⟩
  apart := by
    have distinct := List.pairwise_map.mp h.nodup
    exact distinct.imp_of_mem fun mem mem' ne _ _ occupied occupied' =>
      h.apart mem mem' ne occupied occupied'
  kept r lease mem other := ⟨Lease.mem_after r _ mem other, h.kept r mem other⟩
  resized lease mem n q value := h.resized mem value
  refused p n value := by
    rw [value]
    exact ⟨rfl, fun lease mem => h.refused value mem⟩
  answered r mine := h.answered r mine

end Accounts

/-- The blocks that clients hold are safe from each other after any history. -/
theorem Reachable.blocks_isolated (h : Reachable a held) : Isolated a held := by
  obtain ⟨nodes, accounts⟩ := h.accounts
  exact accounts.isolated

theorem variedArena_isolated : Isolated variedArena variedLeases :=
  variedArena_reachable.blocks_isolated

/-- A block has the size for what it was asked for. -/
theorem Accounts.payload_size (h : Accounts a held nodes) (mem : lease ∈ held) :
    ∃ bytes, (payload lease.ptr a).value = .ok bytes ∧
      blockSize lease.bytes = some (bytes.size + headerSize) ∧ lease.bytes ≤ bytes.size := by
  obtain ⟨node, named, hnode, -, here, size⟩ := h.named mem .useAfterRelease
  obtain ⟨bytes, occupied, stop⟩ := h.occupies hnode named
  have exact_fit : node.size = bytes.size + headerSize := by
    simp only [Node.address, Node.stop, headerSize] at *
    omega
  have room := (blockSize_bounds size).2.2
  rw [exact_fit] at size room
  exact ⟨bytes, congrArg Result.value occupied.payload, size, Nat.le_of_add_le_add_right room⟩

/-- What a request for memory gets has the size for what was asked for. -/
theorem Reachable.payload_size {α : Type} (h : Reachable a held) (r : Request α)
    (got : lease ∈ Lease.after r (perform r a).value held) :
    ∃ bytes, (payload lease.ptr (perform r a).state).value = .ok bytes ∧
      blockSize lease.bytes = some (bytes.size + headerSize) ∧ lease.bytes ≤ bytes.size := by
  obtain ⟨nodes, accounts⟩ := h.accounts
  obtain ⟨nodes', after⟩ := accounts.step r
  exact after.payload_size got

/-- The size of a block is the least that suffices, for every word, and requests are served by
blocks of that size. -/
theorem blockSize_rounds (n : UInt64) : RoundsUp n where
  words := toNat_wordBlockSize n
  isSome_iff := by
    rw [blockSize_eq]
    split
    next room => exact iff_of_true rfl room
    next large => exact iff_of_false Bool.false_ne_true large
  least need size := (blockSize_eq_some_iff.mp size).2
  monotone m smaller more hmore := blockSize_mono (UInt64.le_iff_toNat_le.mp smaller) hmore
  grabbed a held reached p served := by
    have got : ⟨p, n.toNat⟩ ∈ Lease.after (.grab n.toNat) (perform (.grab n.toNat) a).value held := by
      rw [show (perform (.grab n.toNat) a).value = .ok (some p) from served]
      exact List.mem_cons_self
    exact reached.payload_size (.grab n.toNat) got
  resized a held reached p q served := by
    have got : ⟨q, n.toNat⟩ ∈
        Lease.after (.resize p n.toNat) (perform (.resize p n.toNat) a).value held := by
      rw [show (perform (.resize p n.toNat) a).value = .ok (some q) from served]
      exact List.mem_cons_self
    exact reached.payload_size (.resize p n.toNat) got

end MemoryTrial.Arena
