import MemoryTrial.Arena.Operations
import MemoryTrial.Proofs.Arena.Tiling

/-! What the edits of an arena do to its nodes.  Each edit rewrites one stretch of the buffer between
two nodes (`nodes_replace`): merging makes one node of a stretch, carving a block out of a node makes
two, freeing changes the state of a node, and writing a payload changes no node. -/

namespace MemoryTrial.Arena

variable {pre old post : List Node} {node : Node}

namespace Buffer

variable {b b' : Buffer} {new : List Node} {start stop : Nat}

theorem holds_setHeader (b : Buffer) (node : Node) (aligned : node.offset % 8 = 0) (h8 : 8 ≤ node.size)
    (hmod : node.size % 8 = 0) (hstop : node.stop ≤ b.len) :
    (b.setHeader node.offset ⟨node.size, node.allocated⟩).Holds node := by
  simp only [Node.stop] at hstop
  exact header_setHeader b aligned (by omega) ⟨h8, hmod, by simp only; omega⟩

theorem Holds.congr (held : b.Holds node) (hlen : b'.len = b.len) (aligned : node.offset % 8 = 0)
    (same : Agree b b' node.offset (node.offset + 8)) : b'.Holds node := by
  rw [Holds, header_congr hlen aligned same]
  exact held

/-- Nodes keep their headers when the bytes of a stretch that they lie in stay. -/
theorem holds_of_agree {nodes : List Node} (tiles : Tiles start nodes stop)
    (aligned : start % 8 = 0) (hlen : b'.len = b.len) (same : Agree b b' start stop)
    (held : ∀ node ∈ nodes, b.Holds node) : ∀ node ∈ nodes, b'.Holds node := by
  intro node mem
  obtain ⟨lo, hmod, h8, -, hi⟩ := tiles.bounds mem
  simp only [Node.stop] at hi
  exact (held node mem).congr hlen (by omega) (same.mono lo (by omega))

/-- A stretch of a buffer is rewritten: the nodes before and behind it stay. -/
theorem nodes_replace (h : b.nodes = .ok (pre ++ old ++ post)) (hlen : b'.len = b.len)
    (left : Tiles 0 pre start) (middle : Tiles start new stop) (right : Tiles stop post b.len)
    (before : Agree b b' 0 start) (after : Agree b b' stop b.len)
    (held : ∀ node ∈ new, b'.Holds node) : b'.nodes = .ok (pre ++ new ++ post) := by
  obtain ⟨-, all⟩ := nodes_eq_ok_iff.mp h
  have aligned : stop % 8 = 0 := by
    have := left.aligned
    have := middle.aligned
    omega
  have heldPre := holds_of_agree left rfl hlen before fun node mem => all node (by simp [mem])
  have heldPost := holds_of_agree right aligned hlen after fun node mem => all node (by simp [mem])
  rw [nodes_eq_ok_iff, hlen]
  -- the three stretches tile the buffer, and each node holds its header by the stretch it is in
  refine ⟨(left.append middle).append right, fun node mem => ?_⟩
  rcases List.mem_append.mp mem with mem | mem
  · rcases List.mem_append.mp mem with mem | mem
    · exact heldPre node mem
    · exact held node mem
  · exact heldPost node mem

/-- The header of a stretch is written: one node takes its place. -/
theorem nodes_setHeader {size : Nat} (allocated : Bool)
    (h : b.nodes = .ok (pre ++ old ++ post)) (left : Tiles 0 pre start)
    (right : Tiles (start + size) post b.len) (h8 : 8 ≤ size) (hmod : size % 8 = 0) :
    (b.setHeader start ⟨size, allocated⟩).nodes =
      .ok (pre ++ [⟨start, size, allocated⟩] ++ post) := by
  have aligned : start % 8 = 0 := left.aligned
  have room := right.le
  have inside : start < b.len := by omega
  refine nodes_replace h (len_setHeader ..) left ⟨rfl, h8, hmod, rfl⟩ right
    (agree_setHeader b _ aligned inside (.inl (Nat.le_refl _)))
    (agree_setHeader b _ aligned inside (.inr (show start + 8 ≤ start + size by omega)))
    fun node mem => ?_
  rw [List.mem_singleton] at mem
  subst mem
  exact b.holds_setHeader ⟨start, size, allocated⟩ aligned h8 hmod room

theorem nodes_put {place : Nat} {src : ByteArray} (h : b.nodes = .ok (pre ++ node :: post))
    (lo : node.address ≤ place) (hi : place + src.size ≤ node.stop) :
    (b.put place src).nodes = .ok (pre ++ node :: post) := by
  obtain ⟨tiles, held⟩ := nodes_eq_ok_iff.mp h
  obtain ⟨left, h8, hmod, right⟩ := tiles.around
  have aligned : node.offset % 8 = 0 := left.aligned
  have room := right.le
  have inside : place + src.size ≤ b.len := by omega
  simp only [Node.address, headerSize] at lo
  rw [show pre ++ node :: post = pre ++ [node] ++ post by simp] at h ⊢
  refine nodes_replace h (len_put ..) left ⟨rfl, h8, hmod, rfl⟩ right
    (agree_put b inside (.inl (by omega))) (agree_put b inside (.inr hi)) fun node' mem => ?_
  rw [List.mem_singleton] at mem
  subst mem
  exact (held node' (by simp)).congr (len_put ..) aligned (agree_put b inside (.inl lo))

end Buffer

variable {a : Arena}

@[simp] theorem len_merge (a : Arena) (offset merged : Nat) : (a.merge offset merged).len = a.len :=
  Buffer.len_setHeader ..

@[simp] theorem len_split (a : Arena) (offset size need : Nat) :
    (a.split offset size need).len = a.len := by
  unfold split
  split <;> simp [len_eq]

@[simp] theorem len_freeNode (a : Arena) (node : Node) : (a.freeNode node).len = a.len := by
  unfold freeNode
  split <;> simp [len_eq]

theorem split_leaves (a : Arena) (offset size need : Nat) :
    (a.split offset size need).kind = a.kind ∧ (a.split offset size need).poison = a.poison ∧
      (a.split offset size need).live = a.live := by
  unfold split
  split <;> exact ⟨rfl, rfl, rfl⟩

theorem freeNode_leaves (a : Arena) (node : Node) :
    (a.freeNode node).kind = a.kind ∧ (a.freeNode node).poison = a.poison ∧
      (a.freeNode node).live = a.live := by
  unfold freeNode
  split <;> exact ⟨rfl, rfl, rfl⟩

@[simp] theorem cursor_split (a : Arena) (offset size need : Nat) :
    (a.split offset size need).cursor = offset := by
  unfold split
  split <;> rfl

@[simp] theorem cursor_freeNode (a : Arena) (node : Node) :
    (a.freeNode node).cursor = min node.offset a.cursor := by
  unfold freeNode
  split <;> rfl

/-- The nodes that are left of a node when the first `need` bytes are handed out. -/
def carve (node : Node) (need : Nat) : List Node :=
  ⟨node.offset, need, true⟩ ::
    if need < node.size then [⟨node.offset + need, node.size - need, false⟩] else []

theorem nodes_merge {run : List Node} (h : a.nodes = .ok (pre ++ node :: (run ++ post))) :
    (a.merge node.offset (node.size + span run)).nodes =
      .ok (pre ++ ⟨node.offset, node.size + span run, false⟩ :: post) := by
  obtain ⟨tiles, -⟩ := Buffer.nodes_eq_ok_iff.mp h
  obtain ⟨left, h8, hmod, rest⟩ := tiles.around
  obtain ⟨middle, right⟩ := Tiles.append_iff_span.mp rest
  have whole := middle.aligned
  simp only [Node.stop] at whole right
  have nodes : a.buffer.nodes = .ok (pre ++ (node :: run) ++ post) := by simpa [nodes_eq] using h
  rw [Nat.add_assoc] at right
  have := Buffer.nodes_setHeader false nodes left right (by omega) (by omega)
  simpa [nodes_eq, merge, Header.free] using this

theorem tiles_carve {need : Nat} (h8 : 8 ≤ need) (hmod : need % 8 = 0) (hsize : node.size % 8 = 0)
    (fits : need ≤ node.size) : Tiles node.offset (carve node need) node.stop := by
  unfold carve
  split
  next short =>
    exact ⟨rfl, h8, hmod, rfl, by simp only; omega, by simp only; omega,
      by simp only [Tiles, Node.stop]; omega⟩
  next whole => exact ⟨rfl, h8, hmod, by simp only [Tiles, Node.stop]; omega⟩

theorem agree_split {need lo hi : Nat} (h : a.nodes = .ok (pre ++ node :: post))
    (hmod : need % 8 = 0) (apart : hi ≤ node.offset ∨ node.offset + 8 ≤ lo)
    (apart' : hi ≤ node.offset + need ∨ node.offset + need + 8 ≤ lo ∨ node.stop ≤ lo) :
    a.buffer.Agree (a.split node.offset node.size need).buffer lo hi := by
  obtain ⟨tiles, -⟩ := Buffer.nodes_eq_ok_iff.mp h
  obtain ⟨left, h8, hsize, right⟩ := tiles.around
  have aligned : node.offset % 8 = 0 := left.aligned
  have room := right.le
  simp only [Node.stop] at room apart'
  unfold split
  split
  next short =>
    refine (a.buffer.agree_setHeader _ aligned (by omega) apart).trans
      (Buffer.agree_setHeader _ _ (by omega) ?_ (by omega))
    rw [Buffer.len_setHeader]
    omega
  next whole => exact a.buffer.agree_setHeader _ aligned (by omega) apart

theorem nodes_split {need : Nat} (h : a.nodes = .ok (pre ++ node :: post)) (h8 : 8 ≤ need)
    (hmod : need % 8 = 0) (fits : need ≤ node.size) :
    (a.split node.offset node.size need).nodes = .ok (pre ++ (carve node need ++ post)) := by
  obtain ⟨tiles, -⟩ := Buffer.nodes_eq_ok_iff.mp h
  obtain ⟨left, -, hsize, right⟩ := tiles.around
  have aligned : node.offset % 8 = 0 := left.aligned
  have room := right.le
  have nodes : a.buffer.nodes = .ok (pre ++ [node] ++ post) := by simpa [nodes_eq] using h
  simp only [Node.stop] at room
  have held : ∀ m ∈ carve node need, (a.split node.offset node.size need).buffer.Holds m := by
    intro m mem
    unfold carve at mem
    unfold split
    split at mem
    next short =>
      rw [if_pos short]
      simp only [List.mem_cons, List.not_mem_nil, or_false] at mem
      rcases mem with rfl | rfl
      -- the block's header is written first, so it has to survive that of the remainder
      · have taken := a.buffer.holds_setHeader ⟨node.offset, need, true⟩ aligned h8 hmod
          (by simp only [Node.stop]; omega)
        exact taken.congr (Buffer.len_setHeader ..) aligned (Buffer.agree_setHeader _ _ (by omega)
          (by rw [Buffer.len_setHeader]; omega) (.inl (by simp only; omega)))
      · exact Buffer.holds_setHeader _ ⟨node.offset + need, node.size - need, false⟩
          (by simp only; omega) (by simp only; omega) (by simp only; omega)
          (by rw [Buffer.len_setHeader]; simp only [Node.stop]; omega)
    next whole =>
      rw [if_neg whole]
      obtain rfl : need = node.size := by omega
      rw [List.mem_singleton] at mem
      subst mem
      exact a.buffer.holds_setHeader ⟨node.offset, node.size, true⟩ aligned h8 hmod room
  have := Buffer.nodes_replace nodes (len_split ..) left (tiles_carve h8 hmod hsize fits) right
    (agree_split h hmod (.inl (Nat.le_refl _)) (.inl (by omega)))
    (agree_split h hmod (.inr (by simp only [Node.stop]; omega)) (.inr (.inr (Nat.le_refl _)))) held
  simpa [nodes_eq] using this

theorem agree_merge {merged lo hi : Nat} (h : a.nodes = .ok (pre ++ node :: post))
    (apart : hi ≤ node.offset ∨ node.offset + 8 ≤ lo) :
    a.buffer.Agree (a.merge node.offset merged).buffer lo hi := by
  obtain ⟨tiles, -⟩ := Buffer.nodes_eq_ok_iff.mp h
  obtain ⟨left, h8, -, right⟩ := tiles.around
  have room := right.le
  simp only [Node.stop] at room
  exact a.buffer.agree_setHeader _ left.aligned (by omega) apart

theorem nodes_freeNode (h : a.nodes = .ok (pre ++ node :: post)) :
    (a.freeNode node).nodes = .ok (pre ++ { node with allocated := false } :: post) := by
  obtain ⟨tiles, -⟩ := Buffer.nodes_eq_ok_iff.mp h
  obtain ⟨left, h8, hmod, right⟩ := tiles.around
  have nodes : a.buffer.nodes = .ok (pre ++ [node] ++ post) := by simpa [nodes_eq] using h
  have marked := Buffer.nodes_setHeader false nodes left right h8 hmod
  rw [List.append_assoc, List.singleton_append] at marked
  unfold freeNode
  split
  next poison =>
    refine Buffer.nodes_put marked (Nat.le_refl _) ?_
    simp only [Bytes.size_replicate, Node.address, Node.stop, headerSize]
    omega
  next clean => exact marked

theorem agree_freeNode {lo hi : Nat} (h : a.nodes = .ok (pre ++ node :: post))
    (apart : hi ≤ node.offset ∨ node.stop ≤ lo) :
    a.buffer.Agree (a.freeNode node).buffer lo hi := by
  obtain ⟨tiles, -⟩ := Buffer.nodes_eq_ok_iff.mp h
  obtain ⟨left, h8, -, right⟩ := tiles.around
  have room := right.le
  simp only [Node.stop] at room apart
  have marked := a.buffer.agree_setHeader (.free node.size) left.aligned (by omega)
    (show hi ≤ node.offset ∨ node.offset + 8 ≤ lo by omega)
  unfold freeNode
  split
  next poison =>
    refine marked.trans (Buffer.agree_put _ ?_ ?_)
    · simp only [Buffer.len_setHeader, Bytes.size_replicate, Node.address, headerSize]; omega
    · simp only [Bytes.size_replicate, Node.address, headerSize]; omega
  next clean => exact marked

end MemoryTrial.Arena
