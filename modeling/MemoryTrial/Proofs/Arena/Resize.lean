import MemoryTrial.Proofs.Arena.History

/-! Resizing a block.  A block can have the bytes of the free nodes behind it where it is.  When these
suffice a resize stays there and changes nothing outside, and else it answers as a request for new
memory does (`Reachable.resize_resized`). -/

namespace MemoryTrial.Arena

variable {a : Arena} {pre post : List Node} {node : Node} {p : Ptr} {n need : Nat}

/-- The bytes that a block can have where it is: its own, and those of the free nodes directly behind
it, up to the next node that is handed out or the end of the buffer. -/
def available (node : Node) (post : List Node) : Nat :=
  node.size + span (post.takeWhile Node.isFree)

/-- The block `p`, whose node is at `offset`, was resized where it is: of the `room` bytes there it has
`need`, the others are one free node, and nothing else changed. -/
structure ResizedInPlace (p : Ptr) (offset room need : Nat) (pre post : List Node) (a : Arena)
    (r : Result Arena (Option Ptr)) : Prop where
  value : r.value = .ok (some p)
  nodes : r.state.nodes = .ok (pre ++ ⟨offset, need, true⟩ ::
    ((if need < room then [⟨offset + need, room - need, false⟩] else []) ++ post))
  cursor : r.state.cursor = offset
  len : r.state.len = a.len
  before : a.buffer.Agree r.state.buffer 0 offset
  behind : a.buffer.Agree r.state.buffer (offset + room) a.len

/-- The block `p` could not be resized where it is: the request for new memory, which ends in `grabbed`,
decides what becomes of it, and once that is served the old block is free. -/
structure ResizedElsewhere (p : Ptr) (node : Node) (grabbed r : Result Arena (Option Ptr)) :
    Prop where
  answer : ∃ answer, grabbed.value = .ok answer ∧ r.value = .ok answer
  refused : grabbed.value = .ok none → r.state = grabbed.state
  moved : ∀ q, grabbed.value = .ok (some q) → q ≠ p ∧
    r.state.cursor = min node.offset (q.addr - headerSize) ∧
    ∃ before after, grabbed.state.nodes = .ok (before ++ node :: after) ∧
      r.state.nodes = .ok (before ++ { node with allocated := false } :: after)

/-- What becomes of the block `p` at `node`, between `pre` and `post`, in a resize to `n` bytes. -/
structure Resized (p : Ptr) (n : Nat) (pre : List Node) (node : Node) (post : List Node) (a : Arena)
    (r : Result Arena (Option Ptr)) : Prop where
  shrinks : n + headerSize ≤ node.size → r.value = .ok (some p)
  inPlace : ∀ need, blockSize n = some need → need ≤ available node post →
    ResizedInPlace p node.offset (available node post) need pre (post.dropWhile Node.isFree) a r
  elsewhere : (∀ need, blockSize n = some need → available node post < need) →
    ResizedElsewhere p node (grab n a) r

theorem resize_resizedInPlace (sound : Sound a (pre ++ node :: post))
    (named : a.takenNode p .doubleRelease = .ok node) (hneed : blockSize n = some need)
    (fits : need ≤ available node post) :
    ResizedInPlace p node.offset (available node post) need pre (post.dropWhile Node.isFree) a
      (resize p n a) := by
  obtain ⟨h16, hmod, -⟩ := blockSize_bounds hneed
  obtain ⟨-, -, here⟩ := takenNode_spec sound named
  have merged := nodes_of_run sound (show available node post = _ from rfl)
  have cut := nodes_split merged (by omega) hmod fits
  -- first the whole run is marked as free, then the block is cut from it
  have outside : ∀ lo hi, hi ≤ node.offset ∨ node.offset + available node post ≤ lo →
      a.buffer.Agree ((a.withHeader node.offset (.free (available node post))).split node.offset
        (available node post) need).buffer lo hi := fun lo hi apart => by
    have h8 := sound.tiles.around.2.1
    have apart8 : hi ≤ node.offset ∨ node.offset + 8 ≤ lo := by
      unfold available at apart
      omega
    refine (agree_merge sound.nodes apart8).trans (agree_split merged hmod apart8 ?_)
    simp only [Node.stop]
    omega
  rw [resize_in_place sound named rfl hneed fits]
  exact ⟨by rw [here], cut, cursor_split .., (len_split ..).trans (Buffer.len_setHeader ..),
    outside _ _ (.inl (Nat.le_refl _)), outside _ _ (.inr (Nat.le_refl _))⟩

/-- After a move the old block is free, and all other nodes are as they were before it. -/
theorem moved_leaves {nodes : List Node} {new : Node} (sound : Sound a nodes) (old : node ∈ nodes)
    (added : new ∈ nodes) (hneed : blockSize n = some new.size) :
    ((copied node new n a).freeNode node).cursor = min node.offset a.cursor ∧
      ∃ before after, a.nodes = .ok (before ++ node :: after) ∧
        ((copied node new n a).freeNode node).nodes =
          .ok (before ++ { node with allocated := false } :: after) := by
  have sound' := sound_copied sound old added hneed
  obtain ⟨before, after, rfl⟩ := List.append_of_mem old
  rw [cursor_freeNode, cursor_copied]
  exact ⟨rfl, before, after, sound.nodes, nodes_freeNode sound'.nodes⟩

theorem resize_resizedElsewhere (sound : Sound a (pre ++ node :: post))
    (named : a.takenNode p .doubleRelease = .ok node)
    (short : ∀ need, blockSize n = some need → available node post < need) :
    ResizedElsewhere p node (grab n a) (resize p n a) := by
  obtain ⟨mem, allocated, here⟩ := (takenNode_eq_ok_iff sound.nodes).mp named
  have none_fits : (blockSize n).filter (· ≤ available node post) = none := by
    rw [Option.filter_eq_none_iff]
    intro need hneed
    simpa using short need hneed
  have trades := grab_trades sound n
  have cursor {q : Ptr} := cursor_grab sound (n := n) (p := q)
  rw [resize_elsewhere sound named rfl none_fits]
  obtain ⟨⟨value, a', records⟩, grabbed⟩ : ∃ r, grab n a = r := ⟨_, rfl⟩
  rw [grabbed] at trades cursor
  rw [grabbed, Op.bind_run, grabbed]
  rcases trades with ⟨rfl, -⟩ | ⟨need, new, hneed, rfl, taken_new, rfl, placed⟩
  · refine ⟨⟨none, rfl, rfl⟩, fun _ => rfl, fun q served => ?_⟩
    cases served
  · obtain ⟨nodes', sound', perm, old, added⟩ := placed.beside mem allocated
    have named' : a'.takenNode p .doubleRelease = .ok node :=
      (takenNode_eq_ok_iff sound'.nodes).mpr ⟨old, allocated, here⟩
    obtain ⟨back, walk⟩ := moved_leaves sound' old added hneed
    simp only [move_eq sound' named' added hneed]
    refine ⟨⟨_, rfl, rfl⟩, fun refused => ?_, fun q served => ?_⟩
    · cases refused
    cases served
    have ne := sound'.address_ne perm (mem_taken.mpr ⟨mem, allocated⟩)
    refine ⟨?_, ?_, walk⟩
    · rintro rfl
      exact ne here.symm
    · rw [← cursor rfl]
      exact back

/-- A resize stays where it is when the block and the free nodes behind it suffice, so that a block
can always shrink; else it is refused or moves as a request for new memory does. -/
theorem Reachable.resize_resized {held : List Lease} {lease : Lease} (h : Reachable a held)
    (mem : lease ∈ held) (n : Nat) :
    ∃ pre node post, a.nodes = .ok (pre ++ node :: post) ∧ node.allocated = true ∧
      node.address = lease.ptr.addr ∧
      Resized lease.ptr n pre node post a (resize lease.ptr n a) := by
  obtain ⟨nodes, accounts⟩ := h.accounts
  obtain ⟨node, named, hnode, allocated, here, size⟩ := accounts.named mem .doubleRelease
  obtain ⟨pre, post, rfl⟩ := List.append_of_mem hnode
  have sound := accounts.sound
  have inPlace (need : Nat) (hneed : blockSize n = some need) (fits : need ≤ available node post) :=
    resize_resizedInPlace sound named hneed fits
  refine ⟨pre, node, post, sound.nodes, allocated, here, fun smaller => ?_, inPlace,
    resize_resizedElsewhere sound named⟩
  obtain ⟨h16, hmod, -⟩ := blockSize_bounds size
  have bounded := a.buffer.bounded
  have inside := (sound.tiles.bounds hnode).2.2.2.2
  obtain ⟨need, hneed, fits⟩ := exists_blockSize_le h16 hmod smaller (by
    simp only [Node.stop, len_eq, Buffer.len, wordLimit, memoryLimit] at *
    omega)
  exact (inPlace need hneed (by unfold available; omega)).value

/-- There is no room behind the block, which moves to the free node before it. -/
theorem variedArena_resized :
    (resize (payloadAt 40) 16 variedArena).value = .ok (some (payloadAt 16)) ∧
    ∃ pre node post, variedArena.nodes = .ok (pre ++ node :: post) ∧
      node.allocated = true ∧ node.address = 48 ∧
      Resized (payloadAt 40) 16 pre node post variedArena (resize (payloadAt 40) 16 variedArena) := by
  have held : ⟨payloadAt 40, 8⟩ ∈ variedLeases := by decide
  exact ⟨by decide +kernel, variedArena_reachable.resize_resized held 16⟩

end MemoryTrial.Arena
