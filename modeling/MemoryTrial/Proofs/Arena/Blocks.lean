import MemoryTrial.Proofs.Arena.Grab

/-! What each request does to the blocks that are handed out.  A request makes some blocks give way
to others, and the rest keep their place and their bytes (`Trades`). -/

namespace MemoryTrial.Arena

variable {a a' : Arena} {nodes rest pre post : List Node} {node : Node} {p : Ptr} {n : Nat}

/-- From `a` to `a'` the blocks `old` give way to the blocks `new`; the blocks `rest` keep their
place and their bytes, headers included. -/
structure Trades (nodes old new rest : List Node) (a a' : Arena) : Prop where
  before : (taken nodes).Perm (old ++ rest)
  keeps : Keeps rest a a'
  after : ∃ nodes', a'.Sound nodes' ∧ (taken nodes').Perm (new ++ rest)

theorem Trades.refl (sound : Sound a nodes) : Trades nodes [] [] (taken nodes) a a :=
  ⟨.refl _, .refl .., nodes, sound, .refl _⟩

theorem perm_around (h : node.allocated = true) :
    (taken (pre ++ node :: post)).Perm (node :: taken (pre ++ post)) := by
  rw [taken_append, taken_cons_of_allocated h, taken_append]
  exact List.perm_middle

theorem Sound.around (sound : Sound a nodes) (mem : node ∈ nodes) :
    ∃ pre post, nodes = pre ++ node :: post ∧ Tiles 0 pre node.offset ∧
      Tiles node.stop post a.len := by
  obtain ⟨pre, post, rfl⟩ := List.append_of_mem mem
  obtain ⟨left, -, -, right⟩ := sound.tiles.around
  exact ⟨pre, post, rfl, left, right⟩

theorem Keeps.of_perm (h : Keeps (pre ++ post) a a') (taken_node : node.allocated = true)
    (perm : (taken (pre ++ node :: post)).Perm (node :: rest)) : Keeps rest a a' := by
  have beside : rest.Perm (taken (pre ++ post)) :=
    (perm.symm.trans (perm_around taken_node)).cons_inv
  exact h.mono fun m mem => beside.mem_iff.mp (mem_taken.mp mem).1

theorem taken_carve (node : Node) (need : Nat) :
    taken (carve node need) = [⟨node.offset, need, true⟩] := by
  unfold carve
  split <;> rfl

/-- A request for memory adds a block or leaves all as they are. -/
theorem grab_trades (sound : Sound a nodes) (n : Nat) :
    (grab n a).value = .ok none ∧ Trades nodes [] [] (taken nodes) a (grab n a).state ∨
    ∃ need new, blockSize n = some need ∧ new.size = need ∧ new.allocated = true ∧
      (grab n a).value = .ok (some ⟨new.address, Nat.succ_pos _⟩) ∧
      Trades nodes [] [new] (taken nodes) a (grab n a).state := by
  have itself : ∀ m ∈ taken (taken nodes), m ∈ taken nodes := fun m mem => (mem_taken.mp mem).1
  cases hneed : (blockSize n).filter (· ≤ a.len) with
  | none =>
    rw [grab_too_large sound hneed]
    exact .inl ⟨rfl, .refl sound⟩
  | some need =>
    obtain ⟨hneed, room⟩ := Option.filter_eq_some_iff.mp hneed
    cases fit : firstFit nodes a.cursor need with
    | none =>
      obtain ⟨value, refused⟩ := grab_refused sound hneed (by simpa using room) fit
      refine .inl ⟨value, .refl _, refused.keeps.mono itself, fuse nodes, refused.sound sound, ?_⟩
      rw [fuse, taken_foldr, List.append_nil]
      exact .refl _
    | some run =>
      have placed := grab_placed sound hneed fit
      obtain ⟨before, after, hnodes, still⟩ := placed.nodes
      refine .inr ⟨need, ⟨run.offset, need, true⟩, hneed, rfl, rfl, placed.value, .refl _,
        placed.keeps.mono itself, _, ⟨placed.keeps.live.trans sound.live, ?_, hnodes⟩, ?_⟩
      · rw [placed.cursor]
        exact ⟨⟨run.offset, need, true⟩, by simp [carve], rfl⟩
      · rw [taken_append, taken_append, taken_carve, ← still]
        exact List.perm_middle

section Named

variable (sound : Sound a nodes) (mem : node ∈ nodes) (allocated : node.allocated = true)
  (perm : (taken nodes).Perm (node :: rest))
include sound mem allocated perm

theorem freeNode_trades : Trades nodes [node] [] rest a (a.freeNode node) := by
  obtain ⟨pre, post, rfl, -, -⟩ := sound.around mem
  have keeps : Keeps (pre ++ post) a (a.freeNode node) := by
    obtain ⟨kind, poison, live⟩ := a.freeNode_leaves node
    exact .of_node sound.nodes kind poison live (len_freeNode ..) fun lo hi apart =>
      agree_freeNode sound.nodes apart
  refine ⟨perm, keeps.of_perm allocated perm, _,
    ⟨keeps.live.trans sound.live, ?_, nodes_freeNode sound.nodes⟩, ?_⟩
  · rw [cursor_freeNode]
    obtain ⟨m, mem, here⟩ := sound.cursor
    by_cases before : node.offset ≤ a.cursor
    · exact ⟨{ node with allocated := false }, by simp, (Nat.min_eq_left before).symm⟩
    -- the cursor stays, on a node that is not the one given back
    · rw [Nat.min_eq_right (by omega)]
      have other : m ≠ node := by
        rintro rfl
        omega
      simp only [List.mem_append, List.mem_cons, other, false_or] at mem
      refine ⟨m, ?_, here⟩
      rcases mem with mem | mem
      · exact List.mem_append_left _ mem
      · exact List.mem_append_right _ (List.mem_cons_of_mem _ mem)
  · rw [taken_append, taken_cons_of_free rfl, ← taken_append]
    exact ((perm_around allocated).symm.trans perm).cons_inv

theorem put_trades {start : Nat} {src : ByteArray} (lo : node.address ≤ start)
    (hi : start + src.size ≤ node.stop) :
    Trades nodes [node] [node] rest a { a with buffer := a.buffer.put start src } ∧
      Sound { a with buffer := a.buffer.put start src } nodes := by
  obtain ⟨pre, post, rfl, -, right⟩ := sound.around mem
  have room := right.le
  have keeps : Keeps (pre ++ post) a { a with buffer := a.buffer.put start src } := by
    refine .of_node sound.nodes rfl rfl rfl (Buffer.len_put ..) fun lo' hi' apart => ?_
    simp only [Node.address] at lo
    exact a.buffer.agree_put (by rw [← len_eq]; omega) (by omega)
  have sound' : Sound { a with buffer := a.buffer.put start src } (pre ++ node :: post) :=
    ⟨sound.live, sound.cursor, Buffer.nodes_put sound.nodes lo hi⟩
  exact ⟨⟨perm, keeps.of_perm allocated perm, _, sound', perm⟩, sound'⟩

end Named

theorem takenNode_spec (sound : Sound a nodes) {misuse : Ptr → Violation}
    (named : a.takenNode p misuse = .ok node) :
    node ∈ nodes ∧ node.allocated = true ∧ (⟨node.address, Nat.succ_pos _⟩ : Ptr) = p := by
  obtain ⟨mem, allocated, here⟩ := (takenNode_eq_ok_iff sound.nodes).mp named
  obtain ⟨addr, pos⟩ := p
  cases here
  exact ⟨mem, allocated, rfl⟩

theorem inspect_of_named {misuse : Ptr → Violation} (named : a.takenNode p misuse = .ok node) :
    Op.inspect (fun a => a.takenNode p misuse) a = ⟨.ok node, a, []⟩ := Op.inspect_of_ok named

theorem inspect_of_misused {misuse : Ptr → Violation} {panic : Panic}
    (named : a.takenNode p misuse = .error panic) :
    Op.inspect (fun a => a.takenNode p misuse) a = ⟨.error panic, a, panic.records⟩ :=
  Op.inspect_of_error named

theorem release_eq (sound : Sound a nodes) (named : a.takenNode p .doubleRelease = .ok node) :
    release p a = ⟨.ok (), a.freeNode node, [.released node.offset node.size]⟩ := by
  rw [release, Op.bind_of_ok (Op.inspect_of_ok sound.ensureLive),
    Op.bind_of_ok (inspect_of_named named)]
  rfl

theorem release_of_error {panic : Panic} (sound : Sound a nodes)
    (named : a.takenNode p .doubleRelease = .error panic) :
    release p a = ⟨.error panic, a, panic.records⟩ := by
  rw [release, Op.bind_of_ok (Op.inspect_of_ok sound.ensureLive),
    Op.bind_of_error (inspect_of_misused named)]
  rfl

theorem usedNode_eq (sound : Sound a nodes) (named : a.takenNode p .useAfterRelease = .ok node) :
    usedNode p a = ⟨.ok node, a, []⟩ := by
  rw [usedNode, Op.bind_of_ok (Op.inspect_of_ok sound.ensureLive), inspect_of_named named]
  rfl

theorem usedNode_of_error {panic : Panic} (sound : Sound a nodes)
    (named : a.takenNode p .useAfterRelease = .error panic) :
    usedNode p a = ⟨.error panic, a, panic.records⟩ := by
  rw [usedNode, Op.bind_of_ok (Op.inspect_of_ok sound.ensureLive), inspect_of_misused named]
  rfl

theorem editPayload_eq (sound : Sound a nodes)
    (named : a.takenNode p .useAfterRelease = .ok node) (f : ByteArray → ByteArray) :
    editPayload p f a = ⟨.ok (), { a with
      buffer := a.buffer.put node.address (Bytes.fitted (node.size - headerSize)
        (f (a.buffer.slice node.address node.stop))) }, []⟩ := by
  rw [editPayload, Op.bind_of_ok (usedNode_eq sound named)]
  rfl

/-- A write replaces the bytes of its block, and no others. -/
theorem editPayload_trades (sound : Sound a nodes)
    (named : a.takenNode p .useAfterRelease = .ok node)
    (perm : (taken nodes).Perm (node :: rest)) (f : ByteArray → ByteArray) :
    (editPayload p f a).value = .ok () ∧ Sound (editPayload p f a).state nodes ∧
      Trades nodes [node] [node] rest a (editPayload p f a).state ∧
      (editPayload p f a).state.buffer.slice node.address node.stop =
        Bytes.fitted (node.size - headerSize) (f (a.buffer.slice node.address node.stop)) := by
  obtain ⟨mem, allocated, -⟩ := takenNode_spec sound named
  obtain ⟨-, -, h8, -, hstop⟩ := sound.tiles.bounds mem
  have fills : node.address + (node.size - headerSize) = node.stop := by
    simp only [Node.address, Node.stop, headerSize]
    omega
  rw [editPayload_eq sound named]
  obtain ⟨bytes, hbytes⟩ : ∃ bytes, bytes = Bytes.fitted (node.size - headerSize)
    (f (a.buffer.slice node.address node.stop)) := ⟨_, rfl⟩
  have size : bytes.size = node.size - headerSize := by rw [hbytes, Bytes.size_fitted]
  rw [← hbytes]
  obtain ⟨trades, sound'⟩ := put_trades sound mem allocated perm (Nat.le_refl _)
    (show node.address + bytes.size ≤ node.stop by omega)
  have read := a.buffer.slice_put
    (show node.address + bytes.size ≤ a.buffer.len by rw [← len_eq]; omega)
  rw [size, fills] at read
  exact ⟨rfl, sound', trades, read⟩

theorem payload_eq (sound : Sound a nodes) (named : a.takenNode p .useAfterRelease = .ok node) :
    payload p a = ⟨.ok (a.buffer.slice node.address node.stop), a, []⟩ := by
  rw [payload, Op.bind_of_ok (usedNode_eq sound named)]
  rfl

theorem nodes_of_run {available : Nat} (sound : Sound a (pre ++ node :: post))
    (run : available = node.size + span (post.takeWhile Node.isFree)) :
    (a.withHeader node.offset (.free available)).nodes =
      .ok (pre ++ ⟨node.offset, available, false⟩ :: post.dropWhile Node.isFree) := by
  have nodes := sound.nodes
  rw [← List.takeWhile_append_dropWhile (p := Node.isFree) (l := post)] at nodes
  rw [run]
  exact nodes_merge nodes

/-- A resize that the free nodes behind a block serve stays where it is. -/
theorem resize_in_place {available need : Nat} (sound : Sound a (pre ++ node :: post))
    (named : a.takenNode p .doubleRelease = .ok node)
    (run : available = node.size + span (post.takeWhile Node.isFree))
    (hneed : blockSize n = some need) (fits : need ≤ available) :
    resize p n a = ⟨.ok (some ⟨node.address, Nat.succ_pos _⟩),
      (a.withHeader node.offset (.free available)).split node.offset available need,
      [.resizedInPlace n node.offset]⟩ := by
  obtain ⟨tiles, held⟩ := Buffer.nodes_eq_ok_iff.mp sound.nodes
  obtain ⟨left, h8, hmod, right⟩ := tiles.around
  have walk := Buffer.freeRun_eq right fun m mem => held m (by simp [mem])
  rw [← run] at walk
  have looked : Op.inspect (fun a => a.buffer.freeRun node.offset node.size) a =
      ⟨.ok available, a, []⟩ := Op.inspect_of_ok walk
  have merged := nodes_of_run sound run
  obtain ⟨-, held'⟩ := Buffer.nodes_eq_ok_iff.mp merged
  have header := held' ⟨node.offset, available, false⟩ (by simp)
  rw [resize, Op.bind_of_ok (Op.inspect_of_ok sound.ensureLive),
    Op.bind_of_ok (inspect_of_named named), Op.bind_of_ok looked, hneed, Option.filter_some,
    if_pos (by simpa using fits)]
  have taking := takeNode_eq header fits
  simp only [Op.bind_run, Op.modify, Op.log, taking]
  rfl

theorem resize_in_place_trades {available need : Nat} (sound : Sound a (pre ++ node :: post))
    (allocated : node.allocated = true)
    (perm : (taken (pre ++ node :: post)).Perm (node :: rest))
    (run : available = node.size + span (post.takeWhile Node.isFree)) (h8 : 8 ≤ need)
    (hmod : need % 8 = 0) (fits : need ≤ available) :
    Trades (pre ++ node :: post) [node] [⟨node.offset, need, true⟩] rest a
        ((a.withHeader node.offset (.free available)).split node.offset available need) ∧
      a.buffer.Agree ((a.withHeader node.offset (.free available)).split node.offset available
        need).buffer node.address (node.offset + need) := by
  have merged := nodes_of_run sound run
  obtain ⟨a', ha'⟩ : ∃ a', a' = a.withHeader node.offset (.free available) := ⟨_, rfl⟩
  rw [← ha'] at merged ⊢
  have header : ∀ lo hi, hi ≤ node.offset ∨ node.offset + 8 ≤ lo →
      a.buffer.Agree a'.buffer lo hi := fun lo hi apart => by
    rw [ha']
    exact agree_merge sound.nodes apart
  have apart8 : node.offset + 8 ≤ node.stop := by
    have := sound.tiles.around.2.1
    simp only [Node.stop]
    omega
  -- the free nodes behind the block are merged into it, and then what is too much is cut off
  have first : Keeps (pre ++ post) a a' := by
    rw [ha']
    refine .of_node sound.nodes rfl rfl rfl (Buffer.len_setHeader ..) fun lo hi apart => ?_
    rw [ha'] at header
    exact header lo hi (by omega)
  obtain ⟨kind, poison, live⟩ := a'.split_leaves node.offset available need
  have second : Keeps (pre ++ post.dropWhile Node.isFree) a'
      (a'.split node.offset available need) := by
    refine .of_node merged kind poison live (len_split ..) fun lo hi apart => ?_
    simp only [Node.stop] at apart
    exact agree_split merged hmod (by simp only; omega) (by simp only [Node.stop]; omega)
  have still : taken (pre ++ post.dropWhile Node.isFree) = taken (pre ++ post) := by
    rw [taken_append, taken_append, taken_dropWhile]
  have keeps := (first.trans second still).of_perm allocated perm
  have nodes := nodes_split merged h8 hmod fits
  refine ⟨⟨perm, keeps, _, ⟨keeps.live.trans sound.live, ?_, nodes⟩, ?_⟩, ?_⟩
  · rw [cursor_split]
    exact ⟨⟨node.offset, need, true⟩, by simp [carve], rfl⟩
  · rw [taken_append, taken_append, taken_carve, taken_dropWhile]
    have beside := ((perm_around allocated).symm.trans perm).cons_inv
    rw [taken_append] at beside
    exact List.perm_middle.trans (beside.cons _)
  · refine (header _ _ (.inr (Nat.le_refl _))).trans ?_
    exact agree_split merged hmod (.inr (Nat.le_refl _)) (.inl (Nat.le_refl _))

/-- When the free nodes behind a block do not serve a resize, a request for memory decides. -/
theorem resize_elsewhere {available : Nat} (sound : Sound a (pre ++ node :: post))
    (named : a.takenNode p .doubleRelease = .ok node)
    (run : available = node.size + span (post.takeWhile Node.isFree))
    (short : (blockSize n).filter (· ≤ available) = none) :
    resize p n a =
      (do
        match ← grab n with
        | none => return none
        | some q =>
          copyBytes p.addr (min (node.size - headerSize) n) q.addr
          release p
          Op.log (.resizedMoved n node.offset q)
          return some q : Op Arena (Option Ptr)) a := by
  obtain ⟨tiles, held⟩ := Buffer.nodes_eq_ok_iff.mp sound.nodes
  have walk := Buffer.freeRun_eq tiles.around.2.2.2 fun m mem => held m (by simp [mem])
  rw [← run] at walk
  have looked : Op.inspect (fun a => a.buffer.freeRun node.offset node.size) a =
      ⟨.ok available, a, []⟩ := Op.inspect_of_ok walk
  rw [resize, Op.bind_of_ok (Op.inspect_of_ok sound.ensureLive),
    Op.bind_of_ok (inspect_of_named named), Op.bind_of_ok looked, short]
  rfl

theorem resize_of_error {panic : Panic} (sound : Sound a nodes)
    (named : a.takenNode p .doubleRelease = .error panic) :
    resize p n a = ⟨.error panic, a, panic.records⟩ := by
  rw [resize, Op.bind_of_ok (Op.inspect_of_ok sound.ensureLive),
    Op.bind_of_error (inspect_of_misused named)]
  rfl

theorem copyBytes_eq {source count target : Nat} (from_fits : source + count ≤ a.len)
    (to_fits : target + count ≤ a.len) :
    copyBytes source count target a =
      ⟨.ok (), { a with
        buffer := a.buffer.put target (a.buffer.slice source (source + count)) }, []⟩ := by
  rw [copyBytes, Op.bind_of_ok (show Op.read Arena.len a = ⟨.ok a.len, a, []⟩ from rfl),
    if_neg (by omega), if_neg (by omega)]
  rfl

/-- A block that is added stands beside those that were handed out before. -/
theorem Trades.beside {new : Node} (placed : Trades nodes [] [new] (taken nodes) a a')
    (mem : node ∈ nodes) (allocated : node.allocated = true) :
    ∃ nodes', a'.Sound nodes' ∧ (taken nodes').Perm (new :: taken nodes) ∧ node ∈ nodes' ∧
      new ∈ nodes' := by
  obtain ⟨-, -, nodes', sound, perm⟩ := placed
  rw [List.singleton_append] at perm
  have old := perm.mem_iff.mpr (List.mem_cons_of_mem new (mem_taken.mpr ⟨mem, allocated⟩))
  have added := perm.mem_iff.mpr List.mem_cons_self
  exact ⟨nodes', sound, perm, (mem_taken.mp old).1, (mem_taken.mp added).1⟩

/-- A block that is added is none of those that were handed out before. -/
theorem Sound.address_ne {new : Node} (sound : Sound a nodes) (perm : (taken nodes).Perm (new :: rest))
    (mem : node ∈ rest) : new.address ≠ node.address := by
  intro same
  have added := (mem_taken.mp (perm.mem_iff.mpr List.mem_cons_self)).1
  have old := (mem_taken.mp (perm.mem_iff.mpr (List.mem_cons_of_mem _ mem))).1
  have distinct := perm.nodup_iff.mp (sound.tiles.nodup.filter _)
  refine (List.nodup_cons.mp distinct).1 ?_
  rwa [sound.tiles.eq_of_offset old added (Nat.add_right_cancel same)]

/-- What a move copies lies in the old block and fits the new one. -/
theorem move_fits {new : Node} (sound : Sound a nodes) (old : node ∈ nodes) (added : new ∈ nodes)
    (hneed : blockSize n = some new.size) :
    node.address + min (node.size - headerSize) n ≤ a.len ∧
      new.address + min (node.size - headerSize) n ≤ new.stop ∧ new.stop ≤ a.len := by
  obtain ⟨h16, -, hn⟩ := blockSize_bounds hneed
  have old_fits := sound.tiles.bounds old
  have new_fits := sound.tiles.bounds added
  simp only [Node.stop, Node.address, headerSize] at *
  omega

/-- The arena once the bytes that a move takes along are in the new block. -/
def copied (node new : Node) (n : Nat) (a : Arena) : Arena :=
  { a with
    buffer := a.buffer.put new.address
      (a.buffer.slice node.address (node.address + min (node.size - headerSize) n)) }

@[simp] theorem cursor_copied (node new : Node) (n : Nat) (a : Arena) :
    (copied node new n a).cursor = a.cursor := by
  simp only [copied]

theorem sound_copied {new : Node} (sound : Sound a nodes) (old : node ∈ nodes) (added : new ∈ nodes)
    (hneed : blockSize n = some new.size) : Sound (copied node new n a) nodes := by
  have fits := move_fits sound old added hneed
  obtain ⟨src, hsrc⟩ : ∃ src, src =
    a.buffer.slice node.address (node.address + min (node.size - headerSize) n) := ⟨_, rfl⟩
  have room : new.address + src.size ≤ new.stop := by
    rw [hsrc, Buffer.size_slice _ fits.1]
    omega
  rw [copied, ← hsrc]
  obtain ⟨pre, post, rfl⟩ := List.append_of_mem added
  exact ⟨sound.live, sound.cursor, Buffer.nodes_put sound.nodes (Nat.le_refl _) room⟩

/-- A move copies the bytes that fit, and then gives the old block back. -/
theorem move_eq {new : Node} (sound : Sound a nodes)
    (named : a.takenNode p .doubleRelease = .ok node) (added : new ∈ nodes)
    (hneed : blockSize n = some new.size) :
    (do
      copyBytes p.addr (min (node.size - headerSize) n) new.address
      release p
      Op.log (.resizedMoved n node.offset ⟨new.address, Nat.succ_pos _⟩)
      return some ⟨new.address, Nat.succ_pos _⟩ : Op Arena (Option Ptr)) a =
      ⟨.ok (some ⟨new.address, Nat.succ_pos _⟩), (copied node new n a).freeNode node,
        [.released node.offset node.size,
          .resizedMoved n node.offset ⟨new.address, Nat.succ_pos _⟩]⟩ := by
  obtain ⟨old, allocated, here⟩ := (takenNode_eq_ok_iff sound.nodes).mp named
  obtain ⟨source, target, inside⟩ := move_fits sound old added hneed
  have sound' := sound_copied sound old added hneed
  have named' : (copied node new n a).takenNode p .doubleRelease = .ok node :=
    (takenNode_eq_ok_iff sound'.nodes).mpr ⟨old, allocated, here⟩
  have copying : copyBytes node.address (min (node.size - headerSize) n) new.address a =
      ⟨.ok (), copied node new n a, []⟩ := copyBytes_eq source (target.trans inside)
  rw [← here, Op.bind_of_ok copying, Op.bind_of_ok (release_eq sound' named')]
  rfl

/-- A resize that moves a block: the new block takes over the bytes that fit, and the old one is
given back. -/
theorem move_trades {need : Nat} {new : Node} (mem : node ∈ nodes)
    (allocated : node.allocated = true) (here : node.address = p.addr)
    (perm : (taken nodes).Perm (node :: rest)) (hneed : blockSize n = some need)
    (size : new.size = need) (taken_new : new.allocated = true)
    (placed : Trades nodes [] [new] (taken nodes) a a') :
    ∃ a'' records', (do
          copyBytes p.addr (min (node.size - headerSize) n) new.address
          release p
          Op.log (.resizedMoved n node.offset ⟨new.address, Nat.succ_pos _⟩)
          return some ⟨new.address, Nat.succ_pos _⟩ : Op Arena (Option Ptr)) a' =
        ⟨.ok (some ⟨new.address, Nat.succ_pos _⟩), a'', records'⟩ ∧
      Trades nodes [node] [new] rest a a'' ∧
      ∀ i < min (node.size - headerSize) n,
        a''.buffer.byte (new.address + i) = a.buffer.byte (node.address + i) := by
  obtain ⟨nodes', sound', perm', old, added⟩ := placed.beside mem allocated
  have keeps := placed.keeps
  have hneed : blockSize n = some new.size := size ▸ hneed
  have fits := move_fits sound' old added hneed
  have moving := move_eq sound' ((takenNode_eq_ok_iff sound'.nodes).mpr ⟨old, allocated, here⟩)
    added hneed
  have sound'' := sound_copied sound' old added hneed
  obtain ⟨count, hcount⟩ : ∃ count, count = min (node.size - headerSize) n := ⟨_, rfl⟩
  obtain ⟨src, hsrc⟩ : ∃ src, src = a'.buffer.slice node.address (node.address + count) := ⟨_, rfl⟩
  obtain ⟨b, hb⟩ : ∃ b, b = copied node new n a' := ⟨_, rfl⟩
  rw [← hb] at moving sound''
  rw [← hcount] at fits ⊢
  have hsize : src.size = count := by
    rw [hsrc, Buffer.size_slice _ fits.1]
    omega
  have writes : b = { a' with buffer := a'.buffer.put new.address src } := by
    rw [hb, hsrc, hcount, copied]
  -- first the bytes are copied, then the old block is given back
  obtain ⟨copied, -⟩ := put_trades sound' added taken_new perm' (Nat.le_refl _)
    (show new.address + src.size ≤ new.stop by omega)
  rw [← writes] at copied
  have freed := freeNode_trades sound'' old allocated
    (perm'.trans ((perm.cons new).trans (.swap ..)))
  rw [← hcount] at moving
  refine ⟨b.freeNode node, _, moving, ⟨perm, ?_, freed.after⟩, fun i hi => ?_⟩
  · have until_freed : Keeps rest a b := (keeps.trans copied.keeps rfl).mono fun m mem =>
      mem_taken.mpr ⟨perm.mem_iff.mpr (List.mem_cons_of_mem _ (mem_taken.mp mem).1),
        (mem_taken.mp mem).2⟩
    exact until_freed.trans (freed.keeps.mono fun m mem => mem_taken.mpr
      ⟨List.mem_cons_of_mem _ (mem_taken.mp mem).1, (mem_taken.mp mem).2⟩) rfl
  · have still := freed.keeps.bytes new (mem_taken.mpr ⟨List.mem_cons_self, taken_new⟩)
    have first := keeps.bytes node (mem_taken.mpr ⟨mem_taken.mpr ⟨mem, allocated⟩, allocated⟩)
    have read := Buffer.getElem?_slice a'.buffer fits.1
      (show node.address + i < node.address + count by omega)
    have inside : node.address + i < node.stop := by
      simp only [Node.address, Node.stop, headerSize] at *
      omega
    rw [← hsrc] at read
    calc (b.freeNode node).buffer.byte (new.address + i)
        = b.buffer.byte (new.address + i) :=
          still _ (by simp only [Node.address]; omega) (by omega)
      _ = a'.buffer.byte (node.address + i) := by
          rw [writes, Buffer.byte_put _ _ _ _ (by rw [← len_eq]; omega), if_pos (by omega),
            Nat.add_sub_cancel_left, read]
          rfl
      _ = a.buffer.byte (node.address + i) :=
          first _ (by simp only [Node.address]; omega) inside

/-- A resize leaves all as it is, or gives a block of the size asked for that begins with the bytes
of the old one. -/
theorem resize_trades (sound : Sound a nodes) (named : a.takenNode p .doubleRelease = .ok node)
    (perm : (taken nodes).Perm (node :: rest)) (n : Nat) :
    (resize p n a).value = .ok none ∧
      Trades nodes [] [] (taken nodes) a (resize p n a).state ∨
    ∃ need new, blockSize n = some need ∧ new.size = need ∧ new.allocated = true ∧
      (resize p n a).value = .ok (some ⟨new.address, Nat.succ_pos _⟩) ∧
      Trades nodes [node] [new] rest a (resize p n a).state ∧
      ∀ i < min (node.size - headerSize) n,
        (resize p n a).state.buffer.byte (new.address + i) =
          a.buffer.byte (node.address + i) := by
  obtain ⟨mem, allocated, here⟩ := (takenNode_eq_ok_iff sound.nodes).mp named
  obtain ⟨pre, post, rfl, -, -⟩ := sound.around mem
  obtain ⟨available, run⟩ : ∃ available,
    available = node.size + span (post.takeWhile Node.isFree) := ⟨_, rfl⟩
  cases hneed : (blockSize n).filter (· ≤ available) with
  | some need =>
    obtain ⟨hneed, fits⟩ := Option.filter_eq_some_iff.mp hneed
    have fits : need ≤ available := by simpa using fits
    obtain ⟨h16, hmod, hn⟩ := blockSize_bounds hneed
    obtain ⟨trades, bytes⟩ :=
      resize_in_place_trades sound allocated perm run (by omega) hmod fits
    rw [resize_in_place sound named run hneed fits]
    refine .inr ⟨need, ⟨node.offset, need, true⟩, hneed, rfl, rfl, rfl, trades, fun i hi => ?_⟩
    exact bytes _ (Nat.le_add_right ..) (by simp only [Node.address, headerSize]; omega)
  | none =>
    rw [resize_elsewhere sound named run hneed]
    rcases grab_trades sound n with
      ⟨value, same⟩ | ⟨need, new, hsize, size, taken_new, value, placed⟩
    · rw [Op.bind_of_ok (show grab n a = ⟨.ok none, _, _⟩ from by rw [← value])]
      exact .inl ⟨rfl, same⟩
    · obtain ⟨a', records, moving, trades, bytes⟩ :=
        move_trades mem allocated here perm hsize size taken_new placed
      rw [Op.bind_of_ok (show grab n a = ⟨.ok (some _), _, _⟩ from by rw [← value])]
      simp only [moving]
      exact .inr ⟨need, new, hsize, size, taken_new, rfl, trades, bytes⟩

end MemoryTrial.Arena
