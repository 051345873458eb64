import MemoryTrial.Proofs.Arena.History

/-! The layout of an arena does not depend on the bytes in its memory.  Two arenas of one size are led
through the same requests, but what is written into their blocks differs, as may their first bytes
and whether they fill released memory.  Their layouts stay equal (`Alike`), and so do the answers:
every walk goes by headers alone, and no payload ever becomes one. -/

namespace MemoryTrial

/-- The same request, but for the bytes that are written. -/
inductive Request.Paired : {α : Type} → Request α → Request α → Prop
  | same {α : Type} (r : Request α) : Paired r r
  | edit (p : Ptr) (f f' : ByteArray → ByteArray) : Paired (.edit p f) (.edit p f')

/-- The same answer, but for the bytes that are read. -/
def Request.Agree : {α : Type} → Request α → Except Panic α → Except Panic α → Prop
  | _, .payload _, x, x' => x.map ByteArray.size = x'.map ByteArray.size
  | _, _, x, x' => x = x'

namespace Arena

variable {a a' : Arena} {nodes pre post run : List Node} {node : Node} {p : Ptr} {n need : Nat}
  {α β : Type}

/-- Two arenas with one layout. -/
structure Alike (a a' : Arena) : Prop where
  len : a.len = a'.len
  live : a.live = a'.live
  cursor : a.cursor = a'.cursor
  nodes : a.nodes = a'.nodes

/-- Two results with one answer and one layout. -/
structure Matches (r r' : Result Arena α) : Prop where
  value : r.value = r'.value
  state : Alike r.state r'.state

theorem Matches.bind {x : Op Arena α} {f : α → Op Arena β} (first : Matches (x a) (x a'))
    (next : ∀ v, (x a).value = .ok v → Matches (f v (x a).state) (f v (x a').state)) :
    Matches ((x >>= f) a) ((x >>= f) a') := by
  rcases hx : x a with ⟨value, b, records⟩
  rcases hx' : x a' with ⟨value', b', records'⟩
  rw [hx, hx'] at first next
  obtain ⟨rfl, state⟩ : value = value' ∧ Alike b b' := ⟨first.value, first.state⟩
  cases value with
  | error panic =>
    rw [Op.bind_of_error hx, Op.bind_of_error hx']
    exact ⟨rfl, state⟩
  | ok v =>
    rw [Op.bind_of_ok hx, Op.bind_of_ok hx']
    exact ⟨(next v rfl).value, (next v rfl).state⟩

namespace Alike

theorem sound (h : Alike a a') (sound : a.Sound nodes) : a'.Sound nodes := by
  obtain ⟨live, cursor, held⟩ := sound
  refine ⟨?_, ?_, ?_⟩
  · rw [← h.live]
    exact live
  · rw [← h.cursor]
    exact cursor
  · rw [← h.nodes]
    exact held

section Edits

variable (h : Alike a a')
include h

theorem successor (offset size : Nat) : a.successor offset size = a'.successor offset size := by
  rw [Arena.successor, Arena.successor, h.len]

theorem pass (held : a.nodes = .ok (pre ++ node :: (run ++ post))) (free : node.allocated = false) :
    Alike (a.pass node.offset node.size (node.size + span run))
      (a'.pass node.offset node.size (node.size + span run)) := by
  have held' := h.nodes.symm.trans held
  refine ⟨?_, ?_, ?_, ?_⟩
  · rw [len_pass, len_pass, h.len]
  · unfold Arena.pass
    split
    next => exact h.live
    next => exact h.live
  · unfold Arena.pass
    split
    next => exact h.cursor
    next =>
      simp only [merge, h.cursor, h.successor]
  · rw [nodes_pass held free, nodes_pass held' free]

theorem split (held : a.nodes = .ok (pre ++ node :: post)) (h8 : 8 ≤ need) (hmod : need % 8 = 0)
    (fits : need ≤ node.size) :
    Alike (a.split node.offset node.size need) (a'.split node.offset node.size need) := by
  have held' := h.nodes.symm.trans held
  refine ⟨?_, ?_, ?_, ?_⟩
  · rw [len_split, len_split, h.len]
  · rw [(split_leaves ..).2.2, (split_leaves ..).2.2, h.live]
  · rw [cursor_split, cursor_split]
  · rw [nodes_split held h8 hmod fits, nodes_split held' h8 hmod fits]

theorem freeNode (held : a.nodes = .ok (pre ++ node :: post)) :
    Alike (a.freeNode node) (a'.freeNode node) := by
  have held' := h.nodes.symm.trans held
  refine ⟨?_, ?_, ?_, ?_⟩
  · rw [len_freeNode, len_freeNode, h.len]
  · rw [(freeNode_leaves ..).2.2, (freeNode_leaves ..).2.2, h.live]
  · rw [cursor_freeNode, cursor_freeNode, h.cursor]
  · rw [nodes_freeNode held, nodes_freeNode held']

theorem put {start : Nat} {src src' : ByteArray} (held : a.nodes = .ok (pre ++ node :: post))
    (lo : node.address ≤ start) (hi : start + src.size ≤ node.stop)
    (hi' : start + src'.size ≤ node.stop) :
    Alike { a with buffer := a.buffer.put start src } { a' with buffer := a'.buffer.put start src' } := by
  have held' := h.nodes.symm.trans held
  refine ⟨?_, h.live, h.cursor, ?_⟩
  · rw [len_eq, len_eq, Buffer.len_put, Buffer.len_put]
    exact h.len
  · exact (Buffer.nodes_put held lo hi).trans (Buffer.nodes_put held' lo hi').symm

end Edits

end Alike

theorem place_matches (n : Nat) (h : Alike a a') (held : a.nodes = .ok (pre ++ node :: post))
    (h8 : 8 ≤ need) (hmod : need % 8 = 0) (fits : need ≤ node.size) :
    Matches (place n need node.offset a) (place n need node.offset a') := by
  have held' := h.nodes.symm.trans held
  have header := (Buffer.nodes_eq_ok_iff.mp held).2 node (by simp)
  have header' := (Buffer.nodes_eq_ok_iff.mp held').2 node (by simp)
  rw [place_eq n header fits, place_eq n header' fits]
  exact ⟨rfl, h.split held h8 hmod fits⟩

/-- A search takes the same way through arenas with one layout. -/
theorem search_matches (n : Nat) (h8 : 8 ≤ need) (hmod : need % 8 = 0) {walked : Nat}
    (h : Alike a a') (held : a.nodes = .ok nodes) (mem : node ∈ nodes) :
    Matches (search a.len n need node.offset walked a)
      (search a'.len n need node.offset walked a') := by
  -- what is left of the round gets shorter with each node
  induction left : a.len - walked using Nat.strongRecOn generalizing a a' nodes node walked with
  | _ left ih =>
    have held' := h.nodes.symm.trans held
    by_cases done : a.len ≤ walked
    · rw [search_done n need done, search_done n need (h.len ▸ done)]
      exact ⟨rfl, h⟩
    obtain ⟨pre, rest, rfl⟩ := List.append_of_mem mem
    obtain ⟨tiles, headers⟩ := Buffer.nodes_eq_ok_iff.mp held
    have headers' := (Buffer.nodes_eq_ok_iff.mp held').2
    have size := tiles.around.2.1
    by_cases free : node.allocated = false
    · obtain ⟨merged, sum⟩ : ∃ merged, merged =
        node.size + span (rest.takeWhile Node.isFree) := ⟨_, rfl⟩
      obtain ⟨passed, -, records, step⟩ :=
        search_run n need held free (show walked < a.len by omega) sum
      obtain ⟨-, -, records', step'⟩ :=
        search_run n need held' free (show walked < a'.len by rw [← h.len]; omega) sum
      have next : Alike (a.pass node.offset node.size merged)
          (a'.pass node.offset node.size merged) := by
        rw [sum]
        rw [← List.takeWhile_append_dropWhile (p := Node.isFree) (l := rest)] at held
        exact h.pass held free
      rw [step, step']
      by_cases fits : need ≤ merged
      · rw [if_pos fits, if_pos fits]
        have placed := place_matches n next passed h8 hmod fits
        exact ⟨placed.value, placed.state⟩
      · rw [if_neg fits, if_neg fits, ← h.len]
        have tiles' := (Buffer.nodes_eq_ok_iff.mp passed).1
        obtain ⟨m, mem, here⟩ := wrap_boundary tiles'
        rw [len_pass] at here
        have again := ih (a.len - (walked + merged)) (by omega) next passed mem (by rw [len_pass])
        rw [here, len_pass, len_pass, ← h.len] at again
        obtain ⟨value, state⟩ := again
        exact ⟨value, state⟩
    · have taken : node.allocated = true := by simpa using free
      have header := headers node (by simp)
      have header' := headers' node (by simp)
      rw [search_of_taken n need (by omega) header taken,
        search_of_taken n need (by rw [← h.len]; omega) header' taken, ← h.successor,
        successor_eq]
      obtain ⟨m, mem, here⟩ := wrap_boundary tiles
      have again := ih (a.len - (walked + node.size)) (by omega) h held mem rfl
      rw [here] at again
      exact again

theorem grab_matches (h : Alike a a') (sound : a.Sound nodes) (n : Nat) :
    Matches (grab n a) (grab n a') := by
  rw [grab_eq sound, grab_eq (h.sound sound), ← h.len]
  cases hneed : (blockSize n).filter (· ≤ a.len) with
  | none => exact ⟨rfl, h⟩
  | some need =>
    obtain ⟨size, -⟩ := Option.filter_eq_some_iff.mp hneed
    obtain ⟨h16, hmod, -⟩ := blockSize_bounds size
    obtain ⟨node, mem, here⟩ := sound.cursor
    rw [← h.cursor, ← here]
    have found : Matches (search a.len n need node.offset 0 a)
        (search a'.len n need node.offset 0 a') :=
      search_matches n (by omega) hmod h sound.nodes mem
    rw [← h.len] at found
    exact found

section Named

variable (h : Alike a a') (sound : a.Sound nodes)
include h sound

/-- What a pointer names is read off the layout. -/
theorem takenNode_alike (p : Ptr) (misuse : Ptr → Violation) :
    a.takenNode p misuse = a'.takenNode p misuse := by
  rw [takenNode_eq sound.nodes, takenNode_eq (h.sound sound).nodes, h.len]

theorem release_matches (p : Ptr) : Matches (release p a) (release p a') := by
  have same := takenNode_alike h sound p .doubleRelease
  cases named : a.takenNode p .doubleRelease with
  | error panic =>
    rw [release_of_error sound named, release_of_error (h.sound sound) (same ▸ named)]
    exact ⟨rfl, h⟩
  | ok node =>
    rw [release_eq sound named, release_eq (h.sound sound) (same ▸ named)]
    obtain ⟨mem, -, -⟩ := takenNode_spec sound named
    obtain ⟨pre, post, rfl⟩ := List.append_of_mem mem
    exact ⟨rfl, h.freeNode sound.nodes⟩

theorem edit_matches (p : Ptr) (f f' : ByteArray → ByteArray) :
    Matches (editPayload p f a) (editPayload p f' a') := by
  have same := takenNode_alike h sound p .useAfterRelease
  cases named : a.takenNode p .useAfterRelease with
  | error panic =>
    rw [editPayload, editPayload, Op.bind_of_error (usedNode_of_error sound named),
      Op.bind_of_error (usedNode_of_error (h.sound sound) (same ▸ named))]
    exact ⟨rfl, h⟩
  | ok node =>
    rw [editPayload_eq sound named, editPayload_eq (h.sound sound) (same ▸ named)]
    obtain ⟨mem, -, -⟩ := takenNode_spec sound named
    have h8 := (sound.tiles.bounds mem).2.2.1
    obtain ⟨pre, post, rfl⟩ := List.append_of_mem mem
    -- the bytes that are written are cut to the block
    have fills (bytes : ByteArray) :
        node.address + (Bytes.fitted (node.size - headerSize) bytes).size ≤ node.stop := by
      rw [Bytes.size_fitted]
      simp only [Node.address, Node.stop, headerSize]
      omega
    exact ⟨rfl, h.put sound.nodes (Nat.le_refl _) (fills _) (fills _)⟩

theorem payload_agree (p : Ptr) :
    (payload p a).value.map ByteArray.size = (payload p a').value.map ByteArray.size ∧
      (payload p a).state = a ∧ (payload p a').state = a' := by
  have same := takenNode_alike h sound p .useAfterRelease
  cases named : a.takenNode p .useAfterRelease with
  | error panic =>
    rw [payload, Op.bind_of_error (usedNode_of_error sound named),
      Op.bind_of_error (usedNode_of_error (h.sound sound) (same ▸ named))]
    exact ⟨rfl, rfl, rfl⟩
  | ok node =>
    rw [payload_eq sound named, payload_eq (h.sound sound) (same ▸ named)]
    obtain ⟨mem, -, -⟩ := takenNode_spec sound named
    have inside := (sound.tiles.bounds mem).2.2.2.2
    have sizes : (a.buffer.slice node.address node.stop).size =
        (a'.buffer.slice node.address node.stop).size := by
      rw [Buffer.size_slice _ (by rw [← len_eq]; exact inside),
        Buffer.size_slice _ (by rw [← len_eq, ← h.len]; exact inside)]
    exact ⟨congrArg Except.ok sizes, rfl, rfl⟩

theorem resize_in_place_matches {available : Nat} (hnodes : nodes = pre ++ node :: post)
    (named : a.takenNode p .doubleRelease = .ok node)
    (run : available = node.size + span (post.takeWhile Node.isFree))
    (hneed : blockSize n = some need) (fits : need ≤ available) :
    Matches (resize p n a) (resize p n a') := by
  subst hnodes
  have sound' := h.sound sound
  have same := takenNode_alike h sound p .doubleRelease
  obtain ⟨h16, hmod, -⟩ := blockSize_bounds hneed
  have merged := nodes_of_run sound run
  have merged' := nodes_of_run sound' run
  -- first the whole run is marked as free, then the block is cut from it
  have marked : Alike (a.withHeader node.offset (.free available))
      (a'.withHeader node.offset (.free available)) := by
    refine ⟨?_, h.live, h.cursor, merged.trans merged'.symm⟩
    rw [len_eq, len_eq, withHeader, withHeader, Buffer.len_setHeader, Buffer.len_setHeader]
    exact h.len
  rw [resize_in_place sound named run hneed fits,
    resize_in_place sound' (same ▸ named) run hneed fits]
  exact ⟨rfl, marked.split merged (by omega) hmod fits⟩

theorem move_matches {old new : Node} (named : a.takenNode p .doubleRelease = .ok old)
    (added : new ∈ nodes) (hneed : blockSize n = some new.size) :
    Matches
      ((do
        copyBytes p.addr (min (old.size - headerSize) n) new.address
        release p
        Op.log (.resizedMoved n old.offset ⟨new.address, Nat.succ_pos _⟩)
        return some ⟨new.address, Nat.succ_pos _⟩ : Op Arena (Option Ptr)) a)
      ((do
        copyBytes p.addr (min (old.size - headerSize) n) new.address
        release p
        Op.log (.resizedMoved n old.offset ⟨new.address, Nat.succ_pos _⟩)
        return some ⟨new.address, Nat.succ_pos _⟩ : Op Arena (Option Ptr)) a') := by
  have named' := (takenNode_alike h sound p .doubleRelease).symm.trans named
  obtain ⟨mem, -, -⟩ := takenNode_spec sound named
  have fits := move_fits sound mem added hneed
  have fits' := move_fits (h.sound sound) mem added hneed
  have copied : Alike (copied old new n a) (copied old new n a') := by
    obtain ⟨pre, post, rfl⟩ := List.append_of_mem added
    refine h.put sound.nodes (Nat.le_refl _) ?_ ?_
    · rw [Buffer.size_slice _ fits.1]
      omega
    · rw [Buffer.size_slice _ fits'.1]
      omega
  have sound' := sound_copied sound mem added hneed
  rw [move_eq sound named added hneed, move_eq (h.sound sound) named' added hneed]
  obtain ⟨pre, post, rfl⟩ := List.append_of_mem mem
  exact ⟨rfl, copied.freeNode sound'.nodes⟩

theorem resize_matches (p : Ptr) (n : Nat) : Matches (resize p n a) (resize p n a') := by
  have same := takenNode_alike h sound p .doubleRelease
  cases named : a.takenNode p .doubleRelease with
  | error panic =>
    rw [resize_of_error sound named, resize_of_error (h.sound sound) (same ▸ named)]
    exact ⟨rfl, h⟩
  | ok node =>
    obtain ⟨mem, allocated, here⟩ := (takenNode_eq_ok_iff sound.nodes).mp named
    obtain ⟨pre, post, rfl⟩ := List.append_of_mem mem
    obtain ⟨available, run⟩ : ∃ available,
      available = node.size + span (post.takeWhile Node.isFree) := ⟨_, rfl⟩
    cases hneed : (blockSize n).filter (· ≤ available) with
    | some need =>
      obtain ⟨hneed, fits⟩ := Option.filter_eq_some_iff.mp hneed
      exact resize_in_place_matches h sound rfl named run hneed (by simpa using fits)
    | none =>
      rw [resize_elsewhere sound named run hneed,
        resize_elsewhere (h.sound sound) (same ▸ named) run hneed]
      have grabbed := grab_matches h sound n
      refine grabbed.bind fun v value => ?_
      rcases grab_trades sound n with
        ⟨refused, -⟩ | ⟨need, new, hneed, rfl, -, served, placed⟩
      · cases value.symm.trans refused
        exact ⟨rfl, grabbed.state⟩
      · cases value.symm.trans served
        obtain ⟨nodes', sound', -, old, added⟩ := placed.beside mem allocated
        have named' : (grab n a).state.takenNode p .doubleRelease = .ok node :=
          (takenNode_eq_ok_iff sound'.nodes).mpr ⟨old, allocated, here⟩
        exact move_matches grabbed.state sound' named' added hneed

end Named

/-- One request leads arenas with one layout to answers that agree and to one layout again. -/
theorem perform_matches (h : Alike a a') (sound : a.Sound nodes) {r r' : Request α}
    (paired : r.Paired r') :
    r.Agree (perform r a).value (perform r' a').value ∧
      Alike (perform r a).state (perform r' a').state := by
  cases paired with
  | edit p f f' =>
    obtain ⟨value, state⟩ := edit_matches h sound p f f'
    exact ⟨value, state⟩
  | same =>
    cases r with
    | grab n => exact ⟨(grab_matches h sound n).value, (grab_matches h sound n).state⟩
    | release p => exact ⟨(release_matches h sound p).value, (release_matches h sound p).state⟩
    | resize p n => exact ⟨(resize_matches h sound p n).value, (resize_matches h sound p n).state⟩
    | edit p f => exact ⟨(edit_matches h sound p f f).value, (edit_matches h sound p f f).state⟩
    | payload p =>
      obtain ⟨sizes, still, still'⟩ := payload_agree h sound p
      refine ⟨sizes, ?_⟩
      rw [perform, still, still']
      exact h

/-- Two arenas of one size that are led through the same requests.  Their first bytes differ, and so
do the bytes that are written into their blocks; each may fill released memory or not. -/
inductive Twins : Arena → Arena → Prop
  | ofBuffer {a a' : Arena} {buffer buffer' : Buffer} {poison poison' : Bool}
      {records records' : List Record} : buffer.len = buffer'.len →
    (ofBuffer buffer poison : Op Unit _) () = ⟨.ok (.ok a), (), records⟩ →
    (ofBuffer buffer' poison' : Op Unit _) () = ⟨.ok (.ok a'), (), records'⟩ → Twins a a'
  | withKind {a a' : Arena} (kind kind' : KindId) :
    Twins a a' → Twins (a.withKind kind) (a'.withKind kind')
  | step {a a' : Arena} {α : Type} {r r' : Request α} :
    r.Paired r' → Twins a a' → Twins (perform r a).state (perform r' a').state

theorem Twins.alike (h : Twins a a') : Alike a a' ∧ ∃ nodes, a.Sound nodes := by
  induction h with
  | ofBuffer len built built' =>
    have sound := ofBuffer_sound built
    have sound' := ofBuffer_sound built'
    obtain ⟨size, -, first⟩ := ofBuffer_len built
    obtain ⟨size', -, first'⟩ := ofBuffer_len built'
    have lens : _ = _ := (size.trans len).trans size'.symm
    refine ⟨⟨lens, sound.live.trans sound'.live.symm, first.trans first'.symm, ?_⟩, _, sound⟩
    rw [sound.nodes, sound'.nodes, lens]
  | withKind kind kind' _ ih =>
    obtain ⟨alike, nodes, sound⟩ := ih
    exact ⟨⟨alike.len, alike.live, alike.cursor, alike.nodes⟩, nodes,
      ⟨sound.live, sound.cursor, sound.nodes⟩⟩
  | step paired _ ih =>
    obtain ⟨alike, nodes, sound⟩ := ih
    obtain ⟨_, _, _, trades, -⟩ := perform_trades sound _
    obtain ⟨nodes', sound', -⟩ := trades.after
    exact ⟨(perform_matches alike sound paired).2, nodes', sound'⟩

/-- What the layout of an arena and its answers show of the bytes in it: nothing. -/
structure Indistinct (a a' : Arena) : Prop where
  cursor : a.cursor = a'.cursor
  tiling : ∃ nodes, a.nodes = .ok nodes ∧ a'.nodes = .ok nodes
  answers : ∀ {α : Type} {r r' : Request α}, r.Paired r' →
    r.Agree (perform r a).value (perform r' a').value

/-- The layout of an arena and its answers do not depend on the contents of its memory. -/
theorem Twins.layout_independent (h : Twins a a') : Indistinct a a' := by
  obtain ⟨alike, nodes, sound⟩ := h.alike
  refine ⟨alike.cursor, ⟨nodes, sound.nodes, (alike.sound sound).nodes⟩, fun paired => ?_⟩
  exact (perform_matches alike sound paired).1

/-- An arena like `smallArena` that fills released memory, over a buffer that was used before. -/
def usedArena : Arena :=
  { kind := defaultKind,
    buffer := ((⟨Bytes.replicate 64 0xab, by simp, by simp [memoryLimit]⟩ : Buffer).fill
      freshPoison).setHeader 0 (.free 64),
    cursor := 0, poison := true, live := true }

/-- An arena after a block was handed out, written to, and given back behind another one. -/
def scribbled (a : Arena) (bytes : ByteArray) : Arena :=
  let first : Ptr := ⟨8, Nat.succ_pos _⟩
  let written := (perform (.edit first fun _ => bytes) (perform (.grab 8) a).state).state
  (perform (.release first) (perform (.grab 20) written).state).state

theorem twins_scribbled (bytes bytes' : ByteArray) :
    Twins (scribbled smallArena bytes) (scribbled usedArena bytes') := by
  have built : (ofBuffer ⟨Bytes.replicate 64 0, by simp, by simp [memoryLimit]⟩ false : Op Unit _) ()
      = ⟨.ok (.ok smallArena), (), [.arenaCreated 64]⟩ := rfl
  have built' :
      (ofBuffer ⟨Bytes.replicate 64 0xab, by simp, by simp [memoryLimit]⟩ true : Op Unit _) ()
      = ⟨.ok (.ok usedArena), (), [.arenaCreated 64]⟩ := rfl
  have len : (⟨Bytes.replicate 64 0, by simp, by simp [memoryLimit]⟩ : Buffer).len =
      (⟨Bytes.replicate 64 0xab, by simp, by simp [memoryLimit]⟩ : Buffer).len := by
    simp [Buffer.len]
  have grabbed := Twins.step (.same (.grab 8)) (.ofBuffer len built built')
  have written := grabbed.step (.edit ⟨8, Nat.succ_pos _⟩ (fun _ => bytes) fun _ => bytes')
  exact (written.step (.same (.grab 20))).step (.same (.release ⟨8, Nat.succ_pos _⟩))

/-- The bytes look like a header in the second arena only. -/
theorem scribbled_layout_independent :
    Indistinct (scribbled smallArena ⟨#[0, 0, 0, 0, 0, 0, 0, 0]⟩)
      (scribbled usedArena ⟨#[17, 0, 0, 0, 0, 0, 0, 0]⟩) :=
  Twins.layout_independent (twins_scribbled _ _)

end Arena

end MemoryTrial
