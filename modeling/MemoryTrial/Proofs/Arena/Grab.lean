import Mathlib.Data.List.Find
import MemoryTrial.Proofs.Arena.Search
import MemoryTrial.Proofs.Arena.Sizes

/-! Requests for memory.  `firstFit` names the free run that serves a request.  `grab_placed` says
that it does, and `grab_refused` that a request is refused when there is none. -/

namespace MemoryTrial.Arena

variable {a a' : Arena} {nodes pre post : List Node} {node : Node} {n need : Nat}

/-- An arena in order, with its nodes: it was not torn down, its nodes tile the buffer, and its cursor
is on one of them. -/
structure Sound (a : Arena) (nodes : List Node) : Prop where
  live : a.live = true
  cursor : ∃ node ∈ nodes, node.offset = a.cursor
  nodes : a.nodes = .ok nodes

namespace Sound

theorem tiles (h : Sound a nodes) : Tiles 0 nodes a.len := (Buffer.nodes_eq_ok_iff.mp h.nodes).1

theorem cursor_lt (h : Sound a nodes) : a.cursor < a.len := by
  obtain ⟨node, mem, here⟩ := h.cursor
  have := h.tiles.bounds mem
  simp only [Node.stop] at this
  omega

theorem ensureLive (h : Sound a nodes) : a.ensureLive = .ok () := if_pos h.live

theorem split (h : Sound a nodes) :
    ∃ front back, nodes = front ++ back ∧ span front = a.cursor ∧
      nodes.dropWhile (fun node => decide (node.offset < a.cursor)) = back := by
  obtain ⟨node, mem, here⟩ := h.cursor
  obtain ⟨front, back, rfl⟩ := List.append_of_mem mem
  obtain ⟨left, h8, -, right⟩ := h.tiles.around
  refine ⟨front, node :: back, rfl, by have := left.span_eq; omega, ?_⟩
  rw [List.dropWhile_append_of_pos, List.dropWhile_cons_of_neg (by simp [here])]
  intro m mem
  have := left.bounds mem
  simp only [Node.stop] at this
  simp only [decide_eq_true_eq]
  omega

end Sound

theorem exists_offset_wrap {stop : Nat} (tiles : Tiles 0 nodes a.len) (pos : 0 < a.len)
    (boundary : stop = a.len ∨ ∃ node ∈ nodes, node.offset = stop) :
    ∃ node ∈ nodes, node.offset = wrap a.len stop := by
  rcases boundary with rfl | ⟨node, mem, here⟩
  · rcases tiles.boundary with none | first
    · omega
    · rw [wrap, if_pos rfl]
      exact first
  · have := tiles.bounds mem
    simp only [Node.stop] at this
    exact ⟨node, mem, by rw [wrap_of_lt (by omega), here]⟩

theorem wrap_boundary (tiles : Tiles 0 (pre ++ node :: post) a.len) :
    ∃ m ∈ pre ++ node :: post, m.offset = wrap a.len node.stop := by
  have right := tiles.around.2.2.2
  have := tiles.bounds (show node ∈ pre ++ node :: post by simp)
  refine exists_offset_wrap tiles (by simp only [Node.stop] at this; omega) ?_
  cases post with
  | nil => exact .inl right
  | cons m rest => exact .inr ⟨m, by simp, right.1⟩

/-- The free run that serves a request for `need` bytes: the first one from the cursor on that
suffices, of a run that spans the cursor the part behind it, and else the first one that begins before
the cursor and suffices. -/
def firstFit (nodes : List Node) (cursor need : Nat) : Option Node :=
  match (fuse (nodes.dropWhile fun node => decide (node.offset < cursor))).find? (·.fits need) with
  | some run => some run
  | none => (fuse nodes).find? fun run => run.fits need && decide (run.offset < cursor)

theorem grab_eq (sound : Sound a nodes) (n : Nat) :
    grab n a =
      match (blockSize n).filter (· ≤ a.len) with
      | some need => search a.len n need a.cursor 0 a
      | none => ⟨.ok none, a, [.grabTooLarge n]⟩ := by
  rw [grab, Op.bind_of_ok (Op.inspect_of_ok sound.ensureLive), Result.after_nil]
  rw [Op.bind_of_ok (show Op.read Arena.len a = ⟨.ok a.len, a, []⟩ from rfl), Result.after_nil]
  cases (blockSize n).filter (· ≤ a.len) <;> rfl

/-- What a refused request leaves: all free neighbours are merged, and a cursor inside a free run is
at its end. -/
structure Refused (nodes : List Node) (a a' : Arena) : Prop where
  keeps : Keeps nodes a a'
  cursor : ∃ stop, a'.cursor = wrap a.len stop ∧ (stop = a.cursor ∨
    ∃ run ∈ fuse nodes, run.allocated = false ∧ run.offset < a.cursor ∧ a.cursor < stop ∧
      run.stop = stop)
  onNode : ∃ node ∈ fuse nodes, node.offset = a'.cursor
  nodes : a'.nodes = .ok (fuse nodes)

theorem Refused.sound (h : Refused nodes a a') (sound : Sound a nodes) : Sound a' (fuse nodes) :=
  ⟨h.keeps.live.trans sound.live, h.onNode, h.nodes⟩

theorem tiles_fuse {start stop : Nat} (tiles : Tiles start nodes stop) :
    Tiles start (fuse nodes) stop := tiles_foldr tiles rfl

theorem firstFit_eq_some {run : Node} (tiles : Tiles 0 nodes a.len) {cursor : Nat}
    (fit : firstFit nodes cursor need = some run) : run.fits need = true ∧ run.stop ≤ a.len := by
  unfold firstFit at fit
  split at fit
  next found =>
    cases fit
    obtain ⟨front, hfront⟩ := List.dropWhile_suffix (fun node => decide (node.offset < cursor))
      (l := nodes)
    rw [← hfront] at tiles
    obtain ⟨-, tiles⟩ := Tiles.append_iff_span.mp tiles
    exact ⟨by simpa using List.find?_some found,
      ((tiles_fuse tiles).bounds (List.mem_of_find?_eq_some found)).2.2.2.2⟩
  next =>
    have hit := List.find?_some fit
    rw [Bool.and_eq_true] at hit
    exact ⟨hit.1, ((tiles_fuse tiles).bounds (List.mem_of_find?_eq_some fit)).2.2.2.2⟩

section Grab

variable (sound : Sound a nodes)
include sound

theorem grab_too_large (h : (blockSize n).filter (· ≤ a.len) = none) :
    grab n a = ⟨.ok none, a, [.grabTooLarge n]⟩ := by
  rw [grab_eq sound, h]

theorem grab_eq_search (hneed : blockSize n = some need) (room : need ≤ a.len) :
    grab n a = search a.len n need a.cursor 0 a := by
  rw [grab_eq sound, hneed, Option.filter_some, if_pos (by simpa using room)]

/-- A search begins with the nodes from the cursor to the end of the buffer. -/
theorem stretch_ahead {front back : List Node} (hnodes : nodes = front ++ back)
    (hfront : span front = a.cursor) : Stretch front back [] a.cursor a.len 0 a := by
  subst hnodes
  have total := sound.tiles.span_eq
  rw [span_append] at total
  exact ⟨by simpa using sound.nodes, List.isChain_nil, hfront.symm, by omega, by omega⟩

/-- When no free run from the cursor on suffices, the nodes before it are left.  The last of their free
runs may reach into the part that is merged already. -/
theorem search_ahead (n : Nat) {front back : List Node} (hnodes : nodes = front ++ back)
    (hfront : span front = a.cursor) (none : ∀ run ∈ fuse back, run.fits need = false) :
    ∃ a' records, search a.len n need a.cursor 0 a =
        .after records (search a.len n need (wrap a.len 0) (a.len - a.cursor) a') ∧
      Stretch [] front (fuse back) 0 a.cursor (a.len - a.cursor) a' ∧ Keeps nodes a a' ∧
      a'.cursor = a.cursor := by
  obtain ⟨stop, a', records, step, passed⟩ :=
    (stretch_ahead sound hnodes hfront).passed n need fun m mem _ => none m mem
  subst hnodes
  have at_end : stop = a.len := by
    rcases passed.boundary with at_end | ⟨m, mem, here⟩
    · exact at_end
    · have tiles := (Buffer.nodes_eq_ok_iff.mp passed.nodes).1
      have := (tiles.bounds mem).2.2.2.2
      have := passed.limit_le
      have len : a'.buffer.len = a.len := passed.keeps.len
      simp only [Node.stop] at *
      omega
  have start : wrap a.len a.len = wrap a.len 0 := by simp [wrap]
  have lt := sound.cursor_lt
  rw [wrap_of_lt lt, Nat.zero_add, at_end, start] at step
  have behind : Stretch [] front (fuse back) 0 a.cursor (a.len - a.cursor) a' :=
    ⟨passed.nodes, fused_fuse back, rfl, by omega, by rw [passed.keeps.len]; omega⟩
  exact ⟨a', records, step, behind, by simpa using passed.keeps, passed.ahead (Nat.le_refl _)⟩

/-- A request that a free run can serve is served by the first fit. -/
theorem grab_placed {run : Node} (hneed : blockSize n = some need)
    (fit : firstFit nodes a.cursor need = some run) : Placed need run nodes a (grab n a) := by
  obtain ⟨h16, hmod, -⟩ := blockSize_bounds hneed
  obtain ⟨hfits, hstop⟩ := firstFit_eq_some sound.tiles fit
  have room : need ≤ a.len := by
    have := (Node.fits_iff.mp hfits).2
    simp only [Node.stop] at hstop
    omega
  obtain ⟨front, back, rfl, hfront, hback⟩ := sound.split
  rw [grab_eq_search sound hneed room]
  rw [firstFit, hback] at fit
  split at fit
  next found =>
    cases fit
    have placed := (stretch_ahead sound rfl hfront).placed (n := n) (by omega) hmod (by
      rw [← found]
      refine List.find?_congr fun m mem => ?_
      have tiles := Tiles.append_iff_span.mp sound.tiles
      have := (tiles_fuse tiles.2).bounds mem
      simp only [Node.stop] at this
      simp only [Bool.and_eq_left_iff_imp, decide_eq_true_eq]
      omega)
    rw [wrap_of_lt sound.cursor_lt, List.append_nil] at placed
    exact placed
  next none =>
    obtain ⟨a', records, step, behind, keeps, cursor⟩ := search_ahead sound n rfl hfront fun m mem =>
      by simpa using List.find?_eq_none.mp none m mem
    have placed := behind.placed (n := n) (by omega) hmod (by rwa [fuse, List.foldr_append] at fit)
    rw [keeps.len] at placed
    rw [step]
    exact placed.after keeps (by simp [fuse, taken_foldr]) records

/-- A request that no free run can serve is refused. -/
theorem grab_refused (hneed : blockSize n = some need) (room : need ≤ a.len)
    (fit : firstFit nodes a.cursor need = none) :
    (grab n a).value = .ok none ∧ Refused nodes a (grab n a).state := by
  obtain ⟨front, back, rfl, hfront, hback⟩ := sound.split
  rw [grab_eq_search sound hneed room]
  rw [firstFit, hback] at fit
  split at fit
  next => cases fit
  next none =>
    obtain ⟨a', records, step, behind, keeps, cursor⟩ := search_ahead sound n rfl hfront fun m mem =>
      by simpa using List.find?_eq_none.mp none m mem
    have all : front.foldr join (fuse back) = fuse (front ++ back) := by
      rw [fuse, fuse, List.foldr_append]
    have lt := sound.cursor_lt
    obtain ⟨stop, a'', records', step', passed⟩ := behind.passed n need fun m mem before => by
      rw [all] at mem
      simpa [before] using List.find?_eq_none.mp fit m mem
    have far := passed.limit_le
    rw [List.nil_append, all] at passed
    rw [keeps.len] at step'
    rw [step, step', search_done n need (by omega)]
    -- the cursor was where the second walk ended, and moved if a merge spans that place
    have moved : a''.cursor = wrap a.len stop := by
      rw [← keeps.len]
      exact passed.behind (by rw [keeps.len, cursor]; omega) cursor
    have onNode := passed.boundary
    rw [keeps.len] at onNode
    refine ⟨rfl, keeps.trans passed.keeps (by simp [fuse, taken_foldr]),
      ⟨stop, moved, passed.stop_eq⟩, ?_, passed.nodes⟩
    obtain ⟨m, mem, here⟩ := exists_offset_wrap (tiles_fuse sound.tiles) (by omega) onNode
    exact ⟨m, mem, here.trans moved.symm⟩

/-- A request is refused, or the first fit serves it. -/
theorem grab_cases (n : Nat) : (grab n a).value = .ok none ∨
    ∃ need run, blockSize n = some need ∧ firstFit nodes a.cursor need = some run ∧
      Placed need run nodes a (grab n a) := by
  cases hneed : (blockSize n).filter (· ≤ a.len) with
  | none =>
    rw [grab_too_large sound hneed]
    exact .inl rfl
  | some need =>
    obtain ⟨hneed, room⟩ := Option.filter_eq_some_iff.mp hneed
    cases fit : firstFit nodes a.cursor need with
    | none => exact .inl (grab_refused sound hneed (by simpa using room) fit).1
    | some run => exact .inr ⟨need, run, hneed, fit, grab_placed sound hneed fit⟩

/-- The cursor is on the block that was handed out last. -/
theorem cursor_grab {p : Ptr} (served : (grab n a).value = .ok (some p)) :
    (grab n a).state.cursor = p.addr - headerSize := by
  rcases grab_cases sound n with refused | ⟨need, run, -, -, placed⟩
  · cases refused.symm.trans served
  · cases placed.value.symm.trans served
    exact placed.cursor

end Grab

end MemoryTrial.Arena
