import MemoryTrial.Proofs.Arena.FirstFit
import MemoryTrial.Proofs.Arena.Safety

/-! Refused requests.  A request that no free run can serve leaves an arena normalized: free neighbours
are merged, and nothing else changes.  A search that no node suffices for changes nothing when there
is nothing to merge (`search_of_fused`), so the next such request leaves the arena as it is
(`Reachable.grab_settles`). -/

namespace MemoryTrial.Arena

variable {a a' : Arena} {held : List Lease} {nodes : List Node} {node : Node} {n need : Nat}

/-- From `a`, with its `nodes`, to `a'` each free run became one node, and nothing else changed; a
cursor inside a free run is at its end. -/
structure Normalized (held : List Lease) (nodes : List Node) (a a' : Arena) : Prop where
  /-- All that is handed out stays in place, with all its bytes, headers included. -/
  keeps : Keeps nodes a a'
  payloads : ∀ lease ∈ held, ∃ bytes, (payload lease.ptr a).value = .ok bytes ∧
    (payload lease.ptr a').value = .ok bytes
  walk : ∃ nodes', a'.nodes = .ok nodes' ∧ taken nodes' = taken nodes ∧ Fused nodes' ∧
    ∀ start stop, FreeRun nodes start stop ↔
      ∃ m ∈ nodes', m.allocated = false ∧ m.offset = start ∧ m.stop = stop
  cursor : (∀ start stop, FreeRun nodes start stop → a.cursor ≤ start ∨ stop ≤ a.cursor) →
    a'.cursor = a.cursor
  cursorInside : ∀ start stop, FreeRun nodes start stop → start < a.cursor → a.cursor < stop →
    a'.cursor = if stop = a.len then 0 else stop

/-- What a request for `n` bytes leaves when it is not served, in an arena with the nodes `nodes`. -/
structure Settles (n : Nat) (held : List Lease) (nodes : List Node) (a : Arena) : Prop where
  tooLarge : (∀ need, blockSize n = some need → a.len < need) →
    (grab n a).value = .ok none ∧ (grab n a).state = a
  normalizes : ∀ need, blockSize n = some need → need ≤ a.len → (grab n a).value = .ok none →
    Normalized held nodes a (grab n a).state
  /-- A request for as much or more is refused too, and changes nothing any more. -/
  settled : ∀ need, blockSize n = some need → need ≤ a.len → (grab n a).value = .ok none →
    ∀ m, (∀ more, blockSize m = some more → need ≤ more) →
      (grab m (grab n a).state).value = .ok none ∧
        (grab m (grab n a).state).state = (grab n a).state

theorem grab_too_large_eq (sound : Sound a nodes)
    (large : ∀ need, blockSize n = some need → a.len < need) :
    (grab n a).value = .ok none ∧ (grab n a).state = a := by
  have none_fits : (blockSize n).filter (· ≤ a.len) = none := by
    rw [Option.filter_eq_none_iff]
    intro need hneed
    simpa using large need hneed
  rw [grab_too_large sound none_fits]
  exact ⟨rfl, rfl⟩

/-- In a tiling with no free neighbours a free node is a run of its own. -/
theorem Fused.takeWhile_eq_nil {pre rest : List Node} (fused : Fused (pre ++ node :: rest))
    (free : node.allocated = false) : rest.takeWhile Node.isFree = [] := by
  cases rest with
  | nil => rfl
  | cons m rest =>
    have next := (List.isChain_cons_cons.mp (fused.suffix (List.suffix_append ..))).1
    rw [free] at next
    exact List.takeWhile_cons_of_neg (by simpa using next)

/-- A search changes nothing when there is nothing to merge and no node suffices. -/
theorem search_of_fused (n : Nat) {walked : Nat} (held : a.nodes = .ok nodes) (fused : Fused nodes)
    (short : ∀ m ∈ nodes, m.fits need = false) (mem : node ∈ nodes) :
    (search a.len n need node.offset walked a).value = .ok none ∧
      (search a.len n need node.offset walked a).state = a := by
  -- what is left of the round gets shorter with each node
  induction left : a.len - walked using Nat.strongRecOn generalizing node walked with
  | _ left ih =>
    by_cases done : a.len ≤ walked
    · rw [search_done n need done]
      exact ⟨rfl, rfl⟩
    obtain ⟨tiles, headers⟩ := Buffer.nodes_eq_ok_iff.mp held
    obtain ⟨pre, rest, rfl⟩ := List.append_of_mem mem
    have size := tiles.around.2.1
    obtain ⟨m, hm, here⟩ := wrap_boundary tiles
    have again := ih (a.len - (walked + node.size)) (by omega) hm rfl
    rw [here] at again
    cases taken : node.allocated with
    | true =>
      rw [search_of_taken n need (by omega) (headers node mem) taken]
      exact again
    | false =>
      have alone : node.size = node.size + span (rest.takeWhile Node.isFree) := by
        rw [fused.takeWhile_eq_nil taken, span_nil, Nat.add_zero]
      obtain ⟨-, -, records, step⟩ := search_run n need held taken (show walked < a.len by omega) alone
      have misfit : ¬need ≤ node.size := by
        have := short node mem
        simpa [Node.fits, Node.isFree, taken] using this
      have same : a.pass node.offset node.size node.size = a := if_pos rfl
      rw [step, if_neg misfit, same]
      exact again

/-- A request changes nothing when there is nothing to merge and no node suffices. -/
theorem grab_of_fused (sound : Sound a nodes) (fused : Fused nodes)
    (short : ∀ need, blockSize n = some need → ∀ m ∈ nodes, m.fits need = false) :
    (grab n a).value = .ok none ∧ (grab n a).state = a := by
  cases hneed : (blockSize n).filter (· ≤ a.len) with
  | none =>
    rw [grab_too_large sound hneed]
    exact ⟨rfl, rfl⟩
  | some need =>
    obtain ⟨hneed, room⟩ := Option.filter_eq_some_iff.mp hneed
    obtain ⟨node, mem, here⟩ := sound.cursor
    rw [grab_eq_search sound hneed (by simpa using room), ← here]
    exact search_of_fused n sound.nodes fused (short need hneed) mem

/-- No request that is refused had a first fit. -/
theorem firstFit_of_refused (sound : Sound a nodes) (hneed : blockSize n = some need)
    (refused : (grab n a).value = .ok none) : firstFit nodes a.cursor need = none := by
  cases fit : firstFit nodes a.cursor need with
  | none => rfl
  | some run => cases (grab_placed sound hneed fit).value.symm.trans refused

theorem Refused.normalized (h : Refused nodes a a') (accounts : Accounts a held nodes)
    (payloads : ∀ lease ∈ held, (payload lease.ptr a').value = (payload lease.ptr a).value) :
    Normalized held nodes a a' := by
  have sound := accounts.sound
  have runs := freeRun_iff nodes
  have fused := tiles_fuse sound.tiles
  obtain ⟨stop, cursor, moved⟩ := h.cursor
  refine ⟨h.keeps, fun lease mem => ?_,
    ⟨fuse nodes, h.nodes, by rw [fuse, taken_foldr, List.append_nil], fused_fuse nodes, runs⟩,
    fun outside => ?_, fun start stop' run lo hi => ?_⟩
  · obtain ⟨node, named, -⟩ := accounts.named mem .useAfterRelease
    have read := congrArg Result.value (payload_eq sound named)
    exact ⟨_, read, (payloads lease mem).trans read⟩
  · rcases moved with rfl | ⟨run, mem, free, lo, hi, rfl⟩
    · rw [cursor, wrap_of_lt sound.cursor_lt]
    · have := outside _ _ ((runs ..).mpr ⟨run, mem, free, rfl, rfl⟩)
      omega
  · obtain ⟨m, mem, free, rfl, rfl⟩ := (runs ..).mp run
    rcases moved with rfl | ⟨run', mem', -, lo', hi', rfl⟩
    -- the cursor would be inside a node, and not on one
    · obtain ⟨other, hother, here⟩ := h.onNode
      rw [cursor, wrap_of_lt sound.cursor_lt] at here
      have := (fused.bounds hother).2.2.1
      rcases fused.eq_or_apart mem hother with rfl | apart | apart
      · omega
      · omega
      · simp only [Node.stop] at apart
        omega
    · rw [cursor, wrap]
      rcases fused.eq_or_apart mem mem' with rfl | apart | apart
      · rfl
      · omega
      · omega

/-- A refused request normalizes an arena and does nothing else, and does not even do that when it is
made again. -/
theorem Reachable.grab_settles (h : Reachable a held) (n : Nat) :
    ∃ nodes, a.nodes = .ok nodes ∧ Settles n held nodes a := by
  obtain ⟨nodes, accounts⟩ := h.accounts
  have sound := accounts.sound
  have refusal {need : Nat} (hneed : blockSize n = some need) (room : need ≤ a.len)
      (refused : (grab n a).value = .ok none) : Refused nodes a (grab n a).state :=
    (grab_refused sound hneed room (firstFit_of_refused sound hneed refused)).2
  refine ⟨nodes, sound.nodes, grab_too_large_eq sound, fun need hneed room refused => ?_,
    fun need hneed room refused m larger => ?_⟩
  · exact (refusal hneed room refused).normalized accounts fun lease mem =>
      accounts.kept (.grab n) mem (Option.some_ne_none _).symm
  · refine grab_of_fused ((refusal hneed room refused).sound sound) (fused_fuse nodes)
      fun more hmore run mem => ?_
    have pos := (blockSize_bounds hneed).1
    have short := (sound.firstFit_eq_none_iff (by omega)).mp (firstFit_of_refused sound hneed refused)
    have least := larger more hmore
    by_contra fits
    obtain ⟨free, enough⟩ := Node.fits_iff.mp (by simpa using fits)
    have := short _ _ ((freeRun_iff ..).mpr ⟨run, mem, free, rfl, rfl⟩)
    simp only [Node.stop] at this
    omega

theorem variedArena_settles :
    (grab 24 variedArena).value = .ok none ∧
    ∃ nodes, variedArena.nodes = .ok nodes ∧ Settles 24 variedLeases nodes variedArena :=
  ⟨by decide +kernel, variedArena_reachable.grab_settles 24⟩

end MemoryTrial.Arena
