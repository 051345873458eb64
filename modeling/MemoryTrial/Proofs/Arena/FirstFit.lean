import Mathlib.Order.Bounds.Basic
import MemoryTrial.Proofs.Arena.History

/-! Placement.  A request is refused exactly if no free run suffices, and else it is served by the
first free run from the cursor on, once round the buffer (`Reachable.grab_first_fit`).  Free runs are
those of the nodes as they are in memory; `freeRun_iff` and `ahead_iff` relate them to the merged
nodes in which a search looks. -/

namespace MemoryTrial.Arena

variable {a : Arena} {nodes rest pre post run : List Node} {node : Node} {start stop n need : Nat}

/-- A maximal sequence of adjacent free nodes, from `start` up to `stop`. -/
def FreeRun (nodes : List Node) (start stop : Nat) : Prop :=
  ∃ pre first run post, nodes = pre ++ (first :: run ++ post) ∧
    (∀ m ∈ first :: run, m.allocated = false) ∧ (∀ m ∈ pre.getLast?, m.allocated = true) ∧
    (∀ m ∈ post.head?, m.allocated = true) ∧ start = first.offset ∧
    stop = start + span (first :: run)

/-- Where a request for `need` bytes can be served at the cursor or behind it: at the start of a free
run there, or at the cursor when a free run spans it. -/
def ahead (nodes : List Node) (cursor need : Nat) : Set Nat :=
  {offset | ∃ start stop, FreeRun nodes start stop ∧ cursor < stop ∧ offset = max start cursor ∧
    need ≤ stop - offset}

/-- The free runs that begin before the cursor and serve a request for `need` bytes. -/
def behind (nodes : List Node) (cursor need : Nat) : Set Nat :=
  {start | ∃ stop, FreeRun nodes start stop ∧ start < cursor ∧ need ≤ stop - start}

/-- The circular first fit: the first place ahead, and the first one behind when there is none. -/
def CircularFit (nodes : List Node) (cursor need offset : Nat) : Prop :=
  IsLeast (ahead nodes cursor need) offset ∨
    ahead nodes cursor need = ∅ ∧ IsLeast (behind nodes cursor need) offset

theorem freeRun_cons_of_allocated (h : node.allocated = true) :
    FreeRun (node :: rest) start stop ↔ FreeRun rest start stop := by
  constructor
  · rintro ⟨pre, first, run, post, heq, free, before, after, hstart, hstop⟩
    cases pre with
    | nil =>
      have same : node = first := (List.cons.inj heq).1
      rw [same, free first (by simp)] at h
      cases h
    | cons m pre =>
      refine ⟨pre, first, run, post, (List.cons.inj heq).2, free, fun m' mem => before m' ?_, after,
        hstart, hstop⟩
      rw [Option.mem_def] at mem ⊢
      rw [List.getLast?_cons, mem]
      rfl
  · rintro ⟨pre, first, run, post, rfl, free, before, after, hstart, hstop⟩
    refine ⟨node :: pre, first, run, post, rfl, free, fun m mem => ?_, after, hstart, hstop⟩
    rw [List.getLast?_cons, Option.mem_def, Option.some.injEq] at mem
    cases last : pre.getLast? with
    | none =>
      rw [last] at mem
      exact mem ▸ h
    | some m' =>
      rw [last] at mem
      exact before m (by rw [last]; exact congrArg some mem)

theorem takeWhile_run (free : ∀ m ∈ run, m.allocated = false)
    (after : ∀ m ∈ post.head?, m.allocated = true) :
    (run ++ post).takeWhile Node.isFree = run := by
  rw [List.takeWhile_append_of_pos fun m mem => by simpa using free m mem]
  cases post with
  | nil => simp
  | cons m post => simp [Node.isFree, after m (by simp)]

/-- Where a list of nodes begins with a free run, the others are those of the nodes behind it. -/
theorem freeRun_cons_of_free (free : ∀ m ∈ node :: run, m.allocated = false)
    (after : ∀ m ∈ rest.head?, m.allocated = true) :
    FreeRun (node :: (run ++ rest)) start stop ↔
      start = node.offset ∧ stop = start + span (node :: run) ∨ FreeRun rest start stop := by
  have last_free {l : List Node} (h : l ≠ []) (all : ∀ m ∈ l, m.allocated = false) :
      ¬∀ m ∈ l.getLast?, m.allocated = true := by
    intro last
    have mem := List.getLast_mem h
    have := last (l.getLast h) (List.getLast?_eq_some_getLast h)
    rw [all _ mem] at this
    cases this
  constructor
  · rintro ⟨pre, first, run', post, heq, free', before, after', hstart, hstop⟩
    rw [← List.cons_append, List.append_eq_append_iff] at heq
    -- the run lies behind the first one, or it begins in it and then is the first one
    rcases heq with ⟨pre', rfl, heq⟩ | ⟨run'', heq, heq'⟩
    · refine .inr ⟨pre', first, run', post, heq, free', fun m mem => before m ?_, after', hstart,
        hstop⟩
      rw [List.getLast?_append, Option.mem_def.mp mem]
      rfl
    · have none : pre = [] := by
        by_contra some
        refine last_free some (fun m mem => free m ?_) before
        rw [heq]
        exact List.mem_append_left _ mem
      subst none
      rw [List.nil_append] at heq
      subst heq
      have same := congrArg (List.takeWhile Node.isFree) heq'
      rw [takeWhile_run free' after', takeWhile_run free after] at same
      obtain ⟨rfl, rfl⟩ := List.cons.inj same
      exact .inl ⟨hstart, hstop⟩
  · rintro (⟨rfl, rfl⟩ | ⟨pre, first, run', post, rfl, free', before, after', hstart, hstop⟩)
    · exact ⟨[], node, run, rest, rfl, free, nofun, after, rfl, rfl⟩
    · have some : pre ≠ [] := by
        rintro rfl
        have := after first (by simp)
        rw [free' first (by simp)] at this
        cases this
      refine ⟨node :: (run ++ pre), first, run', post, by simp, free', fun m mem => before m ?_,
        after', hstart, hstop⟩
      rw [← List.cons_append, List.getLast?_append, List.getLast?_eq_some_getLast some] at mem
      rw [List.getLast?_eq_some_getLast some]
      exact mem

theorem fuse_cons_of_allocated (h : node.allocated = true) :
    fuse (node :: rest) = node :: fuse rest := join_of_allocated h _

theorem fuse_cons_of_free (free : ∀ m ∈ node :: run, m.allocated = false)
    (after : ∀ m ∈ rest.head?, m.allocated = true) :
    fuse (node :: (run ++ rest)) = ⟨node.offset, span (node :: run), false⟩ :: fuse rest := by
  have whole := foldr_join_run (free node List.mem_cons_self)
    (fun m (mem : m ∈ run) => free m (List.mem_cons_of_mem _ mem)) (fused_fuse rest)
  rw [fuse, ← List.cons_append, List.foldr_append, ← fuse, whole]
  cases rest with
  | nil => rfl
  | cons m rest =>
    have hm := after m (by simp)
    simp [fuse_cons_of_allocated hm, Node.isFree, hm]

/-- The free runs are the free nodes that merging all neighbours leaves. -/
theorem freeRun_iff (nodes : List Node) (start stop : Nat) :
    FreeRun nodes start stop ↔
      ∃ m ∈ fuse nodes, m.allocated = false ∧ m.offset = start ∧ m.stop = stop := by
  induction nodes using runs_induction with
  | nil => simp [FreeRun, fuse]
  | taken node rest taken ih =>
    rw [freeRun_cons_of_allocated taken, ih, fuse_cons_of_allocated taken]
    simp [taken]
  | free node run rest free all after ih =>
    have free : ∀ m ∈ node :: run, m.allocated = false := by
      intro m mem
      rcases List.mem_cons.mp mem with rfl | mem
      · exact free
      · exact all m mem
    rw [freeRun_cons_of_free free after, ih, fuse_cons_of_free free after]
    simp only [List.exists_mem_cons_iff, true_and, Node.stop]
    refine or_congr_left ⟨?_, ?_⟩
    · rintro ⟨rfl, rfl⟩
      exact ⟨rfl, rfl⟩
    · rintro ⟨rfl, rfl⟩
      exact ⟨rfl, rfl⟩

/-- What is free from the cursor on: the parts there of the free runs that reach beyond it. -/
theorem clip_iff {front back : List Node} {cursor len : Nat} (left : Tiles start front cursor)
    (right : Tiles cursor back len) (offset stop : Nat) :
    (∃ m ∈ front.foldr join (fuse back), m.allocated = false ∧ cursor < m.stop ∧
      max m.offset cursor = offset ∧ m.stop = stop) ↔
      ∃ m ∈ fuse back, m.allocated = false ∧ m.offset = offset ∧ m.stop = stop := by
  have fused := tiles_fuse right
  -- a node before the cursor can reach beyond it only merged with what is behind it
  induction front generalizing start with
  | nil =>
    refine exists_congr fun m => and_congr_right fun mem => ?_
    obtain ⟨hoff, -, h8, -⟩ := fused.bounds mem
    simp only [Node.stop]
    constructor
    · rintro ⟨free, -, hmax, hstop⟩
      exact ⟨free, by omega, hstop⟩
    · rintro ⟨free, here, hstop⟩
      exact ⟨free, by omega, by omega, hstop⟩
  | cons node front ih =>
    obtain ⟨-, h8, -, hrest⟩ := left
    have before := hrest.le
    refine Iff.trans ?_ (ih hrest)
    rw [List.foldr_cons]
    have tiles := tiles_foldr hrest fused
    cases hback : front.foldr join (fuse back) with
    | nil => simp [join]; omega
    | cons next rest =>
      rw [hback] at tiles
      have adjacent : next.offset = node.stop := tiles.1
      simp only [Node.stop] at before adjacent
      simp only [join]
      split
      next both =>
        simp only [Bool.and_eq_true, Node.isFree_eq_true] at both
        simp only [List.exists_mem_cons_iff, both.2, Node.stop, true_and]
        refine or_congr_left ⟨?_, ?_⟩ <;> omega
      next =>
        simp only [List.exists_mem_cons_iff, Node.stop]
        refine or_iff_right ?_
        omega

/-- A look-up in a tiling finds the first node that will do. -/
theorem Tiles.isLeast_find? {P : Node → Bool} (tiles : Tiles start nodes stop)
    (found : nodes.find? P = some node) :
    IsLeast {offset | ∃ m ∈ nodes, P m = true ∧ m.offset = offset} node.offset := by
  obtain ⟨will, front, back, rfl, not⟩ := List.find?_eq_some_iff_append.mp found
  refine ⟨⟨node, by simp, will, rfl⟩, ?_⟩
  rintro offset ⟨m, mem, hm, rfl⟩
  obtain ⟨-, -, -, right⟩ := tiles.around
  rcases List.mem_append.mp mem with before | mem
  · have := not m before
    simp [hm] at this
  · rcases List.mem_cons.mp mem with rfl | behind
    · exact Nat.le_refl _
    · have := (right.bounds behind).1
      simp only [Node.stop] at this
      omega

theorem ahead_eq {front back : List Node} {cursor len : Nat} (tiles : Tiles 0 (front ++ back) len)
    (hfront : span front = cursor) : ahead (front ++ back) cursor need =
    {offset | ∃ m ∈ fuse back, m.fits need = true ∧ m.offset = offset} := by
  obtain ⟨left, right⟩ := Tiles.append_iff_span.mp tiles
  rw [Nat.zero_add, hfront] at left right
  ext offset
  constructor
  · rintro ⟨start, stop, run, past, hoffset, room⟩
    obtain ⟨m, mem, free, rfl, rfl⟩ := (freeRun_iff ..).mp run
    rw [fuse, List.foldr_append] at mem
    obtain ⟨m', mem', free', here, stop⟩ :=
      (clip_iff left right offset m.stop).mp ⟨m, mem, free, past, hoffset.symm, rfl⟩
    refine ⟨m', mem', Node.fits_iff.mpr ⟨free', ?_⟩, here⟩
    simp only [Node.stop] at *
    omega
  · rintro ⟨m, mem, fits, here⟩
    obtain ⟨free, room⟩ := Node.fits_iff.mp fits
    obtain ⟨m', mem', free', past, hoffset, stop⟩ :=
      (clip_iff left right offset m.stop).mpr ⟨m, mem, free, here, rfl⟩
    refine ⟨m'.offset, m'.stop, (freeRun_iff ..).mpr ⟨m', ?_, free', rfl, rfl⟩, past, hoffset.symm, ?_⟩
    · rwa [fuse, List.foldr_append]
    · simp only [Node.stop] at *
      omega

theorem behind_eq (nodes : List Node) (cursor : Nat) : behind nodes cursor need =
    {offset | ∃ m ∈ fuse nodes, (m.fits need && decide (m.offset < cursor)) = true ∧
      m.offset = offset} := by
  ext offset
  constructor
  · rintro ⟨stop, run, before, room⟩
    obtain ⟨m, mem, free, rfl, rfl⟩ := (freeRun_iff ..).mp run
    refine ⟨m, mem, ?_, rfl⟩
    have fits : m.fits need = true := Node.fits_iff.mpr ⟨free, by simp only [Node.stop] at room; omega⟩
    simp [fits, before]
  · rintro ⟨m, mem, hm, rfl⟩
    obtain ⟨fits, before⟩ := Bool.and_eq_true_iff.mp hm
    obtain ⟨free, room⟩ := Node.fits_iff.mp fits
    exact ⟨m.stop, (freeRun_iff ..).mpr ⟨m, mem, free, rfl, rfl⟩, by simpa using before,
      by simp only [Node.stop]; omega⟩

theorem Sound.circularFit {run : Node} (sound : a.Sound nodes)
    (fit : firstFit nodes a.cursor need = some run) :
    CircularFit nodes a.cursor need run.offset := by
  obtain ⟨front, back, rfl, hfront, hback⟩ := sound.split
  have here : ahead (front ++ back) a.cursor need = _ := ahead_eq sound.tiles hfront
  rw [firstFit, hback] at fit
  split at fit
  next found =>
    cases fit
    obtain ⟨-, right⟩ := Tiles.append_iff_span.mp sound.tiles
    refine .inl ?_
    rw [here]
    exact (tiles_fuse right).isLeast_find? found
  next none =>
    refine .inr ⟨?_, ?_⟩
    · rw [here]
      refine Set.eq_empty_of_forall_notMem ?_
      rintro offset ⟨m, mem, fits, -⟩
      exact List.find?_eq_none.mp none m mem fits
    · rw [behind_eq]
      exact (tiles_fuse sound.tiles).isLeast_find? fit

/-- There is no first fit exactly if no free run suffices. -/
theorem Sound.firstFit_eq_none_iff (sound : a.Sound nodes) (pos : 0 < need) :
    firstFit nodes a.cursor need = none ↔
      ∀ start stop, FreeRun nodes start stop → stop - start < need := by
  obtain ⟨front, back, rfl, hfront, hback⟩ := sound.split
  have here : ahead (front ++ back) a.cursor need = _ := ahead_eq sound.tiles hfront
  constructor
  · intro fit start stop run
    rw [firstFit, hback] at fit
    split at fit
    next => cases fit
    next none =>
      by_contra room
      by_cases before : start < a.cursor
      · have : start ∈ behind (front ++ back) a.cursor need :=
          ⟨stop, run, before, Nat.le_of_not_lt room⟩
        rw [behind_eq] at this
        obtain ⟨m, mem, hm, -⟩ := this
        exact List.find?_eq_none.mp fit m mem hm
      · have : start ∈ ahead (front ++ back) a.cursor need :=
          ⟨start, stop, run, by omega, by omega, Nat.le_of_not_lt room⟩
        rw [here] at this
        obtain ⟨m, mem, hm, -⟩ := this
        exact List.find?_eq_none.mp none m mem hm
  · intro short
    cases fit : firstFit (front ++ back) a.cursor need with
    | none => rfl
    | some run =>
      rcases sound.circularFit fit with ⟨⟨start, stop, free, -, hoffset, room⟩, -⟩ | ⟨-, least⟩
      · have := short start stop free
        omega
      · obtain ⟨stop, free, -, room⟩ := least.1
        have := short _ stop free
        omega

/-- A request for memory is refused exactly if there is no such block size or no free run has so many
bytes.  Else it is served at the circular first fit, by a node of exactly that size, where the cursor
is then, and all other nodes that are handed out stay. -/
theorem Reachable.grab_first_fit {held : List Lease} (h : Reachable a held) (n : Nat) :
    ∃ nodes, a.nodes = .ok nodes ∧
      ((grab n a).value = .ok none ↔ blockSize n = none ∨ ∃ need, blockSize n = some need ∧
        ∀ start stop, FreeRun nodes start stop → stop - start < need) ∧
      ((grab n a).value ≠ .ok none → ∃ need offset, blockSize n = some need ∧
        CircularFit nodes a.cursor need offset ∧
        (grab n a).value = .ok (some ⟨offset + 8, Nat.succ_pos _⟩) ∧
        (grab n a).state.cursor = offset ∧
        ∃ before after, (grab n a).state.nodes = .ok (before ++ ⟨offset, need, true⟩ :: after) ∧
          taken before ++ taken after = taken nodes) := by
  obtain ⟨nodes, sound, -⟩ := h.accounts
  refine ⟨nodes, sound.nodes, ?_⟩
  cases hsize : blockSize n with
  | none =>
    rw [grab_too_large sound (by rw [hsize]; rfl)]
    exact ⟨iff_of_true rfl (.inl rfl), fun ne => absurd rfl ne⟩
  | some need =>
    obtain ⟨h16, -⟩ := blockSize_bounds hsize
    have none_iff := sound.firstFit_eq_none_iff (show 0 < need by omega)
    cases fit : firstFit nodes a.cursor need with
    | none =>
      have short := none_iff.mp fit
      have refused : (grab n a).value = .ok none := by
        by_cases room : need ≤ a.len
        · exact (grab_refused sound hsize room fit).1
        · rw [grab_too_large sound (by
            rw [hsize, Option.filter_some, if_neg (by simpa using room)])]
      exact ⟨iff_of_true refused (.inr ⟨need, rfl, short⟩), fun ne => absurd refused ne⟩
    | some run =>
      have placed := grab_placed sound hsize fit
      obtain ⟨before, after, hnodes, still⟩ := placed.nodes
      have value := placed.value
      have served : (grab n a).value ≠ .ok none := by
        rw [value]
        nofun
      refine ⟨iff_of_false served ?_, fun _ => ⟨need, run.offset, rfl, sound.circularFit fit, value,
        placed.cursor, before, _, hnodes, ?_⟩⟩
      · rintro (none | ⟨need', same, short⟩)
        · cases none
        · cases same
          rw [none_iff.mpr short] at fit
          cases fit
      · have left := taken_append (carve run need) after
        rw [taken_carve] at left
        rw [← still]
        exact congrArg (taken before ++ ·) (List.cons.inj left).2

/-- The free node after the cursor is too small, and the search goes on at the front of the buffer. -/
theorem variedArena_first_fit :
    (grab 16 variedArena).value = .ok (some (payloadAt 16)) ∧
    ∃ nodes, variedArena.nodes = .ok nodes ∧
      ((grab 16 variedArena).value = .ok none ↔ blockSize 16 = none ∨
        ∃ need, blockSize 16 = some need ∧
          ∀ start stop, FreeRun nodes start stop → stop - start < need) ∧
      ((grab 16 variedArena).value ≠ .ok none →
        ∃ need offset, blockSize 16 = some need ∧
          CircularFit nodes variedArena.cursor need offset ∧
          (grab 16 variedArena).value = .ok (some ⟨offset + 8, Nat.succ_pos _⟩) ∧
          (grab 16 variedArena).state.cursor = offset ∧
          ∃ before after, (grab 16 variedArena).state.nodes =
              .ok (before ++ ⟨offset, need, true⟩ :: after) ∧
            taken before ++ taken after = taken nodes) :=
  ⟨by decide +kernel, variedArena_reachable.grab_first_fit 16⟩

end MemoryTrial.Arena
