import MemoryTrial.Proofs.Arena.Edits
import MemoryTrial.Proofs.Arena.Runs

/-! The search for free space.  A search passes nodes one free run at a time and merges each run that
it comes by.  A `Stretch` is what it still has before it; one round takes a node or a free run from its
front.  `Stretch.placed` says what the search leaves when one of the runs suffices, and `Stretch.passed`
where it goes on when none does.  Neither changes a byte of a block that is handed out. -/

namespace MemoryTrial.Arena

variable {a a' a'' : Arena} {nodes nodes' pre post : List Node} {node : Node}

/-- From `a` to `a'` nothing changes but the free space: of the blocks that are handed out in
`nodes`, headers included, all bytes stay. -/
structure Keeps (nodes : List Node) (a a' : Arena) : Prop where
  kind : a'.kind = a.kind
  poison : a'.poison = a.poison
  live : a'.live = a.live
  len : a'.len = a.len
  bytes : ∀ node ∈ taken nodes, a.buffer.Agree a'.buffer node.offset node.stop

theorem Keeps.refl (nodes : List Node) (a : Arena) : Keeps nodes a a :=
  ⟨rfl, rfl, rfl, rfl, fun _ _ => Buffer.Agree.refl _ _ _⟩

theorem Keeps.trans (h : Keeps nodes a a') (h' : Keeps nodes' a' a'')
    (still : taken nodes' = taken nodes) : Keeps nodes a a'' :=
  ⟨h'.kind.trans h.kind, h'.poison.trans h.poison, h'.live.trans h.live, h'.len.trans h.len,
    fun node mem => (h.bytes node mem).trans (h'.bytes node (still ▸ mem))⟩

theorem Keeps.mono (h : Keeps nodes a a') (sub : ∀ node ∈ taken nodes', node ∈ taken nodes) :
    Keeps nodes' a a' :=
  ⟨h.kind, h.poison, h.live, h.len, fun node mem => h.bytes node (sub node mem)⟩

theorem Keeps.of_node (h : a.nodes = .ok (pre ++ node :: post)) (kind : a'.kind = a.kind)
    (poison : a'.poison = a.poison) (live : a'.live = a.live) (len : a'.len = a.len)
    (outside : ∀ lo hi, hi ≤ node.offset ∨ node.stop ≤ lo → a.buffer.Agree a'.buffer lo hi) :
    Keeps (pre ++ post) a a' := by
  refine ⟨kind, poison, live, len, fun other mem => outside _ _ ?_⟩
  obtain ⟨tiles, -⟩ := Buffer.nodes_eq_ok_iff.mp h
  obtain ⟨left, -, -, right⟩ := tiles.around
  rcases List.mem_append.mp (mem_taken.mp mem).1 with mem | mem
  · exact .inl (left.bounds mem).2.2.2.2
  · exact .inr (right.bounds mem).1

theorem Keeps.of_free (h : a.nodes = .ok (pre ++ node :: post)) (free : node.allocated = false)
    (kind : a'.kind = a.kind) (poison : a'.poison = a.poison) (live : a'.live = a.live)
    (len : a'.len = a.len)
    (outside : ∀ lo hi, hi ≤ node.offset ∨ node.stop ≤ lo → a.buffer.Agree a'.buffer lo hi) :
    Keeps (pre ++ node :: post) a a' := by
  refine (Keeps.of_node h kind poison live len outside).mono fun other mem => ?_
  rwa [taken_append, taken_cons_of_free free, ← taken_append] at mem

/-- The offset from which a walk goes on: the end of the buffer is its start. -/
def wrap (len offset : Nat) : Nat := if offset = len then 0 else offset

theorem wrap_of_lt {len offset : Nat} (h : offset < len) : wrap len offset = offset :=
  if_neg (by omega)

theorem successor_eq (a : Arena) (offset size : Nat) :
    a.successor offset size = wrap a.len (offset + size) := rfl

/-- The arena after a search has come by the free run of `merged` bytes at `offset`, whose first node
has `size` bytes. -/
def pass (a : Arena) (offset size merged : Nat) : Arena :=
  if merged = size then a else a.merge offset merged

section Pass

variable {run : List Node} (h : a.nodes = .ok (pre ++ node :: (run ++ post)))
include h

theorem nodes_pass (free : node.allocated = false) :
    (a.pass node.offset node.size (node.size + span run)).nodes =
      .ok (pre ++ ⟨node.offset, node.size + span run, false⟩ :: post) := by
  unfold pass
  split
  next alone =>
    obtain ⟨tiles, -⟩ := Buffer.nodes_eq_ok_iff.mp h
    obtain rfl : run = [] := by
      cases run with
      | nil => rfl
      | cons m run =>
        have := tiles.bounds (show m ∈ _ by simp)
        simp only [span_cons] at alone
        omega
    have self : (⟨node.offset, node.size, false⟩ : Node) = node := by rw [← free]
    simpa [self] using h
  next => exact nodes_merge h

theorem keeps_pass (free : node.allocated = false) (merged : Nat) :
    Keeps (pre ++ node :: (run ++ post)) a (a.pass node.offset node.size merged) := by
  unfold pass
  split
  next => exact .refl ..
  next =>
    refine .of_free h free rfl rfl rfl (len_merge ..) fun lo hi apart => agree_merge h ?_
    obtain ⟨tiles, -⟩ := Buffer.nodes_eq_ok_iff.mp h
    have h8 := tiles.around.2.1
    simp only [Node.stop] at apart
    omega

end Pass

theorem len_pass (a : Arena) (offset size merged : Nat) :
    (a.pass offset size merged).len = a.len := by
  unfold pass
  split <;> simp

theorem cursor_pass_of_le {offset size merged : Nat}
    (h : a.cursor ≤ offset ∨ offset + merged ≤ a.cursor) :
    (a.pass offset size merged).cursor = a.cursor := by
  unfold pass
  split
  next => rfl
  next => exact if_neg (by omega)

theorem cursor_pass_of_spans {offset size merged : Nat} (first : offset + size ≤ a.cursor)
    (lt : offset < a.cursor) (spans : a.cursor < offset + merged) :
    (a.pass offset size merged).cursor = wrap a.len (offset + merged) := by
  unfold pass
  rw [if_neg (by omega)]
  exact if_pos ⟨lt, spans⟩

section Steps

variable (n need : Nat) {len offset walked : Nat} {h : Header}

theorem search_done (done : len ≤ walked) :
    search len n need offset walked a = ⟨.ok none, a, [.grabFailed n need]⟩ := by
  rw [search, if_neg (by omega)]

theorem search_of_taken (more : walked < len) (hr : a.buffer.header offset = .ok h)
    (taken : h.allocated = true) :
    search len n need offset walked a =
      search len n need (a.successor offset h.size) (walked + h.size) a := by
  conv => lhs; rw [search, if_pos more]
  split
  next hr' => rw [hr] at hr'; cases hr'
  next hr' =>
    rw [hr] at hr'
    cases hr'
    exact if_pos taken

theorem search_of_free {merged : Nat} (more : walked < len)
    (hr : a.buffer.header offset = .ok h) (free : h.allocated = false)
    (hm : a.buffer.freeRun offset h.size = .ok merged) :
    ∃ records, search len n need offset walked a =
      .after records
        (if need ≤ merged then place n need offset (a.pass offset h.size merged)
        else search len n need (a.successor offset merged) (walked + merged)
          (a.pass offset h.size merged)) := by
  conv => enter [1, records]; lhs; rw [search, if_pos more]
  split
  next hr' => rw [hr] at hr'; cases hr'
  next hr' =>
    rw [hr] at hr'
    cases hr'
    rw [if_neg (by simp [free])]
    split
    next hm' => rw [hm] at hm'; cases hm'
    next hm' =>
      rw [hm] at hm'
      cases hm'
      unfold pass
      split
      next alone => subst alone; exact ⟨[], rfl⟩
      next => exact ⟨_, rfl⟩

theorem takeNode_eq {need : Nat} (hr : a.buffer.header offset = .ok h) (fits : need ≤ h.size) :
    takeNode offset need a =
      ⟨.ok ⟨offset + headerSize, Nat.succ_pos _⟩, a.split offset h.size need, []⟩ := by
  have header : Op.inspect (fun a => a.buffer.header offset) a = ⟨.ok h, a, []⟩ :=
    Op.inspect_of_ok hr
  rw [takeNode, Op.bind_of_ok header, if_neg (by omega)]
  rfl

theorem place_eq {need : Nat} (hr : a.buffer.header offset = .ok h) (fits : need ≤ h.size) :
    place n need offset a =
      ⟨.ok (some ⟨offset + headerSize, Nat.succ_pos _⟩), a.split offset h.size need,
        [.grabPlaced n offset]⟩ := by
  rw [place, Op.bind_of_ok (takeNode_eq hr fits)]
  rfl

end Steps

/-- The request is served by the first `need` bytes of `node`, a free node among those of `a`, whose
free neighbours may have been merged. -/
structure Placed (need : Nat) (node : Node) (nodes : List Node) (a : Arena)
    (r : Result Arena (Option Ptr)) : Prop where
  value : r.value = .ok (some ⟨node.offset + headerSize, Nat.succ_pos _⟩)
  cursor : r.state.cursor = node.offset
  keeps : Keeps nodes a r.state
  nodes : ∃ before after, r.state.nodes = .ok (before ++ (carve node need ++ after)) ∧
    taken before ++ taken after = taken nodes

theorem Placed.after {need : Nat} {r : Result Arena (Option Ptr)} (keeps : Keeps nodes a a')
    (still : taken nodes' = taken nodes) (h : Placed need node nodes' a' r)
    (records : List Record) : Placed need node nodes a (.after records r) :=
  ⟨h.value, h.cursor, keeps.trans h.keeps still, still ▸ h.nodes⟩

theorem placed_place {n need : Nat} (h : a.nodes = .ok (pre ++ node :: post))
    (free : node.allocated = false) (h8 : 8 ≤ need) (hmod : need % 8 = 0)
    (fits : need ≤ node.size) :
    Placed need node (pre ++ node :: post) a (place n need node.offset a) := by
  obtain ⟨tiles, held⟩ := Buffer.nodes_eq_ok_iff.mp h
  rw [place_eq n (held node (by simp)) fits]
  refine ⟨rfl, cursor_split .., ?_, pre, post, nodes_split h h8 hmod fits, ?_⟩
  · obtain ⟨kind, poison, live⟩ := a.split_leaves node.offset node.size need
    refine .of_free h free kind poison live (len_split ..) fun lo hi apart => agree_split h hmod ?_ ?_
    · simp only [Node.stop] at apart
      omega
    · omega
  · rw [taken_append, taken_cons_of_free free]

/-- A search at a free node looks at the free nodes behind it too. -/
theorem search_run (n need : Nat) {walked : Nat} {rest : List Node}
    (h : a.nodes = .ok (pre ++ node :: rest)) (free : node.allocated = false)
    (more : walked < a.len) {merged : Nat}
    (hmerged : merged = node.size + span (rest.takeWhile Node.isFree)) :
    (a.pass node.offset node.size merged).nodes =
        .ok (pre ++ ⟨node.offset, merged, false⟩ :: rest.dropWhile Node.isFree) ∧
      Keeps (pre ++ node :: rest) a (a.pass node.offset node.size merged) ∧
      ∃ records, search a.len n need node.offset walked a =
        .after records
          (if need ≤ merged then place n need node.offset (a.pass node.offset node.size merged)
          else search a.len n need (wrap a.len (node.offset + merged)) (walked + merged)
            (a.pass node.offset node.size merged)) := by
  obtain ⟨tiles, held⟩ := Buffer.nodes_eq_ok_iff.mp h
  obtain ⟨left, -, -, right⟩ := tiles.around
  have hm := Buffer.freeRun_eq right fun m mem => held m (by simp [mem])
  rw [← hmerged] at hm
  have header := held node (by simp)
  rw [← List.takeWhile_append_dropWhile (p := Node.isFree) (l := rest)] at h
  have nodes := nodes_pass h free
  have keeps := keeps_pass h free merged
  rw [← hmerged] at nodes
  rw [List.takeWhile_append_dropWhile] at keeps
  obtain ⟨records, step⟩ := search_of_free n need more header free hm
  rw [successor_eq] at step
  exact ⟨nodes, keeps, records, step⟩

/-- What a search that has come to `start` still has before it up to `limit`: the nodes `front`.  Those
in `back` follow, and may begin with a free node too. -/
structure Stretch (pre front back : List Node) (start limit walked : Nat) (a : Arena) : Prop where
  nodes : a.nodes = .ok (pre ++ (front ++ back))
  fused : Fused back
  start_eq : start = span pre
  limit_eq : limit = start + span front
  room : walked + span front ≤ a.len

namespace Stretch

variable {front back rest run : List Node} {first m : Node} {start limit walked merged : Nat}

theorem first_bounds (s : Stretch pre (first :: rest) back start limit walked a) :
    first.offset = start ∧ 8 ≤ first.size ∧ walked < a.len ∧ first.stop ≤ a.len := by
  obtain ⟨tiles, -⟩ := Buffer.nodes_eq_ok_iff.mp s.nodes
  obtain ⟨left, hsize, -, right⟩ := tiles.around
  have here := left.span_eq
  have hstart := s.start_eq
  have room := s.room
  rw [span_cons] at room
  exact ⟨by omega, hsize, by omega, right.le⟩

theorem start_lt (s : Stretch pre (first :: rest) back start limit walked a) : start < limit := by
  obtain ⟨-, hsize, -⟩ := s.first_bounds
  have hlimit := s.limit_eq
  rw [span_cons] at hlimit
  omega

/-- No node behind the stretch is before its end. -/
theorem limit_le_of_back (s : Stretch pre front back start limit walked a) (mem : m ∈ back) :
    limit ≤ m.offset := by
  obtain ⟨tiles, -⟩ := Buffer.nodes_eq_ok_iff.mp s.nodes
  obtain ⟨-, right⟩ := Tiles.append_iff_span.mp tiles
  obtain ⟨-, right⟩ := Tiles.append_iff_span.mp right
  have := (right.bounds mem).1
  have hstart := s.start_eq
  have hlimit := s.limit_eq
  omega

theorem find?_back {fits : Node → Bool} (s : Stretch pre front back start limit walked a)
    (suffix : rest <:+ back) : rest.find? (fun m => fits m && decide (m.offset < limit)) = none := by
  refine List.find?_eq_none.mpr fun m mem => ?_
  have := s.limit_le_of_back (suffix.subset mem)
  simp only [Bool.and_eq_true, decide_eq_true_eq]
  omega

/-- A search steps over a node that is handed out. -/
theorem skip (n need : Nat) (s : Stretch pre (first :: rest) back start limit walked a)
    (taken : first.allocated = true) :
    search a.len n need (wrap a.len start) walked a =
        search a.len n need (wrap a.len (start + first.size)) (walked + first.size) a ∧
      Stretch (pre ++ [first]) rest back (start + first.size) limit (walked + first.size) a := by
  obtain ⟨rfl, hsize, more, inside⟩ := s.first_bounds
  obtain ⟨-, held⟩ := Buffer.nodes_eq_ok_iff.mp s.nodes
  have hstart := s.start_eq
  have hlimit := s.limit_eq
  have room := s.room
  simp only [Node.stop, span_cons] at inside hlimit room
  constructor
  · rw [wrap_of_lt (by omega), search_of_taken n need more (held first (by simp)) taken]
    rfl
  · exact ⟨by simpa using s.nodes, s.fused, by simp; omega, by omega, by omega⟩

/-- A search merges the free nodes that it comes to. -/
theorem merge (n need : Nat) (s : Stretch pre (first :: (run ++ rest)) back start limit walked a)
    (free : first.allocated = false) (all : ∀ m ∈ run, m.allocated = false)
    (next : ∀ m ∈ rest.head?, m.allocated = true)
    (hmerged : merged =
      first.size + (span run + span ((rest.foldr join back).takeWhile Node.isFree))) :
    (first :: (run ++ rest)).foldr join back =
        ⟨first.offset, merged, false⟩ :: (rest.foldr join back).dropWhile Node.isFree ∧
      (a.pass first.offset first.size merged).nodes =
        .ok (pre ++ ⟨first.offset, merged, false⟩ :: (rest ++ back).dropWhile Node.isFree) ∧
      taken (pre ++ ⟨first.offset, merged, false⟩ :: (rest ++ back).dropWhile Node.isFree) =
        taken (pre ++ (first :: (run ++ rest) ++ back)) ∧
      Keeps (pre ++ (first :: (run ++ rest) ++ back)) a (a.pass first.offset first.size merged) ∧
      ∃ records, search a.len n need (wrap a.len start) walked a =
        .after records
          (if need ≤ merged then place n need first.offset (a.pass first.offset first.size merged)
          else search a.len n need (wrap a.len (start + merged)) (walked + merged)
            (a.pass first.offset first.size merged)) := by
  obtain ⟨rfl, hsize, more, inside⟩ := s.first_bounds
  -- only when the run ends the stretch can it go on behind it
  have beyond : (rest ++ back).takeWhile Node.isFree =
      (rest.foldr join back).takeWhile Node.isFree := by
    cases rest with
    | nil => rfl
    | cons m rest =>
      have taken := next m rfl
      rw [List.foldr_cons, join_of_allocated taken, List.cons_append,
        List.takeWhile_cons_of_neg (by simp [taken]), List.takeWhile_cons_of_neg (by simp [taken])]
  have free_run : ∀ m ∈ run, m.isFree = true := fun m mem => by simpa using all m mem
  have whole : first :: (run ++ rest) ++ back = first :: (run ++ (rest ++ back)) := by simp
  have h := s.nodes
  rw [whole] at h ⊢
  have ahead : span ((run ++ (rest ++ back)).takeWhile Node.isFree) =
      span run + span ((rest.foldr join back).takeWhile Node.isFree) := by
    rw [List.takeWhile_append_of_pos free_run, span_append, beyond]
  have sum := hmerged
  rw [← ahead] at sum
  obtain ⟨nodes, keeps, step⟩ := search_run n need h free more sum
  rw [List.dropWhile_append_of_pos free_run] at nodes
  refine ⟨?_, nodes, ?_, keeps, ?_⟩
  · rw [← List.cons_append, List.foldr_append, foldr_join_run free all (fused_foldr rest s.fused),
      hmerged]
  · rw [taken_append, taken_append, taken_cons_of_free rfl, taken_cons_of_free free,
      taken_dropWhile, taken_append run, taken_of_free all, List.nil_append]
  · rw [wrap_of_lt (by simp only [Node.stop] at inside; omega)]
    exact step

/-- What a search still has before it when it has merged a free run that ends in the stretch. -/
theorem next (s : Stretch pre (first :: (run ++ rest)) back start limit walked a)
    (hmerged : merged = first.size + (span run + 0))
    (nodes : (a.pass first.offset first.size merged).nodes =
      .ok (pre ++ ⟨first.offset, merged, false⟩ :: (rest ++ back))) :
    Stretch (pre ++ [⟨first.offset, merged, false⟩]) rest back (start + merged) limit
      (walked + merged) (a.pass first.offset first.size merged) := by
  have hstart := s.start_eq
  have hlimit := s.limit_eq
  have room := s.room
  simp only [span_cons, span_append] at hlimit room
  refine ⟨by simpa using nodes, s.fused, by simp; omega, by omega, ?_⟩
  rw [len_pass]
  omega

theorem run_ends (rest back : List Node) (hm : m.allocated = true) :
    ((m :: rest).foldr join back).takeWhile Node.isFree = [] ∧
      ((m :: rest).foldr join back).dropWhile Node.isFree = (m :: rest).foldr join back ∧
      (m :: rest ++ back).dropWhile Node.isFree = m :: rest ++ back := by
  have kept : ¬m.isFree = true := by simp [hm]
  have shape : (m :: rest).foldr join back = m :: rest.foldr join back := join_of_allocated hm _
  rw [shape]
  exact ⟨List.takeWhile_cons_of_neg kept, List.dropWhile_cons_of_neg kept,
    List.dropWhile_cons_of_neg kept⟩

/-- The first free run before `limit` that suffices serves the request. -/
theorem placed {n need : Nat} (h8 : 8 ≤ need) (hmod : need % 8 = 0)
    (s : Stretch pre front back start limit walked a)
    (found : (front.foldr join back).find? (fun m => m.fits need && decide (m.offset < limit)) =
      some node) :
    Placed need node (pre ++ (front ++ back)) a
      (search a.len n need (wrap a.len start) walked a) := by
  induction front using runs_induction generalizing pre start walked a with
  | nil =>
    rw [List.foldr_nil, s.find?_back (List.suffix_refl _)] at found
    cases found
  | taken first rest htaken ih =>
    obtain ⟨step, next⟩ := s.skip n need htaken
    rw [List.foldr_cons, join_of_allocated htaken,
      List.find?_cons_of_neg (by simp [Node.fits, Node.isFree, htaken])] at found
    rw [step]
    simpa using ih next found
  | free first run rest hfree hrun hrest ih =>
    obtain ⟨merged, hmerged⟩ : ∃ merged, merged =
      first.size + (span run + span ((rest.foldr join back).takeWhile Node.isFree)) := ⟨_, rfl⟩
    obtain ⟨joined, nodes, still, keeps, records, step⟩ := s.merge n need hfree hrun hrest hmerged
    obtain ⟨rfl, -⟩ := s.first_bounds
    have inside := s.start_lt
    rw [joined] at found
    rw [step]
    -- the merged run is the first candidate that `found` looks at
    by_cases fit : need ≤ merged
    · rw [List.find?_cons_of_pos (by simp [Node.fits, Node.isFree, fit, inside])] at found
      cases found
      rw [if_pos fit]
      exact (placed_place nodes rfl h8 hmod fit).after keeps still records
    · rw [List.find?_cons_of_neg (by simp [Node.fits, fit])] at found
      rw [if_neg fit]
      cases rest with
      | nil =>
        rw [List.foldr_nil, s.find?_back (List.dropWhile_suffix _)] at found
        cases found
      | cons m rest =>
        obtain ⟨ends, kept, kept'⟩ := run_ends rest back (hrest m rfl)
        rw [ends, span_nil] at hmerged
        rw [kept] at found
        rw [kept'] at nodes still
        have placed := ih (s.next hmerged nodes) found
        rw [len_pass, List.append_assoc] at placed
        exact placed.after keeps still records

end Stretch

/-- What a search has left when none of the nodes from `start` up to `limit` sufficed: it goes on at
`stop`, and the nodes are `merged`.  A cursor at the end of what was passed is where the search goes
on. -/
structure Passed (nodes merged : List Node) (start limit stop : Nat) (a a' : Arena) : Prop where
  keeps : Keeps nodes a a'
  nodes : a'.nodes = .ok merged
  stop_eq : stop = limit ∨
    ∃ node ∈ merged, node.allocated = false ∧ node.offset < limit ∧ limit < stop ∧ node.stop = stop
  boundary : stop = a.len ∨ ∃ node ∈ merged, node.offset = stop
  ahead : a.cursor ≤ start → a'.cursor = a.cursor
  behind : a.cursor < a.len → a.cursor = limit → a'.cursor = wrap a.len stop

theorem Passed.limit_le {merged : List Node} {start limit stop : Nat}
    (h : Passed nodes merged start limit stop a a') : limit ≤ stop := by
  rcases h.stop_eq with same | ⟨-, -, -, -, spans, -⟩ <;> omega

theorem Tiles.boundary {rest : List Node} {start stop : Nat} (tiles : Tiles start rest stop) :
    start = stop ∨ ∃ node ∈ rest, node.offset = start := by
  cases rest with
  | nil => exact .inl tiles
  | cons node rest => exact .inr ⟨node, by simp, tiles.1⟩

/-- One round may change what it likes in the free space, as long as it leaves a cursor alone that is
before the stretch or at its end. -/
theorem Passed.of_later {merged : List Node} {start start' limit stop : Nat}
    (h : Passed nodes' merged start' limit stop a' a'') (later : start ≤ start')
    (keeps : Keeps nodes a a') (still : taken nodes' = taken nodes)
    (unmoved : a.cursor ≤ start ∨ a.cursor = limit → a'.cursor = a.cursor) :
    Passed nodes merged start limit stop a a'' := by
  refine ⟨keeps.trans h.keeps still, h.nodes, h.stop_eq, ?_, fun before => ?_, fun lt same => ?_⟩
  · rw [← keeps.len]
    exact h.boundary
  · have stays := unmoved (.inl before)
    rw [← stays]
    exact h.ahead (by omega)
  · have stays := unmoved (.inr same)
    rw [← keeps.len]
    exact h.behind (by rw [stays, keeps.len]; exact lt) (stays.trans same)

namespace Stretch

variable {front back run : List Node} {first : Node} {start limit walked merged : Nat}

/-- A search that has passed a stretch is at its end. -/
theorem passed_over (s : Stretch pre [] back start limit walked a) :
    Passed (pre ++ back) (pre ++ back) start limit start a a := by
  have same : limit = start := s.limit_eq
  have hstart := s.start_eq
  obtain ⟨tiles, -⟩ := Buffer.nodes_eq_ok_iff.mp s.nodes
  obtain ⟨-, right⟩ := Tiles.append_iff_span.mp tiles
  rw [Nat.zero_add, ← hstart] at right
  refine ⟨.refl .., s.nodes, .inl same.symm, ?_, fun _ => rfl, fun lt at_limit => ?_⟩
  · rcases right.boundary with at_end | ⟨m, mem, here⟩
    · exact .inl at_end
    · exact .inr ⟨m, by simpa using .inr mem, here⟩
  · rw [wrap_of_lt (by omega)]
    omega

/-- The last run of a stretch may reach beyond it. -/
theorem passed_last (s : Stretch pre (first :: run) back start limit walked a)
    (hmerged : merged = first.size + (span run + span (back.takeWhile Node.isFree)))
    (nodes : (a.pass first.offset first.size merged).nodes =
      .ok (pre ++ ⟨first.offset, merged, false⟩ :: back.dropWhile Node.isFree))
    (keeps : Keeps (pre ++ (first :: run ++ back)) a (a.pass first.offset first.size merged)) :
    Passed (pre ++ (first :: run ++ back))
      (pre ++ ⟨first.offset, merged, false⟩ :: back.dropWhile Node.isFree) start limit
      (start + merged) a (a.pass first.offset first.size merged) := by
  obtain ⟨rfl, hsize, -, -⟩ := s.first_bounds
  have hlimit := s.limit_eq
  rw [span_cons] at hlimit
  have last : Tiles (first.offset + merged) (back.dropWhile Node.isFree) a.len := by
    have := (Buffer.nodes_eq_ok_iff.mp nodes).1.around.2.2.2
    rwa [← len_eq, len_pass] at this
  refine ⟨keeps, nodes, ?_, ?_, fun before => cursor_pass_of_le (.inl (by omega)), fun lt same => ?_⟩
  · by_cases at_limit : first.offset + merged = limit
    · exact .inl at_limit
    · refine .inr ⟨⟨first.offset, merged, false⟩, by simp, rfl, ?_, by omega, rfl⟩
      simp only
      omega
  · rcases last.boundary with at_end | ⟨m, mem, here⟩
    · exact .inl at_end
    · exact .inr ⟨m, by simpa using .inr (.inr mem), here⟩
  · by_cases spans : limit < first.offset + merged
    · exact cursor_pass_of_spans (by omega) (by omega) (by omega)
    · rw [cursor_pass_of_le (.inr (by omega)), wrap_of_lt (by omega)]
      omega

/-- When no free run before `limit` suffices, all of them are merged, and the search goes on behind
them. -/
theorem passed (n need : Nat) (s : Stretch pre front back start limit walked a)
    (none : ∀ m ∈ front.foldr join back, m.offset < limit → m.fits need = false) :
    ∃ stop a' records, search a.len n need (wrap a.len start) walked a =
        .after records (search a.len n need (wrap a.len stop) (walked + (stop - start)) a') ∧
      Passed (pre ++ (front ++ back)) (pre ++ front.foldr join back) start limit stop a a' := by
  induction front using runs_induction generalizing pre start walked a with
  | nil => exact ⟨start, a, [], by simp [Result.after], s.passed_over⟩
  | taken first rest htaken ih =>
    obtain ⟨step, next⟩ := s.skip n need htaken
    rw [List.foldr_cons, join_of_allocated htaken] at none ⊢
    obtain ⟨stop, a', records, goes_on, passed⟩ :=
      ih next fun m mem => none m (List.mem_cons_of_mem _ mem)
    have far := passed.limit_le
    have hlimit := next.limit_eq
    rw [show walked + first.size + (stop - (start + first.size)) = walked + (stop - start) by omega]
      at goes_on
    simp only [List.append_assoc, List.singleton_append] at passed
    exact ⟨stop, a', records, step.trans goes_on,
      passed.of_later (by omega) (.refl ..) rfl fun _ => rfl⟩
  | free first run rest hfree hrun hrest ih =>
    obtain ⟨merged, hmerged⟩ : ∃ merged, merged =
      first.size + (span run + span ((rest.foldr join back).takeWhile Node.isFree)) := ⟨_, rfl⟩
    obtain ⟨joined, nodes, still, keeps, records, step⟩ := s.merge n need hfree hrun hrest hmerged
    obtain ⟨rfl, -⟩ := s.first_bounds
    have short : ¬need ≤ merged := by
      have := none ⟨first.offset, merged, false⟩ (by rw [joined]; simp) s.start_lt
      simpa [Node.fits, Node.isFree] using this
    rw [if_neg short] at step
    rw [joined] at none ⊢
    cases rest with
    | nil =>
      simp only [List.append_nil, List.nil_append, List.foldr_nil] at s nodes keeps hmerged ⊢
      refine ⟨first.offset + merged, _, records, ?_, s.passed_last hmerged nodes keeps⟩
      rw [show walked + (first.offset + merged - first.offset) = walked + merged by omega]
      exact step
    | cons m rest =>
      obtain ⟨ends, kept, kept'⟩ := run_ends rest back (hrest m rfl)
      rw [ends, span_nil] at hmerged
      rw [kept] at none ⊢
      rw [kept'] at nodes still
      have next := s.next hmerged nodes
      obtain ⟨stop, a', records', goes_on, passed⟩ :=
        ih next fun m' mem => none m' (List.mem_cons_of_mem _ mem)
      have far := passed.limit_le
      have hlimit := next.limit_eq
      rw [List.append_assoc, List.append_assoc] at passed
      refine ⟨stop, a', records ++ records', ?_, passed.of_later (by omega) keeps still fun outside =>
        cursor_pass_of_le (by omega)⟩
      rw [len_pass, show walked + merged + (stop - (first.offset + merged)) =
        walked + (stop - first.offset) by omega] at goes_on
      rw [step, goes_on]
      simp [Result.after]

end Stretch

end MemoryTrial.Arena
