import MemoryTrial.Arena.Basic
import MemoryTrial.Proofs.Arena.Headers

/-! Tilings.  The nodes of a buffer that can be walked lie one after the other from its start to its
end, and each has its header in memory; `nodes_eq_ok_iff` says that this is all that the walk
checks.  The other walks are then functions of the nodes: `freeRun_eq`, `reaches_eq`, `check_eq` and
`takenNode_eq`. -/

namespace MemoryTrial.Arena

/-- The nodes lie one after the other from `start` to `stop`, and are made of whole words. -/
def Tiles : Nat → List Node → Nat → Prop
  | start, [], stop => start = stop
  | start, node :: rest, stop =>
    node.offset = start ∧ 8 ≤ node.size ∧ node.size % 8 = 0 ∧ Tiles node.stop rest stop

/-- The bytes of all nodes together. -/
def span : List Node → Nat
  | [] => 0
  | node :: rest => node.size + span rest

def Node.isFree (node : Node) : Bool := !node.allocated

@[simp] theorem Node.isFree_eq_true {node : Node} : node.isFree = true ↔ node.allocated = false := by
  simp [isFree]

@[simp] theorem Node.isFree_eq_false {node : Node} : node.isFree = false ↔ node.allocated = true := by
  simp [isFree]

@[simp] theorem span_nil : span [] = 0 := rfl

@[simp] theorem span_cons (node : Node) (rest : List Node) :
    span (node :: rest) = node.size + span rest := rfl

@[simp] theorem span_append (xs ys : List Node) : span (xs ++ ys) = span xs + span ys := by
  induction xs with
  | nil => simp
  | cons node rest ih => simp [ih, Nat.add_assoc]

namespace Tiles

variable {start stop : Nat} {nodes : List Node} {node node' : Node}

theorem append_iff {xs ys : List Node} :
    Tiles start (xs ++ ys) stop ↔ ∃ middle, Tiles start xs middle ∧ Tiles middle ys stop := by
  induction xs generalizing start with
  | nil => simp [Tiles]
  | cons node rest ih =>
    simp only [List.cons_append, Tiles, ih]
    constructor
    · rintro ⟨hoff, h8, hmod, middle, left, right⟩
      exact ⟨middle, ⟨hoff, h8, hmod, left⟩, right⟩
    · rintro ⟨middle, ⟨hoff, h8, hmod, left⟩, right⟩
      exact ⟨hoff, h8, hmod, middle, left, right⟩

theorem append {xs ys : List Node} {middle : Nat} (left : Tiles start xs middle)
    (right : Tiles middle ys stop) : Tiles start (xs ++ ys) stop :=
  append_iff.mpr ⟨middle, left, right⟩

theorem span_eq (h : Tiles start nodes stop) : start + span nodes = stop := by
  induction nodes generalizing start with
  | nil => exact h
  | cons node rest ih =>
    obtain ⟨hoff, -, -, hrest⟩ := h
    have := ih hrest
    simp only [Node.stop, span_cons] at this ⊢
    omega

/-- A part in the middle tiles what lies between its neighbours. -/
theorem append_iff_span {xs ys : List Node} :
    Tiles start (xs ++ ys) stop ↔
      Tiles start xs (start + span xs) ∧ Tiles (start + span xs) ys stop := by
  rw [append_iff]
  constructor
  · rintro ⟨middle, left, right⟩
    rw [left.span_eq]
    exact ⟨left, right⟩
  · rintro ⟨left, right⟩
    exact ⟨_, left, right⟩

theorem le (h : Tiles start nodes stop) : start ≤ stop := by
  have := h.span_eq
  omega

theorem aligned (h : Tiles start nodes stop) : stop % 8 = start % 8 := by
  induction nodes generalizing start with
  | nil => rw [show start = stop from h]
  | cons node rest ih =>
    obtain ⟨hoff, -, hmod, hrest⟩ := h
    have := ih hrest
    simp only [Node.stop] at this
    omega

theorem around {pre post : List Node} (h : Tiles start (pre ++ node :: post) stop) :
    Tiles start pre node.offset ∧ 8 ≤ node.size ∧ node.size % 8 = 0 ∧
      Tiles node.stop post stop := by
  obtain ⟨middle, left, hoff, h8, hmod, right⟩ := append_iff.mp h
  rw [← hoff] at left
  exact ⟨left, h8, hmod, right⟩

theorem bounds (h : Tiles start nodes stop) (mem : node ∈ nodes) :
    start ≤ node.offset ∧ node.offset % 8 = start % 8 ∧ 8 ≤ node.size ∧ node.size % 8 = 0 ∧
      node.stop ≤ stop := by
  obtain ⟨pre, post, rfl⟩ := List.append_of_mem mem
  obtain ⟨left, h8, hmod, right⟩ := h.around
  exact ⟨left.le, left.aligned, h8, hmod, right.le⟩

/-- Two nodes of a tiling are the same, or one ends before the other begins. -/
theorem eq_or_apart (h : Tiles start nodes stop) (mem : node ∈ nodes) (mem' : node' ∈ nodes) :
    node' = node ∨ node.stop ≤ node'.offset ∨ node'.stop ≤ node.offset := by
  obtain ⟨pre, post, rfl⟩ := List.append_of_mem mem
  obtain ⟨left, -, -, right⟩ := h.around
  rcases List.mem_append.mp mem' with before | after
  · exact .inr (.inr (left.bounds before).2.2.2.2)
  · rcases List.mem_cons.mp after with same | after
    · exact .inl same
    · exact .inr (.inl (right.bounds after).1)

theorem pairwise_lt (h : Tiles start nodes stop) : (nodes.map Node.offset).Pairwise (· < ·) := by
  induction nodes generalizing start with
  | nil => exact List.Pairwise.nil
  | cons node rest ih =>
    obtain ⟨-, h8, -, hrest⟩ := h
    refine List.pairwise_cons.mpr ⟨fun offset mem => ?_, ih hrest⟩
    obtain ⟨other, hother, rfl⟩ := List.mem_map.mp mem
    have := (hrest.bounds hother).1
    simp only [Node.stop] at this
    omega

theorem nodup (h : Tiles start nodes stop) : nodes.Nodup :=
  (List.pairwise_map.mp h.pairwise_lt).imp fun before same => by
    rw [same] at before
    exact Nat.lt_irrefl _ before

theorem eq_of_offset (h : Tiles start nodes stop) (mem : node ∈ nodes) (mem' : node' ∈ nodes)
    (same : node'.offset = node.offset) : node' = node := by
  have hb := h.bounds mem
  have hb' := h.bounds mem'
  rcases h.eq_or_apart mem mem' with eq | apart | apart
  · exact eq
  · simp only [Node.stop] at *; omega
  · simp only [Node.stop] at *; omega

theorem find?_offset (h : Tiles start nodes stop) (mem : node ∈ nodes) :
    nodes.find? (·.offset == node.offset) = some node := by
  cases found : nodes.find? (·.offset == node.offset) with
  | none => simpa using List.find?_eq_none.mp found node mem
  | some other =>
    have there : other.offset = node.offset := by simpa using List.find?_some found
    rw [h.eq_of_offset mem (List.mem_of_find?_eq_some found) there]

end Tiles

namespace Buffer

variable {b b' : Buffer} {nodes : List Node} {node : Node} {offset : Nat}

/-- The header of a node is in memory. -/
def Holds (b : Buffer) (node : Node) : Prop :=
  b.header node.offset = .ok ⟨node.size, node.allocated⟩

theorem nodesFrom_of_ok {h : Header} (hr : b.header offset = .ok h) :
    b.nodesFrom offset =
      (b.nodesFrom (offset + h.size)).map (⟨offset, h.size, h.allocated⟩ :: ·) := by
  conv => lhs; rw [nodesFrom, if_pos (header_bounds hr).1]
  split
  next hr' => rw [hr] at hr'; cases hr'
  next hr' =>
    rw [hr] at hr'
    cases hr'
    cases b.nodesFrom (offset + h.size) <;> rfl

theorem nodesFrom_of_error {p : Panic} (before : offset < b.len)
    (hr : b.header offset = .error p) : b.nodesFrom offset = .error p := by
  rw [nodesFrom, if_pos before]
  split
  next hr' => rw [hr] at hr'; cases hr'; rfl
  next hr' => rw [hr] at hr'; cases hr'

/-- The walk from `offset` finds the nodes that tile the rest of the buffer and have their headers
in memory. -/
theorem nodesFrom_eq_ok_iff (inside : offset ≤ b.len) :
    b.nodesFrom offset = .ok nodes ↔
      Tiles offset nodes b.len ∧ ∀ node ∈ nodes, b.Holds node := by
  induction nodes generalizing offset with
  | nil =>
    by_cases before : offset < b.len
    · have open_end : ¬Tiles offset [] b.len := fun h => Nat.ne_of_lt before h
      cases hr : b.header offset with
      | error p => simp [nodesFrom_of_error before hr, open_end]
      | ok h =>
        rw [nodesFrom_of_ok hr]
        cases b.nodesFrom (offset + h.size) <;> simp [Except.map, open_end]
    · have at_end : offset = b.len := by omega
      simp [nodesFrom, Tiles, at_end]
  | cons node rest ih =>
    by_cases before : offset < b.len
    · cases hr : b.header offset with
      | error p =>
        simp only [nodesFrom_of_error before hr, Tiles, List.forall_mem_cons, Holds, reduceCtorEq,
          false_iff]
        rintro ⟨⟨rfl, -⟩, held, -⟩
        rw [hr] at held
        cases held
      | ok h =>
        have bounds := header_bounds hr
        have step : b.nodesFrom offset = .ok (node :: rest) ↔
            node = ⟨offset, h.size, h.allocated⟩ ∧ b.nodesFrom (offset + h.size) = .ok rest := by
          rw [nodesFrom_of_ok hr]
          cases b.nodesFrom (offset + h.size) <;> simp [Except.map, eq_comm]
        rw [step, ih bounds.2.2.2]
        constructor
        · rintro ⟨rfl, tiles, held⟩
          exact ⟨⟨rfl, bounds.2.1, bounds.2.2.1, tiles⟩, List.forall_mem_cons.mpr ⟨hr, held⟩⟩
        · rintro ⟨⟨rfl, -, -, tiles⟩, held⟩
          obtain ⟨first, others⟩ := List.forall_mem_cons.mp held
          rw [Holds, hr] at first
          cases first
          exact ⟨rfl, tiles, others⟩
    · rw [nodesFrom, if_neg before]
      simp only [Tiles, Except.ok.injEq, reduceCtorEq, false_iff]
      rintro ⟨⟨hoff, h8, -, tiles⟩, -⟩
      have := tiles.le
      simp only [Node.stop] at this
      omega

/-- The nodes of a buffer tile it and have their headers in memory. -/
theorem nodes_eq_ok_iff :
    b.nodes = .ok nodes ↔ Tiles 0 nodes b.len ∧ ∀ node ∈ nodes, b.Holds node :=
  nodesFrom_eq_ok_iff (Nat.zero_le _)

/-- A free run takes in the free nodes that follow. -/
theorem freeRun_eq {offset run : Nat} (tiles : Tiles (offset + run) nodes b.len)
    (held : ∀ node ∈ nodes, b.Holds node) :
    b.freeRun offset run = .ok (run + span (nodes.takeWhile Node.isFree)) := by
  induction nodes generalizing run with
  | nil => rw [freeRun, if_pos (show offset + run = b.len from tiles)]; rfl
  | cons node rest ih =>
    obtain ⟨hoff, h8, -, hrest⟩ := tiles
    obtain ⟨first, others⟩ := List.forall_mem_cons.mp held
    have before := hrest.le
    simp only [Node.stop] at before hrest
    rw [Holds, hoff] at first
    rw [freeRun, if_neg (by omega)]
    split
    next hr => rw [first] at hr; cases hr
    next h hr =>
      rw [first] at hr
      cases hr
      cases free : node.allocated with
      | true => simp [Node.isFree, free]
      | false =>
        have := @ih (run + node.size) (by rw [← Nat.add_assoc, ← hoff]; exact hrest) others
        simpa [Node.isFree, free, Nat.add_assoc] using this

/-- The walk comes by a node at `target` exactly if there is one. -/
theorem reaches_eq {target : Nat} (tiles : Tiles offset nodes b.len)
    (held : ∀ node ∈ nodes, b.Holds node) :
    b.reaches target offset = .ok (nodes.any (·.offset == target)) := by
  induction nodes generalizing offset with
  | nil => rw [reaches, if_neg (by rw [show offset = b.len from tiles]; omega)]; rfl
  | cons node rest ih =>
    obtain ⟨rfl, h8, -, hrest⟩ := tiles
    obtain ⟨first, others⟩ := List.forall_mem_cons.mp held
    have before := hrest.le
    simp only [Node.stop] at before
    rw [reaches, if_pos (by omega)]
    split
    next hr => rw [first] at hr; cases hr
    next h hr =>
      rw [first] at hr
      cases hr
      rw [List.any_cons]
      split
      next passed =>
        have none_left : rest.any (·.offset == target) = false := by
          rw [List.any_eq_false]
          intro other mem
          have := hrest.bounds mem
          simp only [Node.stop] at this
          simp only [beq_iff_eq]
          omega
        rw [none_left, beq_eq_false_iff_ne.mpr (by omega)]
        rfl
      next ahead =>
        split
        next here => rw [here, beq_self_eq_true, Bool.true_or]
        next elsewhere =>
          rw [beq_eq_false_iff_ne.mpr elsewhere, Bool.false_or]
          exact ih hrest others

/-- A check walks as `nodes` does.  It answers with the violation that ends this walk; when the walk
gets to the end, the cursor must be on one of the nodes. -/
theorem checkFrom_eq (b : Buffer) (cursor offset : Nat) (seen : Bool) :
    b.checkFrom cursor offset seen =
      match b.nodesFrom offset with
      | .ok nodes =>
        if seen || nodes.any (·.offset == cursor) then .ok (.ok ())
        else .ok (.error (.corruptHeader cursor ((b.word? (cursor / 8)).getD 0)))
      | .error (.violation v) => .ok (.error v)
      | .error p => .error p := by
  fun_induction checkFrom b cursor offset seen with
  | case1 offset seen before missing =>
    have hr : b.header offset = .error (.outOfRange (b.len / 8) (offset / 8)) := by
      rw [header, missing]
    rw [nodesFrom_of_error before hr]
  | case2 offset seen before raw found fits ih =>
    have hr : b.header offset = .ok (Header.ofWord raw) := by
      simp only [header, found]
      exact if_pos fits
    rw [ih, nodesFrom_of_ok hr]
    cases b.nodesFrom (offset + (Header.ofWord raw).size) with
    | ok rest => simp [Except.map, or_assoc]
    | error p => cases p <;> rfl
  | case3 offset seen before raw found misfit =>
    have hr : b.header offset = .error (.violation (.corruptHeader offset raw)) := by
      simp only [header, found]
      exact if_neg misfit
    rw [nodesFrom_of_error before hr]
  | case4 offset after => simp [nodesFrom, after]
  | case5 offset seen after unseen =>
    rw [nodesFrom, if_neg after]
    simp [Bool.eq_false_iff.mpr unseen]

end Buffer

variable {a : Arena} {nodes : List Node} {node : Node}

theorem nodes_eq (a : Arena) : a.nodes = a.buffer.nodes := rfl

theorem len_eq (a : Arena) : a.len = a.buffer.len := rfl

theorem check_eq_ok_iff (h : a.nodes = .ok nodes) :
    a.check = .ok (.ok ()) ↔ ∃ node ∈ nodes, node.offset = a.cursor := by
  rw [check, Buffer.checkFrom_eq, show a.buffer.nodesFrom 0 = .ok nodes from h]
  simp only [Bool.false_or]
  split
  next found => simpa using found
  next missing => simpa using missing

/-- What becomes of a pointer whose payload is asked for: it must lie in the buffer, be aligned,
belong to a node, and that node must be handed out. -/
theorem takenNode_eq (h : a.nodes = .ok nodes) (p : Ptr) (misuse : Ptr → Violation) :
    a.takenNode p misuse =
      if p.addr < headerSize ∨ a.len < p.addr then .error (.violation (.outOfBounds p a.len))
      else if p.addr % headerSize ≠ 0 then .error (.violation (.misalignedPointer p))
      else
        match nodes.find? (·.offset == p.addr - headerSize) with
        | none => .error (.violation (.unknownPointer p))
        | some node => if node.allocated then .ok node else .error (.violation (misuse p)) := by
  obtain ⟨tiles, held⟩ := Buffer.nodes_eq_ok_iff.mp h
  rw [takenNode, nodeOf]
  split
  next outside => rfl
  split
  next crooked => rfl
  rw [Buffer.reaches_eq tiles held]
  cases found : nodes.find? (·.offset == p.addr - headerSize) with
  | none =>
    have missing : nodes.any (·.offset == p.addr - headerSize) = false := by
      rw [List.any_eq_false]
      exact List.find?_eq_none.mp found
    simp [missing, bind, Except.bind]
  | some node =>
    have mem := List.mem_of_find?_eq_some found
    have here : node.offset = p.addr - headerSize := by simpa using List.find?_some found
    have present : nodes.any (·.offset == p.addr - headerSize) = true :=
      List.any_eq_true.mpr ⟨node, mem, by simpa using here⟩
    have header := held node mem
    rw [Buffer.Holds, here] at header
    simp only [present, bind, Except.bind, if_true, header]
    cases taken : node.allocated with
    | true => simp [← here, ← taken]
    | false => simp

/-- A pointer names the node that is handed out and has its payload there. -/
theorem takenNode_eq_ok_iff (h : a.nodes = .ok nodes) {p : Ptr} {misuse : Ptr → Violation} :
    a.takenNode p misuse = .ok node ↔
      node ∈ nodes ∧ node.allocated = true ∧ node.address = p.addr := by
  obtain ⟨tiles, -⟩ := Buffer.nodes_eq_ok_iff.mp h
  rw [takenNode_eq h]
  constructor
  · intro found
    split at found
    · cases found
    split at found
    · cases found
    split at found
    · cases found
    next node' hit =>
      split at found
      · cases found
        have here : node.offset = p.addr - headerSize := by simpa using List.find?_some hit
        refine ⟨List.mem_of_find?_eq_some hit, by assumption, ?_⟩
        simp only [Node.address, headerSize] at *
        omega
      · cases found
  · rintro ⟨mem, taken, here⟩
    obtain ⟨-, halign, h8, -, hstop⟩ := tiles.bounds mem
    simp only [Node.address, Node.stop, headerSize] at here hstop
    have inside : ¬(p.addr < headerSize ∨ a.len < p.addr) := by
      simp only [headerSize, len_eq]
      omega
    have straight : ¬p.addr % headerSize ≠ 0 := by
      simp only [headerSize]
      omega
    have start : node.offset = p.addr - headerSize := by
      simp only [headerSize]
      omega
    have hit : nodes.find? (·.offset == p.addr - headerSize) = some node := by
      rw [← start]
      exact tiles.find?_offset mem
    rw [if_neg inside, if_neg straight, hit]
    exact if_pos taken

end MemoryTrial.Arena
