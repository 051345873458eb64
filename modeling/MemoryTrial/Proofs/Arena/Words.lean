import MemoryTrial.Allocator
import MemoryTrial.Proofs.Arena.Tiling

/-! Arenas in machine words.  The requests of an arena compute with numbers of any size and write
without asking whether they may.  `Checked` holds the same requests with the limits of a machine: a
sum that does not fit a word, a difference below zero and an access outside the buffer are panics.
`Checked.perform_eq` says that they are the same requests, so none of these panics ever occurs. -/

namespace MemoryTrial

namespace Op

variable {σ α β : Type} {x x' : Op σ α} {f f' : α → Op σ β} {s : σ}

theorem bind_congr (hx : x s = x' s)
    (hf : ∀ a s' records, x' s = ⟨.ok a, s', records⟩ → f a s' = f' a s') :
    (x >>= f) s = (x' >>= f') s := by
  rw [bind_run, bind_run, hx]
  cases h : x' s with
  | mk value s' records =>
    cases value with
    | error p => rfl
    | ok a =>
      dsimp only
      rw [hf a s' records h]

theorem bind_guard (g : σ → Except Panic Unit) {y : Op σ β} (h : g s = .ok ()) :
    (inspect g >>= fun _ => y) s = y s := bind_of_ok (inspect_of_ok h)

theorem inspect_eq_ok {g : σ → Except Panic α} {a : α} {s' : σ} {records : List Record}
    (h : inspect g s = ⟨.ok a, s', records⟩) : g s = .ok a ∧ s' = s := by
  cases hg : g s with
  | ok b =>
    rw [inspect_of_ok hg] at h
    cases h
    exact ⟨rfl, rfl⟩
  | error p =>
    rw [inspect_of_error hg] at h
    cases h

end Op

namespace Arena.Checked

/-- What is raised by arithmetic whose result is no word. -/
def overflow : Panic := .message "arithmetic overflow"

def add (a b : Nat) : Except Panic Nat :=
  if a + b < wordLimit then .ok (a + b) else .error overflow

def sub (a b : Nat) : Except Panic Nat := if b ≤ a then .ok (a - b) else .error overflow

/-- A header may be written at `offset`. -/
def writable (b : Buffer) (offset : Nat) : Except Panic Unit :=
  if offset / 8 < b.len / 8 then .ok () else .error (.outOfRange (b.len / 8) (offset / 8))

/-- The bytes from `start` up to `stop` are bytes of the buffer. -/
def within (b : Buffer) (start stop : Nat) : Except Panic Unit :=
  if start ≤ stop ∧ stop ≤ b.len then .ok () else .error (.message "range is out of bounds")

def header (b : Buffer) (offset : Nat) : Except Panic Header :=
  match b.word? (offset / 8) with
  | none => .error (.outOfRange (b.len / 8) (offset / 8))
  | some raw =>
    if (Header.ofWord raw).size < 8 ∨ (Header.ofWord raw).size % 8 ≠ 0 then
      .error (.violation (.corruptHeader offset raw))
    else do
      let room ← sub b.len offset
      if room < (Header.ofWord raw).size then .error (.violation (.corruptHeader offset raw))
      else .ok (Header.ofWord raw)

variable {b : Buffer} {a : Arena} {offset size need : Nat} {h : Header}

theorem header_eq (b : Buffer) (offset : Nat) : header b offset = b.header offset := by
  unfold header Buffer.header
  cases hw : b.word? (offset / 8) with
  | none => rfl
  | some raw =>
    have inside := Buffer.lt_of_word?_eq_some hw
    have difference : sub b.len offset = .ok (b.len - offset) := if_pos (by omega)
    simp only [difference, bind, Except.bind]
    by_cases small : (Header.ofWord raw).size < 8 ∨ (Header.ofWord raw).size % 8 ≠ 0
    · rw [if_pos small, if_neg fun fits => by
        obtain ⟨h8, whole, -⟩ := fits
        omega]
    · rw [if_neg small]
      by_cases room : (Header.ofWord raw).size ≤ b.len - offset
      · rw [if_neg (by omega), if_pos ⟨by omega, by omega, room⟩]
      · rw [if_pos (by omega), if_neg fun fits => room fits.2.2]

theorem len_lt (b : Buffer) : b.len < memoryLimit := b.bounded

theorem add_eq {x y : Nat} (hx : x ≤ b.len) (hy : y ≤ b.len) : add x y = .ok (x + y) := by
  have := len_lt b
  simp only [memoryLimit] at this
  exact if_pos (by simp only [wordLimit]; omega)

theorem writable_eq (inside : offset < b.len) : writable b offset = .ok () := by
  have whole : b.len % 8 = 0 := b.aligned
  exact if_pos (by omega)

/-- Whether the walk from `offset` comes by a node at `target`. -/
def reaches (b : Buffer) (target offset : Nat) : Except Panic Bool :=
  if offset < b.len then
    match _hr : header b offset with
    | .error p => .error p
    | .ok h =>
      match _hn : add offset h.size with
      | .error p => .error p
      | .ok next =>
        if target < offset then .ok false
        else if offset = target then .ok true
        else reaches b target next
  else .ok false
termination_by b.len - offset
decreasing_by
  rw [header_eq] at _hr
  have bounds := Buffer.header_bounds _hr
  have sum := add_eq (b := b) (x := offset) (y := h.size) (by omega) (by omega)
  cases sum.symm.trans _hn
  omega

theorem reaches_eq (b : Buffer) (target offset : Nat) :
    reaches b target offset = b.reaches target offset := by
  induction hn : b.len - offset using Nat.strongRecOn generalizing offset with
  | _ n ih =>
    rw [reaches, Buffer.reaches]
    by_cases before : offset < b.len
    · rw [if_pos before, if_pos before, header_eq]
      cases hr : b.header offset with
      | error p => rfl
      | ok h =>
        have bounds := Buffer.header_bounds hr
        dsimp only
        rw [add_eq (b := b) (by omega) (by omega)]
        dsimp only
        rw [ih (b.len - (offset + h.size)) (by omega) (offset + h.size) rfl]
    · rw [if_neg before, if_neg before]

/-- The bytes of a free run, as `Buffer.freeRun` counts them. -/
def freeRun (b : Buffer) (offset run : Nat) : Except Panic Nat :=
  match _hn : add offset run with
  | .error p => .error p
  | .ok next =>
    if next = b.len then .ok run
    else
      match _hr : header b next with
      | .error p => .error p
      | .ok h =>
        if h.allocated then .ok run
        else
          match _hs : add run h.size with
          | .error p => .error p
          | .ok longer => freeRun b offset longer
termination_by b.len - (offset + run)
decreasing_by
  rw [header_eq] at _hr
  have bounds := Buffer.header_bounds _hr
  unfold add at _hn _hs
  split at _hn
  · cases _hn
    split at _hs
    · cases _hs
      omega
    · cases _hs
  · cases _hn

theorem freeRun_eq (b : Buffer) {offset run : Nat} (inside : offset + run ≤ b.len) :
    freeRun b offset run = b.freeRun offset run := by
  induction hn : b.len - (offset + run) using Nat.strongRecOn generalizing run with
  | _ n ih =>
    rw [freeRun, Buffer.freeRun, add_eq (b := b) (by omega) (by omega)]
    dsimp only
    by_cases done : offset + run = b.len
    · rw [if_pos done, if_pos done]
    · rw [if_neg done, if_neg done, header_eq]
      cases hr : b.header (offset + run) with
      | error p => rfl
      | ok h =>
        have bounds := Buffer.header_bounds hr
        dsimp only
        rw [add_eq (b := b) (by omega) (by omega)]
        dsimp only
        rw [ih (b.len - (offset + (run + h.size))) (by omega) (by omega) rfl]

theorem freeRun_le {merged run : Nat} (inside : offset + run ≤ b.len)
    (hm : b.freeRun offset run = .ok merged) : offset + merged ≤ b.len := by
  fun_induction Buffer.freeRun b offset run with
  | case1 => cases hm; omega
  | case2 => cases hm
  | case3 => cases hm; exact inside
  | case4 run _ _ hr _ ih =>
    have bounds := Buffer.header_bounds hr
    exact ih (by omega) hm

def successor (a : Arena) (offset size : Nat) : Except Panic Nat := do
  let next ← add offset size
  .ok (if next = a.len then 0 else next)

theorem successor_eq (inside : offset + size ≤ a.len) :
    successor a offset size = .ok (a.successor offset size) := by
  rw [len_eq] at inside
  rw [successor, add_eq (b := a.buffer) (by omega) (by omega)]
  rfl

/-- What `Arena.split` computes and where it writes. -/
def splits (a : Arena) (offset size need : Nat) : Except Panic Unit := do
  writable a.buffer offset
  if need < size then
    let rest ← add offset need
    let _ ← sub size need
    writable a.buffer rest

theorem splits_eq (inside : offset + size ≤ a.len) (pos : 0 < size) (fits : need ≤ size) :
    splits a offset size need = .ok () := by
  rw [len_eq] at inside
  have here : writable a.buffer offset = .ok () := writable_eq (by omega)
  rw [splits, here]
  by_cases short : need < size
  · have rest := add_eq (b := a.buffer) (x := offset) (y := need) (by omega) (by omega)
    have there : writable a.buffer (offset + need) = .ok () := writable_eq (by omega)
    simp [short, rest, there, bind, Except.bind, sub, fits]
  · simp [short, bind, Except.bind, pure, Except.pure]

theorem payload_pos (offset : Nat) : 0 < offset + headerSize := Nat.succ_pos _

def takeNode (offset need : Nat) : Op Arena Ptr := do
  let h ← Op.inspect fun a => header a.buffer offset
  if h.size < need then
    Op.raise (.message "assertion failed: need <= size")
  else
    Op.inspect fun a => splits a offset h.size need
    Op.modify fun a => a.split offset h.size need
    let _ ← Op.inspect fun _ => add offset headerSize
    return ⟨offset + headerSize, payload_pos offset⟩

theorem takeNode_eq (offset need : Nat) (a : Arena) :
    takeNode offset need a = Arena.takeNode offset need a := by
  refine Op.bind_congr (by rw [Op.inspect, Op.inspect, header_eq]) fun h a' records read => ?_
  obtain ⟨hr, rfl⟩ := Op.inspect_eq_ok read
  have bounds := Buffer.header_bounds hr
  split
  next => rfl
  next fits =>
    have fitting : splits a' offset h.size need = .ok () :=
      splits_eq bounds.2.2.2 (by omega) (by omega)
    have sum := add_eq (b := a'.buffer) (x := offset) (y := headerSize) (by omega)
      (by simp only [headerSize]; omega)
    refine (Op.bind_guard (fun a => splits a offset h.size need) fitting).trans ?_
    refine Op.bind_congr rfl fun _ a'' _ _ => ?_
    exact Op.bind_of_ok (Op.inspect_of_ok (f := fun _ => add offset headerSize) sum)

def place (n need offset : Nat) : Op Arena (Option Ptr) := do
  let p ← takeNode offset need
  Op.log (.grabPlaced n offset)
  return some p

theorem place_eq (n need offset : Nat) (a : Arena) :
    place n need offset a = Arena.place n need offset a :=
  Op.bind_congr (takeNode_eq offset need a) fun _ _ _ _ => rfl

/-- The free node at `offset` is merged with those behind it, if there are any. -/
def coalesce (offset size : Nat) (a : Arena) : Except Panic (Nat × Arena × List Record) := do
  let merged ← freeRun a.buffer offset size
  if merged = size then .ok (merged, a, [])
  else
    writable a.buffer offset
    let _ ← add offset merged
    .ok (merged, a.merge offset merged, [.coalesced size merged offset])

theorem coalesce_eq (hr : a.buffer.header offset = .ok h) :
    coalesce offset h.size a = (a.buffer.freeRun offset h.size).map fun merged =>
      if merged = h.size then (merged, a, [])
      else (merged, a.merge offset merged, [.coalesced h.size merged offset]) := by
  have bounds := Buffer.header_bounds hr
  rw [coalesce, freeRun_eq _ bounds.2.2.2]
  cases hm : a.buffer.freeRun offset h.size with
  | error p => rfl
  | ok merged =>
    have inside := freeRun_le bounds.2.2.2 hm
    have sum := add_eq (b := a.buffer) (x := offset) (y := merged) (by omega) (by omega)
    simp only [bind, Except.bind, Except.map, writable_eq bounds.1, sum]
    split <;> rfl

/-- What a search finds at a node: the bytes that are free there or the size of its block, and what
merging leaves. -/
def visit (h : Header) (offset : Nat) (a : Arena) : Except Panic (Nat × Arena × List Record) :=
  if h.allocated then .ok (h.size, a, []) else coalesce offset h.size a

theorem visit_bounds {merged : Nat} {a' : Arena} {records : List Record}
    (hr : a.buffer.header offset = .ok h) (hv : visit h offset a = .ok (merged, a', records)) :
    8 ≤ merged ∧ offset + merged ≤ a.len ∧ a'.len = a.len := by
  have bounds := Buffer.header_bounds hr
  unfold visit at hv
  split at hv
  · cases hv
    exact ⟨bounds.2.1, bounds.2.2.2, rfl⟩
  · rw [coalesce_eq hr] at hv
    cases hm : a.buffer.freeRun offset h.size with
    | error p =>
      rw [hm] at hv
      cases hv
    | ok run =>
      have longer := Buffer.le_freeRun hm
      have inside := freeRun_le bounds.2.2.2 hm
      rw [hm, Except.map] at hv
      split at hv
      · cases hv
        exact ⟨by omega, inside, rfl⟩
      · cases hv
        exact ⟨by omega, inside, Buffer.len_setHeader ..⟩

/-- Where a search goes on after the `size` bytes at `offset`, and how far it has come then. -/
def onward (a : Arena) (offset size walked : Nat) : Except Panic (Nat × Nat) := do
  let further ← add walked size
  let next ← successor a offset size
  .ok (next, further)

theorem onward_eq {walked : Nat} (inside : offset + size ≤ a.len) (before : walked < a.len) :
    onward a offset size walked = .ok (a.successor offset size, walked + size) := by
  have sum := add_eq (b := a.buffer) (x := walked) (y := size) (by rw [← len_eq]; omega)
    (by rw [← len_eq]; omega)
  rw [onward, sum, successor_eq inside]
  rfl

theorem onward_eq_ok {walked next further : Nat}
    (h : onward a offset size walked = .ok (next, further)) : further = walked + size := by
  unfold onward add at h
  split at h
  · cases hs : successor a offset size with
    | error p =>
      rw [hs] at h
      cases h
    | ok next =>
      rw [hs] at h
      cases h
      rfl
  · cases h

def search (len n need offset walked : Nat) (a : Arena) : Result Arena (Option Ptr) :=
  if walked < len then
    match _hr : header a.buffer offset with
    | .error p => Op.raise p a
    | .ok h =>
      match _hv : visit h offset a with
      | .error p => Op.raise p a
      | .ok (size, a', records) =>
        Result.after records <|
          if h.allocated = false ∧ need ≤ size then place n need offset a'
          else
            match _ho : onward a' offset size walked with
            | .error p => Op.raise p a'
            | .ok (next, further) => search len n need next further a'
  else ⟨.ok none, a, [.grabFailed n need]⟩
termination_by len - walked
decreasing_by
  rw [header_eq] at _hr
  have bounds := visit_bounds _hr _hv
  have := onward_eq_ok _ho
  omega

section Search

variable {len n walked : Nat}

theorem search_of_error {p : Panic} (more : walked < len) (hr : a.buffer.header offset = .ok h)
    (hv : visit h offset a = .error p) : search len n need offset walked a = Op.raise p a := by
  rw [← header_eq] at hr
  rw [search, if_pos more]
  split
  next hr' => rw [hr] at hr'; cases hr'
  next hr' =>
    rw [hr] at hr'
    cases hr'
    split
    next hv' => rw [hv] at hv'; cases hv'; rfl
    next hv' => rw [hv] at hv'; cases hv'

theorem search_of_visit {a' : Arena} {records : List Record} (more : walked < a.len)
    (hr : a.buffer.header offset = .ok h) (hv : visit h offset a = .ok (size, a', records)) :
    search a.len n need offset walked a = .after records
      (if h.allocated = false ∧ need ≤ size then place n need offset a'
      else search a.len n need (a'.successor offset size) (walked + size) a') := by
  obtain ⟨-, inside, whole⟩ := visit_bounds hr hv
  have onward : onward a' offset size walked = .ok (a'.successor offset size, walked + size) :=
    onward_eq (by omega) (by omega)
  rw [← header_eq] at hr
  conv => lhs; rw [search, if_pos more]
  split
  next hr' => rw [hr] at hr'; cases hr'
  next hr' =>
    rw [hr] at hr'
    cases hr'
    split
    next hv' => rw [hv] at hv'; cases hv'
    next hv' =>
      rw [hv] at hv'
      cases hv'
      refine congrArg (Result.after _) (ite_congr rfl (fun _ => rfl) fun _ => ?_)
      split
      next ho => rw [onward] at ho; cases ho
      next ho => rw [onward] at ho; cases ho; rfl

theorem search_eq (n need offset walked : Nat) (a : Arena) :
    search a.len n need offset walked a = Arena.search a.len n need offset walked a := by
  induction hk : a.len - walked using Nat.strongRecOn generalizing offset walked a with
  | _ k ih =>
    by_cases more : walked < a.len
    · have further {size : Nat} {a' : Arena} (h8 : 8 ≤ size) (whole : a'.len = a.len) :
          search a.len n need (a'.successor offset size) (walked + size) a' =
            Arena.search a.len n need (a'.successor offset size) (walked + size) a' := by
        rw [← whole]
        exact ih (a.len - (walked + size)) (by omega) _ _ _ (by rw [whole])
      rw [Arena.search, if_pos more]
      split
      next p hr =>
        rw [← header_eq] at hr
        rw [search, if_pos more]
        split
        next hr' => rw [hr] at hr'; cases hr'; rfl
        next hr' => rw [hr] at hr'; cases hr'
      next h hr =>
        have bounds := Buffer.header_bounds hr
        split
        next taken =>
          have here : visit h offset a = .ok (h.size, a, []) := if_pos taken
          rw [search_of_visit more hr here, Result.after_nil, if_neg (by simp [taken])]
          exact further bounds.2.1 rfl
        next free =>
          have here : visit h offset a = coalesce offset h.size a := if_neg free
          rw [coalesce_eq hr] at here
          split
          next hm =>
            rw [hm] at here
            exact search_of_error more hr here
          next merged hm =>
            have longer := Buffer.le_freeRun hm
            rw [hm, Except.map] at here
            split
            next alone =>
              rw [if_pos alone] at here
              rw [search_of_visit more hr here, Result.after_nil, place_eq, alone,
                further bounds.2.1 rfl]
              simp [free]
            next =>
              have still : (a.merge offset merged).len = a.len := Buffer.len_setHeader ..
              rw [if_neg ‹_›] at here
              rw [search_of_visit more hr here, place_eq, further (by omega) still]
              have same : (a.merge offset merged).successor offset merged =
                  a.successor offset merged := by rw [Arena.successor, Arena.successor, still]
              simp [free, same]
    · rw [search, Arena.search, if_neg more, if_neg more]

end Search

def grab (n : Nat) : Op Arena (Option Ptr) := do
  Op.inspect ensureLive
  let len ← Op.read Arena.len
  match (blockSize n).filter (· ≤ len) with
  | some need => fun a => search len n need a.cursor 0 a
  | none =>
    Op.log (.grabTooLarge n)
    return none

theorem grab_eq (n : Nat) (a : Arena) : grab n a = Arena.grab n a := by
  refine Op.bind_congr rfl fun _ a' _ _ => Op.bind_congr rfl fun len a'' _ read => ?_
  cases read
  cases (blockSize n).filter (· ≤ a'.len) with
  | none => rfl
  | some need => exact search_eq n need _ 0 a'

def nodeOf (a : Arena) (p : Ptr) : Except Panic Nat :=
  if p.addr < headerSize ∨ a.len < p.addr then .error (.violation (.outOfBounds p a.len))
  else if p.addr % headerSize ≠ 0 then .error (.violation (.misalignedPointer p))
  else do
    let offset ← sub p.addr headerSize
    let found ← reaches a.buffer offset 0
    if found then .ok offset else .error (.violation (.unknownPointer p))

def takenNode (a : Arena) (p : Ptr) (misuse : Ptr → Violation) : Except Panic Node := do
  let offset ← nodeOf a p
  let h ← header a.buffer offset
  if h.allocated then .ok ⟨offset, h.size, true⟩ else .error (.violation (misuse p))

variable {p : Ptr} {misuse : Ptr → Violation} {node : Node}

theorem takenNode_eq (a : Arena) (p : Ptr) (misuse : Ptr → Violation) :
    takenNode a p misuse = a.takenNode p misuse := by
  have same : nodeOf a p = a.nodeOf p := by
    unfold nodeOf Arena.nodeOf
    by_cases outside : p.addr < headerSize ∨ a.len < p.addr
    · rw [if_pos outside, if_pos outside]
    · have difference : sub p.addr headerSize = .ok (p.addr - headerSize) := if_pos (by omega)
      rw [difference]
      simp only [bind, Except.bind, reaches_eq]
  unfold takenNode Arena.takenNode
  simp only [same, header_eq]

theorem nodeOf_eq_ok (ho : a.nodeOf p = .ok offset) : offset + headerSize = p.addr := by
  unfold Arena.nodeOf at ho
  split at ho
  · cases ho
  split at ho
  · cases ho
  cases found : a.buffer.reaches (p.addr - headerSize) 0 with
  | error panic =>
    rw [found] at ho
    cases ho
  | ok hit =>
    rw [found] at ho
    cases hit with
    | true =>
      cases ho
      omega
    | false => cases ho

theorem takenNode_bounds (named : a.takenNode p misuse = .ok node) :
    node.address = p.addr ∧ 8 ≤ node.size ∧ node.stop ≤ a.len := by
  unfold Arena.takenNode at named
  cases ho : a.nodeOf p with
  | error panic =>
    rw [ho] at named
    cases named
  | ok offset =>
    have here := nodeOf_eq_ok ho
    rw [ho] at named
    cases hr : a.buffer.header offset with
    | error panic =>
      simp only [bind, Except.bind, hr] at named
      cases named
    | ok h =>
      have bounds := Buffer.header_bounds hr
      simp only [bind, Except.bind, hr] at named
      split at named
      · cases named
        exact ⟨here, bounds.2.1, bounds.2.2.2⟩
      · cases named

/-- The bytes of a payload lie in the buffer. -/
def bounded (a : Arena) (node : Node) : Except Panic Unit := do
  let start ← add node.offset headerSize
  let stop ← add node.offset node.size
  within a.buffer start stop

theorem bounded_eq (named : 8 ≤ node.size ∧ node.stop ≤ a.len) : bounded a node = .ok () := by
  obtain ⟨h8, hstop⟩ := named
  simp only [Node.stop, len_eq] at hstop
  have start := add_eq (b := a.buffer) (x := node.offset) (y := headerSize) (by omega)
    (by simp only [headerSize]; omega)
  have stop := add_eq (b := a.buffer) (x := node.offset) (y := node.size) (by omega) (by omega)
  simp only [bounded, start, stop, bind, Except.bind]
  exact if_pos ⟨by simp only [headerSize]; omega, hstop⟩

/-- What `Arena.freeNode` writes. -/
def frees (a : Arena) (node : Node) : Except Panic Unit := do
  writable a.buffer node.offset
  if a.poison then bounded a node

theorem frees_eq (named : 8 ≤ node.size ∧ node.stop ≤ a.len) : frees a node = .ok () := by
  have here : writable a.buffer node.offset = .ok () := writable_eq (by
    obtain ⟨h8, hstop⟩ := named
    simp only [Node.stop, len_eq] at hstop
    omega)
  simp only [frees, here, bounded_eq named, bind, Except.bind]
  split <;> rfl

def release (p : Ptr) : Op Arena Unit := do
  Op.inspect ensureLive
  let node ← Op.inspect fun a => takenNode a p .doubleRelease
  Op.inspect fun a => frees a node
  Op.modify fun a => a.freeNode node
  Op.log (.released node.offset node.size)

theorem release_eq (p : Ptr) (a : Arena) : release p a = Arena.release p a := by
  refine Op.bind_congr rfl fun _ a _ _ => ?_
  refine Op.bind_congr (by rw [Op.inspect, Op.inspect, takenNode_eq]) fun node a' _ read => ?_
  obtain ⟨named, rfl⟩ := Op.inspect_eq_ok read
  exact Op.bind_guard (fun a => frees a node) (frees_eq (takenNode_bounds named).2)

def copyBytes (source count target : Nat) : Op Arena Unit := do
  let _ ← Op.inspect fun _ => add source count
  Arena.copyBytes source count target

def resize (p : Ptr) (n : Nat) : Op Arena (Option Ptr) := do
  Op.inspect ensureLive
  let node ← Op.inspect fun a => takenNode a p .doubleRelease
  let available ← Op.inspect fun a => freeRun a.buffer node.offset node.size
  match (blockSize n).filter (· ≤ available) with
  | some need =>
    Op.inspect fun a => writable a.buffer node.offset
    Op.modify fun a => a.withHeader node.offset (.free available)
    Op.log (.resizedInPlace n node.offset)
    let q ← takeNode node.offset need
    return some q
  | none =>
    match ← grab n with
    | none => return none
    | some q =>
      let room ← Op.inspect fun _ => sub node.size headerSize
      copyBytes p.addr (min room n) q.addr
      release p
      Op.log (.resizedMoved n node.offset q)
      return some q

theorem resize_eq (p : Ptr) (n : Nat) (a : Arena) : resize p n a = Arena.resize p n a := by
  refine Op.bind_congr rfl fun _ a _ _ => ?_
  refine Op.bind_congr (by rw [Op.inspect, Op.inspect, takenNode_eq]) fun node a' _ read => ?_
  obtain ⟨named, rfl⟩ := Op.inspect_eq_ok read
  obtain ⟨here, h8, hstop⟩ := takenNode_bounds named
  simp only [Node.stop, Node.address, len_eq] at here hstop
  refine Op.bind_congr (by rw [Op.inspect, Op.inspect, freeRun_eq _ hstop])
    fun available a'' _ read' => ?_
  obtain ⟨-, rfl⟩ := Op.inspect_eq_ok read'
  cases (blockSize n).filter (· ≤ available) with
  | some need =>
    have there : writable a''.buffer node.offset = .ok () := writable_eq (by omega)
    refine (Op.bind_guard (fun a : Arena => writable a.buffer node.offset) there).trans ?_
    refine Op.bind_congr rfl fun _ a _ _ => Op.bind_congr rfl fun _ a _ _ => ?_
    exact Op.bind_congr (takeNode_eq node.offset need a) fun _ _ _ _ => rfl
  | none =>
    refine Op.bind_congr (grab_eq n a'') fun q a _ _ => ?_
    cases q with
    | none => rfl
    | some q =>
      have room : sub node.size headerSize = .ok (node.size - headerSize) := if_pos h8
      have sum := add_eq (b := a''.buffer) (x := p.addr) (y := min (node.size - headerSize) n)
        (by simp only [headerSize] at *; omega) (by simp only [headerSize] at *; omega)
      refine (Op.bind_of_ok
        (Op.inspect_of_ok (f := fun _ => sub node.size headerSize) room)).trans ?_
      rw [Result.after_nil]
      refine Op.bind_congr ?_ fun _ a _ _ => Op.bind_congr (release_eq p a) fun _ _ _ _ => rfl
      exact Op.bind_of_ok (Op.inspect_of_ok (f := fun _ => add p.addr _) sum)

def usedNode (p : Ptr) : Op Arena Node := do
  Op.inspect ensureLive
  let node ← Op.inspect fun a => takenNode a p .useAfterRelease
  Op.inspect fun a => bounded a node
  return node

theorem usedNode_eq (p : Ptr) (a : Arena) : usedNode p a = Arena.usedNode p a := by
  refine Op.bind_congr rfl fun _ a _ _ => ?_
  cases named : a.takenNode p .useAfterRelease with
  | error panic =>
    have found : takenNode a p .useAfterRelease = .error panic := by rw [takenNode_eq, named]
    have stops : Op.inspect (fun a => takenNode a p .useAfterRelease) a =
        ⟨.error panic, a, panic.records⟩ := Op.inspect_of_error found
    have stops' : Op.inspect (fun a => a.takenNode p .useAfterRelease) a =
        ⟨.error panic, a, panic.records⟩ := Op.inspect_of_error named
    exact (Op.bind_of_error stops).trans stops'.symm
  | ok node =>
    have found : takenNode a p .useAfterRelease = .ok node := by rw [takenNode_eq, named]
    have answers : Op.inspect (fun a => takenNode a p .useAfterRelease) a = ⟨.ok node, a, []⟩ :=
      Op.inspect_of_ok found
    have answers' : Op.inspect (fun a => a.takenNode p .useAfterRelease) a = ⟨.ok node, a, []⟩ :=
      Op.inspect_of_ok named
    have inside := bounded_eq (takenNode_bounds named).2
    refine ((Op.bind_of_ok answers).trans ?_).trans answers'.symm
    rw [Result.after_nil]
    exact Op.bind_guard (fun a => bounded a node) inside

def perform {α : Type} : Request α → Op Arena α
  | .grab n => grab n
  | .release p => release p
  | .resize p n => resize p n
  | .payload p => do
    let node ← usedNode p
    Op.read fun a => a.buffer.slice node.address node.stop
  | .edit p f => do
    let node ← usedNode p
    Op.modify fun a =>
      let bytes := f (a.buffer.slice node.address node.stop)
      { a with
        buffer := a.buffer.put node.address (Bytes.fitted (node.size - headerSize) bytes) }

/-- Requests do the same in the words of a machine, so none of its limits is ever met. -/
theorem perform_eq {α : Type} (r : Request α) (a : Arena) : perform r a = Arena.perform r a := by
  cases r with
  | grab n => exact grab_eq n a
  | release p => exact release_eq p a
  | resize p n => exact resize_eq p n a
  | payload p => exact Op.bind_congr (usedNode_eq p a) fun _ _ _ _ => rfl
  | edit p f => exact Op.bind_congr (usedNode_eq p a) fun _ _ _ _ => rfl

end Arena.Checked

end MemoryTrial
