import MemoryTrial.Proofs.Arena.Words

/-! Checks.  The walk that lists the nodes of a buffer and the check of an arena are two loops over
words that can hold anything.  `Checked.nodesRound` and `Checked.checkRound` are one round of each,
with the limits of a machine.  A round that goes on moves forward by a whole word at least, so both
loops end after as many rounds as there are words, and one more (`loop_nodesRound`,
`loop_checkRound`).  `check_agrees` says what the check answers, by what the walk finds. -/

namespace MemoryTrial.Arena

variable {a : Arena} {b : Buffer} {offset fuel : Nat} {seen : Bool} {nodes found : List Node}

namespace Checked

variable {σ α : Type}

/-- Goes round until there is an answer or a panic.  There is neither when `fuel` rounds do not
suffice. -/
def loop (round : σ → Except Panic (σ ⊕ α)) : (fuel : Nat) → σ → Option (Except Panic α)
  | 0, _ => none
  | fuel + 1, s =>
    match round s with
    | .error p => some (.error p)
    | .ok (.inr answer) => some (.ok answer)
    | .ok (.inl s) => loop round fuel s

/-- Adds the node at an offset to those that were found before it. -/
def nodesRound (b : Buffer) : Nat × List Node → Except Panic (Nat × List Node ⊕ List Node)
  | (offset, found) =>
    if offset < b.len then do
      let h ← header b offset
      let next ← add offset h.size
      return .inl (next, found ++ [⟨offset, h.size, h.allocated⟩])
    else .ok (.inr found)

/-- Checks the node at an offset; `seen` says whether the cursor was on a node before it. -/
def checkRound (a : Arena) : Nat × Bool → Except Panic (Nat × Bool ⊕ Except Violation Unit)
  | (offset, seen) =>
    if offset < a.len then
      match a.buffer.word? (offset / 8) with
      | none => .error (.outOfRange (a.len / 8) (offset / 8))
      | some raw =>
        if (Header.ofWord raw).size < 8 ∨ (Header.ofWord raw).size % 8 ≠ 0 then
          .ok (.inr (.error (.corruptHeader offset raw)))
        else do
          let room ← sub a.len offset
          if room < (Header.ofWord raw).size then return .inr (.error (.corruptHeader offset raw))
          let next ← add offset (Header.ofWord raw).size
          return .inl (next, seen || offset == a.cursor)
    else if seen then .ok (.inr (.ok ()))
    else .ok (.inr (.error (.corruptHeader a.cursor ((a.buffer.word? (a.cursor / 8)).getD 0))))

end Checked

/-- What the check of an arena answers, by what the walk over its nodes finds. -/
structure CheckAgrees (a : Arena) : Prop where
  /-- Both loops end, and never leave the buffer or the words of the machine. -/
  nodes_loop : Checked.loop (Checked.nodesRound a.buffer) (a.len / 8 + 1) (0, []) = some a.nodes
  check_loop : Checked.loop (Checked.checkRound a) (a.len / 8 + 1) (0, false) = some a.check
  walks : (∃ nodes, a.nodes = .ok nodes) ∨ ∃ offset raw, offset < a.len ∧
    a.buffer.word? (offset / 8) = some raw ∧ a.nodes = .error (.violation (.corruptHeader offset raw))
  answers : ∃ answer, a.check = .ok answer
  ok_iff : a.check = .ok (.ok ()) ↔ ∃ nodes, a.nodes = .ok nodes ∧ span nodes = a.len ∧
    ∃ node ∈ nodes, node.offset = a.cursor
  corrupt : ∀ offset raw, a.nodes = .error (.violation (.corruptHeader offset raw)) →
    a.check = .ok (.error (.corruptHeader offset raw))
  stray : ∀ nodes, a.nodes = .ok nodes → (∀ node ∈ nodes, node.offset ≠ a.cursor) →
    a.check = .ok (.error (.corruptHeader a.cursor ((a.buffer.word? (a.cursor / 8)).getD 0)))

namespace Buffer

/-- Inside the buffer there is a header or a corrupt one. -/
theorem header_cases (before : offset < b.len) : (∃ h, b.header offset = .ok h) ∨
    ∃ raw, b.word? (offset / 8) = some raw ∧
      b.header offset = .error (.violation (.corruptHeader offset raw)) := by
  have whole : b.len % 8 = 0 := b.aligned
  have inside : 8 * (offset / 8) + 8 ≤ b.bytes.size := show _ ≤ b.len by omega
  have word : b.word? (offset / 8) = some (b.word (8 * (offset / 8)) inside).toNat := dif_pos inside
  simp only [header, word]
  split
  next fits => exact .inl ⟨_, rfl⟩
  next misfit => exact .inr ⟨_, rfl, rfl⟩

/-- The walk over the nodes gets to the end, or it ends at a corrupt header. -/
theorem nodesFrom_cases (b : Buffer) (offset : Nat) : (∃ nodes, b.nodesFrom offset = .ok nodes) ∨
    ∃ place raw, place < b.len ∧ b.word? (place / 8) = some raw ∧
      b.nodesFrom offset = .error (.violation (.corruptHeader place raw)) := by
  induction left : b.len - offset using Nat.strongRecOn generalizing offset with
  | _ left ih =>
    by_cases before : offset < b.len
    · rcases header_cases before with ⟨h, hr⟩ | ⟨raw, word, hr⟩
      · have bounds := header_bounds hr
        rw [nodesFrom_of_ok hr]
        rcases ih _ (by omega) (offset + h.size) rfl with ⟨rest, hrest⟩ | ⟨place, raw, inside, word, hrest⟩
        · exact .inl ⟨_, by rw [hrest]; rfl⟩
        · exact .inr ⟨place, raw, inside, word, by rw [hrest]; rfl⟩
      · exact .inr ⟨offset, raw, before, word, nodesFrom_of_error before hr⟩
    · exact .inl ⟨[], by rw [nodesFrom, if_neg before]⟩

theorem checkFrom_of_ok {h : Header} (cursor : Nat) (hr : b.header offset = .ok h) :
    b.checkFrom cursor offset seen =
      b.checkFrom cursor (offset + h.size) (seen || offset == cursor) := by
  rw [checkFrom_eq, checkFrom_eq, nodesFrom_of_ok hr]
  cases b.nodesFrom (offset + h.size) with
  | ok rest => simp [Except.map, or_assoc]
  | error p => cases p <;> rfl

theorem checkFrom_of_corrupt {v : Violation} (cursor : Nat) (before : offset < b.len)
    (hr : b.header offset = .error (.violation v)) :
    b.checkFrom cursor offset seen = .ok (.error v) := by
  rw [checkFrom_eq, nodesFrom_of_error before hr]

end Buffer

namespace Checked

section Loop

variable {σ α : Type} {round : σ → Except Panic (σ ⊕ α)} {s s' : σ}

theorem loop_of_next (next : round s = .ok (.inl s')) : loop round (fuel + 1) s = loop round fuel s' := by
  rw [loop, next]

theorem loop_of_answer {answer : α} (ends : round s = .ok (.inr answer)) :
    loop round (fuel + 1) s = some (.ok answer) := by
  rw [loop, ends]

theorem loop_of_error {p : Panic} (ends : round s = .error p) :
    loop round (fuel + 1) s = some (.error p) := by
  rw [loop, ends]

end Loop

theorem nodesRound_of_ok {h : Header} (hr : b.header offset = .ok h) :
    nodesRound b (offset, found) =
      .ok (.inl (offset + h.size, found ++ [⟨offset, h.size, h.allocated⟩])) := by
  have bounds := Buffer.header_bounds hr
  have sum : add offset h.size = .ok (offset + h.size) := add_eq (b := b) (by omega) (by omega)
  simp only [nodesRound, if_pos bounds.1, header_eq, hr, bind, Except.bind, sum]
  rfl

theorem nodesRound_of_error {p : Panic} (before : offset < b.len) (hr : b.header offset = .error p) :
    nodesRound b (offset, found) = .error p := by
  simp only [nodesRound, if_pos before, header_eq, hr, bind, Except.bind]

/-- The loop over the nodes ends, as each round leaves a word less. -/
theorem loop_nodesRound (b : Buffer) (enough : b.len - offset < 8 * fuel) :
    loop (nodesRound b) fuel (offset, found) = some ((b.nodesFrom offset).map (found ++ ·)) := by
  induction fuel generalizing offset found with
  | zero => omega
  | succ fuel ih =>
    by_cases before : offset < b.len
    · cases hr : b.header offset with
      | ok h =>
        have bounds := Buffer.header_bounds hr
        rw [loop_of_next (nodesRound_of_ok hr), Buffer.nodesFrom_of_ok hr, ih (by omega)]
        cases b.nodesFrom (offset + h.size) <;> simp [Except.map]
      | error p =>
        rw [loop_of_error (nodesRound_of_error before hr), Buffer.nodesFrom_of_error before hr]
        rfl
    · have ends : nodesRound b (offset, found) = .ok (.inr found) := if_neg before
      rw [loop_of_answer ends, Buffer.nodesFrom, if_neg before]
      simp [Except.map]

/-- A round of the check reads a header, and answers with the violation where there is none. -/
theorem checkRound_eq (before : offset < a.len) :
    checkRound a (offset, seen) =
      match a.buffer.header offset with
      | .ok h => .ok (.inl (offset + h.size, seen || offset == a.cursor))
      | .error (.violation v) => .ok (.inr (.error v))
      | .error p => .error p := by
  have difference : sub a.len offset = .ok (a.len - offset) := if_pos (by omega)
  rw [checkRound, if_pos before, Buffer.header]
  cases a.buffer.word? (offset / 8) with
  | none => rfl
  | some raw =>
    simp only [difference, bind, Except.bind]
    by_cases small : (Header.ofWord raw).size < 8 ∨ (Header.ofWord raw).size % 8 ≠ 0
    · rw [if_pos small, if_neg fun fits => by
        obtain ⟨h8, whole, -⟩ := fits
        omega]
    rw [if_neg small]
    by_cases room : (Header.ofWord raw).size ≤ a.len - offset
    · have sum : add offset (Header.ofWord raw).size = .ok (offset + (Header.ofWord raw).size) :=
        add_eq (b := a.buffer) (Nat.le_of_lt before) (by rw [← len_eq]; omega)
      rw [if_neg (by omega), if_pos ⟨by omega, by omega, room⟩, sum]
      rfl
    · rw [if_pos (by omega), if_neg fun fits => room fits.2.2]
      rfl

/-- The loop of the check ends as well. -/
theorem loop_checkRound (a : Arena) (enough : a.len - offset < 8 * fuel) :
    loop (checkRound a) fuel (offset, seen) = some (a.buffer.checkFrom a.cursor offset seen) := by
  induction fuel generalizing offset seen with
  | zero => omega
  | succ fuel ih =>
    by_cases before : offset < a.len
    · have round : checkRound a (offset, seen) = _ := checkRound_eq before
      rcases Buffer.header_cases before with ⟨h, hr⟩ | ⟨raw, -, hr⟩
      · have bounds := Buffer.header_bounds hr
        rw [← len_eq] at bounds
        rw [hr] at round
        rw [loop_of_next round, ih (by omega), Buffer.checkFrom_of_ok a.cursor hr]
      · rw [hr] at round
        rw [loop_of_answer round, Buffer.checkFrom_of_corrupt a.cursor before hr]
    · have ends : checkRound a (offset, seen) = if seen then .ok (.inr (.ok ()))
          else .ok (.inr (.error (.corruptHeader a.cursor ((a.buffer.word? (a.cursor / 8)).getD 0)))) :=
        if_neg before
      rw [Buffer.checkFrom, if_neg (by rwa [← len_eq])]
      cases seen with
      | true => exact loop_of_answer ends
      | false => exact loop_of_answer ends

end Checked

/-- The check answers by what the walk over the nodes finds. -/
theorem check_eq (a : Arena) :
    a.check = match a.nodes with
      | .ok nodes =>
        if nodes.any (·.offset == a.cursor) then .ok (.ok ())
        else .ok (.error (.corruptHeader a.cursor ((a.buffer.word? (a.cursor / 8)).getD 0)))
      | .error (.violation v) => .ok (.error v)
      | .error p => .error p := by
  rw [check, Buffer.checkFrom_eq]
  rfl

/-- Whatever the words and the cursor are, the check and the walk over the nodes both end, and they
agree. -/
theorem check_agrees (a : Arena) : CheckAgrees a where
  nodes_loop := by
    have ends : Checked.loop (Checked.nodesRound a.buffer) (a.len / 8 + 1) (0, []) =
        some ((a.buffer.nodesFrom 0).map ([] ++ ·)) :=
      Checked.loop_nodesRound a.buffer (by rw [← len_eq]; omega)
    rw [ends, nodes_eq, Buffer.nodes]
    cases a.buffer.nodesFrom 0 <;> rfl
  check_loop := Checked.loop_checkRound a (by omega)
  walks := a.buffer.nodesFrom_cases 0
  answers := by
    rw [check_eq, nodes_eq, Buffer.nodes]
    rcases a.buffer.nodesFrom_cases 0 with ⟨nodes, walk⟩ | ⟨offset, raw, -, -, walk⟩
    · rw [walk]
      dsimp only
      split
      · exact ⟨_, rfl⟩
      · exact ⟨_, rfl⟩
    · rw [walk]
      exact ⟨_, rfl⟩
  ok_iff := by
    constructor
    · intro ok
      cases walk : a.nodes with
      | ok nodes =>
        have whole := (Buffer.nodes_eq_ok_iff.mp walk).1.span_eq
        exact ⟨nodes, rfl, by rw [len_eq]; omega, (check_eq_ok_iff walk).mp ok⟩
      | error p =>
        rw [check_eq, walk] at ok
        cases p <;> cases ok
    · rintro ⟨nodes, walk, -, onNode⟩
      exact (check_eq_ok_iff walk).mpr onNode
  corrupt offset raw walk := by rw [check_eq, walk]
  stray nodes walk off := by
    have missing : nodes.any (·.offset == a.cursor) = false := by simpa using off
    rw [check_eq, walk]
    simp only [missing]
    rfl

end MemoryTrial.Arena
