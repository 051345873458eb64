import MemoryTrial.Proofs.Arena.Safety
import MemoryTrial.Proofs.Arena.Words

/-! The misuse of arenas.  A request for a block is served exactly if the block is handed out.  Any
other pointer is reported for what is wrong with it first, and the arena stays as it is.  An arena
that was torn down serves no request.  `Visited.detects_misuse` says this of every arena that there
can be, and that nothing else ever cuts a request short. -/

namespace MemoryTrial.Arena

variable {a : Arena} {held : List Lease} {nodes : List Node} {p : Ptr} {α : Type}

/-- What an arena is there for: its clients' leases, or nothing any more. -/
inductive Phase
  | serving (held : List Lease)
  | ended

/-- The arenas that there are after any history, in which the arena may have been torn down. -/
inductive Visited : Arena → Phase → Prop
  | serving {a : Arena} {held : List Lease} : Reachable a held → Visited a (.serving held)
  | teardown {a : Arena} {phase : Phase} : Visited a phase → Visited (teardown a).state .ended
  | withKind {a : Arena} (kind : KindId) : Visited a .ended → Visited (a.withKind kind) .ended
  | step {a : Arena} {α : Type} (r : Request α) :
    Visited a .ended → Visited (perform r a).state .ended

/-- Some node that is handed out has its payload at `p`. -/
def Names (nodes : List Node) (p : Ptr) : Prop :=
  ∃ node ∈ nodes, node.allocated = true ∧ node.offset + headerSize = p.addr

/-- What is wrong with a pointer that names no block. -/
def blame (a : Arena) (nodes : List Node) (misuse : Ptr → Violation) (p : Ptr) : Violation :=
  if p.addr < headerSize ∨ a.len < p.addr then .outOfBounds p a.len
  else if p.addr % headerSize ≠ 0 then .misalignedPointer p
  else if nodes.any fun node => node.offset = p.addr - headerSize then misuse p
  else .unknownPointer p

/-- A violation that leaves the arena as it was. -/
def Rejected (r : Request α) (a : Arena) (v : Violation) : Prop :=
  perform r a = ⟨.error (.violation v), a, [.fatal v]⟩

/-- An arena that is in use tells the blocks that it handed out from all other pointers. -/
structure Detects (a : Arena) (held : List Lease) (nodes : List Node) : Prop where
  walk : a.nodes = .ok nodes
  /-- The blocks that are handed out are those that a client holds. -/
  blocks : ∀ p, Names nodes p ↔ ∃ lease ∈ held, lease.ptr = p
  proceeds : ∀ {α : Type} (r : Request α) p, r.pointer = some p →
    ((∃ answer, (perform r a).value = .ok answer) ↔ Names nodes p)
  rejected : ∀ {α : Type} (r : Request α) p, r.pointer = some p → ¬Names nodes p →
    Rejected r a (a.blame nodes r.misuse p)
  /-- A request for memory may get none, but is never cut short. -/
  grabs : ∀ n, ∃ answer, (perform (.grab n) a).value = .ok answer
  /-- Nothing cuts a request short but the violation that its pointer is blamed for, not even the
  limits of a machine. -/
  unreached : ∀ {α : Type} (r : Request α) panic, (Checked.perform r a).value = .error panic →
    ∃ p, r.pointer = some p ∧ ¬Names nodes p ∧ panic = .violation (a.blame nodes r.misuse p)

structure Ended (a : Arena) : Prop where
  dead : a.live = false
  rejected : ∀ {α : Type} (r : Request α), Rejected r a (.destroyedAllocator a.kind)
  words : ∀ {α : Type} (r : Request α), Checked.perform r a = perform r a

/-- How an arena treats the requests that it gets in a phase. -/
def Phase.Treats : Phase → Arena → Prop
  | .serving held, a => ∃ nodes, Detects a held nodes
  | .ended, a => Ended a

theorem takenNode_of_not_names (h : a.nodes = .ok nodes) (misuse : Ptr → Violation)
    (nameless : ¬Names nodes p) :
    a.takenNode p misuse = .error (.violation (a.blame nodes misuse p)) := by
  rw [takenNode_eq h, blame]
  by_cases outside : p.addr < headerSize ∨ a.len < p.addr
  · rw [if_pos outside, if_pos outside]
  rw [if_neg outside, if_neg outside]
  by_cases crooked : p.addr % headerSize ≠ 0
  · rw [if_pos crooked, if_pos crooked]
  rw [if_neg crooked, if_neg crooked]
  cases found : nodes.find? (·.offset == p.addr - headerSize) with
  | none =>
    have missing : nodes.any (fun node => node.offset = p.addr - headerSize) = false := by
      simpa using found
    rw [missing]
    rfl
  | some node =>
    have mem := List.mem_of_find?_eq_some found
    have here : node.offset = p.addr - headerSize := by simpa using List.find?_some found
    have present : nodes.any (fun node => node.offset = p.addr - headerSize) = true :=
      List.any_eq_true.mpr ⟨node, mem, by simpa using here⟩
    have free : ¬node.allocated = true := fun allocated =>
      nameless ⟨node, mem, allocated, by omega⟩
    rw [present, if_pos rfl]
    exact if_neg free

namespace Accounts

theorem names_iff (h : Accounts a held nodes) :
    Names nodes p ↔ ∃ lease ∈ held, lease.ptr = p := by
  constructor
  · rintro ⟨node, mem, allocated, here⟩
    obtain ⟨lease, hlease, there, -⟩ := h.exists_lease mem allocated
    exact ⟨lease, hlease, Ptr.ext (there.trans here)⟩
  · rintro ⟨lease, mem, rfl⟩
    obtain ⟨node, hnode, allocated, here, -⟩ := h.exists_node mem
    exact ⟨node, hnode, allocated, here⟩

theorem rejected (h : Accounts a held nodes) (r : Request α) (hp : r.pointer = some p)
    (nameless : ¬Names nodes p) : Rejected r a (a.blame nodes r.misuse p) :=
  perform_of_misuse h.sound r hp (takenNode_of_not_names h.sound.nodes r.misuse nameless)

theorem proceeds_iff (h : Accounts a held nodes) (r : Request α) (hp : r.pointer = some p) :
    (∃ answer, (perform r a).value = .ok answer) ↔ Names nodes p := by
  constructor
  · rintro ⟨answer, value⟩
    by_contra nameless
    rw [show perform r a = _ from h.rejected r hp nameless] at value
    cases value
  · intro named
    refine h.answered r fun q hq => ?_
    cases hp.symm.trans hq
    exact h.names_iff.mp named

theorem detects (h : Accounts a held nodes) : Detects a held nodes where
  walk := h.sound.nodes
  blocks p := h.names_iff
  proceeds r p hp := h.proceeds_iff r hp
  rejected r p hp nameless := h.rejected r hp nameless
  grabs n := h.answered (.grab n) nofun
  unreached r panic value := by
    rw [Checked.perform_eq] at value
    cases hp : r.pointer with
    | none =>
      obtain ⟨answer, proceeds⟩ := h.answered r (by simp [hp])
      rw [proceeds] at value
      cases value
    | some p =>
      have nameless : ¬Names nodes p := fun named => by
        obtain ⟨answer, proceeds⟩ := (h.proceeds_iff r hp).mpr named
        rw [proceeds] at value
        cases value
      rw [show perform r a = _ from h.rejected r hp nameless] at value
      cases value
      exact ⟨p, rfl, nameless, rfl⟩

end Accounts

theorem ensureLive_of_dead (dead : a.live = false) :
    Op.inspect ensureLive a = ⟨.error (.violation (.destroyedAllocator a.kind)), a,
      [.fatal (.destroyedAllocator a.kind)]⟩ :=
  Op.inspect_of_error (by rw [ensureLive, dead]; rfl)

theorem perform_of_dead (dead : a.live = false) (r : Request α) :
    Rejected r a (.destroyedAllocator a.kind) := by
  have stops := ensureLive_of_dead dead
  cases r with
  | grab n => exact Op.bind_of_error stops
  | release p => exact Op.bind_of_error stops
  | resize p n => exact Op.bind_of_error stops
  | payload p => exact Op.bind_of_error (x := usedNode p) (Op.bind_of_error stops)
  | edit p f => exact Op.bind_of_error (x := usedNode p) (Op.bind_of_error stops)

theorem ended_of_dead (dead : a.live = false) : Ended a :=
  ⟨dead, perform_of_dead dead, fun r => Checked.perform_eq r a⟩

theorem live_teardown (a : Arena) : (teardown a).state.live = false := by
  cases live : a.live with
  | true =>
    have asked : Op.read Arena.live a = ⟨.ok true, a, []⟩ := by rw [Op.read, live]
    rw [teardown, Op.bind_of_ok asked]
    rfl
  | false =>
    have asked : Op.read Arena.live a = ⟨.ok false, a, []⟩ := by rw [Op.read, live]
    rw [teardown, Op.bind_of_ok asked]
    exact live

/-- Arenas detect every misuse of pointers, and only that. -/
theorem Visited.detects_misuse {phase : Phase} (h : Visited a phase) : phase.Treats a := by
  induction h with
  | serving reached =>
    obtain ⟨nodes, accounts⟩ := reached.accounts
    exact ⟨nodes, accounts.detects⟩
  | teardown _ _ => exact ended_of_dead (live_teardown _)
  | withKind kind _ ih => exact ended_of_dead ih.dead
  | step r _ ih =>
    rw [show perform r _ = _ from ih.rejected r]
    exact ih

theorem variedArena_detects_misuse :
    (Phase.serving variedLeases).Treats variedArena ∧
      Phase.ended.Treats (teardown variedArena).state :=
  ⟨Visited.detects_misuse (.serving variedArena_reachable),
    Visited.detects_misuse (.teardown (.serving variedArena_reachable))⟩

end MemoryTrial.Arena
