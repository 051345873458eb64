import Mathlib.Data.List.TakeWhile
import MemoryTrial.World.Registry

/-! The table of exit hooks, without the programs that use it.  Registrations are the only thing that
adds to the table (`HookTable.Grows`), and they keep it in the order in which the hooks will run:
higher priorities first, and later registrations first among equal ones (`Registers.ranked`). -/

namespace MemoryTrial

variable {η : Type}

namespace HookEvent

/-- The entry that a registration put into the table. -/
def accepted? : HookEvent η → Option (HookEntry η)
  | .registered entry true => some entry
  | _ => none

def started? : HookEvent η → Option (HookEntry η)
  | .started entry => some entry
  | _ => none

theorem mem_filterMap_started? {past : List (HookEvent η)} {entry : HookEntry η} :
    entry ∈ past.filterMap started? ↔ .started entry ∈ past := by
  rw [List.mem_filterMap]
  constructor
  · rintro ⟨event, mem, found⟩
    match event with
    | .started _ =>
      cases found
      exact mem
  · exact fun mem => ⟨_, mem, rfl⟩

theorem mem_filterMap_accepted? {past : List (HookEvent η)} {entry : HookEntry η} :
    entry ∈ past.filterMap accepted? ↔ .registered entry true ∈ past := by
  rw [List.mem_filterMap]
  constructor
  · rintro ⟨event, mem, found⟩
    match event with
    | .registered _ true =>
      cases found
      exact mem
  · exact fun mem => ⟨_, mem, rfl⟩

end HookEvent

/-- The priority of the teardown of the registry. -/
def HookEntry.teardown? (entry : HookEntry η) : Option Int :=
  match entry.hook with
  | .teardown => some entry.priority
  | .client _ => none

theorem HookEntry.teardown?_eq_some {entry : HookEntry η} {priority : Int} :
    entry.teardown? = some priority ↔ entry = ⟨.teardown, priority⟩ := by
  obtain ⟨hook, own⟩ := entry
  cases hook <;> simp [teardown?]

theorem HookEntry.teardown?_eq_none {entry : HookEntry η} :
    entry.teardown? = none ↔ entry.hook ≠ .teardown := by
  obtain ⟨hook, own⟩ := entry
  cases hook <;> simp [teardown?]

/-- A table with an entry before the first one that does not have a higher priority. -/
def HookEntry.placed (entry : HookEntry η) (table : List (HookEntry η)) : List (HookEntry η) :=
  table.takeWhile (entry.priority < ·.priority) ++
    entry :: table.dropWhile (entry.priority < ·.priority)

theorem HookEntry.placed_perm (entry : HookEntry η) (table : List (HookEntry η)) :
    (entry.placed table).Perm (entry :: table) := by
  have whole := List.takeWhile_append_dropWhile (p := (entry.priority < ·.priority)) (l := table)
  refine List.perm_middle.trans ?_
  rw [whole]

/-- The hook is in the table. -/
def Hook.Known (hook : Hook η) (table : List (HookEntry η)) : Prop :=
  ∃ entry ∈ table, entry.hook = hook

theorem insertHook_of_known [DecidableEq η] {hook : Hook η} {table : List (HookEntry η)}
    (known : hook.Known table) (priority : Int) : Run.insertHook hook priority table = none := by
  have present : table.any (·.hook = hook) = true := by simpa [Hook.Known] using known
  rw [Run.insertHook, if_pos present]

theorem insertHook_of_unknown [DecidableEq η] {hook : Hook η} {table : List (HookEntry η)}
    (unknown : ¬hook.Known table) (priority : Int) :
    Run.insertHook hook priority table = some (HookEntry.placed ⟨hook, priority⟩ table) := by
  have absent : ¬table.any (·.hook = hook) = true := by simpa [Hook.Known] using unknown
  rw [Run.insertHook, if_neg absent]
  rfl

/-- The events `log`, all of them registrations, lead from one table to the other. -/
inductive Registers : List (HookEntry η) → List (HookEvent η) → List (HookEntry η) → Prop
  | done (table : List (HookEntry η)) : Registers table [] table
  | fresh {table last : List (HookEntry η)} {entry : HookEntry η} {log : List (HookEvent η)} :
    ¬entry.hook.Known table → Registers (entry.placed table) log last →
      Registers table (.registered entry true :: log) last
  | known {table last : List (HookEntry η)} {entry : HookEntry η} {log : List (HookEvent η)} :
    entry.hook.Known table → Registers table log last →
      Registers table (.registered entry false :: log) last

namespace Registers

variable {table table' last made : List (HookEntry η)} {log log' : List (HookEvent η)}

theorem append (first : Registers table log table') (second : Registers table' log' last) :
    Registers table (log ++ log') last := by
  induction first with
  | done => exact second
  | fresh unknown _ ih => exact .fresh unknown (ih second)
  | known known _ ih => exact .known known (ih second)

theorem is_registration (registers : Registers table log last) :
    ∀ event ∈ log, ∃ entry fresh, event = .registered entry fresh := by
  induction registers with
  | done => exact nofun
  | fresh _ _ ih | known _ _ ih =>
    intro event mem
    rcases List.mem_cons.mp mem with rfl | mem
    · exact ⟨_, _, rfl⟩
    · exact ih event mem

theorem unstarted (registers : Registers table log last) :
    log.filterMap HookEvent.started? = [] := by
  refine List.filterMap_eq_nil_iff.mpr fun event mem => ?_
  obtain ⟨_, _, rfl⟩ := registers.is_registration event mem
  rfl

theorem perm (registers : Registers table log last) :
    last.Perm (table ++ log.filterMap HookEvent.accepted?) := by
  induction registers with
  | done => simp
  | @fresh table _ entry _ _ _ ih =>
    exact ih.trans ((entry.placed_perm table).append_right _ |>.trans List.perm_middle.symm)
  | known _ _ ih => exact ih

end Registers

/-- Of two entries that were registered in the order of `made`, the first runs before the second. -/
def Precedes (made : List (HookEntry η)) (first second : HookEntry η) : Prop :=
  second.priority < first.priority ∨
    second.priority = first.priority ∧ [second, first].Sublist made

/-- The table has the entries of `made`, which were registered in that order, as they are to run. -/
structure Ranked (made table : List (HookEntry η)) : Prop where
  perm : table.Perm made
  ordered : table.Pairwise (Precedes made)

theorem Ranked.nil : Ranked ([] : List (HookEntry η)) [] := ⟨.refl _, .nil⟩

section Ranked

variable {table last made : List (HookEntry η)} {log : List (HookEvent η)} {entry : HookEntry η}

theorem Precedes.more {first second : HookEntry η} (precedes : Precedes made first second)
    (later : List (HookEntry η)) : Precedes (made ++ later) first second :=
  precedes.imp_right fun h => ⟨h.1, h.2.trans (List.sublist_append_left made later)⟩

/-- Behind the first entry without a higher priority there are none with a higher one. -/
theorem Ranked.not_lt_of_mem_dropWhile (ranked : Ranked made table) {other : HookEntry η}
    {priority : Int} (mem : other ∈ table.dropWhile (priority < ·.priority)) :
    ¬priority < other.priority := by
  have ordered := ranked.ordered.sublist (List.dropWhile_sublist (priority < ·.priority))
  cases behind : table.dropWhile (priority < ·.priority) with
  | nil =>
    rw [behind] at mem
    cases mem
  | cons head rest =>
    have low : ¬priority < head.priority := by
      have stops := List.head?_dropWhile_not (priority < ·.priority) table
      rw [behind] at stops
      simpa using stops
    rw [behind] at mem ordered
    rcases List.mem_cons.mp mem with rfl | mem
    · exact low
    · rcases List.rel_of_pairwise_cons ordered mem with less | ⟨same, -⟩ <;> omega

theorem Ranked.placed (ranked : Ranked made table) (entry : HookEntry η) :
    Ranked (made ++ [entry]) (entry.placed table) where
  perm := (entry.placed_perm table).trans
    ((ranked.perm.cons entry).trans (List.perm_append_singleton entry made).symm)
  ordered := by
    have older := ranked.ordered.imp fun precedes => precedes.more [entry]
    rw [← List.takeWhile_append_dropWhile (p := (entry.priority < ·.priority)) (l := table)] at older
    obtain ⟨before, behind, across⟩ := List.pairwise_append.mp older
    refine List.pairwise_append.mpr ⟨before, List.pairwise_cons.mpr ⟨?_, behind⟩, ?_⟩
    · intro other mem
      have low := ranked.not_lt_of_mem_dropWhile mem
      have old : other ∈ made := ranked.perm.mem_iff.mp (List.dropWhile_sublist _ |>.subset mem)
      rcases Int.lt_or_eq_of_le (Int.not_lt.mp low) with less | same
      · exact .inl less
      · exact .inr ⟨same, (List.singleton_sublist.mpr old).append (List.Sublist.refl [entry])⟩
    · intro first mem second behind
      rcases List.mem_cons.mp behind with rfl | behind
      · exact .inl (by simpa using List.mem_takeWhile_imp mem)
      · exact across first mem second behind

/-- Registrations keep a table in the order in which it is to run. -/
theorem Registers.ranked (registers : Registers table log last) (ranked : Ranked made table) :
    Ranked (made ++ log.filterMap HookEvent.accepted?) last := by
  induction registers generalizing made with
  | done => simpa using ranked
  | @fresh _ _ entry _ _ _ ih =>
    have placed := ih (ranked.placed entry)
    rw [List.append_assoc] at placed
    exact placed
  | known _ _ ih => exact ih ranked

end Ranked

namespace HookTable

/-- Between the two tables there were registrations and nothing else. -/
def Grows (table table' : HookTable η) : Prop :=
  ∃ log, table'.past = log.reverse ++ table.past ∧ Registers table.entries log table'.entries

theorem Grows.refl (table : HookTable η) : table.Grows table := ⟨[], rfl, .done _⟩

theorem Grows.of_eq {table table' : HookTable η} (same : table' = table) : table.Grows table' :=
  same ▸ .refl table

theorem Grows.trans {table table' table'' : HookTable η} (first : table.Grows table')
    (second : table'.Grows table'') : table.Grows table'' := by
  obtain ⟨log, past, registers⟩ := first
  obtain ⟨log', past', registers'⟩ := second
  refine ⟨log ++ log', ?_, registers.append registers'⟩
  rw [past', past, List.reverse_append, List.append_assoc]

/-- The hooks that were accepted were started, or they are in the table. -/
def Balanced (table : HookTable η) : Prop :=
  (table.past.filterMap HookEvent.started? ++ table.entries).Perm
    (table.past.filterMap HookEvent.accepted?)

open scoped List in
theorem Balanced.of_log {table table' : HookTable η} {log : List (HookEvent η)}
    (balanced : table.Balanced) (past : table'.past = log.reverse ++ table.past)
    (perm : (log.filterMap HookEvent.started? ++ table'.entries).Perm
      (table.entries ++ log.filterMap HookEvent.accepted?)) : table'.Balanced := by
  have started := (List.reverse_perm log).filterMap HookEvent.started?
  have accepted := (List.reverse_perm log).symm.filterMap HookEvent.accepted?
  rw [Balanced, past, List.filterMap_append, List.filterMap_append]
  calc log.reverse.filterMap HookEvent.started? ++ table.past.filterMap HookEvent.started? ++
          table'.entries
    _ ~ table.past.filterMap HookEvent.started? ++ log.filterMap HookEvent.started? ++
        table'.entries := (List.perm_append_comm.trans (started.append_left _)).append_right _
    _ = table.past.filterMap HookEvent.started? ++ (log.filterMap HookEvent.started? ++
        table'.entries) := List.append_assoc ..
    _ ~ table.past.filterMap HookEvent.started? ++
        (table.entries ++ log.filterMap HookEvent.accepted?) := perm.append_left _
    _ = (table.past.filterMap HookEvent.started? ++ table.entries) ++
        log.filterMap HookEvent.accepted? := (List.append_assoc ..).symm
    _ ~ table.past.filterMap HookEvent.accepted? ++ log.reverse.filterMap HookEvent.accepted? :=
      List.Perm.append balanced accepted
    _ ~ log.reverse.filterMap HookEvent.accepted? ++ table.past.filterMap HookEvent.accepted? :=
      List.perm_append_comm

theorem Balanced.grows {table table' : HookTable η} (balanced : table.Balanced)
    (grows : table.Grows table') : table'.Balanced := by
  obtain ⟨log, past, registers⟩ := grows
  refine balanced.of_log past ?_
  rw [registers.unstarted]
  exact registers.perm

end HookTable

/-- What a process has settled about its exit. -/
structure ExitPlan (η : Type) where
  hooks : HookTable η
  /-- Whether the registry has registered its teardown. -/
  teardownHooked : Bool

def World.exit {κ η σ : Type} (w : World κ η σ) : ExitPlan η := ⟨w.hooks, w.teardownHooked⟩

namespace ExitPlan

/-- The teardown of the registry was registered once, if it was registered. -/
structure Armed (p : ExitPlan η) : Prop where
  registered : (p.hooks.past.filterMap HookEvent.accepted?).filterMap HookEntry.teardown? =
    if p.teardownHooked then [allocatorExitPriority] else []
  unknown : p.teardownHooked = false → ¬(Hook.teardown : Hook η).Known p.hooks.entries

/-- Hooks were registered, among them the teardown of the registry if it was not before. -/
structure Grows (p p' : ExitPlan η) : Prop where
  hooks : p.hooks.Grows p'.hooks
  hooked : p.teardownHooked = true → p'.teardownHooked = true
  armed : p.Armed → p'.Armed

variable {p p' p'' : ExitPlan η}

theorem Grows.refl (p : ExitPlan η) : p.Grows p := ⟨.refl _, id, id⟩

theorem Grows.of_eq (same : p' = p) : p.Grows p' := same ▸ .refl p

theorem Grows.trans (first : p.Grows p') (second : p'.Grows p'') : p.Grows p'' :=
  ⟨first.hooks.trans second.hooks, second.hooked ∘ first.hooked, second.armed ∘ first.armed⟩

theorem known_placed {entry : HookEntry η} {hook : Hook η} {table : List (HookEntry η)} :
    hook.Known (entry.placed table) ↔ entry.hook = hook ∨ hook.Known table := by
  simp only [Hook.Known, (entry.placed_perm table).mem_iff, List.mem_cons, or_and_right, exists_or,
    exists_eq_left]

/-- A client registers a hook. -/
theorem grows_client (table : HookTable η) (hook : η) (priority : Int) (hooked : Bool) :
    (¬(Hook.client hook).Known table.entries → Grows ⟨table, hooked⟩
      ⟨⟨HookEntry.placed ⟨.client hook, priority⟩ table.entries,
        .registered ⟨.client hook, priority⟩ true :: table.past⟩, hooked⟩) ∧
    ((Hook.client hook).Known table.entries → Grows ⟨table, hooked⟩
      ⟨table.note (.registered ⟨.client hook, priority⟩ false), hooked⟩) := by
  refine ⟨fun unknown => ⟨⟨[_], rfl, .fresh unknown (.done _)⟩, id, fun armed => ?_⟩,
    fun known => ⟨⟨[_], rfl, .known known (.done _)⟩, id, fun armed => ?_⟩⟩
  · refine ⟨armed.registered, fun unhooked teardown => ?_⟩
    rcases known_placed.mp teardown with same | old
    · cases same
    · exact armed.unknown unhooked old
  · exact ⟨armed.registered, armed.unknown⟩

/-- The registry registers its teardown. -/
theorem grows_teardown (table : HookTable η) :
    (¬(Hook.teardown : Hook η).Known table.entries → Grows ⟨table, false⟩
      ⟨⟨HookEntry.placed ⟨.teardown, allocatorExitPriority⟩ table.entries,
        .registered ⟨.teardown, allocatorExitPriority⟩ true :: table.past⟩, true⟩) ∧
    ((Hook.teardown : Hook η).Known table.entries → Grows ⟨table, false⟩
      ⟨table.note (.registered ⟨.teardown, allocatorExitPriority⟩ false), true⟩) := by
  refine ⟨fun unknown => ⟨⟨[_], rfl, .fresh unknown (.done _)⟩, fun _ => rfl, fun armed => ?_⟩,
    fun known => ⟨⟨[_], rfl, .known known (.done _)⟩, fun _ => rfl, fun armed => ?_⟩⟩
  · have none : (table.past.filterMap HookEvent.accepted?).filterMap HookEntry.teardown? = [] :=
      armed.registered
    refine ⟨?_, nofun⟩
    rw [List.filterMap_cons, HookEvent.accepted?, List.filterMap_cons, none]
    rfl
  · exact absurd known (armed.unknown rfl)

end ExitPlan

end MemoryTrial
