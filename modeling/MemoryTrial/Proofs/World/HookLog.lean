import MemoryTrial.Proofs.World.Escapes
import MemoryTrial.Proofs.World.ExitHooks

/-! What the exit hooks went through.  Registrations are told apart by the table alone: a hook is
rejected if it was registered since the hooks were last taken out to run, and accepted otherwise, also
while it waits for its turn in a run.  So a hook can be started twice in one run although nobody
registered it after it had started (`Visited.hook_laws`). -/

namespace MemoryTrial

variable {κ η σ α β : Type}

namespace HookEvent

def empties : HookEvent η → Bool
  | .emptied => true
  | _ => false

/-- What happened since the hooks were last taken out of the table.  Here and in what follows the last
event comes first. -/
def sinceEmptied (past : List (HookEvent η)) : List (HookEvent η) := past.takeWhile (!·.empties)

end HookEvent

open HookEvent (sinceEmptied)

/-- The hook was registered, and the hooks were not taken out of the table since. -/
def Hook.Pending (hook : Hook η) (past : List (HookEvent η)) : Prop :=
  ∃ entry, .registered entry true ∈ sinceEmptied past ∧ entry.hook = hook

/-- The hook was taken out of the table to run, and it was not started since. -/
def Hook.Waiting (hook : Hook η) (past : List (HookEvent η)) : Prop :=
  ∃ since before, past = since ++ .emptied :: before ∧ (∀ event ∈ since, event.empties = false) ∧
    hook.Pending before ∧ ∀ entry, .started entry ∈ since → entry.hook ≠ hook

/-- Each event fits to those before it. -/
inductive Lawful : List (HookEvent η) → Prop
  | nil : Lawful []
  | registered {entry : HookEntry η} {fresh : Bool} {past : List (HookEvent η)} :
    (fresh = false ↔ entry.hook.Pending past) → Lawful past →
    Lawful (.registered entry fresh :: past)
  | emptied {past : List (HookEvent η)} : Lawful past → Lawful (.emptied :: past)
  | started {entry : HookEntry η} {past : List (HookEvent η)} :
    entry.hook.Waiting past → Lawful past → Lawful (.started entry :: past)

section Logs

variable {newer middle older past : List (HookEvent η)} {entry again first : HookEntry η}
  {fresh : Bool} {hook : Hook η}

theorem Lawful.of_append (lawful : Lawful (newer ++ older)) : Lawful older := by
  induction newer with
  | nil => exact lawful
  | cons event newer ih =>
    cases lawful with
    | registered _ lawful | emptied lawful | started _ lawful => exact ih lawful

theorem Lawful.answer (lawful : Lawful (newer ++ .registered entry fresh :: older)) :
    fresh = false ↔ entry.hook.Pending older := by
  cases lawful.of_append with
  | registered answer _ => exact answer

theorem Lawful.waiting (lawful : Lawful (newer ++ .started entry :: older)) :
    entry.hook.Waiting older := by
  cases lawful.of_append with
  | started waiting _ => exact waiting

/-- When a hook waits that was started before, then it was registered after that start, or after the
hooks had been taken out that were started then. -/
theorem Hook.Waiting.registered_again
    (waiting : first.hook.Waiting (middle ++ .started first :: older)) :
    ∃ entry, entry.hook = first.hook ∧
      (.registered entry true ∈ middle ∨ .registered entry true ∈ sinceEmptied older) := by
  obtain ⟨since, before, split, inner, ⟨entry, pending, same⟩, unstarted⟩ := waiting
  refine ⟨entry, same, ?_⟩
  -- the first start is not among what happened since the hooks were taken out
  rcases List.append_eq_append_iff.mp split with ⟨more, rfl, rest⟩ | ⟨more, rfl, rest⟩
  · cases more with
    | nil => cases rest
    | cons event more =>
      obtain ⟨rfl, -⟩ := List.cons.inj rest
      exact absurd rfl (unstarted first (by simp))
  · cases more with
    | nil => cases rest
    | cons event more =>
      rw [List.cons_append] at rest
      obtain ⟨rfl, rfl⟩ := List.cons.inj rest
      rw [sinceEmptied, List.takeWhile_append] at pending
      split at pending
      · rcases List.mem_append.mp pending with mem | mem
        · exact .inl (by simp [mem])
        · rw [List.takeWhile_cons_of_pos rfl] at mem
          exact .inr (List.mem_of_ne_of_mem (by simp) mem)
      · have mem := List.takeWhile_sublist _ |>.subset pending
        exact .inl (by simp [mem])

theorem Hook.Waiting.registered (waiting : hook.Waiting past) (entry : HookEntry η)
    (fresh : Bool) : hook.Waiting (.registered entry fresh :: past) := by
  obtain ⟨since, before, rfl, inner, pending, unstarted⟩ := waiting
  refine ⟨.registered entry fresh :: since, before, rfl, ?_, pending, fun other mem => ?_⟩
  · intro event mem
    rcases List.mem_cons.mp mem with rfl | mem
    · rfl
    · exact inner event mem
  · rcases List.mem_cons.mp mem with same | mem
    · cases same
    · exact unstarted other mem

theorem Hook.Waiting.started (waiting : hook.Waiting past) (other : entry.hook ≠ hook) :
    hook.Waiting (.started entry :: past) := by
  obtain ⟨since, before, rfl, inner, pending, unstarted⟩ := waiting
  refine ⟨.started entry :: since, before, rfl, ?_, pending, fun again mem => ?_⟩
  · intro event mem
    rcases List.mem_cons.mp mem with rfl | mem
    · rfl
    · exact inner event mem
  · rcases List.mem_cons.mp mem with same | mem
    · cases same
      exact other
    · exact unstarted again mem

end Logs

/-- A table of exit hooks and its past agree. -/
structure HookTable.Told (table : HookTable η) : Prop where
  lawful : Lawful table.past
  ranked : Ranked ((sinceEmptied table.past).filterMap HookEvent.accepted?).reverse table.entries
  distinct : (table.entries.map HookEntry.hook).Nodup

namespace HookTable.Told

variable {table table' last : List (HookEntry η)} {past log : List (HookEvent η)}
  {entry : HookEntry η} {hook : Hook η}

theorem known_iff (told : Told ⟨table, past⟩) : hook.Known table ↔ hook.Pending past := by
  have accepted (entry : HookEntry η) :
      entry ∈ table ↔ .registered entry true ∈ sinceEmptied past := by
    rw [told.ranked.perm.mem_iff, List.mem_reverse, HookEvent.mem_filterMap_accepted?]
  simp only [Hook.Known, Hook.Pending, accepted]

theorem fresh (told : Told ⟨table, past⟩) (unknown : ¬entry.hook.Known table) :
    Told ⟨entry.placed table, .registered entry true :: past⟩ where
  lawful := by
    refine .registered ⟨nofun, fun pending => ?_⟩ told.lawful
    exact absurd (told.known_iff.mpr pending) unknown
  ranked := by
    have placed := told.ranked.placed entry
    rw [sinceEmptied, List.takeWhile_cons_of_pos rfl, List.filterMap_cons, HookEvent.accepted?,
      List.reverse_cons]
    exact placed
  distinct := by
    have perm := (entry.placed_perm table).map HookEntry.hook
    rw [perm.nodup_iff, List.map_cons, List.nodup_cons]
    refine ⟨fun mem => unknown ?_, told.distinct⟩
    obtain ⟨other, mem, same⟩ := List.mem_map.mp mem
    exact ⟨other, mem, same⟩

theorem known (told : Told ⟨table, past⟩) (known : entry.hook.Known table) :
    Told ⟨table, .registered entry false :: past⟩ where
  lawful := .registered ⟨fun _ => told.known_iff.mp known, fun _ => rfl⟩ told.lawful
  ranked := by
    rw [sinceEmptied, List.takeWhile_cons_of_pos rfl, List.filterMap_cons]
    exact told.ranked
  distinct := told.distinct

theorem started (told : Told ⟨table, past⟩) (waiting : entry.hook.Waiting past) :
    Told ⟨table, .started entry :: past⟩ where
  lawful := .started waiting told.lawful
  ranked := by
    rw [sinceEmptied, List.takeWhile_cons_of_pos rfl, List.filterMap_cons]
    exact told.ranked
  distinct := told.distinct

theorem emptied (told : Told ⟨table, past⟩) : Told ⟨[], .emptied :: past⟩ where
  lawful := .emptied told.lawful
  ranked := .nil
  distinct := List.nodup_nil

/-- The hooks that are taken out of the table wait. -/
theorem waiting (told : Told ⟨table, past⟩) (mem : entry ∈ table) :
    entry.hook.Waiting (.emptied :: past) :=
  ⟨[], past, rfl, nofun, told.known_iff.mp ⟨entry, mem, rfl⟩, nofun⟩

theorem registers (told : Told ⟨table, past⟩) (registers : Registers table log last) :
    Told ⟨last, log.reverse ++ past⟩ ∧
      ∀ hook : Hook η, hook.Waiting past → hook.Waiting (log.reverse ++ past) := by
  induction registers generalizing past with
  | done => exact ⟨told, fun _ => id⟩
  | fresh unknown _ ih =>
    obtain ⟨told, waits⟩ := ih (told.fresh unknown)
    rw [List.reverse_cons, List.append_assoc]
    exact ⟨told, fun hook waiting => waits hook (waiting.registered _ _)⟩
  | known known _ ih =>
    obtain ⟨told, waits⟩ := ih (told.known known)
    rw [List.reverse_cons, List.append_assoc]
    exact ⟨told, fun hook waiting => waits hook (waiting.registered _ _)⟩

theorem grows {table table' : HookTable η} (told : table.Told) (grows : table.Grows table') :
    table'.Told ∧ ∀ hook : Hook η, hook.Waiting table.past → hook.Waiting table'.past := by
  obtain ⟨log, past, registers⟩ := grows
  rw [past]
  have after := told.registers registers
  rw [← past] at after ⊢
  exact after

end HookTable.Told

/-- The effect of what keeps the table of exit hooks and its past in agreement. -/
def telling : Effect κ η σ where
  Allows w w' := w.hooks.Told → w'.hooks.Told
  refl _ := id
  trans first second := second ∘ first

theorem telling_of_registering {w w' : World κ η σ} (grows : registering.Allows w w') :
    telling.Allows w w' := fun told => (told.grows grows).1

theorem telling_same {w w' : World κ η σ} (hooks : w'.hooks = w.hooks) : telling.Allows w w' :=
  telling_of_registering (.of_eq hooks)

theorem telling_outer : (telling : Effect κ η σ).Outer where
  plain _ _ still := telling_of_registering still.exit.hooks
  frame _ _ := telling_same rfl
  state _ _ _ _ _ _ _ _ := telling_same rfl
  denied _ _ _ _ _ := telling_same rfl

namespace Run

variable {env : Environment κ η σ} {nested : Nested κ η σ} {bound : Nat} {w : World κ η σ}
  (closes : ∀ k holdings, (nested ((env.kind k).close holdings)).Respects registering)
  (hooks : ∀ hook, (nested (env.hook hook)).Respects registering)
include closes hooks

theorem tells_of_runAll {taken : List (HookEntry η)} (told : w.hooks.Told)
    (waiting : ∀ entry ∈ taken, entry.hook.Waiting w.hooks.past)
    (distinct : (taken.map HookEntry.hook).Nodup) :
    ((drainHooks.runAll env nested bound taken).leaves w).hooks.Told := by
  induction taken generalizing w with
  | nil => exact told
  | cons entry rest ih =>
    rw [List.map_cons, List.nodup_cons] at distinct
    have started := told.started (waiting entry List.mem_cons_self)
    have waits (other : HookEntry η) (mem : other ∈ rest) :
        other.hook.Waiting (.started entry :: w.hooks.past) := by
      refine (waiting other (List.mem_cons_of_mem entry mem)).started fun same => distinct.1 ?_
      rw [same]
      exact List.mem_map_of_mem mem
    -- the hook only registers hooks, and those that are left still wait
    have grows : (w.starting entry).hooks.Grows ((handle env nested bound entry).leaves w).hooks :=
      Effect.allows_handle (registering_ofExit.drainCache closes bound) hooks entry w
    obtain ⟨after, still⟩ := HookTable.Told.grows started grows
    rw [drainHooks.runAll]
    cases ends : handle env nested bound entry w with
    | ok _ u =>
      rw [leaves_of_ok ends] at after still
      rw [leaves_bind_of_ok ends]
      exact ih after (fun other mem => still _ (waits other mem)) distinct.2
    | error halt u =>
      rw [leaves_of_error ends] at after
      rw [leaves_of_error (bind_of_error ends)]
      exact after

theorem telling_drainHooks (rounds : Nat) :
    (drainHooks env nested bound rounds).Respects telling := by
  induction rounds with
  | zero => exact respects_throw _
  | succ rounds ih =>
    intro w told
    rw [drainHooks, leaves_bind_of_ok (get_run w)]
    cases taken : w.hooks.entries with
    | nil => exact told
    | cons entry others =>
      dsimp only
      rw [leaves_bind_of_ok (modify_run _ w)]
      have run : ((drainHooks.runAll env nested bound w.hooks.entries).leaves
          { w with hooks := ⟨[], .emptied :: w.hooks.past⟩ }).hooks.Told :=
        tells_of_runAll closes hooks told.emptied (fun _ mem => told.waiting mem) told.distinct
      rw [taken] at run
      refine allows_bind (E := telling) (v := { w with hooks := ⟨[], .emptied :: w.hooks.past⟩ })
        (fun _ => run) (fun _ => ih) told.emptied

end Run

section Programs

variable [DecidableEq η] {env : Environment κ η σ} {w : World κ η σ}

theorem Client.respects_telling (free : env.HookFree) (bound depth : Nat) (c : Client κ η σ α) :
    (c.runTo env bound depth).Respects telling := by
  have respected {β : Type} {c : Client κ η σ β} :=
    registering_ofExit.respects_below free bound depth (c := c)
  have outer := telling_outer (κ := κ) (η := η) (σ := σ)
  have call {β : Type} (c : Call κ η σ β) :
      (c.run env (env.below bound depth) bound).Respects telling := by
    by_cases operation : Calls.operations β c
    · exact (registering_ofExit.call (fun k holdings => respected (free.close k holdings))
        (fun k => respected (free.create k)) bound operation).mono
          fun _ _ => telling_of_registering
    · cases c with
      | runHooks =>
        exact Run.telling_drainHooks (fun k holdings => respected (free.close k holdings))
          (fun hook => respected (free.hook hook)) bound
      | _ => exact absurd trivial operation
  have covers : Covers env (env.below bound depth) bound telling telling Calls.all :=
    ⟨fun c _ => call c, fun _ => outer.replay, fun f _ => outer.plain.scope f,
      fun h p edit _ => outer.within (fun _ _ _ _ _ _ _ => telling_same rfl)
        (fun _ _ _ => telling_same rfl) h p edit,
      fun fixture _ => outer.thread fixture⟩
  rw [Client.runTo_eq]
  exact covers.respects_runWith covers c.only_all

theorem Visited.told (free : env.HookFree) (visited : Visited env w) : w.hooks.Told := by
  induction visited with
  | start production hooked client => exact ⟨.nil, .nil, List.nodup_nil⟩
  | step c _ ih => exact Client.respects_telling free runLimit runLimit c _ ih
  | use h busy _ ih => exact ih
  | enter frame fixture _ ih => exact ih

/-- The laws of registrations and starts, in what happened to the exit hooks of a process. -/
structure World.HookLaws (env : Environment κ η σ) (w : World κ η σ) : Prop where
  /-- What registrations answer is on record. -/
  logged : ∀ (hook : Hook η) (priority : Int) (v : World κ η σ), ∃ fresh entries,
    Run.register hook priority v = .ok fresh { v with
      hooks := ⟨entries, .registered ⟨hook, priority⟩ fresh :: v.hooks.past⟩ }
  /-- A hook is rejected exactly if it was registered since the hooks were last taken out of the table.
  So one that only waits for its turn in a run is accepted. -/
  answers : ∀ newer older entry fresh, w.hooks.past = newer ++ .registered entry fresh :: older →
    (fresh = false ↔ entry.hook.Pending older)
  waited : ∀ newer older entry, w.hooks.past = newer ++ .started entry :: older →
    entry.hook.Waiting older
  /-- A hook is started again only if it was registered after its start, or when it had been taken out
  of the table and waited for that start. -/
  again : ∀ newer middle older first again,
    w.hooks.past = newer ++ .started again :: (middle ++ .started first :: older) →
    again.hook = first.hook → ∃ entry, entry.hook = first.hook ∧
      (.registered entry true ∈ middle ∨ .registered entry true ∈ sinceEmptied older)
  /-- In a run that returns a hook is started once for each registration that was accepted. -/
  runs : ∀ bound depth w', (Client.ask .runHooks).runTo env bound depth w = .ok () w' →
    ∃ log : List (HookEvent η), w'.hooks.past = log.reverse ++ w.hooks.past ∧
    (log.filterMap HookEvent.started?).Perm
      (w.hooks.entries ++ log.filterMap HookEvent.accepted?)

/-- Whatever programs do, and however they end: a registration is rejected exactly if the hook is in
the table, and hooks that wait in a run are not in it. -/
theorem Visited.hook_laws (free : env.HookFree) (visited : Visited env w) : w.HookLaws env where
  logged hook priority v := by
    by_cases known : hook.Known v.hooks.entries
    · exact ⟨false, _, Run.register_of_known known⟩
    · exact ⟨true, _, Run.register_of_unknown known⟩
  answers newer older entry fresh split := (split ▸ (visited.told free).lawful).answer
  waited newer older entry split := (split ▸ (visited.told free).lawful).waiting
  again newer middle older first again split same := by
    have waiting := (split ▸ (visited.told free).lawful).waiting
    rw [same] at waiting
    exact waiting.registered_again
  runs bound depth w' returned := by
    have respected {β : Type} {c : Client κ η σ β} :=
      registering_ofExit.respects_below free bound depth (c := c)
    rw [Client.runTo_eq, Client.runWith_ask] at returned
    have ranked := (visited.told free).ranked
    obtain ⟨-, log, past, passes⟩ := Run.passes_of_drainHooks
      (fun k holdings => respected (free.close k holdings)) (fun hook => respected (free.hook hook))
      ranked returned
    exact ⟨log, past, passes.once.trans (ranked.perm.symm.append_right _)⟩

end Programs

/-- Hook 0 registers hook 1 when it runs. -/
def relay : Environment Unit Nat Unit where
  kind _ := Kind.heap
  hook
    | 0 => do
      let _ ← Client.ask (.register 1 5)
    | _ => return ()
  production := ⟨"default", ()⟩

theorem relay_hookFree : relay.HookFree where
  create _ := ⟨trivial, fun _ => trivial⟩
  close _ _ := trivial
  hook hook := by
    cases hook with
    | zero => exact ⟨trivial, fun _ => trivial⟩
    | succ _ => trivial

/-- Registers both hooks, so that hook 0 runs first, and runs them. -/
def relayRun : Client Unit Nat Unit Unit := do
  let _ ← Client.ask (.register 0 30)
  let _ ← Client.ask (.register 1 20)
  Client.ask .runHooks

def relayed : World Unit Nat Unit :=
  (relayRun.run relay).leaves (World.start ⟨"default", ()⟩ true ())

/-- Hook 1 is registered while it waits for its turn: this is accepted, and it runs twice although
nobody registered it after it had started. -/
theorem relay_runs_twice :
    relayed.hooks.past = [.started ⟨.client 1, 5⟩, .emptied, .started ⟨.client 1, 20⟩,
      .registered ⟨.client 1, 5⟩ true, .started ⟨.client 0, 30⟩, .emptied,
      .registered ⟨.client 1, 20⟩ true, .registered ⟨.client 0, 30⟩ true] ∧
    (Hook.client 1).Waiting [.started ⟨.client 0, 30⟩, .emptied,
      .registered ⟨.client 1, 20⟩ true, .registered ⟨.client 0, 30⟩ true] := by
  refine ⟨rfl, [.started ⟨.client 0, 30⟩], _, rfl, ?_, ⟨⟨.client 1, 20⟩, ?_, rfl⟩, ?_⟩
  · simp [HookEvent.empties]
  · exact List.mem_cons_self
  · simp

theorem relay_hook_laws : relay.HookFree ∧ Visited relay relayed ∧ relayed.HookLaws relay := by
  have visited : Visited relay relayed := .step _ (.start _ _ _)
  exact ⟨relay_hookFree, visited, visited.hook_laws relay_hookFree⟩

end MemoryTrial
