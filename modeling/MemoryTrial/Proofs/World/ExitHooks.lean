import MemoryTrial.Proofs.World.Registry

/-! The run of the exit hooks.  It goes pass by pass: a pass takes all hooks out of the table and runs
them in their order, and what they register meanwhile is left for the next pass (`Passes`).  A start
that is on record is one run of the program of the hook, and nothing else is run (`Handles`).  So every
registration that was accepted is run once, after everything of the pass in which it was made
(`Environment.HookFree.runs_in_order`). -/

namespace MemoryTrial

variable {κ η σ α β : Type}

/-- The effect of what changes the table of exit hooks by registrations only. -/
def registering : Effect κ η σ where
  Allows w w' := w.hooks.Grows w'.hooks
  refl w := .refl w.hooks
  trans := .trans

/-- An effect that is about what a process has settled about its exit. -/
structure Effect.OfExit (E : Effect κ η σ) : Prop where
  lenient : E.Lenient
  same : ∀ w w' : World κ η σ, w'.exit = w.exit → E.Allows w w'

theorem registering_ofExit : (registering : Effect κ η σ).OfExit where
  lenient _ _ tidy := tidy.exit.hooks
  same _ _ same := .of_eq (congrArg ExitPlan.hooks same)

/-- What calls run in an environment leaves the run of the exit hooks to others. -/
structure Environment.HookFree (env : Environment κ η σ) : Prop where
  create : ∀ k, (env.kind k).create.Only Calls.operations Calls.operations
  close : ∀ k holdings, ((env.kind k).close holdings).Only Calls.operations Calls.operations
  hook : ∀ hook, (env.hook hook).Only Calls.operations Calls.operations

namespace Effect.OfExit

open Run

variable {E : Effect κ η σ} (ofExit : E.OfExit)
include ofExit

theorem outer : E.Outer where
  plain := ofExit.lenient.plain
  frame _ _ := ofExit.same _ _ rfl
  state _ _ _ _ _ _ _ _ := ofExit.same _ _ rfl
  denied _ _ _ _ _ := ofExit.same _ _ rfl

theorem within (h : Handle) (p : Ptr) (edit : ByteArray → ByteArray)
    {body : ByteArray → Run κ η σ α} (hbody : ∀ bytes, (body bytes).Respects E) :
    (Run.within h p edit body).Respects E :=
  ofExit.outer.within (fun _ _ _ _ _ _ _ => ofExit.same _ _ rfl) (fun _ _ _ => ofExit.same _ _ rfl)
    h p edit hbody

variable {env : Environment κ η σ} {nested : Nested κ η σ}
  (closes : ∀ k holdings, (nested ((env.kind k).close holdings)).Respects E)
include closes

theorem destroy (h : Handle) : (Run.destroy env nested h).Respects E :=
  ofExit.lenient.destroy (fun _ _ _ _ _ _ _ => ofExit.same _ _ rfl) closes h

theorem drainCache (rounds : Nat) : (Run.drainCache env nested rounds).Respects E := by
  refine Effect.drainCache (fun w _ newest _ => ?_) rounds
  exact E.trans (ofExit.same w { w with cache := w.cache.dropLast } rfl)
    (ofExit.destroy closes newest _)

variable [DecidableEq η] (creates : ∀ k, (nested (env.kind k).create).Respects E)
include creates

theorem lookUp (k : κ) : (Run.lookUp env nested k).Respects E := by
  refine ofExit.lenient.lookUp k (creates k) (fun v built sources => ?_) ?_
  · exact E.trans (ofExit.same v (v.enroll (env.newInstance k built sources true)) rfl)
      (ofExit.destroy closes _ _)
  · exact fun _ _ _ _ => ofExit.same _ _ rfl

theorem call (bound : Nat) {c : Call κ η σ β} (only : Calls.operations β c) :
    (c.run env nested bound).Respects E := by
  have lenient := ofExit.lenient
  cases c with
  | lookUp k => exact lenient.during _ (ofExit.lookUp closes creates k)
  | build k => exact lenient.during _ (lenient.build k (creates k) fun _ _ _ => ofExit.same _ _ rfl)
  | delete h =>
    refine lenient.delete h fun w h inst _ => E.trans (ofExit.same w _ ?_) (ofExit.destroy closes h _)
    split <;> rfl
  | teardown =>
    exact respects_bind (lenient.of_still still_reachRegistry) fun _ =>
      ofExit.drainCache closes bound
  | runHooks => exact only.elim
  | _ => exact ofExit.outer.call trivial

end Effect.OfExit

section Programs

variable [DecidableEq η] {env : Environment κ η σ} {E : Effect κ η σ}

theorem Effect.OfExit.respects (ofExit : E.OfExit) (free : env.HookFree) (bound depth : Nat)
    {c : Client κ η σ α} (only : c.Only Calls.operations Calls.operations) :
    (c.runTo env bound depth).Respects E := by
  refine Covers.respects_runTo (fun respected => ?_) depth only
  exact ⟨fun _ only => ofExit.call (fun k holdings => respected (free.close k holdings))
      (fun k => respected (free.create k)) bound only,
    fun _ => ofExit.outer.replay, fun f _ => ofExit.outer.plain.scope f,
    fun h p edit _ => ofExit.within h p edit, fun fixture _ => ofExit.outer.thread fixture⟩

theorem Effect.OfExit.respects_below (ofExit : E.OfExit) (free : env.HookFree) (bound depth : Nat)
    {c : Client κ η σ α} (only : c.Only Calls.operations Calls.operations) :
    (env.below bound depth c).Respects E :=
  Client.respects_below (fun depth => ofExit.respects free bound depth only) depth

/-- A program that does not run the exit hooks at most registers some. -/
theorem Client.respects_registering (free : env.HookFree) (bound depth : Nat) {c : Client κ η σ α}
    (only : c.Only Calls.operations Calls.operations) :
    (c.runTo env bound depth).Respects registering := registering_ofExit.respects free bound depth only

end Programs

/-- A run of the exit hooks when `made` had been registered, pass by pass.  A pass starts the hooks
that it took out of the table, in the order of the table and no others. -/
inductive Passes : List (HookEntry η) → List (HookEvent η) → Prop
  | done : Passes [] []
  | pass {made taken : List (HookEntry η)} {log rest : List (HookEvent η)} : made ≠ [] →
    Ranked made taken → log.filterMap HookEvent.started? = taken →
    (∀ event ∈ log, event ≠ .emptied) → Passes (log.filterMap HookEvent.accepted?) rest →
    Passes made (.emptied :: (log ++ rest))

/-- Every hook that was registered is run once. -/
theorem Passes.once {made : List (HookEntry η)} {log : List (HookEvent η)} (passes : Passes made log) :
    (log.filterMap HookEvent.started?).Perm (made ++ log.filterMap HookEvent.accepted?) := by
  induction passes with
  | done => exact .refl _
  | @pass made taken log rest _ ranked started _ _ ih =>
    have head (f : HookEvent η → Option (HookEntry η)) (none : f .emptied = none) :
        (HookEvent.emptied :: (log ++ rest)).filterMap f = log.filterMap f ++ rest.filterMap f := by
      rw [List.filterMap_cons, none, List.filterMap_append]
    rw [head HookEvent.started? rfl, head HookEvent.accepted? rfl, started]
    exact ranked.perm.append ih

/-- What is run for an exit hook, from the state in which its start is on record. -/
inductive Handled (env : Environment κ η σ) (nested : Nested κ η σ) (bound : Nat) (w : World κ η σ) :
    HookEntry η → World κ η σ → Prop
  | client {hook : η} {priority : Int} {v : World κ η σ} :
    nested (env.hook hook) (w.starting ⟨.client hook, priority⟩) = .ok () v →
    Handled env nested bound w ⟨.client hook, priority⟩ v
  | teardown {priority : Int} {v : World κ η σ} :
    Run.drainCache env nested bound (w.starting ⟨.teardown, priority⟩) = .ok () v →
    Handled env nested bound w ⟨.teardown, priority⟩ v

/-- A run of exit hooks from one state to the other: the hooks that were run, each with the state in
which it returned.  Besides, hooks were taken out of the table. -/
inductive Handles (env : Environment κ η σ) (nested : Nested κ η σ) (bound : Nat) :
    World κ η σ → List (HookEntry η × World κ η σ) → World κ η σ → Prop
  | done (w : World κ η σ) : Handles env nested bound w [] w
  | emptied {w w' : World κ η σ} {steps : List (HookEntry η × World κ η σ)} :
    Handles env nested bound { w with hooks := ⟨[], .emptied :: w.hooks.past⟩ } steps w' →
    Handles env nested bound w steps w'
  | handled {w v w' : World κ η σ} {entry : HookEntry η}
    {steps : List (HookEntry η × World κ η σ)} :
    Handled env nested bound w entry v → Handles env nested bound v steps w' →
    Handles env nested bound w ((entry, v) :: steps) w'

/-- From `w` to `w'` the hooks in `taken` were started in this order, and hooks were registered. -/
def Starts (taken made : List (HookEntry η)) (w w' : World κ η σ) : Prop :=
  ∃ log : List (HookEvent η), w'.hooks.past = log.reverse ++ w.hooks.past ∧
    log.filterMap HookEvent.started? = taken ∧
    (∀ event ∈ log, event ≠ .emptied) ∧
    Ranked (made ++ log.filterMap HookEvent.accepted?) w'.hooks.entries

section Drain

variable {env : Environment κ η σ} {nested : Nested κ η σ} {bound : Nat} {w v w' : World κ η σ}
  {made : List (HookEntry η)} {entry : HookEntry η} {steps : List (HookEntry η × World κ η σ)}

open Run

theorem Run.handled_of_handle (handled : handle env nested bound entry w = .ok () v) :
    Handled env nested bound w entry v := by
  obtain ⟨hook, priority⟩ := entry
  cases hook with
  | teardown => exact .teardown handled
  | client hook => exact .client handled

/-- An effect that is respected by whatever hooks run. -/
theorem Handled.allows {E : Effect κ η σ} (handled : Handled env nested bound w entry v)
    (drains : (drainCache env nested bound).Respects E)
    (hooks : ∀ hook, (nested (env.hook hook)).Respects E) : E.Allows (w.starting entry) v := by
  cases handled with
  | client ran => exact leaves_of_ok ran ▸ hooks _ _
  | teardown ran => exact leaves_of_ok ran ▸ drains _

theorem Run.handles_of_runAll {taken : List (HookEntry η)}
    (returned : drainHooks.runAll env nested bound taken w = .ok () v)
    (handles : Handles env nested bound v steps w') :
    ∃ steps', Handles env nested bound w steps' w' := by
  induction taken generalizing w with
  | nil =>
    cases returned
    exact ⟨steps, handles⟩
  | cons entry rest ih =>
    obtain ⟨_, u, handled, returned⟩ := exists_of_bind_ok returned
    obtain ⟨steps', handles⟩ := ih returned
    exact ⟨_, .handled (handled_of_handle handled) handles⟩

theorem Run.handles_of_drainHooks {rounds : Nat}
    (returned : drainHooks env nested bound rounds w = .ok () w') :
    ∃ steps, Handles env nested bound w steps w' := by
  induction rounds generalizing w with
  | zero => cases returned
  | succ rounds ih =>
    rw [drainHooks, bind_of_ok (get_run w)] at returned
    cases taken : w.hooks.entries with
    | nil =>
      rw [taken] at returned
      cases returned
      exact ⟨[], .done _⟩
    | cons entry others =>
      rw [taken] at returned
      simp only [bind_of_ok (modify_run _ w)] at returned
      obtain ⟨_, u, ran, returned⟩ := exists_of_bind_ok returned
      obtain ⟨steps, handles⟩ := ih returned
      obtain ⟨steps', handles⟩ := handles_of_runAll ran handles
      exact ⟨steps', .emptied handles⟩

theorem Handles.of_append {before after : List (HookEntry η × World κ η σ)}
    (handles : Handles env nested bound w (before ++ (entry, v) :: after) w') :
    (∃ u, Handled env nested bound u entry v) ∧ Handles env nested bound v after w' := by
  generalize whole : before ++ (entry, v) :: after = steps at handles
  induction handles generalizing before with
  | done => simp at whole
  | emptied _ ih => exact ih whole
  | handled handled handles ih =>
    cases before with
    | nil =>
      cases whole
      exact ⟨⟨_, handled⟩, handles⟩
    | cons step before =>
      cases whole
      exact ih rfl

theorem Starts.of_grows {w₁ : World κ η σ} (ranked : Ranked made w.hooks.entries)
    (grows : (w.starting entry).hooks.Grows w₁.hooks) : Starts [entry] made w w₁ := by
  obtain ⟨log, past, registers⟩ := grows
  have registrations := registers.is_registration
  have unstarted := registers.unstarted
  refine ⟨.started entry :: log, ?_, ?_, ?_, registers.ranked ranked⟩
  · rw [past, List.reverse_cons, List.append_assoc]
    rfl
  · rw [List.filterMap_cons, HookEvent.started?, unstarted]
  · intro event mem
    rcases List.mem_cons.mp mem with rfl | mem
    · intro same
      cases same
    · obtain ⟨_, _, rfl⟩ := registrations event mem
      intro same
      cases same

theorem Starts.append {w₁ : World κ η σ} {rest : List (HookEntry η)}
    (first : Starts [entry] made w w₁)
    (second : ∀ made', Ranked made' w₁.hooks.entries → Starts rest made' w₁ w') :
    Starts (entry :: rest) made w w' := by
  obtain ⟨log, past, started, inner, ranked⟩ := first
  obtain ⟨log', past', started', inner', ranked'⟩ := second _ ranked
  refine ⟨log ++ log', ?_, ?_, fun event mem => ?_, ?_⟩
  · rw [past', past, List.reverse_append, List.append_assoc]
  · rw [List.filterMap_append, started, started']
    rfl
  · exact (List.mem_append.mp mem).elim (inner event) (inner' event)
  · rw [List.filterMap_append, ← List.append_assoc]
    exact ranked'

variable (closes : ∀ k holdings, (nested ((env.kind k).close holdings)).Respects registering)
  (hooks : ∀ hook, (nested (env.hook hook)).Respects registering)
include closes hooks

/-- A hook only registers hooks. -/
theorem Handled.grows (handled : Handled env nested bound w entry v) :
    (w.starting entry).hooks.Grows v.hooks :=
  handled.allows (registering_ofExit.drainCache closes bound) hooks

/-- The starts on record are those of the hooks that were run. -/
theorem Handles.log (handles : Handles env nested bound w steps w') :
    ∃ log : List (HookEvent η), w'.hooks.past = log.reverse ++ w.hooks.past ∧
      log.filterMap HookEvent.started? = steps.map Prod.fst := by
  induction handles with
  | done => exact ⟨[], rfl, rfl⟩
  | emptied _ ih =>
    obtain ⟨log, past, started⟩ := ih
    refine ⟨.emptied :: log, ?_, started⟩
    rw [past, List.reverse_cons, List.append_assoc]
    rfl
  | @handled w v w' entry steps handled _ ih =>
    obtain ⟨log, past, started⟩ := ih
    obtain ⟨during, past', registers⟩ := handled.grows closes hooks
    refine ⟨.started entry :: (during ++ log), ?_, ?_⟩
    · rw [past, show v.hooks.past = during.reverse ++ .started entry :: w.hooks.past from past']
      simp
    · rw [List.filterMap_cons, HookEvent.started?, List.filterMap_append, registers.unstarted,
        started]
      rfl

theorem Run.starts_of_runAll {taken : List (HookEntry η)} (ranked : Ranked made w.hooks.entries)
    (returned : drainHooks.runAll env nested bound taken w = .ok () w') : Starts taken made w w' := by
  induction taken generalizing w made with
  | nil =>
    cases returned
    exact ⟨[], rfl, rfl, nofun, by simpa using ranked⟩
  | cons entry rest ih =>
    obtain ⟨_, u, handled, returned⟩ := exists_of_bind_ok returned
    have grows := (handled_of_handle handled).grows closes hooks
    exact (Starts.of_grows ranked grows).append fun made' ranked => ih ranked returned

/-- A run of the exit hooks that returns is a sequence of passes, and leaves none. -/
theorem Run.passes_of_drainHooks {rounds : Nat} (ranked : Ranked made w.hooks.entries)
    (returned : drainHooks env nested bound rounds w = .ok () w') :
    w'.hooks.entries = [] ∧
      ∃ log, w'.hooks.past = log.reverse ++ w.hooks.past ∧ Passes made log := by
  induction rounds generalizing w made with
  | zero => cases returned
  | succ rounds ih =>
    rw [drainHooks, bind_of_ok (get_run w)] at returned
    cases taken : w.hooks.entries with
    | nil =>
      rw [taken] at returned ranked
      cases returned
      obtain rfl := ranked.perm.nil_eq
      exact ⟨taken, [], rfl, .done⟩
    | cons entry others =>
      rw [taken] at returned ranked
      simp only [bind_of_ok (modify_run _ w)] at returned
      obtain ⟨_, w₁, ran, returned⟩ := exists_of_bind_ok returned
      obtain ⟨log, past, started, inner, ranked'⟩ := starts_of_runAll closes hooks .nil ran
      obtain ⟨emptied, log', past', passes⟩ := ih ranked' returned
      refine ⟨emptied, .emptied :: (log ++ log'), ?_, .pass ?_ ranked started inner passes⟩
      · rw [past', past]
        simp
      · rintro rfl
        cases ranked.perm.eq_nil

/-- A run of the exit hooks, by what is on record of it and by what was run. -/
theorem Run.runs_of_drainHooks {rounds : Nat} (ranked : Ranked made w.hooks.entries)
    (returned : drainHooks env nested bound rounds w = .ok () w') :
    w'.hooks.entries = [] ∧ ∃ steps log, Handles env nested bound w steps w' ∧
      w'.hooks.past = log.reverse ++ w.hooks.past ∧
      log.filterMap HookEvent.started? = steps.map Prod.fst ∧ Passes made log := by
  obtain ⟨emptied, log, past, passes⟩ := passes_of_drainHooks closes hooks ranked returned
  obtain ⟨steps, handles⟩ := handles_of_drainHooks returned
  obtain ⟨log', past', started⟩ := handles.log closes hooks
  obtain rfl : log' = log := by
    have same := List.append_cancel_right (past'.symm.trans past)
    exact List.reverse_injective same
  exact ⟨emptied, steps, log', handles, past, started, passes⟩

end Drain

section Programs

variable [DecidableEq η] {env : Environment κ η σ}

/-- A registration is rejected exactly if its hook is in the table, which then stays as it is. -/
structure Registrable (hook : Hook η) (priority : Int) (w : World κ η σ) : Prop where
  accepted : ¬hook.Known w.hooks.entries → Run.register hook priority w = .ok true { w with
    hooks := ⟨HookEntry.placed ⟨hook, priority⟩ w.hooks.entries,
      .registered ⟨hook, priority⟩ true :: w.hooks.past⟩ }
  rejected : hook.Known w.hooks.entries → Run.register hook priority w = .ok false { w with
    hooks := ⟨w.hooks.entries, .registered ⟨hook, priority⟩ false :: w.hooks.past⟩ }

/-- The exit hooks are run from `w` to `w'`.  What happened to them since there were none at `w₀` is
`before`, and what happens in the run is `log`. -/
structure HookRun (env : Environment κ η σ) (nested : Nested κ η σ) (bound : Nat)
    (w₀ w w' : World κ η σ) (before log : List (HookEvent η)) : Prop where
  registrable : ∀ hook priority (v : World κ η σ), Registrable hook priority v
  history : w.hooks.past = before.reverse ++ w₀.hooks.past
  table : Registers [] before w.hooks.entries
  past : w'.hooks.past = log.reverse ++ w.hooks.past
  emptied : w'.hooks.entries = []
  passes : Passes (before.filterMap HookEvent.accepted?) log
  /-- Each registration that was accepted, before or during the run, leads to one start. -/
  once : (log.filterMap HookEvent.started?).Perm
    ((before ++ log).filterMap HookEvent.accepted?)
  /-- Each start is a run of what was registered, from its beginning to its return, and nothing else is
  run. -/
  handles : ∃ steps, Handles env nested bound w steps w' ∧
    log.filterMap HookEvent.started? = steps.map Prod.fst

/-- However hooks were registered, a run of the exit hooks that returns has run all of them, and all
that they registered themselves, once and in order. -/
theorem Environment.HookFree.runs_in_order (free : env.HookFree) {c : Client κ η σ α}
    (only : c.Only Calls.operations Calls.operations) {w₀ w' : World κ η σ}
    (none : w₀.hooks.entries = []) (bound depth bound' depth' : Nat)
    (returned : (Client.ask .runHooks).runTo env bound' depth'
      ((c.runTo env bound depth).leaves w₀) = .ok () w') :
    ∃ before log, HookRun env (env.below bound' depth') bound' w₀
      ((c.runTo env bound depth).leaves w₀) w' before log := by
  obtain ⟨before, history, table⟩ := Client.respects_registering free bound depth only w₀
  rw [none] at table
  have ranked : Ranked (before.filterMap HookEvent.accepted?) _ := table.ranked .nil
  rw [Client.runTo_eq, Client.runWith_ask] at returned
  obtain ⟨emptied, steps, log, handles, past, started, passes⟩ := Run.runs_of_drainHooks
    (fun k holdings => registering_ofExit.respects_below free bound' depth' (free.close k holdings))
    (fun hook => registering_ofExit.respects_below free bound' depth' (free.hook hook))
    ranked returned
  refine ⟨before, log, fun hook priority v => ⟨Run.register_of_unknown, Run.register_of_known⟩,
    history, table, past, emptied, passes, ?_, steps, handles, started⟩
  rw [List.filterMap_append]
  exact passes.once

end Programs

/-- Hook 0 registers two hooks when it runs, and tries to register itself twice. -/
def chained : Environment Unit Nat Unit where
  kind _ := Kind.heap
  hook
    | 0 => do
      let _ ← Client.ask (.register 1 5)
      let _ ← Client.ask (.register 2 40)
      let _ ← Client.ask (.register 1 90)
    | _ => return ()
  production := ⟨"default", ()⟩

theorem chained_hookFree : chained.HookFree where
  create _ := ⟨trivial, fun _ => trivial⟩
  close _ _ := trivial
  hook hook := by
    cases hook with
    | zero => exact ⟨trivial, fun _ => ⟨trivial, fun _ => ⟨trivial, fun _ => trivial⟩⟩⟩
    | succ _ => trivial

/-- Hooks of two priorities, and one that is registered twice. -/
def registrations : Client Unit Nat Unit Unit := do
  let _ ← Client.ask (.register 0 10)
  let _ ← Client.ask (.register 3 10)
  let _ ← Client.ask (.register 4 20)
  let _ ← Client.ask (.register 0 99)

theorem registrations_only : registrations.Only Calls.operations Calls.operations :=
  ⟨trivial, fun _ => ⟨trivial, fun _ => ⟨trivial, fun _ => ⟨trivial, fun _ => trivial⟩⟩⟩⟩

def chainedStart : World Unit Nat Unit := World.start ⟨"default", ()⟩ true ()

theorem chained_runs_in_order :
    ∃ w', (Client.ask .runHooks).runTo chained 9 2 ((registrations.runTo chained 9 2).leaves
        chainedStart) = .ok () w' ∧
      ∃ before log, HookRun chained (chained.below 9 2) 9 chainedStart
        ((registrations.runTo chained 9 2).leaves chainedStart) w' before log :=
  ⟨_, rfl, chained_hookFree.runs_in_order registrations_only rfl 9 2 9 2 rfl⟩

end MemoryTrial
