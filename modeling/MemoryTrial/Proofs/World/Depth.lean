import MemoryTrial.Proofs.Replay.Termination
import MemoryTrial.Proofs.World.Tasks

/-! How deep tasks nest.  A program that destroys nothing has no loop of its own but replays, which
come to their ends: it goes on for ever only if its tasks nest as deep as one likes
(`Client.dives`). -/

namespace MemoryTrial

variable {κ η σ α β : Type}

/-- Tasks were begun that nested `depth` deep inside those that were under way. -/
def Tasks.Deep (depth : Nat) (before after : Tasks κ) : Prop :=
  ∃ told, after.begun = told ++ before.begun ∧ ∃ stack, (stack = before.active ∨ stack ∈ told) ∧
    before.active.length + depth ≤ stack.length

namespace Tasks.Deep

variable {depth less : Nat} {before between later : Tasks κ}

theorem mono (deep : Deep depth before later) (h : less ≤ depth) : Deep less before later := by
  obtain ⟨told, begun, stack, mem, long⟩ := deep
  exact ⟨told, begun, stack, mem, (Nat.add_le_add_left h _).trans long⟩

theorem after {told : List (List (Task κ))} (begun : between.begun = told ++ before.begun)
    (active : between.active = before.active) (deep : Deep depth between later) :
    Deep depth before later := by
  obtain ⟨told', begun', stack, mem, long⟩ := deep
  rw [active] at mem long
  refine ⟨told' ++ told, ?_, stack, mem.imp_right fun mem => List.mem_append_left told mem, long⟩
  rw [begun', begun, List.append_assoc]

/-- A task is one task deeper than what is begun around it. -/
theorem nest {w : World κ η σ} {task : Task κ} (deep : Deep depth (w.begin task).tasks later) :
    Deep (depth + 1) w.tasks ⟨w.tasks.active, later.begun⟩ := by
  obtain ⟨told, begun, stack, mem, long⟩ := deep
  refine ⟨told ++ [task :: w.tasks.active], ?_, stack, .inr ?_, ?_⟩
  · rw [List.append_assoc]
    exact begun
  · rcases mem with rfl | mem
    · exact List.mem_append_right told (List.mem_singleton_self _)
    · exact List.mem_append_left _ mem
  · simp only [World.begin, List.length_cons] at long
    omega

end Tasks.Deep

namespace Run

/-- A computation that begins no task and is never cut off. -/
structure Taskless (x : Run κ η σ α) : Prop where
  tasks : ∀ w, (x.leaves w).tasks = w.tasks
  finite : ∀ w w', x w ≠ .error .endless w'

/-- A computation that is cut off, inside the tasks `base`, only where tasks nest `depth` deep. -/
def Dives (base : List (Task κ)) (depth : Nat) (x : Run κ η σ α) : Prop :=
  ∀ w w', w.tasks.active = base → x w = .error .endless w' → Tasks.Deep depth w.tasks w'.tasks

section Taskless

variable {x : Run κ η σ α} {f : α → Run κ η σ β}

theorem taskless_of_still (still : x.Respects still) (finite : ∀ w w', x w ≠ .error .endless w') :
    x.Taskless := ⟨fun w => (still w).tasks, finite⟩

theorem taskless_pure (a : α) : (pure a : Run κ η σ α).Taskless :=
  ⟨fun _ => rfl, fun _ _ h => nomatch h⟩

theorem taskless_get : (get : Run κ η σ (World κ η σ)).Taskless :=
  ⟨fun _ => rfl, fun _ _ h => nomatch h⟩

theorem taskless_modify {change : World κ η σ → World κ η σ}
    (same : ∀ w, (change w).tasks = w.tasks) : (modify change : Run κ η σ Unit).Taskless :=
  ⟨same, fun _ _ h => nomatch h⟩

theorem taskless_raise (p : Panic) : (raise p : Run κ η σ α).Taskless :=
  taskless_of_still (still_raise p) fun _ _ h => nomatch h

theorem taskless_onPart {τ : Type} {extract : World κ η σ → τ}
    {insert : τ → World κ η σ → World κ η σ} (x : Op τ α)
    (same : ∀ t w, (insert t w).tasks = w.tasks) : (onPart extract insert x).Taskless := by
  constructor
  · intro w
    rw [leaves_onPart]
    exact same _ w
  · intro w w' cut
    unfold onPart at cut
    revert cut
    obtain ⟨value, t, records⟩ := x (extract w)
    cases value <;> exact fun cut => nomatch cut

theorem taskless_bind (hx : x.Taskless) (hf : ∀ a, (f a).Taskless) : (x >>= f).Taskless := by
  constructor
  · intro w
    cases h : x w with
    | ok a w' =>
      rw [leaves_bind_of_ok h, (hf a).tasks, ← leaves_of_ok h, hx.tasks]
    | error halt w' =>
      rw [leaves_of_error (bind_of_error h), ← leaves_of_error h, hx.tasks]
  · intro w w' cut
    cases h : x w with
    | ok a v =>
      rw [bind_of_ok h] at cut
      exact (hf a).finite v w' cut
    | error halt v =>
      rw [bind_of_error h] at cut
      cases cut
      exact hx.finite w w' h

theorem taskless_instanceOf (h : Handle) : (instanceOf h : Run κ η σ (Instance κ)).Taskless := by
  apply taskless_bind taskless_get
  intro w
  split
  · exact taskless_pure _
  · exact taskless_raise _

theorem taskless_modifyInstance (h : Handle) (f : Instance κ → Instance κ) :
    (modifyInstance h f : Run κ η σ Unit).Taskless := taskless_modify fun _ => rfl

theorem taskless_liveInstance (h : Handle) :
    (liveInstance h : Run κ η σ (Instance κ × Allocator)).Taskless := by
  apply taskless_bind (taskless_instanceOf h)
  intro inst
  split
  · exact taskless_raise _
  · split
    · exact taskless_pure _
    · exact taskless_bind (taskless_modify fun _ => rfl) fun _ => taskless_raise _

theorem taskless_onAllocator (h : Handle) (a : Allocator) (x : Op (Allocator × Option Frame) α) :
    (onAllocator h a x : Run κ η σ α).Taskless :=
  taskless_bind (taskless_modifyInstance h _) fun _ => taskless_onPart x fun _ _ => rfl

theorem taskless_checkpoint : (checkpoint : Run κ η σ Bool).Taskless := by
  unfold checkpoint
  exact taskless_onPart _ fun _ _ => rfl

theorem taskless_onOwned (i : Nat) (x : Op (Allocator × Option Frame) α) :
    (onOwned i x : Run κ η σ α).Taskless := by
  apply taskless_bind taskless_get
  intro w
  split
  · exact taskless_bind taskless_get fun _ => taskless_raise _
  · exact taskless_bind (taskless_modify fun _ => rfl) fun _ => taskless_onPart x fun _ _ => rfl

section Registry

variable [DecidableEq η]

theorem taskless_register (hook : η) (priority : Int) :
    (register (.client hook) priority : Run κ η σ Bool).Taskless := by
  refine taskless_of_still (still_register hook priority) fun w w' cut => ?_
  obtain ⟨added, hooks, registered, -⟩ := register_client_eq hook priority w
  rw [registered] at cut
  cases cut

theorem taskless_reachRegistry : (reachRegistry : Run κ η σ Unit).Taskless := by
  refine taskless_of_still still_reachRegistry fun w w' cut => ?_
  obtain ⟨hooks, teardownHooked, reached⟩ := reachRegistry_eq w
  rw [reached] at cut
  cases cut

/-- Calls but look-ups and creations begin no task. -/
theorem taskless_call {env : Environment κ η σ} {nested : Nested κ η σ} {bound : Nat}
    {c : Call κ η σ β} (harmless : Calls.harmless False β c) :
    (c.run env nested bound).Taskless := by
  cases c with
  | get => exact taskless_bind taskless_get fun _ => taskless_pure _
  | set s => exact taskless_modify fun _ => rfl
  | say text => exact taskless_modify fun _ => rfl
  | journal start => exact taskless_bind taskless_get fun _ => taskless_pure _
  | compute x => exact taskless_onPart x fun _ _ => rfl
  | checkpoint => exact taskless_checkpoint
  | isReplayActive => exact taskless_bind taskless_get fun _ => taskless_pure _
  | kinds =>
    exact taskless_bind taskless_reachRegistry fun _ => taskless_bind taskless_get fun _ =>
      taskless_pure _
  | use h r => exact taskless_bind (taskless_liveInstance h) fun _ => taskless_onAllocator h _ _
  | isDestroyed h => exact taskless_bind (taskless_instanceOf h) fun _ => taskless_pure _
  | describe h => exact taskless_bind (taskless_instanceOf h) fun _ => taskless_pure _
  | setFixture f =>
    exact taskless_bind (taskless_modify fun _ => rfl) fun _ => taskless_modify fun _ => rfl
  | fixture => exact taskless_bind taskless_get fun _ => taskless_pure _
  | own a =>
    exact taskless_bind taskless_get fun _ => taskless_bind (taskless_modify fun _ => rfl)
      fun _ => taskless_pure _
  | useOwned i r => exact taskless_onOwned i _
  | tearDownOwned i => exact taskless_onOwned i _
  | readOwned i f => exact taskless_onOwned i _
  | register hook priority => exact taskless_register _ _
  | lookUp | build | delete | teardown | runHooks => exact harmless.elim

end Registry

end Taskless

section Dives

variable {x : Run κ η σ α} {f : α → Run κ η σ β} {base : List (Task κ)} {depth : Nat}
  {env : Environment κ η σ} {may : KindId → Prop}

theorem Taskless.dives (taskless : x.Taskless) : x.Dives base depth :=
  fun w w' _ cut => absurd cut (taskless.finite w w')

theorem Dives.mono {less : Nat} (dives : x.Dives base depth) (h : less ≤ depth) :
    x.Dives base less := fun w w' active cut => (dives w w' active cut).mono h

/-- What is cut off at once has not begun a task. -/
theorem dives_zero (traces : x.Respects (tracing env base may)) : x.Dives base 0 := by
  intro w w' active cut
  obtain ⟨-, told, begun, -⟩ := traces w active
  rw [leaves_of_error cut] at begun
  exact ⟨told, begun, w.tasks.active, .inl rfl, Nat.le_refl _⟩

theorem Taskless.bind_dives (hx : x.Taskless) (hf : ∀ a, (f a).Dives base depth) :
    (x >>= f).Dives base depth := by
  intro w w' active cut
  cases h : x w with
  | ok a v =>
    rw [bind_of_ok h] at cut
    have same := hx.tasks w
    rw [leaves_of_ok h] at same
    rw [← same] at active ⊢
    exact hf a v w' active cut
  | error halt v =>
    rw [bind_of_error h] at cut
    cases cut
    exact absurd h (hx.finite w w')

theorem dives_bind (hx : x.Dives base depth) (traces : x.Respects (tracing env base may))
    (hf : ∀ a, (f a).Dives base depth) : (x >>= f).Dives base depth := by
  intro w w' active cut
  cases h : x w with
  | ok a v =>
    rw [bind_of_ok h] at cut
    obtain ⟨active', told, begun, -⟩ := traces w active
    rw [leaves_of_ok h] at active' begun
    exact (hf a v w' active' cut).after begun (active'.trans active.symm)
  | error halt v =>
    rw [bind_of_error h] at cut
    cases cut
    exact hx w w' active h

theorem dives_ensuring {cleanUp : World κ η σ → World κ η σ} (hx : x.Dives base depth)
    (same : ∀ w, (cleanUp w).tasks = w.tasks) : (ensuring x cleanUp).Dives base depth := by
  intro w w' active cut
  cases h : x w with
  | ok a v =>
    rw [ensuring_of_ok h] at cut
    cases cut
  | error halt v =>
    rw [ensuring_of_error h] at cut
    cases cut
    rw [same]
    exact hx w v active h

theorem dives_attempt (hx : x.Dives base depth) : (attempt x).Dives base depth := by
  intro w w' active cut
  unfold attempt at cut
  cases h : x w with
  | ok a v =>
    rw [h] at cut
    cases cut
  | error halt v =>
    rw [h] at cut
    cases halt with
    | unwound p => cases cut
    | endless =>
      cases cut
      exact hx w w' active h

theorem dives_obtaining (hx : x.Dives base depth) : (obtaining x).Dives base depth := by
  intro w w' active cut
  cases h : x { w with obtained := [] } with
  | ok a v =>
    rw [obtaining_of_ok h] at cut
    cases cut
  | error halt v =>
    rw [obtaining_of_error h] at cut
    cases cut
    exact hx { w with obtained := [] } v active h

theorem dives_during {task : Task κ} (hx : x.Dives (task :: base) depth) :
    (during task x).Dives base (depth + 1) := by
  intro w w' active cut
  subst active
  cases h : x (w.begin task) with
  | ok a v =>
    rw [during_of_ok h] at cut
    cases cut
  | error halt v =>
    rw [during_of_error h] at cut
    cases cut
    exact (hx (w.begin task) v rfl h).nest

theorem dives_scope (g : Fixture κ) (hx : x.Dives base depth) : (scope g x).Dives base depth := by
  refine taskless_get.bind_dives fun w => ?_
  refine Taskless.bind_dives (taskless_modify fun _ => rfl) fun _ => ?_
  refine Taskless.bind_dives (taskless_modify fun _ => rfl) fun _ => ?_
  exact dives_ensuring hx fun _ => rfl

theorem dives_within (h : Handle) (p : Ptr) (edit : ByteArray → ByteArray)
    {body : ByteArray → Run κ η σ α} (hbody : ∀ bytes, (body bytes).Dives base depth) :
    (within h p edit body).Dives base depth := by
  refine (taskless_liveInstance h).bind_dives fun found => ?_
  refine (taskless_modifyInstance h _).bind_dives fun _ => ?_
  exact dives_ensuring ((taskless_onAllocator h _ _).bind_dives hbody) fun _ => rfl

theorem dives_thread (fixture : Fixture κ) (hx : x.Dives base depth) :
    (thread fixture x).Dives base depth := by
  intro w w' active cut
  have started : (set { w with frame := none, fixture } : Run κ η σ Unit) w =
      .ok () { w with frame := none, fixture } := rfl
  rw [thread, bind_of_ok (get_run w), bind_of_ok started] at cut
  have joined : (ensuring (attempt x) fun w' : World κ η σ =>
      { w' with frame := w.frame, fixture := w.fixture }).Dives base depth :=
    dives_ensuring (dives_attempt hx) fun _ => rfl
  exact joined { w with frame := none, fixture } w' active cut

/-- A replay comes to its end unless one of its runs does not, as the pattern moves on after each
run. -/
theorem dives_replay {body : Run κ η σ Bool} (hbody : body.Dives base depth)
    (traces : body.Respects (tracing env base may)) (passes : body.Respects checkpoints) :
    (replay body).Dives base depth := by
  have loop (runs : Nat) (f : Frame) (w : World κ η σ) (active : w.tasks.active = base) :
      (∀ w', Frame.replayFrom (underFrame body) log runs f w ≠ .ok none w') ∧
      ∀ w', Frame.replayFrom (underFrame body) log runs f w = .error .endless w' →
        Tasks.Deep depth w.tasks w'.tasks := by
    induction hn : f.value using Nat.strongRecOn generalizing runs f w with
    | _ n ih =>
      cases h : body { w with frame := some f.reset } with
      | error halt v =>
        rw [Frame.replayFrom_of_error (underFrame_of_error h)]
        refine ⟨fun w' => nofun, fun w' cut => ?_⟩
        cases cut
        exact hbody { w with frame := some f.reset } v active h
      | ok result v =>
        obtain ⟨path, left, is⟩ := Round.exists_is passes h
        have run := underFrame_of_ok is.ran is.active
        cases failed : left.triggered with
        | false =>
          rw [Frame.replayFrom_of_passed run failed]
          exact ⟨fun w' => nofun, fun w' => nofun⟩
        | true =>
          obtain ⟨g, advance, less, -⟩ := is.exists_advance failed
          obtain ⟨active', told, begun, -⟩ := traces { w with frame := some f.reset } active
          rw [leaves_of_ok h] at active' begun
          rw [Frame.replayFrom_of_failed run failed advance]
          obtain ⟨returns, deep⟩ := ih g.value (hn ▸ less) (runs + 1) g { v with
            journal := v.journal.push (.record (.runForced (runs + 1) left.count)) } active' rfl
          refine ⟨returns, fun w' cut => (deep w' cut).after begun ?_⟩
          exact active'.trans active.symm
  intro w w' active cut
  obtain ⟨returns, deep⟩ := loop 0 Frame.fresh w active
  cases h : Frame.replay (underFrame body) log w with
  | ok answer v =>
    cases answer with
    | none => exact absurd h (returns v)
    | some outcome =>
      rw [replay_of_ok h] at cut
      cases cut
  | error halt v =>
    rw [replay_of_error h] at cut
    cases cut
    exact deep v h

section Registry

variable {nested : Nested κ η σ}

theorem dives_create (k : κ) (shared : Bool)
    (creates : (nested (env.kind k).create).Dives base depth)
    (traces : (nested (env.kind k).create).Respects (tracing env base may)) :
    (create env nested k shared).Dives base depth := by
  refine dives_bind (dives_obtaining creates) (tracing_obtaining traces) fun built => ?_
  obtain ⟨built, sources⟩ := built
  refine Taskless.dives ?_
  dsimp only
  split
  · exact taskless_pure _
  · exact taskless_bind (taskless_modify fun _ => rfl) fun _ => taskless_bind taskless_get fun _ =>
      taskless_bind (taskless_modify fun _ => rfl) fun _ => taskless_pure _

theorem dives_destroy
    (closes : ∀ h k holdings,
      (nested ((env.kind k).close holdings)).Dives (.teardown h k :: base) depth)
    (traces : ∀ h k holdings, (nested ((env.kind k).close holdings)).Respects
      (tracing env (.teardown h k :: base) nothing)) (h : Handle) :
    (destroy env nested h).Dives base (depth + 1) := by
  refine (taskless_instanceOf h).bind_dives fun inst => ?_
  split
  · exact (taskless_raise _).dives
  · split
    · exact (taskless_pure _).dives
    · refine (taskless_modifyInstance h _).bind_dives fun _ => ?_
      refine Taskless.bind_dives (taskless_modify fun _ => rfl) fun _ => ?_
      refine dives_ensuring (dives_during ?_) fun _ => rfl
      refine dives_bind (dives_obtaining (closes h _ _)) (tracing_obtaining (traces h _ _)) ?_
      intro _
      refine Taskless.dives (taskless_bind (taskless_onPart _ fun _ _ => rfl) fun _ => ?_)
      exact taskless_modify fun _ => rfl

variable [DecidableEq η]

theorem dives_lookUp (k k' : κ)
    (creates : (nested (env.kind k).create).Dives (.lookUp k' :: base) depth)
    (closes : ∀ h k'' holdings, (nested ((env.kind k'').close holdings)).Dives
      (.teardown h k'' :: .lookUp k' :: base) depth)
    (create_traces : (nested (env.kind k).create).Respects
      (tracing env (.lookUp k' :: base) nothing))
    (close_traces : ∀ h k'' holdings, (nested ((env.kind k'').close holdings)).Respects
      (tracing env (.teardown h k'' :: .lookUp k' :: base) nothing)) :
    (lookUp env nested k).Dives (.lookUp k' :: base) depth := by
  have answered (h : Handle) :
      (do return .ok (← obtain h) : Run κ η σ (Except ConfigError Handle)).Taskless :=
    taskless_bind (taskless_bind (taskless_modify fun _ => rfl) fun _ => taskless_pure _)
      fun _ => taskless_pure _
  have fits (h : Handle) (k'' : κ) : (Task.teardown h k'').Fits (.lookUp k' :: base) := trivial
  have discards (h : Handle) :
      (destroy env nested h).Respects (tracing env (.lookUp k' :: base) nothing) :=
    tracing_destroy fits close_traces h
  refine taskless_reachRegistry.bind_dives fun _ => taskless_get.bind_dives fun w => ?_
  split
  · exact (answered _).dives
  · refine dives_bind (dives_create k true creates create_traces)
      (tracing_create k true create_traces) fun created => ?_
    split
    · exact (taskless_pure _).dives
    · refine taskless_get.bind_dives fun w => ?_
      split
      · have destroyed := dives_destroy closes close_traces
        exact dives_bind ((destroyed _).mono (Nat.le_succ depth)) (discards _) fun _ =>
          (answered _).dives
      · refine Taskless.bind_dives (taskless_modify fun _ => rfl) fun _ => ?_
        exact (answered _).dives

end Registry

end Dives

end Run

section Programs

variable [DecidableEq η] {env : Environment κ η σ} {nested : Nested κ η σ} {bound depth : Nat}

section Nested

variable (orderly : env.Orderly)
  (traces : ∀ (base : List (Task κ)) {β : Type} {c : Client κ η σ β},
    c.Only (Calls.harmless True) (Calls.harmless True) →
      (nested c).Respects (tracing env base nothing))
  (dives : ∀ (base : List (Task κ)) {β : Type} {c : Client κ η σ β},
    c.Only (Calls.harmless True) (Calls.harmless True) → (nested c).Dives base depth)
  (base : List (Task κ))
include orderly traces dives

open Run in
theorem dives_call {c : Call κ η σ β} (harmless : Calls.harmless True β c) :
    (c.run env nested bound).Dives base (depth + 1) := by
  cases c with
  | lookUp k =>
    refine dives_during (dives_lookUp k k (dives _ (orderly.create k)) ?_
      (traces _ (orderly.create k)) ?_)
    · exact fun _ k' holdings => dives _ (orderly.close k' holdings)
    · exact fun _ k' holdings => traces _ (orderly.close k' holdings)
  | build k =>
    refine dives_during (taskless_reachRegistry.bind_dives fun _ => ?_)
    exact dives_create k false (dives _ (orderly.create k)) (traces _ (orderly.create k))
  | delete h => exact harmless.elim
  | teardown => exact harmless.elim
  | runHooks => exact harmless.elim
  | _ => exact Taskless.dives (taskless_call trivial)

open Run in
theorem dives_runWith
    (passes : ∀ c : Client κ η σ Bool, (c.runWith env nested bound).Respects checkpoints)
    {c : Client κ η σ α} (harmless : c.Only (Calls.harmless True) (Calls.harmless True)) :
    (c.runWith env nested bound).Dives base (depth + 1) := by
  have covers : Covers env nested bound (tracing env base nothing) (tracing env base nothing)
      (Calls.harmless True) := tracing_covers orderly traces
  have inside {β : Type} {c : Client κ η σ β}
      (only : c.Only (Calls.harmless True) (Calls.harmless True)) :
      (c.runWith env nested bound).Respects (tracing env base nothing) :=
    covers.respects_runWith covers only
  induction c with
  | pure a =>
    rw [Client.runWith]
    exact (taskless_pure a).dives
  | call c next ih =>
    rw [Client.runWith]
    exact dives_bind (dives_call orderly traces dives base harmless.1) (covers.call c harmless.1)
      fun b => ih b (harmless.2 b)
  | replay body next ihb ih =>
    rw [Client.runWith]
    have traced := inside harmless.1
    exact dives_bind (dives_replay (ihb harmless.1) traced (passes body))
      (covers.replay _ traced) fun o => ih o (harmless.2 o)
  | attempt body next ihb ih =>
    rw [Client.runWith]
    exact dives_bind (dives_attempt (ihb harmless.1)) (respects_attempt (inside harmless.1))
      fun r => ih r (harmless.2 r)
  | scope f body next ihb ih =>
    rw [Client.runWith]
    exact dives_bind (dives_scope f (ihb harmless.1)) (covers.scope f _ (inside harmless.1))
      fun b => ih b (harmless.2 b)
  | within h p edit body next ihb ih =>
    rw [Client.runWith]
    have traced := fun bytes => inside (harmless.1 bytes)
    exact dives_bind (dives_within h p edit fun bytes => ihb bytes (harmless.1 bytes))
      (covers.within h p edit _ traced) fun b => ih b (harmless.2 b)
  | thread inherits body next ihb ih =>
    rw [Client.runWith]
    refine taskless_get.bind_dives fun w => ?_
    exact dives_bind (dives_thread _ (ihb harmless.1)) (covers.thread _ _ (inside harmless.1))
      fun r => ih r (harmless.2 r)

end Nested

/-- A program that destroys nothing, and whose calls run programs `depth` deep, is cut off only where
tasks nest deeper than that. -/
theorem Client.dives (orderly : env.Orderly) (bound depth : Nat) (base : List (Task κ))
    {c : Client κ η σ α} (harmless : c.Only (Calls.harmless True) (Calls.harmless True)) :
    (c.runTo env bound depth).Dives base (depth + 1) := by
  induction depth generalizing α c base with
  | zero =>
    have traces (base : List (Task κ)) {β : Type} {c : Client κ η σ β}
        (_ : c.Only (Calls.harmless True) (Calls.harmless True)) :
        (throw .endless : Run κ η σ β).Respects (tracing env base nothing) := Run.respects_throw _
    exact dives_runWith orderly traces (fun base _ _ only => Run.dives_zero (traces base only)) base
      (fun c => Client.respects_checkpoints env bound 0 c) harmless
  | succ depth ih =>
    exact dives_runWith orderly
      (fun base _ _ only => Client.respects_tracing orderly bound depth only)
      (fun base _ _ only => ih base only) base
      (fun c => Client.respects_checkpoints env bound (depth + 1) c) harmless

end Programs

end MemoryTrial
