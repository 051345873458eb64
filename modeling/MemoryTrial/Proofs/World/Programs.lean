import MemoryTrial.Proofs.World.HookTable
import MemoryTrial.World.Run

/-! Rules for running client programs: programs one after the other, and the loop of a replay, one run
at a time. -/

namespace MemoryTrial

variable {κ η σ α β : Type}

/-- What runs the programs in the calls of a program that may nest calls to `depth`. -/
def Environment.below [DecidableEq η] (env : Environment κ η σ) (bound : Nat) :
    (depth : Nat) → Nested κ η σ
  | 0 => fun _ => throw .endless
  | depth + 1 => fun c => c.runTo env bound depth

section Programs

variable [DecidableEq η] (env : Environment κ η σ) (nested : Nested κ η σ) (bound : Nat)

theorem Client.runWith_bind (c : Client κ η σ α) (f : α → Client κ η σ β) :
    (c >>= f).runWith env nested bound =
      (c.runWith env nested bound >>= fun a => (f a).runWith env nested bound) := by
  change (c.bind f).runWith env nested bound = _
  induction c with
  | pure a => rw [Client.bind, Client.runWith, pure_bind]
  | call c next ih => simp only [Client.bind, Client.runWith, bind_assoc, ih]
  | replay body next _ ih => simp only [Client.bind, Client.runWith, bind_assoc, ih]
  | attempt body next _ ih => simp only [Client.bind, Client.runWith, bind_assoc, ih]
  | scope g body next _ ih => simp only [Client.bind, Client.runWith, bind_assoc, ih]
  | within h p edit body next _ ih => simp only [Client.bind, Client.runWith, bind_assoc, ih]
  | thread inherits body next _ ih => simp only [Client.bind, Client.runWith, bind_assoc, ih]

theorem Client.runWith_ask (c : Call κ η σ α) :
    (Client.ask c).runWith env nested bound = c.run env nested bound := by
  rw [ask, Client.runWith]
  exact bind_pure _

theorem Client.runTo_of_succ {depth below : Nat} (h : depth = below + 1) (c : Client κ η σ α) :
    c.runTo env bound depth = c.runWith env (fun d => d.runTo env bound below) bound := by
  subst h
  rfl

theorem Client.runTo_eq (depth : Nat) (c : Client κ η σ α) :
    c.runTo env bound depth = c.runWith env (env.below bound depth) bound := by
  cases depth <;> rfl

theorem Client.exists_runTo_eq (depth : Nat) :
    ∃ nested : Nested κ η σ, ∀ {α : Type} (c : Client κ η σ α),
      c.runTo env bound depth = c.runWith env nested bound :=
  ⟨env.below bound depth, fun c => c.runTo_eq env bound depth⟩

theorem exists_runLimit_eq : ∃ below, runLimit = below + 1 := ⟨runLimit - 1, by decide⟩

/-- A whole program runs at the outermost level. -/
theorem Client.exists_below :
    ∃ below, ∀ {α : Type} (c : Client κ η σ α),
      c.run env = c.runWith env (fun d => d.runTo env runLimit below) runLimit := by
  obtain ⟨below, h⟩ := exists_runLimit_eq
  exact ⟨below, fun c => c.runTo_of_succ env runLimit h⟩

theorem Client.exists_run_eq :
    ∃ nested : Nested κ η σ, ∀ {α : Type} (c : Client κ η σ α),
      c.run env = c.runWith env nested runLimit := by
  obtain ⟨below, run_eq⟩ := Client.exists_below env
  exact ⟨_, run_eq⟩

end Programs

/-- The state in which a task begins. -/
def World.begin (w : World κ η σ) (task : Task κ) : World κ η σ :=
  { w with tasks := ⟨task :: w.tasks.active, (task :: w.tasks.active) :: w.tasks.begun⟩ }

namespace Run

variable {w w' : World κ η σ} {x : Run κ η σ α} {f : α → Run κ η σ β} {a : α} {halt : Halt}

theorem bind_of_ok (h : x w = .ok a w') : (x >>= f) w = f a w' := by
  change EStateM.bind x f w = _
  rw [EStateM.bind, h]

theorem bind_of_error (h : x w = .error halt w') : (x >>= f) w = .error halt w' := by
  change EStateM.bind x f w = _
  rw [EStateM.bind, h]

/-- What returns has returned from its first part. -/
theorem exists_of_bind_ok {b : β} (h : (x >>= f) w = .ok b w') :
    ∃ a v, x w = .ok a v ∧ f a v = .ok b w' := by
  cases first : x w with
  | ok a v =>
    rw [bind_of_ok first] at h
    exact ⟨a, v, rfl, h⟩
  | error halt v =>
    rw [bind_of_error first] at h
    cases h

theorem ensuring_of_ok {cleanUp : World κ η σ → World κ η σ} (h : x w = .ok a w') :
    ensuring x cleanUp w = .ok a (cleanUp w') := by
  rw [ensuring, h]

theorem ensuring_of_error {cleanUp : World κ η σ → World κ η σ} (h : x w = .error halt w') :
    ensuring x cleanUp w = .error halt (cleanUp w') := by
  rw [ensuring, h]

theorem get_run (w : World κ η σ) : (get : Run κ η σ (World κ η σ)) w = .ok w w := rfl

theorem modify_run (change : World κ η σ → World κ η σ) (w : World κ η σ) :
    (modify change : Run κ η σ Unit) w = .ok () (change w) := rfl

theorem modifyInstance_run (h : Handle) (change : Instance κ → Instance κ) (w : World κ η σ) :
    (modifyInstance h change : Run κ η σ Unit) w =
      .ok () { w with instances := w.instances.modify h.number change } := rfl

theorem scope_eq (f : Fixture κ) (x : Run κ η σ α) (w : World κ η σ) :
    scope f x w = ensuring x (fun w' => { w' with fixture := w.fixture }) { w with
      fixture := f, journal := w.journal.push (.record (.fixtureSelected f.name)) } := by
  rw [scope, bind_of_ok (get_run w)]
  exact bind_of_ok rfl

theorem thread_eq (fixture : Fixture κ) (x : Run κ η σ α) (w : World κ η σ) :
    thread fixture x w = ensuring (attempt x)
      (fun w' => { w' with frame := w.frame, fixture := w.fixture })
      { w with frame := none, fixture } := by
  rw [thread, bind_of_ok (get_run w)]
  exact bind_of_ok rfl

theorem obtaining_of_ok (h : x { w with obtained := [] } = .ok a w') :
    obtaining x w = .ok (a, w'.obtained) { w' with obtained := w.obtained } := by
  rw [obtaining, bind_of_ok (get_run w), bind_of_ok (modify_run _ w)]
  exact ensuring_of_ok (bind_of_ok h)

theorem obtaining_of_error (h : x { w with obtained := [] } = .error halt w') :
    obtaining x w = .error halt { w' with obtained := w.obtained } := by
  rw [obtaining, bind_of_ok (get_run w), bind_of_ok (modify_run _ w)]
  exact ensuring_of_error (bind_of_error h)

theorem during_of_ok {task : Task κ} (h : x (w.begin task) = .ok a w') :
    during task x w =
      .ok a { w' with tasks := ⟨w.tasks.active, w'.tasks.begun⟩ } := by
  rw [during, bind_of_ok (get_run w), bind_of_ok (modify_run _ w)]
  exact ensuring_of_ok h

theorem during_of_error {task : Task κ} (h : x (w.begin task) = .error halt w') :
    during task x w =
      .error halt { w' with tasks := ⟨w.tasks.active, w'.tasks.begun⟩ } := by
  rw [during, bind_of_ok (get_run w), bind_of_ok (modify_run _ w)]
  exact ensuring_of_error h

section Instances

variable {h : Handle} {inst : Instance κ} {allocator : Allocator}

theorem instanceOf_of_some (here : w.instances[h.number]? = some inst) :
    instanceOf h w = .ok inst w := by
  rw [instanceOf, bind_of_ok (get_run w), here]
  rfl

theorem instanceOf_of_none (missing : w.instances[h.number]? = none) :
    ∃ halt w', instanceOf h w = .error halt w' := by
  rw [instanceOf, bind_of_ok (get_run w), missing]
  exact ⟨_, _, rfl⟩

theorem liveInstance_of_some (here : w.instances[h.number]? = some inst)
    (state : inst.state = some allocator) (idle : inst.busy = false) :
    liveInstance h w = .ok (inst, allocator) w := by
  rw [liveInstance, bind_of_ok (instanceOf_of_some here), idle, state]
  rfl

end Instances

section Hooks

variable [DecidableEq η]

theorem register_of_known {hook : Hook η} {priority : Int} (known : hook.Known w.hooks.entries) :
    register hook priority w =
      .ok false { w with hooks := w.hooks.note (.registered ⟨hook, priority⟩ false) } := by
  rw [register, bind_of_ok (get_run w), insertHook_of_known known]
  exact bind_of_ok (modify_run _ w)

theorem register_of_unknown {hook : Hook η} {priority : Int}
    (unknown : ¬hook.Known w.hooks.entries) :
    register hook priority w = .ok true { w with
      hooks := ⟨HookEntry.placed ⟨hook, priority⟩ w.hooks.entries,
        .registered ⟨hook, priority⟩ true :: w.hooks.past⟩ } := by
  rw [register, bind_of_ok (get_run w), insertHook_of_unknown unknown]
  exact bind_of_ok (modify_run _ w)

theorem register_client_eq (hook : η) (priority : Int) (w : World κ η σ) :
    ∃ added hooks, register (.client hook) priority w = .ok added { w with hooks } ∧
      w.exit.Grows ⟨hooks, w.teardownHooked⟩ := by
  obtain ⟨fresh, stale⟩ := ExitPlan.grows_client w.hooks hook priority w.teardownHooked
  by_cases known : (Hook.client hook).Known w.hooks.entries
  · exact ⟨false, _, register_of_known known, stale known⟩
  · exact ⟨true, _, register_of_unknown known, fresh known⟩

theorem reachRegistry_of_hooked (hooked : w.teardownHooked = true) :
    reachRegistry w = .ok () w := by
  rw [reachRegistry, bind_of_ok (get_run w), if_neg (by simp [hooked])]
  rfl

theorem reachRegistry_of_unhooked (unhooked : w.teardownHooked = false) :
    ∃ hooks, reachRegistry w = .ok () { w with hooks, teardownHooked := true } ∧
      w.exit.Grows ⟨hooks, true⟩ := by
  obtain ⟨fresh, stale⟩ := ExitPlan.grows_teardown w.hooks
  have exit : w.exit = ⟨w.hooks, false⟩ := congrArg (ExitPlan.mk w.hooks) unhooked
  rw [exit]
  have reaches {added : Bool} {hooks : HookTable η}
      (registered : register .teardown allocatorExitPriority { w with teardownHooked := true } =
        .ok added { w with hooks, teardownHooked := true }) :
      reachRegistry w = .ok () { w with hooks, teardownHooked := true } := by
    rw [reachRegistry, bind_of_ok (get_run w), if_pos (by simp [unhooked])]
    exact (bind_of_ok (modify_run _ w)).trans (bind_of_ok registered)
  by_cases known : (Hook.teardown : Hook η).Known w.hooks.entries
  · exact ⟨_, reaches (register_of_known known), stale known⟩
  · exact ⟨_, reaches (register_of_unknown known), fresh known⟩

/-- Whoever uses the registry finds its teardown registered. -/
theorem reachRegistry_grows (w : World κ η σ) :
    ∃ hooks, reachRegistry w = .ok () { w with hooks, teardownHooked := true } ∧
      w.exit.Grows ⟨hooks, true⟩ := by
  cases hooked : w.teardownHooked with
  | true =>
    refine ⟨w.hooks, (reachRegistry_of_hooked hooked).trans ?_, .of_eq ?_⟩
    · rw [← hooked]
    · rw [World.exit, hooked]
  | false => exact reachRegistry_of_unhooked hooked

theorem reachRegistry_eq (w : World κ η σ) :
    ∃ hooks teardownHooked, reachRegistry w = .ok () { w with hooks, teardownHooked } := by
  obtain ⟨hooks, reached, -⟩ := reachRegistry_grows w
  exact ⟨hooks, true, reached⟩

end Hooks

end Run

section Rounds

variable {m : Type → Type} [Monad m] (run : Frame → m (Bool × Frame)) (note : Record → m Unit)
  (runs : Nat) {frame left next : Frame} (result : Bool)

/-- What a replay does after a run under the pattern of `frame`. -/
def Frame.goOn (frame : Frame) (ended : Bool × Frame) : m (Option Outcome) := do
  if ended.2.triggered then
    note (.runForced (runs + 1) ended.2.count)
    match (frame.afterRun ended.2).advance? with
    | some next => Frame.replayFrom run note (runs + 1) next
    | none => return none
  else
    note (.replayFinished (runs + 1) ended.2.count ended.1)
    return some ⟨ended.1, runs + 1, ended.2.count⟩

theorem Frame.replayFrom_eq (frame : Frame) :
    Frame.replayFrom run note runs frame =
      run frame.reset >>= Frame.goOn run note runs frame := by
  rw [Frame.replayFrom]
  congr 1
  funext ended
  obtain ⟨result, left⟩ := ended
  rw [Frame.goOn]
  dsimp only
  by_cases failed : left.triggered = true
  · rw [if_pos failed]
    refine (if_pos failed).trans ?_
    congr 1
    funext _
    split
    next found => rw [found]
    next found => rw [found]
  · rw [if_neg failed]
    exact if_neg failed

theorem Frame.goOn_of_passed (passed : left.triggered = false) :
    Frame.goOn run note runs frame (result, left) = (do
      note (.replayFinished (runs + 1) left.count result)
      return some ⟨result, runs + 1, left.count⟩) := by
  rw [Frame.goOn, if_neg (by simp [passed])]

theorem Frame.goOn_of_failed (failed : left.triggered = true)
    (advance : (frame.afterRun left).advance? = some next) :
    Frame.goOn run note runs frame (result, left) = (do
      note (.runForced (runs + 1) left.count)
      Frame.replayFrom run note (runs + 1) next) := by
  rw [Frame.goOn, if_pos failed, advance]

theorem Frame.goOn_of_stuck (failed : left.triggered = true)
    (stuck : (frame.afterRun left).advance? = none) :
    Frame.goOn run note runs frame (result, left) = (do
      note (.runForced (runs + 1) left.count)
      return none) := by
  rw [Frame.goOn, if_pos failed, stuck]

end Rounds

section Loop

variable {w w' : World κ η σ} {run : Frame → Run κ η σ (Bool × Frame)} {runs : Nat}
  {frame left next : Frame} {result : Bool} {halt : Halt}

/-- A run without a failing checkpoint ends the loop. -/
theorem Frame.replayFrom_of_passed (h : run frame.reset w = .ok (result, left) w')
    (passed : left.triggered = false) :
    Frame.replayFrom run Run.log runs frame w =
      .ok (some ⟨result, runs + 1, left.count⟩) { w' with
        journal := w'.journal.push (.record (.replayFinished (runs + 1) left.count result)) } := by
  rw [Frame.replayFrom_eq, Run.bind_of_ok h, Frame.goOn_of_passed run Run.log runs result passed]
  rfl

theorem Frame.replayFrom_of_failed (h : run frame.reset w = .ok (result, left) w')
    (failed : left.triggered = true) (advance : (frame.afterRun left).advance? = some next) :
    Frame.replayFrom run Run.log runs frame w =
      Frame.replayFrom run Run.log (runs + 1) next { w' with
        journal := w'.journal.push (.record (.runForced (runs + 1) left.count)) } := by
  rw [Frame.replayFrom_eq, Run.bind_of_ok h,
    Frame.goOn_of_failed run Run.log runs result failed advance]
  exact Run.bind_of_ok rfl

theorem Frame.replayFrom_of_stuck (h : run frame.reset w = .ok (result, left) w')
    (failed : left.triggered = true) (stuck : (frame.afterRun left).advance? = none) :
    Frame.replayFrom run Run.log runs frame w =
      .ok none { w' with
        journal := w'.journal.push (.record (.runForced (runs + 1) left.count)) } := by
  rw [Frame.replayFrom_eq, Run.bind_of_ok h,
    Frame.goOn_of_stuck run Run.log runs result failed stuck]
  rfl

theorem Frame.replayFrom_of_error (h : run frame.reset w = .error halt w') :
    Frame.replayFrom run Run.log runs frame w = .error halt w' := by
  rw [Frame.replayFrom_eq, Run.bind_of_error h]

theorem Run.underFrame_of_returned {body : Run κ η σ Bool}
    (h : body { w with frame := some frame } = .ok result w') :
    Run.underFrame body frame w = .ok (result, w'.frame.getD frame.reset) w' := by
  rw [underFrame, bind_of_ok (modify_run _ w), bind_of_ok h, bind_of_ok (get_run w')]
  rfl

theorem Run.underFrame_of_ok {body : Run κ η σ Bool}
    (h : body { w with frame := some frame } = .ok result w') (active : w'.frame = some left) :
    Run.underFrame body frame w = .ok (result, left) w' := by
  rw [underFrame_of_returned h, active]
  rfl

theorem Run.underFrame_of_error {body : Run κ η σ Bool}
    (h : body { w with frame := some frame } = .error halt w') :
    Run.underFrame body frame w = .error halt w' := by
  rw [underFrame, bind_of_ok (modify_run _ w), bind_of_error h]

theorem Run.replay_of_ok {body : Run κ η σ Bool} {outcome : Outcome}
    (h : Frame.replay (Run.underFrame body) Run.log w = .ok (some outcome) w') :
    Run.replay body w = .ok outcome { w' with frame := w.frame } := by
  rw [replay, bind_of_ok (get_run w)]
  exact ensuring_of_ok (bind_of_ok h)

theorem Run.replay_of_error {body : Run κ η σ Bool}
    (h : Frame.replay (Run.underFrame body) Run.log w = .error halt w') :
    Run.replay body w = .error halt { w' with frame := w.frame } := by
  rw [replay, bind_of_ok (get_run w)]
  exact ensuring_of_error (bind_of_error h)

end Loop

end MemoryTrial
