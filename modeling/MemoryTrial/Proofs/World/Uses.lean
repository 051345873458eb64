import MemoryTrial.Proofs.Panics
import MemoryTrial.Proofs.World.Escapes

/-! Uses of payloads: how one begins, and what a call finds while others have begun.  An instance that
is not in use answers as if nothing was (`Run.use_marked`, `Run.opening_marked`), and no program changes
which instances are in use (`Client.respects_steadying`). -/

namespace MemoryTrial

variable {κ η σ α β : Type}

/-- A payload of the instance is in use, and this is what the instance has of its allocator. -/
def World.InUse (w : World κ η σ) (h : Handle) (state : Option Allocator) : Prop :=
  ∃ inst, w.instances[h.number]? = some inst ∧ inst.busy = true ∧ inst.state = state

/-- The record of a call that came to an instance with this id after its teardown had begun. -/
def Entry.denial (id : KindId) : Entry := .record (.fatal (.destroyedAllocator id))

/-- The instance is in use from now on, or not any more. -/
def World.mark (w : World κ η σ) (h : Handle) (busy : Bool) : World κ η σ :=
  { w with instances := w.instances.modify h.number fun inst => { inst with busy } }

/-- The state with payloads of exactly these instances in use. -/
def World.marked (w : World κ η σ) (hs : List Handle) : World κ η σ :=
  { w with
    instances := w.instances.mapIdx fun n inst => { inst with busy := decide (⟨n⟩ ∈ hs) } }

section Marks

variable {w w' : World κ η σ} {h h' : Handle} {hs hs' : List Handle} {state : Option Allocator}

theorem World.inUse_congr (same : w'.instances = w.instances) :
    w'.InUse h state ↔ w.InUse h state := by
  rw [InUse, InUse, same]

theorem World.inUse_modify_of_ne (f : Instance κ → Instance κ) (apart : h' ≠ h) :
    { w with instances := w.instances.modify h.number f }.InUse h' state ↔ w.InUse h' state := by
  have other : h.number ≠ h'.number := fun number => apart (congrArg Handle.mk number.symm)
  simp [InUse, Array.getElem?_modify, other]

theorem World.inUse_modify (f : Instance κ → Instance κ) :
    { w with instances := w.instances.modify h.number f }.InUse h state ↔
      ∃ inst, w.instances[h.number]? = some inst ∧ (f inst).busy = true ∧
        (f inst).state = state := by
  simp [InUse, Array.getElem?_modify, Option.map_eq_some_iff]

theorem World.not_inUse {inst : Instance κ} (here : w.instances[h.number]? = some inst)
    (idle : inst.busy = false) : ¬w.InUse h state := by
  rintro ⟨inst', here', busy, -⟩
  rw [here] at here'
  cases here'
  rw [idle] at busy
  cases busy

theorem World.InUse.eq {state' : Option Allocator} (inUse : w.InUse h state)
    (inUse' : w.InUse h state') : state = state' := by
  obtain ⟨inst, here, -, rfl⟩ := inUse
  obtain ⟨inst', here', -, rfl⟩ := inUse'
  rw [here] at here'
  cases here'
  rfl

theorem World.ext_instances (w : World κ η σ) {xs ys : Array (Instance κ)}
    (same : ∀ n : Nat, xs[n]? = ys[n]?) :
    { w with instances := xs } = { w with instances := ys } := by
  rw [Array.ext_getElem? same]

theorem World.getElem?_marked (w : World κ η σ) (hs : List Handle) (n : Nat) :
    (w.marked hs).instances[n]? =
      w.instances[n]?.map fun inst => { inst with busy := decide (⟨n⟩ ∈ hs) } := by
  simp [marked]

theorem World.getElem?_mark (w : World κ η σ) (h : Handle) (busy : Bool) (n : Nat) :
    (w.mark h busy).instances[n]? =
      if h.number = n then w.instances[n]?.map fun inst => { inst with busy }
      else w.instances[n]? := by
  simp [mark, Array.getElem?_modify]

theorem World.marked_marked (w : World κ η σ) (hs hs' : List Handle) :
    (w.marked hs).marked hs' = w.marked hs' := by
  refine w.ext_instances fun n => ?_
  simp only [getElem?_marked, Array.getElem?_mapIdx, Option.map_map]
  rfl

theorem World.marked_of_exact
    (exact : ∀ n inst, w.instances[n]? = some inst → inst.busy = decide (⟨n⟩ ∈ hs)) :
    w.marked hs = w := by
  refine w.ext_instances fun n => ?_
  rw [Array.getElem?_mapIdx]
  cases here : w.instances[n]? with
  | none => rfl
  | some inst => rw [Option.map_some, ← exact n inst here]

theorem World.mark_marked (w : World κ η σ) (h : Handle) (hs : List Handle) :
    (w.marked hs).mark h true = w.marked (h :: hs) := by
  refine w.ext_instances fun n => ?_
  rw [Array.getElem?_modify, getElem?_marked, Array.getElem?_mapIdx]
  split
  next same =>
    subst same
    simp [Function.comp_def]
  next apart =>
    have other : (⟨n⟩ : Handle) ≠ h := fun same => apart (congrArg Handle.number same).symm
    simp [other]

theorem World.unmark_marked (w : World κ η σ) (absent : h ∉ hs) :
    (w.marked (h :: hs)).mark h false = w.marked hs := by
  refine w.ext_instances fun n => ?_
  rw [Array.getElem?_modify, getElem?_marked, Array.getElem?_mapIdx]
  split
  next same =>
    subst same
    simp [absent, Function.comp_def]
  next apart =>
    have other : (⟨n⟩ : Handle) ≠ h := fun same => apart (congrArg Handle.number same).symm
    simp [other]

end Marks

namespace Run

/-- How a computation ends, with a change to the state that it leaves. -/
def ended (change : World κ η σ → World κ η σ) :
    EStateM.Result Halt (World κ η σ) α → EStateM.Result Halt (World κ η σ) α
  | .ok a w => .ok a (change w)
  | .error halt w => .error halt (change w)

theorem ensuring_eq (x : Run κ η σ α) (cleanUp : World κ η σ → World κ η σ) (w : World κ η σ) :
    ensuring x cleanUp w = ended cleanUp (x w) := by
  unfold ensuring ended
  cases x w <;> rfl

/-- The beginning of a use of a payload: it ends in the state in which the program inside begins, or
as the whole use if that is not reached. -/
def opening (h : Handle) (p : Ptr) (edit : ByteArray → ByteArray) : Run κ η σ ByteArray := fun w =>
  match within h p edit (fun bytes => return (bytes, ← get)) w with
  | .ok (bytes, inside) _ => .ok bytes inside
  | .error halt w' => .error halt w'

end Run

/-- Reads the bytes of a block, and changes them. -/
def Allocator.access (p : Ptr) (edit : ByteArray → ByteArray) :
    Op (Allocator × Option Frame) ByteArray := do
  let bytes ← Allocator.perform (.payload p)
  Allocator.perform (.edit p edit)
  return bytes

theorem Allocator.unaware_access (p : Ptr) (edit : ByteArray → ByteArray) :
    (Allocator.access p edit).Unaware :=
  Op.unaware_bind (unaware_perform _) fun _ =>
    Op.unaware_bind (unaware_perform _) fun _ => Op.unaware_pure _

namespace Run

section Calls

variable {w v : World κ η σ} {h : Handle} {inst : Instance κ} {a : Allocator} {p : Ptr}
  {edit : ByteArray → ByteArray}

theorem liveInstance_of_missing (missing : w.instances[h.number]? = none) :
    liveInstance h w = .error (.unwound (.outOfRange w.instances.size h.number)) w := by
  rw [liveInstance, instanceOf, bind_assoc, bind_of_ok (get_run w), missing]
  rfl

theorem liveInstance_of_busy (here : w.instances[h.number]? = some inst)
    (busy : inst.busy = true) :
    liveInstance h w = .error (.unwound (.violation (.reentrantUse inst.id)))
      { w with journal := w.journal.push (.reentry inst.id) } := by
  rw [liveInstance, bind_of_ok (instanceOf_of_some here), if_pos busy]
  rfl

theorem liveInstance_of_destroyed (here : w.instances[h.number]? = some inst)
    (idle : inst.busy = false) (state : inst.state = none) :
    liveInstance h w = .error (.unwound (.violation (.destroyedAllocator inst.id)))
      { w with journal := (w.journal.push (.denied h)).push (.denial inst.id) } := by
  rw [liveInstance, bind_of_ok (instanceOf_of_some here), idle, state]
  rfl

theorem liveInstance_cases (w : World κ η σ) (h : Handle) :
    (∃ halt v, liveInstance h w = .error halt v) ∨
      ∃ inst a, w.instances[h.number]? = some inst ∧ inst.state = some a ∧ inst.busy = false := by
  cases here : w.instances[h.number]? with
  | none => exact .inl ⟨_, _, liveInstance_of_missing here⟩
  | some inst =>
    cases busy : inst.busy with
    | true => exact .inl ⟨_, _, liveInstance_of_busy here busy⟩
    | false =>
      cases state : inst.state with
      | none => exact .inl ⟨_, _, liveInstance_of_destroyed here busy state⟩
      | some a => exact .inr ⟨inst, a, rfl, state, busy⟩

theorem use_of_live (here : w.instances[h.number]? = some inst) (state : inst.state = some a)
    (idle : inst.busy = false) (r : Request α) :
    use h r w = onAllocator h a (Allocator.perform r) w := by
  rw [use, bind_of_ok (liveInstance_of_some here state idle)]

theorem within_of_live (here : w.instances[h.number]? = some inst) (state : inst.state = some a)
    (idle : inst.busy = false) (body : ByteArray → Run κ η σ α) :
    within h p edit body w =
      ended (·.mark h false) ((onAllocator h a (Allocator.access p edit) >>= body) (w.mark h true)) := by
  rw [within, bind_of_ok (liveInstance_of_some here state idle)]
  dsimp only
  rw [bind_of_ok (modifyInstance_run h _ w), ensuring_eq]
  rfl

theorem opening_of_refused {halt : Halt} (refused : liveInstance h w = .error halt v) :
    opening h p edit w = .error halt v := by
  rw [opening, within, bind_of_error refused]

theorem opening_of_live (here : w.instances[h.number]? = some inst) (state : inst.state = some a)
    (idle : inst.busy = false) :
    opening h p edit w =
      match onAllocator h a (Allocator.access p edit) (w.mark h true) with
      | .ok bytes v => .ok bytes v
      | .error halt v => .error halt (v.mark h false) := by
  rw [opening, within_of_live here state idle]
  cases accessed : onAllocator h a (Allocator.access p edit) (w.mark h true) with
  | ok bytes v =>
    rw [bind_of_ok accessed]
    rfl
  | error halt v =>
    rw [bind_of_error accessed]
    rfl

end Calls

theorem onAllocator_eq (h : Handle) (a : Allocator) (x : Op (Allocator × Option Frame) α)
    (w : World κ η σ) :
    onAllocator h a x w =
      match (x (a, w.frame)).value with
      | .ok b => .ok b ((onAllocator h a x).leaves w)
      | .error p => .error (.unwound p) ((onAllocator h a x).leaves w) := by
  rw [leaves, onAllocator, bind_of_ok (modifyInstance_run h _ w), onPart]
  dsimp only
  obtain ⟨value, t, records⟩ := x (a, w.frame)
  cases value <;> rfl

/-- An operation on an allocator is the same whichever instances are in use. -/
theorem onAllocator_marked (h : Handle) (a : Allocator) (x : Op (Allocator × Option Frame) α)
    (w : World κ η σ) (hs : List Handle) :
    onAllocator h a x (w.marked hs) = ended (·.marked hs) (onAllocator h a x w) := by
  have frame : (w.marked hs).frame = w.frame := rfl
  have left : (onAllocator h a x).leaves (w.marked hs) =
      ((onAllocator h a x).leaves w).marked hs := by
    rw [leaves_onAllocator, leaves_onAllocator, frame]
    refine World.ext_instances { w with frame := _, journal := _ } fun n => ?_
    rw [Array.getElem?_modify, World.getElem?_marked, Array.getElem?_mapIdx, Array.getElem?_modify]
    split <;> simp [Function.comp_def]
  rw [onAllocator_eq, onAllocator_eq, frame, left]
  cases (x (a, w.frame)).value <;> rfl

theorem onAllocator_unaware (h : Handle) (a : Allocator) {x : Op (Allocator × Option Frame) α}
    (unaware : x.Unaware) {w v : World κ η σ} {p : Panic}
    (raised : onAllocator h a x w = .error (.unwound p) v) : p.isReentry = false := by
  have known := unaware (a, w.frame)
  rw [onAllocator_eq] at raised
  cases value : (x (a, w.frame)).value with
  | ok b =>
    rw [value] at raised
    cases raised
  | error p' =>
    rw [value] at raised
    cases raised
    exact known p value

section Marked

variable {w v : World κ η σ} {h : Handle} {hs : List Handle} {p : Ptr}
  {edit : ByteArray → ByteArray} {bytes : ByteArray}

theorem ended_marked (hs hs' : List Handle) (result : EStateM.Result Halt (World κ η σ) α) :
    ended (·.marked hs') (ended (·.marked hs) result) = ended (·.marked hs') result := by
  cases result with
  | ok a w => exact congrArg (EStateM.Result.ok a) (w.marked_marked hs hs')
  | error halt w => exact congrArg (EStateM.Result.error halt) (w.marked_marked hs hs')

/-- An instance that is not in use refuses calls, or can be called, whichever others are in use. -/
theorem liveInstance_marked (w : World κ η σ) (h : Handle) :
    (∃ (panic : Panic) (v : World κ η σ), panic.isReentry = false ∧ ∀ hs, h ∉ hs →
      liveInstance h (w.marked hs) = .error (.unwound panic) (v.marked hs)) ∨
    ∃ inst a, inst.state = some a ∧ inst.busy = false ∧
      ∀ hs, h ∉ hs → (w.marked hs).instances[h.number]? = some inst := by
  cases here : w.instances[h.number]? with
  | none =>
    have missing (hs : List Handle) : (w.marked hs).instances[h.number]? = none := by
      rw [World.getElem?_marked, here, Option.map_none]
    have size (hs : List Handle) : (w.marked hs).instances.size = w.instances.size := by
      simp [World.marked]
    refine .inl ⟨.outOfRange w.instances.size h.number, w, rfl, fun hs absent => ?_⟩
    rw [liveInstance_of_missing (missing hs), size]
  | some inst =>
    have here' (hs : List Handle) (absent : h ∉ hs) :
        (w.marked hs).instances[h.number]? = some { inst with busy := false } := by
      rw [World.getElem?_marked, here, Option.map_some, decide_eq_false absent]
    cases state : inst.state with
    | none =>
      refine .inl ⟨.violation (.destroyedAllocator inst.id),
        { w with journal := (w.journal.push (.denied h)).push (.denial inst.id) }, rfl, ?_⟩
      intro hs absent
      have refused := liveInstance_of_destroyed (here' hs absent) rfl state
      exact refused
    | some a => exact .inr ⟨{ inst with busy := false }, a, state, rfl, here'⟩

/-- A request is served as if nothing was in use, when the instance is not. -/
theorem use_marked (r : Request α) (absent : h ∉ hs) :
    use h r (w.marked hs) = ended (·.marked hs) (use h r (w.marked [])) ∧
      ∀ panic v, use h r (w.marked hs) = .error (.unwound panic) v → panic.isReentry = false := by
  have alone : h ∉ [] := List.not_mem_nil
  rcases liveInstance_marked w h with ⟨panic, v, known, refused⟩ | ⟨inst, a, state, idle, here⟩
  · have run : use h r (w.marked hs) = .error (.unwound panic) (v.marked hs) :=
      bind_of_error (refused hs absent)
    have run_alone : use h r (w.marked []) = .error (.unwound panic) (v.marked []) :=
      bind_of_error (refused [] alone)
    refine ⟨?_, fun panic' v' raised => ?_⟩
    · rw [run, run_alone]
      exact congrArg (EStateM.Result.error _) (v.marked_marked [] hs).symm
    · rw [run] at raised
      cases raised
      exact known
  · rw [use_of_live (here hs absent) state idle, use_of_live (here [] alone) state idle]
    refine ⟨?_, fun _ _ => onAllocator_unaware h a (Allocator.unaware_perform r)⟩
    rw [onAllocator_marked, onAllocator_marked, ended_marked]

/-- A use of a payload begins as if nothing was in use, when the instance is not. -/
theorem opening_marked (p : Ptr) (edit : ByteArray → ByteArray) (absent : h ∉ hs) :
    (opening h p edit (w.marked hs) =
      match opening h p edit (w.marked []) with
      | .ok bytes v => .ok bytes (v.marked (h :: hs))
      | .error halt v => .error halt (v.marked hs)) ∧
    ∀ panic v, opening h p edit (w.marked hs) = .error (.unwound panic) v →
      panic.isReentry = false := by
  have alone : h ∉ [] := List.not_mem_nil
  rcases liveInstance_marked w h with ⟨panic, v, known, refused⟩ | ⟨inst, a, state, idle, here⟩
  · rw [opening_of_refused (refused hs absent), opening_of_refused (refused [] alone)]
    refine ⟨congrArg (EStateM.Result.error _) (v.marked_marked [] hs).symm, ?_⟩
    intro panic' v' raised
    cases raised
    exact known
  · rw [opening_of_live (here hs absent) state idle, opening_of_live (here [] alone) state idle,
      World.mark_marked, World.mark_marked, onAllocator_marked, onAllocator_marked]
    cases accessed : onAllocator h a (Allocator.access p edit) w with
    | ok bytes v =>
      refine ⟨congrArg (EStateM.Result.ok bytes) (v.marked_marked [h] (h :: hs)).symm, ?_⟩
      intro panic v' raised
      cases raised
    | error halt v =>
      dsimp only [ended]
      rw [v.unmark_marked absent, v.unmark_marked alone, v.marked_marked]
      refine ⟨rfl, fun panic v' raised => ?_⟩
      cases raised
      exact onAllocator_unaware h a (Allocator.unaware_access p edit) accessed

/-- A use of a payload that began did so on an instance that nobody used. -/
theorem exists_of_opening (opened : opening h p edit w = .ok bytes v) :
    ∃ inst a, w.instances[h.number]? = some inst ∧ inst.busy = false ∧
      v.instances = w.instances.modify h.number fun inst =>
        { inst with busy := true, state := some a } := by
  rcases liveInstance_cases w h with ⟨halt, v', refused⟩ | ⟨inst, a, here, state, idle⟩
  · rw [opening_of_refused refused] at opened
    cases opened
  · rw [opening_of_live here state idle] at opened
    cases accessed : onAllocator h a (Allocator.access p edit) (w.mark h true) with
    | ok bytes' v' =>
      rw [accessed] at opened
      cases opened
      have left := leaves_of_ok accessed
      rw [leaves_onAllocator] at left
      refine ⟨inst, (Allocator.access p edit (a, w.frame)).state.1, here, idle, ?_⟩
      rw [← left]
      simp only [World.mark, modify_modify]
      rfl
    | error halt v' =>
      rw [accessed] at opened
      cases opened

/-- How a use of a payload goes on after its beginning. -/
theorem within_eq (h : Handle) (p : Ptr) (edit : ByteArray → ByteArray)
    (body : ByteArray → Run κ η σ α) (w : World κ η σ) :
    within h p edit body w =
      match opening h p edit w with
      | .ok bytes v => ended (·.mark h false) (body bytes v)
      | .error halt v => .error halt v := by
  rcases liveInstance_cases w h with ⟨halt, v, refused⟩ | ⟨inst, a, here, state, idle⟩
  · rw [opening_of_refused refused]
    exact bind_of_error refused
  · rw [within_of_live here state idle, opening_of_live here state idle]
    cases accessed : onAllocator h a (Allocator.access p edit) (w.mark h true) with
    | ok bytes v => rw [bind_of_ok accessed]
    | error halt v =>
      rw [bind_of_error accessed]
      rfl

end Marked

end Run

/-- The effect of what leaves alone which payloads are in use, and the allocators of those instances. -/
def steadying : Effect κ η σ where
  Allows w w' := ∀ h state, w'.InUse h state ↔ w.InUse h state
  refl _ _ _ := .rfl
  trans first second h state := (second h state).trans (first h state)

theorem steadying_lenient : (steadying : Effect κ η σ).Lenient :=
  fun _ _ tidy _ _ => World.inUse_congr tidy.instances

theorem steadying_setState {w w' : World κ η σ} {h : Handle} {inst : Instance κ}
    (state : Option Allocator) (here : w.instances[h.number]? = some inst)
    (idle : inst.busy = false)
    (changed : w'.instances = w.instances.modify h.number fun inst => { inst with state }) :
    steadying.Allows w w' := by
  intro h' s
  have here' : w'.instances[h.number]? = some { inst with state } := by
    rw [changed, Array.getElem?_modify, if_pos rfl, here]
    rfl
  by_cases eq : h' = h
  · subst eq
    exact iff_of_false (World.not_inUse here' idle) (World.not_inUse here idle)
  · refine Iff.trans ?_ (World.inUse_modify_of_ne (fun inst => { inst with state }) eq)
    rw [World.InUse, World.InUse, changed]

theorem steadying_enroll (w : World κ η σ) {inst : Instance κ} (idle : inst.busy = false) :
    steadying.Allows w (w.enroll inst) := by
  intro h state
  constructor
  · rintro ⟨inst', here, busy, rfl⟩
    rw [World.enroll, Array.getElem?_push] at here
    split at here
    · cases here
      rw [idle] at busy
      cases busy
    · exact ⟨inst', here, busy, rfl⟩
  · rintro ⟨inst', here, busy, rfl⟩
    refine ⟨inst', ?_, busy, rfl⟩
    have inside := (Array.getElem?_eq_some_iff.mp here).1
    rw [World.enroll, Array.getElem?_push, if_neg (Nat.ne_of_lt inside)]
    exact here

theorem steadying_outer : (steadying : Effect κ η σ).Outer where
  plain := steadying_lenient.plain
  frame _ _ _ _ := World.inUse_congr rfl
  state _ _ _ _ a' here _ idle := steadying_setState (some a') here idle rfl
  denied _ _ _ _ _ _ _ := World.inUse_congr rfl

namespace Run

variable {env : Environment κ η σ} {nested : Nested κ η σ}

/-- The instance is in use inside, and not any more at the end. -/
theorem steadying_within (h : Handle) (p : Ptr) (edit : ByteArray → ByteArray)
    {body : ByteArray → Run κ η σ α} (hbody : ∀ bytes, (body bytes).Respects steadying) :
    (within h p edit body).Respects steadying := by
  refine steadying_outer.live fun w inst a here state idle h' s => ?_
  dsimp only
  rw [leaves_bind_of_ok (modifyInstance_run h _ w), leaves_ensuring]
  by_cases eq : h' = h
  · subst eq
    rw [World.inUse_modify]
    refine iff_of_false ?_ (World.not_inUse here idle)
    rintro ⟨_, _, busy, -⟩
    cases busy
  · rw [World.inUse_modify_of_ne _ eq]
    have inside := allows_bind (steadying.refl ((onAllocator h a (Allocator.access p edit)).leaves
      (w.mark h true))) hbody h' s
    refine inside.trans ?_
    rw [leaves_onAllocator]
    exact (World.inUse_modify_of_ne _ eq).trans (World.inUse_modify_of_ne _ eq)

variable
  (creates : ∀ k, (nested (env.kind k).create).Respects steadying)
  (closes : ∀ k holdings, (nested ((env.kind k).close holdings)).Respects steadying)
  (hooks : ∀ hook, (nested (env.hook hook)).Respects steadying)

include closes in
theorem steadying_destroy (h : Handle) : (destroy env nested h).Respects steadying :=
  steadying_lenient.destroy (fun _ _ _ _ here _ idle => steadying_setState none here idle rfl) closes h

include closes in
theorem steadying_drainCache (rounds : Nat) : (drainCache env nested rounds).Respects steadying :=
  Effect.drainCache (fun w _ newest _ => steadying_destroy closes newest
    { w with cache := w.cache.dropLast }) rounds

include creates closes hooks in
theorem steadying_call [DecidableEq η] (bound : Nat) (c : Call κ η σ β) :
    (c.run env nested bound).Respects steadying := by
  have lenient := steadying_lenient (κ := κ) (η := η) (σ := σ)
  have created (v : World κ η σ) (k : κ) (built : Built) (sources : List Handle) (shared : Bool) :
      steadying.Allows v (v.enroll (env.newInstance k built sources shared)) :=
    steadying_enroll v rfl
  cases c with
  | lookUp k =>
    refine lenient.during _ (lenient.lookUp k (creates k) (fun v built sources => ?_)
      fun v built sources _ => ?_)
    · exact steadying.trans (created v k built sources true) (steadying_destroy closes _ _)
    · exact created v k built sources true
  | build k =>
    refine lenient.during _ (lenient.build k (creates k) fun v built sources => ?_)
    exact created v k built sources false
  | delete h =>
    refine lenient.delete h fun w h inst _ => ?_
    refine steadying.trans (fun h state => World.inUse_congr ?_) (steadying_destroy closes h _)
    split <;> rfl
  | teardown =>
    exact respects_bind (lenient.of_still still_reachRegistry) fun _ =>
      steadying_drainCache closes bound
  | runHooks =>
    exact lenient.plain.drainHooks (fun _ _ _ _ => World.inUse_congr rfl)
      (steadying_drainCache closes bound) hooks bound
  | _ => exact steadying_outer.call trivial

end Run

/-- No program changes which payloads are in use, and the allocators of those instances, whatever it
calls and however it ends. -/
theorem Client.respects_steadying [DecidableEq η] (env : Environment κ η σ) (bound depth : Nat)
    (c : Client κ η σ α) : (c.runTo env bound depth).Respects steadying := by
  refine Covers.respects_runTo (fun respected => ?_) depth c.only_all
  exact ⟨fun c _ => Run.steadying_call (fun _ => respected (only_all _))
      (fun _ _ => respected (only_all _)) (fun _ => respected (only_all _)) _ c,
    fun _ => steadying_outer.replay, fun f _ => steadying_outer.plain.scope f,
    fun h p edit _ => Run.steadying_within h p edit, fun fixture _ => steadying_outer.thread fixture⟩

end MemoryTrial
