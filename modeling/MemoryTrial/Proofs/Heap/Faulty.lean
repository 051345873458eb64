import MemoryTrial.Proofs.Heap.Blocks
import MemoryTrial.Proofs.Replay.Enumeration

/-! A faulty heap and the heap behind it.  A request passes a checkpoint first if it asks for memory.
Where the checkpoint fails nothing comes to the heap; where it does not, the heap does what it does
alone (`Shadows`).  So the heap behind is at any time the one that the admitted requests alone lead
to, whatever replays went on in between (`Story.simulates`). -/

namespace MemoryTrial

variable {α : Type} {frame' : Option Frame}

/-- What a request asks of the system, if it asks for memory. -/
def Request.demand {α : Type} : Request α → Option (RequestName × Nat)
  | .grab n => some (.grab, n)
  | .resize _ n => some (.resize, n)
  | .release _ | .payload _ | .edit _ _ => none

theorem Request.cases_of_demand {r : Request (Option Ptr)} {name : RequestName} {n : Nat}
    (asks : r.demand = some (name, n)) :
    r = .grab n ∧ name = .grab ∨ ∃ p, r = .resize p n ∧ name = .resize := by
  -- the type of the answer is left open until the request is known
  have general {α : Type} (r : Request α) (same : α = Option Ptr)
      (asks : r.demand = some (name, n)) : cast (congrArg Request same) r = .grab n ∧ name = .grab ∨
        ∃ p, cast (congrArg Request same) r = .resize p n ∧ name = .resize := by
    cases r with
    | grab =>
      cases asks
      exact .inl ⟨rfl, rfl⟩
    | resize p =>
      cases asks
      exact .inr ⟨p, rfl, rfl⟩
    | release | payload | edit => cases asks
  exact general r rfl asks

/-- Every slot of the heap in an allocator has a number. -/
def Allocator.Indexed : Allocator → Prop
  | .heap h => h.Indexed
  | .faulty f => f.heap.Indexed
  | .arena _ | .flaky _ => True

instance : (a : Allocator) → Decidable a.Indexed
  | .heap h => inferInstanceAs (Decidable h.Indexed)
  | .faulty f => inferInstanceAs (Decidable f.heap.Indexed)
  | .arena _ | .flaky _ => .isTrue trivial

namespace FaultyHeap

/-- What a request to the heap behind `f` leaves, with the replay at `active`. -/
def through {α : Type} (f : FaultyHeap) (active : Option Frame) (r : Result Heap α) :
    Result (FaultyHeap × Option Frame) α :=
  ⟨r.value, ({ f with heap := r.state }, active), r.records⟩

variable {f : FaultyHeap} {active : Option Frame} {frame : Frame} {records : List Record}

section Guard

variable {name : RequestName} {n : Nat} {request : Op Heap (Option Ptr)}

theorem focus_checkpoint {value : Except Panic Bool}
    (step : checkpoint active = ⟨value, frame', records⟩) :
    Op.focus Prod.snd (fun frame (s : FaultyHeap × Option Frame) => (s.1, frame)) checkpoint
      (f, active) = ⟨value, (f, frame'), records⟩ := by
  simp only [Op.focus, step]

theorem guard_of_fails (fails : checkpoint active = ⟨.ok true, frame', []⟩) :
    guard name n request (f, active) =
      ⟨.ok none, ({ f with forced := f.forced + 1 }, frame'), [.forcedFailure name n]⟩ := by
  rw [guard, Op.bind_of_ok (focus_checkpoint fails)]
  rfl

theorem guard_of_admitted (passes : checkpoint active = ⟨.ok false, frame', []⟩) :
    guard name n request (f, active) = f.through frame' (request f.heap) := by
  rw [guard, Op.bind_of_ok (focus_checkpoint passes)]
  rfl

theorem guard_of_overflow {p : Panic} (halts : checkpoint active = ⟨.error p, frame', records⟩) :
    guard name n request (f, active) = ⟨.error p, (f, frame'), records⟩ := by
  rw [guard, Op.bind_of_error (focus_checkpoint halts)]

theorem guard_of_passes {heap : Heap} {a : Option Ptr}
    (passes : checkpoint active = ⟨.ok false, frame', []⟩)
    (served : request f.heap = ⟨.ok a, heap, records⟩) :
    guard name n request (f, active) = ⟨.ok a, ({ f with heap }, frame'), records⟩ := by
  rw [guard_of_admitted passes, served]
  rfl

theorem onHeap_of_ok {x : Op Heap α} {heap : Heap} {a : α}
    (served : x f.heap = ⟨.ok a, heap, records⟩) :
    onHeap x (f, active) = ⟨.ok a, ({ f with heap }, active), records⟩ := by
  simp only [onHeap, served]

end Guard

/-- A request to a faulty heap, on a system that grants growth as `granted` says. -/
def performIf {α : Type} (granted : Nat → Bool) : Request α → Op (FaultyHeap × Option Frame) α
  | .grab n => guard .grab n (Heap.performIf granted (.grab n))
  | .resize p n => guard .resize n (Heap.performIf granted (.resize p n))
  | .release p => onHeap (Heap.performIf granted (.release p))
  | .payload p => onHeap (Heap.performIf granted (.payload p))
  | .edit p f => onHeap (Heap.performIf granted (.edit p f))

theorem perform_eq_performIf (r : Request α) : perform r = performIf Heap.grants r := by
  cases r <;> rfl

/-- Each request, by the heap behind `f` alone and the frame of the active replay. -/
structure Shadows (f : FaultyHeap) : Prop where
  /-- Outside replays nothing tells `f` from the heap behind it. -/
  outside : ∀ {α : Type} (granted : Nat → Bool) (r : Request α),
    performIf granted r (f, none) = f.through none (Heap.performIf granted r f.heap)
  /-- A request that asks for no memory passes no checkpoint. -/
  uncounted : ∀ {α : Type} (granted : Nat → Bool) (r : Request α) (active : Option Frame),
    r.demand = none → performIf granted r (f, active) =
      f.through active (Heap.performIf granted r f.heap)
  refused : ∀ (granted : Nat → Bool) (r : Request (Option Ptr)) (name : RequestName) (n : Nat)
    (frame : Frame), r.demand = some (name, n) → frame.count < maxCheckpoints →
    frame.willFail frame.count = true → performIf granted r (f, some frame) =
      ⟨.ok none, ({ f with forced := f.forced + 1 },
        some { frame with triggered := true, count := frame.count + 1 }), [.forcedFailure name n]⟩
  admitted : ∀ (granted : Nat → Bool) (r : Request (Option Ptr)) (frame : Frame),
    r.demand.isSome = true → frame.count < maxCheckpoints →
    frame.willFail frame.count = false → performIf granted r (f, some frame) =
      f.through (some { frame with count := frame.count + 1 }) (Heap.performIf granted r f.heap)
  /-- A checkpoint that no frame has is a violation before anything else is done. -/
  overflow : ∀ (granted : Nat → Bool) (r : Request (Option Ptr)) (frame : Frame),
    r.demand.isSome = true → maxCheckpoints ≤ frame.count → performIf granted r (f, some frame) =
      ⟨.error (.violation (.checkpointOverflow maxCheckpoints)), (f, some frame),
        [.fatal (.checkpointOverflow maxCheckpoints)]⟩

theorem performIf_of_no_demand (granted : Nat → Bool) {r : Request α} (plain : r.demand = none) :
    performIf granted r (f, active) = f.through active (Heap.performIf granted r f.heap) := by
  cases r with
  | grab | resize => cases plain
  | release | payload | edit => rfl

theorem performIf_of_demand (granted : Nat → Bool) {r : Request (Option Ptr)} {name : RequestName}
    {n : Nat} (asks : r.demand = some (name, n)) :
    performIf granted r = guard name n (Heap.performIf granted r) := by
  rcases Request.cases_of_demand asks with ⟨rfl, rfl⟩ | ⟨p, rfl, rfl⟩
  · rfl
  · rfl

theorem shadows (f : FaultyHeap) : f.Shadows where
  outside granted r := by
    cases r with
    | grab | resize => exact guard_of_admitted rfl
    | release | payload | edit => rfl
  uncounted granted r active := performIf_of_no_demand granted
  refused granted r name n frame asks inside fails := by
    rw [performIf_of_demand granted asks, guard_of_fails (checkpoint_of_willFail inside fails)]
    simp [Frame.pass]
  admitted granted r frame asks inside passes := by
    obtain ⟨⟨name, n⟩, asks⟩ := Option.isSome_iff_exists.mp asks
    rw [performIf_of_demand granted asks, guard_of_admitted (checkpoint_of_willFail inside passes)]
    simp [Frame.pass]
  overflow granted r frame asks full := by
    obtain ⟨⟨name, n⟩, asks⟩ := Option.isSome_iff_exists.mp asks
    rw [performIf_of_demand granted asks]
    exact guard_of_overflow (checkpoint_of_full full)

/-- What becomes of a request. -/
inductive Fate
  | refused
  /-- It comes to the heap behind, whatever that makes of it. -/
  | admitted
  /-- There is no checkpoint left for it. -/
  | halted
  deriving DecidableEq

def fate {α : Type} (active : Option Frame) (r : Request α) : Fate :=
  match r.demand, active with
  | some _, some frame =>
    if frame.count < maxCheckpoints then
      if frame.willFail frame.count then .refused else .admitted
    else .halted
  | _, _ => .admitted

/-- A request to a heap, and what the system would grant then. -/
structure Attempt where
  {α : Type}
  request : Request α
  granted : Nat → Bool

/-- The requests that led from a new faulty heap to `f`, the last one first, with their fates. -/
inductive Story : List (Attempt × Fate) → FaultyHeap → Option Frame → Prop
  | start (active : Option Frame) : Story [] empty active
  /-- The thread starts, resets, advances or ends replays. -/
  | replays {past : List (Attempt × Fate)} {f : FaultyHeap} {active : Option Frame}
    (other : Option Frame) : Story past f active → Story past f other
  | request {past : List (Attempt × Fate)} {f : FaultyHeap} {active : Option Frame} (a : Attempt) :
    Story past f active → Story ((a, fate active a.request) :: past)
      (performIf a.granted a.request (f, active)).state.1
      (performIf a.granted a.request (f, active)).state.2

/-- The heap that requests lead to, the last one first. -/
def heapAfter : List Attempt → Heap
  | [] => Heap.empty
  | a :: past => (Heap.performIf a.granted a.request (heapAfter past)).state

def admittedOf (past : List (Attempt × Fate)) : List Attempt :=
  (past.filter fun call => call.2 = .admitted).map Prod.fst

/-- A faulty heap with a history, next to the heap behind it. -/
structure Simulates (past : List (Attempt × Fate)) (f : FaultyHeap) : Prop extends Shadows f where
  heap : f.heap = heapAfter (admittedOf past)
  forced : f.forced = past.countP fun call => call.2 = .refused

variable {past : List (Attempt × Fate)}

def leftBy {α : Type} (f : FaultyHeap) (granted : Nat → Bool) (r : Request α) : Fate → FaultyHeap
  | .refused => { f with forced := f.forced + 1 }
  | .admitted => { f with heap := (Heap.performIf granted r f.heap).state }
  | .halted => f

theorem state_of_demand (f : FaultyHeap) (active : Option Frame) (granted : Nat → Bool)
    {r : Request (Option Ptr)} (asks : r.demand.isSome = true) :
    (performIf granted r (f, active)).state.1 = f.leftBy granted r (fate active r) := by
  obtain ⟨⟨name, n⟩, demand⟩ := Option.isSome_iff_exists.mp asks
  cases active with
  | none =>
    rw [f.shadows.outside granted r]
    simp [fate, leftBy, through]
  | some frame =>
    by_cases inside : frame.count < maxCheckpoints
    · cases next : frame.willFail frame.count with
      | true =>
        rw [f.shadows.refused granted r name n frame demand inside next]
        simp [fate, demand, inside, next, leftBy]
      | false =>
        rw [f.shadows.admitted granted r frame asks inside next]
        simp [fate, demand, inside, next, leftBy, through]
    · rw [f.shadows.overflow granted r frame asks (Nat.not_lt.mp inside)]
      simp [fate, demand, inside, leftBy]

theorem state_eq_leftBy (f : FaultyHeap) (active : Option Frame) (granted : Nat → Bool)
    (r : Request α) :
    (performIf granted r (f, active)).state.1 = f.leftBy granted r (fate active r) := by
  cases r with
  | grab | resize => exact state_of_demand f active granted rfl
  | release | payload | edit => rfl

theorem size_le_performIf (f : FaultyHeap) (active : Option Frame) (granted : Nat → Bool)
    (r : Request α) :
    f.heap.slots.size ≤ (performIf granted r (f, active)).state.1.heap.slots.size := by
  rw [state_eq_leftBy]
  cases fate active r with
  | refused | halted => exact Nat.le_refl _
  | admitted => exact Heap.size_le_performIf granted r f.heap

/-- A faulty heap does what the heap behind it does with the requests that are not refused. -/
theorem Story.simulates (story : Story past f active) : Simulates past f := by
  induction story with
  | start => exact ⟨shadows _, rfl, rfl⟩
  | replays other _ ih => exact ih
  | @request past f active a _ ih =>
    refine ⟨shadows _, ?_, ?_⟩
    · rw [state_eq_leftBy]
      cases fated : fate active a.request with
      | refused => simp [leftBy, admittedOf, ih.heap]
      | admitted => simp [leftBy, admittedOf, heapAfter, ih.heap]
      | halted => simp [leftBy, admittedOf, ih.heap]
    · rw [state_eq_leftBy]
      cases fated : fate active a.request with
      | refused => simp [leftBy, ih.forced]
      | admitted => simp [leftBy, ih.forced]
      | halted => simp [leftBy, ih.forced]

/-- A block from outside replays, a request that the first run of a replay refuses although its
pointer is no block, and the same request after the replay. -/
theorem story_simulates :
    let stray : Attempt := ⟨.resize (Heap.handle 7 7) 4, Heap.grants⟩
    let past : List (Attempt × Fate) :=
      [(stray, .admitted), (stray, .refused), (⟨.grab 8, Heap.grants⟩, .admitted)]
    let f : FaultyHeap := ⟨⟨#[⟨0, some (Bytes.replicate 8 0)⟩], [], 1⟩, 1⟩
    Story past f none ∧ Simulates past f := by
  intro stray past f
  have story : Story past f none :=
    (((Story.start none).request ⟨.grab 8, Heap.grants⟩).replays (some Frame.fresh)
      |>.request stray |>.replays none).request stray
  exact ⟨story, Story.simulates story⟩

/-- In its first run a replay refuses as many requests as a frame has checkpoints. -/
theorem story_of_refusals {n : Nat} (room : n ≤ maxCheckpoints) :
    ∃ past, Story past ⟨Heap.empty, n⟩ (some (Frame.fresh.pass (List.replicate n true))) := by
  induction n with
  | zero =>
    rw [List.replicate_zero, Frame.pass_nil]
    exact ⟨[], .start _⟩
  | succ n ih =>
    obtain ⟨past, story⟩ := ih (by omega)
    have count : (Frame.fresh.pass (List.replicate n true)).count = n := by
      simp [Frame.pass, Frame.fresh]
    have fails : (Frame.fresh.pass (List.replicate n true)).willFail n = true :=
      Frame.armedFrom_fresh 0 n (Nat.zero_le n) (by omega)
    have next := story.request ⟨.grab 8, Heap.grants⟩
    rw [show performIf Heap.grants (.grab 8) _ = _ from
      guard_of_fails (checkpoint_of_willFail (by omega) (by rwa [count])), Frame.pass_pass,
      ← List.replicate_succ'] at next
    exact ⟨_, next⟩

/-- After these the next request is neither refused nor admitted. -/
theorem overflow_neither_refuses_nor_admits :
    ∃ past f frame, Story past f (some frame) ∧
      (perform (.grab 8) (f, some frame)).value ≠ .ok none ∧
      (perform (.grab 8) (f, some frame)).value ≠ (Heap.perform (.grab 8) f.heap).value := by
  obtain ⟨past, story⟩ := story_of_refusals (Nat.le_refl maxCheckpoints)
  have full : maxCheckpoints ≤
      (Frame.fresh.pass (List.replicate maxCheckpoints true)).count := by
    simp [Frame.pass]
  refine ⟨past, _, _, story, ?_⟩
  rw [perform_eq_performIf, (shadows _).overflow Heap.grants (.grab 8) _ rfl full]
  constructor
  · intro refused
    cases refused
  · intro admitted
    cases admitted

end FaultyHeap

end MemoryTrial
