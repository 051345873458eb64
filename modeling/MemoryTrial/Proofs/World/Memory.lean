import MemoryTrial.Proofs.Heap.Faulty
import MemoryTrial.Proofs.World.Reach
import MemoryTrial.World.Kinds
import MemoryTrial.World.Memory

/-! Memory calls of a thread whose fixture is a faulty heap.  The calls find the cached instance of
the kind, or create it, and then do what the heap behind it does (`Backed`). -/

namespace MemoryTrial

variable {κ η σ α : Type} {env : Environment κ η σ} {nested : Nested κ η σ} {bound : Nat}
  {w w' : World κ η σ} {h : Handle} {f f' : FaultyHeap} {frame' : Option Frame}
  {records : List Record} {p : Ptr}

/-- The instance of a handle is a faulty heap that can be used. -/
def Serves (w : World κ η σ) (h : Handle) (f : FaultyHeap) : Prop :=
  ∃ inst, w.instances[h.number]? = some inst ∧ inst.state = some (.faulty f) ∧ inst.busy = false

/-- The faulty heap behind the memory calls of the thread: that of the cached instance, or the one
with which the first call will create the instance. -/
inductive Backed (env : Environment κ η σ) (w : World κ η σ) : FaultyHeap → Prop
  | cached {h : Handle} {f : FaultyHeap} :
    w.cache.lookup (env.kind w.fixture.kind).id = some h → Serves w h f → Backed env w f
  | absent : w.cache.lookup (env.kind w.fixture.kind).id = none → Backed env w .empty

theorem Backed.congr (backed : Backed env w f) (cache : w'.cache = w.cache)
    (instances : w'.instances = w.instances) (fixture : w'.fixture = w.fixture) :
    Backed env w' f := by
  cases backed with
  | cached found serves =>
    refine .cached (by rw [cache, fixture]; exact found) ?_
    rw [Serves, instances]
    exact serves
  | absent missing => exact .absent (by rw [cache, fixture]; exact missing)

/-- What memory calls do not change. -/
structure Aside (w w' : World κ η σ) : Prop where
  client : w'.client = w.client
  fixture : w'.fixture = w.fixture

theorem Aside.refl (w : World κ η σ) : Aside w w := ⟨rfl, rfl⟩

theorem Aside.trans {w'' : World κ η σ} (h : Aside w w') (h' : Aside w' w'') : Aside w w'' :=
  ⟨h'.client.trans h.client, h'.fixture.trans h.fixture⟩

/-- A memory call leaves the heap `f` behind the calls of the thread. -/
structure Leaves (env : Environment κ η σ) (w : World κ η σ) (f : FaultyHeap)
    (frame : Option Frame) (w' : World κ η σ) : Prop where
  backed : Backed env w' f
  frame : w'.frame = frame
  aside : Aside w w'

def Creates (nested : Nested κ η σ) : Prop :=
  ∀ w, nested Kind.faulty.create w = .ok (.ok ⟨.faulty .empty, []⟩) w

theorem runWith_create_faulty [DecidableEq η] (w : World κ η σ) :
    (Kind.faulty : Kind κ η σ).create.runWith env nested bound w =
      .ok (.ok ⟨.faulty .empty, []⟩) w := rfl

namespace Run

variable {inst : Instance κ} {a a' : Allocator} {b : α} {x : Op (Allocator × Option Frame) α}

/-- An operation on an allocator puts the allocator that it leaves into the instance. -/
theorem onAllocator_of_ok (step : x (a, w.frame) = ⟨.ok b, (a', frame'), records⟩) :
    ∃ journal, onAllocator h a x w = .ok b { w with
      instances := (w.instances.modify h.number fun inst => { inst with state := none }).modify
        h.number fun inst => { inst with state := some a' }
      frame := frame', journal } := by
  refine ⟨(records.map Entry.record).foldl Array.push w.journal, ?_⟩
  rw [onAllocator, bind_of_ok (modifyInstance_run h _ w), onPart]
  simp only [step]

end Run

/-- The parts of the world on which an operation on one instance works. -/
theorem Serves.use {r : Request α} {b : α} (serves : Serves w h f)
    (step : FaultyHeap.perform r (f, w.frame) = ⟨.ok b, (f', frame'), records⟩) :
    ∃ w', Run.use h r w = .ok b w' ∧ w'.frame = frame' ∧ Aside w w' ∧ w'.cache = w.cache ∧
      Serves w' h f' := by
  obtain ⟨inst, here, state, idle⟩ := serves
  have performed : Allocator.perform r (.faulty f, w.frame) =
      ⟨.ok b, (.faulty f', frame'), records⟩ := by
    rw [Allocator.perform]
    simp only [step]
  obtain ⟨journal, used⟩ := Run.onAllocator_of_ok (h := h) performed
  have live := Run.liveInstance_of_some here state idle
  refine ⟨_, (Run.bind_of_ok live).trans used, rfl, ⟨rfl, rfl⟩, rfl,
    { inst with state := some (.faulty f') }, ?_, rfl, idle⟩
  simp [Array.getElem?_modify, here]

/-- The bytes of a block are read and changed in one use. -/
theorem Serves.within {edit : ByteArray → ByteArray} {bytes : ByteArray} {heap : Heap}
    {b : α} (serves : Serves w h f) (body : ByteArray → Run κ η σ α)
    (read : Heap.payload p f.heap = ⟨.ok bytes, f.heap, []⟩)
    (edited : Heap.editPayload p edit f.heap = ⟨.ok (), heap, []⟩)
    (ends : ∀ w, body bytes w = .ok b w) :
    ∃ w', Run.within h p edit body w = .ok b w' ∧ w'.frame = w.frame ∧ Aside w w' ∧
      w'.cache = w.cache ∧ Serves w' h { f with heap } := by
  obtain ⟨inst, here, state, idle⟩ := serves
  have live := Run.liveInstance_of_some here state idle
  obtain ⟨w₁, hw₁⟩ : ∃ w₁ : World κ η σ, w₁ = { w with
    instances := w.instances.modify h.number fun inst => { inst with busy := true } } := ⟨_, rfl⟩
  have both : (do
      let bytes ← Allocator.perform (.payload p)
      Allocator.perform (.edit p edit)
      return bytes : Op (Allocator × Option Frame) ByteArray) (.faulty f, w₁.frame) =
        ⟨.ok bytes, (.faulty { f with heap }, w₁.frame), []⟩ := by
    have first : Allocator.perform (.payload p) (.faulty f, w₁.frame) =
        ⟨.ok bytes, (.faulty f, w₁.frame), []⟩ := by
      simp only [Allocator.perform, FaultyHeap.perform, FaultyHeap.onHeap, read]
    have second : Allocator.perform (.edit p edit) (.faulty f, w₁.frame) =
        ⟨.ok (), (.faulty { f with heap }, w₁.frame), []⟩ := by
      simp only [Allocator.perform, FaultyHeap.perform, FaultyHeap.onHeap, edited]
    rw [Op.bind_of_ok first, Op.bind_of_ok second]
    rfl
  obtain ⟨journal, used⟩ := Run.onAllocator_of_ok (h := h) both
  subst hw₁
  refine ⟨_, (Run.bind_of_ok live).trans ((Run.bind_of_ok (Run.modify_run _ w)).trans
    (Run.ensuring_of_ok ((Run.bind_of_ok used).trans (ends _)))), rfl, ⟨rfl, rfl⟩, rfl,
    { inst with state := some (.faulty { f with heap }), busy := false }, ?_, rfl, rfl⟩
  simp [Array.getElem?_modify, here]

section Registry

variable [DecidableEq η]

theorem Run.lookUp_of_cached {k : κ} (found : w.cache.lookup (env.kind k).id = some h) :
    ∃ w', Run.lookUp env nested k w = .ok (.ok h) w' ∧ w'.cache = w.cache ∧
      w'.instances = w.instances ∧ w'.frame = w.frame ∧ Aside w w' := by
  obtain ⟨hooks, teardownHooked, reached⟩ := Run.reachRegistry_eq w
  exact ⟨_, Run.lookUp_of_found reached found, rfl, rfl, rfl, rfl, rfl⟩

theorem Run.lookUp_of_absent (creates : Creates nested) {k : κ}
    (faulty : env.kind k = Kind.faulty) (missing : w.cache.lookup (env.kind k).id = none) :
    ∃ h w', Run.lookUp env nested k w = .ok (.ok h) w' ∧
      w'.cache.lookup (env.kind k).id = some h ∧ Serves w' h .empty ∧ w'.frame = w.frame ∧
      Aside w w' := by
  obtain ⟨hooks, teardownHooked, reached⟩ := Run.reachRegistry_eq w
  have built : nested (env.kind k).create { w with hooks, teardownHooked, obtained := [] } = _ :=
    (congrArg (fun kind : Kind κ η σ => nested kind.create _) faulty).trans (creates _)
  have inserted := Run.lookUp_of_inserted reached missing (Run.obtaining_of_ok built) missing
  refine ⟨_, _, inserted, ?_, ⟨_, Array.getElem?_push_size, rfl, rfl⟩, rfl, rfl, rfl⟩
  simp [List.lookup_append, missing]

end Registry

/-- The calls of the thread go to the instance of a handle, which is cached. -/
structure Ready (env : Environment κ η σ) (w : World κ η σ) (h : Handle) (f : FaultyHeap) :
    Prop where
  cached : w.cache.lookup (env.kind w.fixture.kind).id = some h
  serves : Serves w h f

theorem Ready.leaves (ready : Ready env w h f) : Leaves env w f w.frame w :=
  ⟨.cached ready.cached ready.serves, rfl, .refl w⟩

theorem Ready.of_aside (ready : Ready env w h f) (aside : Aside w w') (cache : w'.cache = w.cache)
    (serves : Serves w' h f') (frame : w'.frame = frame') : Leaves env w f' frame' w' := by
  refine ⟨.cached ?_ serves, frame, aside⟩
  rw [cache, aside.fixture]
  exact ready.cached

theorem Leaves.after {w'' : World κ η σ} (leaves : Leaves env w' f frame' w)
    (aside : Aside w'' w') :
    Leaves env w'' f frame' w := ⟨leaves.backed, leaves.frame, aside.trans leaves.aside⟩

/-- Every memory call first looks up the kind that the thread has selected. -/
theorem Memory.runWith_resolve [DecidableEq η] (body : Option Handle → Client κ η σ α)
    (w : World κ η σ) :
    (Memory.resolve >>= body).runWith env nested bound w =
      match (Call.lookUp w.fixture.kind).run env nested bound w with
      | .ok (.ok h) v => (body (some h)).runWith env nested bound v
      | .ok (.error e) v => (body none).runWith env nested bound
          { v with journal := v.journal.push (.record (.noDefaultAllocator e)) }
      | .error halt v => .error halt v := by
  have selected : (Call.fixture : Call κ η σ _).run env nested bound w = .ok w.fixture w := rfl
  have looked : (Memory.defaultAllocator : Client κ η σ _).runWith env nested bound w =
      (Call.lookUp w.fixture.kind).run env nested bound w := by
    rw [Memory.defaultAllocator, Client.runWith_bind, Client.runWith_ask,
      Run.bind_of_ok selected, Client.runWith_ask]
  rw [Client.runWith_bind, Memory.resolve, Client.runWith_bind]
  cases ends : (Call.lookUp w.fixture.kind).run env nested bound w with
  | error halt v => exact Run.bind_of_error (Run.bind_of_error (looked.trans ends))
  | ok answer v =>
    have first := looked.trans ends
    cases answer with
    | ok h => exact Run.bind_of_ok ((Run.bind_of_ok first).trans rfl)
    | error e => exact Run.bind_of_ok ((Run.bind_of_ok first).trans rfl)

section Calls

variable [DecidableEq η]

theorem Ready.runWith_use {r : Request α} {b : α} (ready : Ready env w h f)
    (step : FaultyHeap.perform r (f, w.frame) = ⟨.ok b, (f', frame'), records⟩) :
    ∃ w', (Client.ask (.use h r)).runWith env nested bound w = .ok b w' ∧
      Leaves env w f' frame' w' := by
  obtain ⟨w', used, frame, aside, cache, serves⟩ := ready.serves.use step
  exact ⟨w', (congrFun (Client.runWith_ask ..) w).trans used,
    ready.of_aside aside cache serves frame⟩

variable (bound) (creates : Creates nested) (faulty : env.kind w.fixture.kind = Kind.faulty)
  (backed : Backed env w f)
include creates faulty backed

/-- Every memory call first finds the instance that it goes to. -/
theorem runWith_resolved (body : Option Handle → Client κ η σ α) :
    ∃ h w₁, (Memory.resolve >>= body).runWith env nested bound w =
        (body (some h)).runWith env nested bound w₁ ∧
      Ready env w₁ h f ∧ w₁.frame = w.frame ∧ Aside w w₁ := by
  let task : Task κ := .lookUp w.fixture.kind
  obtain ⟨h, w₁, found, cached, serves, frame, aside⟩ : ∃ h w₁,
      Run.during task (Run.lookUp env nested w.fixture.kind) w = .ok (.ok h) w₁ ∧
        w₁.cache.lookup (env.kind w.fixture.kind).id = some h ∧ Serves w₁ h f ∧
        w₁.frame = w.frame ∧ Aside w w₁ := by
    cases backed with
    | @cached h f cached serves =>
      obtain ⟨w₁, found, cache, instances, frame, aside⟩ :=
        Run.lookUp_of_cached (w := w.begin task) cached
      refine ⟨h, _, Run.during_of_ok found, ?_, ?_, frame, aside.client, aside.fixture⟩
      · exact (congrArg _ cache).trans cached
      · rw [Serves, instances]
        exact serves
    | absent missing =>
      obtain ⟨h, w₁, found, cached, serves, frame, aside⟩ :=
        Run.lookUp_of_absent (w := w.begin task) creates faulty missing
      exact ⟨h, _, Run.during_of_ok found, cached, serves, frame, aside.client, aside.fixture⟩
  refine ⟨h, w₁, ?_, ⟨by rw [aside.fixture]; exact cached, serves⟩, frame, aside⟩
  have looked : (Call.lookUp w.fixture.kind).run env nested bound w = .ok (.ok h) w₁ := found
  rw [Memory.runWith_resolve, looked]

theorem runWith_allocate_zero :
    ∃ w', (Memory.allocate 0).runWith env nested bound w = .ok none w' ∧
      Leaves env w f w.frame w' := by
  obtain ⟨h, w₁, run, ready, frame, aside⟩ := runWith_resolved bound creates faulty backed _
  exact ⟨w₁, run, frame ▸ ready.leaves.after aside⟩

theorem runWith_allocate {n : Nat} {a : Option Ptr} (some_bytes : n ≠ 0)
    (step : FaultyHeap.grab n (f, w.frame) = ⟨.ok a, (f', frame'), records⟩) :
    ∃ w', (Memory.allocate n).runWith env nested bound w = .ok a w' ∧
      Leaves env w f' frame' w' := by
  obtain ⟨h, w₁, run, ready, frame, aside⟩ := runWith_resolved bound creates faulty backed _
  rw [← frame] at step
  obtain ⟨w', used, leaves⟩ := ready.runWith_use (r := .grab n) step
  refine ⟨w', run.trans ?_, leaves.after aside⟩
  simp only [Handle.allocate, if_neg some_bytes]
  exact used

theorem runWith_free (step : FaultyHeap.onHeap (Heap.release p) (f, w.frame) =
    ⟨.ok (), (f', frame'), records⟩) :
    ∃ w', (Memory.free (some p)).runWith env nested bound w = .ok () w' ∧
      Leaves env w f' frame' w' := by
  obtain ⟨h, w₁, run, ready, frame, aside⟩ := runWith_resolved bound creates faulty backed _
  rw [← frame] at step
  obtain ⟨w', used, leaves⟩ := ready.runWith_use (r := .release p) step
  exact ⟨w', run.trans used, leaves.after aside⟩

theorem runWith_resize_zero (step : FaultyHeap.onHeap (Heap.release p) (f, w.frame) =
    ⟨.ok (), (f', frame'), records⟩) :
    ∃ w', (Memory.resize (some p) 0).runWith env nested bound w = .ok none w' ∧
      Leaves env w f' frame' w' := by
  obtain ⟨h, w₁, run, ready, frame, aside⟩ := runWith_resolved bound creates faulty backed _
  rw [← frame] at step
  obtain ⟨w', used, leaves⟩ := ready.runWith_use (r := .release p) step
  refine ⟨w', run.trans ?_, leaves.after aside⟩
  simp only [Handle.resize, if_pos, Client.runWith_bind]
  exact Run.bind_of_ok used

theorem runWith_resize {n : Nat} {a : Option Ptr} (some_bytes : n ≠ 0)
    (step : FaultyHeap.resize p n (f, w.frame) = ⟨.ok a, (f', frame'), records⟩) :
    ∃ w', (Memory.resize (some p) n).runWith env nested bound w = .ok a w' ∧
      Leaves env w f' frame' w' := by
  obtain ⟨h, w₁, run, ready, frame, aside⟩ := runWith_resolved bound creates faulty backed _
  rw [← frame] at step
  obtain ⟨w', used, leaves⟩ := ready.runWith_use (r := .resize p n) step
  refine ⟨w', run.trans ?_, leaves.after aside⟩
  simp only [Handle.resize, if_neg some_bytes]
  exact used

section Bytes

variable {bytes : ByteArray} {heap : Heap} (read : Heap.payload p f.heap = ⟨.ok bytes, f.heap, []⟩)
include read

theorem runWith_bytes (kept : Heap.editPayload p id f.heap = ⟨.ok (), heap, []⟩) :
    ∃ w', (Memory.bytes p).runWith env nested bound w = .ok bytes w' ∧
      Leaves env w { f with heap } w.frame w' := by
  obtain ⟨h, w₁, run, ready, frame, aside⟩ := runWith_resolved bound creates faulty backed _
  obtain ⟨w', used, frame', aside', cache, serves⟩ := ready.serves.within
    (fun bytes => (Client.pure bytes).runWith env nested bound) read kept fun _ => rfl
  have left := ready.of_aside aside' cache serves (frame'.trans frame)
  exact ⟨w', run.trans (Run.bind_of_ok used), left.after aside⟩

theorem runWith_edit {edit : ByteArray → ByteArray}
    (edited : Heap.editPayload p edit f.heap = ⟨.ok (), heap, []⟩) :
    ∃ w', (Memory.edit p edit).runWith env nested bound w = .ok () w' ∧
      Leaves env w { f with heap } w.frame w' := by
  obtain ⟨h, w₁, run, ready, frame, aside⟩ := runWith_resolved bound creates faulty backed _
  obtain ⟨w', used, frame', aside', cache, serves⟩ := ready.serves.within
    (fun _ => (Client.pure ()).runWith env nested bound) read edited fun _ => rfl
  have left := ready.of_aside aside' cache serves (frame'.trans frame)
  exact ⟨w', run.trans (Run.bind_of_ok used), left.after aside⟩

end Bytes

end Calls

/-! ### The table behind the calls -/

/-- Every slot of the faulty heap behind the memory calls has a number. -/
def Roomy (env : Environment κ η σ) (w : World κ η σ) : Prop :=
  env.kind w.fixture.kind = Kind.faulty → ∀ f, Backed env w f → f.heap.Indexed

theorem Backed.indexed (backed : Backed env w f)
    (all : ∀ inst ∈ w.instances, ∀ a ∈ inst.state, a.Indexed) : f.heap.Indexed := by
  cases backed with
  | cached _ serves =>
    obtain ⟨inst, here, state, -⟩ := serves
    exact all inst (Array.mem_of_getElem? here) _ state
  | absent => decide

theorem Roomy.congr (roomy : Roomy env w') (cache : w'.cache = w.cache)
    (instances : w'.instances = w.instances) (fixture : w'.fixture = w.fixture) : Roomy env w :=
  fun faulty f backed => roomy (by rwa [fixture]) f (backed.congr cache instances fixture)

/-- An operation on a faulty heap takes no slots out of its table. -/
def Grows (x : Op (Allocator × Option Frame) α) : Prop :=
  ∀ (f : FaultyHeap) frame, ∃ f' frame', (x (.faulty f, frame)).state = (.faulty f', frame') ∧
    f.heap.slots.size ≤ f'.heap.slots.size

theorem grows_perform (r : Request α) : Grows (Allocator.perform r) := by
  intro f frame
  refine ⟨(FaultyHeap.perform r (f, frame)).state.1, (FaultyHeap.perform r (f, frame)).state.2,
    rfl, ?_⟩
  rw [FaultyHeap.perform_eq_performIf]
  exact f.size_le_performIf frame Heap.grants r

theorem Grows.bind {β : Type} {x : Op (Allocator × Option Frame) α}
    {g : α → Op (Allocator × Option Frame) β} (first : Grows x) (rest : ∀ a, Grows (g a)) :
    Grows (x >>= g) := by
  intro f frame
  obtain ⟨f', frame', left, more⟩ := first f frame
  cases ran : x (.faulty f, frame) with
  | mk value s records =>
  rw [ran] at left
  subst left
  cases value with
  | error p =>
    rw [Op.bind_of_error ran]
    exact ⟨f', frame', rfl, more⟩
  | ok a =>
    rw [Op.bind_of_ok ran]
    obtain ⟨f'', frame'', left, more'⟩ := rest a f' frame'
    exact ⟨f'', frame'', left, Nat.le_trans more more'⟩

theorem grows_pure (a : α) : Grows (pure a) := fun f frame => ⟨f, frame, rfl, Nat.le_refl _⟩

section Table

variable [DecidableEq η]

/-- A program for the instance of a handle takes no slots out of its table. -/
def Spares (env : Environment κ η σ) (nested : Nested κ η σ) (bound : Nat) (h : Handle)
    (c : Client κ η σ α) : Prop :=
  ∀ w f, Ready env w h f → ∃ f', Ready env ((c.runWith env nested bound).leaves w) h f' ∧
    ((c.runWith env nested bound).leaves w).fixture = w.fixture ∧
    f.heap.slots.size ≤ f'.heap.slots.size

theorem spares_pure (a : α) : Spares env nested bound h (.pure a : Client κ η σ α) :=
  fun _ f ready => ⟨f, ready, rfl, Nat.le_refl _⟩

theorem Spares.bind {β : Type} {c : Client κ η σ α} {next : α → Client κ η σ β}
    (first : Spares env nested bound h c) (rest : ∀ a, Spares env nested bound h (next a)) :
    Spares env nested bound h (c >>= next) := by
  intro w f ready
  rw [Client.runWith_bind]
  obtain ⟨f', ready', fixture, more⟩ := first w f ready
  cases ran : c.runWith env nested bound w with
  | error halt v =>
    rw [Run.leaves_of_error ran] at ready' fixture
    rw [Run.leaves_of_error (Run.bind_of_error ran)]
    exact ⟨f', ready', fixture, more⟩
  | ok a v =>
    rw [Run.leaves_of_ok ran] at ready' fixture
    rw [Run.leaves_bind_of_ok ran]
    obtain ⟨f'', ready'', fixture', more'⟩ := rest a v f' ready'
    exact ⟨f'', ready'', fixture'.trans fixture, Nat.le_trans more more'⟩

theorem spares_use (r : Request α) :
    Spares env nested bound h (.ask (.use h r) : Client κ η σ α) := by
  intro w f ready
  obtain ⟨inst, here, state, idle⟩ := ready.serves
  obtain ⟨f', frame', left, more⟩ := grows_perform r f w.frame
  have used : ((Client.ask (.use h r)).runWith env nested bound).leaves w = _ :=
    (Run.leaves_congr (congrFun (Client.runWith_ask ..) w)).trans
      ((Run.leaves_bind_of_ok (Run.liveInstance_of_some here state idle)).trans
        (Run.leaves_onAllocator h (.faulty f) _ w))
  rw [used, left]
  refine ⟨f', ⟨ready.cached, { inst with state := some (.faulty f') }, ?_, rfl, idle⟩, rfl, more⟩
  simp [Array.getElem?_modify, here]

theorem spares_within (p : Ptr) (edit : ByteArray → ByteArray) (answer : ByteArray → α) :
    Spares env nested bound h
      (.within h p edit (fun bytes => .pure (answer bytes)) .pure : Client κ η σ α) := by
  intro w f ready
  obtain ⟨inst, here, state, idle⟩ := ready.serves
  have grows : Grows (do
      let bytes ← Allocator.perform (.payload p)
      Allocator.perform (.edit p edit)
      return bytes) :=
    (grows_perform _).bind fun _ => (grows_perform _).bind fun _ => grows_pure _
  obtain ⟨f', frame', left, more⟩ := grows f w.frame
  have used : ((Client.within h p edit (fun bytes => .pure (answer bytes)) .pure).runWith env nested
      bound).leaves w = (Run.within h p edit fun bytes => pure (answer bytes)).leaves w :=
    Run.leaves_bind_pure id
  rw [used, Run.within, Run.leaves_bind_of_ok (Run.liveInstance_of_some here state idle)]
  dsimp only
  rw [Run.leaves_bind_of_ok (Run.modifyInstance_run h _ w), Run.leaves_ensuring,
    Run.leaves_bind_pure, Run.leaves_onAllocator]
  dsimp only
  rw [left]
  refine ⟨f', ⟨ready.cached, { inst with state := some (.faulty f'), busy := false }, ?_, rfl, rfl⟩,
    rfl, more⟩
  simp [Array.getElem?_modify, here]

variable (creates : Creates nested)
include creates

/-- If every slot has a number after a memory call, then also before. -/
theorem reflects_resolved {body : Option Handle → Client κ η σ α}
    (spares : ∀ h, Spares env nested bound h (body (some h))) :
    ((Memory.resolve >>= body).runWith env nested bound).Respects (.reflecting (Roomy env)) := by
  intro w roomy faulty f backed
  obtain ⟨h, w₁, run, ready, -, aside⟩ := runWith_resolved bound creates faulty backed body
  obtain ⟨f', ready', fixture, more⟩ := spares h w₁ f ready
  rw [Run.leaves_congr run] at roomy
  have few := roomy (by rw [fixture, aside.fixture]; exact faulty) f'
    (.cached ready'.cached ready'.serves)
  exact Nat.lt_of_le_of_lt more few

theorem reflects_allocate (n : Nat) :
    ((Memory.allocate n : Client κ η σ _).runWith env nested bound).Respects
      (.reflecting (Roomy env)) := by
  refine reflects_resolved creates fun h => ?_
  simp only [Handle.allocate]
  split
  · exact spares_pure none
  · exact spares_use _

theorem reflects_resize (q : Option Ptr) (n : Nat) :
    ((Memory.resize q n : Client κ η σ _).runWith env nested bound).Respects
      (.reflecting (Roomy env)) := by
  cases q with
  | none => exact reflects_allocate creates n
  | some p =>
    refine reflects_resolved creates fun h => ?_
    simp only [Handle.resize]
    split
    · exact (spares_use _).bind fun _ => spares_pure none
    · exact spares_use _

theorem reflects_free (q : Option Ptr) :
    ((Memory.free q : Client κ η σ _).runWith env nested bound).Respects
      (.reflecting (Roomy env)) := by
  cases q with
  | none => exact Run.respects_pure ()
  | some p => exact reflects_resolved creates fun h => spares_use (.release p)

theorem reflects_bytes (p : Ptr) :
    ((Memory.bytes p : Client κ η σ _).runWith env nested bound).Respects
      (.reflecting (Roomy env)) :=
  reflects_resolved creates fun _ => spares_within p id id

theorem reflects_edit (p : Ptr) (edit : ByteArray → ByteArray) :
    ((Memory.edit p edit : Client κ η σ _).runWith env nested bound).Respects
      (.reflecting (Roomy env)) :=
  reflects_resolved creates fun _ => spares_within p edit fun _ => ()

end Table

end MemoryTrial
