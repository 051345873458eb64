import MemoryTrial.Proofs.Replay.Exploration
import MemoryTrial.Proofs.Replay.MemoryTest
import MemoryTrial.Proofs.Replay.Nesting

/-! Tests under a shortage of memory.  A replay of a test on a thread whose fixture is a faulty heap
runs it under every combination of refused and granted requests that it can come to, each once
(`replay_exhausts_refusals`). -/

namespace MemoryTrial

variable {κ η : Type}

theorem DecisionTree.nodup_paths (tree : DecisionTree) : tree.paths.Nodup := by
  refine tree.pairwise_paths.imp fun {path path'} before same => ?_
  subst same
  induction path with
  | nil => cases before
  | cons failed path ih =>
    cases before with
    | rel less => exact Bool.noConfusion (less.1.symm.trans less.2)
    | cons rest => exact ih rest

section Loop

variable {env : Environment κ η Trace} {f : FaultyHeap} {w : World κ η Trace} {t : MemoryTest}

/-- The refusals along some paths. -/
def refusals (paths : List (List Bool)) : Nat := paths.flatten.count true

/-- A test gives all its blocks back, however its requests are answered. -/
def MemoryTest.Frees (t : MemoryTest) : Prop :=
  t.All (fun _ => True) (fun s => s.unreleased = 0) .start

/-- What has become of the heap `f` behind the memory calls of `w` after runs along some paths. -/
structure Tested (env : Environment κ η Trace) (f : FaultyHeap) (w : World κ η Trace)
    (t : MemoryTest) (done : List (List Bool)) (w' : World κ η Trace) : Prop where
  client : w'.client = ⟨done, []⟩
  fixture : w'.fixture = w.fixture
  heap : ∃ f', Backed env w' f' ∧ f'.heap.Sound ∧ f'.forced = f.forced + refusals done ∧
    (t.Frees → f'.heap.live = f.heap.live)

theorem Tested.of_backed (backed : Backed env w f) (sound : f.heap.Sound) :
    Tested env f w t [] { w with client := ⟨[], []⟩ } :=
  ⟨rfl, rfl, f, backed.congr rfl rfl rfl, sound, rfl, fun _ => rfl⟩

variable [DecidableEq η] {nested : Nested κ η Trace}

theorem MemoryTest.explores (bound : Nat) (creates : Creates nested)
    (faulty : env.kind w.fixture.kind = Kind.faulty)
    (small : t.All (Heap.grants · = true) (fun _ => True) .start) :
    Explores (t.tree .start) ((t.program fun _ => none).runWith env nested bound)
      (Tested env f w t) (Roomy env) := by
  intro done path result g w' tested found begins short roomy
  obtain ⟨f', backed, sound, forced, live⟩ := tested.heap
  have linked : Linked env f'.heap.live f'.forced { w' with frame := some g.reset } (fun _ => none)
      .start := ⟨f', backed.congr rfl rfl rfl, rfl, .start sound⟩
  have room : g.reset.count + path.length ≤ maxCheckpoints := by
    rw [show g.reset.count = 0 from rfl, Nat.zero_add]
    exact of_decide_eq_true short
  have ran : Roomy env (((t.program fun _ => none).runWith env nested bound).leaves
      { w' with frame := some g.reset }) := by
    rw [Run.underFrame, Run.leaves_bind_of_ok (Run.modify_run _ w')] at roomy
    exact Run.Respects.before (fun _ => Run.respects_bind Run.respects_get fun _ =>
      Run.respects_pure _) roomy
  obtain ⟨w'', run, ended⟩ := t.follows creates
    ⟨by rw [tested.fixture]; exact faulty, linked, small, found, rfl, begins.continues, room⟩ ran
  refine ⟨w'', Run.underFrame_of_ok run ended.frame, fun journal => ⟨?_, ?_, ?_⟩⟩
  · rw [ended.client, tested.client]
    rfl
  · exact ended.fixture.trans tested.fixture
  · obtain ⟨vars, s, ⟨f'', backed'', forced'', mirrors⟩, outcome⟩ := ended.store
    refine ⟨f'', backed''.congr rfl rfl rfl, mirrors.sound, ?_, fun frees => ?_⟩
    · rw [forced'', forced, refusals, refusals, List.flatten_append, List.count_append]
      simp [Nat.add_assoc]
    · have balanced : s.unreleased = 0 := outcome _ frees
      have := mirrors.live
      have := live frees
      omega

end Loop

section Whole

variable [DecidableEq η] (env : Environment κ η Trace)

theorem Client.exists_run_creates :
    ∃ nested : Nested κ η Trace, Creates nested ∧ ∀ {α : Type} (c : Client κ η Trace α),
      c.run env = c.runWith env nested runLimit := by
  obtain ⟨below, h⟩ : ∃ below, runLimit = below + 1 + 1 := ⟨runLimit - 2, by decide⟩
  exact ⟨fun d => d.runTo env runLimit (below + 1), fun w => runWith_create_faulty w,
    fun c => c.runTo_of_succ env runLimit h⟩

/-- A call comes to its end and passes `count` checkpoints of a replay. -/
def Costs {α : Type} (w : World κ η Trace) (call : Client κ η Trace α) (count : Nat) : Prop :=
  ∃ a w' path, call.run env w = .ok a w' ∧ path.length = count ∧
    w'.frame = w.frame.map (·.pass path)

/-- The checkpoints that memory calls pass under a replay: one for each request for memory. -/
structure Charged (w : World κ η Trace) (f : FaultyHeap) : Prop where
  allocate : ∀ n, Costs env w (Memory.allocate n) (if n = 0 then 0 else 1)
  resize_none : ∀ n, Costs env w (Memory.resize none n) (if n = 0 then 0 else 1)
  resize : ∀ p n, (f.heap.find? p).isSome →
    Costs env w (Memory.resize (some p) n) (if n = 0 then 0 else 1)
  free_none : Costs env w (Memory.free none) 0
  free : ∀ p, (f.heap.find? p).isSome → Costs env w (Memory.free (some p)) 0
  bytes : ∀ p, (f.heap.find? p).isSome → Costs env w (Memory.bytes p) 0
  edit : ∀ p change, (f.heap.find? p).isSome → Costs env w (Memory.edit p change) 0

variable {w : World κ η Trace} {f : FaultyHeap} {g : Frame}

theorem FaultyHeap.guard_charges {name : RequestName} {n : Nat} {request : Op Heap (Option Ptr)}
    {a : Option Ptr} {heap : Heap} {records : List Record} (inside : g.count < maxCheckpoints)
    (served : request f.heap = ⟨.ok a, heap, records⟩) :
    ∃ a f' path records, path.length = 1 ∧
      guard name n request (f, some g) = ⟨.ok a, (f', some (g.pass path)), records⟩ := by
  have passed := checkpoint_of_willFail inside (rfl : g.willFail g.count = g.willFail g.count)
  cases fails : g.willFail g.count with
  | true =>
    rw [fails] at passed
    exact ⟨_, _, _, _, rfl, guard_of_fails passed⟩
  | false =>
    rw [fails] at passed
    exact ⟨_, _, _, _, rfl, guard_of_passes passed served⟩

section Charges

variable {α : Type} {call : Client κ η Trace α} {f' : FaultyHeap} {a : α} {w' : World κ η Trace}
  {nested : Nested κ η Trace} {p : Ptr}
  (run_eq : ∀ {α : Type} (c : Client κ η Trace α), c.run env = c.runWith env nested runLimit)
  (active : w.frame = some g)
include run_eq active

theorem costs_of_leaves (path : List Bool) (run : call.runWith env nested runLimit w = .ok a w')
    (leaves : Leaves env w f' (some (g.pass path)) w') : Costs env w call path.length :=
  ⟨a, w', path, by rw [run_eq]; exact run, rfl, by rw [leaves.frame, active]; rfl⟩

theorem free_of_leaves (run : call.runWith env nested runLimit w = .ok a w')
    (leaves : Leaves env w f' w.frame w') : Costs env w call 0 :=
  costs_of_leaves env run_eq active [] run (by rw [Frame.pass_nil, ← active]; exact leaves)

variable (creates : Creates nested) (faulty : env.kind w.fixture.kind = Kind.faulty)
  (backed : Backed env w f) (sound : f.heap.Sound)
include creates faulty backed sound

theorem costs_allocate (inside : g.count < maxCheckpoints) (n : Nat) :
    Costs env w (Memory.allocate n) (if n = 0 then 0 else 1) := by
  split
  next nothing =>
    subst nothing
    obtain ⟨w', run, leaves⟩ := runWith_allocate_zero runLimit creates faulty backed
    exact free_of_leaves env run_eq active run leaves
  next some_bytes =>
    obtain ⟨a, heap, records, served⟩ := Heap.grab_answers sound n
    obtain ⟨a, f', path, records, single, step⟩ : ∃ a f' path records, path.length = 1 ∧
        FaultyHeap.grab n (f, some g) = ⟨.ok a, (f', some (g.pass path)), records⟩ :=
      FaultyHeap.guard_charges inside served
    rw [← active] at step
    obtain ⟨w', run, leaves⟩ := runWith_allocate runLimit creates faulty backed some_bytes step
    exact single ▸ costs_of_leaves env run_eq active path run leaves

variable {bytes : ByteArray} (found : f.heap.bytes? p = some bytes)
include found

theorem costs_resize (inside : g.count < maxCheckpoints) (n : Nat) :
    Costs env w (Memory.resize (some p) n) (if n = 0 then 0 else 1) := by
  split
  next nothing =>
    subst nothing
    obtain ⟨heap, released, -⟩ := Heap.release_puts sound found
    obtain ⟨w', run, leaves⟩ :=
      runWith_resize_zero runLimit creates faulty backed (FaultyHeap.onHeap_of_ok released)
    exact free_of_leaves env run_eq active run leaves
  next some_bytes =>
    obtain ⟨a, heap, records, served⟩ := Heap.resize_answers sound found n
    obtain ⟨a, f', path, records, single, step⟩ : ∃ a f' path records, path.length = 1 ∧
        FaultyHeap.resize p n (f, some g) = ⟨.ok a, (f', some (g.pass path)), records⟩ :=
      FaultyHeap.guard_charges inside served
    rw [← active] at step
    obtain ⟨w', run, leaves⟩ := runWith_resize runLimit creates faulty backed some_bytes step
    exact single ▸ costs_of_leaves env run_eq active path run leaves

theorem costs_free : Costs env w (Memory.free (some p)) 0 := by
  obtain ⟨heap, released, -⟩ := Heap.release_puts sound found
  obtain ⟨w', run, leaves⟩ :=
    runWith_free runLimit creates faulty backed (FaultyHeap.onHeap_of_ok released)
  exact free_of_leaves env run_eq active run leaves

theorem costs_bytes : Costs env w (Memory.bytes p) 0 := by
  obtain ⟨heap, edited, -⟩ := Heap.editPayload_puts sound found id
  obtain ⟨w', run, leaves⟩ :=
    runWith_bytes runLimit creates faulty backed (Heap.payload_of_bytes? found) edited
  exact free_of_leaves env run_eq active run leaves

theorem costs_edit (change : ByteArray → ByteArray) : Costs env w (Memory.edit p change) 0 := by
  obtain ⟨heap, edited, -⟩ := Heap.editPayload_puts sound found change
  obtain ⟨w', run, leaves⟩ :=
    runWith_edit runLimit creates faulty backed (Heap.payload_of_bytes? found) edited
  exact free_of_leaves env run_eq active run leaves

end Charges

theorem charged (faulty : env.kind w.fixture.kind = Kind.faulty) (backed : Backed env w f)
    (sound : f.heap.Sound) (active : w.frame = some g) (inside : g.count < maxCheckpoints) :
    Charged env w f := by
  obtain ⟨nested, creates, run_eq⟩ := Client.exists_run_creates env
  have allocate := costs_allocate env run_eq active creates faulty backed sound inside
  refine ⟨allocate, allocate, fun p n held => ?_, ?_, fun p held => ?_, fun p held => ?_,
    fun p change held => ?_⟩
  · obtain ⟨bytes, found⟩ := Heap.bytes?_of_find? held
    exact costs_resize env run_eq active creates faulty backed sound found inside n
  · exact ⟨(), w, [], by rw [run_eq]; rfl, rfl, by simp [active]⟩
  · obtain ⟨bytes, found⟩ := Heap.bytes?_of_find? held
    exact costs_free env run_eq active creates faulty backed sound found
  · obtain ⟨bytes, found⟩ := Heap.bytes?_of_find? held
    exact costs_bytes env run_eq active creates faulty backed sound found
  · obtain ⟨bytes, found⟩ := Heap.bytes?_of_find? held
    exact costs_edit env run_eq active creates faulty backed sound found change

/-- What a replay does with a test whose memory calls go to the faulty heap `f`. -/
structure Exhausts (w : World κ η Trace) (f : FaultyHeap) (t : MemoryTest) (tree : DecisionTree) :
    Prop where
  /-- The paths of the tree are the combinations of answers that the test can come to. -/
  complete : ∀ path, path ∈ tree.paths ↔ (tree.answer path).isSome
  once : tree.paths.Nodup
  /-- The test runs along all paths, the last one being that on which every request is granted. -/
  replayed : ∃ result depth w' f', tree.paths.getLast? = some (List.replicate depth false) ∧
    tree.answer (List.replicate depth false) = some result ∧
    (Client.replayed (t.program fun _ => none)).run env { w with client := ⟨[], []⟩ } =
      .ok ⟨result, tree.leaves, depth⟩ w' ∧
    w'.client.finished = tree.paths ∧ w'.frame = w.frame ∧ Backed env w' f' ∧
    f'.forced = f.forced + refusals tree.paths ∧ (t.Frees → f'.heap.live = f.heap.live)
  charged : ∀ w f g, env.kind w.fixture.kind = Kind.faulty → Backed env w f → f.heap.Reachable →
    w.frame = some g → g.count < maxCheckpoints → Charged env w f

/-- A replay of a test under a faulty heap runs it under every combination of refused and granted
requests, each once.  The heap behind grants every request that comes to it: the system has the memory
(`small`), and in its table there is a number left for the block (`few`). -/
theorem replay_exhausts_refusals (w : World κ η Trace) (f : FaultyHeap) (t : MemoryTest)
    (faulty : env.kind w.fixture.kind = Kind.faulty) (backed : Backed env w f)
    (reachable : f.heap.Reachable)
    (small : t.All (Heap.grants · = true) (fun _ => True) .start)
    (shallow : ∀ path ∈ (t.tree .start).paths, path.length ≤ maxCheckpoints)
    (few : ∀ f', Backed env (((Client.replayed (t.program fun _ => none)).run env).leaves
      { w with client := ⟨[], []⟩ }) f' → f'.heap.Indexed) :
    Exhausts env w f t (t.tree .start) := by
  refine ⟨fun path => DecisionTree.mem_paths, DecisionTree.nodup_paths _, ?_,
    fun w f g faulty backed reachable => charged env faulty backed reachable.sound⟩
  obtain ⟨nested, creates, run_eq⟩ := Client.exists_run_creates env
  have reflects : Reflects ((t.program fun _ => none).runWith env nested runLimit) (Roomy env) :=
    ⟨t.reflects creates _, fun _ _ roomy => roomy.congr rfl rfl rfl,
      fun _ _ roomy => roomy.congr rfl rfl rfl⟩
  have roomy : Roomy env ((Run.replay ((t.program fun _ => none).runWith env nested
      runLimit)).leaves { w with client := ⟨[], []⟩ }) := by
    rw [Client.run_replayed, run_eq] at few
    exact fun _ => few
  obtain ⟨result, depth, w', last, found, replayed, tested⟩ := replay_of_explored
    (t.explores runLimit creates faulty small) reflects (.of_backed backed reachable.sound) shallow
    roomy
  obtain ⟨f', backed', -, forced, live⟩ := tested.heap
  refine ⟨result, depth, { w' with frame := w.frame }, f', last, found, ?_, ?_, rfl,
    backed'.congr rfl rfl rfl, forced, live⟩
  · rw [run_eq, Client.replayed, Client.runWith, Run.bind_of_ok replayed]
    rfl
  · exact congrArg Trace.finished tested.client

end Whole

/-- A test that makes do with less when it is refused. -/
def modestTest : MemoryTest :=
  .allocate 0 100 fun granted =>
    if granted then .resize 0 10000 fun grown => .free 0 (.answer grown)
    else .allocate 0 10 fun granted => .free 0 (.answer granted)

def faultyEnvironment : Environment Unit Unit Trace :=
  ⟨fun _ => Kind.faulty, fun _ => return (), ⟨"default", ()⟩⟩

theorem modestTest_exhausts_refusals :
    Exhausts faultyEnvironment (World.start ⟨"test", ()⟩ false ⟨[], []⟩) .empty modestTest
      (modestTest.tree .start) :=
  replay_exhausts_refusals _ _ _ _ rfl (.absent rfl) .empty
    ⟨rfl, ⟨rfl, trivial, trivial⟩, ⟨rfl, trivial, trivial⟩⟩ (by decide +kernel)
    fun _ backed => backed.indexed (by decide +kernel)

example : (modestTest.tree .start).paths =
    [[true, true], [true, false], [false, true], [false, false]] := by decide +kernel

end MemoryTrial
