import Mathlib.Logic.Function.Basic
import MemoryTrial.Proofs.Replay.Enumeration
import MemoryTrial.Proofs.World.Memory

/-! Tests that request memory.  A test keeps its blocks in variables, and goes on by whether its
requests are granted and by the bytes of its blocks.  What it does is a decision tree over a store
that knows no pointers (`MemoryTest.tree`).  A run of the test takes the path of that tree that the
frame begins with (`MemoryTest.follows`). -/

namespace MemoryTrial

/-- What the variables of a test hold, and how many blocks it was given and did not give back. -/
structure Store where
  blocks : Nat → Option ByteArray
  unreleased : Int

/-- What a call comes to: it asks for nothing, or it asks the system for `growth` bytes, and may be
refused. -/
inductive Demand
  | settled (after : Store)
  | asks (growth : Nat) (refused granted : Store)

namespace Store

def start : Store := ⟨fun _ => none, 0⟩

/-- The variable `x` takes a block or none.  The block that it held before is forgotten. -/
def put (s : Store) (x : Nat) (block : Option ByteArray) : Store :=
  { s with blocks := Function.update s.blocks x block }

def allocate (s : Store) (x n : Nat) : Demand :=
  if n = 0 then .settled (s.put x none)
  else
    .asks n (s.put x none)
      { s.put x (some (Bytes.replicate n 0)) with unreleased := s.unreleased + 1 }

def release (s : Store) (x : Nat) : Store :=
  match s.blocks x with
  | none => s
  | some _ => { s.put x none with unreleased := s.unreleased - 1 }

def resize (s : Store) (x n : Nat) : Demand :=
  match s.blocks x with
  | none => s.allocate x n
  | some bytes =>
    if n = 0 then .settled (s.release x)
    else .asks (n - bytes.size) s (s.put x (some (Bytes.fitted n bytes)))

def edit (s : Store) (x : Nat) (f : ByteArray → ByteArray) : Store :=
  match s.blocks x with
  | none => s
  | some bytes => s.put x (some (Bytes.fitted bytes.size (f bytes)))

end Store

/-- A test that requests memory only through the memory calls of its thread. -/
inductive MemoryTest
  | answer (result : Bool)
  /-- Allocates into a variable, and goes on by whether there is a block now. -/
  | allocate (x n : Nat) (next : Bool → MemoryTest)
  | resize (x n : Nat) (next : Bool → MemoryTest)
  | free (x : Nat) (next : MemoryTest)
  /-- Goes on by the bytes of a block, if the variable holds one. -/
  | read (x : Nat) (next : Option ByteArray → MemoryTest)
  | edit (x : Nat) (f : ByteArray → ByteArray) (next : MemoryTest)

/-- The decision tree of what follows a call. -/
def Demand.tree (next : Bool → Store → DecisionTree) : Demand → DecisionTree
  | settled after => next false after
  | asks _ refused granted => .node (next false refused) (next true granted)

/-- All that can follow a call. -/
def Demand.All (request : Nat → Prop) (next : Bool → Store → Prop) : Demand → Prop
  | settled after => next false after
  | asks growth refused granted => request growth ∧ next false refused ∧ next true granted

namespace MemoryTest

/-- The decision tree of a test: a request is a checkpoint. -/
def tree : MemoryTest → Store → DecisionTree
  | answer result, _ => .leaf result
  | allocate x n next, s => (s.allocate x n).tree fun granted => (next granted).tree
  | resize x n next, s => (s.resize x n).tree fun granted => (next granted).tree
  | free x next, s => next.tree (s.release x)
  | read x next, s => (next (s.blocks x)).tree s
  | edit x f next, s => next.tree (s.edit x f)

/-- However requests are answered, `request` holds of the growth that they ask for and `ended` of the
store at the end. -/
def All (request : Nat → Prop) (ended : Store → Prop) : MemoryTest → Store → Prop
  | answer _, s => ended s
  | allocate x n next, s =>
    (s.allocate x n).All request fun granted => (next granted).All request ended
  | resize x n next, s => (s.resize x n).All request fun granted => (next granted).All request ended
  | free x next, s => next.All request ended (s.release x)
  | read x next, s => (next (s.blocks x)).All request ended s
  | edit x f next, s => next.All request ended (s.edit x f)

variable {κ η : Type}

/-- Notes the answer of a call, if it asked for memory. -/
def note (n : Nat) (p : Option Ptr) : Client κ η Trace Unit :=
  if n = 0 then return () else Client.modify (Trace.pass p.isNone)

/-- The test as a program that notes its runs. -/
def program : MemoryTest → (Nat → Option Ptr) → Client κ η Trace Bool
  | answer result, _ => do
    Client.modify Trace.finish
    return result
  | allocate x n next, vars => do
    let p ← Memory.allocate n
    note n p
    (next p.isSome).program (Function.update vars x p)
  | resize x n next, vars => do
    let q ← Memory.resize (vars x) n
    note n q
    (next q.isSome).program (Function.update vars x (if n = 0 then none else q.or (vars x)))
  | free x next, vars => do
    Memory.free (vars x)
    next.program (Function.update vars x none)
  | read x next, vars =>
    match vars x with
    | none => (next none).program vars
    | some p => do
      let bytes ← Memory.bytes p
      (next (some bytes)).program vars
  | edit x f next, vars =>
    match vars x with
    | none => next.program vars
    | some p => do
      Memory.edit p f
      next.program vars

end MemoryTest

/-- A heap that has the blocks of a store, at the pointers in `vars`, besides `base` other ones. -/
structure Mirrors (vars : Nat → Option Ptr) (s : Store) (base : Int) (heap : Heap) : Prop where
  sound : heap.Sound
  held : ∀ x, (vars x).map heap.bytes? = (s.blocks x).map some
  distinct : ∀ x y p, vars x = some p → vars y = some p → x = y
  live : heap.live = base + s.unreleased

namespace Mirrors

variable {vars : Nat → Option Ptr} {s : Store} {base : Int} {heap heap' : Heap} {x : Nat} {p : Ptr}

theorem start (sound : heap.Sound) : Mirrors (fun _ => none) .start heap.live heap :=
  ⟨sound, fun _ => rfl, nofun, by simp [Store.start]⟩

theorem cases (h : Mirrors vars s base heap) (x : Nat) :
    vars x = none ∧ s.blocks x = none ∨
      ∃ p bytes, vars x = some p ∧ s.blocks x = some bytes ∧ heap.bytes? p = some bytes := by
  have held := h.held x
  cases hv : vars x with
  | none =>
    rw [hv, Option.map_none, eq_comm, Option.map_eq_none_iff] at held
    exact .inl ⟨rfl, held⟩
  | some p =>
    cases hb : s.blocks x with
    | none =>
      rw [hv, hb] at held
      cases held
    | some bytes =>
      rw [hv, hb] at held
      exact .inr ⟨p, bytes, rfl, rfl, Option.some.inj held⟩

theorem distinct_update (h : Mirrors vars s base heap) {v : Option Ptr}
    (others : ∀ y q, y ≠ x → v = some q → vars y ≠ some q) (y z : Nat) (q : Ptr)
    (hy : Function.update vars x v y = some q) (hz : Function.update vars x v z = some q) :
    y = z := by
  by_cases hyx : y = x
  · by_cases hzx : z = x
    · rw [hyx, hzx]
    · rw [hyx, Function.update_self] at hy
      rw [Function.update_of_ne hzx] at hz
      exact absurd hz (others z q hzx hy)
  · rw [Function.update_of_ne hyx] at hy
    by_cases hzx : z = x
    · rw [hzx, Function.update_self] at hz
      exact absurd hy (others y q hyx hz)
    · rw [Function.update_of_ne hzx] at hz
      exact h.distinct y z q hy hz

theorem ne_of_fresh (h : Mirrors vars s base heap) (fresh : heap.bytes? p = none) (y : Nat) :
    vars y ≠ some p := by
  intro here
  have held := h.held y
  rw [here, Option.map_some, fresh] at held
  cases hb : s.blocks y <;> rw [hb] at held <;> cases held

/-- The block at a pointer changes that no other variable has. -/
theorem puts {block : Option ByteArray} {unreleased : Int} (h : Mirrors vars s base heap)
    (others : ∀ y, y ≠ x → vars y ≠ some p) (puts : heap.Puts p block heap')
    (count : s.unreleased + block.toList.length = unreleased + (heap.bytes? p).toList.length) :
    Mirrors (Function.update vars x (block.map fun _ => p))
      { s.put x block with unreleased } base heap' := by
  refine ⟨puts.sound, fun y => ?_, h.distinct_update fun y q here hq => ?_, ?_⟩
  · by_cases here : y = x
    · subst here
      cases block with
      | none => simp [Store.put]
      | some bytes => simp [Store.put, puts.bytes]
    · simp only [Store.put, Function.update_of_ne here]
      rw [← h.held y]
      cases hv : vars y with
      | none => rfl
      | some q =>
        have other : q ≠ p := fun same => others y here (by rw [hv, same])
        simp [puts.bytes, other]
  · obtain ⟨-, -, rfl⟩ := Option.map_eq_some_iff.mp hq
    exact others y here
  · have := puts.live
    have := h.live
    simp only
    omega

theorem of_some (h : Mirrors vars s base heap) (here : vars x = some p) :
    ∃ bytes, s.blocks x = some bytes ∧ heap.bytes? p = some bytes := by
  rcases h.cases x with ⟨null, -⟩ | ⟨q, bytes, here', held, found⟩
  · rw [null] at here
    cases here
  · cases here.symm.trans here'
    exact ⟨bytes, held, found⟩

/-- The bytes of a block change where they are. -/
theorem puts_here {bytes : ByteArray} (h : Mirrors vars s base heap) (here : vars x = some p)
    (puts : heap.Puts p (some bytes) heap') : Mirrors vars (s.put x (some bytes)) base heap' := by
  obtain ⟨old, -, found⟩ := h.of_some here
  have same : Function.update vars x (some p) = vars := by rw [← here, Function.update_eq_self]
  have h' := h.puts (fun y other hy => other (h.distinct y x p hy here)) puts
    (show s.unreleased + _ = s.unreleased + _ by simp [found])
  rwa [Option.map_some, same] at h'

theorem forget (h : Mirrors vars s base heap) (x : Nat) :
    Mirrors (Function.update vars x none) (s.put x none) base heap := by
  refine ⟨h.sound, fun y => ?_, h.distinct_update nofun, h.live⟩
  by_cases here : y = x
  · subst here
    simp [Store.put]
  · simp only [Store.put, Function.update_of_ne here]
    exact h.held y

end Mirrors

section Calls

variable {κ η σ : Type} [DecidableEq η] {env : Environment κ η σ} {nested : Nested κ η σ}
  {bound : Nat} {base : Int} {forced : Nat} {w : World κ η σ} {vars : Nat → Option Ptr} {s : Store}
  {g : Frame} {failed : Bool} {x n : Nat}

/-- The memory calls of the thread go to a heap that has the blocks of a store and counts `forced`
refusals. -/
def Linked (env : Environment κ η σ) (base : Int) (forced : Nat) (w : World κ η σ)
    (vars : Nat → Option Ptr) (s : Store) : Prop :=
  ∃ f, Backed env w f ∧ f.forced = forced ∧ Mirrors vars s base f.heap

omit [DecidableEq η] in
theorem Linked.congr {w' : World κ η σ} (linked : Linked env base forced w vars s)
    (cache : w'.cache = w.cache) (instances : w'.instances = w.instances)
    (fixture : w'.fixture = w.fixture) : Linked env base forced w' vars s := by
  obtain ⟨f, backed, count, mirrors⟩ := linked
  exact ⟨f, backed.congr cache instances fixture, count, mirrors⟩

omit [DecidableEq η] in
theorem Linked.blocks_of_none (linked : Linked env base forced w vars s) (null : vars x = none) :
    s.blocks x = none := by
  obtain ⟨f, -, -, mirrors⟩ := linked
  rcases mirrors.cases x with ⟨-, held⟩ | ⟨p, bytes, here, -⟩
  · exact held
  · rw [null] at here
    cases here

/-- What a call for `n` bytes does, given what it comes to.  `vars'` are the variables after its
answer. -/
def Demand.Met (env : Environment κ η σ) (nested : Nested κ η σ) (bound : Nat) (base : Int)
    (forced : Nat) (w : World κ η σ) (g : Frame) (n : Nat) (call : Client κ η σ (Option Ptr))
    (vars' : Option Ptr → Nat → Option Ptr) : Demand → Prop
  | settled after => n = 0 ∧ ∃ w', call.runWith env nested bound w = .ok none w' ∧
      Linked env base forced w' (vars' none) after ∧ w'.frame = some g ∧ Aside w w'
  | asks growth refused granted => n ≠ 0 ∧ ∀ failed, g.count < maxCheckpoints →
      g.willFail g.count = failed → Heap.grants growth = true →
      Roomy env ((call.runWith env nested bound).leaves w) →
      ∃ p w', call.runWith env nested bound w = .ok p w' ∧ p.isNone = failed ∧
        Linked env base (forced + failed.toNat) w' (vars' p) (if failed then refused else granted) ∧
        w'.frame = some (g.pass [failed]) ∧ Aside w w'

variable (bound) (creates : Creates nested) (faulty : env.kind w.fixture.kind = Kind.faulty)
  (linked : Linked env base forced w vars s)
include creates faulty linked

theorem allocate_met (active : w.frame = some g) (x n : Nat) :
    (s.allocate x n).Met env nested bound base forced w g n (Memory.allocate n)
      (Function.update vars x) := by
  obtain ⟨f, backed, rfl, mirrors⟩ := linked
  by_cases nothing : n = 0
  · subst nothing
    rw [Store.allocate, if_pos rfl]
    obtain ⟨w', run, leaves⟩ := runWith_allocate_zero bound creates faulty backed
    exact ⟨rfl, w', run, ⟨f, leaves.backed, rfl, mirrors.forget x⟩, leaves.frame.trans active,
      leaves.aside⟩
  · rw [Store.allocate, if_neg nothing]
    refine ⟨nothing, fun failed inside next granted roomy => ?_⟩
    have passed := checkpoint_of_willFail inside next
    rw [← active] at passed
    cases failed with
    | true =>
      have step : FaultyHeap.grab n (f, w.frame) = _ := FaultyHeap.guard_of_fails passed
      obtain ⟨w', run, leaves⟩ := runWith_allocate bound creates faulty backed nothing step
      exact ⟨none, w', run, rfl, ⟨_, leaves.backed, rfl, mirrors.forget x⟩, leaves.frame,
        leaves.aside⟩
    | false =>
      obtain ⟨a, heap, records, served⟩ := Heap.grab_answers mirrors.sound n
      have step : FaultyHeap.grab n (f, w.frame) = _ := FaultyHeap.guard_of_passes passed served
      obtain ⟨w', run, leaves⟩ := runWith_allocate bound creates faulty backed nothing step
      rw [Run.leaves_of_ok run] at roomy
      have few := roomy (by rw [leaves.aside.fixture]; exact faulty) _ leaves.backed
      obtain ⟨p, heap', grabbed, fresh, puts⟩ :=
        Heap.grab_puts mirrors.sound granted (by rw [served]; exact few)
      cases served.symm.trans grabbed
      refine ⟨some p, w', run, rfl, ⟨_, leaves.backed, rfl, ?_⟩, leaves.frame, leaves.aside⟩
      exact mirrors.puts (fun y _ => mirrors.ne_of_fresh fresh y) puts (by simp [fresh])

theorem resize_met (active : w.frame = some g) (x n : Nat) :
    (s.resize x n).Met env nested bound base forced w g n (Memory.resize (vars x) n)
      fun q => Function.update vars x (if n = 0 then none else q.or (vars x)) := by
  have linked' := linked
  obtain ⟨f, backed, rfl, mirrors⟩ := linked
  rcases mirrors.cases x with ⟨null, none_held⟩ | ⟨p, bytes, here, held, found⟩
  · -- without a block this is an allocation
    have met := allocate_met bound creates faulty linked' active x n
    rw [Store.resize, none_held, null]
    by_cases nothing : n = 0
    · subst nothing
      exact met
    · simp only [if_neg nothing, Option.or_none]
      exact met
  have others : ∀ y, y ≠ x → vars y ≠ some p := fun y other hy =>
    other (mirrors.distinct y x p hy here)
  rw [Store.resize, held, here]
  by_cases nothing : n = 0
  · subst nothing
    obtain ⟨heap, released, puts⟩ := Heap.release_puts mirrors.sound found
    have step : FaultyHeap.onHeap _ (f, w.frame) = _ := FaultyHeap.onHeap_of_ok released
    obtain ⟨w', run, leaves⟩ := runWith_resize_zero bound creates faulty backed step
    refine ⟨rfl, w', run, ⟨_, leaves.backed, rfl, ?_⟩, leaves.frame.trans active, leaves.aside⟩
    rw [Store.release, held]
    exact mirrors.puts others puts (by simp [found])
  · simp only [if_neg nothing]
    refine ⟨nothing, fun failed inside next granted _ => ?_⟩
    have passed := checkpoint_of_willFail inside next
    rw [← active] at passed
    cases failed with
    | true =>
      have step : FaultyHeap.resize p n (f, w.frame) = _ := FaultyHeap.guard_of_fails passed
      obtain ⟨w', run, leaves⟩ := runWith_resize bound creates faulty backed nothing step
      refine ⟨none, w', run, rfl, ⟨_, leaves.backed, rfl, ?_⟩, leaves.frame, leaves.aside⟩
      have same : Function.update vars x (some p) = vars := by rw [← here, Function.update_eq_self]
      simpa [same] using mirrors
    | false =>
      obtain ⟨heap, resized, puts⟩ := Heap.resize_puts mirrors.sound found granted
      have step : FaultyHeap.resize p n (f, w.frame) = _ :=
        FaultyHeap.guard_of_passes passed resized
      obtain ⟨w', run, leaves⟩ := runWith_resize bound creates faulty backed nothing step
      have same : Function.update vars x (some p) = vars := by rw [← here, Function.update_eq_self]
      refine ⟨some p, w', run, rfl, ⟨_, leaves.backed, rfl, ?_⟩, leaves.frame, leaves.aside⟩
      simpa [same] using mirrors.puts_here here puts

theorem free_linked (x : Nat) :
    ∃ w', (Memory.free (vars x)).runWith env nested bound w = .ok () w' ∧
      Linked env base forced w' (Function.update vars x none) (s.release x) ∧
      w'.frame = w.frame ∧ Aside w w' := by
  obtain ⟨f, backed, rfl, mirrors⟩ := linked
  rcases mirrors.cases x with ⟨null, none_held⟩ | ⟨p, bytes, here, held, found⟩
  · have same : Function.update vars x none = vars := by rw [← null, Function.update_eq_self]
    rw [Store.release, none_held, null, same]
    exact ⟨w, rfl, ⟨f, backed, rfl, mirrors⟩, rfl, .refl w⟩
  · obtain ⟨heap, released, puts⟩ := Heap.release_puts mirrors.sound found
    have step : FaultyHeap.onHeap _ (f, w.frame) = _ := FaultyHeap.onHeap_of_ok released
    obtain ⟨w', run, leaves⟩ := runWith_free bound creates faulty backed step
    rw [Store.release, held, here]
    refine ⟨w', run, ⟨_, leaves.backed, rfl, ?_⟩, leaves.frame, leaves.aside⟩
    exact mirrors.puts (fun y other hy => other (mirrors.distinct y x p hy here)) puts
      (by simp [found])

/-- The variables stay when the bytes of a block change. -/
theorem edit_linked {p : Ptr} (here : vars x = some p) (change : ByteArray → ByteArray) :
    ∃ w', (Memory.edit p change).runWith env nested bound w = .ok () w' ∧
      Linked env base forced w' vars (s.edit x change) ∧ w'.frame = w.frame ∧ Aside w w' := by
  obtain ⟨f, backed, rfl, mirrors⟩ := linked
  obtain ⟨bytes, held, found⟩ := mirrors.of_some here
  obtain ⟨heap, edited, puts⟩ := Heap.editPayload_puts mirrors.sound found change
  obtain ⟨w', run, leaves⟩ :=
    runWith_edit bound creates faulty backed (Heap.payload_of_bytes? found) edited
  rw [Store.edit, held]
  exact ⟨w', run, ⟨_, leaves.backed, rfl, mirrors.puts_here here puts⟩, leaves.frame, leaves.aside⟩

theorem read_linked {p : Ptr} (here : vars x = some p) :
    ∃ bytes w', (Memory.bytes p).runWith env nested bound w = .ok bytes w' ∧
      s.blocks x = some bytes ∧ Linked env base forced w' vars s ∧ w'.frame = w.frame ∧
      Aside w w' := by
  obtain ⟨f, backed, rfl, mirrors⟩ := linked
  obtain ⟨bytes, held, found⟩ := mirrors.of_some here
  obtain ⟨heap, edited, puts⟩ := Heap.editPayload_puts mirrors.sound found id
  obtain ⟨w', run, leaves⟩ :=
    runWith_bytes bound creates faulty backed (Heap.payload_of_bytes? found) edited
  rw [id, Heap.fitted_size_self] at puts
  have same : s.put x (some bytes) = s := by rw [Store.put, ← held, Function.update_eq_self]
  have mirrors' := mirrors.puts_here here puts
  rw [same] at mirrors'
  exact ⟨bytes, w', run, held, ⟨_, leaves.backed, rfl, mirrors'⟩, leaves.frame, leaves.aside⟩

end Calls

section Runs

variable {κ η : Type} {env : Environment κ η Trace} {nested : Nested κ η Trace} {bound : Nat}
  {base : Int}
  {forced : Nat} {w w₁ w' : World κ η Trace} {vars : Nat → Option Ptr} {s : Store} {g : Frame}
  {path : List Bool} {n : Nat} {outcomes outcomes₁ : (Store → Prop) → Prop}

/-- A run from `w` under the frame `g` has come to its end along a path.  `outcomes` says which
properties the store has then. -/
structure Ended (env : Environment κ η Trace) (base : Int) (forced : Nat) (w : World κ η Trace)
    (g : Frame) (path : List Bool) (outcomes : (Store → Prop) → Prop) (w' : World κ η Trace) :
    Prop where
  frame : w'.frame = some (g.pass path)
  client : w'.client = ⟨w.client.finished ++ [w.client.current ++ path], []⟩
  fixture : w'.fixture = w.fixture
  store : ∃ vars s, Linked env base (forced + path.count true) w' vars s ∧
    ∀ ended, outcomes ended → ended s

theorem Ended.of_aside (h : Ended env base forced w₁ g path outcomes w') (aside : Aside w w₁) :
    Ended env base forced w g path outcomes w' :=
  ⟨h.frame, by rw [h.client, aside.client], h.fixture.trans aside.fixture, h.store⟩

theorem Ended.cons {failed : Bool}
    (h : Ended env base (forced + failed.toNat) { w₁ with client := w₁.client.pass failed }
      (g.pass [failed]) path outcomes₁ w')
    (aside : Aside w w₁) (fewer : ∀ ended, outcomes ended → outcomes₁ ended) :
    Ended env base forced w g (failed :: path) outcomes w' := by
  obtain ⟨vars, s, linked, ended⟩ := h.store
  refine ⟨?_, ?_, h.fixture.trans aside.fixture, vars, s, ?_, fun P all => ended P (fewer P all)⟩
  · rw [h.frame, Frame.pass_pass]
    rfl
  · rw [h.client]
    simp [Trace.pass, aside.client]
  · have count : forced + failed.toNat + path.count true = forced + (failed :: path).count true := by
      cases failed <;> simp
      omega
    rwa [count] at linked

/-- A run of a test from `w` under the frame `g` that is to go along a path. -/
structure MemoryTest.Begins (env : Environment κ η Trace) (base : Int) (forced : Nat)
    (t : MemoryTest) (w : World κ η Trace) (vars : Nat → Option Ptr) (s : Store) (g : Frame)
    (path : List Bool) (result : Bool) : Prop where
  faulty : env.kind w.fixture.kind = Kind.faulty
  linked : Linked env base forced w vars s
  small : t.All (Heap.grants · = true) (fun _ => True) s
  found : (t.tree s).answer path = some result
  active : w.frame = some g
  continues : g.Continues path
  room : g.count + path.length ≤ maxCheckpoints

variable [DecidableEq η] {t next : MemoryTest} {result : Bool}

/-- Every run of a test comes to its end along the path that its frame begins with, if every slot of
the heap has a number then. -/
def MemoryTest.Follows (env : Environment κ η Trace) (nested : Nested κ η Trace) (bound : Nat)
    (base : Int) (t : MemoryTest) : Prop :=
  ∀ ⦃w vars s g path forced result⦄, t.Begins env base forced w vars s g path result →
    Roomy env (((t.program vars).runWith env nested bound).leaves w) → ∃ w',
      (t.program vars).runWith env nested bound w = .ok result w' ∧
        Ended env base forced w g path (fun ended => t.All (fun _ => True) ended s) w'

/-! ### Calls that ask for nothing -/

omit [DecidableEq η] in
/-- After such a call the test goes on along the same path. -/
theorem MemoryTest.Begins.quiet {vars' : Nat → Option Ptr} {s' : Store}
    (begins : t.Begins env base forced w vars s g path result) (aside : Aside w w₁)
    (frame : w₁.frame = w.frame) (linked : Linked env base forced w₁ vars' s')
    (small : next.All (Heap.grants · = true) (fun _ => True) s')
    (found : (next.tree s').answer path = some result) :
    next.Begins env base forced w₁ vars' s' g path result where
  faulty := by
    rw [aside.fixture]
    exact begins.faulty
  linked := linked
  small := small
  found := found
  active := frame.trans begins.active
  continues := begins.continues
  room := begins.room

theorem MemoryTest.Follows.after {β : Type} {call : Client κ η Trace β} {b : β}
    {rest : β → Client κ η Trace Bool} {vars' : Nat → Option Ptr} {s' : Store}
    (follows : next.Follows env nested bound base)
    (run : call.runWith env nested bound w = .ok b w₁) (aside : Aside w w₁)
    (same : rest b = next.program vars')
    (begins : next.Begins env base forced w₁ vars' s' g path result)
    (roomy : Roomy env (((call >>= rest).runWith env nested bound).leaves w)) :
    ∃ w', (call >>= rest).runWith env nested bound w = .ok result w' ∧
      Ended env base forced w g path (fun ended => next.All (fun _ => True) ended s') w' := by
  rw [Client.runWith_bind, Run.leaves_bind_of_ok run, same] at roomy
  obtain ⟨w', ended, outcome⟩ := follows begins roomy
  refine ⟨w', ?_, outcome.of_aside aside⟩
  rw [Client.runWith_bind, Run.bind_of_ok run, same]
  exact ended

/-! ### Calls that may ask for memory -/

/-- A test takes no slots out of the table of the heap. -/
theorem MemoryTest.reflects (creates : Creates nested) (t : MemoryTest)
    (vars : Nat → Option Ptr) :
    ((t.program vars).runWith env nested bound).Respects (.reflecting (Roomy env)) := by
  have noted (change : Trace → Trace) :
      ((Client.modify change).runWith env nested bound).Respects (.reflecting (Roomy env)) :=
    fun _ roomy => roomy.congr rfl rfl rfl
  have note (n : Nat) (p : Option Ptr) :
      ((MemoryTest.note n p).runWith env nested bound).Respects (.reflecting (Roomy env)) := by
    rw [MemoryTest.note]
    split
    · exact Run.respects_pure ()
    · exact noted _
  induction t generalizing vars with
  | answer result =>
    rw [program, Client.runWith_bind]
    exact Run.respects_bind (noted _) fun _ => Run.respects_pure result
  | allocate x n next ih =>
    rw [program, Client.runWith_bind]
    refine Run.respects_bind (reflects_allocate creates n) fun p => ?_
    rw [Client.runWith_bind]
    exact Run.respects_bind (note n p) fun _ => ih _ _
  | resize x n next ih =>
    rw [program, Client.runWith_bind]
    refine Run.respects_bind (reflects_resize creates (vars x) n) fun q => ?_
    rw [Client.runWith_bind]
    exact Run.respects_bind (note n q) fun _ => ih _ _
  | free x next ih =>
    rw [program, Client.runWith_bind]
    exact Run.respects_bind (reflects_free creates (vars x)) fun _ => ih _
  | read x next ih =>
    rw [program]
    split
    · exact ih _ _
    · rw [Client.runWith_bind]
      exact Run.respects_bind (reflects_bytes creates _) fun _ => ih _ _
  | edit x change next ih =>
    rw [program]
    split
    · exact ih _
    · rw [Client.runWith_bind]
      exact Run.respects_bind (reflects_edit creates _ change) fun _ => ih _

theorem runWith_call {call : Client κ η Trace (Option Ptr)} {vars' : Option Ptr → Nat → Option Ptr}
    {demand : Demand} {next : Bool → MemoryTest} (creates : Creates nested)
    (begins : t.Begins env base forced w vars s g path result)
    (met : demand.Met env nested bound base forced w g n call vars')
    (small : demand.All (Heap.grants · = true) fun granted =>
      (next granted).All (Heap.grants · = true) fun _ => True)
    (found : (demand.tree fun granted => (next granted).tree).answer path = some result)
    (follows : ∀ granted, (next granted).Follows env nested bound base)
    (roomy : Roomy env (((do
      let p ← call
      MemoryTest.note n p
      (next p.isSome).program (vars' p) : Client κ η Trace Bool).runWith env nested
        bound).leaves w)) :
    ∃ w', (do
        let p ← call
        MemoryTest.note n p
        (next p.isSome).program (vars' p) : Client κ η Trace Bool).runWith env nested bound w =
        .ok result w' ∧
      Ended env base forced w g path (fun ended => demand.All (fun _ => True) fun granted =>
        (next granted).All (fun _ => True) ended) w' := by
  cases demand with
  | settled after =>
    obtain ⟨rfl, w₁, run, linked, frame, aside⟩ := met
    have kept := frame.trans begins.active.symm
    exact (follows false).after run aside rfl (begins.quiet aside kept linked small found) roomy
  | asks growth refused granted =>
    obtain ⟨some_bytes, answers⟩ := met
    obtain ⟨grants, small_refused, small_granted⟩ := small
    have room := begins.room
    have continues := begins.continues
    have called : Roomy env ((call.runWith env nested bound).leaves w) := by
      rw [Client.runWith_bind] at roomy
      refine Run.Respects.before (fun p => ?_) roomy
      rw [Client.runWith_bind, MemoryTest.note, if_neg some_bytes]
      exact Run.respects_bind (fun _ roomy => roomy.congr rfl rfl rfl) fun _ =>
        MemoryTest.reflects creates _ _
    cases path with
    | nil => cases found
    | cons failed path =>
      simp only [List.length_cons] at room
      obtain ⟨p, w₁, run, rfl, linked, frame, aside⟩ :=
        answers failed (by omega) (continues 0 failed rfl) grants called
      have room' : (g.pass [p.isNone]).count + path.length ≤ maxCheckpoints := by
        simp only [Frame.pass, List.length_singleton]
        omega
      have noted : (MemoryTest.note n p : Client κ η Trace Unit).runWith env nested bound w₁ =
          .ok () { w₁ with client := w₁.client.pass p.isNone } := by
        rw [MemoryTest.note, if_neg some_bytes]
        rfl
      have faulty : env.kind w₁.fixture.kind = Kind.faulty := by
        rw [aside.fixture]
        exact begins.faulty
      rw [Client.runWith_bind, Run.leaves_bind_of_ok run, Client.runWith_bind,
        Run.leaves_bind_of_ok noted] at roomy
      rw [Client.runWith_bind, Run.bind_of_ok run, Client.runWith_bind, Run.bind_of_ok noted]
      cases p with
      | none =>
        obtain ⟨w', rest, ended⟩ := follows false
          (w := { w₁ with client := w₁.client.pass true }) ⟨faulty, linked.congr rfl rfl rfl,
            small_refused, found, frame, continues.tail, room'⟩ roomy
        exact ⟨w', rest, ended.cons aside fun P all => all.2.1⟩
      | some p =>
        obtain ⟨w', rest, ended⟩ := follows true
          (w := { w₁ with client := w₁.client.pass false }) ⟨faulty, linked.congr rfl rfl rfl,
            small_granted, found, frame, continues.tail, room'⟩ roomy
        exact ⟨w', rest, ended.cons aside fun P all => all.2.2⟩

/-! ### All tests -/

theorem MemoryTest.follows_answer (result : Bool) :
    (answer result).Follows env nested bound base := by
  intro w vars s g path forced result' begins _
  cases path with
  | cons failed path => cases begins.found
  | nil =>
    cases begins.found
    refine ⟨{ w with client := w.client.finish }, ?_, ⟨by simpa using begins.active,
      by simp [Trace.finish], rfl, vars, s, begins.linked.congr rfl rfl rfl, fun P ends => ends⟩⟩
    rw [program, Client.runWith_bind, Run.bind_of_ok (runWith_modify env nested bound _)]
    rfl

theorem MemoryTest.follows_read (creates : Creates nested) {x : Nat}
    {next : Option ByteArray → MemoryTest}
    (follows : ∀ bytes, (next bytes).Follows env nested bound base) :
    (read x next).Follows env nested bound base := by
  intro w vars s g path forced result begins roomy
  rw [program] at roomy ⊢
  cases here : vars x with
  | none =>
    rw [here] at roomy
    have held : s.blocks x = none := begins.linked.blocks_of_none here
    obtain ⟨w', rest, ended⟩ := follows none (begins.quiet (.refl w) rfl begins.linked
      (held ▸ begins.small) (held ▸ begins.found)) roomy
    exact ⟨w', rest, by simpa only [All, held] using ended⟩
  | some p =>
    rw [here] at roomy
    obtain ⟨bytes, w₁, run, held, linked, frame, aside⟩ :=
      read_linked bound creates begins.faulty begins.linked here
    obtain ⟨w', rest, ended⟩ := (follows (some bytes)).after run aside rfl (begins.quiet aside frame
      linked (held ▸ begins.small) (held ▸ begins.found)) roomy
    exact ⟨w', rest, by simpa only [All, held] using ended⟩

theorem MemoryTest.follows_edit (creates : Creates nested) {x : Nat}
    {change : ByteArray → ByteArray} (follows : next.Follows env nested bound base) :
    (edit x change next).Follows env nested bound base := by
  intro w vars s g path forced result begins roomy
  rw [program] at roomy ⊢
  cases here : vars x with
  | none =>
    rw [here] at roomy
    have held : s.edit x change = s := by
      rw [Store.edit, begins.linked.blocks_of_none here]
    exact follows (begins.quiet (.refl w) rfl (by rw [held]; exact begins.linked) begins.small
      begins.found) roomy
  | some p =>
    rw [here] at roomy
    obtain ⟨w₁, run, linked, frame, aside⟩ :=
      edit_linked bound creates begins.faulty begins.linked here change
    exact follows.after run aside rfl (begins.quiet aside frame linked begins.small begins.found)
      roomy

/-- Runs of a test take the path of its decision tree that their frame begins with. -/
theorem MemoryTest.follows (creates : Creates nested) (t : MemoryTest) :
    t.Follows env nested bound base := by
  induction t with
  | answer result => exact follows_answer result
  | allocate x n next ih =>
    intro w vars s g path forced result begins roomy
    exact runWith_call creates begins (allocate_met bound creates begins.faulty begins.linked
      begins.active x n) begins.small begins.found ih roomy
  | resize x n next ih =>
    intro w vars s g path forced result begins roomy
    exact runWith_call creates begins (resize_met bound creates begins.faulty begins.linked
      begins.active x n) begins.small begins.found ih roomy
  | free x next ih =>
    intro w vars s g path forced result begins roomy
    obtain ⟨w₁, run, linked, frame, aside⟩ :=
      free_linked bound creates begins.faulty begins.linked x
    exact ih.after run aside rfl (begins.quiet aside frame linked begins.small begins.found) roomy
  | read x next ih => exact follows_read creates ih
  | edit x change next ih => exact follows_edit creates ih

end Runs

end MemoryTrial
