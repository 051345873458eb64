import Mathlib.Logic.Function.Basic
import MemoryTrial.Proofs.Plan.Dialogue

/-! The requests of a plan.  What a plan asks for while nothing is refused is a list (`demands`), and a
run that stops at its first refusal meets that list up to some item (`Meets`).  However it ends, the
table owns what the plan acquired and did not give back (`Owns`), so that the last releases leave the
heap with the blocks that it had before (`tryRun_meets`). -/

namespace MemoryTrial

namespace PlanStep

def slot : PlanStep → Nat
  | grab slot _ | resize slot _ | release slot => slot

/-- The system grants whatever the step asks for. -/
def Small : PlanStep → Prop
  | grab _ bytes | resize _ bytes => Heap.grants bytes = true
  | release _ => True

/-- What the step asks for, where its slot holds a block or not. -/
def demand (occupied : Bool) : PlanStep → Option (RequestName × Nat)
  | grab _ bytes => some (.grab, bytes)
  | resize _ bytes => if occupied then some (.resize, bytes) else none
  | release _ => none

/-- Whether the slot holds a block after the step, if nothing is refused. -/
def fills (occupied : Bool) : PlanStep → Bool
  | grab _ _ => true
  | resize _ _ => occupied
  | release _ => false

end PlanStep

namespace Plan

/-- The requests of a plan while nothing is refused.  Which slots hold a block at the start is given
by `occupied`. -/
def demandsFrom (occupied : Nat → Bool) : Plan → List (RequestName × Nat)
  | [] => []
  | s :: rest => (s.demand (occupied s.slot)).toList ++
      demandsFrom (Function.update occupied s.slot (s.fills (occupied s.slot))) rest

def demands (plan : Plan) : List (RequestName × Nat) := demandsFrom (fun _ => false) plan

/-- A run passes a checkpoint for each demand, until one fails.  Then the demand is refused, and the
run asks for nothing more. -/
inductive Meets : List (RequestName × Nat) → List Bool → Option (RequestName × Nat) → Prop
  | done : Meets [] [] none
  | fails (d : RequestName × Nat) (rest : List (RequestName × Nat)) :
    Meets (d :: rest) [true] (some d)
  | passes {rest : List (RequestName × Nat)} {path : List Bool} {refusal : Option (RequestName × Nat)}
    (d : RequestName × Nat) : Meets rest path refusal → Meets (d :: rest) (false :: path) refusal

theorem meets_all (ds : List (RequestName × Nat)) :
    Meets ds (List.replicate ds.length false) none := by
  induction ds with
  | nil => exact .done
  | cons d ds ih => exact ih.passes d

theorem meets_at (ds : List (RequestName × Nat)) (i : Nat) (inside : i < ds.length) :
    Meets ds (List.replicate i false ++ [true]) (some ds[i]) := by
  induction ds generalizing i with
  | nil => cases inside
  | cons d ds ih =>
    cases i with
    | zero => exact .fails d ds
    | succ i => exact (ih i (Nat.lt_of_succ_lt_succ inside)).passes d

/-! ### The blocks of a table -/

section Table

variable {table : Table} {slot : Nat} {held : Option Ptr}

/-- The blocks of the other slots. -/
def Table.others (table : Table) (slot : Nat) : List Ptr :=
  (table.toList.take slot ++ table.toList.drop (slot + 1)).filterMap id

def occupied (table : Table) (slot : Nat) : Bool := table[slot]?.join.isSome

theorem blocks_set (inside : slot < table.size) (held : Option Ptr) :
    (Table.blocks (table.setIfInBounds slot held)).Perm (held.toList ++ table.others slot) := by
  have set : (table.setIfInBounds slot held).toList =
      table.toList.take slot ++ held :: table.toList.drop (slot + 1) := by
    rw [Array.toList_setIfInBounds, List.set_eq_take_append_cons_drop,
      if_pos (by simpa using inside)]
  have cons : (held :: table.toList.drop (slot + 1)).filterMap id =
      held.toList ++ (table.toList.drop (slot + 1)).filterMap id := by
    cases held <;> rfl
  rw [Table.blocks, Array.toList_filterMap, set, Table.others, List.filterMap_append,
    List.filterMap_append, cons]
  exact List.perm_append_comm_assoc ..

theorem set_self (found : table[slot]? = some held) : table.setIfInBounds slot held = table := by
  obtain ⟨inside, rfl⟩ := Array.getElem?_eq_some_iff.mp found
  rw [← Array.toList_inj, Array.toList_setIfInBounds]
  exact List.set_getElem_self _

theorem blocks_perm (found : table[slot]? = some held) :
    table.blocks.Perm (held.toList ++ table.others slot) := by
  obtain ⟨inside, -⟩ := Array.getElem?_eq_some_iff.mp found
  have perm := blocks_set inside held
  rwa [set_self found] at perm

theorem occupied_of_found (found : table[slot]? = some held) :
    occupied table slot = held.isSome := by
  rw [occupied, found]
  rfl

theorem occupied_set (inside : slot < table.size) (held : Option Ptr) :
    occupied (table.setIfInBounds slot held) =
      Function.update (occupied table) slot held.isSome := by
  funext i
  rw [Function.update_apply, occupied, Array.getElem?_setIfInBounds]
  by_cases same : i = slot
  · subst same
    rw [if_pos rfl, if_pos inside, if_pos rfl]
    rfl
  · rw [if_neg (Ne.symm same), if_neg same, occupied]

end Table

/-! ### The blocks of a plan -/

/-- The heap `h` has the given blocks besides those of `base`. -/
structure Owns (base : Heap) (blocks : List Ptr) (h : Heap) : Prop where
  sound : h.Sound
  distinct : blocks.Nodup
  held : ∀ p ∈ blocks, ∃ bytes, h.bytes? p = some bytes
  fresh : ∀ p ∈ blocks, base.bytes? p = none
  others : ∀ p, p ∉ blocks → h.bytes? p = base.bytes? p
  live : h.live = base.live + blocks.length

namespace Owns

variable {base h : Heap} {blocks rest : List Ptr} {p : Ptr} {n : Nat}

theorem start (sound : base.Sound) : Owns base [] base :=
  ⟨sound, List.nodup_nil, nofun, nofun, fun _ _ => rfl, rfl⟩

theorem perm (owns : Owns base blocks h) (same : blocks.Perm rest) : Owns base rest h where
  sound := owns.sound
  distinct := same.nodup_iff.mp owns.distinct
  held p mem := owns.held p (same.mem_iff.mpr mem)
  fresh p mem := owns.fresh p (same.mem_iff.mpr mem)
  others p notMem := owns.others p fun mem => notMem (same.mem_iff.mp mem)
  live := by rw [← same.length_eq, owns.live]

theorem mem_of_ne {held : Option ByteArray} {q : Ptr}
    (mem : q ∈ (held.map fun _ => p).toList ++ rest) (other : q ≠ p) : q ∈ rest := by
  cases held with
  | none => exact mem
  | some bytes => exact (List.mem_cons.mp mem).resolve_left other

/-- One block comes, changes or goes, and `rest` stays as it is. -/
theorem puts {new : Option ByteArray}
    (owns : Owns base (((h.bytes? p).map fun _ => p).toList ++ rest) h) (absent : p ∉ rest)
    (empty : base.bytes? p = none) (puts : Heap.Puts h p new h') :
    Owns base ((new.map fun _ => p).toList ++ rest) h' where
  sound := puts.sound
  distinct := by
    have distinct := (List.nodup_append.mp owns.distinct).2.1
    cases new with
    | none => exact distinct
    | some bytes => exact List.nodup_cons.mpr ⟨absent, distinct⟩
  held q mem := by
    rw [puts.bytes q]
    by_cases same : q = p
    · cases new with
      | none => exact absurd (same ▸ mem) absent
      | some bytes => exact ⟨bytes, if_pos same⟩
    · rw [if_neg same]
      exact owns.held q (List.mem_append_right _ (mem_of_ne mem same))
  fresh q mem := by
    by_cases same : q = p
    · rw [same, empty]
    · exact owns.fresh q (List.mem_append_right _ (mem_of_ne mem same))
  others q out := by
    rw [puts.bytes q]
    by_cases same : q = p
    · cases new with
      | none => rw [if_pos same, same, empty]
      | some bytes => exact absurd (List.mem_cons.mpr (.inl same)) out
    · rw [if_neg same]
      exact owns.others q fun mem => out (List.mem_append_right _ (mem_of_ne mem same))
  live := by
    have counted := puts.live
    have before := owns.live
    simp only [List.length_append, Option.length_toList, Option.isSome_map] at counted before ⊢
    omega

theorem release (owns : Owns base (p :: rest) h) :
    ∃ h', Heap.release p h = ⟨.ok (), h', []⟩ ∧ Owns base rest h' := by
  obtain ⟨bytes, here⟩ := owns.held p List.mem_cons_self
  obtain ⟨h', released, dropped⟩ := Heap.release_puts owns.sound here
  have absent := (List.nodup_cons.mp owns.distinct).1
  have empty := owns.fresh p List.mem_cons_self
  exact ⟨h', released, puts (by rw [here]; exact owns) absent empty dropped⟩

theorem grab (owns : Owns base rest h) (small : Heap.grants n = true)
    (few : (Heap.grab n h).state.Indexed) :
    ∃ p h', Heap.grab n h = ⟨.ok (some p), h', []⟩ ∧ Owns base (p :: rest) h' := by
  obtain ⟨p, h', grabbed, free, inserted⟩ := Heap.grab_puts owns.sound small few
  have absent : p ∉ rest := by
    intro mem
    obtain ⟨bytes, here⟩ := owns.held p mem
    rw [free] at here
    cases here
  have empty := (owns.others p absent).symm.trans free
  exact ⟨p, h', grabbed, puts (by rw [free]; exact owns) absent empty inserted⟩

theorem resize (owns : Owns base (p :: rest) h) (small : Heap.grants n = true) :
    ∃ h', Heap.resize p n h = ⟨.ok (some p), h', []⟩ ∧ Owns base (p :: rest) h' := by
  obtain ⟨bytes, here⟩ := owns.held p List.mem_cons_self
  have grows : Heap.grants (n - bytes.size) = true := by
    simp only [Heap.grants, decide_eq_true_eq] at small ⊢
    omega
  obtain ⟨h', resized, changed⟩ := Heap.resize_puts owns.sound here grows
  have absent := (List.nodup_cons.mp owns.distinct).1
  have empty := owns.fresh p List.mem_cons_self
  exact ⟨h', resized, puts (by rw [here]; exact owns) absent empty changed⟩

end Owns

/-! ### The steps of a run -/

section Steps

variable {base : Heap} {f : FaultyHeap} {g : Frame} {table : Table} {s : PlanStep}
  {rest : List Ptr} (active : Option Frame)

theorem perform_of_ok {α : Type} {r : Request α} {a : α} {f' : FaultyHeap}
    {active active' : Option Frame} {records : List Record}
    (step : FaultyHeap.perform r (f, active) = ⟨.ok a, (f', active'), records⟩) :
    Allocator.perform r (.faulty f, active) = ⟨.ok a, (.faulty f', active'), records⟩ := by
  rw [Allocator.perform]
  simp only [step]

theorem state_of_passed {n : Nat}
    (passes : checkpoint (some g) = ⟨.ok false, some (g.pass [false]), []⟩) :
    (Allocator.perform (.grab n) (.faulty f, some g)).state.1 =
      .faulty { f with heap := (Heap.grab n f.heap).state } := by
  have step : FaultyHeap.perform (.grab n) (f, some g) = _ := FaultyHeap.guard_of_admitted passes
  rw [Allocator.perform]
  simp only [step, FaultyHeap.through]

theorem release_owned {p : Ptr} (owns : Owns base (p :: rest) f.heap) :
    ∃ heap, Allocator.perform (.release p) (.faulty f, active) =
      ⟨.ok (), (.faulty { f with heap }, active), []⟩ ∧ Owns base rest heap := by
  obtain ⟨heap, released, owns⟩ := owns.release
  exact ⟨heap, perform_of_ok (FaultyHeap.onHeap_of_ok released), owns⟩

theorem releaseHeld_owned {held : Option Ptr} (owns : Owns base (held.toList ++ rest) f.heap) :
    ∃ heap, releaseHeld held (.faulty f, active) =
      ⟨.ok (), (.faulty { f with heap }, active), []⟩ ∧ Owns base rest heap := by
  cases held with
  | none => exact ⟨f.heap, rfl, owns⟩
  | some p => exact release_owned active owns

theorem releaseAll_owned {blocks : List Ptr} (owns : Owns base blocks f.heap) :
    ∃ heap, releaseAll blocks (.faulty f, active) =
      ⟨.ok (), (.faulty { f with heap }, active), []⟩ ∧ Owns base [] heap := by
  induction blocks generalizing f with
  | nil => exact ⟨f.heap, rfl, owns⟩
  | cons p blocks ih =>
    obtain ⟨heap, released, owns⟩ := release_owned active owns
    obtain ⟨heap', releasedAll, owns⟩ := ih (f := { f with heap }) owns
    refine ⟨heap', ?_, owns⟩
    rw [releaseAll, Op.bind_of_ok released, Result.after_nil]
    exact releasedAll

theorem lookUp_of_found {held : Option Ptr} {slot : Nat} (found : table[slot]? = some held)
    (state : Ground) : lookUp table slot state = ⟨.ok held, state, []⟩ := by
  rw [lookUp, found]
  rfl

/-- A step that goes well leaves the table with the blocks that it should hold. -/
structure Done (base : Heap) (table : Table) (s : PlanStep) (table' : Table) (heap : Heap) :
    Prop where
  owns : Owns base table'.blocks heap
  size : table'.size = table.size
  occupied : occupied table' =
    Function.update (occupied table) s.slot (s.fills (occupied table s.slot))

theorem done_set {held : Option Ptr} {heap : Heap} (inside : s.slot < table.size)
    (owns : Owns base (held.toList ++ table.others s.slot) heap)
    (fills : s.fills (occupied table s.slot) = held.isSome) :
    Done base table s (table.setIfInBounds s.slot held) heap where
  owns := owns.perm (blocks_set inside held).symm
  size := Array.size_setIfInBounds
  occupied := by rw [occupied_set inside held, fills]

section Slot

variable {slot n : Nat} {held : Option Ptr}

theorem step_resize_empty (found : table[slot]? = some none) (state : Ground) :
    step table (.resize slot n) state = ⟨.ok (table, false), state, []⟩ := by
  rw [step, Op.bind_of_ok (lookUp_of_found found _)]
  rfl

theorem step_resize {p : Ptr} (found : table[slot]? = some (some p)) (state : Ground) :
    step table (.resize slot n) state =
      (do
        match ← Allocator.perform (.resize p n) with
        | some p => return (table.setIfInBounds slot (some p), false)
        | none => return (table, true) : Op Ground (Table × Bool)) state := by
  rw [step, Op.bind_of_ok (lookUp_of_found found _)]
  exact Result.after_nil _

variable (owns : Owns base table.blocks f.heap) (found : table[slot]? = some held)
include owns found

theorem step_release :
    ∃ heap, step table (.release slot) (.faulty f, active) =
      ⟨.ok (table.setIfInBounds slot none, false), (.faulty { f with heap }, active), []⟩ ∧
      Owns base (table.others slot) heap := by
  obtain ⟨heap, released, owns⟩ :=
    releaseHeld_owned active (owns.perm (blocks_perm found))
  refine ⟨heap, ?_, owns⟩
  rw [step, Op.bind_of_ok (lookUp_of_found found _), Result.after_nil, Op.bind_of_ok released]
  rfl

/-- Before a plan allocates into a slot it releases what the slot holds. -/
theorem step_grab :
    ∃ heap, step table (.grab slot n) (.faulty f, active) =
      (do
        let p ← Allocator.perform (.grab n)
        return (table.setIfInBounds slot p, p.isNone) : Op Ground (Table × Bool))
        (.faulty { f with heap }, active) ∧ Owns base (table.others slot) heap := by
  obtain ⟨heap, released, owns⟩ :=
    releaseHeld_owned active (owns.perm (blocks_perm found))
  refine ⟨heap, ?_, owns⟩
  rw [step, Op.bind_of_ok (lookUp_of_found found _), Result.after_nil, Op.bind_of_ok released,
    Result.after_nil]

end Slot

variable (owns : Owns base table.blocks f.heap) (inside : s.slot < table.size)
include owns inside

theorem step_of_no_demand (plain : s.demand (occupied table s.slot) = none) :
    ∃ table' heap, step table s (.faulty f, active) =
      ⟨.ok (table', false), (.faulty { f with heap }, active), []⟩ ∧
      Done base table s table' heap := by
  obtain ⟨held, found⟩ : ∃ held, table[s.slot]? = some held :=
    ⟨_, Array.getElem?_eq_getElem inside⟩
  cases s with
  | grab slot n => cases plain
  | resize slot n =>
    change table[slot]? = some held at found
    rw [show occupied table (PlanStep.resize slot n).slot = _ from occupied_of_found found] at plain
    cases held with
    | some p => cases plain
    | none =>
      refine ⟨table, f.heap, step_resize_empty found _, owns, rfl, ?_⟩
      exact (Function.update_eq_self slot (occupied table)).symm
  | release slot =>
    change table[slot]? = some held at found
    obtain ⟨heap, released, owns⟩ := step_release active owns found
    exact ⟨_, heap, released, done_set (s := .release slot) inside owns rfl⟩

/-- A step whose request passes its checkpoint. -/
theorem step_of_passed {d : RequestName × Nat} (small : s.Small)
    (asks : s.demand (occupied table s.slot) = some d)
    (passes : checkpoint (some g) = ⟨.ok false, some (g.pass [false]), []⟩)
    (few : (step table s (.faulty f, some g)).state.1.Indexed) :
    ∃ table' heap, step table s (.faulty f, some g) =
      ⟨.ok (table', false), (.faulty { f with heap }, some (g.pass [false])), []⟩ ∧
      Done base table s table' heap := by
  obtain ⟨held, found⟩ : ∃ held, table[s.slot]? = some held :=
    ⟨_, Array.getElem?_eq_getElem inside⟩
  cases s with
  | grab slot n =>
    change table[slot]? = some held at found
    obtain ⟨heap, opened, owns⟩ := step_grab (some g) (n := n) owns found
    rw [opened] at few
    have grabbed_few := Op.Reflects.before (P := fun s : Ground => s.1.Indexed)
      (fun _ => .pure _) few
    rw [state_of_passed passes] at grabbed_few
    obtain ⟨p, heap', grabbed, owns⟩ := owns.grab small grabbed_few
    have asked := perform_of_ok (r := .grab n) (f := { f with heap })
      (FaultyHeap.guard_of_passes passes grabbed)
    refine ⟨table.setIfInBounds slot (some p), heap', ?_,
      done_set (s := .grab slot n) inside owns rfl⟩
    rw [opened, Op.bind_of_ok asked]
    rfl
  | resize slot n =>
    change table[slot]? = some held at found
    rw [show occupied table (PlanStep.resize slot n).slot = _ from occupied_of_found found] at asks
    cases held with
    | none => cases asks
    | some p =>
      obtain ⟨heap, resized, owns⟩ := (owns.perm (blocks_perm found)).resize small
      have asked := perform_of_ok (r := .resize p n) (FaultyHeap.guard_of_passes passes resized)
      refine ⟨table.setIfInBounds slot (some p), heap, ?_,
        done_set (s := .resize slot n) inside owns (occupied_of_found found)⟩
      rw [step_resize found, Op.bind_of_ok asked]
      rfl
  | release slot => cases asks

/-- A step whose request is refused. -/
theorem step_of_failed {d : RequestName × Nat}
    (asks : s.demand (occupied table s.slot) = some d)
    (fails : checkpoint (some g) = ⟨.ok true, some (g.pass [true]), []⟩) :
    ∃ table' heap, step table s (.faulty f, some g) =
      ⟨.ok (table', true), (.faulty ⟨heap, f.forced + 1⟩, some (g.pass [true])),
        [.forcedFailure d.1 d.2]⟩ ∧ Owns base table'.blocks heap := by
  obtain ⟨held, found⟩ : ∃ held, table[s.slot]? = some held :=
    ⟨_, Array.getElem?_eq_getElem inside⟩
  cases s with
  | grab slot n =>
    change table[slot]? = some held at found
    cases asks
    obtain ⟨heap, opened, owns⟩ := step_grab (some g) (n := n) owns found
    have asked := perform_of_ok (r := .grab n) (f := { f with heap })
      (FaultyHeap.guard_of_fails fails)
    -- the slot was emptied before
    refine ⟨table.setIfInBounds slot none, heap, ?_, owns.perm (blocks_set inside none).symm⟩
    rw [opened, Op.bind_of_ok asked]
    rfl
  | resize slot n =>
    change table[slot]? = some held at found
    rw [show occupied table (PlanStep.resize slot n).slot = _ from occupied_of_found found] at asks
    cases held with
    | none => cases asks
    | some p =>
      cases asks
      have asked := perform_of_ok (r := .resize p n) (FaultyHeap.guard_of_fails (f := f) fails)
      refine ⟨table, f.heap, ?_, owns⟩
      rw [step_resize found, Op.bind_of_ok asked]
      rfl
  | release slot => cases asks

end Steps

/-! ### A run -/

section Run

variable {base : Heap} {f : FaultyHeap} {g : Frame} {table : Table} {plan : Plan}
  {path : List Bool} {refusal : Option (RequestName × Nat)}

/-- After a step a run takes no slots out of the table either. -/
theorem reflects_rest (plan : Plan) (answer : Table × Bool) :
    Op.Reflects (fun s : Ground => s.1.Indexed) (
      let refused := 0 + answer.2.toNat
      if true && refused != 0 then (return (answer.1, refused) : Op Ground (Table × Nat))
      else steps true answer.1 refused plan) := by
  dsimp only
  split
  · exact .pure _
  · rw [← Driver.runOn_steps]
    exact Dialogue.reflects_runOn _

/-- Steps that meet their demands up to a refusal, or all of them. -/
theorem steps_meet (owns : Owns base table.blocks f.heap) (inside : ∀ s ∈ plan, s.slot < table.size)
    (small : ∀ s ∈ plan, s.Small) (meets : Meets (demandsFrom (occupied table) plan) path refusal)
    (continues : g.Continues path) (room : g.count + path.length ≤ maxCheckpoints)
    (few : (steps true table 0 plan (.faulty f, some g)).state.1.Indexed) :
    ∃ table' heap, steps true table 0 plan (.faulty f, some g) =
      ⟨.ok (table', refusal.toList.length),
        (.faulty ⟨heap, f.forced + refusal.toList.length⟩, some (g.pass path)),
        refusal.toList.map fun d => .forcedFailure d.1 d.2⟩ ∧ Owns base table'.blocks heap := by
  induction plan generalizing table f g path with
  | nil =>
    cases meets
    exact ⟨table, f.heap, by rw [Frame.pass_nil]; rfl, owns⟩
  | cons s plan ih =>
    have here := inside s List.mem_cons_self
    have behind {table' : Table} (size : table'.size = table.size) :
        ∀ s ∈ plan, s.slot < table'.size := fun s mem =>
      size ▸ inside s (List.mem_cons_of_mem _ mem)
    have smaller : ∀ s ∈ plan, s.Small := fun s mem => small s (List.mem_cons_of_mem _ mem)
    rw [demandsFrom] at meets
    have first := Op.Reflects.before (reflects_rest plan) few
    cases asks : s.demand (occupied table s.slot) with
    | none =>
      obtain ⟨table', heap, stepped, done⟩ := step_of_no_demand (some g) owns here asks
      rw [asks, ← done.occupied] at meets
      obtain ⟨last, heap', ran, owns⟩ :=
        ih (f := { f with heap }) done.owns (behind done.size) smaller meets continues room
          (by rw [steps, Op.bind_of_ok stepped] at few; exact few)
      refine ⟨last, heap', ?_, owns⟩
      rw [steps, Op.bind_of_ok stepped]
      exact ran
    | some d =>
      rw [asks, Option.toList_some, List.singleton_append] at meets
      have count : g.count < maxCheckpoints := by
        cases meets <;> (simp only [List.length_cons] at room; omega)
      cases meets with
      | fails =>
        obtain ⟨last, heap, stepped, owns⟩ := step_of_failed owns here asks
          (checkpoint_of_willFail count (continues 0 true rfl))
        refine ⟨last, heap, ?_, owns⟩
        rw [steps, Op.bind_of_ok stepped]
        rfl
      | @passes _ path _ _ meets =>
        obtain ⟨table', heap, stepped, done⟩ := step_of_passed owns here (small s List.mem_cons_self)
          asks (checkpoint_of_willFail count (continues 0 false rfl)) first
        rw [← done.occupied] at meets
        have room : (g.pass [false]).count + path.length ≤ maxCheckpoints := by
          simp only [Frame.pass, List.length_cons, List.length_nil] at room ⊢
          omega
        obtain ⟨last, heap', ran, owns⟩ := ih (f := { f with heap }) done.owns (behind done.size)
          smaller meets continues.tail room (by rw [steps, Op.bind_of_ok stepped] at few; exact few)
        refine ⟨last, heap', ?_, owns⟩
        rw [steps, Op.bind_of_ok stepped,
          show g.pass (false :: path) = _ from (g.pass_pass [false] path).symm]
        exact ran

theorem state_underFrame {α : Type} (x : Op Ground α) (frame : Frame) (allocator : Allocator) :
    (underFrame x frame allocator).state = (x (allocator, some frame)).state.1 := by
  rw [underFrame]
  cases x (allocator, some frame) with
  | mk value s records => cases value <;> rfl

/-- If every slot has a number after a run, then also after its steps. -/
theorem steps_indexed {slots : Nat} {s : Ground} (room : slotSize * max slots 1 < memoryLimit)
    (few : (tryRun plan slots s).state.1.Indexed) :
    (steps true (Table.empty slots) 0 plan s).state.1.Indexed := by
  have reserved : (liftM (reserve (slotSize * max slots 1)) : Op Ground Unit) s =
      ⟨.ok (), s, []⟩ := by
    rw [reserve_eq_ok_iff.mpr room]
    rfl
  have drove : (drive true plan slots s).state.1.Indexed :=
    Op.Reflects.before (P := fun s : Ground => s.1.Indexed) (fun _ => .pure _) few
  rw [drive, Op.bind_of_ok reserved] at drove
  refine Op.Reflects.before (P := fun s : Ground => s.1.Indexed) ?_ drove
  rintro ⟨table, refused⟩
  refine .bind ?_ fun _ => .pure _
  rw [← Driver.runOn_releaseAll]
  exact Dialogue.reflects_runOn _

/-- A run gives back everything that it acquired, and asks for nothing more after a refusal. -/
theorem tryRun_meets {slots : Nat} (sound : f.heap.Sound)
    (room : slotSize * max slots 1 < memoryLimit) (inside : ∀ s ∈ plan, s.slot < max slots 1)
    (small : ∀ s ∈ plan, s.Small) (meets : Meets (demands plan) path refusal)
    (begins : g.Begins path) (short : path.length ≤ maxCheckpoints)
    (few : (underFrame (tryRun plan slots) g.reset (.faulty f)).state.Indexed) :
    ∃ heap, underFrame (tryRun plan slots) g.reset (.faulty f) =
      ⟨.ok (refusal.isNone, g.reset.pass path),
        .faulty ⟨heap, f.forced + refusal.toList.length⟩,
        refusal.toList.map fun d => .forcedFailure d.1 d.2⟩ ∧ Owns f.heap [] heap := by
  have size : (Table.empty slots).size = max slots 1 := Array.size_replicate
  have blocks : (Table.empty slots).blocks = [] := by
    simp [Table.blocks, Table.empty]
  have empty : occupied (Table.empty slots) = fun _ => false := by
    funext i
    simp only [occupied, Table.empty, Array.getElem?_replicate]
    split <;> rfl
  have short : g.reset.count + path.length ≤ maxCheckpoints := by
    rwa [show g.reset.count = 0 from rfl, Nat.zero_add]
  have owns : Owns f.heap (Table.empty slots).blocks f.heap := by
    rw [blocks]
    exact .start sound
  rw [state_underFrame] at few
  obtain ⟨table, heap, ran, owns⟩ := steps_meet owns (by rwa [size]) small (by rwa [empty])
    begins.continues short (steps_indexed room few)
  obtain ⟨heap', released, owns⟩ := releaseAll_owned (some (g.reset.pass path))
    (f := ⟨heap, f.forced + refusal.toList.length⟩) owns
  have reserved : (liftM (reserve (slotSize * max slots 1)) : Op Ground Unit)
      (.faulty f, some g.reset) = ⟨.ok (), (.faulty f, some g.reset), []⟩ := by
    rw [reserve_eq_ok_iff.mpr room]
    rfl
  have ended : (do
      releaseAll table.blocks
      return refusal.toList.length : Op Ground Nat) _ = _ := Op.bind_of_ok released
  have drove : drive true plan slots (.faulty f, some g.reset) =
      ⟨.ok refusal.toList.length,
        (.faulty ⟨heap', f.forced + refusal.toList.length⟩, some (g.reset.pass path)),
        refusal.toList.map fun d => .forcedFailure d.1 d.2⟩ := by
    rw [drive, Op.bind_of_ok reserved, Result.after_nil, Op.bind_of_ok ran]
    refine (congrArg (Result.after _) ended).trans ?_
    simp [Result.after]
  refine ⟨heap', ?_, owns⟩
  have answer : (refusal.toList.length == 0) = refusal.isNone := by cases refusal <;> rfl
  rw [underFrame, tryRun, Op.bind_of_ok drove]
  simp [Result.after, answer]

end Run

end Plan

end MemoryTrial
