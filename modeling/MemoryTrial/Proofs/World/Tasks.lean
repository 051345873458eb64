import Mathlib.Data.List.Perm.Subperm
import MemoryTrial.Proofs.World.Creations

/-! The tasks of a process: look-ups, creations and teardowns, which begin inside each other.  When
creations recurse boundedly, and only the first teardown of each kind looks up instances, tasks nest
boundedly (`Modest.length_le`). -/

namespace MemoryTrial

variable {κ η σ α β : Type}

namespace Task

def kind : Task κ → κ
  | .lookUp k => k
  | .build k => k
  | .teardown _ k => k

def isTeardown : Task κ → Bool
  | .teardown _ _ => true
  | _ => false

/-- Whether a task can begin inside those that are under way: an instance is torn down inside others
only when a look-up discards it. -/
def Fits : Task κ → List (Task κ) → Prop
  | .teardown _ _, .lookUp _ :: _ => True
  | .teardown _ _, _ :: _ => False
  | _, _ => True

end Task

namespace Tasks

/-- What was begun inside the tasks `base`, the last one first. -/
inductive Traced (base : List (Task κ)) : List (List (Task κ)) → Prop
  | nil : Traced base []
  | cons {task : Task κ} {around : List (Task κ)} {told : List (List (Task κ))} :
    Traced base told → around = base ∨ around ∈ told → task.Fits around →
    Traced base ((task :: around) :: told)

/-- The creations inside the innermost teardown. -/
def creations (stack : List (Task κ)) : List (Task κ) :=
  stack.takeWhile fun task => !task.isTeardown

/-- The kinds whose instances are being torn down. -/
def torn (stack : List (Task κ)) : List κ :=
  stack.filterMap fun
    | .teardown _ k => some k
    | _ => none

/-- The teardown of `h` was the first one of its kind, if there was one. -/
def FirstTeardown (log : List (List (Task κ))) (h : Handle) (k : κ) : Prop :=
  ∀ newer around older, log = newer ++ (.teardown h k :: around) :: older →
    ∀ h' around', .teardown h' k :: around' ∉ older

/-- What was begun after `older`, if creations recurse boundedly, inside a process and inside each
teardown, and instances are looked up only during the first teardown of a kind. -/
structure Modest (kinds : List κ) (recursion : Nat) (told older : List (List (Task κ))) : Prop where
  known : ∀ task around, task :: around ∈ told → task.kind ∈ kinds
  bounded : ∀ stack ∈ told, (creations stack).length ≤ recursion
  revivals : ∀ k around, .lookUp k :: around ∈ told →
    ∀ h k', .teardown h k' ∈ around → FirstTeardown (told ++ older) h k'

section Logs

variable {base stack rest around : List (Task κ)} {told told' older : List (List (Task κ))}
  {task : Task κ} {kinds : List κ} {recursion : Nat}

namespace Traced

theorem append (first : Traced base told) (second : Traced base told') :
    Traced base (told' ++ told) := by
  induction second with
  | nil => exact first
  | cons _ inside fits ih =>
    refine .cons ih (inside.imp_right fun mem => ?_) fits
    exact List.mem_append_left told mem

theorem nest (inside : Traced (task :: base) told) (fits : task.Fits base) :
    Traced base (told ++ [task :: base]) := by
  induction inside with
  | nil => exact .cons .nil (.inl rfl) fits
  | cons _ within fits' ih =>
    refine .cons ih (.inr ?_) fits'
    rcases within with rfl | mem
    · exact List.mem_append_right _ (List.mem_singleton_self _)
    · exact List.mem_append_left _ mem

theorem of_append (traced : Traced base (told' ++ told)) : Traced base told := by
  induction told' with
  | nil => exact traced
  | cons stack told' ih =>
    cases traced with
    | cons traced _ _ => exact ih traced

/-- What is under way around a task was begun before. -/
theorem mem_of_suffix (traced : Traced [] told) (mem : stack ∈ told) (suffix : rest <:+ stack)
    (some_task : rest ≠ []) : rest ∈ told := by
  induction traced generalizing stack with
  | nil => cases mem
  | @cons task around told traced within _ ih =>
    rcases List.mem_cons.mp mem with rfl | mem
    · rcases List.suffix_cons_iff.mp suffix with rfl | suffix
      · exact List.mem_cons_self
      · rcases within with rfl | mem
        · exact absurd (List.suffix_nil.mp suffix) some_task
        · exact List.mem_cons_of_mem _ (ih mem suffix)
    · exact List.mem_cons_of_mem _ (ih mem suffix)

theorem fits (traced : Traced base told) (mem : task :: around ∈ told) : task.Fits around := by
  induction traced with
  | nil => cases mem
  | cons _ _ fits ih =>
    rcases List.mem_cons.mp mem with same | mem
    · cases same
      exact fits
    · exact ih mem

end Traced

theorem mem_torn {k : κ} : k ∈ torn stack ↔ ∃ h, .teardown h k ∈ stack := by
  unfold torn
  rw [List.mem_filterMap]
  constructor
  · rintro ⟨task, mem, found⟩
    cases task with
    | teardown h k' =>
      cases found
      exact ⟨h, mem⟩
    | _ => cases found
  · rintro ⟨h, mem⟩
    exact ⟨_, mem, rfl⟩

/-- No two teardowns of a kind are around each other if each is the first one of its kind. -/
theorem Traced.nodup_torn (traced : Traced [] told) (mem : stack ∈ told)
    (firsts : ∀ h k, .teardown h k ∈ stack → FirstTeardown (told ++ older) h k) :
    (torn stack).Nodup := by
  induction stack with
  | nil => exact List.nodup_nil
  | cons task around ih =>
    have inner : (torn around).Nodup := by
      by_cases none : around = []
      · rw [none]
        exact List.nodup_nil
      · refine ih (traced.mem_of_suffix mem (List.suffix_cons task around) none) ?_
        exact fun h k inside => firsts h k (List.mem_cons_of_mem task inside)
    cases task with
    | lookUp k => exact inner
    | build k => exact inner
    | teardown h k =>
      refine List.nodup_cons.mpr ⟨fun again => ?_, inner⟩
      obtain ⟨h', again⟩ := mem_torn.mp again
      obtain ⟨between, around', rfl⟩ := List.append_of_mem again
      -- the teardown around this one began before it
      obtain ⟨newer, earlier, split⟩ := List.append_of_mem mem
      rw [split] at traced
      have before : Task.teardown h' k :: around' ∈ earlier := by
        cases traced.of_append with
        | cons traced within _ =>
          rcases within with same | mem
          · simp at same
          · exact traced.mem_of_suffix mem (List.suffix_append ..) (List.cons_ne_nil _ _)
      have later : told ++ older = newer ++
          (.teardown h k :: (between ++ .teardown h' k :: around')) :: (earlier ++ older) := by
        rw [split, List.append_assoc, List.cons_append]
      have first := firsts h k List.mem_cons_self newer _ _ later
      exact first h' around' (List.mem_append_left older before)

/-- Tasks are creations between teardowns. -/
theorem length_le_of_creations
    (bounded : ∀ rest, rest <:+ stack → (creations rest).length ≤ recursion) :
    stack.length ≤ (torn stack).length * (recursion + 1) + (creations stack).length := by
  induction stack with
  | nil => exact Nat.zero_le _
  | cons task around ih =>
    have below := ih fun rest suffix => bounded rest (suffix.trans (List.suffix_cons task around))
    have inside := bounded around (List.suffix_cons task around)
    cases task with
    | teardown h k =>
      have more : (torn (.teardown h k :: around)).length = (torn around).length + 1 := rfl
      rw [more, Nat.add_mul, List.length_cons]
      omega
    | lookUp k => exact Nat.succ_le_succ below
    | build k => exact Nat.succ_le_succ below

namespace Modest

theorem mono_left {newer : List (List (Task κ))}
    (modest : Modest kinds recursion (newer ++ told) older) :
    Modest kinds recursion newer (told ++ older) where
  known task around mem := modest.known task around (List.mem_append_left told mem)
  bounded stack mem := modest.bounded stack (List.mem_append_left told mem)
  revivals k around mem h k' inside := by
    rw [← List.append_assoc]
    exact modest.revivals k around (List.mem_append_left told mem) h k' inside

variable (modest : Modest kinds recursion told older)
include modest

/-- All teardowns but the innermost one are the first ones of their kinds. -/
theorem length_torn_le (traced : Traced [] told) (mem : stack ∈ told) :
    (torn stack).length ≤ kinds.length + 1 := by
  induction stack with
  | nil => exact Nat.zero_le _
  | cons task around ih =>
    by_cases none : around = []
    · subst none
      cases task <;> simp [torn]
    have inside := traced.mem_of_suffix mem (List.suffix_cons task around) none
    cases task with
    | lookUp k => exact ih inside
    | build k => exact ih inside
    | teardown h k =>
      have fits := traced.fits mem
      obtain ⟨k', rest, rfl⟩ : ∃ k' rest, around = .lookUp k' :: rest := by
        cases around with
        | nil => exact absurd rfl none
        | cons task rest =>
          cases task with
          | lookUp k' => exact ⟨k', rest, rfl⟩
          | build k' => exact fits.elim
          | teardown h' k' => exact fits.elim
      have firsts (h : Handle) (k : κ) (mem : .teardown h k ∈ Task.lookUp k' :: rest) :
          FirstTeardown (told ++ older) h k :=
        modest.revivals k' rest inside h k (List.mem_of_ne_of_mem (by simp) mem)
      have distinct := traced.nodup_torn inside firsts
      have known : torn (.lookUp k' :: rest) ⊆ kinds := by
        intro k mem
        obtain ⟨h, mem⟩ := mem_torn.mp mem
        obtain ⟨before, around', split⟩ := List.append_of_mem mem
        refine modest.known (.teardown h k) around' ?_
        exact traced.mem_of_suffix inside (split ▸ List.suffix_append ..) (List.cons_ne_nil _ _)
      exact Nat.succ_le_succ (List.subperm_of_subset distinct known).length_le

theorem length_le (traced : Traced [] told) (mem : stack ∈ told) :
    stack.length < (kinds.length + 2) * (recursion + 1) := by
  have bounded (rest : List (Task κ)) (suffix : rest <:+ stack) :
      (creations rest).length ≤ recursion := by
    by_cases none : rest = []
    · simp [none, creations]
    · exact modest.bounded rest (traced.mem_of_suffix mem suffix none)
  have inner := bounded stack List.suffix_rfl
  have teardowns := Nat.mul_le_mul_right (recursion + 1) (modest.length_torn_le traced mem)
  calc stack.length
      ≤ (torn stack).length * (recursion + 1) + recursion :=
        (length_le_of_creations bounded).trans (Nat.add_le_add_left inner _)
    _ ≤ (kinds.length + 1) * (recursion + 1) + recursion := Nat.add_le_add_right teardowns _
    _ < (kinds.length + 2) * (recursion + 1) := by rw [Nat.add_mul _ 2, Nat.add_mul _ 1]; omega

end Modest

end Logs

end Tasks

/-- The effect of programs that begin tasks inside `base`: these are over when they end, and what they
leave in the cache was there, is allowed there by `may`, or was looked up by one of them. -/
def tracing (env : Environment κ η σ) (base : List (Task κ)) (may : KindId → Prop) :
    Effect κ η σ where
  Allows w w' := w.tasks.active = base → w'.tasks.active = base ∧ ∃ told,
    w'.tasks.begun = told ++ w.tasks.begun ∧ Tasks.Traced base told ∧
    ∀ e ∈ w'.cache, e ∈ w.cache ∨ may e.1 ∨
      ∃ k inner, .lookUp k :: (inner ++ base) ∈ told ∧ (env.kind k).id = e.1
  refl w active := ⟨active, [], rfl, .nil, fun _ => .inl⟩
  trans first second active := by
    obtain ⟨between, told, begun, traced, cache⟩ := first active
    obtain ⟨after, told', begun', traced', cache'⟩ := second between
    refine ⟨after, told' ++ told, ?_, traced.append traced', fun e mem => ?_⟩
    · rw [begun', begun, List.append_assoc]
    · rcases cache' e mem with mem | allowed | ⟨k, inner, mem, id⟩
      · rcases cache e mem with mem | allowed | ⟨k, inner, mem, id⟩
        · exact .inl mem
        · exact .inr (.inl allowed)
        · exact .inr (.inr ⟨k, inner, List.mem_append_right told' mem, id⟩)
      · exact .inr (.inl allowed)
      · exact .inr (.inr ⟨k, inner, List.mem_append_left told mem, id⟩)

/-- Nothing may be left in the cache that no task has looked up. -/
def nothing : KindId → Prop := fun _ => False

section Effects

variable {env : Environment κ η σ} {base : List (Task κ)} {may may' : KindId → Prop}

theorem tracing_same {w w' : World κ η σ} (tasks : w'.tasks = w.tasks)
    (cache : w'.cache = w.cache) : (tracing env base may).Allows w w' := by
  intro active
  refine ⟨by rw [tasks, active], [], by rw [tasks, List.nil_append], .nil, fun e mem => .inl ?_⟩
  rwa [cache] at mem

theorem tracing_mono (h : ∀ id, may id → may' id) {w w' : World κ η σ}
    (allowed : (tracing env base may).Allows w w') : (tracing env base may').Allows w w' := by
  intro active
  obtain ⟨after, told, begun, traced, cache⟩ := allowed active
  exact ⟨after, told, begun, traced, fun e mem => (cache e mem).imp_right (.imp_left (h e.1))⟩

theorem tracing_plain : (tracing env base may).Plain :=
  fun _ _ still => tracing_same still.tasks still.cache

theorem tracing_memoryless : (tracing env base may).Memoryless :=
  fun _ _ _ _ _ _ _ => tracing_same rfl rfl

theorem tracing_outer : (tracing env base may).Outer where
  plain := tracing_plain
  frame _ _ := tracing_same rfl rfl
  state _ _ _ _ _ _ _ _ := tracing_same rfl rfl
  denied _ _ _ _ _ := tracing_same rfl rfl

namespace Run

variable {nested : Nested κ η σ} {x : Run κ η σ α} {task : Task κ}

theorem tracing_obtaining (hx : x.Respects (tracing env base may)) :
    (obtaining x).Respects (tracing env base may) :=
  respects_obtaining (fun _ _ => tracing_same rfl rfl) hx

theorem tracing_obtain (h : Handle) :
    (obtain h : Run κ η σ Handle).Respects (tracing env base may) :=
  respects_bind (respects_modify fun _ => tracing_same rfl rfl) fun _ => respects_pure _

theorem tracing_within (h : Handle) (p : Ptr) (edit : ByteArray → ByteArray)
    {body : ByteArray → Run κ η σ α}
    (hbody : ∀ bytes, (body bytes).Respects (tracing env base may)) :
    (within h p edit body).Respects (tracing env base may) :=
  tracing_outer.within tracing_memoryless (fun _ _ _ => tracing_same rfl rfl) h p edit hbody

/-- A task is begun, and it is over when `x` ends. -/
theorem tracing_during (may' : KindId → Prop) (fits : task.Fits base)
    (allowed : ∀ id, may' id → may id ∨ ∃ k, task = .lookUp k ∧ (env.kind k).id = id)
    (hx : x.Respects (tracing env (task :: base) may')) :
    (during task x).Respects (tracing env base may) := by
  intro w active
  subst active
  rw [leaves_during]
  obtain ⟨-, told, begun, traced, cache⟩ := hx (w.begin task) rfl
  refine ⟨rfl, told ++ [task :: w.tasks.active], ?_, traced.nest fits, fun e mem => ?_⟩
  · rw [List.append_assoc]
    exact begun
  · rcases cache e mem with mem | granted | ⟨k, inner, mem, id⟩
    · exact .inl mem
    · rcases allowed e.1 granted with granted | ⟨k, rfl, id⟩
      · exact .inr (.inl granted)
      · refine .inr (.inr ⟨k, [], ?_, id⟩)
        exact List.mem_append_right told (List.mem_singleton_self _)
    · refine .inr (.inr ⟨k, inner ++ [task], List.mem_append_left _ ?_, id⟩)
      rwa [List.append_assoc]

theorem tracing_tearDown {inst : Instance κ} {h : Handle} (a : Allocator)
    (fits : (Task.teardown h inst.kind).Fits base)
    (closes : (nested ((env.kind inst.kind).close inst.holdings)).Respects
      (tracing env (.teardown h inst.kind :: base) nothing)) :
    (during (.teardown h inst.kind) (tearDown env nested inst a)).Respects
      (tracing env base may) := by
  refine tracing_during nothing fits (fun _ => False.elim) ?_
  exact tracing_plain.tearDown a (tracing_obtaining closes)

theorem tracing_destroy (fits : ∀ h k, (Task.teardown h k).Fits base)
    (closes : ∀ h k holdings, (nested ((env.kind k).close holdings)).Respects
      (tracing env (.teardown h k :: base) nothing)) (h : Handle) :
    (destroy env nested h).Respects (tracing env base may) :=
  tracing_plain.destroy (fun _ _ _ _ _ _ _ => tracing_same rfl rfl)
    (fun h _ a => tracing_tearDown a (fits h _) (closes h _ _)) (fun _ _ => tracing_same rfl rfl) h

/-- The teardown of an instance is a task of its own, and what it leaves in the cache was looked up
inside it. -/
theorem destroy_traces {w : World κ η σ} {h : Handle} {inst : Instance κ} {a : Allocator}
    (here : w.instances[h.number]? = some inst) (state : inst.state = some a)
    (unused : inst.busy = false)
    (closes : (nested ((env.kind inst.kind).close inst.holdings)).Respects
      (tracing env (.teardown h inst.kind :: w.tasks.active) nothing)) :
    let w' := (destroy env nested h).leaves w
    w'.tasks.active = w.tasks.active ∧ ∃ told,
      w'.tasks.begun = told ++ (.teardown h inst.kind :: w.tasks.active) :: w.tasks.begun ∧
      Tasks.Traced (.teardown h inst.kind :: w.tasks.active) told ∧
      ∀ e ∈ w'.cache, e ∈ w.cache ∨
        ∃ k inner, .lookUp k :: (inner ++ .teardown h inst.kind :: w.tasks.active) ∈ told ∧
          (env.kind k).id = e.1 := by
  have tears := tracing_plain.tearDown a (tracing_obtaining closes)
  dsimp only
  rw [leaves_destroy here state unused, leaves_during]
  obtain ⟨-, told, begun, traced, cache⟩ := tears (World.begin { w with
    instances := w.instances.modify h.number fun inst => { inst with state := none }
    journal := w.journal.push (.tornDown h) } (.teardown h inst.kind)) rfl
  refine ⟨rfl, told, begun, traced, fun e mem => ?_⟩
  exact (cache e mem).imp_right fun looked => looked.resolve_left id

theorem tracing_create (k : κ) (shared : Bool)
    (creates : (nested (env.kind k).create).Respects (tracing env base may)) :
    (create env nested k shared).Respects (tracing env base may) :=
  Effect.create k shared (tracing_obtaining creates) fun _ _ _ => tracing_same rfl rfl

variable [DecidableEq η]

theorem tracing_lookUp (k k' : κ)
    (creates : (nested (env.kind k).create).Respects (tracing env (.lookUp k' :: base) nothing))
    (closes : ∀ h k'' holdings, (nested ((env.kind k'').close holdings)).Respects
      (tracing env (.teardown h k'' :: .lookUp k' :: base) nothing)) :
    (lookUp env nested k).Respects (tracing env (.lookUp k' :: base) (· = (env.kind k).id)) := by
  have fits (h : Handle) (k'' : κ) : (Task.teardown h k'').Fits (.lookUp k' :: base) := trivial
  refine tracing_plain.lookUp tracing_obtain k (tracing_obtaining (creates.mono ?_))
    (fun v built sources => ?_) fun v built sources _ active => ?_
  · exact fun w w' => tracing_mono fun _ => False.elim
  · have created : (tracing env (.lookUp k' :: base) (· = (env.kind k).id)).Allows v
        (v.enroll (env.newInstance k built sources true)) := tracing_same rfl rfl
    exact (tracing env _ _).trans created (tracing_destroy fits closes _ _)
  · refine ⟨active, [], rfl, .nil, fun e mem => ?_⟩
    rcases List.mem_append.mp mem with mem | mem
    · exact .inl mem
    · exact .inr (.inl (by rw [List.mem_singleton.mp mem]))

end Run

section Programs

variable [DecidableEq η] {nested : Nested κ η σ} {bound : Nat}

open Run in
theorem tracing_call (orderly : env.Orderly)
    (respected : ∀ (base : List (Task κ)) {β : Type} {c : Client κ η σ β},
      c.Only (Calls.harmless True) (Calls.harmless True) →
        (nested c).Respects (tracing env base nothing))
    {c : Call κ η σ β} (harmless : Calls.harmless True β c) :
    (c.run env nested bound).Respects (tracing env base nothing) := by
  cases c with
  | lookUp k =>
    refine tracing_during (· = (env.kind k).id) trivial
      (fun id same => .inr ⟨k, rfl, Eq.symm same⟩) ?_
    exact tracing_lookUp k k (respected _ (orderly.create k)) fun _ k' holdings =>
      respected _ (orderly.close k' holdings)
  | build k =>
    refine tracing_during nothing trivial (fun _ => False.elim) ?_
    exact respects_bind (tracing_plain.of_still still_reachRegistry) fun _ =>
      tracing_create k false (respected _ (orderly.create k))
  | delete h => exact harmless.elim
  | teardown => exact harmless.elim
  | runHooks => exact harmless.elim
  | _ => exact tracing_outer.call trivial

theorem tracing_covers (orderly : env.Orderly)
    (respected : ∀ (base : List (Task κ)) {β : Type} {c : Client κ η σ β},
      c.Only (Calls.harmless True) (Calls.harmless True) →
        (nested c).Respects (tracing env base nothing)) :
    Covers env nested bound (tracing env base nothing) (tracing env base nothing)
      (Calls.harmless True) :=
  ⟨fun _ harmless => tracing_call orderly respected harmless, fun _ => tracing_outer.replay,
    fun f _ => tracing_plain.scope f, fun h p edit _ => Run.tracing_within h p edit,
    fun fixture _ => tracing_outer.thread fixture⟩

theorem Client.respects_tracing (orderly : env.Orderly) (bound depth : Nat) {c : Client κ η σ α}
    (harmless : c.Only (Calls.harmless True) (Calls.harmless True)) :
    (c.runTo env bound depth).Respects (tracing env base nothing) := by
  induction depth generalizing α c base with
  | zero =>
    have stops (base : List (Task κ)) {β : Type} {c : Client κ η σ β}
        (_ : c.Only (Calls.harmless True) (Calls.harmless True)) :
        (throw .endless : Run κ η σ β).Respects (tracing env base nothing) := Run.respects_throw _
    exact (tracing_covers orderly stops).respects_runWith (tracing_covers orderly stops) harmless
  | succ depth ih =>
    have deeper (base : List (Task κ)) {β : Type} {d : Client κ η σ β}
        (only : d.Only (Calls.harmless True) (Calls.harmless True)) :
        (d.runTo env bound depth).Respects (tracing env base nothing) := ih only
    exact (tracing_covers orderly deeper).respects_runWith (tracing_covers orderly deeper) harmless

end Programs

end Effects

/-- The effect of programs whose tasks are over when they end. -/
def resting : Effect κ η σ where
  Allows w w' := w'.tasks.active = w.tasks.active
  refl _ := rfl
  trans first second := second.trans first

theorem resting_outer : (resting : Effect κ η σ).Outer where
  plain _ _ still := congrArg Tasks.active still.tasks
  frame _ _ := rfl
  state _ _ _ _ _ _ _ _ := rfl
  denied _ _ _ _ _ := rfl

namespace Run

/-- A task is over when it ends, whatever is done in it. -/
theorem resting_during (task : Task κ) (x : Run κ η σ α) : (during task x).Respects resting := by
  intro w
  rw [leaves_during]
  rfl

theorem resting_within (h : Handle) (p : Ptr) (edit : ByteArray → ByteArray)
    {body : ByteArray → Run κ η σ α} (hbody : ∀ bytes, (body bytes).Respects resting) :
    (within h p edit body).Respects resting :=
  resting_outer.within (fun _ _ _ _ _ _ _ => rfl) (fun _ _ _ => rfl) h p edit hbody

theorem resting_destroy {env : Environment κ η σ} {nested : Nested κ η σ} (h : Handle) :
    (destroy env nested h).Respects resting :=
  resting_outer.plain.destroy (fun _ _ _ _ _ _ _ => rfl) (fun _ _ _ => resting_during _ _)
    (fun _ _ => rfl) h

end Run

section Programs

variable [DecidableEq η] {env : Environment κ η σ} {nested : Nested κ η σ} {bound : Nat}

open Run in
theorem resting_call (respected : ∀ {β : Type} (c : Client κ η σ β), (nested c).Respects resting)
    (c : Call κ η σ β) : (c.run env nested bound).Respects resting := by
  have drains (rounds : Nat) : (drainCache env nested rounds).Respects resting :=
    Effect.drainCache (fun w _ _ _ => resting_destroy _ { w with cache := w.cache.dropLast }) rounds
  cases c with
  | lookUp k => exact resting_during _ _
  | build k => exact resting_during _ _
  | delete h =>
    refine resting_outer.plain.delete h fun w h inst _ => ?_
    split
    · exact resting_destroy h { w with cache := w.cache.filter (·.1 ≠ inst.id) }
    · exact resting_destroy h w
  | teardown =>
    exact respects_bind (resting_outer.plain.of_still still_reachRegistry) fun _ => drains bound
  | runHooks =>
    exact resting_outer.plain.drainHooks (fun _ _ => rfl) (drains bound)
      (fun hook => respected (env.hook hook)) bound
  | _ => exact resting_outer.call trivial

theorem Client.respects_resting (env : Environment κ η σ) (bound depth : Nat)
    (c : Client κ η σ α) : (c.runTo env bound depth).Respects resting := by
  refine Covers.respects_runTo (fun respected => ?_) depth c.only_all
  exact ⟨fun c _ => resting_call (fun c => respected c.only_all) c, fun _ => resting_outer.replay,
    fun f _ => resting_outer.plain.scope f, fun h p edit _ => Run.resting_within h p edit,
    fun fixture _ => resting_outer.thread fixture⟩

end Programs

end MemoryTrial
