import MemoryTrial.Proofs.Plan.Serving

/-! The driver of plans as a dialogue.  A dialogue is what a client asks next, by the answers that it
got, whoever gives them.  The driver is one (`Driver.runOn_drive`), so that its requests can be spoken
of, on an allocator whose system decides anew before each request (`Runs`). -/

namespace MemoryTrial

theorem Op.bind_bind {σ α β γ : Type} (x : Op σ α) (f : α → Op σ β) (g : β → Op σ γ) :
    x >>= f >>= g = x >>= fun a => f a >>= g := by
  funext s
  cases first : x s with
  | mk value s' records =>
  cases value with
  | error p => rw [Op.bind_of_error (Op.bind_of_error first), Op.bind_of_error first]
  | ok a =>
  have both : (x >>= f) s = (f a s').after records := Op.bind_of_ok first
  rw [Op.bind_of_ok first]
  cases second : f a s' with
  | mk value s'' records' =>
  rw [second] at both
  cases value with
  | error p =>
    rw [Op.bind_of_error second]
    exact Op.bind_of_error both
  | ok b =>
    rw [Op.bind_of_ok second]
    refine (Op.bind_of_ok both).trans ?_
    simp only [Result.after, List.append_assoc]

/-- What an operation leaves has a property only if what it began with has it. -/
def Op.Reflects {σ α : Type} (P : σ → Prop) (x : Op σ α) : Prop :=
  ∀ s, P (x s).state → P s

namespace Op.Reflects

variable {σ α β : Type} {P : σ → Prop} {x : Op σ α} {f : α → Op σ β} {s : σ}

/-- The property holds already after the first of two operations. -/
theorem before (rest : ∀ a, (f a).Reflects P) (after : P ((x >>= f) s).state) :
    P (x s).state := by
  cases ran : x s with
  | mk value s' records =>
  cases value with
  | error p => rwa [Op.bind_of_error ran] at after
  | ok a =>
    rw [Op.bind_of_ok ran] at after
    exact rest a s' after

theorem bind (first : x.Reflects P) (rest : ∀ a, (f a).Reflects P) :
    (x >>= f).Reflects P := fun s after => first s (before rest after)

theorem pure (a : α) : (Pure.pure a : Op σ α).Reflects P := fun _ => id

end Op.Reflects

namespace Plan

/-- What a client asks next, by the answers that it got. -/
inductive Dialogue (α : Type) : Type 1
  | done (a : α)
  | halt (p : Panic)
  | ask {β : Type} (r : Request β) (next : β → Dialogue α)

namespace Dialogue

variable {α β : Type}

protected def bind : Dialogue α → (α → Dialogue β) → Dialogue β
  | .done a, f => f a
  | .halt p, _ => .halt p
  | .ask r next, f => .ask r fun answer => (next answer).bind f

instance : Monad Dialogue where
  pure := .done
  bind := Dialogue.bind

def request (r : Request α) : Dialogue α := .ask r .done

/-- A computation that asks nothing. -/
def ofExcept : Except Panic α → Dialogue α
  | .ok a => .done a
  | .error p => .halt p

/-- The dialogue with an allocator. -/
def runOn : Dialogue α → Op Ground α
  | .done a => pure a
  | .halt p => Op.raise p
  | .ask r next => Allocator.perform r >>= fun answer => (next answer).runOn

theorem runOn_bind (d : Dialogue α) (f : α → Dialogue β) :
    (d >>= f).runOn = d.runOn >>= fun a => (f a).runOn := by
  change (d.bind f).runOn = _
  induction d with
  | done a => rfl
  | halt p => rfl
  | ask r next ih =>
    rw [Dialogue.bind, runOn, runOn, Op.bind_bind]
    exact congrArg (Allocator.perform r >>= ·) (funext ih)

theorem bind_pure_op (x : Op Ground α) : x >>= pure = x := by
  funext s
  cases ran : x s with
  | mk value s' records =>
  cases value with
  | error p => rw [Op.bind_of_error ran]
  | ok a =>
    rw [Op.bind_of_ok ran]
    simp [Result.after]

theorem runOn_request (r : Request α) : (request r).runOn = Allocator.perform r := bind_pure_op _

theorem runOn_ofExcept (x : Except Panic α) : (ofExcept x).runOn = liftM x := by
  cases x <;> rfl

end Dialogue

/-- A dialogue with an allocator from `s` to `s'`: what was exchanged, in order, and the answer.  What
the system grants may change from one request to the next. -/
inductive Runs {α : Type} : Dialogue α → Ground → List Exchange → Except Panic α → Ground → Prop
  | done (a : α) (s : Ground) : Runs (.done a) s [] (.ok a) s
  | halt (p : Panic) (s : Ground) : Runs (.halt p) s [] (.error p) s
  | answered {β : Type} {r : Request β} {next : β → Dialogue α} {s s₁ s' : Ground} {answer : β}
    {records : List Record} {past : List Exchange} {value : Except Panic α}
    (granted : Nat → Bool) : performIf granted r s = ⟨.ok answer, s₁, records⟩ →
      Runs (next answer) s₁ past value s' →
      Runs (.ask r next) s (⟨r, .ok answer⟩ :: past) value s'
  | panicked {β : Type} {r : Request β} {next : β → Dialogue α} {s s' : Ground} {p : Panic}
    {records : List Record} (granted : Nat → Bool) :
      performIf granted r s = ⟨.error p, s', records⟩ →
      Runs (.ask r next) s [⟨r, .error p⟩] (.error p) s'

namespace Runs

variable {α β : Type} {s s' : Ground} {past : List Exchange}

/-- On the allocators of this library the system always decides alike. -/
theorem of_runOn (d : Dialogue α) (s : Ground) :
    ∃ past, Runs d s past (d.runOn s).value (d.runOn s).state := by
  induction d generalizing s with
  | done a => exact ⟨[], .done a s⟩
  | halt p => exact ⟨[], .halt p s⟩
  | ask r next ih =>
    cases ran : Allocator.perform r s with
    | mk value s₁ records =>
    have granted : performIf Heap.grants r s = ⟨value, s₁, records⟩ := by
      rw [← perform_eq_performIf, ran]
    cases value with
    | error p =>
      rw [Dialogue.runOn, Op.bind_of_error ran]
      exact ⟨_, .panicked Heap.grants granted⟩
    | ok answer =>
      obtain ⟨past, runs⟩ := ih answer s₁
      rw [Dialogue.runOn, Op.bind_of_ok ran]
      exact ⟨_, .answered Heap.grants granted runs⟩

/-- No run takes slots out of the table of a heap. -/
theorem indexed {d : Dialogue α} {value : Except Panic α} (runs : Runs d s past value s')
    (few : s'.1.Indexed) : s.1.Indexed := by
  induction runs with
  | done | halt => exact few
  | answered granted ran _ ih =>
    apply indexed_before granted
    rw [ran]
    exact ih few
  | panicked granted ran =>
    apply indexed_before granted
    rw [ran]
    exact few

/-- A run of two dialogues is a run of the first and then one of the second, or the first was cut
short. -/
theorem split {d : Dialogue α} {f : α → Dialogue β} {value : Except Panic β}
    (runs : Runs (d >>= f) s past value s') :
    (∃ before after a mid, past = before ++ after ∧ Runs d s before (.ok a) mid ∧
      Runs (f a) mid after value s') ∨ ∃ p, Runs d s past (.error p) s' := by
  change Runs (d.bind f) s past value s' at runs
  induction d generalizing s past with
  | done a => exact .inl ⟨[], past, a, s, rfl, .done a s, runs⟩
  | halt p =>
    cases runs
    exact .inr ⟨p, .halt p _⟩
  | ask r next ih =>
    cases runs with
    | panicked granted ran => exact .inr ⟨_, .panicked granted ran⟩
    | answered granted ran rest =>
      rcases ih _ rest with ⟨before, after, a, mid, rfl, first, second⟩ | ⟨p, first⟩
      · exact .inl ⟨_ :: before, after, a, mid, rfl, .answered granted ran first, second⟩
      · exact .inr ⟨p, .answered granted ran first⟩

end Runs

theorem Dialogue.reflects_runOn {α : Type} (d : Dialogue α) :
    d.runOn.Reflects fun s => s.1.Indexed := by
  intro s few
  obtain ⟨past, runs⟩ := Runs.of_runOn d s
  exact runs.indexed few

/-! ### The driver -/

namespace Driver

def lookUp (table : Table) (slot : Nat) : Dialogue (Option Ptr) :=
  match table[slot]? with
  | some held => return held
  | none => .halt (.outOfRange table.size slot)

def releaseHeld : Option Ptr → Dialogue Unit
  | some p => .request (.release p)
  | none => return ()

def step (table : Table) : PlanStep → Dialogue (Table × Bool)
  | .grab slot bytes => do
    releaseHeld (← lookUp table slot)
    let p ← .request (.grab bytes)
    return (table.setIfInBounds slot p, p.isNone)
  | .resize slot bytes => do
    match ← lookUp table slot with
    | none => return (table, false)
    | some old =>
      match ← .request (.resize old bytes) with
      | some p => return (table.setIfInBounds slot (some p), false)
      | none => return (table, true)
  | .release slot => do
    releaseHeld (← lookUp table slot)
    return (table.setIfInBounds slot none, false)

def steps (stop : Bool) (table : Table) (refused : Nat) : Plan → Dialogue (Table × Nat)
  | [] => return (table, refused)
  | s :: rest => do
    let (table, refusal) ← step table s
    let refused := refused + refusal.toNat
    if stop && refused != 0 then return (table, refused)
    else steps stop table refused rest

def releaseAll : List Ptr → Dialogue Unit
  | [] => return ()
  | p :: rest => do
    .request (.release p)
    releaseAll rest

/-- The driver of a plan: what it asks, whatever allocator it is on. -/
def drive (stop : Bool) (plan : Plan) (slots : Nat) : Dialogue Nat := do
  .ofExcept (reserve (slotSize * max slots 1))
  let (table, refused) ← steps stop (Table.empty slots) 0 plan
  releaseAll table.blocks
  return refused

open Dialogue

theorem runOn_lookUp (table : Table) (slot : Nat) :
    (lookUp table slot).runOn = Plan.lookUp table slot := by
  rw [lookUp, Plan.lookUp]
  cases table[slot]? <;> rfl

theorem runOn_releaseHeld (held : Option Ptr) :
    (releaseHeld held).runOn = Plan.releaseHeld held := by
  cases held with
  | none => rfl
  | some p => exact runOn_request _

theorem runOn_step (table : Table) (s : PlanStep) : (step table s).runOn = Plan.step table s := by
  cases s with
  | grab slot n =>
    simp only [step, Plan.step, runOn_bind, runOn_lookUp, runOn_releaseHeld, runOn_request]
    rfl
  | resize slot n =>
    simp only [step, Plan.step, runOn_bind, runOn_lookUp]
    congr 1
    funext held
    cases held with
    | none => rfl
    | some p =>
      simp only [runOn_bind, runOn_request]
      congr 1
      funext answer
      cases answer <;> rfl
  | release slot =>
    simp only [step, Plan.step, runOn_bind, runOn_lookUp, runOn_releaseHeld]
    rfl

theorem runOn_steps (stop : Bool) (table : Table) (refused : Nat) (plan : Plan) :
    (steps stop table refused plan).runOn = Plan.steps stop table refused plan := by
  induction plan generalizing table refused with
  | nil => rfl
  | cons s rest ih =>
    rw [steps, Plan.steps, runOn_bind, runOn_step]
    congr 1
    funext answer
    obtain ⟨table, refusal⟩ := answer
    simp only
    split
    · rfl
    · exact ih table _

theorem runOn_releaseAll (blocks : List Ptr) :
    (releaseAll blocks).runOn = Plan.releaseAll blocks := by
  induction blocks with
  | nil => rfl
  | cons p rest ih => rw [releaseAll, Plan.releaseAll, runOn_bind, runOn_request, ih]

/-- The driver of plans is the dialogue. -/
theorem runOn_drive (stop : Bool) (plan : Plan) (slots : Nat) :
    (drive stop plan slots).runOn = Plan.drive stop plan slots := by
  simp only [drive, Plan.drive, runOn_bind, runOn_ofExcept, runOn_steps, runOn_releaseAll]
  rfl

end Driver

end Plan

end MemoryTrial
