import MemoryTrial.Record

/-! Operations on a state.  An operation always leaves a state and the records that it wrote; its
answer is a value, or the panic that cut it short.  Nothing is undone by a panic: the state is the
one at that point. -/

namespace MemoryTrial

/-- What an operation leaves: an answer or a panic, the state, and the records in order. -/
structure Result (σ α : Type) where
  value : Except Panic α
  state : σ
  records : List Record

/-- The result with more records in front. -/
def Result.after {σ α : Type} (records : List Record) (r : Result σ α) : Result σ α :=
  ⟨r.value, r.state, records ++ r.records⟩

@[simp] theorem Result.after_nil {σ α : Type} (r : Result σ α) : r.after [] = r := rfl

/-- An operation on states of type `σ` with answers of type `α`. -/
def Op (σ α : Type) : Type := σ → Result σ α

namespace Op

variable {σ τ α β : Type}

@[inline] protected def pure (a : α) : Op σ α := fun s => ⟨.ok a, s, []⟩

/-- Does `x`, then `f` of its answer.  A panic of `x` is the answer of both. -/
@[inline] protected def bind (x : Op σ α) (f : α → Op σ β) : Op σ β := fun s =>
  match x s with
  | ⟨.ok a, s', records⟩ =>
    match f a s' with
    | ⟨value, s'', records'⟩ => ⟨value, s'', records ++ records'⟩
  | ⟨.error p, s', records⟩ => ⟨.error p, s', records⟩

instance : Monad (Op σ) where
  pure := Op.pure
  bind := Op.bind

@[inline] def get : Op σ σ := fun s => ⟨.ok s, s, []⟩

@[inline] def set (s : σ) : Op σ Unit := fun _ => ⟨.ok (), s, []⟩

@[inline] def modify (f : σ → σ) : Op σ Unit := fun s => ⟨.ok (), f s, []⟩

@[inline] def read (f : σ → α) : Op σ α := fun s => ⟨.ok (f s), s, []⟩

@[inline] def log (r : Record) : Op σ Unit := fun s => ⟨.ok (), s, [r]⟩

/-- Cuts the operation short; a violation is reported first. -/
@[inline] def raise (p : Panic) : Op σ α := fun s => ⟨.error p, s, p.records⟩

/-- Goes on unwinding with a panic that was reported before. -/
@[inline] def unwind (p : Panic) : Op σ α := fun s => ⟨.error p, s, []⟩

/-- Reports a violation and unwinds. -/
@[inline] def fatal (v : Violation) : Op σ α := raise (.violation v)

/-- A computation that reads no state, as an operation. -/
@[inline] def ofExcept : Except Panic α → Op σ α
  | .ok a => Op.pure a
  | .error p => raise p

instance : MonadLift (Except Panic) (Op σ) where
  monadLift x := ofExcept x

/-- Looks at the state, which may cut the operation short. -/
@[inline] def inspect (f : σ → Except Panic α) : Op σ α := fun s => ofExcept (f s) s

/-- An operation on a part of a larger state, which `extract` reads and `insert` puts back. -/
@[inline] def focus (extract : τ → σ) (insert : σ → τ → τ) (x : Op σ α) : Op τ α := fun t =>
  match x (extract t) with
  | ⟨value, s, records⟩ => ⟨value, insert s t, records⟩

@[simp] theorem pure_run (a : α) (s : σ) : (pure a : Op σ α) s = ⟨.ok a, s, []⟩ := rfl

theorem bind_run (x : Op σ α) (f : α → Op σ β) (s : σ) :
    (x >>= f) s =
      match x s with
      | ⟨.ok a, s', records⟩ => ⟨(f a s').value, (f a s').state, records ++ (f a s').records⟩
      | ⟨.error p, s', records⟩ => ⟨.error p, s', records⟩ := rfl

theorem bind_of_ok {x : Op σ α} {f : α → Op σ β} {s s' : σ} {a : α} {records : List Record}
    (h : x s = ⟨.ok a, s', records⟩) : (x >>= f) s = (f a s').after records := by
  rw [bind_run, h]
  rfl

theorem bind_of_error {x : Op σ α} {f : α → Op σ β} {s s' : σ} {p : Panic} {records : List Record}
    (h : x s = ⟨.error p, s', records⟩) : (x >>= f) s = ⟨.error p, s', records⟩ := by
  rw [bind_run, h]

theorem inspect_of_ok {f : σ → Except Panic α} {s : σ} {a : α} (h : f s = .ok a) :
    inspect f s = ⟨.ok a, s, []⟩ := by
  rw [inspect, h]
  rfl

theorem inspect_of_error {f : σ → Except Panic α} {s : σ} {p : Panic} (h : f s = .error p) :
    inspect f s = ⟨.error p, s, p.records⟩ := by
  rw [inspect, h]
  rfl

end Op

end MemoryTrial
