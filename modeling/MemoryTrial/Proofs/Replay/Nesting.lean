import MemoryTrial.Proofs.Replay.Termination

/-! Replays inside replays.  A replay puts the frame that was active before back when it ends, however
it ends, and what it does in the meantime does not depend on that frame.  A test whose runs depend on
their checkpoints alone (`Deterministic`) is replayed in the same way wherever the replay begins. -/

namespace MemoryTrial

variable {κ η σ α β : Type}

namespace Run

/-- How a computation ends, and the frame that it leaves active. -/
def ends (x : Run κ η σ α) (w : World κ η σ) : Except Halt α × Option Frame :=
  match x w with
  | .ok a w' => (.ok a, w'.frame)
  | .error halt w' => (.error halt, w'.frame)

/-- What a computation does to the frame, and how it ends, depends on the frame alone: it may read no
other state that matters to it. -/
def Deterministic (x : Run κ η σ α) : Prop := ∀ w v, w.frame = v.frame → x.ends w = x.ends v

variable {x : Run κ η σ α} {f : α → Run κ η σ β} {w w' v : World κ η σ} {a : α} {halt : Halt}
  {frame : Option Frame}

theorem ends_of_ok (h : x w = .ok a w') : x.ends w = (.ok a, w'.frame) := by
  rw [ends, h]

theorem ends_of_error (h : x w = .error halt w') : x.ends w = (.error halt, w'.frame) := by
  rw [ends, h]

theorem ends_congr {y : Run κ η σ α} {v : World κ η σ} (h : x w = y v) : x.ends w = y.ends v := by
  rw [ends, h, ends]

theorem ends_eq_ok (h : x.ends w = (.ok a, frame)) : ∃ w', x w = .ok a w' ∧ w'.frame = frame := by
  unfold ends at h
  split at h
  next a' w' ran =>
    cases h
    exact ⟨w', ran, rfl⟩
  next => cases h

theorem ends_eq_error (h : x.ends w = (.error halt, frame)) :
    ∃ w', x w = .error halt w' ∧ w'.frame = frame := by
  unfold ends at h
  split at h
  next => cases h
  next halt' w' ran =>
    cases h
    exact ⟨w', ran, rfl⟩

theorem leaves_frame : (x.leaves w).frame = (x.ends w).2 := by
  unfold leaves ends
  cases x w <;> rfl

theorem ends_onPart {τ : Type} (extract : World κ η σ → τ) (insert : τ → World κ η σ → World κ η σ)
    (x : Op τ α) (w : World κ η σ) :
    (onPart extract insert x).ends w =
      (match (x (extract w)).value with
        | .ok a => .ok a
        | .error p => .error (.unwound p),
      (insert (x (extract w)).state w).frame) := by
  unfold ends onPart
  obtain ⟨value, t, records⟩ := x (extract w)
  cases value <;> rfl

namespace Deterministic

theorem pure (a : α) : (Pure.pure a : Run κ η σ α).Deterministic := by
  intro w v same
  exact congrArg (Prod.mk (Except.ok a)) same

theorem bind_ends {y : Run κ η σ α} (first : x.ends w = y.ends v)
    (hf : ∀ a, (f a).Deterministic) : (x >>= f).ends w = (y >>= f).ends v := by
  cases ran : x w with
  | ok a w' =>
    rw [ends_of_ok ran] at first
    obtain ⟨v', ran', frame⟩ := ends_eq_ok first.symm
    have next := hf a w' v' frame.symm
    rw [ends_congr (bind_of_ok ran), ends_congr (bind_of_ok ran')]
    exact next
  | error halt w' =>
    rw [ends_of_error ran] at first
    obtain ⟨v', ran', frame⟩ := ends_eq_error first.symm
    rw [ends_of_error (bind_of_error ran), ends_of_error (bind_of_error ran'), frame]

theorem bind (hx : x.Deterministic) (hf : ∀ a, (f a).Deterministic) :
    (x >>= f).Deterministic := fun w v same => bind_ends (hx w v same) hf

theorem attempt (hx : x.Deterministic) : (Run.attempt x).Deterministic := by
  intro w v same
  have inner := hx w v same
  cases ran : x w with
  | ok a w' =>
    rw [ends_of_ok ran] at inner
    obtain ⟨v', ran', frame⟩ := ends_eq_ok inner.symm
    unfold ends Run.attempt
    rw [ran, ran']
    exact congrArg (Prod.mk _) frame.symm
  | error halt w' =>
    rw [ends_of_error ran] at inner
    obtain ⟨v', ran', frame⟩ := ends_eq_error inner.symm
    unfold ends Run.attempt
    rw [ran, ran']
    cases halt with
    | unwound p => exact congrArg (Prod.mk _) frame.symm
    | endless => exact congrArg (Prod.mk _) frame.symm

theorem checkpoint : (Run.checkpoint : Run κ η σ Bool).Deterministic := by
  intro w v same
  rw [Run.checkpoint, ends_onPart, ends_onPart, same]

theorem compute (x : Op Unit α) : (Run.compute x : Run κ η σ α).Deterministic := by
  intro w v same
  rw [Run.compute, ends_onPart, ends_onPart, same]

end Deterministic

theorem ends_thread (fixture : Fixture κ) (x : Run κ η σ α) (w : World κ η σ) :
    (thread fixture x).ends w =
      (((attempt x).ends { w with frame := none, fixture }).1, w.frame) := by
  have step := thread_eq fixture x w
  cases ran : attempt x { w with frame := none, fixture } with
  | ok a w' => rw [ends_of_ok ran, ends_of_ok (step.trans (ensuring_of_ok ran))]
  | error halt w' => rw [ends_of_error ran, ends_of_error (step.trans (ensuring_of_error ran))]

/-- No frame is active on a new thread, and its fixture shows in nothing that depends on checkpoints
alone. -/
theorem Deterministic.thread_ends (hx : x.Deterministic) (same : w.frame = v.frame)
    (fixture fixture' : Fixture κ) : (thread fixture x).ends w = (thread fixture' x).ends v := by
  have inside := hx.attempt { w with frame := none, fixture }
    { v with frame := none, fixture := fixture' } rfl
  rw [ends_thread, ends_thread, same, inside]

end Run

section Loop

variable {body : Run κ η σ Bool} {w w' v : World κ η σ} {rounds : List Round} {f left : Frame}
  {r last : Round}

theorem Round.Is.of_deterministic (is : r.Is body w left w') (det : body.Deterministic)
    (v : World κ η σ) : ∃ v', r.Is body v left v' := by
  have same := det { w with frame := some r.frame.reset } { v with frame := some r.frame.reset } rfl
  rw [Run.ends_of_ok is.ran, is.active] at same
  obtain ⟨v', ran, active⟩ := Run.ends_eq_ok same.symm
  exact ⟨v', ran, active, is.passes⟩

/-- A test that depends on its checkpoints alone is run in the same way from every state. -/
theorem Replaying.of_deterministic (h : Replaying body w rounds f w') (det : body.Deterministic)
    (v : World κ η σ) : ∃ v', Replaying body v rounds f v' := by
  induction h with
  | first => exact ⟨v, .first⟩
  | next _ is failed advance ih =>
    obtain ⟨v', reached⟩ := ih
    obtain ⟨v'', is'⟩ := is.of_deterministic det v'
    exact ⟨_, .next reached is' failed advance⟩

theorem Completed.of_deterministic (h : Completed body w rounds last) (det : body.Deterministic)
    (v : World κ η σ) : Completed body v rounds last := by
  obtain ⟨⟨w', left, w'', reached, is⟩, forced, passed, ordered⟩ := h
  obtain ⟨v', reached'⟩ := reached.of_deterministic det v
  obtain ⟨v'', is'⟩ := is.of_deterministic det v'
  exact ⟨⟨v', left, v'', reached', is'⟩, forced, passed, ordered⟩

theorem Frame.replayFrom_of_deterministic (det : body.Deterministic) (runs : Nat) (f : Frame)
    (w v : World κ η σ) :
    ((Frame.replayFrom (Run.underFrame body) Run.log runs f).ends w).1 =
      ((Frame.replayFrom (Run.underFrame body) Run.log runs f).ends v).1 := by
  -- each run leads to the same next pattern, which is a smaller number
  induction hn : f.value using Nat.strong_induction_on generalizing runs f w v with
  | _ n ih =>
    have same := det { w with frame := some f.reset } { v with frame := some f.reset } rfl
    cases ran : body { w with frame := some f.reset } with
    | error halt w' =>
      rw [Run.ends_of_error ran] at same
      obtain ⟨v', ran', -⟩ := Run.ends_eq_error same.symm
      rw [Run.ends_of_error (Frame.replayFrom_of_error (Run.underFrame_of_error ran)),
        Run.ends_of_error (Frame.replayFrom_of_error (Run.underFrame_of_error ran'))]
    | ok result w' =>
      rw [Run.ends_of_ok ran] at same
      obtain ⟨v', ran', frames⟩ := Run.ends_eq_ok same.symm
      have run := Run.underFrame_of_returned ran
      have run' := Run.underFrame_of_returned ran'
      rw [frames] at run'
      obtain ⟨left, hleft⟩ : ∃ left, left = w'.frame.getD f.reset.reset := ⟨_, rfl⟩
      rw [← hleft] at run run'
      cases failed : left.triggered with
      | false =>
        rw [Run.ends_of_ok (Frame.replayFrom_of_passed run failed),
          Run.ends_of_ok (Frame.replayFrom_of_passed run' failed)]
      | true =>
        cases advance : (f.afterRun left).advance? with
        | none =>
          rw [Run.ends_of_ok (Frame.replayFrom_of_stuck run failed advance),
            Run.ends_of_ok (Frame.replayFrom_of_stuck run' failed advance)]
        | some next =>
          have less := Frame.value_advance?_lt advance
          rw [Frame.value_afterRun, hn] at less
          have later := ih next.value less (runs + 1) next
            { w' with journal := w'.journal.push (.record (.runForced (runs + 1) left.count)) }
            { v' with journal := v'.journal.push (.record (.runForced (runs + 1) left.count)) } rfl
          rw [Run.ends_congr (Frame.replayFrom_of_failed run failed advance),
            Run.ends_congr (Frame.replayFrom_of_failed run' failed advance)]
          exact later

end Loop

namespace Run

variable {body : Run κ η σ Bool}

theorem replay_of_none {w w' : World κ η σ}
    (h : Frame.replay (underFrame body) log w = .ok none w') :
    replay body w = .error .endless { w' with frame := w.frame } := by
  rw [replay, bind_of_ok (get_run w)]
  exact ensuring_of_error (bind_of_ok h)

/-- What a replay does does not depend on the frame that was active when it began. -/
theorem replay_hides (body : Run κ η σ Bool) (w : World κ η σ) (outer : Option Frame) :
    replay body { w with frame := outer } =
      ensuring (replay body) (fun w' => { w' with frame := outer }) { w with frame := none } := by
  -- the first thing that a run does is to make its own frame the active one
  have loop : Frame.replay (underFrame body) log { w with frame := outer } =
      Frame.replay (underFrame body) log { w with frame := none } := by
    rw [Frame.replay, Frame.replayFrom]
    rfl
  cases ended : Frame.replay (underFrame body) log { w with frame := none } with
  | ok outcome w' =>
    cases outcome with
    | some outcome =>
      rw [ensuring_of_ok (replay_of_ok ended), replay_of_ok (loop.trans ended)]
    | none => rw [ensuring_of_error (replay_of_none ended), replay_of_none (loop.trans ended)]
  | error halt w' =>
    rw [ensuring_of_error (replay_of_error ended), replay_of_error (loop.trans ended)]

theorem replay_of_deterministic (det : body.Deterministic) (w v : World κ η σ) :
    ((replay body).ends w).1 = ((replay body).ends v).1 := by
  have same := Frame.replayFrom_of_deterministic det 0 Frame.fresh w v
  cases ended : Frame.replay (underFrame body) log w with
  | ok outcome w' =>
    unfold Frame.replay at ended
    rw [ends_of_ok ended] at same
    have first : (_ : Except Halt (Option Outcome)) = .ok outcome := same.symm
    obtain ⟨v', ended', -⟩ := ends_eq_ok (Prod.ext first rfl)
    cases outcome with
    | some outcome =>
      rw [ends_of_ok (replay_of_ok ended), ends_of_ok (replay_of_ok ended')]
    | none => rw [ends_of_error (replay_of_none ended), ends_of_error (replay_of_none ended')]
  | error halt w' =>
    unfold Frame.replay at ended
    rw [ends_of_error ended] at same
    have first : (_ : Except Halt (Option Outcome)) = .error halt := same.symm
    obtain ⟨v', ended', -⟩ := ends_eq_error (Prod.ext first rfl)
    rw [ends_of_error (replay_of_error ended), ends_of_error (replay_of_error ended')]

theorem Deterministic.replay (det : body.Deterministic) :
    (Run.replay body).Deterministic := by
  intro w v same
  have frames : ((Run.replay body).ends w).2 = ((Run.replay body).ends v).2 := by
    rw [← leaves_frame, ← leaves_frame, leaves_replay, leaves_replay]
    exact same
  exact Prod.ext (replay_of_deterministic det w v) frames

end Run

/-- A program that asks for nothing but checkpoints and its own computations, also in the replays, the
attempts and the threads inside it. -/
def Client.Plain {α : Type} : Client κ η σ α → Prop
  | .pure _ => True
  | .call .checkpoint next => ∀ failed, (next failed).Plain
  | .call (.compute _) next => ∀ b, (next b).Plain
  | .call _ _ => False
  | .replay body next => body.Plain ∧ ∀ o, (next o).Plain
  | .attempt body next => body.Plain ∧ ∀ r, (next r).Plain
  | .scope _ _ _ => False
  | .within _ _ _ _ _ => False
  | .thread _ body next => body.Plain ∧ ∀ r, (next r).Plain

section Programs

variable [DecidableEq η] (env : Environment κ η σ)

open Run in
theorem Client.Plain.deterministic (nested : Nested κ η σ) (bound : Nat) {c : Client κ η σ α}
    (plain : c.Plain) : (c.runWith env nested bound).Deterministic := by
  induction c with
  | pure a =>
    rw [Client.runWith]
    exact .pure a
  | call c next ih =>
    rw [Client.runWith]
    cases c with
    | checkpoint => exact Deterministic.checkpoint.bind fun b => ih b (plain b)
    | compute x => exact (Deterministic.compute x).bind fun b => ih b (plain b)
    | _ => exact plain.elim
  | replay body next ihb ih =>
    rw [Client.runWith]
    exact (ihb plain.1).replay.bind fun o => ih o (plain.2 o)
  | attempt body next ihb ih =>
    rw [Client.runWith]
    exact (ihb plain.1).attempt.bind fun r => ih r (plain.2 r)
  | scope f body next => exact plain.elim
  | within h p edit body next => exact plain.elim
  | thread inherits body next ihb ih =>
    rw [Client.runWith]
    intro w v same
    have begun := (ihb plain.1).thread_ends same (if inherits then w.fixture else env.production)
      (if inherits then v.fixture else env.production)
    have ended := Deterministic.bind_ends begun fun r => ih r (plain.2 r)
    unfold ends at ended ⊢
    rw [bind_of_ok (get_run w), bind_of_ok (get_run v)]
    exact ended

/-- What a replay in the scope of other replays does. -/
structure Nests (body : Client κ η σ Bool) : Prop where
  /-- The frame that was active before is active again, however the replay ends. -/
  restores : ∀ w : World κ η σ, (((Client.replayed body).run env).leaves w).frame = w.frame
  /-- The replay does what it does when no frame is active, and leaves what it leaves then. -/
  hides : ∀ (w : World κ η σ) (outer : Option Frame),
    (Client.replayed body).run env { w with frame := outer } =
      Run.ensuring ((Client.replayed body).run env) (fun w' => { w' with frame := outer })
        { w with frame := none }
  /-- A test that depends on its checkpoints alone has the same outcome from every state. -/
  outcome : (body.run env).Deterministic → ∀ w v,
    (((Client.replayed body).run env).ends w).1 = (((Client.replayed body).run env).ends v).1
  /-- And it makes the same runs, as far as it comes. -/
  runs : (body.run env).Deterministic → ∀ w v rounds f,
    (∃ w', Replaying (body.run env) w rounds f w') ↔ ∃ v', Replaying (body.run env) v rounds f v'
  completed : (body.run env).Deterministic → ∀ w v rounds last,
    Completed (body.run env) w rounds last ↔ Completed (body.run env) v rounds last

theorem Client.run_replayed (body : Client κ η σ Bool) :
    (Client.replayed body).run env = Run.replay (body.run env) := by
  obtain ⟨nested, run_eq⟩ := Client.exists_run_eq env
  rw [run_eq, run_eq, Client.replayed, Client.runWith]
  exact bind_pure _

/-- Replays nest: an inner one is not seen by the outer one, nor the outer one by the inner one. -/
theorem replay_nests (body : Client κ η σ Bool) : Nests env body := by
  refine ⟨fun w => ?_, fun w outer => ?_, fun det w v => ?_, fun det w v rounds f => ?_,
    fun det w v rounds last => ?_⟩
  · rw [Client.run_replayed]
    rw [Run.leaves_replay]
  · rw [Client.run_replayed]
    exact Run.replay_hides _ w outer
  · rw [Client.run_replayed]
    exact Run.replay_of_deterministic det w v
  · constructor
    · rintro ⟨w', reached⟩
      exact reached.of_deterministic det v
    · rintro ⟨v', reached⟩
      exact reached.of_deterministic det w
  · constructor
    · intro completed
      exact completed.of_deterministic det v
    · intro completed
      exact completed.of_deterministic det w

end Programs

/-- A test that replays another one behind its checkpoint, and then one that unwinds at the first
failure. -/
def nestedTest : Client Unit Unit Trace Bool := do
  if ← Client.ask .checkpoint then return false
  let inner ← Client.replayed do
    let failed ← Client.ask .checkpoint
    return !failed
  let unwound ← Client.caught <| Client.replayed do
    if ← Client.ask .checkpoint then Client.raise (.message "refused")
    return true
  return inner.result && unwound.toOption.isNone

theorem nestedTest_plain : nestedTest.Plain := by
  intro failed
  cases failed with
  | true => exact trivial
  | false =>
    refine ⟨fun failed => trivial, fun inner => ⟨⟨fun failed => ?_, fun o => trivial⟩, fun r => trivial⟩⟩
    cases failed with
    | true => exact fun _ => trivial
    | false => exact trivial

theorem nestedTest_deterministic : (nestedTest.run plainEnvironment).Deterministic := by
  obtain ⟨nested, run_eq⟩ := Client.exists_run_eq plainEnvironment
  rw [run_eq]
  exact nestedTest_plain.deterministic plainEnvironment nested runLimit

/-- It ends inside a replay that has passed a failing checkpoint as it ends outside. -/
theorem nestedTest_nests :
    Nests plainEnvironment nestedTest ∧
      (((Client.replayed nestedTest).run plainEnvironment).ends
          { plainStart with frame := some (Frame.fresh.pass [true]) }).1 =
        (((Client.replayed nestedTest).run plainEnvironment).ends plainStart).1 :=
  ⟨replay_nests plainEnvironment nestedTest,
    (replay_nests plainEnvironment nestedTest).outcome nestedTest_deterministic _ _⟩

end MemoryTrial
