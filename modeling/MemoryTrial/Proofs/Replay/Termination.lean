import MemoryTrial.Proofs.World.Checkpoints
import MemoryTrial.World.Kinds

/-! Replays of arbitrary tests.  A test may do something else in each run: what it does depends on the
whole state of the process, and it may replay tests of its own.  Still a replay of it comes to its end
when each run does (`replay_terminates`), because a run passes checkpoints of its frame only, and so
the next pattern is a smaller number, which begins with no path of a run before. -/

namespace MemoryTrial

theorem exists_last_failure {path : List Bool} (failed : true ∈ path) :
    ∃ front n, path = front ++ true :: List.replicate n false := by
  induction path with
  | nil => cases failed
  | cons first path ih =>
    by_cases later : true ∈ path
    · obtain ⟨front, n, rfl⟩ := ih later
      exact ⟨first :: front, n, rfl⟩
    · have all : path = List.replicate path.length false := by
        refine List.eq_replicate_iff.mpr ⟨rfl, fun b mem => ?_⟩
        cases b with
        | false => rfl
        | true => exact absurd mem later
      refine ⟨[], path.length, ?_⟩
      rcases List.mem_cons.mp failed with rfl | mem
      · rw [List.nil_append, ← all]
      · exact absurd mem later

namespace Frame

variable {f g left : Frame} {path : List Bool}

theorem begins_of_passes (passes : f.reset.Passes path left) :
    f.Begins path ∧ path.length ≤ maxCheckpoints ∧ f.afterRun left = f.ran path := by
  obtain ⟨continues, room, rfl⟩ := passes.spec
  refine ⟨fun i b hi => ?_, ?_, f.afterRun_pass path⟩
  · have next := continues i b hi
    rwa [show f.reset.count + i = i from Nat.zero_add i] at next
  · rw [show f.reset.count = 0 from rfl, Nat.zero_add] at room
    exact room.trans (Nat.max_le.mpr ⟨Nat.zero_le _, Nat.le_refl _⟩)

theorem triggered_of_passes (passes : f.reset.Passes path left) :
    left.triggered = path.contains true ∧ left.count = path.length := by
  obtain ⟨-, -, rfl⟩ := passes.spec
  exact ⟨Bool.false_or _, Nat.zero_add _⟩

/-- After a run along a path with a failing checkpoint the pattern moves on, and every pattern that
begins with this path is a greater number than the next one. -/
theorem exists_advance (begins : f.Begins path) (short : path.length ≤ maxCheckpoints)
    (failed : true ∈ path) :
    ∃ g, (f.ran path).advance? = some g ∧ g.value < f.value ∧
      ∀ h : Frame, h.Begins path → g.value < h.value := by
  obtain ⟨front, n, rfl⟩ := exists_last_failure failed
  have inside : front.length < maxCheckpoints := by
    simp only [List.length_append, List.length_cons] at short
    omega
  obtain ⟨g, advance, next, -⟩ := advance?_ran begins inside
  obtain ⟨same, passes⟩ := begins_snoc.mp next
  have greater (h : Frame) (other : h.Begins (front ++ true :: List.replicate n false)) :
      g.value < h.value := by
    -- the first difference is at the checkpoint that failed last
    refine valueTo_lt inside (fun j hj => ?_) ?_ passes
    · have letter := List.getElem?_eq_getElem hj
      have there : (front ++ true :: List.replicate n false)[j]? = some front[j] := by
        rw [List.getElem?_append_left hj, letter]
      rw [other j _ there, same j _ letter]
    · exact other front.length true (by simp)
  exact ⟨g, advance, greater f begins, greater⟩

end Frame

variable {κ η σ : Type}

/-- A run of a test: the pattern that it had, the letters of the checkpoints that it passed, and its
answer. -/
structure Round where
  frame : Frame
  path : List Bool
  result : Bool

/-- A run of `body` from the state `w` on, which leaves the frame `left` and the state `w'`. -/
structure Round.Is (r : Round) (body : Run κ η σ Bool) (w : World κ η σ) (left : Frame)
    (w' : World κ η σ) : Prop where
  ran : body { w with frame := some r.frame.reset } = .ok r.result w'
  active : w'.frame = some left
  passes : r.frame.reset.Passes r.path left

/-- A replay of `body` from the state `start` on has made some runs, each with a failing checkpoint,
and is about to begin another one with the pattern `f` in the state `w`. -/
inductive Replaying (body : Run κ η σ Bool) (start : World κ η σ) :
    List Round → Frame → World κ η σ → Prop
  | first : Replaying body start [] Frame.fresh start
  | next {rounds : List Round} {w w' : World κ η σ} {r : Round} {left g : Frame} :
    Replaying body start rounds r.frame w → r.Is body w left w' → left.triggered = true →
    (r.frame.afterRun left).advance? = some g →
    Replaying body start (rounds ++ [r]) g { w' with
      journal := w'.journal.push (.record (.runForced (rounds.length + 1) left.count)) }

section Loop

variable {body : Run κ η σ Bool} {start w w' : World κ η σ} {rounds : List Round} {f left : Frame}
  {r : Round}

/-- A test that comes to its end has passed checkpoints of its frame. -/
theorem Round.exists_is (respects : body.Respects checkpoints) {result : Bool}
    (h : body { w with frame := some f.reset } = .ok result w') :
    ∃ path left, Round.Is ⟨f, path, result⟩ body w left w' := by
  have moves := respects { w with frame := some f.reset }
  rw [Run.leaves_of_ok h] at moves
  change Moves (some f.reset) w'.frame at moves
  cases active : w'.frame with
  | none =>
    rw [active] at moves
    cases moves
  | some left =>
    rw [active] at moves
    cases moves with
    | passes passes => exact ⟨_, left, h, active, passes⟩

/-- A run with a failing checkpoint moves the pattern on to a smaller number. -/
theorem Round.Is.exists_advance (is : r.Is body w left w') (failed : left.triggered = true) :
    ∃ g, (r.frame.afterRun left).advance? = some g ∧ g.value < r.frame.value ∧
      ∀ h : Frame, h.Begins r.path → g.value < h.value := by
  obtain ⟨begins, short, after⟩ := Frame.begins_of_passes is.passes
  rw [after]
  refine Frame.exists_advance begins short ?_
  have letters := (Frame.triggered_of_passes is.passes).1
  rw [failed] at letters
  simpa using letters.symm

/-- Runs one after the other: the patterns go down, and no path goes on from one before. -/
structure Ordered (rounds : List Round) : Prop where
  descending : rounds.Pairwise fun earlier later => later.frame.value < earlier.frame.value
  apart : rounds.Pairwise fun earlier later => ¬earlier.path <+: later.path

/-- The runs that a replay made before the pattern `f`.  By then the pattern is a smaller number than
every pattern that begins with the path of one of them. -/
structure Before (rounds : List Round) (f : Frame) : Prop where
  forced : ∀ r ∈ rounds, true ∈ r.path
  begins : ∀ r ∈ rounds, r.frame.Begins r.path
  below : ∀ r ∈ rounds, ∀ g : Frame, g.Begins r.path → f.value < g.value
  ordered : Ordered rounds

theorem Before.ordered_snoc (h : Before rounds r.frame) (begun : r.frame.Begins r.path) :
    Ordered (rounds ++ [r]) := by
  constructor
  · refine List.pairwise_append.mpr ⟨h.ordered.descending, List.pairwise_singleton .., ?_⟩
    intro earlier mem later mem'
    rw [List.mem_singleton.mp mem']
    exact h.below earlier mem earlier.frame (h.begins earlier mem)
  · refine List.pairwise_append.mpr ⟨h.ordered.apart, List.pairwise_singleton .., ?_⟩
    intro earlier mem later mem' front
    rw [List.mem_singleton.mp mem'] at front
    obtain ⟨rest, whole⟩ := front
    -- a pattern that begins with the earlier path is a greater number than itself
    refine Nat.lt_irrefl _ (h.below earlier mem r.frame ?_)
    rw [← whole] at begun
    exact Frame.begins_append_left begun

theorem Replaying.before (h : Replaying body start rounds f w) : Before rounds f := by
  induction h with
  | first => exact ⟨nofun, nofun, nofun, .nil, .nil⟩
  | @next rounds w w' r left g _ is failed advance ih =>
    obtain ⟨g', advance', less, greater⟩ := is.exists_advance failed
    obtain rfl : g = g' := Option.some.inj (advance.symm.trans advance')
    have begun := (Frame.begins_of_passes is.passes).1
    refine ⟨?_, ?_, ?_, ih.ordered_snoc begun⟩
    · intro r' mem
      rcases List.mem_append.mp mem with mem | mem
      · exact ih.forced r' mem
      · have letters := (Frame.triggered_of_passes is.passes).1
        rw [failed] at letters
        rw [List.mem_singleton.mp mem]
        simpa using letters.symm
    · intro r' mem
      rcases List.mem_append.mp mem with mem | mem
      · exact ih.begins r' mem
      · rw [List.mem_singleton.mp mem]
        exact begun
    · intro r' mem h other
      rcases List.mem_append.mp mem with mem | mem
      · exact Nat.lt_trans less (ih.below r' mem h other)
      · rw [List.mem_singleton.mp mem] at other
        exact greater h other

/-- A replay that is about to begin a run comes to its end, when its runs do. -/
theorem Replaying.exists_last (respects : body.Respects checkpoints)
    (returns : ∀ rounds f w, Replaying body start rounds f w →
      ∃ result w', body { w with frame := some f.reset } = .ok result w')
    (h : Replaying body start rounds f w) :
    ∃ before last v left v' w', Replaying body start before last.frame v ∧
      Round.Is last body v left v' ∧ left.triggered = false ∧
      Frame.replayFrom (Run.underFrame body) Run.log rounds.length f w =
        .ok (some ⟨last.result, before.length + 1, last.path.length⟩) w' := by
  induction hn : f.value using Nat.strong_induction_on generalizing rounds f w with
  | _ n ih =>
    obtain ⟨result, w', ran⟩ := returns rounds f w h
    obtain ⟨path, left, is⟩ := Round.exists_is respects ran
    have run := Run.underFrame_of_ok ran is.active
    cases failed : left.triggered with
    | false =>
      have count := (Frame.triggered_of_passes is.passes).2
      exact ⟨rounds, ⟨f, path, result⟩, w, left, w', _, h, is, failed,
        (Frame.replayFrom_of_passed run failed).trans (by rw [count])⟩
    | true =>
      obtain ⟨g, advance, less, -⟩ := is.exists_advance failed
      have later := Replaying.next h is failed advance
      obtain ⟨before, last, v, left', v', w'', reached, last_is, passed, ended⟩ :=
        ih g.value (hn ▸ less) later rfl
      refine ⟨before, last, v, left', v', w'', reached, last_is, passed, ?_⟩
      rw [Frame.replayFrom_of_failed run failed advance]
      rwa [List.length_append] at ended

/-- How a replay ends: after some runs with a failing checkpoint, and one without. -/
structure Completed (body : Run κ η σ Bool) (start : World κ η σ) (rounds : List Round)
    (last : Round) : Prop where
  reached : ∃ w left w', Replaying body start rounds last.frame w ∧ last.Is body w left w'
  forced : ∀ r ∈ rounds, true ∈ r.path
  passed : true ∉ last.path
  ordered : Ordered (rounds ++ [last])

theorem Replaying.completed {last : Round} (h : Replaying body start rounds last.frame w)
    (is : last.Is body w left w') (passed : left.triggered = false) :
    Completed body start rounds last := by
  have letters := (Frame.triggered_of_passes is.passes).1
  rw [passed] at letters
  exact ⟨⟨w, left, w', h, is⟩, h.before.forced, by simpa using letters.symm,
    h.before.ordered_snoc (Frame.begins_of_passes is.passes).1⟩

end Loop

section Programs

variable [DecidableEq η] (env : Environment κ η σ) (body : Client κ η σ Bool) (w : World κ η σ)

theorem Client.run_respects_checkpoints {α : Type} (c : Client κ η σ α) :
    (c.run env).Respects checkpoints := c.respects_checkpoints env runLimit runLimit

/-- A replay of any test comes to its end, when each of its runs does.  After a run with a failing
checkpoint the pattern moves on to a smaller number, and no run passes its checkpoints as an earlier
one did, not even to go on after them.  The answer is that of the last run, the only one without a
failing checkpoint. -/
theorem replay_terminates
    (returns : ∀ rounds f v, Replaying (body.run env) w rounds f v →
      ∃ result v', body.run env { v with frame := some f.reset } = .ok result v') :
    (∀ (f : Frame) (v v' : World κ η σ) (result : Bool),
      body.run env { v with frame := some f.reset } = .ok result v' →
      ∃ path left, Round.Is ⟨f, path, result⟩ (body.run env) v left v' ∧
        (true ∈ path → ∃ next, (f.afterRun left).advance? = some next ∧ next.value < f.value)) ∧
    ∃ rounds last w', Completed (body.run env) w rounds last ∧
      (Client.replayed body).run env w =
        .ok ⟨last.result, rounds.length + 1, last.path.length⟩ w' := by
  have respects := body.run_respects_checkpoints env
  constructor
  · intro f v v' result ran
    obtain ⟨path, left, is⟩ := Round.exists_is respects ran
    refine ⟨path, left, is, fun failed => ?_⟩
    have triggered : left.triggered = true := by
      rw [(Frame.triggered_of_passes is.passes).1]
      simpa using failed
    obtain ⟨next, advance, less, -⟩ := is.exists_advance triggered
    exact ⟨next, advance, less⟩
  · obtain ⟨before, last, v, left, v', w', reached, is, passed, ended⟩ :=
      Replaying.first.exists_last respects returns
    refine ⟨before, last, { w' with frame := w.frame }, reached.completed is passed, ?_⟩
    obtain ⟨nested, run_eq⟩ := Client.exists_run_eq env
    rw [run_eq] at ended ⊢
    rw [Client.replayed, Client.runWith, Run.bind_of_ok (Run.replay_of_ok ended)]
    rfl

end Programs

/-- A test that passes a checkpoint in its first run only. -/
def forgetfulTest : Client Unit Unit Trace Bool := do
  let t ← Client.state
  Client.modify Trace.finish
  if t.finished.isEmpty then
    let failed ← Client.ask .checkpoint
    return !failed
  else return true

def plainEnvironment : Environment Unit Unit Trace :=
  { kind := fun _ => Kind.heap, hook := fun _ => return (), production := ⟨"default", ()⟩ }

theorem forgetfulTest_returns (f : Frame) (v : World Unit Unit Trace) :
    ∃ result v', forgetfulTest.run plainEnvironment { v with frame := some f.reset } =
      .ok result v' := by
  obtain ⟨nested, run_eq⟩ := Client.exists_run_eq plainEnvironment
  rw [run_eq]
  have looked : (Client.state : Client Unit Unit Trace Trace).runWith plainEnvironment nested runLimit
      { v with frame := some f.reset } = .ok v.client { v with frame := some f.reset } := rfl
  have noted := runWith_modify plainEnvironment nested runLimit
    (w := { v with frame := some f.reset }) Trace.finish
  rw [forgetfulTest, Client.runWith_bind, Run.bind_of_ok looked, Client.runWith_bind,
    Run.bind_of_ok noted]
  split
  · have passed := runWith_checkpoint plainEnvironment nested runLimit
      (w := { v with frame := some f.reset, client := v.client.finish }) rfl
      (Nat.zero_lt_succ _) rfl
    rw [Client.runWith_bind, Run.bind_of_ok passed]
    exact ⟨_, _, rfl⟩
  · exact ⟨_, _, rfl⟩

/-- The state of a process before its first test. -/
def plainStart : World Unit Unit Trace := World.start ⟨"default", ()⟩ false ⟨[], []⟩

theorem forgetfulTest_terminates :
    (∀ rounds f v, Replaying (forgetfulTest.run plainEnvironment) plainStart rounds f v →
      ∃ result v', forgetfulTest.run plainEnvironment { v with frame := some f.reset } =
        .ok result v') ∧
    ∃ rounds last w', Completed (forgetfulTest.run plainEnvironment) plainStart rounds last ∧
      (Client.replayed forgetfulTest).run plainEnvironment plainStart =
        .ok ⟨last.result, rounds.length + 1, last.path.length⟩ w' :=
  ⟨fun _ f v _ => forgetfulTest_returns f v,
    (replay_terminates plainEnvironment forgetfulTest plainStart
      fun _ f v _ => forgetfulTest_returns f v).2⟩

end MemoryTrial
