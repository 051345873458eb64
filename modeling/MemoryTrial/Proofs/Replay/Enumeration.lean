import MemoryTrial.Proofs.Replay.DecisionTree
import MemoryTrial.Proofs.World.Programs

/-! Replays of deterministic tests.  A replay of a test runs it along every path of its decision tree,
once and in order (`replay_enumerates`). -/

namespace MemoryTrial

/-- What a test notes of its runs: the paths of those that came to their end, and the letters of the
running one. -/
structure Trace where
  finished : List (List Bool)
  current : List Bool

namespace Trace

def pass (failed : Bool) (t : Trace) : Trace := { t with current := t.current ++ [failed] }

def finish (t : Trace) : Trace := ⟨t.finished ++ [t.current], []⟩

end Trace

variable {κ η : Type}

/-- The test with a decision tree, as a program that notes its runs. -/
def DecisionTree.test : DecisionTree → Client κ η Trace Bool
  | leaf result => do
    Client.modify Trace.finish
    return result
  | node fails passes => do
    let failed ← Client.ask .checkpoint
    Client.modify (Trace.pass failed)
    if failed then fails.test else passes.test

/-- The frame after more checkpoints, those of a path. -/
def Frame.pass (f : Frame) (path : List Bool) : Frame :=
  { f with triggered := f.triggered || path.contains true, count := f.count + path.length }

/-- The checkpoints that come next have the letters of a path. -/
def Frame.Continues (f : Frame) (path : List Bool) : Prop :=
  ∀ i failed, path[i]? = some failed → f.willFail (f.count + i) = failed

@[simp] theorem Frame.pass_nil (f : Frame) : f.pass [] = f := by
  simp [pass]

theorem Frame.pass_pass (f : Frame) (path letters : List Bool) :
    (f.pass path).pass letters = f.pass (path ++ letters) := by
  simp [pass, Bool.or_assoc, Nat.add_assoc]

theorem Frame.Continues.tail {f : Frame} {failed : Bool} {path : List Bool}
    (h : f.Continues (failed :: path)) : (f.pass [failed]).Continues path := by
  intro i b hi
  have next := h (i + 1) b (by simpa using hi)
  rwa [Nat.add_comm i 1, ← Nat.add_assoc] at next

theorem Frame.Begins.continues {f : Frame} {path : List Bool} (begins : f.Begins path) :
    f.reset.Continues path := by
  intro i b hi
  rw [show f.reset.count + i = i from Nat.zero_add i]
  exact begins i b hi

/-- Passing the next checkpoint adds its letter to the run. -/
theorem checkpoint_of_willFail {f : Frame} {failed : Bool} (inside : f.count < maxCheckpoints)
    (next : f.willFail f.count = failed) :
    checkpoint (some f) = ⟨.ok failed, some (f.pass [failed]), []⟩ := by
  have single : [failed].contains true = failed := by cases failed <;> rfl
  rw [checkpoint, Frame.checkpoint, if_pos inside, next, Frame.pass, single]
  rfl

theorem checkpoint_of_full {f : Frame} (full : maxCheckpoints ≤ f.count) :
    checkpoint (some f) = Op.raise (.violation (.checkpointOverflow maxCheckpoints)) (some f) := by
  rw [checkpoint, Frame.checkpoint, if_neg (Nat.not_lt.mpr full)]

section Runs

variable [DecidableEq η] (env : Environment κ η Trace) (nested : Nested κ η Trace) (bound : Nat)
  {w : World κ η Trace} {f : Frame} {failed : Bool} {path letters : List Bool}

theorem runWith_modify (g : Trace → Trace) :
    (Client.modify g : Client κ η Trace Unit).runWith env nested bound w =
      .ok () { w with client := g w.client } := rfl

theorem runWith_checkpoint (active : w.frame = some f) (inside : f.count < maxCheckpoints)
    (next : f.willFail f.count = failed) :
    (Client.ask .checkpoint : Client κ η Trace Bool).runWith env nested bound w =
      .ok failed { w with frame := some (f.pass [failed]) } := by
  have step : checkpoint w.frame = ⟨.ok failed, some (f.pass [failed]), []⟩ := by
    rw [active, checkpoint_of_willFail inside next]
  rw [Client.runWith_ask, Call.run, Run.checkpoint, Run.onPart, step]
  rfl

theorem runWith_checkpoint_of_full (active : w.frame = some f) (full : f.count = maxCheckpoints) :
    ∃ journal, (Client.ask .checkpoint : Client κ η Trace Bool).runWith env nested bound w =
      .error (.unwound (.violation (.checkpointOverflow maxCheckpoints))) { w with journal } := by
  have step : checkpoint w.frame =
      Op.raise (.violation (.checkpointOverflow maxCheckpoints)) (some f) := by
    rw [active, checkpoint_of_full (Nat.le_of_eq full.symm)]
  have same : { w with frame := some f } = w := by rw [← active]
  refine ⟨((Panic.violation (.checkpointOverflow maxCheckpoints)).records.map Entry.record).foldl
    Array.push w.journal, ?_⟩
  rw [Client.runWith_ask, Call.run, Run.checkpoint, Run.onPart, step]
  conv => rhs; rw [← same]
  rfl

theorem DecisionTree.runWith_test {result : Bool} (tree : DecisionTree)
    (found : tree.answer path = some result) (active : w.frame = some f)
    (continues : f.Continues path) (short : f.count + path.length ≤ maxCheckpoints) :
    tree.test.runWith env nested bound w = .ok result { w with
      frame := some (f.pass path)
      client := ⟨w.client.finished ++ [w.client.current ++ path], []⟩ } := by
  induction tree generalizing path f w with
  | leaf answered =>
    cases path with
    | cons failed path => cases found
    | nil =>
      cases found
      rw [test, Client.runWith_bind, Run.bind_of_ok (runWith_modify env nested bound _),
        Frame.pass_nil, ← active, List.append_nil]
      rfl
  | node fails passes ihf ihp =>
    cases path with
    | nil => cases found
    | cons failed path =>
      simp only [List.length_cons] at short
      have next := runWith_checkpoint env nested bound active (by omega) (continues 0 failed rfl)
      have room : (f.pass [failed]).count + path.length ≤ maxCheckpoints := by
        simp only [Frame.pass, List.length_singleton]
        omega
      rw [test, Client.runWith_bind, Run.bind_of_ok next, Client.runWith_bind,
        Run.bind_of_ok (runWith_modify env nested bound _)]
      rw [show f.pass (failed :: path) = (f.pass [failed]).pass path from
        (f.pass_pass [failed] path).symm]
      rw [show w.client.current ++ failed :: path = w.client.current ++ [failed] ++ path by simp]
      cases failed with
      | true => exact ihf found rfl continues.tail room
      | false => exact ihp found rfl continues.tail room

/-- A run that comes to a checkpoint too many. -/
theorem DecisionTree.runWith_test_of_full (tree : DecisionTree)
    (found : (tree.answer (path ++ letters)).isSome) (more : letters ≠ [])
    (active : w.frame = some f) (continues : f.Continues path)
    (full : f.count + path.length = maxCheckpoints) :
    ∃ frame journal, tree.test.runWith env nested bound w =
      .error (.unwound (.violation (.checkpointOverflow maxCheckpoints))) { w with
        frame, journal, client := ⟨w.client.finished, w.client.current ++ path⟩ } := by
  induction tree generalizing path f w with
  | leaf answered =>
    cases h : path ++ letters with
    | nil => exact absurd (List.append_eq_nil_iff.mp h).2 more
    | cons failed rest =>
      rw [h] at found
      cases found
  | node fails passes ihf ihp =>
    cases path with
    | nil =>
      obtain ⟨journal, stopped⟩ := runWith_checkpoint_of_full env nested bound active
        (by simpa using full)
      rw [test, Client.runWith_bind, Run.bind_of_error stopped, List.append_nil]
      exact ⟨_, _, rfl⟩
    | cons failed path =>
      simp only [List.length_cons] at full
      have next := runWith_checkpoint env nested bound active (by omega) (continues 0 failed rfl)
      have full' : (f.pass [failed]).count + path.length = maxCheckpoints := by
        simp only [Frame.pass, List.length_singleton]
        omega
      rw [test, Client.runWith_bind, Run.bind_of_ok next, Client.runWith_bind,
        Run.bind_of_ok (runWith_modify env nested bound _)]
      rw [show w.client.current ++ failed :: path = w.client.current ++ [failed] ++ path by simp]
      cases failed with
      | true => exact ihf found rfl continues.tail full'
      | false => exact ihp found rfl continues.tail full'

theorem DecisionTree.underFrame_test {root : DecisionTree} {result : Bool}
    (found : root.answer path = some result) (begins : f.Begins path) (short : Short path)
    (fresh : w.client.current = []) :
    Run.underFrame (root.test.runWith env nested bound) f.reset w =
      .ok (result, f.reset.pass path) { w with
        frame := some (f.reset.pass path), client := ⟨w.client.finished ++ [path], []⟩ } := by
  have room : f.reset.count + path.length ≤ maxCheckpoints := by
    rw [show f.reset.count = 0 from rfl, Nat.zero_add]
    exact of_decide_eq_true short
  have run := runWith_test (w := { w with frame := some f.reset }) env nested bound root found rfl
    begins.continues room
  rw [show ({ w with frame := some f.reset } : World κ η Trace).client = w.client from rfl, fresh]
    at run
  exact Run.underFrame_of_ok run rfl

theorem Frame.afterRun_pass (f : Frame) (path : List Bool) :
    f.afterRun (f.reset.pass path) = f.ran path := by
  simp [afterRun, reset, pass, ran]

/-- A run with a failing checkpoint is followed by one under the next pattern. -/
theorem DecisionTree.replayFrom_next {root : DecisionTree} {result : Bool} {g : Frame}
    (found : root.answer path = some result) (begins : f.Begins path) (short : Short path)
    (advance : (f.ran path).advance? = some g) (runs : Nat) (fresh : w.client.current = []) :
    ∃ journal, Frame.replayFrom (Run.underFrame (root.test.runWith env nested bound)) Run.log runs
        f w =
      Frame.replayFrom (Run.underFrame (root.test.runWith env nested bound)) Run.log (runs + 1) g
        { w with
          frame := some (f.reset.pass path), journal
          client := ⟨w.client.finished ++ [path], []⟩ } := by
  have run := underFrame_test env nested bound found begins short fresh
  have failed : (f.reset.pass path).triggered = true := by
    have := Frame.triggered_of_advance? advance
    simpa [Frame.pass, Frame.reset, Frame.ran] using this
  exact ⟨_, Frame.replayFrom_of_failed run failed (by rw [Frame.afterRun_pass]; exact advance)⟩

/-- A replay that goes through all paths of a list. -/
theorem DecisionTree.Runs.replayFrom_eq_ok {root : DecisionTree} {paths : List (List Bool)}
    {stuck : Option (List Bool)} (h : Runs root f paths stuck) (ends : stuck = none) (runs : Nat)
    (fresh : w.client.current = []) :
    ∃ result depth frame journal, paths.getLast? = some (List.replicate depth false) ∧
      root.answer (List.replicate depth false) = some result ∧
      Frame.replayFrom (Run.underFrame (root.test.runWith env nested bound)) Run.log runs f w =
        .ok (some ⟨result, runs + paths.length, depth⟩) { w with
          frame, journal, client := ⟨w.client.finished ++ paths, []⟩ } := by
  induction h generalizing w runs with
  | @last f path result found begins short passed =>
    have run := underFrame_test env nested bound found begins short fresh
    have all : path = List.replicate path.length false := by
      refine List.eq_replicate_iff.mpr ⟨rfl, fun b mem => ?_⟩
      cases b with
      | false => rfl
      | true => exact absurd mem passed
    have quiet : (f.reset.pass path).triggered = false := by
      simpa [Frame.pass, Frame.reset] using passed
    have ended : Frame.replayFrom _ Run.log runs f w = _ := Frame.replayFrom_of_passed run quiet
    rw [show (f.reset.pass path).count = path.length from Nat.zero_add _] at ended
    exact ⟨result, path.length, _, _, by rw [← all]; rfl, by rw [← all]; exact found, ended⟩
  | @next f g path paths result stuck found begins short advance _ ih =>
    obtain ⟨journal, step⟩ := replayFrom_next env nested bound found begins short advance runs fresh
    rw [step]
    obtain ⟨result, depth, frame, journal', last, found, rest⟩ := ih (w := { w with
      frame := some (f.reset.pass path), journal
      client := ⟨w.client.finished ++ [path], []⟩ }) ends (runs + 1) rfl
    refine ⟨result, depth, frame, journal', by rw [List.getLast?_cons, last]; rfl, found,
      rest.trans ?_⟩
    rw [List.length_cons, List.append_assoc, Nat.add_assoc, Nat.add_comm 1]
    rfl
  | stuck => cases ends

/-- A replay that gets stuck after some paths. -/
theorem DecisionTree.Runs.replayFrom_eq_error {root : DecisionTree} {paths : List (List Bool)}
    {stuck : Option (List Bool)} (h : Runs root f paths stuck) (ends : stuck = some letters)
    (runs : Nat) (fresh : w.client.current = []) :
    ∃ frame journal,
      Frame.replayFrom (Run.underFrame (root.test.runWith env nested bound)) Run.log runs f w =
        .error (.unwound (.violation (.checkpointOverflow maxCheckpoints))) { w with
          frame, journal, client := ⟨w.client.finished ++ paths, letters⟩ } := by
  induction h generalizing w runs with
  | last => cases ends
  | @next f g path paths result stuck found begins short advance _ ih =>
    obtain ⟨journal, step⟩ := replayFrom_next env nested bound found begins short advance runs fresh
    rw [step]
    obtain ⟨frame, journal', rest⟩ := ih (w := { w with
      frame := some (f.reset.pass path), journal
      client := ⟨w.client.finished ++ [path], []⟩ }) ends (runs + 1) rfl
    refine ⟨frame, journal', rest.trans ?_⟩
    rw [List.append_assoc]
    rfl
  | @stuck f reached others found more begins full =>
    cases ends
    have arrived : f.reset.count + letters.length = maxCheckpoints := by
      rw [show f.reset.count = 0 from rfl, Nat.zero_add]
      exact full
    obtain ⟨frame, journal, stopped⟩ := runWith_test_of_full (w := { w with frame := some f.reset })
      env nested bound root found more rfl begins.continues arrived
    refine ⟨frame, journal, (Frame.replayFrom_of_error (Run.underFrame_of_error stopped)).trans ?_⟩
    rw [show ({ w with frame := some f.reset } : World κ η Trace).client = w.client from rfl, fresh,
      List.append_nil]
    rfl

end Runs

section Replays

variable [DecidableEq η] (env : Environment κ η Trace) (tree : DecisionTree) (w : World κ η Trace)

/-- Where no path is too long, a replay comes to its end. -/
theorem replayed_of_short (short : ∀ path ∈ tree.paths, path.length ≤ maxCheckpoints) :
    ∃ result depth journal, tree.paths.getLast? = some (List.replicate depth false) ∧
      tree.answer (List.replicate depth false) = some result ∧
      (Client.replayed tree.test).run env { w with client := ⟨[], []⟩ } =
        .ok ⟨result, tree.leaves, depth⟩ { w with journal, client := ⟨tree.paths, []⟩ } := by
  have fits : ∀ path ∈ tree.paths, DecisionTree.Short path = true :=
    fun path mem => decide_eq_true (short path mem)
  have runs := tree.covers_paths
  rw [DecisionTree.Covers, List.takeWhile_eq_self_iff.mpr fits,
    List.dropWhile_eq_nil_iff.mpr fits] at runs
  obtain ⟨nested, run_eq⟩ := Client.exists_run_eq env
  obtain ⟨result, depth, frame, journal, last, found, ended⟩ := runs.replayFrom_eq_ok
    (w := { w with client := ⟨[], []⟩ }) env nested runLimit rfl 0 rfl
  refine ⟨result, depth, journal, last, found, ?_⟩
  rw [run_eq, Client.replayed, Client.runWith, Run.bind_of_ok (Run.replay_of_ok ended),
    Nat.zero_add, tree.length_paths]
  rfl

/-- Where a path is too long, a replay ends there. -/
theorem replayed_of_long {smaller larger : List (List Bool)} {long : List Bool}
    (split : tree.paths = smaller ++ long :: larger)
    (short : ∀ path ∈ smaller, path.length ≤ maxCheckpoints)
    (too_long : maxCheckpoints < long.length) :
    ∃ journal, (Client.replayed tree.test).run env { w with client := ⟨[], []⟩ } =
      .error (.unwound (.violation (.checkpointOverflow maxCheckpoints)))
        { w with journal, client := ⟨smaller, long.take maxCheckpoints⟩ } := by
  have fits : ∀ path ∈ smaller, DecisionTree.Short path = true :=
    fun path mem => decide_eq_true (short path mem)
  have stops : ¬DecisionTree.Short long = true := by
    simp only [DecisionTree.Short, decide_eq_true_eq]
    omega
  have runs := tree.covers_paths
  rw [DecisionTree.Covers, split, List.takeWhile_append_of_pos fits,
    List.takeWhile_cons_of_neg stops, List.dropWhile_append_of_pos fits,
    List.dropWhile_cons_of_neg stops, List.append_nil] at runs
  obtain ⟨nested, run_eq⟩ := Client.exists_run_eq env
  obtain ⟨frame, journal, ended⟩ := runs.replayFrom_eq_error
    (w := { w with client := ⟨[], []⟩ }) env nested runLimit rfl 0 rfl
  refine ⟨journal, ?_⟩
  rw [run_eq, Client.replayed, Client.runWith, Run.bind_of_error (Run.replay_of_error ended)]
  rfl

/-- A replay of a deterministic test runs it along all paths of its decision tree, each once, in
lexicographic order with failures first, and ends after the path where nothing fails.  When a path has
more checkpoints than a run may pass, the replay runs the test along the smaller ones, and ends at the
first checkpoint too many. -/
theorem replay_enumerates :
    (∀ path, path ∈ tree.paths ↔ (tree.answer path).isSome) ∧
      tree.paths.Pairwise DecisionTree.Before ∧
      ((∀ path ∈ tree.paths, path.length ≤ maxCheckpoints) →
        ∃ result depth journal,
          tree.paths.getLast? = some (List.replicate depth false) ∧
          tree.answer (List.replicate depth false) = some result ∧
          (Client.replayed tree.test).run env { w with client := ⟨[], []⟩ } =
            .ok ⟨result, tree.leaves, depth⟩ { w with journal, client := ⟨tree.paths, []⟩ }) ∧
      ((∃ path ∈ tree.paths, maxCheckpoints < path.length) →
        ∃ smaller long larger journal,
          tree.paths = smaller ++ long :: larger ∧
          (∀ path ∈ smaller, path.length ≤ maxCheckpoints) ∧ maxCheckpoints < long.length ∧
          (Client.replayed tree.test).run env { w with client := ⟨[], []⟩ } =
            .error (.unwound (.violation (.checkpointOverflow maxCheckpoints)))
              { w with journal, client := ⟨smaller, long.take maxCheckpoints⟩ }) := by
  refine ⟨fun path => DecisionTree.mem_paths, tree.pairwise_paths, replayed_of_short env tree w,
    fun long => ?_⟩
  obtain ⟨path, mem, too_long⟩ := long
  cases found : tree.paths.find? fun path => decide (maxCheckpoints < path.length) with
  | none => exact absurd (decide_eq_true too_long) (List.find?_eq_none.mp found path mem)
  | some first =>
    obtain ⟨first_long, smaller, larger, split, short⟩ := List.find?_eq_some_iff_append.mp found
    have short : ∀ path ∈ smaller, path.length ≤ maxCheckpoints := fun path mem => by
      simpa using short path mem
    have first_long := of_decide_eq_true first_long
    obtain ⟨journal, ended⟩ := replayed_of_long env tree w split short first_long
    exact ⟨smaller, first, larger, journal, split, short, first_long, ended⟩

end Replays

end MemoryTrial
