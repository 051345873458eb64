import MemoryTrial.Proofs.Plan.Requests

/-! The replay of a plan.  Run number `i`, from 0, is refused at demand `i` and stops there, and the run
after the last demand goes through, so that a plan with `n` demands is run `n + 1` times
(`replay_is_linear`).  A table that memory cannot hold ends the replay before its first request, and on
a heap without a number for its block a run ends like a refused one. -/

namespace MemoryTrial.Plan

section Loop

variable {σ : Type} {run : Frame → Op σ (Bool × Frame)} {s s' : σ} {runs : Nat}
  {frame left next : Frame} {result : Bool} {records : List Record}

theorem after_after {α : Type} (r : Result σ α) (records records' : List Record) :
    (r.after records).after records' = r.after (records' ++ records) := by
  simp only [Result.after, List.append_assoc]

theorem replayFrom_of_passed (ran : run frame.reset s = ⟨.ok (result, left), s', records⟩)
    (passed : left.triggered = false) :
    Frame.replayFrom run Op.log runs frame s =
      ⟨.ok (some ⟨result, runs + 1, left.count⟩), s',
        records ++ [.replayFinished (runs + 1) left.count result]⟩ := by
  rw [Frame.replayFrom_eq, Op.bind_of_ok ran, Frame.goOn_of_passed run Op.log runs result passed]
  rfl

theorem replayFrom_of_failed (ran : run frame.reset s = ⟨.ok (result, left), s', records⟩)
    (failed : left.triggered = true) (advance : (frame.afterRun left).advance? = some next) :
    Frame.replayFrom run Op.log runs frame s =
      (Frame.replayFrom run Op.log (runs + 1) next s').after
        (records ++ [.runForced (runs + 1) left.count]) := by
  have noted : Op.log (.runForced (runs + 1) left.count) s' =
      ⟨.ok (), s', [.runForced (runs + 1) left.count]⟩ := rfl
  rw [Frame.replayFrom_eq, Op.bind_of_ok ran,
    Frame.goOn_of_failed run Op.log runs result failed advance, Op.bind_of_ok noted, after_after]

theorem replayFrom_of_error {p : Panic} (ran : run frame.reset s = ⟨.error p, s', records⟩) :
    Frame.replayFrom run Op.log runs frame s = ⟨.error p, s', records⟩ := by
  rw [Frame.replayFrom_eq, Op.bind_of_error ran]

variable {P : σ → Prop}

theorem reflects_goOn (ended : Bool × Frame)
    (rest : ∀ next, (frame.afterRun ended.2).advance? = some next →
      (Frame.replayFrom run Op.log (runs + 1) next).Reflects P) :
    (Frame.goOn run Op.log runs frame ended).Reflects P := by
  rw [Frame.goOn]
  split
  · refine .bind (fun _ => id) fun _ => ?_
    cases advanced : (frame.afterRun ended.2).advance? with
    | some next => exact rest next advanced
    | none => exact .pure _
  · exact .bind (fun _ => id) fun _ => .pure _

/-- A replay reflects what its runs reflect. -/
theorem reflects_replayFrom (body : ∀ frame, (run frame).Reflects P) (runs : Nat) (frame : Frame) :
    (Frame.replayFrom run Op.log runs frame).Reflects P := by
  -- the patterns count down
  induction value : frame.value using Nat.strongRecOn generalizing runs frame with
  | _ n ih =>
    rw [Frame.replayFrom_eq]
    refine .bind (body _) fun ended => reflects_goOn ended fun next advanced => ?_
    have less := Frame.value_advance?_lt advanced
    rw [Frame.value_afterRun] at less
    exact ih _ (value ▸ less) _ _ rfl

end Loop

/-- The records of runs that are refused at one demand after the other.  Run `i` comes to its demand
as checkpoint number `i + 1`. -/
def refusals (i : Nat) : List (RequestName × Nat) → List Record
  | [] => []
  | d :: rest =>
    .forcedFailure d.1 d.2 :: .runForced (i + 1) (i + 1) :: refusals (i + 1) rest

/-- What a replay of a plan on the faulty heap `f` leaves. -/
structure Linear (plan : Plan) (f : FaultyHeap) (r : Result Allocator (Option Outcome)) : Prop where
  outcome : r.value = .ok (some ⟨true, (demands plan).length + 1, (demands plan).length⟩)
  /-- Run `i` is refused at demand `i`, and nowhere else. -/
  records : r.records = refusals 0 (demands plan) ++
    [.replayFinished ((demands plan).length + 1) (demands plan).length true]
  /-- The heap has the blocks that it had before, and no others. -/
  restored : ∃ heap, r.state = .faulty ⟨heap, f.forced + (demands plan).length⟩ ∧
    heap.live = f.heap.live ∧ ∀ p, heap.bytes? p = f.heap.bytes? p

theorem Owns.again {base h h' : Heap} (first : Owns base [] h) (owns : Owns h [] h') :
    Owns base [] h' where
  sound := owns.sound
  distinct := List.nodup_nil
  held := nofun
  fresh := nofun
  others p notMem := (owns.others p notMem).trans (first.others p notMem)
  live := owns.live.trans first.live

theorem reflects_tryRun (plan : Plan) (slots : Nat) (frame : Frame) :
    (underFrame (tryRun plan slots) frame).Reflects Allocator.Indexed := by
  intro allocator few
  rw [state_underFrame] at few
  have drove : (drive true plan slots (allocator, some frame)).state.1.Indexed :=
    Op.Reflects.before (P := fun s : Ground => s.1.Indexed) (fun _ => .pure _) few
  rw [← Driver.runOn_drive] at drove
  exact Dialogue.reflects_runOn _ _ drove

/-- If every slot has a number after a replay, then also after its first run. -/
theorem run_indexed {plan : Plan} {slots runs : Nat} {frame : Frame} {allocator : Allocator}
    (few : (Frame.replayFrom (underFrame (tryRun plan slots)) Op.log runs frame
      allocator).state.Indexed) :
    (underFrame (tryRun plan slots) frame.reset allocator).state.Indexed := by
  rw [Frame.replayFrom_eq] at few
  exact Op.Reflects.before (fun ended => reflects_goOn ended fun _ _ =>
    reflects_replayFrom (reflects_tryRun plan slots) _ _) few

section Replay

variable {plan : Plan} {slots : Nat} {base : Heap} (room : slotSize * max slots 1 < memoryLimit)
  (inside : ∀ s ∈ plan, s.slot < max slots 1) (small : ∀ s ∈ plan, s.Small)
  (short : (demands plan).length ≤ maxCheckpoints)
include room inside small short

/-- The runs from number `i` on, of which `more` are refused. -/
theorem replayFrom_linear (more i : Nat) (total : i + more = (demands plan).length) {f : FaultyHeap}
    {frame : Frame} (begins : frame.Begins (List.replicate i false)) (armed : frame.ArmedFrom i)
    (owns : Owns base [] f.heap)
    (few : (Frame.replayFrom (underFrame (tryRun plan slots)) Op.log i frame
      (.faulty f)).state.Indexed) :
    ∃ heap, Frame.replayFrom (underFrame (tryRun plan slots)) Op.log i frame (.faulty f) =
      ⟨.ok (some ⟨true, (demands plan).length + 1, (demands plan).length⟩),
        .faulty ⟨heap, f.forced + more⟩,
        refusals i ((demands plan).drop i) ++
          [.replayFinished ((demands plan).length + 1) (demands plan).length true]⟩ ∧
      Owns base [] heap := by
  induction more generalizing i f frame with
  | zero =>
    obtain rfl : i = (demands plan).length := total
    obtain ⟨heap, ran, after⟩ := tryRun_meets owns.sound room inside small (meets_all _) begins
      (by simpa using short) (run_indexed few)
    have passed : (frame.reset.pass (List.replicate (demands plan).length false)).triggered =
        false := by
      simp [Frame.pass, Frame.reset]
    have count : (frame.reset.pass (List.replicate (demands plan).length false)).count =
        (demands plan).length := by
      simp [Frame.pass, Frame.reset]
    refine ⟨heap, (replayFrom_of_passed ran passed).trans ?_, owns.again after⟩
    rw [count, List.drop_length]
    rfl
  | succ more ih =>
    have here : i < (demands plan).length := by omega
    have length : (List.replicate i false ++ [true]).length = i + 1 := by simp
    have fails : frame.willFail (List.replicate i false).length = true := by
      rw [List.length_replicate]
      exact armed i (Nat.le_refl i) (by omega)
    have begins := Frame.begins_snoc.mpr ⟨begins, fails⟩
    obtain ⟨heap, ran, after⟩ := tryRun_meets owns.sound room inside small
      (meets_at (demands plan) i here) begins (by omega) (run_indexed few)
    obtain ⟨next, advance, begins', armed'⟩ :=
      Frame.advance?_ran (n := 0) begins (by rw [List.length_replicate]; omega)
    rw [← List.replicate_succ'] at begins'
    rw [List.length_replicate] at armed'
    have failed : (frame.reset.pass (List.replicate i false ++ [true])).triggered = true := by
      simp [Frame.pass]
    have count : (frame.reset.pass (List.replicate i false ++ [true])).count = i + 1 := by
      simp [Frame.pass, Frame.reset]
    have advances : (frame.afterRun
        (frame.reset.pass (List.replicate i false ++ [true]))).advance? = some next := by
      rw [Frame.afterRun_pass]
      exact advance
    have went : Frame.replayFrom (underFrame (tryRun plan slots)) Op.log i frame (.faulty f) = _ :=
      replayFrom_of_failed ran failed advances
    obtain ⟨heap', rest, owns'⟩ := ih (i + 1) (by omega) (f := ⟨heap, f.forced + 1⟩) begins' armed'
      (owns.again after) (by rw [went] at few; exact few)
    have behind : (demands plan).drop i = (demands plan)[i] :: (demands plan).drop (i + 1) :=
      (List.getElem_cons_drop here).symm
    refine ⟨heap', went.trans ?_, owns'⟩
    rw [count, behind]
    refine (congrArg (Result.after _) rest).trans ?_
    simp only [Result.after, refusals, Nat.add_assoc, Nat.add_comm 1 more]
    rfl

/-- A plan is replayed with one run for each of its demands and a last one that goes through, as long
as every slot of the heap has a number. -/
theorem replay_is_linear {f : FaultyHeap} (reached : f.heap.Reachable)
    (few : (replay plan slots (.faulty f)).state.Indexed) :
    Linear plan f (replay plan slots (.faulty f)) := by
  obtain ⟨heap, replayed, owns⟩ := replayFrom_linear room inside small short (demands plan).length 0
    (Nat.zero_add _) (Frame.begins_nil _) (Frame.armedFrom_fresh 0) (.start reached.sound) few
  rw [show replay plan slots (.faulty f) = _ from replayed]
  exact ⟨rfl, rfl, heap, rfl, owns.live, fun p => owns.others p List.not_mem_nil⟩

end Replay

/-- A faulty heap with a block of its own. -/
def furnished : FaultyHeap := ⟨⟨#[⟨0, some (Bytes.replicate 4 0)⟩], [], 1⟩, 0⟩

/-- A plan that resizes an empty slot and an occupied one, and leaves a block behind. -/
def mixedPlan : Plan :=
  [.grab 0 8, .resize 1 5, .resize 0 16, .release 0, .resize 0 3, .grab 1 2]

theorem furnished_reached : furnished.heap.Reachable := Heap.Reachable.empty.step (.grab 4)

theorem mixedPlan_is_linear : Linear mixedPlan furnished (replay mixedPlan 2 (.faulty furnished)) :=
  replay_is_linear (by decide) (by decide)
    (by simp [mixedPlan, PlanStep.Small, Heap.grants, Heap.growthLimit]) (by decide)
    furnished_reached (by decide +kernel)

example : demands mixedPlan = [(.grab, 8), (.resize, 16), (.grab, 2)] := rfl

/-- A table that memory cannot hold ends a run before anything else is done. -/
theorem drive_of_large {stop : Bool} {plan : Plan} {slots : Nat}
    (large : ¬slotSize * max slots 1 < memoryLimit) (s : Ground) :
    drive stop plan slots s = ⟨.error .capacityOverflow, s, []⟩ := by
  have reserved : (liftM (reserve (slotSize * max slots 1)) : Op Ground Unit) s =
      ⟨.error .capacityOverflow, s, []⟩ := by
    rw [reserve, if_neg large]
    rfl
  exact Op.bind_of_error reserved

theorem replay_of_large {plan : Plan} {slots : Nat} (large : ¬slotSize * max slots 1 < memoryLimit)
    (allocator : Allocator) :
    replay plan slots allocator = ⟨.error .capacityOverflow, allocator, []⟩ := by
  have ran : underFrame (tryRun plan slots) Frame.fresh.reset allocator =
      ⟨.error .capacityOverflow, allocator, []⟩ := by
    rw [underFrame, tryRun, Op.bind_of_error (drive_of_large large _)]
  exact replayFrom_of_error ran

/-- A request that is granted and gets no pointer ends a run like one that is refused. -/
theorem tryRun_of_full {h h' : Heap} {g : Frame} (forced : Nat)
    (full : Heap.grab 8 h = ⟨.ok none, h', []⟩)
    (passes : checkpoint (some g) = ⟨.ok false, some (g.pass [false]), []⟩) :
    underFrame (tryRun [.grab 0 8] 1) g (.faulty ⟨h, forced⟩) =
      ⟨.ok (false, g.pass [false]), .faulty ⟨h', forced⟩, []⟩ := by
  have asked := perform_of_ok (r := .grab 8) (f := ⟨h, forced⟩)
    (FaultyHeap.guard_of_passes passes full)
  have stepped : step (Table.empty 1) (.grab 0 8) (.faulty ⟨h, forced⟩, some g) =
      ⟨.ok (Table.empty 1, true), (.faulty ⟨h', forced⟩, some (g.pass [false])), []⟩ := by
    have found : lookUp (Table.empty 1) 0 (.faulty ⟨h, forced⟩, some g) = ⟨.ok none, _, []⟩ :=
      lookUp_of_found rfl _
    have emptied : releaseHeld none (.faulty ⟨h, forced⟩, some g) = ⟨.ok (), _, []⟩ := rfl
    rw [step, Op.bind_of_ok found, Result.after_nil, Op.bind_of_ok emptied, Result.after_nil,
      Op.bind_of_ok asked]
    rfl
  have drove : drive true [.grab 0 8] 1 (.faulty ⟨h, forced⟩, some g) =
      ⟨.ok 1, (.faulty ⟨h', forced⟩, some (g.pass [false])), []⟩ := by
    have ran : steps true (Table.empty 1) 0 [.grab 0 8] (.faulty ⟨h, forced⟩, some g) =
        ⟨.ok (Table.empty 1, 1), (.faulty ⟨h', forced⟩, some (g.pass [false])), []⟩ :=
      (Op.bind_of_ok stepped).trans rfl
    exact (Op.bind_of_ok ran).trans rfl
  rw [underFrame, tryRun, Op.bind_of_ok drove]
  rfl

theorem replay_of_full {h h' : Heap} (full : Heap.grab 8 h = ⟨.ok none, h', []⟩) :
    ∃ records, replay [.grab 0 8] 1 (.faulty ⟨h, 0⟩) =
      ⟨.ok (some ⟨false, 2, 1⟩), .faulty ⟨h', 1⟩, records⟩ := by
  have first : underFrame (tryRun [.grab 0 8] 1) Frame.fresh.reset (.faulty ⟨h, 0⟩) =
      ⟨.ok (false, Frame.fresh.reset.pass [true]), .faulty ⟨h, 1⟩, [.forcedFailure .grab 8]⟩ := rfl
  obtain ⟨next, advance, begins, -⟩ := Frame.advance?_ran (n := 0)
    (Frame.begins_snoc.mpr ⟨Frame.begins_nil Frame.fresh, rfl⟩) (by decide)
  have second := tryRun_of_full 1 full
    (checkpoint_of_willFail (f := next.reset) (Nat.zero_lt_succ _) (begins.continues 0 false rfl))
  have last : Frame.replayFrom (underFrame (tryRun [.grab 0 8] 1)) Op.log 1 next (.faulty ⟨h, 1⟩) =
      _ := replayFrom_of_passed second rfl
  have advances : (Frame.fresh.afterRun (Frame.fresh.reset.pass [true])).advance? = some next := by
    rw [Frame.afterRun_pass]
    exact advance
  have went : replay [.grab 0 8] 1 (.faulty ⟨h, 0⟩) = _ := replayFrom_of_failed first rfl advances
  rw [last] at went
  exact ⟨_, went⟩

/-- One request of eight bytes, over a table of `2^60` slots, and on a heap where every number is
taken. -/
theorem large_tables_are_not_linear :
    (∀ s ∈ [PlanStep.grab 0 8], s.slot < max 1 1 ∧ s.Small) ∧ (demands [.grab 0 8]).length = 1 ∧
      (replay [.grab 0 8] 0x1000000000000000 (.faulty .empty)).value ≠ .ok (some ⟨true, 2, 1⟩) ∧
      (Heap.crowded 0xffffffff).Reachable ∧
      (replay [.grab 0 8] 1 (.faulty ⟨.crowded 0xffffffff, 0⟩)).value ≠
        .ok (some ⟨true, 2, 1⟩) := by
  refine ⟨?_, rfl, ?_, Heap.crowded_reachable _, ?_⟩
  · simp [PlanStep.slot, PlanStep.Small, Heap.grants, Heap.growthLimit]
  · rw [replay_of_large (by decide)]
    intro returned
    cases returned
  · obtain ⟨h, full, -⟩ := Heap.grab_of_crowded (n := 8) rfl
    obtain ⟨records, replayed⟩ := replay_of_full full
    rw [replayed]
    intro returned
    cases returned

end MemoryTrial.Plan
