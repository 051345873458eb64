import MemoryTrial.Proofs.Replay.Enumeration
import MemoryTrial.Proofs.World.Effects

/-! Replays of tests that look at more than the checkpoints.  When a test runs along the path of a
decision tree that its frame begins with, and keeps an invariant of the paths that are done, then a
replay runs it along all paths and the invariant holds of them (`replay_of_explored`).  The test may
rely on a property `P` of where its runs end, if that is reflected by all that it does: then `P` has
to hold at the end of the replay only. -/

namespace MemoryTrial

open Run

variable {κ η σ : Type} {root : DecisionTree} {body : Run κ η σ Bool}
  {Inv : List (List Bool) → World κ η σ → Prop} {P : World κ η σ → Prop} {f : Frame}
  {w : World κ η σ}

/-- From a world in which some paths are done, a run under a frame that ends with `P` goes along the
path that the frame begins with, and then this path is done too. -/
def Explores (root : DecisionTree) (body : Run κ η σ Bool)
    (Inv : List (List Bool) → World κ η σ → Prop) (P : World κ η σ → Prop) : Prop :=
  ∀ done path result (f : Frame) w, Inv done w → root.answer path = some result → f.Begins path →
    DecisionTree.Short path → P ((Run.underFrame body f.reset).leaves w) → ∃ w',
      Run.underFrame body f.reset w = .ok (result, f.reset.pass path) w' ∧
        ∀ journal, Inv (done ++ [path]) { w' with journal }

/-- What a test does reflects `P`, and neither frames nor what is written matter to it. -/
structure Reflects (body : Run κ η σ Bool) (P : World κ η σ → Prop) : Prop where
  body : body.Respects (.reflecting P)
  frame : ∀ (w : World κ η σ) frame, P { w with frame } → P w
  journal : ∀ (w : World κ η σ) journal, P { w with journal } → P w

namespace Reflects

variable (reflects : Reflects body P)
include reflects

theorem replayFrom (runs : Nat) (f : Frame) :
    (Frame.replayFrom (Run.underFrame body) Run.log runs f).Respects (.reflecting P) :=
  Effect.respects_replayFrom (fun _ w => reflects.journal w _)
    (Effect.respects_underFrame reflects.frame reflects.body) runs f

/-- Where a replay ends with `P`, its first run does so as well. -/
theorem first {runs : Nat}
    (after : P ((Frame.replayFrom (Run.underFrame body) Run.log runs f).leaves w)) :
    P ((Run.underFrame body f.reset).leaves w) := by
  rw [Frame.replayFrom_eq] at after
  exact Respects.before (fun ended => Effect.respects_goOn (fun _ w => reflects.journal w _) ended
    fun _ _ => reflects.replayFrom _ _) after

end Reflects

theorem Explores.replayFrom (explores : Explores root body Inv P) (reflects : Reflects body P)
    {paths : List (List Bool)} {stuck : Option (List Bool)}
    (h : DecisionTree.Runs root f paths stuck) (ends : stuck = none) :
    ∀ {done w} (runs : Nat), Inv done w →
      P ((Frame.replayFrom (Run.underFrame body) Run.log runs f).leaves w) →
      ∃ result depth w', paths.getLast? = some (List.replicate depth false) ∧
        root.answer (List.replicate depth false) = some result ∧
        Frame.replayFrom (Run.underFrame body) Run.log runs f w =
          .ok (some ⟨result, runs + paths.length, depth⟩) w' ∧ Inv (done ++ paths) w' := by
  induction h with
  | @last f path result found begins short passed =>
    intro done w runs inv after
    obtain ⟨w', run, kept⟩ :=
      explores done path result f w inv found begins short (reflects.first after)
    have all : path = List.replicate path.length false := by
      refine List.eq_replicate_iff.mpr ⟨rfl, fun b mem => ?_⟩
      cases b with
      | false => rfl
      | true => exact absurd mem passed
    have quiet : (f.reset.pass path).triggered = false := by
      simpa [Frame.pass, Frame.reset] using passed
    have count : (f.reset.pass path).count = path.length := Nat.zero_add _
    refine ⟨result, path.length, _, by rw [← all]; rfl, by rw [← all]; exact found,
      (Frame.replayFrom_of_passed run quiet).trans (by rw [count]; rfl), kept _⟩
  | @next f g path paths result stuck found begins short advance _ ih =>
    intro done w runs inv after
    obtain ⟨w', run, kept⟩ :=
      explores done path result f w inv found begins short (reflects.first after)
    have failed : (f.reset.pass path).triggered = true := by
      have := Frame.triggered_of_advance? advance
      simpa [Frame.pass, Frame.reset, Frame.ran] using this
    have step : Frame.replayFrom (Run.underFrame body) Run.log runs f w = _ :=
      Frame.replayFrom_of_failed run failed (by rw [Frame.afterRun_pass]; exact advance)
    rw [leaves_congr step] at after
    obtain ⟨result, depth, w'', last, found, rest, inv'⟩ := ih ends (runs + 1) (kept _) after
    refine ⟨result, depth, w'', by rw [List.getLast?_cons, last]; rfl, found, ?_, ?_⟩
    · rw [step, rest, List.length_cons, Nat.add_assoc, Nat.add_comm 1]
    · rwa [List.append_assoc] at inv'
  | stuck => cases ends

/-- A replay of a test that explores a tree goes along all its paths. -/
theorem replay_of_explored (explores : Explores root body Inv P) (reflects : Reflects body P)
    (inv : Inv [] w) (short : ∀ path ∈ root.paths, path.length ≤ maxCheckpoints)
    (after : P ((Run.replay body).leaves w)) :
    ∃ result depth w', root.paths.getLast? = some (List.replicate depth false) ∧
      root.answer (List.replicate depth false) = some result ∧
      Run.replay body w = .ok ⟨result, root.leaves, depth⟩ { w' with frame := w.frame } ∧
      Inv root.paths w' := by
  have fits : ∀ path ∈ root.paths, DecisionTree.Short path = true :=
    fun path mem => decide_eq_true (short path mem)
  have runs := root.covers_paths
  rw [DecisionTree.Covers, List.takeWhile_eq_self_iff.mpr fits,
    List.dropWhile_eq_nil_iff.mpr fits] at runs
  rw [leaves_replay] at after
  obtain ⟨result, depth, w', last, found, ended, inv'⟩ :=
    explores.replayFrom reflects runs rfl 0 inv (reflects.frame _ _ after)
  refine ⟨result, depth, w', last, found, ?_, inv'⟩
  rw [Run.replay_of_ok ended, Nat.zero_add, root.length_paths]

end MemoryTrial
