import MemoryTrial.Proofs.Replay.Enumeration
import MemoryTrial.Proofs.World.Effects

/-! What programs do to the frame of the active replay: they pass checkpoints of it, and nothing
else (`Client.respects_checkpoints`).  Replays inside a program and threads have frames of their own,
and put back the one that was there. -/

namespace MemoryTrial

namespace Frame

/-- From one frame to another by passing checkpoints, which answer the letters of a path. -/
inductive Passes : Frame → List Bool → Frame → Prop
  | nil (f : Frame) : Passes f [] f
  | cons {f g h : Frame} {failed : Bool} {path : List Bool} :
    f.checkpoint = .ok (failed, g) → Passes g path h → Passes f (failed :: path) h

variable {f g h : Frame} {path letters : List Bool} {failed : Bool}

theorem Passes.trans (first : f.Passes path g) (second : g.Passes letters h) :
    f.Passes (path ++ letters) h := by
  induction first with
  | nil => exact second
  | cons step _ ih => exact .cons step (ih second)

theorem checkpoint_eq_ok_iff :
    f.checkpoint = .ok (failed, g) ↔
      f.count < maxCheckpoints ∧ f.willFail f.count = failed ∧ g = f.pass [failed] := by
  have single (b : Bool) : [b].contains true = b := by cases b <;> rfl
  unfold checkpoint
  split
  next inside =>
    simp only [Except.ok.injEq, Prod.mk.injEq, inside, true_and]
    refine and_congr_right fun same => ?_
    rw [pass, single, same]
    exact eq_comm
  next full => exact iff_of_false (by simp) fun h => full h.1

/-- Checkpoints that were passed are counted, and a failing one is noted. -/
theorem Passes.spec (passes : f.Passes path g) :
    f.Continues path ∧ f.count + path.length ≤ max f.count maxCheckpoints ∧ g = f.pass path := by
  induction passes with
  | nil f => exact ⟨nofun, Nat.le_max_left .., f.pass_nil.symm⟩
  | @cons f g h failed path step _ ih =>
    obtain ⟨inside, letter, rfl⟩ := checkpoint_eq_ok_iff.mp step
    obtain ⟨continues, room, rfl⟩ := ih
    refine ⟨?_, ?_, f.pass_pass [failed] path⟩
    · intro i b hi
      cases i with
      | zero =>
        cases hi
        exact letter
      | succ i =>
        have next := continues i b (by simpa using hi)
        rwa [show (f.pass [failed]).count + i = f.count + (i + 1) by
          simp only [pass, List.length_singleton]; omega] at next
    · simp only [pass, List.length_cons, List.length_nil] at room ⊢
      omega

end Frame

/-- What can become of the frame of a replay, if there is one, while the replay goes on. -/
inductive Moves : Option Frame → Option Frame → Prop
  | idle : Moves none none
  | passes {f g : Frame} {path : List Bool} : f.Passes path g → Moves (some f) (some g)

namespace Moves

theorem refl (active : Option Frame) : Moves active active := by
  cases active with
  | none => exact .idle
  | some f => exact .passes (.nil f)

theorem trans {a b c : Option Frame} (first : Moves a b) (second : Moves b c) : Moves a c := by
  cases first with
  | idle => exact second
  | passes path =>
    cases second with
    | passes path' => exact .passes (path.trans path')

end Moves

theorem moves_checkpoint (active : Option Frame) : Moves active (checkpoint active).state := by
  cases active with
  | none => exact .idle
  | some f =>
    rw [checkpoint]
    cases h : f.checkpoint with
    | error p => exact .refl _
    | ok answer => exact .passes (.cons h (.nil _))

theorem Op.state_bind {σ α β : Type} (x : Op σ α) (f : α → Op σ β) (s : σ) :
    ((x >>= f) s).state = match (x s).value with
      | .ok a => (f a (x s).state).state
      | .error _ => (x s).state := by
  rw [Op.bind_run]
  obtain ⟨value, s', records⟩ := x s
  cases value <;> rfl

theorem FaultyHeap.moves_guard (name : RequestName) (n : Nat) (request : Op Heap (Option Ptr))
    (s : FaultyHeap × Option Frame) : Moves s.2 (guard name n request s).state.2 := by
  have passed : Moves s.2
      ((Op.focus Prod.snd (fun active s => (s.1, active)) checkpoint : Op _ Bool) s).state.2 :=
    moves_checkpoint s.2
  rw [guard, Op.state_bind]
  split
  next refused _ =>
    cases refused with
    | true => exact passed
    | false => exact passed
  next => exact passed

theorem Allocator.moves_perform {α : Type} (r : Request α) (s : Allocator × Option Frame) :
    Moves s.2 (perform r s).state.2 := by
  obtain ⟨a, active⟩ := s
  have guarded (r : Request (Option Ptr)) (a : Arena) :
      Moves active (perform.guard r a active).state.2 := by
    have passed := moves_checkpoint active
    unfold perform.guard
    split
    next h => rwa [h] at passed
    next h => rwa [h] at passed
    next h => rwa [h] at passed
  cases a with
  | arena a => exact .refl _
  | heap h => exact .refl _
  | flaky a =>
    cases r with
    | grab n => exact guarded (.grab n) a
    | resize p n => exact guarded (.resize p n) a
    | release p => exact .refl _
    | payload p => exact .refl _
    | edit p f => exact .refl _
  | faulty f =>
    cases r with
    | grab n => exact FaultyHeap.moves_guard _ _ _ (f, active)
    | resize p n => exact FaultyHeap.moves_guard _ _ _ (f, active)
    | release p => exact .refl _
    | payload p => exact .refl _
    | edit p f => exact .refl _

variable {κ η σ α β : Type}

/-- The effect of passing checkpoints. -/
def checkpoints : Effect κ η σ where
  Allows w w' := Moves w.frame w'.frame
  refl w := .refl w.frame
  trans := .trans

theorem checkpoints_lenient : (checkpoints : Effect κ η σ).Lenient := by
  intro w w' tidy
  change Moves w.frame w'.frame
  rw [tidy.frame]
  exact .refl w.frame

namespace Run

theorem respects_still {x : Run κ η σ α} (hx : x.Respects still) : x.Respects checkpoints :=
  checkpoints_lenient.of_still hx

theorem respects_checkpoint : (checkpoint : Run κ η σ Bool).Respects checkpoints :=
  checkpoints_lenient.plain.onPart fun w => moves_checkpoint w.frame

theorem respects_modifyInstance (h : Handle) (f : Instance κ → Instance κ) :
    (modifyInstance h f : Run κ η σ Unit).Respects checkpoints :=
  respects_modify fun w => .refl w.frame

theorem respects_onAllocator (h : Handle) (a : Allocator) {x : Op (Allocator × Option Frame) α}
    (hx : ∀ s, Moves s.2 (x s).state.2) :
    (onAllocator h a x : Run κ η σ α).Respects checkpoints := by
  apply respects_bind (respects_modifyInstance h _)
  intro _
  exact checkpoints_lenient.plain.onPart fun w => hx (a, w.frame)

theorem respects_use (h : Handle) (r : Request α) :
    (use h r : Run κ η σ α).Respects checkpoints := by
  apply respects_bind (checkpoints_lenient.of_tidying (tidying_liveInstance h))
  intro found
  exact respects_onAllocator h found.2 (Allocator.moves_perform r)

theorem respects_within (h : Handle) (p : Ptr) (edit : ByteArray → ByteArray)
    {body : ByteArray → Run κ η σ α} (hbody : ∀ bytes, (body bytes).Respects checkpoints) :
    (within h p edit body).Respects checkpoints := by
  apply respects_bind (checkpoints_lenient.of_tidying (tidying_liveInstance h))
  intro found
  apply respects_bind (respects_modifyInstance h _)
  intro _
  refine respects_ensuring (respects_bind ?_ hbody) fun w => .refl w.frame
  refine respects_onAllocator h found.2 fun s => ?_
  have read := Allocator.moves_perform (.payload p) s
  rw [Op.state_bind]
  split
  · refine read.trans ?_
    have written := Allocator.moves_perform (.edit p edit) (Allocator.perform (.payload p) s).state
    rw [Op.state_bind]
    split <;> exact written
  · exact read

theorem respects_onOwned (i : Nat) {x : Op (Allocator × Option Frame) α}
    (hx : ∀ s, Moves s.2 (x s).state.2) : (onOwned i x : Run κ η σ α).Respects checkpoints := by
  apply respects_bind respects_get
  intro w
  split
  · exact respects_bind respects_get fun _ => respects_still (still_raise _)
  · refine respects_bind (respects_modify fun w => .refl w.frame) fun _ => ?_
    exact checkpoints_lenient.plain.onPart fun w => hx (_, w.frame)

theorem respects_replay (body : Run κ η σ Bool) : (replay body).Respects checkpoints := by
  intro w
  rw [replay, leaves_bind_of_ok (get_run w), leaves_ensuring]
  exact .refl w.frame

/-- No replay is active on a new thread, and the one that started it goes on where it was. -/
theorem respects_thread (fixture : Fixture κ) (body : Run κ η σ α) :
    (thread fixture body).Respects checkpoints := by
  intro w
  rw [leaves_thread]
  exact .refl w.frame

section Registry

variable (env : Environment κ η σ) {nested : Nested κ η σ}
  (respected : ∀ {β : Type} (c : Client κ η σ β), (nested c).Respects checkpoints)
include respected

theorem respects_destroy (h : Handle) : (destroy env nested h).Respects checkpoints :=
  checkpoints_lenient.destroy (fun w _ _ _ _ _ _ => .refl w.frame) (fun _ _ => respected _) h

theorem moves_destroy {v w : World κ η σ} (h : Handle) (same : w.frame = v.frame) :
    checkpoints.Allows v ((destroy env nested h).leaves w) := by
  have moved := respects_destroy env respected h w
  change Moves w.frame _ at moved
  rw [same] at moved
  exact moved

theorem respects_drainCache (rounds : Nat) :
    (drainCache env nested rounds).Respects checkpoints :=
  Effect.drainCache (fun _ _ newest _ => moves_destroy env respected newest rfl) rounds

variable [DecidableEq η]

theorem respects_lookUp (k : κ) : (lookUp env nested k).Respects checkpoints :=
  checkpoints_lenient.lookUp k (respected _) (fun _ _ _ => moves_destroy env respected _ rfl)
    fun v _ _ _ => .refl v.frame

theorem respects_delete (h : Option Handle) : (delete env nested h).Respects checkpoints :=
  checkpoints_lenient.delete h fun _ h _ _ => moves_destroy env respected h (by split <;> rfl)

/-- Every call passes checkpoints only. -/
theorem respects_call (bound : Nat) (c : Call κ η σ β) :
    (c.run env nested bound).Respects checkpoints := by
  cases c with
  | checkpoint => exact respects_checkpoint
  | lookUp k => exact checkpoints_lenient.during _ (respects_lookUp env respected k)
  | build k =>
    refine checkpoints_lenient.during _ ?_
    exact checkpoints_lenient.build k (respected _) fun v _ _ => .refl v.frame
  | delete h => exact respects_delete env respected h
  | teardown =>
    exact respects_bind (respects_still still_reachRegistry) fun _ =>
      respects_drainCache env respected bound
  | use h r => exact respects_use h r
  | useOwned i r => exact respects_onOwned i (Allocator.moves_perform r)
  | tearDownOwned i => exact respects_onOwned i fun s => .refl s.2
  | readOwned i f => exact respects_onOwned i fun s => .refl s.2
  | runHooks =>
    exact checkpoints_lenient.plain.drainHooks (fun w _ => .refl w.frame)
      (respects_drainCache env respected bound) (fun _ => respected _) bound
  | _ => exact respects_still (still_call trivial)

end Registry

end Run

variable [DecidableEq η]

open Run in
/-- A program, whatever it does, passes checkpoints of the frame that is active and changes it in no
other way. -/
theorem Client.respects_checkpoints (env : Environment κ η σ) (bound depth : Nat)
    (c : Client κ η σ α) : (c.runTo env bound depth).Respects checkpoints := by
  have covers {nested : Nested κ η σ}
      (respected : ∀ {β : Type} {c : Client κ η σ β}, c.Only Calls.all Calls.all →
        (nested c).Respects checkpoints) :
      Covers env nested bound checkpoints checkpoints Calls.all :=
    ⟨fun c _ => respects_call env (fun d => respected d.only_all) bound c,
      fun body _ => respects_replay body, fun f _ => checkpoints_lenient.plain.scope f,
      fun h p edit _ => respects_within h p edit, fun fixture body _ => respects_thread fixture body⟩
  exact Covers.respects_runTo covers depth c.only_all

end MemoryTrial
