import MemoryTrial.Proofs.World.Escapes
import MemoryTrial.Proofs.World.Registry
import MemoryTrial.Proofs.World.Tasks

/-! What holds of a registry at any time: whatever programs do, also while payloads are in use and also
in the creations and teardowns of instances, the cache lists instances that live, in the order of their
creation, and an instance is torn down once if it is destroyed and never otherwise
(`Visited.consistent`). -/

namespace MemoryTrial

variable {κ η σ α β : Type}

/-- The effect of what keeps a ledger consistent. -/
def upholding : Effect κ η σ where
  Allows w w' := w.ledger.Consistent → w'.ledger.Consistent
  refl _ := id
  trans first second := second ∘ first

theorem upholding_ofLedger : (upholding : Effect κ η σ).OfLedger := by
  intro w w' same consistent
  rwa [same]

theorem upholding_lenient : (upholding : Effect κ η σ).Lenient := upholding_ofLedger.lenient

theorem upholding_mark (w : World κ η σ) (h : Handle) (busy : Bool) :
    upholding.Allows w { w with
      instances := w.instances.modify h.number fun inst => { inst with busy } } := by
  intro consistent
  rw [World.ledger_setBusy]
  exact Ledger.Consistent.of_busy (l := { w.ledger with busy := _ }) consistent

theorem upholding_enroll (w : World κ η σ) (env : Environment κ η σ) (k : κ) (built : Built)
    (sources : List Handle) (shared : Bool) :
    upholding.Allows w (w.enroll (env.newInstance k built sources shared)) := by
  intro consistent
  rw [w.ledger_enroll]
  exact consistent.push rfl

namespace Run

variable {env : Environment κ η σ} {nested : Nested κ η σ}

theorem upholding_destroy
    (closes : ∀ k holdings, (nested ((env.kind k).close holdings)).Respects upholding)
    {w : World κ η σ} {h : Handle} (uncached : ∀ id, (id, h) ∉ w.cache) :
    upholding.Allows w ((destroy env nested h).leaves w) := by
  rcases destroy_cases env nested h w with ⟨nothing, -⟩ | ⟨inst, a, here, state, idle⟩
  · exact upholding_lenient _ _ nothing.tidy
  · intro consistent
    rw [leaves_destroy here state idle, ledger_of_tidy (tidy_closed _ h)]
    have card : w.ledger.card h = some inst.card := by
      rw [w.card_ledger, here, Option.map_some]
    have buried := consistent.bury uncached card (by rw [Instance.card, state]; rfl)
    rw [← w.ledger_bury] at buried
    exact upholding_lenient.tearDown h a (closes inst.kind inst.holdings) _ buried

section Registry

variable (creates : ∀ k, (nested (env.kind k).create).Respects upholding)
  (closes : ∀ k holdings, (nested ((env.kind k).close holdings)).Respects upholding)

include closes in
theorem upholding_drainCache (rounds : Nat) :
    (drainCache env nested rounds).Respects upholding := by
  refine Effect.drainCache (fun w id newest last consistent => ?_) rounds
  have forgot := World.ledger_pop consistent.caches last
  have uncached := w.ledger.forget_notMem newest
  rw [← forgot] at uncached
  refine upholding_destroy closes uncached ?_
  rw [forgot]
  exact consistent.forget newest

variable [DecidableEq η]

include creates closes in
theorem upholding_lookUp (k : κ) : (lookUp env nested k).Respects upholding := by
  refine upholding_lenient.lookUp k (creates k) (fun v built sources consistent => ?_)
    fun v built sources absent consistent => ?_
  · have uncached := consistent.caches.next_notMem
    rw [v.next_ledger] at uncached
    refine upholding_destroy closes uncached ?_
    exact upholding_enroll v env k built sources true consistent
  · have apart (h : Handle) : ((env.kind k).id, h) ∉ v.cache := by
      intro mem
      cases absent.symm.trans (consistent.caches.lookup_eq_some_iff.mpr mem)
    have inserted := consistent.push_insert apart
    rw [← v.ledger_enroll env k built sources, v.next_ledger] at inserted
    exact inserted

include closes in
theorem upholding_delete (h : Option Handle) : (delete env nested h).Respects upholding := by
  refine upholding_lenient.delete h fun w h inst here consistent => ?_
  have forgot := World.ledger_uncache consistent.caches here
  have uncached := w.ledger.forget_notMem h
  rw [← forgot] at uncached
  refine upholding_destroy closes uncached ?_
  rw [forgot]
  exact consistent.forget h

include creates closes in
theorem upholding_call (hooks : ∀ hook, (nested (env.hook hook)).Respects upholding) (bound : Nat)
    (c : Call κ η σ β) : (c.run env nested bound).Respects upholding := by
  have lenient := upholding_lenient (κ := κ) (η := η) (σ := σ)
  cases c with
  | lookUp k => exact lenient.during _ (upholding_lookUp creates closes k)
  | build k =>
    refine lenient.during _ (lenient.build k (creates k) fun v built sources => ?_)
    exact upholding_enroll v env k built sources false
  | delete h => exact upholding_delete closes h
  | teardown =>
    exact respects_bind (lenient.of_still still_reachRegistry) fun _ =>
      upholding_drainCache closes bound
  | runHooks =>
    exact lenient.plain.drainHooks (fun _ _ => id) (upholding_drainCache closes bound) hooks bound
  | _ => exact upholding_ofLedger.outer.call trivial

end Registry

end Run

section Programs

variable [DecidableEq η] {env : Environment κ η σ} {w : World κ η σ}

theorem Client.respects_upholding (env : Environment κ η σ) (bound depth : Nat)
    (c : Client κ η σ α) : (c.runTo env bound depth).Respects upholding := by
  have outer := upholding_ofLedger (κ := κ) (η := η) (σ := σ) |>.outer
  refine Covers.respects_runTo (fun respected => ?_) depth c.only_all
  exact ⟨fun c _ => Run.upholding_call (fun _ => respected (only_all _))
      (fun _ _ => respected (only_all _)) (fun _ => respected (only_all _)) _ c,
    fun _ => outer.replay, fun f _ => outer.plain.scope f,
    fun h p edit _ => outer.within upholding_ofLedger.memoryless upholding_mark h p edit,
    fun fixture _ => outer.thread fixture⟩

theorem Visited.consistent (visited : Visited env w) : w.ledger.Consistent := by
  induction visited with
  | start production hooked client => exact (World.start_settled production hooked client).consistent
  | step c _ ih => exact Client.respects_upholding env runLimit runLimit c _ ih
  | use h busy _ ih => exact upholding_mark _ h busy ih
  | enter frame fixture _ ih => exact ih

/-- Between programs, and inside them while no call is under way, there is no task. -/
theorem Visited.idle (visited : Visited env w) : w.tasks.active = [] := by
  induction visited with
  | start production hooked client => rfl
  | step c _ ih => exact (Client.respects_resting env runLimit runLimit c _).trans ih
  | use h busy _ ih => exact ih
  | enter frame fixture _ ih => exact ih

end Programs

end MemoryTrial
