import MemoryTrial.Proofs.World.ExitHooks

/-! Which instances a program leaves in the cache: new ones besides those that were there
(`Client.respects_renewing`), and no others than were there while the teardown of the registry is not
registered as an exit hook (`Client.respects_reaching`). -/

namespace MemoryTrial

variable {κ η σ α β : Type}

/-- The effect of what settles more about the exit of a process. -/
def planning : Effect κ η σ where
  Allows w w' := w.exit.Grows w'.exit
  refl w := .refl w.exit
  trans := .trans

theorem planning_ofExit : (planning : Effect κ η σ).OfExit where
  lenient _ _ tidy := tidy.exit
  same _ _ same := .of_eq same

/-- The effect of what leaves a registry alone of which the teardown is not registered. -/
def reaching : Effect κ η σ where
  Allows w w' := w.exit.Grows w'.exit ∧ (w'.teardownHooked = false →
    w'.cache = w.cache ∧ w'.instances.size = w.instances.size)
  refl w := ⟨.refl w.exit, fun _ => ⟨rfl, rfl⟩⟩
  trans {w w' w''} first second := by
    refine ⟨first.1.trans second.1, fun unhooked => ?_⟩
    have unhooked' : w'.teardownHooked = false :=
      Bool.eq_false_iff.mpr fun hooked => Bool.eq_false_iff.mp unhooked (second.1.hooked hooked)
    obtain ⟨cache, size⟩ := first.2 unhooked'
    obtain ⟨cache', size'⟩ := second.2 unhooked
    exact ⟨cache'.trans cache, size'.trans size⟩

theorem reaching_outer : (reaching : Effect κ η σ).Outer where
  plain _ _ still :=
    ⟨still.exit, fun _ => ⟨still.cache, congrArg Array.size still.instances⟩⟩
  frame w _ := reaching.refl w
  state w _ _ _ _ _ _ _ := ⟨.refl w.exit, fun _ => ⟨rfl, Array.size_modify⟩⟩
  denied w _ _ _ _ := ⟨.refl w.exit, fun _ => ⟨rfl, rfl⟩⟩

theorem reaching_memoryless : (reaching : Effect κ η σ).Memoryless :=
  fun w _ _ _ _ _ _ => ⟨.refl w.exit, fun _ => ⟨rfl, Array.size_modify⟩⟩

theorem reaching_mark (w : World κ η σ) (h : Handle) (busy : Bool) :
    reaching.Allows w { w with
      instances := w.instances.modify h.number fun inst => { inst with busy } } :=
  ⟨.refl w.exit, fun _ => ⟨rfl, Array.size_modify⟩⟩

section Reaching

variable [DecidableEq η] {env : Environment κ η σ} {nested : Nested κ η σ} {bound : Nat}

open Run in
/-- What begins with the registry finds its teardown registered in the end. -/
theorem Run.reaching_reach {f : Unit → Run κ η σ α}
    (plans : (reachRegistry >>= f).Respects planning) : (reachRegistry >>= f).Respects reaching := by
  intro w
  obtain ⟨hooks, reached, grows⟩ := reachRegistry_grows w
  refine ⟨plans w, fun unhooked => ?_⟩
  -- the registry is reached once more, and then it is registered already
  have again := reachRegistry_of_hooked (w := { w with hooks, teardownHooked := true }) rfl
  have hooked := (plans { w with hooks, teardownHooked := true }).hooked rfl
  rw [leaves_bind_of_ok again, ← leaves_bind_of_ok reached] at hooked
  exact absurd hooked (Bool.eq_false_iff.mp unhooked)

theorem reaching_call
    (closes : ∀ k holdings, (nested ((env.kind k).close holdings)).Respects planning)
    (creates : ∀ k, (nested (env.kind k).create).Respects planning)
    {c : Call κ η σ β} (only : Calls.operations β c) :
    (c.run env nested bound).Respects reaching := by
  have whole := planning_ofExit.call closes creates bound only
  have during (task : Task κ) {x : Run κ η σ β} (hx : x.Respects reaching) :
      (Run.during task x).Respects reaching :=
    Run.respects_during task (fun w _ => reaching.refl w) hx
  cases c with
  | lookUp k => exact during _ (Run.reaching_reach (planning_ofExit.lookUp closes creates k))
  | build k =>
    refine during _ (Run.reaching_reach ?_)
    exact planning_ofExit.lenient.build k (creates k) fun _ _ _ => planning_ofExit.same _ _ rfl
  | delete h => exact Run.reaching_reach whole
  | teardown => exact Run.reaching_reach whole
  | runHooks => exact only.elim
  | _ => exact reaching_outer.call trivial

theorem Client.respects_reaching (free : env.HookFree) (bound depth : Nat) {c : Client κ η σ α}
    (only : c.Only Calls.operations Calls.operations) :
    (c.runTo env bound depth).Respects reaching := by
  have outer := reaching_outer (κ := κ) (η := η) (σ := σ)
  have plans {β : Type} {c : Client κ η σ β} :=
    planning_ofExit.respects_below free bound depth (c := c)
  have covers : Covers env (env.below bound depth) bound reaching reaching Calls.operations :=
    ⟨fun c only => reaching_call (fun k holdings => plans (free.close k holdings))
        (fun k => plans (free.create k)) only,
      fun _ => outer.replay, fun f _ => outer.plain.scope f,
      fun h p edit _ => outer.within reaching_memoryless reaching_mark h p edit,
      fun fixture _ => outer.thread fixture⟩
  rw [Client.runTo_eq]
  exact covers.respects_runWith covers only

end Reaching

/-- The effect of what caches nothing but new instances. -/
def renewing : Effect κ η σ where
  Allows w w' := w.instances.size ≤ w'.instances.size ∧
    ∀ e ∈ w'.cache, e ∈ w.cache ∨ w.instances.size ≤ e.2.number
  refl _ := ⟨Nat.le_refl _, fun _ => .inl⟩
  trans first second := by
    refine ⟨Nat.le_trans first.1 second.1, fun e mem => ?_⟩
    rcases second.2 e mem with old | new
    · exact first.2 e old
    · exact .inr (Nat.le_trans first.1 new)

theorem renewing_same {w w' : World κ η σ} (size : w'.instances.size = w.instances.size)
    (cache : w'.cache ⊆ w.cache) : renewing.Allows w w' :=
  ⟨Nat.le_of_eq size.symm, fun _ mem => .inl (cache mem)⟩

theorem renewing_lenient : (renewing : Effect κ η σ).Lenient := fun _ _ tidy =>
  renewing_same (congrArg Array.size tidy.instances) (by rw [tidy.cache]; exact List.Subset.refl _)

theorem renewing_modify (w : World κ η σ) (h : Handle) (f : Instance κ → Instance κ)
    (journal : Array Entry) :
    renewing.Allows w { w with instances := w.instances.modify h.number f, journal } :=
  renewing_same Array.size_modify (List.Subset.refl _)

theorem renewing_outer : (renewing : Effect κ η σ).Outer where
  plain := renewing_lenient.plain
  frame w _ := renewing.refl w
  state w h _ _ _ _ _ _ := renewing_modify w h _ w.journal
  denied w _ _ _ _ := renewing.refl w

section Renewing

variable {env : Environment κ η σ} {nested : Nested κ η σ}
  (closes : ∀ k holdings, (nested ((env.kind k).close holdings)).Respects renewing)
include closes

theorem Run.renewing_destroy (h : Handle) : (destroy env nested h).Respects renewing :=
  renewing_lenient.destroy (fun w h _ _ _ _ _ => renewing_modify w h _ _) closes h

theorem Run.renewing_drainCache (rounds : Nat) :
    (drainCache env nested rounds).Respects renewing := by
  refine Effect.drainCache (fun w _ newest _ => ?_) rounds
  have popped : renewing.Allows w { w with cache := w.cache.dropLast } :=
    renewing_same rfl (List.dropLast_subset _)
  exact renewing.trans popped (renewing_destroy closes newest _)

variable [DecidableEq η] (creates : ∀ k, (nested (env.kind k).create).Respects renewing)
include creates

open Run in
theorem renewing_call (hooks : ∀ hook, (nested (env.hook hook)).Respects renewing) (bound : Nat)
    (c : Call κ η σ β) : (c.run env nested bound).Respects renewing := by
  have lenient := renewing_lenient (κ := κ) (η := η) (σ := σ)
  have enrolls (v : World κ η σ) (k : κ) (built : Built) (sources : List Handle) (shared : Bool) :
      renewing.Allows v (v.enroll (env.newInstance k built sources shared)) :=
    ⟨by simp [World.enroll], fun _ => .inl⟩
  cases c with
  | lookUp k =>
    refine lenient.during _ (lenient.lookUp k (creates k) (fun v built sources => ?_)
      fun v built sources _ => ⟨by simp [World.enroll], fun e mem => ?_⟩)
    · exact renewing.trans (enrolls v k built sources true) (renewing_destroy closes _ _)
    · rcases List.mem_append.mp mem with old | new
      · exact .inl old
      · rw [List.mem_singleton.mp new]
        exact .inr (Nat.le_refl _)
  | build k => exact lenient.during _ (lenient.build k (creates k) fun v built sources =>
      enrolls v k built sources false)
  | delete h =>
    refine lenient.delete h fun w h inst _ => renewing.trans ?_ (renewing_destroy closes h _)
    split
    · exact renewing_same rfl (List.filter_subset_self _)
    · exact renewing.refl w
  | teardown =>
    exact respects_bind (lenient.of_still still_reachRegistry) fun _ =>
      renewing_drainCache closes bound
  | runHooks =>
    exact lenient.plain.drainHooks (fun w _ => renewing.refl w) (renewing_drainCache closes bound)
      hooks bound
  | _ => exact renewing_outer.call trivial

end Renewing

theorem Client.respects_renewing [DecidableEq η] (env : Environment κ η σ) (bound depth : Nat)
    (c : Client κ η σ α) : (c.runTo env bound depth).Respects renewing := by
  have outer := renewing_outer (κ := κ) (η := η) (σ := σ)
  refine Covers.respects_runTo (fun respected => ?_) depth c.only_all
  exact ⟨fun c _ => renewing_call (fun _ _ => respected (only_all _)) (fun _ => respected (only_all _))
      (fun _ => respected (only_all _)) bound c,
    fun _ => outer.replay, fun f _ => outer.plain.scope f,
    fun h p edit _ => outer.within (fun w h _ _ _ _ _ => renewing_modify w h _ w.journal)
      (fun w h _ => renewing_modify w h _ w.journal) h p edit,
    fun fixture _ => outer.thread fixture⟩

end MemoryTrial
