import MemoryTrial.Proofs.World.Caching
import MemoryTrial.Proofs.World.Consistency
import MemoryTrial.Proofs.World.HookLog
import MemoryTrial.Proofs.World.Reentry

/-! The registry at the exit of a process.  The registry registers its teardown once, at its first use.
When that hook has run nothing is cached, and what was created until then is gone; what is cached when
all hooks have run was created by hooks that ran after it (`Lived.exit_ends`). -/

namespace MemoryTrial

variable {κ η σ α β : Type}

open HookEvent (sinceEmptied)

namespace ExitPlan

variable {p : ExitPlan η}

theorem Armed.note_started (armed : p.Armed) (entry : HookEntry η) :
    Armed ⟨p.hooks.note (.started entry), p.teardownHooked⟩ := ⟨armed.registered, armed.unknown⟩

theorem Armed.take (armed : p.Armed) : Armed ⟨⟨[], .emptied :: p.hooks.past⟩, p.teardownHooked⟩ where
  registered := armed.registered
  unknown _ := by
    rintro ⟨entry, mem, -⟩
    cases mem

/-- When no hook is left, the teardown of the registry was started once, if it was registered. -/
theorem Armed.started_teardown (armed : p.Armed) (balanced : p.hooks.Balanced)
    (emptied : p.hooks.entries = []) :
    (p.hooks.past.filterMap HookEvent.started?).filterMap HookEntry.teardown? =
      if p.teardownHooked then [allocatorExitPriority] else [] := by
  have perm := List.Perm.filterMap HookEntry.teardown? balanced
  rw [emptied, List.append_nil, armed.registered] at perm
  cases hooked : p.teardownHooked with
  | true =>
    rw [hooked] at perm
    exact List.perm_singleton.mp perm
  | false =>
    rw [hooked] at perm
    exact List.perm_nil.mp perm

end ExitPlan

section Handles

variable {env : Environment κ η σ} {nested : Nested κ η σ} {bound : Nat} {w v w' : World κ η σ}
  {entry : HookEntry η} {steps : List (HookEntry η × World κ η σ)}

open Run

/-- A teardown of the registry that returns leaves nothing in the cache. -/
theorem Run.cache_of_drainCache {rounds : Nat}
    (returned : drainCache env nested rounds w = .ok () w') : w'.cache = [] := by
  induction rounds generalizing w with
  | zero => cases returned
  | succ rounds ih =>
    rw [drainCache, bind_of_ok (get_run w)] at returned
    cases last : w.cache.getLast? with
    | none =>
      rw [last] at returned
      cases returned
      exact List.getLast?_eq_none_iff.mp last
    | some newest =>
      rw [last] at returned
      simp only [bind_of_ok (modify_run _ w)] at returned
      obtain ⟨_, u, -, returned⟩ := exists_of_bind_ok returned
      exact ih returned

theorem Handles.armed
    (closes : ∀ k holdings, (nested ((env.kind k).close holdings)).Respects planning)
    (hooks : ∀ hook, (nested (env.hook hook)).Respects planning)
    (handles : Handles env nested bound w steps w') (armed : w.exit.Armed) : w'.exit.Armed := by
  induction handles with
  | done => exact armed
  | emptied _ ih => exact ih armed.take
  | @handled w v _ entry _ handled _ ih =>
    have grows : (w.starting entry).exit.Grows v.exit :=
      handled.allows (planning_ofExit.drainCache closes bound) hooks
    exact ih (grows.armed (armed.note_started entry))

/-- Hooks that leave the registry alone, and do not register its teardown either. -/
theorem Handles.unreached (hooks : ∀ hook, (nested (env.hook hook)).Respects reaching)
    (handles : Handles env nested bound w steps w')
    (spared : ∀ step ∈ steps, step.1.hook ≠ .teardown) (unhooked : w'.teardownHooked = false) :
    w.teardownHooked = false ∧ w'.cache = w.cache ∧ w'.instances.size = w.instances.size := by
  induction handles with
  | done => exact ⟨unhooked, rfl, rfl⟩
  | emptied _ ih => exact ih spared unhooked
  | @handled w v w' entry steps handled _ ih =>
    obtain ⟨unhooked, cache, size⟩ :=
      ih (fun step mem => spared step (List.mem_cons_of_mem _ mem)) unhooked
    cases handled with
    | teardown _ => exact absurd rfl (spared _ List.mem_cons_self)
    | client ran =>
      obtain ⟨grows, same⟩ := leaves_of_ok ran ▸ hooks _ _
      obtain ⟨cache', size'⟩ := same unhooked
      refine ⟨Bool.eq_false_iff.mpr fun hooked => ?_, cache.trans cache', size.trans size'⟩
      exact Bool.eq_false_iff.mp unhooked (grows.hooked hooked)

theorem Handles.renews
    (closes : ∀ k holdings, (nested ((env.kind k).close holdings)).Respects renewing)
    (hooks : ∀ hook, (nested (env.hook hook)).Respects renewing)
    (handles : Handles env nested bound w steps w') : renewing.Allows w w' := by
  induction handles with
  | done w => exact renewing.refl w
  | emptied _ ih => exact ih
  | @handled w v _ entry _ handled _ ih =>
    have started : renewing.Allows w (w.starting entry) :=
      renewing_same rfl (List.Subset.refl _)
    have ran : renewing.Allows (w.starting entry) v :=
      handled.allows (renewing_drainCache closes bound) hooks
    exact renewing.trans (renewing.trans started ran) ih

end Handles

/-- How the registry is left by a run of the exit hooks, after `v`, where its teardown returned. -/
structure World.Swept (v w' : World κ η σ) : Prop where
  empty : v.cache = []
  /-- What is cached in the end was created after the teardown. -/
  newer : ∀ e ∈ w'.cache, v.instances.size ≤ e.2.number
  none : w'.instances.size = v.instances.size → w'.cache = []
  /-- What a look-up had created before was torn down, and once only, unless it is on record that it was
  to be destroyed while it was in use. -/
  gone : ∀ n inst, w'.instances[n]? = some inst → inst.shared = true → n < v.instances.size →
    inst.state = Option.none ∧ w'.journal.toList.count (.tornDown ⟨n⟩) = 1 ∨
      w'.Escaped inst.id ⟨n⟩ ∧ Entry.reentry inst.id ∈ w'.journal.toList

/-- How a run of the exit hooks ends that started the hooks in `steps`. -/
inductive World.ExitEnds (w w' : World κ η σ) (steps : List (HookEntry η × World κ η σ)) : Prop
  /-- Nobody has used the registry. -/
  | unused : w'.teardownHooked = false → w'.cache = [] → w'.instances.size = 0 → ExitEnds w w' steps
  /-- The run tore the registry down once. -/
  | torn {before after : List (HookEntry η × World κ η σ)} {v : World κ η σ} :
    steps = before ++ (⟨.teardown, allocatorExitPriority⟩, v) :: after →
    (∀ step ∈ before ++ after, step.1.hook ≠ .teardown) → v.Swept w' → ExitEnds w w' steps
  /-- An earlier run had torn the registry down. -/
  | spent : .started ⟨.teardown, allocatorExitPriority⟩ ∈ w.hooks.past →
    (∀ step ∈ steps, step.1.hook ≠ .teardown) → ExitEnds w w' steps

/-- What is settled about the exit of a process between its programs.  If the teardown of the registry
was registered, then once and with its priority. -/
structure World.Foreseen (w : World κ η σ) : Prop where
  armed : w.exit.Armed
  balanced : w.hooks.Balanced
  /-- Nobody creates anything before the teardown is registered. -/
  unreached : w.teardownHooked = false → w.cache = [] ∧ w.instances.size = 0

section Programs

variable [DecidableEq η] {env : Environment κ η σ} {w w' : World κ η σ}

/-- The states of a process whose registry registers its teardown.  Its programs leave the exit hooks to
runs of them, which return; payloads may be in use and replays under way. -/
inductive Lived (env : Environment κ η σ) : World κ η σ → Prop
  | start (production : Fixture κ) (client : σ) : Lived env (World.start production false client)
  | step {α : Type} {w : World κ η σ} {c : Client κ η σ α} :
    c.Only Calls.operations Calls.operations → Lived env w → Lived env ((c.run env).leaves w)
  | use {w : World κ η σ} (h : Handle) (busy : Bool) : Lived env w →
    Lived env { w with instances := w.instances.modify h.number fun inst => { inst with busy } }
  | enter {w : World κ η σ} (frame : Option Frame) (fixture : Fixture κ) :
    Lived env w → Lived env { w with frame, fixture }
  | exit {w w' : World κ η σ} :
    Lived env w → (Client.ask .runHooks).run env w = .ok () w' → Lived env w'

theorem Lived.visited (lived : Lived env w) : Visited env w := by
  induction lived with
  | start production client => exact .start production false client
  | step _ _ ih => exact .step _ ih
  | use h busy _ ih => exact .use h busy ih
  | enter frame fixture _ ih => exact .enter frame fixture ih
  | exit _ returned ih => exact Run.leaves_of_ok returned ▸ .step _ ih

/-- A run of the exit hooks that returns: `steps` are the hooks that it started, and `log` is what
happened to the hooks meanwhile. -/
structure HooksRun (env : Environment κ η σ) (w w' : World κ η σ)
    (steps : List (HookEntry η × World κ η σ)) (log : List (HookEvent η)) : Prop where
  /-- Each start is a run of what was registered, from its beginning to its return, and nothing else is
  run. -/
  handles : Handles env (env.below runLimit runLimit) runLimit w steps w'
  past : w'.hooks.past = log.reverse ++ w.hooks.past
  emptied : w'.hooks.entries = []
  started : log.filterMap HookEvent.started? = steps.map Prod.fst
  /-- Each pass starts its hooks in the order of their priorities. -/
  passes : Passes ((sinceEmptied w.hooks.past).filterMap HookEvent.accepted?).reverse log

theorem HooksRun.started_past {steps : List (HookEntry η × World κ η σ)} {log : List (HookEvent η)}
    (run : HooksRun env w w' steps log) : w'.hooks.past.filterMap HookEvent.started? =
      (steps.map Prod.fst).reverse ++ w.hooks.past.filterMap HookEvent.started? := by
  rw [run.past, List.filterMap_append, List.filterMap_reverse, run.started]

theorem Run.hooksRun (free : env.HookFree) (told : w.hooks.Told)
    (returned : (Client.ask .runHooks).run env w = .ok () w') :
    ∃ steps log, HooksRun env w w' steps log := by
  rw [Client.run, Client.runTo_eq, Client.runWith_ask] at returned
  obtain ⟨emptied, steps, log, handles, past, started, passes⟩ := runs_of_drainHooks
    (fun k holdings =>
      registering_ofExit.respects_below free runLimit runLimit (free.close k holdings))
    (fun hook => registering_ofExit.respects_below free runLimit runLimit (free.hook hook))
    told.ranked returned
  exact ⟨steps, log, handles, past, emptied, started, passes⟩

theorem World.Foreseen.run (free : env.HookFree) (foreseen : w.Foreseen) (told : w.hooks.Told)
    {steps : List (HookEntry η × World κ η σ)} {log : List (HookEvent η)}
    (run : HooksRun env w w' steps log) : w'.Foreseen := by
  have armed := run.handles.armed
    (fun k holdings => planning_ofExit.respects_below free runLimit runLimit (free.close k holdings))
    (fun hook => planning_ofExit.respects_below free runLimit runLimit (free.hook hook)) foreseen.armed
  have balanced : w'.hooks.Balanced := by
    refine foreseen.balanced.of_log run.past ?_
    rw [run.emptied, List.append_nil]
    exact run.passes.once.trans (told.ranked.perm.symm.append_right _)
  refine ⟨armed, balanced, fun unhooked => ?_⟩
  have none := armed.started_teardown balanced run.emptied
  rw [show w'.exit.teardownHooked = false from unhooked] at none
  have spared (step) (mem : step ∈ steps) : step.1.hook ≠ .teardown := by
    refine HookEntry.teardown?_eq_none.mp (List.filterMap_eq_nil_iff.mp none step.1 ?_)
    change step.1 ∈ w'.hooks.past.filterMap HookEvent.started?
    rw [run.started_past]
    exact List.mem_append_left _ (List.mem_reverse.mpr (List.mem_map_of_mem mem))
  obtain ⟨unhooked, cache, size⟩ := run.handles.unreached
    (fun hook => Client.respects_below
      (fun depth => Client.respects_reaching free runLimit depth (free.hook hook)) runLimit)
    spared unhooked
  obtain ⟨cache', size'⟩ := foreseen.unreached unhooked
  exact ⟨cache.trans cache', size.trans size'⟩

theorem Lived.foreseen (free : env.HookFree) (lived : Lived env w) : w.Foreseen := by
  induction lived with
  | start production client =>
    refine ⟨⟨rfl, fun _ => ?_⟩, .refl [], fun _ => ⟨rfl, rfl⟩⟩
    rintro ⟨entry, mem, -⟩
    cases mem
  | @step _ w c only _ ih =>
    obtain ⟨grows, same⟩ := Client.respects_reaching free runLimit runLimit only w
    refine ⟨grows.armed ih.armed, ih.balanced.grows grows.hooks, fun unhooked => ?_⟩
    obtain ⟨cache, size⟩ := same unhooked
    have unhooked : w.teardownHooked = false :=
      Bool.eq_false_iff.mpr fun hooked => Bool.eq_false_iff.mp unhooked (grows.hooked hooked)
    obtain ⟨cache', size'⟩ := ih.unreached unhooked
    exact ⟨cache.trans cache', size.trans size'⟩
  | use h busy _ ih =>
    refine ⟨ih.armed, ih.balanced, fun unhooked => ?_⟩
    exact ⟨(ih.unreached unhooked).1, Array.size_modify.trans (ih.unreached unhooked).2⟩
  | enter frame fixture _ ih => exact ⟨ih.armed, ih.balanced, ih.unreached⟩
  | exit lived returned ih =>
    have told := lived.visited.told free
    obtain ⟨steps, log, run⟩ := Run.hooksRun free told returned
    exact ih.run free told run

theorem World.swept_of_handles (visited : Visited env w') {v : World κ η σ}
    {after : List (HookEntry η × World κ η σ)} (empty : v.cache = [])
    (handles : Handles env (env.below runLimit runLimit) runLimit v after w') :
    v.Swept w' := by
  have renews {α : Type} (c : Client κ η σ α) :
      (env.below runLimit runLimit c).Respects renewing :=
    Client.respects_below (fun depth => Client.respects_renewing env runLimit depth c) runLimit
  obtain ⟨size, cached⟩ := handles.renews (fun _ _ => renews _) (fun _ => renews _)
  have newer (e : KindId × Handle) (mem : e ∈ w'.cache) : v.instances.size ≤ e.2.number := by
    refine (cached e mem).resolve_left ?_
    rw [empty]
    exact List.not_mem_nil
  refine ⟨empty, newer, fun same => ?_, fun n inst here shared old => ?_⟩
  · refine List.eq_nil_iff_forall_not_mem.mpr fun e mem => ?_
    have number_lt := Ledger.number_lt (visited.consistent.caches.live e mem)
    simp only [World.ledger, List.length_map, Array.length_toList] at number_lt
    have := newer e mem
    omega
  · cases state : inst.state with
    | none =>
      have once := (w'.count_journal ⟨n⟩).trans (World.count_torn visited.consistent here)
      rw [state] at once
      exact .inl ⟨rfl, once⟩
    | some a =>
      have lives : w'.Lives inst.id ⟨n⟩ := ⟨inst, here, rfl, shared, by rw [state]; rfl⟩
      have escaped : w'.Escaped inst.id ⟨n⟩ :=
        ⟨lives, fun mem => Nat.not_lt.mpr (newer _ mem) old⟩
      exact .inr ⟨escaped, visited.reported escaped⟩

theorem World.exitEnds {steps : List (HookEntry η × World κ η σ)} {log : List (HookEvent η)}
    (run : HooksRun env w w' steps log) (foreseen : w'.Foreseen) (visited : Visited env w') :
    w.ExitEnds w' steps := by
  have teardowns : (steps.filterMap fun step => step.1.teardown?).reverse ++
      (w.hooks.past.filterMap HookEvent.started?).filterMap HookEntry.teardown? =
      if w'.teardownHooked then [allocatorExitPriority] else [] := by
    have whole := foreseen.armed.started_teardown foreseen.balanced run.emptied
    change (w'.hooks.past.filterMap HookEvent.started?).filterMap HookEntry.teardown? = _ at whole
    rwa [run.started_past, List.filterMap_append, List.filterMap_reverse, List.filterMap_map] at whole
  cases hooked : w'.teardownHooked with
  | false =>
    obtain ⟨cache, size⟩ := foreseen.unreached hooked
    exact .unused hooked cache size
  | true =>
    rw [hooked] at teardowns
    rcases List.append_eq_singleton_iff.mp teardowns with ⟨none, earlier⟩ | ⟨now, -⟩
    · obtain ⟨entry, mem, teardown⟩ : ∃ entry ∈ w.hooks.past.filterMap HookEvent.started?,
          entry.teardown? = some allocatorExitPriority :=
        List.mem_filterMap.mp (earlier ▸ List.mem_singleton_self _)
      obtain rfl := HookEntry.teardown?_eq_some.mp teardown
      refine .spent (HookEvent.mem_filterMap_started?.mp mem) fun step mem => ?_
      exact HookEntry.teardown?_eq_none.mp
        (List.filterMap_eq_nil_iff.mp (List.reverse_eq_nil_iff.mp none) step mem)
    · have now : steps.filterMap (fun step => step.1.teardown?) = [allocatorExitPriority] :=
        List.reverse_eq_iff.mp now
      obtain ⟨before, ⟨entry, v⟩, after, rfl, none, teardown, none'⟩ :=
        List.filterMap_eq_cons_iff.mp now
      obtain rfl := HookEntry.teardown?_eq_some.mp teardown
      obtain ⟨⟨u, handled⟩, handles⟩ := run.handles.of_append
      have empty : v.cache = [] := by
        cases handled with
        | teardown ran => exact Run.cache_of_drainCache ran
      refine .torn rfl (fun step mem => ?_) (World.swept_of_handles visited empty handles)
      exact HookEntry.teardown?_eq_none.mp ((List.mem_append.mp mem).elim (none step)
        (List.filterMap_eq_nil_iff.mp none' step))

/-- When a run of the exit hooks returns, the registry was never used, or the run tore it down once, in
the order of the priorities, and only hooks that ran after that have filled it again.  What is on record
of teardowns was carried out. -/
theorem Lived.exit_ends (free : env.HookFree) (lived : Lived env w)
    (returned : (Client.ask .runHooks).run env w = .ok () w') :
    ∃ steps log, HooksRun env w w' steps log ∧ w'.Foreseen ∧ w.ExitEnds w' steps ∧
      w'.Enacts env runLimit 0 := by
  have told := lived.visited.told free
  obtain ⟨steps, log, run⟩ := Run.hooksRun free told returned
  have foreseen := (lived.foreseen free).run free told run
  have visited := (lived.exit returned).visited
  exact ⟨steps, log, run, foreseen, World.exitEnds run foreseen visited, visited.enacts⟩

end Programs

/-- Hook 0 uses the registry when it runs. -/
def latecomer : Environment Unit Nat Unit where
  kind _ := Kind.heap
  hook
    | 0 => do
      let _ ← Client.ask (.lookUp ())
    | _ => return ()
  production := ⟨"default", ()⟩

theorem latecomer_hookFree : latecomer.HookFree where
  create _ := ⟨trivial, fun _ => trivial⟩
  close _ _ := trivial
  hook hook := by
    cases hook with
    | zero => exact ⟨trivial, fun _ => trivial⟩
    | succ _ => trivial

/-- Uses the registry, so that its teardown is registered, and registers hook 0 to run after that. -/
def settingOut : Client Unit Nat Unit Unit := do
  let _ ← Client.ask (.lookUp ())
  let _ ← Client.ask (.register 0 10)

theorem settingOut_only : settingOut.Only Calls.operations Calls.operations :=
  ⟨trivial, fun _ => ⟨trivial, fun _ => trivial⟩⟩

def setOut : World Unit Nat Unit :=
  (settingOut.run latecomer).leaves (World.start ⟨"default", ()⟩ false ())

theorem setOut_lived : Lived latecomer setOut := .step settingOut_only (.start _ ())

def leftOver : World Unit Nat Unit := ((Client.ask .runHooks).run latecomer).leaves setOut

theorem leftOver_of_run :
    (Client.ask .runHooks).run latecomer setOut = .ok () leftOver := by
  have returns : ((Client.ask .runHooks).run latecomer).returns setOut = true := by decide +kernel
  obtain ⟨_, ran⟩ := Run.exists_of_returns returns
  exact ran

/-- The hook looks up an instance when the registry is torn down already, and nothing tears it down
again. -/
theorem latecomer_leaves_cached :
    Lived latecomer setOut ∧ (Client.ask .runHooks).run latecomer setOut = .ok () leftOver ∧
      leftOver.cache = [(⟨"system"⟩, ⟨1⟩)] ∧ leftOver.Lives ⟨"system"⟩ ⟨1⟩ :=
  ⟨setOut_lived, leftOver_of_run, by decide +kernel, by decide +kernel⟩

theorem latecomer_exit_ends :
    latecomer.HookFree ∧ Lived latecomer setOut ∧
      (Client.ask .runHooks).run latecomer setOut = .ok () leftOver ∧
      ∃ steps log, HooksRun latecomer setOut leftOver steps log ∧ leftOver.Foreseen ∧
        setOut.ExitEnds leftOver steps ∧ leftOver.Enacts latecomer runLimit 0 :=
  ⟨latecomer_hookFree, setOut_lived, leftOver_of_run,
    setOut_lived.exit_ends latecomer_hookFree leftOver_of_run⟩

end MemoryTrial
