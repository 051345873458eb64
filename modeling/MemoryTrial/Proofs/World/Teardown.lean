import MemoryTrial.Proofs.World.Dependencies
import MemoryTrial.Proofs.World.Enactments
import MemoryTrial.Proofs.Script.Kinds

/-! The teardown of a registry.  However a registry was filled by look-ups, an instance is destroyed
before the ones that its creation looked up, and those serve the requests of its teardown
(`Filled.respectsSources`). -/

namespace MemoryTrial

variable {κ η σ α β : Type}

theorem Run.marks_of_denied {w w' : World κ η σ} {h : Handle} {id : KindId}
    (failed : liveInstance h w = .error (.unwound (.violation (.destroyedAllocator id))) w') :
    w'.marks = w.marks ++ [.denied h] := by
  cases here : w.instances[h.number]? with
  | none =>
    rw [liveInstance, instanceOf, bind_assoc, bind_of_ok (get_run w), here, raise_bind] at failed
    cases failed
  | some inst =>
    rw [liveInstance, bind_of_ok (instanceOf_of_some here)] at failed
    cases busy : inst.busy with
    | true =>
      rw [busy, if_pos rfl] at failed
      cases failed
    | false =>
      rw [busy, if_neg Bool.false_ne_true] at failed
      cases state : inst.state with
      | some a =>
        rw [state] at failed
        cases failed
      | none =>
        rw [state] at failed
        cases failed
        simp [World.marks, Panic.records, List.filter_cons, Entry.isMark]

/-- The effect of what tears instances down one by one, each before its sources. -/
def bracketing : Effect κ η σ where
  Allows w w' := w.lineage.Stacked →
    w'.lineage.Stacked ∧ ∃ told, w.lineage.Extends told w'.lineage
  refl w stacked := ⟨stacked, [], .refl w.lineage⟩
  trans first second stacked := by
    obtain ⟨between, told, extended⟩ := first stacked
    obtain ⟨after, told', extended'⟩ := second between
    exact ⟨after, told ++ told', extended.trans extended'⟩

theorem bracketing_of_sparing {w w' : World κ η σ} (allowed : sparing.Allows w w') :
    bracketing.Allows w w' := by
  intro stacked
  obtain ⟨after, told, spares⟩ := allowed stacked
  exact ⟨after, told, spares.extends⟩

theorem bracketing_ofLineage : (bracketing : Effect κ η σ).OfLineage where
  same w w' same := bracketing_of_sparing (sparing_ofLineage.same w w' same)
  denied w h inst here dead := bracketing_of_sparing (sparing_ofLineage.denied w h inst here dead)

namespace Run

variable {env : Environment κ η σ} {nested : Nested κ η σ} {w w' : World κ η σ} {h : Handle}
  {inst : Instance κ}

/-- The newest instance, which left the cache, is destroyed, unless it is in use. -/
theorem destroy_popped {rest : List Handle} (stacked : w.lineage.Stacked)
    (closes : ∀ k holdings, (nested ((env.kind k).close holdings)).Respects sparing)
    (whole : w.lineage.cached = rest ++ [h]) (instances : w'.instances = w.instances)
    (popped : w'.lineage = { w.lineage with cached := rest }) :
    (∃ halt w'', destroy env nested h w' = .error halt w'' ∧ w''.lineage = w'.lineage) ∨
      ∃ (l : Lineage) (during : List Entry), l.Stacked ∧ (w'.lineage.bury h).Spares during l ∧
        ((destroy env nested h).leaves w').lineage = l.tell (.closed h) := by
  obtain ⟨birth, born, live⟩ := stacked.live h (by simp [whole])
  rw [w.birth_lineage, ← instances, Option.map_eq_some_iff] at born
  obtain ⟨inst, here, rfl⟩ := born
  obtain ⟨a, state⟩ := Option.isSome_iff_exists.mp live
  cases busy : inst.busy with
  | true =>
    have still := still_raise (α := Unit) (.violation (.reentrantUse inst.id)) w'
    exact .inl ⟨_, _, destroy_of_busy here busy, lineage_of_still still⟩
  | false =>
    obtain ⟨after, absent, -⟩ := stacked.pop whole
    rw [← popped] at after
    refine .inr (sparing_destroy (closes _ _) here state busy (after.bury ?_))
    rwa [popped]

/-- How far a teardown of the registry has come that began in `l`. -/
theorem drainCache_unwinds {l : Lineage} (begun : l.Stacked)
    (closes : ∀ k holdings, (nested ((env.kind k).close holdings)).Respects sparing)
    (rounds : Nat) {told : List Entry} (stacked : w.lineage.Stacked)
    (unwinds : l.Unwinds told w.lineage) (finished : l.Finished told w.lineage) :
    let w' := (drainCache env nested rounds).leaves w
    w'.lineage.Stacked ∧ ∃ told', l.Unwinds told' w'.lineage ∧
      (drainCache env nested rounds w = .ok () w' → w'.cache = [] ∧ l.Finished told' w'.lineage) := by
  induction rounds generalizing w told with
  | zero =>
    refine ⟨stacked, told, unwinds, fun returned => ?_⟩
    cases returned
  | succ rounds ih =>
    intro w'
    cases last : w.cache.getLast? with
    | none =>
      have run : drainCache env nested (rounds + 1) w = .ok () w := by
        rw [drainCache, bind_of_ok (get_run w), last]
        rfl
      have same : w' = w := leaves_of_ok run
      rw [same]
      exact ⟨stacked, told, unwinds, fun _ => ⟨List.getLast?_eq_none_iff.mp last, finished⟩⟩
    | some newest =>
      obtain ⟨id, h⟩ := newest
      obtain ⟨older, cache⟩ := List.getLast?_eq_some_iff.mp last
      let popped : World κ η σ := { w with cache := w.cache.dropLast }
      have run : drainCache env nested (rounds + 1) w =
          (destroy env nested h >>= fun _ => drainCache env nested rounds) popped := by
        rw [drainCache, bind_of_ok (get_run w), last]
        rfl
      have whole : w.lineage.cached = older.map Prod.snd ++ [h] := by simp [World.lineage, cache]
      have lineage : popped.lineage = { w.lineage with cached := older.map Prod.snd } := by
        simp [popped, World.lineage, World.marks, cache]
      have left : w' =
          (destroy env nested h >>= fun _ => drainCache env nested rounds).leaves popped :=
        leaves_congr run
      rw [run, left]
      have instances : popped.instances = w.instances := rfl
      rcases destroy_popped stacked closes whole instances lineage with
        ⟨halt, v, failed, same⟩ | ⟨l', during, after, spares, destroyed⟩
      · -- the instance is in use, and nothing more is destroyed
        have stuck := bind_of_error (f := fun _ => drainCache env nested rounds) failed
        rw [leaves_of_error stuck, stuck, same, lineage]
        refine ⟨(stacked.pop whole).1, told, unwinds.pop whole, fun returned => ?_⟩
        cases returned
      · rw [lineage] at spares
        obtain ⟨unwinds', finished'⟩ := unwinds.step whole begun finished stacked spares
        have after' : (l'.tell (.closed h)).Stacked := after.congr rfl rfl
        rw [← destroyed] at unwinds' finished' after'
        cases ended : destroy env nested h popped with
        | ok _ v =>
          rw [leaves_of_ok ended] at unwinds' finished' after'
          rw [leaves_bind_of_ok ended, bind_of_ok ended]
          exact ih after' unwinds' finished'
        | error halt v =>
          have stuck := bind_of_error (f := fun _ => drainCache env nested rounds) ended
          rw [leaves_of_error ended] at unwinds' after'
          rw [leaves_of_error stuck, stuck]
          refine ⟨after', _, unwinds', fun returned => ?_⟩
          cases returned

end Run

/-- What a client may call while a registry is filled by look-ups: anything but deletions and exit
hooks. -/
def Calls.filling : Calls κ η σ
  | _, .delete _ => False
  | _, .runHooks => False
  | _, _ => True

section Programs

variable [DecidableEq η] {env : Environment κ η σ} {nested : Nested κ η σ} {bound : Nat}

open Run in
theorem bracketing_call (orderly : env.Orderly)
    (respected : ∀ {β : Type} {c : Client κ η σ β},
      c.Only (Calls.harmless True) (Calls.harmless True) → (nested c).Respects sparing)
    {c : Call κ η σ β} (filling : Calls.filling β c) :
    (c.run env nested bound).Respects bracketing := by
  have spared {c : Call κ η σ β} (harmless : Calls.harmless True β c) :
      (c.run env nested bound).Respects bracketing :=
    (sparing_call orderly respected harmless).mono fun _ _ => bracketing_of_sparing
  cases c with
  | delete h => exact filling.elim
  | runHooks => exact filling.elim
  | teardown =>
    refine respects_bind (bracketing_ofLineage.outer.plain.of_still still_reachRegistry) fun _ => ?_
    intro w stacked
    obtain ⟨after, told, unwinds, -⟩ := drainCache_unwinds stacked
      (fun k holdings => respected (orderly.close k holdings)) bound stacked (.refl _) (.refl _)
    exact ⟨after, told, unwinds.toExtends⟩
  | _ => exact spared trivial

theorem Environment.Orderly.exists_sparing (orderly : env.Orderly) :
    ∃ nested : Nested κ η σ,
      (∀ {α : Type} (c : Client κ η σ α), c.run env = c.runWith env nested runLimit) ∧
      ∀ {β : Type} {c : Client κ η σ β},
        c.Only (Calls.harmless True) (Calls.harmless True) → (nested c).Respects sparing := by
  obtain ⟨below, run_eq⟩ := Client.exists_below env
  exact ⟨_, run_eq, fun harmless => Client.respects_sparing orderly runLimit below harmless⟩

theorem Client.run_respects_bracketing (orderly : env.Orderly) {c : Client κ η σ α}
    (only : c.Only Calls.filling Calls.filling) : (c.run env).Respects bracketing := by
  obtain ⟨nested, run_eq, respected⟩ := orderly.exists_sparing
  have outer := bracketing_ofLineage (κ := κ) (η := η) (σ := σ) |>.outer
  have covers : Covers env nested runLimit bracketing bracketing Calls.filling :=
    ⟨fun _ filling => bracketing_call orderly respected filling, fun _ => outer.replay,
      fun f _ => outer.plain.scope f, fun h p edit _ => bracketing_ofLineage.within h p edit,
      fun fixture _ => outer.thread fixture⟩
  rw [run_eq]
  exact covers.respects_runWith covers only

end Programs

/-- The states of a process in which a registry is filled by look-ups only: at its start, after any
program, and inside a program, while payloads are in use or a replay, a scope or a thread is under
way. -/
inductive Filled [DecidableEq η] (env : Environment κ η σ) : World κ η σ → Prop
  | start (production : Fixture κ) (hooked : Bool) (client : σ) :
    Filled env (World.start production hooked client)
  | step {α : Type} {w : World κ η σ} (c : Client κ η σ α) :
    Filled env w → c.Only Calls.filling Calls.filling → Filled env ((c.run env).leaves w)
  | use {w : World κ η σ} (h : Handle) (busy : Bool) :
    Filled env w →
    Filled env { w with instances := w.instances.modify h.number fun inst => { inst with busy } }
  | enter {w : World κ η σ} (frame : Option Frame) (fixture : Fixture κ) :
    Filled env w → Filled env { w with frame, fixture }

/-- While an instance is torn down, the instances that its creation looked up are not, and none of
them is denied to a request. -/
def World.ServesTeardowns (w : World κ η σ) : Prop :=
  ∀ before h after, w.marks = before ++ .tornDown h :: after →
    ∃ during later, after = during ++ .closed h :: later ∧
      ∀ inst, w.instances[h.number]? = some inst → ∀ s ∈ inst.sources,
        .tornDown s ∉ during ∧ .denied s ∉ during

/-- The instances that a teardown of the registry is about: those that are cached when it begins, and
those that look-ups create until it ends. -/
def World.Concerns (w w' : World κ η σ) (h : Handle) : Prop :=
  h ∈ w.cache.map Prod.snd ∨ w.instances.size ≤ h.number ∧
    ∃ inst, w'.instances[h.number]? = some inst ∧ inst.shared = true

def World.unwound [DecidableEq η] (env : Environment κ η σ) (w : World κ η σ) : World κ η σ :=
  ((Client.ask .teardown).run env).leaves w

/-- A registry respects which instances were made from which others. -/
structure RespectsSources [DecidableEq η] (env : Environment κ η σ) (w : World κ η σ) : Prop where
  /-- A cached instance stands above those that its creation looked up. -/
  stacked : ∀ older h newer, w.cache.map Prod.snd = older ++ h :: newer →
    ∀ inst, w.instances[h.number]? = some inst → inst.sources ⊆ older
  /-- These serve the requests of its teardown, be it one of the registry or that of a duplicate which
  a look-up discards. -/
  serves : ∀ {α : Type} (c : Client κ η σ α), c.Only Calls.filling Calls.filling →
    ((c.run env).leaves w).ServesTeardowns
  /-- When the registry is torn down, none of them is torn down before its own teardown is over. -/
  ordered : ∀ h inst, w.Concerns (w.unwound env) h →
    (w.unwound env).instances[h.number]? = some inst → ∀ s ∈ inst.sources,
    ∀ before later, (w.unwound env).marks = before ++ .tornDown s :: later →
      [.tornDown h, .closed h].Sublist before
  /-- When the teardown returns, all have been torn down. -/
  finished : (Client.ask .teardown).run env w = .ok () (w.unwound env) →
    (w.unwound env).cache = [] ∧
      ∀ h, w.Concerns (w.unwound env) h → [.tornDown h, .closed h].Sublist (w.unwound env).marks
  /-- What is on record of teardowns was carried out. -/
  enacts : (w.unwound env).Enacts env runLimit 0
  /-- Who is unwound because an instance was destroyed is on record. -/
  denials : ∀ h id (v v' : World κ η σ),
    Run.liveInstance h v = .error (.unwound (.violation (.destroyedAllocator id))) v' →
    v'.marks = v.marks ++ [.denied h]

theorem World.sources_lineage {w : World κ η σ} {h : Handle} {inst : Instance κ}
    (here : w.instances[h.number]? = some inst) : w.lineage.sources h = inst.sources := by
  have birth : w.lineage.birth h = some inst.birth := by
    rw [w.birth_lineage, here, Option.map_some]
  exact Lineage.sources_of_birth birth

theorem World.concerns_lineage {w w' : World κ η σ} {h : Handle} (concerned : w.Concerns w' h) :
    w.lineage.Concerns w'.lineage h := by
  refine concerned.imp_right fun ⟨new, inst, here, shared⟩ => ⟨?_, inst.birth, ?_, shared⟩
  · rwa [w.length_lineage]
  · rw [w'.birth_lineage, here, Option.map_some]

section Histories

variable [DecidableEq η] {env : Environment κ η σ} {w : World κ η σ}

theorem Filled.history (orderly : env.Orderly) (filled : Filled env w) :
    w.lineage.Stacked ∧ Lineage.empty.Extends w.marks w.lineage := by
  induction filled with
  | start production hooked client => exact ⟨Lineage.empty_stacked, .refl _⟩
  | @step α w c _ only ih =>
    obtain ⟨stacked, history⟩ := ih
    obtain ⟨after, told, extended⟩ := Client.run_respects_bracketing orderly only _ stacked
    have marks : ((c.run env).leaves w).marks = w.marks ++ told := extended.marks
    rw [marks]
    exact ⟨after, history.trans extended⟩
  | @use w h busy _ ih =>
    let mark (inst : Instance κ) : Instance κ := { inst with busy }
    have same := w.lineage_modify h (f := mark) fun _ _ => rfl
    rwa [same]
  | enter frame fixture _ ih => exact ih

theorem Filled.visited (filled : Filled env w) : Visited env w := by
  induction filled with
  | start production hooked client => exact .start production hooked client
  | step c _ _ ih => exact .step c ih
  | use h busy _ ih => exact .use h busy ih
  | enter frame fixture _ ih => exact .enter frame fixture ih

theorem Filled.servesTeardowns (orderly : env.Orderly) (filled : Filled env w) :
    w.ServesTeardowns := by
  intro before h after whole
  obtain ⟨during, later, split, apart⟩ := (filled.history orderly).2.brackets before h after whole
  refine ⟨during, later, split, fun inst here => ?_⟩
  rw [World.sources_lineage here] at apart
  exact apart

theorem World.unwound_unwinds (orderly : env.Orderly) (stacked : w.lineage.Stacked) :
    ∃ told, w.lineage.Unwinds told (w.unwound env).lineage ∧
      ((Client.ask .teardown).run env w = .ok () (w.unwound env) →
        (w.unwound env).cache = [] ∧ w.lineage.Finished told (w.unwound env).lineage) := by
  obtain ⟨nested, run_eq, respected⟩ := orderly.exists_sparing
  obtain ⟨hooks, teardownHooked, reached⟩ := Run.reachRegistry_eq w
  let begun : World κ η σ := { w with hooks, teardownHooked }
  have run : (Client.ask .teardown).run env w = Run.drainCache env nested runLimit begun := by
    rw [run_eq, Client.runWith_ask]
    exact Run.bind_of_ok reached
  have closes (k : κ) (holdings : List Holding) := respected (orderly.close k holdings)
  obtain ⟨-, told, unwinds, finish⟩ := Run.drainCache_unwinds (w := begun) stacked closes runLimit
    stacked (.refl _) (.refl _)
  rw [← Run.leaves_congr run] at unwinds finish
  rw [run]
  exact ⟨told, unwinds, finish⟩

/-- However a registry was filled by look-ups, and whatever the creations of its kinds and the
teardowns of their instances look up and request, at any depth. -/
theorem Filled.respectsSources (orderly : env.Orderly) (filled : Filled env w) :
    RespectsSources env w := by
  obtain ⟨stacked, history⟩ := filled.history orderly
  obtain ⟨told, unwinds, finish⟩ := w.unwound_unwinds orderly stacked
  refine ⟨fun older h newer whole inst here => ?_,
    fun c only => (filled.step c only).servesTeardowns orderly,
    fun h inst concerned here s source before later split => ?_, fun returned => ?_,
    (Visited.step _ filled.visited).enacts, fun h id v v' => Run.marks_of_denied⟩
  · rw [← World.sources_lineage here]
    exact stacked.below older h newer whole
  · rw [← World.sources_lineage here] at source
    exact unwinds.ordered_marks stacked history (World.concerns_lineage concerned) source split
  · obtain ⟨cache, finished⟩ := finish returned
    refine ⟨cache, fun h concerned => ?_⟩
    have nothing : h ∉ (w.unwound env).lineage.cached := by simp [World.lineage, cache]
    have gone := (finished h (World.concerns_lineage concerned)).resolve_left nothing
    have marks : (w.unwound env).marks = w.marks ++ told := unwinds.marks
    rw [marks]
    exact List.sublist_append_of_sublist_right gone

end Histories

open Script

/-- A kind whose instances keep a block on the last of their sources. -/
def storey (name : String) (sources revived : List String) : String × KindSpec :=
  (name, .layered { id := ⟨name⟩, name, sources, hold := 16, depth := 1, revived })

/-- The creation of a tower looks up a tower, and two kinds are looked up by teardowns. -/
def towers : Environment KindRef Nat (Session Unit) where
  kind := Catalog.kind [("base", .heap), storey "tower" ["tower", "base"] ["spare"],
    storey "roof" ["tower", "base"] ["attic"], storey "spare" [] [], storey "attic" ["base"] []]
  hook _ := return ()
  production := productionFixture

/-- A roof was built on a tower, of which there was a duplicate. -/
def towersBuilt : World KindRef Nat (Session Unit) :=
  ((do
    let _ ← Client.ask (.lookUp (.named "tower"))
    let _ ← Client.ask (.lookUp (.named "roof")) : Play Unit Unit).run towers).leaves
    (World.start productionFixture false (.start ()))

theorem towersBuilt_filled : Filled towers towersBuilt := by
  refine .step _ (.start _ _ _) ?_
  exact Client.only_bind (Client.only_ask trivial) fun _ =>
    Client.only_bind (Client.only_ask trivial) fun _ => trivial

/-- The duplicate was torn down when it was discarded, and the roof when the registry is; its teardown
creates an attic, which is the next one. -/
theorem towersBuilt_respectsSources :
    towers.Orderly ∧ Filled towers towersBuilt ∧ RespectsSources towers towersBuilt ∧
      towersBuilt.cache.map Prod.snd = [⟨0⟩, ⟨1⟩, ⟨3⟩, ⟨4⟩] ∧
      (towersBuilt.unwound towers).marks =
        [.tornDown ⟨2⟩, .closed ⟨2⟩, .tornDown ⟨4⟩, .closed ⟨4⟩, .tornDown ⟨5⟩, .closed ⟨5⟩,
          .tornDown ⟨3⟩, .closed ⟨3⟩, .tornDown ⟨1⟩, .closed ⟨1⟩, .tornDown ⟨0⟩, .closed ⟨0⟩] := by
  have orderly : towers.Orderly := Catalog.orderly _ _ _
  refine ⟨orderly, towersBuilt_filled, towersBuilt_filled.respectsSources orderly, ?_, ?_⟩
  · decide +kernel
  · decide +kernel

end MemoryTrial
