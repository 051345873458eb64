import MemoryTrial.Proofs.World.Creations
import MemoryTrial.Proofs.World.Lineage

/-! What creations and teardowns do to the lineage of instances: whatever programs they are, every
cached instance stays above its sources, and no cached instance is torn down or denied to a request
(`Client.respects_sparing`). -/

namespace MemoryTrial

variable {κ η σ α β : Type}

/-- An effect that is about the lineage of instances only. -/
structure Effect.OfLineage (E : Effect κ η σ) : Prop where
  same : ∀ w w' : World κ η σ, w'.lineage = w.lineage → E.Allows w w'
  denied : ∀ (w : World κ η σ) (h : Handle) (inst : Instance κ),
    w.instances[h.number]? = some inst → inst.state = none →
    E.Allows w { w with journal := w.journal.push (.denied h) }

namespace Effect.OfLineage

open Run

variable {E : Effect κ η σ} (ofLineage : E.OfLineage)
include ofLineage

theorem memoryless : E.Memoryless := by
  intro w h inst a a' here state
  refine ofLineage.same _ _ (w.lineage_modify h fun inst' here' => ?_)
  obtain rfl : inst = inst' := Option.some.inj (here.symm.trans here')
  rw [Instance.birth, Instance.birth, state]
  rfl

theorem outer : E.Outer where
  plain _ _ still := ofLineage.same _ _ (lineage_of_still still)
  frame _ _ := ofLineage.same _ _ rfl
  state w h inst a a' here state _ := ofLineage.memoryless w h inst a a' here state
  denied := ofLineage.denied

theorem within (h : Handle) (p : Ptr) (edit : ByteArray → ByteArray)
    {body : ByteArray → Run κ η σ α} (hbody : ∀ bytes, (body bytes).Respects E) :
    (Run.within h p edit body).Respects E := by
  refine ofLineage.outer.within ofLineage.memoryless (fun w h busy => ?_) h p edit hbody
  exact ofLineage.same _ _ (w.lineage_modify h fun _ _ => rfl)

end Effect.OfLineage

/-- The effect of what spares the cached instances. -/
def sparing : Effect κ η σ where
  Allows w w' := w.lineage.Stacked →
    w'.lineage.Stacked ∧ ∃ told, w.lineage.Spares told w'.lineage
  refl w stacked := ⟨stacked, [], .refl w.lineage⟩
  trans first second stacked := by
    obtain ⟨between, told, spares⟩ := first stacked
    obtain ⟨after, told', spares'⟩ := second between
    exact ⟨after, told ++ told', spares.trans spares'⟩

theorem sparing_ofLineage : (sparing : Effect κ η σ).OfLineage where
  same w w' same stacked := by
    rw [same]
    exact ⟨stacked, [], .refl _⟩
  denied w h inst here dead stacked := by
    have birth : w.lineage.birth h = some inst.birth := by
      rw [w.birth_lineage, here, Option.map_some]
    rw [w.lineage_tell rfl]
    refine ⟨stacked.congr rfl rfl, _, .tell_denied stacked birth ?_⟩
    rw [Instance.birth, dead]
    rfl

namespace Run

variable {env : Environment κ η σ} {nested : Nested κ η σ} {w w' : World κ η σ} {h : Handle}
  {inst : Instance κ} {a : Allocator} {x : Run κ η σ α}

theorem sparing_obtaining (hx : x.Respects sparing) : (obtaining x).Respects sparing := by
  intro w stacked
  rw [leaves_obtaining]
  obtain ⟨after, told, spares⟩ := hx { w with obtained := [] } (stacked.congr rfl rfl)
  refine ⟨after.congr rfl rfl, told, ?_⟩
  exact Lineage.Spares.obtaining (l := w.lineage) spares

theorem sparing_during (task : Task κ) (hx : x.Respects sparing) :
    (during task x).Respects sparing :=
  respects_during task (fun w _ => sparing_ofLineage.same w _ rfl) hx

/-- What a creation has looked up is cached when it ends. -/
theorem sources_cached {b : α} {sources : List Handle} (hx : x.Respects sparing)
    (stacked : w.lineage.Stacked) (run : obtaining x w = .ok (b, sources) w') :
    sources ⊆ w'.lineage.cached := by
  cases inside : x { w with obtained := [] } with
  | ok b' w₁ =>
    rw [obtaining_of_ok inside] at run
    cases run
    obtain ⟨-, told, spares⟩ := hx { w with obtained := [] } (stacked.congr rfl rfl)
    rw [leaves_of_ok inside] at spares
    intro s mem
    exact (spares.obtained s mem).resolve_left List.not_mem_nil
  | error halt w₁ =>
    rw [obtaining_of_error inside] at run
    cases run

/-- An instance was created that is not cached yet. -/
structure Delivered (l : Lineage) (b : Birth) (w : World κ η σ) : Prop where
  lineage : w.lineage = l.push b
  sources : b.sources ⊆ l.cached
  live : ∃ inst a, w.instances[l.next.number]? = some inst ∧ inst.state = some a ∧ inst.busy = false

theorem sparing_create {k : κ} {shared : Bool} {f : Except ConfigError Handle → Run κ η σ α}
    (creates : (nested (env.kind k).create).Respects sparing)
    (failed : ∀ e, (f (.error e)).Respects sparing)
    (created : ∀ (v w : World κ η σ) (sources : List Handle),
      Delivered v.lineage ⟨sources, shared, true⟩ w →
      sparing.Allows v ((f (.ok v.lineage.next)).leaves w)) :
    (create env nested k shared >>= f).Respects sparing := by
  intro w stacked
  refine allows_create (sparing_obtaining creates w) failed (fun built sources v run => ?_) stacked
  let inst := env.newInstance k built sources shared
  have next : v.lineage.next = ⟨v.instances.size⟩ := congrArg Handle.mk v.length_lineage
  have lineage : (v.enroll inst).lineage = v.lineage.push ⟨sources, shared, true⟩ := by
    simp [World.enroll, inst, Environment.newInstance, World.lineage, World.marks, Lineage.push,
      Instance.birth, Entry.isMark]
  have last : (v.enroll inst).instances[v.lineage.next.number]? = some inst := by
    rw [next]
    simp [World.enroll]
  have result := created v (v.enroll inst) sources
    ⟨lineage, sources_cached creates stacked run, inst, built.allocator, last, rfl, rfl⟩
  rw [next] at result
  exact result

theorem sparing_destroy
    (closes : (nested ((env.kind inst.kind).close inst.holdings)).Respects sparing)
    (here : w.instances[h.number]? = some inst) (state : inst.state = some a)
    (idle : inst.busy = false) (buried : (w.lineage.bury h).Stacked) :
    ∃ (l : Lineage) (during : List Entry), l.Stacked ∧ (w.lineage.bury h).Spares during l ∧
      ((destroy env nested h).leaves w).lineage = l.tell (.closed h) := by
  rw [← w.lineage_bury] at buried ⊢
  have tears := sparing_during (.teardown h inst.kind)
    (sparing_ofLineage.outer.plain.tearDown a (sparing_obtaining closes))
  obtain ⟨after, during, spares⟩ := tears _ buried
  refine ⟨_, during, after, spares, ?_⟩
  rw [leaves_destroy here state idle]
  exact World.lineage_tell _ rfl

variable {v : World κ η σ} {sources : List Handle} {shared : Bool}

theorem destroy_delivered
    (closes : ∀ k holdings, (nested ((env.kind k).close holdings)).Respects sparing)
    (delivered : Delivered v.lineage ⟨sources, shared, true⟩ w) :
    sparing.Allows v ((destroy env nested v.lineage.next).leaves w) := by
  intro stacked
  obtain ⟨inst, a, here, state, idle⟩ := delivered.live
  have absent : v.lineage.next ∉ v.lineage.cached :=
    fun mem => Nat.lt_irrefl _ (stacked.number_lt mem)
  have pushed := stacked.push delivered.sources
  have buried : (w.lineage.bury v.lineage.next).Stacked := by
    rw [delivered.lineage]
    exact pushed.bury absent
  obtain ⟨l, during, after, spares, lineage⟩ := sparing_destroy (closes _ _) here state idle buried
  rw [delivered.lineage] at spares
  rw [lineage]
  exact ⟨after.congr rfl rfl, _, spares.push_bury stacked delivered.sources⟩

theorem insert_delivered (id : KindId)
    (delivered : Delivered v.lineage ⟨sources, shared, true⟩ w) :
    sparing.Allows v { w with cache := w.cache ++ [(id, v.lineage.next)] } := by
  intro stacked
  have inserted : { w with cache := w.cache ++ [(id, v.lineage.next)] }.lineage =
      (v.lineage.push ⟨sources, shared, true⟩).insert v.lineage.next := by
    rw [← delivered.lineage]
    simp [World.lineage, World.marks, Lineage.insert]
  have absent : v.lineage.next ∉ v.lineage.cached :=
    fun mem => Nat.lt_irrefl _ (stacked.number_lt mem)
  rw [inserted]
  refine ⟨(stacked.push delivered.sources).insert ⟨_, v.lineage.birth_next _, rfl⟩ ?_ absent, [],
    .push_insert delivered.sources⟩
  rw [Lineage.sources_of_birth (v.lineage.birth_next _)]
  exact delivered.sources

theorem mem_cached_of_lookup {id : KindId} (found : w.cache.lookup id = some h) :
    h ∈ w.lineage.cached := by
  obtain ⟨older, newer, whole, -⟩ := List.lookup_eq_some_iff.mp found
  simp [World.lineage, whole]

theorem sparing_answer (mem : h ∈ w.lineage.cached) :
    sparing.Allows w
      ((do return .ok (← obtain h) : Run κ η σ (Except ConfigError Handle)).leaves w) := by
  intro stacked
  refine ⟨stacked.congr rfl rfl, [], .of_same rfl rfl rfl fun h' obtained => ?_⟩
  rcases List.mem_cons.mp obtained with rfl | obtained
  · exact .inr mem
  · exact .inl obtained

variable [DecidableEq η]

theorem sparing_build (k : κ) (creates : (nested (env.kind k).create).Respects sparing) :
    (build env nested k).Respects sparing := by
  refine respects_bind (sparing_ofLineage.outer.plain.of_still still_reachRegistry) fun _ => ?_
  rw [← bind_pure (create env nested k false)]
  refine sparing_create creates (fun _ => respects_pure _) fun v w sources delivered stacked => ?_
  have same : ((pure (.ok v.lineage.next) : Run κ η σ (Except ConfigError Handle)).leaves
    w).lineage = v.lineage.push ⟨sources, false, true⟩ := delivered.lineage
  rw [same]
  exact ⟨stacked.push delivered.sources, [], .push_local delivered.sources rfl⟩

theorem sparing_lookUp (k : κ) (creates : (nested (env.kind k).create).Respects sparing)
    (closes : ∀ k holdings, (nested ((env.kind k).close holdings)).Respects sparing) :
    (lookUp env nested k).Respects sparing := by
  refine respects_bind (sparing_ofLineage.outer.plain.of_still still_reachRegistry) fun _ => ?_
  intro w
  rw [leaves_bind_of_ok (get_run w)]
  split
  next found here => exact sparing_answer (mem_cached_of_lookup here)
  next =>
    refine (?_ : Run.Respects _ sparing) w
    refine sparing_create creates (fun _ => respects_pure _) fun v w sources delivered => ?_
    have cached : w.lineage.cached = v.lineage.cached := by
      rw [delivered.lineage]
      rfl
    dsimp only
    rw [leaves_bind_of_ok (get_run w)]
    split
    next found here =>
      -- the creation looked up its own id
      have mem := mem_cached_of_lookup here
      rw [cached] at mem
      have destroyed := destroy_delivered closes delivered
      intro stacked
      obtain ⟨-, told, spares⟩ := destroyed stacked
      refine allows_bind_of destroyed (fun _ w' run => sparing_answer ?_) stacked
      rw [← leaves_of_ok run]
      exact spares.cached_subset mem
    next =>
      rw [leaves_bind_of_ok (modify_run _ w)]
      refine sparing.trans (insert_delivered _ delivered) (sparing_answer ?_)
      simp [World.lineage]

end Run

section Programs

variable [DecidableEq η] {env : Environment κ η σ} {nested : Nested κ η σ} {bound : Nat}

open Run in
theorem sparing_call (orderly : env.Orderly)
    (respected : ∀ {β : Type} {c : Client κ η σ β},
      c.Only (Calls.harmless True) (Calls.harmless True) → (nested c).Respects sparing)
    {c : Call κ η σ β} (harmless : Calls.harmless True β c) :
    (c.run env nested bound).Respects sparing := by
  cases c with
  | lookUp k =>
    refine sparing_during _ (sparing_lookUp k (respected (orderly.create k)) fun k holdings => ?_)
    exact respected (orderly.close k holdings)
  | build k => exact sparing_during _ (sparing_build k (respected (orderly.create k)))
  | delete h => exact harmless.elim
  | teardown => exact harmless.elim
  | runHooks => exact harmless.elim
  | _ => exact sparing_ofLineage.outer.call trivial

theorem sparing_covers (orderly : env.Orderly)
    (respected : ∀ {β : Type} {c : Client κ η σ β},
      c.Only (Calls.harmless True) (Calls.harmless True) → (nested c).Respects sparing) :
    Covers env nested bound sparing sparing (Calls.harmless True) :=
  have outer := sparing_ofLineage.outer
  ⟨fun _ harmless => sparing_call orderly respected harmless, fun _ => outer.replay,
    fun f _ => outer.plain.scope f, fun h p edit _ => sparing_ofLineage.within h p edit,
    fun fixture _ => outer.thread fixture⟩

theorem Client.respects_sparing (orderly : env.Orderly) (bound depth : Nat) {c : Client κ η σ α}
    (harmless : c.Only (Calls.harmless True) (Calls.harmless True)) :
    (c.runTo env bound depth).Respects sparing :=
  Covers.respects_runTo (sparing_covers orderly) depth harmless

end Programs

end MemoryTrial
