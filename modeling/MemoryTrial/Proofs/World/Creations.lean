import MemoryTrial.Proofs.World.Ledger

/-! Programs that destroy nothing, such as the creations of kinds: they may add instances and cache
them, and they leave the instances that were there alone (`Client.respects_growing`). -/

namespace MemoryTrial

variable {κ η σ α β : Type}

theorem ledger_of_tidy {w w' : World κ η σ} (tidy : Tidy w w') : w'.ledger = w.ledger := by
  obtain ⟨-, instances, cache, -, entries, journal, none⟩ := tidy
  have nothing : entries.filterMap Entry.tornDown? = [] := by
    refine List.filterMap_eq_nil_iff.mpr fun entry mem => ?_
    cases entry with
    | tornDown h => exact absurd mem (none h)
    | _ => rfl
  simp [World.ledger, instances, cache, journal, nothing]

/-- An effect that is about the registry only. -/
def Effect.OfLedger (E : Effect κ η σ) : Prop :=
  ∀ w w' : World κ η σ, w'.ledger = w.ledger → E.Allows w w'

namespace Effect.OfLedger

variable {E : Effect κ η σ} (ofLedger : E.OfLedger)
include ofLedger

theorem lenient : E.Lenient := fun w w' tidy => ofLedger w w' (ledger_of_tidy tidy)

theorem memoryless : E.Memoryless := fun w h _ _ a' here state =>
  ofLedger _ _ (w.ledger_setAllocator h here state a')

theorem outer : E.Outer where
  plain := ofLedger.lenient.plain
  frame _ _ := ofLedger _ _ rfl
  state w h inst a a' here state _ := ofLedger.memoryless w h inst a a' here state
  denied _ h _ _ _ := ofLedger.lenient _ _ ⟨rfl, rfl, rfl, .refl _, [.denied h], rfl, by simp⟩

end Effect.OfLedger

/-- The effect of programs that destroy nothing that was there before. -/
def growing (may : Prop) : Effect κ η σ where
  Allows w w' := w.ledger.Consistent → w'.ledger.Consistent ∧ w.ledger.Grows may w'.ledger
  refl w consistent := ⟨consistent, .refl may w.ledger⟩
  trans first second consistent := by
    obtain ⟨between, grows⟩ := first consistent
    obtain ⟨after, grows'⟩ := second between
    exact ⟨after, grows.trans grows'⟩

theorem growing_mono {may may' : Prop} (h : may → may') {w w' : World κ η σ}
    (allowed : (growing may).Allows w w') : (growing may').Allows w w' := by
  intro consistent
  obtain ⟨after, grows⟩ := allowed consistent
  exact ⟨after, grows.mono h⟩

theorem growing_ofLedger (may : Prop) : (growing may : Effect κ η σ).OfLedger := by
  intro w w' same consistent
  rw [same]
  exact ⟨consistent, .refl may w.ledger⟩

theorem growing_lenient (may : Prop) : (growing may : Effect κ η σ).Lenient :=
  (growing_ofLedger may).lenient

namespace Run

variable {may : Prop} {w w' : World κ η σ} {h : Handle} {inst : Instance κ} {a : Allocator}

theorem growing_within (h : Handle) (p : Ptr) (edit : ByteArray → ByteArray)
    {body : ByteArray → Run κ η σ α} (hbody : ∀ bytes, (body bytes).Respects (growing may)) :
    (within h p edit body).Respects (growing may) := by
  refine (growing_ofLedger may).outer.live fun w inst a here state idle consistent => ?_
  dsimp only
  rw [leaves_bind_of_ok (modifyInstance_run h _ w), leaves_ensuring,
    World.ledger_setBusy]
  have marked := w.ledger_setBusy h true
  obtain ⟨after, grows⟩ := (growing_ofLedger may).memoryless.inside
    (growing_ofLedger may).outer.toUnframed here state _ hbody (by rw [marked]; exact consistent.of_busy)
  rw [marked] at grows
  refine ⟨after.of_busy, grows.of_use ?_⟩
  rw [w.busy_ledger, here, Option.map_some, idle]

variable {env : Environment κ η σ} {nested : Nested κ η σ}

/-- An instance was created that is not cached yet. -/
structure Enrolled (l : Ledger) (c : Card) (w : World κ η σ) : Prop where
  consistent : l.Consistent
  ledger : w.ledger = l.push c
  live : ∃ inst a, w.instances[l.next.number]? = some inst ∧ inst.state = some a ∧ inst.busy = false

theorem enrolled_enroll (v : World κ η σ) (k : κ) (built : Built) (sources : List Handle)
    (shared : Bool) (consistent : v.ledger.Consistent) :
    Enrolled v.ledger ⟨(env.kind k).id, shared, true⟩
      (v.enroll (env.newInstance k built sources shared)) where
  consistent := consistent
  ledger := v.ledger_enroll ..
  live := by
    refine ⟨env.newInstance k built sources shared, built.allocator, ?_, rfl, rfl⟩
    rw [v.next_ledger]
    simp [World.enroll]

theorem destroy_live
    (closes : (nested ((env.kind inst.kind).close inst.holdings)).Respects (growing may))
    (here : w.instances[h.number]? = some inst) (state : inst.state = some a)
    (idle : inst.busy = false) (buried : (w.ledger.bury h).Consistent) :
    ((destroy env nested h).leaves w).ledger.Consistent ∧
      (w.ledger.bury h).Grows may ((destroy env nested h).leaves w).ledger := by
  rw [← w.ledger_bury] at buried ⊢
  rw [leaves_destroy here state idle, ledger_of_tidy (tidy_closed _ h)]
  exact (growing_lenient may).tearDown h a closes _ buried

theorem destroy_dead (dead : ∀ inst, w.instances[h.number]? = some inst → inst.state = none) :
    ((destroy env nested h).leaves w).ledger = w.ledger := by
  rcases destroy_cases env nested h w with ⟨nothing, -⟩ | ⟨inst, a, here, state, -⟩
  · exact ledger_of_tidy nothing.tidy
  · rw [dead inst here] at state
    cases state

theorem destroy_enrolled {l : Ledger} {id : KindId} {shared : Bool}
    (closes : ∀ k holdings, (nested ((env.kind k).close holdings)).Respects (growing may))
    (enrolled : Enrolled l ⟨id, shared, true⟩ w) :
    ((destroy env nested l.next).leaves w).ledger.Consistent ∧
      l.Grows may ((destroy env nested l.next).leaves w).ledger := by
  obtain ⟨inst, a, here, state, idle⟩ := enrolled.live
  have buried : ((l.push ⟨id, shared, true⟩).bury l.next).Consistent :=
    enrolled.consistent.push_bury rfl
  rw [← enrolled.ledger] at buried
  obtain ⟨after, grows⟩ := destroy_live (closes _ _) here state idle buried
  rw [enrolled.ledger] at grows
  exact ⟨after, (Ledger.grows_push_bury may l _).trans grows⟩

/-- A new instance is cached, if there is none for its id. -/
theorem insert_enrolled {l : Ledger} {id : KindId} (enrolled : Enrolled l ⟨id, true, true⟩ w)
    (absent : w.cache.lookup id = none) :
    { w with cache := w.cache ++ [(id, l.next)] }.ledger.Consistent ∧
      l.Grows True { w with cache := w.cache ++ [(id, l.next)] }.ledger := by
  have appended : { w with cache := w.cache ++ [(id, l.next)] }.ledger =
      (l.push ⟨id, true, true⟩).insert id l.next := by
    change w.ledger.insert id l.next = _
    rw [enrolled.ledger]
  have cache : w.cache = l.cache := congrArg Ledger.cache enrolled.ledger
  rw [appended]
  refine ⟨enrolled.consistent.push_insert fun h mem => ?_, l.grows_push_insert _⟩
  rw [cache, enrolled.consistent.caches.lookup_eq_some_iff.mpr mem] at absent
  cases absent

variable [DecidableEq η]

theorem growing_build (k : κ) (creates : (nested (env.kind k).create).Respects (growing True)) :
    (build env nested k).Respects (growing True) := by
  refine (growing_lenient True).build k creates fun v built sources consistent => ?_
  rw [v.ledger_enroll]
  exact ⟨consistent.push rfl, Ledger.grows_push_local True _ _⟩

theorem growing_lookUp (k : κ) (creates : (nested (env.kind k).create).Respects (growing True))
    (closes : ∀ k holdings, (nested ((env.kind k).close holdings)).Respects (growing True)) :
    (lookUp env nested k).Respects (growing True) := by
  refine (growing_lenient True).lookUp k creates (fun v built sources consistent => ?_)
    fun v built sources absent consistent => ?_
  · rw [← v.next_ledger]
    exact destroy_enrolled closes (enrolled_enroll v k built sources true consistent)
  · rw [← v.next_ledger]
    exact insert_enrolled (enrolled_enroll v k built sources true consistent) absent

end Run

/-- Calls that destroy nothing.  With `may` they can also create instances. -/
def Calls.harmless (may : Prop) : Calls κ η σ
  | _, .lookUp _ => may
  | _, .build _ => may
  | _, .delete _ => False
  | _, .teardown => False
  | _, .runHooks => False
  | _, _ => True

/-- The creations of kinds and the teardowns of their instances destroy nothing but the instance
that is torn down. -/
structure Environment.Orderly (env : Environment κ η σ) : Prop where
  create : ∀ k, (env.kind k).create.Only (Calls.harmless True) (Calls.harmless True)
  close : ∀ k holdings,
    ((env.kind k).close holdings).Only (Calls.harmless True) (Calls.harmless True)

section Programs

variable [DecidableEq η] {env : Environment κ η σ} {nested : Nested κ η σ} {bound : Nat}
  {may : Prop}

open Run in
/-- A call that is about no instance as a whole. -/
theorem Effect.Outer.call {E : Effect κ η σ} (outer : E.Outer) {c : Call κ η σ β}
    (harmless : Calls.harmless False β c) : (c.run env nested bound).Respects E := by
  cases c with
  | checkpoint => exact outer.checkpoint
  | use h r => exact outer.use h r
  | useOwned i r => exact outer.onOwned i _
  | tearDownOwned i => exact outer.onOwned i _
  | readOwned i f => exact outer.onOwned i _
  | lookUp | build | delete | teardown | runHooks => exact harmless.elim
  | _ => exact outer.plain.of_still (still_call trivial)

open Run in
theorem growing_call (orderly : env.Orderly)
    (respected : ∀ {β : Type} {c : Client κ η σ β},
      c.Only (Calls.harmless True) (Calls.harmless True) → (nested c).Respects (growing True))
    {c : Call κ η σ β} (harmless : Calls.harmless may β c) :
    (c.run env nested bound).Respects (growing may) := by
  have widen {x : Run κ η σ β} (h : may) (hx : x.Respects (growing True)) :
      x.Respects (growing may) :=
    hx.mono fun _ _ => growing_mono fun _ => h
  cases c with
  | lookUp k =>
    refine widen harmless ((growing_lenient True).during _ ?_)
    exact growing_lookUp k (respected (orderly.create k)) fun k holdings =>
      respected (orderly.close k holdings)
  | build k =>
    refine widen harmless ((growing_lenient True).during _ ?_)
    exact growing_build k (respected (orderly.create k))
  | delete h => exact harmless.elim
  | teardown => exact harmless.elim
  | runHooks => exact harmless.elim
  | _ => exact (growing_ofLedger may).outer.call trivial

theorem growing_covers (orderly : env.Orderly)
    (respected : ∀ {β : Type} {c : Client κ η σ β},
      c.Only (Calls.harmless True) (Calls.harmless True) → (nested c).Respects (growing True)) :
    Covers env nested bound (growing may) (growing may) (Calls.harmless may) :=
  have outer := (growing_ofLedger may).outer
  ⟨fun _ harmless => growing_call orderly respected harmless, fun _ => outer.replay,
    fun f _ => outer.plain.scope f, fun h p edit _ => Run.growing_within h p edit,
    fun fixture _ => outer.thread fixture⟩

theorem Client.respects_growing (orderly : env.Orderly) (bound depth : Nat) {c : Client κ η σ α}
    (harmless : c.Only (Calls.harmless may) (Calls.harmless may)) :
    (c.runTo env bound depth).Respects (growing may) := by
  cases depth with
  | zero =>
    have stops {β : Type} {c : Client κ η σ β}
        (_ : c.Only (Calls.harmless True) (Calls.harmless True)) :
        (throw .endless : Run κ η σ β).Respects (growing True) := Run.respects_throw _
    exact (growing_covers orderly stops).respects_runWith (growing_covers orderly stops) harmless
  | succ depth =>
    have deeper {β : Type} {d : Client κ η σ β}
        (only : d.Only (Calls.harmless True) (Calls.harmless True)) :
        (d.runTo env bound depth).Respects (growing True) :=
      Covers.respects_runTo (growing_covers orderly) depth only
    exact (growing_covers orderly deeper).respects_runWith (growing_covers orderly deeper) harmless

end Programs

end MemoryTrial
