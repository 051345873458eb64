import MemoryTrial.Proofs.World.Enactments
import MemoryTrial.World.Kinds

/-! Instances that escape their registry.  A deletion and a teardown take an instance out of the cache
before they find out whether it is in use.  If it is, they are unwound, and the instance lives on
without being cached, so that the next look-up of its id creates another one.  This is the only way
in which instances escape: whatever programs do, and however they end, the escape of an instance is on
record as a use of it from inside itself (`Visited.escapes`). -/

namespace MemoryTrial

/-- The record of a call that came to an instance with this id while it was in use. -/
def Entry.reentry (id : KindId) : Entry := .record (.fatal (.reentrantUse id))

namespace Ledger

/-- From `l` to `l'` instances go astray only with `may`, and if `told` reports it. -/
structure Confines (may : Prop) (told : List Entry) (l l' : Ledger) : Prop where
  caches : l'.Caches
  strays : ∀ id h, l'.Stray id h → l.Stray id h ∨ may ∧ Entry.reentry id ∈ told

/-- In `l'` the instance is out of the cache, and no other one went astray. -/
structure Exposes (h : Handle) (l l' : Ledger) : Prop where
  caches : l'.Caches
  uncached : ∀ id, (id, h) ∉ l'.cache
  strays : ∀ id h', l'.Stray id h' → h' ≠ h → l.Stray id h'

variable {l l' l'' : Ledger} {may : Prop} {told told' : List Entry} {id : KindId} {h : Handle}

theorem Confines.refl (may : Prop) (told : List Entry) (caches : l.Caches) :
    Confines may told l l :=
  ⟨caches, fun _ _ => .inl⟩

theorem Confines.trans (first : Confines may told l l') (second : Confines may told' l' l'') :
    Confines may (told ++ told') l l'' where
  caches := second.caches
  strays id h stray := by
    rcases second.strays id h stray with stray | ⟨allowed, reported⟩
    · exact (first.strays id h stray).imp_right fun ⟨allowed, reported⟩ =>
        ⟨allowed, List.mem_append_left told' reported⟩
    · exact .inr ⟨allowed, List.mem_append_right told reported⟩

theorem Confines.of_use {busy busy' : List Bool}
    (confines : { l with busy }.Caches → Confines may told { l with busy } l')
    (caches : l.Caches) : Confines may told l { l' with busy := busy' } := by
  obtain ⟨after, strays⟩ := confines ⟨caches.ids, caches.live⟩
  refine ⟨⟨after.ids, after.live⟩, fun id h stray => ?_⟩
  exact (strays id h ⟨stray.live, stray.uncached⟩).imp_left fun old => ⟨old.live, old.uncached⟩

theorem exposes_forget (caches : l.Caches) (h : Handle) : l.Exposes h (l.forget h) :=
  ⟨caches.forget h, l.forget_notMem h, fun _ _ stray other => stray.of_forget other⟩

theorem exposes_push (caches : l.Caches) (c : Card) : l.Exposes l.next (l.push c) :=
  ⟨caches.push c, caches.next_notMem, fun _ _ stray other => stray.of_push other⟩

theorem Exposes.confines (exposes : l.Exposes h l')
    (reported : ∀ id, l'.card h = some ⟨id, true, true⟩ → may ∧ Entry.reentry id ∈ told) :
    Confines may told l l' where
  caches := exposes.caches
  strays id h' stray := by
    by_cases same : h' = h
    · subst same
      exact .inr (reported id stray.live)
    · exact .inl (exposes.strays id h' stray same)

theorem Exposes.confines_bury (exposes : l.Exposes h l') : Confines may told l (l'.bury h) where
  caches := exposes.caches.bury exposes.uncached
  strays id h' stray := .inl (exposes.strays id h' stray.of_bury.2 stray.of_bury.1)

theorem confines_push_insert (may : Prop) (told : List Entry) (caches : l.Caches)
    (absent : l.cache.lookup id = none) :
    Confines may told l ((l.push ⟨id, true, true⟩).insert id l.next) where
  caches := by
    refine caches.push_insert fun h mem => ?_
    rw [caches.lookup_eq_some_iff.mpr mem] at absent
    cases absent
  strays _ _ stray := .inl stray.of_push_insert

end Ledger

variable {κ η σ α β : Type}

/-- The effect of what lets instances go astray only with a report, and only with `may`. -/
def confining (may : Prop) : Effect κ η σ where
  Allows w w' := ∃ told : List Entry, w'.journal = told.foldl Array.push w.journal ∧
    (w.ledger.Caches → Ledger.Confines may told w.ledger w'.ledger)
  refl w := ⟨[], rfl, .refl may []⟩
  trans first second := by
    obtain ⟨told, journal, confines⟩ := first
    obtain ⟨told', journal', confines'⟩ := second
    refine ⟨told ++ told', ?_, fun caches => ?_⟩
    · rw [journal', journal, List.foldl_append]
    · exact (confines caches).trans (confines' (confines caches).caches)

theorem confining_of_told (may : Prop) {w w' : World κ η σ} (told : List Entry)
    (journal : w'.journal = told.foldl Array.push w.journal) (same : w'.ledger = w.ledger) :
    (confining may).Allows w w' := by
  refine ⟨told, journal, fun caches => ?_⟩
  rw [same]
  exact .refl may told caches

theorem confining_lenient (may : Prop) : (confining may : Effect κ η σ).Lenient := by
  intro w w' tidy
  obtain ⟨told, journal, -⟩ := tidy.journal
  exact confining_of_told may told journal (ledger_of_tidy tidy)

theorem confining_memoryless (may : Prop) : (confining may : Effect κ η σ).Memoryless :=
  fun w h _ _ a' here state => confining_of_told may [] rfl (w.ledger_setAllocator h here state a')

theorem confining_outer (may : Prop) : (confining may : Effect κ η σ).Outer where
  plain := (confining_lenient may).plain
  frame _ _ := confining_of_told may [] rfl rfl
  state w h inst a a' here state _ := confining_memoryless may w h inst a a' here state
  denied _ h _ _ _ := confining_lenient may _ _ ⟨rfl, rfl, rfl, .refl _, [.denied h], rfl, by simp⟩

namespace Run

variable {env : Environment κ η σ} {nested : Nested κ η σ} {v w : World κ η σ} {h : Handle}
  {may : Prop}

theorem confining_within (h : Handle) (p : Ptr) (edit : ByteArray → ByteArray)
    {body : ByteArray → Run κ η σ α} (hbody : ∀ bytes, (body bytes).Respects (confining may)) :
    (within h p edit body).Respects (confining may) := by
  refine (confining_outer may).live fun w inst a here state _ => ?_
  dsimp only
  rw [leaves_bind_of_ok (modifyInstance_run h _ w), leaves_ensuring]
  obtain ⟨told, journal, confines⟩ := (confining_memoryless may).inside
    (confining_outer may).toUnframed here state _ hbody
  refine ⟨told, journal, fun caches => ?_⟩
  rw [w.ledger_setBusy h true] at confines
  rw [World.ledger_setBusy]
  exact .of_use confines caches

/-- The destruction of an instance that left the cache just before: it ends the instance, or reports
that it is in use. -/
theorem confining_destroy (told : List Entry)
    (journal : w.journal = told.foldl Array.push v.journal)
    (exposes : v.ledger.Caches → v.ledger.Exposes h w.ledger)
    (allowed : ∀ inst, w.instances[h.number]? = some inst → inst.busy = true → may)
    (closes : ∀ k holdings, (nested ((env.kind k).close holdings)).Respects (confining may)) :
    (confining may).Allows v ((destroy env nested h).leaves w) := by
  by_cases used : ∃ inst, w.instances[h.number]? = some inst ∧ inst.busy = true
  · obtain ⟨inst, here, busy⟩ := used
    have raised : (destroy env nested h).leaves w =
        (raise (.violation (.reentrantUse inst.id)) : Run κ η σ Unit).leaves w :=
      leaves_congr (destroy_of_busy here busy)
    rw [raised]
    have same := ledger_of_tidy
      (still_raise (α := Unit) (.violation (.reentrantUse inst.id)) w).tidy
    refine ⟨told ++ [Entry.reentry inst.id], ?_, fun caches => ?_⟩
    · rw [List.foldl_append, ← journal]
      rfl
    · rw [same]
      refine (exposes caches).confines fun id live => ?_
      rw [w.card_ledger, here] at live
      obtain rfl : inst.id = id := congrArg Card.id (Option.some.inj live)
      refine ⟨allowed inst here busy, ?_⟩
      exact List.mem_append_right told (List.mem_singleton_self _)
  · rcases destroy_cases env nested h w with ⟨nothing, dead⟩ | ⟨inst, a, here, state, idle⟩
    · obtain ⟨more, journal', -⟩ := nothing.journal
      refine ⟨told ++ more, ?_, fun caches => ?_⟩
      · rw [journal', journal, List.foldl_append]
      · rw [ledger_of_tidy nothing.tidy]
        refine (exposes caches).confines fun id live => ?_
        obtain ⟨inst, a, here, -, -, state⟩ := World.exists_of_card live
        have idle : inst.busy = false := Bool.eq_false_iff.mpr fun busy => used ⟨inst, here, busy⟩
        rw [dead inst here idle] at state
        cases state
    · rw [leaves_destroy here state idle]
      have tears := (confining_lenient may).tearDown h a (closes inst.kind inst.holdings)
      refine (confining may).trans ((confining may).trans ?_ (tears _))
        (confining_lenient may _ _ (tidy_closed _ h))
      refine ⟨told ++ [.tornDown h], ?_, fun caches => ?_⟩
      · rw [List.foldl_append, ← journal]
        rfl
      · rw [w.ledger_bury]
        exact (exposes caches).confines_bury

theorem exposes_enroll (k : κ) (built : Built) (sources : List Handle) (shared : Bool)
    (caches : v.ledger.Caches) :
    v.ledger.Exposes ⟨v.instances.size⟩
      (v.enroll (env.newInstance k built sources shared)).ledger := by
  rw [v.ledger_enroll, ← v.next_ledger]
  exact Ledger.exposes_push caches _

theorem confining_drainCache (allowed : may) (rounds : Nat)
    (closes : ∀ k holdings, (nested ((env.kind k).close holdings)).Respects (confining may)) :
    (drainCache env nested rounds).Respects (confining may) := by
  refine Effect.drainCache (fun w id newest last => ?_) rounds
  refine confining_destroy [] rfl (fun caches => ?_) (fun _ _ _ => allowed) closes
  rw [World.ledger_pop caches last]
  exact Ledger.exposes_forget caches newest

variable [DecidableEq η]

theorem confining_build (k : κ) (creates : (nested (env.kind k).create).Respects (confining may)) :
    (build env nested k).Respects (confining may) := by
  refine (confining_lenient may).build k creates fun v built sources => ?_
  refine ⟨[.record (.instanceCreated (env.kind k).name)], rfl, fun caches => ?_⟩
  refine (exposes_enroll k built sources false caches).confines fun id live => ?_
  -- nobody else can look the new instance up
  have card := (v.ledger.card_push ⟨(env.kind k).id, false, true⟩ v.ledger.next).trans (if_pos rfl)
  rw [← v.ledger_enroll env k built sources, v.next_ledger] at card
  have shared := card.symm.trans live
  simp at shared

theorem confining_lookUp (k : κ) (creates : (nested (env.kind k).create).Respects (confining may))
    (closes : ∀ k holdings, (nested ((env.kind k).close holdings)).Respects (confining may)) :
    (lookUp env nested k).Respects (confining may) := by
  let told : List Entry := [.record (.instanceCreated (env.kind k).name)]
  refine (confining_lenient may).lookUp k creates (fun v built sources => ?_)
    fun v built sources absent => ?_
  · refine confining_destroy told rfl (exposes_enroll k built sources true) ?_ closes
    -- a new instance is not in use
    intro inst here busy
    obtain rfl : env.newInstance k built sources true = inst := by
      simpa [World.enroll] using here
    cases busy
  · refine ⟨told, rfl, fun caches => ?_⟩
    have inserted := Ledger.confines_push_insert may told caches absent
    rw [← v.ledger_enroll env k built sources, v.next_ledger] at inserted
    exact inserted

theorem confining_delete (allowed : may) (h : Option Handle)
    (closes : ∀ k holdings, (nested ((env.kind k).close holdings)).Respects (confining may)) :
    (delete env nested h).Respects (confining may) := by
  refine (confining_lenient may).delete h fun w h inst here => ?_
  refine confining_destroy [] (by split <;> rfl) (fun caches => ?_) (fun _ _ _ => allowed) closes
  rw [World.ledger_uncache caches here]
  exact Ledger.exposes_forget caches h

/-- Only deletions, teardowns of the registry and exit hooks can let an instance go astray. -/
theorem confining_call
    (creates : ∀ k, (nested (env.kind k).create).Respects (confining may))
    (closes : ∀ k holdings, (nested ((env.kind k).close holdings)).Respects (confining may))
    (hooks : may → ∀ hook, (nested (env.hook hook)).Respects (confining may)) (bound : Nat)
    {c : Call κ η σ β} (allowed : Calls.harmless True β c ∨ may) :
    (c.run env nested bound).Respects (confining may) := by
  have plain := (confining_lenient (κ := κ) (η := η) (σ := σ) may).plain
  cases c with
  | lookUp k => exact (confining_lenient may).during _ (confining_lookUp k (creates k) closes)
  | build k => exact (confining_lenient may).during _ (confining_build k (creates k))
  | delete h => exact confining_delete (allowed.resolve_left id) h closes
  | teardown =>
    have drains := confining_drainCache (allowed.resolve_left id) bound closes
    exact respects_bind (plain.of_still still_reachRegistry) fun _ => drains
  | runHooks =>
    have permitted := allowed.resolve_left id
    exact plain.drainHooks (fun _ _ => confining_of_told may [] rfl rfl)
      (confining_drainCache permitted bound closes) (hooks permitted) bound
  | _ => exact (confining_outer may).call trivial

end Run

section Programs

variable [DecidableEq η] {env : Environment κ η σ}

theorem confining_covers {may : Prop} {calls : Calls κ η σ} {nested : Nested κ η σ} {bound : Nat}
    (creates : ∀ k, (nested (env.kind k).create).Respects (confining may))
    (closes : ∀ k holdings, (nested ((env.kind k).close holdings)).Respects (confining may))
    (hooks : may → ∀ hook, (nested (env.hook hook)).Respects (confining may))
    (allowed : ∀ {β : Type} {c : Call κ η σ β}, calls β c → Calls.harmless True β c ∨ may) :
    Covers env nested bound (confining may) (confining may) calls :=
  have outer := confining_outer may
  ⟨fun _ only => Run.confining_call creates closes hooks bound (allowed only),
    fun _ => outer.replay, fun f _ => outer.plain.scope f,
    fun h p edit _ => Run.confining_within h p edit, fun fixture _ => outer.thread fixture⟩

/-- No program lets instances go astray without a report, whatever programs the creations, the
teardowns and the exit hooks are. -/
theorem Client.respects_confining (env : Environment κ η σ) (bound depth : Nat)
    (c : Client κ η σ α) : (c.runTo env bound depth).Respects (confining True) := by
  refine Covers.respects_runTo (fun respected => ?_) depth c.only_all
  exact confining_covers (fun _ => respected (only_all _)) (fun _ _ => respected (only_all _))
    (fun _ _ => respected (only_all _)) fun _ => .inr trivial

/-- A program that destroys nothing lets no instance go astray at all. -/
theorem Client.respects_confining_of_harmless (orderly : env.Orderly) (bound depth : Nat)
    {c : Client κ η σ α} (harmless : c.Only (Calls.harmless True) (Calls.harmless True)) :
    (c.runTo env bound depth).Respects (confining False) := by
  refine Covers.respects_runTo (fun respected => ?_) depth harmless
  exact confining_covers (fun k => respected (orderly.create k))
    (fun k holdings => respected (orderly.close k holdings)) False.elim .inl

end Programs

/-- The instance lives, and it was created by a look-up of this id. -/
def World.Lives (w : World κ η σ) (id : KindId) (h : Handle) : Prop :=
  ∃ inst, w.instances[h.number]? = some inst ∧ inst.id = id ∧ inst.shared = true ∧
    inst.state.isSome = true

/-- The instance lives, but the next look-up does not find it. -/
def World.Escaped (w : World κ η σ) (id : KindId) (h : Handle) : Prop :=
  w.Lives id h ∧ (id, h) ∉ w.cache

instance (w : World κ η σ) (id : KindId) (h : Handle) : Decidable (w.Lives id h) :=
  decidable_of_iff (w.instances[h.number]?.any fun inst =>
    decide (inst.id = id) && inst.shared && inst.state.isSome) (by
      simp [World.Lives, Option.any_eq_true, and_assoc])

instance (w : World κ η σ) (id : KindId) (h : Handle) : Decidable (w.Escaped id h) :=
  inferInstanceAs (Decidable (_ ∧ _))

theorem World.lives_iff {w : World κ η σ} {id : KindId} {h : Handle} :
    w.Lives id h ↔ w.ledger.card h = some ⟨id, true, true⟩ := by
  simp [Lives, w.card_ledger, Option.map_eq_some_iff, Instance.card]

theorem World.escaped_iff {w : World κ η σ} {id : KindId} {h : Handle} :
    w.Escaped id h ↔ w.ledger.Stray id h := by
  rw [Escaped, lives_iff]
  exact ⟨fun ⟨live, uncached⟩ => ⟨live, uncached⟩, fun ⟨live, uncached⟩ => ⟨live, uncached⟩⟩

/-- An instance that left the cache, and that its destruction then finds in use, escapes. -/
theorem World.Lives.escapes_unwound {w : World κ η σ} {id : KindId} {h : Handle}
    (lives : w.Lives id h) (w' : World κ η σ) (same : w'.instances = w.instances)
    (uncached : (id, h) ∉ w'.cache) :
    ∃ w'', (Run.fatal (.reentrantUse id) : Run κ η σ Unit) w' =
      .error (.unwound (.violation (.reentrantUse id))) w'' ∧ w''.Escaped id h := by
  refine ⟨{ w' with journal := w'.journal.push (.reentry id) }, rfl, ?_, uncached⟩
  rw [Lives, ← same] at lives
  exact lives

/-- How instances can escape from a registry. -/
structure Leaks [DecidableEq η] (env : Environment κ η σ) (w : World κ η σ) : Prop where
  /-- The cache has one entry for an id. -/
  ids : (w.cache.map Prod.fst).Nodup
  cached : ∀ id h, (id, h) ∈ w.cache → w.Lives id h
  /-- There is one instance for an id, unless a call came to one of them while it was in use. -/
  single : ∀ id h h', w.Lives id h → w.Lives id h' →
    h = h' ∨ Entry.reentry id ∈ w.journal.toList
  /-- When an instance escapes during a program, then during the program such a call is reported. -/
  reported : ∀ {α : Type} (c : Client κ η σ α), ∃ told,
    ((c.run env).leaves w).journal.toList = w.journal.toList ++ told ∧
      ∀ id h, ((c.run env).leaves w).Escaped id h → w.Escaped id h ∨ Entry.reentry id ∈ told
  /-- None escapes during a program without deletions and teardowns of the registry. -/
  harmless : env.Orderly → ∀ {α : Type} (c : Client κ η σ α),
    c.Only (Calls.harmless True) (Calls.harmless True) →
    ∀ id h, ((c.run env).leaves w).Escaped id h → w.Escaped id h
  /-- A cached instance that is in use escapes when it is deleted. -/
  deletion : ∀ h inst, w.instances[h.number]? = some inst → inst.busy = true →
    (inst.id, h) ∈ w.cache → ∃ w',
      (Client.ask (.delete (some h))).run env w =
        .error (.unwound (.violation (.reentrantUse inst.id))) w' ∧ w'.Escaped inst.id h
  /-- So does the newest cached one when the registry is torn down. -/
  teardown : ∀ h inst, w.instances[h.number]? = some inst → inst.busy = true →
    w.cache.getLast? = some (inst.id, h) → ∃ w',
      (Client.ask .teardown).run env w =
        .error (.unwound (.violation (.reentrantUse inst.id))) w' ∧ w'.Escaped inst.id h

section Histories

variable [DecidableEq η] {env : Environment κ η σ} {w : World κ η σ}

theorem Client.run_confines (env : Environment κ η σ) (c : Client κ η σ α)
    (caches : w.ledger.Caches) :
    ∃ told, ((c.run env).leaves w).journal.toList = w.journal.toList ++ told ∧
      w.ledger.Confines True told ((c.run env).leaves w).ledger := by
  obtain ⟨told, journal, confines⟩ := Client.respects_confining env runLimit runLimit c w
  refine ⟨told, ?_, confines caches⟩
  rw [List.foldl_push_eq_append'] at journal
  rw [Client.run, journal, Array.toList_append]

theorem Visited.confined (visited : Visited env w) :
    Ledger.Confines True w.journal.toList ⟨[], [], [], []⟩ w.ledger := by
  -- the whole journal accounts for what became of the empty ledger
  induction visited with
  | start production hooked client => exact .refl _ _ ⟨List.nodup_nil, nofun⟩
  | step c _ ih =>
    obtain ⟨told, journal, confines⟩ := Client.run_confines env c ih.caches
    rw [journal]
    exact ih.trans confines
  | @use w h busy _ ih =>
    rw [World.ledger_setBusy]
    refine ⟨⟨ih.caches.ids, ih.caches.live⟩, fun id h stray => ?_⟩
    exact ih.strays id h ⟨stray.live, stray.uncached⟩
  | enter frame fixture _ ih => exact ih

theorem Visited.reported (visited : Visited env w) {id : KindId} {h : Handle}
    (escaped : w.Escaped id h) : Entry.reentry id ∈ w.journal.toList := by
  rcases visited.confined.strays id h (World.escaped_iff.mp escaped) with stray | reported
  · exact nomatch stray.live
  · exact reported.2

section Busy

variable {h : Handle} {inst : Instance κ} (caches : w.ledger.Caches)
  (here : w.instances[h.number]? = some inst) (busy : inst.busy = true)
include caches here busy

theorem Client.run_delete_of_busy (cached : (inst.id, h) ∈ w.cache) :
    ∃ w', (Client.ask (.delete (some h))).run env w =
      .error (.unwound (.violation (.reentrantUse inst.id))) w' ∧ w'.Escaped inst.id h := by
  obtain ⟨nested, run_eq⟩ := Client.exists_run_eq env
  obtain ⟨hooks, teardownHooked, reached⟩ := Run.reachRegistry_eq w
  let w₁ : World κ η σ := { w with hooks, teardownHooked }
  let w₂ : World κ η σ := { w₁ with cache := w₁.cache.filter (·.1 ≠ inst.id) }
  have found : w₁.cache.lookup inst.id = some h := caches.lookup_eq_some_iff.mpr cached
  have run : Run.delete env nested (some h) w = Run.fatal (.reentrantUse inst.id) w₂ := by
    rw [Run.delete, Run.bind_of_ok reached]
    rw [Run.bind_of_ok (Run.instanceOf_of_some (w := w₁) here),
      Run.bind_of_ok (Run.modify_run _ w₁), if_pos found]
    exact Run.destroy_of_busy here busy
  have lives : w.Lives inst.id h := World.lives_iff.mpr (caches.live _ cached)
  obtain ⟨w', raised, escaped⟩ := lives.escapes_unwound w₂ rfl (by simp [w₂])
  refine ⟨w', ?_, escaped⟩
  rw [run_eq, Client.runWith_ask]
  exact run.trans raised

theorem Client.run_teardown_of_busy (newest : w.cache.getLast? = some (inst.id, h)) :
    ∃ w', (Client.ask .teardown).run env w =
      .error (.unwound (.violation (.reentrantUse inst.id))) w' ∧ w'.Escaped inst.id h := by
  obtain ⟨nested, run_eq⟩ := Client.exists_run_eq env
  obtain ⟨hooks, teardownHooked, reached⟩ := Run.reachRegistry_eq w
  obtain ⟨rounds, limit⟩ := exists_runLimit_eq
  let w₁ : World κ η σ := { w with hooks, teardownHooked }
  let w₂ : World κ η σ := { w₁ with cache := w₁.cache.dropLast }
  have run : Run.drainCache env nested runLimit w₁ = Run.fatal (.reentrantUse inst.id) w₂ := by
    rw [limit, Run.drainCache, Run.bind_of_ok (Run.get_run w₁)]
    simp only [w₁, newest]
    rw [Run.bind_of_ok (Run.modify_run _ w₁)]
    rw [Run.bind_of_error (Run.destroy_of_busy (w := w₂) here busy)]
    rfl
  have cached : (inst.id, h) ∈ w.cache := List.mem_of_getLast? newest
  have lives : w.Lives inst.id h := World.lives_iff.mpr (caches.live _ cached)
  have popped : w₂.cache = w.cache.filter (·.2 ≠ h) := caches.filter_eq_dropLast newest
  obtain ⟨w', raised, escaped⟩ := lives.escapes_unwound w₂ rfl (by simp [popped])
  refine ⟨w', ?_, escaped⟩
  rw [run_eq, Client.runWith_ask]
  exact (Run.bind_of_ok reached).trans (run.trans raised)

end Busy

theorem Visited.escapes (visited : Visited env w) : Leaks env w where
  ids := visited.confined.caches.ids
  cached id h mem := World.lives_iff.mpr (visited.confined.caches.live (id, h) mem)
  single id h h' lives lives' := by
    have caches := visited.confined.caches
    by_cases cached : (id, h) ∈ w.cache
    · by_cases cached' : (id, h') ∈ w.cache
      · have found := caches.lookup_eq_some_iff.mpr cached
        rw [caches.lookup_eq_some_iff.mpr cached'] at found
        exact .inl (Option.some.inj found).symm
      · exact .inr (visited.reported ⟨lives', cached'⟩)
    · exact .inr (visited.reported ⟨lives, cached⟩)
  reported c := by
    obtain ⟨told, journal, confines⟩ := Client.run_confines env c visited.confined.caches
    refine ⟨told, journal, fun id h escaped => ?_⟩
    rw [World.escaped_iff] at escaped ⊢
    exact (confines.strays id h escaped).imp_right And.right
  harmless orderly _ c only id h escaped := by
    obtain ⟨told, -, confines⟩ :=
      Client.respects_confining_of_harmless orderly runLimit runLimit only w
    rw [World.escaped_iff] at escaped ⊢
    exact ((confines visited.confined.caches).strays id h escaped).resolve_right (·.1)
  deletion _ _ here busy cached :=
    Client.run_delete_of_busy visited.confined.caches here busy cached
  teardown _ _ here busy newest :=
    Client.run_teardown_of_busy visited.confined.caches here busy newest

end Histories

def heaps : Environment Unit Unit Unit where
  kind _ := Kind.heap
  hook _ := return ()
  production := ⟨"default", ()⟩

/-- Has the instance of a block destroyed, by `sever`, while the block is in use, and looks up the
instance once more. -/
def sawing (sever : Handle → Call Unit Unit Unit Unit) : Client Unit Unit Unit Unit := do
  let .ok h ← Client.ask (.lookUp ()) | return ()
  let some p ← Client.ask (.use h (.grab 8)) | return ()
  let _ ← Client.caught (.within h p id (fun _ => Client.ask (sever h)) .pure)
  let _ ← Client.ask (.lookUp ())

def sawn (sever : Handle → Call Unit Unit Unit Unit) : World Unit Unit Unit :=
  ((sawing sever).run heaps).leaves (World.start ⟨"default", ()⟩ false ())

/-- Both operations leave two live instances of one id. -/
theorem sawn_has_two :
    ((sawn fun h => .delete (some h)).Escaped ⟨"system"⟩ ⟨0⟩ ∧
      (sawn fun h => .delete (some h)).Lives ⟨"system"⟩ ⟨1⟩) ∧
    (sawn fun _ => .teardown).Escaped ⟨"system"⟩ ⟨0⟩ ∧
      (sawn fun _ => .teardown).Lives ⟨"system"⟩ ⟨1⟩ := by
  decide +kernel

theorem sawn_escapes :
    let w := sawn fun h => .delete (some h)
    Visited heaps w ∧ w.Lives ⟨"system"⟩ ⟨0⟩ ∧ w.Lives ⟨"system"⟩ ⟨1⟩ ∧
      Entry.reentry ⟨"system"⟩ ∈ w.journal.toList := by
  intro w
  have visited : Visited heaps w := .step _ (.start _ _ _)
  have lives : w.Lives ⟨"system"⟩ ⟨0⟩ ∧ w.Lives ⟨"system"⟩ ⟨1⟩ := by decide +kernel
  have reported := visited.escapes.single ⟨"system"⟩ ⟨0⟩ ⟨1⟩ lives.1 lives.2
  exact ⟨visited, lives.1, lives.2, reported.resolve_left (by decide)⟩

end MemoryTrial
