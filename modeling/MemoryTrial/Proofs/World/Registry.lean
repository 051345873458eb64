import MemoryTrial.Proofs.World.Enactments
import MemoryTrial.World.Kinds

/-! The registry over whole runs.  Whatever a client does with the registry, and however it ends,
the cache has one live instance for an id and lists the live instances that look-ups created, and
an instance is torn down once if it was destroyed and never otherwise
(`Reached.registry_consistent`).  What is on record of teardowns is what was carried out
(`World.Enacts`). -/

namespace MemoryTrial

namespace Ledger

/-- A consistent ledger while no operation is in progress, of which no instance went astray. -/
structure Settled (l : Ledger) : Prop where
  consistent : l.Consistent
  complete : ∀ id h, ¬l.Stray id h
  idle : true ∉ l.busy

/-- What an operation leaves in the cache: some entries that were there, and then new ones. -/
structure Keeps (l l' : Ledger) : Prop where
  cards : l.cards.length ≤ l'.cards.length
  cache : ∃ kept added, l'.cache = kept ++ added ∧ kept.Sublist l.cache ∧
    ∀ e ∈ added, l.cards.length ≤ e.2.number

/-- What the deletion of `h` leaves in the cache: all entries but that of `h`, and then new ones if
its teardown may create instances. -/
structure Drops (may : Prop) (h : Option Handle) (l l' : Ledger) : Prop where
  cards : l.cards.length ≤ l'.cards.length
  cache : ∃ added, l'.cache = l.cache.filter (some ·.2 ≠ h) ++ added ∧
    (∀ e ∈ added, l.cards.length ≤ e.2.number) ∧ (added ≠ [] → may)

variable {l l' l'' : Ledger} {may : Prop} {h : Option Handle}

theorem Settled.cached (settled : l.Settled) {id : KindId} {h : Handle}
    (live : l.card h = some ⟨id, true, true⟩) : (id, h) ∈ l.cache :=
  Decidable.of_not_not fun uncached => settled.complete id h ⟨live, uncached⟩

theorem Settled.forget_bury (settled : l.Settled) {h : Handle} {c : Card} (here : l.card h = some c)
    (live : c.live = true) : ((l.forget h).bury h).Settled :=
  ⟨settled.consistent.forget_bury here live,
    fun id h stray => settled.complete id h stray.of_forget_bury, settled.idle⟩

theorem Grows.settled (grows : l.Grows may l') (settled : l.Settled) (after : l'.Consistent) :
    l'.Settled := by
  refine ⟨after, fun id h stray => settled.complete id h (grows.strays id h stray), ?_⟩
  obtain ⟨n, busy⟩ := grows.busy
  rw [busy]
  simpa using settled.idle

theorem Keeps.refl (l : Ledger) : l.Keeps l :=
  ⟨Nat.le_refl _, l.cache, [], (List.append_nil _).symm, .refl _, nofun⟩

theorem Keeps.trans (first : l.Keeps l') (second : l'.Keeps l'') : l.Keeps l'' := by
  obtain ⟨kept, added, cache, sub, fresh⟩ := first.cache
  obtain ⟨kept', added', cache', sub', fresh'⟩ := second.cache
  rw [cache] at sub'
  -- what the second one keeps is in part old, and in part what the first one added
  obtain ⟨old, new, rfl, sub_old, sub_new⟩ := List.sublist_append_iff.mp sub'
  refine ⟨Nat.le_trans first.cards second.cards, old, new ++ added', ?_, sub_old.trans sub, ?_⟩
  · rw [cache', List.append_assoc]
  · intro e mem
    rcases List.mem_append.mp mem with mem | mem
    · exact fresh e (sub_new.subset mem)
    · exact Nat.le_trans first.cards (fresh' e mem)

theorem Grows.keeps (grows : l.Grows may l') : l.Keeps l' := by
  obtain ⟨added, cache, fresh, -⟩ := grows.cache
  exact ⟨grows.cards.length_le, l.cache, added, cache, .refl _, fresh⟩

theorem drops_of_notMem (absent : ∀ e ∈ l.cache, some e.2 ≠ h) : l.Drops may h l := by
  have all := List.filter_eq_self.mpr fun e mem => decide_eq_true (absent e mem)
  exact ⟨Nat.le_refl _, [], by rw [all, List.append_nil], nofun, fun h => absurd rfl h⟩

theorem Grows.drops {h : Handle} (grows : ((l.forget h).bury h).Grows may l') :
    l.Drops may (some h) l' := by
  have entries : l.cache.filter (some ·.2 ≠ some h) = (l.forget h).cache := by
    simp only [forget, ne_eq, Option.some.injEq]
  have cards : ((l.forget h).bury h).cards.length = l.cards.length := by simp [forget, bury]
  obtain ⟨more, -, -, -, added, cache, fresh, allowed⟩ := grows
  rw [cards] at fresh
  exact ⟨cards ▸ more.length_le, added, by rw [entries]; exact cache, fresh, allowed⟩

theorem Drops.keeps (drops : l.Drops may h l') : l.Keeps l' := by
  obtain ⟨added, cache, fresh, -⟩ := drops.cache
  exact ⟨drops.cards, _, added, cache, List.filter_sublist, fresh⟩

end Ledger

variable {κ η σ α β : Type}

/-- The effect of what clients do while no payload is in use. -/
def keeping : Effect κ η σ where
  Allows w w' := w.ledger.Settled → w'.ledger.Settled ∧ w.ledger.Keeps w'.ledger
  refl w settled := ⟨settled, .refl w.ledger⟩
  trans first second settled := by
    obtain ⟨between, keeps⟩ := first settled
    obtain ⟨after, keeps'⟩ := second between
    exact ⟨after, keeps.trans keeps'⟩

theorem keeping_of_growing {may : Prop} {w w' : World κ η σ} (allowed : (growing may).Allows w w') :
    keeping.Allows w w' := by
  intro settled
  obtain ⟨after, grows⟩ := allowed settled.consistent
  exact ⟨grows.settled settled after, grows.keeps⟩

theorem keeping_ofLedger : (keeping : Effect κ η σ).OfLedger :=
  fun _ _ same => keeping_of_growing (growing_ofLedger True _ _ same)

namespace Run

variable {env : Environment κ η σ} {nested : Nested κ η σ} {w w' : World κ η σ} {h : Handle}
  {may : Prop}

/-- An instance that was taken out of the cache is destroyed. -/
theorem destroy_drops (settled : w.ledger.Settled) (forgot : w'.ledger = w.ledger.forget h)
    (same : w'.instances = w.instances)
    (closes : ∀ inst a, w.instances[h.number]? = some inst → inst.state = some a →
      (nested ((env.kind inst.kind).close inst.holdings)).Respects (growing may)) :
    ((destroy env nested h).leaves w').ledger.Settled ∧
      w.ledger.Drops may (some h) ((destroy env nested h).leaves w').ledger := by
  by_cases alive : ∃ inst a, w.instances[h.number]? = some inst ∧ inst.state = some a
  · obtain ⟨inst, a, here, state⟩ := alive
    have idle := World.not_busy settled.idle here
    have card : w.ledger.card h = some ⟨inst.id, inst.shared, true⟩ := by
      rw [w.card_ledger, here, Option.map_some, Instance.card, state]
      rfl
    have buried := settled.forget_bury card rfl
    rw [← forgot] at buried
    obtain ⟨after, grows⟩ :=
      destroy_live (closes inst a here state) (same ▸ here) state idle buried.consistent
    refine ⟨grows.settled buried after, Ledger.Grows.drops ?_⟩
    rwa [forgot] at grows
  · have absent (id : KindId) : (id, h) ∉ w.ledger.cache := by
      intro mem
      have card := settled.consistent.caches.live (id, h) mem
      obtain ⟨inst, a, here, -, -, state⟩ := World.exists_of_card card
      exact alive ⟨inst, a, here, state⟩
    have dead : ∀ inst, w'.instances[h.number]? = some inst → inst.state = none := fun inst here =>
      Option.eq_none_iff_forall_ne_some.mpr fun a state => alive ⟨inst, a, same ▸ here, state⟩
    rw [destroy_dead dead, forgot, Ledger.forget_of_notMem absent]
    refine ⟨settled, Ledger.drops_of_notMem fun e mem same => ?_⟩
    exact absent e.1 (Option.some.inj same ▸ mem)

theorem keeping_drainCache (rounds : Nat)
    (closes : ∀ k holdings, (nested ((env.kind k).close holdings)).Respects (growing True)) :
    (drainCache env nested rounds).Respects keeping := by
  refine Effect.drainCache (fun w id newest last settled => ?_) rounds
  have forgot := World.ledger_pop settled.consistent.caches last
  obtain ⟨after, drops⟩ := destroy_drops settled forgot rfl fun inst _ _ _ => closes _ _
  exact ⟨after, drops.keeps⟩

variable [DecidableEq η]

theorem delete_drops (settled : w.ledger.Settled) (h : Option Handle)
    (closes : ∀ h' inst a, h = some h' → w.instances[h'.number]? = some inst → inst.state = some a →
      (nested ((env.kind inst.kind).close inst.holdings)).Respects (growing may)) :
    ((delete env nested h).leaves w).ledger.Settled ∧
      w.ledger.Drops may h ((delete env nested h).leaves w).ledger := by
  obtain ⟨hooks, teardownHooked, reached⟩ := reachRegistry_eq w
  let w₁ : World κ η σ := { w with hooks, teardownHooked }
  unfold delete
  rw [leaves_bind_of_ok reached]
  cases h with
  | none => exact ⟨settled, Ledger.drops_of_notMem fun _ _ => nofun⟩
  | some h =>
    dsimp only
    cases here : w.instances[h.number]? with
    | none =>
      obtain ⟨halt, w', missing⟩ := instanceOf_of_none (w := w₁) here
      have tidy := (still_instanceOf h w₁).tidy
      rw [leaves_of_error missing] at tidy
      have same : w'.ledger = w₁.ledger := ledger_of_tidy tidy
      rw [leaves_of_error (bind_of_error missing), same]
      refine ⟨settled, Ledger.drops_of_notMem fun e mem same => ?_⟩
      have card := settled.consistent.caches.live e mem
      obtain ⟨inst, a, here', -⟩ := World.exists_of_card card
      rw [Option.some.inj same, here] at here'
      cases here'
    | some inst =>
      have found : instanceOf h w₁ = .ok inst w₁ := instanceOf_of_some here
      rw [leaves_bind_of_ok found, leaves_bind_of_ok (modify_run _ w₁)]
      have forgot := World.ledger_uncache (w := w₁) settled.consistent.caches here
      exact destroy_drops settled forgot (by split <;> rfl) fun inst a => closes h inst a rfl

end Run

/-- What a client may call outside payloads: all but the exit hooks. -/
def Calls.operations : Calls κ η σ
  | _, .runHooks => False
  | _, _ => True

section Programs

variable [DecidableEq η] {env : Environment κ η σ} {nested : Nested κ η σ} {bound : Nat}

open Run in
theorem keeping_call (orderly : env.Orderly)
    (respected : ∀ {may : Prop} {β : Type} {c : Client κ η σ β},
      c.Only (Calls.harmless may) (Calls.harmless may) → (nested c).Respects (growing may))
    {c : Call κ η σ β} (only : Calls.operations β c) :
    (c.run env nested bound).Respects keeping := by
  have grown {c : Call κ η σ β} (harmless : Calls.harmless True β c) :
      (c.run env nested bound).Respects keeping :=
    (growing_call orderly respected harmless).mono fun _ _ => keeping_of_growing
  have closes (k : κ) (holdings : List Holding) := respected (orderly.close k holdings)
  cases c with
  | delete h =>
    intro w settled
    obtain ⟨after, drops⟩ := delete_drops settled h fun _ _ _ _ _ _ => closes _ _
    exact ⟨after, drops.keeps⟩
  | teardown =>
    exact respects_bind (keeping_ofLedger.outer.plain.of_still still_reachRegistry) fun _ =>
      keeping_drainCache bound closes
  | runHooks => exact only.elim
  | _ => exact grown trivial

theorem Environment.Orderly.exists_nestedTo (orderly : env.Orderly) (bound depth : Nat) :
    ∃ nested : Nested κ η σ,
      (∀ {α : Type} (c : Client κ η σ α), c.runTo env bound depth = c.runWith env nested bound) ∧
      ∀ {may : Prop} {β : Type} {c : Client κ η σ β},
        c.Only (Calls.harmless may) (Calls.harmless may) → (nested c).Respects (growing may) := by
  cases depth with
  | zero => exact ⟨fun _ => throw .endless, fun _ => rfl, fun _ => Run.respects_throw _⟩
  | succ depth =>
    exact ⟨_, fun _ => rfl, fun harmless => Client.respects_growing orderly bound depth harmless⟩

theorem Environment.Orderly.exists_nested (orderly : env.Orderly) :
    ∃ nested : Nested κ η σ,
      (∀ {α : Type} (c : Client κ η σ α), c.run env = c.runWith env nested runLimit) ∧
      ∀ {may : Prop} {β : Type} {c : Client κ η σ β},
        c.Only (Calls.harmless may) (Calls.harmless may) → (nested c).Respects (growing may) :=
  orderly.exists_nestedTo runLimit runLimit

theorem Client.respects_keeping (orderly : env.Orderly) (bound depth : Nat) {c : Client κ η σ α}
    (only : c.Only (Calls.harmless True) Calls.operations) :
    (c.runTo env bound depth).Respects keeping := by
  obtain ⟨nested, run_eq, respected⟩ := orderly.exists_nestedTo bound depth
  have outside : Covers env nested bound keeping (growing True) Calls.operations :=
    ⟨fun _ only => keeping_call orderly respected only, fun _ => keeping_ofLedger.outer.replay,
      fun f _ => keeping_ofLedger.outer.plain.scope f,
      fun h p edit _ hbody =>
        (Run.growing_within h p edit hbody).mono fun _ _ => keeping_of_growing,
      fun fixture _ => keeping_ofLedger.outer.thread fixture⟩
  rw [run_eq]
  exact outside.respects_runWith (growing_covers orderly respected) only

theorem Client.run_respects_keeping (orderly : env.Orderly) {c : Client κ η σ α}
    (only : c.Only (Calls.harmless True) Calls.operations) : (c.run env).Respects keeping :=
  Client.respects_keeping orderly runLimit runLimit only

end Programs

/-- The registry while no operation is in progress. -/
structure World.Consistent [DecidableEq η] (env : Environment κ η σ) (w : World κ η σ) : Prop where
  /-- The cache has one entry for an id. -/
  ids : (w.cache.map Prod.fst).Nodup
  live : ∀ e ∈ w.cache, ∃ inst, w.instances[e.2.number]? = some inst ∧ inst.id = e.1 ∧
    inst.shared = true ∧ inst.state.isSome = true
  /-- An instance that a look-up created is cached until it is destroyed. -/
  cached : ∀ n inst, w.instances[n]? = some inst → inst.shared = true →
    inst.state.isSome = true → (inst.id, ⟨n⟩) ∈ w.cache
  /-- An instance was torn down once if it was destroyed, and never otherwise. -/
  once : ∀ n inst, w.instances[n]? = some inst →
    w.journal.toList.count (.tornDown ⟨n⟩) = if inst.state.isSome then 0 else 1
  enacts : w.Enacts env runLimit 0
  /-- An instance is cached when it is created, so the order of the entries is that of their
  insertion. -/
  ordered : w.cache.Pairwise fun older newer => older.2.number < newer.2.number
  idle : ∀ (n : Nat) (inst : Instance κ), w.instances[n]? = some inst → inst.busy = false

theorem World.count_torn {w : World κ η σ} {h : Handle} {inst : Instance κ}
    (consistent : w.ledger.Consistent) (here : w.instances[h.number]? = some inst) :
    w.ledger.tornDown.count h = if inst.state.isSome then 0 else 1 := by
  rw [consistent.once, Ledger.dead, w.card_ledger, here]
  cases state : inst.state <;> simp [Instance.card, state]

theorem World.count_journal (w : World κ η σ) (h : Handle) :
    w.journal.toList.count (.tornDown h) = w.ledger.tornDown.count h := by
  rw [ledger, List.count_filterMap, List.count_eq_countP]
  refine List.countP_congr fun entry _ => ?_
  cases entry <;> simp [Entry.tornDown?]

theorem World.consistent_of_settled [DecidableEq η] {env : Environment κ η σ} {w : World κ η σ}
    (settled : w.ledger.Settled) (enacts : w.Enacts env runLimit 0) : w.Consistent env where
  ids := settled.consistent.caches.ids
  live e mem := by
    have card := settled.consistent.caches.live e mem
    obtain ⟨inst, a, here, id, shared, state⟩ := exists_of_card card
    exact ⟨inst, here, id, shared, by rw [state]; rfl⟩
  cached n inst here shared live := by
    refine settled.cached ?_
    rw [w.card_ledger, here, Option.map_some, Instance.card, shared, live]
  once n inst here := (w.count_journal ⟨n⟩).trans (count_torn settled.consistent here)
  enacts := enacts
  ordered := settled.consistent.ordered
  idle _ _ here := not_busy settled.idle here

theorem World.start_settled (production : Fixture κ) (hooked : Bool) (client : σ) :
    (World.start production hooked client : World κ η σ).ledger.Settled := by
  have empty (h : Handle) :
      (World.start production hooked client : World κ η σ).ledger.card h = none := rfl
  refine ⟨⟨⟨List.nodup_nil, nofun⟩, .nil, fun h => ?_⟩, fun id h stray => ?_, nofun⟩
  · rw [Ledger.dead, empty]
    rfl
  · have live := stray.live
    rw [empty] at live
    cases live

/-- The states of a process in which no operation is in progress: at its start, and after any
operation, however it ended. -/
inductive Reached [DecidableEq η] (env : Environment κ η σ) : World κ η σ → Prop
  | start (production : Fixture κ) (hooked : Bool) (client : σ) :
    Reached env (World.start production hooked client)
  | step {α : Type} {w : World κ η σ} (c : Client κ η σ α) :
    Reached env w → c.Only (Calls.harmless True) Calls.operations →
    Reached env ((c.run env).leaves w)

section Histories

variable [DecidableEq η] {env : Environment κ η σ} {w : World κ η σ}

theorem Reached.settled (orderly : env.Orderly) (reached : Reached env w) : w.ledger.Settled := by
  induction reached with
  | start production hooked client => exact World.start_settled production hooked client
  | step c _ only ih => exact (Client.run_respects_keeping orderly only _ ih).1

theorem Reached.visited (reached : Reached env w) : Visited env w := by
  induction reached with
  | start production hooked client => exact .start production hooked client
  | step c _ _ ih => exact .step c ih

/-- The entries of a cache after an operation: some of those before it, in their order, and then
those of new instances. -/
def World.CarriesOver (w w' : World κ η σ) : Prop :=
  ∃ kept added, w'.cache = kept ++ added ∧ kept.Sublist w.cache ∧
    ∀ e ∈ added, w.instances.size ≤ e.2.number

/-- The deletion of `h` ends an instance whose teardown can create others. -/
def World.MayRevive (env : Environment κ η σ) (w : World κ η σ) (h : Option Handle) : Prop :=
  ∃ h' inst, h = some h' ∧ w.instances[h'.number]? = some inst ∧ inst.state.isSome = true ∧
    ¬((env.kind inst.kind).close inst.holdings).Only (Calls.harmless False) (Calls.harmless False)

/-- Whatever a client did with the registry, and however it ended: the cache has one live instance
for an id and lists, in the order of their creation, the live instances that look-ups created; and an
instance was torn down once if it was destroyed and never otherwise.  Operations keep the order of
the entries, look-ups and creations only add to them, and a deletion removes exactly the entry of
the instance, if there is one, and adds entries only for look-ups in the teardown of an instance that
it destroys. -/
theorem Reached.registry_consistent (orderly : env.Orderly) (reached : Reached env w) :
    w.Consistent env ∧
    (∀ (α : Type) (c : Client κ η σ α), c.Only (Calls.harmless True) Calls.operations →
      w.CarriesOver ((c.run env).leaves w)) ∧
    (∀ (α : Type) (c : Client κ η σ α), c.Only (Calls.harmless True) (Calls.harmless True) →
      w.cache <+: ((c.run env).leaves w).cache) ∧
    ∀ h, ∃ added,
      (((Client.ask (.delete h)).run env).leaves w).cache =
        w.cache.filter (some ·.2 ≠ h) ++ added ∧
      (∀ e ∈ added, w.instances.size ≤ e.2.number) ∧
      (added ≠ [] → w.MayRevive env h) := by
  have settled := reached.settled orderly
  have size : w.ledger.cards.length = w.instances.size := by simp [World.ledger]
  refine ⟨World.consistent_of_settled settled reached.visited.enacts, fun α c only => ?_,
    fun α c harmless => ?_, fun h => ?_⟩
  · obtain ⟨kept, added, cache, sub, fresh⟩ :=
      (Client.run_respects_keeping orderly only w settled).2.cache
    exact ⟨kept, added, cache, sub, size ▸ fresh⟩
  · obtain ⟨added, cache, -⟩ :=
      (Client.respects_growing orderly runLimit runLimit harmless w settled.consistent).2.cache
    exact ⟨added, cache.symm⟩
  · obtain ⟨nested, run_eq, respected⟩ := orderly.exists_nested
    rw [run_eq, Client.runWith_ask]
    have closes (h' : Handle) (inst : Instance κ) (a : Allocator) (given : h = some h')
        (here : w.instances[h'.number]? = some inst) (state : inst.state = some a) :
        (nested ((env.kind inst.kind).close inst.holdings)).Respects
          (growing (w.MayRevive env h)) := by
      by_cases still : ((env.kind inst.kind).close inst.holdings).Only
        (Calls.harmless False) (Calls.harmless False)
      · exact (respected still).mono fun _ _ => growing_mono False.elim
      · have revives : w.MayRevive env h := ⟨h', inst, given, here, by rw [state]; rfl, still⟩
        exact (respected (orderly.close _ _)).mono fun _ _ => growing_mono fun _ => revives
    obtain ⟨added, cache, fresh, allowed⟩ := (Run.delete_drops settled h closes).2.cache
    exact ⟨added, cache, size ▸ fresh, allowed⟩

end Histories

/-- A heap, and a kind whose instances look up the heap when they are torn down. -/
def phoenix : Environment Bool Unit Unit where
  kind
    | false => Kind.heap
    | true => { Kind.heap with
        id := ⟨"phoenix"⟩
        close := fun _ => do
          let _ ← Client.ask (.lookUp false)
          return () }
  hook _ := return ()
  production := ⟨"default", false⟩

theorem phoenix_orderly : phoenix.Orderly where
  create
    | false => ⟨trivial, fun _ => trivial⟩
    | true => ⟨trivial, fun _ => trivial⟩
  close
    | false, _ => trivial
    | true, _ => ⟨trivial, fun _ => trivial⟩

/-- There is one instance of the kind, which is not cached. -/
def phoenixBuilt : World Bool Unit Unit :=
  ((Client.ask (.build true)).run phoenix).leaves (World.start ⟨"default", false⟩ false ())

/-- The instance was deleted, and the heap that its teardown looked up is cached. -/
def phoenixDeleted : World Bool Unit Unit :=
  ((Client.ask (.delete (some ⟨0⟩))).run phoenix).leaves phoenixBuilt

theorem phoenixBuilt_reached : Reached phoenix phoenixBuilt :=
  .step _ (.start _ _ _) ⟨trivial, fun _ => trivial⟩

theorem phoenixDeleted_reached : Reached phoenix phoenixDeleted :=
  .step _ phoenixBuilt_reached ⟨trivial, fun _ => trivial⟩

/-- The deletion of an instance that is not cached can change the cache. -/
theorem phoenix_delete_caches :
    phoenix.Orderly ∧ Reached phoenix phoenixBuilt ∧ (∀ id, (id, ⟨0⟩) ∉ phoenixBuilt.cache) ∧
      (((Client.ask (.delete (some ⟨0⟩))).run phoenix).leaves phoenixBuilt).cache ≠
        phoenixBuilt.cache := by
  have none : phoenixBuilt.cache = [] := rfl
  refine ⟨phoenix_orderly, phoenixBuilt_reached, fun id => ?_, ?_⟩
  · rw [none]
    exact List.not_mem_nil
  · rw [none]
    decide +kernel

theorem phoenix_registry_consistent :
    phoenix.Orderly ∧ Reached phoenix phoenixDeleted ∧
      phoenixDeleted.cache = [(⟨"system"⟩, ⟨1⟩)] ∧ phoenixDeleted.Consistent phoenix ∧
      ∃ added, (((Client.ask (.delete (some ⟨1⟩))).run phoenix).leaves phoenixDeleted).cache =
        phoenixDeleted.cache.filter (some ·.2 ≠ some ⟨1⟩) ++ added := by
  obtain ⟨consistent, -, -, deletion⟩ := phoenixDeleted_reached.registry_consistent phoenix_orderly
  obtain ⟨added, cache, -⟩ := deletion (some ⟨1⟩)
  exact ⟨phoenix_orderly, phoenixDeleted_reached, rfl, consistent, added, cache⟩

end MemoryTrial
