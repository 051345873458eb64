import MemoryTrial.Proofs.World.Draining
import MemoryTrial.Proofs.World.Reach

/-! Look-ups.  A look-up of a cached id answers the cached instance.  Any other look-up only appends to
the cache, whatever look-ups its creation makes, those of its own kind included: what it answers is the
instance that is cached under the id in the end, and an instance too many was destroyed
(`World.lookUp_appends`).  It was torn down when that was put on record (`World.Enacts`). -/

namespace MemoryTrial

variable {κ η σ : Type} [DecidableEq η]

/-- What a look-up of an id that is not cached does to a registry, however it ends. -/
structure World.Appends (w w' : World κ η σ) : Prop where
  /-- The entries that were there come first, and those of new instances after them. -/
  cache : ∃ added, w'.cache = w.cache ++ added ∧ ∀ e ∈ added, w.instances.size ≤ e.2.number
  ids : (w'.cache.map Prod.fst).Nodup
  live : ∀ e ∈ w'.cache, w'.Lives e.1 e.2
  /-- The instances that were there live if they lived before: none of them was torn down. -/
  kept : ∀ h inst, w.instances[h.number]? = some inst →
    w'.ledger.tornDown.count h = w.ledger.tornDown.count h ∧
      ∃ inst', w'.instances[h.number]? = some inst' ∧ inst'.card = inst.card
  /-- What look-ups created is cached, or it was torn down, once. -/
  created : ∀ h inst, w'.instances[h.number]? = some inst → w.instances.size ≤ h.number →
    inst.shared = true →
    (inst.id, h) ∈ w'.cache ∨ inst.state = none ∧ w'.ledger.tornDown.count h = 1

omit [DecidableEq η] in
theorem World.appends_of_grows {w w' : World κ η σ} {may : Prop} (begun : w.ledger.Consistent)
    (after : w'.ledger.Consistent) (grows : w.ledger.Grows may w'.ledger) : w.Appends w' where
  cache := by
    obtain ⟨added, cache, fresh, -⟩ := grows.cache
    exact ⟨added, cache, by simpa [ledger] using fresh⟩
  ids := after.caches.ids
  live e mem := lives_iff.mpr (after.caches.live e mem)
  kept h inst here := by
    have card := (w.card_ledger h).trans (congrArg _ here)
    have card' : w'.ledger.card h = some inst.card := by
      obtain ⟨more, cards⟩ := grows.cards
      rw [Ledger.card, ← cards, List.getElem?_append_left (Ledger.number_lt card)]
      exact card
    refine ⟨?_, ?_⟩
    · rw [after.once, begun.once, Ledger.dead, Ledger.dead, card, card']
      rfl
    · rw [w'.card_ledger] at card'
      exact Option.map_eq_some_iff.mp card'
  created h inst here new shared := by
    have count := count_torn after here
    cases state : inst.state with
    | none =>
      rw [state] at count
      exact .inr ⟨rfl, count⟩
    | some a =>
      refine .inl (Decidable.of_not_not fun uncached => ?_)
      have lives : w'.Lives inst.id h := ⟨inst, here, rfl, shared, by rw [state]; rfl⟩
      have stray := grows.strays inst.id h ⟨lives_iff.mp lives, uncached⟩
      have old := Ledger.number_lt stray.live
      simp only [ledger, List.length_map, Array.length_toList] at old
      omega

/-- How a look-up of `k` ends when its id was not cached.  When it answers no instance, then because the
creation failed, and only look-ups inside the creation have cached something. -/
inductive World.LookUpEnds (env : Environment κ η σ) (nested : Nested κ η σ) (depth : Nat) (k : κ)
    (w w' : World κ η σ) :
    EStateM.Result Halt (World κ η σ) (Except ConfigError Handle) → Prop
  | answered {h : Handle} :
    ((env.kind k).id, h) ∈ w'.cache → w'.Lives (env.kind k).id h →
    w.instances.size ≤ h.number → LookUpEnds env nested depth k w w' (.ok (.ok h) w')
  | failed {e : ConfigError} {v v' : World κ η σ} {told : List (List (Task κ))} :
    v.tasks.active = .lookUp k :: w.tasks.active →
    nested (env.kind k).create v = .ok (.error e) v' →
    w'.cache = v'.cache → w'.instances = v'.instances →
    w'.tasks.begun = told ++ (.lookUp k :: w.tasks.active) :: w.tasks.begun →
    (∀ e ∈ w'.cache, e ∈ w.cache ∨ ∃ k' inner,
      .lookUp k' :: (inner ++ .lookUp k :: w.tasks.active) ∈ told ∧ (env.kind k').id = e.1) →
    LookUpEnds env nested depth k w w' (.ok (.error e) w')
  | creation_unwound {p : Panic} {v v' : World κ η σ} :
    v.tasks.active = .lookUp k :: w.tasks.active →
    nested (env.kind k).create v = .error (.unwound p) v' →
    LookUpEnds env nested depth k w w' (.error (.unwound p) w')
  /-- The teardown of an instance too many panicked. -/
  | teardown_unwound {p : Panic} {inst : Instance κ} {a : Allocator} {h : Handle}
    {v v' : World κ η σ} :
    v.tasks.active = .teardown h k :: .lookUp k :: w.tasks.active → inst.kind = k →
    w.instances.size ≤ h.number → Run.tearDown env nested inst a v = .error (.unwound p) v' →
    LookUpEnds env nested depth k w w' (.error (.unwound p) w')
  /-- The look-up was cut off where tasks nest too deep. -/
  | endless :
    Tasks.Deep depth w.tasks w'.tasks → LookUpEnds env nested depth k w w' (.error .endless w')

/-- What a look-up of `k` does. -/
structure World.LookUp (env : Environment κ η σ) (bound depth : Nat) (k : κ) (w : World κ η σ) :
    Prop where
  /-- A cached instance is the answer, and nothing is created.  When the registry is used for the first
  time its teardown is registered. -/
  cached : ∀ h, w.cache.lookup (env.kind k).id = some h → ∃ hooks teardownHooked,
    (Client.ask (.lookUp k)).runTo env bound depth w = .ok (.ok h) { w with
      obtained := h :: w.obtained
      tasks := ⟨w.tasks.active, (.lookUp k :: w.tasks.active) :: w.tasks.begun⟩
      hooks, teardownHooked } ∧
    w.hooks.Grows hooks ∧ (w.teardownHooked = true → hooks = w.hooks ∧ teardownHooked = true)
  /-- Otherwise instances come to the cache, which keeps what it has. -/
  absent : w.cache.lookup (env.kind k).id = none → ∀ below, depth = below + 1 → ∃ w',
    w.Appends w' ∧ w'.Enacts env bound w.journal.size ∧
      w.LookUpEnds env (fun c => c.runTo env bound below) (depth + 1) k w'
        ((Client.ask (.lookUp k)).runTo env bound depth w)

section LookUps

variable {env : Environment κ η σ} {bound depth : Nat} {k : κ} {w : World κ η σ}

theorem Client.runTo_lookUp_of_cached {h : Handle}
    (found : w.cache.lookup (env.kind k).id = some h) :
    ∃ hooks teardownHooked,
      (Client.ask (.lookUp k)).runTo env bound depth w = .ok (.ok h) { w with
        obtained := h :: w.obtained
        tasks := ⟨w.tasks.active, (.lookUp k :: w.tasks.active) :: w.tasks.begun⟩
        hooks, teardownHooked } ∧
      w.hooks.Grows hooks ∧
      (w.teardownHooked = true → hooks = w.hooks ∧ teardownHooked = true) := by
  obtain ⟨nested, run_eq⟩ := Client.exists_runTo_eq (κ := κ) (η := η) (σ := σ) env bound depth
  rw [run_eq, Client.runWith_ask]
  cases hooked : w.teardownHooked with
  | true =>
    have reached : Run.reachRegistry (w.begin (.lookUp k)) = .ok () (w.begin (.lookUp k)) :=
      Run.reachRegistry_of_hooked hooked
    have looked : Run.lookUp env nested k (w.begin (.lookUp k)) = _ :=
      Run.lookUp_of_found reached found
    refine ⟨w.hooks, true, (Run.during_of_ok looked).trans ?_, .refl _, fun _ => ⟨rfl, rfl⟩⟩
    simp only [World.begin, hooked]
  | false =>
    obtain ⟨hooks, reached, grows⟩ :=
      Run.reachRegistry_of_unhooked (w := w.begin (.lookUp k)) hooked
    have looked : Run.lookUp env nested k (w.begin (.lookUp k)) = _ :=
      Run.lookUp_of_found reached found
    refine ⟨hooks, true, Run.during_of_ok looked, grows.hooks, fun hooked => ?_⟩
    cases hooked

omit [DecidableEq η] in
/-- What a look-up answers is cached. -/
theorem World.Appends.answered {nested : Nested κ η σ} {deep : Nat} {w' : World κ η σ} {h : Handle}
    (appends : w.Appends w') (consistent : w.ledger.Consistent)
    (absent : w.cache.lookup (env.kind k).id = none) (mem : ((env.kind k).id, h) ∈ w'.cache) :
    w.LookUpEnds env nested deep k w' (.ok (.ok h) w') := by
  refine .answered mem (appends.live _ mem) ?_
  obtain ⟨added, cache, fresh⟩ := appends.cache
  rw [cache] at mem
  rcases List.mem_append.mp mem with old | new
  · cases absent.symm.trans (consistent.caches.lookup_eq_some_iff.mpr old)
  · exact fresh _ new

omit [DecidableEq η] in
/-- What is cached when a creation ends is cached still when the instance that it made is discarded. -/
theorem Run.mem_cache_of_surplus {nested : Nested κ η σ} {built : Built} {h : Handle} {u x : World κ η σ}
    {obtained : List Handle}
    (closes : ∀ k holdings, (nested ((env.kind k).close holdings)).Respects (growing True))
    (consistent : u.ledger.Consistent) (meanwhile : u.cache.lookup (env.kind k).id = some h)
    (destroyed : destroy env nested ⟨u.instances.size⟩ (World.enroll { u with obtained }
      (env.newInstance k built u.obtained true)) = .ok () x) : ((env.kind k).id, h) ∈ x.cache := by
  have enrolled : Enrolled u.ledger ⟨(env.kind k).id, true, true⟩
      (World.enroll { u with obtained } (env.newInstance k built u.obtained true)) :=
    enrolled_enroll { u with obtained } k built u.obtained true consistent
  have after := (destroy_enrolled closes enrolled).2
  rw [World.next_ledger] at after
  obtain ⟨added, cache, -⟩ := after.cache
  have kept : x.cache = u.cache ++ added :=
    (congrArg World.cache (leaves_of_ok destroyed)).symm.trans cache
  rw [kept]
  exact List.mem_append_left _ (consistent.caches.lookup_eq_some_iff.mp meanwhile)

theorem Run.lookUp_ends {nested : Nested κ η σ} {deep : Nat} {w' : World κ η σ}
    (consistent : w.ledger.Consistent) (absent : w.cache.lookup (env.kind k).id = none)
    (creates : (nested (env.kind k).create).Respects (growing True))
    (closes : ∀ k holdings, (nested ((env.kind k).close holdings)).Respects (growing True))
    (traces : (nested (env.kind k).create).Respects
      (tracing env (.lookUp k :: w.tasks.active) nothing))
    (dives : (during (.lookUp k) (lookUp env nested k)).Dives w.tasks.active deep)
    (left : (during (.lookUp k) (lookUp env nested k)).leaves w = w') (appends : w.Appends w') :
    w.LookUpEnds env nested deep k w' (during (.lookUp k) (lookUp env nested k) w) := by
  obtain ⟨hooks, teardownHooked, reached⟩ := reachRegistry_eq (w.begin (.lookUp k))
  -- the state in which a creation begins
  let begun : World κ η σ := { w.begin (.lookUp k) with hooks, teardownHooked, obtained := [] }
  have active : begun.tasks.active = .lookUp k :: w.tasks.active := rfl
  obtain ⟨still_active, told, more, -, cache⟩ := traces begun active
  have grown := creates begun consistent
  have looked : LookedUp env nested k _ _ := lookedUp reached
  generalize ran : lookUp env nested k (w.begin (.lookUp k)) = result at looked
  have returned {answer : Except ConfigError Handle} {u : World κ η σ}
      (ran : lookUp env nested k (w.begin (.lookUp k)) = .ok answer u)
      (ends : w.LookUpEnds env nested deep k w' (.ok answer w')) :
      w.LookUpEnds env nested deep k w' (during (.lookUp k) (lookUp env nested k) w) := by
    have run := during_of_ok ran
    rw [leaves_of_ok run] at left
    rwa [run, left]
  have ended {halt : Halt} {u : World κ η σ}
      (ran : lookUp env nested k (w.begin (.lookUp k)) = .error halt u)
      (origin : ∀ p, halt = .unwound p →
        w.LookUpEnds env nested deep k w' (.error (.unwound p) w')) :
      w.LookUpEnds env nested deep k w' (during (.lookUp k) (lookUp env nested k) w) := by
    have run := during_of_error ran
    rw [leaves_of_error run] at left
    rw [run, left]
    cases halt with
    | unwound p => exact origin p rfl
    | endless => exact .endless (left ▸ dives w _ rfl run)
  cases looked with
  | found cached => cases absent.symm.trans cached
  | halted _ creation =>
    refine ended ran fun p unwound => ?_
    exact .creation_unwound active (unwound ▸ creation)
  | failed _ creation =>
    rw [leaves_of_ok creation] at more cache
    refine returned ran ?_
    rw [← left, leaves_of_ok (during_of_ok ran)]
    refine .failed active creation rfl rfl more fun e mem => ?_
    exact (cache e mem).imp_right fun looked => looked.resolve_left id
  | inserted _ creation meanwhile =>
    refine returned ran (appends.answered consistent absent ?_)
    rw [← left, leaves_of_ok (during_of_ok ran)]
    exact List.mem_append_right _ (List.mem_singleton_self _)
  | @surplus built h u x _ creation meanwhile destroyed =>
    rw [leaves_of_ok creation] at grown
    refine returned ran (appends.answered consistent absent ?_)
    rw [← left, leaves_of_ok (during_of_ok ran)]
    have kept : ((env.kind k).id, h) ∈ x.cache :=
      mem_cache_of_surplus closes grown.1 meanwhile destroyed
    exact kept
  | @discarded built h halt u x _ creation meanwhile destroyed =>
    rw [leaves_of_ok creation] at still_active grown
    refine ended ran ?_
    rintro p rfl
    have here : (World.enroll { u with obtained := w.obtained }
        (env.newInstance k built u.obtained true)).instances[u.instances.size]? =
        some (env.newInstance k built u.obtained true) := by simp [World.enroll]
    obtain ⟨x₁, x₂, torn, inside, -⟩ := exists_of_destroy_error here rfl rfl destroyed
    have older := grown.2.cards.length_le
    simp only [World.ledger, List.length_map, Array.length_toList] at older
    exact .teardown_unwound (inside.trans (congrArg _ still_active)) rfl older torn

theorem Client.runTo_lookUp (env : Environment κ η σ) (bound below : Nat) (k : κ) :
    (Client.ask (.lookUp k)).runTo env bound (below + 1) =
      Run.during (.lookUp k) (Run.lookUp env (fun c => c.runTo env bound below) k) :=
  Client.runWith_ask env _ bound (.lookUp k)

theorem World.lookUp_appends_of_orderly (orderly : env.Orderly) (bound below : Nat)
    (consistent : w.ledger.Consistent) (absent : w.cache.lookup (env.kind k).id = none) :
    let w' := ((Client.ask (.lookUp k)).runTo env bound (below + 1)).leaves w
    w.Appends w' ∧ w.LookUpEnds env (fun c => c.runTo env bound below) (below + 2) k w'
      ((Client.ask (.lookUp k)).runTo env bound (below + 1) w) := by
  intro w'
  have only : (Client.ask (.lookUp k) : Client κ η σ _).Only (Calls.harmless True)
      (Calls.harmless True) := Client.only_ask trivial
  obtain ⟨after, grows⟩ := Client.respects_growing orderly bound (below + 1) only w consistent
  have dives := Client.dives orderly bound (below + 1) w.tasks.active only
  have appends : w.Appends w' := World.appends_of_grows consistent after grows
  have left : (Run.during (.lookUp k)
      (Run.lookUp env (fun c => c.runTo env bound below) k)).leaves w = w' := by
    rw [← Client.runTo_lookUp]
  rw [Client.runTo_lookUp] at dives ⊢
  refine ⟨appends, Run.lookUp_ends consistent absent ?_ (fun k holdings => ?_) ?_ dives left
    appends⟩
  · exact Client.respects_growing orderly bound below (orderly.create k)
  · exact Client.respects_growing orderly bound below (orderly.close k holdings)
  · exact Client.respects_tracing orderly bound below (orderly.create k)

omit [DecidableEq η] in
/-- The end of a look-up does not depend on kinds that cannot be reached. -/
theorem World.LookUpEnds.congr {env' : Environment κ η σ} {kinds : κ → Prop}
    {nested nested' : Nested κ η σ} {deep : Nat} {w' : World κ η σ}
    {result : EStateM.Result Halt (World κ η σ) (Except ConfigError Handle)}
    (agrees : env.Agrees kinds env') (orderly : env.OrderlyAmong kinds) (known : kinds k)
    (same : ∀ {β : Type} {c : Client κ η σ β}, c.Only (Calls.among kinds) (Calls.among kinds) →
      nested' c = nested c)
    (ends : w.LookUpEnds env' nested' deep k w' result) :
    w.LookUpEnds env nested deep k w' result := by
  have creates : nested' (env'.kind k).create = nested (env.kind k).create := by
    rw [agrees.kind k known, same (orderly.create k known)]
  cases ends with
  | answered cached lives new =>
    rw [agrees.id] at cached lives
    exact .answered cached lives new
  | failed active creation cache instances begun looked =>
    rw [creates] at creation
    refine .failed active creation cache instances begun fun e mem => ?_
    refine (looked e mem).imp_right fun ⟨k', inner, mem, id⟩ => ⟨k', inner, mem, ?_⟩
    rw [← agrees.id, id]
  | creation_unwound active creation =>
    rw [creates] at creation
    exact .creation_unwound active creation
  | teardown_unwound active kind new torn =>
    have congr := Run.tearDown_congr agrees orderly same (kind ▸ known)
    rw [congr] at torn
    exact .teardown_unwound active kind new torn
  | endless deep => exact .endless deep

/-- A cached instance is what a look-up of its id answers.  A look-up of another id only appends to the
cache, whatever look-ups there are in the creation of the new instance. -/
theorem World.lookUp_appends {kinds : κ → Prop} (orderly : env.OrderlyAmong kinds)
    (known : kinds k) (bound depth : Nat) (consistent : w.ledger.Consistent) :
    w.LookUp env bound depth k where
  cached _ found := Client.runTo_lookUp_of_cached found
  absent missing below deeper := by
    subst deeper
    obtain ⟨env', orderly', agrees⟩ := orderly.exists_orderly
    have same {β : Type} (depth : Nat) {c : Client κ η σ β}
        (among : c.Only (Calls.among kinds) (Calls.among kinds)) :
        c.runTo env' bound depth = c.runTo env bound depth :=
      Client.runTo_congr agrees orderly depth among
    obtain ⟨appends, ends⟩ := lookUp_appends_of_orderly (k := k) orderly' bound below consistent
      (by rw [agrees.id]; exact missing)
    have only : (Client.ask (.lookUp k) : Client κ η σ _).Only (Calls.among kinds)
        (Calls.among kinds) := ⟨known, fun _ => trivial⟩
    rw [same (below + 1) only] at appends ends
    have enacts := World.enacts_of_enacting
      (Client.respects_enacting env bound (below + 1) (Client.ask (.lookUp k)) w) (Nat.le_refl _)
    exact ⟨_, appends, enacts, ends.congr agrees orderly known (same below)⟩

end LookUps

/-- A kind whose creation looks up its own kind as often as the client says, and whose instances look it
up in their teardown; and one whose creation tears the registry down. -/
def burrows : Environment Bool Unit Nat where
  kind
    | false => { (Kind.heap : Kind Bool Unit Nat) with
        create := do
          match ← Client.state with
          | 0 => return .ok ⟨.empty, []⟩
          | n + 1 =>
            Client.ask (.set n)
            let _ ← Client.ask (.lookUp false)
            return .ok ⟨.empty, []⟩
        close := fun _ => do
          let _ ← Client.ask (.lookUp false)
          return () }
    | true => { (Kind.heap : Kind Bool Unit Nat) with
        id := ⟨"quarry"⟩
        create := do
          Client.ask .teardown
          return .error (.kindCreateFailed ⟨"quarry"⟩ "empty") }
  hook _ := return ()
  production := ⟨"default", false⟩

def burrowsStart : World Bool Unit Nat := World.start ⟨"default", false⟩ false 2

theorem burrows_orderly : burrows.OrderlyAmong (· = false) where
  create k known := by
    subst known
    refine ⟨trivial, fun n => ?_⟩
    cases n with
    | zero => trivial
    | succ n => exact ⟨trivial, fun _ => ⟨rfl, fun _ => trivial⟩⟩
  close k known _ := by
    subst known
    exact ⟨rfl, fun _ => trivial⟩

/-- The look-up inside the look-up inside the look-up comes first, and the other two instances are
destroyed. -/
theorem burrows_lookUp_appends :
    burrows.OrderlyAmong (· = false) ∧ burrowsStart.ledger.Consistent ∧
      burrowsStart.LookUp burrows 8 8 false ∧
      let w := ((Client.ask (.lookUp false)).runTo burrows 8 8).leaves burrowsStart
      w.cache = [(⟨"system"⟩, ⟨0⟩)] ∧ w.ledger.tornDown = [⟨1⟩, ⟨2⟩] := by
  have consistent : burrowsStart.ledger.Consistent :=
    (World.start_settled ⟨"default", false⟩ false 2).consistent
  refine ⟨burrows_orderly, consistent,
    World.lookUp_appends burrows_orderly rfl 8 8 consistent, ?_⟩
  dsimp only
  decide +kernel

end MemoryTrial
