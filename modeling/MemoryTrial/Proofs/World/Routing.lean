import MemoryTrial.Proofs.World.Caching
import MemoryTrial.Proofs.World.LookUps
import MemoryTrial.Proofs.World.Memory
import MemoryTrial.Proofs.World.Reentry

/-! Where memory calls go.  A memory call looks up the kind that its thread has selected at that moment,
and makes its request to the instance that the look-up answers, which is the one that the registry
holds.  The request changes that instance and no other one (`MemoryCall.changes_only`), so whatever else
a call changes was done by the look-up, when it created an instance (`World.Obtains`). -/

namespace MemoryTrial

variable {κ η σ α β : Type}

/-- A memory call of a thread that goes to its default allocator. -/
inductive MemoryCall (κ η σ : Type) : Type → Type 1
  | allocate (n : Nat) : MemoryCall κ η σ (Option Ptr)
  | resize (p : Option Ptr) (n : Nat) : MemoryCall κ η σ (Option Ptr)
  | free (p : Ptr) : MemoryCall κ η σ Unit
  | within {α : Type} (p : Ptr) (edit : ByteArray → ByteArray)
    (body : ByteArray → Client κ η σ α) : MemoryCall κ η σ α

namespace MemoryCall

def program : MemoryCall κ η σ α → Client κ η σ α
  | .allocate n => Memory.allocate n
  | .resize p n => Memory.resize p n
  | .free p => Memory.free (some p)
  | .within p edit body => Memory.within p edit body

/-- The request that the call makes to an instance. -/
def on (h : Handle) : MemoryCall κ η σ α → Client κ η σ α
  | .allocate n => h.allocate n
  | .resize p n => h.resize p n
  | .free p => h.free (some p)
  | .within p edit body => .within h p edit body .pure

/-- How the call ends when there is no default allocator. -/
def refused : MemoryCall κ η σ α → Client κ η σ α
  | .allocate _ => return none
  | .resize _ _ => return none
  | .free _ => return ()
  | .within p _ _ => Client.raise (.violation (.unknownPointer p))

/-- Calls that use no payload. -/
def Plain : MemoryCall κ η σ α → Prop
  | .within _ _ _ => False
  | _ => True

theorem program_eq (call : MemoryCall κ η σ α) : call.program = (Memory.resolve >>= fun
    | some h => call.on h
    | none => call.refused) := by
  cases call <;> rfl

theorem runTo_program [DecidableEq η] (call : MemoryCall κ η σ α) (env : Environment κ η σ)
    (bound depth : Nat) (w : World κ η σ) :
    call.program.runTo env bound depth w =
      match (Client.ask (.lookUp w.fixture.kind)).runTo env bound depth w with
      | .ok (.ok h) v => (call.on h).runTo env bound depth v
      | .ok (.error e) v => call.refused.runTo env bound depth
          { v with journal := v.journal.push (.record (.noDefaultAllocator e)) }
      | .error halt v => .error halt v := by
  obtain ⟨nested, run_eq⟩ := Client.exists_runTo_eq env bound depth
  simp only [run_eq, call.program_eq, Client.runWith_ask]
  exact Memory.runWith_resolve _ w

end MemoryCall

/-- Between the two states nothing changed but the instance, the active replay and the journal. -/
def World.ChangesOnly (h : Handle) (w w' : World κ η σ) : Prop :=
  ∃ f frame journal, w' = { w with instances := w.instances.modify h.number f, frame, journal }

theorem World.ChangesOnly.getElem?_of_ne {h h' : Handle} {w w' : World κ η σ}
    (changes : w.ChangesOnly h w') (other : h' ≠ h) :
    w'.instances[h'.number]? = w.instances[h'.number]? := by
  obtain ⟨f, frame, journal, rfl⟩ := changes
  rw [Array.getElem?_modify, if_neg fun same => other (congrArg Handle.mk same.symm)]

def changing (h : Handle) : Effect κ η σ where
  Allows := World.ChangesOnly h
  refl w := ⟨id, w.frame, w.journal, by rw [modify_id]⟩
  trans := by
    rintro w _ _ ⟨f, frame, journal, rfl⟩ ⟨g, frame', journal', rfl⟩
    exact ⟨g ∘ f, frame', journal', by simp only [modify_modify]⟩

section Requests

variable {h : Handle}

theorem changing_journal (w : World κ η σ) (journal : Array Entry) :
    (changing h).Allows w { w with journal } := ⟨id, w.frame, journal, by rw [modify_id]⟩

theorem changing_modify (w : World κ η σ) (f : Instance κ → Instance κ) :
    (changing h).Allows w { w with instances := w.instances.modify h.number f } :=
  ⟨f, w.frame, w.journal, rfl⟩

namespace Run

theorem changing_liveInstance :
    (liveInstance h : Run κ η σ (Instance κ × Allocator)).Respects (changing h) := by
  intro w
  cases here : w.instances[h.number]? with
  | none =>
    rw [leaves_of_error (liveInstance_of_missing here)]
    exact (changing h).refl w
  | some inst =>
    cases busy : inst.busy with
    | true =>
      rw [leaves_of_error (liveInstance_of_busy here busy)]
      exact changing_journal w _
    | false =>
      cases state : inst.state with
      | none =>
        rw [leaves_of_error (liveInstance_of_destroyed here busy state)]
        exact changing_journal w _
      | some a =>
        rw [leaves_of_ok (liveInstance_of_some here state busy)]
        exact (changing h).refl w

theorem changing_onAllocator (a : Allocator) (x : Op (Allocator × Option Frame) α) :
    (onAllocator h a x : Run κ η σ α).Respects (changing h) := by
  intro w
  rw [leaves_onAllocator]
  exact ⟨_, _, _, rfl⟩

theorem changing_use (r : Request α) : (use h r : Run κ η σ α).Respects (changing h) :=
  respects_bind changing_liveInstance fun _ => changing_onAllocator _ _

theorem changing_opening (p : Ptr) (edit : ByteArray → ByteArray) :
    (opening h p edit : Run κ η σ ByteArray).Respects (changing h) := by
  intro w
  rcases liveInstance_cases w h with ⟨halt, v, refused⟩ | ⟨inst, a, here, state, idle⟩
  · rw [leaves_of_error (opening_of_refused refused), ← leaves_of_error refused]
    exact changing_liveInstance w
  · have accesses := changing_onAllocator (h := h) a (Allocator.access p edit) (w.mark h true)
    have begun := (changing h).trans (changing_modify w _) accesses
    have opened : opening h p edit w = _ := opening_of_live here state idle
    cases accessed : onAllocator h a (Allocator.access p edit) (w.mark h true) with
    | ok bytes v =>
      rw [accessed] at opened
      rw [leaves_of_ok opened, ← leaves_of_ok accessed]
      exact begun
    | error halt v =>
      rw [accessed] at opened
      rw [leaves_of_error accessed] at begun
      rw [leaves_of_error opened]
      exact (changing h).trans begun (changing_modify v _)

end Run

/-- A request changes the instance that it goes to, and no other one. -/
theorem MemoryCall.changes_only [DecidableEq η] {call : MemoryCall κ η σ α} (plain : call.Plain)
    (env : Environment κ η σ) (bound depth : Nat) :
    ((call.on h).runTo env bound depth).Respects (changing h) := by
  obtain ⟨nested, run_eq⟩ := Client.exists_runTo_eq env bound depth
  have asks {β : Type} (r : Request β) :
      ((Client.ask (.use h r)).runWith env nested bound).Respects (changing h) := by
    rw [Client.runWith_ask]
    exact Run.changing_use r
  have ends {β : Type} (b : β) :
      ((Client.pure b : Client κ η σ β).runWith env nested bound).Respects (changing h) :=
    Run.respects_pure b
  have allocates (n : Nat) :
      ((h.allocate n).runWith env nested bound).Respects (changing h) := by
    rw [Handle.allocate]
    split
    · exact ends none
    · exact asks _
  rw [run_eq]
  cases call with
  | allocate n => exact allocates n
  | resize p n =>
    cases p with
    | none => exact allocates n
    | some p =>
      rw [MemoryCall.on, Handle.resize]
      split
      · rw [Client.runWith_bind]
        exact Run.respects_bind (asks _) fun _ => ends none
      · exact asks _
  | free p => exact asks _
  | within p edit body => exact plain.elim

end Requests

/-- A call changes no instance after the look-up but the one that the look-up answers. -/
theorem MemoryCall.others [DecidableEq η] {call : MemoryCall κ η σ α} (plain : call.Plain)
    (env : Environment κ η σ) (bound depth : Nat) (w : World κ η σ) {h' : Handle}
    (other : ∀ h v, (Client.ask (.lookUp w.fixture.kind)).runTo env bound depth w = .ok (.ok h) v →
      h' ≠ h) :
    ((call.program.runTo env bound depth).leaves w).instances[h'.number]? =
      (((Client.ask (.lookUp w.fixture.kind)).runTo env bound depth).leaves
        w).instances[h'.number]? := by
  have run := call.runTo_program env bound depth w
  cases looked : (Client.ask (.lookUp w.fixture.kind)).runTo env bound depth w with
  | error halt v =>
    rw [looked] at run
    rw [Run.leaves_of_error run, Run.leaves_of_error looked]
  | ok answer v =>
    rw [looked] at run
    rw [Run.leaves_of_ok looked]
    cases answer with
    | ok h =>
      rw [Run.leaves_congr run]
      exact (MemoryCall.changes_only plain env bound depth v).getElem?_of_ne (other h v looked)
    | error e =>
      obtain ⟨nested, run_eq⟩ := Client.exists_runTo_eq env bound depth
      rw [Run.leaves_congr run, run_eq]
      cases call with
      | within p edit body => exact plain.elim
      | _ => rfl

/-- The registry is the same in the two states, and so is what the thread has selected. -/
structure World.Alike (w v : World κ η σ) : Prop where
  instances : v.instances = w.instances
  cache : v.cache = w.cache
  fixture : v.fixture = w.fixture

/-- In `w` nothing is cached for `k`, and the program that creates an instance ends like this when it
begins there. -/
def World.Creates (env : Environment κ η σ) (nested : Nested κ η σ) (k : κ) (w : World κ η σ)
    (ends : EStateM.Result Halt (World κ η σ) (Except ConfigError Built)) : Prop :=
  w.cache.lookup (env.kind k).id = none ∧ ∃ v, w.Alike v ∧ nested (env.kind k).create v = ends

/-- How a look-up of `k` ends.  Where it creates an instance, `c` is the state that the creation left. -/
inductive World.Obtains (env : Environment κ η σ) (nested : Nested κ η σ) (k : κ)
    (w : World κ η σ) : EStateM.Result Halt (World κ η σ) (Except ConfigError Handle) → Prop
  | held {h : Handle} {v : World κ η σ} :
    w.cache.lookup (env.kind k).id = some h → w.Alike v → Obtains env nested k w (.ok (.ok h) v)
  /-- The new instance comes to the cache. -/
  | created {built : Built} {sources : List Handle} {c v : World κ η σ} :
    w.Creates env nested k (.ok (.ok built) c) → c.cache.lookup (env.kind k).id = none →
    w.instances.size ≤ c.instances.size →
    World.Alike { c with
      instances := c.instances.push (env.newInstance k built sources true)
      cache := c.cache ++ [((env.kind k).id, ⟨c.instances.size⟩)] } v →
    Obtains env nested k w (.ok (.ok ⟨c.instances.size⟩) v)
  /-- The creation looked up its own kind.  What that answered stays, and the new instance goes. -/
  | surplus {built : Built} {sources : List Handle} {h : Handle} {c c' c'' v : World κ η σ} :
    w.Creates env nested k (.ok (.ok built) c) → c.cache.lookup (env.kind k).id = some h →
    w.instances.size ≤ h.number → c.Alike c' →
    Run.destroy env nested ⟨c.instances.size⟩ (c'.enroll (env.newInstance k built sources true)) =
      .ok () c'' → c''.Alike v → Obtains env nested k w (.ok (.ok h) v)
  | failed {e : ConfigError} {c v : World κ η σ} :
    w.Creates env nested k (.ok (.error e) c) → c.Alike v → Obtains env nested k w (.ok (.error e) v)
  | unwound {halt : Halt} {c v : World κ η σ} :
    w.Creates env nested k (.error halt c) → c.Alike v → Obtains env nested k w (.error halt v)
  /-- The teardown of the new instance was unwound. -/
  | discarded {built : Built} {sources : List Handle} {h : Handle} {halt : Halt}
    {c c' c'' v : World κ η σ} :
    w.Creates env nested k (.ok (.ok built) c) → c.cache.lookup (env.kind k).id = some h →
    c.Alike c' →
    Run.destroy env nested ⟨c.instances.size⟩ (c'.enroll (env.newInstance k built sources true)) =
      .error halt c'' → c''.Alike v → Obtains env nested k w (.error halt v)

section LookUps

variable [DecidableEq η] {env : Environment κ η σ} {nested : Nested κ η σ} {k : κ}
  {w : World κ η σ}

theorem Run.obtains_of_lookUp (renews : (nested (env.kind k).create).Respects renewing) :
    w.Obtains env nested k (during (.lookUp k) (lookUp env nested k) w) := by
  obtain ⟨hooks, teardownHooked, reached⟩ := reachRegistry_eq (w.begin (.lookUp k))
  -- the state in which a creation begins
  let begun : World κ η σ := { w.begin (.lookUp k) with hooks, teardownHooked, obtained := [] }
  have creates {ends : EStateM.Result Halt (World κ η σ) (Except ConfigError Built)}
      (absent : w.cache.lookup (env.kind k).id = none)
      (creation : nested (env.kind k).create begun = ends) : w.Creates env nested k ends :=
    ⟨absent, begun, ⟨rfl, rfl, rfl⟩, creation⟩
  obtain ⟨size, new⟩ := renews begun
  have looked : LookedUp env nested k _ _ := lookedUp reached
  generalize ended : lookUp env nested k (w.begin (.lookUp k)) = result at looked
  cases looked with
  | found cached =>
    rw [during_of_ok ended]
    exact .held cached ⟨rfl, rfl, rfl⟩
  | halted absent creation =>
    rw [during_of_error ended]
    exact .unwound (creates absent creation) ⟨rfl, rfl, rfl⟩
  | failed absent creation =>
    rw [during_of_ok ended]
    exact .failed (creates absent creation) ⟨rfl, rfl, rfl⟩
  | inserted absent creation meanwhile =>
    rw [during_of_ok ended]
    rw [leaves_of_ok creation] at size
    exact .created (creates absent creation) meanwhile size ⟨rfl, rfl, rfl⟩
  | surplus absent creation meanwhile destroyed =>
    rw [during_of_ok ended]
    rw [leaves_of_ok creation] at new
    refine .surplus (creates absent creation) meanwhile ?_ ?_ destroyed ⟨rfl, rfl, rfl⟩
    · refine (new _ (Ledger.mem_of_lookup meanwhile)).resolve_left fun old => ?_
      exact absurd rfl (bne_iff_ne.mp (List.lookup_eq_none_iff.mp absent _ old))
    · exact ⟨rfl, rfl, rfl⟩
  | discarded absent creation meanwhile destroyed =>
    rw [during_of_error ended]
    refine .discarded (creates absent creation) meanwhile ?_ destroyed ⟨rfl, rfl, rfl⟩
    exact ⟨rfl, rfl, rfl⟩

omit [DecidableEq η] in
/-- An instance that is not cached is not answered. -/
theorem World.Obtains.ne {h h' : Handle} {v : World κ η σ} (old : h.number < w.instances.size)
    (uncached : ∀ id, (id, h) ∉ w.cache) (obtains : w.Obtains env nested k (.ok (.ok h') v)) :
    h' ≠ h := by
  rintro rfl
  cases obtains with
  | held found _ => exact uncached _ (Ledger.mem_of_lookup found)
  | created _ _ size _ => exact Nat.not_lt.mpr size old
  | surplus _ _ new _ _ _ => exact Nat.not_lt.mpr new old

theorem Run.uncached_of_delete {h : Handle} {inst : Instance κ}
    (closes : ∀ k holdings, (nested ((env.kind k).close holdings)).Respects renewing)
    (caches : w.ledger.Caches) (here : w.instances[h.number]? = some inst) (id : KindId) :
    (id, h) ∉ ((delete env nested (some h)).leaves w).cache := by
  obtain ⟨hooks, teardownHooked, reached⟩ := reachRegistry_eq w
  obtain ⟨v, hv⟩ : ∃ v : World κ η σ, v = { w with hooks, teardownHooked } := ⟨_, rfl⟩
  rw [← hv] at reached
  have here' : v.instances[h.number]? = some inst := by
    rw [hv]
    exact here
  have forgot : (if v.cache.lookup inst.id = some h then
      { v with cache := v.cache.filter (·.1 ≠ inst.id) } else v).ledger = w.ledger.forget h := by
    subst hv
    exact World.ledger_uncache (w := { w with hooks, teardownHooked }) caches here
  rw [delete, leaves_bind_of_ok reached, leaves_bind_of_ok (instanceOf_of_some here'),
    leaves_bind_of_ok (modify_run _ v)]
  intro mem
  rcases (renewing_destroy closes h _).2 _ mem with old | new
  · refine w.ledger.forget_notMem h id ?_
    rw [← forgot]
    exact old
  · obtain ⟨size, -⟩ := Array.getElem?_eq_some_iff.mp here'
    refine Nat.not_le.mpr size (Nat.le_trans (Nat.le_of_eq ?_) new)
    split <;> rfl

end LookUps

/-- Where the memory calls of a thread go that runs in the state `w`. -/
structure World.Routes [DecidableEq η] (env : Environment κ η σ) (bound below : Nat)
    (w : World κ η σ) : Prop where
  /-- A call looks up the selected kind, and makes its request to the answer. -/
  program : ∀ {α : Type} (call : MemoryCall κ η σ α), call.program.runTo env bound (below + 1) w =
    match (Client.ask (.lookUp w.fixture.kind)).runTo env bound (below + 1) w with
    | .ok (.ok h) v => (call.on h).runTo env bound (below + 1) v
    | .ok (.error e) v => call.refused.runTo env bound (below + 1)
        { v with journal := v.journal.push (.record (.noDefaultAllocator e)) }
    | .error halt v => .error halt v
  /-- The answer is what the registry holds.  If it holds nothing, the look-up creates an instance. -/
  obtains : ∀ k, w.Obtains env (fun c => c.runTo env bound below) k
    ((Client.ask (.lookUp k)).runTo env bound (below + 1) w)
  /-- When the request is made, the registry still holds the instance. -/
  serves : env.Orderly → ∀ k h v,
    (Client.ask (.lookUp k)).runTo env bound (below + 1) w = .ok (.ok h) v →
    ((env.kind k).id, h) ∈ v.cache ∧ v.Lives (env.kind k).id h
  /-- An instance that was deleted is not answered any more. -/
  deleted : ∀ h inst, w.instances[h.number]? = some inst → ∀ id,
    (id, h) ∉ (((Client.ask (.delete (some h))).runTo env bound (below + 1)).leaves w).cache
  uncached : ∀ h, h.number < w.instances.size → (∀ id, (id, h) ∉ w.cache) →
    (∀ k h' v, (Client.ask (.lookUp k)).runTo env bound (below + 1) w = .ok (.ok h') v → h' ≠ h) ∧
    ∀ {α : Type} (c : Client κ η σ α) id, (id, h) ∉ ((c.runTo env bound (below + 1)).leaves w).cache
  /-- A request, whenever it is made, changes no other instance. -/
  request : ∀ {α : Type} (call : MemoryCall κ η σ α), call.Plain → ∀ h,
    w.ChangesOnly h (((call.on h).runTo env bound (below + 1)).leaves w)
  /-- So a whole call changes no other instance after the look-up. -/
  others : ∀ {α : Type} (call : MemoryCall κ η σ α), call.Plain → ∀ h' : Handle,
    (∀ h v, (Client.ask (.lookUp w.fixture.kind)).runTo env bound (below + 1) w = .ok (.ok h) v →
      h' ≠ h) →
    ((call.program.runTo env bound (below + 1)).leaves w).instances[h'.number]? =
      (((Client.ask (.lookUp w.fixture.kind)).runTo env bound (below + 1)).leaves
        w).instances[h'.number]?
  /-- The use of a payload does neither, apart from what the program inside does. -/
  opening : ∀ h p edit, w.ChangesOnly h ((Run.opening h p edit).leaves w)
  within : ∀ {α : Type} h p edit (body : ByteArray → Client κ η σ α),
    ((MemoryCall.within p edit body).on h).runTo env bound (below + 1) w =
      match Run.opening h p edit w with
      | .ok bytes v => Run.ended (·.mark h false) ((body bytes).runTo env bound (below + 1) v)
      | .error halt v => .error halt v

section Routes

variable [DecidableEq η] {env : Environment κ η σ} {w : World κ η σ}

theorem Client.obtains_of_lookUp (env : Environment κ η σ) (bound below : Nat) (k : κ)
    (w : World κ η σ) : w.Obtains env (fun c => c.runTo env bound below) k
      ((Client.ask (.lookUp k)).runTo env bound (below + 1) w) := by
  rw [Client.runTo_lookUp]
  exact Run.obtains_of_lookUp (Client.respects_renewing env bound below _)

theorem Client.serves_of_lookUp (orderly : env.Orderly) {bound below : Nat} {k : κ} {h : Handle}
    {v : World κ η σ} (consistent : w.ledger.Consistent)
    (looked : (Client.ask (.lookUp k)).runTo env bound (below + 1) w = .ok (.ok h) v) :
    ((env.kind k).id, h) ∈ v.cache ∧ v.Lives (env.kind k).id h := by
  have obtains := looked ▸ Client.obtains_of_lookUp env bound below k w
  cases found : w.cache.lookup (env.kind k).id with
  | some held =>
    cases obtains with
    | held found alike =>
      have mem := Ledger.mem_of_lookup found
      have lives := World.lives_iff.mpr (consistent.caches.live _ mem)
      rw [World.Lives, alike.instances, alike.cache]
      exact ⟨mem, lives⟩
    | created creates _ _ _ => cases found.symm.trans creates.1
    | surplus creates _ _ _ _ _ => cases found.symm.trans creates.1
  | none =>
    obtain ⟨-, ends⟩ := World.lookUp_appends_of_orderly orderly bound below consistent found
    rw [Run.leaves_of_ok looked, looked] at ends
    cases ends with
    | answered mem lives _ => exact ⟨mem, lives⟩

theorem World.routes (consistent : w.ledger.Consistent) (bound below : Nat) :
    w.Routes env bound below where
  program call := call.runTo_program env bound (below + 1) w
  obtains k := Client.obtains_of_lookUp env bound below k w
  serves orderly _ _ _ looked := Client.serves_of_lookUp orderly consistent looked
  deleted h inst here id := by
    change (id, h) ∉ (Run.leaves (Client.runWith env _ bound (Client.ask _)) w).cache
    rw [Client.runWith_ask]
    exact Run.uncached_of_delete (fun k holdings => Client.respects_renewing env bound below _)
      consistent.caches here id
  uncached h old uncached := by
    refine ⟨fun k h' v looked => ?_, fun c id mem => ?_⟩
    · exact (looked ▸ Client.obtains_of_lookUp env bound below k w).ne old uncached
    · rcases (Client.respects_renewing env bound (below + 1) c w).2 _ mem with cached | new
      · exact uncached id cached
      · exact Nat.not_lt.mpr new old
  request call plain h := call.changes_only plain env bound (below + 1) w
  others call plain h' other := call.others plain env bound (below + 1) w other
  opening h p edit := Run.changing_opening p edit w
  within h p edit body := Client.runTo_within h p edit body bound (below + 1) w

end Routes

end MemoryTrial
