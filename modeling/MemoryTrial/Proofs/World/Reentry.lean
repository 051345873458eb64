import MemoryTrial.Proofs.Heap.Blocks
import MemoryTrial.Proofs.World.Uses
import MemoryTrial.World.Memory

/-! Calls from inside the use of a payload.  An instance is marked as busy exactly while a payload of
it is in use, whatever runs in the use and however it ends, so a call to it is refused exactly then
(`Inside.detects_reentry`). -/

namespace MemoryTrial

variable {κ η σ α β : Type}

/-- Payloads of exactly these instances are in use, and these are their allocators. -/
structure World.Holds (w : World κ η σ) (uses : List (Handle × Allocator)) : Prop where
  apart : (uses.map Prod.fst).Nodup
  exact : ∀ h state, w.InUse h state ↔ ∃ a, state = some a ∧ (h, a) ∈ uses

/-- The states in which a thread can be, with the payloads in use there, the innermost first: each with
its instance and the allocator that its use began with.  Between any two calls of a program, also of one
that a creation, a teardown or an exit hook runs, a thread is in such a state. -/
inductive Inside [DecidableEq η] (env : Environment κ η σ) :
    List (Handle × Allocator) → World κ η σ → Prop
  | start (production : Fixture κ) (hooked : Bool) (client : σ) :
    Inside env [] (World.start production hooked client)
  /-- A program ran, and was unwound perhaps. -/
  | step {α : Type} {uses : List (Handle × Allocator)} {w : World κ η σ} (c : Client κ η σ α)
    (bound depth : Nat) :
    Inside env uses w → Inside env uses ((c.runTo env bound depth).leaves w)
  /-- A use of a payload began. -/
  | enter {uses : List (Handle × Allocator)} {w v : World κ η σ} {h : Handle} {p : Ptr}
    {edit : ByteArray → ByteArray} {bytes : ByteArray} {a : Allocator} :
    Inside env uses w → Run.opening h p edit w = .ok bytes v → v.InUse h (some a) →
    Inside env ((h, a) :: uses) v
  /-- The innermost use ended, or was unwound. -/
  | leave {uses : List (Handle × Allocator)} {w : World κ η σ} {h : Handle} {a : Allocator} :
    Inside env ((h, a) :: uses) w → Inside env uses (w.mark h false)
  /-- A creation ended with a new instance. -/
  | create {uses : List (Handle × Allocator)} {w : World κ η σ} (k : κ) (built : Built)
    (sources : List Handle) (shared : Bool) :
    Inside env uses w → Inside env uses (w.enroll (env.newInstance k built sources shared))
  /-- The teardown of an instance began. -/
  | doom {uses : List (Handle × Allocator)} {w : World κ η σ} {h : Handle} {inst : Instance κ} :
    Inside env uses w → w.instances[h.number]? = some inst → inst.busy = false →
    Inside env uses { w with
      instances := w.instances.modify h.number fun inst => { inst with state := none } }
  /-- Something happened that is about no instance. -/
  | beside {uses : List (Handle × Allocator)} {w w' : World κ η σ} :
    Inside env uses w → w'.instances = w.instances → Inside env uses w'

namespace World.Holds

variable {w w' : World κ η σ} {uses : List (Handle × Allocator)} {h : Handle} {a : Allocator}
  {inst : Instance κ}

theorem steady (holds : w.Holds uses) (steady : steadying.Allows w w') : w'.Holds uses :=
  ⟨holds.apart, fun h state => (steady h state).trans (holds.exact h state)⟩

theorem busy_iff (holds : w.Holds uses) (here : w.instances[h.number]? = some inst) :
    inst.busy = true ↔ h ∈ uses.map Prod.fst := by
  constructor
  · intro busy
    obtain ⟨a, -, mem⟩ := (holds.exact h inst.state).mp ⟨inst, here, busy, rfl⟩
    exact List.mem_map_of_mem mem
  · intro used
    obtain ⟨⟨h', a⟩, mem, rfl⟩ := List.mem_map.mp used
    obtain ⟨inst', here', busy, -⟩ := (holds.exact h' (some a)).mpr ⟨a, rfl, mem⟩
    rw [here] at here'
    cases here'
    exact busy

theorem idle (holds : w.Holds uses) (here : w.instances[h.number]? = some inst)
    (absent : h ∉ uses.map Prod.fst) : inst.busy = false := by
  rw [← Bool.not_eq_true, holds.busy_iff here]
  exact absent

theorem marked (holds : w.Holds uses) : w.marked (uses.map Prod.fst) = w := by
  apply World.marked_of_exact
  intro n inst here
  have busy_iff := holds.busy_iff (h := ⟨n⟩) here
  cases busy : inst.busy with
  | true => exact (decide_eq_true (busy_iff.mp busy)).symm
  | false =>
    rw [busy] at busy_iff
    exact (decide_eq_false fun mem => Bool.false_ne_true (busy_iff.mpr mem)).symm

theorem leave (holds : w.Holds ((h, a) :: uses)) : (w.mark h false).Holds uses := by
  obtain ⟨fresh, apart⟩ := List.nodup_cons.mp holds.apart
  refine ⟨apart, fun h' state => ?_⟩
  by_cases eq : h' = h
  · subst eq
    rw [World.mark, World.inUse_modify]
    refine iff_of_false ?_ ?_
    · rintro ⟨_, _, busy, -⟩
      cases busy
    · rintro ⟨a', -, mem⟩
      exact fresh (List.mem_map.mpr ⟨(h', a'), mem, rfl⟩)
  · refine (World.inUse_modify_of_ne _ eq).trans ((holds.exact h' state).trans ?_)
    constructor
    · rintro ⟨a', rfl, mem⟩
      rcases List.mem_cons.mp mem with same | mem
      · cases same
        exact absurd rfl eq
      · exact ⟨a', rfl, mem⟩
    · rintro ⟨a', rfl, mem⟩
      exact ⟨a', rfl, List.mem_cons_of_mem _ mem⟩

theorem enter {v : World κ η σ} {p : Ptr} {edit : ByteArray → ByteArray} {bytes : ByteArray}
    (holds : w.Holds uses) (opened : Run.opening h p edit w = .ok bytes v)
    (inUse : v.InUse h (some a)) : v.Holds ((h, a) :: uses) := by
  obtain ⟨inst, a', here, idle, instances⟩ := Run.exists_of_opening opened
  have absent : h ∉ uses.map Prod.fst := by
    rw [← holds.busy_iff here, idle]
    exact Bool.false_ne_true
  refine ⟨List.nodup_cons.mpr ⟨absent, holds.apart⟩, fun h' state => ?_⟩
  by_cases eq : h' = h
  · subst eq
    constructor
    · intro inUse'
      exact ⟨a, inUse'.eq inUse, List.mem_cons_self⟩
    · rintro ⟨a', rfl, mem⟩
      rcases List.mem_cons.mp mem with same | old
      · cases same
        exact inUse
      · exact absurd (List.mem_map.mpr ⟨(h', a'), old, rfl⟩) absent
  · have same : v.InUse h' state ↔ w.InUse h' state := by
      rw [World.InUse, instances]
      exact World.inUse_modify_of_ne _ eq
    rw [same, holds.exact]
    constructor
    · rintro ⟨a', rfl, mem⟩
      exact ⟨a', rfl, List.mem_cons_of_mem _ mem⟩
    · rintro ⟨a', rfl, mem⟩
      rcases List.mem_cons.mp mem with same | old
      · cases same
        exact absurd rfl eq
      · exact ⟨a', rfl, old⟩

end World.Holds

theorem Inside.holds [DecidableEq η] {env : Environment κ η σ} {uses : List (Handle × Allocator)}
    {w : World κ η σ} (inside : Inside env uses w) : w.Holds uses := by
  induction inside with
  | start production hooked client =>
    refine ⟨List.nodup_nil, fun h state => iff_of_false ?_ ?_⟩
    · rintro ⟨inst, here, -, -⟩
      cases here
    · rintro ⟨a, -, mem⟩
      cases mem
  | step c bound depth _ ih => exact ih.steady (c.respects_steadying env bound depth _)
  | enter _ opened inUse ih => exact ih.enter opened inUse
  | leave _ ih => exact ih.leave
  | create k built sources shared _ ih => exact ih.steady (steadying_enroll _ rfl)
  | doom _ here idle ih => exact ih.steady (steadying_setState none here idle rfl)
  | beside _ same ih => exact ih.steady fun _ _ => World.inUse_congr same

/-- The calls to an instance that its allocator answers. -/
inductive Handle.Requests (h : Handle) : {α : Type} → Client κ η σ α → Prop
  | allocate (n : Nat) : n ≠ 0 → h.Requests (h.allocate n)
  | resize (p : Option Ptr) (n : Nat) : (p, n) ≠ (none, 0) → h.Requests (h.resize p n)
  | free (p : Ptr) : h.Requests (h.free (some p))

/-- The programs that begin with a call to an instance that needs its allocator. -/
inductive Handle.Demands (h : Handle) : {α : Type} → Client κ η σ α → Prop
  | request {α : Type} {c : Client κ η σ α} : h.Requests c → h.Demands c
  | within {α β : Type} (p : Ptr) (edit : ByteArray → ByteArray)
    (body : ByteArray → Client κ η σ β) (next : β → Client κ η σ α) :
    h.Demands (.within h p edit body next)

section Calls

variable [DecidableEq η] (env : Environment κ η σ) (nested : Nested κ η σ) (bound : Nat)

theorem Handle.Requests.exists_use {h : Handle} {c : Client κ η σ α} (requests : h.Requests c) :
    ∃ (β : Type) (r : Request β) (f : β → α),
      c.runWith env nested bound = (Run.use h r >>= fun b => pure (f b)) := by
  have asked {β : Type} (r : Request β) (f : β → α) :
      ((Client.ask (.use h r) >>= fun b => Client.pure (f b)) : Client κ η σ α).runWith env nested
        bound = (Run.use h r >>= fun b => pure (f b)) := by
    rw [Client.runWith_bind, Client.runWith_ask]
    rfl
  cases requests with
  | allocate n some_bytes =>
    rw [Handle.allocate, if_neg some_bytes]
    exact ⟨_, .grab n, id, asked (.grab n) id⟩
  | resize p n something =>
    cases p with
    | none =>
      have some_bytes : n ≠ 0 := fun zero => something (by rw [zero])
      rw [Handle.resize, Handle.allocate, if_neg some_bytes]
      exact ⟨_, .grab n, id, asked (.grab n) id⟩
    | some p =>
      rw [Handle.resize]
      split
      · exact ⟨_, .release p, fun _ => none, asked (.release p) fun _ => none⟩
      · exact ⟨_, .resize p n, id, asked (.resize p n) id⟩
  | free p => exact ⟨_, .release p, id, asked (.release p) id⟩

theorem Handle.Demands.exists_live {h : Handle} {c : Client κ η σ α} (demands : h.Demands c) :
    ∃ f, c.runWith env nested bound = (Run.liveInstance h >>= f) := by
  cases demands with
  | request requests =>
    obtain ⟨β, r, f, run⟩ := requests.exists_use env nested bound
    rw [run, Run.use, bind_assoc]
    exact ⟨_, rfl⟩
  | within p edit body next =>
    rw [Client.runWith, Run.within, bind_assoc]
    exact ⟨_, rfl⟩

end Calls

/-- While exactly the payloads in `uses` are in use, calls from inside a use are told from others. -/
structure DetectsReentry [DecidableEq η] (env : Environment κ η σ)
    (uses : List (Handle × Allocator)) (w : World κ η σ) : Prop where
  /-- No instance is in use twice. -/
  apart : (uses.map Prod.fst).Nodup
  /-- An instance in use lives, with the allocator that its use began with. -/
  live : ∀ h a, (h, a) ∈ uses → (∃ inst, w.instances[h.number]? = some inst ∧ inst.state = some a) ∧
    ∀ bound depth, (Client.ask (.isDestroyed h)).runTo env bound depth w = .ok false w
  /-- A call to it is refused, and nothing happens but the report. -/
  refused : ∀ h inst, w.instances[h.number]? = some inst → h ∈ uses.map Prod.fst →
    ∀ {α : Type} (c : Client κ η σ α), h.Demands c → ∀ bound depth,
    c.runTo env bound depth w = .error (.unwound (.violation (.reentrantUse inst.id)))
      { w with journal := w.journal.push (.reentry inst.id) }
  /-- A request to any other one is answered as if nothing was in use, and not refused like this. -/
  served : ∀ h, h ∉ uses.map Prod.fst → ∀ {α : Type} (c : Client κ η σ α), h.Requests c →
    ∀ bound depth,
    c.runTo env bound depth w =
        Run.ended (·.marked (uses.map Prod.fst)) (c.runTo env bound depth (w.marked [])) ∧
      ∀ id v, c.runTo env bound depth w ≠ .error (.unwound (.violation (.reentrantUse id))) v
  /-- A use of a payload of any other one begins as if nothing was in use. -/
  opened : ∀ h, h ∉ uses.map Prod.fst → ∀ p edit,
    (Run.opening h p edit w =
      match Run.opening h p edit (w.marked []) with
      | .ok bytes v => .ok bytes (v.marked (h :: uses.map Prod.fst))
      | .error halt v => .error halt (v.marked (uses.map Prod.fst))) ∧
    ∀ id v, Run.opening h p edit w ≠ .error (.unwound (.violation (.reentrantUse id))) v
  /-- A call to an instance that was destroyed is refused for that. -/
  destroyed : ∀ h inst, w.instances[h.number]? = some inst → inst.state = none →
    ∀ {α : Type} (c : Client κ η σ α), h.Demands c → ∀ bound depth,
    c.runTo env bound depth w = .error (.unwound (.violation (.destroyedAllocator inst.id)))
      { w with journal := (w.journal.push (.denied h)).push (.denial inst.id) }
  /-- A use that began goes on with the program inside, and it ends however that ends.  Then the
  instance answers requests again, from the allocator that the use began with. -/
  released : ∀ h p edit bytes v, Run.opening h p edit w = .ok bytes v →
    ∃ a, v.InUse h (some a) ∧ Inside env ((h, a) :: uses) v ∧
      ∀ {α : Type} (body : ByteArray → Client κ η σ α) (bound depth : Nat),
        let left := ((body bytes).runTo env bound depth).leaves v
        (Client.within h p edit body .pure).runTo env bound depth w =
            Run.ended (·.mark h false) ((body bytes).runTo env bound depth v) ∧
          Inside env uses (left.mark h false) ∧
          ∀ {β : Type} (r : Request β),
            Run.use h r (left.mark h false) =
              Run.onAllocator h a (Allocator.perform r) (left.mark h false)

section Calls

variable [DecidableEq η] {env : Environment κ η σ} {uses : List (Handle × Allocator)}
  {w : World κ η σ} {h : Handle} {inst : Instance κ}

theorem Handle.Demands.refused {c : Client κ η σ α} (demands : h.Demands c) (bound depth : Nat)
    {halt : Halt} {v : World κ η σ} (refused : Run.liveInstance h w = .error halt v) :
    c.runTo env bound depth w = .error halt v := by
  obtain ⟨nested, run_eq⟩ := Client.exists_runTo_eq env bound depth
  obtain ⟨f, run⟩ := demands.exists_live env nested bound
  rw [run_eq, run]
  exact Run.bind_of_error refused

theorem Handle.Requests.served {c : Client κ η σ α} (requests : h.Requests c)
    (env : Environment κ η σ) (bound depth : Nat) (absent : h ∉ uses.map Prod.fst)
    (w : World κ η σ) :
    c.runTo env bound depth (w.marked (uses.map Prod.fst)) =
        Run.ended (·.marked (uses.map Prod.fst)) (c.runTo env bound depth (w.marked [])) ∧
      ∀ panic v, c.runTo env bound depth (w.marked (uses.map Prod.fst)) =
        .error (.unwound panic) v → panic.isReentry = false := by
  obtain ⟨nested, run_eq⟩ := Client.exists_runTo_eq env bound depth
  obtain ⟨β, r, f, run⟩ := requests.exists_use env nested bound
  obtain ⟨same, unaware⟩ := Run.use_marked (w := w) r absent
  rw [run_eq, run]
  cases alone : Run.use h r (w.marked []) with
  | ok b v =>
    rw [alone] at same
    rw [Run.bind_of_ok same, Run.bind_of_ok alone]
    refine ⟨rfl, fun panic v raised => ?_⟩
    cases raised
  | error halt v =>
    rw [alone] at same
    rw [Run.bind_of_error same, Run.bind_of_error alone]
    refine ⟨rfl, fun panic v raised => ?_⟩
    cases raised
    exact unaware panic _ same

theorem Client.runTo_isDestroyed_of_busy (here : w.instances[h.number]? = some inst)
    (busy : inst.busy = true) (bound depth : Nat) :
    (Client.ask (.isDestroyed h)).runTo env bound depth w = .ok false w := by
  obtain ⟨nested, run_eq⟩ := Client.exists_runTo_eq env bound depth
  have answered : Run.isDestroyed h w = .ok false w := by
    rw [Run.isDestroyed, Run.bind_of_ok (Run.instanceOf_of_some here), busy]
    rfl
  rw [run_eq, Client.runWith_ask]
  exact answered

theorem Client.runTo_within (h : Handle) (p : Ptr) (edit : ByteArray → ByteArray)
    (body : ByteArray → Client κ η σ α) (bound depth : Nat) (w : World κ η σ) :
    (Client.within h p edit body .pure).runTo env bound depth w =
      match Run.opening h p edit w with
      | .ok bytes v => Run.ended (·.mark h false) ((body bytes).runTo env bound depth v)
      | .error halt v => .error halt v := by
  obtain ⟨nested, run_eq⟩ := Client.exists_runTo_eq env bound depth
  have whole : (Client.within h p edit body .pure).runWith env nested bound =
      Run.within h p edit fun bytes => (body bytes).runWith env nested bound := by
    rw [Client.runWith]
    exact bind_pure _
  rw [run_eq, whole, Run.within_eq]
  cases Run.opening h p edit w with
  | ok bytes v =>
    dsimp only
    rw [run_eq]
  | error halt v => rfl

/-- Whatever is in use in a state, whatever ran inside the uses, and however it ended. -/
theorem Inside.detects_reentry (inside : Inside env uses w) : DetectsReentry env uses w where
  apart := inside.holds.apart
  live h a mem := by
    obtain ⟨inst, here, busy, state⟩ := (inside.holds.exact h (some a)).mpr ⟨a, rfl, mem⟩
    exact ⟨⟨inst, here, state⟩, Client.runTo_isDestroyed_of_busy here busy⟩
  refused h inst here used _ c demands bound depth := by
    have busy := (inside.holds.busy_iff here).mpr used
    exact demands.refused bound depth (Run.liveInstance_of_busy here busy)
  served h absent _ c requests bound depth := by
    have served := requests.served env bound depth absent w
    rw [inside.holds.marked] at served
    refine ⟨served.1, fun id v raised => ?_⟩
    have known := served.2 _ v raised
    cases known
  opened h absent p edit := by
    have opened := Run.opening_marked (w := w) p edit absent
    rw [inside.holds.marked] at opened
    refine ⟨opened.1, fun id v raised => ?_⟩
    have known := opened.2 _ v raised
    cases known
  destroyed h inst here state _ c demands bound depth := by
    have idle : inst.busy = false := by
      cases busy : inst.busy with
      | false => rfl
      | true =>
        -- an instance in use has an allocator
        obtain ⟨a, some_state, -⟩ := (inside.holds.exact h none).mp ⟨inst, here, busy, state⟩
        cases some_state
    exact demands.refused bound depth (Run.liveInstance_of_destroyed here idle state)
  released h p edit bytes v opened := by
    obtain ⟨inst, a, here, -, instances⟩ := Run.exists_of_opening opened
    have here' : v.instances[h.number]? = some { inst with busy := true, state := some a } := by
      rw [instances, Array.getElem?_modify, if_pos rfl, here]
      rfl
    have inUse : v.InUse h (some a) := ⟨_, here', rfl, rfl⟩
    have entered := inside.enter opened inUse
    refine ⟨a, inUse, entered, fun body bound depth => ?_⟩
    have ran := entered.step (body bytes) bound depth
    obtain ⟨inst', here, busy, state⟩ :=
      (ran.holds.exact h (some a)).mpr ⟨a, rfl, List.mem_cons_self⟩
    have after : ((((body bytes).runTo env bound depth).leaves v).mark h false).instances[h.number]? =
        some { inst' with busy := false } := by
      rw [World.getElem?_mark, if_pos rfl, here]
      rfl
    refine ⟨?_, ran.leave, Run.use_of_live after state rfl⟩
    rw [Client.runTo_within, opened]

end Calls

/-- Whether a computation returns. -/
def Run.returns (x : Run κ η σ α) (w : World κ η σ) : Bool :=
  match x w with
  | .ok _ _ => true
  | .error _ _ => false

theorem Run.exists_of_returns {x : Run κ η σ α} {w : World κ η σ} (returns : x.returns w = true) :
    ∃ a, x w = .ok a (x.leaves w) := by
  cases run : x w with
  | ok a v => exact ⟨a, by rw [leaves_of_ok run]⟩
  | error halt v =>
    rw [Run.returns, run] at returns
    cases returns

def firstBlock : Ptr := Heap.handle 0 0

/-- Two instances, with a block each. -/
def pair : World Unit Unit Unit :=
  ((do
    let _ ← Client.ask (.build ())
    let _ ← Client.ask (.build ())
    let _ ← Client.ask (.use ⟨0⟩ (.grab 8))
    let _ ← Client.ask (.use ⟨1⟩ (.grab 8)) : Client Unit Unit Unit Unit).run heaps).leaves
    (World.start ⟨"default", ()⟩ false ())

/-- Inside the use of the one, a program calls it, which is refused. -/
def pairOpened : World Unit Unit Unit :=
  ((Client.caught (Handle.allocate ⟨0⟩ 8)).run heaps).leaves
    ((Run.opening ⟨0⟩ firstBlock id).leaves pair)

/-- And then it uses the other. -/
def pairNested : World Unit Unit Unit := (Run.opening ⟨1⟩ firstBlock id).leaves pairOpened

theorem pairNested_detects_reentry :
    ∃ uses, Inside heaps uses pairNested ∧ DetectsReentry heaps uses pairNested ∧
      uses.map Prod.fst = [⟨1⟩, ⟨0⟩] ∧ pairNested.journal.toList.getLast? =
        some (.reentry ⟨"system"⟩) := by
  have start : Inside heaps [] pair := .step _ runLimit runLimit (.start _ _ _)
  have first : (Run.opening ⟨0⟩ firstBlock id).returns pair = true := by decide +kernel
  have second : (Run.opening ⟨1⟩ firstBlock id).returns pairOpened = true := by decide +kernel
  obtain ⟨bytes, opened⟩ := Run.exists_of_returns first
  obtain ⟨a, -, entered, -⟩ := start.detects_reentry.released _ _ _ _ _ opened
  have inside : Inside heaps [(⟨0⟩, a)] pairOpened := entered.step _ runLimit runLimit
  obtain ⟨bytes', opened'⟩ := Run.exists_of_returns second
  obtain ⟨a', -, entered', -⟩ := inside.detects_reentry.released _ _ _ _ _ opened'
  exact ⟨_, entered', entered'.detects_reentry, rfl, by decide +kernel⟩

end MemoryTrial
