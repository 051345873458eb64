import MemoryTrial.Proofs.World.Creations

/-! What a program can reach.  A look-up goes one of a few ways, and a program that looks up some kinds
only, whose creations and teardowns do the same, runs as if there were no other kinds
(`Client.runTo_congr`). -/

namespace MemoryTrial

variable {κ η σ α β : Type}

section LookUps

variable [DecidableEq η]

namespace Run

variable {env : Environment κ η σ} {nested : Nested κ η σ} {k : κ} {w v u : World κ η σ}
  {h : Handle} {built : Built} {sources : List Handle} {halt : Halt}

omit [DecidableEq η] in
theorem create_of_built {shared : Bool}
    (creation : obtaining (nested (env.kind k).create) v = .ok (.ok built, sources) u) :
    create env nested k shared v =
      .ok (.ok ⟨u.instances.size⟩) (u.enroll (env.newInstance k built sources shared)) :=
  bind_of_ok creation

/-- A cached instance is the answer. -/
theorem lookUp_of_found (reached : reachRegistry w = .ok () v)
    (found : v.cache.lookup (env.kind k).id = some h) :
    lookUp env nested k w = .ok (.ok h) { v with obtained := h :: v.obtained } := by
  rw [lookUp, bind_of_ok reached, bind_of_ok (get_run v)]
  simp only [found]
  rfl

section Absent

variable (reached : reachRegistry w = .ok () v)
  (absent : v.cache.lookup (env.kind k).id = none)
include reached absent

theorem lookUp_of_halted
    (creation : obtaining (nested (env.kind k).create) v = .error halt u) :
    lookUp env nested k w = .error halt u := by
  rw [lookUp, bind_of_ok reached, bind_of_ok (get_run v)]
  simp only [absent]
  have halted : create env nested k true v = .error halt u := bind_of_error creation
  exact bind_of_error halted

theorem lookUp_of_failed {e : ConfigError}
    (creation : obtaining (nested (env.kind k).create) v = .ok (.error e, sources) u) :
    lookUp env nested k w = .ok (.error e) u := by
  rw [lookUp, bind_of_ok reached, bind_of_ok (get_run v)]
  simp only [absent]
  have failed : create env nested k true v = .ok (.error e) u := bind_of_ok creation
  rw [bind_of_ok failed]
  rfl

variable (creation : obtaining (nested (env.kind k).create) v = .ok (.ok built, sources) u)
include creation

/-- The new instance is cached, as nothing was cached for its id meanwhile. -/
theorem lookUp_of_inserted (absent' : u.cache.lookup (env.kind k).id = none) :
    lookUp env nested k w = .ok (.ok ⟨u.instances.size⟩)
      { u.enroll (env.newInstance k built sources true) with
        cache := u.cache ++ [((env.kind k).id, ⟨u.instances.size⟩)]
        obtained := ⟨u.instances.size⟩ :: u.obtained } := by
  rw [lookUp, bind_of_ok reached, bind_of_ok (get_run v)]
  simp only [absent]
  rw [bind_of_ok (create_of_built creation)]
  dsimp only
  rw [bind_of_ok (get_run _)]
  simp only [World.enroll, absent']
  rfl

/-- The creation looked up its own kind: the new instance is destroyed, and the other one is the
answer. -/
theorem lookUp_of_surplus (found : u.cache.lookup (env.kind k).id = some h) :
    lookUp env nested k w =
      (destroy env nested ⟨u.instances.size⟩ >>= fun _ => obtain h >>= fun h => pure (.ok h))
        (u.enroll (env.newInstance k built sources true)) := by
  rw [lookUp, bind_of_ok reached, bind_of_ok (get_run v)]
  simp only [absent]
  rw [bind_of_ok (create_of_built creation)]
  dsimp only
  rw [bind_of_ok (get_run _)]
  simp only [World.enroll, found]

end Absent

/-- The ways in which a look-up of `k` can go that has reached the registry in `v`. -/
inductive LookedUp (env : Environment κ η σ) (nested : Nested κ η σ) (k : κ) (v : World κ η σ) :
    EStateM.Result Halt (World κ η σ) (Except ConfigError Handle) → Prop
  | found {h : Handle} : v.cache.lookup (env.kind k).id = some h →
    LookedUp env nested k v (.ok (.ok h) { v with obtained := h :: v.obtained })
  | halted {halt : Halt} {u : World κ η σ} : v.cache.lookup (env.kind k).id = none →
    nested (env.kind k).create { v with obtained := [] } = .error halt u →
    LookedUp env nested k v (.error halt { u with obtained := v.obtained })
  | failed {e : ConfigError} {u : World κ η σ} : v.cache.lookup (env.kind k).id = none →
    nested (env.kind k).create { v with obtained := [] } = .ok (.error e) u →
    LookedUp env nested k v (.ok (.error e) { u with obtained := v.obtained })
  | inserted {built : Built} {u : World κ η σ} : v.cache.lookup (env.kind k).id = none →
    nested (env.kind k).create { v with obtained := [] } = .ok (.ok built) u →
    u.cache.lookup (env.kind k).id = none →
    LookedUp env nested k v (.ok (.ok ⟨u.instances.size⟩)
      { u.enroll (env.newInstance k built u.obtained true) with
        cache := u.cache ++ [((env.kind k).id, ⟨u.instances.size⟩)]
        obtained := ⟨u.instances.size⟩ :: v.obtained })
  | surplus {built : Built} {h : Handle} {u x : World κ η σ} :
    v.cache.lookup (env.kind k).id = none →
    nested (env.kind k).create { v with obtained := [] } = .ok (.ok built) u →
    u.cache.lookup (env.kind k).id = some h →
    destroy env nested ⟨u.instances.size⟩ (World.enroll { u with obtained := v.obtained }
      (env.newInstance k built u.obtained true)) = .ok () x →
    LookedUp env nested k v (.ok (.ok h) { x with obtained := h :: x.obtained })
  | discarded {built : Built} {h : Handle} {halt : Halt} {u x : World κ η σ} :
    v.cache.lookup (env.kind k).id = none →
    nested (env.kind k).create { v with obtained := [] } = .ok (.ok built) u →
    u.cache.lookup (env.kind k).id = some h →
    destroy env nested ⟨u.instances.size⟩ (World.enroll { u with obtained := v.obtained }
      (env.newInstance k built u.obtained true)) = .error halt x →
    LookedUp env nested k v (.error halt x)

theorem lookedUp (reached : reachRegistry w = .ok () v) :
    LookedUp env nested k v (lookUp env nested k w) := by
  cases cached : v.cache.lookup (env.kind k).id with
  | some h =>
    rw [lookUp_of_found reached cached]
    exact .found cached
  | none =>
    cases creation : nested (env.kind k).create { v with obtained := [] } with
    | error halt u =>
      rw [lookUp_of_halted reached cached (obtaining_of_error creation)]
      exact .halted cached creation
    | ok answer u =>
      cases answer with
      | error e =>
        rw [lookUp_of_failed reached cached (obtaining_of_ok creation)]
        exact .failed cached creation
      | ok built =>
        cases meanwhile : u.cache.lookup (env.kind k).id with
        | none =>
          rw [lookUp_of_inserted reached cached (obtaining_of_ok creation) meanwhile]
          exact .inserted cached creation meanwhile
        | some h =>
          rw [lookUp_of_surplus reached cached (obtaining_of_ok creation) meanwhile]
          cases destroyed : destroy env nested ⟨u.instances.size⟩
              (World.enroll { u with obtained := v.obtained }
                (env.newInstance k built u.obtained true)) with
          | ok _ x =>
            rw [bind_of_ok destroyed]
            exact .surplus cached creation meanwhile destroyed
          | error halt x =>
            rw [bind_of_error destroyed]
            exact .discarded cached creation meanwhile destroyed

end Run

end LookUps

/-- Calls that destroy nothing, and create instances of some kinds only. -/
def Calls.among (kinds : κ → Prop) : Calls κ η σ
  | _, .lookUp k => kinds k
  | _, .build k => kinds k
  | _, .delete _ => False
  | _, .teardown => False
  | _, .runHooks => False
  | _, _ => True

/-- The creations of some kinds, and the teardowns of their instances, create instances of these kinds
only, and destroy nothing but the instance that is torn down. -/
structure Environment.OrderlyAmong (env : Environment κ η σ) (kinds : κ → Prop) : Prop where
  create : ∀ k, kinds k → (env.kind k).create.Only (Calls.among kinds) (Calls.among kinds)
  close : ∀ k, kinds k → ∀ holdings,
    ((env.kind k).close holdings).Only (Calls.among kinds) (Calls.among kinds)

/-- Two environments have the same kinds, as far as a program can reach them. -/
structure Environment.Agrees (kinds : κ → Prop) (env env' : Environment κ η σ) : Prop where
  kind : ∀ k, kinds k → env'.kind k = env.kind k
  id : ∀ k, (env'.kind k).id = (env.kind k).id
  production : env'.production = env.production

theorem Client.Only.imp {inner outer inner' outer' : Calls κ η σ}
    (hinner : ∀ {β : Type} (c : Call κ η σ β), inner β c → inner' β c)
    (houter : ∀ {β : Type} (c : Call κ η σ β), outer β c → outer' β c) {c : Client κ η σ α}
    (only : c.Only inner outer) : c.Only inner' outer' := by
  induction c generalizing outer outer' with
  | pure a => trivial
  | call c next ih => exact ⟨houter c only.1, fun b => ih b houter (only.2 b)⟩
  | replay body next ihb ih => exact ⟨ihb houter only.1, fun o => ih o houter (only.2 o)⟩
  | attempt body next ihb ih => exact ⟨ihb houter only.1, fun r => ih r houter (only.2 r)⟩
  | scope g body next ihb ih => exact ⟨ihb houter only.1, fun b => ih b houter (only.2 b)⟩
  | within h p edit body next ihb ih =>
    exact ⟨fun bytes => ihb bytes hinner (only.1 bytes), fun b => ih b houter (only.2 b)⟩
  | thread inherits body next ihb ih =>
    exact ⟨ihb houter only.1, fun r => ih r houter (only.2 r)⟩

theorem Calls.harmless_of_among {kinds : κ → Prop} (c : Call κ η σ β)
    (among : Calls.among kinds β c) : Calls.harmless True β c := by
  cases c with
  | lookUp k => trivial
  | build k => trivial
  | delete h => exact among
  | teardown => exact among
  | runHooks => exact among
  | _ => trivial

/-- Kinds that cannot be reached can be replaced by ones that do nothing. -/
theorem Environment.OrderlyAmong.exists_orderly {env : Environment κ η σ} {kinds : κ → Prop}
    (orderly : env.OrderlyAmong kinds) : ∃ env', env'.Orderly ∧ env.Agrees kinds env' := by
  classical
  let idle (kind : Kind κ η σ) : Kind κ η σ :=
    { kind with create := .pure (.ok ⟨.empty, []⟩), close := fun _ => .pure () }
  refine ⟨{ env with kind := fun k => if kinds k then env.kind k else idle (env.kind k) },
    ⟨fun k => ?_, fun k holdings => ?_⟩, fun k known => if_pos known, fun k => ?_, rfl⟩
  all_goals
    dsimp only
    split
  · next known =>
    exact (orderly.create k known).imp Calls.harmless_of_among Calls.harmless_of_among
  · trivial
  · next known =>
    exact (orderly.close k known holdings).imp Calls.harmless_of_among Calls.harmless_of_among
  · trivial
  · rfl
  · rfl

section Congruence

variable {env env' : Environment κ η σ} {kinds : κ → Prop} {nested nested' : Nested κ η σ}
  {bound : Nat} {k : κ} {w : World κ η σ}

section Nested

variable (agrees : env.Agrees kinds env') (orderly : env.OrderlyAmong kinds)
  (same : ∀ {β : Type} {c : Client κ η σ β}, c.Only (Calls.among kinds) (Calls.among kinds) →
    nested' c = nested c)
include agrees orderly same

namespace Run

theorem create_congr (known : kinds k) (shared : Bool) :
    create env' nested' k shared = create env nested k shared := by
  rw [create, create, agrees.kind k known, same (orderly.create k known)]

theorem tearDown_congr {inst : Instance κ} (known : kinds inst.kind) (a : Allocator) :
    tearDown env' nested' inst a = tearDown env nested inst a := by
  rw [tearDown, tearDown, agrees.kind _ known, same (orderly.close _ known _)]

theorem destroy_congr {h : Handle} {inst : Instance κ} (here : w.instances[h.number]? = some inst)
    (known : kinds inst.kind) : destroy env' nested' h w = destroy env nested h w := by
  rw [destroy, destroy, bind_of_ok (instanceOf_of_some here), bind_of_ok (instanceOf_of_some here)]
  simp only [tearDown_congr agrees orderly same known]

variable [DecidableEq η]

theorem lookUp_congr (known : kinds k) : lookUp env' nested' k = lookUp env nested k := by
  have created := create_congr agrees orderly same known true
  have kind := agrees.kind k known
  funext w
  obtain ⟨hooks, teardownHooked, reached⟩ := reachRegistry_eq w
  obtain ⟨v, hv⟩ : ∃ v : World κ η σ, v = { w with hooks, teardownHooked } := ⟨_, rfl⟩
  rw [← hv] at reached
  cases found : v.cache.lookup (env.kind k).id with
  | some h =>
    rw [lookUp_of_found reached found, lookUp_of_found reached (by rw [kind]; exact found)]
  | none =>
    have absent : v.cache.lookup (env'.kind k).id = none := by rw [kind]; exact found
    have creates : obtaining (nested' (env'.kind k).create) =
        obtaining (nested (env.kind k).create) := by
      rw [kind, same (orderly.create k known)]
    cases creation : obtaining (nested (env.kind k).create) v with
    | error halt u =>
      rw [lookUp_of_halted reached found creation,
        lookUp_of_halted reached absent ((congrFun creates v).trans creation)]
    | ok answer u =>
      obtain ⟨built, sources⟩ := answer
      have creation' := (congrFun creates v).trans creation
      cases built with
      | error e =>
        rw [lookUp_of_failed reached found creation, lookUp_of_failed reached absent creation']
      | ok built =>
        have new : env'.newInstance k built sources true = env.newInstance k built sources true := by
          rw [Environment.newInstance, Environment.newInstance, kind]
        cases meanwhile : u.cache.lookup (env.kind k).id with
        | none =>
          rw [lookUp_of_inserted reached found creation meanwhile,
            lookUp_of_inserted reached absent creation' (by rw [kind]; exact meanwhile), new, kind]
        | some h =>
          rw [lookUp_of_surplus reached found creation meanwhile,
            lookUp_of_surplus reached absent creation' (by rw [kind]; exact meanwhile), new]
          -- the instance that is destroyed is one of the same kind
          have here : (u.enroll (env.newInstance k built sources true)).instances[u.instances.size]? =
              some (env.newInstance k built sources true) := by simp [World.enroll]
          have destroyed := destroy_congr agrees orderly same
            (h := ⟨u.instances.size⟩) here known
          cases ends : destroy env nested ⟨u.instances.size⟩
              (u.enroll (env.newInstance k built sources true)) with
          | ok _ x => rw [bind_of_ok ends, bind_of_ok (destroyed.trans ends)]
          | error halt x => rw [bind_of_error ends, bind_of_error (destroyed.trans ends)]

end Run

variable [DecidableEq η]

theorem Call.run_congr {c : Call κ η σ β} (among : Calls.among kinds β c) :
    c.run env' nested' bound = c.run env nested bound := by
  cases c with
  | lookUp k =>
    exact congrArg (Run.during (.lookUp k)) (Run.lookUp_congr agrees orderly same among)
  | build k =>
    have built : Run.build env' nested' k = Run.build env nested k := by
      rw [Run.build, Run.build, Run.create_congr agrees orderly same among]
    exact congrArg (Run.during (.build k)) built
  | delete h => exact among.elim
  | teardown => exact among.elim
  | runHooks => exact among.elim
  | _ => rfl

theorem Client.runWith_congr {c : Client κ η σ α}
    (among : c.Only (Calls.among kinds) (Calls.among kinds)) :
    c.runWith env' nested' bound = c.runWith env nested bound := by
  induction c with
  | pure a => rw [runWith, runWith]
  | call c next ih =>
    simp only [runWith, Call.run_congr agrees orderly same among.1, fun b => ih b (among.2 b)]
  | replay body next ihb ih =>
    simp only [runWith, ihb among.1, fun o => ih o (among.2 o)]
  | attempt body next ihb ih =>
    simp only [runWith, ihb among.1, fun r => ih r (among.2 r)]
  | scope g body next ihb ih =>
    simp only [runWith, ihb among.1, fun b => ih b (among.2 b)]
  | within h p edit body next ihb ih =>
    simp only [runWith, fun bytes => ihb bytes (among.1 bytes), fun b => ih b (among.2 b)]
  | thread inherits body next ihb ih =>
    simp only [runWith, agrees.production, ihb among.1, fun r => ih r (among.2 r)]

end Nested

variable [DecidableEq η]

/-- Kinds that a program does not reach do not matter to it. -/
theorem Client.runTo_congr (agrees : env.Agrees kinds env') (orderly : env.OrderlyAmong kinds)
    (depth : Nat) {c : Client κ η σ α} (among : c.Only (Calls.among kinds) (Calls.among kinds)) :
    c.runTo env' bound depth = c.runTo env bound depth := by
  induction depth generalizing α with
  | zero => exact runWith_congr agrees orderly (fun _ => rfl) among
  | succ depth ih => exact runWith_congr agrees orderly (fun only => ih only) among

end Congruence

end MemoryTrial
