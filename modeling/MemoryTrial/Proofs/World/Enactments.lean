import MemoryTrial.Proofs.World.Creations

/-! What the record of a teardown stands for.  A destruction takes the allocator out of an instance, runs
the program of its kind and, when that has returned, tears the allocator down (`World.Destruction`).
Whatever programs do, an entry about the beginning of a teardown is the beginning of one destruction
(`Client.respects_enacting`, `Visited.enacts`). -/

namespace MemoryTrial

variable {κ η σ α β : Type}

/-- An instance that can be destroyed: it has the allocator `a`, and is not in use. -/
structure World.Usable (u : World κ η σ) (h : Handle) (inst : Instance κ) (a : Allocator) : Prop where
  here : u.instances[h.number]? = some inst
  state : inst.state = some a
  idle : inst.busy = false

/-- The state in which the teardown of an instance of the kind `k` begins, without the allocator. -/
def World.tearing (u : World κ η σ) (h : Handle) (k : κ) : World κ η σ :=
  { u with
    instances := u.instances.modify h.number fun inst => { inst with state := none }
    obtained := []
    tasks := ⟨.teardown h k :: u.tasks.active, (.teardown h k :: u.tasks.active) :: u.tasks.begun⟩
    journal := u.journal.push (.tornDown h) }

/-- The end of a teardown that began in `u`, when its program left `v` and `entries` were written after
that. -/
def World.torn (u v : World κ η σ) (h : Handle) (entries : List Entry) : World κ η σ :=
  { v with
    obtained := u.obtained
    tasks := ⟨u.tasks.active, v.tasks.begun⟩
    journal := (entries ++ [Entry.closed h]).foldl Array.push v.journal }

/-- The destruction of an instance with the allocator `a`.  The program of its kind is run, and when it
has returned the allocator is torn down. -/
inductive World.Destruction (env : Environment κ η σ) (nested : Nested κ η σ) (h : Handle)
    (inst : Instance κ) (a : Allocator) (u : World κ η σ) : World κ η σ → Prop
  | halted {halt : Halt} {v : World κ η σ} :
    nested ((env.kind inst.kind).close inst.holdings) (u.tearing h inst.kind) = .error halt v →
    Destruction env nested h inst a u (u.torn v h [])
  | completed {v : World κ η σ} {a' : Allocator} {records : List Record} :
    nested ((env.kind inst.kind).close inst.holdings) (u.tearing h inst.kind) = .ok () v →
    a.teardown = ⟨.ok (), a', records⟩ →
    Destruction env nested h inst a u
      (u.torn v h (records.map Entry.record ++ [.record (.instanceDestroyed inst.name)]))

/-- What can become of an instance: its allocator changes or is lost, and it comes into use and out of
it. -/
structure Instance.Became (inst last : Instance κ) : Prop where
  same : last = { inst with state := last.state, busy := last.busy }
  dead : inst.state = none → last.state = none

/-- From one state to the other the journal grows, and no instance is replaced. -/
structure World.Continues (w w' : World κ η σ) : Prop where
  journal : w.journal.toList <+: w'.journal.toList
  instances : ∀ (n : Nat) (inst : Instance κ), w.instances[n]? = some inst →
    ∃ last, w'.instances[n]? = some last ∧ inst.Became last

/-- An entry about the beginning of a teardown, which comes after the entries in `before`, is where an
instance was destroyed: what is on record from there on is what that destruction wrote. -/
def World.Enacted [DecidableEq η] (env : Environment κ η σ) (bound : Nat) (w : World κ η σ)
    (before : List Entry) (h : Handle) : Prop :=
  ∃ (depth : Nat) (inst : Instance κ) (a : Allocator) (u u' : World κ η σ),
    u.journal.toList = before ∧ u.Usable h inst a ∧
      u.Destruction env (env.below bound depth) h inst a u' ∧ u'.Continues w

/-- The teardowns that are on record, but for the first `past` entries, were carried out. -/
structure World.Enacts [DecidableEq η] (env : Environment κ η σ) (bound past : Nat)
    (w : World κ η σ) : Prop where
  enacted : ∀ before h after, w.journal.toList = before ++ .tornDown h :: after →
    past ≤ before.length → w.Enacted env bound before h
  /-- Wherever an instance is to be destroyed that can be, it is. -/
  destroys : ∀ (depth : Nat) (u : World κ η σ) (h : Handle) (inst : Instance κ) (a : Allocator),
    u.Usable h inst a → u.Destruction env (env.below bound depth) h inst a
      ((Run.destroy env (env.below bound depth) h).leaves u)
  /-- Nothing is done with an instance that cannot be destroyed. -/
  spares : ∀ (depth : Nat) (u : World κ η σ) (h : Handle), (∀ inst a, ¬u.Usable h inst a) →
    Still u ((Run.destroy env (env.below bound depth) h).leaves u)

namespace Instance.Became

theorem refl (inst : Instance κ) : inst.Became inst := ⟨rfl, fun dead => dead⟩

theorem trans {inst inst' last : Instance κ} (first : inst.Became inst') (second : inst'.Became last) :
    inst.Became last := by
  refine ⟨?_, second.dead ∘ first.dead⟩
  rw [second.same, first.same]

end Instance.Became

namespace World.Continues

variable {w w' w'' : World κ η σ}

theorem refl (w : World κ η σ) : w.Continues w :=
  ⟨List.prefix_rfl, fun _ inst here => ⟨inst, here, .refl inst⟩⟩

theorem trans (first : w.Continues w') (second : w'.Continues w'') : w.Continues w'' := by
  refine ⟨first.journal.trans second.journal, fun n inst here => ?_⟩
  obtain ⟨inst', here', became⟩ := first.instances n inst here
  obtain ⟨last, there, became'⟩ := second.instances n inst' here'
  exact ⟨last, there, became.trans became'⟩

/-- Something is written, and no instance is changed. -/
theorem of_written (entries : List Entry) (instances : w'.instances = w.instances)
    (journal : w'.journal = entries.foldl Array.push w.journal) : w.Continues w' := by
  refine ⟨?_, fun n inst here => ⟨inst, instances ▸ here, .refl inst⟩⟩
  rw [journal, List.foldl_push_eq_append', Array.toList_append]
  exact List.prefix_append _ _

/-- An instance is changed as an instance can be. -/
theorem of_modify {h : Handle} {f : Instance κ → Instance κ}
    (became : ∀ inst, w.instances[h.number]? = some inst → inst.Became (f inst))
    (instances : w'.instances = w.instances.modify h.number f)
    (journal : w.journal.toList <+: w'.journal.toList) : w.Continues w' := by
  refine ⟨journal, fun n inst here => ?_⟩
  rw [instances, Array.getElem?_modify, here]
  split
  next same =>
    subst same
    exact ⟨f inst, rfl, became inst here⟩
  next => exact ⟨inst, rfl, .refl inst⟩

end World.Continues

theorem Arena.teardown_returns (a : Arena) : (teardown a).value = .ok () := by
  have asked : Op.read Arena.live a = ⟨.ok a.live, a, []⟩ := rfl
  rw [teardown, Op.bind_of_ok asked]
  cases a.live <;> rfl

theorem Heap.teardown_returns (h : Heap) : (teardown h).value = .ok () := by
  have asked : Op.read Heap.live h = ⟨.ok h.live, h, []⟩ := rfl
  rw [teardown, Op.bind_of_ok asked]
  by_cases none : h.live ≠ 0
  · rw [if_pos none]
    rfl
  · rw [if_neg none]
    rfl

theorem Allocator.teardown_returns (a : Allocator) :
    a.teardown = ⟨.ok (), a.teardown.state, a.teardown.records⟩ := by
  have value : a.teardown.value = .ok () := by
    cases a with
    | arena b | flaky b => exact b.teardown_returns
    | heap h => exact h.teardown_returns
    | faulty f => exact f.heap.teardown_returns
  rw [← value]

namespace Run

variable {env : Environment κ η σ} {nested : Nested κ η σ} {u : World κ η σ} {h : Handle}
  {inst : Instance κ} {a : Allocator}

theorem destruction_of_usable (usable : u.Usable h inst a) :
    u.Destruction env nested h inst a ((destroy env nested h).leaves u) := by
  rw [leaves_destroy usable.here usable.state usable.idle, leaves_during]
  let begun : World κ η σ := World.begin { u with
    instances := u.instances.modify h.number fun inst => { inst with state := none }
    journal := u.journal.push (.tornDown h) } (.teardown h inst.kind)
  cases closed : nested ((env.kind inst.kind).close inst.holdings) (u.tearing h inst.kind) with
  | error halt v =>
    have halted : (tearDown env nested inst a).leaves begun = { v with obtained := u.obtained } :=
      leaves_of_error (bind_of_error (obtaining_of_error (w := begun) closed))
    have ends : u.Destruction env nested h inst a (u.torn v h []) := .halted closed
    rw [halted]
    exact ends
  | ok x v =>
    have torn : compute (fun _ => ⟨a.teardown.value, (), a.teardown.records⟩)
        { v with obtained := u.obtained } = .ok () { v with
          obtained := u.obtained
          journal := (a.teardown.records.map Entry.record).foldl Array.push v.journal } := by
      rw [a.teardown_returns]
      rfl
    have completed : tearDown env nested inst a begun = .ok () { v with
        obtained := u.obtained
        journal := ((a.teardown.records.map Entry.record).foldl Array.push v.journal).push
          (.record (.instanceDestroyed inst.name)) } := by
      rw [tearDown, bind_of_ok (obtaining_of_ok (w := begun) closed)]
      exact bind_of_ok torn
    rw [leaves_of_ok completed]
    have ends := World.Destruction.completed closed a.teardown_returns
    rw [World.torn, List.append_assoc, List.foldl_append] at ends
    exact ends

end Run

section Effect

variable [DecidableEq η] {env : Environment κ η σ} {bound depth past : Nat} {w w' w'' : World κ η σ}

theorem World.Enacted.later {before : List Entry} {h : Handle} (enacted : w.Enacted env bound before h)
    (continues : w.Continues w') : w'.Enacted env bound before h := by
  obtain ⟨depth, inst, a, u, u', same, usable, destruction, earlier⟩ := enacted
  exact ⟨depth, inst, a, u, u', same, usable, destruction, earlier.trans continues⟩

/-- The effect of what carries out the teardowns that it puts on record. -/
def enacting (env : Environment κ η σ) (bound : Nat) : Effect κ η σ where
  Allows w w' := w.Continues w' ∧ ∀ before h after,
    w'.journal.toList = before ++ .tornDown h :: after → w.journal.toList.length ≤ before.length →
    w'.Enacted env bound before h
  refl w := by
    refine ⟨.refl w, fun before h after whole late => ?_⟩
    have longer := congrArg List.length whole
    simp only [List.length_append, List.length_cons] at longer
    omega
  trans {w w' w''} first second := by
    refine ⟨first.1.trans second.1, fun before h after whole late => ?_⟩
    by_cases later : w'.journal.toList.length ≤ before.length
    · exact second.2 before h after whole later
    · -- the entry was on record already
      obtain ⟨more, longer⟩ := second.1.journal
      rw [← longer] at whole
      rcases List.append_eq_append_iff.mp whole with ⟨entries, rfl, -⟩ | ⟨entries, own, rest⟩
      · simp at later
      · cases entries with
        | nil => simp [own] at later
        | cons entry entries =>
          obtain ⟨rfl, -⟩ := List.cons.inj rest
          exact (first.2 before h entries own late).later second.1

/-- What puts no teardown on record. -/
theorem enacting_of_unmarked (entries : List Entry) (continues : w.Continues w')
    (journal : w'.journal = entries.foldl Array.push w.journal)
    (unmarked : ∀ h, Entry.tornDown h ∉ entries) : (enacting env bound).Allows w w' := by
  refine ⟨continues, fun before h after whole late => absurd ?_ (unmarked h)⟩
  have told : w'.journal.toList = w.journal.toList ++ entries := by
    rw [journal, List.foldl_push_eq_append', Array.toList_append]
  rw [told] at whole
  rcases List.append_eq_append_iff.mp whole with ⟨earlier, -, rest⟩ | ⟨later, own, rest⟩
  · rw [rest]
    exact List.mem_append_right earlier List.mem_cons_self
  · cases later with
    | nil =>
      rw [List.nil_append] at rest
      rw [← rest]
      exact List.mem_cons_self
    | cons entry later =>
      rw [own, List.length_append, List.length_cons] at late
      omega

theorem enacting_of_same (instances : w'.instances = w.instances) (journal : w'.journal = w.journal) :
    (enacting env bound).Allows w w' :=
  enacting_of_unmarked [] (.of_written [] instances journal) journal fun _ => List.not_mem_nil

theorem enacting_lenient : (enacting env bound).Lenient := by
  intro w w' tidy
  obtain ⟨entries, journal, unmarked⟩ := tidy.journal
  exact enacting_of_unmarked entries (.of_written entries tidy.instances journal) journal unmarked

/-- What changes an instance as an instance can be. -/
theorem enacting_modify {h : Handle} {f : Instance κ → Instance κ}
    (became : ∀ inst, w.instances[h.number]? = some inst → inst.Became (f inst)) :
    (enacting env bound).Allows w { w with instances := w.instances.modify h.number f } :=
  enacting_of_unmarked [] (.of_modify became rfl List.prefix_rfl) rfl fun _ => List.not_mem_nil

theorem enacting_memoryless : (enacting env bound).Memoryless := by
  intro w h inst a a' here state
  refine enacting_modify fun inst' here' => ⟨rfl, fun dead => ?_⟩
  rw [here] at here'
  cases here'
  cases state.symm.trans dead

theorem enacting_mark (w : World κ η σ) (h : Handle) (busy : Bool) :
    (enacting env bound).Allows w { w with
      instances := w.instances.modify h.number fun inst => { inst with busy } } :=
  enacting_modify fun _ _ => ⟨rfl, fun dead => dead⟩

theorem enacting_outer : (enacting env bound).Outer where
  plain := enacting_lenient.plain
  frame w _ := enacting_of_same rfl rfl
  state w h inst a a' here state _ := enacting_memoryless w h inst a a' here state
  denied w h _ _ _ := enacting_lenient w _ ⟨rfl, rfl, rfl, .refl _, [.denied h], rfl, by simp⟩

theorem enacting_enroll (w : World κ η σ) (inst : Instance κ) :
    (enacting env bound).Allows w (w.enroll inst) := by
  refine enacting_of_unmarked [.record (.instanceCreated inst.name)]
    ⟨?_, fun n old here => ⟨old, ?_, .refl old⟩⟩ rfl (by simp)
  · simp [World.enroll]
  · obtain ⟨inside, -⟩ := Array.getElem?_eq_some_iff.mp here
    rw [World.enroll, Array.getElem?_push_lt inside, ← here, Array.getElem?_eq_getElem inside]

/-- A destruction is on record at its beginning, and then what its program puts on record. -/
theorem World.Destruction.allowed {u u' : World κ η σ} {h : Handle} {inst : Instance κ} {a : Allocator}
    (destruction : u.Destruction env (env.below bound depth) h inst a u') (usable : u.Usable h inst a)
    (closes : (env.below bound depth ((env.kind inst.kind).close inst.holdings)).Respects
      (enacting env bound)) : (enacting env bound).Allows u u' := by
  have ran := closes (u.tearing h inst.kind)
  obtain ⟨v, entries, left, unmarked, allowed⟩ : ∃ v entries, u' = u.torn v h entries ∧
      (∀ h', Entry.tornDown h' ∉ entries) ∧ (enacting env bound).Allows (u.tearing h inst.kind) v := by
    cases destruction with
    | halted closed =>
      rw [Run.leaves_of_error closed] at ran
      exact ⟨_, [], rfl, fun _ => List.not_mem_nil, ran⟩
    | completed closed =>
      rw [Run.leaves_of_ok closed] at ran
      exact ⟨_, _, rfl, by simp, ran⟩
  have ended : (enacting env bound).Allows v u' := by
    rw [left]
    exact enacting_of_unmarked _ (.of_written _ rfl rfl) rfl (by simpa using unmarked)
  have inside := (enacting env bound).trans allowed ended
  have begun : (u.tearing h inst.kind).journal.toList = u.journal.toList ++ [.tornDown h] := by
    simp [World.tearing]
  have continues : u.Continues (u.tearing h inst.kind) := by
    refine .of_modify (h := h) (f := fun inst => { inst with state := none })
      (fun _ _ => ⟨rfl, fun _ => rfl⟩) rfl ?_
    rw [begun]
    exact List.prefix_append _ _
  refine ⟨continues.trans inside.1, fun before h' after whole late => ?_⟩
  rcases Nat.lt_or_eq_of_le late with later | first
  · refine inside.2 before h' after whole ?_
    rw [begun, List.length_append, List.length_singleton]
    exact later
  · -- this is the entry about the beginning
    obtain ⟨more, longer⟩ := inside.1.journal
    rw [begun, List.append_assoc, whole] at longer
    obtain ⟨same, rest⟩ := List.append_inj longer first
    cases rest
    exact ⟨depth, inst, a, u, u', same, usable, destruction, .refl u'⟩

end Effect

namespace Run

variable {env : Environment κ η σ} {bound depth : Nat} [DecidableEq η]
  (closes : ∀ k holdings,
    (env.below bound depth ((env.kind k).close holdings)).Respects (enacting env bound))
include closes

theorem enacting_destroy (h : Handle) :
    (destroy env (env.below bound depth) h).Respects (enacting env bound) := by
  intro w
  rcases destroy_cases env (env.below bound depth) h w with ⟨nothing, -⟩ | ⟨inst, a, here, state, idle⟩
  · exact enacting_lenient _ _ nothing.tidy
  · have usable : w.Usable h inst a := ⟨here, state, idle⟩
    exact (destruction_of_usable usable).allowed usable (closes _ _)

theorem enacting_drainCache (rounds : Nat) :
    (drainCache env (env.below bound depth) rounds).Respects (enacting env bound) := by
  refine Effect.drainCache (fun w _ newest _ => ?_) rounds
  have popped : (enacting env bound).Allows w { w with cache := w.cache.dropLast } :=
    enacting_of_same rfl rfl
  exact (enacting env bound).trans popped (enacting_destroy closes newest _)

theorem enacting_call (creates : ∀ k, (env.below bound depth (env.kind k).create).Respects
      (enacting env bound))
    (hooks : ∀ hook, (env.below bound depth (env.hook hook)).Respects (enacting env bound))
    (c : Call κ η σ β) : (c.run env (env.below bound depth) bound).Respects (enacting env bound) := by
  have lenient : (enacting env bound).Lenient := enacting_lenient
  cases c with
  | lookUp k =>
    refine lenient.during _ (lenient.lookUp k (creates k) (fun v built sources => ?_)
      fun v built sources _ => ?_)
    · exact (enacting env bound).trans (enacting_enroll v _) (enacting_destroy closes _ _)
    · exact (enacting env bound).trans (enacting_enroll v _) (enacting_of_same rfl rfl)
  | build k =>
    exact lenient.during _ (lenient.build k (creates k) fun v _ _ => enacting_enroll v _)
  | delete h =>
    refine lenient.delete h fun w h inst _ => ?_
    refine (enacting env bound).trans ?_ (enacting_destroy closes h _)
    split
    · exact enacting_of_same rfl rfl
    · exact (enacting env bound).refl w
  | teardown =>
    exact respects_bind (lenient.of_still still_reachRegistry) fun _ =>
      enacting_drainCache closes bound
  | runHooks =>
    exact lenient.plain.drainHooks (fun _ _ => enacting_of_same rfl rfl)
      (enacting_drainCache closes bound) hooks bound
  | _ => exact enacting_outer.call trivial

end Run

/-- The states of a process: at its start, after any program, and inside a program, while payloads are
in use or a replay, a scope or a thread is under way. -/
inductive Visited [DecidableEq η] (env : Environment κ η σ) : World κ η σ → Prop
  | start (production : Fixture κ) (hooked : Bool) (client : σ) :
    Visited env (World.start production hooked client)
  | step {α : Type} {w : World κ η σ} (c : Client κ η σ α) :
    Visited env w → Visited env ((c.run env).leaves w)
  | use {w : World κ η σ} (h : Handle) (busy : Bool) :
    Visited env w →
    Visited env { w with instances := w.instances.modify h.number fun inst => { inst with busy } }
  | enter {w : World κ η σ} (frame : Option Frame) (fixture : Fixture κ) :
    Visited env w → Visited env { w with frame, fixture }

section Programs

variable [DecidableEq η] {w : World κ η σ}

theorem Client.below_enacting (env : Environment κ η σ) (bound depth : Nat) (c : Client κ η σ α) :
    (env.below bound depth c).Respects (enacting env bound) := by
  induction depth generalizing α with
  | zero => exact Run.respects_throw _
  | succ depth ih =>
    have outer : (enacting env bound).Outer := enacting_outer
    have covers : Covers env (env.below bound depth) bound (enacting env bound) (enacting env bound)
        Calls.all :=
      ⟨fun c _ => Run.enacting_call (fun _ _ => ih _) (fun _ => ih _) (fun _ => ih _) c,
        fun _ => outer.replay, fun f _ => outer.plain.scope f,
        fun h p edit _ => outer.within enacting_memoryless enacting_mark h p edit,
        fun fixture _ => outer.thread fixture⟩
    change (c.runTo env bound depth).Respects (enacting env bound)
    rw [Client.runTo_eq]
    exact covers.respects_runWith covers c.only_all

/-- Whatever a program does, the teardowns that it puts on record are carried out. -/
theorem Client.respects_enacting (env : Environment κ η σ) (bound depth : Nat) (c : Client κ η σ α) :
    (c.runTo env bound depth).Respects (enacting env bound) :=
  Client.below_enacting env bound (depth + 1) c

theorem World.enacts_of_enacting {env : Environment κ η σ} {bound past : Nat} {w' : World κ η σ}
    (allowed : (enacting env bound).Allows w w') (recent : w.journal.size ≤ past) :
    w'.Enacts env bound past where
  enacted before h after whole late := by
    refine allowed.2 before h after whole ?_
    rw [Array.length_toList]
    exact recent.trans late
  destroys _ _ _ _ _ := Run.destruction_of_usable
  spares depth u h unusable := by
    rcases Run.destroy_cases env (env.below bound depth) h u with
      ⟨nothing, -⟩ | ⟨inst, a, here, state, idle⟩
    · exact nothing
    · exact absurd ⟨here, state, idle⟩ (unusable inst a)

/-- The teardowns of a process that are on record were carried out. -/
theorem Visited.enacts {env : Environment κ η σ} (visited : Visited env w) :
    w.Enacts env runLimit 0 := by
  obtain ⟨v, none, allowed⟩ : ∃ v : World κ η σ, v.journal.size ≤ 0 ∧
      (enacting env runLimit).Allows v w := by
    induction visited with
    | start production hooked client =>
      exact ⟨_, Nat.le_refl _, (enacting env runLimit).refl (World.start production hooked client)⟩
    | step c _ ih =>
      obtain ⟨v, none, allowed⟩ := ih
      exact ⟨v, none, (enacting env runLimit).trans allowed
        (Client.respects_enacting env runLimit runLimit c _)⟩
    | use h busy _ ih =>
      obtain ⟨v, none, allowed⟩ := ih
      exact ⟨v, none, (enacting env runLimit).trans allowed (enacting_mark _ h busy)⟩
    | enter frame fixture _ ih =>
      obtain ⟨v, none, allowed⟩ := ih
      exact ⟨v, none, (enacting env runLimit).trans allowed (enacting_of_same rfl rfl)⟩
  exact World.enacts_of_enacting allowed none

end Programs

end MemoryTrial
