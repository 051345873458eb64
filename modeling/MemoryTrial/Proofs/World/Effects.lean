import MemoryTrial.Proofs.World.Programs

/-! Effects: what a computation may do to the state of a process, whichever way it ends.  An effect
relates the state before to the state after; it is respected by a program when each of its calls
respects it (`Covers.respects_runWith`), so that a fact about all programs is proved call by call. -/

namespace MemoryTrial

variable {κ η σ α β : Type}

/-- A relation between states before and after, which doing nothing and doing one thing after the
other keep. -/
structure Effect (κ η σ : Type) where
  Allows : World κ η σ → World κ η σ → Prop
  refl : ∀ w, Allows w w
  trans : ∀ {w w' w''}, Allows w w' → Allows w' w'' → Allows w w''

/-- What is done leads to a property only from states that have it. -/
def Effect.reflecting (P : World κ η σ → Prop) : Effect κ η σ where
  Allows w w' := P w' → P w
  refl _ := id
  trans first second := fun after => first (second after)

/-- An instance of a kind, as its creation leaves it. -/
def Environment.newInstance (env : Environment κ η σ) (k : κ) (built : Built)
    (sources : List Handle) (shared : Bool) : Instance κ :=
  { kind := k, id := (env.kind k).id, name := (env.kind k).name, state := some built.allocator,
    busy := false, holdings := built.holdings, sources, shared }

def World.enroll (w : World κ η σ) (inst : Instance κ) : World κ η σ :=
  { w with
    instances := w.instances.push inst
    journal := w.journal.push (.record (.instanceCreated inst.name)) }

/-- The state in which an exit hook is run: its start is on record. -/
def World.starting (w : World κ η σ) (entry : HookEntry η) : World κ η σ :=
  { w with
    hooks := w.hooks.note (.started entry)
    journal := w.journal.push (.record (.exitHook entry.priority)) }

theorem modify_id (xs : Array α) (n : Nat) : xs.modify n id = xs := by
  apply Array.toList_inj.mp
  simp

theorem modify_modify (xs : Array α) (n : Nat) (f g : α → α) :
    (xs.modify n f).modify n g = xs.modify n (g ∘ f) := by
  apply Array.toList_inj.mp
  simp only [Array.toList_modify, List.modify_modify_eq]

namespace Run

/-- The state that a computation leaves, however it ends. -/
def leaves (x : Run κ η σ α) (w : World κ η σ) : World κ η σ :=
  match x w with
  | .ok _ w' => w'
  | .error _ w' => w'

def Respects (x : Run κ η σ α) (E : Effect κ η σ) : Prop := ∀ w, E.Allows w (x.leaves w)

variable {E : Effect κ η σ} {x : Run κ η σ α} {f : α → Run κ η σ β} {w w' : World κ η σ}
  {cleanUp : World κ η σ → World κ η σ}

theorem leaves_of_ok {a : α} (h : x w = .ok a w') : x.leaves w = w' := by
  rw [leaves, h]

theorem leaves_of_error {halt : Halt} (h : x w = .error halt w') : x.leaves w = w' := by
  rw [leaves, h]

theorem leaves_congr {y : Run κ η σ α} (h : x w = y w') : x.leaves w = y.leaves w' := by
  rw [leaves, leaves, h]

theorem leaves_bind_of_ok {a : α} (h : x w = .ok a w') : (x >>= f).leaves w = (f a).leaves w' := by
  rw [leaves, bind_of_ok h]
  rfl

theorem leaves_bind_pure (g : α → β) :
    (x >>= fun a => (pure (g a) : Run κ η σ β)).leaves w = x.leaves w := by
  cases h : x w with
  | ok a w' =>
    rw [leaves_bind_of_ok h, leaves_of_ok h]
    rfl
  | error halt w' => rw [leaves_of_error (bind_of_error h), leaves_of_error h]

theorem leaves_ensuring : (ensuring x cleanUp).leaves w = cleanUp (x.leaves w) := by
  unfold leaves ensuring
  cases x w <;> rfl

theorem leaves_obtaining :
    (obtaining x).leaves w =
      { x.leaves { w with obtained := [] } with obtained := w.obtained } := by
  cases h : x { w with obtained := [] } with
  | ok a w' => rw [leaves_of_ok (obtaining_of_ok h), leaves_of_ok h]
  | error halt w' => rw [leaves_of_error (obtaining_of_error h), leaves_of_error h]

theorem leaves_during {task : Task κ} :
    (during task x).leaves w =
      { x.leaves (w.begin task) with
        tasks := ⟨w.tasks.active, (x.leaves (w.begin task)).tasks.begun⟩ } := by
  cases h : x (w.begin task) with
  | ok a w' => rw [leaves_of_ok (during_of_ok h), leaves_of_ok h]
  | error halt w' => rw [leaves_of_error (during_of_error h), leaves_of_error h]

theorem raise_bind (p : Panic) (f : α → Run κ η σ β) : raise p >>= f = raise p := rfl

theorem leaves_attempt : (attempt x).leaves w = x.leaves w := by
  unfold leaves attempt
  cases x w with
  | ok a w' => rfl
  | error halt w' => cases halt <;> rfl

theorem leaves_scope (f : Fixture κ) (x : Run κ η σ α) (w : World κ η σ) :
    (scope f x).leaves w = { x.leaves { w with
        fixture := f, journal := w.journal.push (.record (.fixtureSelected f.name)) } with
      fixture := w.fixture } := by
  rw [leaves_congr (scope_eq f x w), leaves_ensuring]

theorem leaves_thread (fixture : Fixture κ) (x : Run κ η σ α) (w : World κ η σ) :
    (thread fixture x).leaves w = { x.leaves { w with frame := none, fixture } with
      frame := w.frame, fixture := w.fixture } := by
  rw [leaves_congr (thread_eq fixture x w), leaves_ensuring, leaves_attempt]

theorem leaves_replay (body : Run κ η σ Bool) (w : World κ η σ) :
    (replay body).leaves w =
      { (Frame.replay (underFrame body) log).leaves w with frame := w.frame } := by
  rw [replay, leaves_bind_of_ok (get_run w), leaves_ensuring]
  cases h : Frame.replay (underFrame body) log w with
  | ok outcome w' =>
    rw [leaves_bind_of_ok h, leaves_of_ok h]
    cases outcome <;> rfl
  | error halt w' => rw [leaves_of_error (bind_of_error h), leaves_of_error h]

/-- An operation on a part of the state changes that part and the journal. -/
theorem leaves_onPart {τ : Type} (extract : World κ η σ → τ)
    (insert : τ → World κ η σ → World κ η σ) (x : Op τ α) (w : World κ η σ) :
    (onPart extract insert x).leaves w = { insert (x (extract w)).state w with
      journal := ((x (extract w)).records.map Entry.record).foldl Array.push
        (insert (x (extract w)).state w).journal } := by
  unfold leaves onPart
  obtain ⟨value, t, records⟩ := x (extract w)
  cases value <;> rfl

theorem leaves_onAllocator (h : Handle) (a : Allocator) (x : Op (Allocator × Option Frame) α)
    (w : World κ η σ) :
    (onAllocator h a x).leaves w = { w with
      instances := w.instances.modify h.number fun inst =>
        { inst with state := some (x (a, w.frame)).state.1 }
      frame := (x (a, w.frame)).state.2
      journal := ((x (a, w.frame)).records.map Entry.record).foldl Array.push w.journal } := by
  rw [onAllocator, leaves_bind_of_ok (modifyInstance_run h _ w),
    leaves_onPart]
  dsimp only
  rw [modify_modify]
  rfl

theorem destroy_of_live {env : Environment κ η σ} {nested : Nested κ η σ} {h : Handle}
    {inst : Instance κ} {a : Allocator} (here : w.instances[h.number]? = some inst)
    (state : inst.state = some a) (idle : inst.busy = false) :
    destroy env nested h w =
      ensuring (during (.teardown h inst.kind) (tearDown env nested inst a))
        (fun w => { w with journal := w.journal.push (.closed h) })
        { w with
          instances := w.instances.modify h.number fun inst => { inst with state := none }
          journal := w.journal.push (.tornDown h) } := by
  rw [destroy, bind_of_ok (instanceOf_of_some here), idle, state, if_neg Bool.false_ne_true]
  dsimp only
  rw [bind_of_ok (modifyInstance_run h _ w),
    bind_of_ok (show note [.tornDown h] _ = _ from modify_run _ _)]
  rfl

theorem leaves_destroy {env : Environment κ η σ} {nested : Nested κ η σ} {h : Handle}
    {inst : Instance κ} {a : Allocator} (here : w.instances[h.number]? = some inst)
    (state : inst.state = some a) (idle : inst.busy = false) :
    (destroy env nested h).leaves w =
      let torn := (during (.teardown h inst.kind) (tearDown env nested inst a)).leaves { w with
        instances := w.instances.modify h.number fun inst => { inst with state := none }
        journal := w.journal.push (.tornDown h) }
      { torn with journal := torn.journal.push (.closed h) } := by
  rw [leaves_congr (destroy_of_live here state idle), leaves_ensuring]

/-- The destruction of an instance that is in use is unwound, and that is reported. -/
theorem destroy_of_busy {env : Environment κ η σ} {nested : Nested κ η σ} {h : Handle}
    {inst : Instance κ} (here : w.instances[h.number]? = some inst) (busy : inst.busy = true) :
    destroy env nested h w = fatal (.reentrantUse inst.id) w := by
  rw [destroy, bind_of_ok (instanceOf_of_some here), if_pos busy]

theorem respects_pure (a : α) : (pure a : Run κ η σ α).Respects E := E.refl

theorem respects_get : (get : Run κ η σ (World κ η σ)).Respects E := E.refl

theorem respects_throw (halt : Halt) : (throw halt : Run κ η σ α).Respects E := E.refl

theorem respects_modify {change : World κ η σ → World κ η σ} (h : ∀ w, E.Allows w (change w)) :
    (modify change : Run κ η σ Unit).Respects E := h

theorem allows_bind_of {v : World κ η σ} (hx : E.Allows v (x.leaves w))
    (hf : ∀ a w', x w = .ok a w' → E.Allows w' ((f a).leaves w')) :
    E.Allows v ((x >>= f).leaves w) := by
  cases h : x w with
  | ok a w' =>
    rw [leaves_of_ok h] at hx
    rw [leaves_bind_of_ok h]
    exact E.trans hx (hf a w' h)
  | error halt w' =>
    rw [leaves_of_error h] at hx
    rw [leaves_of_error (bind_of_error h)]
    exact hx

theorem allows_bind {v : World κ η σ} (hx : E.Allows v (x.leaves w)) (hf : ∀ a, (f a).Respects E) :
    E.Allows v ((x >>= f).leaves w) := allows_bind_of hx fun a w' _ => hf a w'

theorem respects_bind (hx : x.Respects E) (hf : ∀ a, (f a).Respects E) :
    (x >>= f).Respects E := fun w => allows_bind (hx w) hf

/-- A creation runs the program of its kind, and then there is a new instance. -/
theorem allows_create {env : Environment κ η σ} {nested : Nested κ η σ} {k : κ} {shared : Bool}
    {f : Except ConfigError Handle → Run κ η σ α}
    (creates : E.Allows w ((obtaining (nested (env.kind k).create)).leaves w))
    (failed : ∀ e, (f (.error e)).Respects E)
    (created : ∀ built sources v,
      obtaining (nested (env.kind k).create) w = .ok (.ok built, sources) v →
        E.Allows v ((f (.ok ⟨v.instances.size⟩)).leaves
          (v.enroll (env.newInstance k built sources shared)))) :
    E.Allows w ((create env nested k shared >>= f).leaves w) := by
  rw [create, bind_assoc]
  refine allows_bind_of creates fun answer v run => ?_
  obtain ⟨built, sources⟩ := answer
  cases built with
  | error e => exact failed e v
  | ok built => exact created built sources v run

/-- A property that is reflected by what is done second holds already after the first. -/
theorem Respects.before {P : World κ η σ → Prop} (rest : ∀ a, (f a).Respects (.reflecting P))
    (after : P ((x >>= f).leaves w)) : P (x.leaves w) := by
  cases h : x w with
  | ok a w' =>
    rw [leaves_bind_of_ok h] at after
    rw [leaves_of_ok h]
    exact rest a w' after
  | error halt w' =>
    rw [leaves_of_error (bind_of_error h)] at after
    rwa [leaves_of_error h]

theorem Respects.mono {E' : Effect κ η σ} (hx : x.Respects E)
    (h : ∀ w w', E.Allows w w' → E'.Allows w w') : x.Respects E' := fun w => h _ _ (hx w)

theorem respects_ensuring (hx : x.Respects E) (h : ∀ w, E.Allows w (cleanUp w)) :
    (ensuring x cleanUp).Respects E := by
  intro w
  rw [leaves_ensuring]
  exact E.trans (hx w) (h _)

/-- For an effect that is not about the handles that are looked up. -/
theorem respects_obtaining
    (aside : ∀ (w : World κ η σ) (obtained : List Handle), E.Allows w { w with obtained })
    (hx : x.Respects E) : (obtaining x).Respects E := by
  intro w
  rw [leaves_obtaining]
  exact E.trans (E.trans (aside w _) (hx _)) (aside _ _)

/-- For an effect that is not about the tasks that are under way. -/
theorem respects_during (task : Task κ)
    (aside : ∀ (w : World κ η σ) (tasks : Tasks κ), E.Allows w { w with tasks })
    (hx : x.Respects E) : (during task x).Respects E := by
  intro w
  rw [leaves_during]
  exact E.trans (E.trans (aside w _) (hx _)) (aside _ _)

theorem respects_attempt (hx : x.Respects E) : (attempt x).Respects E := by
  intro w
  rw [leaves_attempt]
  exact hx w

end Run

/-- Whether an entry of the journal is written nowhere. -/
def Entry.isMark : Entry → Bool
  | .record _ => false
  | .event _ => false
  | _ => true

/-- A change that is neither about instances nor about checkpoints.  Exit hooks may be registered, and
something may be written. -/
structure Still (w w' : World κ η σ) : Prop where
  frame : w'.frame = w.frame
  instances : w'.instances = w.instances
  cache : w'.cache = w.cache
  obtained : w'.obtained = w.obtained
  tasks : w'.tasks = w.tasks
  exit : w.exit.Grows w'.exit
  journal : ∃ entries : List Entry, w'.journal = entries.foldl Array.push w.journal ∧
    ∀ e ∈ entries, e.isMark = false

theorem Still.of_same {w w' : World κ η σ} (frame : w'.frame = w.frame)
    (instances : w'.instances = w.instances) (cache : w'.cache = w.cache)
    (obtained : w'.obtained = w.obtained) (tasks : w'.tasks = w.tasks)
    (exit : w'.exit = w.exit) (journal : w'.journal = w.journal) : Still w w' :=
  ⟨frame, instances, cache, obtained, tasks, .of_eq exit, [], journal, nofun⟩

theorem Still.trans {w w' w'' : World κ η σ} (first : Still w w') (second : Still w' w'') :
    Still w w'' := by
  obtain ⟨entries, journal, written⟩ := first.journal
  obtain ⟨entries', journal', written'⟩ := second.journal
  refine ⟨second.frame.trans first.frame, second.instances.trans first.instances,
    second.cache.trans first.cache, second.obtained.trans first.obtained,
    second.tasks.trans first.tasks, first.exit.trans second.exit, entries ++ entries', ?_,
    fun e mem => ?_⟩
  · rw [journal', journal, List.foldl_append]
  · rcases List.mem_append.mp mem with mem | mem
    · exact written e mem
    · exact written' e mem

def still : Effect κ η σ where
  Allows := Still
  refl _ := Still.of_same rfl rfl rfl rfl rfl rfl rfl
  trans := .trans

/-- A change that neither changes the cache or an instance nor passes checkpoints: instances may be
looked up or denied. -/
structure Tidy (w w' : World κ η σ) : Prop where
  frame : w'.frame = w.frame
  instances : w'.instances = w.instances
  cache : w'.cache = w.cache
  exit : w.exit.Grows w'.exit
  journal : ∃ entries : List Entry, w'.journal = entries.foldl Array.push w.journal ∧
    ∀ h, Entry.tornDown h ∉ entries

theorem Still.tidy {w w' : World κ η σ} (h : Still w w') : Tidy w w' := by
  obtain ⟨frame, instances, cache, -, -, exit, entries, journal, written⟩ := h
  exact ⟨frame, instances, cache, exit, entries, journal, fun _ mem => nomatch written _ mem⟩

/-- The end of a teardown is on record. -/
theorem tidy_closed (w : World κ η σ) (h : Handle) :
    Tidy w { w with journal := w.journal.push (.closed h) } :=
  ⟨rfl, rfl, rfl, .refl _, [.closed h], rfl, by simp⟩

theorem Tidy.of_same {w w' : World κ η σ} (frame : w'.frame = w.frame)
    (instances : w'.instances = w.instances) (cache : w'.cache = w.cache)
    (exit : w'.exit = w.exit) (journal : w'.journal = w.journal) : Tidy w w' :=
  ⟨frame, instances, cache, .of_eq exit, [], journal, nofun⟩

theorem Tidy.trans {w w' w'' : World κ η σ} (first : Tidy w w') (second : Tidy w' w'') :
    Tidy w w'' := by
  obtain ⟨entries, journal, none⟩ := first.journal
  obtain ⟨entries', journal', none'⟩ := second.journal
  refine ⟨second.frame.trans first.frame, second.instances.trans first.instances,
    second.cache.trans first.cache, first.exit.trans second.exit, entries ++ entries', ?_,
    fun h mem => ?_⟩
  · rw [journal', journal, List.foldl_append]
  · rcases List.mem_append.mp mem with mem | mem
    · exact none h mem
    · exact none' h mem

def tidying : Effect κ η σ where
  Allows := Tidy
  refl _ := Tidy.of_same rfl rfl rfl rfl rfl
  trans := .trans

/-- An effect that does not forbid what is still. -/
def Effect.Plain (E : Effect κ η σ) : Prop := ∀ w w', Still w w' → E.Allows w w'

/-- An effect that does not forbid what is tidy. -/
def Effect.Lenient (E : Effect κ η σ) : Prop := ∀ w w', Tidy w w' → E.Allows w w'

/-- An effect that is not about checkpoints. -/
structure Effect.Unframed (E : Effect κ η σ) : Prop where
  plain : E.Plain
  frame : ∀ (w : World κ η σ) (frame : Option Frame), E.Allows w { w with frame }

/-- An effect that is not about the memory of instances, also not of those that are in use. -/
def Effect.Memoryless (E : Effect κ η σ) : Prop :=
  ∀ (w : World κ η σ) (h : Handle) (inst : Instance κ) (a a' : Allocator),
    w.instances[h.number]? = some inst → inst.state = some a →
    E.Allows w { w with
      instances := w.instances.modify h.number fun inst => { inst with state := some a' } }

/-- An effect that is about what becomes of instances, and not about the memory of those that are not
in use. -/
structure Effect.Outer (E : Effect κ η σ) : Prop extends E.Unframed where
  state : ∀ (w : World κ η σ) (h : Handle) (inst : Instance κ) (a a' : Allocator),
    w.instances[h.number]? = some inst → inst.state = some a → inst.busy = false →
    E.Allows w { w with
      instances := w.instances.modify h.number fun inst => { inst with state := some a' } }
  denied : ∀ (w : World κ η σ) (h : Handle) (inst : Instance κ),
    w.instances[h.number]? = some inst → inst.state = none →
    E.Allows w { w with journal := w.journal.push (.denied h) }

theorem Effect.Lenient.plain {E : Effect κ η σ} (lenient : E.Lenient) : E.Plain :=
  fun w w' h => lenient w w' h.tidy

theorem Effect.Plain.of_still {E : Effect κ η σ} (plain : E.Plain) {x : Run κ η σ α}
    (hx : x.Respects still) : x.Respects E := hx.mono plain

theorem Effect.Lenient.of_still {E : Effect κ η σ} (lenient : E.Lenient) {x : Run κ η σ α}
    (hx : x.Respects still) : x.Respects E := lenient.plain.of_still hx

theorem Effect.Lenient.of_tidying {E : Effect κ η σ} (lenient : E.Lenient) {x : Run κ η σ α}
    (hx : x.Respects tidying) : x.Respects E := hx.mono lenient

theorem tidying_lenient : (tidying : Effect κ η σ).Lenient := fun _ _ => id

namespace Run

theorem still_records (w : World κ η σ) (records : List Record) :
    Still w { w with journal := (records.map Entry.record).foldl Array.push w.journal } := by
  refine ⟨rfl, rfl, rfl, rfl, rfl, .refl _, records.map Entry.record, rfl, fun e mem => ?_⟩
  obtain ⟨r, -, rfl⟩ := List.mem_map.mp mem
  rfl

theorem still_log (r : Record) : (log r : Run κ η σ Unit).Respects still :=
  fun w => still_records w [r]

theorem still_say (text : String) : (note [.event text] : Run κ η σ Unit).Respects still :=
  fun _ => ⟨rfl, rfl, rfl, rfl, rfl, .refl _, [.event text], rfl, by simp [Entry.isMark]⟩

theorem still_raise (p : Panic) : (raise p : Run κ η σ α).Respects still :=
  respects_bind (fun w => still_records w p.records) fun _ => respects_throw _

theorem still_compute (x : Op Unit α) : (compute x : Run κ η σ α).Respects still := by
  intro w
  rw [compute, leaves_onPart]
  exact still_records w _

theorem still_instanceOf (h : Handle) :
    (instanceOf h : Run κ η σ (Instance κ)).Respects still := by
  apply respects_bind respects_get
  intro w
  split
  · exact respects_pure _
  · exact still_raise _

/-- Nothing happens to an instance that is in use, nor to one that was destroyed before. -/
theorem destroy_cases (env : Environment κ η σ) (nested : Nested κ η σ) (h : Handle)
    (w : World κ η σ) :
    (Still w ((destroy env nested h).leaves w) ∧
      ∀ inst, w.instances[h.number]? = some inst → inst.busy = false → inst.state = none) ∨
    ∃ inst a, w.instances[h.number]? = some inst ∧ inst.state = some a ∧ inst.busy = false := by
  cases here : w.instances[h.number]? with
  | none =>
    obtain ⟨halt, w', missing⟩ := instanceOf_of_none here
    rw [destroy, leaves_of_error (bind_of_error missing), ← leaves_of_error missing]
    exact .inl ⟨still_instanceOf h w, nofun⟩
  | some inst =>
    cases busy : inst.busy with
    | true =>
      rw [leaves_congr (destroy_of_busy here busy)]
      refine .inl ⟨still_raise _ w, fun inst' same idle => ?_⟩
      cases same
      rw [busy] at idle
      cases idle
    | false =>
      cases state : inst.state with
      | none =>
        rw [destroy, leaves_bind_of_ok (instanceOf_of_some here), busy, state]
        refine .inl ⟨still.refl w, fun inst' same _ => ?_⟩
        cases same
        exact state
      | some a => exact .inr ⟨inst, a, rfl, state, busy⟩

theorem tidying_liveInstance (h : Handle) :
    (liveInstance h : Run κ η σ (Instance κ × Allocator)).Respects tidying := by
  apply respects_bind (tidying_lenient.of_still (still_instanceOf h))
  intro inst
  split
  · exact tidying_lenient.of_still (still_raise _)
  · split
    · exact respects_pure _
    · refine respects_bind (fun w => ?_) fun _ => tidying_lenient.of_still (still_raise _)
      exact ⟨rfl, rfl, rfl, .refl _, [.denied h], rfl, by simp⟩

theorem tidying_obtain (h : Handle) : (obtain h : Run κ η σ Handle).Respects tidying :=
  respects_bind (respects_modify fun _ => Tidy.of_same rfl rfl rfl rfl rfl) fun _ => respects_pure _

section Hooks

variable [DecidableEq η]

theorem still_register (hook : η) (priority : Int) :
    (register (.client hook) priority : Run κ η σ Bool).Respects still := by
  intro w
  obtain ⟨added, hooks, registered, grows⟩ := register_client_eq hook priority w
  rw [leaves_of_ok registered]
  exact ⟨rfl, rfl, rfl, rfl, rfl, grows, [], rfl, nofun⟩

theorem still_reachRegistry : (reachRegistry : Run κ η σ Unit).Respects still := by
  intro w
  obtain ⟨hooks, reached, grows⟩ := reachRegistry_grows w
  rw [leaves_of_ok reached]
  exact ⟨rfl, rfl, rfl, rfl, rfl, grows, [], rfl, nofun⟩

end Hooks

end Run

namespace Effect

open Run

variable {E : Effect κ η σ}

theorem Plain.onPart (plain : E.Plain) {τ : Type} {extract : World κ η σ → τ}
    {insert : τ → World κ η σ → World κ η σ} {x : Op τ α}
    (h : ∀ w, E.Allows w (insert (x (extract w)).state w)) :
    (Run.onPart extract insert x).Respects E := by
  intro w
  rw [leaves_onPart]
  exact E.trans (h w) (plain _ _ (still_records _ _))

theorem Plain.scope (plain : E.Plain) (f : Fixture κ) {body : Run κ η σ α}
    (hbody : body.Respects E) : (Run.scope f body).Respects E := by
  have aside (w : World κ η σ) (fixture : Fixture κ) : E.Allows w { w with fixture } :=
    plain _ _ (Still.of_same rfl rfl rfl rfl rfl rfl rfl)
  apply respects_bind respects_get
  intro w
  refine respects_bind (plain.of_still (still_log _)) fun _ => ?_
  refine respects_bind (respects_modify fun w => aside w f) fun _ => ?_
  exact respects_ensuring hbody fun w' => aside w' w.fixture

theorem Plain.tearDown (plain : E.Plain) {env : Environment κ η σ} {nested : Nested κ η σ}
    {inst : Instance κ} (a : Allocator)
    (closes : (Run.obtaining (nested ((env.kind inst.kind).close inst.holdings))).Respects E) :
    (Run.tearDown env nested inst a).Respects E := by
  refine respects_bind closes fun _ => ?_
  exact respects_bind (plain.of_still (still_compute _)) fun _ => plain.of_still (still_log _)

theorem allows_handle {env : Environment κ η σ} {nested : Nested κ η σ} {bound : Nat}
    (drains : (Run.drainCache env nested bound).Respects E)
    (hooks : ∀ hook, (nested (env.hook hook)).Respects E) (entry : HookEntry η) (w : World κ η σ) :
    E.Allows (w.starting entry) ((Run.handle env nested bound entry).leaves w) := by
  obtain ⟨hook, priority⟩ := entry
  cases hook with
  | teardown => exact drains _
  | client hook => exact hooks hook _

theorem Plain.drainHooks (plain : E.Plain) {env : Environment κ η σ} {nested : Nested κ η σ}
    {bound : Nat} (changed : ∀ (w : World κ η σ) (hooks : HookTable η), E.Allows w { w with hooks })
    (drains : (Run.drainCache env nested bound).Respects E)
    (hooks : ∀ hook, (nested (env.hook hook)).Respects E) (rounds : Nat) :
    (Run.drainHooks env nested bound rounds).Respects E := by
  have starts (w : World κ η σ) (entry : HookEntry η) : E.Allows w (w.starting entry) :=
    E.trans (changed w (w.hooks.note (.started entry)))
      (plain _ _ (still_records { w with hooks := w.hooks.note (.started entry) }
        [.exitHook entry.priority]))
  have all (taken : List (HookEntry η)) :
      (Run.drainHooks.runAll env nested bound taken).Respects E := by
    induction taken with
    | nil => exact respects_pure _
    | cons entry rest ih =>
      exact respects_bind (fun w => E.trans (starts w entry) (allows_handle drains hooks entry w))
        fun _ => ih
  induction rounds with
  | zero => exact respects_throw _
  | succ rounds ih =>
    apply respects_bind respects_get
    intro w
    split
    · exact respects_pure _
    · exact respects_bind (respects_modify fun w => changed w _) fun _ =>
        respects_bind (all _) fun _ => ih

theorem Lenient.obtaining (lenient : E.Lenient) {x : Run κ η σ α} (hx : x.Respects E) :
    (Run.obtaining x).Respects E :=
  respects_obtaining (fun _ _ => lenient _ _ (Tidy.of_same rfl rfl rfl rfl rfl)) hx

theorem Lenient.during (lenient : E.Lenient) (task : Task κ) {x : Run κ η σ α}
    (hx : x.Respects E) : (Run.during task x).Respects E :=
  respects_during task (fun _ _ => lenient _ _ (Tidy.of_same rfl rfl rfl rfl rfl)) hx

section Registry

variable {env : Environment κ η σ} {nested : Nested κ η σ}

theorem Lenient.tearDown (lenient : E.Lenient) {inst : Instance κ} (h : Handle) (a : Allocator)
    (closes : (nested ((env.kind inst.kind).close inst.holdings)).Respects E) :
    (Run.during (.teardown h inst.kind) (Run.tearDown env nested inst a)).Respects E :=
  lenient.during _ (lenient.plain.tearDown a (lenient.obtaining closes))

theorem Plain.destroy (plain : E.Plain)
    (begun : ∀ (w : World κ η σ) (h : Handle) (inst : Instance κ) (a : Allocator),
      w.instances[h.number]? = some inst → inst.state = some a → inst.busy = false →
      E.Allows w { w with
        instances := w.instances.modify h.number fun inst => { inst with state := none }
        journal := w.journal.push (.tornDown h) })
    (tears : ∀ h inst a,
      (Run.during (.teardown h inst.kind) (Run.tearDown env nested inst a)).Respects E)
    (closed : ∀ (w : World κ η σ) (h : Handle),
      E.Allows w { w with journal := w.journal.push (.closed h) })
    (h : Handle) : (Run.destroy env nested h).Respects E := by
  intro w
  rcases destroy_cases env nested h w with ⟨nothing, -⟩ | ⟨inst, a, here, state, busy⟩
  · exact plain _ _ nothing
  · rw [leaves_destroy here state busy]
    exact E.trans (E.trans (begun w h inst a here state busy) (tears h inst a _)) (closed _ h)

theorem Lenient.destroy (lenient : E.Lenient)
    (begun : ∀ (w : World κ η σ) (h : Handle) (inst : Instance κ) (a : Allocator),
      w.instances[h.number]? = some inst → inst.state = some a → inst.busy = false →
      E.Allows w { w with
        instances := w.instances.modify h.number fun inst => { inst with state := none }
        journal := w.journal.push (.tornDown h) })
    (closes : ∀ k holdings, (nested ((env.kind k).close holdings)).Respects E) (h : Handle) :
    (Run.destroy env nested h).Respects E := by
  refine lenient.plain.destroy begun (fun h _ a => lenient.tearDown h a (closes _ _)) ?_ h
  exact fun w h => lenient _ _ (tidy_closed w h)

theorem drainCache
    (destroyed : ∀ (w : World κ η σ) (id : KindId) (newest : Handle),
      w.cache.getLast? = some (id, newest) →
      E.Allows w ((Run.destroy env nested newest).leaves { w with cache := w.cache.dropLast }))
    (rounds : Nat) : (Run.drainCache env nested rounds).Respects E := by
  induction rounds with
  | zero => exact respects_throw _
  | succ rounds ih =>
    intro w
    rw [Run.drainCache, leaves_bind_of_ok (get_run w)]
    split
    next => exact E.refl w
    next id newest last =>
      rw [leaves_bind_of_ok (modify_run _ w)]
      exact allows_bind (destroyed w id newest last) fun _ => ih

theorem create (k : κ) (shared : Bool)
    (creates : (Run.obtaining (nested (env.kind k).create)).Respects E)
    (created : ∀ (v : World κ η σ) (built : Built) (sources : List Handle),
      E.Allows v (v.enroll (env.newInstance k built sources shared))) :
    (Run.create env nested k shared).Respects E := by
  rw [← bind_pure (Run.create env nested k shared)]
  intro w
  refine allows_create (creates w) (fun _ => respects_pure _) ?_
  exact fun built sources v _ => created v built sources

variable [DecidableEq η]

/-- A look-up caches the instance that it creates, or discards it if the creation looked up its own
kind. -/
theorem Plain.lookUp (plain : E.Plain) (obtains : ∀ h, (Run.obtain h).Respects E) (k : κ)
    (creates : (Run.obtaining (nested (env.kind k).create)).Respects E)
    (discarded : ∀ (v : World κ η σ) (built : Built) (sources : List Handle),
      E.Allows v ((Run.destroy env nested ⟨v.instances.size⟩).leaves
        (v.enroll (env.newInstance k built sources true))))
    (inserted : ∀ (v : World κ η σ) (built : Built) (sources : List Handle),
      v.cache.lookup (env.kind k).id = none →
      E.Allows v { v.enroll (env.newInstance k built sources true) with
        cache := v.cache ++ [((env.kind k).id, ⟨v.instances.size⟩)] }) :
    (Run.lookUp env nested k).Respects E := by
  have answered (h : Handle) :
      (do return .ok (← obtain h) : Run κ η σ (Except ConfigError Handle)).Respects E :=
    respects_bind (obtains h) fun _ => respects_pure _
  refine respects_bind (plain.of_still still_reachRegistry) fun _ => ?_
  refine respects_bind respects_get fun w => ?_
  split
  next => exact answered _
  next =>
    intro w
    refine allows_create (creates w) (fun _ => respects_pure _) ?_
    intro built sources v _
    let created := v.enroll (env.newInstance k built sources true)
    dsimp only
    rw [leaves_bind_of_ok (get_run created)]
    split
    next => exact allows_bind (discarded v built sources) fun _ => answered _
    next absent =>
      rw [leaves_bind_of_ok (modify_run _ created)]
      exact E.trans (inserted v built sources absent) (answered _ _)

theorem Plain.delete (plain : E.Plain) (h : Option Handle)
    (destroyed : ∀ (w : World κ η σ) (h : Handle) (inst : Instance κ),
      w.instances[h.number]? = some inst →
      E.Allows w ((Run.destroy env nested h).leaves
        (if w.cache.lookup inst.id = some h then
          { w with cache := w.cache.filter (·.1 ≠ inst.id) } else w))) :
    (Run.delete env nested h).Respects E := by
  refine respects_bind (plain.of_still still_reachRegistry) fun _ => ?_
  cases h with
  | none => exact respects_pure _
  | some h =>
    intro w
    cases here : w.instances[h.number]? with
    | none =>
      obtain ⟨halt, w', missing⟩ := instanceOf_of_none here
      rw [leaves_of_error (bind_of_error missing), ← leaves_of_error missing]
      exact plain.of_still (still_instanceOf h) w
    | some inst =>
      rw [leaves_bind_of_ok (instanceOf_of_some here), leaves_bind_of_ok (modify_run _ w)]
      exact destroyed w h inst here

variable (lenient : E.Lenient)
include lenient

theorem Lenient.build (k : κ) (creates : (nested (env.kind k).create).Respects E)
    (created : ∀ (v : World κ η σ) (built : Built) (sources : List Handle),
      E.Allows v (v.enroll (env.newInstance k built sources false))) :
    (Run.build env nested k).Respects E :=
  respects_bind (lenient.of_still still_reachRegistry) fun _ =>
    create k false (lenient.obtaining creates) created

theorem Lenient.lookUp (k : κ) (creates : (nested (env.kind k).create).Respects E)
    (discarded : ∀ (v : World κ η σ) (built : Built) (sources : List Handle),
      E.Allows v ((Run.destroy env nested ⟨v.instances.size⟩).leaves
        (v.enroll (env.newInstance k built sources true))))
    (inserted : ∀ (v : World κ η σ) (built : Built) (sources : List Handle),
      v.cache.lookup (env.kind k).id = none →
      E.Allows v { v.enroll (env.newInstance k built sources true) with
        cache := v.cache ++ [((env.kind k).id, ⟨v.instances.size⟩)] }) :
    (Run.lookUp env nested k).Respects E :=
  lenient.plain.lookUp (fun h => lenient.of_tidying (tidying_obtain h)) k (lenient.obtaining creates)
    discarded inserted

theorem Lenient.delete (h : Option Handle)
    (destroyed : ∀ (w : World κ η σ) (h : Handle) (inst : Instance κ),
      w.instances[h.number]? = some inst →
      E.Allows w ((Run.destroy env nested h).leaves
        (if w.cache.lookup inst.id = some h then
          { w with cache := w.cache.filter (·.1 ≠ inst.id) } else w))) :
    (Run.delete env nested h).Respects E := lenient.plain.delete h destroyed

end Registry

theorem Unframed.onAllocator (unframed : E.Unframed) {w : World κ η σ} (h : Handle) (a : Allocator)
    (x : Op (Allocator × Option Frame) α)
    (changed : ∀ a', E.Allows w { w with
      instances := w.instances.modify h.number fun inst => { inst with state := some a' } }) :
    E.Allows w ((Run.onAllocator h a x).leaves w) := by
  rw [leaves_onAllocator]
  exact E.trans (E.trans (changed _) (unframed.frame _ _)) (unframed.plain _ _ (still_records _ _))

/-- What is done while a payload of an instance is in use. -/
theorem Memoryless.inside (memoryless : E.Memoryless) (unframed : E.Unframed) {w : World κ η σ}
    {h : Handle} {inst : Instance κ} {a : Allocator} (here : w.instances[h.number]? = some inst)
    (state : inst.state = some a) (x : Op (Allocator × Option Frame) β) {body : β → Run κ η σ α}
    (hbody : ∀ b, (body b).Respects E) :
    let used : World κ η σ := { w with
      instances := w.instances.modify h.number fun inst => { inst with busy := true } }
    E.Allows used ((Run.onAllocator h a x >>= body).leaves used) := by
  intro used
  have here' : used.instances[h.number]? = some { inst with busy := true } := by
    simp [used, Array.getElem?_modify, here]
  exact allows_bind (unframed.onAllocator h a x fun a' => memoryless used h _ a a' here' state) hbody

section Outer

variable (outer : E.Outer)
include outer

/-- For an operation on an instance that can be used. -/
theorem Outer.live {h : Handle} {f : Instance κ × Allocator → Run κ η σ α}
    (hf : ∀ w inst a, w.instances[h.number]? = some inst → inst.state = some a →
      inst.busy = false → E.Allows w ((f (inst, a)).leaves w)) :
    (liveInstance h >>= f).Respects E := by
  have raised (p : Panic) : (raise p >>= f).Respects E := by
    rw [raise_bind]
    exact outer.plain.of_still (still_raise p)
  intro w
  cases here : w.instances[h.number]? with
  | none =>
    obtain ⟨halt, w', failed⟩ := instanceOf_of_none here
    have live_failed : liveInstance h w = .error halt w' := bind_of_error failed
    rw [leaves_of_error (bind_of_error live_failed), ← leaves_of_error failed]
    exact outer.plain.of_still (still_instanceOf h) w
  | some inst =>
    rw [liveInstance, bind_assoc, leaves_bind_of_ok (instanceOf_of_some here)]
    cases busy : inst.busy with
    | true => exact raised _ w
    | false =>
      cases state : inst.state with
      | some a => exact hf w inst a here state busy
      | none =>
        have denied := outer.denied w h inst here state
        exact E.trans denied (raised _ _)

/-- For an effect that is not about which instances are in use either. -/
theorem Outer.within (memoryless : E.Memoryless)
    (marked : ∀ (w : World κ η σ) (h : Handle) (busy : Bool), E.Allows w { w with
      instances := w.instances.modify h.number fun inst => { inst with busy } })
    (h : Handle) (p : Ptr) (edit : ByteArray → ByteArray) {body : ByteArray → Run κ η σ α}
    (hbody : ∀ bytes, (body bytes).Respects E) : (Run.within h p edit body).Respects E := by
  refine outer.live fun w inst a here state _ => ?_
  dsimp only
  rw [leaves_bind_of_ok (modifyInstance_run h _ w), leaves_ensuring]
  refine E.trans (E.trans (marked w h true) ?_) (marked _ h false)
  exact memoryless.inside outer.toUnframed here state _ hbody

theorem Outer.use (h : Handle) (r : Request α) : (Run.use h r).Respects E :=
  outer.live fun w inst a here state idle =>
    outer.onAllocator h a _ fun a' => outer.state w h inst a a' here state idle

theorem Outer.checkpoint : (Run.checkpoint : Run κ η σ Bool).Respects E :=
  outer.plain.onPart fun w => outer.frame w _

theorem Outer.onOwned (i : Nat) (x : Op (Allocator × Option Frame) α) :
    (Run.onOwned i x : Run κ η σ α).Respects E := by
  have changed (w : World κ η σ) (owned : Array Allocator) (frame : Option Frame) :
      E.Allows w { w with owned, frame } :=
    E.trans (outer.frame w frame) (outer.plain _ _ (Still.of_same rfl rfl rfl rfl rfl rfl rfl))
  apply respects_bind respects_get
  intro w
  split
  · exact respects_bind respects_get fun _ => outer.plain.of_still (still_raise _)
  · refine respects_bind (respects_modify fun w => changed w _ w.frame) fun _ => ?_
    exact outer.plain.onPart fun w => changed w _ _

end Outer

theorem Unframed.thread (unframed : E.Unframed) (fixture : Fixture κ) {body : Run κ η σ α}
    (hbody : body.Respects E) : (Run.thread fixture body).Respects E := by
  have aside (w : World κ η σ) (frame : Option Frame) (fixture : Fixture κ) :
      E.Allows w { w with frame, fixture } :=
    E.trans (unframed.frame w frame) (unframed.plain _ _ (Still.of_same rfl rfl rfl rfl rfl rfl rfl))
  intro w
  rw [leaves_thread]
  exact E.trans (E.trans (aside w none fixture) (hbody _)) (aside _ w.frame w.fixture)

section Replay

variable {run : Frame → Run κ η σ (Bool × Frame)} (logs : ∀ r, (Run.log r).Respects E)
include logs

theorem respects_goOn {runs : Nat} {frame : Frame} (ended : Bool × Frame)
    (rest : ∀ next, (frame.afterRun ended.2).advance? = some next →
      (Frame.replayFrom run Run.log (runs + 1) next).Respects E) :
    (Frame.goOn run Run.log runs frame ended).Respects E := by
  rw [Frame.goOn]
  split
  · refine respects_bind (logs _) fun _ => ?_
    cases advanced : (frame.afterRun ended.2).advance? with
    | some next => exact rest next advanced
    | none => exact respects_pure _
  · exact respects_bind (logs _) fun _ => respects_pure _

theorem respects_replayFrom (hrun : ∀ frame, (run frame).Respects E) (runs : Nat) (frame : Frame) :
    (Frame.replayFrom run Run.log runs frame).Respects E := by
  -- the patterns count down
  induction value : frame.value using Nat.strongRecOn generalizing runs frame with
  | _ n ih =>
    rw [Frame.replayFrom_eq]
    refine respects_bind (hrun _) fun ended => respects_goOn logs ended fun next advanced => ?_
    have less := Frame.value_advance?_lt advanced
    rw [Frame.value_afterRun] at less
    exact ih _ (value ▸ less) _ _ rfl

end Replay

theorem respects_underFrame (frames : ∀ (w : World κ η σ) frame, E.Allows w { w with frame })
    {body : Run κ η σ Bool} (hbody : body.Respects E) (f : Frame) :
    (Run.underFrame body f).Respects E := by
  refine respects_bind (respects_modify fun w => frames w (some f)) fun _ => ?_
  exact respects_bind hbody fun _ => respects_bind respects_get fun _ => respects_pure _

theorem Unframed.replay (unframed : E.Unframed) {body : Run κ η σ Bool}
    (hbody : body.Respects E) : (Run.replay body).Respects E := by
  have loop := respects_replayFrom (fun r => unframed.plain.of_still (still_log r))
    (respects_underFrame unframed.frame hbody)
  apply respects_bind respects_get
  intro w
  refine respects_ensuring (respects_bind (loop 0 _) fun outcome => ?_) fun w' =>
    unframed.frame w' w.frame
  split
  · exact respects_pure _
  · exact respects_throw _

end Effect

/-- Which calls a program may make. -/
abbrev Calls (κ η σ : Type) : Type 1 := ∀ β : Type, Call κ η σ β → Prop

/-- The calls of a program are among `outer`, and those inside the use of a payload among `inner`. -/
def Client.Only (inner : Calls κ η σ) {α : Type} (outer : Calls κ η σ) : Client κ η σ α → Prop
  | .pure _ => True
  | .call c next => outer _ c ∧ ∀ b, (next b).Only inner outer
  | .replay body next => body.Only inner outer ∧ ∀ o, (next o).Only inner outer
  | .attempt body next => body.Only inner outer ∧ ∀ r, (next r).Only inner outer
  | .scope _ body next => body.Only inner outer ∧ ∀ b, (next b).Only inner outer
  | .within _ _ _ body next => (∀ bytes, (body bytes).Only inner inner) ∧
      ∀ b, (next b).Only inner outer
  | .thread _ body next => body.Only inner outer ∧ ∀ r, (next r).Only inner outer

/-- Programs that may do anything. -/
def Calls.all : Calls κ η σ := fun _ _ => True

theorem Client.only_all (c : Client κ η σ α) : c.Only Calls.all Calls.all := by
  induction c with
  | pure a => trivial
  | call c next ih => exact ⟨trivial, ih⟩
  | replay body next ihb ih => exact ⟨ihb, ih⟩
  | attempt body next ihb ih => exact ⟨ihb, ih⟩
  | scope f body next ihb ih => exact ⟨ihb, ih⟩
  | within h p edit body next ihb ih => exact ⟨ihb, ih⟩
  | thread inherits body next ihb ih => exact ⟨ihb, ih⟩

theorem Client.only_bind {inner outer : Calls κ η σ} {c : Client κ η σ α}
    {f : α → Client κ η σ β} (only : c.Only inner outer) (hf : ∀ a, (f a).Only inner outer) :
    (c >>= f).Only inner outer := by
  change (c.bind f).Only inner outer
  induction c generalizing outer with
  | pure a => exact hf a
  | call c next ih => exact ⟨only.1, fun b => ih b (only.2 b) hf⟩
  | replay body next _ ih => exact ⟨only.1, fun o => ih o (only.2 o) hf⟩
  | attempt body next _ ih => exact ⟨only.1, fun r => ih r (only.2 r) hf⟩
  | scope g body next _ ih => exact ⟨only.1, fun b => ih b (only.2 b) hf⟩
  | within h p edit body next _ ih => exact ⟨only.1, fun b => ih b (only.2 b) hf⟩
  | thread inherits body next _ ih => exact ⟨only.1, fun r => ih r (only.2 r) hf⟩

theorem Client.only_ask {inner outer : Calls κ η σ} {c : Call κ η σ α} (may : outer α c) :
    (Client.ask c).Only inner outer := ⟨may, fun _ => trivial⟩

section Programs

variable [DecidableEq η] {env : Environment κ η σ} {nested : Nested κ η σ} {bound : Nat}

/-- What a program respects at any depth it respects inside calls. -/
theorem Client.respects_below {E : Effect κ η σ} {c : Client κ η σ α}
    (respects : ∀ depth, (c.runTo env bound depth).Respects E) (depth : Nat) :
    (env.below bound depth c).Respects E := by
  cases depth with
  | zero => exact Run.respects_throw _
  | succ depth => exact respects depth

/-- Calls that neither change an instance or an owned allocator nor pass checkpoints. -/
def Calls.tidy : Calls κ η σ
  | _, .checkpoint => False
  | _, .lookUp _ => False
  | _, .build _ => False
  | _, .delete _ => False
  | _, .teardown => False
  | _, .use _ _ => False
  | _, .useOwned _ _ => False
  | _, .tearDownOwned _ => False
  | _, .readOwned _ _ => False
  | _, .runHooks => False
  | _, _ => True

open Run in
theorem still_call {c : Call κ η σ β} (tidy : Calls.tidy β c) :
    (c.run env nested bound).Respects still := by
  cases c with
  | get => exact respects_bind respects_get fun _ => respects_pure _
  | set s => exact respects_modify fun _ => Still.of_same rfl rfl rfl rfl rfl rfl rfl
  | say text => exact still_say text
  | journal start => exact respects_bind respects_get fun _ => respects_pure _
  | compute x => exact still_compute x
  | isReplayActive => exact respects_bind respects_get fun _ => respects_pure _
  | kinds =>
    exact respects_bind still_reachRegistry fun _ => respects_bind respects_get fun _ =>
      respects_pure _
  | isDestroyed h => exact respects_bind (still_instanceOf h) fun _ => respects_pure _
  | describe h => exact respects_bind (still_instanceOf h) fun _ => respects_pure _
  | setFixture f =>
    exact respects_bind (still_log _) fun _ =>
      respects_modify fun _ => Still.of_same rfl rfl rfl rfl rfl rfl rfl
  | fixture => exact respects_bind respects_get fun _ => respects_pure _
  | own a =>
    exact respects_bind respects_get fun _ =>
      respects_bind (respects_modify fun _ => Still.of_same rfl rfl rfl rfl rfl rfl rfl) fun _ =>
        respects_pure _
  | register hook priority => exact still_register _ _
  | _ => exact tidy.elim

/-- What makes a program respect `E` when its calls are among `outer`: each call does, and so does
each construct around a program that does.  A program inside the use of a payload respects `E'`. -/
structure Covers (env : Environment κ η σ) (nested : Nested κ η σ) (bound : Nat)
    (E E' : Effect κ η σ) (outer : Calls κ η σ) : Prop where
  call : ∀ {β : Type} (c : Call κ η σ β), outer β c → (c.run env nested bound).Respects E
  replay : ∀ body : Run κ η σ Bool, body.Respects E → (Run.replay body).Respects E
  scope : ∀ {β : Type} (f : Fixture κ) (body : Run κ η σ β),
    body.Respects E → (Run.scope f body).Respects E
  within : ∀ {β : Type} (h : Handle) (p : Ptr) (edit : ByteArray → ByteArray)
    (body : ByteArray → Run κ η σ β), (∀ bytes, (body bytes).Respects E') →
    (Run.within h p edit body).Respects E
  thread : ∀ {β : Type} (fixture : Fixture κ) (body : Run κ η σ β),
    body.Respects E → (Run.thread fixture body).Respects E

open Run in
theorem Covers.respects_runWith {E E' : Effect κ η σ} {outer inner : Calls κ η σ}
    (outside : Covers env nested bound E E' outer) (inside : Covers env nested bound E' E' inner)
    {c : Client κ η σ α} (only : c.Only inner outer) : (c.runWith env nested bound).Respects E := by
  induction c generalizing E outer with
  | pure a =>
    rw [Client.runWith]
    exact respects_pure a
  | call c next ih =>
    rw [Client.runWith]
    exact respects_bind (outside.call c only.1) fun b => ih b outside (only.2 b)
  | replay body next ihb ih =>
    rw [Client.runWith]
    exact respects_bind (outside.replay _ (ihb outside only.1)) fun o => ih o outside (only.2 o)
  | attempt body next ihb ih =>
    rw [Client.runWith]
    exact respects_bind (respects_attempt (ihb outside only.1)) fun r => ih r outside (only.2 r)
  | scope f body next ihb ih =>
    rw [Client.runWith]
    exact respects_bind (outside.scope f _ (ihb outside only.1)) fun b => ih b outside (only.2 b)
  | within h p edit body next ihb ih =>
    rw [Client.runWith]
    -- what is done inside the use of a payload respects the inner effect
    have body_respects := fun bytes => ihb bytes inside (only.1 bytes)
    exact respects_bind (outside.within h p edit _ body_respects) fun b => ih b outside (only.2 b)
  | thread inherits body next ihb ih =>
    rw [Client.runWith]
    apply respects_bind respects_get
    intro w
    exact respects_bind (outside.thread _ _ (ihb outside only.1)) fun r => ih r outside (only.2 r)

/-- A program whose calls run programs of the same kind, however deep they nest. -/
theorem Covers.respects_runTo {E : Effect κ η σ} {calls : Calls κ η σ}
    (covers : ∀ {nested : Nested κ η σ},
      (∀ {β : Type} {c : Client κ η σ β}, c.Only calls calls → (nested c).Respects E) →
      Covers env nested bound E E calls)
    (depth : Nat) {c : Client κ η σ α} (only : c.Only calls calls) :
    (c.runTo env bound depth).Respects E := by
  induction depth generalizing α with
  | zero =>
    have stops {β : Type} {c : Client κ η σ β} (_ : c.Only calls calls) :
        (throw .endless : Run κ η σ β).Respects E := Run.respects_throw _
    exact (covers stops).respects_runWith (covers stops) only
  | succ depth ih =>
    have deeper {β : Type} {d : Client κ η σ β} (only : d.Only calls calls) :
        (d.runTo env bound depth).Respects E := ih only
    exact (covers deeper).respects_runWith (covers deeper) only

end Programs

end MemoryTrial
