import Mathlib.Logic.Relation
import MemoryTrial.Proofs.World.Consistency
import MemoryTrial.Proofs.World.Routing

/-! The fixtures of threads.  Each thread has selected a fixture.  It selects another one for good, or for
the time that it holds a guard; a thread that it starts begins with a copy of the selection.  Threads
take turns in any order, and share everything but their selections and their replays
(`Threaded.Reached.selects`). -/

namespace MemoryTrial

variable {κ η σ α : Type}

/-- What a thread has of its own. -/
structure Strand (κ : Type) where
  fixture : Fixture κ
  frame : Option Frame
  /-- The fixtures that will be selected again when the guards end that the thread holds, the last guard
  first. -/
  guards : List (Fixture κ)

/-- A process with its threads, by their numbers. -/
structure Threaded (κ η σ : Type) where
  /-- What the threads share.  The fixture and the frame are those of the thread that ran last. -/
  world : World κ η σ
  threads : List (Strand κ)

/-- The state in which a thread runs. -/
def World.forThread (w : World κ η σ) (s : Strand κ) : World κ η σ :=
  { w with fixture := s.fixture, frame := s.frame }

namespace Threaded

/-- The thread has run, and holds these guards. -/
def put (p : Threaded κ η σ) (t : Nat) (guards : List (Fixture κ)) (w : World κ η σ) :
    Threaded κ η σ :=
  ⟨w, p.threads.set t ⟨w.fixture, w.frame, guards⟩⟩

/-- The last guard of a thread ends, because its scope is left or unwound. -/
def leave (p : Threaded κ η σ) (t : Nat) : Option (Threaded κ η σ) := do
  let s ← p.threads[t]?
  match s.guards with
  | [] => none
  | f :: rest => return p.put t rest { p.world.forThread s with fixture := f }

/-- A use of a payload of the instance begins on a thread, or ends. -/
def use (p : Threaded κ η σ) (t : Nat) (h : Handle) (busy : Bool) : Option (Threaded κ η σ) := do
  let s ← p.threads[t]?
  return p.put t s.guards ((p.world.forThread s).mark h busy)

/-- A run of a replay begins on a thread, or ends. -/
def replay (p : Threaded κ η σ) (t : Nat) (frame : Option Frame) : Option (Threaded κ η σ) := do
  let s ← p.threads[t]?
  return p.put t s.guards { p.world.forThread s with frame }

section Steps

variable [DecidableEq η] (env : Environment κ η σ)

/-- A thread runs a program, and the program may be unwound. -/
def run (p : Threaded κ η σ) (t : Nat) (c : Client κ η σ α) : Option (Threaded κ η σ) := do
  let s ← p.threads[t]?
  return p.put t s.guards ((c.run env).leaves (p.world.forThread s))

/-- A thread selects a fixture until the end of a guard. -/
def enter (p : Threaded κ η σ) (t : Nat) (f : Fixture κ) : Option (Threaded κ η σ) := do
  let s ← p.threads[t]?
  return p.put t (s.fixture :: s.guards)
    (((Client.ask (.setFixture f)).run env).leaves (p.world.forThread s))

/-- A thread starts another one, which has a copy of its selection if it inherits it. -/
def spawn (p : Threaded κ η σ) (t : Nat) (inherits : Bool) : Option (Threaded κ η σ) := do
  let s ← p.threads[t]?
  let fixture := if inherits then s.fixture else env.production
  return { p with threads := p.threads ++ [⟨fixture, none, []⟩] }

/-- A step of the thread `t`, which makes only the calls in `calls`. -/
inductive Step (calls : Calls κ η σ) (t : Nat) (p q : Threaded κ η σ) : Prop
  | run {α : Type} {c : Client κ η σ α} :
    c.Only calls calls → p.run env t c = some q → Step calls t p q
  | enter {f : Fixture κ} : p.enter env t f = some q → Step calls t p q
  | leave : p.leave t = some q → Step calls t p q
  | use (h : Handle) (busy : Bool) : p.use t h busy = some q → Step calls t p q
  | replay (frame : Option Frame) : p.replay t frame = some q → Step calls t p q
  | spawn (inherits : Bool) : p.spawn env t inherits = some q → Step calls t p q

/-- A step of one of the threads in `who`. -/
def Moves (calls : Calls κ η σ) (who : Nat → Prop) (p q : Threaded κ η σ) : Prop :=
  ∃ t, who t ∧ Step env calls t p q

/-- The process at its start: one thread, and nobody has selected anything. -/
def start (client : σ) : Threaded κ η σ :=
  ⟨World.start env.production false client, [⟨env.production, none, []⟩]⟩

/-- The states that a process can be in, also inside the programs of its threads. -/
inductive Reached : Threaded κ η σ → Prop
  | start (client : σ) : Reached (Threaded.start env client)
  | step {p q : Threaded κ η σ} {t : Nat} : Reached p → Step env Calls.all t p q → Reached q

end Steps

/-- The thread holds more guards than that. -/
def HoldsOver (guards : List (Fixture κ)) (t : Nat) (p : Threaded κ η σ) : Prop :=
  ∀ s, p.threads[t]? = some s → guards.length < s.guards.length

/-- Between the two states the thread holds more guards than that, whatever the threads do. -/
def Throughout [DecidableEq η] (env : Environment κ η σ) (guards : List (Fixture κ)) (t : Nat) :
    Threaded κ η σ → Threaded κ η σ → Prop :=
  Relation.ReflTransGen fun p q => Moves env Calls.all (fun _ => True) p q ∧ q.HoldsOver guards t

end Threaded

/-- What a step does to the guards of the thread. -/
inductive Strand.Turns (s s' : Strand κ) : Prop
  | kept : s'.guards = s.guards → Turns s s'
  | entered : s'.guards = s.fixture :: s.guards → Turns s s'
  | left : s.guards = s'.fixture :: s'.guards → Turns s s'

namespace Threaded

variable {p q : Threaded κ η σ} {t : Nat} {s : Strand κ}

theorem getElem?_set_of_some {threads : List (Strand κ)} (here : threads[t]? = some s)
    (s' : Strand κ) : (threads.set t s')[t]? = some s' := by
  obtain ⟨lt, -⟩ := List.getElem?_eq_some_iff.mp here
  exact List.getElem?_set_self lt

theorem set_of_getElem? {threads : List (Strand κ)} (here : threads[t]? = some s) :
    threads.set t s = threads := by
  obtain ⟨lt, rfl⟩ := List.getElem?_eq_some_iff.mp here
  exact List.set_getElem_self lt

section Steps

variable [DecidableEq η] {env : Environment κ η σ} {calls : Calls κ η σ}

theorem run_of_some {c : Client κ η σ α} (here : p.threads[t]? = some s) :
    p.run env t c = some (p.put t s.guards ((c.run env).leaves (p.world.forThread s))) := by
  rw [run, here]
  rfl

theorem enter_of_some {f : Fixture κ} (here : p.threads[t]? = some s) :
    p.enter env t f = some (p.put t (s.fixture :: s.guards) { p.world.forThread s with
      fixture := f, journal := p.world.journal.push (.record (.fixtureSelected f.name)) }) := by
  rw [enter, here]
  rfl

omit [DecidableEq η] in
theorem leave_of_some {f : Fixture κ} {rest : List (Fixture κ)} (here : p.threads[t]? = some s)
    (held : s.guards = f :: rest) :
    p.leave t = some (p.put t rest { p.world.forThread s with fixture := f }) := by
  rw [leave, here]
  simp only [Option.bind_eq_bind, Option.bind_some, held]
  rfl

omit [DecidableEq η] in
theorem spawn_of_some (here : p.threads[t]? = some s) (inherits : Bool) :
    p.spawn env t inherits = some { p with
      threads := p.threads ++ [⟨if inherits then s.fixture else env.production, none, []⟩] } := by
  rw [spawn, here]
  rfl

/-- The ways in which a step of the thread `t` can go that has `s`. -/
inductive Stepped (env : Environment κ η σ) (calls : Calls κ η σ) (t : Nat) (p : Threaded κ η σ)
    (s : Strand κ) : Threaded κ η σ → Prop
  | ran {α : Type} {c : Client κ η σ α} : c.Only calls calls →
    Stepped env calls t p s (p.put t s.guards ((c.run env).leaves (p.world.forThread s)))
  | entered (f : Fixture κ) : Stepped env calls t p s (p.put t (s.fixture :: s.guards)
      (((Client.ask (.setFixture f)).run env).leaves (p.world.forThread s)))
  | left {f : Fixture κ} {rest : List (Fixture κ)} : s.guards = f :: rest →
    Stepped env calls t p s (p.put t rest { p.world.forThread s with fixture := f })
  | used (h : Handle) (busy : Bool) :
    Stepped env calls t p s (p.put t s.guards ((p.world.forThread s).mark h busy))
  | framed (frame : Option Frame) :
    Stepped env calls t p s (p.put t s.guards { p.world.forThread s with frame })
  | spawned (child : Strand κ) : Stepped env calls t p s { p with threads := p.threads ++ [child] }

theorem Step.stepped (step : Step env calls t p q) :
    ∃ s, p.threads[t]? = some s ∧ Stepped env calls t p s q := by
  cases step with
  | run only ran =>
    obtain ⟨s, here, ends⟩ := Option.bind_eq_some_iff.mp ran
    cases ends
    exact ⟨s, here, .ran only⟩
  | enter entered =>
    obtain ⟨s, here, ends⟩ := Option.bind_eq_some_iff.mp entered
    cases ends
    exact ⟨s, here, .entered _⟩
  | leave left =>
    obtain ⟨s, here, ends⟩ := Option.bind_eq_some_iff.mp left
    cases held : s.guards with
    | nil =>
      rw [held] at ends
      cases ends
    | cons f rest =>
      rw [held] at ends
      cases ends
      exact ⟨s, here, .left held⟩
  | use h busy used =>
    obtain ⟨s, here, ends⟩ := Option.bind_eq_some_iff.mp used
    cases ends
    exact ⟨s, here, .used h busy⟩
  | replay frame framed =>
    obtain ⟨s, here, ends⟩ := Option.bind_eq_some_iff.mp framed
    cases ends
    exact ⟨s, here, .framed frame⟩
  | spawn inherits spawned =>
    obtain ⟨s, here, ends⟩ := Option.bind_eq_some_iff.mp spawned
    cases ends
    exact ⟨s, here, .spawned _⟩

/-- A step changes the thread that makes it, and adds threads perhaps. -/
theorem Step.threads (step : Step env calls t p q) : ∃ s s' added,
    p.threads[t]? = some s ∧ s.Turns s' ∧ q.threads = p.threads.set t s' ++ added := by
  obtain ⟨s, here, stepped⟩ := step.stepped
  have stays (w : World κ η σ) : ∃ s' added, s.Turns s' ∧
      (p.put t s.guards w).threads = p.threads.set t s' ++ added :=
    ⟨⟨w.fixture, w.frame, s.guards⟩, [], .kept rfl, (List.append_nil _).symm⟩
  refine ⟨s, ?_⟩
  simp only [here, true_and]
  cases stepped with
  | ran _ => exact stays _
  | entered f => exact ⟨_, [], .entered rfl, (List.append_nil _).symm⟩
  | left held => exact ⟨_, [], .left held, (List.append_nil _).symm⟩
  | used h busy => exact stays _
  | framed frame => exact stays _
  | spawned child => exact ⟨s, [child], .kept rfl, by rw [set_of_getElem? here]⟩

/-- No step of one thread changes another one. -/
theorem Step.others {u : Nat} (step : Step env calls u p q) (other : u ≠ t)
    (here : p.threads[t]? = some s) : q.threads[t]? = some s := by
  obtain ⟨_, s', added, -, -, threads⟩ := step.threads
  obtain ⟨lt, -⟩ := List.getElem?_eq_some_iff.mp here
  rw [threads, List.getElem?_append_left (by rwa [List.length_set]), List.getElem?_set_ne other]
  exact here

theorem Step.turns (step : Step env calls t p q) (here : p.threads[t]? = some s) :
    ∃ s', q.threads[t]? = some s' ∧ s.Turns s' := by
  obtain ⟨_, s', added, here', turns, threads⟩ := step.threads
  cases here.symm.trans here'
  obtain ⟨lt, -⟩ := List.getElem?_eq_some_iff.mp here
  refine ⟨s', ?_, turns⟩
  rw [threads, List.getElem?_append_left (by rwa [List.length_set])]
  exact getElem?_set_of_some here s'

/-- Whatever other threads do, a thread keeps what it has selected. -/
theorem Moves.others (moves : Relation.ReflTransGen (Moves env Calls.all (· ≠ t)) p q)
    (here : p.threads[t]? = some s) : q.threads[t]? = some s := by
  induction moves with
  | refl => exact here
  | tail _ move ih =>
    obtain ⟨u, other, step⟩ := move
    exact step.others other ih

/-- While a guard is held, it stays where it is. -/
theorem Step.suffix {u : Nat} {f : Fixture κ} {guards : List (Fixture κ)}
    (step : Step env calls u p q) (here : p.threads[t]? = some s)
    (held : (f :: guards) <:+ s.guards) (above : q.HoldsOver guards t) :
    ∃ s', q.threads[t]? = some s' ∧ (f :: guards) <:+ s'.guards := by
  by_cases same : u = t
  · subst same
    obtain ⟨s', here', turns⟩ := step.turns here
    refine ⟨s', here', ?_⟩
    cases turns with
    | kept kept => rwa [kept]
    | entered entered =>
      rw [entered]
      exact held.trans (List.suffix_cons _ _)
    | left left =>
      rw [left] at held
      rcases List.suffix_cons_iff.mp held with whole | inner
      · -- this would have been the end of the guard
        have longer := above s' here'
        rw [(List.cons.inj whole).2] at longer
        exact absurd longer (Nat.lt_irrefl _)
      · exact inner
  · exact ⟨s, step.others same here, held⟩

theorem Throughout.suffix {f : Fixture κ} {guards : List (Fixture κ)}
    (during : Throughout env guards t p q) (here : p.threads[t]? = some s)
    (held : (f :: guards) <:+ s.guards) :
    ∃ s', q.threads[t]? = some s' ∧ (f :: guards) <:+ s'.guards := by
  induction during with
  | refl => exact ⟨s, here, held⟩
  | tail _ move ih =>
    obtain ⟨⟨u, -, step⟩, above⟩ := move
    obtain ⟨s', here', held'⟩ := ih
    exact step.suffix here' held' above

/-- When the scope ends that a thread has entered, what it had selected before is selected again. -/
theorem Throughout.restores {f : Fixture κ} {p₁ p₂ p₃ : Threaded κ η σ} {s₃ : Strand κ}
    (here : p.threads[t]? = some s) (entered : p.enter env t f = some p₁)
    (during : Throughout env s.guards t p₁ p₂) (left : p₂.leave t = some p₃)
    (here₃ : p₃.threads[t]? = some s₃) (ended : s₃.guards.length = s.guards.length) :
    s₃.fixture = s.fixture ∧ s₃.guards = s.guards := by
  cases (enter_of_some here).symm.trans entered
  obtain ⟨s₂, here₂, held⟩ := during.suffix (getElem?_set_of_some here _) (List.suffix_refl _)
  cases guards : s₂.guards with
  | nil =>
    rw [guards] at held
    simp at held
  | cons g rest =>
    cases (leave_of_some here₂ guards).symm.trans left
    cases (getElem?_set_of_some here₂ _).symm.trans here₃
    rw [guards] at held
    rcases List.suffix_cons_iff.mp held with whole | inner
    · obtain ⟨rfl, rfl⟩ := List.cons.inj whole
      exact ⟨rfl, rfl⟩
    · have shorter : rest.length = s.guards.length := ended
      have longer := inner.length_le
      rw [shorter] at longer
      exact absurd longer (Nat.not_succ_le_self _)

end Steps

end Threaded

namespace Client

variable [DecidableEq η] (env : Environment κ η σ)

theorem runTo_under (f : Fixture κ) (body : Client κ η σ α) (bound depth : Nat) :
    (under f body).runTo env bound depth = Run.scope f (body.runTo env bound depth) := by
  obtain ⟨nested, run_eq⟩ := exists_runTo_eq env bound depth
  rw [run_eq, run_eq, under, runWith]
  exact bind_pure _

theorem runTo_onThread (inherits : Bool) (body : Client κ η σ α) (bound depth : Nat)
    (w : World κ η σ) : (onThread inherits body).runTo env bound depth w =
      Run.thread (if inherits then w.fixture else env.production) (body.runTo env bound depth) w := by
  obtain ⟨nested, run_eq⟩ := exists_runTo_eq env bound depth
  rw [run_eq, run_eq, onThread, runWith, Run.bind_of_ok (Run.get_run w)]
  exact congrFun (bind_pure _) w

theorem fixture_under (f : Fixture κ) (body : Client κ η σ α) (bound depth : Nat)
    (w : World κ η σ) : (((under f body).runTo env bound depth).leaves w).fixture = w.fixture := by
  rw [runTo_under, Run.leaves_scope]

theorem fixture_onThread (inherits : Bool) (body : Client κ η σ α) (bound depth : Nat)
    (w : World κ η σ) :
    (((onThread inherits body).runTo env bound depth).leaves w).fixture = w.fixture := by
  rw [Run.leaves_congr (runTo_onThread env inherits body bound depth w), Run.leaves_thread]

end Client

namespace Threaded

section Programs

variable [DecidableEq η] {env : Environment κ η σ} {p q : Threaded κ η σ} {t : Nat} {s : Strand κ}

/-- A program under a fixture is the same as the program between the two ends of a scope. -/
theorem run_under (p : Threaded κ η σ) (t : Nat) (f : Fixture κ) (body : Client κ η σ α) :
    p.run env t (Client.under f body) =
      (p.enter env t f).bind fun p => (p.run env t body).bind fun p => p.leave t := by
  cases here : p.threads[t]? with
  | none =>
    rw [run, enter, here]
    rfl
  | some s =>
    have here₁ := getElem?_set_of_some here
    rw [run_of_some here, enter_of_some here, Option.bind_some, run_of_some (here₁ _),
      Option.bind_some, leave_of_some (getElem?_set_of_some (here₁ _) _) rfl, Client.run,
      Client.runTo_under, Run.leaves_scope]
    simp only [put, List.set_set]
    rfl

/-- A program on a thread of its own is the same as a new thread that runs it; at the end the thread is
forgotten. -/
theorem run_onThread (here : p.threads[t]? = some s) (inherits : Bool) (body : Client κ η σ α) :
    ∃ q child, (p.spawn env t inherits).bind (·.run env p.threads.length body) = some q ∧
      q.threads = p.threads ++ [child] ∧
      p.run env t (Client.onThread inherits body) = some ⟨q.world.forThread s, p.threads⟩ := by
  let child : Strand κ := ⟨if inherits then s.fixture else env.production, none, []⟩
  let left := (body.run env).leaves (p.world.forThread child)
  have new : (p.threads ++ [child])[p.threads.length]? = some child := by simp
  refine ⟨⟨left, p.threads ++ [⟨left.fixture, left.frame, []⟩]⟩, _, ?_, rfl, ?_⟩
  · rw [spawn_of_some here, Option.bind_some, run_of_some new, put,
      List.set_append_right _ _ (Nat.le_refl _), Nat.sub_self]
    rfl
  · have joined := Client.runTo_onThread env inherits body runLimit runLimit (p.world.forThread s)
    rw [run_of_some here, Client.run, Run.leaves_congr joined, Run.leaves_thread, put]
    have whole := set_of_getElem? here
    simp only [World.forThread, whole]
    rfl

theorem Reached.visited (reached : Reached env p) : Visited env p.world := by
  induction reached with
  | start client => exact .start env.production false client
  | step _ step ih =>
    obtain ⟨s, -, stepped⟩ := step.stepped
    have turn := Visited.enter s.frame s.fixture ih
    cases stepped with
    | ran _ => exact .step _ turn
    | entered f => exact .step (Client.ask (.setFixture f)) turn
    | left _ => exact .enter s.frame _ turn
    | used h busy => exact .use h busy turn
    | framed frame => exact .enter frame s.fixture turn
    | spawned _ => exact ih

/-- Steps that destroy nothing only add to the cache. -/
theorem Step.caches (orderly : env.Orderly) (consistent : p.world.ledger.Consistent)
    (step : Step env (Calls.harmless True) t p q) :
    q.world.ledger.Consistent ∧ p.world.cache <+: q.world.cache := by
  obtain ⟨s, -, stepped⟩ := step.stepped
  have program {α : Type} {c : Client κ η σ α}
      (only : c.Only (Calls.harmless True) (Calls.harmless True)) :
      ((c.run env).leaves (p.world.forThread s)).ledger.Consistent ∧
        p.world.cache <+: ((c.run env).leaves (p.world.forThread s)).cache := by
    obtain ⟨after, grows⟩ :=
      Client.respects_growing orderly runLimit runLimit only (p.world.forThread s) consistent
    obtain ⟨added, cache, -⟩ := grows.cache
    exact ⟨after, added, cache.symm⟩
  cases stepped with
  | ran only => exact program only
  | entered f => exact program (Client.only_ask (c := .setFixture f) trivial)
  | left _ => exact ⟨consistent, List.prefix_rfl⟩
  | used h busy => exact ⟨upholding_mark p.world h busy consistent, List.prefix_rfl⟩
  | framed _ => exact ⟨consistent, List.prefix_rfl⟩
  | spawned _ => exact ⟨consistent, List.prefix_rfl⟩

theorem Moves.caches (orderly : env.Orderly) (consistent : p.world.ledger.Consistent)
    (moves : Relation.ReflTransGen (Moves env (Calls.harmless True) fun _ => True) p q) :
    q.world.ledger.Consistent ∧ p.world.cache <+: q.world.cache := by
  induction moves with
  | refl => exact ⟨consistent, List.prefix_rfl⟩
  | tail _ move ih =>
    obtain ⟨t, -, step⟩ := move
    obtain ⟨after, caches⟩ := step.caches orderly ih.1
    exact ⟨after, ih.2.trans caches⟩

/-- What threads select in a state of a process, and where their memory calls go. -/
structure Selects (env : Environment κ η σ) (p : Threaded κ η σ) : Prop where
  /-- When a scope ends that the thread has entered, however it ends and whatever all threads did in the
  meantime, what was selected before is selected again. -/
  scope : ∀ {t : Nat} {s : Strand κ} {f : Fixture κ} {p₁ p₂ p₃ : Threaded κ η σ} {s₃ : Strand κ},
    p.threads[t]? = some s → p.enter env t f = some p₁ → Throughout env s.guards t p₁ p₂ →
    p₂.leave t = some p₃ → p₃.threads[t]? = some s₃ → s₃.guards.length = s.guards.length →
    s₃.fixture = s.fixture ∧ s₃.guards = s.guards
  /-- A scope of a program is one of these, also when the program inside is unwound. -/
  under : ∀ {α : Type} (t : Nat) (f : Fixture κ) (body : Client κ η σ α),
    p.run env t (Client.under f body) =
      (p.enter env t f).bind fun p => (p.run env t body).bind fun p => p.leave t
  /-- A new thread begins with what the other one has selected at that moment. -/
  spawned : ∀ t s, p.threads[t]? = some s → ∀ inherits, p.spawn env t inherits = some { p with
    threads := p.threads ++ [⟨if inherits then s.fixture else env.production, none, []⟩] }
  /-- What a program does on a thread of its own is what a new thread does. -/
  joined : ∀ {α : Type} t s, p.threads[t]? = some s → ∀ inherits (body : Client κ η σ α),
    ∃ q child, (p.spawn env t inherits).bind (·.run env p.threads.length body) = some q ∧
      q.threads = p.threads ++ [child] ∧
      p.run env t (Client.onThread inherits body) = some ⟨q.world.forThread s, p.threads⟩
  /-- Wherever they stand in a program, scopes and threads leave the selection as it was. -/
  inner : ∀ {α : Type} (body : Client κ η σ α) bound depth (w : World κ η σ),
    (∀ f, (((Client.under f body).runTo env bound depth).leaves w).fixture = w.fixture) ∧
      ∀ inherits,
        (((Client.onThread inherits body).runTo env bound depth).leaves w).fixture = w.fixture
  /-- No other thread changes what a thread has selected. -/
  apart : ∀ (t : Nat) (s : Strand κ) (q : Threaded κ η σ), p.threads[t]? = some s →
    Relation.ReflTransGen (Moves env Calls.all (· ≠ t)) p q → q.threads[t]? = some s
  /-- A memory call goes to the instance that the registry holds for what its thread has selected. -/
  routes : ∀ (t : Nat) (s : Strand κ), p.threads[t]? = some s → ∀ bound below,
    (p.world.forThread s).Routes env bound below
  /-- It goes to the same instance again as long as nothing is destroyed. -/
  kept : env.Orderly → ∀ q,
    Relation.ReflTransGen (Moves env (Calls.harmless True) fun _ => True) p q →
    p.world.cache <+: q.world.cache

/-- However the threads of a process have run programs, entered and left scopes, and started others. -/
theorem Reached.selects (reached : Reached env p) : p.Selects env where
  scope here entered during left here₃ ended := during.restores here entered left here₃ ended
  under t f body := p.run_under t f body
  spawned _ _ here inherits := spawn_of_some here inherits
  joined _ _ here inherits body := run_onThread here inherits body
  inner body bound depth w :=
    ⟨fun f => Client.fixture_under env f body bound depth w,
      fun inherits => Client.fixture_onThread env inherits body bound depth w⟩
  apart _ _ _ here moves := Moves.others moves here
  routes _ s _ bound below :=
    World.routes (Visited.enter s.frame s.fixture reached.visited).consistent bound below
  kept orderly _ moves := (Moves.caches orderly reached.visited.consistent moves).2

end Programs

end Threaded

open Script

/-- A creation of a ring looks up a ring, and the first teardown of one takes a block of the heap. -/
def rings : Environment KindRef Nat (Session Unit) where
  kind := Catalog.kind [("ring", .layered
    { id := ⟨"ring"⟩, name := "ring", sources := ["ring"], hold := 0, depth := 1,
      revived := ["system"] })]
  hook _ := return ()
  production := productionFixture

def ringFixture : Fixture KindRef := ⟨"rings", .named "ring"⟩

/-- A block of the heap was allocated. -/
def ringsFed : World KindRef Nat (Session Unit) :=
  ((Memory.allocate 8).run rings).leaves (World.start productionFixture false (.start ()))

/-- Then rings were selected. -/
def ringsEntered : Threaded KindRef Nat (Session Unit) where
  world := { ringsFed with
    fixture := ringFixture
    journal := ringsFed.journal.push (.record (.fixtureSelected ringFixture.name)) }
  threads := [⟨ringFixture, ringsFed.frame, [ringsFed.fixture]⟩]

theorem ringsEntered_reached : Threaded.Reached rings ringsEntered := by
  have fed : Threaded.Reached rings ⟨ringsFed, [⟨ringsFed.fixture, ringsFed.frame, []⟩]⟩ :=
    .step (t := 0) (.start (.start ())) (.run (Client.only_all (Memory.allocate 8)) rfl)
  exact .step (t := 0) fed (.enter (f := ringFixture) rfl)

/-- How many blocks of an instance are live that is a heap. -/
def World.blocks (w : World κ η σ) (h : Handle) : Option Nat :=
  match w.instances[h.number]?.bind Instance.state with
  | some (.heap x) => some x.live
  | _ => none

/-- The creation of a ring changes nothing of the heap, but a call that creates a ring does: the teardown
of the surplus ring takes a block. -/
theorem rings_surplus_takes :
    Threaded.Reached rings ringsEntered ∧
      ringsEntered.threads.map (·.fixture.kind) = [.named "ring"] ∧
      ringsEntered.world.cache = [(⟨"system"⟩, ⟨0⟩)] ∧
      ringsEntered.world.blocks ⟨0⟩ = some 1 ∧
      (((rings.kind (.named "ring")).create.run rings).leaves ringsEntered.world).blocks ⟨0⟩ =
        some 1 ∧
      (((Memory.allocate 8).run rings).leaves ringsEntered.world).cache =
        [(⟨"system"⟩, ⟨0⟩), (⟨"ring"⟩, ⟨1⟩)] ∧
      (((Memory.allocate 8).run rings).leaves ringsEntered.world).blocks ⟨0⟩ = some 2 := by
  refine ⟨ringsEntered_reached, rfl, ?_, ?_, ?_, ?_, ?_⟩ <;> decide +kernel

theorem ringsEntered_selects :
    Threaded.Reached rings ringsEntered ∧ ringsEntered.Selects rings :=
  ⟨ringsEntered_reached, ringsEntered_reached.selects⟩

end MemoryTrial
