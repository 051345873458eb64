import MemoryTrial.Proofs.World.Consistency
import MemoryTrial.Proofs.World.Depth
import MemoryTrial.Proofs.World.Teardown

/-! The teardown of a registry comes to its end, although the teardowns of its instances may look up
others: each round either is the first teardown of a kind, or leaves fewer instances in the cache
(`Drains.length_le`).  A panic stops it, and the next teardown goes on with the newest instance that is
left (`Visited.teardown_ends`).  In the loop each instance is destroyed from the state in which it was
taken out of the cache (`Unwinds`), and whatever else is torn down meanwhile is destroyed as well
(`World.Enacts`). -/

namespace MemoryTrial

variable {κ η σ α β : Type}

/-- From one cache to another by taking out the newest entry again and again.  In the meantime newer
entries may come in after the ones that are left. -/
inductive Drained : List (KindId × Handle) → List Handle → List (KindId × Handle) → Prop
  | done (cache : List (KindId × Handle)) : Drained cache [] cache
  | pop {older added left : List (KindId × Handle)} {newest : KindId × Handle}
    {popped : List Handle} :
    (∀ e ∈ added, ∀ e' ∈ older ++ [newest], e'.2.number < e.2.number) →
    Drained (older ++ added) popped left → Drained (older ++ [newest]) (newest.2 :: popped) left

/-- No cached instance is in use. -/
def World.Unused (w : World κ η σ) : Prop :=
  ∀ e ∈ w.cache, ∀ inst, w.instances[e.2.number]? = some inst → inst.busy = false

/-- A registry that can be torn down. -/
structure World.Ready (w : World κ η σ) : Prop where
  consistent : w.ledger.Consistent
  unused : w.Unused

theorem World.Ready.of_still {w w' : World κ η σ} (ready : w.Ready) (same : Still w w') :
    w'.Ready := by
  constructor
  · rw [ledger_of_tidy same.tidy]
    exact ready.consistent
  · rw [World.Unused, same.cache, same.instances]
    exact ready.unused

def World.Destroyed (w : World κ η σ) (h : Handle) : Prop :=
  ∃ inst, w.instances[h.number]? = some inst ∧ inst.state = none

/-- From one state to the other by destroying the newest instance in the cache, which leaves it first,
again and again. -/
inductive Unwinds (env : Environment κ η σ) (nested : Nested κ η σ) :
    World κ η σ → List Handle → World κ η σ → Prop
  | done (w : World κ η σ) : Unwinds env nested w [] w
  | still {w v w' : World κ η σ} {popped : List Handle} :
    Still w v → Unwinds env nested v popped w' → Unwinds env nested w popped w'
  | destroyed {w v w' : World κ η σ} {older : List (KindId × Handle)} {newest : KindId × Handle}
    {inst : Instance κ} {a : Allocator} {popped : List Handle} :
    w.cache = older ++ [newest] → { w with cache := older }.Usable newest.2 inst a →
    { w with cache := older }.Destruction env nested newest.2 inst a v →
    Unwinds env nested v popped w' → Unwinds env nested w (newest.2 :: popped) w'

/-- What teardowns of a registry have done between two states: they took the instances `popped` out of
the cache, one after the other, and destroyed them. -/
structure World.Sheds (env : Environment κ η σ) (nested : Nested κ η σ) (w : World κ η σ)
    (popped : List Handle) (w' : World κ η σ) : Prop where
  ran : Unwinds env nested w popped w'
  newest_first : Drained w.cache popped w'.cache
  /-- The cache has the entries, old ones and new ones, that were not taken out, in their order. -/
  left : ∃ added, (∀ e ∈ added, w.instances.size ≤ e.2.number) ∧
    w'.cache = (w.cache ++ added).filter (·.2 ∉ popped)
  torn : ∃ told, w'.ledger.tornDown = w.ledger.tornDown ++ told ∧ popped.Sublist told
  once : w'.ledger.tornDown.Nodup
  destroyed : ∀ h ∈ popped, w'.Destroyed h
  live : ∀ e ∈ w'.cache, w'.Lives e.1 e.2
  /-- What look-ups created in the meantime is cached until it is destroyed. -/
  cached : ∀ id h, w'.Lives id h → w.instances.size ≤ h.number → (id, h) ∈ w'.cache

/-- A round of a teardown of a registry: the newest entry is taken out of the cache, and its instance,
which is one of the kind `k`, is destroyed.  Tasks inside its teardown may look up others. -/
structure World.Round (env : Environment κ η σ) (nested : Nested κ η σ) (w : World κ η σ)
    (older added : List (KindId × Handle)) (newest : KindId × Handle) (k : κ)
    (during : List (List (Task κ))) (w' : World κ η σ) : Prop where
  ready : w'.Ready
  strays : ∀ id h, w'.ledger.Stray id h → w.ledger.Stray id h
  idle : w'.tasks.active = []
  size : w.instances.size ≤ w'.instances.size
  torn : ∃ told, w'.ledger.tornDown = w.ledger.tornDown ++ newest.2 :: told
  before : w.cache = older ++ [newest]
  after : w'.cache = older ++ added
  fresh : ∀ e ∈ added, w.instances.size ≤ e.2.number
  begun : w'.tasks.begun = during ++ [.teardown newest.2 k] :: w.tasks.begun
  traced : Tasks.Traced [] (during ++ [[.teardown newest.2 k]])
  looked : ∀ e ∈ added, ∃ k' inner, .lookUp k' :: (inner ++ [.teardown newest.2 k]) ∈ during ∧
    (env.kind k').id = e.1
  ran : ∃ inst a, { w with cache := older }.Usable newest.2 inst a ∧
    { w with cache := older }.Destruction env nested newest.2 inst a w'

/-- Teardowns of a registry, round after round. -/
inductive Drains (env : Environment κ η σ) (nested : Nested κ η σ) :
    World κ η σ → List Handle → World κ η σ → Prop
  | done (w : World κ η σ) : Drains env nested w [] w
  | still {w v w' : World κ η σ} {popped : List Handle} :
    Still w v → Drains env nested v popped w' → Drains env nested w popped w'
  | round {w v w' : World κ η σ} {older added : List (KindId × Handle)} {newest : KindId × Handle}
    {k : κ} {during : List (List (Task κ))} {popped : List Handle} :
    w.Round env nested older added newest k during v → Drains env nested v popped w' →
    Drains env nested w (newest.2 :: popped) w'

namespace Run

variable {env : Environment κ η σ} {nested : Nested κ η σ} {w : World κ η σ} {h : Handle}
  {id : KindId} {older : List (KindId × Handle)}

/-- Whoever creates an instance does not use it any more when it is cached. -/
theorem unused_of_grows {w w' : World κ η σ} {l : Ledger} (unused : w.Unused)
    (grows : l.Grows True w'.ledger) (cache : l.cache ⊆ w.cache) (busy : l.busy = w.ledger.busy)
    (cards : l.cards.length = w.instances.size) : w'.Unused := by
  intro e mem inst here
  have mark := (w'.busy_ledger e.2.number).trans (congrArg _ here)
  obtain ⟨n, marks⟩ := grows.busy
  obtain ⟨added, whole, fresh, -⟩ := grows.cache
  have size : l.busy.length = w.instances.size := by simp [busy, World.ledger]
  rw [marks, List.getElem?_append] at mark
  split at mark
  next old =>
    rw [size] at old
    have mem : e ∈ l.cache ++ added := whole ▸ mem
    rcases List.mem_append.mp mem with mem | new
    · rw [busy, w.busy_ledger] at mark
      obtain ⟨inst', here', same⟩ := Option.map_eq_some_iff.mp mark
      rw [← same]
      exact unused e (cache mem) inst' here'
    · have new := fresh e new
      omega
  next =>
    rw [List.getElem?_replicate] at mark
    split at mark
    · exact (Option.some.inj mark).symm
    · cases mark

theorem round_newest (ready : w.Ready) (idle : w.tasks.active = [])
    (cache : w.cache = older ++ [(id, h)])
    (closes : ∀ k holdings, (nested ((env.kind k).close holdings)).Respects (growing True))
    (traces : ∀ h k holdings, (nested ((env.kind k).close holdings)).Respects
      (tracing env [.teardown h k] nothing)) :
    ∃ added k during, w.Round env nested older added (id, h) k during
      ((destroy env nested h).leaves { w with cache := older }) := by
  have mem : (id, h) ∈ w.cache := by simp [cache]
  have card := ready.consistent.caches.live (id, h) mem
  obtain ⟨inst, a, here, -, -, state⟩ := World.exists_of_card card
  have unused := ready.unused (id, h) mem inst here
  obtain ⟨popped, hpopped⟩ : ∃ popped, popped = { w with cache := older } := ⟨_, rfl⟩
  have forgot : popped.ledger = w.ledger.forget h := by
    have last : w.cache.getLast? = some (id, h) := by simp [cache]
    have ledger := World.ledger_pop ready.consistent.caches last
    rw [hpopped, ← ledger, cache, List.dropLast_concat]
  have size : (popped.ledger.bury h).cards.length = w.instances.size := by
    simp [hpopped, World.ledger, Ledger.bury]
  have buried := ready.consistent.forget_bury card rfl
  rw [← forgot] at buried
  have here' : popped.instances[h.number]? = some inst := by rw [hpopped, here]
  have active : popped.tasks.active = [] := by rw [hpopped, idle]
  obtain ⟨after, grows⟩ := destroy_live (closes _ _) here' state unused buried
  obtain ⟨active', during, begun, traced, looked⟩ := destroy_traces here' state unused
    (active ▸ traces h inst.kind inst.holdings)
  rw [active] at active' begun traced looked
  obtain ⟨added, left, fresh, -⟩ := grows.cache
  obtain ⟨more, tornDown⟩ := grows.tornDown
  rw [← hpopped]
  refine ⟨added, inst.kind, during, ⟨after, unused_of_grows ready.unused grows ?_ ?_ size⟩, ?_,
    active', ?_, ⟨more, ?_⟩, cache, ?_, size ▸ fresh, ?_, traced.nest trivial, fun e mem => ?_, ?_⟩
  · rw [forgot]
    exact fun e mem => List.mem_of_mem_filter mem
  · rw [forgot]
    rfl
  · intro id' h' stray
    have before := grows.strays id' h' stray
    rw [forgot] at before
    exact before.of_forget_bury
  · have cards := grows.cards.length_le
    rw [size] at cards
    simpa [World.ledger] using cards
  · rw [← tornDown, forgot]
    exact List.append_assoc ..
  · rw [hpopped] at left ⊢
    exact left
  · rw [begun, hpopped]
  · have cached : e ∈ ((destroy env nested h).leaves popped).cache := by
      have whole : ((destroy env nested h).leaves popped).cache = popped.cache ++ added := left
      rw [whole]
      exact List.mem_append_right _ mem
    refine (looked e cached).resolve_left fun old => ?_
    -- what was there before has smaller numbers
    have known := ready.consistent.caches.number_lt (e := e) (by
      rw [hpopped] at old
      change e ∈ w.cache
      rw [cache]
      exact List.mem_append_left _ old)
    have new := fresh e mem
    rw [size] at new
    simp only [World.ledger, List.length_map, Array.length_toList] at known
    omega
  · have usable : popped.Usable h inst a := ⟨here', state, unused⟩
    rw [← hpopped]
    exact ⟨inst, a, usable, destruction_of_usable usable⟩

end Run

namespace World.Round

variable {env : Environment κ η σ} {nested : Nested κ η σ} {w w' : World κ η σ}
  {older added : List (KindId × Handle)}
  {newest : KindId × Handle} {k : κ} {during later : List (List (Task κ))} {kinds : List κ}
  {recursion : Nat}

theorem number_lt (round : w.Round env nested older added newest k during w')
    (begun : w.ledger.Consistent) :
    ∀ e ∈ older ++ [newest], e.2.number < w.instances.size := by
  intro e mem
  rw [← round.before] at mem
  have known := begun.caches.number_lt mem
  simpa [World.ledger] using known

theorem modest_later (round : w.Round env nested older added newest k during w')
    (modest : Tasks.Modest kinds recursion (later ++ (during ++ [[.teardown newest.2 k]]))
      w.tasks.begun) : Tasks.Modest kinds recursion later w'.tasks.begun := by
  have modest := modest.mono_left
  rw [List.append_assoc] at modest
  rwa [round.begun]

/-- The teardown of an instance does not add entries if it is not the first one of its kind. -/
theorem added_eq_nil (round : w.Round env nested older added newest k during w')
    (modest : Tasks.Modest kinds recursion (later ++ (during ++ [[.teardown newest.2 k]]))
      w.tasks.begun)
    (again : ∃ h around, .teardown h k :: around ∈ w.tasks.begun) : added = [] := by
  refine List.eq_nil_iff_forall_not_mem.mpr fun e mem => ?_
  obtain ⟨k', inner, mem, -⟩ := round.looked e mem
  have first := modest.revivals k' _ (List.mem_append_right later (List.mem_append_left _ mem))
    newest.2 k (List.mem_append_right inner (List.mem_singleton_self _))
  obtain ⟨h, around, earlier⟩ := again
  exact first (later ++ during) [] w.tasks.begun (by simp) h around earlier

/-- The teardown of an instance adds an entry for each kind at most. -/
theorem length_added_le (round : w.Round env nested older added newest k during w')
    (modest : Tasks.Modest kinds recursion (later ++ (during ++ [[.teardown newest.2 k]]))
      w.tasks.begun) : added.length ≤ kinds.length := by
  have distinct : (added.map Prod.fst).Nodup := by
    have ids := round.ready.consistent.caches.ids
    change (w'.cache.map Prod.fst).Nodup at ids
    rw [round.after, List.map_append, List.nodup_append] at ids
    exact ids.2.1
  have named : added.map Prod.fst ⊆ kinds.map fun k => (env.kind k).id := by
    intro id mem
    obtain ⟨e, added, rfl⟩ := List.mem_map.mp mem
    obtain ⟨k', inner, begun, id⟩ := round.looked e added
    refine List.mem_map.mpr ⟨k', ?_, id⟩
    exact modest.known (.lookUp k') _ (List.mem_append_right later (List.mem_append_left _ begun))
  simpa using (List.subperm_of_subset distinct named).length_le

end World.Round

namespace Drains

variable {env : Environment κ η σ} {nested : Nested κ η σ} {w v w' : World κ η σ}
  {popped popped' : List Handle}

theorem trans (first : Drains env nested w popped v) (second : Drains env nested v popped' w') :
    Drains env nested w (popped ++ popped') w' := by
  induction first with
  | done => exact second
  | still same _ ih => exact .still same (ih second)
  | round round _ ih => exact .round round (ih second)

theorem ready (drains : Drains env nested w popped w') (begun : w.Ready) : w'.Ready := by
  induction drains with
  | done => exact begun
  | still same _ ih => exact ih (begun.of_still same)
  | round round _ ih => exact ih round.ready

theorem strays (drains : Drains env nested w popped w') {id : KindId} {h : Handle}
    (stray : w'.ledger.Stray id h) : w.ledger.Stray id h := by
  induction drains with
  | done => exact stray
  | still same _ ih =>
    rw [← ledger_of_tidy same.tidy]
    exact ih stray
  | round round _ ih => exact round.strays id h (ih stray)

theorem tasks (drains : Drains env nested w popped w') (idle : w.tasks.active = []) :
    w'.tasks.active = [] ∧ ∃ told, w'.tasks.begun = told ++ w.tasks.begun ∧
      Tasks.Traced [] told := by
  induction drains with
  | done => exact ⟨idle, [], rfl, .nil⟩
  | still same _ ih =>
    rw [← same.tasks] at idle ⊢
    exact ih idle
  | round round _ ih =>
    obtain ⟨after, later, begun, traced⟩ := ih round.idle
    refine ⟨after, _, ?_, round.traced.append traced⟩
    rw [begun, round.begun]
    simp

theorem torn (drains : Drains env nested w popped w') :
    ∃ told, w'.ledger.tornDown = w.ledger.tornDown ++ told ∧ popped.Sublist told := by
  induction drains with
  | done => exact ⟨[], (List.append_nil _).symm, .slnil⟩
  | still same _ ih =>
    rw [← ledger_of_tidy same.tidy]
    exact ih
  | round round _ ih =>
    obtain ⟨told', tornDown', sub⟩ := ih
    obtain ⟨told, tornDown⟩ := round.torn
    refine ⟨_ :: (told ++ told'), ?_, .cons_cons _ (List.sublist_append_of_sublist_right sub)⟩
    rw [tornDown', tornDown, List.append_assoc, List.cons_append]

theorem unwinds (drains : Drains env nested w popped w') : Unwinds env nested w popped w' := by
  induction drains with
  | done => exact .done _
  | still same _ ih => exact .still same ih
  | round round _ ih =>
    obtain ⟨inst, a, usable, destruction⟩ := round.ran
    exact .destroyed round.before usable destruction ih

theorem newest_first (drains : Drains env nested w popped w') (begun : w.ledger.Consistent) :
    Drained w.cache popped w'.cache := by
  induction drains with
  | done => exact .done _
  | still same _ ih =>
    rw [← ledger_of_tidy same.tidy] at begun
    rw [← same.cache]
    exact ih begun
  | round round _ ih =>
    have later := ih round.ready.consistent
    rw [round.after] at later
    rw [round.before]
    refine .pop (fun e mem e' mem' => ?_) later
    exact Nat.lt_of_lt_of_le (round.number_lt begun e' mem') (round.fresh e mem)

theorem left (drains : Drains env nested w popped w') (begun : w.ledger.Consistent) :
    ∃ added, (∀ e ∈ added, w.instances.size ≤ e.2.number) ∧
      w'.cache = (w.cache ++ added).filter (·.2 ∉ popped) := by
  induction drains with
  | done => exact ⟨[], nofun, by simp⟩
  | still same _ ih =>
    rw [← ledger_of_tidy same.tidy] at begun
    rw [← same.cache, ← same.instances]
    exact ih begun
  | @round w v w' older added newest k during popped round _ ih =>
    obtain ⟨later, fresh', left⟩ := ih round.ready.consistent
    have ordered : (older ++ [newest]).Pairwise fun older newer => older.2.number < newer.2.number := by
      rw [← round.before]
      exact begun.ordered
    have old := round.number_lt begun newest (by simp)
    have new (e : KindId × Handle) (mem : e ∈ added ++ later) : w.instances.size ≤ e.2.number := by
      rcases List.mem_append.mp mem with mem | mem
      · exact round.fresh e mem
      · exact round.size.trans (fresh' e mem)
    -- no other entry is about the instance that was popped
    have others (entries : List (KindId × Handle)) (apart : ∀ e ∈ entries, e.2 ≠ newest.2) :
        entries.filter (·.2 ∉ newest.2 :: popped) = entries.filter (·.2 ∉ popped) := by
      refine List.filter_congr fun e mem => decide_eq_decide.mpr ?_
      simp [apart e mem]
    have gone : [newest].filter (·.2 ∉ newest.2 :: popped) = [] := by simp
    have beside : ∀ e ∈ older, e.2 ≠ newest.2 := by
      intro e mem same
      have less := (List.pairwise_append.mp ordered).2.2 e mem newest (List.mem_singleton_self _)
      rw [same] at less
      exact Nat.lt_irrefl _ less
    have beyond : ∀ e ∈ added ++ later, e.2 ≠ newest.2 := by
      intro e mem same
      have more := new e mem
      rw [same] at more
      omega
    refine ⟨added ++ later, new, ?_⟩
    rw [left, round.after, round.before, List.filter_append (older ++ [newest]),
      List.filter_append older, gone, others older beside, others (added ++ later) beyond,
      List.append_nil, ← List.filter_append, List.append_assoc]

/-- A round is the first teardown of a kind, or the cache has fewer entries afterwards.  The kinds of
which no instance was torn down so far are among `untouched`. -/
theorem length_le (drains : Drains env nested w popped w') {kinds : List κ} (untouched : List κ)
    {recursion : Nat} {told : List (List (Task κ))} (idle : w.tasks.active = [])
    (begun : w'.tasks.begun = told ++ w.tasks.begun)
    (modest : Tasks.Modest kinds recursion told w.tasks.begun)
    (touched : ∀ k ∈ kinds, k ∈ untouched ∨ ∃ h around, .teardown h k :: around ∈ w.tasks.begun) :
    popped.length ≤ untouched.length * (kinds.length + 1) + w.cache.length := by
  induction drains generalizing told untouched with
  | done => exact Nat.zero_le _
  | still same _ ih =>
    rw [← same.tasks] at idle begun modest touched
    rw [← same.cache]
    exact ih untouched idle begun modest touched
  | @round w v w' older added newest k during popped round drains ih =>
    obtain ⟨-, later, begun', -⟩ := drains.tasks round.idle
    have whole : told ++ w.tasks.begun =
        later ++ (during ++ [[.teardown newest.2 k]]) ++ w.tasks.begun := by
      rw [← begun, begun', round.begun]
      simp
    obtain rfl := List.append_cancel_right whole
    have this_round : [.teardown newest.2 k] ∈ v.tasks.begun := by simp [round.begun]
    have before {stack : List (Task κ)} (mem : stack ∈ w.tasks.begun) : stack ∈ v.tasks.begun := by
      simp [round.begun, mem]
    have counted (untouched' : List κ) (touched' : ∀ k' ∈ kinds,
        k' ∈ untouched' ∨ ∃ h around, .teardown h k' :: around ∈ v.tasks.begun) :
        popped.length ≤ untouched'.length * (kinds.length + 1) + (older.length + added.length) := by
      have fewer := ih untouched' round.idle begun' (round.modest_later modest) touched'
      rwa [round.after, List.length_append] at fewer
    rw [round.before, List.length_append, List.length_singleton, List.length_cons]
    by_cases again : ∃ h around, .teardown h k :: around ∈ w.tasks.begun
    · have none := round.added_eq_nil modest again
      have fewer := counted untouched (by
        intro k' mem
        rcases touched k' mem with mem | ⟨h, around, earlier⟩
        · exact .inl mem
        · exact .inr ⟨h, around, before earlier⟩)
      rw [none, List.length_nil] at fewer
      omega
    · have few := round.length_added_le modest
      have known := modest.known (.teardown newest.2 k) [] (by simp)
      have among := (touched k known).resolve_right again
      obtain ⟨front, back, rfl⟩ := List.append_of_mem among
      have fewer := counted (front ++ back) (by
        intro k' mem
        rcases touched k' mem with mem | ⟨h, around, earlier⟩
        · rcases List.mem_append.mp mem with mem | mem
          · exact .inl (List.mem_append_left back mem)
          · rcases List.mem_cons.mp mem with rfl | mem
            · exact .inr ⟨newest.2, [], this_round⟩
            · exact .inl (List.mem_append_right front mem)
        · exact .inr ⟨h, around, before earlier⟩)
      have one_less : (front ++ k :: back).length * (kinds.length + 1) =
          (front ++ back).length * (kinds.length + 1) + (kinds.length + 1) := by
        rw [List.length_append, List.length_append, List.length_cons, ← Nat.add_assoc, Nat.add_mul,
          Nat.one_mul]
      omega

end Drains

theorem World.destroyed_of_torn {w : World κ η σ} {h : Handle} (consistent : w.ledger.Consistent)
    (torn : h ∈ w.ledger.tornDown) : w.Destroyed h := by
  have some_time := List.count_pos_iff.mpr torn
  cases here : w.instances[h.number]? with
  | none =>
    rw [consistent.once, Ledger.dead, w.card_ledger, here] at some_time
    cases some_time
  | some inst =>
    rw [World.count_torn consistent here] at some_time
    cases state : inst.state with
    | none => exact ⟨inst, here, state⟩
    | some a => simp [state] at some_time

theorem Drains.sheds {env : Environment κ η σ} {nested : Nested κ η σ} {w w' : World κ η σ}
    {popped : List Handle} (drains : Drains env nested w popped w') (begun : w.Ready) :
    w.Sheds env nested popped w' := by
  have consistent := (drains.ready begun).consistent
  obtain ⟨told, torn, sub⟩ := drains.torn
  refine ⟨drains.unwinds, drains.newest_first begun.consistent, drains.left begun.consistent,
    ⟨told, torn, sub⟩, ?_, fun h mem => ?_, fun e mem => World.lives_iff.mpr (consistent.caches.live e mem),
    fun id h lives new => ?_⟩
  · refine List.nodup_iff_count_le_one.mpr fun h => ?_
    rw [consistent.once]
    exact Bool.toNat_le _
  · refine World.destroyed_of_torn consistent ?_
    rw [torn]
    exact List.mem_append_right _ (sub.subset mem)
  · refine Decidable.of_not_not fun uncached => ?_
    -- an instance that went astray was there before
    have stray := drains.strays ⟨World.lives_iff.mp lives, uncached⟩
    have old := Ledger.number_lt stray.live
    simp only [World.ledger, List.length_map, Array.length_toList] at old
    omega

/-- How the loop of a teardown ends, which has taken `popped` out of the cache by then. -/
inductive DrainEnds (env : Environment κ η σ) (nested : Nested κ η σ) (rounds : Nat)
    (w : World κ η σ) (popped : List Handle) : EStateM.Result Halt (World κ η σ) Unit → Prop
  | emptied {w' : World κ η σ} : w'.cache = [] → DrainEnds env nested rounds w popped (.ok () w')
  | stopped {before : List Handle} {u w' : World κ η σ} {older : List (KindId × Handle)}
    {id : KindId} {h : Handle} {halt : Halt} :
    popped = before ++ [h] → Drains env nested w before u → u.cache = older ++ [(id, h)] →
    Run.destroy env nested h { u with cache := older } = .error halt w' →
    DrainEnds env nested rounds w popped (.error halt w')
  | cut {w' : World κ η σ} :
    popped.length = rounds → DrainEnds env nested rounds w popped (.error .endless w')

theorem DrainEnds.after_round {env : Environment κ η σ} {nested : Nested κ η σ} {rounds : Nat}
    {w v : World κ η σ} {older added : List (KindId × Handle)} {newest : KindId × Handle} {k : κ}
    {during : List (List (Task κ))} {popped : List Handle}
    {result : EStateM.Result Halt (World κ η σ) Unit}
    (round : w.Round env nested older added newest k during v)
    (ends : DrainEnds env nested rounds v popped result) :
    DrainEnds env nested (rounds + 1) w (newest.2 :: popped) result := by
  cases ends with
  | emptied none => exact .emptied none
  | stopped split before left failed =>
    rw [split]
    exact .stopped rfl (.round round before) left failed
  | cut all => exact .cut (congrArg (· + 1) all)

theorem DrainEnds.of_still {env : Environment κ η σ} {nested : Nested κ η σ} {rounds : Nat}
    {w v : World κ η σ} {popped : List Handle} {result : EStateM.Result Halt (World κ η σ) Unit}
    (same : Still w v) (ends : DrainEnds env nested rounds v popped result) :
    DrainEnds env nested rounds w popped result := by
  cases ends with
  | emptied none => exact .emptied none
  | stopped split before left failed => exact .stopped split (.still same before) left failed
  | cut all => exact .cut all

namespace Run

theorem drainCache_drains {env : Environment κ η σ} {nested : Nested κ η σ} {w : World κ η σ}
    (closes : ∀ k holdings, (nested ((env.kind k).close holdings)).Respects (growing True))
    (traces : ∀ h k holdings, (nested ((env.kind k).close holdings)).Respects
      (tracing env [.teardown h k] nothing))
    (rounds : Nat) (ready : w.Ready) (idle : w.tasks.active = []) :
    ∃ popped, Drains env nested w popped ((drainCache env nested rounds).leaves w) ∧
      DrainEnds env nested rounds w popped (drainCache env nested rounds w) := by
  induction rounds generalizing w with
  | zero => exact ⟨[], .done w, .cut rfl⟩
  | succ rounds ih =>
    cases last : w.cache.getLast? with
    | none =>
      have run : drainCache env nested (rounds + 1) w = .ok () w := by
        rw [drainCache, bind_of_ok (get_run w), last]
        rfl
      rw [leaves_of_ok run, run]
      exact ⟨[], .done w, .emptied (List.getLast?_eq_none_iff.mp last)⟩
    | some newest =>
      obtain ⟨id, h⟩ := newest
      obtain ⟨older, cache⟩ := List.getLast?_eq_some_iff.mp last
      have rest : w.cache.dropLast = older := by rw [cache, List.dropLast_concat]
      have run : drainCache env nested (rounds + 1) w =
          (destroy env nested h >>= fun _ => drainCache env nested rounds)
            { w with cache := older } := by
        rw [drainCache, bind_of_ok (get_run w), last]
        dsimp only
        rw [bind_of_ok (modify_run _ w), rest]
      obtain ⟨added, k, during, round⟩ := round_newest ready idle cache closes traces
      cases ended : destroy env nested h { w with cache := older } with
      | ok _ v =>
        rw [leaves_of_ok ended] at round
        obtain ⟨popped, drains, ends⟩ := ih round.ready round.idle
        rw [leaves_congr run, leaves_bind_of_ok ended, run, bind_of_ok ended]
        exact ⟨h :: popped, .round round drains, ends.after_round round⟩
      | error halt v =>
        have failed := bind_of_error (f := fun _ => drainCache env nested rounds) ended
        rw [leaves_of_error ended] at round
        rw [leaves_of_error (run.trans failed), run.trans failed]
        exact ⟨[h], .round round (.done v), .stopped (List.nil_append _).symm (.done w) cache ended⟩

theorem exists_of_destroy_error {env : Environment κ η σ} {nested : Nested κ η σ}
    {w w' : World κ η σ} {h : Handle} {inst : Instance κ} {a : Allocator} {halt : Halt}
    (here : w.instances[h.number]? = some inst) (state : inst.state = some a)
    (unused : inst.busy = false) (failed : destroy env nested h w = .error halt w') :
    ∃ u u', tearDown env nested inst a u = .error halt u' ∧
      u.tasks.active = .teardown h inst.kind :: w.tasks.active ∧
      u.instances[h.number]? = some { inst with state := none } := by
  rw [destroy_of_live here state unused] at failed
  cases torn : tearDown env nested inst a (World.begin { w with
      instances := w.instances.modify h.number fun inst => { inst with state := none }
      journal := w.journal.push (.tornDown h) } (.teardown h inst.kind)) with
  | ok _ v =>
    rw [ensuring_of_ok (during_of_ok torn)] at failed
    cases failed
  | error halt' v =>
    rw [ensuring_of_error (during_of_error torn)] at failed
    cases failed
    refine ⟨_, v, torn, rfl, ?_⟩
    simp [World.begin, Array.getElem?_modify, here]

end Run

/-- Between two states creations recursed boundedly, and instances were looked up inside a teardown
only if it was the first one of its kind. -/
def World.Modest (kinds : List κ) (recursion : Nat) (w w' : World κ η σ) : Prop :=
  ∃ told, w'.tasks.begun = told ++ w.tasks.begun ∧
    Tasks.Modest kinds recursion told w.tasks.begun

/-- How a teardown of a registry ends that took `popped` out of the cache: it returns, and nothing that
it is about is left; or the teardown of the instance that was taken out last panics. -/
inductive World.TeardownEnds (env : Environment κ η σ) (nested : Nested κ η σ) (w w' : World κ η σ)
    (popped : List Handle) : EStateM.Result Halt (World κ η σ) Unit → Prop
  | returned : w'.cache = [] →
    (∀ h, w.Concerns w' h →
      w'.Destroyed h ∧ h ∉ w.ledger.tornDown ∧ w'.ledger.tornDown.count h = 1) →
    World.TeardownEnds env nested w w' popped (.ok () w')
  | unwound {before : List Handle} {h : Handle} {inst : Instance κ} {a : Allocator} {p : Panic}
    {u u' : World κ η σ} :
    popped = before ++ [h] → u.tasks.active = [.teardown h inst.kind] →
    u.instances[h.number]? = some { inst with state := none } →
    Run.tearDown env nested inst a u = .error (.unwound p) u' →
    World.TeardownEnds env nested w w' popped (.error (.unwound p) w')

theorem World.TeardownEnds.of_destroy {env : Environment κ η σ} {nested : Nested κ η σ}
    {w u w' : World κ η σ} {before : List Handle} {older : List (KindId × Handle)} {id : KindId}
    {h : Handle} {p : Panic} (ready : u.Ready) (idle : u.tasks.active = [])
    (cache : u.cache = older ++ [(id, h)])
    (failed : Run.destroy env nested h { u with cache := older } = .error (.unwound p) w') :
    w.TeardownEnds env nested w' (before ++ [h]) (.error (.unwound p) w') := by
  have mem : (id, h) ∈ u.cache := by simp [cache]
  obtain ⟨inst, a, here, -, -, state⟩ :=
    World.exists_of_card (ready.consistent.caches.live (id, h) mem)
  obtain ⟨v, v', torn, active, dead⟩ := Run.exists_of_destroy_error
    (w := { u with cache := older }) here state (ready.unused (id, h) mem inst here) failed
  exact .unwound rfl (active.trans (congrArg _ idle)) dead torn

theorem World.Sheds.concerned {env : Environment κ η σ} {nested : Nested κ η σ} {w w' : World κ η σ}
    {popped : List Handle} {h : Handle} (sheds : w.Sheds env nested popped w')
    (begun : w.ledger.Consistent) (after : w'.ledger.Consistent) (empty : w'.cache = [])
    (concerned : w.Concerns w' h) :
    w'.Destroyed h ∧ h ∉ w.ledger.tornDown ∧ w'.ledger.tornDown.count h = 1 := by
  have destroyed : w'.Destroyed h := by
    rcases concerned with old | ⟨new, inst, here, shared⟩
    · apply sheds.destroyed
      obtain ⟨added, -, left⟩ := sheds.left
      rw [empty] at left
      obtain ⟨e, mem, rfl⟩ := List.mem_map.mp old
      have gone := List.filter_eq_nil_iff.mp left.symm e (List.mem_append_left added mem)
      simpa using gone
    · refine ⟨inst, here, ?_⟩
      cases state : inst.state with
      | none => rfl
      | some a =>
        have lives : w'.Lives inst.id h := ⟨inst, here, rfl, shared, by rw [state]; rfl⟩
        have cached := sheds.cached inst.id h lives new
        rw [empty] at cached
        cases cached
  have apart : h ∉ w.ledger.tornDown := by
    intro torn
    obtain ⟨inst, here, dead⟩ := World.destroyed_of_torn begun torn
    rcases concerned with old | ⟨new, -⟩
    · obtain ⟨e, mem, rfl⟩ := List.mem_map.mp old
      obtain ⟨inst', a, here', -, -, state⟩ := World.exists_of_card (begun.caches.live e mem)
      rw [here] at here'
      cases here'
      rw [dead] at state
      cases state
    · obtain ⟨inside, -⟩ := Array.getElem?_eq_some_iff.mp here
      omega
  refine ⟨destroyed, apart, ?_⟩
  obtain ⟨inst, here, dead⟩ := destroyed
  rw [World.count_torn after here, dead]
  rfl

section Teardowns

variable [DecidableEq η]

def World.teardown (env : Environment κ η σ) (bound depth : Nat) (w : World κ η σ) : World κ η σ :=
  ((Client.ask .teardown).runTo env bound depth).leaves w

/-- Teardowns of the registry, each one after the one before it has returned or was unwound. -/
def World.teardowns (env : Environment κ η σ) (bound depth : Nat) (w : World κ η σ) :
    Nat → World κ η σ
  | 0 => w
  | calls + 1 => (w.teardowns env bound depth calls).teardown env bound depth

variable {env : Environment κ η σ} {w : World κ η σ} {kinds : List κ} {recursion bound depth : Nat}

theorem World.drains_teardown (orderly : env.Orderly) (ready : w.Ready)
    (idle : w.tasks.active = []) (bound depth : Nat) :
    ∃ popped, Drains env (env.below bound (depth + 1)) w popped (w.teardown env bound (depth + 1)) ∧
      DrainEnds env (env.below bound (depth + 1)) bound w popped
        ((Client.ask .teardown).runTo env bound (depth + 1) w) := by
  obtain ⟨hooks, teardownHooked, reached⟩ := Run.reachRegistry_eq w
  have same := Run.still_reachRegistry (η := η) w
  rw [Run.leaves_of_ok reached] at same
  have run : (Client.ask .teardown).runTo env bound (depth + 1) w =
      Run.drainCache env (fun d => d.runTo env bound depth) bound { w with hooks, teardownHooked } := by
    rw [Client.runTo, Client.runWith_ask]
    exact Run.bind_of_ok reached
  let nested : Nested κ η σ := fun d => d.runTo env bound depth
  have closes (k : κ) (holdings : List Holding) :
      (nested ((env.kind k).close holdings)).Respects (growing True) :=
    Client.respects_growing orderly bound depth (orderly.close k holdings)
  have traces (h : Handle) (k : κ) (holdings : List Holding) :
      (nested ((env.kind k).close holdings)).Respects (tracing env [.teardown h k] nothing) :=
    Client.respects_tracing orderly bound depth (orderly.close k holdings)
  obtain ⟨popped, drains, ends⟩ := Run.drainCache_drains (w := { w with hooks, teardownHooked })
    closes traces bound (ready.of_still same) idle
  rw [World.teardown, Run.leaves_congr run, run]
  exact ⟨popped, .still same drains, ends.of_still same⟩

theorem World.drains_teardowns (orderly : env.Orderly) (ready : w.Ready)
    (idle : w.tasks.active = []) (bound depth calls : Nat) :
    ∃ before, Drains env (env.below bound (depth + 1)) w before
      (w.teardowns env bound (depth + 1) calls) := by
  induction calls with
  | zero => exact ⟨[], .done w⟩
  | succ calls ih =>
    obtain ⟨before, drains⟩ := ih
    obtain ⟨popped, drains', -⟩ := World.drains_teardown orderly (drains.ready ready)
      (drains.tasks idle).1 bound depth
    exact ⟨before ++ popped, drains.trans drains'⟩

theorem World.teardowns_enacts (w : World κ η σ) (calls : Nat) :
    (w.teardowns env bound depth calls).Enacts env bound w.journal.size := by
  refine World.enacts_of_enacting (w := w) ?_ (Nat.le_refl _)
  induction calls with
  | zero => exact (enacting env bound).refl w
  | succ calls ih =>
    exact (enacting env bound).trans ih (Client.respects_enacting env bound depth _ _)

/-- Teardowns that are cut off nest deeper than creations can recurse. -/
theorem Drains.not_endless (orderly : env.Orderly) {w u w' : World κ η σ} {before : List Handle}
    {h : Handle} {older : List (KindId × Handle)} {told : List (List (Task κ))}
    (drains : Drains env (env.below bound (depth + 1)) w before u) (idle : w.tasks.active = [])
    (begun : w'.tasks.begun = told ++ w.tasks.begun) (traced : Tasks.Traced [] told)
    (modest : Tasks.Modest kinds recursion told w.tasks.begun)
    (deep : (kinds.length + 2) * (recursion + 1) ≤ depth) :
    Run.destroy env (fun d => d.runTo env bound depth) h { u with cache := older } ≠
      .error .endless w' := by
  intro cut
  obtain ⟨idle', told', begun', -⟩ := drains.tasks idle
  let nested : Nested κ η σ := fun d => d.runTo env bound depth
  have closes (h : Handle) (k : κ) (holdings : List Holding) :
      (nested ((env.kind k).close holdings)).Dives [.teardown h k] (depth + 1) :=
    Client.dives orderly bound depth [.teardown h k] (orderly.close k holdings)
  have traces (h : Handle) (k : κ) (holdings : List Holding) :
      (nested ((env.kind k).close holdings)).Respects (tracing env [.teardown h k] nothing) :=
    Client.respects_tracing orderly bound depth (orderly.close k holdings)
  have dives := Run.dives_destroy closes traces h
  obtain ⟨later, whole, stack, mem, long⟩ := dives { u with cache := older } w' idle' cut
  dsimp only at whole mem long
  rw [idle'] at mem long
  have split : told = later ++ told' := by
    have all : told ++ w.tasks.begun = later ++ told' ++ w.tasks.begun := by
      rw [← begun, whole, begun', List.append_assoc]
    exact List.append_cancel_right all
  rcases mem with rfl | mem
  · simp at long
  · have short := modest.length_le traced (split ▸ List.mem_append_left told' mem)
    simp only [List.length_nil] at long
    omega

/-- A registry may be torn down in any state in which its instances are not in use, and again after a
teardown that was unwound.  Creations recurse boundedly, and only the first teardown of each kind looks
up instances; anything else that creations and teardowns do with the registry is up to them. -/
theorem Visited.teardown_ends (orderly : env.Orderly) (visited : Visited env w) (unused : w.Unused)
    (calls : Nat) (modest : w.Modest kinds recursion (w.teardowns env bound (depth + 1) (calls + 1)))
    (rounds : kinds.length * (kinds.length + 1) + w.cache.length < bound)
    (deep : (kinds.length + 2) * (recursion + 1) ≤ depth) :
    let v := w.teardowns env bound (depth + 1) calls
    let v' := w.teardowns env bound (depth + 1) (calls + 1)
    let nested : Nested κ η σ := env.below bound (depth + 1)
    w.Enacts env runLimit 0 ∧ v'.Enacts env bound w.journal.size ∧
      ∃ before popped, w.Sheds env nested before v ∧ v.Sheds env nested popped v' ∧
        w.Sheds env nested (before ++ popped) v' ∧
        v.TeardownEnds env nested v' popped
          ((Client.ask .teardown).runTo env bound (depth + 1) v) := by
  intro v v' nested
  have ready : w.Ready := ⟨visited.consistent, unused⟩
  obtain ⟨before, earlier⟩ := World.drains_teardowns orderly ready visited.idle bound depth calls
  have between := earlier.ready ready
  obtain ⟨popped, drains, ends⟩ := World.drains_teardown orderly between
    (earlier.tasks visited.idle).1 bound depth
  -- all calls together take fewer rounds than one call may take
  have whole := earlier.trans drains
  obtain ⟨told, begun, modest⟩ := modest
  have few := whole.length_le kinds visited.idle begun modest fun k mem => .inl mem
  have traced : Tasks.Traced [] told := by
    obtain ⟨-, told', begun', traced⟩ := whole.tasks visited.idle
    rwa [← List.append_cancel_right (begun'.symm.trans begun)]
  have sheds := drains.sheds between
  refine ⟨visited.enacts, World.teardowns_enacts w (calls + 1), before, popped, earlier.sheds ready,
    sheds, whole.sheds ready, ?_⟩
  generalize result : (Client.ask .teardown).runTo env bound (depth + 1) v = ended at ends ⊢
  cases ends with
  | emptied empty =>
    have same : v' = _ := Run.leaves_of_ok result
    rw [← same] at empty ⊢
    have after := (drains.ready between).consistent
    exact .returned empty fun h => sheds.concerned between.consistent after empty
  | @stopped before' u left older id h halt split drained cache failed =>
    have same : v' = _ := Run.leaves_of_error result
    rw [← same] at failed ⊢
    cases halt with
    | endless =>
      refine absurd failed ?_
      exact (earlier.trans drained).not_endless orderly visited.idle begun traced modest deep
    | unwound p =>
      rw [split]
      have idle := (earlier.trans drained).tasks visited.idle
      exact .of_destroy (drained.ready between) idle.1 cache failed
  | cut all =>
    rw [List.length_append] at few
    omega

end Teardowns

/-- A heap, and a kind whose instances look up the heap when they are torn down, and then panic. -/
def ashes : Environment Bool Unit Unit where
  kind
    | false => Kind.heap
    | true => { Kind.heap with
        id := ⟨"ashes"⟩
        close := fun _ => do
          let _ ← Client.ask (.lookUp false)
          Client.raise (.message "burnt") }
  hook _ := return ()
  production := ⟨"default", false⟩

theorem ashes_orderly : ashes.Orderly where
  create
    | false => ⟨trivial, fun _ => trivial⟩
    | true => ⟨trivial, fun _ => trivial⟩
  close
    | false, _ => trivial
    | true, _ => ⟨trivial, fun _ => ⟨trivial, fun _ => trivial⟩⟩

/-- An instance of the kind is cached. -/
def ashesCached : World Bool Unit Unit :=
  ((Client.ask (.lookUp true)).run ashes).leaves (World.start ⟨"default", false⟩ false ())

theorem ashesCached_modest :
    ashesCached.Modest [false, true] 1 (ashesCached.teardowns ashes 8 9 2) := by
  have begun : ashesCached.tasks.begun = [[.lookUp true]] := by decide +kernel
  refine ⟨[[.teardown ⟨1⟩ false], [.lookUp false, .teardown ⟨0⟩ true], [.teardown ⟨0⟩ true]], ?_, ?_⟩
  · decide +kernel
  · rw [begun]
    constructor
    · intro task around _
      cases task.kind <;> simp
    · decide
    · intro k around mem h k' inside newer around' older whole h' around'' again
      have mem' : k = false ∧ around = [.teardown ⟨0⟩ true] := by simpa using mem
      obtain ⟨-, rfl⟩ := mem'
      cases List.mem_singleton.mp inside
      rcases newer with _ | ⟨_, _ | ⟨_, _ | ⟨_, _ | ⟨_, _⟩⟩⟩⟩ <;> simp at whole
      obtain ⟨-, -, -, rfl⟩ := whole
      simp at again

/-- The first teardown is unwound when the instance has looked up a heap, and the second one destroys
the heap. -/
theorem ashesCached_teardown_ends :
    ashes.Orderly ∧ Visited ashes ashesCached ∧ ashesCached.Unused ∧
      ashesCached.Modest [false, true] 1 (ashesCached.teardowns ashes 8 9 2) ∧
      ashesCached.cache = [(⟨"ashes"⟩, ⟨0⟩)] ∧
      (ashesCached.teardowns ashes 8 9 1).cache = [(⟨"system"⟩, ⟨1⟩)] ∧
      (ashesCached.teardowns ashes 8 9 2).cache = [] ∧
      (ashesCached.teardowns ashes 8 9 2).Enacts ashes 8 ashesCached.journal.size ∧
      ∃ before popped,
        ashesCached.Sheds ashes (ashes.below 8 9) before (ashesCached.teardowns ashes 8 9 1) ∧
        (ashesCached.teardowns ashes 8 9 1).Sheds ashes (ashes.below 8 9) popped
          (ashesCached.teardowns ashes 8 9 2) := by
  have visited : Visited ashes ashesCached := .step _ (.start _ _ _)
  have cached : ashesCached.cache = [(⟨"ashes"⟩, ⟨0⟩)] := by decide +kernel
  have idle : ashesCached.instances[0]?.map Instance.busy = some false := by decide +kernel
  have unused : ashesCached.Unused := by
    intro e mem inst here
    rw [cached] at mem
    cases List.mem_singleton.mp mem
    rw [here] at idle
    exact Option.some.inj idle
  have rounds : 2 * (2 + 1) + ashesCached.cache.length < 8 := by rw [cached]; decide
  obtain ⟨-, enacts, before, popped, sheds, sheds', -⟩ :=
    visited.teardown_ends ashes_orderly unused 1 ashesCached_modest rounds (by decide)
  refine ⟨ashes_orderly, visited, unused, ashesCached_modest, cached, ?_, ?_, enacts, before, popped,
    sheds, sheds'⟩
  · decide +kernel
  · decide +kernel

/-- A heap is cached, and one of its payloads is in use. -/
def heapInUse : World Unit Unit Unit :=
  let w := ((Client.ask (.lookUp ())).run heaps).leaves (World.start ⟨"default", ()⟩ false ())
  { w with instances := w.instances.modify 0 fun inst => { inst with busy := true } }

theorem heaps_orderly : heaps.Orderly where
  create _ := ⟨trivial, fun _ => trivial⟩
  close _ _ := trivial

/-- A teardown does not destroy an instance that is in use, and does not return. -/
theorem heapInUse_teardown_stops :
    heaps.Orderly ∧ Visited heaps heapInUse ∧
      heapInUse.Modest [()] 0 (heapInUse.teardowns heaps 8 9 1) ∧
      1 * (1 + 1) + heapInUse.cache.length < 8 ∧ (1 + 2) * (0 + 1) ≤ 8 ∧
      ¬∃ before popped, heapInUse.Sheds heaps (heaps.below 8 9) before heapInUse ∧
        heapInUse.Sheds heaps (heaps.below 8 9) popped (heapInUse.teardowns heaps 8 9 1) ∧
        heapInUse.Sheds heaps (heaps.below 8 9) (before ++ popped)
          (heapInUse.teardowns heaps 8 9 1) ∧
        heapInUse.TeardownEnds heaps (heaps.below 8 9) (heapInUse.teardowns heaps 8 9 1) popped
          ((Client.ask .teardown).runTo heaps 8 9 heapInUse) := by
  have visited : Visited heaps heapInUse := .use ⟨0⟩ true (.step _ (.start _ _ _))
  have cached : heapInUse.cache = [(⟨"system"⟩, ⟨0⟩)] := by decide +kernel
  have live : (heapInUse.teardowns heaps 8 9 1).instances.all (·.state.isSome) = true := by
    decide +kernel
  have no_task : (heapInUse.teardowns heaps 8 9 1).tasks.begun = [] ++ heapInUse.tasks.begun := by
    decide +kernel
  refine ⟨heaps_orderly, visited, ⟨[], no_task, ?_⟩, ?_, by decide, ?_⟩
  · exact ⟨nofun, nofun, nofun⟩
  · rw [cached]
    decide
  · rintro ⟨before, popped, -, sheds, -, ends⟩
    have alive (h : Handle) : ¬(heapInUse.teardowns heaps 8 9 1).Destroyed h := by
      rintro ⟨inst, here, dead⟩
      have lives := Array.all_eq_true_iff_forall_mem.mp live inst (Array.mem_of_getElem? here)
      rw [dead] at lives
      cases lives
    generalize (Client.ask .teardown).runTo heaps 8 9 heapInUse = result at ends
    cases ends with
    | returned empty destroyed =>
      refine alive ⟨0⟩ (destroyed ⟨0⟩ (.inl ?_)).1
      rw [cached]
      exact List.mem_singleton_self _
    | @unwound _ h _ _ _ _ _ split =>
      refine alive h (sheds.destroyed h ?_)
      rw [split]
      exact List.mem_append_right _ (List.mem_singleton_self h)

end MemoryTrial
