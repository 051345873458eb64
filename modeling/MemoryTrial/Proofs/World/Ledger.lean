import Mathlib.Data.List.Nodup
import MemoryTrial.Proofs.World.Effects

/-! The ledger of a registry: its instances, which of them are cached, and which were torn down.  It
is what the state of a process says about the registry, and most of what a process does leaves it as
it is. -/

namespace MemoryTrial

section Lists

variable {α : Type} (xs : List α)

/-- The item of a handle in a list to which one was added. -/
theorem Handle.getElem?_push (x : α) (h : Handle) :
    (xs ++ [x])[h.number]? = if h = ⟨xs.length⟩ then some x else xs[h.number]? := by
  by_cases last : h = ⟨xs.length⟩
  · simp [last]
  · have apart : h.number ≠ xs.length := fun number => last (congrArg Handle.mk number)
    rw [if_neg last, List.getElem?_append]
    split
    · rfl
    · rw [List.getElem?_eq_none (by simp; omega), List.getElem?_eq_none (by omega)]

/-- The item of a handle in a list of which one was changed. -/
theorem Handle.getElem?_modify (f : α → α) (h h' : Handle) :
    (xs.modify h.number f)[h'.number]? =
      if h' = h then xs[h.number]?.map f else xs[h'.number]? := by
  by_cases same : h' = h
  · simp [same]
  · have apart : h.number ≠ h'.number := fun number => same (congrArg Handle.mk number.symm)
    simp [same, apart]

end Lists

structure Card where
  id : KindId
  shared : Bool
  live : Bool

structure Ledger where
  cards : List Card
  /-- Whether a payload of an instance is in use, for each instance. -/
  busy : List Bool
  cache : List (KindId × Handle)
  tornDown : List Handle

namespace Ledger

def card (l : Ledger) (h : Handle) : Option Card := l.cards[h.number]?

def next (l : Ledger) : Handle := ⟨l.cards.length⟩

/-- A new instance is the last one, and nobody uses it. -/
def push (l : Ledger) (c : Card) : Ledger :=
  { l with cards := l.cards ++ [c], busy := l.busy ++ [false] }

def insert (l : Ledger) (id : KindId) (h : Handle) : Ledger :=
  { l with cache := l.cache ++ [(id, h)] }

def forget (l : Ledger) (h : Handle) : Ledger :=
  { l with cache := l.cache.filter (·.2 ≠ h) }

def bury (l : Ledger) (h : Handle) : Ledger :=
  { l with
    cards := l.cards.modify h.number fun c => { c with live := false }
    tornDown := l.tornDown ++ [h] }

def dead (l : Ledger) (h : Handle) : Bool := (l.card h).any fun c => !c.live

/-- The cache has one instance for an id, and its instances live and were created by look-ups. -/
structure Caches (l : Ledger) : Prop where
  ids : (l.cache.map Prod.fst).Nodup
  live : ∀ e ∈ l.cache, l.card e.2 = some ⟨e.1, true, true⟩

/-- The cache is in the order of the creation of its instances, and exactly the dead instances were
torn down, once each. -/
structure Consistent (l : Ledger) : Prop where
  caches : l.Caches
  ordered : l.cache.Pairwise fun older newer => older.2.number < newer.2.number
  once : ∀ h, l.tornDown.count h = (l.dead h).toNat

/-- A live instance that a look-up created is not cached. -/
structure Stray (l : Ledger) (id : KindId) (h : Handle) : Prop where
  live : l.card h = some ⟨id, true, true⟩
  uncached : (id, h) ∉ l.cache

variable {l l' l'' : Ledger} {id : KindId} {h : Handle} {shared : Bool} {c : Card}

theorem number_lt (here : l.card h = some c) : h.number < l.cards.length :=
  (List.getElem?_eq_some_iff.mp here).1

theorem mem_of_lookup {cache : List (KindId × Handle)} (found : cache.lookup id = some h) :
    (id, h) ∈ cache := by
  obtain ⟨before, after, whole, -⟩ := List.lookup_eq_some_iff.mp found
  rw [whole]
  exact List.mem_append_right before List.mem_cons_self

namespace Caches

variable (caches : l.Caches)
include caches

theorem lookup_eq_some_iff : l.cache.lookup id = some h ↔ (id, h) ∈ l.cache := by
  refine ⟨mem_of_lookup, fun mem => ?_⟩
  cases found : l.cache.lookup id with
  | none => simpa using List.lookup_eq_none_iff.mp found _ mem
  | some h' =>
    cases List.inj_on_of_nodup_map caches.ids mem (mem_of_lookup found) rfl
    rfl

/-- An instance is cached under its own id only. -/
theorem eq_of_handle (mem : (id, h) ∈ l.cache) {e : KindId × Handle} (mem' : e ∈ l.cache)
    (same : e.2 = h) : e.1 = id := by
  have here := caches.live e mem'
  rw [same, caches.live (id, h) mem] at here
  cases here
  rfl

/-- The entry of an instance can be found by its id. -/
theorem filter_eq_of_lookup (found : l.cache.lookup id = some h) :
    l.cache.filter (·.1 ≠ id) = l.cache.filter (·.2 ≠ h) := by
  have mem := caches.lookup_eq_some_iff.mp found
  refine List.filter_congr fun e mem' => decide_eq_decide.mpr (not_congr ⟨?_, ?_⟩)
  · intro same
    rw [List.inj_on_of_nodup_map caches.ids mem' mem same]
  · exact caches.eq_of_handle mem mem'

theorem filter_eq_dropLast (last : l.cache.getLast? = some (id, h)) :
    l.cache.dropLast = l.cache.filter (·.2 ≠ h) := by
  obtain ⟨older, whole⟩ := List.getLast?_eq_some_iff.mp last
  have mem : (id, h) ∈ l.cache := by simp [whole]
  have apart : id ∉ older.map Prod.fst := by
    have ids := caches.ids
    rw [whole, List.map_append, List.nodup_append] at ids
    exact fun mem => ids.2.2 id mem id (List.mem_singleton_self id) rfl
  have kept : older.filter (·.2 ≠ h) = older := by
    refine List.filter_eq_self.mpr fun e mem' => decide_eq_true fun same => apart ?_
    have cached : e ∈ l.cache := by
      rw [whole]
      exact List.mem_append_left _ mem'
    rw [← caches.eq_of_handle mem cached same]
    exact List.mem_map_of_mem mem'
  rw [whole, List.dropLast_concat, List.filter_append, kept]
  simp

theorem number_lt {e : KindId × Handle} (mem : e ∈ l.cache) : e.2.number < l.cards.length :=
  Ledger.number_lt (caches.live e mem)

theorem next_notMem (id : KindId) : (id, l.next) ∉ l.cache :=
  fun mem => Nat.lt_irrefl _ (caches.number_lt mem)

end Caches

theorem nodup_insert (ids : (l.cache.map Prod.fst).Nodup) (absent : ∀ h, (id, h) ∉ l.cache)
    (h : Handle) : ((l.insert id h).cache.map Prod.fst).Nodup := by
  simp only [insert, List.map_append, List.map_cons, List.map_nil]
  refine List.nodup_append.mpr ⟨ids, List.nodup_singleton id, ?_⟩
  intro id' mem id'' mem' same
  obtain ⟨e, cached, rfl⟩ := List.mem_map.mp mem
  rw [List.mem_singleton.mp mem'] at same
  subst same
  exact absent e.2 cached

theorem card_next (l : Ledger) : l.card l.next = none := List.getElem?_eq_none (Nat.le_refl _)

theorem card_push (l : Ledger) (c : Card) (h : Handle) :
    (l.push c).card h = if h = l.next then some c else l.card h := Handle.getElem?_push l.cards c h

theorem card_bury (l : Ledger) (h h' : Handle) :
    (l.bury h).card h' =
      if h' = h then (l.card h).map fun c => { c with live := false } else l.card h' :=
  Handle.getElem?_modify l.cards _ h h'

theorem forget_of_notMem (absent : ∀ id, (id, h) ∉ l.cache) : l.forget h = l := by
  have all : l.cache.filter (·.2 ≠ h) = l.cache := by
    refine List.filter_eq_self.mpr fun e mem => decide_eq_true ?_
    rintro rfl
    exact absent e.1 mem
  rw [forget, all]

theorem count_bury (once : ∀ h, l.tornDown.count h = (l.dead h).toNat)
    (here : l.card h = some c) (live : c.live = true) (h' : Handle) :
    (l.bury h).tornDown.count h' = ((l.bury h).dead h').toNat := by
  rw [dead, card_bury, bury, List.count_append, once, dead, List.count_singleton]
  by_cases same : h' = h
  · simp [same, here, live]
  · simp [same, Ne.symm same]

theorem forget_notMem (l : Ledger) (h : Handle) (id : KindId) : (id, h) ∉ (l.forget h).cache := by
  simp [forget]

namespace Caches

variable (caches : l.Caches)
include caches

theorem push (c : Card) : (l.push c).Caches where
  ids := caches.ids
  live e mem := by
    have other : e.2 ≠ l.next := fun last => caches.next_notMem e.1 (last ▸ mem)
    rw [card_push, if_neg other]
    exact caches.live e mem

theorem push_insert (absent : ∀ h, (id, h) ∉ l.cache) :
    ((l.push ⟨id, true, true⟩).insert id l.next).Caches where
  ids := nodup_insert (l := l.push _) caches.ids absent l.next
  live e mem := by
    rcases List.mem_append.mp mem with old | new
    · exact (caches.push _).live e old
    · rw [List.mem_singleton.mp new]
      change (l.push ⟨id, true, true⟩).card l.next = _
      rw [card_push, if_pos rfl]

theorem forget (h : Handle) : (l.forget h).Caches where
  ids := caches.ids.sublist (List.filter_sublist.map _)
  live e mem := caches.live e (List.mem_of_mem_filter mem)

theorem bury (uncached : ∀ id, (id, h) ∉ l.cache) : (l.bury h).Caches where
  ids := caches.ids
  live e mem := by
    have other : e.2 ≠ h := fun same => uncached e.1 (same ▸ mem)
    rw [card_bury, if_neg other]
    exact caches.live e mem

end Caches

namespace Consistent

variable (consistent : l.Consistent)
include consistent

theorem push (live : c.live = true) : (l.push c).Consistent where
  caches := consistent.caches.push c
  ordered := consistent.ordered
  once h := by
    rw [dead, card_push]
    split
    next last =>
      have none := consistent.once l.next
      rw [dead, card_next] at none
      rw [last, Option.any_some, live]
      exact none
    next => exact consistent.once h

theorem push_insert (absent : ∀ h, (id, h) ∉ l.cache) :
    ((l.push ⟨id, true, true⟩).insert id l.next).Consistent where
  caches := consistent.caches.push_insert absent
  ordered := by
    refine List.pairwise_append.mpr ⟨consistent.ordered, List.pairwise_singleton .., ?_⟩
    intro e mem last mem'
    rw [List.mem_singleton.mp mem']
    exact consistent.caches.number_lt mem
  once := (consistent.push rfl).once

theorem forget (h : Handle) : (l.forget h).Consistent where
  caches := consistent.caches.forget h
  ordered := consistent.ordered.sublist List.filter_sublist
  once := consistent.once

theorem bury (uncached : ∀ id, (id, h) ∉ l.cache) (here : l.card h = some c)
    (live : c.live = true) : (l.bury h).Consistent where
  caches := consistent.caches.bury uncached
  ordered := consistent.ordered
  once := count_bury consistent.once here live

theorem forget_bury (here : l.card h = some c) (live : c.live = true) :
    ((l.forget h).bury h).Consistent :=
  (consistent.forget h).bury (l.forget_notMem h) here live

theorem push_bury (live : c.live = true) : ((l.push c).bury l.next).Consistent := by
  refine (consistent.push live).bury consistent.caches.next_notMem ?_ live
  rw [card_push, if_pos rfl]

end Consistent

namespace Stray

variable {id' : KindId} {h' : Handle}

theorem of_push (stray : (l.push c).Stray id h) (other : h ≠ l.next) : l.Stray id h := by
  have live := stray.live
  rw [card_push, if_neg other] at live
  exact ⟨live, stray.uncached⟩

/-- An instance that no look-up creates does not go astray. -/
theorem of_push_local (stray : (l.push ⟨id', false, true⟩).Stray id h) : l.Stray id h := by
  refine stray.of_push fun last => ?_
  have live := stray.live
  rw [card_push, if_pos last] at live
  cases live

theorem of_push_insert (stray : ((l.push ⟨id', true, true⟩).insert id' l.next).Stray id h) :
    l.Stray id h := by
  have uncached : (id, h) ∉ l.cache := fun mem => stray.uncached (List.mem_append_left _ mem)
  have live : (l.push ⟨id', true, true⟩).card h = some ⟨id, true, true⟩ := stray.live
  refine of_push ⟨live, uncached⟩ fun last => stray.uncached ?_
  rw [card_push, if_pos last] at live
  cases live
  rw [last]
  exact List.mem_append_right _ (List.mem_singleton_self _)

theorem of_forget (stray : (l.forget h').Stray id h) (other : h ≠ h') : l.Stray id h := by
  refine ⟨stray.live, fun mem => stray.uncached ?_⟩
  exact List.mem_filter.mpr ⟨mem, by simpa using other⟩

theorem of_bury (stray : (l.bury h').Stray id h) : h ≠ h' ∧ l.Stray id h := by
  have live := stray.live
  rw [card_bury] at live
  split at live
  next => simp at live
  next other => exact ⟨other, live, stray.uncached⟩

theorem of_forget_bury (stray : ((l.forget h').bury h').Stray id h) : l.Stray id h :=
  stray.of_bury.2.of_forget stray.of_bury.1

theorem of_push_bury (stray : ((l.push c).bury l.next).Stray id h) : l.Stray id h :=
  stray.of_bury.2.of_push stray.of_bury.1

end Stray

/-- What a look-up or a creation does to the ledger: instances come in, none goes astray, and those
that were there are not touched.  Instances are cached only with `may`. -/
structure Grows (may : Prop) (l l' : Ledger) : Prop where
  cards : l.cards <+: l'.cards
  strays : ∀ id h, l'.Stray id h → l.Stray id h
  tornDown : l.tornDown <+: l'.tornDown
  busy : ∃ n, l'.busy = l.busy ++ List.replicate n false
  cache : ∃ added, l'.cache = l.cache ++ added ∧ (∀ e ∈ added, l.cards.length ≤ e.2.number) ∧
    (added ≠ [] → may)

theorem Consistent.of_busy {busy : List Bool} (consistent : { l with busy }.Consistent) :
    l.Consistent :=
  ⟨⟨consistent.caches.ids, consistent.caches.live⟩, consistent.ordered, consistent.once⟩

theorem Grows.refl (may : Prop) (l : Ledger) : l.Grows may l :=
  ⟨List.prefix_rfl, fun _ _ => id, List.prefix_rfl, ⟨0, by simp⟩, [], by simp, nofun,
    fun h => absurd rfl h⟩

theorem Grows.trans {may : Prop} (first : l.Grows may l') (second : l'.Grows may l'') :
    l.Grows may l'' := by
  obtain ⟨n, busy⟩ := first.busy
  obtain ⟨m, busy'⟩ := second.busy
  obtain ⟨added, cache, fresh, allowed⟩ := first.cache
  obtain ⟨added', cache', fresh', allowed'⟩ := second.cache
  refine ⟨first.cards.trans second.cards,
    fun id h stray => first.strays id h (second.strays id h stray),
    first.tornDown.trans second.tornDown, ⟨n + m, ?_⟩, added ++ added', ?_, ?_, ?_⟩
  · rw [busy', busy, List.append_assoc, List.replicate_append_replicate]
  · rw [cache', cache, List.append_assoc]
  · intro e mem
    rcases List.mem_append.mp mem with mem | mem
    · exact fresh e mem
    · exact Nat.le_trans first.cards.length_le (fresh' e mem)
  · intro some_added
    by_cases none : added = []
    · exact allowed' fun none' => some_added (by rw [none, none', List.append_nil])
    · exact allowed none

theorem Grows.mono {may may' : Prop} (grows : l.Grows may l') (h : may → may') :
    l.Grows may' l' := by
  obtain ⟨added, cache, fresh, allowed⟩ := grows.cache
  exact ⟨grows.cards, grows.strays, grows.tornDown, grows.busy, added, cache, fresh,
    fun some_added => h (allowed some_added)⟩

/-- What is done while a payload of an instance is in use. -/
theorem Grows.of_use {may : Prop} {n : Nat} (idle : l.busy[n]? = some false)
    (grows : { l with busy := l.busy.set n true }.Grows may l') :
    l.Grows may { l' with busy := l'.busy.set n false } := by
  obtain ⟨k, busy⟩ := grows.busy
  refine ⟨grows.cards, fun id h stray => ?_, grows.tornDown, ⟨k, ?_⟩, grows.cache⟩
  · have before := grows.strays id h ⟨stray.live, stray.uncached⟩
    exact ⟨before.live, before.uncached⟩
  obtain ⟨inside, here⟩ := List.getElem?_eq_some_iff.mp idle
  dsimp only at busy ⊢
  rw [busy, List.set_append_left _ _ (by rwa [List.length_set]), List.set_set, ← here,
    List.set_getElem_self]

theorem grows_push_local (may : Prop) (l : Ledger) (id : KindId) :
    l.Grows may (l.push ⟨id, false, true⟩) :=
  ⟨List.prefix_append .., fun _ _ stray => stray.of_push_local, List.prefix_rfl, ⟨1, rfl⟩, [],
    by simp [push], nofun, fun h => absurd rfl h⟩

theorem grows_push_insert (l : Ledger) (id : KindId) :
    l.Grows True ((l.push ⟨id, true, true⟩).insert id l.next) := by
  refine ⟨List.prefix_append .., fun _ _ stray => stray.of_push_insert, List.prefix_rfl, ⟨1, rfl⟩,
    [(id, l.next)], rfl, fun e mem => ?_, fun _ => trivial⟩
  rw [List.mem_singleton.mp mem]
  exact Nat.le_refl _

theorem grows_push_bury (may : Prop) (l : Ledger) (c : Card) :
    l.Grows may ((l.push c).bury l.next) :=
  ⟨by simp [push, bury, next, List.modify_eq_take_drop], fun _ _ stray => stray.of_push_bury,
    List.prefix_append .., ⟨1, rfl⟩, [], by simp [push, bury], nofun, fun h => absurd rfl h⟩

end Ledger

variable {κ η σ : Type}

def Instance.card (inst : Instance κ) : Card := ⟨inst.id, inst.shared, inst.state.isSome⟩

def Entry.tornDown? : Entry → Option Handle
  | .tornDown h => some h
  | _ => none

def World.ledger (w : World κ η σ) : Ledger where
  cards := w.instances.toList.map Instance.card
  busy := w.instances.toList.map Instance.busy
  cache := w.cache
  tornDown := w.journal.toList.filterMap Entry.tornDown?

theorem World.card_ledger (w : World κ η σ) (h : Handle) :
    w.ledger.card h = w.instances[h.number]?.map Instance.card := by
  simp [ledger, Ledger.card]

theorem World.busy_ledger (w : World κ η σ) (n : Nat) :
    w.ledger.busy[n]? = w.instances[n]?.map Instance.busy := by
  simp [ledger]

theorem World.exists_of_card {w : World κ η σ} {h : Handle} {id : KindId} {shared : Bool}
    (card : w.ledger.card h = some ⟨id, shared, true⟩) :
    ∃ inst a, w.instances[h.number]? = some inst ∧ inst.id = id ∧ inst.shared = shared ∧
      inst.state = some a := by
  rw [card_ledger, Option.map_eq_some_iff] at card
  obtain ⟨inst, here, card⟩ := card
  obtain ⟨id_eq, shared_eq, live⟩ := Card.mk.inj card
  obtain ⟨a, state⟩ := Option.isSome_iff_exists.mp live
  exact ⟨inst, a, here, id_eq, shared_eq, state⟩

theorem World.not_busy {w : World κ η σ} {n : Nat} {inst : Instance κ} (idle : true ∉ w.ledger.busy)
    (here : w.instances[n]? = some inst) : inst.busy = false := by
  have mem := List.mem_of_getElem? ((w.busy_ledger n).trans (congrArg _ here))
  cases busy : inst.busy with
  | false => rfl
  | true => exact absurd (busy ▸ mem) idle

theorem World.next_ledger (w : World κ η σ) : w.ledger.next = ⟨w.instances.size⟩ := by
  simp [ledger, Ledger.next]

theorem World.ledger_enroll (w : World κ η σ) (env : Environment κ η σ) (k : κ) (built : Built)
    (sources : List Handle) (shared : Bool) :
    (w.enroll (env.newInstance k built sources shared)).ledger =
      w.ledger.push ⟨(env.kind k).id, shared, true⟩ := by
  simp [enroll, Environment.newInstance, ledger, Ledger.push, Instance.card, Entry.tornDown?]

theorem map_modify {α β : Type} (l : List α) (n : Nat) (f : α → α) (g : α → β) (f' : β → β)
    (same : ∀ x, l[n]? = some x → g (f x) = f' (g x)) :
    (l.modify n f).map g = (l.map g).modify n f' := by
  refine List.ext_getElem? fun i => ?_
  rw [List.getElem?_map, List.getElem?_modify, List.getElem?_modify, List.getElem?_map]
  by_cases here : n = i
  · subst here
    cases found : l[n]? with
    | none => rfl
    | some x => simp [same x found]
  · simp [here]

section Uncached

variable {w : World κ η σ} (caches : w.ledger.Caches)
include caches

/-- A deletion takes the instance out of the cache if it is there. -/
theorem World.ledger_uncache {h : Handle} {inst : Instance κ}
    (here : w.instances[h.number]? = some inst) :
    (if w.cache.lookup inst.id = some h then
      { w with cache := w.cache.filter (·.1 ≠ inst.id) } else w).ledger = w.ledger.forget h := by
  split
  next cached =>
    have filtered := caches.filter_eq_of_lookup cached
    rw [Ledger.forget, ← filtered]
    rfl
  next other =>
    refine (Ledger.forget_of_notMem fun id mem => other ?_).symm
    have card := caches.live (id, h) mem
    rw [w.card_ledger, here] at card
    obtain rfl : inst.id = id := congrArg Card.id (Option.some.inj card)
    exact caches.lookup_eq_some_iff.mpr mem

theorem World.ledger_pop {id : KindId} {h : Handle} (last : w.cache.getLast? = some (id, h)) :
    { w with cache := w.cache.dropLast }.ledger = w.ledger.forget h := by
  rw [Ledger.forget, ← caches.filter_eq_dropLast last]
  rfl

end Uncached

section Instances

variable (w : World κ η σ) (h : Handle)

/-- An instance stays in the ledger as it is while it lives on. -/
theorem World.ledger_modify {f : Instance κ → Instance κ}
    (same : ∀ inst, w.instances[h.number]? = some inst →
      (f inst).card = inst.card ∧ (f inst).busy = inst.busy) :
    { w with instances := w.instances.modify h.number f }.ledger = w.ledger := by
  have found (inst : Instance κ) (here : w.instances.toList[h.number]? = some inst) :=
    same inst (by rwa [Array.getElem?_toList] at here)
  have cards := map_modify _ _ f Instance.card id fun inst here => (found inst here).1
  have busy := map_modify _ _ f Instance.busy id fun inst here => (found inst here).2
  rw [List.modify_id] at cards busy
  simp only [ledger, Array.toList_modify, cards, busy]

/-- Instances can change their memory while they live. -/
theorem World.ledger_setAllocator {inst : Instance κ} {a : Allocator}
    (here : w.instances[h.number]? = some inst) (state : inst.state = some a) (a' : Allocator) :
    { w with
      instances := w.instances.modify h.number fun inst => { inst with state := some a' } }.ledger =
      w.ledger := by
  refine w.ledger_modify h fun inst' here' => ?_
  obtain rfl : inst = inst' := Option.some.inj (here.symm.trans here')
  exact ⟨by rw [Instance.card, Instance.card, state]; rfl, rfl⟩

theorem World.ledger_setBusy (b : Bool) :
    { w with instances := w.instances.modify h.number fun inst => { inst with busy := b } }.ledger =
      { w.ledger with busy := w.ledger.busy.set h.number b } := by
  let f (inst : Instance κ) : Instance κ := { inst with busy := b }
  have cards := map_modify w.instances.toList h.number f Instance.card id fun _ _ => rfl
  have busy := map_modify w.instances.toList h.number f Instance.busy (fun _ => b) fun _ _ => rfl
  rw [List.modify_id] at cards
  simp only [ledger, Array.toList_modify, List.set_eq_modify]
  rw [cards, busy]

theorem World.ledger_bury :
    { w with
      instances := w.instances.modify h.number fun inst => { inst with state := none }
      journal := w.journal.push (.tornDown h) }.ledger = w.ledger.bury h := by
  let f (inst : Instance κ) : Instance κ := { inst with state := none }
  have cards := map_modify w.instances.toList h.number f Instance.card
    (fun c => { c with live := false }) fun _ _ => rfl
  have busy := map_modify w.instances.toList h.number f Instance.busy id fun _ _ => rfl
  rw [List.modify_id] at busy
  simp only [ledger, Ledger.bury, Array.toList_modify, Array.toList_push, List.filterMap_append]
  rw [cards, busy]
  rfl

end Instances

end MemoryTrial
