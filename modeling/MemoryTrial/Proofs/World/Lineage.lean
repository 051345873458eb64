import MemoryTrial.Proofs.World.Ledger

/-! The lineage of the instances of a registry: from which others each of them was made, and what is
told about their ends.  The cache is a stack in which every instance stands above its sources; what
creations and teardowns do spares the instances that are cached. -/

namespace MemoryTrial

structure Birth where
  /-- The instances that were looked up for the creation of this one. -/
  sources : List Handle
  shared : Bool
  live : Bool

structure Lineage where
  births : List Birth
  cached : List Handle
  /-- The handles that the running creation has looked up so far. -/
  obtained : List Handle
  /-- What the journal tells about the ends of instances. -/
  marks : List Entry

namespace Lineage

def birth (l : Lineage) (h : Handle) : Option Birth := l.births[h.number]?

def sources (l : Lineage) (h : Handle) : List Handle := (l.birth h).elim [] Birth.sources

def next (l : Lineage) : Handle := ⟨l.births.length⟩

def push (l : Lineage) (b : Birth) : Lineage := { l with births := l.births ++ [b] }

def insert (l : Lineage) (h : Handle) : Lineage := { l with cached := l.cached ++ [h] }

def tell (l : Lineage) (e : Entry) : Lineage := { l with marks := l.marks ++ [e] }

def bury (l : Lineage) (h : Handle) : Lineage :=
  { l with
    births := l.births.modify h.number fun b => { b with live := false }
    marks := l.marks ++ [.tornDown h] }

/-- Every cached instance lives, and stands above its sources. -/
structure Stacked (l : Lineage) : Prop where
  live : ∀ h ∈ l.cached, ∃ b, l.birth h = some b ∧ b.live = true
  below : ∀ older h newer, l.cached = older ++ h :: newer → l.sources h ⊆ older
  distinct : l.cached.Nodup
  known : ∀ h, ∀ s ∈ l.sources h, s.number < l.births.length

/-- Every teardown that began is over, and before its end no source of the instance was torn down,
and none was denied to a request. -/
def Brackets (l : Lineage) (told : List Entry) : Prop :=
  ∀ before h after, told = before ++ .tornDown h :: after →
    ∃ during later, after = during ++ .closed h :: later ∧
      ∀ s ∈ l.sources h, .tornDown s ∉ during ∧ .denied s ∉ during

variable {l l' l'' : Lineage} {h s : Handle} {b : Birth} {told told' during : List Entry}

theorem sources_of_birth (here : l.birth h = some b) : l.sources h = b.sources := by
  rw [sources, here, Option.elim_some]

theorem sources_of_none (missing : l.birth h = none) : l.sources h = [] := by
  rw [sources, missing, Option.elim_none]

theorem birth_of_le (beyond : l.births.length ≤ h.number) : l.birth h = none :=
  List.getElem?_eq_none beyond

theorem number_lt (here : l.birth h = some b) : h.number < l.births.length :=
  (List.getElem?_eq_some_iff.mp here).1

theorem birth_of_older (births : l.births <+: l'.births) (old : h.number < l.births.length) :
    l'.birth h = l.birth h := by
  obtain ⟨born, births⟩ := births
  rw [birth, birth, ← births, List.getElem?_append_left old]

theorem sources_of_older (births : l.births <+: l'.births) (old : h.number < l.births.length) :
    l'.sources h = l.sources h := by
  rw [sources, sources, birth_of_older births old]

theorem birth_push (l : Lineage) (b : Birth) (h : Handle) :
    (l.push b).birth h = if h = l.next then some b else l.birth h :=
  Handle.getElem?_push l.births b h

theorem birth_next (l : Lineage) (b : Birth) : (l.push b).birth l.next = some b := by
  rw [birth_push, if_pos rfl]

theorem birth_bury (l : Lineage) (h h' : Handle) :
    (l.bury h).birth h' =
      if h' = h then (l.birth h).map fun b => { b with live := false } else l.birth h' :=
  Handle.getElem?_modify l.births _ h h'

theorem sources_bury (l : Lineage) (h h' : Handle) : (l.bury h).sources h' = l.sources h' := by
  rw [sources, sources, birth_bury]
  split
  next same =>
    rw [same]
    cases l.birth h <;> rfl
  next => rfl

theorem length_bury (l : Lineage) (h : Handle) : (l.bury h).births.length = l.births.length := by
  simp [bury]

namespace Brackets

theorem nil (l : Lineage) : l.Brackets [] := by
  intro before h after whole
  simp at whole

theorem append (first : l.Brackets told) (second : l.Brackets told') :
    l.Brackets (told ++ told') := by
  intro before h after whole
  rcases List.append_eq_append_iff.mp whole with ⟨rest, rfl, rfl⟩ | ⟨rest, rfl, split⟩
  · exact second rest h after rfl
  · cases rest with
    | nil => exact second [] h after split.symm
    | cons e rest =>
      obtain ⟨rfl, rfl⟩ := List.cons.inj split
      obtain ⟨during, later, rfl, apart⟩ := first before h rest rfl
      exact ⟨during, later ++ told', by simp, apart⟩

theorem congr (brackets : l.Brackets told)
    (same : ∀ h, .tornDown h ∈ told → l'.sources h = l.sources h) : l'.Brackets told := by
  intro before h after whole
  obtain ⟨during, later, rfl, apart⟩ := brackets before h after whole
  refine ⟨during, later, rfl, ?_⟩
  rw [same h (by simp [whole])]
  exact apart

theorem enclose (brackets : l.Brackets during)
    (apart : ∀ s ∈ l.sources h, .tornDown s ∉ during ∧ .denied s ∉ during) :
    l.Brackets (.tornDown h :: (during ++ [.closed h])) := by
  have closing : l.Brackets [.closed h] := by
    intro before h' after whole
    cases before <;> simp at whole
  intro before h' after whole
  cases before with
  | nil =>
    obtain ⟨same, rfl⟩ := List.cons.inj whole
    obtain rfl := Entry.tornDown.inj same
    exact ⟨during, [], rfl, apart⟩
  | cons e before =>
    obtain ⟨-, whole⟩ := List.cons.inj whole
    exact brackets.append closing before h' after whole

end Brackets

namespace Stacked

variable (stacked : l.Stacked)
include stacked

theorem number_lt (mem : h ∈ l.cached) : h.number < l.births.length := by
  obtain ⟨b, here, -⟩ := stacked.live h mem
  exact Lineage.number_lt here

theorem sources_subset (mem : h ∈ l.cached) : l.sources h ⊆ l.cached := by
  obtain ⟨older, newer, whole⟩ := List.append_of_mem mem
  rw [whole]
  exact List.subset_append_of_subset_left _ (stacked.below older h newer whole)

theorem congr (births : l'.births = l.births) (cached : l'.cached = l.cached) : l'.Stacked := by
  obtain ⟨live, below, distinct, known⟩ := stacked
  constructor
  · rw [cached]
    simpa only [birth, births] using live
  · rw [cached]
    simpa only [sources, birth, births] using below
  · rwa [cached]
  · simpa only [sources, birth, births] using known

theorem push (sources : b.sources ⊆ l.cached) : (l.push b).Stacked where
  live h mem := by
    obtain ⟨b', here, live⟩ := stacked.live h mem
    exact ⟨b', (birth_of_older (List.prefix_append ..) (Lineage.number_lt here)).trans here, live⟩
  below older h newer whole := by
    have mem : h ∈ l.cached := by
      rw [show l.cached = _ from whole]
      simp
    rw [sources_of_older (List.prefix_append ..) (stacked.number_lt mem)]
    exact stacked.below older h newer whole
  distinct := stacked.distinct
  known h s mem := by
    have older : s.number < l.births.length := by
      rw [Lineage.sources, birth_push] at mem
      split at mem
      · exact stacked.number_lt (sources mem)
      · exact stacked.known h s mem
    simp only [Lineage.push, List.length_append]
    omega

theorem insert (live : ∃ b, l.birth h = some b ∧ b.live = true) (sources : l.sources h ⊆ l.cached)
    (absent : h ∉ l.cached) : (l.insert h).Stacked where
  live h' mem := by
    rcases List.mem_append.mp mem with mem | mem
    · exact stacked.live h' mem
    · rwa [List.mem_singleton.mp mem]
  below older h' newer whole := by
    change l.cached ++ [h] = _ at whole
    change l.sources h' ⊆ older
    rcases List.eq_nil_or_concat newer with rfl | ⟨newer, last, rfl⟩
    · obtain ⟨rfl, same⟩ := List.append_inj' whole rfl
      rw [← List.singleton_inj.mp same]
      exact sources
    · have whole' : l.cached ++ [h] = (older ++ h' :: newer) ++ [last] := by simpa using whole
      exact stacked.below older h' newer (List.append_inj' whole' rfl).1
  distinct := by
    refine List.nodup_append.mpr ⟨stacked.distinct, List.nodup_singleton h, ?_⟩
    rintro h' mem last mem' rfl
    exact absent (List.mem_singleton.mp mem' ▸ mem)
  known := stacked.known

theorem bury (absent : h ∉ l.cached) : (l.bury h).Stacked where
  live h' mem := by
    have other : h' ≠ h := by
      rintro rfl
      exact absent mem
    rw [birth_bury, if_neg other]
    exact stacked.live h' mem
  below older h' newer whole := by
    rw [sources_bury]
    exact stacked.below older h' newer whole
  distinct := stacked.distinct
  known h' s mem := by
    rw [sources_bury] at mem
    rw [length_bury]
    exact stacked.known h' s mem

theorem pop {rest : List Handle} (whole : l.cached = rest ++ [h]) :
    { l with cached := rest }.Stacked ∧ h ∉ rest ∧ l.sources h ⊆ rest := by
  have distinct := stacked.distinct
  rw [whole] at distinct
  obtain ⟨rest_distinct, -, apart⟩ := List.nodup_append.mp distinct
  refine ⟨⟨fun h' mem => ?_, fun older h' newer split => ?_, rest_distinct, stacked.known⟩,
    fun mem => apart h mem h (List.mem_singleton_self h) rfl, stacked.below rest h [] whole⟩
  · exact stacked.live h' (by rw [whole]; exact List.mem_append_left _ mem)
  · exact stacked.below older h' (newer ++ [h]) (by
      rw [whole, show rest = _ from split, List.append_assoc, List.cons_append])

end Stacked

/-- What creations and teardowns do, and what is told of it: instances come in, of which some are
cached and others are torn down, and the cached instances are left alone. -/
structure Spares (l : Lineage) (told : List Entry) (l' : Lineage) : Prop where
  births : l.births <+: l'.births
  marks : l'.marks = l.marks ++ told
  cached : ∃ added, l'.cached = l.cached ++ added ∧ ∀ h ∈ added, l.births.length ≤ h.number
  obtained : ∀ h ∈ l'.obtained, h ∈ l.obtained ∨ h ∈ l'.cached
  spared : ∀ h ∈ l.cached, .tornDown h ∉ told ∧ .denied h ∉ told
  torn : ∀ h, .tornDown h ∈ told →
    l.births.length ≤ h.number ∧ h.number < l'.births.length ∧ h ∉ l'.cached
  brackets : l'.Brackets told
  sources : ∀ h, l.births.length ≤ h.number → l'.sources h ⊆ l'.cached
  born : ∀ h b, l.births.length ≤ h.number → l'.birth h = some b → b.shared = true →
    h ∈ l'.cached ∨ [.tornDown h, .closed h].Sublist told

namespace Spares

theorem cached_subset (spares : l.Spares told l') : l.cached ⊆ l'.cached := by
  obtain ⟨added, cached, -⟩ := spares.cached
  rw [cached]
  exact List.subset_append_left ..

theorem length_le (spares : l.Spares told l') : l.births.length ≤ l'.births.length :=
  spares.births.length_le

/-- What is not cached and was there before is not cached later. -/
theorem notMem (spares : l.Spares told l') (old : h.number < l.births.length)
    (absent : h ∉ l.cached) : h ∉ l'.cached := by
  obtain ⟨added, cached, fresh⟩ := spares.cached
  rw [cached, List.mem_append]
  rintro (mem | mem)
  · exact absent mem
  · exact Nat.not_le_of_lt old (fresh h mem)

theorem of_same (births : l'.births = l.births) (cached : l'.cached = l.cached)
    (marks : l'.marks = l.marks) (obtained : ∀ h ∈ l'.obtained, h ∈ l.obtained ∨ h ∈ l'.cached) :
    l.Spares [] l' where
  births := births ▸ List.prefix_rfl
  marks := by rw [marks, List.append_nil]
  cached := ⟨[], by rw [cached, List.append_nil], nofun⟩
  obtained := obtained
  spared _ _ := ⟨List.not_mem_nil, List.not_mem_nil⟩
  torn _ mem := nomatch mem
  brackets := .nil l'
  sources h beyond := by
    rw [sources_of_none (birth_of_le (births ▸ beyond))]
    exact List.nil_subset _
  born h b beyond here := by
    rw [birth_of_le (births ▸ beyond)] at here
    cases here

theorem refl (l : Lineage) : l.Spares [] l := of_same rfl rfl rfl fun _ => .inl

theorem trans (first : l.Spares told l') (second : l'.Spares told' l'') :
    l.Spares (told ++ told') l'' where
  births := first.births.trans second.births
  marks := by rw [second.marks, first.marks, List.append_assoc]
  cached := by
    obtain ⟨added, cached, fresh⟩ := first.cached
    obtain ⟨added', cached', fresh'⟩ := second.cached
    refine ⟨added ++ added', by rw [cached', cached, List.append_assoc], fun h mem => ?_⟩
    rcases List.mem_append.mp mem with mem | mem
    · exact fresh h mem
    · exact Nat.le_trans first.length_le (fresh' h mem)
  obtained h mem := by
    rcases second.obtained h mem with mem | mem
    · exact (first.obtained h mem).imp_right fun mem => second.cached_subset mem
    · exact .inr mem
  spared h mem := by
    obtain ⟨lives, serves⟩ := first.spared h mem
    obtain ⟨lives', serves'⟩ := second.spared h (first.cached_subset mem)
    simp [lives, serves, lives', serves']
  torn h mem := by
    rcases List.mem_append.mp mem with mem | mem
    · obtain ⟨new, old, absent⟩ := first.torn h mem
      exact ⟨new, Nat.lt_of_lt_of_le old second.length_le, second.notMem old absent⟩
    · obtain ⟨new, old, absent⟩ := second.torn h mem
      exact ⟨Nat.le_trans first.length_le new, old, absent⟩
  brackets := by
    refine (first.brackets.congr fun h mem => ?_).append second.brackets
    exact sources_of_older second.births (first.torn h mem).2.1
  sources h new := by
    by_cases old : h.number < l'.births.length
    · rw [sources_of_older second.births old]
      exact List.Subset.trans (first.sources h new) second.cached_subset
    · exact second.sources h (Nat.le_of_not_lt old)
  born h b new here shared := by
    by_cases old : h.number < l'.births.length
    · rw [birth_of_older second.births old] at here
      refine (first.born h b new here shared).imp (fun mem => second.cached_subset mem) ?_
      exact fun sub => sub.trans (List.sublist_append_left ..)
    · refine (second.born h b (Nat.le_of_not_lt old) here shared).imp_right ?_
      exact fun sub => sub.trans (List.sublist_append_right ..)

/-- A creation or a teardown has looked up its own handles only. -/
theorem obtaining (spares : { l with obtained := [] }.Spares told l') :
    l.Spares told { l' with obtained := l.obtained } where
  births := spares.births
  marks := spares.marks
  cached := spares.cached
  obtained _ mem := .inl mem
  spared := spares.spared
  torn := spares.torn
  brackets := spares.brackets
  sources := spares.sources
  born := spares.born

theorem tell_denied (stacked : l.Stacked) (here : l.birth h = some b) (dead : b.live = false) :
    l.Spares [.denied h] (l.tell (.denied h)) where
  births := List.prefix_rfl
  marks := rfl
  cached := (refl l).cached
  obtained := (refl l).obtained
  spared h' mem := by
    refine ⟨by simp, fun denied => ?_⟩
    obtain rfl : h' = h := by simpa using denied
    obtain ⟨b', here', live⟩ := stacked.live h' mem
    rw [here, Option.some.injEq] at here'
    rw [← here', dead] at live
    cases live
  torn h' mem := by simp at mem
  brackets before h' after whole := by
    cases before <;> simp at whole
  sources := (refl l).sources
  born h' b new here := nomatch (birth_of_le new).symm.trans here

theorem push_local (sources : b.sources ⊆ l.cached) (apart : b.shared = false) :
    l.Spares [] (l.push b) where
  births := List.prefix_append ..
  marks := (refl l).marks
  cached := (refl l).cached
  obtained := (refl l).obtained
  spared := (refl l).spared
  torn := nofun
  brackets := .nil _
  sources h new := by
    rw [Lineage.sources, birth_push, birth_of_le new]
    split
    · exact sources
    · exact List.nil_subset _
  born h b' new here shared := by
    rw [birth_push, birth_of_le new] at here
    split at here
    · obtain rfl := Option.some.inj here
      rw [apart] at shared
      cases shared
    · cases here

theorem push_insert (sources : b.sources ⊆ l.cached) : l.Spares [] ((l.push b).insert l.next) where
  births := List.prefix_append ..
  marks := (refl l).marks
  cached := ⟨[l.next], rfl, by simp [next]⟩
  obtained _ mem := .inl mem
  spared := (refl l).spared
  torn := nofun
  brackets := .nil _
  sources h new := by
    change (l.push b).sources h ⊆ l.cached ++ [l.next]
    rw [Lineage.sources, birth_push, birth_of_le new]
    split
    · exact List.subset_append_of_subset_left _ sources
    · exact List.nil_subset _
  born h b' new here _ := by
    change (l.push b).birth h = _ at here
    rw [birth_push, birth_of_le new] at here
    split at here
    next last => exact .inl (by simp [insert, last])
    next => cases here

/-- While an instance is torn down its sources are spared. -/
theorem enclose (spares : (l.bury h).Spares during l') (old : h.number < l.births.length)
    (sources : l.sources h ⊆ l.cached) :
    l'.Brackets (.tornDown h :: (during ++ [.closed h])) := by
  refine spares.brackets.enclose fun s mem => spares.spared s ?_
  rw [sources_of_older spares.births (by rwa [length_bury]), sources_bury] at mem
  exact sources mem

theorem push_bury (stacked : l.Stacked) (sources : b.sources ⊆ l.cached)
    (spares : ((l.push b).bury l.next).Spares during l') :
    l.Spares (.tornDown l.next :: (during ++ [.closed l.next])) (l'.tell (.closed l.next)) := by
  have length : ((l.push b).bury l.next).births.length = l.births.length + 1 := by
    simp [length_bury, push]
  have last : l.next.number < ((l.push b).bury l.next).births.length :=
    length ▸ Nat.lt_succ_self _
  have sources_next : ((l.push b).bury l.next).sources l.next = b.sources := by
    rw [sources_bury, sources_of_birth (birth_next l b)]
  have absent : l.next ∉ l.cached := fun mem => Nat.lt_irrefl _ (stacked.number_lt mem)
  have beyond {h : Handle} (new : l.births.length ≤ h.number) (other : h ≠ l.next) :
      ((l.push b).bury l.next).births.length ≤ h.number := by
    have apart : h.number ≠ l.births.length := fun number => other (congrArg Handle.mk number)
    omega
  constructor
  · refine List.IsPrefix.trans (List.prefix_iff_eq_take.mpr ?_) spares.births
    simp [bury, push, next, List.take_modify, List.modify_eq_self]
  · simp [tell, spares.marks, bury, push]
  · obtain ⟨added, cached, fresh⟩ := spares.cached
    refine ⟨added, cached, fun h mem => ?_⟩
    have := fresh h mem
    omega
  · exact spares.obtained
  · intro h mem
    obtain ⟨lives, serves⟩ := spares.spared h mem
    have other : h ≠ l.next := by
      rintro rfl
      exact absent mem
    simp [lives, serves, other]
  · intro h mem
    simp only [List.mem_cons, List.mem_append, Entry.tornDown.injEq, List.not_mem_nil, or_false,
      reduceCtorEq] at mem
    rcases mem with rfl | mem
    · exact ⟨Nat.le_refl _, Nat.lt_of_lt_of_le last spares.length_le, spares.notMem last absent⟩
    · obtain ⟨new, old, absent⟩ := spares.torn h mem
      exact ⟨by omega, old, absent⟩
  · refine (spares.enclose (by rwa [length_bury] at last) ?_).congr fun _ _ => rfl
    rw [← sources_bury _ l.next, sources_next]
    exact sources
  · intro h new
    change l'.sources h ⊆ l'.cached
    by_cases other : h = l.next
    · rw [other, sources_of_older spares.births last, sources_next]
      exact List.Subset.trans sources spares.cached_subset
    · exact spares.sources h (beyond new other)
  · intro h b' new here shared
    by_cases other : h = l.next
    · exact .inr (by simp [other])
    · refine (spares.born h b' (beyond new other) here shared).imp_right fun sub => ?_
      exact (sub.trans (List.sublist_append_left ..)).cons _

end Spares

/-- What a whole program does, and what is told of it. -/
structure Extends (l : Lineage) (told : List Entry) (l' : Lineage) : Prop where
  kept : ∀ h b, l.birth h = some b → ∃ live, l'.birth h = some { b with live }
  marks : l'.marks = l.marks ++ told
  absent : ∀ h, h.number < l.births.length → h ∉ l.cached → h ∉ l'.cached
  torn : ∀ h, .tornDown h ∈ told → h.number < l'.births.length ∧ h ∉ l'.cached
  brackets : l'.Brackets told
  /-- A new instance was made from cached ones and from new ones. -/
  sources : ∀ h, l.births.length ≤ h.number → ∀ s ∈ l'.sources h,
    s.number < l.births.length → s ∈ l.cached

namespace Extends

theorem sources_eq (after : l.Extends told l') (old : h.number < l.births.length) :
    l'.sources h = l.sources h := by
  have here : l.birth h = some l.births[h.number] := List.getElem?_eq_getElem old
  obtain ⟨live, here'⟩ := after.kept h _ here
  rw [sources_of_birth here, sources_of_birth here']

theorem number_lt (after : l.Extends told l') (old : h.number < l.births.length) :
    h.number < l'.births.length := by
  have here : l.birth h = some l.births[h.number] := List.getElem?_eq_getElem old
  obtain ⟨live, here'⟩ := after.kept h _ here
  exact Lineage.number_lt here'

theorem refl (l : Lineage) : l.Extends [] l where
  kept _ b here := ⟨b.live, here⟩
  marks := (List.append_nil _).symm
  absent _ _ := id
  torn := nofun
  brackets := .nil l
  sources h new s mem := by
    rw [sources_of_none (birth_of_le new)] at mem
    cases mem

theorem trans (first : l.Extends told l') (second : l'.Extends told' l'') :
    l.Extends (told ++ told') l'' where
  kept h b here := by
    obtain ⟨live, here'⟩ := first.kept h b here
    obtain ⟨live', here''⟩ := second.kept h _ here'
    exact ⟨live', here''⟩
  marks := by rw [second.marks, first.marks, List.append_assoc]
  absent h old none := second.absent h (first.number_lt old) (first.absent h old none)
  torn h mem := by
    rcases List.mem_append.mp mem with mem | mem
    · obtain ⟨old, absent⟩ := first.torn h mem
      exact ⟨second.number_lt old, second.absent h old absent⟩
    · exact second.torn h mem
  brackets :=
    (first.brackets.congr fun h mem => second.sources_eq (first.torn h mem).1).append second.brackets
  sources h new s source old := by
    by_cases between : h.number < l'.births.length
    · rw [second.sources_eq between] at source
      exact first.sources h new s source old
    · have cached := second.sources h (Nat.le_of_not_lt between) s source (first.number_lt old)
      exact not_imp_not.mp (first.absent s old) cached

end Extends

def empty : Lineage := ⟨[], [], [], []⟩

theorem empty_stacked : empty.Stacked :=
  ⟨nofun, fun older h newer whole => by simp [empty] at whole, .nil, fun h s mem => by
    simp [sources, birth, empty] at mem⟩

theorem Spares.extends (spares : l.Spares told l') : l.Extends told l' where
  kept _ b here := ⟨b.live, (birth_of_older spares.births (number_lt here)).trans here⟩
  marks := spares.marks
  absent _ old none := spares.notMem old none
  torn h mem := (spares.torn h mem).2
  brackets := spares.brackets
  sources h new _ source old :=
    not_imp_not.mp (spares.notMem old) (spares.sources h new source)

theorem Extends.pop {rest : List Handle} (after : l.Extends told l')
    (whole : l'.cached = rest ++ [h]) : l.Extends told { l' with cached := rest } := by
  have fewer (h' : Handle) (none : h' ∉ l'.cached) : h' ∉ rest := by
    rw [whole, List.mem_append, not_or] at none
    exact none.1
  obtain ⟨kept, marks, absent, torn, brackets, sources⟩ := after
  exact ⟨kept, marks, fun h' old none => fewer h' (absent h' old none),
    fun h' mem => ⟨(torn h' mem).1, fewer h' (torn h' mem).2⟩, brackets, sources⟩

/-- The teardown of an instance, with what it does in between. -/
theorem Spares.extends_bury (spares : (l.bury h).Spares during l')
    (old : h.number < l.births.length) (absent : h ∉ l.cached) (below : l.sources h ⊆ l.cached) :
    l.Extends (.tornDown h :: (during ++ [.closed h])) (l'.tell (.closed h)) where
  kept h' b here := by
    have stays := birth_of_older (h := h') spares.births
      (by rw [length_bury]; exact number_lt here)
    change ∃ live, l'.birth h' = _
    rw [stays, birth_bury]
    split
    next same =>
      rw [← same, here]
      exact ⟨false, rfl⟩
    next => exact ⟨b.live, here⟩
  marks := by simp [tell, spares.marks, bury]
  absent h' old' none := spares.notMem (by rwa [length_bury]) none
  torn h' mem := by
    change h'.number < l'.births.length ∧ h' ∉ l'.cached
    simp only [List.mem_cons, List.mem_append, Entry.tornDown.injEq, List.not_mem_nil, or_false,
      reduceCtorEq] at mem
    rcases mem with rfl | mem
    · have inside : h'.number < (l.bury h').births.length := by rwa [length_bury]
      exact ⟨Nat.lt_of_lt_of_le inside spares.length_le, spares.notMem inside absent⟩
    · exact (spares.torn h' mem).2
  brackets := (spares.enclose old below).congr fun _ _ => rfl
  sources h' new s source old' := by
    rw [← length_bury l h] at new old'
    exact not_imp_not.mp (spares.notMem old') (spares.sources h' new source)

/-- The instances that a teardown of the registry is about: those that were cached when it began,
and those that look-ups created since. -/
def Concerns (l l' : Lineage) (h : Handle) : Prop :=
  h ∈ l.cached ∨ l.births.length ≤ h.number ∧ ∃ b, l'.birth h = some b ∧ b.shared = true

/-- What a teardown of the registry has done: an instance is torn down before its sources. -/
structure Unwinds (l : Lineage) (told : List Entry) (l' : Lineage) : Prop
    extends l.Extends told l' where
  ordered : ∀ h, l.Concerns l' h → ∀ s ∈ l'.sources h,
    ∀ before after, told = before ++ .tornDown s :: after →
      [.tornDown h, .closed h].Sublist before

/-- The instances that are not cached any more were torn down. -/
def Finished (l : Lineage) (told : List Entry) (l' : Lineage) : Prop :=
  ∀ h, l.Concerns l' h → h ∈ l'.cached ∨ [.tornDown h, .closed h].Sublist told

theorem Unwinds.refl (l : Lineage) : l.Unwinds [] l :=
  ⟨.refl l, fun _ _ _ _ before after whole => by simp at whole⟩

theorem Finished.refl (l : Lineage) : l.Finished [] l := by
  rintro h (mem | ⟨new, b, here, -⟩)
  · exact .inl mem
  · rw [birth_of_le new] at here
    cases here

theorem Extends.concerns {l₀ : Lineage} (after : l.Extends told l')
    (concerned : l₀.Concerns l' h) (old : h.number < l.births.length) : l₀.Concerns l h := by
  refine concerned.imp_right fun ⟨new, b, here, shared⟩ => ⟨new, l.births[h.number], ?_, ?_⟩
  · exact List.getElem?_eq_getElem old
  · obtain ⟨live, here'⟩ := after.kept h _ (List.getElem?_eq_getElem old)
    rw [here, Option.some.injEq] at here'
    rw [here'] at shared
    exact shared

/-- A teardown began before that of `h`, or it is that of `h`, or it began inside it. -/
theorem torn_cases {before later : List Entry}
    (split : told ++ .tornDown h :: (during ++ [.closed h]) = before ++ .tornDown s :: later) :
    (∃ later', told = before ++ .tornDown s :: later') ∨ (h = s ∧ told = before) ∨
      .tornDown s ∈ during := by
  rcases List.append_eq_append_iff.mp split with ⟨between, rfl, rest⟩ | ⟨between, rfl, rest⟩
  · cases between with
    | nil => exact .inr (.inl ⟨Entry.tornDown.inj (List.cons.inj rest).1, by simp⟩)
    | cons e between =>
      have mem : .tornDown s ∈ during ++ [.closed h] := by
        rw [(List.cons.inj rest).2]
        simp
      exact .inr (.inr (by simpa using mem))
  · cases between with
    | nil => exact .inr (.inl ⟨(Entry.tornDown.inj (List.cons.inj rest).1).symm, by simp⟩)
    | cons e between =>
      rw [← (List.cons.inj rest).1]
      exact .inl ⟨between, rfl⟩

section Step

variable {l₀ : Lineage} {rest : List Handle} (unwinds : l₀.Unwinds told l)
  (whole : l.cached = rest ++ [h])
include unwinds whole

theorem Unwinds.pop : l₀.Unwinds told { l with cached := rest } :=
  ⟨unwinds.toExtends.pop whole, unwinds.ordered⟩

/-- The newest instance leaves the cache and is torn down. -/
theorem Unwinds.step (begun : l₀.Stacked) (finished : l₀.Finished told l) (stacked : l.Stacked)
    (spares : ({ l with cached := rest }.bury h).Spares during l') :
    l₀.Unwinds (told ++ .tornDown h :: (during ++ [.closed h])) (l'.tell (.closed h)) ∧
      l₀.Finished (told ++ .tornDown h :: (during ++ [.closed h])) (l'.tell (.closed h)) := by
  obtain ⟨popped, absent, below⟩ := stacked.pop whole
  have old : h.number < l.births.length := stacked.number_lt (by simp [whole])
  have length : ({ l with cached := rest }.bury h).births.length = l.births.length :=
    length_bury _ h
  have after := spares.extends_bury old absent below
  have extended := unwinds.pop whole |>.toExtends.trans after
  -- whatever was made from the newest instance came after it, and is gone
  have above (x : Handle) (concerned : l₀.Concerns l x) (source : h ∈ l.sources x) :
      [.tornDown x, .closed x].Sublist told := by
    rcases finished x concerned with cached | gone
    · rw [whole, List.mem_append, List.mem_singleton] at cached
      rcases cached with mem | rfl
      · exact absurd (popped.sources_subset mem source) absent
      · exact absurd (below source) absent
    · exact gone
  refine ⟨⟨extended, fun x concerned s source before later split => ?_⟩, fun x concerned => ?_⟩
  · have x_old : x.number < l.births.length := by
      refine Nat.lt_of_not_le fun new => (extended.torn s ?_).2 ?_
      · rw [split]
        simp
      · exact spares.sources x (length ▸ new) source
    rw [after.sources_eq x_old] at source
    have was := after.concerns concerned x_old
    rcases torn_cases split with ⟨later', rfl⟩ | ⟨rfl, rfl⟩ | inside
    · exact unwinds.ordered x was s source before later' rfl
    · exact above x was source
    · have new := (spares.torn s inside).1
      have known := stacked.known x s source
      omega
  · by_cases x_old : x.number < l.births.length
    · rcases finished x (after.concerns concerned x_old) with cached | gone
      · rw [whole, List.mem_append, List.mem_singleton] at cached
        rcases cached with mem | rfl
        · exact .inl (spares.cached_subset mem)
        · refine .inr (List.sublist_append_of_sublist_right (.cons_cons _ ?_))
          exact List.sublist_append_right ..
      · exact .inr (gone.trans (List.sublist_append_left ..))
    · rcases concerned with cached | ⟨-, b, here, shared⟩
      · exact absurd (unwinds.number_lt (begun.number_lt cached)) x_old
      · refine (spares.born x b (by omega) here shared).imp_right fun gone => ?_
        have inside := gone.trans (List.sublist_append_left during [.closed h])
        exact List.sublist_append_of_sublist_right (inside.cons _)

end Step

/-- No source of an instance that a teardown is about was torn down before it, nor before the
teardown began. -/
theorem Unwinds.ordered_marks (unwinds : l.Unwinds told l') (begun : l.Stacked)
    (history : empty.Extends l.marks l) (concerned : l.Concerns l' h) (source : s ∈ l'.sources h)
    {before later : List Entry} (split : l'.marks = before ++ .tornDown s :: later) :
    [.tornDown h, .closed h].Sublist before := by
  have untorn : .tornDown s ∉ l.marks := by
    intro mem
    obtain ⟨old, absent⟩ := history.torn s mem
    refine absent ?_
    rcases concerned with cached | ⟨new, -⟩
    · rw [unwinds.sources_eq (begun.number_lt cached)] at source
      exact begun.sources_subset cached source
    · exact unwinds.sources h new s source old
  rw [unwinds.marks] at split
  rcases List.append_eq_append_iff.mp split with ⟨between, rfl, rest⟩ | ⟨between, whole, rest⟩
  · have gone := unwinds.ordered h concerned s source between later rest
    exact List.sublist_append_of_sublist_right gone
  · cases between with
    | nil =>
      have gone := unwinds.ordered h concerned s source [] later rest.symm
      exact gone.trans (List.nil_sublist before)
    | cons e between =>
      refine absurd ?_ untorn
      rw [whole, (List.cons.inj rest).1]
      simp

end Lineage

variable {κ η σ : Type}

def Instance.birth (inst : Instance κ) : Birth := ⟨inst.sources, inst.shared, inst.state.isSome⟩

/-- What the journal tells about the ends of instances. -/
def World.marks (w : World κ η σ) : List Entry := w.journal.toList.filter Entry.isMark

def World.lineage (w : World κ η σ) : Lineage where
  births := w.instances.toList.map Instance.birth
  cached := w.cache.map Prod.snd
  obtained := w.obtained
  marks := w.marks

section Instances

variable (w : World κ η σ) (h : Handle)

theorem World.birth_lineage : w.lineage.birth h = w.instances[h.number]?.map Instance.birth := by
  simp [lineage, Lineage.birth]

theorem World.length_lineage : w.lineage.births.length = w.instances.size := by simp [lineage]

theorem World.lineage_modify {f : Instance κ → Instance κ}
    (same : ∀ inst, w.instances[h.number]? = some inst → (f inst).birth = inst.birth) :
    { w with instances := w.instances.modify h.number f }.lineage = w.lineage := by
  have births := map_modify w.instances.toList h.number f Instance.birth id fun inst here =>
    same inst (by rwa [Array.getElem?_toList] at here)
  rw [List.modify_id] at births
  simp only [lineage, marks, Array.toList_modify, births]

theorem World.lineage_tell {e : Entry} (mark : e.isMark = true) :
    { w with journal := w.journal.push e }.lineage = w.lineage.tell e := by
  simp [lineage, marks, Lineage.tell, mark]

theorem World.lineage_bury :
    { w with
      instances := w.instances.modify h.number fun inst => { inst with state := none }
      journal := w.journal.push (.tornDown h) }.lineage = w.lineage.bury h := by
  let f (inst : Instance κ) : Instance κ := { inst with state := none }
  have births := map_modify w.instances.toList h.number f Instance.birth
    (fun b => { b with live := false }) fun _ _ => rfl
  simp only [lineage, marks, Lineage.bury, Array.toList_modify, Array.toList_push,
    List.filter_append]
  rw [births]
  rfl

end Instances

theorem lineage_of_still {w w' : World κ η σ} (still : Still w w') : w'.lineage = w.lineage := by
  obtain ⟨-, instances, cache, obtained, -, -, entries, journal, written⟩ := still
  have nothing : entries.filter Entry.isMark = [] := by
    refine List.filter_eq_nil_iff.mpr fun e mem => ?_
    rw [written e mem]
    exact Bool.false_ne_true
  simp [World.lineage, World.marks, instances, cache, obtained, journal, nothing]

end MemoryTrial
