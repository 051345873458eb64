import MemoryTrial.Plan.Churn
import MemoryTrial.Proofs.Plan.Dialogue
import MemoryTrial.Proofs.Plan.Replay

/-! Plans leak nothing.  The table of a plan names exactly the blocks that the plan acquired and did not
give back, whatever was refused meanwhile (`Episode`).  So at the end each of them was given back once,
and the allocator has the blocks that it had before (`plan_leaks_nothing`).  All allocators in use are
alike in this, and so are all decisions of the system. -/

namespace MemoryTrial.Plan

/-- In `m` a client has the given blocks besides those of `base`. -/
structure Owned (base : Contents) (blocks : List Ptr) (m : Contents) : Prop where
  distinct : blocks.Nodup
  held : ∀ p ∈ blocks, (m p).isSome = true
  fresh : ∀ p ∈ blocks, base p = none
  others : ∀ p, p ∉ blocks → m p = base p

/-- The requests of `past` lead a client that had nothing to the given blocks.  Each is about a block
that the client has then, gives up such a block if any, and brings one that the client has not. -/
inductive Leads : List Exchange → List Ptr → Prop
  | start : Leads [] []
  | next {past : List Exchange} {e : Exchange} {blocks rest after : List Ptr} : Leads past blocks →
    (∀ p, e.request.pointer = some p → p ∈ blocks) → blocks.Perm (e.gave.toList ++ rest) →
    (∀ q, e.got = some q → q ∉ rest) → (e.got.toList ++ rest).Perm after →
    Leads (past ++ [e]) after

/-- No request after one that was refused asks for memory. -/
def Halts (past : List Exchange) : Prop :=
  past.Pairwise fun e later => e.refused = true → later.demands = false

/-- What a run of a plan leaves on an allocator that was at `s`. -/
structure Settles (stop : Bool) (s : Ground) (past : List Exchange) (value : Except Panic Nat)
    (s' : Ground) : Prop where
  /-- The answer is the number of requests that got no memory. -/
  answered : value = .ok (past.countP Exchange.refused)
  serving : Serving s'
  /-- The blocks that there were are where they were, with all their bytes, and there are no others. -/
  kept : contents s' = contents s
  leads : Leads past []
  /-- What was acquired was given back, as often as it was acquired. -/
  balanced : (past.filterMap Exchange.got).Perm (past.filterMap Exchange.gave)
  halts : stop = true → Halts past

/-- What plans do on an allocator that is at `s`. -/
structure LeaksNothing (plan : Plan) (slots : Nat) (s : Ground) : Prop where
  run : ∃ past, Runs (Driver.drive false plan slots) s past (run plan slots s).value
    (run plan slots s).state
  tryRun : ∃ past refused, Runs (Driver.drive true plan slots) s past refused
    (tryRun plan slots s).state ∧ (tryRun plan slots s).value = refused.map (· == 0)
  /-- This is so as long as every slot of the heap has a number, and every demand a checkpoint. -/
  settles : ∀ stop past value s', Runs (Driver.drive stop plan slots) s past value s' →
    Spare s past → s'.1.Indexed → Settles stop s past value s'

/-! ### What a client owns -/

variable {base m m' : Contents} {old new : Option Ptr} {blocks rest : List Ptr}

namespace Owned

theorem start (base : Contents) : Owned base [] base where
  distinct := List.nodup_nil
  held p mem := by cases mem
  fresh p mem := by cases mem
  others p _ := rfl

theorem perm (owned : Owned base blocks m) (same : blocks.Perm rest) : Owned base rest m where
  distinct := same.nodup_iff.mp owned.distinct
  held p mem := owned.held p (same.mem_iff.mpr mem)
  fresh p mem := owned.fresh p (same.mem_iff.mpr mem)
  others p out := owned.others p fun mem => out (same.mem_iff.mp mem)

section Swap

variable (owned : Owned base (old.toList ++ rest) m)
include owned

theorem old_notMem {p : Ptr} (was : old = some p) : p ∉ rest := by
  have distinct := owned.distinct
  rw [was] at distinct
  exact (List.nodup_cons.mp distinct).1

variable (swaps : Swaps m old new m')
include swaps

theorem new_notMem {q : Ptr} (is : new = some q) : q ∉ rest := by
  intro mem
  rcases swaps.fresh q is with was | empty
  · exact owned.old_notMem was mem
  · have held := owned.held q (List.mem_append_right _ mem)
    rw [empty] at held
    cases held

theorem new_fresh {q : Ptr} (is : new = some q) : base q = none := by
  rcases swaps.fresh q is with was | empty
  · exact owned.fresh q (List.mem_append_left _ (Option.mem_toList.mpr was))
  · have out : q ∉ old.toList ++ rest := by
      intro mem
      have held := owned.held q mem
      rw [empty] at held
      cases held
    rw [← owned.others q out, empty]

/-- A client that gives up one of its blocks for another has the others still. -/
theorem swap : Owned base (new.toList ++ rest) m' where
  distinct := by
    have distinct := (List.nodup_append.mp owned.distinct).2.1
    cases is : new with
    | none => exact distinct
    | some q => exact List.nodup_cons.mpr ⟨owned.new_notMem swaps is, distinct⟩
  held p mem := by
    rcases List.mem_append.mp mem with is | mem
    · exact swaps.held p (Option.mem_toList.mp is)
    · have notOld : old ≠ some p := fun was => owned.old_notMem was mem
      have notNew : new ≠ some p := fun is => owned.new_notMem swaps is mem
      rw [swaps.others p notOld notNew]
      exact owned.held p (List.mem_append_right _ mem)
  fresh p mem := by
    rcases List.mem_append.mp mem with is | mem
    · exact owned.new_fresh swaps (Option.mem_toList.mp is)
    · exact owned.fresh p (List.mem_append_right _ mem)
  others p out := by
    have notNew : new ≠ some p := fun is => out (List.mem_append_left _ (Option.mem_toList.mpr is))
    by_cases was : old = some p
    · have mine : p ∈ old.toList ++ rest := List.mem_append_left _ (Option.mem_toList.mpr was)
      rw [(swaps.gone p was).resolve_left notNew, owned.fresh p mine]
    · rw [swaps.others p was notNew]
      refine owned.others p fun mem => ?_
      rcases List.mem_append.mp mem with was' | mem
      · exact was (Option.mem_toList.mp was')
      · exact out (List.mem_append_right _ mem)

end Swap

end Owned

namespace Leads

variable {past : List Exchange}

theorem perm (leads : Leads past blocks) (same : blocks.Perm rest) : Leads past rest := by
  cases leads with
  | start =>
    obtain rfl := same.nil_eq
    exact .start
  | next before mine gives fresh after => exact .next before mine gives fresh (after.trans same)

/-- What a client got and did not give up it has. -/
theorem balanced (leads : Leads past blocks) :
    (past.filterMap Exchange.got).Perm (past.filterMap Exchange.gave ++ blocks) := by
  induction leads with
  | start => exact .refl _
  | @next past e blocks rest after _ _ gives _ gets ih =>
    have one (f : Exchange → Option Ptr) : [e].filterMap f = (f e).toList := by
      cases found : f e <;> simp [found]
    rw [List.filterMap_append, List.filterMap_append, one, one, List.perm_iff_count]
    intro p
    have counted := ih.count_eq p
    have given := gives.count_eq p
    have gotten := gets.count_eq p
    simp only [List.count_append] at counted given gotten ⊢
    omega

end Leads

/-! ### What a dialogue ensures -/

/-- However the dialogue runs from `s` on, with the checkpoints and the slots that it needs, it comes to
an answer, and then `post` holds of the exchanges, the answer and the allocator. -/
def Ensures {α : Type} (d : Dialogue α) (s : Ground)
    (post : List Exchange → α → Ground → Prop) : Prop :=
  ∀ past value s' later, Runs d s past value s' → Spare s (past ++ later) → s'.1.Indexed →
    ∃ a, value = .ok a ∧ post past a s' ∧ Spare s' later

namespace Ensures

variable {α β : Type} {d : Dialogue α} {s : Ground} {post post' : List Exchange → α → Ground → Prop}

theorem done {a : α} (holds : post [] a s) : Ensures (pure a) s post := by
  intro past value s' later runs spare _
  change Runs (.done a) s past value s' at runs
  cases runs
  exact ⟨a, rfl, holds, spare⟩

theorem of_pure {a : α} {f : α → Dialogue β} {final : List Exchange → β → Ground → Prop}
    (ensures : Ensures (f a) s final) : Ensures (pure a >>= f) s final := ensures

theorem imp (ensures : Ensures d s post) (weaker : ∀ past a s', post past a s' → post' past a s') :
    Ensures d s post' := by
  intro past value s' later runs spare few
  obtain ⟨a, rfl, holds, spare⟩ := ensures past value s' later runs spare few
  exact ⟨a, rfl, weaker past a s' holds, spare⟩

theorem bind {f : α → Dialogue β} {final : List Exchange → β → Ground → Prop}
    (first : Ensures d s post)
    (second : ∀ past a s', post past a s' →
      Ensures (f a) s' fun more b s'' => final (past ++ more) b s'') :
    Ensures (d >>= f) s final := by
  intro past value s' later runs spare few
  rcases runs.split with ⟨before, after, a, mid, rfl, runs, rest⟩ | ⟨p, runs⟩
  · rw [List.append_assoc] at spare
    obtain ⟨a', same, holds, spare⟩ := first _ _ _ _ runs spare (rest.indexed few)
    cases same
    exact second before a mid holds _ _ _ _ rest spare few
  · obtain ⟨a, impossible, -⟩ := first _ _ _ _ runs spare few
    cases impossible

end Ensures

/-! ### The blocks of a run -/

/-- A run that has come to `s` has the given blocks besides those of `base`, from what it exchanged. -/
structure Episode (base : Contents) (past : List Exchange) (blocks : List Ptr) (s : Ground) :
    Prop where
  serving : Serving s
  owned : Owned base blocks (contents s)
  leads : Leads past blocks

/-- Nothing here asks for memory. -/
def Quiet (past : List Exchange) : Prop := ∀ e ∈ past, e.demands = false

variable {α : Type} {past more : List Exchange} {s s' : Ground}

theorem Exchange.refused_of_demands {e : Exchange} (refused : e.refused = true) :
    e.demands = true := by
  obtain ⟨request, value⟩ := e
  cases request with
  | grab n | resize p n => rfl
  | release p | payload p | edit p f => cases refused

theorem Quiet.refused {e : Exchange} (quiet : Quiet past) (mem : e ∈ past) : e.refused = false := by
  refine Bool.eq_false_iff.mpr fun refused => ?_
  have demands := Exchange.refused_of_demands refused
  rw [quiet e mem] at demands
  cases demands

theorem Quiet.countP (quiet : Quiet past) : past.countP Exchange.refused = 0 :=
  List.countP_eq_zero.mpr fun _ mem => Bool.not_eq_true _ ▸ quiet.refused mem

theorem Quiet.halts (quiet : Quiet past) : Halts past :=
  List.pairwise_of_forall_mem_list fun _ mem _ _ refused => by
    rw [quiet.refused mem] at refused
    cases refused

theorem Halts.append_of_none (halts : Halts more) (none : past.countP Exchange.refused = 0)
    (before : Halts past) : Halts (past ++ more) := by
  refine List.pairwise_append.mpr ⟨before, halts, fun e mem _ _ refused => ?_⟩
  exact absurd refused (List.countP_eq_zero.mp none e mem)

theorem Halts.append_quiet (halts : Halts past) (quiet : Quiet more) : Halts (past ++ more) :=
  List.pairwise_append.mpr ⟨halts, quiet.halts, fun _ _ later mem _ => quiet later mem⟩

namespace Episode

theorem perm (episode : Episode base past blocks s) (same : blocks.Perm rest) :
    Episode base past rest s :=
  ⟨episode.serving, episode.owned.perm same, episode.leads.perm same⟩

/-- A request about a block of the run is answered. -/
theorem request {r : Request α} (episode : Episode base past blocks s)
    (mine : ∀ p, r.pointer = some p → p ∈ blocks) :
    Ensures (.request r) s fun more answer s' => more = [⟨r, .ok answer⟩] ∧
      ∀ rest, blocks.Perm ((Exchange.gave ⟨r, .ok answer⟩).toList ++ rest) →
        Episode base (past ++ more) ((Exchange.got ⟨r, .ok answer⟩).toList ++ rest) s' := by
  intro new value s' later runs spare few
  have readable : ∀ p, r.pointer = some p → (contents s p).isSome = true := fun p named =>
    episode.owned.held p (mine p named)
  -- the request is the only one, so that its answer is the answer of the dialogue
  change Runs (.ask r .done) s new value s' at runs
  cases runs with
  | panicked granted ran =>
    obtain ⟨answer, s₁, records, served, -⟩ :=
      episode.serving.serves granted readable (by rw [ran]; exact spare) (by rw [ran]; exact few)
    rw [ran] at served
    cases served
  | answered granted ran done =>
    cases done
    obtain ⟨answer, s₁, records, served, serving, spare, swaps⟩ :=
      episode.serving.serves granted readable (by rw [ran]; exact spare) (by rw [ran]; exact few)
    rw [ran] at served
    cases served
    refine ⟨_, rfl, ⟨rfl, fun rest gives => ?_⟩, spare⟩
    have owned := episode.owned.perm gives
    exact ⟨serving, owned.swap swaps, .next episode.leads mine gives
      (fun q => owned.new_notMem swaps) (.refl _)⟩

theorem release {p : Ptr} (episode : Episode base past (p :: rest) s) :
    Ensures (.request (.release p)) s fun more _ s' =>
      Quiet more ∧ Episode base (past ++ more) rest s' := by
  have mine : ∀ q, (Request.release p).pointer = some q → q ∈ p :: rest := by
    rintro q ⟨⟩
    exact List.mem_cons_self
  refine (episode.request mine).imp ?_
  rintro more ⟨⟩ s' ⟨rfl, after⟩
  refine ⟨?_, after rest (.refl _)⟩
  rintro e mem
  rw [List.mem_singleton.mp mem]
  rfl

theorem releaseHeld {held : Option Ptr} (episode : Episode base past (held.toList ++ rest) s) :
    Ensures (Driver.releaseHeld held) s fun more _ s' =>
      Quiet more ∧ Episode base (past ++ more) rest s' := by
  cases held with
  | some p => exact episode.release
  | none => exact .done ⟨nofun, by rwa [List.append_nil]⟩

theorem releaseAll (episode : Episode base past blocks s) :
    Ensures (Driver.releaseAll blocks) s fun more _ s' =>
      Quiet more ∧ Episode base (past ++ more) [] s' := by
  induction blocks generalizing past s with
  | nil => exact .done ⟨nofun, by rwa [List.append_nil]⟩
  | cons p blocks ih =>
    refine episode.release.bind ?_
    rintro first - s₁ ⟨quiet, episode⟩
    refine (ih episode).imp ?_
    rintro second - s₂ ⟨quiet', episode⟩
    rw [← List.append_assoc]
    exact ⟨fun e mem => (List.mem_append.mp mem).elim (quiet e) (quiet' e), episode⟩

end Episode

/-! ### The steps of a run -/

/-- What a step, or several, leave of a table: the new one, with as many refusals as are counted. -/
structure Stepped (base : Contents) (past : List Exchange) (table : Table) (more : List Exchange)
    (table' : Table) (refusals : Nat) (s' : Ground) : Prop where
  episode : Episode base (past ++ more) table'.blocks s'
  size : table'.size = table.size
  counted : more.countP Exchange.refused = refusals

variable {table : Table}

theorem Driver.lookUp_of_found {slot : Nat} {held : Option Ptr}
    (found : table[slot]? = some held) : lookUp table slot = pure held := by
  rw [lookUp, found]

section Step

variable {slot n : Nat} {held : Option Ptr}

theorem Episode.grab (episode : Episode base past table.blocks s)
    (found : table[slot]? = some held) :
    Ensures (Driver.step table (.grab slot n)) s fun more answer s' =>
      Stepped base past table more answer.1 answer.2.toNat s' ∧ Halts more := by
  obtain ⟨inside, -⟩ := Array.getElem?_eq_some_iff.mp found
  rw [Driver.step, Driver.lookUp_of_found found]
  refine .of_pure ((episode.perm (blocks_perm found)).releaseHeld.bind ?_)
  rintro before - s₁ ⟨quiet, emptied⟩
  have unnamed : ∀ p, (Request.grab n).pointer = some p → p ∈ table.others slot := by
    intro p named
    cases named
  refine (emptied.request unnamed).bind ?_
  rintro _ p s₂ ⟨rfl, after⟩
  have filled := (after _ (.refl _)).perm (blocks_set inside p).symm
  have counted : [(⟨.grab n, .ok p⟩ : Exchange)].countP Exchange.refused = p.isNone.toNat := by
    cases p <;> rfl
  refine .done ⟨⟨?_, Array.size_setIfInBounds, ?_⟩, ?_⟩
  · rwa [List.append_nil, ← List.append_assoc]
  · rw [List.append_nil, List.countP_append, quiet.countP, counted, Nat.zero_add]
  · rw [List.append_nil]
    exact Halts.append_of_none (List.pairwise_singleton _ _) quiet.countP quiet.halts

theorem Episode.resize (episode : Episode base past table.blocks s)
    (found : table[slot]? = some held) :
    Ensures (Driver.step table (.resize slot n)) s fun more answer s' =>
      Stepped base past table more answer.1 answer.2.toNat s' ∧ Halts more := by
  obtain ⟨inside, -⟩ := Array.getElem?_eq_some_iff.mp found
  rw [Driver.step, Driver.lookUp_of_found found]
  refine .of_pure ?_
  cases held with
  | none => exact .done ⟨⟨by rwa [List.append_nil], rfl, rfl⟩, List.Pairwise.nil⟩
  | some p =>
    have mine : ∀ q, (Request.resize p n).pointer = some q → q ∈ table.blocks := by
      rintro q ⟨⟩
      exact (blocks_perm found).mem_iff.mpr List.mem_cons_self
    refine (episode.request mine).bind ?_
    rintro _ answer s₁ ⟨rfl, after⟩
    cases answer with
    | none =>
      exact .done ⟨⟨after _ (.refl _), rfl, rfl⟩, List.pairwise_singleton _ _⟩
    | some q =>
      have moved := (after _ (blocks_perm found)).perm (blocks_set inside (some q)).symm
      exact .done ⟨⟨moved, Array.size_setIfInBounds, rfl⟩, List.pairwise_singleton _ _⟩

theorem Episode.drop (episode : Episode base past table.blocks s)
    (found : table[slot]? = some held) :
    Ensures (Driver.step table (.release slot)) s fun more answer s' =>
      Stepped base past table more answer.1 answer.2.toNat s' ∧ Halts more := by
  obtain ⟨inside, -⟩ := Array.getElem?_eq_some_iff.mp found
  rw [Driver.step, Driver.lookUp_of_found found]
  refine .of_pure ((episode.perm (blocks_perm found)).releaseHeld.bind ?_)
  rintro before - s₁ ⟨quiet, emptied⟩
  have filled := emptied.perm (blocks_set inside none).symm
  refine .done ⟨⟨?_, Array.size_setIfInBounds, ?_⟩, ?_⟩
  · rwa [List.append_nil]
  · rw [List.append_nil, quiet.countP]
    rfl
  · rw [List.append_nil]
    exact quiet.halts

/-- A step asks for memory at most once, as its last request. -/
theorem Episode.step {step : PlanStep} (episode : Episode base past table.blocks s)
    (inside : step.slot < table.size) :
    Ensures (Driver.step table step) s fun more answer s' =>
      Stepped base past table more answer.1 answer.2.toNat s' ∧ Halts more := by
  have found := Array.getElem?_eq_getElem inside
  cases step with
  | grab slot n => exact episode.grab found
  | resize slot n => exact episode.resize found
  | release slot => exact episode.drop found

end Step

theorem Episode.steps (stop : Bool) (refused : Nat) {plan : Plan}
    (episode : Episode base past table.blocks s) (inside : ∀ step ∈ plan, step.slot < table.size) :
    Ensures (Driver.steps stop table refused plan) s fun more answer s' =>
      ∃ refusals, answer.2 = refused + refusals ∧
        Stepped base past table more answer.1 refusals s' ∧
        (stop = true → refused = 0 → Halts more) := by
  induction plan generalizing table refused past s with
  | nil =>
    exact .done ⟨0, rfl, ⟨by rwa [List.append_nil], rfl, rfl⟩, fun _ _ => List.Pairwise.nil⟩
  | cons step plan ih =>
    rw [Driver.steps]
    refine (episode.step (inside step List.mem_cons_self)).bind ?_
    rintro first ⟨table', refusal⟩ s₁ ⟨stepped, halts⟩
    simp only at stepped ⊢
    split
    next =>
      -- the run stops here
      refine .done ⟨refusal.toNat, rfl, ?_, fun _ _ => ?_⟩
      · rwa [List.append_nil]
      · rwa [List.append_nil]
    next goesOn =>
      have behind : ∀ step ∈ plan, step.slot < table'.size := fun step mem =>
        stepped.size ▸ inside step (List.mem_cons_of_mem _ mem)
      refine (ih _ stepped.episode behind).imp ?_
      rintro second ⟨table'', refused'⟩ s₂ ⟨refusals, total, rest, halts'⟩
      simp only at total rest ⊢
      refine ⟨refusal.toNat + refusals, by rw [total, Nat.add_assoc], ⟨?_, ?_, ?_⟩, ?_⟩
      · rw [← List.append_assoc]
        exact rest.episode
      · rw [rest.size, stepped.size]
      · rw [List.countP_append, stepped.counted, rest.counted]
      · rintro rfl rfl
        have none : refusal.toNat = 0 := by simpa using goesOn
        exact Halts.append_of_none (halts' rfl (by rw [none])) (stepped.counted.trans none) halts

/-- A run over a table that memory can hold gives back everything that it acquired. -/
theorem Serving.drive {stop : Bool} {plan : Plan} {slots : Nat} (serving : Serving s)
    (room : slotSize * max slots 1 < memoryLimit) (inside : ∀ step ∈ plan, step.slot < max slots 1) :
    Ensures (Driver.drive stop plan slots) s fun past refused s' =>
      refused = past.countP Exchange.refused ∧ Episode (contents s) past [] s' ∧
        (stop = true → Halts past) := by
  have size : (Table.empty slots).size = max slots 1 := Array.size_replicate
  have blocks : (Table.empty slots).blocks = [] := by
    simp [Table.blocks, Table.empty]
  have episode : Episode (contents s) [] (Table.empty slots).blocks s := by
    rw [blocks]
    exact ⟨serving, .start _, .start⟩
  rw [Driver.drive, reserve_eq_ok_iff.mpr room]
  refine (episode.steps stop 0 (by rwa [size])).bind ?_
  rintro first ⟨table, refused⟩ s₁ ⟨refusals, total, stepped, halts⟩
  refine stepped.episode.releaseAll.bind ?_
  rintro second - s₂ ⟨quiet, released⟩
  refine .done ⟨?_, ?_, fun stops => ?_⟩
  · rw [List.append_nil, List.countP_append, stepped.counted, quiet.countP]
    exact total.trans (Nat.zero_add refusals)
  · rwa [List.append_nil]
  · rw [List.append_nil]
    exact (halts stops rfl).append_quiet quiet

/-! ### Runs of plans -/

variable {plan : Plan} {slots : Nat}

theorem leaks_nothing (serving : Serving s) (room : slotSize * max slots 1 < memoryLimit)
    (inside : ∀ step ∈ plan, step.slot < max slots 1) : LeaksNothing plan slots s where
  run := by
    obtain ⟨past, runs⟩ := Runs.of_runOn (Driver.drive false plan slots) s
    rw [Driver.runOn_drive] at runs
    exact ⟨past, runs⟩
  tryRun := by
    obtain ⟨past, runs⟩ := Runs.of_runOn (Driver.drive true plan slots) s
    rw [Driver.runOn_drive] at runs
    cases ran : drive true plan slots s with
    | mk value s' records =>
    rw [ran] at runs
    refine ⟨past, value, ?_⟩
    cases value with
    | error p =>
      rw [tryRun, Op.bind_of_error ran]
      exact ⟨runs, rfl⟩
    | ok refused =>
      rw [tryRun, Op.bind_of_ok ran]
      exact ⟨runs, rfl⟩
  settles stop past value s' runs spare few := by
    rw [← List.append_nil past] at spare
    obtain ⟨refused, rfl, ⟨rfl, episode, halts⟩, -⟩ :=
      serving.drive room inside _ _ _ _ runs spare few
    exact ⟨rfl, episode.serving, funext fun p => episode.owned.others p List.not_mem_nil,
      episode.leads, by simpa using episode.leads.balanced, halts⟩

theorem churnFrom_inside (stream : Nat → UInt32) (length slots maxBytes : Nat) :
    ∀ step ∈ churnFrom stream length slots maxBytes, step.slot < max slots 1 := by
  intro step mem
  obtain ⟨k, -, rfl⟩ := List.mem_map.mp mem
  have inside : Random.pairAt stream (5 * k) % max slots 1 < max slots 1 :=
    Nat.mod_lt _ (by omega)
  rw [churnStep]
  split <;> exact inside

/-- Plans leave an allocator that is in use as it was, whatever they ask for and whatever is refused,
and no request of theirs is misuse.  The plans that are drawn from a stream of random words are among
them, whatever the stream. -/
theorem Serving.plan_leaks_nothing (serving : Serving s)
    (room : slotSize * max slots 1 < memoryLimit) :
    (∀ plan, (∀ step ∈ plan, step.slot < max slots 1) → LeaksNothing plan slots s) ∧
      ∀ stream length maxBytes,
        LeaksNothing (churnFrom stream length slots maxBytes) slots s :=
  ⟨fun _ inside => leaks_nothing serving room inside, fun stream length maxBytes =>
    leaks_nothing serving room (churnFrom_inside stream length slots maxBytes)⟩

/-- An arena and a heap with blocks of their own, and that heap in the first run of a replay. -/
theorem mixedPlan_leaks_nothing :
    LeaksNothing mixedPlan 2 (.arena Arena.variedArena, none) ∧
      LeaksNothing mixedPlan 2 (.heap Heap.recycled, none) ∧
      LeaksNothing mixedPlan 2 (.faulty ⟨Heap.recycled, 0⟩, some Frame.fresh) :=
  ⟨(Serving.plan_leaks_nothing (.arena none Arena.variedArena_reachable) (by decide)).1 mixedPlan
      (by decide),
    (Serving.plan_leaks_nothing (.heap none Heap.past_recycled) (by decide)).1 mixedPlan (by decide),
    (Serving.plan_leaks_nothing (.faulty (some Frame.fresh) Heap.past_recycled) (by decide)).1
      mixedPlan (by decide)⟩

/-- With a table of `2^60` slots a plan of one small request gives no answer. -/
theorem huge_table_gives_no_answer :
    (∀ step ∈ [PlanStep.grab 0 8], step.slot < max 0x1000000000000000 1) ∧
      Serving (.heap .empty, none) ∧
      ∀ refused, (run [.grab 0 8] 0x1000000000000000 (.heap .empty, none)).value ≠ .ok refused := by
  refine ⟨by simp [PlanStep.slot], .heap none .start, fun refused answered => ?_⟩
  rw [run, drive_of_large (by decide)] at answered
  cases answered

end MemoryTrial.Plan
