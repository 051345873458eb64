import MemoryTrial.Proofs.World.Creations
import MemoryTrial.Script.Session

/-! The kinds that scripts declare.  Their creations look kinds up and keep blocks of them, and the
teardowns of their instances give the blocks back and look up more, but none of them destroys
anything (`Catalog.orderly`). -/

namespace MemoryTrial.Script

variable {α τ : Type}

abbrev Harmless (p : Play τ α) : Prop := p.Only (Calls.harmless True) (Calls.harmless True)

theorem harmless_modify (f : Session τ → Session τ) : Harmless (Client.modify f : Play τ Unit) :=
  Client.only_bind (Client.only_ask trivial) fun _ => Client.only_ask trivial

theorem harmless_allocate (h : Handle) (n : Nat) : Harmless (h.allocate n : Play τ (Option Ptr)) := by
  rw [Handle.allocate]
  split
  · trivial
  · exact Client.only_ask trivial

theorem harmless_free (h : Handle) (p : Option Ptr) : Harmless (h.free p : Play τ Unit) := by
  cases p with
  | none => trivial
  | some p => exact Client.only_ask trivial

theorem harmless_lookUpAll (names : List String) : Harmless (Play.lookUpAll names : Play τ _) := by
  induction names with
  | nil => trivial
  | cons name names ih =>
    refine Client.only_bind (Client.only_ask trivial) fun answer => ?_
    cases answer with
    | error e => trivial
    | ok h =>
      refine Client.only_bind ih fun answer => ?_
      cases answer <;> trivial

theorem harmless_lookUpSources (name : String) (spec : Layered) :
    Harmless (spec.lookUpSources name : Play τ _) := by
  refine Client.only_bind (Client.only_ask trivial) fun s => ?_
  dsimp only
  split
  · refine Client.only_bind (harmless_modify _) fun _ => ?_
    refine Client.only_bind ⟨harmless_lookUpAll _, fun _ => trivial⟩ fun found => ?_
    refine Client.only_bind (harmless_modify _) fun _ => ?_
    cases found with
    | ok found => trivial
    | error p => exact Client.only_ask trivial
  · trivial

theorem harmless_create (name : String) (spec : Layered) :
    Harmless (spec.create name : Play τ _) := by
  refine Client.only_bind (harmless_lookUpSources name spec) fun answer => ?_
  cases answer with
  | error e => trivial
  | ok sources =>
    refine Client.only_bind (Client.only_ask trivial) fun _ => ?_
    split
    · exact Client.only_bind (harmless_allocate _ _) fun _ => trivial
    · trivial

theorem harmless_returnAll (holdings : List Holding) :
    Harmless (Layered.returnAll holdings : Play τ Unit) := by
  induction holdings with
  | nil => trivial
  | cons holding rest ih =>
    refine Client.only_bind (harmless_free _ _) fun _ => ?_
    refine Client.only_bind (Client.only_ask trivial) fun _ => ?_
    exact Client.only_bind (Client.only_ask trivial) fun _ => ih

theorem harmless_reviveAll (names : List String) :
    Harmless (Layered.reviveAll names : Play τ Unit) := by
  induction names with
  | nil => trivial
  | cons name names ih =>
    refine Client.only_bind (Client.only_ask trivial) fun answer => ?_
    cases answer with
    | error e => exact Client.only_bind (Client.only_ask trivial) fun _ => ih
    | ok h =>
      refine Client.only_bind (harmless_allocate _ _) fun _ => ?_
      refine Client.only_bind (Client.only_ask trivial) fun _ => ?_
      exact Client.only_bind (Client.only_ask trivial) fun _ => ih

theorem harmless_close (name : String) (spec : Layered) (holdings : List Holding) :
    Harmless (spec.close name holdings : Play τ Unit) := by
  refine Client.only_bind (Client.only_ask trivial) fun _ => ?_
  refine Client.only_bind (harmless_returnAll _) fun _ => ?_
  refine Client.only_bind (Client.only_ask trivial) fun _ => ?_
  dsimp only
  split
  · exact Client.only_bind (harmless_modify _) fun _ => harmless_reviveAll _
  · trivial

/-- Whatever kinds a script declares, they are orderly. -/
theorem Catalog.orderly (catalog : Catalog) (hook : Nat → Play τ Unit)
    (production : Fixture KindRef) : Environment.Orderly ⟨catalog.kind, hook, production⟩ := by
  have simple (id : KindId) (create : Op Unit (Except ConfigError Allocator)) :
      Harmless (Kind.simple id create : Kind KindRef Nat (Session τ)).create :=
    Client.only_bind (Client.only_ask trivial) fun _ => trivial
  have declared (name : String) (spec : KindSpec) :
      Harmless (spec.kind name : Kind KindRef Nat (Session τ)).create ∧
        ∀ holdings, Harmless ((spec.kind name : Kind KindRef Nat (Session τ)).close holdings) := by
    cases spec with
    | layered spec => exact ⟨harmless_create name spec, harmless_close name spec⟩
    | _ => exact ⟨simple _ _, fun _ => trivial⟩
  constructor
  · intro k
    cases k with
    | named name => exact (declared name _).1
    | _ => exact simple _ _
  · intro k holdings
    cases k with
    | named name => exact (declared name _).2 holdings
    | _ => trivial

end MemoryTrial.Script
