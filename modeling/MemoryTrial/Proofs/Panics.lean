import MemoryTrial.Allocator

/-! What allocators raise.  They do not know who calls them, so a call from inside one of their own
operations is reported by the registry alone (`Allocator.unaware_perform`). -/

namespace MemoryTrial

variable {α β : Type}

/-- Whether a panic says that an instance was called from inside one of its own operations. -/
def Panic.isReentry : Panic → Bool
  | .violation (.reentrantUse _) => true
  | _ => false

/-- What is raised, if anything, is about something else. -/
def Unaware (x : Except Panic α) : Prop := ∀ p, x = .error p → p.isReentry = false

theorem unaware_ok (a : α) : Unaware (.ok a : Except Panic α) := by
  intro p raised
  cases raised

theorem unaware_error {p : Panic} (other : p.isReentry = false) :
    Unaware (.error p : Except Panic α) := by
  intro p' raised
  cases raised
  exact other

theorem unaware_bind {x : Except Panic α} {f : α → Except Panic β} (hx : Unaware x)
    (hf : ∀ a, Unaware (f a)) : Unaware (x >>= f) := by
  cases x with
  | ok a => exact hf a
  | error p => exact unaware_error (hx p rfl)

namespace Op

variable {τ : Type}

def Unaware (x : Op τ α) : Prop := ∀ s, MemoryTrial.Unaware (x s).value

theorem unaware_pure (a : α) : (pure a : Op τ α).Unaware := fun _ => unaware_ok a

theorem unaware_modify (f : τ → τ) : (modify f).Unaware := fun _ => unaware_ok ()

theorem unaware_read (f : τ → α) : (read f).Unaware := fun s => unaware_ok (f s)

theorem unaware_log (r : Record) : (log r : Op τ Unit).Unaware := fun _ => unaware_ok ()

theorem unaware_raise {p : Panic} (other : p.isReentry = false) : (raise p : Op τ α).Unaware :=
  fun _ => unaware_error other

theorem unaware_inspect {f : τ → Except Panic α} (hf : ∀ s, MemoryTrial.Unaware (f s)) :
    (inspect f).Unaware := by
  intro s
  cases found : f s with
  | ok a =>
    rw [inspect_of_ok found]
    exact unaware_ok a
  | error p =>
    rw [inspect_of_error found]
    exact unaware_error (hf s p found)

theorem unaware_bind {x : Op τ α} {f : α → Op τ β} (hx : x.Unaware) (hf : ∀ a, (f a).Unaware) :
    (x >>= f).Unaware := by
  intro s
  have first := hx s
  rw [bind_run]
  split
  next a s' records run => exact hf a s'
  next p s' records run =>
    rw [run] at first
    exact unaware_error (first p rfl)

end Op

namespace Arena

theorem unaware_header (b : Buffer) (offset : Nat) : Unaware (b.header offset) := by
  unfold Buffer.header
  split
  · exact unaware_error rfl
  · split
    · exact unaware_ok _
    · exact unaware_error rfl

theorem unaware_reaches (b : Buffer) (target offset : Nat) : Unaware (b.reaches target offset) := by
  fun_induction Buffer.reaches b target offset with
  | case1 offset _ p raised => exact unaware_error (unaware_header b offset p raised)
  | case2 => exact unaware_ok _
  | case3 => exact unaware_ok _
  | case4 _ _ _ _ _ _ ih => exact ih
  | case5 => exact unaware_ok _

theorem unaware_freeRun (b : Buffer) (offset run : Nat) : Unaware (b.freeRun offset run) := by
  fun_induction Buffer.freeRun b offset run with
  | case1 => exact unaware_ok _
  | case2 run _ p raised => exact unaware_error (unaware_header b (offset + run) p raised)
  | case3 => exact unaware_ok _
  | case4 _ _ _ _ _ ih => exact ih

theorem unaware_ensureLive (a : Arena) : Unaware a.ensureLive := by
  unfold ensureLive
  split
  · exact unaware_ok _
  · exact unaware_error rfl

theorem unaware_takenNode (a : Arena) (p : Ptr) {misuse : Ptr → Violation}
    (other : (Panic.violation (misuse p)).isReentry = false) : Unaware (a.takenNode p misuse) := by
  have named : Unaware (a.nodeOf p) := by
    unfold nodeOf
    split
    · exact unaware_error rfl
    · split
      · exact unaware_error rfl
      · refine unaware_bind (unaware_reaches _ _ _) fun found => ?_
        split
        · exact unaware_ok _
        · exact unaware_error rfl
  refine unaware_bind named fun offset => unaware_bind (unaware_header _ _) fun h => ?_
  split
  · exact unaware_ok _
  · exact unaware_error other

theorem unaware_takeNode (offset need : Nat) : (takeNode offset need).Unaware := by
  refine Op.unaware_bind (Op.unaware_inspect fun a => unaware_header a.buffer offset) fun h => ?_
  split
  · exact Op.unaware_raise rfl
  · exact Op.unaware_bind (Op.unaware_modify _) fun _ => Op.unaware_pure _

theorem unaware_place (n need offset : Nat) : (place n need offset).Unaware :=
  Op.unaware_bind (unaware_takeNode offset need) fun _ =>
    Op.unaware_bind (Op.unaware_log _) fun _ => Op.unaware_pure _

theorem unaware_search (len n need offset walked : Nat) (a : Arena) :
    Unaware (search len n need offset walked a).value := by
  fun_induction search len n need offset walked a with
  | case1 offset _ a _ p raised => exact unaware_error (unaware_header a.buffer offset p raised)
  | case2 _ _ _ _ _ _ _ ih => exact ih
  | case3 offset _ a _ h _ _ p raised =>
    exact unaware_error (unaware_freeRun a.buffer offset h.size p raised)
  | case4 offset _ a => exact unaware_place n need offset a
  | case5 _ _ _ _ _ _ _ _ _ ih => exact ih
  | case6 offset _ a _ h _ _ merged _ _ ih =>
    change Unaware (if need ≤ merged then place n need offset (a.merge offset merged)
      else _).value
    split
    · exact unaware_place n need offset (a.merge offset merged)
    · exact ih
  | case7 => exact unaware_ok _

theorem unaware_grab (n : Nat) : (grab n).Unaware := by
  refine Op.unaware_bind (Op.unaware_inspect unaware_ensureLive) fun _ => ?_
  refine Op.unaware_bind (Op.unaware_read _) fun len => ?_
  split
  · exact fun a => unaware_search len n _ a.cursor 0 a
  · exact Op.unaware_bind (Op.unaware_log _) fun _ => Op.unaware_pure _

theorem unaware_release (p : Ptr) : (release p).Unaware := by
  refine Op.unaware_bind (Op.unaware_inspect unaware_ensureLive) fun _ => ?_
  refine Op.unaware_bind (Op.unaware_inspect fun a => unaware_takenNode a p rfl) fun node => ?_
  exact Op.unaware_bind (Op.unaware_modify _) fun _ => Op.unaware_log _

theorem unaware_copyBytes (source count target : Nat) :
    (copyBytes source count target).Unaware := by
  refine Op.unaware_bind (Op.unaware_read _) fun len => ?_
  split
  · exact Op.unaware_raise rfl
  · split
    · exact Op.unaware_raise rfl
    · exact Op.unaware_modify _

theorem unaware_resize (p : Ptr) (n : Nat) : (resize p n).Unaware := by
  refine Op.unaware_bind (Op.unaware_inspect unaware_ensureLive) fun _ => ?_
  refine Op.unaware_bind (Op.unaware_inspect fun a => unaware_takenNode a p rfl) fun node => ?_
  refine Op.unaware_bind (Op.unaware_inspect fun a => unaware_freeRun _ _ _) fun available => ?_
  split
  · refine Op.unaware_bind (Op.unaware_modify _) fun _ => Op.unaware_bind (Op.unaware_log _) ?_
    exact fun _ => Op.unaware_bind (unaware_takeNode _ _) fun _ => Op.unaware_pure _
  · refine Op.unaware_bind (unaware_grab n) fun found => ?_
    split
    · exact Op.unaware_pure _
    · refine Op.unaware_bind (unaware_copyBytes _ _ _) fun _ => ?_
      refine Op.unaware_bind (unaware_release p) fun _ => ?_
      exact Op.unaware_bind (Op.unaware_log _) fun _ => Op.unaware_pure _

theorem unaware_usedNode (p : Ptr) : (usedNode p).Unaware :=
  Op.unaware_bind (Op.unaware_inspect unaware_ensureLive) fun _ =>
    Op.unaware_inspect fun a => unaware_takenNode a p rfl

theorem unaware_perform (r : Request α) : (Arena.perform r).Unaware := by
  cases r with
  | grab n => exact unaware_grab n
  | release p => exact unaware_release p
  | resize p n => exact unaware_resize p n
  | payload p => exact Op.unaware_bind (unaware_usedNode p) fun _ => Op.unaware_read _
  | edit p f => exact Op.unaware_bind (unaware_usedNode p) fun _ => Op.unaware_modify _

end Arena

namespace Heap

theorem misuse_isReentry (h : Heap) (p : Ptr) : (Panic.violation (h.misuse p)).isReentry = false := by
  unfold misuse
  split
  · split <;> rfl
  · rfl

theorem unaware_insert (bytes : ByteArray) : (insert bytes).Unaware := by
  intro h
  obtain ⟨slots, freeSlots, live⟩ := h
  cases freeSlots with
  | nil => exact unaware_ok _
  | cons i rest =>
    rw [insert]
    split
    · exact unaware_error rfl
    · exact unaware_ok _

theorem unaware_usedBlock (p : Ptr) : (usedBlock p).Unaware := by
  refine Op.unaware_bind (Op.unaware_read _) fun found => ?_
  split
  · exact Op.unaware_pure _
  · exact Op.unaware_raise rfl

theorem unaware_release (p : Ptr) : (release p).Unaware := by
  refine Op.unaware_bind (Op.unaware_read _) fun found => ?_
  split
  · exact Op.unaware_modify _
  · exact fun h => unaware_error (misuse_isReentry h p)

theorem unaware_grab (n : Nat) : (grab n).Unaware := by
  rw [grab, grabIf]
  split
  · exact unaware_insert _
  · exact Op.unaware_bind (Op.unaware_log _) fun _ => Op.unaware_pure _

theorem unaware_resize (p : Ptr) (n : Nat) : (resize p n).Unaware := by
  refine Op.unaware_bind (Op.unaware_read _) fun found => ?_
  split
  · exact fun h => unaware_error (misuse_isReentry h p)
  · split
    · exact Op.unaware_bind (Op.unaware_modify _) fun _ => Op.unaware_pure _
    · exact Op.unaware_bind (Op.unaware_log _) fun _ => Op.unaware_pure _

theorem unaware_perform (r : Request α) : (Heap.perform r).Unaware := by
  cases r with
  | grab n => exact unaware_grab n
  | release p => exact unaware_release p
  | resize p n => exact unaware_resize p n
  | payload p => exact Op.unaware_bind (unaware_usedBlock p) fun _ => Op.unaware_pure _
  | edit p f => exact Op.unaware_bind (unaware_usedBlock p) fun _ => Op.unaware_modify _

end Heap

theorem unaware_checkpoint : checkpoint.Unaware := by
  intro active
  unfold checkpoint Frame.checkpoint
  split
  · exact unaware_ok _
  · split
    · exact unaware_ok _
    next raised =>
      split at raised
      · cases raised
      · cases raised
        exact unaware_error rfl

theorem FaultyHeap.unaware_perform (r : Request α) : (FaultyHeap.perform r).Unaware := by
  have guarded (name : RequestName) (n : Nat) {request : Op Heap (Option Ptr)}
      (h : request.Unaware) : (guard name n request).Unaware := by
    refine Op.unaware_bind (fun s => unaware_checkpoint s.2) fun refused => ?_
    split
    · refine Op.unaware_bind (Op.unaware_modify _) fun _ => ?_
      exact Op.unaware_bind (Op.unaware_log _) fun _ => Op.unaware_pure _
    · exact fun s => h s.1.heap
  cases r with
  | grab n => exact guarded .grab n (Heap.unaware_grab n)
  | resize p n => exact guarded .resize n (Heap.unaware_resize p n)
  | release p => exact fun s => Heap.unaware_release p s.1.heap
  | payload p => exact fun s => Heap.unaware_perform (.payload p) s.1.heap
  | edit p f => exact fun s => Heap.unaware_perform (.edit p f) s.1.heap

theorem Allocator.unaware_perform (r : Request α) : (Allocator.perform r).Unaware := by
  have guarded (r : Request (Option Ptr)) (a : Arena) (active : Option Frame) :
      Unaware (perform.guard r a active).value := by
    have passed := unaware_checkpoint active
    unfold perform.guard
    split
    · exact unaware_ok _
    · exact Arena.unaware_perform r a
    next p _ _ run =>
      rw [run] at passed
      exact unaware_error (passed p rfl)
  rintro ⟨a, active⟩
  cases a with
  | arena a => exact Arena.unaware_perform r a
  | flaky a =>
    cases r with
    | grab n => exact guarded (.grab n) a active
    | resize p n => exact guarded (.resize p n) a active
    | release p => exact Arena.unaware_perform (.release p) a
    | payload p => exact Arena.unaware_perform (.payload p) a
    | edit p f => exact Arena.unaware_perform (.edit p f) a
  | heap h => exact Heap.unaware_perform r h
  | faulty f => exact FaultyHeap.unaware_perform r (f, active)

end MemoryTrial
