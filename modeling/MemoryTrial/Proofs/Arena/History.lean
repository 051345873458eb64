import Mathlib.Data.List.Nodup
import MemoryTrial.Allocator
import MemoryTrial.Proofs.Arena.Blocks

/-! Histories of arenas.  The clients of an arena hold leases, one for each block that they were
given and did not give back.  `Reachable` says which arenas there are after any sequence of requests,
with the leases that are held then, and `Reachable.accounts` that the leases are exactly the blocks
that the arena hands out. -/

namespace MemoryTrial

/-- The block that a request uses or gives back. -/
def Request.pointer {α : Type} : Request α → Option Ptr
  | .grab _ => none
  | .release p | .resize p _ | .payload p | .edit p _ => some p

/-- What it is to make a request for a block that is not handed out. -/
def Request.misuse {α : Type} : Request α → Ptr → Violation
  | .payload _ | .edit _ _ => .useAfterRelease
  | .grab _ | .release _ | .resize _ _ => .doubleRelease

/-- The block that a request may change: what it writes, moves or gives back. -/
def Request.target {α : Type} : Request α → Option Ptr
  | .grab _ | .payload _ => none
  | .release p | .resize p _ | .edit p _ => some p

namespace Arena

variable {a a' : Arena} {nodes : List Node} {node : Node} {p : Ptr} {n : Nat} {α : Type}

/-- A block that a client holds, with the number of bytes that it last asked for. -/
structure Lease where
  ptr : Ptr
  bytes : Nat
  deriving DecidableEq

def Lease.drop (p : Ptr) (held : List Lease) : List Lease := held.filter (·.ptr ≠ p)

/-- The leases that are held after a request with its answer.  A request that is refused or that
panics leaves them as they are. -/
def Lease.after : {α : Type} → Request α → Except Panic α → List Lease → List Lease
  | _, .grab n, .ok (some p), held => ⟨p, n⟩ :: held
  | _, .release p, .ok (), held => drop p held
  | _, .resize p n, .ok (some q), held => ⟨q, n⟩ :: drop p held
  | _, _, _, held => held

/-- The arenas that there are after any sequence of requests to an arena that was built, whoever made
them and whatever pointers they used, with the leases that are held then. -/
inductive Reachable : Arena → List Lease → Prop
  | ofBuffer {a : Arena} {buffer : Buffer} {poison : Bool} {records : List Record} :
    (ofBuffer buffer poison : Op Unit _) () = ⟨.ok (.ok a), (), records⟩ → Reachable a []
  | ofConfig {a : Arena} {config : Config} {records : List Record} :
    (ofConfig config : Op Unit _) () = ⟨.ok (.ok a), (), records⟩ → Reachable a []
  | withKind {a : Arena} {held : List Lease} (kind : KindId) :
    Reachable a held → Reachable (a.withKind kind) held
  | step {a : Arena} {held : List Lease} {α : Type} (r : Request α) :
    Reachable a held → Reachable (perform r a).state (Lease.after r (perform r a).value held)

/-- What a node says about its block: where it is, and its size. -/
def nodeEntry (node : Node) : Nat × Option Nat := (node.address, some node.size)

/-- What a lease says about its block. -/
def Lease.entry (lease : Lease) : Nat × Option Nat := (lease.ptr.addr, blockSize lease.bytes)

/-- An arena in order whose blocks are those that the leases are for. -/
structure Accounts (a : Arena) (held : List Lease) (nodes : List Node) : Prop where
  sound : a.Sound nodes
  ledger : ((taken nodes).map nodeEntry).Perm (held.map Lease.entry)

/-- A request on a pointer that names no block changes nothing. -/
theorem perform_of_misuse {panic : Panic} (sound : a.Sound nodes) (r : Request α)
    (hp : r.pointer = some p) (named : a.takenNode p r.misuse = .error panic) :
    perform r a = ⟨.error panic, a, panic.records⟩ := by
  cases r with
  | grab n => cases hp
  | release q =>
    cases hp
    exact release_of_error sound named
  | resize q n =>
    cases hp
    exact resize_of_error sound named
  | payload q =>
    cases hp
    rw [perform, payload, Op.bind_of_error (usedNode_of_error sound named)]
  | edit q f =>
    cases hp
    rw [perform, editPayload, Op.bind_of_error (usedNode_of_error sound named)]

theorem Lease.after_error (r : Request α) (panic : Panic) (held : List Lease) :
    Lease.after r (.error panic) held = held := by
  cases r <;> rfl

/-- What a request does to the blocks.  Only the block that it is meant to change gives way. -/
theorem perform_trades (sound : a.Sound nodes) (r : Request α) :
    ∃ old new rest, Trades nodes old new rest a (perform r a).state ∧
      ∀ node ∈ old, r.target = some ⟨node.address, Nat.succ_pos _⟩ := by
  cases named : r.pointer with
  | none =>
    cases r with
    | grab n =>
      rcases grab_trades sound n with ⟨-, trades⟩ | ⟨need, new, -, -, -, -, trades⟩
      · exact ⟨[], [], _, trades, nofun⟩
      · exact ⟨[], [new], _, trades, nofun⟩
    | release _ | resize _ _ | payload _ | edit _ _ => cases named
  | some p =>
    cases found : a.takenNode p r.misuse with
    | error panic =>
      rw [perform_of_misuse sound r named found]
      exact ⟨[], [], _, .refl sound, nofun⟩
    | ok node =>
      obtain ⟨mem, allocated, here⟩ := takenNode_spec sound found
      have perm := List.perm_cons_erase (mem_taken.mpr ⟨mem, allocated⟩)
      have only : ∀ m ∈ [node], some p = some ⟨m.address, Nat.succ_pos _⟩ := by
        intro m hm
        rw [List.mem_singleton.mp hm, here]
      cases r with
      | grab _ => cases named
      | release q =>
        cases named
        rw [show perform (.release p) a = _ from release_eq sound found]
        exact ⟨[node], [], _, freeNode_trades sound mem allocated perm, only⟩
      | resize q n =>
        cases named
        rcases resize_trades sound found perm n with ⟨-, trades⟩ | ⟨-, new, -, -, -, -, trades, -⟩
        · exact ⟨[], [], _, trades, nofun⟩
        · exact ⟨[node], [new], _, trades, only⟩
      | payload q =>
        cases named
        rw [show perform (.payload p) a = _ from payload_eq sound found]
        exact ⟨[], [], _, .refl sound, nofun⟩
      | edit q f =>
        cases named
        exact ⟨[node], [node], _, (editPayload_trades sound found perm f).2.2.1, only⟩

namespace Accounts

variable {held : List Lease} {lease : Lease}

theorem nodup (h : Accounts a held nodes) : (held.map Lease.ptr).Nodup := by
  have offsets : ((taken nodes).map Node.offset).Nodup :=
    (h.sound.tiles.pairwise_lt.imp Nat.ne_of_lt).sublist (List.filter_sublist.map _)
  have addresses : ((taken nodes).map (·.address)).Nodup := by
    have shifted := offsets.map (f := (· + headerSize)) fun _ _ same => Nat.add_right_cancel same
    rwa [List.map_map] at shifted
  have ledger := h.ledger.map Prod.fst
  rw [List.map_map, List.map_map] at ledger
  have leases : (held.map (·.ptr.addr)).Nodup := ledger.nodup_iff.mp addresses
  exact List.Nodup.of_map Ptr.addr (by rwa [List.map_map])

theorem exists_node (h : Accounts a held nodes) (mem : lease ∈ held) :
    ∃ node ∈ nodes, node.allocated = true ∧ node.address = lease.ptr.addr ∧
      blockSize lease.bytes = some node.size := by
  have entry := h.ledger.mem_iff.mpr (List.mem_map_of_mem (f := Lease.entry) mem)
  obtain ⟨node, hnode, same⟩ := List.mem_map.mp entry
  obtain ⟨mem, allocated⟩ := mem_taken.mp hnode
  have := Prod.ext_iff.mp same
  exact ⟨node, mem, allocated, this.1, this.2.symm⟩

theorem named (h : Accounts a held nodes) (mem : lease ∈ held) (misuse : Ptr → Violation) :
    ∃ node, a.takenNode lease.ptr misuse = .ok node ∧ node ∈ nodes ∧ node.allocated = true ∧
      node.address = lease.ptr.addr ∧ blockSize lease.bytes = some node.size := by
  obtain ⟨node, hnode, allocated, here, size⟩ := h.exists_node mem
  exact ⟨node, (takenNode_eq_ok_iff h.sound.nodes).mpr ⟨hnode, allocated, here⟩, hnode, allocated,
    here, size⟩

theorem exists_lease (h : Accounts a held nodes) (mem : node ∈ nodes)
    (allocated : node.allocated = true) :
    ∃ lease ∈ held, lease.ptr.addr = node.address ∧ blockSize lease.bytes = some node.size := by
  have entry := h.ledger.mem_iff.mp
    (List.mem_map_of_mem (f := nodeEntry) (mem_taken.mpr ⟨mem, allocated⟩))
  obtain ⟨lease, mem, same⟩ := List.mem_map.mp entry
  have := Prod.ext_iff.mp same
  exact ⟨lease, mem, this.1, this.2⟩

theorem perm_drop (h : Accounts a held nodes) (mem : lease ∈ held) :
    held.Perm (lease :: Lease.drop lease.ptr held) := by
  have distinct := h.nodup
  obtain ⟨front, back, rfl⟩ := List.append_of_mem mem
  -- pointers are distinct, so dropping one drops a single lease
  have others : ∀ other ∈ front ++ back, decide (other.ptr ≠ lease.ptr) = true := by
    intro other hother
    rw [List.map_append, List.map_cons, List.nodup_middle] at distinct
    rw [decide_eq_true_eq]
    intro same
    refine (List.nodup_cons.mp distinct).1 ?_
    rw [← List.map_append, ← same]
    exact List.mem_map_of_mem hother
  have kept : Lease.drop lease.ptr (front ++ lease :: back) = front ++ back := by
    rw [Lease.drop, List.filter_append, List.filter_cons_of_neg (by simp), ← List.filter_append]
    exact List.filter_eq_self.mpr others
  rw [kept]
  exact List.perm_middle

/-- The blocks beside one of them are those of the other leases. -/
theorem ledger_drop {rest : List Node} (h : Accounts a held nodes) (mem : node ∈ nodes)
    (allocated : node.allocated = true) (here : node.address = p.addr)
    (perm : (taken nodes).Perm (node :: rest)) :
    (rest.map nodeEntry).Perm ((Lease.drop p held).map Lease.entry) := by
  obtain ⟨lease, mem, addr, size⟩ := h.exists_lease mem allocated
  obtain rfl : lease.ptr = p := Ptr.ext (addr.trans here)
  have entry : lease.entry = nodeEntry node := Prod.ext addr size
  have all := ((perm.map nodeEntry).symm.trans h.ledger).trans ((h.perm_drop mem).map Lease.entry)
  rw [List.map_cons, List.map_cons, entry] at all
  exact all.cons_inv

/-- When blocks give way to others and the leases follow, the accounts stay in order. -/
theorem of_trades {old new rest : List Node} {kept : List Lease} (added : List Lease)
    (trades : Trades nodes old new rest a a')
    (ledger : (rest.map nodeEntry).Perm (kept.map Lease.entry))
    (fresh : new.map nodeEntry = added.map Lease.entry) :
    ∃ nodes', Accounts a' (added ++ kept) nodes' := by
  obtain ⟨nodes', sound, perm⟩ := trades.after
  refine ⟨nodes', sound, (perm.map nodeEntry).trans ?_⟩
  rw [List.map_append, List.map_append, fresh]
  exact ledger.append_left _

theorem step (h : Accounts a held nodes) (r : Request α) :
    ∃ nodes', Accounts (perform r a).state (Lease.after r (perform r a).value held) nodes' := by
  have kept : ∀ {a'}, Trades nodes [] [] (taken nodes) a a' → ∃ nodes', Accounts a' held nodes' :=
    fun trades => of_trades [] trades h.ledger rfl
  -- a pointer that names no block changes nothing, and one that does leaves the other blocks
  have others {p : Ptr} (hp : r.pointer = some p) :
      (∃ panic, perform r a = ⟨.error panic, a, panic.records⟩) ∨
      ∃ node rest, a.takenNode p r.misuse = .ok node ∧ node ∈ nodes ∧ node.allocated = true ∧
        (⟨node.address, Nat.succ_pos _⟩ : Ptr) = p ∧ (taken nodes).Perm (node :: rest) ∧
        (rest.map nodeEntry).Perm ((Lease.drop p held).map Lease.entry) := by
    cases named : a.takenNode p r.misuse with
    | error panic => exact .inl ⟨panic, perform_of_misuse h.sound r hp named⟩
    | ok node =>
      obtain ⟨mem, allocated, here⟩ := takenNode_spec h.sound named
      have perm := List.perm_cons_erase (mem_taken.mpr ⟨mem, allocated⟩)
      exact .inr ⟨node, _, rfl, mem, allocated, here, perm,
        h.ledger_drop mem allocated (congrArg Ptr.addr here) perm⟩
  cases r with
  | grab n =>
    rcases grab_trades h.sound n with ⟨value, trades⟩ | ⟨need, new, hneed, size, -, value, trades⟩
    · rw [show (perform (.grab n) a).value = .ok none from value]
      exact kept trades
    · rw [show (perform (.grab n) a).value = .ok (some _) from value]
      exact of_trades [_] trades h.ledger (by
        simp [nodeEntry, Lease.entry, hneed, size])
  | release p =>
    rcases others rfl with ⟨panic, step⟩ | ⟨node, rest, named, mem, allocated, -, perm, ledger⟩
    · rw [step, Lease.after_error]
      exact ⟨nodes, h⟩
    · rw [show perform (.release p) a = _ from release_eq h.sound named]
      exact of_trades [] (freeNode_trades h.sound mem allocated perm) ledger rfl
  | resize p n =>
    rcases others rfl with ⟨panic, step⟩ | ⟨node, rest, named, mem, allocated, -, perm, ledger⟩
    · rw [step, Lease.after_error]
      exact ⟨nodes, h⟩
    · rcases resize_trades h.sound named perm n with
        ⟨value, trades⟩ | ⟨need, new, hneed, size, -, value, trades, -⟩
      · rw [show (perform (.resize p n) a).value = .ok none from value]
        exact kept trades
      · rw [show (perform (.resize p n) a).value = .ok (some _) from value]
        exact of_trades [_] trades ledger (by
          simp [nodeEntry, Lease.entry, hneed, size])
  | payload p =>
    rcases others rfl with ⟨panic, step⟩ | ⟨node, rest, named, mem, allocated, -, perm, ledger⟩
    · rw [step, Lease.after_error]
      exact ⟨nodes, h⟩
    · rw [show perform (.payload p) a = _ from payload_eq h.sound named]
      exact ⟨nodes, h⟩
  | edit p f =>
    rcases others rfl with ⟨panic, step⟩ | ⟨node, rest, named, mem, allocated, -, perm, ledger⟩
    · rw [step, Lease.after_error]
      exact ⟨nodes, h⟩
    · obtain ⟨value, sound, -⟩ := editPayload_trades h.sound named perm f
      rw [show (perform (.edit p f) a).value = .ok () from value]
      exact ⟨nodes, sound, h.ledger⟩

end Accounts

theorem validateCapacity_eq_ok_iff {bytes : Nat} :
    validateCapacity bytes = .ok () ↔ minBlock ≤ bytes ∧ bytes % 16 = 0 := by
  unfold validateCapacity
  split
  next small => exact iff_of_false nofun fun h => Nat.not_le.mpr small h.1
  split
  next odd => exact iff_of_false nofun fun h => odd h.2
  next large even => exact iff_of_true rfl ⟨Nat.le_of_not_lt large, by simpa using even⟩

/-- An arena is in order once it is built, whatever bytes its buffer had. -/
theorem ofBuffer_sound {buffer : Buffer} {poison : Bool} {records : List Record}
    (built : (ofBuffer buffer poison : Op Unit _) () = ⟨.ok (.ok a), (), records⟩) :
    a.Sound [⟨0, a.len, false⟩] := by
  rw [ofBuffer] at built
  cases valid : validateCapacity buffer.len with
  | error e =>
    rw [valid] at built
    cases built
  | ok =>
    rw [valid] at built
    obtain ⟨h16, hmod⟩ := validateCapacity_eq_ok_iff.mp valid
    simp only [minBlock] at h16
    obtain ⟨fresh, hfresh⟩ : ∃ fresh, fresh = if poison then buffer.fill freshPoison else buffer :=
      ⟨_, rfl⟩
    have hlen : fresh.len = buffer.len := by
      rw [hfresh]
      split <;> simp
    rw [← hfresh] at built
    cases built
    rw [len_eq, Buffer.len_setHeader, hlen]
    refine ⟨rfl, ⟨_, List.mem_singleton_self _, rfl⟩, ?_⟩
    rw [nodes_eq, Buffer.nodes_eq_ok_iff, Buffer.len_setHeader]
    refine ⟨⟨rfl, by simp only; omega, by simp only; omega, by simp [Tiles, Node.stop, hlen]⟩, ?_⟩
    intro node mem
    rw [List.mem_singleton] at mem
    subst mem
    exact fresh.holds_setHeader ⟨0, buffer.len, false⟩ rfl (by simp only; omega)
      (by simp only; omega) (by simp [Node.stop, hlen])

/-- An arena begins with a buffer that has room for a block, and looks from its start. -/
theorem ofBuffer_len {buffer : Buffer} {poison : Bool} {records : List Record}
    (built : (ofBuffer buffer poison : Op Unit _) () = ⟨.ok (.ok a), (), records⟩) :
    a.len = buffer.len ∧ minBlock ≤ a.len ∧ a.cursor = 0 := by
  rw [ofBuffer] at built
  cases valid : validateCapacity buffer.len with
  | error e =>
    rw [valid] at built
    cases built
  | ok =>
    rw [valid] at built
    have room := (validateCapacity_eq_ok_iff.mp valid).1
    cases built
    rw [len_eq, Buffer.len_setHeader]
    split
    next poisoned =>
      rw [Buffer.len_fill]
      exact ⟨rfl, room, rfl⟩
    next clean => exact ⟨rfl, room, rfl⟩

/-- An arena that a configuration gives is one over some buffer. -/
theorem exists_of_ofConfig {config : Config} {records : List Record}
    (built : (ofConfig config : Op Unit _) () = ⟨.ok (.ok a), (), records⟩) :
    ∃ buffer, (ofBuffer buffer config.poison : Op Unit _) () = ⟨.ok (.ok a), (), records⟩ := by
  rw [Arena.ofConfig] at built
  cases valid : config.validate with
  | error e =>
    rw [valid] at built
    cases built
  | ok =>
    rw [valid] at built
    cases filled : Buffer.filled? config.capacity 0 with
    | none =>
      rw [filled] at built
      cases built
    | some buffer =>
      rw [filled] at built
      exact ⟨buffer, built⟩

/-- The leases that are held are for exactly the blocks that the arena hands out. -/
theorem Reachable.accounts {held : List Lease} (h : Reachable a held) :
    ∃ nodes, Accounts a held nodes := by
  induction h with
  | ofBuffer built => exact ⟨_, ofBuffer_sound built, .refl _⟩
  | ofConfig built =>
    obtain ⟨buffer, built⟩ := exists_of_ofConfig built
    exact ⟨_, ofBuffer_sound built, .refl _⟩
  | withKind kind _ ih =>
    obtain ⟨nodes, sound, ledger⟩ := ih
    exact ⟨nodes, ⟨sound.live, sound.cursor, sound.nodes⟩, ledger⟩
  | step r _ ih =>
    obtain ⟨nodes, accounts⟩ := ih
    exact accounts.step r

/-- An arena has room for a block. -/
theorem Reachable.minBlock_le_len {held : List Lease} (h : Reachable a held) : minBlock ≤ a.len := by
  induction h with
  | ofBuffer built => exact (ofBuffer_len built).2.1
  | ofConfig built =>
    obtain ⟨buffer, built⟩ := exists_of_ofConfig built
    exact (ofBuffer_len built).2.1
  | withKind kind _ ih => exact ih
  | step r h ih =>
    obtain ⟨nodes, sound, -⟩ := h.accounts
    obtain ⟨old, new, rest, trades, -⟩ := perform_trades sound r
    rw [trades.keeps.len]
    exact ih

def smallArena : Arena :=
  { kind := defaultKind,
    buffer := (⟨Bytes.replicate 64 0, by simp, by simp [memoryLimit]⟩ : Buffer).setHeader 0 (.free 64),
    cursor := 0, poison := false, live := true }

/-- What requests make of an arena, and of the leases. -/
def serve : List (Sigma Request) → Arena → List Lease → Arena × List Lease
  | [], a, held => (a, held)
  | ⟨_, r⟩ :: rest, a, held => serve rest (perform r a).state (Lease.after r (perform r a).value held)

theorem Reachable.serve {held : List Lease} (reachable : Reachable a held)
    (requests : List (Sigma Request)) :
    Reachable (serve requests a held).1 (serve requests a held).2 := by
  induction requests generalizing a held with
  | nil => exact reachable
  | cons request rest ih => exact ih (.step request.2 reachable)

def zeroBuffer : Buffer := ⟨Bytes.replicate 96 0, by simp, by simp [memoryLimit]⟩

def freshArena : Arena :=
  { kind := defaultKind, buffer := zeroBuffer.setHeader 0 (.free zeroBuffer.len), cursor := 0,
    poison := false, live := true }

theorem payload_pos (offset : Nat) : 0 < offset + headerSize := Nat.succ_pos _

/-- The pointer to the block of the node at an offset. -/
def payloadAt (offset : Nat) : Ptr := ⟨offset + headerSize, payload_pos offset⟩

/-- The second block is given back before the request for the last one, which is too large for the
node that this leaves. -/
def variedRequests : List (Sigma Request) :=
  [⟨_, .grab 8⟩, ⟨_, .grab 16⟩, ⟨_, .grab 8⟩, ⟨_, .release (payloadAt 16)⟩, ⟨_, .grab 24⟩]

/-- An arena with three blocks, and with a free node on either side of the cursor. -/
def variedArena : Arena := (serve variedRequests freshArena []).1

def variedLeases : List Lease := [⟨payloadAt 56, 24⟩, ⟨payloadAt 40, 8⟩, ⟨payloadAt 0, 8⟩]

theorem variedArena_reachable : Reachable variedArena variedLeases := by
  have valid : validateCapacity zeroBuffer.len = .ok () := by decide +kernel
  have built : (ofBuffer zeroBuffer false : Op Unit _) ()
      = ⟨.ok (.ok freshArena), (), [.arenaCreated zeroBuffer.len]⟩ := by
    rw [ofBuffer, valid]
    rfl
  have held : (serve variedRequests freshArena []).2 = variedLeases := by decide +kernel
  rw [← held]
  exact (Reachable.ofBuffer built).serve variedRequests

example : variedArena.cursor = 56 ∧ (variedArena.nodes.toOption.map fun nodes =>
    nodes.map fun node => (node.offset, node.size, node.allocated)) =
      some [(0, 16, true), (16, 24, false), (40, 16, true), (56, 32, true), (88, 8, false)] := by
  decide +kernel

end Arena

end MemoryTrial
