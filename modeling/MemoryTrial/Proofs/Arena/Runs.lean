import Mathlib.Data.List.Chain
import Mathlib.Data.List.TakeWhile
import MemoryTrial.Proofs.Arena.Tiling

/-! Free runs.  `fuse` merges all free neighbours; a search does this to the nodes that it comes by.
The nodes that are handed out stay, and no two free ones are left side by side.  `runs_induction`
follows the nodes as a search does: a node that is handed out is a step, and so is a free node with
all free nodes behind it. -/

namespace MemoryTrial.Arena

variable {node : Node} {nodes rest back : List Node}

/-- The nodes that are handed out. -/
def taken (nodes : List Node) : List Node := nodes.filter Node.allocated

@[simp] theorem taken_append (xs ys : List Node) : taken (xs ++ ys) = taken xs ++ taken ys :=
  List.filter_append ..

theorem taken_cons_of_allocated (h : node.allocated = true) :
    taken (node :: rest) = node :: taken rest := List.filter_cons_of_pos h

theorem taken_cons_of_free (h : node.allocated = false) : taken (node :: rest) = taken rest :=
  List.filter_cons_of_neg (by simp [h])

theorem mem_taken : node ∈ taken nodes ↔ node ∈ nodes ∧ node.allocated = true := List.mem_filter

theorem taken_of_free (h : ∀ node ∈ nodes, node.allocated = false) : taken nodes = [] :=
  List.filter_eq_nil_iff.mpr fun node mem => by simp [h node mem]

theorem taken_dropWhile (nodes : List Node) : taken (nodes.dropWhile Node.isFree) = taken nodes := by
  induction nodes with
  | nil => rfl
  | cons node rest ih =>
    cases h : node.allocated with
    | true => rw [List.dropWhile_cons_of_neg (by simp [h])]
    | false => rw [List.dropWhile_cons_of_pos (by simp [h]), ih, taken_cons_of_free h]

/-- Whether a search for `need` bytes can use a node. -/
def Node.fits (need : Nat) (node : Node) : Bool := node.isFree && decide (need ≤ node.size)

theorem Node.fits_iff {need : Nat} :
    node.fits need = true ↔ node.allocated = false ∧ need ≤ node.size := by
  simp [fits]

/-- No two free nodes are side by side. -/
def Fused (nodes : List Node) : Prop :=
  nodes.IsChain fun node next => node.allocated = true ∨ next.allocated = true

/-- A node in front of others; it is merged with the first of them when both are free. -/
def join (node : Node) : List Node → List Node
  | [] => [node]
  | next :: rest =>
    if node.isFree && next.isFree then ⟨node.offset, node.size + next.size, false⟩ :: rest
    else node :: next :: rest

/-- The nodes with all free neighbours merged. -/
def fuse (nodes : List Node) : List Node := nodes.foldr join []

@[simp] theorem join_of_allocated (h : node.allocated = true) (rest : List Node) :
    join node rest = node :: rest := by
  cases rest <;> simp [join, Node.isFree, h]

/-- What a free node takes in when it is put in front of nodes that are merged already: the first of
them, if that one is free. -/
theorem join_of_free (h : node.allocated = false) (fused : Fused rest) :
    join node rest = ⟨node.offset, node.size + span (rest.takeWhile Node.isFree), false⟩ ::
      rest.dropWhile Node.isFree := by
  have self : (⟨node.offset, node.size, false⟩ : Node) = node := by rw [← h]
  cases rest with
  | nil => simp [join, self]
  | cons next rest =>
    cases free : next.allocated with
    | true => simp [join, Node.isFree, free, self]
    | false =>
      have alone : ∀ m ∈ rest.head?, m.isFree = false := by
        intro m mem
        have := (List.isChain_cons.mp fused).1 m mem
        simpa [free] using this
      cases rest with
      | nil => simp [join, Node.isFree, h, free]
      | cons m rest =>
        have kept := alone m (by simp)
        rw [List.takeWhile_cons_of_pos (by simpa using free),
          List.dropWhile_cons_of_pos (by simpa using free),
          List.takeWhile_cons_of_neg (by simp [kept]),
          List.dropWhile_cons_of_neg (by simp [kept])]
        simp [join, Node.isFree, h, free]

theorem fused_join (fused : Fused rest) : Fused (join node rest) := by
  cases taken : node.allocated with
  | true =>
    rw [join_of_allocated taken]
    exact List.isChain_cons.mpr ⟨fun _ _ => .inl taken, fused⟩
  | false =>
    rw [join_of_free taken fused]
    refine List.isChain_cons.mpr ⟨fun next mem => .inr ?_, fused.suffix (List.dropWhile_suffix _)⟩
    have := List.head?_dropWhile_not Node.isFree rest
    simp only [Option.mem_def] at mem
    simpa [mem] using this

theorem fused_foldr (nodes : List Node) (fused : Fused back) : Fused (nodes.foldr join back) := by
  induction nodes with
  | nil => exact fused
  | cons node rest ih => exact fused_join ih

theorem fused_fuse (nodes : List Node) : Fused (fuse nodes) := fused_foldr nodes List.isChain_nil

theorem taken_join (node : Node) (rest : List Node) :
    taken (join node rest) = taken (node :: rest) := by
  cases rest with
  | nil => rfl
  | cons next rest =>
    simp only [join]
    split
    next both =>
      simp only [Bool.and_eq_true, Node.isFree_eq_true] at both
      rw [taken_cons_of_free rfl, taken_cons_of_free both.1, taken_cons_of_free both.2]
    next => rfl

theorem taken_foldr (nodes back : List Node) :
    taken (nodes.foldr join back) = taken (nodes ++ back) := by
  induction nodes with
  | nil => rfl
  | cons node rest ih =>
    rw [List.foldr_cons, taken_join, List.cons_append]
    simp only [taken, List.filter_cons] at ih ⊢
    rw [ih]

theorem tiles_join {stop : Nat} (h8 : 8 ≤ node.size) (hmod : node.size % 8 = 0)
    (tiles : Tiles node.stop rest stop) : Tiles node.offset (join node rest) stop := by
  cases rest with
  | nil => exact ⟨rfl, h8, hmod, tiles⟩
  | cons next rest =>
    simp only [join]
    split
    next both =>
      obtain ⟨hoff, -, hmod', right⟩ := tiles
      simp only [Node.stop] at hoff right
      refine ⟨rfl, by simp only; omega, by simp only; omega, ?_⟩
      simp only [Node.stop]
      rwa [← Nat.add_assoc, ← hoff]
    next => exact ⟨rfl, h8, hmod, tiles⟩

theorem tiles_foldr {start middle stop : Nat} (front : Tiles start nodes middle)
    (tiles : Tiles middle back stop) : Tiles start (nodes.foldr join back) stop := by
  induction nodes generalizing start with
  | nil => rwa [show start = middle from front]
  | cons node rest ih =>
    obtain ⟨rfl, h8, hmod, right⟩ := front
    exact tiles_join h8 hmod (ih right)

/-- A free node and the free nodes behind it become one, which takes in what is free beyond them. -/
theorem foldr_join_run {run : List Node} (free : node.allocated = false)
    (all : ∀ m ∈ run, m.allocated = false) (fused : Fused back) :
    (node :: run).foldr join back =
      ⟨node.offset, node.size + (span run + span (back.takeWhile Node.isFree)), false⟩ ::
        back.dropWhile Node.isFree := by
  induction run generalizing node with
  | nil => simpa using join_of_free free fused
  | cons m run ih =>
    have next := ih (all m (by simp)) fun m mem => all m (by simp [mem])
    rw [List.foldr_cons, next]
    simp only [join, Node.isFree, free, Bool.not_false, Bool.and_self, if_true, span_cons]
    simp only [Nat.add_assoc]

/-- Induction on the free runs of a list of nodes. -/
theorem runs_induction {motive : List Node → Prop} (nil : motive [])
    (taken : ∀ node rest, node.allocated = true → motive rest → motive (node :: rest))
    (free : ∀ node run rest, node.allocated = false → (∀ m ∈ run, m.allocated = false) →
      (∀ m ∈ rest.head?, m.allocated = true) → motive rest → motive (node :: (run ++ rest)))
    (nodes : List Node) : motive nodes := by
  induction hn : nodes.length using Nat.strong_induction_on generalizing nodes with
  | _ n ih =>
    cases nodes with
    | nil => exact nil
    | cons node rest =>
      cases hnode : node.allocated with
      | true => exact taken node rest hnode (ih rest.length (by simp at hn; omega) rest rfl)
      | false =>
        have shorter := (List.dropWhile_suffix Node.isFree (l := rest)).length_le
        have := free node (rest.takeWhile Node.isFree) (rest.dropWhile Node.isFree) hnode
          (fun m mem => by simpa using List.mem_takeWhile_imp mem)
          (fun m mem => by
            have := List.head?_dropWhile_not Node.isFree rest
            simp only [Option.mem_def] at mem
            simpa [mem] using this)
          (ih _ (by simp at hn; omega) _ rfl)
        rwa [List.takeWhile_append_dropWhile] at this

end MemoryTrial.Arena
