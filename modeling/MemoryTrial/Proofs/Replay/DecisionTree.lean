import Mathlib.Data.List.TakeWhile
import MemoryTrial.Replay.Frame

/-! The failure patterns that a replay goes through.  A deterministic test is a decision tree: at an
inner node it passes a checkpoint.  A replay never sees the tree.  `sweep` says that nevertheless its
frames lead along all paths of the tree, one after the other, up to the first path that is too long.
The induction is on the subtree that a frame leads into: while the frame moves through a subtree, the
pattern up to the root of the subtree stays. -/

namespace MemoryTrial

/-- A deterministic test, as a replay sees it. -/
inductive DecisionTree
  | leaf (result : Bool)
  /-- The test passes a checkpoint, and goes on in one way if that fails and in another if not. -/
  | node (fails passes : DecisionTree)

namespace DecisionTree

/-- The answer at the end of a path from the root to a leaf.  In a path `true` is a checkpoint that
fails. -/
def answer : DecisionTree → List Bool → Option Bool
  | leaf result, [] => some result
  | leaf _, _ :: _ => none
  | node _ _, [] => none
  | node fails passes, failed :: path => if failed then fails.answer path else passes.answer path

/-- The paths from the root to the leaves, those where a checkpoint fails before those where it
passes. -/
def paths : DecisionTree → List (List Bool)
  | leaf _ => [[]]
  | node fails passes => fails.paths.map (true :: ·) ++ passes.paths.map (false :: ·)

def leaves : DecisionTree → Nat
  | leaf _ => 1
  | node fails passes => fails.leaves + passes.leaves

/-- A path comes before another in lexicographic order, where failing comes before passing. -/
def Before (path path' : List Bool) : Prop :=
  List.Lex (fun failed failed' => failed = true ∧ failed' = false) path path'

theorem mem_paths {tree : DecisionTree} {path : List Bool} :
    path ∈ tree.paths ↔ (tree.answer path).isSome := by
  induction tree generalizing path with
  | leaf result => cases path <;> simp [paths, answer]
  | node fails passes ihf ihp =>
    cases path with
    | nil => simp [paths, answer]
    | cons failed path => cases failed <;> simp [paths, answer, ihf, ihp]

theorem paths_ne_nil (tree : DecisionTree) : tree.paths ≠ [] := by
  cases tree with
  | leaf result => simp [paths]
  | node fails passes =>
    have := paths_ne_nil fails
    simp [paths, this]

theorem length_paths (tree : DecisionTree) : tree.paths.length = tree.leaves := by
  induction tree with
  | leaf result => rfl
  | node fails passes ihf ihp => simp [paths, leaves, ihf, ihp]

/-- The paths come in lexicographic order, each one once. -/
theorem pairwise_paths (tree : DecisionTree) : tree.paths.Pairwise Before := by
  induction tree with
  | leaf result => exact List.pairwise_singleton ..
  | node fails passes ihf ihp =>
    refine List.pairwise_append.mpr ⟨?_, ?_, ?_⟩
    · exact List.pairwise_map.mpr (ihf.imp List.Lex.cons)
    · exact List.pairwise_map.mpr (ihp.imp List.Lex.cons)
    · intro path mem path' mem'
      obtain ⟨rest, -, rfl⟩ := List.mem_map.mp mem
      obtain ⟨rest', -, rfl⟩ := List.mem_map.mp mem'
      exact .rel ⟨rfl, rfl⟩

end DecisionTree

namespace Frame

variable {f g : Frame} {path : List Bool}

/-- The pattern of a frame begins with the letters of a path. -/
def Begins (f : Frame) (path : List Bool) : Prop :=
  ∀ i failed, path[i]? = some failed → f.willFail i = failed

/-- From a checkpoint on, all fail. -/
def ArmedFrom (f : Frame) (start : Nat) : Prop :=
  ∀ i, start ≤ i → i < maxCheckpoints → f.willFail i = true

/-- The frame after a run along a path. -/
def ran (f : Frame) (path : List Bool) : Frame :=
  { f with triggered := path.contains true, count := path.length }

theorem begins_nil (f : Frame) : f.Begins [] := nofun

theorem begins_snoc {failed : Bool} :
    f.Begins (path ++ [failed]) ↔ f.Begins path ∧ f.willFail path.length = failed := by
  constructor
  · intro h
    refine ⟨fun i b hi => h i b ?_, h path.length failed (by simp)⟩
    obtain ⟨inside, -⟩ := List.getElem?_eq_some_iff.mp hi
    rwa [List.getElem?_append_left inside]
  · rintro ⟨h, last⟩ i b hi
    rcases Nat.lt_trichotomy i path.length with before | rfl | behind
    · exact h i b (by rwa [List.getElem?_append_left before] at hi)
    · rw [List.getElem?_append_right (Nat.le_refl _), Nat.sub_self] at hi
      cases hi
      exact last
    · rw [List.getElem?_eq_none (by simp; omega)] at hi
      cases hi

theorem begins_append_left {rest : List Bool} (h : f.Begins (path ++ rest)) : f.Begins path := by
  intro i b hi
  obtain ⟨inside, -⟩ := List.getElem?_eq_some_iff.mp hi
  exact h i b (by rwa [List.getElem?_append_left inside])

theorem armedFrom_fresh (start : Nat) : fresh.ArmedFrom start := by
  intro i _ hi
  rw [willFail, decide_eq_true hi, Bool.true_and]
  exact Pattern.bit_full hi

theorem lastFailing_of_begins {n : Nat}
    (h : f.Begins (path ++ true :: List.replicate n false)) :
    f.lastFailing (path.length + 1 + n) = some path.length := by
  induction n with
  | zero =>
    have last := (begins_snoc.mp h).2
    rw [Nat.add_zero, lastFailing, if_pos last]
  | succ n ih =>
    rw [List.replicate_succ', ← List.cons_append, ← List.append_assoc] at h
    obtain ⟨front, last⟩ := begins_snoc.mp h
    have length : (path ++ true :: List.replicate n false).length = path.length + 1 + n := by
      simp
      omega
    rw [length] at last
    rw [← Nat.add_assoc, lastFailing, last]
    exact ih front

theorem triggered_of_advance? (h : f.advance? = some g) : f.triggered = true := by
  unfold advance? at h
  split at h
  next fired => exact fired
  next => cases h

/-- After a run the last checkpoint that failed passes, and all later ones fail again. -/
theorem advance?_ran {n : Nat} (h : f.Begins (path ++ true :: List.replicate n false))
    (inside : path.length < maxCheckpoints) :
    ∃ g, (f.ran (path ++ true :: List.replicate n false)).advance? = some g ∧
      g.Begins (path ++ [false]) ∧ g.ArmedFrom (path.length + 1) := by
  have last : (f.ran (path ++ true :: List.replicate n false)).lastFailing
      (path ++ true :: List.replicate n false).length = some path.length := by
    have length : (path ++ true :: List.replicate n false).length = path.length + 1 + n := by
      simp
      omega
    rw [length]
    exact lastFailing_of_begins (f := f.ran (path ++ true :: List.replicate n false)) h
  refine ⟨(f.ran (path ++ true :: List.replicate n false)).rearm path.length, ?_,
    begins_snoc.mpr ⟨?_, ?_⟩, ?_⟩
  · have fired : (f.ran (path ++ true :: List.replicate n false)).triggered = true := by
      simp [ran]
    rw [advance?, if_pos fired]
    exact congrArg (Option.map _) last
  · intro i b hi
    obtain ⟨before, -⟩ := List.getElem?_eq_some_iff.mp hi
    rw [willFail_rearm _ _ _ (by omega), if_pos before]
    exact begins_append_left h i b hi
  · rw [willFail_rearm _ _ _ inside]
    simp
  · intro i lo hi
    rw [willFail_rearm _ _ _ hi, if_neg (by omega), decide_eq_true_eq]
    omega

end Frame

namespace DecisionTree

variable {root tree : DecisionTree} {path : List Bool} {rest : List (List Bool)} {f : Frame}

/-- A path that one run can take. -/
def Short (path : List Bool) : Bool := path.length ≤ maxCheckpoints

/-- A replay of the test `root` from the pattern of a frame on runs along the paths of a list, one
after the other.  Either the last of them has no failing checkpoint, and the replay ends, or then a
run comes to a checkpoint too many, after the letters `stuck`. -/
inductive Runs (root : DecisionTree) : Frame → List (List Bool) → (stuck : Option (List Bool)) → Prop
  | last {f : Frame} {path : List Bool} {result : Bool} :
    root.answer path = some result → f.Begins path → Short path → true ∉ path →
    Runs root f [path] none
  | next {f g : Frame} {path : List Bool} {paths : List (List Bool)} {result : Bool}
    {stuck : Option (List Bool)} :
    root.answer path = some result → f.Begins path → Short path →
    (f.ran path).advance? = some g → Runs root g paths stuck → Runs root f (path :: paths) stuck
  | stuck {f : Frame} {path letters : List Bool} :
    (root.answer (path ++ letters)).isSome → letters ≠ [] → f.Begins path →
    path.length = maxCheckpoints → Runs root f [] (some path)

/-- A replay from a frame on goes through the paths of a list, up to the first one that is too
long. -/
def Covers (root : DecisionTree) (f : Frame) (paths : List (List Bool)) : Prop :=
  Runs root f (paths.takeWhile Short) ((paths.dropWhile Short).head?.map (·.take maxCheckpoints))

/-- After a run along a path a replay goes through the paths `rest`: the run had no failing checkpoint
and there are none, or the next frame covers them. -/
def Resumes (root : DecisionTree) (path : List Bool) (rest : List (List Bool)) : Prop :=
  true ∉ path ∧ rest = [] ∨
    ∃ front n, path = front ++ true :: List.replicate n false ∧
      ∀ g : Frame, g.Begins (front ++ [false]) → g.ArmedFrom (front.length + 1) →
        Covers root g rest

/-- It does not matter that a run goes on along checkpoints that pass. -/
theorem Resumes.snoc (h : Resumes root path rest) : Resumes root (path ++ [false]) rest := by
  rcases h with ⟨none, rfl⟩ | ⟨front, n, rfl, next⟩
  · exact .inl ⟨by simpa using none, rfl⟩
  · refine .inr ⟨front, n + 1, ?_, next⟩
    rw [List.replicate_succ', List.append_assoc, List.cons_append]

theorem Resumes.covers {result : Bool} (h : Resumes root path rest)
    (found : root.answer path = some result) (begins : f.Begins path)
    (short : path.length ≤ maxCheckpoints) : Covers root f (path :: rest) := by
  have fits : Short path = true := decide_eq_true short
  rw [Covers, List.takeWhile_cons_of_pos fits, List.dropWhile_cons_of_pos fits]
  rcases h with ⟨none, rfl⟩ | ⟨front, n, rfl, next⟩
  · exact .last found begins fits none
  · have inside : front.length < maxCheckpoints := by
      simp only [List.length_append, List.length_cons] at short
      omega
    obtain ⟨g, advance, begins', armed⟩ := Frame.advance?_ran begins inside
    exact .next found begins fits advance (next g begins' armed)

/-- After as many checkpoints as a run may pass, another one ends the replay. -/
theorem covers_of_full {fails passes : DecisionTree}
    (subtree : ∀ letters, root.answer (path ++ letters) = (node fails passes).answer letters)
    (begins : f.Begins path) (full : path.length = maxCheckpoints) :
    Covers root f ((node fails passes).paths.map (path ++ ·) ++ rest) := by
  cases hpaths : (node fails passes).paths with
  | nil => exact absurd hpaths (paths_ne_nil _)
  | cons letters others =>
    have found : ((node fails passes).answer letters).isSome :=
      mem_paths.mp (by rw [hpaths]; exact List.mem_cons_self)
    have more : letters ≠ [] := by
      rintro rfl
      cases found
    have long : ¬Short (path ++ letters) = true := by
      have := List.length_pos_iff.mpr more
      simp only [Short, decide_eq_true_eq, List.length_append]
      omega
    rw [Covers, List.map_cons, List.cons_append, List.takeWhile_cons_of_neg long,
      List.dropWhile_cons_of_neg long, List.head?_cons, Option.map_some, ← full,
      List.take_left]
    exact .stuck (by rwa [subtree]) more begins full

/-- A frame that leads to the root of a subtree, and has all its checkpoints fail, covers the paths of
the subtree and what comes after them. -/
theorem sweep (tree : DecisionTree) :
    ∀ {path rest f}, (∀ letters, root.answer (path ++ letters) = tree.answer letters) →
      Frame.Begins f path → f.ArmedFrom path.length → path.length ≤ maxCheckpoints →
      Resumes root path rest → Covers root f (tree.paths.map (path ++ ·) ++ rest) := by
  induction tree with
  | leaf result =>
    intro path rest f subtree begins armed short resumes
    have found : root.answer path = some result := by simpa [answer] using subtree []
    simpa [paths] using resumes.covers found begins short
  | node fails passes ihf ihp =>
    intro path rest f subtree begins armed short resumes
    by_cases full : path.length = maxCheckpoints
    · exact covers_of_full subtree begins full
    · have fires := armed path.length (Nat.le_refl _) (by omega)
      -- the last path of the failing subtree turns this checkpoint over, and none behind it
      have behind : Resumes root (path ++ [true])
          (passes.paths.map (path ++ [false] ++ ·) ++ rest) := by
        refine .inr ⟨path, 0, rfl, fun g begins' armed' => ?_⟩
        refine ihp (fun letters => ?_) begins' (by simpa using armed') (by simp; omega) resumes.snoc
        simpa [answer] using subtree (false :: letters)
      have ahead := ihf (fun letters => by simpa [answer] using subtree (true :: letters))
        (Frame.begins_snoc.mpr ⟨begins, fires⟩) (fun i lo hi => armed i (by simp at lo; omega) hi)
        (by simp; omega) behind
      simpa [paths, List.map_append, List.map_map, Function.comp_def] using ahead

/-- A replay goes through the paths of the tree. -/
theorem covers_paths (tree : DecisionTree) : Covers tree Frame.fresh tree.paths := by
  have all : Covers tree Frame.fresh (tree.paths.map ([] ++ ·) ++ []) :=
    sweep tree (fun _ => rfl) (Frame.begins_nil _) (Frame.armedFrom_fresh _) (Nat.zero_le _)
      (.inl ⟨List.not_mem_nil, rfl⟩)
  simpa using all

end DecisionTree

end MemoryTrial
