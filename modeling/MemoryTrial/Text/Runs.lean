import MemoryTrial.Text.Hex

/-! Sequences written by their runs: each maximal run of equal items once, with its length after a
star unless that is 1, and one space between runs. -/

namespace MemoryTrial.Text

variable {α : Type} [DecidableEq α]

/-- The runs of `xs` when `n` copies of `x` stand before it. -/
def runsFrom (x : α) (n : Nat) : List α → List (α × Nat)
  | [] => [(x, n)]
  | y :: ys => if y = x then runsFrom x (n + 1) ys else (x, n) :: runsFrom y 1 ys

/-- The maximal runs of equal items, each with its length. -/
def runs : List α → List (α × Nat)
  | [] => []
  | x :: xs => runsFrom x 1 xs

/-- The items that runs stand for. -/
def ofRuns (rs : List (α × Nat)) : List α := rs.flatMap fun r => List.replicate r.2 r.1

theorem ofRuns_runsFrom (x : α) (n : Nat) (xs : List α) :
    ofRuns (runsFrom x n xs) = List.replicate n x ++ xs := by
  induction xs generalizing x n with
  | nil => simp [runsFrom, ofRuns]
  | cons y ys ih =>
    by_cases h : y = x
    · subst h
      simp [runsFrom, ih, List.replicate_succ', List.append_assoc]
    · have := ih y 1
      simp only [ofRuns] at this
      simp [runsFrom, h, ofRuns, this]

/-- No item is lost or added. -/
@[simp] theorem ofRuns_runs (xs : List α) : ofRuns (runs xs) = xs := by
  cases xs with
  | nil => rfl
  | cons x xs => simp [runs, ofRuns_runsFrom, List.replicate_succ]

/-- A run of `n` items whose text is `item`. -/
def runText (item : String) (n : Nat) : String :=
  if n = 1 then item else item ++ "*" ++ toString n

/-- The runs of `xs`, with `item` for each item's text. -/
def runLength (item : α → String) (xs : List α) : String :=
  " ".intercalate ((runs xs).map fun r => runText (item r.1) r.2)

/-- Bytes by their runs, two digits each. -/
def bytesText (bytes : ByteArray) : String := runLength hexByte bytes.data.toList

end MemoryTrial.Text
