/-! The trace of a scripted program: a list of texts.  Each checkpoint leaves a letter, `F` if it
fails and `P` if it passes, and letters that follow each other share a text. -/

namespace MemoryTrial.Script

inductive TraceText
  | plain (text : String)
  /-- Letters only, the last one first: for each checkpoint whether it fails. -/
  | letters (fails : List Bool)

namespace TraceText

def letter (fails : Bool) : Char := if fails then 'F' else 'P'

/-- The checkpoints whose letters are some characters, the last one first. -/
def checkpointsOf? (chars : List Char) : Option (List Bool) :=
  if !chars.isEmpty && chars.all fun c => c == 'P' || c == 'F' then
    some (chars.reverse.map (· == 'F'))
  else none

/-- A text of one or more letters and nothing else counts as theirs. -/
def ofText (text : String) : TraceText :=
  match checkpointsOf? text.toList with
  | some fails => letters fails
  | none => plain text

def text : TraceText → String
  | plain text => text
  | letters fails => String.ofList (fails.reverse.map letter)

/-- Letters that make up a text are shown as that text. -/
theorem map_letter_of_checkpointsOf? {chars : List Char} {fails : List Bool}
    (h : checkpointsOf? chars = some fails) : fails.reverse.map letter = chars := by
  simp only [checkpointsOf?, Option.ite_none_right_eq_some, Bool.and_eq_true, List.all_eq_true,
    Bool.or_eq_true, beq_iff_eq, Option.some.injEq] at h
  obtain ⟨⟨-, hchars⟩, rfl⟩ := h
  rw [← List.map_reverse, List.reverse_reverse, List.map_map]
  refine (List.map_congr_left fun c hc => ?_).trans (List.map_id chars)
  rcases hchars c hc with rfl | rfl <;> rfl

/-- A text is shown as it was written. -/
theorem text_ofText (s : String) : (ofText s).text = s := by
  unfold ofText
  split
  next fails h => simp [text, map_letter_of_checkpointsOf? h, String.ofList_toList]
  next => rfl

end TraceText

/-- A trace, with the last text first. -/
abbrev Trace := List TraceText

namespace Trace

def write (texts : List String) (trace : Trace) : Trace :=
  texts.foldl (fun trace text => .ofText text :: trace) trace

/-- A trace with the letter of one more checkpoint. -/
def writeLetter (fails : Bool) : Trace → Trace
  | .letters earlier :: trace => .letters (fails :: earlier) :: trace
  | trace => .letters [fails] :: trace

/-- The texts of a trace, the first one first. -/
def texts (trace : Trace) : List String := trace.reverse.map TraceText.text

/-- Texts that are written come after those that were there. -/
theorem texts_write (more : List String) (trace : Trace) :
    (trace.write more).texts = trace.texts ++ more := by
  induction more generalizing trace with
  | nil => simp [write]
  | cons first rest ih =>
    have h := ih (.ofText first :: trace)
    simp only [write, List.foldl_cons] at h ⊢
    rw [h]
    simp [texts, TraceText.text_ofText]

end Trace

end MemoryTrial.Script
