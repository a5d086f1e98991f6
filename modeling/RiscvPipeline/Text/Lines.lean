/-! Texts made of lines. -/

namespace RiscvPipeline.Text

/-- The line without a carriage return at its end. -/
def dropReturn (line : List Char) : List Char :=
  if line.getLast? = some '\r' then line.dropLast else line

/-- The lines of a text, of which `line` is the one begun, in reverse. -/
def linesFrom (line : List Char) : List Char → List String
  | [] => if line.isEmpty then [] else [String.ofList line.reverse]
  | c :: r =>
    if c = '\n' then String.ofList (dropReturn line.reverse) :: linesFrom [] r
    else linesFrom (c :: line) r

/-- The lines of a text, without the marks that end them. The last line need not be ended. -/
def lines (s : String) : List String := linesFrom [] s.toList

/-- A text in which every line is ended. -/
def unlines (ls : List String) : String := String.join (ls.map (· ++ "\n"))

/-- No part of the line is taken for the end of one. -/
structure Unbroken (line : String) : Prop where
  newline : '\n' ∉ line.toList
  ending : line.toList.getLast? ≠ some '\r'

theorem linesFrom_append {cs : List Char} (h : '\n' ∉ cs) (line rest : List Char) :
    linesFrom line (cs ++ rest) = linesFrom (cs.reverse ++ line) rest := by
  induction cs generalizing line with
  | nil => rfl
  | cons c cs ih =>
    rw [List.mem_cons, not_or] at h
    rw [List.cons_append, linesFrom, if_neg (Ne.symm h.1), ih h.2, List.reverse_cons,
      List.append_assoc, List.singleton_append]

theorem linesFrom_unbroken {l : String} (h : Unbroken l) (rest : List Char) :
    linesFrom [] (l.toList ++ '\n' :: rest) = l :: linesFrom [] rest := by
  rw [linesFrom_append h.newline, linesFrom, if_pos rfl, List.append_nil, List.reverse_reverse,
    dropReturn, if_neg h.ending, String.ofList_toList]

/-- The lines of a text made of lines are those lines. -/
theorem lines_unlines {ls : List String} (h : ∀ l ∈ ls, Unbroken l) : lines (unlines ls) = ls := by
  have htext : (unlines ls).toList = ls.flatMap fun l => l.toList ++ ['\n'] := by
    simp [unlines, List.flatMap_map]
  rw [lines, htext]
  clear htext
  induction ls with
  | nil => rfl
  | cons l ls ih =>
    rw [List.forall_mem_cons] at h
    rw [List.flatMap_cons, List.append_assoc, List.singleton_append, linesFrom_unbroken h.1,
      ih h.2]

end RiscvPipeline.Text
