import DBusMarshal.Text.Blank

/-!
Lines of a text, and indentation.

There are two ways to cut a text. `lines` cuts after every line boundary and keeps the boundary
with its line, so that the lines concatenate to the text. `cutAt` cuts at one character only and
drops it. `indent` puts an indentation in front of every line that holds something else
than blanks.
-/

set_option autoImplicit false

namespace DBusMarshal.Text

/-! ### Lines that keep their boundary -/

/-- The ranges of the ten characters that end a line. -/
def boundaryRanges : List CharRange :=
  [⟨0x0a, 0x0d⟩, ⟨0x1c, 0x1e⟩, ⟨0x85, 0x85⟩, ⟨0x2028, 0x2029⟩]

/-- A line boundary ends the line that it stands in. -/
def isBoundary (c : Char) : Bool := inRanges boundaryRanges c

/-- Put a character in front of the first line, which is new when there is none. -/
def consToFirst (c : Char) : List (List Char) → List (List Char)
  | [] => [[c]]
  | first :: others => (c :: first) :: others

/-- Cut a text after every line boundary; a carriage return and the newline that follows it are
one boundary. -/
def lines : List Char → List (List Char)
  | [] => []
  | [c] => [[c]]
  | c :: d :: rest =>
    if c = '\r' ∧ d = '\n' then [c, d] :: lines rest
    else if isBoundary c then [c] :: lines (d :: rest)
    else consToFirst c (lines (d :: rest))

@[simp]
theorem flatten_consToFirst (c : Char) (others : List (List Char)) :
    (consToFirst c others).flatten = c :: others.flatten := by
  cases others <;> simp [consToFirst]

/-- The lines of a text concatenate to the text. -/
@[simp]
theorem flatten_lines (text : List Char) : (lines text).flatten = text := by
  fun_induction lines text <;> simp_all

/-! ### Cutting at a character -/

/-- Cut a text at a character: `n` of them give `n + 1` pieces. -/
def cutAt (mark : Char) : List Char → List (List Char)
  | [] => [[]]
  | c :: rest => if c = mark then [] :: cutAt mark rest else consToFirst c (cutAt mark rest)

theorem length_consToFirst (c : Char) (others : List (List Char)) (filled : others ≠ []) :
    (consToFirst c others).length = others.length := by
  cases others with
  | nil => exact absurd rfl filled
  | cons first rest => rfl

theorem cutAt_ne_nil (mark : Char) (text : List Char) : cutAt mark text ≠ [] := by
  cases text with
  | nil => exact List.cons_ne_nil _ _
  | cons c rest =>
    unfold cutAt
    split
    · exact List.cons_ne_nil _ _
    · cases cutAt mark rest <;> exact List.cons_ne_nil _ _

/-- There is one piece more than there are cuts. -/
theorem length_cutAt (mark : Char) (text : List Char) :
    (cutAt mark text).length = text.count mark + 1 := by
  induction text with
  | nil => rfl
  | cons c rest ih =>
    unfold cutAt
    by_cases same : c = mark
    · rw [if_pos same, List.length_cons, ih, same, List.count_cons_self]
    · rw [if_neg same, length_consToFirst c _ (cutAt_ne_nil mark rest), ih,
        List.count_cons_of_ne same]

def joinNewlines (pieces : List String) : String := "\n".intercalate pieces

/-! ### Indentation -/

/-- Put an indentation in front of a line, unless the line holds blanks only. -/
def indentLine (indentation line : List Char) : List Char :=
  if line.all isBlank then line else indentation ++ line

def indentLines (indentation text : List Char) : List Char :=
  ((lines text).map (indentLine indentation)).flatten

theorem indentLines_nil (text : List Char) : indentLines [] text = text := by
  have same : indentLine [] = id := by
    funext line
    unfold indentLine
    split <;> rfl
  rw [indentLines, same, List.map_id, flatten_lines]

/-- Indent the lines of a text by a number of steps; a level of zero or less leaves it alone. -/
def indent (text : String) (level : Int) (step : String) : String :=
  if level ≤ 0 then text
  else
    .ofList (indentLines (List.replicate level.toNat step.toList).flatten text.toList)

/-- The pieces between the newlines of a text, without the newlines at its end. -/
def contentLines (text : String) : List String :=
  (cutAt '\n' (dropTrailing (· == '\n') text.toList)).map .ofList

/-! ### Examples -/

example : indent "a\n \nb" 1 "\t" = "\ta\n \n\tb" := by decide +kernel

example : contentLines "a\n\nb\n\n" = ["a", "", "b"] := by decide +kernel

end DBusMarshal.Text
