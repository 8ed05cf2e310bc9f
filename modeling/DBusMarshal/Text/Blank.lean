import DBusMarshal.Text.CharRange

/-!
Blank characters, and the removal of blanks from the ends of a text.

A blank is a space of any width or a control character that separates words, lines or
records. `trim` removes the blanks at both ends, `trimEnd` those at the right end only.
-/

set_option autoImplicit false

namespace DBusMarshal.Text

/-! ### The class of blanks -/

def blankRanges : List CharRange :=
  [⟨0x09, 0x0d⟩, ⟨0x1c, 0x20⟩, ⟨0x85, 0x85⟩, ⟨0xa0, 0xa0⟩, ⟨0x1680, 0x1680⟩,
    ⟨0x2000, 0x200a⟩, ⟨0x2028, 0x2029⟩, ⟨0x202f, 0x202f⟩, ⟨0x205f, 0x205f⟩, ⟨0x3000, 0x3000⟩]

/-- A blank separates words, lines or records and leaves no ink. -/
def isBlank (c : Char) : Bool := inRanges blankRanges c

theorem isBlank_of_isWhitespace {c : Char} (white : c.isWhitespace = true) : isBlank c = true := by
  simp only [Char.isWhitespace, Bool.or_eq_true, decide_eq_true_eq] at white
  rcases white with ((rfl | rfl) | rfl) | rfl <;> decide

/-! ### Removing characters from the ends -/

/-- Drop the longest run of characters at the right end that satisfy a test. -/
def dropTrailing (test : Char → Bool) : List Char → List Char
  | [] => []
  | c :: rest =>
    match dropTrailing test rest with
    | [] => if test c then [] else [c]
    | kept => c :: kept

def trimEnd (text : List Char) : List Char := dropTrailing isBlank text

def trim (text : List Char) : List Char := trimEnd (text.dropWhile isBlank)

@[simp]
theorem dropTrailing_nil (test : Char → Bool) : dropTrailing test [] = [] := rfl

/-- Every character is dropped exactly when every character satisfies the test. -/
theorem dropTrailing_eq_nil_iff (test : Char → Bool) (text : List Char) :
    dropTrailing test text = [] ↔ ∀ c ∈ text, test c = true := by
  induction text with
  | nil => simp
  | cons c rest ih =>
    cases hRest : dropTrailing test rest with
    | nil =>
      have all := ih.1 hRest
      by_cases hc : test c = true
      · simp [dropTrailing, hRest, hc]
        exact all
      · simp [dropTrailing, hRest, hc]
    | cons d kept =>
      have notAll : ¬ ∀ c ∈ rest, test c = true := fun h => by simp [ih.2 h] at hRest
      constructor
      · intro h
        simp [dropTrailing, hRest] at h
      · intro h
        exact absurd (fun c hc => h c (List.mem_cons_of_mem _ hc)) notAll

theorem dropTrailing_append_of_false {test : Char → Bool} {last : Char} (kept : test last = false)
    (front : List Char) : dropTrailing test (front ++ [last]) = front ++ [last] := by
  induction front with
  | nil => simp [dropTrailing, kept]
  | cons first rest ih =>
      rw [List.cons_append, dropTrailing, ih]
      cases whole : rest ++ [last] with
      | nil =>
          have impossible := congrArg List.length whole
          simp at impossible
      | cons other more => rfl

theorem dropTrailing_append_of_true {test : Char → Bool} {last : Char} (dropped : test last = true)
    (front : List Char) : dropTrailing test (front ++ [last]) = dropTrailing test front := by
  induction front with
  | nil => simp [dropTrailing, dropped]
  | cons first rest ih => rw [List.cons_append, dropTrailing, ih, dropTrailing]

end DBusMarshal.Text
