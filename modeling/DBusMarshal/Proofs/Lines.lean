import Mathlib.Data.List.Induction
import DBusMarshal.Text.Lines

/-!
Lines and indentation.

A newline always ends its line, so the lines of a text are those up to a newline and those behind
it, and indentation goes through at every newline. An indentation that breaks no line leaves the
lines where they are: the lines of an indented text are the indented lines, and to indent twice is
to indent once by both. That is what makes it possible to indent a text again that was built out of
indented texts.
-/

set_option autoImplicit false

namespace DBusMarshal.Text

/-! ### The first line -/

/-- No character of the text ends a line. -/
def Unbroken (text : List Char) : Prop := ∀ c ∈ text, isBoundary c = false

instance (text : List Char) : Decidable (Unbroken text) :=
  decidable_of_iff (text.all fun c => !isBoundary c) (by simp [Unbroken])

/-- Nothing but newlines ends a line of the text. -/
def BrokenByNewlines (text : List Char) : Prop := ∀ c ∈ text, isBoundary c = true → c = '\n'

instance (text : List Char) : Decidable (BrokenByNewlines text) :=
  decidable_of_iff (text.all fun c => !isBoundary c || c == '\n')
    (by simp [BrokenByNewlines, or_iff_not_imp_left])

@[simp]
theorem unbroken_append_iff (front back : List Char) :
    Unbroken (front ++ back) ↔ Unbroken front ∧ Unbroken back :=
  List.forall_mem_append

theorem lines_cons_of_inside {c : Char} (inside : isBoundary c = false) (text : List Char) :
    lines (c :: text) = consToFirst c (lines text) := by
  cases text with
  | nil => rfl
  | cons d rest =>
      have notReturn : ¬ (c = '\r' ∧ d = '\n') := by
        rintro ⟨rfl, _⟩
        exact absurd inside (by decide)
      rw [lines, if_neg notReturn, if_neg (Bool.eq_false_iff.1 inside)]

theorem lines_cons_of_boundary {c : Char} (ends : isBoundary c = true) {text : List Char}
    (apart : c = '\r' → text.head? ≠ some '\n') : lines (c :: text) = [c] :: lines text := by
  cases text with
  | nil => rfl
  | cons d rest =>
      have notPair : ¬ (c = '\r' ∧ d = '\n') := by
        rintro ⟨isReturn, rfl⟩
        exact apart isReturn rfl
      rw [lines, if_neg notPair, if_pos ends]

theorem lines_pair (text : List Char) :
    lines ('\r' :: '\n' :: text) = ['\r', '\n'] :: lines text := by
  rw [lines, if_pos ⟨rfl, rfl⟩]

theorem lines_newline (text : List Char) : lines ('\n' :: text) = ['\n'] :: lines text :=
  lines_cons_of_boundary (by decide) (fun impossible => absurd impossible (by decide))

/-- Induction along the lines of a text: a boundary of two characters, another boundary, or a
character inside a line comes first. -/
theorem byLine {motive : List Char → Prop} (nil : motive [])
    (pair : ∀ rest, motive rest → motive ('\r' :: '\n' :: rest))
    (boundary : ∀ c rest, isBoundary c = true → (c = '\r' → rest.head? ≠ some '\n') →
      motive rest → motive (c :: rest))
    (inside : ∀ c rest, isBoundary c = false → motive rest → motive (c :: rest))
    (text : List Char) : motive text := by
  induction text using lines.induct with
  | case1 => exact nil
  | case2 c =>
      cases ends : isBoundary c with
      | true => exact boundary c [] ends (fun _ => by simp) nil
      | false => exact inside c [] ends nil
  | case3 c d rest isPair ih =>
      obtain ⟨rfl, rfl⟩ := isPair
      exact pair rest ih
  | case4 c d rest notPair ends ih =>
      refine boundary c (d :: rest) ends ?_ ih
      intro isReturn isNewline
      exact notPair ⟨isReturn, Option.some.inj isNewline⟩
  | case5 c d rest _ inLine ih =>
      exact inside c (d :: rest) (Bool.eq_false_iff.2 inLine) ih

theorem ne_nil_of_mem_lines {text line : List Char} (listed : line ∈ lines text) : line ≠ [] := by
  induction text using byLine generalizing line with
  | nil => cases listed
  | pair rest ih =>
      rw [lines_pair] at listed
      rcases List.mem_cons.1 listed with same | later
      · rw [same]
        exact List.cons_ne_nil _ _
      · exact ih later
  | boundary c rest ends apart ih =>
      rw [lines_cons_of_boundary ends apart] at listed
      rcases List.mem_cons.1 listed with same | later
      · rw [same]
        exact List.cons_ne_nil _ _
      · exact ih later
  | inside c rest inLine ih =>
      rw [lines_cons_of_inside inLine] at listed
      cases whole : lines rest with
      | nil =>
          rw [whole] at listed
          rw [List.mem_singleton.1 listed]
          exact List.cons_ne_nil _ _
      | cons first others =>
          rw [whole] at listed
          rcases List.mem_cons.1 listed with same | later
          · rw [same]
            exact List.cons_ne_nil _ _
          · exact ih (whole ▸ List.mem_cons_of_mem _ later)

theorem lines_eq_nil_iff (text : List Char) : lines text = [] ↔ text = [] := by
  constructor
  · intro none
    rw [← flatten_lines text, none, List.flatten_nil]
  · rintro rfl
    rfl

/-- What breaks no line joins the first line behind it. -/
theorem lines_append_of_unbroken {front text first : List Char} {others : List (List Char)}
    (unbroken : Unbroken front) (whole : lines text = first :: others) :
    lines (front ++ text) = (front ++ first) :: others := by
  induction front with
  | nil => exact whole
  | cons c rest ih =>
      obtain ⟨inside, unbrokenRest⟩ := List.forall_mem_cons.1 unbroken
      rw [List.cons_append, lines_cons_of_inside inside, ih unbrokenRest]
      rfl

theorem lines_of_unbroken {text : List Char} (unbroken : Unbroken text) (filled : text ≠ []) :
    lines text = [text] := by
  induction text with
  | nil => exact absurd rfl filled
  | cons c rest ih =>
      obtain ⟨inside, unbrokenRest⟩ := List.forall_mem_cons.1 unbroken
      rw [lines_cons_of_inside inside]
      cases rest with
      | nil => rfl
      | cons d more => rw [ih unbrokenRest (List.cons_ne_nil _ _), consToFirst]

/-! ### Newlines -/

/-- A newline ends the last line in front of it, or is a line of its own behind a line that has
ended. -/
theorem exists_lines_newline (front back : List Char) :
    ∃ ended last, lines (front ++ '\n' :: back) = ended ++ (last ++ ['\n']) :: lines back ∧
      (lines front = ended ++ [last] ∨ lines front = ended ∧ last = []) := by
  induction front using byLine with
  | nil => exact ⟨[], [], lines_newline back, Or.inr ⟨rfl, rfl⟩⟩
  | pair rest ih =>
      obtain ⟨ended, last, whole, inFront⟩ := ih
      refine ⟨['\r', '\n'] :: ended, last, ?_, ?_⟩
      · rw [List.cons_append, List.cons_append, lines_pair, whole]
        rfl
      · rw [lines_pair]
        rcases inFront with same | ⟨same, none⟩
        · exact Or.inl (by rw [same]; rfl)
        · exact Or.inr ⟨by rw [same], none⟩
  | boundary c rest ends apart ih =>
      by_cases joins : c = '\r' ∧ rest = []
      · -- The return and the newline behind it are one boundary.
        obtain ⟨rfl, rfl⟩ := joins
        exact ⟨[], ['\r'], lines_pair back, Or.inl rfl⟩
      · obtain ⟨ended, last, whole, inFront⟩ := ih
        have stillApart : c = '\r' → (rest ++ '\n' :: back).head? ≠ some '\n' := by
          intro isReturn
          cases rest with
          | nil => exact absurd ⟨isReturn, rfl⟩ joins
          | cons d more => exact apart isReturn
        refine ⟨[c] :: ended, last, ?_, ?_⟩
        · rw [List.cons_append, lines_cons_of_boundary ends stillApart, whole]
          rfl
        · rw [lines_cons_of_boundary ends apart]
          rcases inFront with same | ⟨same, none⟩
          · exact Or.inl (by rw [same]; rfl)
          · exact Or.inr ⟨by rw [same], none⟩
  | inside c rest inLine ih =>
      obtain ⟨ended, last, whole, inFront⟩ := ih
      rw [List.cons_append, lines_cons_of_inside inLine, lines_cons_of_inside inLine, whole]
      cases ended with
      | nil =>
          refine ⟨[], c :: last, rfl, Or.inl ?_⟩
          rcases inFront with same | ⟨same, rfl⟩ <;> rw [same] <;> rfl
      | cons first more =>
          refine ⟨(c :: first) :: more, last, rfl, ?_⟩
          rcases inFront with same | ⟨same, none⟩
          · exact Or.inl (by rw [same]; rfl)
          · exact Or.inr ⟨by rw [same]; rfl, none⟩

/-! ### Indentation -/

@[simp]
theorem indentLine_nil (indentation : List Char) : indentLine indentation [] = [] := rfl

theorem indentLine_of_blank {line : List Char} (blank : line.all isBlank = true)
    (indentation : List Char) : indentLine indentation line = line := if_pos blank

theorem indentLine_of_inked {line : List Char} (inked : line.all isBlank = false)
    (indentation : List Char) : indentLine indentation line = indentation ++ line :=
  if_neg (Bool.eq_false_iff.1 inked)

theorem indentLine_newline (indentation line : List Char) :
    indentLine indentation (line ++ ['\n']) = indentLine indentation line ++ ['\n'] := by
  have same : (line ++ ['\n']).all isBlank = line.all isBlank := by
    rw [List.all_append]
    exact Bool.and_true _
  unfold indentLine
  rw [same]
  split
  · rfl
  · exact (List.append_assoc _ _ _).symm

/-- To indent a line twice is to indent it once by both. -/
theorem indentLine_indentLine (outer inner line : List Char) :
    indentLine outer (indentLine inner line) = indentLine (outer ++ inner) line := by
  cases inked : line.all isBlank with
  | true => rw [indentLine_of_blank inked, indentLine_of_blank inked, indentLine_of_blank inked]
  | false =>
      have stillInked : (inner ++ line).all isBlank = false := by
        rw [List.all_append, inked, Bool.and_false]
      rw [indentLine_of_inked inked, indentLine_of_inked stillInked, indentLine_of_inked inked,
        List.append_assoc]

@[simp]
theorem indentLines_empty (indentation : List Char) : indentLines indentation [] = [] := rfl

/-- Indentation goes through at every newline. -/
theorem indentLines_append_newline (indentation front back : List Char) :
    indentLines indentation (front ++ '\n' :: back) =
      indentLines indentation front ++ '\n' :: indentLines indentation back := by
  obtain ⟨ended, last, whole, inFront⟩ := exists_lines_newline front back
  have front : indentLines indentation front =
      (ended.map (indentLine indentation)).flatten ++ indentLine indentation last := by
    rcases inFront with same | ⟨same, rfl⟩
    · rw [indentLines, same, List.map_append, List.flatten_append]
      simp
    · rw [indentLines, same, indentLine_nil, List.append_nil]
  rw [front, indentLines, whole, List.map_append, List.map_cons, indentLine_newline]
  simp [indentLines]

theorem indentLines_of_unbroken {text : List Char} (unbroken : Unbroken text)
    (indentation : List Char) : indentLines indentation text = indentLine indentation text := by
  by_cases filled : text = []
  · rw [filled]
    rfl
  · rw [indentLines, lines_of_unbroken unbroken filled]
    simp

theorem mem_indentLines {indentation text : List Char} {c : Char}
    (listed : c ∈ indentLines indentation text) : c ∈ indentation ∨ c ∈ text := by
  obtain ⟨line, isLine, inLine⟩ := List.mem_flatten.1 listed
  obtain ⟨original, inText, rfl⟩ := List.mem_map.1 isLine
  have inWhole : ∀ d ∈ original, d ∈ text := by
    intro d isPart
    rw [← flatten_lines text]
    exact List.mem_flatten.2 ⟨original, inText, isPart⟩
  unfold indentLine at inLine
  split at inLine
  · exact Or.inr (inWhole c inLine)
  · rcases List.mem_append.1 inLine with inFront | isPart
    · exact Or.inl inFront
    · exact Or.inr (inWhole c isPart)

/-! ### Lines of an indented text -/

section

variable {indentation : List Char}

theorem head?_indentLines (unbroken : Unbroken indentation) {text : List Char}
    (newline : (indentLines indentation text).head? = some '\n') : text.head? = some '\n' := by
  cases whole : lines text with
  | nil =>
      rw [(lines_eq_nil_iff text).1 whole] at newline
      cases newline
  | cons first others =>
      have spelt : text = first ++ others.flatten := by
        rw [← flatten_lines text, whole]
        rfl
      have filled : first ≠ [] := ne_nil_of_mem_lines (whole ▸ List.mem_cons_self)
      obtain ⟨c, rest, rfl⟩ := List.exists_cons_of_ne_nil filled
      rw [indentLines, whole, List.map_cons, List.flatten_cons] at newline
      rw [spelt]
      unfold indentLine at newline
      split at newline
      · exact newline
      · cases indentation with
        | nil => exact newline
        | cons d more =>
            have isNewline : d = '\n' := Option.some.inj newline
            have inside := unbroken d List.mem_cons_self
            rw [isNewline] at inside
            exact absurd inside (by decide)

/-- The lines of an indented text are the indented lines, once this is known of the lines behind the
first one. -/
theorem lines_indentLines_of_later (unbroken : Unbroken indentation) {text : List Char}
    (later : ∀ first others, lines text = first :: others →
      lines (first ++ (others.map (indentLine indentation)).flatten) =
        first :: others.map (indentLine indentation)) :
    lines (indentLines indentation text) = (lines text).map (indentLine indentation) := by
  rw [indentLines]
  cases whole : lines text with
  | nil => rfl
  | cons first others =>
      have behind := later first others whole
      rw [List.map_cons, List.flatten_cons]
      cases inked : first.all isBlank with
      | true =>
          rw [indentLine_of_blank inked]
          exact behind
      | false =>
          rw [indentLine_of_inked inked, List.append_assoc]
          exact lines_append_of_unbroken unbroken behind

theorem lines_append_indented (unbroken : Unbroken indentation) (text : List Char) :
    ∀ first others, lines text = first :: others →
      lines (first ++ (others.map (indentLine indentation)).flatten) =
        first :: others.map (indentLine indentation) := by
  induction text using byLine with
  | nil =>
      intro first others impossible
      cases impossible
  | pair rest ih =>
      intro first others whole
      rw [lines_pair] at whole
      cases whole
      have behind := lines_indentLines_of_later unbroken ih
      exact (lines_pair _).trans (congrArg _ behind)
  | boundary c rest ends apart ih =>
      intro first others whole
      rw [lines_cons_of_boundary ends apart] at whole
      cases whole
      have behind := lines_indentLines_of_later unbroken ih
      have stillApart : c = '\r' → (indentLines indentation rest).head? ≠ some '\n' :=
        fun isReturn isNewline => apart isReturn (head?_indentLines unbroken isNewline)
      exact (lines_cons_of_boundary ends stillApart).trans (congrArg _ behind)
  | inside c rest inLine ih =>
      intro first others whole
      rw [lines_cons_of_inside inLine] at whole
      cases parts : lines rest with
      | nil =>
          rw [parts] at whole
          cases whole
          rfl
      | cons next =>
          rw [parts] at whole
          cases whole
          rw [List.cons_append, lines_cons_of_inside inLine, ih next _ parts]
          rfl

/-- The lines of an indented text are the indented lines. -/
theorem lines_indentLines (unbroken : Unbroken indentation) (text : List Char) :
    lines (indentLines indentation text) = (lines text).map (indentLine indentation) :=
  lines_indentLines_of_later unbroken (lines_append_indented unbroken text)

/-- To indent a text twice is to indent it once by both. -/
theorem indentLines_indentLines (outer : List Char) (unbroken : Unbroken indentation)
    (text : List Char) :
    indentLines outer (indentLines indentation text) = indentLines (outer ++ indentation) text := by
  rw [indentLines, lines_indentLines unbroken, List.map_map, indentLines]
  congr 1
  apply List.map_congr_left
  intro line _
  exact indentLine_indentLine outer indentation line

theorem map_indentLine_eq_self_iff (filled : indentation ≠ []) (others : List (List Char)) :
    others.map (indentLine indentation) = others ↔ ∀ line ∈ others, line.all isBlank = true := by
  have keeps : ∀ line, indentLine indentation line = line ↔ line.all isBlank = true := by
    intro line
    cases inked : line.all isBlank with
    | true => simp [indentLine_of_blank inked]
    | false => simp [indentLine_of_inked inked, filled]
  induction others with
  | nil => simp
  | cons line rest ih =>
      rw [List.map_cons, List.cons.injEq, List.forall_mem_cons]
      exact and_congr (keeps line) ih

/-- A text is indented like a single line exactly when only blanks stand behind its first line. -/
theorem indentLines_eq_indentLine_iff (unbroken : Unbroken indentation) (filled : indentation ≠ [])
    (text : List Char) :
    indentLines indentation text = indentLine indentation text ↔
      ∀ line ∈ (lines text).tail, line.all isBlank = true := by
  cases whole : lines text with
  | nil =>
      rw [(lines_eq_nil_iff text).1 whole]
      simp
  | cons first others =>
      have spelt : text = first ++ others.flatten := by
        rw [← flatten_lines text, whole]
        rfl
      rw [List.tail_cons, ← map_indentLine_eq_self_iff filled]
      constructor
      · intro same
        cases inked : text.all isBlank with
        | true =>
            rw [spelt, List.all_append, Bool.and_eq_true, List.all_flatten] at inked
            exact (map_indentLine_eq_self_iff filled others).2 (List.all_eq_true.1 inked.2)
        | false =>
            -- The lines of both sides, compared behind the first one.
            have cut := congrArg lines same
            rw [indentLine_of_inked inked, lines_indentLines unbroken,
              lines_append_of_unbroken unbroken whole, whole, List.map_cons] at cut
            exact (List.cons.inj cut).2
      · intro kept
        have blank : others.flatten.all isBlank = true := by
          rw [List.all_flatten, List.all_eq_true]
          exact (map_indentLine_eq_self_iff filled others).1 kept
        have sameInk : text.all isBlank = first.all isBlank := by
          rw [spelt, List.all_append, blank, Bool.and_true]
        rw [indentLines, whole, List.map_cons, List.flatten_cons, kept]
        cases inked : first.all isBlank with
        | true => rw [indentLine_of_blank inked, indentLine_of_blank (sameInk.trans inked), spelt]
        | false =>
            rw [indentLine_of_inked inked, indentLine_of_inked (sameInk.trans inked),
              List.append_assoc, spelt]

end

/-- Indentation leaves the last character where it is. -/
theorem exists_indentLines_concat (indentation front : List Char) (last : Char) :
    ∃ other, indentLines indentation (front ++ [last]) = other ++ [last] := by
  rcases List.eq_nil_or_concat (lines (front ++ [last])) with none | ⟨ended, final, whole⟩
  · have impossible := congrArg List.length ((lines_eq_nil_iff _).1 none)
    simp at impossible
  · rw [List.concat_eq_append] at whole
    have filled : final ≠ [] := by
      have listed : final ∈ lines (front ++ [last]) := by simp [whole]
      exact ne_nil_of_mem_lines listed
    have spelt : front ++ [last] = ended.flatten ++ final := by
      rw [← flatten_lines (front ++ [last]), whole]
      simp
    rcases List.eq_nil_or_concat final with none | ⟨inner, c, rfl⟩
    · exact absurd none filled
    · rw [List.concat_eq_append] at spelt whole
      rw [← List.append_assoc] at spelt
      obtain ⟨-, same⟩ := List.append_inj' spelt rfl
      rw [indentLines, whole, List.map_append, List.flatten_append, List.singleton_inj.1 same]
      unfold indentLine
      simp only [List.map_cons, List.map_nil, List.flatten_cons, List.flatten_nil, List.append_nil]
      split
      · exact ⟨_, (List.append_assoc _ _ _).symm⟩
      · exact ⟨_, by rw [← List.append_assoc, ← List.append_assoc]⟩

/-- The newlines at the end of an indented text are those at the end of the text. -/
theorem dropTrailing_indentLines (indentation text : List Char) :
    dropTrailing (· == '\n') (indentLines indentation text) =
      indentLines indentation (dropTrailing (· == '\n') text) := by
  induction text using List.reverseRecOn with
  | nil => rfl
  | append_singleton front last ih =>
      by_cases newline : last = '\n'
      · have dropped : ∀ front : List Char, dropTrailing (· == '\n') (front ++ ['\n']) =
            dropTrailing (· == '\n') front := dropTrailing_append_of_true rfl
        rw [newline, indentLines_append_newline, indentLines_empty, dropped, dropped, ih]
      · have kept : ∀ front : List Char, dropTrailing (· == '\n') (front ++ [last]) =
            front ++ [last] := dropTrailing_append_of_false (beq_eq_false_iff_ne.2 newline)
        obtain ⟨other, whole⟩ := exists_indentLines_concat indentation front last
        rw [kept, whole, kept]

end DBusMarshal.Text
