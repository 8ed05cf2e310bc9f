import DBusMarshal.Listing
import DBusMarshal.Proofs.Lines

/-!
The pieces of a text, which stand between its newlines.

Texts that are joined with newlines are cut apart again, into the pieces of each. Indentation works
piece by piece, so it does not matter whether a text is indented first and then cut, or cut first
and then indented.
-/

set_option autoImplicit false

namespace DBusMarshal.Text

/-! ### Cutting at a character -/

theorem consToFirst_append (c : Char) {front : List (List Char)} (filled : front ≠ [])
    (back : List (List Char)) : consToFirst c (front ++ back) = consToFirst c front ++ back := by
  cases front with
  | nil => exact absurd rfl filled
  | cons first others => rfl

theorem cutAt_append_mark (mark : Char) (front back : List Char) :
    cutAt mark (front ++ mark :: back) = cutAt mark front ++ cutAt mark back := by
  induction front with
  | nil => exact if_pos rfl
  | cons c rest ih =>
      rw [List.cons_append, cutAt, ih]
      by_cases same : c = mark
      · rw [if_pos same, cutAt, if_pos same, List.cons_append]
      · rw [if_neg same, cutAt, if_neg same, consToFirst_append c (cutAt_ne_nil mark rest)]

theorem cutAt_of_not_mem {mark : Char} {text : List Char} (absent : mark ∉ text) :
    cutAt mark text = [text] := by
  induction text with
  | nil => rfl
  | cons c rest ih =>
      have different : c ≠ mark := fun same => absent (same ▸ List.mem_cons_self)
      rw [cutAt, if_neg different, ih (fun listed => absent (List.mem_cons_of_mem _ listed)),
        consToFirst]

theorem not_mem_of_mem_cutAt {mark : Char} {text piece : List Char}
    (listed : piece ∈ cutAt mark text) : mark ∉ piece := by
  induction text generalizing piece with
  | nil =>
      rw [List.mem_singleton.1 listed]
      exact List.not_mem_nil
  | cons c rest ih =>
      rw [cutAt] at listed
      split at listed
      · rcases List.mem_cons.1 listed with same | later
        · rw [same]
          exact List.not_mem_nil
        · exact ih later
      · rename_i different
        obtain ⟨first, others, whole⟩ := List.exists_cons_of_ne_nil (cutAt_ne_nil mark rest)
        rw [whole, consToFirst] at listed
        rcases List.mem_cons.1 listed with same | later
        · have absent := ih (whole ▸ List.mem_cons_self)
          rw [same]
          intro inPiece
          rcases List.mem_cons.1 inPiece with isMark | inFirst
          · exact different isMark.symm
          · exact absent inFirst
        · exact ih (whole ▸ List.mem_cons_of_mem _ later)

theorem mem_of_mem_cutAt {mark : Char} {text piece : List Char} (listed : piece ∈ cutAt mark text)
    {c : Char} (inPiece : c ∈ piece) : c ∈ text := by
  induction text generalizing piece with
  | nil =>
      rw [List.mem_singleton.1 listed] at inPiece
      exact inPiece
  | cons d rest ih =>
      rw [cutAt] at listed
      split at listed
      · rcases List.mem_cons.1 listed with same | later
        · rw [same] at inPiece
          cases inPiece
        · exact List.mem_cons_of_mem _ (ih later inPiece)
      · obtain ⟨first, others, whole⟩ := List.exists_cons_of_ne_nil (cutAt_ne_nil mark rest)
        rw [whole, consToFirst] at listed
        rcases List.mem_cons.1 listed with same | later
        · rw [same] at inPiece
          rcases List.mem_cons.1 inPiece with isFirst | inFirst
          · exact isFirst ▸ List.mem_cons_self
          · exact List.mem_cons_of_mem _ (ih (whole ▸ List.mem_cons_self) inFirst)
        · exact List.mem_cons_of_mem _ (ih (whole ▸ List.mem_cons_of_mem _ later) inPiece)

theorem cutAt_intercalate (mark : Char) {texts : List (List Char)} (filled : texts ≠ []) :
    cutAt mark ([mark].intercalate texts) = texts.flatMap (cutAt mark) := by
  induction texts with
  | nil => exact absurd rfl filled
  | cons text rest ih =>
      cases rest with
      | nil => simp
      | cons other more =>
          rw [List.intercalate_cons_cons, List.append_assoc, List.singleton_append,
            cutAt_append_mark, ih (List.cons_ne_nil _ _)]
          rfl

theorem intercalate_cutAt (mark : Char) (text : List Char) :
    [mark].intercalate (cutAt mark text) = text := by
  induction text with
  | nil => simp [cutAt]
  | cons c rest ih =>
      obtain ⟨first, others, whole⟩ := List.exists_cons_of_ne_nil (cutAt_ne_nil mark rest)
      rw [whole] at ih
      rw [cutAt, whole]
      split
      · rename_i same
        rw [List.intercalate_cons_cons, ih, same]
        rfl
      · rw [consToFirst]
        cases others with
        | nil =>
            rw [List.intercalate_singleton] at ih ⊢
            rw [ih]
        | cons next more =>
            rw [List.intercalate_cons_cons] at ih ⊢
            rw [← ih]
            rfl

/-! ### Indentation piece by piece -/

/-- The pieces of an indented text are the indented pieces. -/
theorem cutAt_indentLines {indentation : List Char} (unbroken : Unbroken indentation)
    (text : List Char) :
    cutAt '\n' (indentLines indentation text) =
      (cutAt '\n' text).map (indentLines indentation) := by
  have single : ∀ front : List Char, '\n' ∉ front →
      cutAt '\n' (indentLines indentation front) =
        (cutAt '\n' front).map (indentLines indentation) := by
    intro front absent
    have stillAbsent : '\n' ∉ indentLines indentation front := by
      intro listed
      rcases mem_indentLines listed with inIndentation | inFront
      · exact absurd (unbroken '\n' inIndentation) (by decide)
      · exact absent inFront
    rw [cutAt_of_not_mem stillAbsent, cutAt_of_not_mem absent, List.map_singleton]
  -- The front holds what stands before the next newline.
  suffices general : ∀ back front : List Char, '\n' ∉ front →
      cutAt '\n' (indentLines indentation (front ++ back)) =
        (cutAt '\n' (front ++ back)).map (indentLines indentation) from
    general text [] List.not_mem_nil
  intro back
  induction back with
  | nil =>
      intro front absent
      rw [List.append_nil]
      exact single front absent
  | cons c rest ih =>
      intro front absent
      by_cases newline : c = '\n'
      · have later := ih [] List.not_mem_nil
        rw [List.nil_append] at later
        rw [newline, indentLines_append_newline, cutAt_append_mark, cutAt_append_mark, later,
          single front absent, List.map_append]
      · have later := ih (front ++ [c]) (by
          rw [List.mem_append, List.mem_singleton]
          exact fun listed => listed.elim absent (fun same => newline same.symm))
        rw [List.append_assoc] at later
        exact later

/-- An indentation of a number of steps. -/
def copies (step : String) (count : Nat) : List Char :=
  (List.replicate count step.toList).flatten

theorem copies_add (step : String) (outer inner : Nat) :
    copies step (outer + inner) = copies step outer ++ copies step inner := by
  rw [copies, ← List.replicate_append_replicate, List.flatten_append, copies, copies]

theorem toList_indent (text : String) (level : Nat) (step : String) :
    (indent text level step).toList = indentLines (copies step level) text.toList := by
  unfold indent
  split
  · rename_i none
    have isZero : level = 0 := by omega
    rw [isZero]
    exact (indentLines_nil _).symm
  · rw [String.toList_ofList]
    rfl

theorem toList_join_replicate (step : String) (count : Nat) :
    (String.join (List.replicate count step)).toList = copies step count := by
  rw [String.toList_join, List.flatMap_replicate, copies]

/-- Put an indentation in front of a text as if it were one line. -/
def indentAsLine (text : String) (level : Nat) (step : String) : String :=
  if text.toList.all isBlank then text else String.join (List.replicate level step) ++ text

theorem toList_indentAsLine (text : String) (level : Nat) (step : String) :
    (indentAsLine text level step).toList = indentLine (copies step level) text.toList := by
  unfold indentAsLine indentLine
  split
  · rfl
  · rw [String.toList_append, toList_join_replicate]

theorem indent_of_unbroken {text : String} (unbroken : Unbroken text.toList) (level : Nat)
    (step : String) : indent text level step = indentAsLine text level step := by
  apply String.toList_injective
  rw [toList_indent, toList_indentAsLine, indentLines_of_unbroken unbroken]

theorem indent_empty (text : String) (level : Nat) :
    indent text level "" = indentAsLine text level "" := by
  have none : copies "" level = [] := by simp [copies]
  apply String.toList_injective
  rw [toList_indent, toList_indentAsLine, none, indentLines_nil, indentLine]
  split <;> rfl

section

variable {step : String} (unbroken : Unbroken step.toList)
include unbroken

theorem unbroken_copies (count : Nat) : Unbroken (copies step count) := by
  intro c listed
  obtain ⟨single, isCopy, inside⟩ := List.mem_flatten.1 listed
  rw [List.eq_of_mem_replicate isCopy] at inside
  exact unbroken c inside

theorem toList_indent_indent (text : String) (inner outer : Nat) :
    (indent (indent text inner step) outer step).toList =
      indentLines (copies step (inner + outer)) text.toList := by
  rw [toList_indent, toList_indent, indentLines_indentLines _ (unbroken_copies unbroken inner),
    ← copies_add, Nat.add_comm]

/-- A step more can be taken behind the other ones. -/
theorem indent_succ (text : String) (level : Nat) :
    indent text (level + 1 : Nat) step = indent (indent text level step) 1 step := by
  apply String.toList_injective
  rw [toList_indent]
  exact (toList_indent_indent unbroken text level 1).symm

/-- Indentation goes through the content lines one by one. -/
theorem contentLines_indent (text : String) (level : Nat) :
    contentLines (indent text level step) =
      (contentLines text).map fun piece => indent piece level step := by
  have each : (String.ofList ∘ indentLines (copies step level)) =
      (fun piece : String => indent piece level step) ∘ String.ofList := by
    funext piece
    apply String.toList_injective
    simp only [Function.comp_apply, String.toList_ofList, toList_indent]
  rw [contentLines, toList_indent, dropTrailing_indentLines,
    cutAt_indentLines (unbroken_copies unbroken level), List.map_map, each, contentLines,
    List.map_map]

/-- To indent a text as one line is to indent it exactly when only blanks stand behind its first
line. -/
theorem indent_eq_indentAsLine_iff {level : Nat} (positive : 0 < level) (filled : step ≠ "")
    (text : String) :
    indent text level step = indentAsLine text level step ↔
      ∀ line ∈ (lines text.toList).tail, line.all isBlank = true := by
  have stillFilled : copies step level ≠ [] := by
    intro none
    rw [copies, List.flatten_eq_nil_iff] at none
    have stepNone := none step.toList (List.mem_replicate.2 ⟨by omega, rfl⟩)
    exact filled (String.toList_injective stepNone)
  rw [← indentLines_eq_indentLine_iff (unbroken_copies unbroken level) stillFilled,
    ← toList_indent, ← toList_indentAsLine, String.toList_inj]

end

/-- To indent twice is to indent once by all the steps. -/
theorem indent_indent {step : String} (unbroken : Unbroken step.toList) (text : String)
    (inner outer : Nat) :
    indent (indent text inner step) outer step = indent text (inner + outer : Nat) step := by
  apply String.toList_injective
  rw [toList_indent_indent unbroken, toList_indent]

/-- Boundaries of several kinds, lines of blanks, and no newline at the end. -/
theorem indent_indent_boundaries :
    Unbroken " \t".toList ∧
    indent (indent "a\r\n\u2003\rb\u2028\u000cc\n\r d" 2 " \t") 3 " \t" =
      indent "a\r\n\u2003\rb\u2028\u000cc\n\r d" 5 " \t" := by
  have unbroken : Unbroken " \t".toList := by decide
  exact ⟨unbroken, indent_indent unbroken "a\r\n\u2003\rb\u2028\u000cc\n\r d" 2 3⟩

/-! ### Pieces of joined lines -/

/-- What stands between the newlines of a text. -/
def pieces (text : String) : List String := (cutAt '\n' text.toList).map .ofList

theorem pieces_of_not_mem {text : String} (absent : '\n' ∉ text.toList) : pieces text = [text] := by
  rw [pieces, cutAt_of_not_mem absent, List.map_singleton, String.ofList_toList]

theorem pieces_joinNewlines {texts : List String} (filled : texts ≠ []) :
    pieces (joinNewlines texts) = texts.flatMap pieces := by
  have stillFilled : texts.map String.toList ≠ [] := by simpa using filled
  rw [pieces, joinNewlines, String.toList_intercalate]
  exact (congrArg _ (cutAt_intercalate '\n' stillFilled)).trans (by
    rw [List.flatMap_map, List.map_flatMap]
    rfl)

theorem joinNewlines_pieces (text : String) : joinNewlines (pieces text) = text := by
  apply String.toList_injective
  have same : String.toList ∘ String.ofList = id := funext fun _ => String.toList_ofList
  rw [joinNewlines, String.toList_intercalate, pieces, List.map_map, same, List.map_id]
  exact intercalate_cutAt '\n' text.toList

theorem newline_not_mem_cut {text : List Char} {piece : String}
    (listed : piece ∈ (cutAt '\n' text).map .ofList) : '\n' ∉ piece.toList := by
  obtain ⟨cut, isPiece, rfl⟩ := List.mem_map.1 listed
  rw [String.toList_ofList]
  exact not_mem_of_mem_cutAt isPiece

theorem pieces_ne_nil (text : String) : pieces text ≠ [] := by
  simp [pieces, cutAt_ne_nil]

theorem joinNewlines_flatMap_pieces (texts : List String) :
    joinNewlines (texts.flatMap pieces) = joinNewlines texts := by
  induction texts with
  | nil => rfl
  | cons text rest ih =>
      cases rest with
      | nil =>
          rw [List.flatMap_singleton, joinNewlines_pieces]
          exact String.intercalate_singleton.symm
      | cons other more =>
          have later : (other :: more).flatMap pieces ≠ [] := by simp [pieces_ne_nil]
          rw [List.flatMap_cons, joinNewlines,
            String.intercalate_append_of_ne_nil (pieces_ne_nil text) later]
          have front := joinNewlines_pieces text
          rw [joinNewlines] at front ih
          rw [front, ih]
          exact String.intercalate_cons_cons.symm

theorem mem_of_mem_dropTrailing {test : Char → Bool} {text : List Char} {c : Char}
    (listed : c ∈ dropTrailing test text) : c ∈ text := by
  induction text using List.reverseRecOn with
  | nil => exact listed
  | append_singleton front last ih =>
      cases dropped : test last with
      | true =>
          rw [dropTrailing_append_of_true dropped] at listed
          exact List.mem_append_left _ (ih listed)
      | false =>
          rw [dropTrailing_append_of_false dropped] at listed
          exact listed

/-- When nothing but newlines ends a line, the content lines are lines. -/
theorem unbroken_of_mem_contentLines {text piece : String}
    (newlines : BrokenByNewlines text.toList)
    (listed : piece ∈ contentLines text) : Unbroken piece.toList := by
  intro c inPiece
  obtain ⟨cut, isPiece, rfl⟩ := List.mem_map.1 listed
  rw [String.toList_ofList] at inPiece
  have inText := mem_of_mem_dropTrailing (mem_of_mem_cutAt isPiece inPiece)
  cases ends : isBoundary c with
  | false => rfl
  | true => exact absurd (newlines c inText ends ▸ inPiece) (not_mem_of_mem_cutAt isPiece)

theorem flatMap_pieces_of_not_mem {texts : List String}
    (absent : ∀ text ∈ texts, '\n' ∉ text.toList) : texts.flatMap pieces = texts := by
  induction texts with
  | nil => rfl
  | cons text rest ih =>
      obtain ⟨first, others⟩ := List.forall_mem_cons.1 absent
      rw [List.flatMap_cons, pieces_of_not_mem first, ih others, List.singleton_append]

theorem flatMap_pieces_contentLines (text : String) :
    (contentLines text).flatMap pieces = contentLines text :=
  flatMap_pieces_of_not_mem fun _ listed => newline_not_mem_cut listed

/-- Lines that end with a closing brace are cut apart again, none of them lost. -/
theorem contentLines_joinLines {texts : List String} (closed : texts.getLast? = some "\x7d") :
    contentLines (joinLines texts) = texts.flatMap pieces := by
  obtain ⟨front, rfl⟩ := List.getLast?_eq_some_iff.1 closed
  obtain ⟨before, whole⟩ : ∃ before : List Char,
      (joinNewlines (front ++ ["\x7d"])).toList = before ++ ['\x7d'] := by
    cases front with
    | nil => exact ⟨[], rfl⟩
    | cons first others =>
        refine ⟨(joinNewlines (first :: others)).toList ++ ['\n'], ?_⟩
        rw [joinNewlines, String.intercalate_append_of_ne_nil (List.cons_ne_nil _ _)
          (List.cons_ne_nil _ _), String.toList_append, String.toList_append,
          String.intercalate_singleton]
        rfl
  have spelt : (joinLines (front ++ ["\x7d"])).toList = before ++ ['\x7d'] ++ ['\n'] := by
    rw [joinLines, String.toList_append, whole]
    rfl
  have dropped : dropTrailing (· == '\n') (before ++ ['\x7d'] ++ ['\n']) = before ++ ['\x7d'] :=
    (dropTrailing_append_of_true rfl _).trans (dropTrailing_append_of_false rfl _)
  rw [← pieces_joinNewlines (by simp), pieces, whole, contentLines, spelt, dropped]

theorem pieces_joinLines {texts : List String} (filled : texts ≠ [])
    (absent : ∀ text ∈ texts, '\n' ∉ text.toList) : pieces (joinLines texts) = texts ++ [""] := by
  have ended : joinLines texts = joinNewlines (texts ++ [""]) := by
    rw [joinNewlines, String.intercalate_append_of_ne_nil filled (List.cons_ne_nil _ _),
      String.intercalate_singleton, String.append_empty]
    rfl
  rw [ended, pieces_joinNewlines (by simp), List.flatMap_append, flatMap_pieces_of_not_mem absent]
  rfl

theorem newline_not_mem_indent {text step : String} (unbroken : Unbroken step.toList)
    (absent : '\n' ∉ text.toList) (level : Nat) : '\n' ∉ (indent text level step).toList := by
  rw [toList_indent]
  intro listed
  rcases mem_indentLines listed with inStep | inText
  · exact absurd (unbroken_copies unbroken level '\n' inStep) (by decide)
  · exact absent inText

theorem toList_joinLines {texts : List String} (filled : texts ≠ []) :
    (joinLines texts).toList = texts.flatMap fun text => text.toList ++ ['\n'] := by
  induction texts with
  | nil => exact absurd rfl filled
  | cons text rest ih =>
      cases rest with
      | nil => simp [joinLines, joinNewlines]
      | cons other more =>
          have later := ih (List.cons_ne_nil _ _)
          rw [joinLines, joinNewlines, String.toList_append] at later
          rw [joinLines, joinNewlines, String.intercalate_cons_cons, String.toList_append,
            String.toList_append, String.toList_append, List.append_assoc, later,
            List.flatMap_cons]
          rfl

/-- Joined lines that none of them is broken are the lines of the text. -/
theorem lines_joinLines {texts : List String} (filled : texts ≠ [])
    (unbroken : ∀ text ∈ texts, Unbroken text.toList) :
    lines (joinLines texts).toList = texts.map fun text => text.toList ++ ['\n'] := by
  rw [toList_joinLines filled]
  clear filled
  induction texts with
  | nil => rfl
  | cons text rest ih =>
      obtain ⟨first, others⟩ := List.forall_mem_cons.1 unbroken
      rw [List.flatMap_cons, List.append_assoc]
      exact (lines_append_of_unbroken first (lines_newline _)).trans (congrArg _ (ih others))

end DBusMarshal.Text
