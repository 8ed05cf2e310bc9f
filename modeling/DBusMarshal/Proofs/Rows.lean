import DBusMarshal.Proofs.Code
import DBusMarshal.Proofs.Pieces

/-!
A printer that counts the loops.

`Fragment.rows` goes over a fragment once and notes for every line how deep it stands. The C text of
a fragment is made differently: the body of a loop is printed, indented as one text and cut apart,
and so on outwards. Both give the same lines. A body would lose empty lines at its end on the way
out, so every body has to end with a call or a loop.
-/

set_option autoImplicit false

namespace DBusMarshal

open Text

/-! ### Rows -/

/-- A part of the C text with the number of indentations that it stands behind. -/
inductive Row where
  | line (depth : Nat) (text : String)
  | blank
  | recovery (depth : Nat) (code : String)
deriving DecidableEq, Repr

namespace Statement

/-- The line that tests whether a call has failed. -/
def callHead (call : String) : String := "if (! " ++ call ++ ") \x7b"

/-- The line that a statement begins with. -/
def head : Statement → String
  | comment text => "/* " ++ text ++ " */"
  | append iter typeConst value _ =>
    callHead ("dbus_message_iter_append_basic (&" ++ iter.text ++ ", " ++ typeConst ++ ", &" ++
      value.text ++ ")")
  | openContainer iter typeConst signature inner _ =>
    callHead ("dbus_message_iter_open_container (&" ++ iter.text ++ ", " ++ typeConst ++ ", " ++
      signatureArgument signature ++ ", &" ++ inner.text ++ ")")
  | closeContainer iter inner _ =>
    callHead ("dbus_message_iter_close_container (&" ++ iter.text ++ ", &" ++ inner.text ++ ")")
  | declare type name => CType.declaration type name.text ++ ";"
  | assign target array index => target.text ++ " = " ++ array.text ++ "[" ++ index.text ++ "];"
  | readField target source field => target.text ++ " = " ++ source.text ++ "->" ++ field ++ ";"
  | loop index array length _ => loopHead index array length
  | blank => ""
  | recovery _ => ""
  | stray _ => ""

end Statement

mutual

/-- The rows of a statement that stands in so many loops, in the order of the text. -/
def Statement.rows (depth : Nat) (statement : Statement) : List Row :=
  match statement with
  | .append _ _ _ recovery =>
    [.line depth statement.head, .recovery (depth + 1) recovery, .line depth "\x7d"]
  | .openContainer _ _ _ _ recovery =>
    [.line depth statement.head, .recovery (depth + 1) recovery, .line depth "\x7d"]
  | .closeContainer _ _ recovery =>
    [.line depth statement.head, .recovery (depth + 1) recovery, .line depth "\x7d"]
  | .loop _ _ _ body =>
    [.line depth statement.head] ++ Fragment.rows (depth + 1) body ++ [.line depth "\x7d"]
  | .recovery code => [.recovery (depth + 1) code]
  | .blank => [.blank]
  | .stray _ => []
  | _ => [.line depth statement.head]

def Fragment.rows (depth : Nat) : List Statement → List Row
  | [] => []
  | statement :: rest => statement.rows depth ++ Fragment.rows depth rest

end

namespace Row

/-- The lines of a row at its depth. A line of recovery code that holds blanks only is not
indented. -/
def printed (step : String) : Row → List String
  | line depth text => [String.join (List.replicate depth step) ++ text]
  | blank => [""]
  | recovery depth code => (contentLines code).map fun line => indentAsLine line depth step

/-- What stands between the newlines of a row, each piece indented as a text of its own. -/
def indented (step : String) : Row → List String
  | line depth text => (pieces text).map fun piece => indent piece depth step
  | blank => [""]
  | recovery depth code => (contentLines code).map fun piece => indent piece depth step

/-- The row one loop further in. -/
def deeper : Row → Row
  | line depth text => line (depth + 1) text
  | blank => blank
  | recovery depth code => recovery (depth + 1) code

theorem indented_deeper {step : String} (unbroken : Unbroken step.toList) (row : Row) :
    row.deeper.indented step = (row.indented step).map fun piece => indent piece 1 step := by
  have once : (fun piece : String => indent piece 1 step) "" = "" := by
    apply String.toList_injective
    exact toList_indent "" 1 step
  cases row with
  | line depth text =>
      simp only [deeper, indented, List.map_map]
      exact List.map_congr_left fun piece _ => indent_succ unbroken piece depth
  | blank => exact (congrArg (fun text => [text]) once).symm
  | recovery depth code =>
      simp only [deeper, indented, List.map_map]
      exact List.map_congr_left fun piece _ => indent_succ unbroken piece depth

theorem newline_not_mem_indented {step : String} (unbroken : Unbroken step.toList) (row : Row) :
    ∀ piece ∈ row.indented step, '\n' ∉ piece.toList := by
  cases row with
  | line depth text =>
      exact List.forall_mem_map.2 fun _ listed =>
        newline_not_mem_indent unbroken (newline_not_mem_cut listed) depth
  | blank => exact List.forall_mem_singleton.2 List.not_mem_nil
  | recovery depth code =>
      exact List.forall_mem_map.2 fun _ listed =>
        newline_not_mem_indent unbroken (newline_not_mem_cut listed) depth

end Row

mutual

theorem Statement.rows_succ (depth : Nat) (statement : Statement) :
    statement.rows (depth + 1) = (statement.rows depth).map Row.deeper := by
  cases statement with
  | loop index array length body =>
      rw [Statement.rows, Statement.rows, Fragment.rows_succ (depth + 1) body, List.map_append,
        List.map_append]
      rfl
  | _ => rfl

theorem Fragment.rows_succ (depth : Nat) (fragment : List Statement) :
    Fragment.rows (depth + 1) fragment = (Fragment.rows depth fragment).map Row.deeper := by
  cases fragment with
  | nil => rfl
  | cons statement rest =>
      rw [Fragment.rows, Fragment.rows, Statement.rows_succ depth statement,
        Fragment.rows_succ depth rest, List.map_append]

end

theorem Fragment.indented_rows_succ {step : String} (unbroken : Unbroken step.toList)
    (depth : Nat) (fragment : Fragment) :
    (rows (depth + 1) fragment).flatMap (Row.indented step) =
      ((rows depth fragment).flatMap (Row.indented step)).map fun piece =>
        indent piece 1 step := by
  rw [Fragment.rows_succ, List.flatMap_map, List.map_flatMap]
  congr 1
  funext row
  exact row.indented_deeper unbroken

/-! ### The printed text -/

/-- The printed text of the statement ends with a closing brace. -/
def Statement.endsBraced : Statement → Bool
  | append _ _ _ _ => true
  | openContainer _ _ _ _ _ => true
  | closeContainer _ _ _ => true
  | loop _ _ _ _ => true
  | _ => false

/-- The body of a loop ends with a closing brace. -/
def Statement.BodyEnds : Statement → Prop
  | loop _ _ _ body => ∃ last ∈ body.getLast?, last.endsBraced = true
  | _ => True

section

variable {step : String} {texts : List String}

theorem Fragment.exists_of_lines_cons {statement : Statement} {rest : Fragment}
    (printed : Fragment.lines step (statement :: rest) = .ok texts) :
    ∃ first others, statement.lines step = .ok first ∧ Fragment.lines step rest = .ok others ∧
      texts = first ++ others := by
  rw [Fragment.lines] at printed
  cases own : statement.lines step with
  | error fault =>
      rw [own] at printed
      cases printed
  | ok first =>
      cases later : Fragment.lines step rest with
      | error fault =>
          rw [own, later] at printed
          cases printed
      | ok others =>
          rw [own, later] at printed
          cases printed
          exact ⟨first, others, rfl, rfl, rfl⟩

theorem Statement.exists_of_lines_loop {index array : VarName} {length : Option VarName}
    {body : Fragment} (printed : (Statement.loop index array length body).lines step = .ok texts) :
    ∃ inner, Fragment.lines step body = .ok inner ∧
      texts = [Statement.loopHead index array length] ++
        contentLines (indent (joinLines inner) 1 step) ++ ["\x7d"] := by
  rw [Statement.lines] at printed
  cases own : Fragment.lines step body with
  | error fault =>
      rw [own] at printed
      cases printed
  | ok inner =>
      rw [own] at printed
      cases printed
      exact ⟨inner, rfl, rfl⟩

theorem Statement.getLast?_lines {statement : Statement} (braced : statement.endsBraced = true)
    (printed : statement.lines step = .ok texts) : texts.getLast? = some "\x7d" := by
  cases statement with
  | append | openContainer | closeContainer =>
      cases printed
      exact List.getLast?_concat
  | loop index array length body =>
      obtain ⟨inner, -, rfl⟩ := Statement.exists_of_lines_loop printed
      exact List.getLast?_concat
  | _ => cases braced

theorem Fragment.getLast?_lines {fragment : Fragment} {last : Statement}
    (ends : fragment.getLast? = some last) (braced : last.endsBraced = true)
    (printed : Fragment.lines step fragment = .ok texts) : texts.getLast? = some "\x7d" := by
  induction fragment generalizing texts with
  | nil => cases ends
  | cons statement rest ih =>
      obtain ⟨first, others, own, later, rfl⟩ := Fragment.exists_of_lines_cons printed
      cases rest with
      | nil =>
          cases ends
          cases later
          rw [List.append_nil]
          exact Statement.getLast?_lines braced own
      | cons next more =>
          rw [List.getLast?_append, ih ends later]
          rfl

end

/-- A line outside of all loops is not indented. -/
theorem flatMap_pieces_singleton (step text : String) :
    [text].flatMap pieces = [Row.line 0 text].flatMap (Row.indented step) := by
  have same : (fun piece : String => indent piece (0 : Nat) step) = id := rfl
  rw [List.flatMap_singleton, List.flatMap_singleton, Row.indented, same, List.map_id]

theorem Statement.flatMap_pieces_recoveryLines {step : String} (unbroken : Unbroken step.toList)
    (code : String) :
    (recoveryLines step code).flatMap pieces =
      [Row.recovery 1 code].flatMap (Row.indented step) := by
  rw [recoveryLines, flatMap_pieces_contentLines, List.flatMap_singleton]
  exact contentLines_indent unbroken code 1

theorem Statement.flatMap_pieces_checkedCall {step : String} (unbroken : Unbroken step.toList)
    (call code : String) :
    (checkedCall step call code).flatMap pieces =
      [Row.line 0 (callHead call), .recovery 1 code, .line 0 "\x7d"].flatMap
        (Row.indented step) := by
  rw [checkedCall, List.flatMap_append, List.flatMap_append, flatMap_pieces_singleton step,
    flatMap_pieces_singleton step, flatMap_pieces_recoveryLines unbroken, ← List.flatMap_append,
    ← List.flatMap_append]
  rfl

/-- The body of a loop is printed, and then indented as one text. -/
theorem Statement.flatMap_pieces_loop {step : String} (unbroken : Unbroken step.toList)
    (index array : VarName) (length : Option VarName) (body : Fragment) {inner : List String}
    (closed : inner.getLast? = some "\x7d")
    (printed : inner.flatMap pieces = (Fragment.rows 0 body).flatMap (Row.indented step)) :
    ([loopHead index array length] ++ contentLines (indent (joinLines inner) 1 step) ++
        ["\x7d"]).flatMap pieces =
      ((loop index array length body).rows 0).flatMap (Row.indented step) := by
  -- The body is printed as if it stood outside of the loop, and then moved in by one step.
  have moved : contentLines (indent (joinLines inner) 1 step) =
      (contentLines (joinLines inner)).map fun piece => indent piece 1 step :=
    contentLines_indent unbroken (joinLines inner) 1
  rw [List.flatMap_append, List.flatMap_append, flatMap_pieces_contentLines, moved,
    contentLines_joinLines closed, printed, ← Fragment.indented_rows_succ unbroken,
    flatMap_pieces_singleton step, flatMap_pieces_singleton step, Statement.rows,
    List.flatMap_append, List.flatMap_append]
  rfl

mutual

/-- A statement is printed as the rows of a pass over it. -/
theorem Statement.flatMap_pieces_lines {step : String} (unbroken : Unbroken step.toList)
    (statement : Statement) (ends : ∀ inner ∈ statement.walk, inner.BodyEnds)
    {texts : List String} (printed : statement.lines step = .ok texts) :
    texts.flatMap pieces = (statement.rows 0).flatMap (Row.indented step) := by
  cases statement with
  | loop index array length body =>
      obtain ⟨inner, own, rfl⟩ := Statement.exists_of_lines_loop printed
      obtain ⟨⟨last, isLast, braced⟩, insideEnds⟩ := List.forall_mem_cons.1 ends
      exact Statement.flatMap_pieces_loop unbroken index array length body
        (Fragment.getLast?_lines isLast braced own)
        (Fragment.flatMap_pieces_lines unbroken body insideEnds own)
  | append | openContainer | closeContainer =>
      cases printed
      exact Statement.flatMap_pieces_checkedCall unbroken _ _
  | recovery code =>
      rw [← Except.ok.inj printed]
      exact Statement.flatMap_pieces_recoveryLines unbroken code
  | stray text => cases printed
  | comment | declare | assign | readField | blank =>
      cases printed
      exact flatMap_pieces_singleton step _

theorem Fragment.flatMap_pieces_lines {step : String} (unbroken : Unbroken step.toList)
    (fragment : List Statement) (ends : ∀ inner ∈ Fragment.walk fragment, inner.BodyEnds)
    {texts : List String} (printed : Fragment.lines step fragment = .ok texts) :
    texts.flatMap pieces = (Fragment.rows 0 fragment).flatMap (Row.indented step) := by
  cases fragment with
  | nil =>
      cases printed
      rfl
  | cons statement rest =>
      obtain ⟨first, others, own, later, rfl⟩ := Fragment.exists_of_lines_cons printed
      obtain ⟨firstEnds, othersEnd⟩ := List.forall_mem_append.1 ends
      rw [List.flatMap_append, Statement.flatMap_pieces_lines unbroken statement firstEnds own,
        Fragment.flatMap_pieces_lines unbroken rest othersEnd later, Fragment.rows,
        List.flatMap_append]

end

/-- A fragment is printed as the rows of a pass over it. -/
theorem Fragment.render_eq_rows {step : String} (unbroken : Unbroken step.toList)
    {fragment : Fragment} (ends : ∀ inner ∈ walk fragment, inner.BodyEnds) {code : String}
    (printed : fragment.render step = .ok code) :
    code = joinLines ((rows 0 fragment).flatMap (Row.indented step)) := by
  unfold Fragment.render at printed
  cases own : Fragment.lines step fragment with
  | error fault =>
      rw [own] at printed
      cases printed
  | ok texts =>
      rw [own] at printed
      cases printed
      rw [← Fragment.flatMap_pieces_lines unbroken fragment ends own, joinLines, joinLines,
        joinNewlines_flatMap_pieces]

/-! ### Where rows come from -/

/-- The row tells of one of the statements. A line of code is never blank, and recovery code stands
deeper than the code around it. -/
def Row.TellsOf (statements : List Statement) : Row → Prop
  | line _ text => text.toList.all isBlank = false ∧
      (text = "\x7d" ∨ ∃ statement ∈ statements, text = statement.head)
  | blank => True
  | recovery depth code => 0 < depth ∧ .recovery code ∈ statements

theorem Row.TellsOf.mono {statements others : List Statement} (more : statements ⊆ others)
    {row : Row} (tells : row.TellsOf statements) : row.TellsOf others := by
  cases row with
  | line depth text =>
      obtain ⟨inked, braced | ⟨statement, listed, same⟩⟩ := tells
      · exact ⟨inked, Or.inl braced⟩
      · exact ⟨inked, Or.inr ⟨statement, more listed, same⟩⟩
  | blank => trivial
  | recovery depth code => exact ⟨tells.1, more tells.2⟩

theorem Row.tellsOf_brace (depth : Nat) (statements : List Statement) :
    (line depth "\x7d").TellsOf statements :=
  ⟨by decide, Or.inl rfl⟩

theorem Text.inked_append (first : String) {second : String}
    (inked : second.toList.all isBlank = false) :
    (first ++ second).toList.all isBlank = false := by
  rw [String.toList_append, List.all_append, inked, Bool.and_false]

/-- The statement begins with a line of its own. -/
def Statement.hasHead : Statement → Bool
  | blank => false
  | recovery _ => false
  | stray _ => false
  | _ => true

theorem Statement.inked_head {statement : Statement} (own : statement.hasHead = true) :
    statement.head.toList.all isBlank = false := by
  have first : ∀ call, (callHead call).toList.all isBlank = false :=
    fun call => Text.inked_append _ (by decide)
  cases statement with
  | comment | declare | assign | readField | loop =>
      rw [head]
      exact Text.inked_append _ (by decide)
  | append | openContainer | closeContainer => exact first _
  | _ => cases own

theorem Statement.tellsOf_head {statement : Statement} {statements : List Statement}
    (own : statement.hasHead = true) (listed : statement ∈ statements) (depth : Nat) :
    (Row.line depth statement.head).TellsOf statements :=
  ⟨inked_head own, Or.inr ⟨statement, listed, rfl⟩⟩

theorem Statement.tellsOf_call {statement : Statement} {code : String}
    (own : statement.hasHead = true)
    (walked : statement.walk = [statement, .recovery code]) (depth : Nat) :
    ∀ row ∈ [Row.line depth statement.head, .recovery (depth + 1) code, .line depth "\x7d"],
      row.TellsOf statement.walk := by
  rw [walked]
  have carried : Statement.recovery code ∈ [statement, .recovery code] :=
    List.mem_cons_of_mem _ List.mem_cons_self
  refine List.forall_mem_cons.2 ⟨tellsOf_head own List.mem_cons_self depth, ?_⟩
  refine List.forall_mem_cons.2 ⟨⟨Nat.succ_pos depth, carried⟩, ?_⟩
  exact List.forall_mem_singleton.2 (Row.tellsOf_brace depth _)

mutual

theorem Statement.tellsOf_of_mem_rows (depth : Nat) (statement : Statement) :
    ∀ row ∈ statement.rows depth, row.TellsOf statement.walk := by
  cases statement with
  | append | openContainer | closeContainer =>
      exact Statement.tellsOf_call rfl rfl depth
  | loop index array length body =>
      have head := Statement.tellsOf_head rfl
        (List.mem_cons_self : _ ∈ (Statement.loop index array length body).walk) depth
      have inside := Fragment.tellsOf_of_mem_rows (depth + 1) body
      rw [Statement.rows]
      refine List.forall_mem_append.2 ⟨List.forall_mem_append.2 ⟨?_, ?_⟩, ?_⟩
      · exact List.forall_mem_singleton.2 head
      · exact fun row listed => (inside row listed).mono (List.subset_cons_self _ _)
      · exact List.forall_mem_singleton.2 (Row.tellsOf_brace depth _)
  | recovery code =>
      exact List.forall_mem_singleton.2 ⟨Nat.succ_pos depth, List.mem_cons_self⟩
  | blank => exact List.forall_mem_singleton.2 trivial
  | stray text => exact List.forall_mem_nil _
  | comment | declare | assign | readField =>
      exact List.forall_mem_singleton.2
        (Statement.tellsOf_head rfl List.mem_cons_self depth)

theorem Fragment.tellsOf_of_mem_rows (depth : Nat) (fragment : List Statement) :
    ∀ row ∈ Fragment.rows depth fragment, row.TellsOf (Fragment.walk fragment) := by
  cases fragment with
  | nil => exact List.forall_mem_nil _
  | cons statement rest =>
      have first := Statement.tellsOf_of_mem_rows depth statement
      have others := Fragment.tellsOf_of_mem_rows depth rest
      refine List.forall_mem_append.2 ⟨?_, ?_⟩
      · exact fun row listed => (first row listed).mono (List.subset_append_left _ _)
      · exact fun row listed => (others row listed).mono (List.subset_append_right _ _)

end

/-! ### Rows of several lines -/

/-- A row whose text is a line, or whose recovery code has no other line boundary than the newline,
is printed line by line. -/
def Row.Flat : Row → Prop
  | line _ text => Unbroken text.toList
  | blank => True
  | recovery _ code => BrokenByNewlines code.toList

theorem Row.indented_of_flat {statements : List Statement} {row : Row}
    (tells : row.TellsOf statements) (flat : row.Flat) (step : String) :
    row.indented step = row.printed step := by
  cases row with
  | line depth text =>
      have absent : '\n' ∉ text.toList := fun listed => absurd (flat '\n' listed) (by decide)
      rw [indented, pieces_of_not_mem absent, List.map_singleton, indent_of_unbroken flat,
        indentAsLine, if_neg (Bool.eq_false_iff.1 tells.1)]
      rfl
  | blank => rfl
  | recovery depth code =>
      exact List.map_congr_left fun line listed =>
        indent_of_unbroken (unbroken_of_mem_contentLines flat listed) depth step

theorem Row.unbroken_of_mem_printed {step : String} (unbroken : Unbroken step.toList) {row : Row}
    (flat : row.Flat) : ∀ text ∈ row.printed step, Unbroken text.toList := by
  cases row with
  | line depth text =>
      rw [printed, List.forall_mem_singleton, String.toList_append, toList_join_replicate]
      exact (unbroken_append_iff _ _).2 ⟨unbroken_copies unbroken depth, flat⟩
  | blank => exact List.forall_mem_singleton.2 (List.forall_mem_nil _)
  | recovery depth code =>
      intro text listed
      obtain ⟨piece, isPiece, rfl⟩ := List.mem_map.1 listed
      have inside := unbroken_of_mem_contentLines flat isPiece
      unfold indentAsLine
      split
      · exact inside
      · rw [String.toList_append, toList_join_replicate]
        exact (unbroken_append_iff _ _).2 ⟨unbroken_copies unbroken depth, inside⟩

/-- Recovery code is printed line by line exactly when, between two of its newlines, only blanks
stand behind any other line boundary. -/
theorem Row.indented_recovery_iff {step : String} (unbroken : Unbroken step.toList) {depth : Nat}
    (positive : 0 < depth) (code : String) :
    (recovery depth code).indented step = (recovery depth code).printed step ↔
      step = "" ∨ ∀ piece ∈ contentLines code, ∀ line ∈ (lines piece.toList).tail,
        line.all isBlank = true := by
  rw [indented, printed, List.map_inj_left]
  by_cases empty : step = ""
  · rw [empty]
    simp only [true_or, iff_true]
    exact fun piece _ => indent_empty piece depth
  · rw [or_iff_right empty]
    exact forall₂_congr fun piece _ => indent_eq_indentAsLine_iff unbroken positive empty piece

end DBusMarshal
