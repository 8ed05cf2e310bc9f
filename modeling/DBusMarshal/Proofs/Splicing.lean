import DBusMarshal.Proofs.LineTexts
import DBusMarshal.Proofs.Printing

/-!
The text of generated code, and the recovery code in it.

Generated code is printed by counting loops: each line stands behind as many indentations as there
are loops around it, and the recovery code of a call behind one more. For lines without line
boundaries of their own this is all there is to it. Recovery code comes from the caller, and other
characters than newlines may end lines in it; then the indentation goes in behind these as well,
also where they stand inside a string literal.
-/

set_option autoImplicit false

namespace DBusMarshal

open Text (Unbroken)

/-! ### What generated code is made of -/

/-- Recovery code is the code of the caller. -/
def Statement.RecoversBy (recovery : String) : Statement → Prop
  | .recovery code => code = recovery
  | _ => True

namespace Node

section

variable (options : Options) (recovery : String) {node : Node}

theorem Marshallable.recoversBy_code (marshallable : node.Marshallable) (iter name : VarName) :
    ∀ statement ∈ Fragment.walk (node.code options recovery iter name),
      statement.RecoversBy recovery := by
  induction marshallable using Marshallable.byKind generalizing iter name with
  | basic code known =>
      intro statement listed
      simp only [Node.code, Fragment.walk, Statement.walk, List.append_nil, List.cons_append,
        List.nil_append, List.mem_cons, List.not_mem_nil, or_false] at listed
      rcases listed with same | same | same <;> rw [same] <;> trivial
  | array element inside ih =>
      refine Fragment.forall_walk_arrayCode trivial trivial rfl trivial trivial trivial ?_ ?_
        (ih _ _)
      · exact Fragment.forall_walk_map _ _ (fun _ => rfl) (fun _ _ => trivial)
      · exact Fragment.forall_walk_map _ _ (fun _ => rfl) (fun _ _ => trivial)
  | group node marshallable isGroup ih =>
      rw [code_of_isGroup options recovery isGroup, groupCode]
      refine Fragment.forall_walk_container trivial trivial trivial trivial rfl
        (Fragment.forall_walk_codeAll 0 trivial ?_ ?_)
      · intro index member _
        exact Fragment.forall_walk_map _ _ (fun _ => rfl) (fun _ _ => trivial)
      · exact fun index member found => ih member (List.mem_of_getElem? found) _ _

/-- The code for a variable ends with a call. -/
theorem Marshallable.code_ends (marshallable : node.Marshallable) (iter name : VarName) :
    ∃ last ∈ (node.code options recovery iter name).getLast?, last.endsBraced = true := by
  induction marshallable using Marshallable.byKind with
  | basic code known => exact ⟨_, rfl, rfl⟩
  | array element inside _ => exact ⟨_, rfl, rfl⟩
  | group node marshallable isGroup _ =>
      rw [code_of_isGroup options recovery isGroup, groupCode]
      exact ⟨_, List.getLast?_concat, rfl⟩

theorem loopBody_ends {element : Node} {name : VarName} {code : Fragment}
    (ends : ∃ last ∈ code.getLast?, last.endsBraced = true) :
    ∃ last ∈ (loopBody options element name code).getLast?, last.endsBraced = true := by
  obtain ⟨last, isLast, braced⟩ := ends
  refine ⟨last, ?_, braced⟩
  rw [loopBody, List.getLast?_append, Option.mem_def.1 isLast]
  rfl

theorem Marshallable.bodyEnds_code (marshallable : node.Marshallable) (iter name : VarName) :
    ∀ statement ∈ Fragment.walk (node.code options recovery iter name), statement.BodyEnds := by
  intro statement listed
  have inside := marshallable.loopsInside_code options recovery .whole iter statement listed
  cases statement with
  | loop index source length body =>
      obtain ⟨element, stands, _, _, rfl⟩ := inside
      cases stands.marshallable marshallable with
      | array ofElement => exact loopBody_ends options (ofElement.code_ends options recovery _ _)
  | _ => trivial

end

end Node

namespace Node

theorem Marshallable.rows_code_ne_nil {node : Node} (marshallable : node.Marshallable)
    (options : Options) (recovery : String) (iter name : VarName) (printed : Row → List String)
    (filled : ∀ text, printed (.line 0 text) ≠ []) :
    (Fragment.rows 0 (node.code options recovery iter name)).flatMap printed ≠ [] := by
  obtain ⟨note, rest, same⟩ : ∃ note rest,
      node.code options recovery iter name = .comment note :: rest := by
    induction marshallable using Marshallable.byKind with
    | basic code known => exact ⟨_, _, rfl⟩
    | array element inside _ => exact ⟨_, _, rfl⟩
    | group node marshallable isGroup _ =>
        rw [code_of_isGroup options recovery isGroup]
        exact ⟨_, _, rfl⟩
  have first : (Row.line 0 (Statement.comment note).head) ∈
      Fragment.rows 0 (node.code options recovery iter name) := by
    rw [same]
    exact List.mem_cons_self
  intro none
  exact filled _ (List.flatMap_eq_nil_iff.1 none _ first)

end Node

namespace Fragment

/-- Where the parts of its lines are unbroken, and nothing but newlines ends a line of its recovery
code, a fragment is printed line by line. -/
theorem Even.flat_rows {fragment : Fragment} (even : fragment.Even) {recovery : String}
    (recovers : ∀ statement ∈ walk fragment, statement.RecoversBy recovery)
    (newlines : Text.BrokenByNewlines recovery.toList) :
    ∀ row ∈ rows 0 fragment, row.Flat := by
  intro row listed
  have tells := tellsOf_of_mem_rows 0 fragment row listed
  cases row with
  | line depth line =>
      rcases tells.2 with braced | ⟨statement, walked, same⟩
      · rw [braced]
        exact (by decide : Unbroken "\x7d".toList)
      · rw [same]
        exact (even statement walked).head
  | blank => trivial
  | recovery depth spliced =>
      have same : spliced = recovery := recovers _ tells.2
      rw [same]
      exact newlines

theorem indented_rows_of_flat {fragment : Fragment}
    (flat : ∀ row ∈ rows 0 fragment, row.Flat) (step : String) :
    (rows 0 fragment).flatMap (Row.indented step) =
      (rows 0 fragment).flatMap (Row.printed step) := by
  rw [List.flatMap_def, List.flatMap_def, List.map_congr_left fun row listed =>
    Row.indented_of_flat (tellsOf_of_mem_rows 0 fragment row listed) (flat row listed) step]

end Fragment

section

variable {text : String} {node : Node} {options : Options} {iter name : GivenName}
  {iterName varName : VarName}

theorem exists_printed (marshallable : node.Marshallable) (read : Node.read text = .ok node)
    (step : Unbroken options.indentStep.toList) (recovery : String)
    (iterGiven : iter.resolve = some iterName) (nameGiven : name.resolve = some varName) :
    ∃ generated code,
      generate options (.signature text) iter name (some recovery) = .ok generated ∧
      generated.fragment = node.code options recovery iterName varName ∧
      generated.code = .ok code ∧
      code = joinLines ((Fragment.rows 0 generated.fragment).flatMap
        (Row.indented options.indentStep)) := by
  have ended := (generate_of_read read).trans
    (marshallable.generate options recovery iterGiven nameGiven)
  obtain ⟨code, printed⟩ := exists_code_of_generate ended
  exact ⟨_, code, ended, rfl, printed, Fragment.render_eq_rows step
    (marshallable.bodyEnds_code options recovery iterName varName) printed⟩

/-- Where names bring in no line boundaries and recovery code none but newlines, generated code is
printed in one pass that counts the loops, and its lines are the printed ones. -/
theorem generated_printed (read : Node.read text = .ok node) (plain : node.hasVariant = false)
    (iterGiven : iter.resolve = some iterName) (nameGiven : name.resolve = some varName)
    (iterUnbroken : Unbroken iterName.text.toList) (nameUnbroken : Unbroken varName.text.toList)
    (names : options.NamesUnbroken node) (step : Unbroken options.indentStep.toList)
    {recovery : String} (newlines : Text.BrokenByNewlines recovery.toList) :
    ∃ generated code,
      generate options (.signature text) iter name (some recovery) = .ok generated ∧
      generated.code = .ok code ∧
      code = joinLines ((Fragment.rows 0 generated.fragment).flatMap
        (Row.printed options.indentStep)) ∧
      Text.lines code.toList =
        ((Fragment.rows 0 generated.fragment).flatMap (Row.printed options.indentStep)).map
          fun line => line.toList ++ ['\n'] := by
  have marshallable := Node.marshallable_of_read read plain
  obtain ⟨generated, code, ended, fragment, printed, spelt⟩ :=
    exists_printed marshallable read step recovery iterGiven nameGiven
  have even := marshallable.even_code names recovery iterUnbroken nameUnbroken
  have recovers := marshallable.recoversBy_code options recovery iterName varName
  rw [← fragment] at even recovers
  have flat := even.flat_rows recovers newlines
  rw [Fragment.indented_rows_of_flat flat] at spelt
  have filled := marshallable.rows_code_ne_nil options recovery iterName varName
    (Row.printed options.indentStep) (fun _ => List.cons_ne_nil _ _)
  rw [← fragment] at filled
  refine ⟨generated, code, ended, printed, spelt, ?_⟩
  rw [spelt]
  apply Text.lines_joinLines filled
  intro line listed
  obtain ⟨row, isRow, inRow⟩ := List.mem_flatMap.1 listed
  exact Row.unbroken_of_mem_printed step (flat row isRow) line inRow

/-- Between newlines, the recovery code of every call is the code of the caller, each piece indented
as a text of its own. So the indentation goes in behind all other line boundaries too, and stays
in front of the pieces exactly when nothing but blanks stands behind such a boundary. -/
theorem generated_spliced (read : Node.read text = .ok node) (plain : node.hasVariant = false)
    (step : Unbroken options.indentStep.toList) (recovery : String)
    (iterGiven : iter.resolve = some iterName) (nameGiven : name.resolve = some varName) :
    ∃ generated code,
      generate options (.signature text) iter name (some recovery) = .ok generated ∧
      generated.code = .ok code ∧
      Text.pieces code = (Fragment.rows 0 generated.fragment).flatMap
        (Row.indented options.indentStep) ++ [""] ∧
      ∀ depth spliced, .recovery depth spliced ∈ Fragment.rows 0 generated.fragment →
        spliced = recovery ∧ 0 < depth ∧
        ((Row.recovery depth recovery).indented options.indentStep =
            (Row.recovery depth recovery).printed options.indentStep ↔
          options.indentStep = "" ∨ ∀ piece ∈ Text.contentLines recovery,
            ∀ line ∈ (Text.lines piece.toList).tail, line.all Text.isBlank = true) := by
  have marshallable := Node.marshallable_of_read read plain
  obtain ⟨generated, code, ended, fragment, printed, spelt⟩ :=
    exists_printed marshallable read step recovery iterGiven nameGiven
  have recovers := marshallable.recoversBy_code options recovery iterName varName
  rw [← fragment] at recovers
  refine ⟨generated, code, ended, printed, ?_, ?_⟩
  · have filled := marshallable.rows_code_ne_nil options recovery iterName varName
      (Row.indented options.indentStep) (fun line => by simp [Row.indented, Text.pieces_ne_nil])
    rw [← fragment] at filled
    rw [spelt]
    apply Text.pieces_joinLines filled
    intro piece listed
    obtain ⟨row, _, inRow⟩ := List.mem_flatMap.1 listed
    exact row.newline_not_mem_indented step piece inRow
  · intro depth spliced listed
    have tells := Fragment.tellsOf_of_mem_rows 0 generated.fragment _ listed
    exact ⟨recovers _ tells.2, tells.1, Row.indented_recovery_iff step tells.1 recovery⟩

end

/-- A loop in a loop, and recovery code of several lines with an empty one among them. -/
theorem generated_printed_table :
    ∃ generated code,
      generate {} (.signature "a(a\x7bsad\x7di)") (.text "iter") (.text "table")
        (some "/* give up */\n\nreturn -1;\n\n") = .ok generated ∧
      generated.code = .ok code ∧
      code = joinLines ((Fragment.rows 0 generated.fragment).flatMap (Row.printed "\t")) ∧
      Text.lines code.toList =
        ((Fragment.rows 0 generated.fragment).flatMap (Row.printed "\t")).map
          fun line => line.toList ++ ['\n'] := by
  have sound : Options.Sound {} := ⟨by decide, by decide⟩
  have names := sound.namesUnbroken (Node.marshallable_of_read read_tableType rfl)
  exact generated_printed read_tableType rfl (GivenName.resolve_text (by decide))
    (GivenName.resolve_text (by decide)) (by decide) (by decide) names (by decide) (by decide)

/-- A line separator in a string literal. -/
theorem generated_spliced_separator :
    ∃ generated code,
      generate {} (.signature "s") (.text "iter") (.text "foo")
        (some "puts (\"a\u2028b\");\nreturn -1;\n") = .ok generated ∧
      generated.code = .ok code ∧
      Text.pieces code = (Fragment.rows 0 generated.fragment).flatMap (Row.indented "\t") ++ [""] ∧
      ∀ depth spliced, .recovery depth spliced ∈ Fragment.rows 0 generated.fragment →
        spliced = "puts (\"a\u2028b\");\nreturn -1;\n" ∧ 0 < depth ∧
        ((Row.recovery depth "puts (\"a\u2028b\");\nreturn -1;\n").indented "\t" =
            (Row.recovery depth "puts (\"a\u2028b\");\nreturn -1;\n").printed "\t" ↔
          "\t" = "" ∨ ∀ piece ∈ Text.contentLines "puts (\"a\u2028b\");\nreturn -1;\n",
            ∀ line ∈ (Text.lines piece.toList).tail, line.all Text.isBlank = true) :=
  generated_spliced (by rfl : Node.read "s" = .ok (.basic "s")) rfl (by decide) _
    (GivenName.resolve_text (by decide)) (GivenName.resolve_text (by decide))

/-- The indentation ends up inside the string literal. -/
theorem separator_indented :
    ∃ generated code,
      generate {} (.signature "s") (.text "iter") (.text "foo")
        (some "puts (\"a\u2028b\");\nreturn -1;\n") = .ok generated ∧
      generated.code = .ok code ∧
      "\tputs (\"a\u2028\tb\");" ∈ Text.pieces code ∧
      Text.pieces code ≠
        (Fragment.rows 0 generated.fragment).flatMap (Row.printed "\t") ++ [""] := by
  refine ⟨_, _, rfl, rfl, ?_, ?_⟩
  · decide +kernel
  · decide +kernel

end DBusMarshal
