import DBusMarshal.Proofs.Confinement
import DBusMarshal.Proofs.Outcomes
import DBusMarshal.Proofs.Typing

/-!
When the iterator of the caller is captured.

Inside generation names are compared with their parts, and in the C text they are compared letter by
letter. So the iterator of the caller may be spelt like a variable of the fragment. It is exactly
when it is spelt like the name of the value followed by the path of a derived variable.
-/

set_option autoImplicit false

namespace DBusMarshal

namespace Node

/-! ### The paths of derived variables -/

mutual

/-- The paths from a variable to all variables that generated code introduces for it, the variable
itself included. -/
def derivedPaths : Node → List (List Segment)
  | array element =>
    (array element).paths ++ [[.iter], [.index]] ++ element.derivedPaths.map (.element :: ·)
  | struct members => [] :: [.iter] :: derivedPathsAll members 0
  | entry key value =>
    [] :: [.iter] :: (key.derivedPaths.map (.item 0 :: ·) ++ value.derivedPaths.map (.item 1 :: ·))
  | _ => [[]]

def derivedPathsAll (members : List Node) (position : Nat) : List (List Segment) :=
  match members with
  | [] => []
  | member :: rest =>
    member.derivedPaths.map (.item position :: ·) ++ derivedPathsAll rest (position + 1)

end

theorem derivedPaths_of_isGroup {node : Node} (group : node.isGroup = true) :
    node.derivedPaths = [] :: [.iter] :: derivedPathsAll node.children 0 := by
  cases node with
  | struct members => rfl
  | entry key value => simp [derivedPaths, children, derivedPathsAll]
  | _ => cases group

section

variable (options : Options) (recovery : String)

theorem map_append_cons (paths : List (List Segment)) (name : VarName) (segment : Segment) :
    (paths.map (segment :: ·)).map name.append = paths.map (name.child segment).append := by
  rw [List.map_map]
  apply List.map_congr_left
  intro path _
  exact (VarName.child_append name segment path).symm

theorem mem_introducedAll_iff (inner name other : VarName) {members : List Node}
    (ih : ∀ member ∈ members, ∀ iter origin other : VarName,
      other ∈ (member.introduced options recovery iter origin).map TypedVar.name ↔
        other ∈ member.derivedPaths.map origin.append)
    (position : Nat) :
    other ∈ (introducedAll options recovery members inner name position).map TypedVar.name ↔
      other ∈ (derivedPathsAll members position).map name.append := by
  induction members generalizing position with
  | nil => rfl
  | cons member rest ihRest =>
      have first := ih member List.mem_cons_self inner (name.child (.item position)) other
      have others := ihRest (fun later listed => ih later (List.mem_cons_of_mem _ listed))
        (position + 1)
      rw [derivedPathsAll, List.map_append, map_append_cons, List.mem_append, ← first, ← others]
      simp only [List.mem_map, mem_introducedAll, or_and_right, exists_or]

/-- The variables that are introduced for a name stand at the ends of the derived paths. -/
theorem Marshallable.mem_introduced_iff {node : Node} (marshallable : node.Marshallable)
    (iter name other : VarName) :
    other ∈ (node.introduced options recovery iter name).map TypedVar.name ↔
      other ∈ node.derivedPaths.map name.append := by
  induction marshallable using Marshallable.byKind generalizing iter name other with
  | basic code known => rfl
  | array element inside ih =>
      have inner := ih (name.child .iter) (name.child .element) other
      rw [derivedPaths, List.map_append, List.map_append, map_append_cons, List.mem_append,
        List.mem_append, ← inner, ← map_name_inputs options (.array element)]
      simp only [List.mem_map, mem_introduced_array, or_and_right, exists_or]
      simp [VarName.child_eq_append, or_assoc, eq_comm]
  | group node marshallable isGroup ih =>
      have members := mem_introducedAll_iff options recovery (name.child .iter) name other ih 0
      rw [derivedPaths_of_isGroup isGroup, introduced, inputs_of_isGroup options isGroup,
        locals_of_isGroup options isGroup, code_of_isGroup options recovery isGroup,
        introduces_groupCode, List.map_cons, List.map_cons, List.mem_cons, List.mem_cons,
        ← members, VarName.append_nil, ← VarName.child_eq_append]
      simp [introducedAll]

end

end Node

/-! ### References -/

/-- The variables that a statement reads or sets, those in the body of a loop apart. -/
def Statement.mentions (statement : Statement) : List VarName := statement.reads ++ statement.sets

/-- A variable may be referred to: it has a value from outside or is in scope at a point, or it is
introduced behind the point. -/
def Point.Knows (point : Point) (introduced : List TypedVar) (name : VarName) : Prop :=
  name ∈ point.given ∨ name ∈ point.scope ∨ name ∈ introduced.map TypedVar.name

namespace Statement

variable {statement : Statement} {point : Point}

theorem WellScoped.knows_mentions (wellScoped : statement.WellScoped point) :
    ∀ name ∈ statement.mentions, point.Knows statement.introduces name := by
  intro name mentioned
  unfold WellScoped at wellScoped
  obtain ⟨holds, inScope, _⟩ := wellScoped
  rcases List.mem_append.1 mentioned with read | set
  · rcases holds name read with outside | ⟨inScope, _⟩
    · exact Or.inl outside
    · exact Or.inr (Or.inl inScope)
  · rcases List.mem_append.1 set with here | isIndex
    · rcases List.mem_append.1 here with written | declared
      · exact Or.inr (Or.inl (inScope name written))
      · exact Or.inr (Or.inr (mem_introduces_of_declares declared))
    · cases statement with
      | loop index array length body =>
          rw [List.mem_singleton.1 isIndex]
          exact Or.inr (Or.inr List.mem_cons_self)
      | _ => cases isIndex

theorem WellScoped.knows_carrying (wellScoped : statement.WellScoped point) (code : String) :
    ∀ inner ∈ [statement, .recovery code], ∀ name ∈ inner.mentions,
      point.Knows statement.introduces name := by
  intro inner listed
  rcases List.mem_cons.1 listed with same | isRecovery
  · subst same
    exact wellScoped.knows_mentions
  · rw [List.mem_singleton.1 isRecovery]
    exact List.forall_mem_nil _

end Statement

theorem Point.mem_scope_step {point : Point} {statement : Statement} {name : VarName}
    (inScope : name ∈ (point.step statement).scope) :
    name ∈ point.scope ∨ name ∈ statement.declares := by
  cases statement with
  | declare type other =>
      rcases List.mem_cons.1 inScope with same | before
      · exact Or.inr (List.mem_singleton.2 same)
      · exact Or.inl before
  | _ => exact Or.inl inScope

theorem Point.given_step (point : Point) (statement : Statement) :
    (point.step statement).given = point.given := by
  cases statement <;> rfl

mutual

theorem Statement.WellScoped.knows_walk {point : Point} (statement : Statement)
    (wellScoped : statement.WellScoped point) :
    ∀ inner ∈ statement.walk, ∀ name ∈ inner.mentions,
      point.Knows statement.introduces name := by
  cases statement with
  | loop index array length body =>
      intro inner listed name mentioned
      rcases List.mem_cons.1 listed with same | inBody
      · subst same
        exact wellScoped.knows_mentions name mentioned
      · rw [Statement.WellScoped] at wellScoped
        rcases Fragment.WellScoped.knows_walk body wellScoped.2.2 inner inBody name mentioned with
          given | inScope | introduced
        · rcases List.mem_cons.1 given with isIndex | outside
          · rw [isIndex]
            exact Or.inr (Or.inr List.mem_cons_self)
          · exact Or.inl outside
        · exact Or.inr (Or.inl inScope)
        · exact Or.inr (Or.inr (List.mem_cons_of_mem _ introduced))
  | append iter typeConst value recovery => exact wellScoped.knows_carrying recovery
  | openContainer iter typeConst signature opened recovery =>
      exact wellScoped.knows_carrying recovery
  | closeContainer iter opened recovery => exact wellScoped.knows_carrying recovery
  | _ => exact List.forall_mem_singleton.2 wellScoped.knows_mentions

theorem Fragment.WellScoped.knows_walk {point : Point} (fragment : List Statement)
    (wellScoped : Fragment.WellScoped point fragment) :
    ∀ inner ∈ Fragment.walk fragment, ∀ name ∈ inner.mentions,
      point.Knows (Fragment.introduces fragment) name := by
  cases fragment with
  | nil => exact List.forall_mem_nil _
  | cons statement rest =>
      intro inner listed name mentioned
      rw [Fragment.introduces, Point.Knows, List.map_append, List.mem_append]
      rcases List.mem_append.1 listed with first | later
      · rcases Statement.WellScoped.knows_walk statement wellScoped.1 inner first name mentioned
          with given | inScope | introduced
        · exact Or.inl given
        · exact Or.inr (Or.inl inScope)
        · exact Or.inr (Or.inr (Or.inl introduced))
      · rcases Fragment.WellScoped.knows_walk rest wellScoped.2 inner later name mentioned with
          given | inScope | introduced
        · rw [Point.given_step] at given
          exact Or.inl given
        · rcases Point.mem_scope_step inScope with before | declared
          · exact Or.inr (Or.inl before)
          · exact Or.inr (Or.inr (Or.inl (Statement.mem_introduces_of_declares declared)))
        · exact Or.inr (Or.inr (Or.inr introduced))

end

/-! ### The iterator of the caller -/

/-- A text is spelt like a variable that is derived from a name. -/
def Node.Captures (node : Node) (name text : String) : Prop :=
  ∃ path ∈ node.derivedPaths, text = name ++ pathText path

theorem Generated.mem_variables_of_knows {generated : Generated} {iter name : VarName}
    (known : (generated.entry iter).Knows (Fragment.introduces generated.fragment) name) :
    name = iter ∨ name ∈ generated.variables.map TypedVar.name := by
  rw [Generated.variables, List.map_append, List.map_append, List.mem_append, List.mem_append]
  rcases known with given | inScope | introduced
  · rcases List.mem_cons.1 given with isIter | isInput
    · exact Or.inl isIter
    · exact Or.inr (Or.inl isInput)
  · exact Or.inr (Or.inr (Or.inl inScope))
  · exact Or.inr (Or.inr (Or.inr introduced))

theorem Node.Marshallable.exists_variable_iff {node : Node} (marshallable : node.Marshallable)
    (options : Options) (recovery : String) (iter : VarName) {name text : String} :
    (∃ entry ∈ node.introduced options recovery iter { base := name }, entry.name.text = text) ↔
      node.Captures name text := by
  have introduced := marshallable.mem_introduced_iff options recovery iter { base := name }
  constructor
  · rintro ⟨entry, listed, same⟩
    obtain ⟨path, isPath, atEnd⟩ :=
      List.mem_map.1 ((introduced entry.name).1 (List.mem_map_of_mem listed))
    refine ⟨path, isPath, ?_⟩
    rw [← same, ← atEnd]
    rfl
  · rintro ⟨path, isPath, same⟩
    obtain ⟨entry, listed, atEnd⟩ := List.mem_map.1 ((introduced _).2 (List.mem_map_of_mem isPath))
    refine ⟨entry, listed, ?_⟩
    rw [atEnd, same]
    rfl

/-- Only a text that goes on behind the name with an underscore can be spelt like a variable
derived from it. -/
theorem Node.Captures.underscore {node : Node} {name text : String}
    (captures : node.Captures name text) (different : text ≠ name) :
    ∃ rest, text = name ++ "_" ++ rest := by
  obtain ⟨path, _, same⟩ := captures
  rcases pathText_toList path with none | ⟨rest, some⟩
  · have empty : pathText path = "" := String.toList_inj.1 none
    rw [empty, String.append_empty] at same
    exact absurd same different
  · refine ⟨String.ofList rest, ?_⟩
    apply String.toList_inj.1
    rw [same]
    simp [some]

/-- A variable of generated code is spelt like the iterator of the caller exactly when the iterator
is spelt like the name followed by the path of a derived variable, which takes an underscore behind
the name. Otherwise whatever is spelt like the iterator is the iterator. -/
theorem captured_iff {text : String} {node : Node} (read : Node.read text = .ok node)
    (plain : node.hasVariant = false) (options : Options) (recovery : String) {iter name : String}
    (iterNamed : iter ≠ "") (named : name ≠ "") (different : iter ≠ name) :
    ∃ generated,
      generate options (.signature text) (.text iter) (.text name) (some recovery) =
        .ok generated ∧
      ((∃ entry ∈ generated.variables, entry.name.text = iter) ↔ node.Captures name iter) ∧
      (node.Captures name iter → ∃ rest, iter = name ++ "_" ++ rest) ∧
      (¬ node.Captures name iter →
        ∀ statement ∈ Fragment.walk generated.fragment, ∀ other ∈ statement.mentions,
          other.text = iter → other = { base := iter }) := by
  have marshallable := Node.marshallable_of_read read plain
  have iterGiven := GivenName.resolve_text iterNamed
  have nameGiven := GivenName.resolve_text named
  let generated : Generated :=
    { signature := node.signature
      fragment := node.code options recovery { base := iter } { base := name }
      inputs := node.inputs options { base := name }
      locals := node.locals options { base := name }
      options }
  have spelt : (∃ entry ∈ generated.variables, entry.name.text = iter) ↔ node.Captures name iter :=
    marshallable.exists_variable_iff options recovery { base := iter }
  refine ⟨generated, (generate_of_read read).trans
    (marshallable.generate options recovery iterGiven nameGiven), spelt,
    fun captures => captures.underscore different, ?_⟩
  -- By scoping, what a statement refers to is the iterator of the caller or a variable.
  intro free statement listed other mentioned same
  have ready : node.Ready options { base := iter } { base := name }
      (generated.entry { base := iter }) := Node.ready_entry options rfl rfl
  have wellScoped := marshallable.wellScoped_code options recovery ready
  have known := Fragment.WellScoped.knows_walk _ wellScoped statement listed other mentioned
  rcases generated.mem_variables_of_knows known with isIter | isVariable
  · exact isIter
  · obtain ⟨entry, inVariables, named⟩ := List.mem_map.1 isVariable
    exact absurd (spelt.1 ⟨entry, inVariables, named ▸ same⟩) free

theorem captured_iff_table :
    ∃ generated,
      generate {} (.signature "a(a{sad}i)") (.text "table_iter2") (.text "table")
        (some "return FALSE;") = .ok generated ∧
      ((∃ entry ∈ generated.variables, entry.name.text = "table_iter2") ↔
        tableType.Captures "table" "table_iter2") ∧
      (tableType.Captures "table" "table_iter2" →
        ∃ rest, "table_iter2" = "table" ++ "_" ++ rest) ∧
      (¬ tableType.Captures "table" "table_iter2" →
        ∀ statement ∈ Fragment.walk generated.fragment, ∀ other ∈ statement.mentions,
          other.text = "table_iter2" → other = { base := "table_iter2" }) :=
  captured_iff read_tableType rfl {} "return FALSE;" (by decide) (by decide) (by decide)

/-- The iterator of the array is spelt like the iterator that the caller gives. -/
theorem iterator_captured :
    ∃ generated,
      generate {} (.signature "ai") (.text "nums_iter") (.text "nums") (some "return -1;\n") =
        .ok generated ∧
      "nums_iter" ≠ "nums" ∧
      (∃ entry ∈ generated.variables, entry.name.text = "nums_iter") ∧
      ∃ statement ∈ Fragment.walk generated.fragment, ∃ other ∈ statement.mentions,
        other.text = "nums_iter" ∧ other ≠ { base := "nums_iter" } := by
  refine ⟨_, rfl, by decide, ?_, ?_⟩
  · exact ⟨⟨"DBusMessageIter", { base := "nums", path := [.iter] }⟩, by decide, by decide⟩
  · refine ⟨.closeContainer { base := "nums_iter" } { base := "nums", path := [.iter] }
      "return -1;\n", ?_, { base := "nums", path := [.iter] }, by decide, by decide, by decide⟩
    simp [Fragment.walk, Statement.walk, VarName.child]

end DBusMarshal
