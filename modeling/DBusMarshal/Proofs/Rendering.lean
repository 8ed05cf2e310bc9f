import DBusMarshal.Proofs.Capture
import DBusMarshal.Proofs.Loops

/-!
Variables of one fragment are spelt differently.

Whatever generated code derives from the name of the value stands at the end of a regular path, and
the spelling of such a path tells the path. So no two variables clash in the text, although the
lists of variables only compare names with their parts.
-/

set_option autoImplicit false

namespace DBusMarshal

/-! ### Derived names -/

namespace VarName

/-- A name lies below another one at the end of a regular path. -/
def Derived (name origin : VarName) : Prop :=
  ∃ path, RegularPath path ∧ name = origin.append path

theorem Derived.child {name origin : VarName} (derived : name.Derived origin) {segment : Segment}
    (regular : segment.Regular) : (name.child segment).Derived origin := by
  obtain ⟨path, isRegular, rfl⟩ := derived
  refine ⟨path ++ [segment], ?_, ?_⟩
  · exact List.forall_mem_append.2 ⟨isRegular, List.forall_mem_singleton.2 regular⟩
  · rw [child_eq_append, append_append]

/-- Names that are derived from one name are spelt differently. -/
theorem Derived.eq_of_text {name other origin : VarName} (derived : name.Derived origin)
    (otherDerived : other.Derived origin) (same : name.text = other.text) : name = other := by
  obtain ⟨path, regular, rfl⟩ := derived
  obtain ⟨otherPath, otherRegular, rfl⟩ := otherDerived
  rw [text_append, text_append] at same
  have chars := congrArg String.toList same
  rw [String.toList_append, String.toList_append] at chars
  have paths : pathText path = pathText otherPath :=
    String.toList_inj.1 (List.append_cancel_left chars)
  rw [pathText_inj regular otherRegular paths]

end VarName

/-! ### The variables of a fragment -/

namespace Node

theorem Stands.derived {root node : Node} {origin name : VarName}
    (stands : Stands root origin node name) : name.Derived origin := by
  induction stands with
  | whole => exact ⟨[], List.forall_mem_nil _, (VarName.append_nil _).symm⟩
  | element _ ih => exact ih.child .element
  | member _ _ _ ih => exact ih.child (.item _)

theorem regular_map_cons {paths : List (List Segment)} {segment : Segment}
    (regular : segment.Regular) (each : ∀ path ∈ paths, RegularPath path) :
    ∀ path ∈ paths.map (segment :: ·), RegularPath path :=
  List.forall_mem_map.2 fun path listed => (each path listed).cons regular

theorem regular_derivedPathsAll {members : List Node}
    (ih : ∀ member ∈ members, ∀ path ∈ member.derivedPaths, RegularPath path) (position : Nat) :
    ∀ path ∈ derivedPathsAll members position, RegularPath path := by
  induction members generalizing position with
  | nil => exact List.forall_mem_nil _
  | cons member rest ihRest =>
      have others := ihRest (fun other listed => ih other (List.mem_cons_of_mem _ listed))
        (position + 1)
      exact List.forall_mem_append.2
        ⟨regular_map_cons (.item position) (ih member List.mem_cons_self), others⟩

theorem Marshallable.regular_derivedPaths {node : Node} (marshallable : node.Marshallable) :
    ∀ path ∈ node.derivedPaths, RegularPath path := by
  induction marshallable using Marshallable.byKind with
  | basic code known => exact List.forall_mem_singleton.2 (List.forall_mem_nil _)
  | array element inside ih =>
      refine List.forall_mem_append.2 ⟨List.forall_mem_append.2 ⟨?_, ?_⟩, ?_⟩
      · exact fun path listed => regular_of_mem_paths listed
      · exact List.forall_mem_cons.2 ⟨List.forall_mem_singleton.2 .iter,
          List.forall_mem_singleton.2 (List.forall_mem_singleton.2 .index)⟩
      · exact regular_map_cons .element ih
  | group node marshallable isGroup ih =>
      rw [derivedPaths_of_isGroup isGroup]
      exact List.forall_mem_cons.2 ⟨List.forall_mem_nil _,
        List.forall_mem_cons.2 ⟨List.forall_mem_singleton.2 .iter, regular_derivedPathsAll ih 0⟩⟩

end Node

/-- The variables in the head of a loop. -/
def Statement.heads : Statement → List VarName
  | loop index array length _ => index :: array :: length.toList
  | _ => []

/-- The variables of generated code that are derived from the name of the value: those that are
introduced, and those in the heads of loops. -/
def Generated.derived (generated : Generated) : List VarName :=
  generated.variables.map TypedVar.name ++
    (Fragment.walk generated.fragment).flatMap Statement.heads

theorem Node.LoopsInside.derived_heads {options : Options} {recovery : String} {root : Node}
    {origin : VarName} {statement : Statement}
    (inside : LoopsInside options recovery root origin statement) :
    ∀ name ∈ statement.heads, name.Derived origin := by
  cases statement with
  | loop index source length body =>
      obtain ⟨element, stands, rfl, rfl, _⟩ := inside
      have derived := stands.derived
      refine List.forall_mem_cons.2 ⟨derived.child .index, List.forall_mem_cons.2 ⟨derived, ?_⟩⟩
      intro name isLength
      split at isLength
      · rw [List.mem_singleton.1 isLength]
        exact derived.child .len
      · cases isLength
  | _ => exact List.forall_mem_nil _

/-- The spelling of a path tells the path, and the field of an aggregate tells the variable that it
stands for. So whatever generated code derives from one name is spelt in its own way. -/
theorem generated_spelling {text : String} {node : Node} (read : Node.read text = .ok node)
    (plain : node.hasVariant = false) (options : Options) (recovery : String)
    {iter name : GivenName} {iterName varName : VarName} (iterGiven : iter.resolve = some iterName)
    (nameGiven : name.resolve = some varName) :
    (∀ (base : String) (left right : List Segment), RegularPath left → RegularPath right →
      VarName.text { base, path := left } = VarName.text { base, path := right } → left = right) ∧
    (∀ (aggregate one other : VarName) (field : String), RegularPath one.path →
      RegularPath other.path → one.fieldOf aggregate = .ok field →
        other.fieldOf aggregate = .ok field → one = other) ∧
    ∃ generated, generate options (.signature text) iter name (some recovery) = .ok generated ∧
      ∀ one ∈ generated.derived, ∀ other ∈ generated.derived,
        one.text = other.text → one = other := by
  refine ⟨?_, fun _ _ _ _ => VarName.eq_of_fieldOf, ?_⟩
  · intro base left right leftRegular rightRegular same
    have left : VarName.Derived { base, path := left } { base } := ⟨left, leftRegular, rfl⟩
    have right : VarName.Derived { base, path := right } { base } := ⟨right, rightRegular, rfl⟩
    exact congrArg VarName.path (left.eq_of_text right same)
  · have marshallable := Node.marshallable_of_read read plain
    refine ⟨_, (generate_of_read read).trans
      (marshallable.generate options recovery iterGiven nameGiven), ?_⟩
    suffices derived : ∀ other ∈ Generated.derived _, other.Derived varName from
      fun one listed other otherListed =>
        (derived one listed).eq_of_text (derived other otherListed)
    refine List.forall_mem_append.2 ⟨?_, ?_⟩
    · intro other listed
      obtain ⟨path, isPath, rfl⟩ := List.mem_map.1
        ((marshallable.mem_introduced_iff options recovery iterName varName other).1 listed)
      exact ⟨path, marshallable.regular_derivedPaths path isPath, rfl⟩
    · intro other listed
      obtain ⟨statement, inCode, isHead⟩ := List.mem_flatMap.1 listed
      have inside := marshallable.loopsInside_code options recovery .whole iterName statement inCode
      exact inside.derived_heads other isHead

/-- The base already looks like a derived name. -/
theorem generated_spelling_table :
    (∀ (base : String) (left right : List Segment), RegularPath left → RegularPath right →
      VarName.text { base, path := left } = VarName.text { base, path := right } → left = right) ∧
    (∀ (aggregate one other : VarName) (field : String), RegularPath one.path →
      RegularPath other.path → one.fieldOf aggregate = .ok field →
        other.fieldOf aggregate = .ok field → one = other) ∧
    ∃ generated,
      generate {} (.signature "a(a\x7bsad\x7di)") (.text "iter") (.text "table_item1")
        (some "return FALSE;") = .ok generated ∧
      ∀ one ∈ generated.derived, ∀ other ∈ generated.derived,
        one.text = other.text → one = other :=
  generated_spelling read_tableType rfl {} "return FALSE;" (GivenName.resolve_text (by decide))
    (GivenName.resolve_text (by decide))

end DBusMarshal
