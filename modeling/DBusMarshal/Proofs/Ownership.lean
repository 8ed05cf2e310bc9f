import DBusMarshal.Proofs.Code

/-!
The variables that generated code introduces.

Every variable of the code for a name lies below that name, and none is introduced twice. The
argument is about the parts of the name: inputs are the name itself and its length, an iterator and
an index have parts of their own, and elements and members stand below different parts.
-/

set_option autoImplicit false

namespace DBusMarshal

/-! ### Introducing statements -/

mutual

/-- The variables that a statement introduces, with their types: what it declares, the index of a
loop, and what the body of a loop introduces. -/
def Statement.introduces (statement : Statement) : List TypedVar :=
  match statement with
  | .declare type name => [⟨type, name⟩]
  | .loop index _ _ body => ⟨sizeType, index⟩ :: Fragment.introduces body
  | _ => []

def Fragment.introduces : List Statement → List TypedVar
  | [] => []
  | statement :: rest => statement.introduces ++ Fragment.introduces rest

end

theorem Statement.silent_introduces : Silent Statement.introduces := by
  constructor <;> intros <;> rfl

theorem Fragment.introduces_eq (fragment : Fragment) :
    Fragment.introduces fragment = fragment.flatMap Statement.introduces := by
  induction fragment with
  | nil => rfl
  | cons statement rest ih => rw [Fragment.introduces, ih, List.flatMap_cons]

theorem Fragment.introduces_append (first second : Fragment) :
    Fragment.introduces (first ++ second) =
      Fragment.introduces first ++ Fragment.introduces second := by
  rw [introduces_eq, introduces_eq, introduces_eq, List.flatMap_append]

namespace Node

theorem introduces_declarations (entries : List TypedVar) :
    Fragment.introduces (declarations entries) = entries := by
  induction entries with
  | nil => rfl
  | cons entry rest ih =>
      change entry :: Fragment.introduces (declarations rest) = _
      rw [ih]

theorem introduces_memberCode (options : Options) (member : Node) (name : VarName)
    (position : Nat) (code : Fragment) :
    Fragment.introduces (memberCode options member name position code) =
      Fragment.introduces code := by
  rw [Fragment.introduces_eq, Statement.silent_introduces.memberCode, ← Fragment.introduces_eq]

theorem introduces_groupCode (node : Node) (recovery : String) (iter name : VarName)
    (code : Fragment) :
    Fragment.introduces (groupCode node recovery iter name code) = Fragment.introduces code := by
  rw [Fragment.introduces_eq, Statement.silent_introduces.groupCode, ← Fragment.introduces_eq]

theorem introduces_arrayCode (options : Options) (element : Node) (recovery : String)
    (iter name : VarName) (code : Fragment) :
    Fragment.introduces (arrayCode options element recovery iter name code) =
      ⟨sizeType, name.child .index⟩ ::
        (element.locals options (name.child .element) ++
            element.inputs options (name.child .element) ++
          Fragment.introduces code) := by
  have body : Fragment.introduces (loopBody options element name code) =
      element.locals options (name.child .element) ++
          element.inputs options (name.child .element) ++ Fragment.introduces code := by
    rw [Fragment.introduces_eq, Statement.silent_introduces.loopBody, ← Fragment.introduces_eq,
      ← Fragment.introduces_eq, introduces_declarations]
  simp [arrayCode, Fragment.introduces, Statement.introduces, body]

end Node

/-! ### Sets of names that belong together -/

/-- The names differ, and all of them lie where they may. -/
structure Owns (place : VarName → Prop) (names : List VarName) : Prop where
  distinct : names.Nodup
  inside : ∀ name ∈ names, place name

namespace Owns

variable {place left right : VarName → Prop} {names first second : List VarName}

theorem nil : Owns place [] where
  distinct := List.nodup_nil
  inside := by
    intro name impossible
    cases impossible

theorem mono (owns : Owns left names) (wider : ∀ name, left name → right name) :
    Owns right names where
  distinct := owns.distinct
  inside := fun name listed => wider name (owns.inside name listed)

theorem perm (owns : Owns place first) (same : second.Perm first) : Owns place second where
  distinct := same.nodup_iff.2 owns.distinct
  inside := fun name listed => owns.inside name (same.mem_iff.1 listed)

theorem append (ownsFirst : Owns left first) (ownsSecond : Owns right second)
    (apart : ∀ name, left name → ¬ right name) :
    Owns (fun name => left name ∨ right name) (first ++ second) where
  distinct := by
    refine List.nodup_append.2 ⟨ownsFirst.distinct, ownsSecond.distinct, ?_⟩
    intro one inFirst other inSecond same
    subst same
    exact apart one (ownsFirst.inside one inFirst) (ownsSecond.inside one inSecond)
  inside := by
    intro name listed
    rcases List.mem_append.1 listed with inFirst | inSecond
    · exact Or.inl (ownsFirst.inside name inFirst)
    · exact Or.inr (ownsSecond.inside name inSecond)

end Owns

/-- The name lies below a member of a struct, numbered from `position` on. -/
def VarName.BelowItems (origin : VarName) (position : Nat) (name : VarName) : Prop :=
  ∃ other, position ≤ other ∧ name.Below (origin.child (.item other))

namespace Node

/-- All variables of a type: its inputs, its local variables, and what its code introduces. -/
def introduced (options : Options) (recovery : String) (node : Node) (iter name : VarName) :
    List TypedVar :=
  node.inputs options name ++
    (node.locals options name ++ Fragment.introduces (node.code options recovery iter name))

def introducedAll (options : Options) (recovery : String) (members : List Node)
    (inner name : VarName) (position : Nat) : List TypedVar :=
  localsAll options members name position ++
    Fragment.introduces (codeAll options recovery members inner name position)

theorem owns_introducedAll (options : Options) (recovery : String) (inner name : VarName)
    (members : List Node)
    (ih : ∀ member ∈ members, ∀ iter origin : VarName,
      Owns (·.Below origin)
        ((member.introduced options recovery iter origin).map TypedVar.name))
    (position : Nat) :
    Owns (name.BelowItems position)
      ((introducedAll options recovery members inner name position).map TypedVar.name) := by
  induction members generalizing position with
  | nil => exact Owns.nil
  | cons member rest ihRest =>
      have first := ih member List.mem_cons_self inner (name.child (.item position))
      have others := ihRest (fun other listed => ih other (List.mem_cons_of_mem _ listed))
        (position + 1)
      have apart : ∀ other : VarName, other.Below (name.child (.item position)) →
          ¬ name.BelowItems (position + 1) other := by
        rintro other below ⟨later, above, belowLater⟩
        have same := Segment.item_inj (below.segment_eq belowLater)
        omega
      have wider : ∀ other : VarName,
          other.Below (name.child (.item position)) ∨ name.BelowItems (position + 1) other →
            name.BelowItems position other := by
        rintro other (below | ⟨later, above, below⟩)
        · exact ⟨position, Nat.le_refl position, below⟩
        · exact ⟨later, by omega, below⟩
      apply ((first.append others apart).mono wider).perm
      simp only [introducedAll, introduced, localsAll, codeAll, List.map_append,
        Fragment.introduces_append, introduces_memberCode]
      grind

theorem owns_arrayNames (element : Node) (name : VarName) :
    Owns (fun other => other.Below name ∧ ¬ other.Below (name.child .element))
      ((array element).paths.map name.append ++ [name.child .iter, name.child .index]) where
  distinct := by
    have iterIndex : name.child .iter ≠ name.child .index :=
      (VarName.below_self _).ne (VarName.below_self _) (by decide)
    have lenIter : name.child .len ≠ name.child .iter :=
      (VarName.below_self _).ne (VarName.below_self _) (by decide)
    have lenIndex : name.child .len ≠ name.child .index :=
      (VarName.below_self _).ne (VarName.below_self _) (by decide)
    have notIter := (VarName.child_ne name .iter).symm
    have notIndex := (VarName.child_ne name .index).symm
    have notLen := (VarName.child_ne name .len).symm
    unfold paths
    split
    · simp [VarName.append_nil, ← VarName.child_eq_append, iterIndex, lenIter, lenIndex, notIter,
        notIndex, notLen]
    · simp [VarName.append_nil, iterIndex, notIter, notIndex]
  inside := by
    intro other listed
    rcases List.mem_append.1 listed with inInputs | inOwn
    · obtain ⟨path, isPath, same⟩ := List.mem_map.1 inInputs
      subst same
      refine ⟨VarName.below_append name path, ?_⟩
      rcases path_of_mem_paths isPath with atName | atLength
      · rw [atName, VarName.append_nil]
        exact VarName.not_below_child name .element
      · rw [atLength, ← VarName.child_eq_append]
        exact VarName.child_not_below (by decide)
    · simp only [List.mem_cons, List.not_mem_nil, or_false] at inOwn
      rcases inOwn with same | same
      · subst same
        exact ⟨VarName.below_child name .iter, VarName.child_not_below (by decide)⟩
      · subst same
        exact ⟨VarName.below_child name .index, VarName.child_not_below (by decide)⟩

theorem owns_groupNames (name : VarName) :
    Owns (fun other => other.Below name ∧ ¬ name.BelowItems 0 other)
      [name, name.child .iter] where
  distinct := by
    have notIter := (VarName.child_ne name .iter).symm
    simp [notIter]
  inside := by
    intro other listed
    simp only [List.mem_cons, List.not_mem_nil, or_false] at listed
    rcases listed with same | same
    · subst same
      refine ⟨VarName.below_self other, ?_⟩
      rintro ⟨position, _, below⟩
      exact VarName.not_below_child other _ below
    · subst same
      refine ⟨VarName.below_child name .iter, ?_⟩
      rintro ⟨position, _, below⟩
      exact VarName.child_not_below (Segment.item_ne_iter position).symm below

/-- The variables of a type differ from each other and lie below its name. -/
theorem Marshallable.owns_introduced {node : Node} (marshallable : node.Marshallable)
    (options : Options) (recovery : String) (iter name : VarName) :
    Owns (·.Below name) ((node.introduced options recovery iter name).map TypedVar.name) := by
  induction marshallable using Marshallable.byKind generalizing iter name with
  | basic written known =>
      have single : ((Node.basic written).introduced options recovery iter name).map
          TypedVar.name = [name.append []] := rfl
      rw [single, VarName.append_nil]
      refine ⟨by simp, ?_⟩
      intro other listed
      rw [List.mem_singleton.1 listed]
      exact VarName.below_self name
  | array element inside ih =>
      have own := owns_arrayNames element name
      have inner := ih (name.child .iter) (name.child .element)
      have both := own.append inner (fun other place => place.2)
      have wider : ∀ other : VarName,
          (other.Below name ∧ ¬ other.Below (name.child .element)) ∨
            other.Below (name.child .element) → other.Below name := by
        rintro other (⟨below, _⟩ | below)
        · exact below
        · exact below.of_child
      apply (both.mono wider).perm
      simp only [introduced, map_name_inputs, locals, code, introduces_arrayCode, List.map_cons,
        List.map_nil, List.map_append]
      grind
  | group node marshallable isGroup ih =>
      have own := owns_groupNames name
      have inner := owns_introducedAll options recovery (name.child .iter) name node.children
        ih 0
      have both := own.append inner (fun other place => place.2)
      have wider : ∀ other : VarName,
          (other.Below name ∧ ¬ name.BelowItems 0 other) ∨ name.BelowItems 0 other →
            other.Below name := by
        rintro other (⟨below, _⟩ | ⟨_, _, below⟩)
        · exact below
        · exact below.of_child
      have input : (node.inputs options name).map TypedVar.name = [name] := by
        rw [inputs, ports_of_isGroup options isGroup]
        simp [Port.under, VarName.append_nil]
      apply (both.mono wider).perm
      rw [introduced, List.map_append, input, locals_of_isGroup options isGroup,
        code_of_isGroup _ _ isGroup, introduces_groupCode, introducedAll]
      simp

theorem mem_introduced_of_declared {options : Options} {recovery : String} {node : Node}
    {iter name : VarName} {entry : TypedVar}
    (listed : entry ∈ node.locals options name ++ node.inputs options name) :
    entry ∈ node.introduced options recovery iter name := by
  rw [introduced, List.mem_append, List.mem_append]
  rcases List.mem_append.1 listed with isLocal | isInput
  · exact Or.inr (Or.inl isLocal)
  · exact Or.inl isInput

theorem Marshallable.below_of_declared {node : Node} (marshallable : node.Marshallable)
    (options : Options) {name : VarName} {entry : TypedVar}
    (listed : entry ∈ node.locals options name ++ node.inputs options name) :
    entry.name.Below name :=
  (marshallable.owns_introduced options "" name name).inside _
    (List.mem_map_of_mem (mem_introduced_of_declared listed))

end Node

/-- All variables of generated code: the inputs, the local variables, and what it introduces. -/
def Generated.variables (generated : Generated) : List TypedVar :=
  generated.inputs ++ (generated.locals ++ Fragment.introduces generated.fragment)

end DBusMarshal
