import DBusMarshal.Proofs.Operations
import DBusMarshal.Proofs.Scoping

/-!
What generated code keeps to.

At every depth, the code for a variable reads variables below its own and the iterator of its
caller, sets only variables below its own, and reaches no recovery code but the caller's. The code
for a part keeps to that part and to the iterator of the container around it, and both belong to
the variable.
-/

set_option autoImplicit false

namespace DBusMarshal

/-- The variables that a statement sets: those that it writes or declares, and the index of a loop.
What the body of a loop sets is left out. -/
def Statement.sets (statement : Statement) : List VarName :=
  statement.writes ++ statement.declares ++
    match statement with
    | .loop index _ _ _ => [index]
    | _ => []

/-- The variables that a fragment sets, at every depth. -/
def Fragment.sets (fragment : Fragment) : List VarName :=
  (Fragment.walk fragment).flatMap Statement.sets

theorem Fragment.sets_append (first second : Fragment) :
    Fragment.sets (first ++ second) = Fragment.sets first ++ Fragment.sets second := by
  rw [sets, walk_append, List.flatMap_append]
  rfl

structure Statement.Confined (recovery : String) (iter name : VarName)
    (statement : Statement) : Prop where
  reads : ∀ other ∈ statement.reads, other = iter ∨ other.Below name
  sets : ∀ other ∈ statement.sets, other.Below name
  carries : ∀ code, statement.recoveryCode = some code → code = recovery

def Fragment.Confined (recovery : String) (iter name : VarName) (fragment : Fragment) : Prop :=
  ∀ statement ∈ Fragment.walk fragment, statement.Confined recovery iter name

section

variable {recovery : String} {iter name : VarName}

/-- Code that keeps to a part and to an iterator of its own keeps to the whole. -/
theorem Fragment.Confined.of_part {inner part : VarName} {fragment : Fragment}
    (confined : Fragment.Confined recovery inner part fragment) (iterator : inner.Below name)
    (below : part.Below name) : Fragment.Confined recovery iter name fragment := by
  intro statement listed
  have kept := confined statement listed
  refine ⟨?_, fun other set => (kept.sets other set).trans below, kept.carries⟩
  intro other read
  rcases kept.reads other read with same | inPart
  · rw [same]
    exact Or.inr iterator
  · exact Or.inr (inPart.trans below)

theorem Fragment.confined_map {α : Type} (items : List α) (statement : α → Statement)
    (flat : ∀ item, (statement item).walk = [statement item])
    (each : ∀ item ∈ items, (statement item).Confined recovery iter name) :
    Fragment.Confined recovery iter name (items.map statement) :=
  Fragment.forall_walk_map items statement flat each

theorem Statement.confined_of_nil {statement : Statement} (reads : statement.reads = [])
    (sets : statement.sets = []) (code : statement.recoveryCode = none) :
    statement.Confined recovery iter name where
  reads := reads ▸ List.forall_mem_nil _
  sets := sets ▸ List.forall_mem_nil _
  carries := by
    intro other given
    rw [code] at given
    cases given

theorem Statement.confined_comment (text : String) :
    (Statement.comment text).Confined recovery iter name :=
  confined_of_nil rfl rfl rfl

theorem Statement.confined_blank : Statement.blank.Confined recovery iter name :=
  confined_of_nil rfl rfl rfl

theorem Statement.confined_recovery (code : String) :
    (Statement.recovery code).Confined recovery iter name :=
  confined_of_nil rfl rfl rfl

theorem Fragment.confined_blank : Fragment.Confined recovery iter name [.blank] :=
  (List.forall_mem_singleton).2 Statement.confined_blank

namespace Node

theorem confined_declarations (entries : List TypedVar)
    (below : ∀ entry ∈ entries, entry.name.Below name) :
    Fragment.Confined recovery iter name (declarations entries) := by
  apply Fragment.confined_map _ _ (fun _ => rfl)
  intro entry listed
  refine ⟨List.forall_mem_nil _, List.forall_mem_singleton.2 (below entry listed), ?_⟩
  intro code impossible
  cases impossible

theorem confined_copies (options : Options) (element : Node) :
    Fragment.Confined recovery iter name (element.copies options name) := by
  apply Fragment.confined_map _ _ (fun _ => rfl)
  intro port _
  have array := VarName.below_append name port.path
  have index := VarName.below_child name .index
  have target := (VarName.below_append (name.child .element) port.path).of_child
  refine ⟨?_, List.forall_mem_singleton.2 target, ?_⟩
  · exact List.forall_mem_cons.2 ⟨Or.inr array, List.forall_mem_singleton.2 (Or.inr index)⟩
  · intro code impossible
    cases impossible

theorem confined_reads (options : Options) (member : Node) (position : Nat) :
    Fragment.Confined recovery iter name (member.reads options name position) := by
  apply Fragment.confined_map _ _ (fun _ => rfl)
  intro port _
  have target := (VarName.below_append (name.child (.item position)) port.path).of_child
  refine ⟨?_, List.forall_mem_singleton.2 target, ?_⟩
  · exact List.forall_mem_singleton.2 (Or.inr (VarName.below_self name))
  · intro code impossible
    cases impossible

theorem confined_append (typeConst : String) :
    (Statement.append iter typeConst name recovery).Confined recovery iter name where
  reads := List.forall_mem_cons.2
    ⟨Or.inl rfl, List.forall_mem_singleton.2 (Or.inr (VarName.below_self name))⟩
  sets := List.forall_mem_nil _
  carries := fun _ given => (Option.some.inj given).symm

theorem confined_open (typeConst : String) (signature : Option String) :
    (Statement.openContainer iter typeConst signature (name.child .iter) recovery).Confined
      recovery iter name where
  reads := List.forall_mem_singleton.2 (Or.inl rfl)
  sets := List.forall_mem_singleton.2 (VarName.below_child name .iter)
  carries := fun _ given => (Option.some.inj given).symm

theorem confined_close :
    (Statement.closeContainer iter (name.child .iter) recovery).Confined recovery iter name where
  reads := List.forall_mem_cons.2
    ⟨Or.inl rfl, List.forall_mem_singleton.2 (Or.inr (VarName.below_child name .iter))⟩
  sets := List.forall_mem_nil _
  carries := fun _ given => (Option.some.inj given).symm

theorem confined_container {middle : Fragment} (typeConst note : String)
    (signature : Option String) (filled : Fragment.Confined recovery iter name middle) :
    Fragment.Confined recovery iter name
      ([.comment note, .openContainer iter typeConst signature (name.child .iter) recovery,
          .blank] ++ middle ++ [.closeContainer iter (name.child .iter) recovery]) :=
  Fragment.forall_walk_container (Statement.confined_comment note)
    (confined_open typeConst signature) Statement.confined_blank confined_close
    (Statement.confined_recovery recovery) filled

theorem confined_loop (options : Options) {element : Node} (inside : element.Marshallable)
    {code : Fragment} (confined : Fragment.Confined recovery iter name code) :
    Fragment.Confined recovery iter name
      [.loop (name.child .index) name (if element.isFixed then some (name.child .len) else none)
        (loopBody options element name code), .blank] := by
  have body : Fragment.Confined recovery iter name (loopBody options element name code) := by
    refine Fragment.forall_walk_loopBody Statement.confined_blank ?_
      (confined_copies options element) confined
    exact confined_declarations _
      fun entry listed => (inside.below_of_declared options listed).of_child
  refine List.forall_mem_append.2 ⟨List.forall_mem_cons.2 ⟨⟨?_, ?_, ?_⟩, body⟩,
    Fragment.confined_blank⟩
  · refine List.forall_mem_cons.2 ⟨Or.inr (VarName.below_self name), ?_⟩
    intro other isLength
    split at isLength
    · rw [List.mem_singleton.1 isLength]
      exact Or.inr (VarName.below_child name _)
    · cases isLength
  · exact List.forall_mem_singleton.2 (VarName.below_child name _)
  · intro other impossible
    cases impossible

/-- The code for a variable keeps to the variable, to its iterator and to its recovery code. -/
theorem Marshallable.confined_code {node : Node} (marshallable : node.Marshallable)
    (options : Options) (recovery : String) (iter name : VarName) :
    Fragment.Confined recovery iter name (node.code options recovery iter name) := by
  induction marshallable using Marshallable.byKind generalizing iter name with
  | basic code known =>
      intro statement listed
      simp only [Node.code, Fragment.walk, Statement.walk, List.append_nil, List.cons_append,
        List.nil_append, List.mem_cons, List.not_mem_nil, or_false] at listed
      rcases listed with same | same | same <;> rw [same]
      · exact Statement.confined_comment _
      · exact confined_append _
      · exact Statement.confined_recovery recovery
  | array element inside ih =>
      have code : Fragment.Confined recovery iter name _ :=
        (ih (name.child .iter) (name.child .element)).of_part
          (VarName.below_child name _) (VarName.below_child name _)
      exact confined_container "DBUS_TYPE_ARRAY" _ element.signature
        (confined_loop options inside code)
  | group node marshallable isGroup ih =>
      rw [code_of_isGroup options recovery isGroup, groupCode]
      refine confined_container _ _ none (Fragment.forall_walk_codeAll 0 Statement.confined_blank
        (fun index member _ => confined_reads options member (0 + index)) ?_)
      intro index member found
      exact (ih member (List.mem_of_getElem? found) _ _).of_part (VarName.below_child name _)
        (VarName.below_child name _)

end Node

end

end DBusMarshal
