import DBusMarshal.Proofs.Typing

/-!
The loops of generated code.

A loop stands in the code of an array inside the value. It goes over the variable of this array, its
index and its length belong to this variable, and its body is the code for an element.
-/

set_option autoImplicit false

namespace DBusMarshal

namespace Node

/-- A loop goes over an array that stands inside the root, with the code for an element as its
body. -/
def LoopsInside (options : Options) (recovery : String) (root : Node) (origin : VarName) :
    Statement → Prop
  | .loop index source length body =>
    ∃ element, Stands root origin (.array element) source ∧ index = source.child .index ∧
      length = (if element.isFixed then some (source.child .len) else none) ∧
      body = loopBody options element source
        (element.code options recovery (source.child .iter) (source.child .element))
  | _ => True

section

variable (options : Options) (recovery : String) {root : Node} {origin name : VarName}

/-- Every loop in the code for a variable goes over an array that stands inside the root. -/
theorem Marshallable.loopsInside_code {node : Node} (marshallable : node.Marshallable)
    (stands : Stands root origin node name) (iter : VarName) :
    ∀ statement ∈ Fragment.walk (node.code options recovery iter name),
      LoopsInside options recovery root origin statement := by
  induction marshallable using Marshallable.byKind generalizing iter name with
  | basic code known =>
      intro statement listed
      simp only [Node.code, Fragment.walk, Statement.walk, List.append_nil, List.cons_append,
        List.nil_append, List.mem_cons, List.not_mem_nil, or_false] at listed
      rcases listed with same | same | same <;> rw [same] <;> trivial
  | array element inside ih =>
      refine Fragment.forall_walk_arrayCode trivial trivial trivial trivial trivial
        ⟨element, stands, rfl, rfl, rfl⟩ ?_ ?_ (ih (.element stands) (name.child .iter))
      · exact Fragment.forall_walk_map _ _ (fun _ => rfl) (fun _ _ => trivial)
      · exact Fragment.forall_walk_map _ _ (fun _ => rfl) (fun _ _ => trivial)
  | group node marshallable isGroup ih =>
      rw [code_of_isGroup options recovery isGroup, groupCode]
      refine Fragment.forall_walk_container trivial trivial trivial trivial trivial
        (Fragment.forall_walk_codeAll 0 trivial ?_ ?_)
      · intro position member _
        exact Fragment.forall_walk_map _ _ (fun _ => rfl) (fun _ _ => trivial)
      · intro position member found
        rw [← Nat.zero_add position] at found
        exact ih member (List.mem_of_getElem? found) (.member stands isGroup found) _

end

end Node

end DBusMarshal
