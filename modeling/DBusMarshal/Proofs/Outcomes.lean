import DBusMarshal.Proofs.Acceptance
import DBusMarshal.Proofs.Emission

/-!
How generation ends.

A text that is no signature is refused with the fault of reading it. In a signature the letter of
the variant stands for nothing else, so it tells which types are refused. For every other text code
is generated, and no demand of an operation inside is ever missed.
-/

set_option autoImplicit false

namespace DBusMarshal

namespace Node

/-! ### The letter of the variant -/

theorem variant_not_mem_code {code : String} (known : code ∈ basicCodes) :
    'v' ∉ code.toList := by
  have table : ∀ code ∈ basicCodes, 'v' ∉ code.toList := by decide
  exact table code known

theorem mem_signatures_iff {members : List Node}
    (each : ∀ member ∈ members,
      'v' ∈ member.signature.toList ↔ member.any isVariant = true) :
    'v' ∈ (signatures members).toList ↔ anyOf isVariant members = true := by
  induction members with
  | nil => simp [signatures, anyOf]
  | cons member rest ih =>
      obtain ⟨first, others⟩ := List.forall_mem_cons.1 each
      rw [signatures, anyOf, String.toList_append, List.mem_append, Bool.or_eq_true, first,
        ih others]

/-- The letter of the variant occurs in a signature exactly when a variant occurs in the type. -/
theorem Complete.mem_signature_iff {node : Node} (complete : node.Complete) :
    'v' ∈ node.signature.toList ↔ node.hasVariant = true := by
  unfold hasVariant
  induction complete with
  | @basic code known =>
      have absent : 'v' ∉ code.toList := variant_not_mem_code known
      simp [signature, any, isVariant, absent]
  | variant => simp [signature, any, isVariant]
  | array _ ih => simp [signature, any, isVariant, ih]
  | @dictionary code value known _ ih =>
      have absent : 'v' ∉ code.toList := variant_not_mem_code known
      simp [signature, any, isVariant, ih, absent]
  | struct _ _ ih => simp [signature, any, isVariant, mem_signatures_iff ih]

theorem Complete.hasStray {node : Node} (complete : node.Complete) : node.hasStray = false :=
  complete.spelt.hasStray

/-- A type that was read is written as the text that it was read from. -/
theorem signature_of_read {text : String} {node : Node} (read : Node.read text = .ok node) :
    node.signature = text := by
  unfold Node.read at read
  split at read
  · cases read
  · rename_i single
    cases read
    have spelt := (within_of_readAll single).2.1
    rw [spelt, signatures, signatures, String.append_empty]
  · cases read
  · cases read

end Node

/-! ### From a text to its type -/

section

variable {options : Options} {text : String} {iter name : GivenName} {recovery : Option String}

theorem generate_of_unreadable {error : SignatureError} (refused : Node.read text = .error error) :
    generate options (.signature text) iter name recovery = .error (.signature error) := by
  unfold generate
  simp only [Source.node, refused]
  rfl

theorem generate_of_read {node : Node} (read : Node.read text = .ok node) :
    generate options (.signature text) iter name recovery =
      generate options (.tree node) iter name recovery := by
  unfold generate
  simp only [Source.node, read]
  rfl

theorem generate_of_variant {node : Node} (complete : node.Complete)
    (variant : node.hasVariant = true) :
    generate options (.tree node) iter name recovery = .error (.variantValue node.signature) := by
  unfold generate
  simp only [Source.node, bind, Except.bind, complete.hasStray, variant, Bool.false_eq_true,
    if_false, if_true]
  rfl

end

/-! ### The three outcomes -/

/-- A text that is no signature is refused as it is read, a type with a variant is refused as a
whole, and for every other type there is code. -/
theorem generate_cases (options : Options) (text recovery : String) {iter name : GivenName}
    {iterName varName : VarName} (iterGiven : iter.resolve = some iterName)
    (nameGiven : name.resolve = some varName) :
    (∃ error, Node.read text = .error error ∧
      generate options (.signature text) iter name (some recovery) = .error (.signature error)) ∨
    (∃ node, Node.read text = .ok node ∧ node.hasVariant = true ∧
      generate options (.signature text) iter name (some recovery) =
        .error (.variantValue text)) ∨
    ∃ node generated, Node.read text = .ok node ∧ node.hasVariant = false ∧
      generate options (.signature text) iter name (some recovery) = .ok generated ∧
      generated.signature = text := by
  cases read : Node.read text with
  | error error => exact Or.inl ⟨error, rfl, generate_of_unreadable read⟩
  | ok node =>
      have complete := Node.complete_of_read read
      rw [generate_of_read read]
      cases variant : node.hasVariant with
      | true =>
          rw [generate_of_variant complete variant, Node.signature_of_read read]
          exact Or.inr (Or.inl ⟨node, rfl, variant, rfl⟩)
      | false =>
          have marshallable := complete.marshallable variant
          rw [marshallable.generate options recovery iterGiven nameGiven]
          exact Or.inr (Or.inr ⟨node, _, rfl, variant, rfl, Node.signature_of_read read⟩)

/-- How generation may end for a text: it is no signature, it is the signature of a type with a
variant, or there is code for it. -/
structure Outcome (text : String) (result : Except Fault Generated) : Prop where
  unreadable : ∀ error, result = .error (.signature error) ↔ Node.read text = .error error
  variant : result = .error (.variantValue text) ↔
    (∃ node, Node.read text = .ok node) ∧ 'v' ∈ text.toList
  generated : (∃ generated, result = .ok generated ∧ generated.signature = text) ↔
    (∃ node, Node.read text = .ok node) ∧ 'v' ∉ text.toList
  noOther : ∀ fault, result = .error fault →
    fault = .variantValue text ∨ ∃ error, fault = .signature error

/-- Generation ends in one of three ways, and the text alone decides in which. The lists inside
never refuse a variable, neither for its name nor for its owner. -/
theorem generate_outcome (options : Options) (text recovery : String) {iter name : GivenName}
    {iterName varName : VarName} (iterGiven : iter.resolve = some iterName)
    (nameGiven : name.resolve = some varName) :
    Outcome text (generate options (.signature text) iter name (some recovery)) := by
  have letter : ∀ node, Node.read text = .ok node →
      ('v' ∈ text.toList ↔ node.hasVariant = true) := by
    intro node read
    have same := (Node.complete_of_read read).mem_signature_iff
    rwa [Node.signature_of_read read] at same
  rcases generate_cases options text recovery iterGiven nameGiven with
    ⟨error, read, ended⟩ | ⟨node, read, variant, ended⟩ |
      ⟨node, generated, read, variant, ended, same⟩
  · rw [ended]
    constructor <;> simp [read]
  · rw [ended]
    constructor <;> simp [read, letter node read, variant]
  · rw [ended]
    constructor <;> simp [read, letter node read, variant, same]

theorem generate_outcome_dictionary :
    Outcome "a\x7bsv\x7d"
      (generate { structNames := [("\x7bsv\x7d", "")] } (.signature "a\x7bsv\x7d") (.text "table")
        (.text "table") (some "")) :=
  generate_outcome _ _ _ (GivenName.resolve_text (by decide)) (GivenName.resolve_text (by decide))

end DBusMarshal
