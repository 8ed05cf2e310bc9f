import DBusMarshal.Proofs.Iteration
import DBusMarshal.Proofs.Supply

/-!
Generated code, from the signature to the message.

Code is generated for a type that was read, a conforming value is laid out for it, and the code is
run on that layout. The run makes the calls that write the message of the value and no others, and
from the finished message the value is read back.
-/

set_option autoImplicit false

namespace DBusMarshal

/-! ### The machine at the start -/

def Environment.give (env : Environment) (inputs : Layout) : Environment :=
  inputs.foldl (fun env input => Environment.set env input.1 (.value input.2)) env

theorem Environment.give_cons (env : Environment) (input : VarName × Value) (rest : Layout) :
    env.give (input :: rest) = (env.set input.1 (.value input.2)).give rest := rfl

theorem Environment.lookup_give_other (inputs : Layout) (env : Environment) {name : VarName}
    (absent : name ∉ inputs.map Prod.fst) :
    List.lookup name (env.give inputs) = List.lookup name env := by
  induction inputs generalizing env with
  | nil => rfl
  | cons input rest ih =>
      rw [List.map_cons, List.mem_cons, not_or] at absent
      rw [give_cons, ih _ absent.2]
      exact Environment.lookup_set_other env _ absent.1

theorem Environment.lookup_give (inputs : Layout) (distinct : (inputs.map Prod.fst).Nodup)
    (env : Environment) {name : VarName} {value : Value}
    (listed : inputs.lookup name = some value) :
    List.lookup name (env.give inputs) = some (.value value) := by
  induction inputs generalizing env with
  | nil => cases listed
  | cons input rest ih =>
      obtain ⟨other, held⟩ := input
      rw [List.map_cons, List.nodup_cons] at distinct
      rw [List.lookup_cons] at listed
      rw [give_cons]
      by_cases same : name = other
      · subst same
        rw [beq_self_eq_true] at listed
        cases listed
        rw [lookup_give_other rest _ distinct.1, lookup_set_same]
      · have unequal : (name == other) = false := beq_eq_false_iff_ne.2 same
        rw [unequal] at listed
        exact ih distinct.2 _ listed

namespace Node

theorem nodup_supply (node : Node) (name : VarName) (value : Value) :
    ((node.supply name value).map Prod.fst).Nodup := by
  have different : name.append [] ≠ name.append [.len] := by
    intro same
    cases VarName.append_injective same
  unfold supply paths
  split <;> simp [different]

theorem serves_start {node : Node} {inputs : Layout} {value : Value} {iter name : VarName}
    (distinct : (inputs.map Prod.fst).Nodup) (apart : ¬ iter.Below name)
    (listed : ∀ path ∈ node.paths,
      inputs.lookup (name.append path) = some (node.column value path)) :
    (Machine.start inputs (some iter) none).Serves iter Writer.root node name value where
  apart := apart
  place := Environment.lookup_set_same _ _ _
  isOpen := ⟨_, rfl, rfl⟩
  supplied := by
    intro path isPath
    have different : name.append path ≠ iter := by
      intro same
      exact apart (same ▸ VarName.below_append name path)
    have given := Environment.lookup_give inputs distinct [] (listed path isPath)
    exact (Environment.lookup_set_other _ _ different).trans given
  memory := rfl

end Node

theorem VarName.eq_of_below {base : String} {name : VarName}
    (below : VarName.Below { base } name) : name = { base } := by
  obtain ⟨path, same⟩ := below
  cases name with
  | mk other steps =>
      have sameBase : base = other := congrArg VarName.base same
      have noPath : [] = steps ++ path := congrArg VarName.path same
      rw [sameBase, (List.append_eq_nil_iff.1 noPath.symm).1]

theorem VarName.not_below_base {iter name : String} (different : iter ≠ name) :
    ¬ VarName.Below { base := iter } { base := name } := by
  intro below
  exact different below.base

/-! ### From the signature -/

section

variable {text : String} {node : Node}

theorem Node.layoutUnder_of_resolve {name : GivenName} {varName : VarName}
    (given : name.resolve = some varName) (value : Value) :
    node.layoutUnder name value = node.layout varName value := by
  cases name with
  | absent => cases given
  | text base =>
      by_cases named : base = ""
      · rw [GivenName.resolve, if_pos named] at given
        cases given
      · rw [GivenName.resolve_text named] at given
        cases given
        rfl
  | name held =>
      cases given
      rfl

theorem Node.Marshallable.run_start (marshallable : node.Marshallable) (options : Options)
    (recovery : String) {iter name : VarName} (apart : ¬ iter.Below name) {value : Value}
    (accepted : node.accepts value = true) {rounds : Nat} (enough : node.longest value < rounds) :
    ∃ env, Fragment.run rounds (node.code options recovery iter name)
        (Machine.start (node.supply name value) (some iter) none) =
          .ok ()
            { env
              writer := (Writer.start none).carryAll ((node.message value).calls Writer.root 1)
              calls := (node.message value).calls Writer.root 1 } := by
  have serves := serves_start (node.nodup_supply name value) apart
    (fun path isPath => lookup_supply name value isPath)
  obtain ⟨env, ran, _⟩ := marshallable.simulates rounds options recovery accepted enough iter name
    _ Writer.root serves
  exact ⟨env, ran⟩

/-- Generation, layout and run, all of them: the run ends with the calls of the message made. -/
theorem Node.delivers (marshallable : node.Marshallable) (options : Options)
    (recovery : String) {iter name : String} (iterNamed : iter ≠ "") (named : name ≠ "")
    (different : iter ≠ name) {value : Value} (accepted : node.accepts value = true)
    {rounds : Nat} (enough : node.longest value < rounds) :
    ∃ generated layout env,
      generate options (.tree node) (.text iter) (.text name) (some recovery) = .ok generated ∧
      node.layoutUnder (.text name) value = .ok layout ∧
      Fragment.run rounds generated.fragment
        (Machine.start layout (some { base := iter }) none) =
          .ok ()
            { env
              writer := (Writer.start none).carryAll ((node.message value).calls Writer.root 1)
              calls := (node.message value).calls Writer.root 1 } := by
  have generated := marshallable.generate options recovery (GivenName.resolve_text iterNamed)
    (GivenName.resolve_text named)
  have laid := marshallable.layout_of_accepts { base := name } accepted
  obtain ⟨env, ran⟩ := marshallable.run_start options recovery
    (VarName.not_below_base different) accepted enough
  exact ⟨_, _, env, generated, laid, ran⟩

/-- Generated code makes the calls that its signature demands: the traversal of the value, where
every container is closed under the one that it was opened in. The rounds only have to be more than
the longest array has elements. -/
theorem generated_calls (read : Node.read text = .ok node) (plain : node.hasVariant = false)
    (options : Options) (recovery : String) {iter name : String} (iterNamed : iter ≠ "")
    (named : name ≠ "") (different : iter ≠ name) {value : Value}
    (accepted : node.accepts value = true) {rounds : Nat}
    (enough : node.longest value < rounds) :
    ∃ generated layout m,
      generate options (.tree node) (.text iter) (.text name) (some recovery) = .ok generated ∧
      node.layoutUnder (.text name) value = .ok layout ∧
      Fragment.run rounds generated.fragment
        (Machine.start layout (some { base := iter }) none) = .ok () m ∧
      m.calls = (node.message value).calls Writer.root 1 ∧
      Writer.nesting [Writer.root] 1 m.calls =
        some ([Writer.root], 1 + (node.message value).containers) ∧
      m.calls.length = (node.message value).leaves + 2 * (node.message value).containers ∧
      m.writer.ops = m.calls.length := by
  have marshallable := Node.marshallable_of_read read plain
  obtain ⟨generated, layout, env, made, laid, ran⟩ :=
    Node.delivers marshallable options recovery iterNamed named different accepted enough
  refine ⟨generated, layout, _, made, laid, ran, rfl, ?_, ?_, ?_⟩
  · have nested := (node.message value).nesting_calls Writer.root 1 [] []
    rw [List.append_nil] at nested
    rw [nested, Writer.nesting]
  · exact (node.message value).length_calls Writer.root 1
  · exact (Writer.ops_carryAll _ _).trans (Nat.zero_add _)

/-- Two rows: one with an empty array in it, and one with an empty dictionary. -/
def tableValue : Value :=
  .list
    [.tuple [.dict [(.text "a", .list [.int 1, .float ⟨0x3FF8000000000000⟩, .bool true]),
        (.text "b", .list [])], .int (-3)],
      .tuple [.dict [], .int 4]]

def tableCalls : List Writer.Call :=
  [.openContainer 0 "DBUS_TYPE_ARRAY" "(a\x7bsad\x7di)",
    .openContainer 1 "DBUS_TYPE_STRUCT" none,
    .openContainer 2 "DBUS_TYPE_ARRAY" "\x7bsad\x7d",
    .openContainer 3 "DBUS_TYPE_DICT_ENTRY" none,
    .append 4 "DBUS_TYPE_STRING" (.value (.text "a")),
    .openContainer 4 "DBUS_TYPE_ARRAY" "d",
    .append 5 "DBUS_TYPE_DOUBLE" (.value (.int 1)),
    .append 5 "DBUS_TYPE_DOUBLE" (.value (.float ⟨0x3FF8000000000000⟩)),
    .append 5 "DBUS_TYPE_DOUBLE" (.value (.bool true)),
    .closeContainer (.container 4) 5,
    .closeContainer (.container 3) 4,
    .openContainer 3 "DBUS_TYPE_DICT_ENTRY" none,
    .append 6 "DBUS_TYPE_STRING" (.value (.text "b")),
    .openContainer 6 "DBUS_TYPE_ARRAY" "d",
    .closeContainer (.container 6) 7,
    .closeContainer (.container 3) 6,
    .closeContainer (.container 2) 3,
    .append 2 "DBUS_TYPE_INT32" (.value (.int (-3))),
    .closeContainer (.container 1) 2,
    .openContainer 1 "DBUS_TYPE_STRUCT" none,
    .openContainer 8 "DBUS_TYPE_ARRAY" "\x7bsad\x7d",
    .closeContainer (.container 8) 9,
    .append 8 "DBUS_TYPE_INT32" (.value (.int 4)),
    .closeContainer (.container 1) 8,
    .closeContainer (.container 0) 1]

theorem generated_calls_table :
    ∃ generated layout m,
      generate {} (.tree tableType) (.text "iter") (.text "table") (some "return FALSE;") =
        .ok generated ∧
      tableType.layoutUnder (.text "table") tableValue = .ok layout ∧
      Fragment.run 4 generated.fragment
        (Machine.start layout (some { base := "iter" }) none) = .ok () m ∧
      m.calls = tableCalls ∧
      Writer.nesting [Writer.root] 1 m.calls = some ([Writer.root], 1 + 9) ∧
      m.calls.length = 7 + 2 * 9 ∧
      m.writer.ops = m.calls.length := by
  obtain ⟨generated, layout, m, made, laid, ran, calls, nested, length, ops⟩ :=
    generated_calls read_tableType rfl {} "return FALSE;" (by decide : "iter" ≠ "")
      (by decide : "table" ≠ "") (by decide) (by decide : tableType.accepts tableValue = true)
      (by decide : tableType.longest tableValue < 4)
  have listed : (tableType.message tableValue).calls Writer.root 1 = tableCalls := rfl
  exact ⟨generated, layout, m, made, laid, ran, calls.trans listed, nested, length, ops⟩

/-- A conforming value is marshalled without a fault into one item of a finished message, and is
read back from it. -/
theorem roundTrip (read : Node.read text = .ok node) (plain : node.hasVariant = false)
    (options : Options) (recovery : String) {iter name : String} (iterNamed : iter ≠ "")
    (named : name ≠ "") (different : iter ≠ name) {value : Value}
    (accepted : node.accepts value = true) {rounds : Nat}
    (enough : node.longest value < rounds) :
    ∃ generated layout m item,
      generate options (.tree node) (.text iter) (.text name) (some recovery) = .ok generated ∧
      node.layoutUnder (.text name) value = .ok layout ∧
      Fragment.run rounds generated.fragment
        (Machine.start layout (some { base := iter }) none) = .ok () m ∧
      (∀ (handle : Nat) (container : Container), handle ≠ Writer.root →
        m.writer.containers[handle]? = some container → container.isOpen = false) ∧
      m.writer.values = .ok [item] ∧
      node.fromWire item = .ok value := by
  have marshallable := Node.marshallable_of_read read plain
  obtain ⟨generated, layout, env, made, laid, ran⟩ :=
    Node.delivers marshallable options recovery iterNamed named different accepted enough
  refine ⟨generated, layout, _, (node.message value).plain, made, laid, ran, ?_, ?_, ?_⟩
  · intro handle container notRoot found
    exact (node.message value).closed_carryAll none notRoot found
  · exact (node.message value).values_carryAll none
  · exact marshallable.fromWire_message accepted

theorem roundTrip_table :
    ∃ generated layout m item,
      generate {} (.tree tableType) (.text "iter") (.text "table") (some "return FALSE;") =
        .ok generated ∧
      tableType.layoutUnder (.text "table") tableValue = .ok layout ∧
      Fragment.run 4 generated.fragment
        (Machine.start layout (some { base := "iter" }) none) = .ok () m ∧
      (∀ (handle : Nat) (container : Container), handle ≠ Writer.root →
        m.writer.containers[handle]? = some container → container.isOpen = false) ∧
      m.writer.values = .ok [item] ∧
      tableType.fromWire item = .ok tableValue :=
  roundTrip read_tableType rfl {} "return FALSE;" (by decide) (by decide) (by decide)
    (by decide) (by decide)

end

end DBusMarshal
