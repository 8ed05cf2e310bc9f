import DBusMarshal.Proofs.Emission

/-!
Generated code can be printed.

Only a text that stands in the place of a statement cannot be printed, and no step of generation
puts one there: not for any tree, however it was built, on which generation succeeds.
-/

set_option autoImplicit false

namespace DBusMarshal

/-! ### Fragments of statements only -/

def Statement.isStray : Statement → Bool
  | stray _ => true
  | _ => false

/-- There is no text in the place of a statement, at any depth. -/
def Fragment.Proper (fragment : Fragment) : Prop :=
  ∀ statement ∈ Fragment.walk fragment, statement.isStray = false

namespace Fragment

theorem proper_nil : Proper [] := by
  intro statement impossible
  cases impossible

theorem proper_append {first second : Fragment} (left : Proper first) (right : Proper second) :
    Proper (first ++ second) :=
  forall_walk_append left right

theorem proper_map {α : Type} (items : List α) (statement : α → Statement)
    (flat : ∀ item, (statement item).walk = [statement item])
    (each : ∀ item ∈ items, (statement item).isStray = false) :
    Proper (items.map statement) :=
  forall_walk_map items statement flat each

theorem proper_cons {statement : Statement} {rest : Fragment}
    (first : ∀ inner ∈ statement.walk, inner.isStray = false) (others : Proper rest) :
    Proper (statement :: rest) :=
  forall_walk_cons first others

theorem proper_container {middle : Fragment} (iter inner : VarName) (note typeConst : String)
    (signature : Option String) (recovery : String) (filled : Proper middle) :
    Proper ([.comment note, .openContainer iter typeConst signature inner recovery, .blank] ++
      middle ++ [.closeContainer iter inner recovery]) :=
  forall_walk_container rfl rfl rfl rfl rfl filled

theorem proper_loop (index array : VarName) (length : Option VarName) (declared : List TypedVar)
    {copies code : Fragment} (copied : Proper copies) (filled : Proper code) :
    Proper
      [.loop index array length
        ((declared.map fun entry => .declare entry.type entry.name) ++ [.blank] ++ copies ++
          [.blank] ++ code), .blank] := by
  have blank : Proper [.blank] := List.forall_mem_singleton.2 rfl
  have declarations : Proper (declared.map fun entry => .declare entry.type entry.name) :=
    proper_map _ _ (fun _ => rfl) (fun _ _ => rfl)
  have body := proper_append (proper_append (proper_append (proper_append declarations blank)
    copied) blank) filled
  apply proper_cons _ blank
  intro inner listed
  rcases List.mem_cons.1 listed with same | inBody
  · rw [same]
    rfl
  · exact body inner inBody

end Fragment

/-! ### Printing -/

mutual

theorem Statement.exists_lines (step : String) (statement : Statement)
    (proper : ∀ inner ∈ statement.walk, inner.isStray = false) :
    ∃ lines, statement.lines step = .ok lines := by
  cases statement with
  | stray text => cases proper _ List.mem_cons_self
  | loop index array length body =>
      obtain ⟨inner, printed⟩ := Fragment.exists_lines step body
        (fun statement listed => proper statement (List.mem_cons_of_mem _ listed))
      rw [Statement.lines, printed]
      exact ⟨_, rfl⟩
  | _ => exact ⟨_, rfl⟩

theorem Fragment.exists_lines (step : String) (fragment : List Statement)
    (proper : Fragment.Proper fragment) : ∃ lines, Fragment.lines step fragment = .ok lines := by
  cases fragment with
  | nil => exact ⟨_, rfl⟩
  | cons statement rest =>
      obtain ⟨first, others⟩ := List.forall_mem_append.1 proper
      obtain ⟨lines, printed⟩ := Statement.exists_lines step statement first
      obtain ⟨more, printedMore⟩ := Fragment.exists_lines step rest others
      rw [Fragment.lines, printed, printedMore]
      exact ⟨_, rfl⟩

end

/-! ### What generation emits -/

/-- Whenever the action succeeds, it gives back statements only. -/
def EmitsProper (action : Emit Fragment) : Prop :=
  ∀ pool after fragment, action pool = .ok fragment after → Fragment.Proper fragment

namespace EmitsProper

theorem pure {fragment : Fragment} (proper : Fragment.Proper fragment) :
    EmitsProper (Pure.pure fragment) := by
  intro pool after other ended
  cases ended
  exact proper

theorem throw (fault : Fault) : EmitsProper (MonadExcept.throw fault) := by
  intro pool after fragment impossible
  cases impossible

theorem guard {test : Prop} [Decidable test] {fault : Fault} {next : PUnit → Emit Fragment}
    {action : Emit Fragment} (otherwise : EmitsProper action) :
    EmitsProper (if test then MonadExcept.throw fault >>= next else action) := by
  split
  · intro pool after fragment impossible
    cases impossible
  · exact otherwise

theorem bind {α : Type} {action : Emit α} {next : α → Emit Fragment}
    (later : ∀ before first after, action before = .ok first after → EmitsProper (next first)) :
    EmitsProper (action >>= next) := by
  intro pool after fragment ended
  obtain ⟨first, between, ran, ended⟩ := exists_of_bind_ok ended
  exact later pool first between ran between after fragment ended

theorem readInputs (name : VarName) (lists own : Lists) (vars : List Nat) :
    EmitsProper (DBusMarshal.readInputs name lists own vars) := by
  induction vars with
  | nil => exact pure Fragment.proper_nil
  | cons var rest ih =>
      apply bind
      intro _ pool _ _
      apply bind
      intro _ field _ _
      apply bind
      intro _ _ _ _
      apply bind
      intro _ others _ read
      exact pure (Fragment.proper_cons (List.forall_mem_singleton.2 rfl) (ih _ _ _ read))

theorem emitMember {body : Lists → Emit Fragment} (name : VarName) (lists : Lists)
    (inner : ∀ own, EmitsProper (body own)) :
    EmitsProper (DBusMarshal.emitMember name lists body) := by
  have blank : Fragment.Proper [.blank] := List.forall_mem_singleton.2 rfl
  apply bind
  intro _ own _ _
  apply bind
  intro _ code _ ran
  apply bind
  intro _ _ _ _
  apply bind
  intro _ pool _ _
  apply bind
  intro _ reads _ read
  apply pure
  apply Fragment.proper_append _ blank
  apply Fragment.proper_append _ (inner _ _ _ _ ran)
  exact Fragment.proper_append (readInputs name lists own _ _ _ _ read) blank

theorem liftInputs (name element index : VarName) (lists own : Lists) (vars : List Nat) :
    EmitsProper (DBusMarshal.liftInputs name element index lists own vars) := by
  induction vars with
  | nil => exact pure Fragment.proper_nil
  | cons var rest ih =>
      apply bind
      intro _ pool _ _
      apply bind
      intro _ array _ _
      apply bind
      intro _ _ _ _
      apply bind
      intro _ _ _ _
      apply bind
      intro _ others _ lifted
      exact pure (Fragment.proper_cons (List.forall_mem_singleton.2 rfl) (ih _ _ _ lifted))

theorem emitArray (element : Node) (recovery : String) (iter name : VarName) (lists : Lists)
    {body : VarName → VarName → Lists → Emit Fragment}
    (inner : ∀ iter name own, EmitsProper (body iter name own)) :
    EmitsProper (DBusMarshal.emitArray element recovery iter name lists body) := by
  apply bind
  intro _ _ _ _
  apply bind
  intro _ own _ _
  apply bind
  intro _ code _ ran
  apply bind
  intro _ _ _ _
  apply bind
  intro _ copies _ lifted
  apply bind
  intro _ pool _ _
  have proper := fun length : Option VarName =>
    Fragment.proper_container iter (name.child .iter) "Marshal an array onto the message"
      "DBUS_TYPE_ARRAY" element.signature recovery
      (Fragment.proper_loop (name.child .index) name length (pool.listed own.locals)
        (liftInputs name _ _ lists own _ _ _ _ lifted) (inner _ _ _ _ _ _ ran))
  dsimp only
  split
  · apply bind
    intro _ _ _ _
    exact pure (proper _)
  · exact pure (proper _)

theorem emitStruct (options : Options) (node : Node) (recovery : String) (iter name : VarName)
    (lists : Lists) {members : VarName → Emit Fragment}
    (inner : ∀ iter, EmitsProper (members iter)) :
    EmitsProper (DBusMarshal.emitStruct options node recovery iter name lists members) := by
  apply bind
  intro _ type _ _
  apply bind
  intro _ const _ _
  apply bind
  intro _ _ _ _
  apply bind
  intro _ code _ ran
  apply bind
  intro _ _ _ _
  exact pure (Fragment.proper_container _ _ _ _ _ _ (inner _ _ _ _ ran))

theorem emitBasic (options : Options) (node : Node) (recovery : String) (iter name : VarName)
    (lists : Lists) :
    EmitsProper (DBusMarshal.emitBasic options node recovery iter name lists) := by
  apply bind
  intro _ type _ _
  apply bind
  intro _ const _ _
  apply bind
  intro _ _ _ _
  apply pure
  intro statement listed
  simp only [Fragment.walk, Statement.walk, List.append_nil, List.cons_append, List.nil_append,
    List.mem_cons, List.not_mem_nil, or_false] at listed
  rcases listed with same | same | same <;> rw [same] <;> rfl

theorem append {first second : Emit Fragment} (left : EmitsProper first)
    (right : EmitsProper second) :
    EmitsProper (do
      let code ← first
      let more ← second
      return code ++ more) := by
  apply bind
  intro _ code _ ran
  apply bind
  intro _ more _ ranMore
  exact pure (Fragment.proper_append (left _ _ _ ran) (right _ _ _ ranMore))

end EmitsProper

mutual

/-- The code for any tree consists of statements. -/
theorem Node.emitsProper (options : Options) (recovery : String) (node : Node)
    (iter name : VarName) (lists : Lists) :
    EmitsProper (node.emit options recovery iter name lists) := by
  cases node with
  | basic code =>
      rw [Node.emit]
      exact .emitBasic options _ recovery iter name lists
  | array element =>
      rw [Node.emit]
      exact .emitArray element recovery iter name lists
        (fun iter name own => Node.emitsProper options recovery element iter name own)
  | struct members =>
      rw [Node.emit]
      exact .emitStruct options _ recovery iter name lists
        (fun inner => Node.emitsProper_emitAll options recovery members inner name 0 lists)
  | entry key value =>
      rw [Node.emit]
      exact .emitStruct options _ recovery iter name lists
        (fun inner => .append
          (.emitMember name lists (Node.emitsProper options recovery key inner _))
          (.emitMember name lists (Node.emitsProper options recovery value inner _)))
  | variant =>
      rw [Node.emit]
      exact .throw _
  | stray text =>
      rw [Node.emit]
      exact .throw _

theorem Node.emitsProper_emitAll (options : Options) (recovery : String) (members : List Node)
    (inner name : VarName) (position : Nat) (lists : Lists) :
    EmitsProper (Node.emitAll options recovery members inner name position lists) := by
  cases members with
  | nil => exact .pure Fragment.proper_nil
  | cons member rest =>
      rw [Node.emitAll]
      exact .append (.emitMember name lists (Node.emitsProper options recovery member inner _))
        (Node.emitsProper_emitAll options recovery rest inner name (position + 1) lists)

end

theorem Node.emitsProper_marshalOnto (options : Options) (node : Node) (iter name : GivenName)
    (recovery : Option String) (lists : Option Lists) :
    EmitsProper (node.marshalOnto options iter name recovery lists) := by
  unfold Node.marshalOnto
  apply EmitsProper.guard
  split
  · split
    · exact .throw _
    · split
      · exact .throw _
      · apply EmitsProper.guard
        exact node.emitsProper options _ _ _ _
  · exact .throw _

theorem Node.proper_of_marshal {options : Options} {node : Node} {iter name : GivenName}
    {recovery : Option String} {listsGiven : Bool} {before after : Scope} {fragment : Fragment}
    (ended : node.marshal options iter name recovery listsGiven before = .ok fragment after) :
    fragment.Proper := by
  unfold Node.marshal at ended
  dsimp only at ended
  split at ended
  · rename_i ran
    cases ended
    exact node.emitsProper_marshalOnto options iter name recovery _ _ _ _ ran
  · cases ended

section

variable {options : Options} {source : Source} {iter name : GivenName} {recovery : Option String}
  {generated : Generated}

theorem exists_marshal_of_generate
    (ended : generate options source iter name recovery = .ok generated) :
    ∃ (node : Node) (scope : Scope),
      node.marshal options iter name recovery true {} = .ok generated.fragment scope := by
  unfold generate at ended
  cases isTree : source.node with
  | error fault =>
      rw [isTree] at ended
      cases ended
  | ok node =>
      simp only [isTree, bind, Except.bind] at ended
      split at ended
      · cases ended
      · split at ended
        · cases ended
        · cases ran : node.marshal options iter name recovery true {} with
          | error fault scope =>
              rw [ran] at ended
              cases ended
          | ok fragment scope =>
              rw [ran] at ended
              cases ended
              exact ⟨node, scope, ran⟩

/-- Whatever generation gives back can be printed. -/
theorem exists_code_of_generate
    (ended : generate options source iter name recovery = .ok generated) :
    ∃ code, generated.code = .ok code := by
  obtain ⟨node, scope, ran⟩ := exists_marshal_of_generate ended
  obtain ⟨lines, printed⟩ := Fragment.exists_lines generated.options.indentStep _
    (Node.proper_of_marshal ran)
  refine ⟨joinLines lines, ?_⟩
  rw [Generated.code, Fragment.render, printed]
  rfl

end

end DBusMarshal
