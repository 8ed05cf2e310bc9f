import DBusMarshal.Proofs.Ownership
import DBusMarshal.Proofs.Pools

/-!
Generation succeeds on every type that can be marshalled.

`Node.emit` adds the inputs and the local variables of a type to two lists whenever the lists hold
none of their names, and gives back the statements of `Node.code`. A name that is taken is the only
thing that it can be refused for: a new variable has no owner, and every variable that is moved is
owned by the list that it is moved from.
-/

set_option autoImplicit false

namespace DBusMarshal

open Pool (change declare)

/-! ### Types and constants -/

namespace Node

theorem exists_basicCType {code : String} (known : code ∈ basicCodes) :
    ∃ type, basicCType code = some type := by
  simp only [basicCodes, fixedCodes, textCodes, List.cons_append, List.nil_append, List.mem_cons,
    List.not_mem_nil, or_false] at known
  rcases known with same | same | same | same | same | same | same | same | same | same | same |
    same | same <;> subst same <;> exact ⟨_, rfl⟩

theorem exists_basicConst {code : String} (known : code ∈ basicCodes) :
    ∃ const, basicConst code = some const := by
  simp only [basicCodes, fixedCodes, textCodes, List.cons_append, List.nil_append, List.mem_cons,
    List.not_mem_nil, or_false] at known
  rcases known with same | same | same | same | same | same | same | same | same | same | same |
    same | same <;> subst same <;> exact ⟨_, rfl⟩

theorem Marshallable.signature? {node : Node} (marshallable : node.Marshallable) :
    node.signature? = .ok node.signature := by
  rw [Node.signature?, marshallable.hasStray]
  rfl

theorem Marshallable.structName {node : Node} (marshallable : node.Marshallable)
    (options : Options) : ∃ name, options.structName node = .ok name := by
  unfold Options.structName
  rw [marshallable.signature?]
  cases chosen : options.chosenName node.signature with
  | none => exact ⟨_, by simp only [bind, Except.bind, chosen]; rfl⟩
  | some name => exact ⟨name, by simp only [bind, Except.bind, chosen]; rfl⟩

theorem cType_of_typeOf {options : Options} {node : Node} {type : String}
    (found : options.typeOf node = .ok type) : node.cType options = type := by
  rw [cType, found]
  rfl

theorem typeOf_of_isGroup (options : Options) {node : Node} (group : node.isGroup = true) :
    options.typeOf node =
      (options.structName node).map fun name => CType.toPointer ("struct " ++ name) := by
  cases node with
  | struct _ => rfl
  | entry _ _ => rfl
  | _ => cases group

theorem Marshallable.typeOf {node : Node} (marshallable : node.Marshallable)
    (options : Options) : options.typeOf node = .ok (node.cType options) := by
  have exists_type : ∃ type, options.typeOf node = .ok type := by
    induction marshallable using Marshallable.byKind with
    | basic written known =>
        obtain ⟨type, found⟩ := exists_basicCType known
        exact ⟨type, by rw [Options.typeOf, found]; rfl⟩
    | array element inside ih =>
        obtain ⟨type, found⟩ := ih
        exact ⟨CType.toPointer type, by rw [Options.typeOf, found]; rfl⟩
    | group node marshallable isGroup _ =>
        obtain ⟨name, found⟩ := marshallable.structName options
        exact ⟨CType.toPointer ("struct " ++ name), by
          rw [typeOf_of_isGroup options isGroup, found]; rfl⟩
  obtain ⟨type, found⟩ := exists_type
  rw [cType_of_typeOf found, found]

theorem Marshallable.typeConst {node : Node} (marshallable : node.Marshallable) :
    node.typeConst = .ok node.constant := by
  cases marshallable with
  | basic known =>
      obtain ⟨const, found⟩ := exists_basicConst known
      rw [Node.constant, Node.typeConst, found]
      rfl
  | array _ => rfl
  | struct _ => rfl
  | entry _ _ => rfl

end Node

/-! ### Scopes -/

namespace Scope

/-- The scope with more inputs and local variables behind its own. -/
def extend (scope : Scope) (inputs locals : List TypedVar) : Scope :=
  ⟨scope.inputs ++ inputs, scope.locals ++ locals⟩

def join (scope added : Scope) : Scope := scope.extend added.inputs added.locals

/-- The scope has room for more inputs and local variables: no name comes twice. -/
structure Fits (scope : Scope) (inputs locals : List TypedVar) : Prop where
  inputs : ((scope.inputs ++ inputs).map TypedVar.name).Nodup
  locals : ((scope.locals ++ locals).map TypedVar.name).Nodup

/-- A name that is to be added to one of the lists occurs there already. -/
def Clashes (scope added : Scope) : Prop :=
  (∃ entry ∈ added.inputs, entry.name ∈ scope.inputs.map TypedVar.name) ∨
    ∃ entry ∈ added.locals, entry.name ∈ scope.locals.map TypedVar.name

instance (scope added : Scope) : Decidable (scope.Clashes added) :=
  inferInstanceAs (Decidable (_ ∨ _))

variable {scope added more : Scope}

theorem clashes_join :
    scope.Clashes (added.join more) ↔ scope.Clashes added ∨ scope.Clashes more := by
  simp only [Clashes, join, extend, List.mem_append, or_and_right, exists_or]
  exact or_or_or_comm

theorem join_clashes :
    (scope.join added).Clashes more ↔ scope.Clashes more ∨ added.Clashes more := by
  simp only [Clashes, join, extend, List.map_append, List.mem_append, and_or_left, exists_or]
  exact or_or_or_comm

theorem join_join : (scope.join added).join more = scope.join (added.join more) := by
  simp [join, extend]

theorem join_empty (scope : Scope) : scope.join {} = scope := by
  simp [join, extend]

theorem not_clashes_empty (scope : Scope) : ¬ scope.Clashes {} := by
  simp [Clashes]

theorem empty_not_clashes (added : Scope) : ¬ Clashes {} added := by
  simp [Clashes]

theorem clashes_input {entry : TypedVar} :
    scope.Clashes ⟨[entry], []⟩ ↔ entry.name ∈ scope.inputs.map TypedVar.name := by
  simp [Clashes]

theorem clashes_local {entry : TypedVar} :
    scope.Clashes ⟨[], [entry]⟩ ↔ entry.name ∈ scope.locals.map TypedVar.name := by
  simp [Clashes]

theorem not_mem_of_nodup {entries rest : List TypedVar}
    (distinct : ((entries ++ rest).map TypedVar.name).Nodup) :
    ¬ ∃ entry ∈ rest, entry.name ∈ entries.map TypedVar.name := by
  rw [List.map_append, List.nodup_append] at distinct
  rintro ⟨entry, listed, taken⟩
  exact distinct.2.2 entry.name taken entry.name (List.mem_map_of_mem listed) rfl

theorem Fits.not_clashes {inputs locals : List TypedVar} (fits : scope.Fits inputs locals) :
    ¬ scope.Clashes ⟨inputs, locals⟩ :=
  not_or.2 ⟨not_mem_of_nodup fits.inputs, not_mem_of_nodup fits.locals⟩

theorem not_clashes_inputs {first others : List TypedVar}
    (distinct : ((first ++ others).map TypedVar.name).Nodup) :
    ¬ Clashes ⟨first, []⟩ ⟨others, []⟩ :=
  Fits.not_clashes ⟨distinct, List.nodup_nil⟩

theorem not_clashes_locals {first others : List TypedVar}
    (distinct : ((first ++ others).map TypedVar.name).Nodup) :
    ¬ Clashes ⟨[], first⟩ ⟨[], others⟩ :=
  Fits.not_clashes ⟨List.nodup_nil, distinct⟩

end Scope

/-! ### How actions end -/

/-- An action that adds variables to two lists has ended: it was refused because one of the names
was taken, or the variables stand behind those that were there before. -/
def Ends {α : Type} (lists : Lists) (before : Scope) (kept : Pool → Prop) (result : α)
    (added : Scope) (ended : EStateM.Result Fault Pool α) : Prop :=
  (before.Clashes added ∧ ∃ name after, ended = .error (.breach (.duplicateName name)) after) ∨
    (¬ before.Clashes added ∧ ∃ after : Pool,
      ended = .ok result after ∧ kept after ∧ after.scope lists = before.join added)

/-- The action gives one result and adds the same variables on all lists where their names are new,
and is refused on all others. -/
def Appends {α : Type} (lists : Lists) (action : Emit α) (result : α) (added : Scope) : Prop :=
  ∀ pool : Pool, pool.Takes lists →
    Ends lists (pool.scope lists) (pool.Grows lists) result added (action pool)

section Laws

variable {α β : Type} {lists : Lists} {before added more : Scope} {kept keptToo : Pool → Prop}
  {action : Emit α} {next : α → Emit β} {result : α} {final : β} {pool : Pool}

theorem Ends.pure (good : kept pool) : Ends lists (pool.scope lists) kept result {}
    ((Pure.pure result : Emit α) pool) :=
  Or.inr ⟨Scope.not_clashes_empty _, pool, rfl, good, (Scope.join_empty _).symm⟩

theorem Ends.bind (first : Ends lists before kept result added (action pool))
    (later : ∀ after, kept after → after.scope lists = before.join added →
      Ends lists (after.scope lists) keptToo final more (next result after))
    (apart : ¬ added.Clashes more) :
    Ends lists before keptToo final (added.join more) ((action >>= next) pool) := by
  rcases first with ⟨clash, name, after, refused⟩ | ⟨free, after, ended, good, view⟩
  · exact Or.inl ⟨Scope.clashes_join.2 (Or.inl clash), name, after, bind_of_error refused⟩
  · have second := later after good view
    rw [view] at second
    rw [bind_of_ok ended]
    rcases second with ⟨clash, refused⟩ | ⟨freeLater, last, endedToo, goodToo, viewToo⟩
    · have late := (Scope.join_clashes.1 clash).resolve_right apart
      exact Or.inl ⟨Scope.clashes_join.2 (Or.inr late), refused⟩
    · refine Or.inr ⟨?_, last, endedToo, goodToo, viewToo.trans Scope.join_join⟩
      rw [Scope.clashes_join, not_or]
      exact ⟨free, mt (fun late => Scope.join_clashes.2 (Or.inl late)) freeLater⟩

/-- What is computed from the result changes no list. -/
theorem Ends.returns (ended : Ends lists before kept result added (action pool)) (value : α → β) :
    Ends lists before kept (value result) added
      ((action >>= fun found => Pure.pure (value found)) pool) := by
  rcases ended with ⟨clash, name, after, refused⟩ | ⟨free, after, ran, good, view⟩
  · exact Or.inl ⟨clash, name, after, bind_of_error refused⟩
  · exact Or.inr ⟨free, after, by rw [bind_of_ok ran]; rfl, good, view⟩

theorem Ends.mono (ended : Ends lists before kept result added (action pool))
    (weaker : ∀ after, kept after → keptToo after) :
    Ends lists before keptToo result added (action pool) := by
  rcases ended with refused | ⟨free, after, ran, good, view⟩
  · exact Or.inl refused
  · exact Or.inr ⟨free, after, ran, weaker after good, view⟩

theorem Appends.pure (lists : Lists) (result : α) : Appends lists (Pure.pure result) result {} :=
  fun _ takes => .pure (.refl takes.sound lists)

theorem Appends.bind (first : Appends lists action result added)
    (later : Appends lists (next result) final more) (apart : ¬ added.Clashes more) :
    Appends lists (action >>= next) final (added.join more) :=
  fun pool takes => (first pool takes).bind
    (fun after grows _ => (later after (grows.takes takes)).mono fun _ growsToo =>
      grows.trans growsToo (Or.inl rfl) (Or.inl rfl)) apart

theorem Appends.returns (appends : Appends lists action result added) (value : α → β) :
    Appends lists (action >>= fun found => Pure.pure (value found)) (value result) added :=
  fun pool takes => (appends pool takes).returns value

theorem Appends.except {found : Except Fault α} (isOk : found = .ok result)
    (later : Appends lists (next result) final added) :
    Appends lists (MonadExcept.ofExcept found >>= next) final added :=
  fun pool takes => by
    rw [bind_of_except isOk]
    exact later pool takes

end Laws

/-! ### New variables -/

/-- A new variable is added to one of the two lists. -/
theorem ends_declare {pool : Pool} {lists : Lists} {list : Nat} {entry : TypedVar} {added : Scope}
    (takes : pool.Takes lists) (given : list = lists.inputs ∨ list = lists.locals)
    (clashes : (pool.scope lists).Clashes added ↔
      entry.name ∈ (pool.listed list).map TypedVar.name)
    (view : (Pool.put list pool entry).scope lists = (pool.scope lists).join added) :
    Ends lists (pool.scope lists) (pool.Grows lists) () added (declare list entry pool) := by
  have inUse : list < pool.listCount := by
    rcases given with same | same
    · exact same ▸ takes.inputs
    · exact same ▸ takes.locals
  rcases takes.sound.declare_cases list entry with ⟨taken, after, refused⟩ | ⟨new, declared⟩
  · exact Or.inl ⟨clashes.2 taken, _, after, refused⟩
  · exact Or.inr ⟨mt clashes.1 new, _, declared, takes.sound.grows_put inUse given new, view⟩

theorem appends_input (lists : Lists) (entry : TypedVar) :
    Appends lists (declare lists.inputs entry) () ⟨[entry], []⟩ := by
  intro pool takes
  refine ends_declare takes (Or.inl rfl) Scope.clashes_input ?_
  rw [Pool.scope, takes.sound.listed_put_same,
    takes.sound.listed_put_other entry takes.different.symm]
  simp [Scope.join, Scope.extend, Pool.scope]

theorem appends_local (lists : Lists) (entry : TypedVar) :
    Appends lists (declare lists.locals entry) () ⟨[], [entry]⟩ := by
  intro pool takes
  refine ends_declare takes (Or.inr rfl) Scope.clashes_local ?_
  rw [Pool.scope, takes.sound.listed_put_same, takes.sound.listed_put_other entry takes.different]
  simp [Scope.join, Scope.extend, Pool.scope]

/-! ### Variables on their way -/

section Moves

variable {base pool after : Pool} {lists own : Lists}

theorem listed_of_grows (beside : base.Beside lists own pool) (grows : pool.Grows lists after)
    {list : Nat} (ofOwn : list = own.inputs ∨ list = own.locals) :
    after.members list = pool.members list ∧ after.listed list = pool.listed list := by
  obtain ⟨inUse, notInputs, notLocals⟩ := beside.apart ofOwn
  have members := grows.others list inUse notInputs notLocals
  exact ⟨members, beside.taken.sound.listed_congr grows.vars members⟩

/-- What a new list hands over to the local variables is added to them. -/
theorem ends_change {source : Nat} {front : List Nat} {action : EStateM Fault Registry Unit}
    (beside : base.Beside lists own pool) (ofOwn : source = own.inputs ∨ source = own.locals)
    (handed : pool.HandsOver source lists.locals front (action pool.toRegistry)) :
    Ends lists (pool.scope lists)
      (fun after => base.Beside lists own after ∧
        pool.Hands after.toRegistry source lists.locals front) ()
      ⟨[], front.map pool.vars⟩ (change action pool) := by
  have clashes_iff : (pool.scope lists).Clashes ⟨[], front.map pool.vars⟩ ↔
      ∃ var ∈ front, pool.nameOf var ∈ pool.heldNames lists.locals := by
    rw [Registry.heldNames_eq]
    simp [Scope.Clashes, Pool.scope, Registry.nameOf]
  rcases handed with ⟨taken, name, next, refused⟩ | ⟨free, next, ended, hands⟩
  · exact Or.inl ⟨clashes_iff.2 taken, name, _, Pool.change_of_error refused⟩
  · have notClashes : ¬ (pool.scope lists).Clashes ⟨[], front.map pool.vars⟩ := by
      rw [clashes_iff]
      rintro ⟨var, moved, taken⟩
      exact free var moved taken
    refine Or.inr ⟨notClashes, _, Pool.change_of_ok ended,
      ⟨beside.hands hands ofOwn (Or.inr rfl), hands⟩, ?_⟩
    have notSource : lists.inputs ≠ source := (beside.apart ofOwn).2.1.symm
    rw [Pool.scope, hands.listed_target, hands.listed_others notSource beside.takes.different]
    simp [Scope.join, Scope.extend, Pool.scope]

/-- The first input of the new lists goes to the local variables beside it, unless one of these has
its name. -/
theorem exists_transfer {var : Nat} {back : List Nat} (beside : base.Beside lists own pool)
    (holds : pool.members own.inputs = var :: back)
    (free : pool.nameOf var ∉ pool.heldNames own.locals) :
    ∃ after : Pool, change (Registry.transfer own.inputs var own.locals) pool = .ok () after ∧
      base.Beside lists own after ∧
      pool.Hands after.toRegistry own.inputs own.locals [var] ∧
      after.scope lists = pool.scope lists := by
  obtain ⟨_, inputsInputs, inputsLocals⟩ := beside.apart (Or.inl rfl)
  obtain ⟨_, localsInputs, localsLocals⟩ := beside.apart (Or.inr rfl)
  rcases beside.taken.sound.registry.transfer_front beside.taken.different holds with
    ⟨⟨one, isFirst, taken⟩, _⟩ | ⟨_, next, moved, hands⟩
  · rw [List.mem_singleton.1 isFirst] at taken
    exact absurd taken free
  · refine ⟨_, Pool.change_of_ok moved, beside.hands hands (Or.inl rfl) (Or.inl rfl), hands, ?_⟩
    rw [Pool.scope, hands.listed_others inputsInputs.symm localsInputs.symm,
      hands.listed_others inputsLocals.symm localsLocals.symm, Pool.scope]

/-- Code for a part is generated onto new lists, which hold nothing, so nothing is in its way. -/
theorem Appends.run_own {body : Lists → Emit Fragment} {code : Fragment} {added : Scope}
    (appends : ∀ own, Appends own (body own) code added) (takes : pool.Takes lists) :
    ∃ own filled, Pool.newLists pool = .ok own pool.withList.withList ∧
      body own pool.withList.withList = .ok code filled ∧
      pool.Beside lists own filled ∧ filled.scope own = added ∧
      filled.scope lists = pool.scope lists := by
  have opened := Pool.Beside.opened takes
  have registry : pool.withList.withList.toRegistry = pool.toRegistry :=
    ((Pool.Grows.refl takes.sound lists).withList.sound.registry_withList).trans
      takes.sound.registry_withList
  have sameLists (of : Lists) : pool.withList.withList.scope of = pool.scope of := by
    rw [Pool.scope, registry, Pool.scope]
  have bare : pool.scope { inputs := pool.listCount, locals := pool.listCount + 1 } = {} := by
    rw [Pool.scope, Registry.listed, Registry.listed,
      takes.sound.listsInUse _ (Nat.le_refl _), takes.sound.listsInUse _ (Nat.le_succ _)]
    rfl
  rcases appends _ _ opened.taken with ⟨clash, _⟩ | ⟨_, filled, ran, grows, view⟩
  · rw [sameLists, bare] at clash
    exact absurd clash (Scope.empty_not_clashes added)
  · rw [sameLists, bare] at view
    refine ⟨_, filled, rfl, ran, opened.grown_own grows, view, ?_⟩
    obtain ⟨inputsInUse, localsInUse⟩ := And.intro takes.inputs takes.locals
    have apart : ∀ list < pool.listCount, filled.listed list = pool.listed list := by
      intro list inUse
      have members := grows.others list (Nat.lt_of_lt_of_le inUse opened.grows.listCount)
        (Nat.ne_of_lt inUse) (Nat.ne_of_lt (Nat.lt_succ_of_lt inUse))
      rw [opened.taken.sound.listed_congr grows.vars members, registry]
    rw [Pool.scope, apart _ inputsInUse, apart _ localsInUse, Pool.scope]

end Moves

namespace Node

theorem lift_under (port : Port) (name : VarName) :
    (⟨CType.toConst (CType.toPointer port.type), name.append port.path⟩ : TypedVar) =
      port.lift.under name := by
  simp only [Port.under, Port.lift]

def lifted (options : Options) (element : Node) (name : VarName) : List TypedVar :=
  (element.ports options).map fun port => port.lift.under name

theorem nodup_of_listed {pool : Pool} {list : Nat} {entries : List TypedVar}
    (sound : pool.Sound) (holds : pool.listed list = entries) :
    (entries.map TypedVar.name).Nodup := by
  rw [← holds, ← Registry.heldNames_eq]
  exact sound.registry.distinct list

section Loops

variable {base pool : Pool} {lists own : Lists}

theorem ends_readInputs (name : VarName) (position : Nat) {ports : List Port}
    (beside : base.Beside lists own pool)
    (holds : pool.listed own.inputs =
      ports.map fun port => port.under (name.child (.item position))) :
    Ends lists (pool.scope lists) (base.Beside lists own)
      (ports.map fun port =>
        .readField ((name.child (.item position)).append port.path) name
          (fieldText (.item position :: port.path)))
      ⟨[], ports.map fun port => port.under (name.child (.item position))⟩
      (readInputs name lists own (pool.members own.inputs) pool) := by
  induction ports generalizing pool with
  | nil =>
      rw [List.map_eq_nil_iff.1 holds]
      exact Ends.pure beside
  | cons port rest ih =>
      obtain ⟨var, back, members, entry, _⟩ := List.map_eq_cons_iff.1 holds
      have field : (port.under (name.child (.item position))).name.fieldOf name =
          .ok (fieldText (.item position :: port.path)) := by
        rw [Port.under, VarName.child_append]
        exact VarName.fieldOf_append name (List.cons_ne_nil _ _)
      have notTarget : own.inputs ≠ lists.locals := (beside.apart (Or.inl rfl)).2.2
      have moved := ends_change beside (Or.inl rfl)
        (beside.taken.sound.registry.transfer_front notTarget members)
      rw [List.map_singleton, entry] at moved
      have distinct := nodup_of_listed beside.taken.sound holds
      have unfolded : readInputs name lists own (var :: back) pool =
          (MonadExcept.ofExcept ((pool.vars var).name.fieldOf name) >>= fun field =>
            change (Registry.transfer own.inputs var lists.locals) >>= fun _ =>
              readInputs name lists own back >>= fun reads =>
                pure (.readField (pool.vars var).name name field :: reads)) pool := rfl
      rw [members, unfolded, entry, bind_of_except field]
      refine moved.bind (fun after kept _ => ?_) (Scope.not_clashes_locals distinct)
      obtain ⟨besideAfter, hands⟩ := kept
      have remaining : after.members own.inputs = back :=
        (List.cons.inj (members.symm.trans hands.source)).2.symm
      have holdsAfter := holds.symm.trans hands.listed_source
      rw [List.map_singleton] at holdsAfter
      have later := ih besideAfter (List.cons.inj holdsAfter).2.symm
      rw [remaining] at later
      exact later.returns _

theorem ends_liftInputs (name : VarName) {ports : List Port}
    (beside : base.Beside lists own pool)
    (holds : pool.listed own.inputs = ports.map fun port => port.under (name.child .element))
    (lifted : ((ports.map fun port => port.lift.under name).map TypedVar.name).Nodup)
    (declared : ((pool.listed own.locals ++
      ports.map fun port => port.under (name.child .element)).map TypedVar.name).Nodup) :
    Ends lists (pool.scope lists)
      (fun after => base.Beside lists own after ∧
        after.listed own.locals = pool.listed own.locals ++
          ports.map fun port => port.under (name.child .element))
      (ports.map fun port =>
        .assign ((name.child .element).append port.path) (name.append port.path)
          (name.child .index))
      ⟨ports.map fun port => port.lift.under name, []⟩
      (liftInputs name (name.child .element) (name.child .index) lists own
        (pool.members own.inputs) pool) := by
  induction ports generalizing pool with
  | nil =>
      rw [List.map_eq_nil_iff.1 holds]
      exact Ends.pure ⟨beside, (List.append_nil _).symm⟩
  | cons port rest ih =>
      obtain ⟨var, back, members, entry, _⟩ := List.map_eq_cons_iff.1 holds
      have rebased : (port.under (name.child .element)).name.rebase (name.child .element) name =
          .ok (name.append port.path) := VarName.rebase_append _ name port.path
      have input : (⟨CType.toConst (CType.toPointer (port.under (name.child .element)).type),
          name.append port.path⟩ : TypedVar) = port.lift.under name := lift_under port name
      have unfolded : liftInputs name (name.child .element) (name.child .index) lists own
            (var :: back) pool =
          (MonadExcept.ofExcept ((pool.vars var).name.rebase (name.child .element) name) >>=
            fun array =>
              declare lists.inputs ⟨CType.toConst (CType.toPointer (pool.vars var).type), array⟩ >>=
                fun _ => change (Registry.transfer own.inputs var own.locals) >>= fun _ =>
                  liftInputs name (name.child .element) (name.child .index) lists own back >>=
                    fun copies =>
                      pure (.assign (pool.vars var).name array (name.child .index) :: copies))
            pool := rfl
      have given := beside.grows.takes beside.takes
      rw [members, unfolded, entry, bind_of_except rebased, input]
      refine (appends_input lists (port.lift.under name) pool given).bind
        (fun between grows _ => ?_) (Scope.not_clashes_inputs lifted)
      -- The array is an input of the caller now, and its element goes to what the loop declares.
      have besideThen := beside.grown grows
      obtain ⟨sameInputs, sameEntries⟩ := listed_of_grows beside grows (Or.inl rfl)
      obtain ⟨_, sameLocals⟩ := listed_of_grows beside grows (Or.inr rfl)
      rw [members] at sameInputs
      rw [holds, List.map_cons] at sameEntries
      rw [Registry.listed, sameInputs] at sameEntries
      have entryThen : between.vars var = port.under (name.child .element) :=
        (List.cons.inj sameEntries).1
      rw [← sameLocals] at declared ⊢
      have free : between.nameOf var ∉ between.heldNames own.locals := by
        rw [Registry.heldNames_eq, Registry.nameOf, entryThen]
        intro taken
        exact Scope.not_mem_of_nodup declared ⟨_, List.mem_cons_self, taken⟩
      obtain ⟨last, moved, besideAfter, hands, sameScope⟩ :=
        exists_transfer besideThen sameInputs free
      rw [bind_of_ok moved, ← sameScope]
      have locals := hands.listed_target
      rw [List.map_singleton, entryThen] at locals
      have remaining : last.members own.inputs = back :=
        (List.cons.inj (sameInputs.symm.trans hands.source)).2.symm
      have inputs := hands.listed_source
      rw [Registry.listed, sameInputs, sameEntries, List.map_singleton] at inputs
      have later := ih besideAfter (List.cons.inj inputs).2.symm (List.nodup_cons.1 lifted).2
        (by rw [locals, List.append_assoc]; exact declared)
      rw [remaining, locals, List.append_assoc] at later
      exact later.returns _

end Loops

/-! ### The code of every type -/

section Types

variable {lists : Lists}

theorem appends_emitMember (options : Options) (member : Node) (name : VarName) (position : Nat)
    {body : Lists → Emit Fragment} {code : Fragment}
    (appends : ∀ own, Appends own (body own) code
      ⟨member.inputs options (name.child (.item position)),
        member.locals options (name.child (.item position))⟩)
    (distinct : ((member.locals options (name.child (.item position)) ++
      member.inputs options (name.child (.item position))).map TypedVar.name).Nodup) :
    Appends lists (emitMember name lists body) (memberCode options member name position code)
      ⟨[], member.locals options (name.child (.item position)) ++
        member.inputs options (name.child (.item position))⟩ := by
  intro pool takes
  obtain ⟨own, filled, opened, ran, beside, ofOwn, sameScope⟩ := Appends.run_own appends takes
  obtain ⟨inputs, locals⟩ := Scope.mk.inj ofOwn
  have different : own.locals ≠ lists.locals := (beside.apart (Or.inr rfl)).2.2
  have handing : filled.HandsOver own.locals lists.locals (filled.members own.locals)
      (Registry.transferAll own.locals lists.locals filled.toRegistry) :=
    beside.taken.sound.registry.transferEach_front different (List.append_nil _).symm
  have handed := ends_change beside (Or.inr rfl) handing
  have moved : (filled.members own.locals).map filled.vars =
      member.locals options (name.child (.item position)) := locals
  rw [moved, sameScope] at handed
  rw [emitMember, bind_of_ok opened, bind_of_ok ran]
  refine handed.bind (fun after kept _ => ?_) (Scope.not_clashes_locals distinct)
  obtain ⟨besideAfter, hands⟩ := kept
  have notSource : own.inputs ≠ own.locals := beside.taken.different
  have notTarget : own.inputs ≠ lists.locals := (beside.apart (Or.inl rfl)).2.2
  have reads := ends_readInputs name position besideAfter
    ((hands.listed_others notSource notTarget).trans inputs)
  exact (reads.mono fun _ kept => kept.grows).returns _

theorem appends_emitAll (options : Options) (recovery : String) (inner name : VarName)
    (members : List Node)
    (ih : ∀ member ∈ members, ∀ (iter origin : VarName) (own : Lists),
      Appends own (member.emit options recovery iter origin own)
        (member.code options recovery iter origin)
        ⟨member.inputs options origin, member.locals options origin⟩)
    (position : Nat)
    (distinct : ((localsAll options members name position).map TypedVar.name).Nodup) :
    Appends lists (Node.emitAll options recovery members inner name position lists)
      (codeAll options recovery members inner name position)
      ⟨[], localsAll options members name position⟩ := by
  induction members generalizing position with
  | nil => exact Appends.pure lists []
  | cons member rest ihRest =>
      have inFirst := ih member List.mem_cons_self inner (name.child (.item position))
      have inOthers := fun other listed => ih other (List.mem_cons_of_mem _ listed)
      rw [localsAll] at distinct
      have apart := Scope.not_clashes_locals distinct
      rw [List.map_append, List.nodup_append] at distinct
      obtain ⟨distinctFirst, distinctOthers, _⟩ := distinct
      rw [Node.emitAll]
      exact (appends_emitMember options member name position inFirst distinctFirst).bind
        ((ihRest inOthers (position + 1) distinctOthers).returns _) apart

theorem emit_of_isGroup (options : Options) (recovery : String) {node : Node}
    (group : node.isGroup = true) (iter name : VarName) (lists : Lists) :
    node.emit options recovery iter name lists =
      emitStruct options node recovery iter name lists fun inner =>
        Node.emitAll options recovery node.children inner name 0 lists := by
  cases node with
  | struct members => rfl
  | entry key value => simp [emit, children, emitAll]
  | _ => cases group

theorem inputs_array (options : Options) (element : Node) (name : VarName) :
    (array element).inputs options name =
      element.lifted options name ++
        if element.isFixed then [⟨sizeType, name.child .len⟩] else [] := by
  unfold inputs ports lifted
  rw [List.map_append, List.map_map]
  cases element.isFixed with
  | true => rfl
  | false => rfl

theorem inputs_of_isGroup (options : Options) {node : Node} (group : node.isGroup = true)
    (name : VarName) :
    node.inputs options name = [⟨CType.toConst (node.cType options), name⟩] := by
  rw [inputs, ports_of_isGroup options group, List.map_singleton, Port.under, VarName.append_nil]

theorem appends_emitArray (options : Options) (element : Node) (recovery : String)
    (iter name : VarName) {body : VarName → VarName → Lists → Emit Fragment} {code : Fragment}
    (appends : ∀ own, Appends own (body (name.child .iter) (name.child .element) own) code
      ⟨element.inputs options (name.child .element),
        element.locals options (name.child .element)⟩)
    (declared : ((element.locals options (name.child .element) ++
      element.inputs options (name.child .element)).map TypedVar.name).Nodup)
    (distinct : (((array element).inputs options name).map TypedVar.name).Nodup) :
    Appends lists (emitArray element recovery iter name lists body)
      (arrayCode options element recovery iter name code)
      ⟨(array element).inputs options name, [⟨iterType, name.child .iter⟩]⟩ := by
  rw [inputs_array] at distinct ⊢
  change Appends lists _ _ (Scope.join ⟨[], [_]⟩ (Scope.join ⟨element.lifted options name, []⟩
    ⟨if element.isFixed then [⟨sizeType, name.child .len⟩] else [], []⟩))
  have noLocals : ¬ Scope.Clashes ⟨[], [⟨iterType, name.child .iter⟩]⟩
      (Scope.join ⟨element.lifted options name, []⟩
        ⟨if element.isFixed then [⟨sizeType, name.child .len⟩] else [], []⟩) := by
    simp [Scope.Clashes, Scope.join, Scope.extend]
  refine (appends_local lists _).bind (fun pool takes => ?_) noLocals
  obtain ⟨own, filled, opened, ran, beside, ofOwn, sameScope⟩ := Appends.run_own appends takes
  obtain ⟨inputs, locals⟩ := Scope.mk.inj ofOwn
  have apart := Scope.not_clashes_inputs distinct
  rw [List.map_append, List.nodup_append] at distinct
  have lifted := ends_liftInputs name beside inputs distinct.1 (by rw [locals]; exact declared)
  rw [sameScope, locals] at lifted
  dsimp only
  rw [bind_of_ok opened, bind_of_ok ran]
  refine lifted.bind (fun after kept _ => ?_) apart
  obtain ⟨⟨_, grows, _, _, _⟩, listed⟩ := kept
  rw [bind_of_ok (rfl : (get : Emit Pool) after = .ok after after), listed]
  cases fixed : element.isFixed with
  | true =>
      have length := appends_input lists ⟨sizeType, name.child .len⟩ after (grows.takes takes)
      rw [arrayCode, fixed]
      exact (length.mono fun _ later => grows.trans later (Or.inl rfl) (Or.inl rfl)).returns _
  | false =>
      rw [arrayCode, fixed]
      exact Ends.pure grows

theorem appends_emitStruct (options : Options) {node : Node} (recovery : String)
    (iter name : VarName) {members : VarName → Emit Fragment} {code : Fragment}
    {entries : List TypedVar} (marshallable : node.Marshallable)
    (appends : Appends lists (members (name.child .iter)) code ⟨[], entries⟩)
    (distinct : ((⟨iterType, name.child .iter⟩ :: entries).map TypedVar.name).Nodup) :
    Appends lists (emitStruct options node recovery iter name lists members)
      (groupCode node recovery iter name code)
      ⟨[⟨CType.toConst (node.cType options), name⟩],
        ⟨iterType, name.child .iter⟩ :: entries⟩ := by
  have afterMembers : ¬ Scope.Clashes ⟨[], entries⟩
      ⟨[⟨CType.toConst (node.cType options), name⟩], []⟩ := by
    simp [Scope.Clashes]
  have afterIter : ¬ Scope.Clashes ⟨[], [⟨iterType, name.child .iter⟩]⟩
      (Scope.join ⟨[], entries⟩ ⟨[⟨CType.toConst (node.cType options), name⟩], []⟩) := by
    rw [Scope.clashes_join, not_or]
    exact ⟨Scope.not_clashes_locals distinct, by simp [Scope.Clashes]⟩
  have joined : Scope.join ⟨[], [⟨iterType, name.child .iter⟩]⟩
      (Scope.join ⟨[], entries⟩ ⟨[⟨CType.toConst (node.cType options), name⟩], []⟩) =
        ⟨[⟨CType.toConst (node.cType options), name⟩],
          ⟨iterType, name.child .iter⟩ :: entries⟩ := by
    simp [Scope.join, Scope.extend]
  rw [← joined]
  refine .except (marshallable.typeOf options) (.except marshallable.typeConst ?_)
  refine (appends_local lists _).bind (appends.bind ?_ afterMembers) afterIter
  exact (appends_input lists _).returns _

theorem appends_emitBasic (options : Options) {node : Node} (recovery : String)
    (iter name : VarName) (marshallable : node.Marshallable) :
    Appends lists (emitBasic options node recovery iter name lists)
      [.comment ("Marshal a " ++ CType.toConst (node.cType options) ++ " onto the message"),
        .append iter node.constant name recovery]
      ⟨[⟨CType.toConst (node.cType options), name⟩], []⟩ := by
  refine .except (marshallable.typeOf options) (.except marshallable.typeConst ?_)
  exact (appends_input lists _).returns _

end Types

theorem Marshallable.fits_empty {node : Node} (marshallable : node.Marshallable)
    (options : Options) (name : VarName) :
    Scope.Fits {} (node.inputs options name) (node.locals options name) := by
  have distinct := (marshallable.owns_introduced options "" name name).distinct
  rw [introduced, List.map_append, List.map_append, List.nodup_append,
    List.nodup_append] at distinct
  exact ⟨distinct.1, distinct.2.1.1⟩

theorem Marshallable.nodup_declared {node : Node} (marshallable : node.Marshallable)
    (options : Options) (name : VarName) :
    ((node.locals options name ++ node.inputs options name).map TypedVar.name).Nodup := by
  have distinct := (marshallable.owns_introduced options "" name name).distinct
  rw [introduced, ← List.append_assoc, List.map_append, List.map_append] at distinct
  have both := (List.nodup_append.1 distinct).1
  rw [List.map_append]
  exact (List.perm_append_comm.nodup_iff).1 both

/-- Generation adds the variables of a type, and nothing else, on lists where their names are
new. -/
theorem Marshallable.appends_emit {node : Node} (marshallable : node.Marshallable)
    (options : Options) (recovery : String) (iter name : VarName) (lists : Lists) :
    Appends lists (node.emit options recovery iter name lists)
      (node.code options recovery iter name)
      ⟨node.inputs options name, node.locals options name⟩ := by
  induction marshallable using Marshallable.byKind generalizing iter name lists with
  | basic written known =>
      have input : (Node.basic written).inputs options name =
          [⟨CType.toConst ((Node.basic written).cType options), name⟩] := by
        change [Port.under ⟨[], _⟩ name] = _
        rw [Port.under, VarName.append_nil]
      rw [Node.emit, input]
      exact appends_emitBasic options recovery iter name (.basic known)
  | array element inside ih =>
      rw [Node.emit]
      exact appends_emitArray options element recovery iter name
        (ih (name.child .iter) (name.child .element))
        (inside.nodup_declared options (name.child .element))
        ((Marshallable.array inside).fits_empty options name).inputs
  | group node marshallable isGroup ih =>
      have distinct := (marshallable.fits_empty options name).locals
      rw [locals_of_isGroup options isGroup] at distinct ⊢
      rw [emit_of_isGroup options recovery isGroup, inputs_of_isGroup options isGroup,
        code_of_isGroup options recovery isGroup]
      refine appends_emitStruct options recovery iter name marshallable ?_ distinct
      exact appends_emitAll options recovery (name.child .iter) name node.children ih 0
        (List.nodup_cons.1 distinct).2

/-! ### From the caller -/

theorem Marshallable.not_isMissing {node : Node} (marshallable : node.Marshallable) :
    node.isMissing = false := by
  cases marshallable <;> rfl

theorem Marshallable.appends_marshalOnto {node : Node} (marshallable : node.Marshallable)
    (options : Options) (recovery : String) {iter name : GivenName} {iterName varName : VarName}
    (iterGiven : iter.resolve = some iterName) (nameGiven : name.resolve = some varName)
    (lists : Lists) :
    Appends lists (node.marshalOnto options iter name (some recovery) (some lists))
      (node.code options recovery iterName varName)
      ⟨node.inputs options varName, node.locals options varName⟩ := by
  unfold Node.marshalOnto
  simp only [marshallable.not_isMissing, marshallable.hasStray, iterGiven, nameGiven,
    Bool.false_eq_true, if_false]
  exact marshallable.appends_emit options recovery iterName varName lists

theorem Marshallable.marshal_of_fits {node : Node} (marshallable : node.Marshallable)
    (options : Options) (recovery : String) {iter name : GivenName} {iterName varName : VarName}
    (iterGiven : iter.resolve = some iterName) (nameGiven : name.resolve = some varName)
    {scope : Scope}
    (fits : scope.Fits (node.inputs options varName) (node.locals options varName)) :
    node.marshal options iter name (some recovery) true scope =
      .ok (node.code options recovery iterName varName)
        (scope.extend (node.inputs options varName) (node.locals options varName)) := by
  have inputs := fits.inputs
  have locals := fits.locals
  rw [List.map_append, List.nodup_append] at inputs locals
  obtain ⟨takes, view⟩ := Pool.takes_holding inputs.1 locals.1
  have appends := marshallable.appends_marshalOnto options recovery iterGiven nameGiven
    Pool.firstLists (.holding scope) takes
  rw [view] at appends
  rcases appends with ⟨clash, _⟩ | ⟨_, after, ended, _, viewAfter⟩
  · exact absurd clash fits.not_clashes
  · unfold Node.marshal
    rw [if_pos rfl]
    dsimp only
    rw [ended]
    exact congrArg (EStateM.Result.ok _) viewAfter

/-- What is generated for a type that can be marshalled. -/
theorem Marshallable.generate {node : Node} (marshallable : node.Marshallable)
    (options : Options) (recovery : String) {iter name : GivenName} {iterName varName : VarName}
    (iterGiven : iter.resolve = some iterName) (nameGiven : name.resolve = some varName) :
    DBusMarshal.generate options (.tree node) iter name (some recovery) =
      .ok
        { signature := node.signature
          fragment := node.code options recovery iterName varName
          inputs := node.inputs options varName
          locals := node.locals options varName
          options } := by
  have marshalled := marshallable.marshal_of_fits options recovery iterGiven nameGiven
    (marshallable.fits_empty options varName)
  unfold DBusMarshal.generate
  simp only [Source.node, bind, Except.bind, marshallable.hasStray, marshallable.hasVariant,
    Bool.false_eq_true, if_false, marshalled]
  rfl

end Node

theorem GivenName.resolve_text {base : String} (named : base ≠ "") :
    (GivenName.text base).resolve = some { base } := by
  rw [GivenName.resolve, if_neg named]

end DBusMarshal
