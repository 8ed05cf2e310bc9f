import DBusMarshal.Proofs.Emission

/-!
Generation onto lists that hold variables already.

The lists may have any history: whatever was done to variables and lists in use, the pool stays
sound, and code can be generated onto any two of its lists. The code for a value does not depend on
what they hold, and nothing that was in use before is touched.
-/

set_option autoImplicit false

namespace DBusMarshal

/-! ### Pools with a history -/

namespace Registry

/-- A change of variables and lists of which so many are in use. -/
def Change.Within (varCount listCount : Nat) : Change → Prop
  | add list var => list < listCount ∧ var < varCount
  | transfer list var other => list < listCount ∧ var < varCount ∧ other < listCount
  | transferAll list other => list < listCount ∧ other < listCount

/-- Only variables in use are held, and only by lists in use. -/
def InUse (varCount listCount : Nat) (r : Registry) : Prop :=
  ∀ list, ∀ var ∈ r.members list, var < varCount ∧ list < listCount

variable {r next : Registry} {varCount listCount list other var : Nat}

theorem InUse.joins (inUse : r.InUse varCount listCount) (joins : r.Joins next list var)
    (known : var < varCount) (given : list < listCount) : next.InUse varCount listCount := by
  intro place one held
  by_cases here : place = list
  · rw [here, joins.last, List.mem_append, List.mem_singleton] at held
    rcases held with before | same
    · exact ⟨(inUse list one (List.mem_of_mem_erase before)).1, here ▸ given⟩
    · exact ⟨same ▸ known, here ▸ given⟩
  · rw [joins.others place here] at held
    exact inUse place one (List.mem_of_mem_erase held)

theorem InUse.remove (inUse : r.InUse varCount listCount) (sound : r.Sound)
    (owned : r.owner var = some list) : (r.remove list var).InUse varCount listCount := by
  intro place one held
  rw [sound.members_remove owned] at held
  exact inUse place one (List.mem_of_mem_erase held)

theorem InUse.transfer (inUse : r.InUse varCount listCount) (sound : r.Sound)
    (given : other < listCount) :
    (left (transfer list var other) r).InUse varCount listCount := by
  unfold left
  rcases sound.transfer_cases list var other with
    ⟨_, refused⟩ | ⟨owned, _, _, refused⟩ | ⟨owned, _, next, moved, joins, _⟩
  · rw [refused]
    exact inUse
  · rw [refused]
    exact inUse.remove sound owned
  · rw [moved]
    exact inUse.joins joins (inUse list var ((sound.owned_iff var list).1 owned)).1 given

theorem InUse.transferEach {front : List Nat} (inUse : r.InUse varCount listCount)
    (sound : r.Sound) (given : other < listCount) :
    (left (transferEach list other front) r).InUse varCount listCount := by
  induction front generalizing r with
  | nil => exact inUse
  | cons var rest ih =>
      have first : (left (Registry.transfer list var other) r).InUse varCount listCount :=
        inUse.transfer sound given
      have kept := (keeps_transfer list var other r sound).1
      unfold left at first kept ⊢
      cases moved : Registry.transfer list var other r with
      | ok _ next =>
          rw [moved] at first kept
          rw [Registry.transferEach, bind_of_ok moved]
          exact ih first kept
      | error fault next =>
          rw [moved] at first
          rw [Registry.transferEach, bind_of_error moved]
          exact first

theorem InUse.change {change : Change} (inUse : r.InUse varCount listCount) (sound : r.Sound)
    (within : change.Within varCount listCount) :
    (left change.action r).InUse varCount listCount := by
  cases change with
  | add list var =>
      unfold left
      rcases sound.add_cases list var with ⟨_, refused⟩ | ⟨next, added, joins, _⟩
      · rw [Change.action, refused]
        exact inUse
      · rw [Change.action, added]
        exact inUse.joins joins within.2 within.1
  | transfer list var other => exact inUse.transfer sound within.2.2
  | transferAll list other => exact inUse.transferEach sound within.2

theorem InUse.afterAll {changes : List Change} (inUse : r.InUse varCount listCount)
    (sound : r.Sound) (within : ∀ change ∈ changes, change.Within varCount listCount) :
    (r.afterAll changes).InUse varCount listCount := by
  induction changes generalizing r with
  | nil => exact inUse
  | cons change rest ih =>
      obtain ⟨first, others⟩ := List.forall_mem_cons.1 within
      exact ih (inUse.change sound first) (change.keeps r sound).1 others

end Registry

/-- The pool of variables and lists after changes of them. -/
def Pool.afterAll (vars : Nat → TypedVar) (varCount listCount : Nat)
    (changes : List Registry.Change) : Pool :=
  { (Registry.start vars).afterAll changes with varCount, listCount }

/-- Whatever was done to variables and lists before, code can be generated onto any two lists. -/
theorem Pool.takes_afterAll (vars : Nat → TypedVar) {varCount listCount : Nat}
    {changes : List Registry.Change} (within : ∀ change ∈ changes, change.Within varCount listCount)
    {lists : Lists} (inputs : lists.inputs < listCount) (locals : lists.locals < listCount)
    (different : lists.inputs ≠ lists.locals) :
    (Pool.afterAll vars varCount listCount changes).Takes lists := by
  have sound := Registry.Sound.start vars
  have nothing : (Registry.start vars).InUse varCount listCount :=
    fun _ _ held => absurd held List.not_mem_nil
  have inUse := nothing.afterAll sound within
  refine ⟨⟨(sound.afterAll changes).1, fun list var held => (inUse list var held).1, ?_⟩,
    inputs, locals, different⟩
  intro list unused
  rw [List.eq_nil_iff_forall_not_mem]
  intro var held
  exact Nat.not_le_of_lt (inUse list var held).2 unused

/-! ### Generation onto them -/

section

variable {text : String} {node : Node}

/-- What code is generated for a value, and which variables come with it, does not depend on the
lists that the caller gives. When one of the new names is on its list already, generation is
refused; this is the only case in which a demand is missed. Otherwise the new variables stand behind
the old ones and are owned by their lists. All variables in use before are what they were and are
owned by the lists that owned them, and all lists but the two hold what they held. -/
theorem marshal_appends (read : Node.read text = .ok node) (plain : node.hasVariant = false)
    (options : Options) (recovery : String) {iter name : GivenName} {iterName varName : VarName}
    (iterGiven : iter.resolve = some iterName) (nameGiven : name.resolve = some varName) :
    ∃ fragment added,
      node.marshal options iter name (some recovery) true {} = .ok fragment added ∧
      ∀ (pool : Pool) (lists : Lists), pool.Takes lists →
        let result := node.marshalOnto options iter name (some recovery) (some lists) pool
        ((∃ demand after, result = .error (.breach demand) after) ↔
          (pool.scope lists).Clashes added) ∧
        (¬ (pool.scope lists).Clashes added →
          ∃ after : Pool, result = .ok fragment after ∧
            after.listed lists.inputs = pool.listed lists.inputs ++ added.inputs ∧
            after.listed lists.locals = pool.listed lists.locals ++ added.locals ∧
            pool.Grows lists after) := by
  have marshallable := Node.marshallable_of_read read plain
  have room := marshallable.fits_empty options varName
  have alone := marshallable.marshal_of_fits options recovery iterGiven nameGiven room
  refine ⟨_, _, alone, fun pool lists takes => ?_⟩
  rcases marshallable.appends_marshalOnto options recovery iterGiven nameGiven lists pool takes with
    ⟨clash, name, after, refused⟩ | ⟨free, after, ended, grows, view⟩
  · exact ⟨iff_of_true ⟨_, after, refused⟩ clash, fun free => absurd clash free⟩
  · refine ⟨iff_of_false ?_ free, fun _ => ⟨after, ended, ?_, ?_, grows⟩⟩
    · rintro ⟨demand, last, refused⟩
      rw [ended] at refused
      cases refused
    · exact congrArg Scope.inputs view
    · exact congrArg Scope.locals view

/-- Three lists of one variable each, one of which was on another list before. The third holds the
iterator that a table of this name opens. -/
def usedLists : Pool :=
  Pool.afterAll
    (fun
      | 0 => ⟨"int", { base := "count" }⟩
      | 1 => ⟨"size_t", { base := "rows" }⟩
      | _ => ⟨"DBusMessageIter", { base := "rows", path := [.item 0, .iter] }⟩)
    3 3 [.add 0 0, .add 0 1, .transfer 0 1 1, .add 2 2]

theorem usedLists_takes : usedLists.Takes ⟨0, 1⟩ ∧ usedLists.Takes ⟨0, 2⟩ := by
  have within : ∀ change ∈ [.add 0 0, .add 0 1, .transfer 0 1 1, .add 2 2],
      Registry.Change.Within 3 3 change := by
    simp [Registry.Change.Within]
  exact ⟨Pool.takes_afterAll _ within (by decide) (by decide) (by decide),
    Pool.takes_afterAll _ within (by decide) (by decide) (by decide)⟩

/-- Code is generated onto the first two lists, and refused onto the first and the third. -/
theorem marshal_appends_table :
    let rows : VarName := { base := "rows", path := [.item 0] }
    ∃ fragment added,
      tableType.marshal {} (.text "iter") (.name rows) (some "return FALSE;") true {} =
        .ok fragment added ∧
      (∃ after,
        tableType.marshalOnto {} (.text "iter") (.name rows) (some "return FALSE;") (some ⟨0, 1⟩)
          usedLists = .ok fragment after ∧
        after.listed 0 = ⟨"int", { base := "count" }⟩ :: added.inputs ∧
        after.listed 1 = ⟨"size_t", { base := "rows" }⟩ :: added.locals ∧
        usedLists.Grows ⟨0, 1⟩ after) ∧
      ∃ demand after,
        tableType.marshalOnto {} (.text "iter") (.name rows) (some "return FALSE;") (some ⟨0, 2⟩)
          usedLists = .error (.breach demand) after := by
  intro rows
  have iterGiven : (GivenName.text "iter").resolve = some { base := "iter" } := rfl
  have nameGiven : (GivenName.name rows).resolve = some rows := rfl
  obtain ⟨fragment, added, alone, onto⟩ :=
    marshal_appends read_tableType rfl {} "return FALSE;" iterGiven nameGiven
  have clashes : ¬ (usedLists.scope ⟨0, 1⟩).Clashes added ∧
      (usedLists.scope ⟨0, 2⟩).Clashes added := by
    have marshallable := Node.marshallable_of_read read_tableType rfl
    rw [marshallable.marshal_of_fits {} "return FALSE;" iterGiven nameGiven
      (marshallable.fits_empty {} rows)] at alone
    cases alone
    decide +kernel
  obtain ⟨takes, takesThird⟩ := usedLists_takes
  obtain ⟨-, appended⟩ := onto usedLists ⟨0, 1⟩ takes
  obtain ⟨after, ended, inputs, locals, grows⟩ := appended clashes.1
  refine ⟨fragment, added, alone, ⟨after, ended, inputs, locals, grows⟩, ?_⟩
  exact (onto usedLists ⟨0, 2⟩ takesThird).1.2 clashes.2

end

end DBusMarshal
