import DBusMarshal.Pool
import DBusMarshal.Proofs.Registry

/-!
What is kept while code is generated onto two lists of a pool.

New variables and new lists are numbered behind those in use, so nothing that was in use before can
be mistaken for them. Only the two lists change among those in use before, and only at their ends;
no variable in use before changes, nor does its owner.
-/

set_option autoImplicit false

namespace DBusMarshal

namespace Pool

/-- The registry is sound, only variables in use are held, and only lists in use hold any. -/
structure Sound (pool : Pool) : Prop where
  registry : pool.toRegistry.Sound
  varsInUse : ∀ list, ∀ var ∈ pool.members list, var < pool.varCount
  listsInUse : ∀ list, pool.listCount ≤ list → pool.members list = []

/-- Code can be generated onto the two lists: they are in use, and they are two. -/
structure Takes (pool : Pool) (lists : Lists) : Prop where
  sound : pool.Sound
  inputs : lists.inputs < pool.listCount
  locals : lists.locals < pool.listCount
  different : lists.inputs ≠ lists.locals

/-- Nothing but the two lists has changed among what was in use, and they only at their ends. -/
structure Grows (base : Pool) (lists : Lists) (pool : Pool) : Prop where
  sound : pool.Sound
  varCount : base.varCount ≤ pool.varCount
  listCount : base.listCount ≤ pool.listCount
  vars : ∀ var < base.varCount, pool.vars var = base.vars var
  owner : ∀ var < base.varCount, pool.owner var = base.owner var
  front : ∀ list < base.listCount, base.members list <+: pool.members list
  others : ∀ list < base.listCount, list ≠ lists.inputs → list ≠ lists.locals →
    pool.members list = base.members list

variable {base pool after : Pool} {lists own : Lists} {list other var : Nat} {entry : TypedVar}

namespace Sound

theorem listed_congr (sound : base.Sound)
    (vars : ∀ var < base.varCount, pool.vars var = base.vars var)
    (members : pool.members list = base.members list) : pool.listed list = base.listed list := by
  rw [Registry.listed, Registry.listed, members]
  exact List.map_congr_left fun var held => vars var (sound.varsInUse list var held)

theorem unowned (sound : pool.Sound) (unused : pool.varCount ≤ var) : pool.owner var = none := by
  cases owned : pool.owner var with
  | none => rfl
  | some list =>
      have inUse := sound.varsInUse list var ((sound.registry.owned_iff var list).1 owned)
      omega

end Sound

namespace Grows

theorem refl (sound : pool.Sound) (lists : Lists) : pool.Grows lists pool where
  sound := sound
  varCount := Nat.le_refl _
  listCount := Nat.le_refl _
  vars := fun _ _ => rfl
  owner := fun _ _ => rfl
  front := fun _ _ => List.prefix_rfl
  others := fun _ _ _ _ => rfl

/-- Later growth may be that of other lists, as long as these are the same or new ones. -/
theorem trans (first : base.Grows lists pool) (second : pool.Grows own after)
    (inputs : own.inputs = lists.inputs ∨ base.listCount ≤ own.inputs)
    (locals : own.locals = lists.locals ∨ base.listCount ≤ own.locals) :
    base.Grows lists after where
  sound := second.sound
  varCount := Nat.le_trans first.varCount second.varCount
  listCount := Nat.le_trans first.listCount second.listCount
  vars := fun var inUse =>
    (second.vars var (by have := first.varCount; omega)).trans (first.vars var inUse)
  owner := fun var inUse =>
    (second.owner var (by have := first.varCount; omega)).trans (first.owner var inUse)
  front := fun list inUse =>
    (first.front list inUse).trans (second.front list (by have := first.listCount; omega))
  others := by
    intro list inUse notInputs notLocals
    have counted := first.listCount
    rw [second.others list (by omega) (by omega) (by omega)]
    exact first.others list inUse notInputs notLocals

theorem takes (grows : base.Grows lists pool) (takes : base.Takes own) : pool.Takes own where
  sound := grows.sound
  inputs := Nat.lt_of_lt_of_le takes.inputs grows.listCount
  locals := Nat.lt_of_lt_of_le takes.locals grows.listCount
  different := takes.different

/-- A list that was not in use before holds no variables that were. -/
theorem unused_of_mem (grows : base.Grows lists pool) (sound : base.Sound)
    (unused : base.listCount ≤ list) (held : var ∈ pool.members list) : base.varCount ≤ var := by
  by_contra inUse
  have owned := (grows.sound.registry.owned_iff var list).2 held
  rw [grows.owner var (Nat.lt_of_not_le inUse), sound.registry.owned_iff,
    sound.listsInUse list unused] at owned
  cases owned

end Grows

/-! ### New lists -/

theorem Sound.registry_withList (sound : pool.Sound) :
    pool.withList.toRegistry = pool.toRegistry := by
  have same : exchangeAt pool.members pool.listCount [] = pool.members := by
    rw [← sound.listsInUse pool.listCount (Nat.le_refl _), exchangeAt_self]
  rw [withList, same]

theorem Grows.withList (grows : base.Grows lists pool) : base.Grows lists pool.withList := by
  have same := grows.sound.registry_withList
  have members : pool.withList.members = pool.members := congrArg Registry.members same
  exact
    { sound :=
        { registry := same ▸ grows.sound.registry
          varsInUse := members ▸ grows.sound.varsInUse
          listsInUse := by
            intro list unused
            rw [members]
            exact grows.sound.listsInUse list (by have : _ + 1 ≤ list := unused; omega) }
      varCount := grows.varCount
      listCount := Nat.le_succ_of_le grows.listCount
      vars := grows.vars
      owner := grows.owner
      front := members ▸ grows.front
      others := members ▸ grows.others }

/-! ### New variables -/

theorem Sound.listed_withVar (sound : pool.Sound) (entry : TypedVar) (list : Nat) :
    (pool.withVar entry).listed list = pool.listed list := by
  refine sound.listed_congr (fun var inUse => ?_) rfl
  exact exchangeAt_other _ _ (Nat.ne_of_lt inUse)

theorem Sound.withVar (sound : pool.Sound) (entry : TypedVar) : (pool.withVar entry).Sound where
  registry :=
    { owned_iff := by
        have owner : (pool.withVar entry).owner = pool.owner := by
          change exchangeAt pool.owner pool.varCount none = _
          rw [← sound.unowned (Nat.le_refl pool.varCount), exchangeAt_self]
        rw [owner]
        exact sound.registry.owned_iff
      distinct := by
        intro list
        rw [Registry.heldNames_eq, sound.listed_withVar, ← Registry.heldNames_eq]
        exact sound.registry.distinct list }
  varsInUse := fun list var held => Nat.lt_succ_of_lt (sound.varsInUse list var held)
  listsInUse := sound.listsInUse

section Put

theorem members_put_same (pool : Pool) (list : Nat) (entry : TypedVar) :
    (put list pool entry).members list = pool.members list ++ [pool.varCount] :=
  exchangeAt_same _ _ _

theorem members_put_other (pool : Pool) (entry : TypedVar) (different : other ≠ list) :
    (put list pool entry).members other = pool.members other :=
  exchangeAt_other _ _ different

theorem Sound.listed_put_same (sound : pool.Sound) (list : Nat) (entry : TypedVar) :
    (put list pool entry).listed list = pool.listed list ++ [entry] := by
  have vars : (put list pool entry).vars pool.varCount = entry := exchangeAt_same _ _ _
  rw [Registry.listed, members_put_same, List.map_append, List.map_singleton, vars]
  exact congrArg (· ++ [entry]) (sound.listed_withVar entry list)

theorem Sound.listed_put_other (sound : pool.Sound) (entry : TypedVar) (different : other ≠ list) :
    (put list pool entry).listed other = pool.listed other := by
  rw [Registry.listed, members_put_other pool entry different]
  exact sound.listed_withVar entry other

theorem Sound.put (sound : pool.Sound) (inUse : list < pool.listCount)
    (new : entry.name ∉ (pool.listed list).map TypedVar.name) : (put list pool entry).Sound where
  registry := by
    have withVar := (sound.withVar entry).registry
    have unowned : (pool.withVar entry).owner pool.varCount = none := exchangeAt_same _ _ _
    have name : (pool.withVar entry).nameOf pool.varCount = entry.name :=
      congrArg TypedVar.name (exchangeAt_same _ _ _)
    refine withVar.joins (withVar.joins_append unowned list) ?_
    rw [List.erase_of_not_mem (withVar.not_mem_of_unowned unowned list), name]
    change entry.name ∉ (pool.withVar entry).heldNames list
    rwa [Registry.heldNames_eq, sound.listed_withVar]
  varsInUse := by
    intro place var held
    change var < pool.varCount + 1
    by_cases here : place = list
    · rw [here, members_put_same, List.mem_append, List.mem_singleton] at held
      rcases held with before | same
      · exact Nat.lt_succ_of_lt (sound.varsInUse list var before)
      · omega
    · rw [members_put_other pool entry here] at held
      exact Nat.lt_succ_of_lt (sound.varsInUse place var held)
  listsInUse := by
    intro place unused
    have above : pool.listCount ≤ place := unused
    rw [members_put_other pool entry (by omega)]
    exact sound.listsInUse place above

theorem Sound.grows_put (sound : pool.Sound) (inUse : list < pool.listCount)
    (given : list = lists.inputs ∨ list = lists.locals)
    (new : entry.name ∉ (pool.listed list).map TypedVar.name) :
    pool.Grows lists (Pool.put list pool entry) where
  sound := sound.put inUse new
  varCount := Nat.le_succ _
  listCount := Nat.le_refl _
  vars := fun _ used => exchangeAt_other _ _ (Nat.ne_of_lt used)
  owner := fun _ used => by
    have other := Nat.ne_of_lt used
    exact (exchangeAt_other _ _ other).trans (exchangeAt_other _ _ other)
  front := by
    intro place _
    by_cases here : place = list
    · rw [here, members_put_same]
      exact List.prefix_append _ _
    · rewrite [members_put_other pool entry here]
      exact List.prefix_rfl
  others := by
    intro place _ notInputs notLocals
    refine members_put_other pool entry ?_
    rcases given with same | same <;> rw [same] <;> assumption

end Put

theorem change_of_ok {action : EStateM Fault Registry Unit} {next : Registry}
    (ended : action pool.toRegistry = .ok () next) :
    change action pool = .ok () { pool with toRegistry := next } := by
  rw [change, ended]

theorem change_of_error {action : EStateM Fault Registry Unit} {fault : Fault} {next : Registry}
    (failed : action pool.toRegistry = .error fault next) :
    change action pool = .error fault { pool with toRegistry := next } := by
  rw [change, failed]

/-- A new variable is refused when its name is taken. That it has an owner already is never the
reason, since a new variable has none. -/
theorem Sound.declare_cases (sound : pool.Sound) (list : Nat) (entry : TypedVar) :
    (entry.name ∈ (pool.listed list).map TypedVar.name ∧ ∃ after,
        declare list entry pool = .error (.breach (.duplicateName entry.name.text)) after) ∨
      (entry.name ∉ (pool.listed list).map TypedVar.name ∧
        declare list entry pool = .ok () (Pool.put list pool entry)) := by
  have unowned : (pool.withVar entry).owner pool.varCount = none := exchangeAt_same _ _ _
  have name : (pool.withVar entry).nameOf pool.varCount = entry.name :=
    congrArg TypedVar.name (exchangeAt_same _ _ _)
  have names : (pool.withVar entry).heldNames list = (pool.listed list).map TypedVar.name := by
    rw [Registry.heldNames_eq, sound.listed_withVar]
  have given : declare list entry pool =
      change (Registry.add list pool.varCount) (pool.withVar entry) := rfl
  rw [given]
  by_cases taken : entry.name ∈ (pool.listed list).map TypedVar.name
  · have refused := Registry.add_of_duplicate unowned (by rwa [name, names])
    have text : (pool.withVar entry).nameText pool.varCount = entry.name.text :=
      congrArg VarName.text name
    rw [text] at refused
    exact Or.inl ⟨taken, _, change_of_error refused⟩
  · have added := Registry.add_of_new unowned (by rwa [name, names])
    exact Or.inr ⟨taken, change_of_ok added⟩

theorem Sound.hands {next : Registry} {front : List Nat} (sound : pool.Sound)
    (hands : pool.Hands next list other front) (source : list < pool.listCount)
    (target : other < pool.listCount) : Sound { pool with toRegistry := next } where
  registry := hands.sound
  varsInUse := by
    intro place var held
    obtain ⟨before, heldBefore⟩ := hands.held_before held
    exact sound.varsInUse before var heldBefore
  listsInUse := by
    intro place unused
    have free : pool.listCount ≤ place := unused
    rw [hands.others place (by omega) (by omega)]
    exact sound.listsInUse place free

/-! ### Lists of its own -/

/-- Two new lists are in use beside the two that code is generated onto. -/
structure Beside (base : Pool) (lists own : Lists) (pool : Pool) : Prop where
  takes : base.Takes lists
  grows : base.Grows lists pool
  taken : pool.Takes own
  inputs : base.listCount ≤ own.inputs
  locals : base.listCount ≤ own.locals

namespace Beside

theorem opened (takes : pool.Takes lists) :
    pool.Beside lists { inputs := pool.listCount, locals := pool.listCount + 1 }
      pool.withList.withList := by
  have grows := (Grows.refl takes.sound lists).withList.withList
  refine ⟨takes, grows, ⟨grows.sound, ?_, ?_, ?_⟩, Nat.le_refl _, Nat.le_succ _⟩
  · exact Nat.lt_add_of_pos_right (by decide : 0 < 2)
  · exact Nat.lt_succ_self _
  · exact Nat.ne_of_lt (Nat.lt_succ_self _)

/-- Growth of the new lists is none of the pool that was there before. -/
theorem grown_own (beside : base.Beside lists own pool) (grows : pool.Grows own after) :
    base.Beside lists own after where
  takes := beside.takes
  grows := beside.grows.trans grows (Or.inr beside.inputs) (Or.inr beside.locals)
  taken := grows.takes beside.taken
  inputs := beside.inputs
  locals := beside.locals

theorem grown (beside : base.Beside lists own pool) (grows : pool.Grows lists after) :
    base.Beside lists own after where
  takes := beside.takes
  grows := beside.grows.trans grows (Or.inl rfl) (Or.inl rfl)
  taken := grows.takes beside.taken
  inputs := beside.inputs
  locals := beside.locals

/-- The lists at hand and the new ones are four different ones. -/
theorem apart (beside : base.Beside lists own pool) {list : Nat}
    (ofOwn : list = own.inputs ∨ list = own.locals) :
    list < pool.listCount ∧ list ≠ lists.inputs ∧ list ≠ lists.locals := by
  obtain ⟨takes, _, taken, aboveInputs, aboveLocals⟩ := beside
  have inputsInUse := takes.inputs
  have localsInUse := takes.locals
  rcases ofOwn with same | same
  · exact ⟨same ▸ taken.inputs, by omega, by omega⟩
  · exact ⟨same ▸ taken.locals, by omega, by omega⟩

/-- Variables of the new lists are new ones, so they may go to any list but the first. -/
theorem hands {next : Registry} {source target : Nat} {front : List Nat}
    (beside : base.Beside lists own pool) (hands : pool.Hands next source target front)
    (fromOwn : source = own.inputs ∨ source = own.locals)
    (goes : target = own.locals ∨ target = lists.locals) :
    base.Beside lists own { pool with toRegistry := next } := by
  obtain ⟨takes, grows, taken, aboveInputs, aboveLocals⟩ := beside
  have given := grows.takes takes
  have above : base.listCount ≤ source := by
    rcases fromOwn with same | same <;> rw [same] <;> assumption
  have sourceInUse : source < pool.listCount := by
    rcases fromOwn with same | same
    · exact same ▸ taken.inputs
    · exact same ▸ taken.locals
  have targetInUse : target < pool.listCount := by
    rcases goes with same | same
    · exact same ▸ taken.locals
    · exact same ▸ given.locals
  have sound := grows.sound.hands hands sourceInUse targetInUse
  refine ⟨takes, ?_, ⟨sound, taken.inputs, taken.locals, taken.different⟩, aboveInputs, aboveLocals⟩
  exact
    { sound := sound
      varCount := grows.varCount
      listCount := grows.listCount
      vars := fun var inUse => (congrFun hands.vars var).trans (grows.vars var inUse)
      owner := by
        intro var inUse
        refine (hands.owner var fun moved => ?_).trans (grows.owner var inUse)
        have held := hands.mem_source moved
        exact Nat.not_le_of_lt inUse (grows.unused_of_mem takes.sound above held)
      front := by
        intro list inUse
        refine (grows.front list inUse).trans ?_
        by_cases isTarget : list = target
        · rw [isTarget, hands.target]
          exact List.prefix_append _ _
        · rewrite [hands.others list (by omega) isTarget]
          exact List.prefix_rfl
      others := by
        intro list inUse notInputs notLocals
        have notTarget : list ≠ target := by
          rcases goes with same | same
          · omega
          · exact same ▸ notLocals
        rw [hands.others list (by omega) notTarget]
        exact grows.others list inUse notInputs notLocals }

end Beside

/-! ### Pools for a scope -/

theorem sound_start : start.Sound where
  registry := Registry.Sound.start _
  varsInUse := fun _ _ held => absurd held List.not_mem_nil
  listsInUse := fun _ _ => rfl

theorem Sound.foldl_put {entries : List TypedVar} (sound : pool.Sound)
    (inUse : list < pool.listCount)
    (distinct : ((pool.listed list ++ entries).map TypedVar.name).Nodup) :
    let filled := entries.foldl (Pool.put list) pool
    filled.Sound ∧ filled.listCount = pool.listCount ∧
      filled.listed list = pool.listed list ++ entries ∧
      ∀ other ≠ list, filled.listed other = pool.listed other := by
  induction entries generalizing pool with
  | nil => exact ⟨sound, rfl, (List.append_nil _).symm, fun _ _ => rfl⟩
  | cons entry rest ih =>
      have new : entry.name ∉ (pool.listed list).map TypedVar.name := by
        rw [List.map_append, List.nodup_append] at distinct
        exact fun taken => distinct.2.2 entry.name taken entry.name List.mem_cons_self rfl
      have listed := sound.listed_put_same list entry
      obtain ⟨filledSound, count, same, others⟩ := ih (sound.put inUse new) inUse
        (by rw [listed, List.append_assoc]; exact distinct)
      refine ⟨filledSound, count, ?_, fun other different => ?_⟩
      · rw [List.foldl_cons, same, listed, List.append_assoc]
        rfl
      · rw [List.foldl_cons, others other different, sound.listed_put_other entry different]

/-- A scope without a name that comes twice can be held. -/
theorem takes_holding {scope : Scope} (inputs : (scope.inputs.map TypedVar.name).Nodup)
    (locals : (scope.locals.map TypedVar.name).Nodup) :
    (holding scope).Takes firstLists ∧ (holding scope).scope firstLists = scope := by
  obtain ⟨filledSound, count, listedInputs, others⟩ := sound_start.foldl_put
    (by decide : firstLists.inputs < 2) inputs
  have bare := others firstLists.locals (by decide)
  have inUse : firstLists.locals <
      (scope.inputs.foldl (put firstLists.inputs) start).listCount := by
    rw [count]
    decide
  obtain ⟨sound, countToo, listedLocals, sameInputs⟩ := filledSound.foldl_put inUse
    (by rw [bare]; exact locals)
  have counted : (holding scope).listCount = 2 := countToo.trans count
  refine ⟨⟨sound, ?_, ?_, by decide⟩, ?_⟩
  · rw [counted]
    decide
  · rw [counted]
    decide
  · have heldInputs := (sameInputs firstLists.inputs (by decide)).trans listedInputs
    rw [bare] at listedLocals
    exact congrArg₂ Scope.mk heldInputs listedLocals

end Pool

end DBusMarshal
