import Mathlib.Data.List.Nodup
import DBusMarshal.VarList

/-!
What a registry keeps.

The owner of a variable is told twice, by the variable and by the lists. After any changes, those
that were refused included, both tell the same, and no list holds two variables of one name. A
variable that joins a list goes to its end, and all others keep their order. A transfer that the
target refuses is not undone: the variable is in no list then.
-/

set_option autoImplicit false

namespace DBusMarshal

/-! ### Actions one after the other -/

theorem bind_of_ok {ε σ α β : Type} {action : EStateM ε σ α} {next : α → EStateM ε σ β}
    {before after : σ} {result : α} (ended : action before = .ok result after) :
    (action >>= next) before = next result after := by
  change EStateM.bind action next before = _
  rw [EStateM.bind, ended]

theorem exists_of_bind_ok {ε σ α β : Type} {action : EStateM ε σ α} {next : α → EStateM ε σ β}
    {before after : σ} {result : β} (ended : (action >>= next) before = .ok result after) :
    ∃ first between, action before = .ok first between ∧ next first between = .ok result after := by
  change EStateM.bind action next before = _ at ended
  unfold EStateM.bind at ended
  cases ran : action before with
  | ok first between =>
      rw [ran] at ended
      exact ⟨first, between, rfl, ended⟩
  | error fault between =>
      rw [ran] at ended
      cases ended

theorem bind_of_error {ε σ α β : Type} {action : EStateM ε σ α} {next : α → EStateM ε σ β}
    {before after : σ} {fault : ε} (failed : action before = .error fault after) :
    (action >>= next) before = .error fault after := by
  change EStateM.bind action next before = _
  rw [EStateM.bind, failed]

theorem bind_of_except {ε σ α β : Type} {found : Except ε α} {next : α → EStateM ε σ β}
    {result : α} (isOk : found = .ok result) (state : σ) :
    ((MonadExcept.ofExcept found : EStateM ε σ α) >>= next) state = next result state := by
  subst isOk
  rfl

/-! ### Families -/

theorem exchangeAt_self {α : Type} (family : Nat → α) (index : Nat) :
    exchangeAt family index (family index) = family := by
  funext other
  by_cases same : other = index
  · rw [same, exchangeAt_same]
  · exact exchangeAt_other family _ same

theorem exchangeAt_exchangeAt {α : Type} (family : Nat → α) (index : Nat) (first second : α) :
    exchangeAt (exchangeAt family index first) index second = exchangeAt family index second := by
  funext other
  by_cases same : other = index
  · rw [same, exchangeAt_same, exchangeAt_same]
  · rw [exchangeAt_other _ _ same, exchangeAt_other _ _ same, exchangeAt_other _ _ same]

namespace Registry

def nameOf (r : Registry) (var : Nat) : VarName := (r.vars var).name

def heldNames (r : Registry) (list : Nat) : List VarName := (r.members list).map r.nameOf

theorem heldNames_eq (r : Registry) (list : Nat) :
    r.heldNames list = (r.listed list).map TypedVar.name := by
  rw [heldNames, listed, List.map_map]
  rfl

theorem any_name_iff (r : Registry) (list : Nat) (name : VarName) :
    (r.listed list).any (·.name = name) = true ↔ name ∈ r.heldNames list := by
  simp [listed, heldNames, nameOf]

variable {r next : Registry} {list other var : Nat}

/-! ### When a change is refused -/

theorem add_of_owned (owned : r.owner var ≠ none) :
    add list var r = .error (.breach (.alreadyOwned (r.nameText var))) r := by
  change (if (r.owner var).isSome = true then _ else _ : EStateM Fault Registry Unit) r = _
  rw [if_pos (Option.isSome_iff_ne_none.2 owned)]
  rfl

theorem add_of_duplicate (unowned : r.owner var = none)
    (taken : r.nameOf var ∈ r.heldNames list) :
    add list var r = .error (.breach (.duplicateName (r.nameText var))) r := by
  change (if (r.owner var).isSome = true then _ else
    if (r.listed list).any (·.name = r.nameOf var) = true then _ else _ :
      EStateM Fault Registry Unit) r = _
  rw [if_neg (by simp [unowned]), if_pos ((r.any_name_iff list _).2 taken)]
  rfl

theorem add_of_new (unowned : r.owner var = none) (new : r.nameOf var ∉ r.heldNames list) :
    add list var r = .ok () (r.append list var) := by
  change (if (r.owner var).isSome = true then _ else
    if (r.listed list).any (·.name = r.nameOf var) = true then _ else _ :
      EStateM Fault Registry Unit) r = _
  rw [if_neg (by simp [unowned]), if_neg (mt (r.any_name_iff list _).1 new)]
  rfl

theorem transfer_of_foreign (foreign : r.owner var ≠ some list) :
    transfer list var other r = .error (.breach (.notOwned (r.nameText var))) r := by
  change (if r.owner var ≠ some list then _ else _ : EStateM Fault Registry Unit) r = _
  rw [if_pos foreign]
  rfl

theorem transfer_of_owned (owned : r.owner var = some list) :
    transfer list var other r = add other var (r.remove list var) := by
  change (if r.owner var ≠ some list then _ else _ : EStateM Fault Registry Unit) r = _
  rw [if_neg (not_not_intro owned)]
  rfl

/-! ### Sound registries -/

/-- A variable is owned by the list that holds it and by no other one, and the variables of a list
have different names. -/
structure Sound (r : Registry) : Prop where
  owned_iff : ∀ var list, r.owner var = some list ↔ var ∈ r.members list
  distinct : ∀ list, (r.heldNames list).Nodup

/-- A variable comes to stand at the end of a list, and all others stand as they stood. -/
structure Joins (before after : Registry) (list var : Nat) : Prop where
  vars : after.vars = before.vars
  owner : after.owner = exchangeAt before.owner var (some list)
  last : after.members list = (before.members list).erase var ++ [var]
  others : ∀ other ≠ list, after.members other = (before.members other).erase var

namespace Sound

theorem start (vars : Nat → TypedVar) : (start vars).Sound where
  owned_iff := by
    intro var list
    simp [Registry.start]
  distinct := fun _ => List.nodup_nil

theorem nodup (sound : r.Sound) (list : Nat) : (r.members list).Nodup :=
  List.Nodup.of_map r.nameOf (sound.distinct list)

theorem not_mem_of_unowned (sound : r.Sound) (unowned : r.owner var = none) (list : Nat) :
    var ∉ r.members list := by
  intro held
  rw [(sound.owned_iff var list).2 held] at unowned
  cases unowned

theorem not_mem_of_owned (sound : r.Sound) (owned : r.owner var = some list)
    (different : other ≠ list) : var ∉ r.members other := by
  intro held
  rw [(sound.owned_iff var other).2 held] at owned
  exact different (Option.some.inj owned)

theorem joins (sound : r.Sound) (joins : r.Joins next list var)
    (new : r.nameOf var ∉ ((r.members list).erase var).map r.nameOf) : next.Sound where
  owned_iff := by
    intro one place
    rw [joins.owner]
    by_cases same : one = var
    · subst same
      rw [exchangeAt_same]
      by_cases here : place = list
      · subst here
        simp [joins.last]
      · rw [joins.others place here, Option.some.injEq]
        exact iff_of_false (Ne.symm here) (sound.nodup place).not_mem_erase
    · rw [exchangeAt_other _ _ same, sound.owned_iff]
      by_cases here : place = list
      · subst here
        simp [joins.last, List.mem_erase_of_ne same, same]
      · rw [joins.others place here, List.mem_erase_of_ne same]
  distinct := by
    intro place
    have names : next.nameOf = r.nameOf := by
      funext one
      rw [nameOf, joins.vars, nameOf]
    have remaining := (sound.distinct place).sublist ((List.erase_sublist (a := var)).map r.nameOf)
    rw [heldNames, names]
    by_cases here : place = list
    · subst here
      rw [joins.last, List.map_append, List.map_singleton, ← List.concat_eq_append]
      exact remaining.concat new
    · rw [joins.others place here]
      exact remaining

theorem members_remove (sound : r.Sound) (owned : r.owner var = some list) (other : Nat) :
    (r.remove list var).members other = (r.members other).erase var := by
  by_cases here : other = list
  · subst here
    exact exchangeAt_same _ _ _
  · rw [List.erase_of_not_mem (sound.not_mem_of_owned owned here)]
    exact exchangeAt_other _ _ here

theorem remove (sound : r.Sound) (owned : r.owner var = some list) : (r.remove list var).Sound where
  owned_iff := by
    intro one place
    change exchangeAt r.owner var none one = some place ↔ _
    rw [sound.members_remove owned]
    by_cases same : one = var
    · subst same
      rw [exchangeAt_same]
      exact iff_of_false (Option.some_ne_none place).symm (sound.nodup place).not_mem_erase
    · rw [exchangeAt_other _ _ same, sound.owned_iff, List.mem_erase_of_ne same]
  distinct := by
    intro place
    rw [heldNames, sound.members_remove owned]
    exact (sound.distinct place).sublist (List.erase_sublist.map r.nameOf)

theorem joins_append (sound : r.Sound) (unowned : r.owner var = none) (list : Nat) :
    r.Joins (r.append list var) list var where
  vars := rfl
  owner := rfl
  last := by
    rw [List.erase_of_not_mem (sound.not_mem_of_unowned unowned list)]
    exact exchangeAt_same _ _ _
  others := by
    intro place elsewhere
    rw [List.erase_of_not_mem (sound.not_mem_of_unowned unowned place)]
    exact exchangeAt_other _ _ elsewhere

theorem joins_transfer (sound : r.Sound) (owned : r.owner var = some list) (other : Nat) :
    r.Joins ((r.remove list var).append other var) other var where
  vars := rfl
  owner := exchangeAt_exchangeAt _ _ _ _
  last := by
    rw [← sound.members_remove owned]
    exact exchangeAt_same _ _ _
  others := by
    intro place elsewhere
    rw [← sound.members_remove owned]
    exact exchangeAt_other _ _ elsewhere

theorem name_new_of_owned (sound : r.Sound) (owned : r.owner var = some list) :
    r.nameOf var ∉ ((r.members list).erase var).map r.nameOf := by
  intro taken
  obtain ⟨twin, remains, sameName⟩ := List.mem_map.1 taken
  have equal : twin = var := List.inj_on_of_nodup_map (sound.distinct list)
    (List.mem_of_mem_erase remains) ((sound.owned_iff var list).1 owned) sameName
  subst equal
  exact (sound.nodup list).not_mem_erase remains

/-- How adding a variable ends: it is refused and nothing changes, or the variable joins the
list. -/
theorem add_cases (sound : r.Sound) (list var : Nat) :
    (∃ demand, add list var r = .error (.breach demand) r) ∨
      ∃ next : Registry, add list var r = .ok () next ∧ r.Joins next list var ∧ next.Sound := by
  by_cases unowned : r.owner var = none
  · by_cases taken : r.nameOf var ∈ r.heldNames list
    · exact Or.inl ⟨_, add_of_duplicate unowned taken⟩
    · have joins := sound.joins_append unowned list
      refine Or.inr ⟨_, add_of_new unowned taken, joins, sound.joins joins ?_⟩
      rw [List.erase_of_not_mem (sound.not_mem_of_unowned unowned list)]
      exact taken
  · exact Or.inl ⟨_, add_of_owned unowned⟩

/-- How a transfer ends. A list that does not own the variable is refused, and nothing changes. A
target that holds the name refuses, when the variable has left its list already. Otherwise the
variable joins the target. -/
theorem transfer_cases (sound : r.Sound) (list var other : Nat) :
    (r.owner var ≠ some list ∧
        transfer list var other r = .error (.breach (.notOwned (r.nameText var))) r) ∨
      (r.owner var = some list ∧ other ≠ list ∧ r.nameOf var ∈ r.heldNames other ∧
        transfer list var other r =
          .error (.breach (.duplicateName (r.nameText var))) (r.remove list var)) ∨
      (r.owner var = some list ∧ (other ≠ list → r.nameOf var ∉ r.heldNames other) ∧
        ∃ next : Registry,
          transfer list var other r = .ok () next ∧ r.Joins next other var ∧ next.Sound) := by
  by_cases owned : r.owner var = some list
  · have unowned : (r.remove list var).owner var = none := exchangeAt_same _ _ _
    have names : (r.remove list var).heldNames other =
        ((r.members other).erase var).map r.nameOf :=
      congrArg (List.map r.nameOf) (sound.members_remove owned other)
    have elsewhere : other ≠ list →
        ((r.members other).erase var).map r.nameOf = r.heldNames other := by
      intro different
      rw [List.erase_of_not_mem (sound.not_mem_of_owned owned different)]
      rfl
    rw [transfer_of_owned owned]
    -- The target looks for the name when the variable has left, so a transfer of a variable to its
    -- own list finds no twin.
    by_cases taken : r.nameOf var ∈ ((r.members other).erase var).map r.nameOf
    · have different : other ≠ list := fun same =>
        sound.name_new_of_owned owned (same ▸ taken)
      exact Or.inr (Or.inl ⟨owned, different, elsewhere different ▸ taken,
        add_of_duplicate unowned (names ▸ taken)⟩)
    · have joins := sound.joins_transfer owned other
      exact Or.inr (Or.inr ⟨owned, fun different => elsewhere different ▸ taken, _,
        add_of_new unowned (names ▸ taken), joins, sound.joins joins taken⟩)
  · exact Or.inl ⟨owned, transfer_of_foreign owned⟩

end Sound

/-! ### Sequences of changes -/

inductive Change where
  | add (list var : Nat)
  | transfer (list var other : Nat)
  | transferAll (list other : Nat)
deriving DecidableEq, Repr

def Change.action : Change → EStateM Fault Registry Unit
  | add list var => Registry.add list var
  | transfer list var other => Registry.transfer list var other
  | transferAll list other => Registry.transferAll list other

/-- What an action leaves behind, whether it succeeds or is refused. -/
def left (action : EStateM Fault Registry Unit) (r : Registry) : Registry :=
  match action r with
  | .ok _ next => next
  | .error _ next => next

/-- The registry after several changes, each of which may have been refused. -/
def afterAll (r : Registry) (changes : List Change) : Registry :=
  changes.foldl (fun r change => left change.action r) r

/-- Whatever comes of the action, the registry stays sound and the variables stay what they are. -/
def Keeps (action : EStateM Fault Registry Unit) : Prop :=
  ∀ r : Registry, r.Sound → (left action r).Sound ∧ (left action r).vars = r.vars

theorem keeps_add (list var : Nat) : Keeps (add list var) := by
  intro r sound
  unfold left
  rcases sound.add_cases list var with ⟨demand, refused⟩ | ⟨next, added, joins, nextSound⟩
  · rw [refused]
    exact ⟨sound, rfl⟩
  · rw [added]
    exact ⟨nextSound, joins.vars⟩

theorem keeps_transfer (list var other : Nat) : Keeps (transfer list var other) := by
  intro r sound
  unfold left
  rcases sound.transfer_cases list var other with
    ⟨_, refused⟩ | ⟨owned, _, _, refused⟩ | ⟨_, _, next, moved, joins, nextSound⟩
  · rw [refused]
    exact ⟨sound, rfl⟩
  · rw [refused]
    exact ⟨sound.remove owned, rfl⟩
  · rw [moved]
    exact ⟨nextSound, joins.vars⟩

theorem keeps_transferEach (list other : Nat) (front : List Nat) :
    Keeps (transferEach list other front) := by
  induction front with
  | nil => exact fun r sound => ⟨sound, rfl⟩
  | cons var rest ih =>
      intro r sound
      have first := keeps_transfer list var other r sound
      unfold left at first ⊢
      cases moved : transfer list var other r with
      | ok _ next =>
          rw [moved] at first
          rw [transferEach, bind_of_ok moved]
          have later := ih next first.1
          exact ⟨later.1, later.2.trans first.2⟩
      | error fault next =>
          rw [moved] at first
          rw [transferEach, bind_of_error moved]
          exact first

theorem transferAll_eq (r : Registry) (list other : Nat) :
    transferAll list other r = transferEach list other (r.members list) r := rfl

theorem Change.keeps (change : Change) : Keeps change.action := by
  cases change with
  | add list var => exact keeps_add list var
  | transfer list var other => exact keeps_transfer list var other
  | transferAll list other =>
      exact fun r sound => keeps_transferEach list other (r.members list) r sound

theorem Sound.afterAll (sound : r.Sound) (changes : List Change) :
    (r.afterAll changes).Sound ∧ (r.afterAll changes).vars = r.vars := by
  induction changes generalizing r with
  | nil => exact ⟨sound, rfl⟩
  | cons change rest ih =>
      have first := change.keeps r sound
      have later := ih first.1
      exact ⟨later.1, later.2.trans first.2⟩

/-! ### Transfers of whole lists -/

/-- The registry with another order of the variables of a list. -/
def reorder (r : Registry) (list : Nat) (order : List Nat) : Registry :=
  { r with members := exchangeAt r.members list order }

theorem Sound.transfer_itself (sound : r.Sound) (owned : r.owner var = some list) :
    transfer list var list r = .ok () (r.reorder list ((r.members list).erase var ++ [var])) := by
  have unowned : (r.remove list var).owner var = none := exchangeAt_same _ _ _
  have removed := sound.members_remove owned list
  have new : (r.remove list var).nameOf var ∉ (r.remove list var).heldNames list := by
    rw [heldNames, removed]
    exact sound.name_new_of_owned owned
  rw [transfer_of_owned owned, add_of_new unowned new, append, removed]
  change EStateM.Result.ok () ({
    vars := r.vars
    owner := exchangeAt (exchangeAt r.owner var none) var (some list)
    members := exchangeAt (exchangeAt r.members list _) list _ } : Registry) = _
  rw [exchangeAt_exchangeAt, exchangeAt_exchangeAt, ← owned, exchangeAt_self]
  rfl

/-- Transferring the front of a list to the list itself moves the front behind the rest. -/
theorem Sound.transferEach_itself {front back : List Nat} (sound : r.Sound)
    (holds : r.members list = front ++ back) :
    transferEach list list front r = .ok () (r.reorder list (back ++ front)) := by
  induction front generalizing r back with
  | nil =>
      have same : r.reorder list (back ++ []) = r := by
        rw [List.append_nil, ← List.nil_append back, ← holds, reorder, exchangeAt_self]
      rw [same]
      rfl
  | cons var rest ih =>
      -- What has been moved stands behind the rest, and the source goes on with the front.
      have owned : r.owner var = some list := by
        rw [sound.owned_iff, holds]
        exact List.mem_cons_self
      have moved := sound.transfer_itself owned
      rw [holds, List.cons_append, List.erase_cons_head, List.append_assoc] at moved
      have kept := (keeps_transfer list var list r sound).1
      unfold left at kept
      rw [moved] at kept
      rw [transferEach, bind_of_ok moved, ih kept (exchangeAt_same _ _ _), reorder, reorder,
        reorder]
      simp [exchangeAt_exchangeAt]

/-- A list has handed its front over to another one, which has it behind its own variables. -/
structure Hands (before after : Registry) (list other : Nat) (front : List Nat) : Prop where
  sound : after.Sound
  vars : after.vars = before.vars
  owner : ∀ var ∉ front, after.owner var = before.owner var
  source : before.members list = front ++ after.members list
  target : after.members other = before.members other ++ front
  others : ∀ third, third ≠ list → third ≠ other → after.members third = before.members third

namespace Hands

variable {last : Registry} {front back : List Nat}

theorem refl (sound : r.Sound) (list other : Nat) : r.Hands r list other [] where
  sound := sound
  vars := rfl
  owner := fun _ _ => rfl
  source := rfl
  target := (List.append_nil _).symm
  others := fun _ _ _ => rfl

theorem trans (first : r.Hands next list other front) (second : next.Hands last list other back) :
    r.Hands last list other (front ++ back) where
  sound := second.sound
  vars := second.vars.trans first.vars
  owner := by
    intro var outside
    rw [List.mem_append, not_or] at outside
    exact (second.owner var outside.2).trans (first.owner var outside.1)
  source := by rw [first.source, second.source, List.append_assoc]
  target := by rw [second.target, first.target, List.append_assoc]
  others := fun third notSource notTarget =>
    (second.others third notSource notTarget).trans (first.others third notSource notTarget)

theorem mem_source (hands : r.Hands next list other front) (moved : var ∈ front) :
    var ∈ r.members list :=
  hands.source ▸ List.mem_append_left _ moved

/-- No variable comes from outside of the lists. -/
theorem held_before (hands : r.Hands next list other front) {third : Nat}
    (held : var ∈ next.members third) : ∃ place, var ∈ r.members place := by
  by_cases isTarget : third = other
  · rw [isTarget, hands.target, List.mem_append] at held
    exact held.elim (fun before => ⟨other, before⟩) fun moved => ⟨list, hands.mem_source moved⟩
  · by_cases isSource : third = list
    · exact ⟨list, hands.source ▸ List.mem_append_right _ (isSource ▸ held)⟩
    · exact ⟨third, hands.others third isSource isTarget ▸ held⟩

theorem listed_target (hands : r.Hands next list other front) :
    next.listed other = r.listed other ++ front.map r.vars := by
  rw [listed, hands.target, hands.vars, List.map_append, listed]

theorem listed_source (hands : r.Hands next list other front) :
    r.listed list = front.map r.vars ++ next.listed list := by
  rw [listed, hands.source, List.map_append, listed, hands.vars]

theorem listed_others (hands : r.Hands next list other front) {third : Nat}
    (notSource : third ≠ list) (notTarget : third ≠ other) :
    next.listed third = r.listed third := by
  rw [listed, hands.others third notSource notTarget, hands.vars, listed]

end Hands

/-- How an action ends that hands a front over: it is refused when the target holds one of the
names, and only then. -/
def HandsOver (r : Registry) (list other : Nat) (front : List Nat)
    (ended : EStateM.Result Fault Registry Unit) : Prop :=
  ((∃ var ∈ front, r.nameOf var ∈ r.heldNames other) ∧ ∃ name next,
      ended = .error (.breach (.duplicateName name)) next) ∨
    ((∀ var ∈ front, r.nameOf var ∉ r.heldNames other) ∧ ∃ next : Registry,
      ended = .ok () next ∧ r.Hands next list other front)

theorem Sound.transfer_front {back : List Nat} (sound : r.Sound) (different : list ≠ other)
    (holds : r.members list = var :: back) :
    r.HandsOver list other [var] (transfer list var other r) := by
  have held : var ∈ r.members list := holds ▸ List.mem_cons_self
  rcases sound.transfer_cases list var other with
    ⟨foreign, _⟩ | ⟨_, _, taken, refused⟩ | ⟨owned, free, next, moved, joins, nextSound⟩
  · exact absurd ((sound.owned_iff var list).2 held) foreign
  · exact Or.inl ⟨⟨var, List.mem_singleton_self var, taken⟩, _, _, refused⟩
  · refine Or.inr ⟨List.forall_mem_singleton.2 (free different.symm), next, moved, ?_⟩
    exact
      { sound := nextSound
        vars := joins.vars
        owner := by
          intro one outside
          rw [joins.owner, exchangeAt_other _ _ (mt List.mem_singleton.2 outside)]
        source := by rw [joins.others list different, holds, List.erase_cons_head]; rfl
        target := by
          rw [joins.last, List.erase_of_not_mem (sound.not_mem_of_owned owned different.symm)]
        others := by
          intro third notSource notTarget
          rw [joins.others third notTarget,
            List.erase_of_not_mem (sound.not_mem_of_owned owned notSource)] }

theorem Sound.transferEach_front {front back : List Nat} (sound : r.Sound)
    (different : list ≠ other) (holds : r.members list = front ++ back) :
    r.HandsOver list other front (transferEach list other front r) := by
  induction front generalizing r with
  | nil => exact Or.inr ⟨List.forall_mem_nil _, r, rfl, .refl sound list other⟩
  | cons var rest ih =>
      rcases sound.transfer_front different holds with
        ⟨⟨one, isFirst, taken⟩, name, next, refused⟩ | ⟨free, next, moved, first⟩
      · rw [List.mem_singleton.1 isFirst] at taken
        exact Or.inl ⟨⟨var, List.mem_cons_self, taken⟩, name, next, bind_of_error refused⟩
      · have remaining : next.members list = rest ++ back :=
          (List.cons.inj (holds.symm.trans first.source)).2.symm
        have names : next.nameOf = r.nameOf := by
          funext one
          rw [nameOf, first.vars, nameOf]
        -- The name that went first differs from those that follow, since all were in one list.
        have distinct := sound.distinct list
        rw [heldNames, holds, List.cons_append, List.map_cons, List.nodup_cons, List.map_append,
          List.mem_append, not_or] at distinct
        have later : ∀ one ∈ rest,
            next.nameOf one ∈ next.heldNames other ↔ r.nameOf one ∈ r.heldNames other := by
          intro one listed
          have apart : r.nameOf one ≠ r.nameOf var :=
            fun same => distinct.1.1 (same ▸ List.mem_map_of_mem listed)
          rw [names, heldNames_eq, first.listed_target, List.map_append, ← heldNames_eq,
            List.mem_append]
          exact or_iff_left fun taken => apart (List.mem_singleton.1 taken)
        rw [List.forall_mem_singleton] at free
        rw [transferEach, bind_of_ok moved]
        rcases ih first.sound remaining with
          ⟨⟨one, listed, taken⟩, refused⟩ | ⟨freeLater, last, ended, second⟩
        · exact Or.inl ⟨⟨one, List.mem_cons_of_mem _ listed, (later one listed).1 taken⟩, refused⟩
        · refine Or.inr ⟨List.forall_mem_cons.2 ⟨free, ?_⟩, last, ended, first.trans second⟩
          exact fun one listed => mt (later one listed).2 (freeLater one listed)

/-! ### What holds after any changes -/

/-- After any changes to empty lists and variables without owners, a variable occurs at most once
and in one list only, its owner is the list that holds it, and the names in each list differ. From
there on, a variable that is added or transferred goes to the end of the target, and all others
keep their order; a transfer of a whole list moves its variables behind those of the target in
their order, and changes nothing when the list is its own target. -/
theorem ownership_kept (vars : Nat → TypedVar) (changes : List Change) :
    let r := (start vars).afterAll changes
    r.vars = vars ∧
    (∀ list, (r.members list).Nodup) ∧
    (∀ var list other, var ∈ r.members list → var ∈ r.members other → list = other) ∧
    (∀ var list, r.owner var = some list ↔ var ∈ r.members list) ∧
    (∀ list, (r.heldNames list).Nodup) ∧
    (∀ list var next, add list var r = .ok () next → r.Joins next list var) ∧
    (∀ list var other next, transfer list var other r = .ok () next → r.Joins next other var) ∧
    (∀ list other next, list ≠ other → transferAll list other r = .ok () next →
      next.members other = r.members other ++ r.members list ∧ next.members list = [] ∧
      ∀ third, third ≠ list → third ≠ other → next.members third = r.members third) ∧
    (∀ list, transferAll list list r = .ok () r) := by
  intro r
  obtain ⟨sound, sameVars⟩ := (Sound.start vars).afterAll changes
  refine ⟨sameVars, sound.nodup, ?_, sound.owned_iff, sound.distinct, ?_, ?_, ?_, ?_⟩
  · intro var list other held heldToo
    have owner := (sound.owned_iff var list).2 held
    rw [(sound.owned_iff var other).2 heldToo] at owner
    exact (Option.some.inj owner).symm
  · intro list var next added
    rcases sound.add_cases list var with ⟨_, refused⟩ | ⟨_, ended, joins, _⟩
    · rw [refused] at added
      cases added
    · rw [ended] at added
      cases added
      exact joins
  · intro list var other next moved
    rcases sound.transfer_cases list var other with
      ⟨_, refused⟩ | ⟨_, _, _, refused⟩ | ⟨_, _, _, ended, joins, _⟩
    · rw [refused] at moved
      cases moved
    · rw [refused] at moved
      cases moved
    · rw [ended] at moved
      cases moved
      exact joins
  · intro list other next different moved
    rw [transferAll_eq] at moved
    have holds := (List.append_nil (r.members list)).symm
    rcases sound.transferEach_front different holds with ⟨_, _, _, refused⟩ | ⟨_, _, ended, hands⟩
    · rw [refused] at moved
      cases moved
    · rw [ended] at moved
      cases moved
      exact ⟨hands.target, List.self_eq_append_right.1 hands.source, hands.others⟩
  · intro list
    have moved := sound.transferEach_itself (List.append_nil (r.members list)).symm
    rw [transferAll_eq, moved, List.nil_append, reorder, exchangeAt_self]

/-- After any changes, a transfer is refused in two cases only. Where the list does not own the
variable, nothing changes. Where another list holds a variable of the name, the variable is taken
from its list and stays without an owner; no other variable is concerned. -/
theorem transfer_refused (vars : Nat → TypedVar) (changes : List Change) (list var other : Nat) :
    let r := (start vars).afterAll changes
    (∀ fault next, transfer list var other r = .error fault next ↔
      (r.owner var ≠ some list ∧ fault = .breach (.notOwned (r.nameText var)) ∧ next = r) ∨
      (r.owner var = some list ∧ other ≠ list ∧ r.nameOf var ∈ r.heldNames other ∧
        fault = .breach (.duplicateName (r.nameText var)) ∧ next = r.remove list var)) ∧
    (r.owner var = some list →
      (r.remove list var).owner var = none ∧
      (∀ one ≠ var, (r.remove list var).owner one = r.owner one) ∧
      ∀ place, var ∉ (r.remove list var).members place ∧
        (r.remove list var).members place = (r.members place).erase var) := by
  intro r
  obtain ⟨sound, _⟩ := (Sound.start vars).afterAll changes
  refine ⟨fun fault next => ?_, fun owned => ⟨exchangeAt_same _ _ _, ?_, fun place => ?_⟩⟩
  · rcases sound.transfer_cases list var other with
      ⟨foreign, refused⟩ | ⟨owned, different, taken, refused⟩ | ⟨owned, free, _, moved, _, _⟩
    · rw [refused]
      grind
    · rw [refused]
      grind
    · rw [moved]
      grind
  · exact fun one elsewhere => exchangeAt_other _ _ elsewhere
  · have removed := sound.members_remove owned place
    exact ⟨removed ▸ (sound.nodup place).not_mem_erase, removed⟩

/-- Two variables of one name. -/
def twins : Nat → TypedVar
  | 0 => { type := "int32_t", name := { base := "x" } }
  | _ => { type := "size_t", name := { base := "x" } }

/-- A refused transfer may lose the variable. -/
theorem transfer_loses_variable :
    let r := (start twins).afterAll [.add 0 0, .add 1 1]
    ∃ next, transfer 0 0 1 r = .error (.breach (.duplicateName "x")) next ∧
      r.owner 0 = some 0 ∧ r.members 0 = [0] ∧ r.members 1 = [1] ∧
      next.owner 0 = none ∧ next.members 0 = [] ∧ next.members 1 = [1] :=
  ⟨_, rfl, rfl, rfl, rfl, rfl, rfl, rfl⟩

end Registry

end DBusMarshal
