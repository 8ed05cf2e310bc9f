import DBusMarshal.Proofs.Message

/-!
What the calls of a message do to a writer.
-/

set_option autoImplicit false

namespace DBusMarshal

open Writer (Call)

namespace Writer

/-- Carry out calls one after the other, each of them counted and none of them refused. -/
def carryAll (w : Writer) (calls : List Call) : Writer :=
  calls.foldl (fun w call => (w.count.carryOut call).2) w

theorem carryAll_append (w : Writer) (first second : List Call) :
    w.carryAll (first ++ second) = (w.carryAll first).carryAll second :=
  List.foldl_append

theorem ops_carryAll (w : Writer) (calls : List Call) :
    (w.carryAll calls).ops = w.ops + calls.length := by
  induction calls generalizing w with
  | nil => rfl
  | cons call rest ih =>
      change ((w.count.carryOut call).2.carryAll rest).ops = _
      rw [ih, ops_carryOut, List.length_cons]
      change w.ops + 1 + rest.length = _
      omega

theorem failAt_carryAll (w : Writer) (calls : List Call) :
    (w.carryAll calls).failAt = w.failAt := by
  induction calls generalizing w with
  | nil => rfl
  | cons call rest ih =>
      change ((w.count.carryOut call).2.carryAll rest).failAt = _
      rw [ih]
      cases call <;> rfl

theorem modify_at (w : Writer) (handle : Nat) (change : Container → Container) :
    (w.modify handle change).containers[handle]? = w.containers[handle]?.map change := by
  simp [modify]

theorem modify_elsewhere (w : Writer) {handle other : Nat} (change : Container → Container)
    (different : other ≠ handle) :
    (w.modify handle change).containers[other]? = w.containers[other]? := by
  simp [modify, different.symm]

theorem length_modify (w : Writer) (handle : Nat) (change : Container → Container) :
    (w.modify handle change).containers.length = w.containers.length := by
  simp [modify]

/-! ### Opening and closing -/

section Opening

variable (w : Writer) (target : Nat) (typeConst : String) (signature : Option String)

theorem containers_open :
    (w.carryAll [.openContainer target typeConst signature]).containers =
      (w.count.push target (.container w.containers.length)).containers ++
        [{ typeConst := some typeConst, signature }] := rfl

theorem length_push (item : Slot) :
    (w.count.push target item).containers.length = w.containers.length := by
  rw [push, length_modify]
  rfl

theorem length_open :
    (w.carryAll [.openContainer target typeConst signature]).containers.length =
      w.containers.length + 1 := by
  rw [containers_open, List.length_append, length_push]
  rfl

theorem open_new :
    (w.carryAll [.openContainer target typeConst signature]).containers[w.containers.length]? =
      some { typeConst := some typeConst, signature } := by
  rw [containers_open, List.getElem?_append_right (Nat.le_of_eq (w.length_push target _)),
    length_push, Nat.sub_self]
  rfl

theorem open_old {handle : Nat} (below : handle < w.containers.length) :
    (w.carryAll [.openContainer target typeConst signature]).containers[handle]? =
      (w.count.push target (.container w.containers.length)).containers[handle]? := by
  rw [containers_open, List.getElem?_append_left (by rw [length_push]; exact below)]

end Opening

theorem plain_container {w : Writer} {handle depth : Nat} {container : Container}
    {values : List Value} (found : w.containers[handle]? = some container)
    (closed : container.isOpen = false)
    (items : container.items.mapM (w.plain depth) = .ok values) :
    w.plain (depth + 1) (.container handle) = .ok (.list values) := by
  have known : w.container handle = .ok container := by
    rw [Writer.container, found]
  rw [plain, known]
  change (if container.isOpen = true then _ else
    (container.items.mapM (w.plain depth) >>= fun items => pure (Value.list items))) = _
  rw [closed, if_neg Bool.false_ne_true, items]
  rfl

end Writer

def Container.grow (container : Container) (items : List Slot) : Container :=
  { container with items := container.items ++ items }

/-- From one writer to the next, items join a container, new containers come that are all closed,
and nothing else changes. In every later writer that keeps the new containers, the items are read
back as the given values. -/
structure Writer.Adds (before after : Writer) (target : Nat) (items : List Slot)
    (values : List Value) (count : Nat) : Prop where
  length : after.containers.length = before.containers.length + count
  grown : after.containers[target]? = before.containers[target]?.map (·.grow items)
  others : ∀ handle < before.containers.length, handle ≠ target →
    after.containers[handle]? = before.containers[handle]?
  closed : ∀ (handle : Nat) (container : Container), before.containers.length ≤ handle →
    after.containers[handle]? = some container → container.isOpen = false
  plain : ∀ final : Writer,
    (∀ handle, before.containers.length ≤ handle → handle < after.containers.length →
      final.containers[handle]? = after.containers[handle]?) →
    ∀ depth, count ≤ depth → items.mapM (final.plain depth) = .ok values

namespace Writer.Adds

theorem refl (w : Writer) (target : Nat) : Adds w w target [] [] 0 where
  length := rfl
  grown := by
    cases w.containers[target]? with
    | none => rfl
    | some container => simp [Container.grow]
  others := fun _ _ _ => rfl
  closed := by
    intro handle container above found
    rw [List.getElem?_eq_none above] at found
    cases found
  plain := fun _ _ _ _ => rfl

theorem mapM_append {items more : List Slot} {values others : List Value}
    {read : Slot → Except Fault Value} (first : items.mapM read = .ok values)
    (second : more.mapM read = .ok others) :
    (items ++ more).mapM read = .ok (values ++ others) := by
  rw [List.mapM_append, first, second]
  rfl

theorem trans {before between after : Writer} {target count further : Nat}
    {items more : List Slot} {values others : List Value}
    (known : target < before.containers.length)
    (first : Adds before between target items values count)
    (second : Adds between after target more others further) :
    Adds before after target (items ++ more) (values ++ others) (count + further) where
  length := by
    rw [second.length, first.length]
    omega
  grown := by
    rw [second.grown, first.grown]
    cases before.containers[target]? with
    | none => rfl
    | some container => simp [Container.grow]
  others := by
    intro handle below different
    have longer := first.length
    rw [second.others handle (by omega) different, first.others handle below different]
  closed := by
    intro handle container above found
    rcases Nat.lt_or_ge handle between.containers.length with below | beyond
    · rw [second.others handle below (by omega)] at found
      exact first.closed handle container above found
    · exact second.closed handle container beyond found
  plain := by
    intro final keeps depth enough
    have longer := first.length
    have longerAgain := second.length
    refine mapM_append (first.plain final ?_ depth (by omega))
      (second.plain final ?_ depth (by omega))
    · intro handle above below
      rw [keeps handle above (by omega), second.others handle below (by omega)]
    · intro handle above below
      exact keeps handle (by omega) below

theorem isOpen {before after : Writer} {target count handle : Nat} {items : List Slot}
    {values : List Value} {container : Container}
    (adds : Adds before after target items values count)
    (found : before.containers[handle]? = some container) :
    ∃ later : Container, after.containers[handle]? = some later ∧
      later.isOpen = container.isOpen := by
  by_cases same : handle = target
  · subst same
    refine ⟨container.grow items, ?_, rfl⟩
    rw [adds.grown, found]
    rfl
  · obtain ⟨below, _⟩ := List.getElem?_eq_some_iff.1 found
    exact ⟨container, by rw [adds.others handle below same, found], rfl⟩

end Writer.Adds

/-! ### Calls of messages -/

namespace Message

theorem adds_leaf (w : Writer) (target : Nat) (typeConst : String) (value : Value) :
    Writer.Adds w (w.carryAll [.append target typeConst (.value value)]) target
      [.value value] [value] 0 where
  length := by
    change (w.count.push target (.value value)).containers.length = _
    rw [Writer.push, Writer.length_modify]
    rfl
  grown := by
    change (w.count.push target (.value value)).containers[target]? = _
    rw [Writer.push, Writer.modify_at]
    rfl
  others := by
    intro handle _ different
    change (w.count.push target (.value value)).containers[handle]? = _
    rw [Writer.push, Writer.modify_elsewhere _ _ different]
    rfl
  closed := by
    intro handle container above found
    change (w.count.push target (.value value)).containers[handle]? = _ at found
    have outside : (w.count.push target (.value value)).containers.length ≤ handle := by
      rw [Writer.push, Writer.length_modify]
      exact above
    rw [List.getElem?_eq_none outside] at found
    cases found
  plain := by
    intro final _ depth _
    cases depth <;> rfl

theorem adds_container {w : Writer} {target count : Nat} {typeConst : String}
    {signature : Option String} {calls : List Call} {slots : List Slot} {values : List Value}
    (known : target < w.containers.length)
    (adds : Writer.Adds (w.carryAll [.openContainer target typeConst signature])
      ((w.carryAll [.openContainer target typeConst signature]).carryAll calls)
      w.containers.length slots values count) :
    Writer.Adds w
      (w.carryAll (.openContainer target typeConst signature ::
        (calls ++ [.closeContainer (.container target) w.containers.length])))
      target [.container w.containers.length] [.list values] (count + 1) := by
  have startedLength := w.length_open target typeConst signature
  have startedNew := w.open_new target typeConst signature
  have startedOld := fun handle (below : handle < w.containers.length) =>
    w.open_old target typeConst signature below
  rw [← List.singleton_append, Writer.carryAll_append, Writer.carryAll_append]
  -- Only three writers matter: after opening, after filling, and after closing.
  generalize w.carryAll [.openContainer target typeConst signature] = started at *
  generalize started.carryAll calls = filled at *
  have endedElsewhere : ∀ handle ≠ w.containers.length,
      (filled.count.close w.containers.length).containers[handle]? =
        filled.containers[handle]? :=
    fun handle different => Writer.modify_elsewhere filled.count _ different
  have endedNew : (filled.count.close w.containers.length).containers[w.containers.length]? =
      some ({ typeConst := some typeConst, signature, items := slots, isOpen := false } :
        Container) := by
    rw [Writer.close, Writer.modify_at]
    change filled.containers[w.containers.length]?.map _ = _
    rw [adds.grown, startedNew]
    rfl
  have filledLength : filled.containers.length = w.containers.length + (count + 1) := by
    rw [adds.length, startedLength]
    omega
  have endedLength : (filled.count.close w.containers.length).containers.length =
      w.containers.length + (count + 1) := by
    rw [Writer.close, Writer.length_modify]
    exact filledLength
  change Writer.Adds w (filled.count.close w.containers.length) target _ _ _
  exact
    { length := endedLength
      grown := by
        rw [endedElsewhere target (by omega), adds.others target (by omega) (by omega),
          startedOld target known, Writer.push, Writer.modify_at]
        rfl
      others := by
        intro handle below different
        rw [endedElsewhere handle (by omega), adds.others handle (by omega) (by omega),
          startedOld handle below, Writer.push, Writer.modify_elsewhere _ _ different]
        rfl
      closed := by
        intro handle container above found
        by_cases same : handle = w.containers.length
        · rw [same, endedNew] at found
          cases found
          rfl
        · rw [endedElsewhere handle same] at found
          exact adds.closed handle container (by omega) found
      plain := by
        intro final keeps depth enough
        cases depth with
        | zero => omega
        | succ depth =>
            have itself := keeps w.containers.length (Nat.le_refl _) (by omega)
            rw [endedNew] at itself
            have inner : slots.mapM (final.plain depth) = .ok values := by
              refine adds.plain final ?_ depth (by omega)
              intro handle above below
              rw [keeps handle (by omega) (by omega), endedElsewhere handle (by omega)]
            rw [List.mapM_cons, Writer.plain_container itself rfl inner]
            rfl }

mutual

/-- The calls of a message add the message to their target and close whatever they open. -/
theorem adds_calls (message : Message) (w : Writer) (target : Nat)
    (known : target < w.containers.length) :
    ∃ slot, Writer.Adds w (w.carryAll (message.calls target w.containers.length)) target
      [slot] [message.plain] message.containers := by
  cases message with
  | leaf typeConst value => exact ⟨.value value, adds_leaf w target typeConst value⟩
  | container typeConst signature items =>
      have startedLength := w.length_open target typeConst signature
      obtain ⟨slots, adds⟩ := adds_callsAll items
        (w.carryAll [.openContainer target typeConst signature]) w.containers.length (by omega)
      rw [startedLength] at adds
      exact ⟨_, adds_container known adds⟩

theorem adds_callsAll (items : List Message) (w : Writer) (target : Nat)
    (known : target < w.containers.length) :
    ∃ slots, Writer.Adds w (w.carryAll (callsAll items target w.containers.length)) target
      slots (plainAll items) (containersAll items) := by
  cases items with
  | nil => exact ⟨[], Writer.Adds.refl w target⟩
  | cons item rest =>
      obtain ⟨slot, first⟩ := adds_calls item w target known
      have longer := first.length
      obtain ⟨slots, others⟩ := adds_callsAll rest
        (w.carryAll (item.calls target w.containers.length)) target (by omega)
      rw [longer] at others
      refine ⟨[slot] ++ slots, ?_⟩
      rw [callsAll, Writer.carryAll_append]
      exact first.trans known others

end

theorem adds_start (items : List Message) (failAt : Option Int) :
    ∃ slots, Writer.Adds (.start failAt)
      ((Writer.start failAt).carryAll (callsAll items Writer.root 1)) Writer.root slots
      (plainAll items) (containersAll items) :=
  adds_callsAll items (.start failAt) Writer.root Nat.one_pos

theorem callsAll_singleton (message : Message) (target next : Nat) :
    callsAll [message] target next = message.calls target next := by
  rw [callsAll, callsAll, List.append_nil]

/-- Written into an empty writer, messages are all that is read back. -/
theorem values_callsAll (items : List Message) (failAt : Option Int) :
    ((Writer.start failAt).carryAll (callsAll items Writer.root 1)).values =
      .ok (plainAll items) := by
  obtain ⟨slots, adds⟩ := adds_start items failAt
  have root : ((Writer.start failAt).carryAll (callsAll items Writer.root 1)).rootItems =
      slots := by
    rw [Writer.rootItems, adds.grown]
    rfl
  have enough : containersAll items ≤
      ((Writer.start failAt).carryAll (callsAll items Writer.root 1)).containers.length := by
    rw [adds.length]
    omega
  rw [Writer.values, root]
  exact adds.plain _ (fun _ _ _ => rfl) _ enough

theorem values_carryAll (message : Message) (failAt : Option Int) :
    ((Writer.start failAt).carryAll (message.calls Writer.root 1)).values =
      .ok [message.plain] := by
  rw [← callsAll_singleton]
  exact values_callsAll [message] failAt

/-- Every container of the message is closed in the end. -/
theorem closed_carryAll (message : Message) (failAt : Option Int) {handle : Nat}
    {container : Container} (notRoot : handle ≠ Writer.root)
    (found : ((Writer.start failAt).carryAll
      (message.calls Writer.root 1)).containers[handle]? = some container) :
    container.isOpen = false := by
  rw [← callsAll_singleton] at found
  obtain ⟨slots, adds⟩ := adds_start [message] failAt
  exact adds.closed handle container (Nat.one_le_iff_ne_zero.2 notRoot) found

end Message

end DBusMarshal
