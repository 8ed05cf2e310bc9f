import DBusMarshal.Proofs.Confinement
import DBusMarshal.Proofs.Delivery

/-!
Generated code that runs out of memory.

The first call of a message that is no single value opens its outermost container in the root, and
only the last call closes it. Between them the root is left alone. So a message that ends there has
no values, and a message that ends in front of the first call is empty.
-/

set_option autoImplicit false

namespace DBusMarshal

open Writer (Call)

/-! ### Containers that stay open -/

/-- The call goes to the container or to a later one, and does not close it. -/
def Writer.Call.Inside (handle : Nat) (call : Call) : Prop :=
  handle ≤ call.needs ∧ ∀ around, call ≠ .closeContainer around handle

mutual

theorem Message.inside_calls (message : Message) {handle target next : Nat}
    (within : handle ≤ target) (later : handle < next) :
    ∀ call ∈ message.calls target next, call.Inside handle := by
  cases message with
  | leaf typeConst value =>
      refine List.forall_mem_singleton.2 ⟨within, fun around impossible => ?_⟩
      cases impossible
  | container typeConst signature items =>
      have middle := Message.inside_callsAll items (Nat.le_of_lt later) (Nat.lt_succ_of_lt later)
      have closing : (Call.closeContainer (.container target) next).Inside handle := by
        refine ⟨Nat.le_of_lt later, fun around same => ?_⟩
        injection same with _ sameInner
        omega
      refine List.forall_mem_cons.2 ⟨⟨within, fun around impossible => ?_⟩, ?_⟩
      · cases impossible
      · exact List.forall_mem_append.2 ⟨middle, List.forall_mem_singleton.2 closing⟩

theorem Message.inside_callsAll (items : List Message) {handle target next : Nat}
    (within : handle ≤ target) (later : handle < next) :
    ∀ call ∈ Message.callsAll items target next, call.Inside handle := by
  cases items with
  | nil => exact List.forall_mem_nil _
  | cons item rest =>
      have first := item.inside_calls within later
      have others := Message.inside_callsAll rest within (Nat.lt_add_right item.containers later)
      exact List.forall_mem_append.2 ⟨first, others⟩

end

namespace Writer

/-- The root holds one container and nothing else, and that container is open. -/
structure Pending (w : Writer) (handle : Nat) : Prop where
  items : w.rootItems = [.container handle]
  isOpen : w.IsOpen handle

variable {w : Writer} {handle : Nat}

/-- A call changes the container that it needs; all others stay as they are. -/
theorem carryOut_elsewhere {call : Call} {other : Nat} (known : other < w.containers.length)
    (different : other ≠ call.needs) :
    (w.count.carryOut call).2.containers[other]? = w.containers[other]? := by
  cases call with
  | append target typeConst item => exact modify_elsewhere w.count _ different
  | openContainer target typeConst signature =>
      exact (w.open_old target typeConst signature known).trans
        (modify_elsewhere w.count _ different)
  | closeContainer around inner => exact modify_elsewhere w.count _ different

theorem carryOut_keepsOpen {call : Call} (isOpen : w.IsOpen handle)
    (kept : ∀ around, call ≠ .closeContainer around handle) :
    (w.count.carryOut call).2.IsOpen handle := by
  obtain ⟨container, found, opened⟩ := isOpen
  by_cases different : handle = call.needs
  · cases call with
    | append target typeConst item =>
        subst different
        refine ⟨_, (modify_at w.count _ _).trans (congrArg _ found), opened⟩
    | openContainer target typeConst signature =>
        subst different
        have known := (List.getElem?_eq_some_iff.1 found).1
        exact ⟨_, (w.open_old _ typeConst signature known).trans
          ((modify_at w.count _ _).trans (congrArg _ found)), opened⟩
    | closeContainer around inner => exact absurd (different ▸ rfl) (kept around)
  · have known := (List.getElem?_eq_some_iff.1 found).1
    exact ⟨container, (carryOut_elsewhere known different).trans found, opened⟩

theorem Pending.carryOut {call : Call} (pending : w.Pending handle) (below : root < handle)
    (inside : call.Inside handle) : (w.count.carryOut call).2.Pending handle where
  items := by
    have known : root < w.containers.length := Nat.lt_trans below pending.isOpen.lt
    have different : root ≠ call.needs := Nat.ne_of_lt (Nat.lt_of_lt_of_le below inside.1)
    unfold rootItems
    rw [carryOut_elsewhere known different]
    exact pending.items
  isOpen := carryOut_keepsOpen pending.isOpen inside.2

theorem Pending.carryAll {calls : List Call} (pending : w.Pending handle) (below : root < handle)
    (inside : ∀ call ∈ calls, call.Inside handle) : (w.carryAll calls).Pending handle := by
  induction calls generalizing w with
  | nil => exact pending
  | cons call rest ih =>
      obtain ⟨first, others⟩ := List.forall_mem_cons.1 inside
      exact ih (pending.carryOut below first) others

theorem Pending.values (pending : w.Pending handle) :
    ∃ typeConst, w.values = .error (.breach (.neverClosed typeConst)) := by
  obtain ⟨container, found, opened⟩ := pending.isOpen
  refine ⟨container.typeConst, ?_⟩
  have known : w.container handle = .ok container := by
    rw [Writer.container, found]
  obtain ⟨depth, enough⟩ := Nat.exists_eq_succ_of_ne_zero (Nat.ne_zero_of_lt pending.isOpen.lt)
  have refused : w.plain w.containers.length (.container handle) =
      .error (.breach (.neverClosed container.typeConst)) := by
    rw [enough, plain, known]
    change (if container.isOpen = true then _ else _) = _
    rw [opened, if_pos rfl]
    rfl
  rw [Writer.values, pending.items, List.mapM_cons, refused]
  rfl

end Writer

/-- A message that is begun and not finished keeps its outermost container open. -/
theorem Message.pending_of_front (message : Message) (failAt : Option Int) {front back : List Call}
    (split : message.calls Writer.root 1 = front ++ back) (begun : front ≠ [])
    (unfinished : back ≠ []) : ((Writer.start failAt).carryAll front).Pending 1 := by
  cases front with
  | nil => exact absurd rfl begun
  | cons first front =>
      cases message with
      | leaf typeConst value =>
          obtain ⟨_, nothing⟩ := List.cons.inj split
          exact absurd (List.append_eq_nil_iff.1 nothing.symm).2 unfinished
      | container typeConst signature items =>
          -- The last call, which alone closes the container, is among those that are missing.
          obtain ⟨sameFirst, others⟩ := List.cons.inj split
          have inner := congrArg List.dropLast others
          rw [List.dropLast_concat, List.append_eq, List.dropLast_append_of_ne_nil unfinished]
            at inner
          have opened : ((Writer.start failAt).carryAll
              [.openContainer Writer.root typeConst signature]).Pending 1 :=
            ⟨rfl, _, rfl, rfl⟩
          have inside : ∀ call ∈ front, call.Inside 1 := by
            intro call listed
            refine Message.inside_callsAll items (Nat.le_refl 1) (Nat.lt_succ_self 1) call ?_
            rw [inner]
            exact List.mem_append_left _ listed
          rw [← sameFirst]
          exact opened.carryAll Nat.one_pos inside

/-! ### Runs of generated code -/

theorem Node.Marshallable.run_short {node : Node} (marshallable : node.Marshallable)
    (options : Options) (recovery : String) {iter name : VarName} (apart : ¬ iter.Below name)
    {value : Value} (accepted : node.accepts value = true) {rounds : Nat}
    (enough : node.longest value < rounds) {n : Nat} (positive : 1 ≤ n)
    (within : n ≤ ((node.message value).calls Writer.root 1).length) :
    ∃ failed, Fragment.run rounds (node.code options recovery iter name)
        (Machine.start (node.supply name value) (some iter) (some n)) =
          .error (.recovered recovery) failed ∧
      (n = 1 → failed.writer.values = .ok []) ∧
      (2 ≤ n → ∃ typeConst, failed.writer.values = .error (.breach (.neverClosed typeConst))) := by
  obtain ⟨env, ran⟩ := marshallable.run_start options recovery apart accepted enough
  obtain ⟨later, calls, same, course⟩ := Fragment.lockstep rounds _ _ _ () rfl ran
  have made : (node.message value).calls Writer.root 1 = calls := congrArg Machine.calls same
  rw [← made] at course
  obtain ⟨operation, found, number⟩ := course.at_position (Nat.lt_of_lt_of_le
    (Nat.sub_one_lt_of_le positive (Nat.le_refl n)) within)
  have listed := List.mem_of_getElem? found
  obtain ⟨earlier, rest, request, _, code, split, place, carries, _, fails⟩ :=
    course.interrupts operation listed
  have own : code = recovery := (marshallable.confined_code options recovery iter name _
    (Fragment.walk_of_operations _ listed)).carries code carries
  have next : operation.before.writer.ops + 1 = n := by
    rw [number]
    change 0 + (n - 1) + 1 = n
    omega
  have count : earlier.length + 1 = n := by
    rw [← next, place, Machine.ops_after]
    change _ = 0 + earlier.length + 1
    omega
  rw [own, next] at fails
  refine ⟨_, fails, ?_, ?_⟩
  · intro first
    have nothing : earlier = [] := List.length_eq_zero_iff.1 (by omega)
    rw [place, nothing]
    rfl
  · intro second
    have begun : earlier ≠ [] := by
      intro nothing
      rw [nothing] at count
      change 0 + 1 = n at count
      omega
    have pending := (node.message value).pending_of_front none split begun (List.cons_ne_nil _ _)
    rw [place]
    exact Writer.Pending.values ⟨pending.items, pending.isOpen⟩

section

variable {text : String} {node : Node}

/-- Whichever operation of generated code runs out of memory, the recovery code of the caller is
reached, and the message does not pass for a complete one: reading its values is a breach, unless
not even the first operation was done. -/
theorem generated_shortage (read : Node.read text = .ok node) (plain : node.hasVariant = false)
    (options : Options) (recovery : String) {iter : String} (iterNamed : iter ≠ "")
    {name : GivenName} {varName : VarName} (nameGiven : name.resolve = some varName)
    (different : varName ≠ { base := iter }) {value : Value}
    (accepted : node.accepts value = true) {rounds : Nat} (enough : node.longest value < rounds) :
    ∃ generated layout m,
      generate options (.tree node) (.text iter) name (some recovery) = .ok generated ∧
      node.layoutUnder name value = .ok layout ∧
      Fragment.run rounds generated.fragment
        (Machine.start layout (some { base := iter }) none) = .ok () m ∧
      m.writer.ops = (node.message value).leaves + 2 * (node.message value).containers ∧
      ∀ n : Nat, 1 ≤ n → n ≤ m.writer.ops → ∃ failed,
        Fragment.run rounds generated.fragment
          (Machine.start layout (some { base := iter }) (some n)) =
            .error (.recovered recovery) failed ∧
        (n = 1 → failed.writer.values = .ok []) ∧
        (2 ≤ n → ∃ typeConst,
          failed.writer.values = .error (.breach (.neverClosed typeConst))) := by
  have marshallable := Node.marshallable_of_read read plain
  have apart : ¬ VarName.Below { base := iter } varName :=
    fun below => different (VarName.eq_of_below below)
  have laid := (Node.layoutUnder_of_resolve nameGiven value).trans
    (marshallable.layout_of_accepts varName accepted)
  obtain ⟨env, ran⟩ := marshallable.run_start options recovery apart accepted enough
  have ops := (Writer.ops_carryAll (Writer.start none)
    ((node.message value).calls Writer.root 1)).trans (Nat.zero_add _)
  refine ⟨_, _, _, marshallable.generate options recovery (GivenName.resolve_text iterNamed)
    nameGiven, laid, ran, ops.trans ((node.message value).length_calls Writer.root 1), ?_⟩
  intro n positive within
  refine marshallable.run_short options recovery apart accepted enough positive ?_
  exact Nat.le_trans within (Nat.le_of_eq ops)

theorem generated_shortage_table :
    ∃ generated layout m,
      generate {} (.tree tableType) (.text "iter") (.text "table") (some "return FALSE;") =
        .ok generated ∧
      tableType.layoutUnder (.text "table") tableValue = .ok layout ∧
      Fragment.run 4 generated.fragment
        (Machine.start layout (some { base := "iter" }) none) = .ok () m ∧
      m.writer.ops = 7 + 2 * 9 ∧
      ∀ n : Nat, 1 ≤ n → n ≤ m.writer.ops → ∃ failed,
        Fragment.run 4 generated.fragment
          (Machine.start layout (some { base := "iter" }) (some n)) =
            .error (.recovered "return FALSE;") failed ∧
        (n = 1 → failed.writer.values = .ok []) ∧
        (2 ≤ n → ∃ typeConst,
          failed.writer.values = .error (.breach (.neverClosed typeConst))) :=
  generated_shortage read_tableType rfl {} "return FALSE;" (by decide)
    (GivenName.resolve_text (by decide)) (by decide) (by decide) (by decide)

end

end DBusMarshal
