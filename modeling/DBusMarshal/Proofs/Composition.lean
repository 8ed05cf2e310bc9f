import Mathlib.Data.List.Forall2
import DBusMarshal.Proofs.Confinement
import DBusMarshal.Proofs.Delivery

/-!
Several values marshalled one after the other.

The fragments are generated onto the same lists and run in one environment, which holds the layouts
of all values. Variables of different fragments have different bases, so a fragment that is done
leaves those behind it with what they need, and every container is closed again before the next
fragment starts. The messages follow each other in the root.
-/

set_option autoImplicit false

namespace DBusMarshal

/-- A value to be marshalled under a name, and what its code is generated with. -/
structure Parcel where
  node : Node
  name : String
  value : Value
  recovery : String
  options : Options := {}

namespace Parcel

def origin (parcel : Parcel) : VarName := { base := parcel.name }

def marshal (iter : String) (parcel : Parcel) : EStateM Fault Scope Fragment :=
  parcel.node.marshal parcel.options (.text iter) (.text parcel.name) (some parcel.recovery) true

def layout (parcel : Parcel) : Except Fault Layout :=
  parcel.node.layoutUnder (.text parcel.name) parcel.value

/-- The type has no variants, the name is one, the value conforms, and no array in it goes round
too often. -/
structure Fit (iter : String) (rounds : Nat) (parcel : Parcel) : Prop where
  marshallable : parcel.node.Marshallable
  named : parcel.name ≠ ""
  apart : iter ≠ parcel.name
  accepted : parcel.node.accepts parcel.value = true
  enough : parcel.node.longest parcel.value < rounds

def code (iter : VarName) (parcel : Parcel) : Fragment :=
  parcel.node.code parcel.options parcel.recovery iter parcel.origin

def supply (parcel : Parcel) : Layout := parcel.node.supply parcel.origin parcel.value

def message (parcel : Parcel) : Message := parcel.node.message parcel.value

end Parcel

/-! ### Names with different bases -/

theorem VarName.nodup_append {left right : List VarName} (distinctLeft : left.Nodup)
    (distinctRight : right.Nodup)
    (apart : ∀ one ∈ left, ∀ other ∈ right, one.base ≠ other.base) : (left ++ right).Nodup :=
  List.nodup_append.2 ⟨distinctLeft, distinctRight, fun one inLeft other inRight same =>
    apart one inLeft other inRight (congrArg VarName.base same)⟩

/-! ### Generation onto the same lists -/

/-- No name comes twice, and none has one of the given bases. -/
structure Scope.Spares (scope : Scope) (bases : List String) : Prop where
  inputs : (scope.inputs.map TypedVar.name).Nodup
  locals : (scope.locals.map TypedVar.name).Nodup
  apart : ∀ entry ∈ scope.inputs ++ scope.locals, entry.name.base ∉ bases

namespace Parcel

variable {iter : String} {rounds : Nat}

theorem base_of_declared {parcel : Parcel} (marshallable : parcel.node.Marshallable)
    {entry : TypedVar}
    (listed : entry ∈ parcel.node.inputs parcel.options parcel.origin ++
      parcel.node.locals parcel.options parcel.origin) : entry.name.base = parcel.name := by
  have declared := (List.perm_append_comm.mem_iff).1 listed
  exact (marshallable.below_of_declared parcel.options declared).base

theorem fits_of_spares {parcel : Parcel} (marshallable : parcel.node.Marshallable) {scope : Scope}
    {others : List String} (spares : scope.Spares (parcel.name :: others)) :
    scope.Fits (parcel.node.inputs parcel.options parcel.origin)
      (parcel.node.locals parcel.options parcel.origin) := by
  have own := marshallable.fits_empty parcel.options parcel.origin
  have apart : ∀ old ∈ scope.inputs ++ scope.locals,
      ∀ new ∈ parcel.node.inputs parcel.options parcel.origin ++
        parcel.node.locals parcel.options parcel.origin, old.name.base ≠ new.name.base := by
    intro old inScope new declared same
    rw [base_of_declared marshallable declared] at same
    exact spares.apart old inScope (same ▸ List.mem_cons_self)
  constructor
  · rw [List.map_append]
    refine VarName.nodup_append spares.inputs own.inputs (List.forall_mem_map.2 ?_)
    intro old inScope
    refine List.forall_mem_map.2 fun new declared => ?_
    exact apart old (List.mem_append_left _ inScope) new (List.mem_append_left _ declared)
  · rw [List.map_append]
    refine VarName.nodup_append spares.locals own.locals (List.forall_mem_map.2 ?_)
    intro old inScope
    refine List.forall_mem_map.2 fun new declared => ?_
    exact apart old (List.mem_append_right _ inScope) new (List.mem_append_right _ declared)

theorem spares_extend {parcel : Parcel} (marshallable : parcel.node.Marshallable) {scope : Scope}
    {others : List String} (spares : scope.Spares (parcel.name :: others))
    (new : parcel.name ∉ others) :
    (scope.extend (parcel.node.inputs parcel.options parcel.origin)
      (parcel.node.locals parcel.options parcel.origin)).Spares others where
  inputs := (fits_of_spares marshallable spares).inputs
  locals := (fits_of_spares marshallable spares).locals
  apart := by
    intro entry listed
    have either : entry ∈ scope.inputs ++ scope.locals ∨
        entry ∈ parcel.node.inputs parcel.options parcel.origin ++
          parcel.node.locals parcel.options parcel.origin := by
      simp only [Scope.extend, List.mem_append] at listed ⊢
      grind
    rcases either with before | declared
    · exact fun later => spares.apart entry before (List.mem_cons_of_mem _ later)
    · rw [base_of_declared marshallable declared]
      exact new

theorem marshals_all (iterNamed : iter ≠ "") {parcels : List Parcel}
    (fit : ∀ parcel ∈ parcels, parcel.Fit iter rounds)
    (distinct : (parcels.map Parcel.name).Nodup) {scope : Scope}
    (spares : scope.Spares (parcels.map Parcel.name)) :
    ∃ final, parcels.mapM (Parcel.marshal iter) scope =
      .ok (parcels.map (Parcel.code { base := iter })) final := by
  induction parcels generalizing scope with
  | nil => exact ⟨scope, rfl⟩
  | cons parcel rest ih =>
      obtain ⟨first, others⟩ := List.forall_mem_cons.1 fit
      rw [List.map_cons, List.nodup_cons] at distinct
      have marshalled : Parcel.marshal iter parcel scope =
          .ok (parcel.code { base := iter })
            (scope.extend (parcel.node.inputs parcel.options parcel.origin)
              (parcel.node.locals parcel.options parcel.origin)) :=
        first.marshallable.marshal_of_fits parcel.options parcel.recovery
          (GivenName.resolve_text iterNamed) (GivenName.resolve_text first.named)
          (fits_of_spares first.marshallable spares)
      obtain ⟨final, ended⟩ := ih others distinct.2
        (spares_extend first.marshallable spares distinct.1)
      refine ⟨final, ?_⟩
      rw [List.mapM_cons, bind_of_ok marshalled, bind_of_ok ended]
      rfl

/-! ### Layouts in one environment -/

theorem layouts_all {parcels : List Parcel} (fit : ∀ parcel ∈ parcels, parcel.Fit iter rounds) :
    parcels.mapM Parcel.layout = .ok (parcels.map Parcel.supply) :=
  Node.mapM_of_ok Parcel.supply fun parcel listed =>
    (fit parcel listed).marshallable.layout_of_accepts parcel.origin (fit parcel listed).accepted

theorem base_of_supply {parcel : Parcel} {name : VarName}
    (listed : name ∈ parcel.supply.map Prod.fst) : name.base = parcel.name := by
  rw [supply, Node.supply, List.map_map] at listed
  obtain ⟨path, _, same⟩ := List.mem_map.1 listed
  rw [← same]
  rfl

theorem base_of_supplies {parcels : List Parcel} {name : VarName}
    (listed : name ∈ (parcels.map Parcel.supply).flatten.map Prod.fst) :
    name.base ∈ parcels.map Parcel.name := by
  rw [List.map_flatten, List.map_map] at listed
  obtain ⟨names, inNames, inSupply⟩ := List.mem_flatten.1 listed
  obtain ⟨parcel, isParcel, same⟩ := List.mem_map.1 inNames
  rw [← same] at inSupply
  exact List.mem_map.2 ⟨parcel, isParcel, (base_of_supply inSupply).symm⟩

theorem nodup_supplies {parcels : List Parcel} (distinct : (parcels.map Parcel.name).Nodup) :
    ((parcels.map Parcel.supply).flatten.map Prod.fst).Nodup := by
  induction parcels with
  | nil => exact List.nodup_nil
  | cons parcel rest ih =>
      rw [List.map_cons, List.nodup_cons] at distinct
      rw [List.map_cons, List.flatten_cons, List.map_append]
      refine VarName.nodup_append (parcel.node.nodup_supply _ _) (ih distinct.2) ?_
      intro one inFirst other inOthers same
      rw [base_of_supply inFirst] at same
      exact distinct.1 (same ▸ base_of_supplies inOthers)

theorem lookup_supplies {parcels : List Parcel} (distinct : (parcels.map Parcel.name).Nodup)
    {parcel : Parcel} (listed : parcel ∈ parcels) {path : List Segment}
    (isPath : path ∈ parcel.node.paths) :
    (parcels.map Parcel.supply).flatten.lookup (parcel.origin.append path) =
      some (parcel.node.column parcel.value path) := by
  induction parcels with
  | nil => cases listed
  | cons first rest ih =>
      rw [List.map_cons, List.nodup_cons] at distinct
      rw [List.map_cons, List.flatten_cons, List.lookup_append]
      rcases List.mem_cons.1 listed with same | later
      · rw [← same, supply, Node.lookup_supply _ _ isPath]
        rfl
      · have elsewhere : first.supply.lookup (parcel.origin.append path) = none := by
          rw [List.lookup_eq_none_iff]
          intro entry inFirst
          rw [bne_iff_ne]
          intro same
          have base := base_of_supply (List.mem_map_of_mem inFirst)
          rw [← same] at base
          exact distinct.1 (List.mem_map.2 ⟨parcel, later, base⟩)
        rw [elsewhere, ih distinct.2 later]
        rfl

/-! ### Fragments one after the other -/

/-- What one parcel's code does to the machine leaves the other parcels served. -/
theorem serves_after {iterName : VarName} {m : Machine} {target : Nat} {done next : Parcel}
    {env : Environment} (serves : m.Serves iterName target next.node next.origin next.value)
    (doneApart : ¬ iterName.Below done.origin) (different : done.name ≠ next.name)
    (agrees : m.env.AgreesOutside done.origin env) :
    (m.after env (done.message.calls target m.writer.containers.length)).Serves iterName target
      next.node next.origin next.value where
  apart := serves.apart
  place := (agrees iterName doneApart).trans serves.place
  isOpen := by
    obtain ⟨slot, adds⟩ := done.message.adds_calls m.writer target serves.isOpen.lt
    exact adds.keepsOpen serves.isOpen
  supplied := by
    intro path isPath
    have outside : ¬ (next.origin.append path).Below done.origin :=
      fun below => different below.base.symm
    exact (agrees _ outside).trans (serves.supplied path isPath)
  memory := (Writer.failAt_carryAll _ _).trans serves.memory

theorem runs_all {iterName : VarName} {target : Nat} {parcels : List Parcel}
    (fit : ∀ parcel ∈ parcels, parcel.Fit iter rounds)
    (distinct : (parcels.map Parcel.name).Nodup) {m : Machine}
    (serves : ∀ parcel ∈ parcels,
      m.Serves iterName target parcel.node parcel.origin parcel.value) :
    ∃ env, Fragment.run rounds (parcels.map (Parcel.code iterName)).flatten m =
      .ok () (m.after env (Message.callsAll (parcels.map Parcel.message) target
        m.writer.containers.length)) := by
  induction parcels generalizing m with
  | nil =>
      refine ⟨m.env, ?_⟩
      rw [List.map_nil, List.map_nil, Message.callsAll, Machine.after_nil]
      rfl
  | cons parcel rest ih =>
      obtain ⟨first, others⟩ := List.forall_mem_cons.1 fit
      obtain ⟨servesFirst, servesOthers⟩ := List.forall_mem_cons.1 serves
      rw [List.map_cons, List.nodup_cons] at distinct
      obtain ⟨between, ranFirst, agrees⟩ := first.marshallable.simulates rounds parcel.options
        parcel.recovery first.accepted first.enough iterName parcel.origin m target servesFirst
      have servesLater : ∀ other ∈ rest,
          (m.after between (parcel.message.calls target m.writer.containers.length)).Serves
            iterName target other.node other.origin other.value := by
        intro other listed
        refine serves_after (servesOthers other listed) servesFirst.apart ?_ agrees
        intro same
        exact distinct.1 (List.mem_map.2 ⟨other, listed, same.symm⟩)
      obtain ⟨env, ranRest⟩ := ih others distinct.2 servesLater
      obtain ⟨slot, adds⟩ := parcel.message.adds_calls m.writer target servesFirst.isOpen.lt
      have next : (m.after between (parcel.message.calls target
          m.writer.containers.length)).writer.containers.length =
            m.writer.containers.length + parcel.message.containers := adds.length
      refine ⟨env, ?_⟩
      rw [List.map_cons, List.flatten_cons, code, run_append_of_ok _ ranFirst]
      exact ranRest.trans (by rw [Machine.after_after, next]; rfl)

end Parcel

/-! ### Variables in common -/

namespace Fragment

/-- The variables that a fragment is given, reads or sets, at every depth. -/
def touches (fragment : Fragment) (layout : Layout) : List VarName :=
  layout.map Prod.fst ++ (walk fragment).flatMap Statement.reads ++ sets fragment

end Fragment

namespace Parcel

variable {iter : VarName}

theorem base_of_sets {parcel : Parcel} (marshallable : parcel.node.Marshallable) {name : VarName}
    (listed : name ∈ Fragment.sets (parcel.code iter)) : name.base = parcel.name := by
  obtain ⟨statement, inCode, set⟩ := List.mem_flatMap.1 listed
  have confined := marshallable.confined_code parcel.options parcel.recovery iter parcel.origin
  exact ((confined statement inCode).sets name set).base

theorem base_of_touches {parcel : Parcel} (marshallable : parcel.node.Marshallable)
    {name : VarName} (listed : name ∈ Fragment.touches (parcel.code iter) parcel.supply) :
    name = iter ∨ name.base = parcel.name := by
  rcases List.mem_append.1 listed with before | isSet
  · rcases List.mem_append.1 before with isInput | isRead
    · exact Or.inr (base_of_supply isInput)
    · obtain ⟨statement, inCode, read⟩ := List.mem_flatMap.1 isRead
      have confined := marshallable.confined_code parcel.options parcel.recovery iter parcel.origin
      rcases (confined statement inCode).reads name read with isIter | below
      · exact Or.inl isIter
      · exact Or.inr below.base
  · exact Or.inr (base_of_sets marshallable isSet)

end Parcel

/-- Code for any number of values can be generated onto the same lists and run in one environment.
The message then holds one item for each of the values, in order, from which the value is read
back. Two of the fragments have no variable in common but the iterator, and none sets that. -/
theorem parcels_delivered {iter : String} {rounds : Nat} {parcels : List Parcel}
    (iterNamed : iter ≠ "") (fit : ∀ parcel ∈ parcels, parcel.Fit iter rounds)
    (distinct : (parcels.map Parcel.name).Nodup) :
    ∃ fragments scope layouts m items,
      parcels.mapM (Parcel.marshal iter) {} = .ok fragments scope ∧
      parcels.mapM Parcel.layout = .ok layouts ∧
      Fragment.run rounds fragments.flatten
        (Machine.start layouts.flatten (some { base := iter }) none) = .ok () m ∧
      m.writer.values = .ok items ∧
      List.Forall₂ (fun parcel item => parcel.node.fromWire item = .ok parcel.value)
        parcels items ∧
      (fragments.zip layouts).Pairwise (fun one other =>
        ∀ name ∈ Fragment.touches one.1 one.2, name ∈ Fragment.touches other.1 other.2 →
          name = { base := iter }) ∧
      ∀ fragment ∈ fragments, { base := iter } ∉ Fragment.sets fragment := by
  have spares : Scope.Spares {} (parcels.map Parcel.name) :=
    ⟨List.nodup_nil, List.nodup_nil, List.forall_mem_nil _⟩
  obtain ⟨scope, marshalled⟩ := Parcel.marshals_all iterNamed fit distinct spares
  have serves : ∀ parcel ∈ parcels,
      (Machine.start (parcels.map Parcel.supply).flatten (some { base := iter }) none).Serves
        { base := iter } Writer.root parcel.node parcel.origin parcel.value :=
    fun parcel listed => Node.serves_start (Parcel.nodup_supplies distinct)
      (VarName.not_below_base (fit parcel listed).apart)
      (fun _ isPath => Parcel.lookup_supplies distinct listed isPath)
  obtain ⟨env, ran⟩ := Parcel.runs_all fit distinct serves
  refine ⟨_, scope, _, _, parcels.map fun parcel => parcel.message.plain, marshalled,
    Parcel.layouts_all fit, ran, ?_, ?_, ?_, ?_⟩
  · have values := Message.values_callsAll (parcels.map Parcel.message) none
    rw [Message.plainAll_eq, List.map_map] at values
    exact values
  · rw [List.forall₂_map_right_iff, List.forall₂_same]
    intro parcel listed
    exact (fit parcel listed).marshallable.fromWire_message (fit parcel listed).accepted
  · rw [List.zip_map', List.pairwise_map]
    refine (List.pairwise_map.1 distinct).imp_of_mem ?_
    intro one other inFirst inSecond different name ofOne ofOther
    rcases Parcel.base_of_touches (fit one inFirst).marshallable ofOne with isIter | ownOne
    · exact isIter
    · rcases Parcel.base_of_touches (fit other inSecond).marshallable ofOther with isIter | own
      · exact isIter
      · exact absurd (ownOne.symm.trans own) different
  · intro fragment listed
    obtain ⟨parcel, isParcel, same⟩ := List.mem_map.1 listed
    rw [← same]
    intro isSet
    exact (fit parcel isParcel).apart (Parcel.base_of_sets (fit parcel isParcel).marshallable isSet)

def twoParcels : List Parcel :=
  [{ node := tableType, name := "table", value := tableValue, recovery := "return FALSE;" },
    { node := .basic "u", name := "serial", value := .int 7, recovery := "goto oom;" }]

theorem twoParcels_delivered :
    ∃ fragments scope layouts m items,
      twoParcels.mapM (Parcel.marshal "iter") {} = .ok fragments scope ∧
      twoParcels.mapM Parcel.layout = .ok layouts ∧
      Fragment.run 4 fragments.flatten
        (Machine.start layouts.flatten (some { base := "iter" }) none) = .ok () m ∧
      m.writer.values = .ok items ∧
      List.Forall₂ (fun parcel item => parcel.node.fromWire item = .ok parcel.value)
        twoParcels items ∧
      (fragments.zip layouts).Pairwise (fun one other =>
        ∀ name ∈ Fragment.touches one.1 one.2, name ∈ Fragment.touches other.1 other.2 →
          name = { base := "iter" }) ∧
      ∀ fragment ∈ fragments, { base := "iter" } ∉ Fragment.sets fragment := by
  have table : (twoParcels.head (by decide)).Fit "iter" 4 :=
    ⟨Node.marshallable_of_read read_tableType rfl, by decide, by decide, by decide, by decide⟩
  have serial : (twoParcels.getLast (by decide)).Fit "iter" 4 :=
    ⟨.basic (by decide), by decide, by decide, by decide, by decide⟩
  exact parcels_delivered (by decide)
    (List.forall_mem_cons.2 ⟨table, List.forall_mem_singleton.2 serial⟩) (by decide)

end DBusMarshal
