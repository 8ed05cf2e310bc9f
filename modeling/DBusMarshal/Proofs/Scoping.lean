import DBusMarshal.Proofs.Emission
import DBusMarshal.Proofs.Ownership

/-!
Scopes and definite assignment in generated code.

A `Point` stands in front of a statement and knows which variables may be read there. Following the
code from point to point, a declaration brings a variable into scope without a value, and a body of
a loop is followed from the point in front of the loop, so that nothing is carried over from one
round to the next or out of the loop.
-/

set_option autoImplicit false

namespace DBusMarshal

/-! ### Reading, writing, declaring -/

namespace Statement

/-- The variables that a statement reads, those in the body of a loop apart. -/
def reads : Statement → List VarName
  | append iter _ value _ => [iter, value]
  | openContainer iter _ _ _ _ => [iter]
  | closeContainer iter inner _ => [iter, inner]
  | assign _ array index => [array, index]
  | readField _ source _ => [source]
  | loop _ array length _ => array :: length.toList
  | _ => []

/-- The variables that a statement writes, those in the body of a loop and its index apart. -/
def writes : Statement → List VarName
  | openContainer _ _ _ inner _ => [inner]
  | assign target _ _ => [target]
  | readField target _ _ => [target]
  | _ => []

def declares : Statement → List VarName
  | declare _ name => [name]
  | _ => []

end Statement

namespace Fragment

def writes (fragment : Fragment) : List VarName := fragment.flatMap Statement.writes

def declares (fragment : Fragment) : List VarName := fragment.flatMap Statement.declares

theorem writes_append (first second : Fragment) :
    writes (first ++ second) = writes first ++ writes second := List.flatMap_append

theorem declares_append (first second : Fragment) :
    declares (first ++ second) = declares first ++ declares second := List.flatMap_append

end Fragment

mutual

/-- The bodies of all loops in a statement, at every depth. -/
def Statement.bodies (statement : Statement) : List Fragment :=
  match statement with
  | .loop _ _ _ body => body :: Fragment.bodies body
  | _ => []

def Fragment.bodies : List Statement → List Fragment
  | [] => []
  | statement :: rest => statement.bodies ++ Fragment.bodies rest

end

theorem Fragment.bodies_eq (fragment : Fragment) :
    Fragment.bodies fragment = fragment.flatMap Statement.bodies := by
  induction fragment with
  | nil => rfl
  | cons statement rest ih => rw [Fragment.bodies, ih, List.flatMap_cons]

theorem Statement.silent_declares : Silent Statement.declares := by
  constructor <;> intros <;> rfl

theorem Statement.silent_bodies : Silent Statement.bodies := by
  constructor <;> intros <;> rfl

/-! ### Points -/

/-- What is known in front of a statement: the variables that have a value from outside, which are
the iterator, the inputs and the indices of the loops around; the variables in scope; and those
that were written on the way. -/
structure Point where
  given : List VarName
  scope : List VarName
  written : List VarName

namespace Point

/-- The variable has a value. -/
def Holds (point : Point) (name : VarName) : Prop :=
  name ∈ point.given ∨ (name ∈ point.scope ∧ name ∈ point.written)

/-- A declared variable is in scope and has no value any more. -/
def declare (point : Point) (name : VarName) : Point :=
  { point with scope := name :: point.scope
               written := point.written.filter fun other => other ≠ name }

def enter (point : Point) (index : VarName) : Point :=
  { point with given := index :: point.given }

/-- The point behind a statement. Behind a loop nothing more is known than in front of it. -/
def step (point : Point) (statement : Statement) : Point :=
  match statement with
  | .declare _ name => point.declare name
  | _ => { point with written := statement.writes ++ point.written }

def behind (point : Point) (fragment : Fragment) : Point := fragment.foldl step point

theorem behind_append (point : Point) (first second : Fragment) :
    point.behind (first ++ second) = (point.behind first).behind second := List.foldl_append

end Point

mutual

/-- The statement reads variables that have a value and writes variables in scope. -/
def Statement.WellScoped (point : Point) (statement : Statement) : Prop :=
  (∀ name ∈ statement.reads, point.Holds name) ∧ (∀ name ∈ statement.writes, name ∈ point.scope) ∧
    match statement with
    | .loop index _ _ body => Fragment.WellScoped (point.enter index) body
    | _ => True

def Fragment.WellScoped (point : Point) : List Statement → Prop
  | [] => True
  | statement :: rest =>
    statement.WellScoped point ∧ Fragment.WellScoped (point.step statement) rest

end

theorem Fragment.wellScoped_append (point : Point) (first second : Fragment) :
    Fragment.WellScoped point (first ++ second) ↔
      Fragment.WellScoped point first ∧ Fragment.WellScoped (point.behind first) second := by
  induction first generalizing point with
  | nil => simp [Fragment.WellScoped, Point.behind]
  | cons statement rest ih =>
      rw [List.cons_append, Fragment.WellScoped, ih, Fragment.WellScoped, and_assoc]
      rfl

namespace Point

variable {point : Point} {fragment : Fragment} {name : VarName}

theorem step_of_plain {statement : Statement} (plain : statement.declares = []) :
    point.step statement = { point with written := statement.writes ++ point.written } := by
  cases statement with
  | declare type name => cases plain
  | _ => rfl

theorem scope_behind (plain : fragment.declares = []) :
    (point.behind fragment).scope = point.scope := by
  induction fragment generalizing point with
  | nil => rfl
  | cons statement rest ih =>
      obtain ⟨first, others⟩ := List.append_eq_nil_iff.1 plain
      change ((point.step statement).behind rest).scope = _
      rw [ih others, step_of_plain first]

theorem holds_behind (plain : fragment.declares = [])
    (holds : point.Holds name ∨ (name ∈ point.scope ∧ name ∈ fragment.writes)) :
    (point.behind fragment).Holds name := by
  induction fragment generalizing point with
  | nil =>
      rcases holds with before | ⟨_, impossible⟩
      · exact before
      · cases impossible
  | cons statement rest ih =>
      obtain ⟨first, others⟩ := List.append_eq_nil_iff.1 plain
      change ((point.step statement).behind rest).Holds name
      rw [step_of_plain first]
      apply ih others
      rcases holds with (outside | ⟨inScope, before⟩) | ⟨inScope, now⟩
      · exact Or.inl (Or.inl outside)
      · exact Or.inl (Or.inr ⟨inScope, List.mem_append_right _ before⟩)
      · rcases List.mem_append.1 now with atOnce | later
        · exact Or.inl (Or.inr ⟨inScope, List.mem_append_left _ atOnce⟩)
        · exact Or.inr ⟨inScope, later⟩

end Point

namespace Node

/-! ### What the code writes and declares -/

section

variable (options : Options) (recovery : String)

theorem writes_copies (element : Node) (name : VarName) :
    Fragment.writes (element.copies options name) =
      (element.inputs options (name.child .element)).map TypedVar.name := by
  unfold copies inputs
  induction element.ports options with
  | nil => rfl
  | cons port rest ih => exact congrArg (List.cons _) ih

theorem writes_reads (member : Node) (name : VarName) (position : Nat) :
    Fragment.writes (member.reads options name position) =
      (member.inputs options (name.child (.item position))).map TypedVar.name := by
  unfold reads inputs
  induction member.ports options with
  | nil => rfl
  | cons port rest ih => exact congrArg (List.cons _) ih

theorem writes_declarations (entries : List TypedVar) :
    Fragment.writes (declarations entries) = [] := by
  induction entries with
  | nil => rfl
  | cons entry rest ih => exact ih

theorem declares_declarations (entries : List TypedVar) :
    Fragment.declares (declarations entries) = entries.map TypedVar.name := by
  induction entries with
  | nil => rfl
  | cons entry rest ih => exact congrArg (List.cons _) ih

theorem writes_memberCode (member : Node) (name : VarName) (position : Nat) (code : Fragment) :
    Fragment.writes (memberCode options member name position code) =
      (member.inputs options (name.child (.item position))).map TypedVar.name ++
        Fragment.writes code := by
  rw [memberCode, Fragment.writes_append, Fragment.writes_append, Fragment.writes_append,
    writes_reads]
  simp [Fragment.writes, Statement.writes]

theorem declares_memberCode (member : Node) (name : VarName) (position : Nat) (code : Fragment) :
    Fragment.declares (memberCode options member name position code) =
      Fragment.declares code :=
  Statement.silent_declares.memberCode options member name position code

theorem writes_loopBody (element : Node) (name : VarName) (code : Fragment) :
    Fragment.writes (loopBody options element name code) =
      (element.inputs options (name.child .element)).map TypedVar.name ++
        Fragment.writes code := by
  rw [loopBody, Fragment.writes_append, Fragment.writes_append, Fragment.writes_append,
    Fragment.writes_append, writes_declarations, writes_copies]
  simp [Fragment.writes, Statement.writes]

theorem declares_loopBody (element : Node) (name : VarName) (code : Fragment) :
    Fragment.declares (loopBody options element name code) =
      (element.locals options (name.child .element) ++
          element.inputs options (name.child .element)).map TypedVar.name ++
        Fragment.declares code := by
  rw [← declares_declarations]
  exact Statement.silent_declares.loopBody options element name code

theorem writes_groupCode (node : Node) (iter name : VarName) (code : Fragment) :
    Fragment.writes (groupCode node recovery iter name code) =
      name.child .iter :: Fragment.writes code := by
  simp [groupCode, Fragment.writes, Statement.writes]

theorem declares_groupCode (node : Node) (iter name : VarName) (code : Fragment) :
    Fragment.declares (groupCode node recovery iter name code) = Fragment.declares code :=
  Statement.silent_declares.groupCode node recovery iter name code

/-- Declarations stand in the bodies of loops only. -/
theorem declares_codeAll {members : List Node} (inner name : VarName) (position : Nat)
    (ih : ∀ member ∈ members, ∀ iter origin : VarName,
      Fragment.declares (member.code options recovery iter origin) = []) :
    Fragment.declares (codeAll options recovery members inner name position) = [] := by
  induction members generalizing position with
  | nil => rfl
  | cons member rest ihRest =>
      rw [codeAll, Fragment.declares_append, declares_memberCode, ih member List.mem_cons_self,
        ihRest (position + 1) (fun other listed => ih other (List.mem_cons_of_mem _ listed))]
      rfl

theorem Marshallable.declares_code {node : Node} (marshallable : node.Marshallable)
    (iter name : VarName) : Fragment.declares (node.code options recovery iter name) = [] := by
  induction marshallable using Marshallable.byKind generalizing iter name with
  | basic code known => rfl
  | array element inside ih => rfl
  | group node marshallable isGroup ih =>
      rw [code_of_isGroup options recovery isGroup, declares_groupCode]
      exact declares_codeAll options recovery (name.child .iter) name 0 ih

theorem mem_writes_codeAll {members : List Node} (inner name : VarName) (position : Nat)
    (ih : ∀ member ∈ members, ∀ iter origin other : VarName,
      other ∈ Fragment.writes (member.code options recovery iter origin) ↔
        other ∈ (member.locals options origin).map TypedVar.name)
    (other : VarName) :
    other ∈ Fragment.writes (codeAll options recovery members inner name position) ↔
      other ∈ (localsAll options members name position).map TypedVar.name := by
  induction members generalizing position with
  | nil => exact Iff.rfl
  | cons member rest ihRest =>
      have first := ih member List.mem_cons_self inner (name.child (.item position)) other
      have others := ihRest (position + 1)
        (fun later listed => ih later (List.mem_cons_of_mem _ listed))
      rw [codeAll, localsAll, Fragment.writes_append, writes_memberCode, List.map_append,
        List.map_append, List.mem_append, List.mem_append, List.mem_append, List.mem_append,
        first, others]
      exact or_congr_left or_comm

/-- Outside of loops, the code writes its local variables and nothing else. -/
theorem Marshallable.mem_writes_code {node : Node} (marshallable : node.Marshallable)
    (iter name other : VarName) :
    other ∈ Fragment.writes (node.code options recovery iter name) ↔
      other ∈ (node.locals options name).map TypedVar.name := by
  induction marshallable using Marshallable.byKind generalizing iter name other with
  | basic code known => exact Iff.rfl
  | array element inside ih => exact Iff.rfl
  | group node marshallable isGroup ih =>
      rw [code_of_isGroup options recovery isGroup, writes_groupCode,
        locals_of_isGroup options isGroup, List.map_cons, List.mem_cons, List.mem_cons,
        mem_writes_codeAll options recovery (name.child .iter) name 0 ih]

/-! ### Bodies of loops -/

theorem bodies_declarations (entries : List TypedVar) :
    Fragment.bodies (declarations entries) = [] := by
  induction entries with
  | nil => rfl
  | cons entry rest ih => exact ih

theorem bodies_loopBody (element : Node) (name : VarName) (code : Fragment) :
    Fragment.bodies (loopBody options element name code) = Fragment.bodies code := by
  rw [Fragment.bodies_eq, Statement.silent_bodies.loopBody, ← Fragment.bodies_eq,
    ← Fragment.bodies_eq, bodies_declarations, List.nil_append]

theorem bodies_arrayCode (element : Node) (iter name : VarName) (code : Fragment) :
    Fragment.bodies (arrayCode options element recovery iter name code) =
      loopBody options element name code :: Fragment.bodies code := by
  simp [arrayCode, Fragment.bodies, Statement.bodies, bodies_loopBody]

/-- The body of every loop declares what it writes and nothing else. -/
theorem Marshallable.mem_declares_bodies {node : Node} (marshallable : node.Marshallable)
    (iter name : VarName) :
    ∀ body ∈ Fragment.bodies (node.code options recovery iter name), ∀ other,
      other ∈ Fragment.declares body ↔ other ∈ Fragment.writes body := by
  induction marshallable using Marshallable.byKind generalizing iter name with
  | basic code known =>
      intro body impossible
      cases impossible
  | array element inside ih =>
      intro body listed other
      rw [code, bodies_arrayCode] at listed
      rcases List.mem_cons.1 listed with same | inElement
      · rw [same, declares_loopBody, writes_loopBody,
          inside.declares_code options recovery, List.append_nil, List.map_append,
          List.mem_append, List.mem_append, inside.mem_writes_code options recovery]
        exact or_comm
      · exact ih _ _ body inElement other
  | group node marshallable isGroup ih =>
      rw [code_of_isGroup options recovery isGroup, Fragment.bodies_eq,
        Statement.silent_bodies.groupCode, ← Fragment.bodies_eq]
      generalize node.children = members at ih
      suffices each : ∀ position, ∀ body ∈ Fragment.bodies
          (codeAll options recovery members (name.child .iter) name position), ∀ other,
            other ∈ Fragment.declares body ↔ other ∈ Fragment.writes body from each 0
      induction members with
      | nil =>
          intro position body impossible
          cases impossible
      | cons member rest ihRest =>
          intro position body listed other
          rw [codeAll, Fragment.bodies_eq, List.flatMap_append, Statement.silent_bodies.memberCode,
            ← Fragment.bodies_eq, ← Fragment.bodies_eq] at listed
          rcases List.mem_append.1 listed with inFirst | later
          · exact ih member List.mem_cons_self _ _ body inFirst other
          · exact ihRest (fun next inRest => ih next (List.mem_cons_of_mem _ inRest))
              (position + 1) body later other

end

/-! ### The code at a point -/

theorem behind_blank (point : Point) : point.behind [.blank] = point := rfl

theorem wellScoped_blank (point : Point) : Fragment.WellScoped point [.blank] :=
  ⟨⟨by simp [Statement.reads], by simp [Statement.writes], trivial⟩, trivial⟩

theorem wellScoped_declarations (entries : List TypedVar) (point : Point) :
    Fragment.WellScoped point (declarations entries) := by
  induction entries generalizing point with
  | nil => trivial
  | cons entry rest ih =>
      exact ⟨⟨by simp [Statement.reads], by simp [Statement.writes], trivial⟩, ih _⟩

theorem scope_declarations {entries : List TypedVar} {point : Point} {name : VarName}
    (listed : name ∈ entries.map TypedVar.name ∨ name ∈ point.scope) :
    name ∈ (point.behind (declarations entries)).scope := by
  induction entries generalizing point with
  | nil =>
      rcases listed with impossible | before
      · cases impossible
      · exact before
  | cons entry rest ih =>
      refine @ih (point.declare entry.name) ?_
      rcases listed with now | before
      · rcases List.mem_cons.1 now with same | later
        · exact Or.inr (List.mem_cons.2 (Or.inl same))
        · exact Or.inl later
      · exact Or.inr (List.mem_cons_of_mem _ before)

theorem holds_declarations {entries : List TypedVar} {point : Point} {name : VarName}
    (holds : point.Holds name) (apart : name ∉ entries.map TypedVar.name) :
    (point.behind (declarations entries)).Holds name := by
  induction entries generalizing point with
  | nil => exact holds
  | cons entry rest ih =>
      rw [List.map_cons, List.mem_cons, not_or] at apart
      refine @ih (point.declare entry.name) ?_ apart.2
      rcases holds with outside | ⟨inScope, written⟩
      · exact Or.inl outside
      · refine Or.inr ⟨List.mem_cons_of_mem _ inScope, ?_⟩
        exact List.mem_filter.2 ⟨written, decide_eq_true apart.1⟩

theorem wellScoped_moves (statement : List Segment → Statement) (paths : List (List Segment))
    {point : Point}
    (plain : ∀ path, (statement path).declares = [])
    (each : ∀ path ∈ paths, ∀ later : Point, (∀ name, point.Holds name → later.Holds name) →
      later.scope = point.scope → (statement path).WellScoped later) :
    Fragment.WellScoped point (paths.map statement) := by
  induction paths generalizing point with
  | nil => trivial
  | cons first rest ih =>
      have holds : ∀ name, point.Holds name → (point.step (statement first)).Holds name := by
        intro name holds
        have single : Fragment.declares [statement first] = [] := by
          simp [Fragment.declares, plain]
        exact Point.holds_behind single (Or.inl holds)
      have scope : (point.step (statement first)).scope = point.scope := by
        rw [Point.step_of_plain (plain first)]
      refine ⟨each first List.mem_cons_self point (fun _ holds => holds) rfl, ih ?_⟩
      intro path listed later holdsLater scopeLater
      exact each path (List.mem_cons_of_mem _ listed) later
        (fun name before => holdsLater name (holds name before)) (scopeLater.trans scope)

theorem mem_inputs (options : Options) (node : Node) {name : VarName} {path : List Segment}
    (listed : path ∈ node.paths) :
    name.append path ∈ (node.inputs options name).map TypedVar.name := by
  rw [map_name_inputs]
  exact List.mem_map_of_mem listed

section

variable (options : Options) (recovery : String) {point : Point} {iter name : VarName}

theorem wellScoped_copies (element : Node) (index : point.Holds (name.child .index))
    (supplied : ∀ path ∈ element.paths, point.Holds (name.append path))
    (inScope : ∀ other ∈ (element.inputs options (name.child .element)).map TypedVar.name,
      other ∈ point.scope) :
    Fragment.WellScoped point (element.copies options name) := by
  rw [copies_eq]
  apply wellScoped_moves _ _ (fun _ => rfl)
  intro path listed later holds scope
  refine ⟨?_, ?_, trivial⟩
  · intro other read
    simp only [Statement.reads, List.mem_cons, List.not_mem_nil, or_false] at read
    rcases read with isArray | isIndex
    · rw [isArray]
      exact holds _ (supplied path listed)
    · rw [isIndex]
      exact holds _ index
  · intro other written
    rw [List.mem_singleton.1 written, scope]
    exact inScope _ (element.mem_inputs options listed)

theorem wellScoped_reads (member : Node) (position : Nat) (given : point.Holds name)
    (inScope : ∀ other ∈ (member.inputs options (name.child (.item position))).map TypedVar.name,
      other ∈ point.scope) :
    Fragment.WellScoped point (member.reads options name position) := by
  rw [reads_eq]
  apply wellScoped_moves _ _ (fun _ => rfl)
  intro path listed later holds scope
  refine ⟨?_, ?_, trivial⟩
  · intro other read
    rw [List.mem_singleton.1 read]
    exact holds _ given
  · intro other written
    rw [List.mem_singleton.1 written, scope]
    exact inScope _ (member.mem_inputs options listed)

/-- The iterator of a container is written when the container is opened, and read when it is filled
and closed. -/
theorem wellScoped_container {inner : VarName} (typeConst note : String)
    (signature : Option String) (middle : Fragment) (place : point.Holds iter)
    (inScope : inner ∈ point.scope)
    (plain : Fragment.declares middle = [])
    (filled : ∀ later : Point, (∀ other, point.Holds other → later.Holds other) →
      later.scope = point.scope → later.Holds inner → Fragment.WellScoped later middle) :
    Fragment.WellScoped point
      ([.comment note, .openContainer iter typeConst signature inner recovery, .blank] ++
        middle ++ [.closeContainer iter inner recovery]) := by
  let opening : Fragment :=
    [.comment note, .openContainer iter typeConst signature inner recovery, .blank]
  have holds : ∀ other, point.Holds other → (point.behind opening).Holds other :=
    fun other before => Point.holds_behind rfl (Or.inl before)
  have scope : (point.behind opening).scope = point.scope := Point.scope_behind rfl
  have opened : (point.behind opening).Holds inner :=
    Point.holds_behind rfl (Or.inr ⟨inScope, List.mem_singleton.2 rfl⟩)
  rw [Fragment.wellScoped_append, Fragment.wellScoped_append, Point.behind_append]
  refine ⟨⟨?_, filled _ holds scope opened⟩, ?_⟩
  · refine ⟨⟨by simp [Statement.reads], by simp [Statement.writes], trivial⟩, ?_,
      wellScoped_blank _⟩
    refine ⟨?_, ?_, trivial⟩
    · intro other read
      rw [List.mem_singleton.1 read]
      exact place
    · intro other written
      rw [List.mem_singleton.1 written]
      exact inScope
  · refine ⟨⟨?_, by simp [Statement.writes], trivial⟩, trivial⟩
    intro other read
    simp only [Statement.reads, List.mem_cons, List.not_mem_nil, or_false] at read
    rcases read with isPlace | isInner
    · rw [isPlace]
      exact Point.holds_behind plain (Or.inl (holds _ place))
    · rw [isInner]
      exact Point.holds_behind plain (Or.inl opened)

/-- What the code for a variable may be used with: the iterator and the inputs hold values, and the
local variables are in scope. -/
structure Ready (options : Options) (node : Node) (iter name : VarName) (point : Point) :
    Prop where
  place : point.Holds iter
  supplied : ∀ path ∈ node.paths, point.Holds (name.append path)
  inScope : ∀ other ∈ (node.locals options name).map TypedVar.name, other ∈ point.scope

theorem wellScoped_codeAll {members : List Node}
    (known : ∀ member ∈ members, member.Marshallable)
    (ih : ∀ member ∈ members, ∀ (point : Point) (iter name : VarName),
      Ready options member iter name point →
        Fragment.WellScoped point (member.code options recovery iter name))
    (position : Nat) {inner : VarName} (place : point.Holds inner) (given : point.Holds name)
    (inScope : ∀ other ∈ (localsAll options members name position).map TypedVar.name,
      other ∈ point.scope) :
    Fragment.WellScoped point (codeAll options recovery members inner name position) := by
  induction members generalizing position point with
  | nil => trivial
  | cons member rest ihRest =>
      have plain : Fragment.declares (memberCode options member name position
          (member.code options recovery inner (name.child (.item position)))) = [] := by
        rw [declares_memberCode]
        exact (known member List.mem_cons_self).declares_code options recovery inner _
      have localsIn : ∀ other ∈ (member.locals options
          (name.child (.item position))).map TypedVar.name, other ∈ point.scope := by
        intro other listed
        apply inScope other
        rw [localsAll, List.map_append, List.map_append]
        exact List.mem_append_left _ (List.mem_append_left _ listed)
      have inputsIn : ∀ other ∈ (member.inputs options
          (name.child (.item position))).map TypedVar.name, other ∈ point.scope := by
        intro other listed
        apply inScope other
        rw [localsAll, List.map_append, List.map_append]
        exact List.mem_append_left _ (List.mem_append_right _ listed)
      have readsPlain : Fragment.declares (member.reads options name position) = [] :=
        Statement.silent_declares.reads options member name position
      have ready : Ready options member inner (name.child (.item position))
          (point.behind (member.reads options name position)) :=
        { place := Point.holds_behind readsPlain (Or.inl place)
          supplied := by
            intro path listed
            refine Point.holds_behind readsPlain (Or.inr ⟨?_, ?_⟩)
            · exact inputsIn _ (member.mem_inputs options listed)
            · rw [writes_reads]
              exact member.mem_inputs options listed
          inScope := by
            intro other listed
            rw [Point.scope_behind readsPlain]
            exact localsIn other listed }
      rw [codeAll, Fragment.wellScoped_append]
      constructor
      · rw [memberCode, List.append_assoc, List.append_assoc, Fragment.wellScoped_append,
          Fragment.wellScoped_append, Fragment.wellScoped_append, behind_blank]
        exact ⟨wellScoped_reads options member position given inputsIn, wellScoped_blank _,
          ih member List.mem_cons_self _ _ _ ready, wellScoped_blank _⟩
      · refine ihRest (fun other listed => known other (List.mem_cons_of_mem _ listed))
          (fun other listed => ih other (List.mem_cons_of_mem _ listed)) (position + 1)
          (Point.holds_behind plain (Or.inl place)) (Point.holds_behind plain (Or.inl given)) ?_
        intro other listed
        rw [Point.scope_behind plain]
        apply inScope other
        rw [localsAll, List.map_append]
        exact List.mem_append_right _ listed

theorem wellScoped_loopBody {element : Node} (inside : element.Marshallable)
    (ih : ∀ (point : Point) (iter name : VarName), Ready options element iter name point →
      Fragment.WellScoped point (element.code options recovery iter name))
    (index : point.Holds (name.child .index)) (opened : point.Holds (name.child .iter))
    (supplied : ∀ path ∈ element.paths, point.Holds (name.append path)) :
    Fragment.WellScoped point
      (loopBody options element name
        (element.code options recovery (name.child .iter) (name.child .element))) := by
  let entries := element.locals options (name.child .element) ++
    element.inputs options (name.child .element)
  have outside : ∀ other : VarName, ¬ other.Below (name.child .element) →
      other ∉ entries.map TypedVar.name := by
    intro other notBelow listed
    obtain ⟨entry, isEntry, same⟩ := List.mem_map.1 listed
    apply notBelow
    rw [← same]
    exact inside.below_of_declared options isEntry
  have holds : ∀ other : VarName, ¬ other.Below (name.child .element) → point.Holds other →
      (point.behind (declarations entries)).Holds other :=
    fun other notBelow before => holds_declarations before (outside other notBelow)
  have inScope : ∀ other ∈ entries.map TypedVar.name,
      other ∈ (point.behind (declarations entries)).scope :=
    fun other listed => scope_declarations (Or.inl listed)
  have inputsIn : ∀ other ∈ (element.inputs options (name.child .element)).map TypedVar.name,
      other ∈ (point.behind (declarations entries)).scope := by
    intro other listed
    apply inScope other
    rw [List.map_append]
    exact List.mem_append_right _ listed
  have copiesPlain : Fragment.declares (element.copies options name) = [] :=
    Statement.silent_declares.copies options element name
  have ready : Ready options element (name.child .iter) (name.child .element)
      ((point.behind (declarations entries)).behind (element.copies options name)) :=
    { place := Point.holds_behind copiesPlain
        (Or.inl (holds _ (VarName.child_not_below (by decide)) opened))
      supplied := by
        intro path listed
        refine Point.holds_behind copiesPlain (Or.inr ⟨?_, ?_⟩)
        · exact inputsIn _ (element.mem_inputs options listed)
        · rw [writes_copies]
          exact element.mem_inputs options listed
      inScope := by
        intro other listed
        rw [Point.scope_behind copiesPlain]
        apply inScope other
        rw [List.map_append]
        exact List.mem_append_left _ listed }
  rw [loopBody, List.append_assoc, List.append_assoc, List.append_assoc,
    Fragment.wellScoped_append, Fragment.wellScoped_append, Fragment.wellScoped_append,
    Fragment.wellScoped_append, behind_blank, behind_blank]
  refine ⟨wellScoped_declarations entries point, wellScoped_blank _, ?_, wellScoped_blank _,
    ih _ _ _ ready⟩
  exact wellScoped_copies options element
    (holds _ (VarName.child_not_below (by decide)) index)
    (fun path listed => holds _ (append_not_below name listed (by decide)) (supplied path listed))
    inputsIn

theorem wellScoped_arrayCode {element : Node} (inside : element.Marshallable)
    (ih : ∀ (point : Point) (iter name : VarName), Ready options element iter name point →
      Fragment.WellScoped point (element.code options recovery iter name))
    (ready : Ready options (array element) iter name point) :
    Fragment.WellScoped point ((array element).code options recovery iter name) := by
  have inScope : name.child .iter ∈ point.scope := ready.inScope _ (List.mem_singleton.2 rfl)
  refine wellScoped_container recovery "DBUS_TYPE_ARRAY" _ element.signature [_, _] ready.place
    inScope rfl ?_
  intro later holds _ opened
  have enters : ∀ other, later.Holds other → (later.enter (name.child .index)).Holds other := by
    rintro other (outside | written)
    · exact Or.inl (List.mem_cons_of_mem _ outside)
    · exact Or.inr written
  have supplied := fun path (listed : path ∈ (array element).paths) =>
    holds _ (ready.supplied path listed)
  refine ⟨⟨?_, by simp [Statement.writes], ?_⟩, wellScoped_blank _⟩
  · intro other read
    rcases List.mem_cons.1 read with isArray | isLength
    · have whole := supplied [] (nil_mem_paths _)
      rw [VarName.append_nil] at whole
      rw [isArray]
      exact whole
    · cases fixed : element.isFixed with
      | true =>
          rw [fixed, if_pos rfl] at isLength
          rw [List.mem_singleton.1 isLength]
          exact supplied [.len] (len_mem_paths fixed)
      | false =>
          rw [fixed, if_neg Bool.false_ne_true] at isLength
          cases isLength
  · exact wellScoped_loopBody options recovery inside ih (Or.inl List.mem_cons_self)
      (enters _ opened) (fun path listed => enters _ (supplied path (mem_paths_array listed)))

/-- Where the iterator and the inputs hold values and the local variables are in scope, every
variable that the code reads holds a value. -/
theorem Marshallable.wellScoped_code {node : Node} (marshallable : node.Marshallable)
    (ready : Ready options node iter name point) :
    Fragment.WellScoped point (node.code options recovery iter name) := by
  induction marshallable using Marshallable.byKind generalizing point iter name with
  | basic code known =>
      refine ⟨⟨by simp [Statement.reads], by simp [Statement.writes], trivial⟩, ⟨?_, ?_⟩, trivial⟩
      · intro other read
        simp only [Statement.reads, List.mem_cons, List.not_mem_nil, or_false] at read
        rcases read with isPlace | isValue
        · rw [isPlace]
          exact ready.place
        · have given := ready.supplied [] (nil_mem_paths _)
          rw [VarName.append_nil] at given
          rw [isValue]
          exact given
      · exact ⟨by simp [Statement.writes], trivial⟩
  | array element inside ih =>
      exact wellScoped_arrayCode options recovery inside (fun _ _ _ ready => ih ready) ready
  | group node marshallable isGroup ih =>
      have inScope := ready.inScope
      rw [locals_of_isGroup options isGroup] at inScope
      have given := ready.supplied [] (nil_mem_paths _)
      rw [VarName.append_nil] at given
      rw [code_of_isGroup options recovery isGroup]
      refine wellScoped_container recovery node.constant _ none _ ready.place
        (inScope _ List.mem_cons_self) ?_ ?_
      · exact declares_codeAll options recovery (name.child .iter) name 0
          (fun member listed => (marshallable.child listed).declares_code options recovery)
      · intro later holds scope opened
        refine wellScoped_codeAll options recovery
          (fun member listed => marshallable.child listed)
          (fun member listed _ _ _ ready => ih member listed ready) 0 opened (holds _ given) ?_
        intro other listed
        rw [scope]
        exact inScope other (List.mem_cons_of_mem _ listed)

end

end Node

/-! ### Generated code -/

def Generated.entry (generated : Generated) (iter : VarName) : Point where
  given := iter :: generated.inputs.map TypedVar.name
  scope := generated.locals.map TypedVar.name
  written := []

theorem Node.ready_entry {node : Node} (options : Options)
    {generated : Generated} {iter name : VarName}
    (inputs : generated.inputs = node.inputs options name)
    (locals : generated.locals = node.locals options name) :
    Node.Ready options node iter name (generated.entry iter) where
  place := Or.inl List.mem_cons_self
  supplied := by
    intro path listed
    refine Or.inl (List.mem_cons_of_mem _ ?_)
    rw [inputs]
    exact node.mem_inputs options listed
  inScope := by
    intro other listed
    change other ∈ generated.locals.map TypedVar.name
    rw [locals]
    exact listed

theorem Statement.mem_introduces_of_declares {statement : Statement} {name : VarName}
    (declared : name ∈ statement.declares) :
    name ∈ statement.introduces.map TypedVar.name := by
  cases statement with
  | declare type other => exact declared
  | _ => cases declared

theorem Fragment.mem_introduces_of_declares {fragment : Fragment} {name : VarName}
    (declared : name ∈ fragment.declares) :
    name ∈ (Fragment.introduces fragment).map TypedVar.name := by
  induction fragment with
  | nil => cases declared
  | cons statement rest ih =>
      rw [Fragment.introduces, List.map_append, List.mem_append]
      rcases List.mem_append.1 declared with first | later
      · exact Or.inl (Statement.mem_introduces_of_declares first)
      · exact Or.inr (ih later)

mutual

theorem Statement.mem_introduces_of_bodies (statement : Statement) {body : Fragment}
    {name : VarName} (listed : body ∈ statement.bodies) (declared : name ∈ body.declares) :
    name ∈ statement.introduces.map TypedVar.name := by
  cases statement with
  | loop index array length inner =>
      rw [Statement.introduces, List.map_cons]
      apply List.mem_cons_of_mem _
      rcases List.mem_cons.1 listed with same | deeper
      · rw [← same]
        exact Fragment.mem_introduces_of_declares declared
      · exact Fragment.mem_introduces_of_bodies inner deeper declared
  | _ => cases listed

theorem Fragment.mem_introduces_of_bodies (fragment : List Statement) {body : Fragment}
    {name : VarName} (listed : body ∈ Fragment.bodies fragment) (declared : name ∈ body.declares) :
    name ∈ (Fragment.introduces fragment).map TypedVar.name := by
  cases fragment with
  | nil => cases listed
  | cons statement rest =>
      rw [Fragment.introduces, List.map_append]
      rcases List.mem_append.1 listed with first | later
      · exact List.mem_append_left _ (statement.mem_introduces_of_bodies first declared)
      · exact List.mem_append_right _ (Fragment.mem_introduces_of_bodies rest later declared)

end

/-- In generated code every variable is introduced once, has a value whenever it is read, and is
written where it is declared: the local variables outside of loops, and the variables that the body
of a loop declares in that body. -/
theorem generated_scoping {text : String} {node : Node} (read : Node.read text = .ok node)
    (plain : node.hasVariant = false) (options : Options) (recovery : String)
    {iter name : GivenName} {iterName varName : VarName} (iterGiven : iter.resolve = some iterName)
    (nameGiven : name.resolve = some varName) :
    ∃ generated, generate options (.tree node) iter name (some recovery) = .ok generated ∧
      (generated.variables.map TypedVar.name).Nodup ∧
      Fragment.WellScoped (generated.entry iterName) generated.fragment ∧
      (∀ other, other ∈ generated.locals.map TypedVar.name ↔
        other ∈ Fragment.writes generated.fragment) ∧
      Fragment.declares generated.fragment = [] ∧
      (∀ body ∈ Fragment.bodies generated.fragment, ∀ other,
        other ∈ Fragment.declares body ↔ other ∈ Fragment.writes body) ∧
      (∀ input ∈ generated.inputs.map TypedVar.name,
        input ∉ Fragment.writes generated.fragment ∧
          ∀ body ∈ Fragment.bodies generated.fragment, input ∉ Fragment.writes body) ∧
      (¬ iterName.Below varName → iterName ∉ generated.variables.map TypedVar.name) := by
  have marshallable := Node.marshallable_of_read read plain
  have own := marshallable.owns_introduced options recovery iterName varName
  have written := marshallable.mem_writes_code options recovery iterName varName
  have balanced := marshallable.mem_declares_bodies options recovery iterName varName
  refine ⟨_, marshallable.generate options recovery iterGiven nameGiven, own.distinct, ?_,
    fun other => (written other).symm, marshallable.declares_code options recovery _ _,
    balanced, ?_, fun apart listed => apart (own.inside iterName listed)⟩
  · exact marshallable.wellScoped_code options recovery (Node.ready_entry options rfl rfl)
  · intro input listed
    have distinct := own.distinct
    rw [Node.introduced, List.map_append, List.map_append] at distinct
    have apart := (List.nodup_append.1 distinct).2.2
    constructor
    · intro inCode
      exact apart input listed input (List.mem_append_left _ ((written input).1 inCode)) rfl
    · intro body inside inBody
      have declared := (balanced body inside input).2 inBody
      exact apart input listed input
        (List.mem_append_right _ (Fragment.mem_introduces_of_bodies _ inside declared)) rfl

theorem generated_scoping_table :
    ∃ generated,
      generate {} (.tree tableType) (.text "iter") (.text "table") (some "return FALSE;") =
        .ok generated ∧
      (generated.variables.map TypedVar.name).Nodup ∧
      Fragment.WellScoped (generated.entry { base := "iter" }) generated.fragment ∧
      (∀ other, other ∈ generated.locals.map TypedVar.name ↔
        other ∈ Fragment.writes generated.fragment) ∧
      Fragment.declares generated.fragment = [] ∧
      (∀ body ∈ Fragment.bodies generated.fragment, ∀ other,
        other ∈ Fragment.declares body ↔ other ∈ Fragment.writes body) ∧
      (∀ input ∈ generated.inputs.map TypedVar.name,
        input ∉ Fragment.writes generated.fragment ∧
          ∀ body ∈ Fragment.bodies generated.fragment, input ∉ Fragment.writes body) ∧
      (¬ VarName.Below { base := "iter" } { base := "table" } →
        { base := "iter" } ∉ generated.variables.map TypedVar.name) :=
  generated_scoping read_tableType rfl {} "return FALSE;"
    (GivenName.resolve_text (by decide)) (GivenName.resolve_text (by decide))

end DBusMarshal
