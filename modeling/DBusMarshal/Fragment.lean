import DBusMarshal.VarName

/-!
The statements of generated code.

A fragment is a list of statements. Every statement that may run out of memory carries the recovery
code that is to run then. A place where a statement is expected may also hold something else, which
is kept as it is.
-/

set_option autoImplicit false

namespace DBusMarshal

inductive Statement where
  | comment (text : String)
  | blank
  /-- The code that runs when memory is short. It leaves the fragment. -/
  | recovery (code : String)
  /-- Append a value to a container. -/
  | append (iter : VarName) (typeConst : String) (value : VarName) (recovery : String)
  /-- Open a container inside another one; an array carries the signature of its element. -/
  | openContainer (iter : VarName) (typeConst : String) (signature : Option String)
      (inner : VarName) (recovery : String)
  /-- Close a container. -/
  | closeContainer (iter inner : VarName) (recovery : String)
  | declare (type : String) (name : VarName)
  /-- Copy an element of an array into a variable. -/
  | assign (target array index : VarName)
  /-- Copy a field of a struct into a variable. -/
  | readField (target source : VarName) (field : String)
  /-- Run the body for every element: as often as the length says, or up to the null element. -/
  | loop (index array : VarName) (length : Option VarName) (body : List Statement)
  /-- A text that is no statement. -/
  | stray (text : String)
deriving Repr

abbrev Fragment := List Statement

mutual

/-- A statement, the recovery code that it carries, and the statements of its body. -/
def Statement.walk (statement : Statement) : List Statement :=
  match statement with
  | .append _ _ _ recovery => [statement, .recovery recovery]
  | .openContainer _ _ _ _ recovery => [statement, .recovery recovery]
  | .closeContainer _ _ recovery => [statement, .recovery recovery]
  | .loop _ _ _ body => statement :: Fragment.walk body
  | _ => [statement]

/-- Every statement of a fragment, in the order of the text. -/
def Fragment.walk : List Statement → List Statement
  | [] => []
  | statement :: rest => statement.walk ++ Fragment.walk rest

end

end DBusMarshal
