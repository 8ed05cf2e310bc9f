import DBusMarshal.CType
import DBusMarshal.Fragment
import DBusMarshal.Text.Lines

/-!
The C text of a fragment.

A statement is printed as a list of lines. The lines of a loop body are printed first and then
indented as one text, so a line at depth `d` receives `d` indentations one after the other.
-/

set_option autoImplicit false

namespace DBusMarshal

/-- End every line with a newline; no line at all gives one empty line. -/
def joinLines (lines : List String) : String := Text.joinNewlines lines ++ "\n"

namespace Statement

/-- The lines of recovery code, one step deeper than the call that it belongs to. -/
def recoveryLines (step code : String) : List String := Text.contentLines (Text.indent code 1 step)

/-- The lines of a call that may run out of memory. -/
def checkedCall (step call recovery : String) : List String :=
  ["if (! " ++ call ++ ") \x7b"] ++ recoveryLines step recovery ++ ["\x7d"]

def signatureArgument : Option String → String
  | some signature => "\"" ++ signature ++ "\""
  | none => "NULL"

def loopHead (index array : VarName) (length : Option VarName) : String :=
  let i := index.text
  let condition := match length with
    | some length => i ++ " < " ++ length.text
    | none => array.text ++ "[" ++ i ++ "]"
  "for (size_t " ++ i ++ " = 0; " ++ condition ++ "; " ++ i ++ "++) \x7b"

end Statement

mutual

def Statement.lines (step : String) : Statement → Except Fault (List String)
  | .comment text => .ok ["/* " ++ text ++ " */"]
  | .blank => .ok [""]
  | .recovery code => .ok (Statement.recoveryLines step code)
  | .append iter typeConst value recovery =>
    .ok (Statement.checkedCall step
      ("dbus_message_iter_append_basic (&" ++ iter.text ++ ", " ++ typeConst ++ ", &" ++ value.text
        ++ ")") recovery)
  | .openContainer iter typeConst signature inner recovery =>
    .ok (Statement.checkedCall step
      ("dbus_message_iter_open_container (&" ++ iter.text ++ ", " ++ typeConst ++ ", "
        ++ Statement.signatureArgument signature ++ ", &" ++ inner.text ++ ")") recovery)
  | .closeContainer iter inner recovery =>
    .ok (Statement.checkedCall step
      ("dbus_message_iter_close_container (&" ++ iter.text ++ ", &" ++ inner.text ++ ")") recovery)
  | .declare type name => .ok [CType.declaration type name.text ++ ";"]
  | .assign target array index =>
    .ok [target.text ++ " = " ++ array.text ++ "[" ++ index.text ++ "];"]
  | .readField target source field =>
    .ok [target.text ++ " = " ++ source.text ++ "->" ++ field ++ ";"]
  | .loop index array length body => do
    let inner := joinLines (← Fragment.lines step body)
    return [Statement.loopHead index array length] ++ Text.contentLines (Text.indent inner 1 step)
      ++ ["\x7d"]
  | .stray text => .error (.breach (.unexpectedStatement (Text.quoted text)))

def Fragment.lines (step : String) : List Statement → Except Fault (List String)
  | [] => .ok []
  | statement :: rest => do
    let first ← statement.lines step
    return first ++ (← Fragment.lines step rest)

end

def Fragment.render (fragment : Fragment) (step : String) : Except Fault String :=
  (Fragment.lines step fragment).map joinLines

end DBusMarshal
