import DBusMarshal.Text.Blank

/-!
The spelling of C types.

A C type is a text. `toConst` promises that what a pointer points to is not modified, `toPointer`
adds a level of pointers, and `declaration` puts a variable behind its type.
-/

set_option autoImplicit false

namespace DBusMarshal.CType

def isPointer (spelling : List Char) : Bool := spelling.getLast? = some '*'

def const : List Char := ['c', 'o', 'n', 's', 't']

/-- Qualify what a trimmed pointer type points to. What is no pointer is copied by value and stays
as it is; so does a pointer to what is const already. -/
def qualify (spelling : List Char) : List Char :=
  if isPointer spelling then
    let target := Text.trimEnd spelling.dropLast
    if isPointer target then target ++ ' ' :: const ++ [' ', '*']
    else if (' ' :: const).isSuffixOf target || (const ++ [' ']).isPrefixOf target then spelling
    else const ++ ' ' :: spelling
  else spelling

/-- Add a level of pointers to a trimmed type. -/
def addStar (spelling : List Char) : List Char :=
  if isPointer spelling then spelling ++ ['*'] else spelling ++ [' ', '*']

/-- The type with what it points to made const. -/
def toConst (type : String) : String := .ofList (qualify (Text.trim type.toList))

def toPointer (type : String) : String := .ofList (addStar (Text.trim type.toList))

/-- The declaration of a variable. The star of a pointer type stands at the name. -/
def declaration (type name : String) : String :=
  if isPointer type.toList then type ++ name else type ++ " " ++ name

/-! ### Examples -/

example : (toConst "char *", toConst "const char **", toConst " int ") =
    ("const char *", "const char * const *", "int") := by decide +kernel

example : (toPointer "int", toPointer "int *") = ("int *", "int **") := by decide +kernel

end DBusMarshal.CType
