import DBusMarshal.Fault
import DBusMarshal.Text.Lines

/-!
Paths of the files that are written.

A path is a list of parts, from the root or from the directory at hand. Slashes that follow one
another count once, and a part that is a single dot stays where it is. Two dots are a part of their
own, since what they lead to is not known from the path alone.
-/

set_option autoImplicit false

namespace DBusMarshal.CommandLine

structure OutputPath where
  fromRoot : Bool
  parts : List String
deriving DecidableEq, Repr

namespace OutputPath

/-- The part leads somewhere: it is neither empty nor a single dot. -/
def leads (part : List Char) : Bool := part ≠ [] && part ≠ ['.']

def ofText (text : String) : Except Fault OutputPath :=
  if text.toList.contains '\x00' then .error .nullInPath
  else .ok {
    fromRoot := text.toList.head? = some '/'
    parts := ((Text.cutAt '/' text.toList).filter leads).map .ofList }

/-- How a path is written. A path without parts is the root or the directory at hand. -/
def text (path : OutputPath) : String :=
  if path.fromRoot then "/" ++ "/".intercalate path.parts
  else if path.parts = [] then "."
  else "/".intercalate path.parts

theorem leads_of_mem_parts {text : String} {path : OutputPath} {part : String}
    (read : ofText text = .ok path) (member : part ∈ path.parts) : leads part.toList = true := by
  unfold ofText at read
  split at read
  · contradiction
  · cases read
    obtain ⟨letters, kept, rfl⟩ := List.mem_map.1 member
    rw [String.toList_ofList]
    exact (List.mem_filter.1 kept).2

/-! ### Examples -/

example : (ofText "a//./b/").toOption = some ⟨false, ["a", "b"]⟩ := by decide +kernel

example : (ofText "/../a").toOption = some ⟨true, ["..", "a"]⟩ := by decide +kernel

end OutputPath

end DBusMarshal.CommandLine
