import DBusMarshal.VarName

/-!
The variables that a fragment needs and declares.

A scope tells what two lists hold: the inputs, which the caller provides, and the locals, which the
fragment declares itself.
-/

set_option autoImplicit false

namespace DBusMarshal

structure Scope where
  inputs : List TypedVar := []
  locals : List TypedVar := []
deriving DecidableEq, Repr

end DBusMarshal
