import Bytecode.Wire.Kind

/-!
# Fields

What schemas and formats have in common: a name with a wire type.
-/

namespace Bytecode

/-- A named field with a wire type: an argument, a counter or a chunk length. -/
structure Field where
  name : String
  kind : Kind
deriving DecidableEq, Repr, Inhabited

end Bytecode
