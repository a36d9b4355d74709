/-! Loops whose turns decide whether there is another one. -/

namespace Ecma

/-- What one turn of a loop decides. -/
inductive Turn (α β : Type) where
  | again (a : α)
  | done (b : β)

end Ecma
