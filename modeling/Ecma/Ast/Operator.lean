/-! Operators of expressions. -/

namespace Ecma

/-- The operators with one operand, apart from those that are keywords. -/
inductive UnaryOp where
  | minus
  | plus
  | not
  | bitNot
deriving Repr, DecidableEq, Inhabited

namespace UnaryOp

/-- The name in tree dumps. -/
def name : UnaryOp → String
  | .minus => "Minus"
  | .plus => "Plus"
  | .not => "Not"
  | .bitNot => "BitNot"

end UnaryOp

/-- The operators that evaluate both operands. -/
inductive BinaryOp where
  | add
  | sub
  | mul
  | div
  | mod
  | exp
  | eq
  | notEq
  | strictEq
  | strictNotEq
  | lt
  | gt
  | ltEq
  | gtEq
  | lShift
  | rShift
  | uRShift
  | bitAnd
  | bitOr
  | bitXor
  | inside
  | instanceOf
deriving Repr, DecidableEq, Inhabited

namespace BinaryOp

/-- The name in tree dumps. -/
def name : BinaryOp → String
  | .add => "Add"
  | .sub => "Sub"
  | .mul => "Mul"
  | .div => "Div"
  | .mod => "Mod"
  | .exp => "Exp"
  | .eq => "Eq"
  | .notEq => "NotEq"
  | .strictEq => "StrictEq"
  | .strictNotEq => "StrictNotEq"
  | .lt => "Lt"
  | .gt => "Gt"
  | .ltEq => "LtEq"
  | .gtEq => "GtEq"
  | .lShift => "LShift"
  | .rShift => "RShift"
  | .uRShift => "URShift"
  | .bitAnd => "BitAnd"
  | .bitOr => "BitOr"
  | .bitXor => "BitXor"
  | .inside => "In"
  | .instanceOf => "Instanceof"

end BinaryOp

/-- The operators that may skip their right operand. -/
inductive LogicalOp where
  | and
  | or
deriving Repr, DecidableEq, Inhabited

namespace LogicalOp

/-- The name in tree dumps. -/
def name : LogicalOp → String
  | .and => "And"
  | .or => "Or"

end LogicalOp

/-- Counting up and down by one. -/
inductive UpdateOp where
  | increment
  | decrement
deriving Repr, DecidableEq, Inhabited

namespace UpdateOp

/-- The name in tree dumps. -/
def name : UpdateOp → String
  | .increment => "Increment"
  | .decrement => "Decrement"

end UpdateOp

/-- The assignment operators. -/
inductive AssignOp where
  | assign
  | addAssign
  | subAssign
  | mulAssign
  | divAssign
  | modAssign
  | expAssign
  | lShiftAssign
  | rShiftAssign
  | uRShiftAssign
  | bitAndAssign
  | bitOrAssign
  | bitXorAssign
  | logicalAndAssign
  | logicalOrAssign
deriving Repr, DecidableEq, Inhabited

namespace AssignOp

/-- The name in tree dumps. -/
def name : AssignOp → String
  | .assign => "Assign"
  | .addAssign => "AddAssign"
  | .subAssign => "SubAssign"
  | .mulAssign => "MulAssign"
  | .divAssign => "DivAssign"
  | .modAssign => "ModAssign"
  | .expAssign => "ExpAssign"
  | .lShiftAssign => "LShiftAssign"
  | .rShiftAssign => "RShiftAssign"
  | .uRShiftAssign => "URShiftAssign"
  | .bitAndAssign => "BitAndAssign"
  | .bitOrAssign => "BitOrAssign"
  | .bitXorAssign => "BitXorAssign"
  | .logicalAndAssign => "LogicalAndAssign"
  | .logicalOrAssign => "LogicalOrAssign"

end AssignOp

namespace AssignOp

/-- The binary operator that a compound assignment applies. -/
def binaryOp? : AssignOp → Option BinaryOp
  | .assign => none
  | .addAssign => some .add
  | .subAssign => some .sub
  | .mulAssign => some .mul
  | .divAssign => some .div
  | .modAssign => some .mod
  | .expAssign => some .exp
  | .lShiftAssign => some .lShift
  | .rShiftAssign => some .rShift
  | .uRShiftAssign => some .uRShift
  | .bitAndAssign => some .bitAnd
  | .bitOrAssign => some .bitOr
  | .bitXorAssign => some .bitXor
  | .logicalAndAssign => none
  | .logicalOrAssign => none

/-- The logical operator that decides whether there is an assignment. -/
def logicalOp? : AssignOp → Option LogicalOp
  | .logicalAndAssign => some .and
  | .logicalOrAssign => some .or
  | _ => none

end AssignOp

/-- The words that start a variable declaration. -/
inductive VarKind where
  | var
  | letVar
  | const
deriving Repr, DecidableEq, Inhabited

namespace VarKind

/-- The name in tree dumps. -/
def name : VarKind → String
  | .var => "Var"
  | .letVar => "Let"
  | .const => "Const"

end VarKind

/-- How a function was written: with the `function` keyword, as a method of a literal or a class, or
as the constructor of a class. -/
inductive FunctionKind where
  | normal
  | method
  | classConstructor
deriving Repr, DecidableEq, Inhabited

namespace FunctionKind

/-- The name in tree dumps. -/
def name : FunctionKind → String
  | .normal => "Normal"
  | .method => "Method"
  | .classConstructor => "ClassConstructor"

end FunctionKind

/-- What a class element defines. -/
inductive MethodKind where
  | method
  | getter
  | setter
deriving Repr, DecidableEq, Inhabited

namespace MethodKind

/-- The name in tree dumps. -/
def name : MethodKind → String
  | .method => "Method"
  | .getter => "Get"
  | .setter => "Set"

end MethodKind

end Ecma
