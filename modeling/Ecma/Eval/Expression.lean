import Ecma.Eval.Class
import Ecma.Eval.Operator

/-! The values of expressions. -/

namespace Ecma

namespace Expr

/-- A short text of an expression in messages. -/
def description : Expr → String
  | .identifier name => name
  | .thisValue => "this"
  | .member base (.dot name) => base.description ++ "." ++ name
  | .member base (.privateName name) => base.description ++ ".#" ++ name
  | .member base (.computed _) => base.description ++ "[...]"
  | .superMember (.dot name) => "super." ++ name
  | .superMember _ => "super[...]"
  | .call callee _ => callee.description ++ "(...)"
  | .literal (.string s) => "\"" ++ s.text ++ "\""
  | .literal (.number x) => x.text
  | .literal .null => "null"
  | .literal (.boolean b) => if b then "true" else "false"
  | _ => "expression"

/-- The expression denotes a place, so a call of it has a `this` value. -/
def isReference : Expr → Bool
  | .identifier _ | .member .. | .superMember _ => true
  | _ => false

/-- The name that an anonymous function takes from the target that it is assigned to. -/
def targetName : Expr → String
  | .identifier name => name
  | _ => ""

end Expr

namespace Literal

/-- The value that a literal writes. -/
def value : Literal → Value
  | .null => .null
  | .boolean b => .boolean b
  | .number x => .number x
  | .string s => .string s
  | .bigInt i => .bigInt i

end Literal

namespace PropertyName

/-- A name that sets the prototype in a literal. -/
def isProto : PropertyName → Bool
  | .identifier name => name == "__proto__"
  | .string s => s == ("__proto__" : Units)
  | _ => false

end PropertyName

namespace Engine

open Eval (heap raise)

variable (eng : Engine)

/-- The value of an expression, in which an anonymous function or class takes a name. -/
def named (e : Expr) (scope : ScopeRef) (name : Units) : Eval Value :=
  if e.isAnonymousFunction then
    match e with
    | .function f => .object <$> Eval.instantiateFunction f scope name
    | .classExpr c => .object <$> eng.evaluateClass c scope name.text
    | _ => eng.expr e scope
  else eng.expr e scope

/-- The values of arguments, in order. -/
def arguments (args : List Expr) (scope : ScopeRef) : Eval (List Value) :=
  args.mapM (eng.expr · scope)

/-! ### Object literals -/

/-- Sets the prototype of a literal, if the value is an object or null. -/
def setProto (o : ObjectRef) : Value → Eval Unit
  | .object p => discard (Eval.setPrototype o (some p))
  | .null => discard (Eval.setPrototype o none)
  | _ => return

/-- Defines a method or accessor of a literal. -/
def defineMethod (o : ObjectRef) (name : PropertyName) (kind : MethodKind) (f : FunctionDef)
    (scope : ScopeRef) : Eval Unit := do
  let key ← eng.propertyKey name scope
  let method ← Eval.createMethod f scope o
  Eval.setFunctionName method (kind.functionName key.functionName)
  defineOrThrow o key (kind.descriptor method true)

/-- Defines a property of a literal. -/
def defineProperty (o : ObjectRef) (scope : ScopeRef) : PropertyDef → Eval Unit
  | .init name e => do
    if name.isProto then setProto o (← eng.expr e scope)
    else
      let key ← eng.propertyKey name scope
      let value ← eng.named e scope key.functionName
      Eval.put o key (.plain value)
  | .method name f => eng.defineMethod o name .method f scope
  | .getter name f => eng.defineMethod o name .getter f scope
  | .setter name f => eng.defineMethod o name .setter f scope

/-- The object that a literal writes. -/
def objectLiteral (properties : List PropertyDef) (scope : ScopeRef) : Eval Value := do
  let o ← Eval.newOrdinary
  properties.forM (eng.defineProperty o scope)
  return .object o

/-! ### Calls -/

/-- The function that a call calls, and its `this` value. -/
def callee (e : Expr) (scope : ScopeRef) : Eval (Value × Value) := do
  if e.isReference then
    let r ← eng.reference e scope
    return (← eng.getValue r, r.thisValue)
  else return (← eng.expr e scope, .undefined)

/-- A call. -/
def callExpression (e : Expr) (args : List Expr) (scope : ScopeRef) : Eval Value := do
  let (f, this) ← eng.callee e scope
  let args ← eng.arguments args scope
  match f with
  | .object o =>
    if ← heap (·.isCallable o) then eng.call o this args else raise (.notFunction e.description)
  | .primitive _ => raise (.notFunction e.description)

/-- A construction by `new`. -/
def newExpression (e : Expr) (args : List Expr) (scope : ScopeRef) : Eval Value := do
  let f ← eng.expr e scope
  let args ← eng.arguments args scope
  match f with
  | .object o =>
    if ← heap (·.isConstructor o) then .object <$> eng.construct o args o
    else raise (.notConstructor e.description)
  | .primitive _ => raise (.notConstructor e.description)

/-- A call of the parent constructor. -/
def superExpression (args : List Expr) (scope : ScopeRef) : Eval Value := do
  let args ← eng.arguments args scope
  .object <$> eng.superCall scope args

/-! ### Assignment -/

/-- Counting up or down by one. -/
def updateExpression (op : UpdateOp) (first : Bool) (target : Expr) (scope : ScopeRef) :
    Eval Value := do
  let r ← eng.reference target scope
  match ← eng.toNumeric (← eng.getValue r) with
  | .bigInt _ => raise .bigIntArithmetic
  | .number old =>
    let new := match op with
      | .increment => old + 1.0
      | .decrement => old - 1.0
    eng.putValue r (.number new)
    return .number (if first then new else old)

/-- Assigns the value of an expression. -/
def assignTo (r : Reference) (target value : Expr) (scope : ScopeRef) : Eval Value := do
  let v ← eng.named value scope target.targetName
  eng.putValue r v
  return v

/-- An assignment. -/
def assignExpression (op : AssignOp) (target value : Expr) (scope : ScopeRef) : Eval Value := do
  let r ← eng.reference target scope
  match op, op.logicalOp? with
  | .assign, _ => eng.assignTo r target value scope
  | _, some logical =>
    let current ← eng.getValue r
    if logical.decidedBy current then return current else eng.assignTo r target value scope
  | compound, none =>
    let current ← eng.getValue r
    let operand ← eng.expr value scope
    match compound.binaryOp? with
    | some binary =>
      let v ← eng.applyBinary binary current operand
      eng.putValue r v
      return v
    | none => Eval.fault .assignmentOperator

/-! ### Other operators -/

/-- An operator with two operands. -/
def binaryExpression (op : BinaryOp) (left right : Expr) (scope : ScopeRef) : Eval Value := do
  let x ← eng.expr left scope
  let y ← eng.expr right scope
  eng.applyBinary op x y

/-- The type of a value; of a name that is not found, `undefined`. -/
def typeOf (e : Expr) (scope : ScopeRef) : Eval Value := do
  let unresolvable ← match e with
    | .identifier name => do
      match ← Eval.resolve name scope with
      | .unresolvable _ => pure true
      | _ => pure false
    | _ => pure false
  if unresolvable then return .ofText "undefined"
  let v ← eng.expr e scope
  return .ofText (← heap (·.typeName v))

/-- Removes a variable, which succeeds only for global properties that may be removed. -/
def deleteName (name : String) (scope : ScopeRef) : Eval Value := do
  match ← Eval.resolve name scope with
  | .global name => .boolean <$> Eval.delete Intrinsic.globalObject name
  | .unresolvable _ => return .boolean true
  | _ => return .boolean false

/-- Removes a property; a refusal is an error in strict code. -/
def deleteMember (e : Expr) (scope : ScopeRef) : Eval Value := do
  match ← eng.reference e scope with
  | .property base key _ =>
    let o ← toObject base
    let deleted ← Eval.delete o key
    if !deleted && (← Eval.isStrict) then
      raise (.undeletable key.text (← heap (·.describe base)))
    return .boolean deleted
  | _ => Eval.fault .privateDelete

/-- The operator `delete`. -/
def deleteExpression (e : Expr) (scope : ScopeRef) : Eval Value :=
  match e with
  | .identifier name => deleteName name scope
  | .superMember _ => raise .superDelete
  | .member .. => eng.deleteMember e scope
  | _ => do
    let _ ← eng.expr e scope
    return .boolean true

/-! ### All expressions -/

/-- The value of the place that an expression denotes. -/
def readExpression (e : Expr) (scope : ScopeRef) : Eval Value := do
  eng.getValue (← eng.reference e scope)

/-- The value of an expression in a scope. -/
def evaluate (e : Expr) (scope : ScopeRef) : Eval Value :=
  match e with
  | .literal l => return l.value
  | .identifier _ | .member .. | .superMember _ => eng.readExpression e scope
  | .thisValue => Eval.resolveThis scope
  | .object properties => eng.objectLiteral properties scope
  | .function f => .object <$> Eval.instantiateExpression f scope Units.empty
  | .classExpr c => .object <$> eng.evaluateClass c scope (c.name.getD "")
  | .unary op e => do eng.applyUnary op (← eng.expr e scope)
  | .binary op left right => eng.binaryExpression op left right scope
  | .logical op left right => do
    let v ← eng.expr left scope
    if op.decidedBy v then return v else eng.expr right scope
  | .conditional test yes no => do
    if (← eng.expr test scope).isTruthy then eng.expr yes scope else eng.expr no scope
  | .update op first target => eng.updateExpression op first target scope
  | .assign op target value => eng.assignExpression op target value scope
  | .call f args => eng.callExpression f args scope
  | .superCall args => eng.superExpression args scope
  | .construct f args => eng.newExpression f args scope
  | .typeOf e => eng.typeOf e scope
  | .voidOf e => do
    let _ ← eng.expr e scope
    return .undefined
  | .delete e => eng.deleteExpression e scope

end Engine

end Ecma
