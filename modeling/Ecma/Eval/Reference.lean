import Ecma.Eval.Conversion

/-! Property keys in expressions, and references: the places that an expression can denote, which
are read and assigned. -/

namespace Ecma

/-- A place that holds a value. -/
inductive Reference where
  | binding (scope : ScopeRef) (name : String)
  /-- A property of the global object that is named like a variable. -/
  | global (name : String)
  | unresolvable (name : String)
  /-- A property; `this` is the base, except after `super`. -/
  | property (base : Value) (key : PropertyKey) (this : Value)
  | privateMember (base : Value) (name : PrivateName)
deriving Inhabited

namespace Reference

/-- The `this` value of a call through a reference. -/
def thisValue : Reference → Value
  | .property _ _ this => this
  | .privateMember base _ => base
  | _ => .undefined

end Reference

namespace Eval

/-- The place that a name stands for: the nearest binding, or a property of the global object. -/
def resolve (name : String) (scope : ScopeRef) : Eval Reference := do
  match ← scopes (·.findBinding? name scope) with
  | some r => return .binding r name
  | none =>
    if ← heap (·.has Intrinsic.globalObject name) then return .global name
    else return .unresolvable name

/-- Throws the error of a binding that cannot be used. -/
def raiseBinding {α : Type} (name : String) : BindingError → Eval α
  | .uninitialised => raise (.uninitialised name)
  | .constant => raise .constantAssigned
  | .missing => raise (.notDefined name)

/-- The value of a binding. -/
def readBinding (r : ScopeRef) (name : String) : Eval Value := do
  match ← scopes (fun s => (s.get r).get name) with
  | .ok v => return v
  | .error e => raiseBinding name e

/-- Assigns to a binding. -/
def assignBinding (r : ScopeRef) (name : String) (value : Value) (strict : Bool) : Eval Unit := do
  match ← scopes (fun s => (s.get r).set name value strict) with
  | .ok e => modifyScope r fun _ => e
  | .error e => raiseBinding name e

/-- The `this` value in a scope. -/
def resolveThis (scope : ScopeRef) : Eval Value := do
  match ← scopes (·.findFunction? scope) with
  | none => return .object Intrinsic.globalObject
  | some r =>
    match ← scopes (fun s => (s.get r).function.bind FunctionScope.this) with
    | some v => return v
    | none => raise .thisUninitialised

/-- What a value holds under a private name. -/
def privateElement (base : Value) (name : PrivateName) (action : String) :
    Eval PrivateElement := do
  match ← heap (fun h => base.object?.bind fun o => (h.get o).privateElement? name) with
  | some e => return e
  | none => raise (.privateAbsent action name.description)

end Eval

namespace Engine

open Eval (heap raise)

variable (eng : Engine)

/-! ### Keys -/

/-- The key that an expression in brackets gives. -/
def computedKey (e : Expr) (scope : ScopeRef) : Eval PropertyKey := do
  eng.toPropertyKey (← eng.expr e scope)

/-- The key of a property in a literal or a class. -/
def propertyKey (name : PropertyName) (scope : ScopeRef) : Eval PropertyKey :=
  match name with
  | .identifier s => return s
  | .string s => return .string s
  | .number x => return x.text
  | .computed e => eng.computedKey e scope

/-- The key of a property access. -/
def memberKey (key : MemberKey) (scope : ScopeRef) : Eval PropertyKey :=
  match key with
  | .dot name => return name
  | .computed e => eng.computedKey e scope
  | .privateName _ => Eval.fault .privateKey

/-! ### References -/

/-- A private member of the value of an expression. -/
def privateReference (object : Expr) (name : String) (scope : ScopeRef) : Eval Reference := do
  let base ← eng.expr object scope
  match ← Eval.scopes (·.findPrivateName? name scope) with
  | some n => return .privateMember base n
  | none => Eval.fault (.undeclaredPrivateName name)

/-- A property of the value of an expression. A name after undefined or null is an error at
once. -/
def memberReference (object : Expr) (key : MemberKey) (scope : ScopeRef) : Eval Reference := do
  let base ← eng.expr object scope
  if base.isNullish then
    if let .dot name := key then raise (.readOf base.text name)
  return .property base (← eng.memberKey key scope) base

/-- The object whose prototype `super` starts from, in a scope. -/
def homeObject? (scope : ScopeRef) : Eval (Option ObjectRef) := do
  match ← Eval.scopes fun s => (s.findFunction? scope).bind fun r => (s.get r).function with
  | some f => heap fun h => (h.scriptFunction? f.function).bind ScriptFunction.homeObject
  | none => return none

/-- A property after `super`. -/
def superReference (key : MemberKey) (scope : ScopeRef) : Eval Reference := do
  let this ← Eval.resolveThis scope
  let key ← eng.memberKey key scope
  match ← homeObject? scope with
  | some home => return .property (.ofObject? (← heap fun h => (h.get home).prototype)) key this
  | none => Eval.fault .unexpectedSuper

/-- The place that an expression denotes. -/
def reference (e : Expr) (scope : ScopeRef) : Eval Reference :=
  match e with
  | .identifier name => Eval.resolve name scope
  | .member object (.privateName name) => eng.privateReference object name scope
  | .member object key => eng.memberReference object key scope
  | .superMember key => eng.superReference key scope
  | _ => Eval.fault .assignmentTarget

/-- Reads a private member. -/
def privateGet (base : Value) (name : PrivateName) : Eval Value := do
  match ← Eval.privateElement base name "read" with
  | .method f => return .object f
  | .accessor (some getter) _ => eng.call getter base []
  | .accessor none _ => raise (.privateGetter name.description)

/-- Assigns to a private member. -/
def privateSet (base : Value) (name : PrivateName) (value : Value) : Eval Unit := do
  match ← Eval.privateElement base name "write" with
  | .method _ => raise (.privateMethod name.description)
  | .accessor _ (some setter) => discard (eng.call setter base [value])
  | .accessor _ none => raise (.privateSetter name.description)

/-- Reads a property on behalf of `this`. -/
def getProperty (base : Value) (key : PropertyKey) (this : Value) : Eval Value :=
  match base with
  | .object o => eng.getFor o key this
  | .primitive p => eng.getOfPrimitive p key

/-- Assigns to a property on behalf of `this`. -/
def setProperty (base : Value) (key : PropertyKey) (this value : Value) (strict : Bool) :
    Eval Unit := do
  match base with
  | .object o =>
    if !(← eng.setFor o key value this) && strict then raise (.readOnly key.text "object")
  | .primitive p =>
    if p.isNullish then raise (.setOf p.text key.text) else eng.setOf base key value strict

/-- The value of a reference. -/
def getValue : Reference → Eval Value
  | .binding scope name => Eval.readBinding scope name
  | .global name => eng.get Intrinsic.globalObject name
  | .unresolvable name => raise (.notDefined name)
  | .property base key this => eng.getProperty base key this
  | .privateMember base name => eng.privateGet base name

/-- Assigns to a reference. A name that is not found becomes a global property in sloppy code. -/
def putValue (r : Reference) (value : Value) : Eval Unit := do
  let strict ← Eval.isStrict
  match r with
  | .binding scope name => Eval.assignBinding scope name value strict
  | .global name => eng.set Intrinsic.globalObject name value strict
  | .unresolvable name =>
    if strict then raise (.notDefined name)
    else eng.set Intrinsic.globalObject name value false
  | .property base key this => eng.setProperty base key this value strict
  | .privateMember base name => eng.privateSet base name value

end Engine

end Ecma
