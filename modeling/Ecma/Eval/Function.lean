import Ecma.Ast.Scope
import Ecma.Eval.Property

/-! Making function objects, and the scopes that calls of them run in. -/

namespace Ecma

namespace PropertyKey

/-- The name of a function that is defined under a key: a symbol's description in brackets. -/
def functionName : PropertyKey → Units
  | .string s => s
  | .symbol s =>
    match s.description with
    | some d => "[" ++ d.text ++ "]"
    | none => Units.empty

end PropertyKey

namespace PrivateName

/-- The name of a function that is defined under a private name. -/
def functionName (n : PrivateName) : Units :=
  "#" ++ n.description

end PrivateName

namespace MethodKind

/-- The name of a method or, with a word before it, of an accessor. -/
def functionName (name : Units) : MethodKind → Units
  | .method => name
  | .getter => Units.ofString "get " ++ name
  | .setter => Units.ofString "set " ++ name

/-- The property that a method or one half of an accessor defines. -/
def descriptor (f : ObjectRef) (enumerable : Bool) : MethodKind → Descriptor
  | .method => .data (.object f) true enumerable true
  | .getter =>
    { get := some (.object f), enumerable := some enumerable, configurable := some true }
  | .setter =>
    { set := some (.object f), enumerable := some enumerable, configurable := some true }

/-- The private element that a method or one half of an accessor is. -/
def privateElement (f : ObjectRef) : MethodKind → PrivateElement
  | .method => .method f
  | .getter => .accessor (some f) none
  | .setter => .accessor none (some f)

end MethodKind

namespace Environment

/-- Makes the bindings of `let`, `const` and `class`, without values. -/
def declareLexical (e : Environment) (bindings : List (String × VarKind)) : Environment :=
  bindings.foldl (fun e (name, kind) => e.declare name kind.bindingKind) e

/-- Binds parameters to arguments; of two parameters with one name the later one counts. -/
def bindParameters (e : Environment) : List String → List Value → Environment
  | [], _ => e
  | param :: params, args =>
    bindParameters ((e.declareNew param .var).initialise param (args.headD .undefined)) params
      args.tail

/-- Makes the bindings of `var` names that are not bound yet. -/
def declareVars (e : Environment) (names : List String) : Environment :=
  names.foldl (fun e name => e.declareNew name .var) e

end Environment

namespace Eval

/-! ### Function objects -/

/-- Makes the object of a function that sees a scope; its name is set apart. -/
def createFunction (f : FunctionDef) (scope : ScopeRef) (homeObject : Option ObjectRef)
    (constructorKind : Option ConstructorKind) : Eval ObjectRef := do
  let site ← site
  let o ← newObject (some Intrinsic.functionPrototype) (.function
    { code := .script f, scope, site, strict := f.strict, homeObject, constructorKind
      classSource := none, privateMethods := [] })
  put o "length" (.data (.number (Number.ofInt f.params.length)) false false true)
  return o

/-- Sets the name of a function. -/
def setFunctionName (o : ObjectRef) (name : Units) : Eval Unit :=
  put o "name" (.data (.string name) false false true)

/-- Gives a function the object that its instances inherit from. -/
def makeConstructor (o : ObjectRef) : Eval Unit := do
  let prototype ← newOrdinary
  put prototype "constructor" (.hidden (.object o))
  put o "prototype" (.data (.object prototype) true false false)

/-- Makes the object of a function declaration or an anonymous function expression. -/
def instantiateFunction (f : FunctionDef) (scope : ScopeRef) (name : Units) : Eval ObjectRef := do
  let o ← createFunction f scope none (some .base)
  setFunctionName o name
  makeConstructor o
  return o

/-- Makes the object of a function expression. One with a name sees itself under that name. -/
def instantiateExpression (f : FunctionDef) (scope : ScopeRef) (name : Units) :
    Eval ObjectRef := do
  match f.name with
  | none => instantiateFunction f scope name
  | some own =>
    let inner ← innerScope scope
    modifyScope inner (·.declare own .functionName)
    let o ← instantiateFunction f inner own
    initialise inner own (.object o)
    return o

/-- Makes the object of a method or accessor of an object. -/
def createMethod (f : FunctionDef) (scope : ScopeRef) (home : ObjectRef) : Eval ObjectRef :=
  createFunction f scope (some home) none

/-! ### Scopes of calls -/

/-- Makes the object of the arguments of a call. -/
def createArguments (callee : ObjectRef) (args : List Value) (strict : Bool) :
    Eval ObjectRef := do
  let o ← newObject (some Intrinsic.objectPrototype) .arguments
  put o "length" (.hidden (.number (Number.ofInt args.length)))
  args.zipIdx.forM fun (value, i) => put o (.ofIndex i) (.plain value)
  if strict then
    let thrower := .object Intrinsic.throwTypeError
    put o "callee" (.accessor thrower thrower false false)
  else put o "callee" (.hidden (.object callee))
  return o

/-- The body can see an arguments object: no parameter, function or lexical declaration takes its
name. -/
def needsArguments (f : FunctionDef) : Bool :=
  !f.params.contains "arguments" &&
    !(Stmt.functionsOf f.body).any (·.name == some "arguments") &&
    !(Stmt.lexicalBindingsOf f.body).any (·.1 == "arguments")

/-- Binds the functions declared in a body to objects that see `inner`. -/
def declareFunctions (functions : List FunctionDef) (inner outer : ScopeRef) (kind : BindingKind) :
    Eval Unit :=
  functions.forM fun f => do
    let name := f.name.getD ""
    let o ← instantiateFunction f inner name
    modifyScope outer fun e => (e.declareNew name kind).initialise name (.object o)

/-- Fills the scope of a call with parameters, arguments, `var` names and functions, and makes the
scope inside it that has the lexical declarations of the body. -/
def instantiateBody (callee : ObjectRef) (f : FunctionDef) (scope : ScopeRef)
    (args : List Value) : Eval ScopeRef := do
  modifyScope scope (·.bindParameters f.params args)
  if needsArguments f then
    let o ← createArguments callee args f.strict
    let kind : BindingKind := if f.strict then .const else .var
    modifyScope scope fun e => (e.declare "arguments" kind).initialise "arguments" (.object o)
  modifyScope scope (·.declareVars f.varNames)
  let inner ← innerScope scope
  modifyScope inner (·.declareLexical (Stmt.lexicalBindingsOf f.body))
  declareFunctions (Stmt.functionsOf f.body) inner scope .var
  return inner

/-- Makes the bindings of a block: lexical declarations without values, and functions. -/
def declareBlock (body : List Stmt) (scope : ScopeRef) : Eval Unit := do
  modifyScope scope (·.declareLexical (Stmt.lexicalBindingsOf body))
  declareFunctions (Stmt.functionsOf body) scope scope .letVar

/-- The scope of a block inside another one; a block without declarations needs none. -/
def blockScope (body : List Stmt) (scope : ScopeRef) : Eval ScopeRef := do
  if (Stmt.functionsOf body).isEmpty && (Stmt.lexicalBindingsOf body).isEmpty then return scope
  let inner ← innerScope scope
  within (.block body) inner (declareBlock body inner)
  return inner

/-- The scope that the clauses of a `switch` statement share, inside another one. -/
def clausesScope (cases : List SwitchCase) (scope : ScopeRef) : Eval ScopeRef := do
  let inner ← innerScope scope
  within (.clauses cases) inner (cases.forM fun c => declareBlock c.body inner)
  return inner

end Eval

end Ecma
