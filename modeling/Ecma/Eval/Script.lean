import Ecma.Eval.Call

/-! Running scripts: their declarations become global bindings, then their statements run. -/

namespace Ecma

namespace Eval

/-! ### Checks -/

/-- Every lexical name of a script is new, and none of its other names is bound lexically. -/
def checkGlobalNames (p : Program) : Eval Unit := do
  (Stmt.lexicalNamesOf p.body).forM fun name => do
    let bound ← scopes fun s => (s.get Intrinsic.globalScope).has name
    let fixed ← heap fun h =>
      (h.getOwn? Intrinsic.globalObject name).any (!·.isConfigurable)
    if bound || fixed then raise (.redeclared name)
  (p.varNames ++ (Stmt.functionsOf p.body).filterMap FunctionDef.name).forM fun name => do
    if ← scopes fun s => (s.get Intrinsic.globalScope).has name then raise (.redeclared name)

/-- The functions of a script without those that a later one of the same name replaces. -/
def lastFunctions (functions : List FunctionDef) : List FunctionDef :=
  functions.foldr (fun f later => if later.any (·.name == f.name) then later else f :: later) []

/-- A global property may become a function. -/
def canDeclareFunction (name : String) (h : Heap) : Bool :=
  match h.getOwn? Intrinsic.globalObject name with
  | none => (h.get Intrinsic.globalObject).extensible
  | some p => p.isConfigurable || (p.isWritable && p.isEnumerable)

/-- A global property is there or may be made. -/
def canDeclareVar (name : String) (h : Heap) : Bool :=
  (h.getOwn? Intrinsic.globalObject name).isSome || (h.get Intrinsic.globalObject).extensible

/-! ### Effects -/

/-- The description of a global function; one that must keep its attributes takes the value. -/
def globalFunction (current : Option Property) (value : Value) : Descriptor :=
  if current.all Property.isConfigurable then .data value true true false
  else { value := some value }

end Eval

namespace Engine

open Eval (heap raise)

variable (eng : Engine)

/-- Makes a function a property of the global object. -/
def declareGlobalFunction (f : FunctionDef) : Eval Unit := do
  let name := f.name.getD ""
  let o ← Eval.instantiateFunction f Intrinsic.globalScope name
  let current ← heap (·.getOwn? Intrinsic.globalObject name)
  defineOrThrow Intrinsic.globalObject name (Eval.globalFunction current (.object o))
  eng.set Intrinsic.globalObject name (.object o) false

/-- Makes a variable a property of the global object, unless there is one. -/
def declareGlobalVar (name : String) : Eval Unit := do
  let make ← heap fun h =>
    !(h.get Intrinsic.globalObject).hasOwn name && (h.get Intrinsic.globalObject).extensible
  if make then
    defineOrThrow Intrinsic.globalObject name (.data .undefined true true false)

/-- Makes the global bindings of a script, after checking that all of them can be made. -/
def declareGlobals (p : Program) : Eval Unit := do
  Eval.checkGlobalNames p
  let functions := Eval.lastFunctions (Stmt.functionsOf p.body)
  functions.reverse.forM fun f => do
    let name := f.name.getD ""
    if !(← heap (Eval.canDeclareFunction name)) then raise (.globalFunction name)
  p.varNames.forM fun name => do
    if !(← heap (Eval.canDeclareVar name)) then raise (.globalVariable name)
  Eval.modifyScope Intrinsic.globalScope (·.declareLexical (Stmt.lexicalBindingsOf p.body))
  functions.forM eng.declareGlobalFunction
  p.varNames.forM declareGlobalVar

/-- Runs a script. -/
def runProgram (p : Program) : Eval Completion :=
  Eval.inContext ⟨p.strict, none⟩ <| Eval.atSite ⟨p, []⟩ do
    eng.declareGlobals p
    eng.runList Intrinsic.globalScope none p.body

/-- The value of a script; a script that ends otherwise than normally has none. -/
def runScript (p : Program) : Eval (Option Value) := do
  match ← eng.runProgram p with
  | .normal v => return some (v.getD .undefined)
  | _ => return none

/-- Reads and runs a script; a syntax error is thrown. -/
def runSource (source : String) : Eval (Option Value) := do
  match Program.parse source with
  | .ok p => eng.runScript p
  | .error e => raise (.parse e)

/-- The text of a value for a reader: errors by their own conversion, functions by their source,
strings in quotes. -/
def format : Value → Eval String
  | .primitive p => return p.quoted
  | .object o => do
    match ← heap fun h => (h.get o).kind with
    | .error =>
      Eval.catching (Units.text <$> eng.toUnits (.object o)) fun _ => return "[object Object]"
    | .function f => return f.sourceText
    | .builtin _ => return "function () \x7b [native code] \x7d"
    | _ => return "[object Object]"

end Engine

end Ecma
