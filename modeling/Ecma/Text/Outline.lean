/-! Outlines: trees written one part a line, each level indented by four blanks. -/

namespace Ecma

/-- A tree of named parts. -/
inductive Outline where
  | atom (text : String)
  | list (items : List Outline)
  /-- A name with parts in order. -/
  | node (name : String) (items : List Outline)
  /-- A name with named parts. -/
  | record (name : String) (fields : List Outline)
  /-- A named part of a record. -/
  | field (name : String) (value : Outline)
deriving Inhabited

namespace Outline

/-- A part that may be absent. -/
def option : Option Outline → Outline
  | none => .atom "None"
  | some o => .node "Some" [o]

/-- A truth value. -/
def bool (b : Bool) : Outline :=
  .atom (if b then "true" else "false")

/-- The start of a line at a level. -/
def indent (level : Nat) : String :=
  String.ofList (List.replicate (4 * level) ' ')

mutual

/-- The text of a tree whose first line stands at a level. -/
def textAt (level : Nat) : Outline → String
  | .atom text => text
  | .list [] => "[]"
  | .list items => "[\n" ++ linesAt (level + 1) items ++ indent level ++ "]"
  | .node name items => name ++ "(\n" ++ linesAt (level + 1) items ++ indent level ++ ")"
  | .record name fields =>
    name ++ " \x7b\n" ++ linesAt (level + 1) fields ++ indent level ++ "\x7d"
  | .field name value => name ++ ": " ++ textAt level value

/-- The lines of parts at a level, each with a comma. -/
def linesAt (level : Nat) : List Outline → String
  | [] => ""
  | o :: rest => indent level ++ textAt level o ++ ",\n" ++ linesAt level rest

end

/-- The text of a tree. -/
def text (o : Outline) : String :=
  o.textAt 0

end Outline

end Ecma
