import SymbolGraph.Json.Basic
import SymbolGraph.Key

/-!
# `Entity` — definitions and references

A definition is a named entity with two byte spans, that of its identifier
and that of the whole construct.  A reference is one occurrence of a name,
tied to the key of what it names.  Spans include both ends.
-/

namespace SymbolGraph

/-- What a definition defines. -/
inductive Kind where
  | classType | interface | category | protocol | annotationType
  | enum | enumConstant
  | function | method | constructor
  | variable | field | parameter | package
  deriving Repr, DecidableEq, Inhabited

namespace Kind

/-- The name of a kind. -/
def name : Kind → String
  | .classType => "CLASS"
  | .interface => "INTERFACE"
  | .category => "CATEGORY"
  | .protocol => "PROTOCOL"
  | .annotationType => "ANNOTATION_TYPE"
  | .enum => "ENUM"
  | .enumConstant => "ENUM_CONSTANT"
  | .function => "FUNCTION"
  | .method => "METHOD"
  | .constructor => "CONSTRUCTOR"
  | .variable => "VARIABLE"
  | .field => "FIELD"
  | .parameter => "PARAMETER"
  | .package => "PACKAGE"

def all : List Kind :=
  [.classType, .interface, .category, .protocol, .annotationType, .enum, .enumConstant, .function,
    .method, .constructor, .variable, .field, .parameter, .package]

def ofName? (s : String) : Option Kind := all.find? (·.name == s)

/-- The coarse kind of the written graph. -/
def group : Kind → String
  | .classType | .category | .interface | .protocol | .enum | .annotationType => "type"
  | .method | .function | .constructor => "func"
  | .package => "package"
  | .enumConstant | .variable | .field | .parameter => "var"

/-- Kinds that are never local, whatever their visibility. -/
def isScoped : Kind → Bool
  | .variable | .parameter => false
  | _ => true

end Kind

/-- One occurrence of a name. -/
structure Reference where
  key : Key
  file : String
  start : Int
  stop : Int
  isDef : Bool := false
  /-- Where the symbol lives, if that is another repository or unit. -/
  repo : Option String := none
  unitType : Option String := none
  unit : Option String := none
  deriving Repr, DecidableEq, Inhabited

namespace Reference

def withTarget (r : Reference) (repo unitType unit : Option String) : Reference :=
  { r with repo, unitType, unit }

/-- Two references are one if all agree, their keys by path. -/
def same (a b : Reference) : Bool :=
  a.start == b.start && a.stop == b.stop && a.isDef == b.isDef && a.file == b.file &&
    a.repo == b.repo && a.unitType == b.unitType && a.unit == b.unit && a.key.same b.key

def text (r : Reference) : String :=
  "Ref\x7b" ++ r.key.path ++ " @" ++ r.file ++ ":" ++ toString r.start ++ "-" ++ toString r.stop
    ++ (if r.isDef then " DEF" else "") ++ "\x7d"

def toJson (r : Reference) : Json :=
  let optional := fun (name : String) (value : Option String) =>
    value.toList.map fun s => (name, Json.str s)
  .obj (optional "DefRepo" r.repo ++ optional "DefUnitType" r.unitType ++ optional "DefUnit" r.unit
    ++ [("DefPath", .str r.key.path), ("File", .str r.file), ("Start", .int r.start),
      ("End", .int r.stop), ("Def", .bool r.isDef)])

end Reference

/-- A named entity. -/
structure Definition where
  key : Key
  kind : Kind
  name : String
  file : String
  identStart : Int
  identStop : Int
  start : Int
  stop : Int
  modifiers : List String := []
  deriving Repr, DecidableEq, Inhabited

namespace Definition

def isExported (d : Definition) : Bool := d.modifiers.contains "public"

def isLocal (d : Definition) : Bool := !d.isExported && !d.kind.isScoped

/-- The reference at the definition's own identifier. -/
def selfReference (d : Definition) : Reference :=
  { key := d.key, file := d.file, start := d.identStart, stop := d.identStop, isDef := true }

def toJson (d : Definition) : Json :=
  .obj [("File", .str d.file), ("Name", .str d.name), ("DefStart", .int d.start),
    ("DefEnd", .int d.stop), ("Exported", .bool d.isExported), ("Local", .bool d.isLocal),
    ("Kind", .str d.kind.group), ("Path", .str d.key.path), ("TreePath", .str d.key.treePath)]

end Definition

end SymbolGraph
