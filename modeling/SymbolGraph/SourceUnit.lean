import SymbolGraph.Json.Reader
import SymbolGraph.Problem
import SymbolGraph.Text.Basic

/-!
# `SourceUnit` — the record of a set of files graphed together

The scanner writes such a record and the grapher reads it.  Every field has a
default, and members that are not fields are passed over.  A field is found
by its written name, or else by that name in lower case.
-/

namespace SymbolGraph

structure SourceUnit where
  name : String := "."
  type : String := "ObjectiveC"
  dir : String := "."
  files : List String := []
  dependencies : List Json := []
  data : List (String × Json) := []
  repo : Option String := none
  config : List (String × Json) := []

namespace SourceUnit

/-- The JSON of a record: a value may lie in 200 containers, and a number may
have as many digits before its point as an integer. -/
def dialect : Json.Dialect := { nesting := 200, accepts := Json.hasShortWhole }

/-- A member of a record and the name under which it was found. -/
def member? (members : List (String × Json)) (name : String) : Option (String × Json) :=
  match Dict.get? name members with
  | some value => some (name, value)
  | none => (Dict.get? (Text.lower name) members).map fun value => (Text.lower name, value)

/-- A field: its default if the record does not have it, else what `read` makes
of its value. -/
def field {α : Type} (members : List (String × Json)) (name : String) (standard : α)
    (read : String → Json → Checked α) : Checked α :=
  match member? members name with
  | none => .ok standard
  | some (found, value) => read found value

def readString (name : String) : Json → Checked String
  | .str s => .ok s
  | _ => .error [⟨.stringType, [.member name]⟩]

def readOptString (name : String) : Json → Checked (Option String)
  | .null => .ok none
  | .str s => .ok (some s)
  | _ => .error [⟨.stringType, [.member name]⟩]

def readStrings (name : String) : Json → Checked (List String)
  | .arr items => Checked.texts name items
  | _ => .error [⟨.listType, [.member name]⟩]

def readList (name : String) : Json → Checked (List Json)
  | .arr items => .ok items
  | _ => .error [⟨.listType, [.member name]⟩]

def readDict (name : String) : Json → Checked (List (String × Json))
  | .obj members => .ok members
  | _ => .error [⟨.dictType, [.member name]⟩]

/-- Reads the members of a record.  If some field is refused, the problems of
all fields are reported, in the order of the fields. -/
def ofMembers (members : List (String × Json)) : Except (List Problem) SourceUnit :=
  let standard : SourceUnit := {}
  let name := field members "Name" standard.name readString
  let type := field members "Type" standard.type readString
  let dir := field members "Dir" standard.dir readString
  let files := field members "Files" standard.files readStrings
  let dependencies := field members "Dependencies" standard.dependencies readList
  let data := field members "Data" standard.data readDict
  let repo := field members "Repo" standard.repo readOptString
  let config := field members "Config" standard.config readDict
  match name, type, dir, files, dependencies, data, repo, config with
  | .ok name, .ok type, .ok dir, .ok files, .ok dependencies, .ok data, .ok repo, .ok config =>
      .ok { name, type, dir, files, dependencies, data, repo, config }
  | _, _, _, _, _, _, _, _ =>
      .error (name.problems ++ type.problems ++ dir.problems ++ files.problems ++
        dependencies.problems ++ data.problems ++ repo.problems ++ config.problems)

/-- Reads a record from its text. -/
def ofText (text : String) : Except (List Problem) SourceUnit :=
  match Json.parse? dialect text with
  | none => .error [⟨.jsonInvalid, []⟩]
  | some (.obj members) => ofMembers members
  | some _ => .error [⟨.modelType, []⟩]

/-- The record; a unit of no repository does not name one. -/
def toJson (u : SourceUnit) : Json :=
  .obj ([("Name", .str u.name), ("Type", .str u.type), ("Dir", .str u.dir),
      ("Files", .strs u.files), ("Dependencies", .arr u.dependencies), ("Data", .obj u.data)] ++
    u.repo.toList.map (fun r => ("Repo", .str r)) ++ [("Config", .obj u.config)])

end SourceUnit

end SymbolGraph
