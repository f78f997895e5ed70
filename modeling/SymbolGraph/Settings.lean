import SymbolGraph.Json.Reader
import SymbolGraph.Settings.Value

/-!
# `Settings` — what the environment decides

Variables are found whatever the case of their names; of two spellings the
later one counts.  The settings of the graph and those of the log are groups:
each has variables of its own,

    GRAPH_EXTENSIONS   GRAPH_TWO_PASS   GRAPH_MAX_FILE_SIZE_MB
    LOG_LEVEL          LOG_FORMAT

and one variable, `GRAPH` or `LOGGING`, may hold a JSON object with some of
its fields, named in any case, which then go before the variables.  The
extensions are JSON also in their own variable, a list or one text with
commas; the other variables are plain text.
-/

namespace SymbolGraph

open Number (Binary64)

/-- What is scanned for, and how it is graphed. -/
structure GraphSettings where
  extensions : List String := [".h", ".m", ".mm"]
  twoPass : Bool := false
  /-- The size of the largest file, in units of `2 ^ 20` bytes. -/
  maxFileSize : Binary64 := .finite false 10 0
  deriving Repr, DecidableEq

structure LogSettings where
  logLevel : String := "INFO"
  logFormat : String := "console"
  deriving Repr, DecidableEq

structure Settings extends GraphSettings, LogSettings where
  appName : String := "objc-grapher"
  appVersion : String := "0.1.0"
  environment : String := "development"
  deriving Repr, DecidableEq

/-- Why there are no settings. -/
inductive SettingsError where
  /-- A variable that has to be JSON is not. -/
  | unreadable (field : String)
  /-- A variable holds arrays or objects that lie too deep inside each other. -/
  | tooDeep (object : Bool)
  | invalid (problems : List Problem)
  deriving Repr, DecidableEq

def SettingsError.message : SettingsError → String
  | .unreadable field =>
      "error parsing value for field \"" ++ field ++ "\" from source \"EnvSettingsSource\""
  | .tooDeep object =>
      "maximum recursion depth exceeded while decoding a JSON " ++
        (if object then "object" else "array") ++ " from a unicode string"
  | .invalid problems => toString problems.length ++ " validation errors"

/-- Why a size is no whole number of bytes. -/
inductive LimitError where
  | infinite
  | notNumber
  deriving Repr, DecidableEq

def LimitError.message : LimitError → String
  | .infinite => "cannot convert float infinity to integer"
  | .notNumber => "cannot convert float NaN to integer"

/-- The variables of an environment. -/
abbrev Environment := List (String × String)

namespace Environment

/-- The value of a variable, its name given in lower case. -/
def get? (env : Environment) (name : String) : Option String :=
  (env.reverse.find? fun (k, _) => Text.lower k == name).map (·.2)

/-- The JSON that variables may hold. -/
def dialect : Json.Dialect :=
  { nesting := 970, accepts := Json.isShortIfInteger, loneHalves := true }

/-- The JSON value of a variable; `null` is as good as none. -/
def json? (env : Environment) (name : String) : Except Json.Fault (Option Json) :=
  match env.get? name with
  | none => .ok none
  | some text =>
      match Json.parse dialect text with
      | .ok .null => .ok none
      | .ok value => .ok (some value)
      | .error fault => .error fault

/-- The variable as the text of a field. -/
def textField (env : Environment) (variableName field : String) : List (String × Json) :=
  (env.get? variableName).toList.map fun text => (field, .str text)

end Environment

namespace Settings

/-! ## Groups -/

/-- A field of a group: its default if no member gives it. -/
def field {α : Type} (members : List (String × Json)) (name : String) (standard : α)
    (read : Json → Except Problem.Kind α) : Checked α :=
  match Dict.get? name members with
  | none => .ok standard
  | some value => (read value).mapError fun kind => [⟨kind, [.member name]⟩]

def extensionsField (members : List (String × Json)) (standard : List String) :
    Checked (List String) :=
  match Dict.get? "extensions" members with
  | none => .ok standard
  | some (.str s) => .ok (commaParts s)
  | some (.arr items) => Checked.texts "extensions" items
  | some _ => .error [⟨.listType, [.member "extensions"]⟩]

/-- The members of an object by the names of the fields, which are in lower case;
names of no field stay as they are. -/
def byField (fields : List String) (members : List (String × Json)) : Dict Json :=
  members.foldl (fun found (name, value) =>
    let field := if fields.contains (Text.lower name) then Text.lower name else name
    Dict.set field value found) []

/-- The members that are no fields. -/
def strangers (fields : List String) (members : List (String × Json)) : List Problem :=
  (members.filter fun (name, _) => !fields.contains name).map fun (name, _) =>
    ⟨.extraForbidden, [.member name]⟩

def graphFields : List String := ["extensions", "two_pass", "max_file_size_mb"]

def logFields : List String := ["level", "format"]

/-- The settings of the graph.  If some member is refused, all problems are
reported: those of the fields first, in the order of the fields. -/
def graphOfMembers (members : List (String × Json)) : Checked GraphSettings :=
  let standard : GraphSettings := {}
  let extensions := extensionsField members standard.extensions
  let twoPass := field members "two_pass" standard.twoPass readBool
  let maxFileSize := field members "max_file_size_mb" standard.maxFileSize readSize
  let strangers := strangers graphFields members
  match extensions, twoPass, maxFileSize, strangers with
  | .ok extensions, .ok twoPass, .ok maxFileSize, [] => .ok ⟨extensions, twoPass, maxFileSize⟩
  | _, _, _, _ =>
      .error (extensions.problems ++ twoPass.problems ++ maxFileSize.problems ++ strangers)

/-- The settings of the log. -/
def logOfMembers (members : List (String × Json)) : Checked LogSettings :=
  let standard : LogSettings := {}
  let level := field members "level" standard.logLevel readString
  let format := field members "format" standard.logFormat readString
  let strangers := strangers logFields members
  match level, format, strangers with
  | .ok level, .ok format, [] => .ok ⟨level, format⟩
  | _, _, _ => .error (level.problems ++ format.problems ++ strangers)

/-- The members that the variables of the graph give. -/
def graphMembers (env : Environment) : Except Json.Fault (List (String × Json)) :=
  (env.json? "graph_extensions").map fun extensions =>
    extensions.toList.map (("extensions", ·)) ++ env.textField "graph_two_pass" "two_pass" ++
      env.textField "graph_max_file_size_mb" "max_file_size_mb"

/-- The members that the variables of the log give. -/
def logMembers (env : Environment) : List (String × Json) :=
  env.textField "log_level" "level" ++ env.textField "log_format" "format"

/-- A variable that is no JSON, seen from the field it is for. -/
def unreadable (field : String) : Json.Fault → SettingsError
  | .malformed => .unreadable field
  | .tooDeep object => .tooDeep object

/-- The settings of the graph, given the object for the group.  Without an
object the variables stand alone, and what is wrong with them is final; with
one it is a problem of the group, reported among others. -/
def graph (env : Environment) : Option Json → Except SettingsError (Checked GraphSettings)
  | none =>
      match graphMembers env with
      | .error fault => .error (unreadable "extensions" fault)
      | .ok members =>
          match graphOfMembers members with
          | .ok settings => .ok (.ok settings)
          | .error problems => .error (.invalid problems)
  | some (.obj given) =>
      match graphMembers env with
      | .error (.tooDeep object) => .error (.tooDeep object)
      | .error .malformed => .ok (.error [⟨.valueError, [.member "graph"]⟩])
      | .ok members => .ok ((graphOfMembers (byField graphFields given ++ members)).within "graph")
  | some _ => .ok (.error [⟨.modelType, [.member "graph"]⟩])

/-- The settings of the log, given the object for the group. -/
def log (env : Environment) : Option Json → Checked LogSettings
  | none => logOfMembers (logMembers env)
  | some (.obj given) =>
      (logOfMembers (byField logFields given ++ logMembers env)).within "logging"
  | some _ => .error [⟨.modelType, [.member "logging"]⟩]

/-- The settings that an environment gives. -/
def ofEnvironment (env : Environment) : Except SettingsError Settings := do
  let graphObject ← (env.json? "graph").mapError (unreadable "graph")
  let logObject ← (env.json? "logging").mapError (unreadable "logging")
  let graph ← graph env graphObject
  match graph, log env logObject with
  | .ok graph, .ok log =>
      let standard : Settings := {}
      let plain := fun name value => (env.get? name).getD value
      return { graph, log with
        appName := plain "app_name" standard.appName
        appVersion := plain "app_version" standard.appVersion
        environment := plain "environment" standard.environment }
  | graph, log => throw (.invalid (graph.problems ++ log.problems))

/-! ## What follows from the settings -/

/-- The size of the largest file, in bytes. -/
def maxBytes (s : Settings) : Binary64 := s.maxFileSize.scale 20

/-- The size of the largest file in whole bytes. -/
def sizeLimit (s : Settings) : Except LimitError Nat :=
  match s.maxBytes with
  | .nan => .error .notNumber
  | .infinite _ => .error .infinite
  | x => .ok (x.floor?.getD 0)

def isDevelopment (s : Settings) : Bool :=
  ["development", "dev", "local"].contains (Text.lower s.environment)

end Settings

end SymbolGraph
