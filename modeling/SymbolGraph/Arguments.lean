import SymbolGraph.Text.Basic
import SymbolGraph.Text.Classes

/-!
# `Arguments` — the words of a command line

A command knows a few switches, some with a value.  A switch may be shortened
as long as it stays unique, its value follows it as the next word or after
`=`, and a word `--` says that no switch comes after it.  No command here has
arguments of another kind, so a word that belongs to no switch is wrong, and
`--` is one of those.  After `=`, however, `--` is a value that is struck out.
-/

namespace SymbolGraph

/-- A switch, with its dashes. -/
structure Switch where
  name : String
  hasValue : Bool
  deriving Repr, DecidableEq

/-- What a switch is given as its value. -/
inductive SwitchValue where
  | text (s : String)
  /-- The value is struck out: the switch has one, and there is nothing in it. -/
  | void
  deriving Repr, DecidableEq

/-- Why a command line runs no command. -/
inductive Usage where
  | help
  | wrong
  deriving Repr, DecidableEq

/-- What a word is, taken by itself. -/
inductive Word where
  /-- A value. -/
  | plain (text : String)
  /-- The first `--`. -/
  | divider
  | switch (s : Switch) (value : Option SwitchValue)
  | help
  /-- A switch that the command does not know: wrong, unless help is asked for. -/
  | unknown
  /-- A switch with a value that it does not have. -/
  | misused
  /-- The beginning of more than one switch. -/
  | ambiguous
  deriving Repr, DecidableEq

namespace Arguments

/-- The switch that every command has. -/
def helpSwitch : Switch := ⟨"--help", false⟩

/-- The text before the first `=`, and the one after it. -/
def cut (word : List Char) : List Char × Option (List Char) :=
  match word.dropWhile (· != '=') with
  | [] => (word, none)
  | _ :: value => (word.takeWhile (· != '='), some value)

/-- Digits of any script, at least one, and perhaps a line end behind them. -/
def isDigits (cs : List Char) : Bool :=
  match cs.dropWhile Text.isDecimalDigit with
  | [] => !cs.isEmpty
  | rest => rest == ['\n'] && cs != ['\n']

/-- A minus sign and a number: digits, or a point with digits after it. -/
def isNegativeNumber : List Char → Bool
  | '-' :: rest =>
      match rest.dropWhile Text.isDecimalDigit with
      | '.' :: fraction => isDigits fraction
      | _ => isDigits rest
  | _ => false

/-- A word that names no switch though it begins with a dash: a value if it is a
number or has a space. -/
def other (word : String) : Word :=
  if isNegativeNumber word.toList || word.toList.contains ' ' then .plain word else .unknown

/-- The value after `=`. -/
def valueOf (text : List Char) : SwitchValue :=
  if text = ['-', '-'] then .void else .text (String.ofList text)

/-- A switch that has been recognised. -/
def recognised (s : Switch) (value : Option (List Char)) : Word :=
  if !s.hasValue && value.isSome then .misused
  else if s = helpSwitch then .help
  else .switch s (value.map valueOf)

/-- What stands behind `-h`: nothing, or more of the same, perhaps after `=`. -/
def isMoreHelp : List Char → Bool
  | '=' :: rest => !rest.isEmpty && rest.all (· = 'h')
  | rest => rest.all (· = 'h')

/-- The word, before any `--`. -/
def classify (switches : List Switch) (word : String) : Word :=
  match word.toList with
  | '-' :: '-' :: _ =>
      let (name, value) := cut word.toList
      let known := helpSwitch :: switches
      match known.find? fun s => s.name = String.ofList name with
      | some s => recognised s value
      | none =>
          match known.filter fun s => Text.startsWith s.name (String.ofList name) with
          | [] => other word
          | [s] => recognised s value
          | _ => .ambiguous
  | '-' :: 'h' :: rest => if isMoreHelp rest then .help else .misused
  | '-' :: _ :: _ => other word
  | _ => .plain word

/-- All words; after the first `--` each is a value. -/
def classifyAll (switches : List Switch) : List String → List Word
  | [] => []
  | word :: rest =>
      if word = "--" then .divider :: rest.map .plain
      else classify switches word :: classifyAll switches rest

/-- The switches that were given, each with its value.  Words that belong to no
switch are found out at the end only, so help comes first if it is asked for. -/
def collect : (stray : Bool) → List Word → Except Usage (List (String × Option SwitchValue))
  | stray, [] => if stray then .error .wrong else .ok []
  | _, .help :: _ => .error .help
  | _, .misused :: _ | _, .ambiguous :: _ => .error .wrong
  | _, .plain _ :: rest | _, .divider :: rest | _, .unknown :: rest => collect true rest
  | stray, .switch s (some value) :: rest =>
      (collect stray rest).map ((s.name, some value) :: ·)
  | stray, .switch ⟨name, false⟩ none :: rest =>
      (collect stray rest).map ((name, none) :: ·)
  | stray, .switch ⟨name, true⟩ none :: .plain value :: rest =>
      (collect stray rest).map ((name, some (.text value)) :: ·)
  | _, .switch ⟨_, true⟩ none :: _ => .error .wrong

/-- The switches of a command line, each with its value. -/
def read (switches : List Switch) (words : List String) :
    Except Usage (List (String × Option SwitchValue)) :=
  let words := classifyAll switches words
  if words.contains .ambiguous then .error .wrong else collect false words

/-- The value of a switch; the last one counts. -/
def value? (given : List (String × Option SwitchValue)) (name : String) : Option SwitchValue :=
  (given.reverse.find? (·.1 = name)).bind (·.2)

/-- The switch was given. -/
def has (given : List (String × Option SwitchValue)) (name : String) : Bool :=
  given.any (·.1 = name)

end Arguments

end SymbolGraph
