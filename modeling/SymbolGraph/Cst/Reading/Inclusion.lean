import SymbolGraph.Cst.Reading.Basic

/-!
# `Cst.Reading.Inclusion` — include directives

A directive is recognised by its bytes:

    W # W keyword W opener path closer ...

where `W` is any white space, the keyword is `import` or `include`, the opener
is `<` or `"`, the closer `>` or `"`, and the path is not empty and holds
neither closer.  Each part runs as far as it can, and the next one starts
with a byte that the part before cannot hold, so there is one way at most to
take a directive apart.
-/

namespace SymbolGraph

/-- A directive taken apart. -/
structure Directive where
  keyword : String
  system : Bool
  path : List UInt8
  deriving Repr, DecidableEq

namespace Directive

/-- White space inside a directive. -/
def isSpace (b : UInt8) : Bool := b == 32 || (9 ≤ b && b ≤ 13)

/-- The two bytes that may end a path: `>` and `"`. -/
def isCloser (b : UInt8) : Bool := b == 62 || b == 34

/-- The bytes of a text. -/
def bytes (s : String) : List UInt8 := (Text.Utf8.encode s).toList

/-- What follows a given start. -/
def after? : (start : List UInt8) → List UInt8 → Option (List UInt8)
  | [], rest => some rest
  | _ :: _, [] => none
  | b :: start, c :: rest => if b = c then after? start rest else none

/-- The keyword, and what follows it. -/
def keyword? (rest : List UInt8) : Option (String × List UInt8) :=
  match after? (bytes "import") rest with
  | some rest => some ("import", rest)
  | none => (after? (bytes "include") rest).map (("include", ·))

/-- The path up to its closer, and whether it is that of the system. -/
def path? : List UInt8 → Option (Bool × List UInt8)
  | [] => none
  | opener :: rest =>
      let path := rest.takeWhile (!isCloser ·)
      if (opener == 60 || opener == 34) && !path.isEmpty && path.length < rest.length then
        some (opener == 60, path)
      else none

/-- Takes a directive apart. -/
def ofBytes? (bytes : List UInt8) : Option Directive :=
  match bytes.dropWhile isSpace with
  | [] => none
  | b :: rest =>
      if b = 35 then
        match keyword? (rest.dropWhile isSpace) with
        | none => none
        | some (keyword, rest) =>
            (path? (rest.dropWhile isSpace)).map fun (system, path) => ⟨keyword, system, path⟩
      else none

end Directive

namespace Reading

/-- An include directive.  Where its bytes do not have the form, the field
`path` gives the path, with whatever marks stand around it. -/
def inclusion (src : Octets) (head : Head) (excerpt : Excerpt) (children : List Reading) : Node :=
  match Directive.ofBytes? (src.slice head.start head.stop) with
  | some d => .inclusion excerpt (Text.Utf8.decode d.path) d.system ("#" ++ d.keyword)
  | none =>
      match field? "path" children with
      | none => .generic excerpt head.type []
      | some path =>
          let raw := path.excerpt.text
          let start := src.slice head.start path.head.start
          let directive :=
            if Text.occursIn (Directive.bytes "include") start then "#include" else "#import"
          .inclusion excerpt (Text.trim (fun c => c == '<' || c == '>' || c == '"') raw)
            (Text.startsWith raw "<") directive

end Reading

end SymbolGraph
