import SymbolGraph.Action
import SymbolGraph.Scope
import SymbolGraph.Store
import SymbolGraph.Symbols

/-!
# `Walk` — performing the steps of one file

A walk has a state of its own (open scopes, parameters, the number of the
current block) and reads and writes the tables of the unit.  A name is
resolved by the first tier that knows it:

    the open scopes, innermost first
    the parameters of the method
    the members of the class
    the global variables (for its type), or the bare name (for its key)

`perform` is one step.  It RETURNS what it writes to the graph, in order; who
keeps that, or drops it, is the caller's business.  Inclusions are the
caller's too: here they do nothing.
-/

namespace SymbolGraph

/-- What a step writes to the graph, or the construct it leaves out. -/
inductive Emission where
  | definition (d : Definition)
  | reference (r : Reference)
  | skipped (reason : SkipReason) (start : Int)
  deriving Repr, DecidableEq

/-- The state of the walk of one file. -/
structure Walker where
  scopes : Scopes := .initial
  parameters : Dict (Option String) := []
  block : Nat := 0
  deriving Repr, DecidableEq, Inhabited

namespace Walker

/-- The type of a name: `none` if no tier knows the name, or the one that does
knows no type. -/
def typeOf (w : Walker) (t : Symbols) (c : Context) (name : String) : Option String :=
  match w.scopes.lookup name with
  | some b => b.type
  | none =>
      match w.parameters.get? name with
      | some type => type
      | none =>
          match t.member? c.className name with
          | some type => type
          | none => (t.globals.get? name).join

/-- The key of a name. -/
def resolve (w : Walker) (t : Symbols) (c : Context) (name : String) : Key :=
  match w.scopes.lookup name with
  | some b => b.key
  | none =>
      match w.parameters.get? name with
      | some _ => c.key name
      | none =>
          match c.className, t.member? c.className name with
          | some className, some _ => .member className name
          | _, _ => .global name

/-- A text that may be the name of a class: a letter, then letters and digits. -/
def isClassLike (s : String) : Bool :=
  match s.toList with
  | [] => false
  | c :: rest => c.isAlpha && rest.all Char.isAlphanum

/-- A name of some length. -/
def present (s : Option String) : Option String := s.filter (· ≠ "")

/-- The class of the first receiver that has a type; if none has, the last one
may itself be a class. -/
def classOf (w : Walker) (t : Symbols) (c : Context) : List String → Option String
  | [] => none
  | receiver :: inner =>
      if receiver = "self" ∨ receiver = "super" then c.className
      else match present (w.typeOf t c receiver) with
        | some type => some type
        | none =>
            if inner.isEmpty then (if isClassLike receiver then some receiver else none)
            else classOf w t c inner

end Walker

/-- A definition of a file, and its reference to itself. -/
def Emission.define (file : String) (ident owner : Excerpt) (kind : Kind) (key : Key)
    (name : String) (modifiers : List String) : List Emission :=
  let d : Definition :=
    { key, kind, name, file, identStart := ident.start, identStop := ident.stop,
      start := owner.start, stop := owner.stop, modifiers }
  [.definition d, .reference d.selfReference]

/-- An occurrence of a name in a file. -/
def Emission.refer (file : String) (occurrence : Excerpt) (key : Key) : Emission :=
  .reference { key, file, start := occurrence.start, stop := occurrence.stop }

/-- One step of the walk of a file. -/
def perform (file : String) (a : Action) (w : Walker) (t : Symbols) :
    Walker × Symbols × List Emission :=
  match a with
  | .openClass => ({ w with scopes := w.scopes.push }, t, [])
  | .openBlock => ({ w with scopes := w.scopes.push, block := w.block + 1 }, t, [])
  | .closeScope => ({ w with scopes := w.scopes.pop }, t, [])
  | .openRoutine => (⟨w.scopes.push, [], 0⟩, t, [])
  | .closeRoutine => ({ w with scopes := w.scopes.pop, parameters := [] }, t, [])
  | .registerClass name => (w, t.registerClass name, [])
  | .addType name => (w, t.addType name, [])
  | .addFunction name => (w, t.addFunction name, [])
  | .declareMethod path => (w, t.declareMethod path, [])
  | .setGlobal name type => (w, t.setGlobal name type, [])
  | .setMember className name type => (w, t.setMember className name type, [])
  | .setParameter name type => ({ w with parameters := w.parameters.set name type }, t, [])
  | .define ident owner kind key name modifiers =>
      (w, t, Emission.define file ident owner kind key name modifiers)
  | .refer occurrence key => (w, t, [.refer file occurrence key])
  | .declareLocal c ident owner kind type =>
      let key := (c.key ident.text).inBlock w.block
      ({ w with scopes := w.scopes.declare ⟨ident.text, type, key⟩ }, t,
        Emission.define file ident owner kind key ident.text [])
  | .implement anchor owner key name =>
      if key.path ∈ t.declaredMethods then (w, t, [.refer file anchor key])
      else (w, t, Emission.define file anchor owner .method key name [])
  | .read c occurrence => (w, t, [.refer file occurrence (w.resolve t c occurrence.text)])
  | .access c receiver member =>
      (w, t, (Walker.present (w.typeOf t c receiver)).toList.map fun owner =>
        .refer file member (.member owner member.text))
  | .send c receivers anchor selector =>
      (w, t, (Walker.present (w.classOf t c receivers)).toList.map fun owner =>
        .refer file anchor (.member owner selector))
  | .inclusion _ => (w, t, [])
  | .skip reason start => (w, t, [.skipped reason start])

/-- How much one walk has written and left out. -/
structure Counts where
  definitions : Nat := 0
  references : Nat := 0
  skipped : Nat := 0
  deriving Repr, DecidableEq, Inhabited

def Counts.add (n : Counts) : Emission → Counts
  | .definition _ => { n with definitions := n.definitions + 1 }
  | .reference _ => { n with references := n.references + 1 }
  | .skipped .. => { n with skipped := n.skipped + 1 }

end SymbolGraph
