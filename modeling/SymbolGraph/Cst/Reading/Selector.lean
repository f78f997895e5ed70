import SymbolGraph.Cst.Reading.Declarator

/-!
# `Cst.Reading.Selector` — selectors of methods and messages

The parts of a selector come in several shapes: a keyword followed by a node
that holds the rest, a node that holds all, or everything side by side.  Two
small machines read the children from left to right.  Both remember the last
name seen (`pending`), which a colon turns into the keyword of the part that
then stays open (`current`) until its own name or argument comes.
-/

namespace SymbolGraph.Reading

/-! ## Methods -/

/-- The state of reading a method's header. -/
structure MethodState where
  returnType : Option TypeName := none
  body : Option Reading := none
  pending : Option Excerpt := none
  current : Option KeywordDeclarator := none
  /-- The keywords so far. -/
  keywords : List KeywordDeclarator := []
  /-- The first byte of the selector. -/
  first : Option Int := none
  /-- Its last byte. -/
  last : Int := 0

/-- The keyword and the name that the children of a part give: names before
the colon and after it. -/
def keywordNames (keyword name : Option Excerpt) (afterColon : Bool) :
    List Reading → Option Excerpt × Option Excerpt
  | [] => (keyword, name)
  | c :: rest =>
      if c.type == ":" then keywordNames keyword name true rest
      else if c.head.isName then
        if !afterColon && keyword.isNone then keywordNames (some c.excerpt) name afterColon rest
        else if afterColon && name.isNone then
          keywordNames keyword (some c.excerpt) afterColon rest
        else keywordNames keyword name afterColon rest
      else keywordNames keyword name afterColon rest

/-- A part of a selector that is a node of its own. -/
def keywordDeclarator (src : Octets) (pending : Option Excerpt) (r : Reading) :
    KeywordDeclarator :=
  let (own, name) := keywordNames (fieldExcerpt? "keyword" r.children)
    (fieldExcerpt? "name" r.children) false r.children
  let keyword := own.or pending
  let typeName := ((r.children.filter (·.type == "method_type")).getLast?).map Reading.typeName
  let start := (keyword.map (·.start)).getD r.head.start
  { excerpt := ⟨src.text start r.head.stop, start, max start (r.head.stop - 1)⟩
    keyword, typeName, name }

/-- One child of a method. -/
def MethodState.step (src : Octets) (s : MethodState) (r : Reading) : MethodState :=
  if r.type == "compound_statement" then { s with body := some r }
  else if r.type == "method_type" && s.pending.isNone && s.current.isNone && s.keywords.isEmpty then
    { s with returnType := some r.typeName }
  else if r.type == "method_parameter" || r.type == "keyword_declarator" ||
      r.type == "keyword_selector" then
    let k := keywordDeclarator src s.pending r
    { s with
      pending := none
      keywords := s.keywords ++ [k]
      first := s.first.or (some k.excerpt.start)
      last := k.excerpt.stop }
  else if r.type == ":" then
    let start := (s.pending.map (·.start)).getD r.head.start
    { s with
      pending := none
      current := some ⟨⟨"", start, r.head.start⟩, s.pending, none, none⟩
      first := s.first.or (some start) }
  else match s.current with
    | some k =>
        if r.type == "method_type" then { s with current := some { k with typeName := r.typeName } }
        else if r.head.isName then
          let excerpt := ⟨src.text k.excerpt.start (r.excerpt.stop + 1), k.excerpt.start,
            r.excerpt.stop⟩
          { s with
            current := none
            keywords := s.keywords ++ [{ k with excerpt, name := r.excerpt }]
            last := r.excerpt.stop }
        else s
    | none => if r.head.isName then { s with pending := some r.excerpt } else s

/-- A part that is still open at the end is a part without a name. -/
def MethodState.finish (s : MethodState) : MethodState :=
  match s.current with
  | none => s
  | some k =>
      { s with current := none, keywords := s.keywords ++ [k], last := k.excerpt.stop }

/-- The selector that has been read. -/
def MethodState.selector? (src : Octets) (s : MethodState) : Option Selector :=
  match s.keywords with
  | [] => s.pending.map fun p => ⟨p, some p, []⟩
  | keywords =>
      let start := s.first.getD 0
      some ⟨⟨src.text start (s.last + 1), start, s.last⟩, none, keywords⟩

/-- The header and body of a method. -/
def methodState (src : Octets) (children : List Reading) : MethodState :=
  (children.foldl (MethodState.step src) {}).finish

/-! ## Messages -/

/-- The state of reading a message. -/
structure MessageState where
  hasReceiver : Bool := false
  receiver : Option Node := none
  pending : Option Excerpt := none
  current : Option KeywordArgument := none
  keywords : List KeywordArgument := []

/-- One child of a message that is neither a bracket nor a wrapper. -/
def MessageState.step (src : Octets) (s : MessageState) (r : Reading) : MessageState :=
  if r.type == ":" then
    let start := (s.pending.map (·.start)).getD r.head.start
    { s with pending := none, current := some ⟨⟨"", start, r.head.start⟩, s.pending, none⟩ }
  else match s.current with
    | some k =>
        if r.head.named then
          let start := k.excerpt.start
          let excerpt := ⟨src.text start r.head.stop, start, max start (r.head.stop - 1)⟩
          { s with
            current := none
            keywords := s.keywords ++ [{ k with excerpt, argument := r.node }] }
        else if r.head.isName then { s with pending := some r.excerpt }
        else s
    | none => if r.head.isName then { s with pending := some r.excerpt } else s

/-- Nodes that hold parts of a selector. -/
def isWrapper (r : Reading) : Bool :=
  r.type == "keyword_argument_list" || r.type == "keyword_argument"

mutual

/-- One child: brackets are passed over, the first named child is the
receiver, and wrappers are opened. -/
def MessageState.read (src : Octets) (s : MessageState) : Reading → MessageState
  | ⟨head, excerpt, node, names, specifiers, declarator, children⟩ =>
      let r : Reading := ⟨head, excerpt, node, names, specifiers, declarator, children⟩
      if head.type == "[" || head.type == "]" then s
      else if !s.hasReceiver && head.named then { s with receiver := node, hasReceiver := true }
      else if isWrapper r then MessageState.readAll src s children
      else s.step src r

def MessageState.readAll (src : Octets) (s : MessageState) : List Reading → MessageState
  | [] => s
  | r :: rest => MessageState.readAll src (MessageState.read src s r) rest

end

/-- All keywords, one that is still open included. -/
def MessageState.allKeywords (s : MessageState) : List KeywordArgument :=
  s.keywords ++ s.current.toList

/-- The selector that has been read. -/
def MessageState.selector? (src : Octets) (s : MessageState) : Option MessageSelector :=
  match s.allKeywords with
  | [] => s.pending.map fun p => ⟨p, some p, []⟩
  | k :: rest =>
      let start := k.excerpt.start
      let stop := ((k :: rest).getLastD k).excerpt.stop
      some ⟨⟨src.text start (stop + 1), start, stop⟩, none, k :: rest⟩

/-- A message and its receiver. -/
def message (src : Octets) (excerpt : Excerpt) (children : List Reading) : Node :=
  let s := MessageState.readAll src {} children
  .messageExpression excerpt s.receiver (s.selector? src)

end SymbolGraph.Reading
