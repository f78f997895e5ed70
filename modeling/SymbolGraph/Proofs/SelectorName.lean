import SymbolGraph.Proofs.ByteSpan

/-!
# `Proofs.SelectorName` — a method is declared and sent under one name

The selector of a method and that of a message are read by two machines, from children
of different shapes: the parts of a method may be nodes of their own or lie side by
side, those of a message may be wrapped any number of times.  Both are seen here as a
`Spelling`, a machine that keeps texts only:

    MethodState   ──spelling──▶  Spelling  ◀──spelling──  MessageState

`Declares` and `Sends` say which children spell which keywords.  From between two parts,
either machine comes through the next one to between two parts again, with one keyword
more; so the names agree, and with them the key that a declaration in a class and a
message to that class lead to.
-/

namespace SymbolGraph

/-! ## The keywords, and where they stand -/

/-- A selector as it is spelled: a name alone, or keywords, each of which may be left out. -/
inductive SelectorText where
  | lone (name : String)
  | keywords (first : Option String) (rest : List (Option String))

/-- The keywords, each with a colon after it. -/
def SelectorText.name : SelectorText → String
  | lone name => name ++ ":"
  | keywords first rest => String.join ((first :: rest).map fun k => k.getD "" ++ ":")

namespace Cst

def text (src : Octets) (c : Cst) : String := (c.head.excerpt src).text

def isColon (c : Cst) : Bool := c.head.type == ":"

/-- A node that holds one part of a method's selector. -/
def isPart (c : Cst) : Bool :=
  c.head.type == "method_parameter" || c.head.type == "keyword_declarator" ||
    c.head.type == "keyword_selector"

/-- The node is a part of a selector with this keyword, followed by a colon and a name. -/
structure Holds (part : Cst) (keyword : Option Cst) : Prop where
  isPart : part.isPart
  children : ∃ colon name, part.children.filter (fun c => c.head.isName || c.isColon) =
    keyword.toList ++ [colon, name] ∧ colon.isColon ∧ name.head.isName
  isName : ∀ k ∈ keyword, k.head.isName
  field : ∀ c ∈ part.children, c.head.field = some "keyword" → c ∈ keyword

/-- The children of a method that its selector is made of. -/
def declaredParts (method : Cst) : List Cst :=
  method.children.filter fun c => c.head.isName || c.isColon || c.isPart

/-- The nodes are the parts of a method's selector with these keywords, in any mix of
three shapes. -/
inductive Declares (src : Octets) : List Cst → List (Option String) → Prop
  | nil : Declares src [] []
  /-- A keyword, and a node with the rest. -/
  | before {keyword : Option Cst} {part : Cst} {rest : List Cst} {ks : List (Option String)} :
      (∀ k ∈ keyword, k.head.isName) → part.Holds none → Declares src rest ks →
      Declares src (keyword.toList ++ part :: rest) (keyword.map (text src) :: ks)
  /-- A node with all of it. -/
  | within {keyword : Option Cst} {part : Cst} {rest : List Cst} {ks : List (Option String)} :
      part.Holds keyword → Declares src rest ks →
      Declares src (part :: rest) (keyword.map (text src) :: ks)
  /-- Everything side by side. -/
  | flat {keyword : Option Cst} {colon name : Cst} {rest : List Cst}
      {ks : List (Option String)} :
      (∀ k ∈ keyword, k.head.isName) → colon.isColon → name.head.isName → Declares src rest ks →
      Declares src (keyword.toList ++ colon :: name :: rest) (keyword.map (text src) :: ks)

/-- The method has this selector. -/
def DeclaredAs (src : Octets) (method : Cst) : SelectorText → Prop
  | .lone name => ∃ c, method.declaredParts = [c] ∧ c.head.isName ∧ c.text src = name
  | .keywords first rest => Declares src method.declaredParts (first :: rest)

def isBracket (c : Cst) : Bool := c.head.type == "[" || c.head.type == "]"

/-- A node that only holds parts of a message's selector. -/
def isWrapper (c : Cst) : Bool :=
  c.head.type == "keyword_argument_list" || c.head.type == "keyword_argument"

mutual

/-- The node, or what the wrappers around it hold. -/
def unwrapped : Cst → List Cst
  | node head children =>
      if (node head children).isWrapper then unwrappedAll children else [node head children]

def unwrappedAll : List Cst → List Cst
  | [] => []
  | c :: rest => unwrapped c ++ unwrappedAll rest

end

/-- The nodes behind a receiver that the selector of a message is made of. -/
def sentParts (behind : List Cst) : List Cst :=
  (unwrappedAll behind).filter fun c =>
    !c.isBracket && (c.head.named || c.head.isName || c.isColon)

/-- The nodes are the parts of a message's selector with these keywords. -/
inductive Sends (src : Octets) : List Cst → List (Option String) → Prop
  | nil : Sends src [] []
  | part {keyword : Option Cst} {colon argument : Cst} {rest : List Cst}
      {ks : List (Option String)} :
      (∀ k ∈ keyword, k.head.isName ∧ k.head.named) → colon.isColon →
      argument.head.named → ¬ argument.isColon → ¬ argument.isBracket → Sends src rest ks →
      Sends src (keyword.toList ++ colon :: argument :: rest) (keyword.map (text src) :: ks)

/-- What stands behind the receiver of a message is this selector. -/
def SentAs (src : Octets) (behind : List Cst) : SelectorText → Prop
  | .lone name => ∃ c, sentParts behind = [c] ∧ c.head.isName ∧ c.head.named ∧ c.text src = name
  | .keywords first rest => Sends src (sentParts behind) (first :: rest)

/-- The children of a message, brackets before its receiver allowed. -/
structure Message (message receiver : Cst) (behind : List Cst) : Prop where
  type : message.head.type = "message_expression"
  named : message.head.named
  children : ∃ brackets, message.children = brackets ++ receiver :: behind ∧
    ∀ c ∈ brackets, c.isBracket
  receiver : receiver.head.named ∧ ¬ receiver.isBracket

end Cst

/-! ## Spelling -/

/-- What either machine remembers of the texts it has seen. -/
structure Spelling where
  pending : Option String := none
  current : Option (Option String) := none
  keywords : List (Option String) := []

namespace Spelling

/-- A name that waits for a colon, or fills the part that is open. -/
def addName (s : Spelling) (text : String) : Spelling :=
  match s.current with
  | some k => { s with current := none, keywords := s.keywords ++ [k] }
  | none => { s with pending := some text }

def addColon (s : Spelling) : Spelling :=
  { s with pending := none, current := some s.pending }

/-- A part that is a node of its own. -/
def addPart (s : Spelling) (own : Option String) : Spelling :=
  { s with pending := none, keywords := s.keywords ++ [own.or s.pending] }

/-- An expression fills the part that is open. -/
def addArgument (s : Spelling) : Spelling :=
  match s.current with
  | some k => { s with current := none, keywords := s.keywords ++ [k] }
  | none => s

/-- Between two parts: nothing waits and nothing is open. -/
def between (keywords : List (Option String)) : Spelling := ⟨none, none, keywords⟩

end Spelling

/-- What is remembered at the end of a selector. -/
def SelectorText.spelling : SelectorText → Spelling
  | lone name => ⟨some name, none, []⟩
  | keywords first rest => .between (first :: rest)

/-! ## The machine for methods -/

theorem Head.type_of_isName {h : Head} (hname : h.isName) :
    h.type = "identifier" ∨ h.type = "type_identifier" ∨ h.type = "field_identifier" := by
  simpa [Head.isName, nameTypes] using hname

namespace Reading

open Spelling (between)

variable {src : Octets}

/-- The machine for methods, as far as texts go. -/
def MethodState.spelling (s : MethodState) : Spelling where
  pending := s.pending.map (·.text)
  current := s.current.map fun k => k.keyword.map (·.text)
  keywords := s.keywords.map fun k => k.keyword.map (·.text)

theorem MethodState.spelling_step_name {s : MethodState} {r : Reading} (hname : r.head.isName) :
    (s.step src r).spelling = s.spelling.addName r.excerpt.text := by
  have htype := Head.type_of_isName hname
  cases hcurrent : s.current <;> rcases htype with h | h | h <;>
    simp [MethodState.step, MethodState.spelling, Spelling.addName, Reading.type, hname,
      hcurrent, h]

theorem MethodState.spelling_step_colon {s : MethodState} {r : Reading} (hcolon : r.type = ":") :
    (s.step src r).spelling = s.spelling.addColon := by
  simp [MethodState.step, MethodState.spelling, Spelling.addColon, hcolon]

/-- The text of the keyword that a part holds itself. -/
def ownKeyword (children : List Reading) : Option Excerpt :=
  (keywordNames (fieldExcerpt? "keyword" children) (fieldExcerpt? "name" children) false children).1

theorem MethodState.spelling_step_part {s : MethodState} {r : Reading}
    (hpart : r.type = "method_parameter" ∨ r.type = "keyword_declarator" ∨
      r.type = "keyword_selector") :
    (s.step src r).spelling = s.spelling.addPart ((ownKeyword r.children).map (·.text)) := by
  have hkeyword : (keywordDeclarator src s.pending r).keyword =
      (ownKeyword r.children).or s.pending := rfl
  have hor : ∀ a b : Option Excerpt,
      (a.or b).map (·.text) = (a.map (·.text)).or (b.map (·.text)) := by
    intro a b
    cases a <;> rfl
  rcases hpart with h | h | h <;>
    simp [MethodState.step, MethodState.spelling, Spelling.addPart, hkeyword, hor, h]

/-- Nothing else in a method's header changes the spelling. -/
theorem MethodState.spelling_step_other {s : MethodState} {r : Reading} (hname : ¬ r.head.isName)
    (hcolon : r.type ≠ ":") (hpart : ¬ (r.type = "method_parameter" ∨
      r.type = "keyword_declarator" ∨ r.type = "keyword_selector")) :
    (s.step src r).spelling = s.spelling := by
  simp only [not_or] at hpart
  unfold MethodState.step
  split
  · rfl
  split
  · rfl
  rw [if_neg (by simp [hpart]), if_neg (by simpa using hcolon)]
  split
  case h_1 k hcurrent =>
    split
    · simp [MethodState.spelling, hcurrent]
    · rfl
  case h_2 => rfl

/-- The name of the selector that is read follows from its spelling. -/
theorem MethodState.name_selector? {s : MethodState} {selector : SelectorText}
    (h : s.spelling = selector.spelling) :
    ∃ found, s.finish.selector? src = some found ∧ found.name = selector.name := by
  obtain ⟨returnType, body, pending, current, keywords, first, last⟩ := s
  cases selector with
  | lone name =>
    simp only [MethodState.spelling, SelectorText.spelling, Spelling.mk.injEq,
      Option.map_eq_some_iff, Option.map_eq_none_iff, List.map_eq_nil_iff] at h
    obtain ⟨⟨e, rfl, rfl⟩, rfl, rfl⟩ := h
    exact ⟨_, rfl, rfl⟩
  | keywords first rest =>
    simp only [MethodState.spelling, SelectorText.spelling, Spelling.between, Spelling.mk.injEq,
      Option.map_eq_none_iff, List.map_eq_cons_iff] at h
    obtain ⟨rfl, rfl, k, ks, rfl, rfl, rfl⟩ := h
    exact ⟨⟨_, none, k :: ks⟩, rfl,
      by simp [Selector.name, SelectorText.name, Function.comp_def]⟩

/-- Only names and colons count in a part. -/
theorem keywordNames_filter (children : List Reading) (keyword name : Option Excerpt)
    (afterColon : Bool) :
    keywordNames keyword name afterColon children = keywordNames keyword name afterColon
      (children.filter fun r => r.head.isName || r.type == ":") := by
  induction children generalizing keyword name afterColon with
  | nil => rfl
  | cons r rest ih =>
    by_cases hheard : r.head.isName || r.type == ":"
    · rw [List.filter_cons_of_pos (by simpa using hheard)]
      simp only [keywordNames, ← ih]
    · rw [List.filter_cons_of_neg (by simpa using hheard), ← ih]
      simp only [Bool.or_eq_true, not_or] at hheard
      rw [keywordNames, if_neg hheard.2, if_neg hheard.1]

theorem type_ne_colon_of_isName {r : Reading} (hname : r.head.isName) : r.type ≠ ":" := by
  rcases Head.type_of_isName hname with h | h | h <;> simp [Reading.type, h]

/-- The name before the colon is the keyword, unless one was given. -/
theorem keywordNames_split {keyword : Option Reading} {colon name : Reading}
    {given named : Option Excerpt} (hkeyword : ∀ k ∈ keyword, k.head.isName)
    (hcolon : colon.type = ":") (hname : name.head.isName) :
    (keywordNames given named false (keyword.toList ++ [colon, name])).1 =
      given.or (keyword.map (·.excerpt)) := by
  have hafter : ∀ given, (keywordNames given named false [colon, name]).1 = given := by
    intro given
    cases named <;> simp [keywordNames, hcolon, hname, type_ne_colon_of_isName hname]
  cases keyword with
  | none => simp [hafter]
  | some k =>
    have hk := hkeyword k rfl
    rw [Option.toList_some, List.singleton_append, keywordNames,
      if_neg (by simpa using type_ne_colon_of_isName hk), if_pos hk]
    cases given with
    | none => exact hafter _
    | some e => exact hafter _

end Reading

namespace Cst

open Reading Spelling

variable {src : Octets}

/-- The keyword that a part holds. -/
theorem ownKeyword_of_holds {part : Cst} {keyword : Option Cst} (h : part.Holds keyword) :
    ownKeyword (part.reading src).children = keyword.map (·.head.excerpt src) := by
  obtain ⟨colon, name, hchildren, hcolon, hname⟩ := h.children
  have hfilter : (part.reading src).children.filter
      (fun r => r.head.isName || r.type == ":") =
        (keyword.toList ++ [colon, name]).map (reading src) := by
    rw [← hchildren, children_reading, List.filter_map]
    congr 1
    refine List.filter_congr fun c _ => ?_
    simp [Reading.type, Cst.isColon]
  have hfield : ∀ e, fieldExcerpt? "keyword" (part.reading src).children = some e →
      ∃ k ∈ keyword, k.head.excerpt src = e := by
    intro e he
    obtain ⟨r, hr, rfl⟩ := Option.map_eq_some_iff.mp he
    have hmem := List.mem_of_find?_eq_some hr
    have hkeyword := List.find?_some hr
    rw [children_reading] at hmem
    obtain ⟨c, hc, rfl⟩ := List.mem_map.mp hmem
    exact ⟨c, h.field c hc (by simpa using hkeyword), (excerpt_reading src c).symm⟩
  have hsplit : ownKeyword (part.reading src).children =
      (fieldExcerpt? "keyword" (part.reading src).children).or
        (keyword.map (·.head.excerpt src)) := by
    rw [ownKeyword, keywordNames_filter, hfilter, List.map_append, ← Option.toList_map,
      List.map_cons, List.map_cons, List.map_nil, keywordNames_split]
    · rw [Option.map_map]
      congr 2
      funext c
      exact excerpt_reading src c
    · intro k hk
      obtain ⟨c, hc, rfl⟩ := Option.map_eq_some_iff.mp hk
      simpa using h.isName c hc
    · simpa [Reading.type, Cst.isColon] using hcolon
    · simpa using hname
  rw [hsplit]
  cases hgiven : fieldExcerpt? "keyword" (part.reading src).children with
  | none => rfl
  | some e =>
    obtain ⟨k, hk, rfl⟩ := hfield e hgiven
    rw [Option.mem_def.mp hk]
    rfl

/-- What a child of a method says. -/
def declare (src : Octets) (s : Spelling) (c : Cst) : Spelling :=
  if c.head.isName then s.addName (c.text src)
  else if c.isColon then s.addColon
  else if c.isPart then s.addPart ((ownKeyword (c.reading src).children).map (·.text))
  else s

theorem spelling_step (s : MethodState) (c : Cst) :
    (s.step src (c.reading src)).spelling = declare src s.spelling c := by
  have htype : (c.reading src).type = c.head.type := by simp [Reading.type]
  unfold declare
  by_cases hname : c.head.isName
  · rw [if_pos hname, MethodState.spelling_step_name (by simpa using hname), excerpt_reading]
    rfl
  rw [if_neg hname]
  by_cases hcolon : c.isColon
  · rw [if_pos hcolon, MethodState.spelling_step_colon (by simpa [htype, isColon] using hcolon)]
  rw [if_neg hcolon]
  by_cases hpart : c.isPart
  · rw [if_pos hpart,
      MethodState.spelling_step_part (by simpa [htype, isPart, or_assoc] using hpart)]
  · rw [if_neg hpart]
    exact MethodState.spelling_step_other (by simpa using hname)
      (by simpa [htype, isColon] using hcolon) (by simpa [htype, isPart, or_assoc] using hpart)

/-- The spelling of a whole header. -/
theorem spelling_foldl (s : MethodState) (children : List Cst) :
    ((children.map (reading src)).foldl (MethodState.step src) s).spelling =
      children.foldl (declare src) s.spelling := by
  induction children generalizing s with
  | nil => rfl
  | cons c rest ih => rw [List.map_cons, List.foldl_cons, ih, spelling_step, List.foldl_cons]

theorem foldl_declare_declaredParts (s : Spelling) (method : Cst) :
    method.declaredParts.foldl (declare src) s = method.children.foldl (declare src) s := by
  rw [declaredParts, List.foldl_filter]
  congr 1
  funext s c
  split
  · rfl
  case isFalse h =>
    simp only [Bool.or_eq_true, not_or] at h
    rw [declare, if_neg h.1.1, if_neg h.1.2, if_neg h.2]

theorem not_isName_of_isColon {c : Cst} (hcolon : c.isColon) : ¬ c.head.isName := by
  intro hname
  rw [isColon, beq_iff_eq] at hcolon
  rcases Head.type_of_isName hname with h | h | h <;> simp [hcolon] at h

theorem declare_name {c : Cst} (hname : c.head.isName) (s : Spelling) :
    declare src s c = s.addName (c.text src) := if_pos hname

theorem declare_colon {c : Cst} (hcolon : c.isColon) (s : Spelling) :
    declare src s c = s.addColon := by
  rw [declare, if_neg (not_isName_of_isColon hcolon), if_pos hcolon]

/-- A keyword that may be left out. -/
theorem foldl_declare_keyword {keyword : Option Cst} (hkeyword : ∀ k ∈ keyword, k.head.isName)
    (before : List (Option String)) :
    keyword.toList.foldl (declare src) (between before) =
      ⟨keyword.map (text src), none, before⟩ := by
  cases keyword with
  | none => rfl
  | some k => simp [declare_name (hkeyword k rfl), between, Spelling.addName]

theorem declare_holds {part : Cst} {keyword : Option Cst} (h : part.Holds keyword) (s : Spelling) :
    declare src s part = s.addPart (keyword.map (text src)) := by
  have hpart := h.isPart
  rw [declare, if_neg, if_neg, if_pos hpart, ownKeyword_of_holds h, Option.map_map]
  · rfl
  all_goals
    simp only [isPart, Bool.or_eq_true, beq_iff_eq] at hpart
    rcases hpart with (h | h) | h <;> simp [isColon, Head.isName, nameTypes, h]

/-- The parts of a selector spell its keywords. -/
theorem foldl_declare {parts : List Cst} {ks : List (Option String)} (h : Declares src parts ks)
    (before : List (Option String)) :
    parts.foldl (declare src) (between before) = between (before ++ ks) := by
  induction h generalizing before with
  | nil => rw [List.append_nil]; rfl
  | before hkeyword hpart _ ih =>
    rw [List.foldl_append, foldl_declare_keyword hkeyword, List.foldl_cons, declare_holds hpart]
    exact (ih _).trans (by rw [List.append_assoc]; rfl)
  | within hpart _ ih =>
    rw [List.foldl_cons, declare_holds hpart]
    refine Eq.trans ?_ ((ih (before ++ [_])).trans (by rw [List.append_assoc]; rfl))
    simp [between, Spelling.addPart]
  | flat hkeyword hcolon hname _ ih =>
    rw [List.foldl_append, foldl_declare_keyword hkeyword, List.foldl_cons, List.foldl_cons,
      declare_colon hcolon, declare_name hname]
    exact (ih _).trans (by rw [List.append_assoc]; rfl)

theorem foldl_declare_declaredAs {method : Cst} {selector : SelectorText}
    (h : method.DeclaredAs src selector) :
    method.declaredParts.foldl (declare src) (between []) = selector.spelling := by
  cases selector with
  | lone name =>
    obtain ⟨c, hparts, hname, rfl⟩ := h
    rw [hparts, List.foldl_cons, List.foldl_nil, declare_name hname]
    rfl
  | keywords first rest => exact foldl_declare h []

/-- The selector of a method has the name that it is declared as. -/
theorem name_declared {method : Cst} {selector : SelectorText}
    (h : method.DeclaredAs src selector) :
    ∃ s, (methodState src (method.reading src).children).selector? src = some s ∧
      s.name = selector.name := by
  refine MethodState.name_selector? ?_
  rw [children_reading, spelling_foldl, ← foldl_declare_declaredAs h, foldl_declare_declaredParts]
  rfl

/-! ## The machine for messages -/

end Cst

namespace Reading

variable {src : Octets}

/-- The machine for messages, as far as texts go. -/
def MessageState.spelling (s : MessageState) : Spelling where
  pending := s.pending.map (·.text)
  current := s.current.map fun k => k.keyword.map (·.text)
  keywords := s.keywords.map fun k => k.keyword.map (·.text)

/-- The name of the selector that is read follows from its spelling. -/
theorem MessageState.name_selector? {s : MessageState} {selector : SelectorText}
    (h : s.spelling = selector.spelling) :
    ∃ found, s.selector? src = some found ∧ found.name = selector.name := by
  obtain ⟨hasReceiver, receiver, pending, current, keywords⟩ := s
  cases selector with
  | lone name =>
    simp only [MessageState.spelling, SelectorText.spelling, Spelling.mk.injEq,
      Option.map_eq_some_iff, Option.map_eq_none_iff, List.map_eq_nil_iff] at h
    obtain ⟨⟨e, rfl, rfl⟩, rfl, rfl⟩ := h
    exact ⟨_, rfl, rfl⟩
  | keywords first rest =>
    simp only [MessageState.spelling, SelectorText.spelling, Spelling.between, Spelling.mk.injEq,
      Option.map_eq_none_iff, List.map_eq_cons_iff] at h
    obtain ⟨rfl, rfl, k, ks, rfl, rfl, rfl⟩ := h
    refine ⟨⟨_, none, k :: ks⟩, by simp [MessageState.selector?, MessageState.allKeywords]; rfl, ?_⟩
    simp [MessageSelector.name, SelectorText.name, Function.comp_def]

end Reading

namespace Cst

open Reading Spelling

variable {src : Octets}

/-- What a child behind the receiver of a message says. -/
def send (src : Octets) (s : Spelling) (c : Cst) : Spelling :=
  if c.isBracket then s
  else if c.isColon then s.addColon
  else if c.head.named then
    if c.head.isName then s.addName (c.text src) else s.addArgument
  else if c.head.isName then { s with pending := some (c.text src) }
  else s

/-- A child behind the receiver, neither a bracket nor a wrapper. -/
theorem spelling_messageStep (s : MessageState) {c : Cst} (hbracket : ¬ c.isBracket) :
    (s.step src (c.reading src)).spelling = send src s.spelling c := by
  have htype : (c.reading src).type = c.head.type := by simp [Reading.type]
  rw [send, if_neg hbracket]
  by_cases hcolon : c.isColon
  · have hcolon' : c.head.type = ":" := by simpa [isColon] using hcolon
    simp [MessageState.step, MessageState.spelling, Spelling.addColon, htype, hcolon, hcolon']
  have hcolon' : c.head.type ≠ ":" := by simpa [isColon] using hcolon
  rw [if_neg hcolon, MessageState.step, if_neg (by simpa [htype] using hcolon'), head_reading,
    excerpt_reading]
  cases hcurrent : s.current <;> by_cases hnamed : c.head.named <;>
    by_cases hname : c.head.isName <;>
    simp [MessageState.spelling, Spelling.addName, Spelling.addArgument, text, hcurrent, hnamed,
      hname]

theorem receiver_messageStep (src : Octets) (s : MessageState) (r : Reading) :
    (s.step src r).hasReceiver = s.hasReceiver ∧ (s.step src r).receiver = s.receiver := by
  unfold MessageState.step
  repeat' split
  all_goals exact ⟨rfl, rfl⟩

/-- Behind the receiver, brackets are passed over and wrappers opened. -/
theorem read_behind (s : MessageState) (hreceiver : s.hasReceiver) (c : Cst) :
    s.read src (c.reading src) =
      if c.isBracket then s
      else if c.isWrapper then s.readAll src (readings src c.children)
      else s.step src (c.reading src) := by
  cases c with
  | node head children =>
    simp only [reading, Reading.make, MessageState.read, hreceiver]
    rfl

mutual

/-- A child behind the receiver says what the nodes in its wrappers say, and leaves the
receiver as it is. -/
theorem spelling_read (src : Octets) (s : MessageState) (hreceiver : s.hasReceiver) : ∀ c : Cst,
    (s.read src (c.reading src)).spelling = (unwrapped c).foldl (send src) s.spelling ∧
      (s.read src (c.reading src)).hasReceiver ∧
      (s.read src (c.reading src)).receiver = s.receiver
  | node head children => by
      rw [read_behind s hreceiver, unwrapped]
      by_cases hbracket : (node head children).isBracket
      · have hwrapper : ¬ (node head children).isWrapper := by
          simp only [isBracket, Bool.or_eq_true, beq_iff_eq] at hbracket
          rcases hbracket with h | h <;> simp [isWrapper, h]
        rw [if_pos hbracket, if_neg hwrapper, List.foldl_cons, List.foldl_nil, send,
          if_pos hbracket]
        exact ⟨rfl, hreceiver, rfl⟩
      rw [if_neg hbracket]
      by_cases hwrapper : (node head children).isWrapper
      · rw [if_pos hwrapper, if_pos hwrapper]
        exact spelling_readAll src s hreceiver children
      · obtain ⟨hkept, hsame⟩ := receiver_messageStep src s ((node head children).reading src)
        rw [if_neg hwrapper, if_neg hwrapper, spelling_messageStep s hbracket, hkept, hsame]
        exact ⟨rfl, hreceiver, rfl⟩

theorem spelling_readAll (src : Octets) (s : MessageState) (hreceiver : s.hasReceiver) :
    ∀ cs : List Cst,
      (s.readAll src (readings src cs)).spelling =
        (unwrappedAll cs).foldl (send src) s.spelling ∧
      (s.readAll src (readings src cs)).hasReceiver ∧
      (s.readAll src (readings src cs)).receiver = s.receiver
  | [] => ⟨rfl, hreceiver, rfl⟩
  | c :: rest => by
      obtain ⟨hfirst, hreceiver, hsame⟩ := spelling_read src s hreceiver c
      rw [readings, MessageState.readAll, unwrappedAll, List.foldl_append, ← hfirst, ← hsame]
      exact spelling_readAll src _ hreceiver rest

end

theorem foldl_send_sentParts (s : Spelling) (behind : List Cst) :
    (sentParts behind).foldl (send src) s = (unwrappedAll behind).foldl (send src) s := by
  rw [sentParts, List.foldl_filter]
  congr 1
  funext s c
  split
  · rfl
  case isFalse h =>
    rw [send]
    grind

theorem send_name {c : Cst} (hname : c.head.isName) (hnamed : c.head.named) (s : Spelling) :
    send src s c = s.addName (c.text src) := by
  have hbracket : ¬ c.isBracket := by
    rcases Head.type_of_isName hname with h | h | h <;> simp [isBracket, h]
  have hcolon : ¬ c.isColon := fun hcolon => not_isName_of_isColon hcolon hname
  rw [send, if_neg hbracket, if_neg hcolon, if_pos hnamed, if_pos hname]

theorem send_colon {c : Cst} (hcolon : c.isColon) (s : Spelling) : send src s c = s.addColon := by
  have hbracket : ¬ c.isBracket := by
    rw [isColon, beq_iff_eq] at hcolon
    simp [isBracket, hcolon]
  rw [send, if_neg hbracket, if_pos hcolon]

/-- An argument fills the part that is open. -/
theorem send_argument {c : Cst} (hnamed : c.head.named) (hcolon : ¬ c.isColon)
    (hbracket : ¬ c.isBracket) (k : Option String) (ks : List (Option String)) :
    send src ⟨none, some k, ks⟩ c = between (ks ++ [k]) := by
  rw [send, if_neg hbracket, if_neg hcolon, if_pos hnamed]
  split <;> rfl

/-- The parts of a selector spell its keywords. -/
theorem foldl_send {parts : List Cst} {ks : List (Option String)} (h : Sends src parts ks)
    (before : List (Option String)) :
    parts.foldl (send src) (between before) = between (before ++ ks) := by
  induction h generalizing before with
  | nil => rw [List.append_nil]; rfl
  | @part keyword colon argument rest ks hkeyword hcolon hnamed hnot hbracket _ ih =>
    have hpending : keyword.toList.foldl (send src) (between before) =
        ⟨keyword.map (text src), none, before⟩ := by
      cases keyword with
      | none => rfl
      | some k => simp [send_name (hkeyword k rfl).1 (hkeyword k rfl).2, between, Spelling.addName]
    rw [List.foldl_append, hpending, List.foldl_cons, List.foldl_cons, send_colon hcolon]
    rw [Spelling.addColon, send_argument hnamed hnot hbracket, ih, List.append_assoc]
    rfl

theorem foldl_send_sentAs {behind : List Cst} {selector : SelectorText}
    (h : SentAs src behind selector) :
    (unwrappedAll behind).foldl (send src) (between []) = selector.spelling := by
  rw [← foldl_send_sentParts]
  cases selector with
  | lone name =>
    obtain ⟨c, hparts, hname, hnamed, rfl⟩ := h
    rw [hparts, List.foldl_cons, List.foldl_nil, send_name hname hnamed]
    rfl
  | keywords first rest => exact foldl_send h []

theorem readAll_append (s : MessageState) (a b : List Reading) :
    s.readAll src (a ++ b) = (s.readAll src a).readAll src b := by
  induction a generalizing s with
  | nil => rfl
  | cons r a ih =>
    rw [List.cons_append, MessageState.readAll, ih, MessageState.readAll]

theorem readAll_brackets (s : MessageState) {brackets : List Cst}
    (h : ∀ c ∈ brackets, c.isBracket) : s.readAll src (readings src brackets) = s := by
  induction brackets with
  | nil => rfl
  | cons c rest ih =>
    have hread : s.read src (c.reading src) = s := by
      have hbracket := h c List.mem_cons_self
      cases c with
      | node head children =>
        simp only [reading, Reading.make, MessageState.read]
        exact if_pos hbracket
    rw [readings, MessageState.readAll, hread]
    exact ih fun c hc => h c (List.mem_cons_of_mem _ hc)

/-- A named node that can hold names is a construct. -/
theorem node_reading {c : Cst} (hnamed : c.head.named) (htype : c.head.type ∉ skippedTypes) :
    (c.reading src).node = some (construct src c.head (c.head.excerpt src) (c.reading src).names
      (c.reading src).specifiers (c.reading src).children) := by
  cases c with
  | node head children =>
    refine if_neg ?_
    simpa [hnamed] using ⟨hnamed, htype⟩

section Construct

variable {head : Head} {excerpt : Excerpt} {names : List Excerpt} {specifiers : List Specifier}
  {children : List Reading}

theorem construct_methodDeclaration (htype : head.type = "method_declaration") :
    construct src head excerpt names specifiers children =
      .methodDeclaration excerpt (hasType "+" children) (methodState src children).returnType
        ((methodState src children).selector? src) := by
  simp [construct, htype]

theorem construct_methodDefinition (htype : head.type = "method_definition") :
    construct src head excerpt names specifiers children =
      .methodDefinition excerpt (hasType "+" children) (methodState src children).returnType
        ((methodState src children).selector? src)
        ((methodState src children).body.bind (·.node)) := by
  simp [construct, htype]

theorem construct_message (htype : head.type = "message_expression") :
    construct src head excerpt names specifiers children = message src excerpt children := by
  simp [construct, htype]

end Construct

/-- A message is read as one to its receiver, with the selector that stands behind it. -/
theorem node_behind {message receiver : Cst} {behind : List Cst}
    (hmessage : message.Message receiver behind) :
    (message.reading src).node = some (.messageExpression (message.head.excerpt src)
      (receiver.reading src).node ((MessageState.readAll src
        { receiver := (receiver.reading src).node, hasReceiver := true }
        (readings src behind)).selector? src)) := by
  obtain ⟨brackets, hchildren, hbrackets⟩ := hmessage.children
  let start : MessageState := { receiver := (receiver.reading src).node, hasReceiver := true }
  have hstart : MessageState.read src {} (receiver.reading src) = start := by
    obtain ⟨hnamed, hbracket⟩ := hmessage.receiver
    cases receiver with
    | node head children =>
      simp only [reading, Reading.make, MessageState.read]
      exact (if_neg hbracket).trans (if_pos hnamed)
  have hreadAll : MessageState.readAll src {} (readings src message.children) =
      start.readAll src (readings src behind) := by
    rw [hchildren, readings_eq_map, List.map_append, readAll_append, ← readings_eq_map,
      readAll_brackets _ hbrackets, List.map_cons, MessageState.readAll, hstart, readings_eq_map]
  obtain ⟨-, -, hsame⟩ := spelling_readAll src start rfl behind
  rw [node_reading hmessage.named (by rw [hmessage.type]; decide), construct_message hmessage.type,
    Reading.message, children_reading, ← readings_eq_map, hreadAll, hsame]

/-- A message is read with the name that it is sent as. -/
theorem node_message {message receiver : Cst} {behind : List Cst} {selector : SelectorText}
    (hmessage : message.Message receiver behind) (h : SentAs src behind selector) :
    ∃ s, (message.reading src).node =
        some (.messageExpression (message.head.excerpt src) (receiver.reading src).node (some s)) ∧
      s.name = selector.name := by
  let start : MessageState := { receiver := (receiver.reading src).node, hasReceiver := true }
  obtain ⟨hspelling, -, -⟩ := spelling_readAll src start rfl behind
  obtain ⟨s, hs, hname⟩ : ∃ s, (start.readAll src (readings src behind)).selector? src = some s ∧
      s.name = selector.name :=
    MessageState.name_selector? (hspelling.trans (foldl_send_sentAs h))
  refine ⟨s, ?_, hname⟩
  rw [node_behind hmessage, hs]

end Cst

/-! ## One name, one key -/

/-- The name of the selector of a method or message. -/
def Node.selectorName? : Node → Option String
  | .methodDeclaration _ _ _ s | .methodDefinition _ _ _ s _ => s.map Selector.name
  | .messageExpression _ _ s => s.map MessageSelector.name
  | _ => none

namespace Cst

open Reading

variable {src : Octets}

/-- A method is read with the name that it is declared as.  In a class one of its steps
defines it under that name, or, if the method was declared before, refers to it. -/
theorem node_method {method : Cst} {selector : SelectorText} (hnamed : method.head.named)
    (htype : method.head.type = "method_declaration" ∨ method.head.type = "method_definition")
    (h : method.DeclaredAs src selector) :
    ∃ n, (method.reading src).node = some n ∧ n.selectorName? = some selector.name ∧
      ∀ (c : Context) (className : String), c.className = some className →
        ∃ a ∈ n.actions c, ∃ ident owner, ∀ file w t,
          (perform file a w t).2.2 = Emission.define file ident owner .method
              (.member className selector.name) selector.name [] ∨
            (Key.member className selector.name).path ∈ t.declaredMethods ∧
              (perform file a w t).2.2 = [.refer file ident (.member className selector.name)] := by
  obtain ⟨s, hs, hname⟩ := name_declared h
  rw [← hname]
  rcases htype with htype | htype
  · rw [node_reading hnamed (by rw [htype]; decide), construct_methodDeclaration htype, hs]
    refine ⟨_, rfl, rfl, fun c className hclass => ?_⟩
    rw [Node.actions_methodDeclaration hclass]
    exact ⟨_, List.mem_cons_of_mem _ List.mem_cons_self, s.anchor, method.head.excerpt src,
      fun file w t => .inl rfl⟩
  · rw [node_reading hnamed (by rw [htype]; decide), construct_methodDefinition htype, hs]
    refine ⟨_, rfl, rfl, fun c className hclass => ?_⟩
    rw [Node.actions_methodDefinition hclass]
    refine ⟨_, List.mem_cons_self, s.anchor, method.head.excerpt src, fun file w t => ?_⟩
    by_cases hbefore : (Key.member className s.name).path ∈ t.declaredMethods
    · exact .inr ⟨hbefore, by rw [perform, if_pos hbefore]⟩
    · exact .inl (by rw [perform, if_neg hbefore])

/-- A method and a message that spell the same keywords have the same selector, and the
message to an object of a class leads to the key of the method in that class. -/
theorem declared_and_sent_alike {method message receiver : Cst} {behind : List Cst}
    {selector : SelectorText} (hnamed : method.head.named)
    (htype : method.head.type = "method_declaration" ∨ method.head.type = "method_definition")
    (hdeclared : method.DeclaredAs src selector)
    (hmessage : message.Message receiver behind) (hsent : SentAs src behind selector) :
    ∃ declared sent, (method.reading src).node = some declared ∧
      (message.reading src).node = some sent ∧
      declared.selectorName? = some selector.name ∧ sent.selectorName? = some selector.name ∧
      ∀ (c d : Context) (className : String), c.className = some className → className ≠ "" →
        (∃ a ∈ declared.actions c, ∃ ident owner, ∀ file w t,
          (perform file a w t).2.2 = Emission.define file ident owner .method
              (.member className selector.name) selector.name [] ∨
            (Key.member className selector.name).path ∈ t.declaredMethods ∧
              (perform file a w t).2.2 = [.refer file ident (.member className selector.name)]) ∧
        ∀ r, (receiver.reading src).node = some r →
          ∃ a ∈ sent.actions d, ∃ ident, ∀ file w t,
            w.classOf t d r.receivers = some className →
              (perform file a w t).2.2 = [.refer file ident (.member className selector.name)] := by
  obtain ⟨declared, hdeclaredNode, hdeclaredName, hdefined⟩ := node_method hnamed htype hdeclared
  obtain ⟨s, hsentNode, hname⟩ := node_message hmessage hsent
  refine ⟨declared, _, hdeclaredNode, hsentNode, hdeclaredName, congrArg some hname, ?_⟩
  intro c d className hclass hne
  refine ⟨hdefined c className hclass, fun r hr => ?_⟩
  refine ⟨.send d r.receivers s.anchor s.name, ?_, s.anchor, fun file w t htarget => ?_⟩
  · rw [hr, Node.actions]
    exact List.mem_append_left _ (List.mem_append_left _ List.mem_cons_self)
  · simp [perform, htarget, Walker.present, hne, hname]

/-! A method with a keyword left out, its parts in two shapes, and a message in wrappers:

    -add:a:b [self add:p:q]
-/

def addBytes : Octets := Text.Utf8.encode "-add:a:b [self add:p:q]"

def addPart : Cst :=
  branch "method_parameter" 4 6 [leaf ":" 4 5 false, leaf "identifier" 5 6 true]

def addMethod : Cst :=
  branch "method_declaration" 0 8
    [leaf "-" 0 1 false, leaf "identifier" 1 4 true, addPart, leaf ":" 6 7 false,
      leaf "identifier" 7 8 true]

def addReceiver : Cst := leaf "identifier" 10 14 true

def addArguments : List Cst :=
  [branch "keyword_argument_list" 15 22
    [branch "keyword_argument" 15 20
      [leaf "identifier" 15 18 true, leaf ":" 18 19 false, leaf "identifier" 19 20 true],
      leaf ":" 20 21 false, leaf "identifier" 21 22 true],
    leaf "]" 22 23 false]

def addMessage : Cst :=
  branch "message_expression" 9 23 (leaf "[" 9 10 false :: addReceiver :: addArguments)

theorem declared_and_sent_alike_add :
    addMethod.DeclaredAs addBytes (.keywords (some "add") [none]) ∧
    SentAs addBytes addArguments (.keywords (some "add") [none]) ∧
    ∃ declared sent, (addMethod.reading addBytes).node = some declared ∧
      (addMessage.reading addBytes).node = some sent ∧
      declared.selectorName? = some "add::" ∧ sent.selectorName? = some "add::" ∧
      ∃ a ∈ sent.actions ⟨some "A", none⟩, ∃ ident, ∀ file w t,
        (perform file a w t).2.2 = [.refer file ident (.member "A" "add::")] := by
  have hdeclared : addMethod.DeclaredAs addBytes (.keywords (some "add") [none]) := by
    have htext : (leaf "identifier" 1 4 true).text addBytes = "add" := by decide +kernel
    have hpart : addPart.Holds none :=
      ⟨rfl, ⟨leaf ":" 4 5 false, leaf "identifier" 5 6 true, rfl, rfl, rfl⟩, nofun,
        by simp [addPart, branch, leaf, children, Cst.head]⟩
    have hsecond : Declares addBytes [leaf ":" 6 7 false, leaf "identifier" 7 8 true] [none] :=
      @Declares.flat _ none _ _ _ _ nofun rfl rfl .nil
    rw [DeclaredAs, ← htext]
    exact @Declares.before _ (some _) _ _ _ (by decide) hpart hsecond
  have hsent : SentAs addBytes addArguments (.keywords (some "add") [none]) := by
    have htext : (leaf "identifier" 15 18 true).text addBytes = "add" := by decide +kernel
    have hsecond : Sends addBytes [leaf ":" 20 21 false, leaf "identifier" 21 22 true] [none] :=
      @Sends.part _ none _ _ _ _ nofun rfl rfl (by decide) (by decide) .nil
    rw [SentAs, ← htext]
    exact @Sends.part _ (some _) _ _ _ _ (by decide) rfl rfl (by decide) (by decide) hsecond
  have hmessage : addMessage.Message addReceiver addArguments :=
    ⟨rfl, rfl, ⟨[leaf "[" 9 10 false], rfl, by decide⟩, rfl, by decide⟩
  obtain ⟨declared, sent, hdeclaredNode, hsentNode, hdeclaredName, hsentName, hkeys⟩ :=
    declared_and_sent_alike rfl (.inl rfl) hdeclared hmessage hsent
  have hself : addReceiver.text addBytes = "self" := by decide +kernel
  obtain ⟨a, ha, ident, hemits⟩ :=
    (hkeys ⟨some "A", none⟩ ⟨some "A", none⟩ "A" rfl (by decide)).2 _ rfl
  refine ⟨hdeclared, hsent, declared, sent, hdeclaredNode, hsentNode, hdeclaredName, hsentName,
    a, ha, ident, fun file w t => hemits file w t ?_⟩
  exact if_pos (.inl hself)

end Cst

end SymbolGraph
