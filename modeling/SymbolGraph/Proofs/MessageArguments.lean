import SymbolGraph.Proofs.Occurrence
import SymbolGraph.Proofs.SelectorName

/-!
# `Proofs.MessageArguments` — which arguments of a message are kept

The machine that reads a message closes the part that is open with the first named child
behind the colon.  A part may have more than one argument, as in `[f at:a, b]`, and those
behind a comma are read between two parts, where nothing but a colon counts: they are
passed over, or taken for the keyword of the part that follows.

    between ──keyword──▶ between ──:──▶ opened ──argument──▶ between ──, argument──▶ between

So a message keeps the first argument of each part and no other.
-/

namespace SymbolGraph

namespace Cst

/-! ## The parts of a message -/

def isComma (c : Cst) : Bool := c.head.type == "," && !c.head.named

/-- The node can stand behind a colon or a comma: it is no punctuation, and no node that
holds parts of a selector. -/
structure IsArgument (c : Cst) : Prop where
  named : c.head.named
  notColon : ¬ c.isColon
  notBracket : ¬ c.isBracket
  notWrapper : ¬ c.isWrapper

instance (c : Cst) : Decidable c.IsArgument :=
  decidable_of_iff (c.head.named ∧ ¬ c.isColon ∧ ¬ c.isBracket ∧ ¬ c.isWrapper)
    ⟨fun ⟨h, hcolon, hbracket, hwrapper⟩ => ⟨h, hcolon, hbracket, hwrapper⟩,
      fun h => ⟨h.named, h.notColon, h.notBracket, h.notWrapper⟩⟩

/-- One part of a message: a keyword, which may be left out, a colon, and arguments with
commas between them. -/
structure SentPart where
  keyword : Option Cst
  colon : Cst
  argument : Cst
  /-- The arguments after the first, each with the comma before it. -/
  further : List (Cst × Cst)
  keyword_isName : ∀ k ∈ keyword, k.head.isName
  colon_isColon : colon.isColon
  argument_isArgument : argument.IsArgument
  further_isArgument : ∀ p ∈ further, p.1.isComma ∧ p.2.IsArgument

namespace SentPart

/-- The children of the message that the part is made of. -/
def nodes (p : SentPart) : List Cst :=
  p.keyword.toList ++ p.colon :: p.argument :: p.further.flatMap fun x => [x.1, x.2]

def arguments (p : SentPart) : List Cst := p.argument :: p.further.map (·.2)

/-- Behind the first argument stand commas and arguments. -/
theorem not_isColon_of_mem_further (p : SentPart) {c : Cst}
    (hc : c ∈ p.further.flatMap fun x => [x.1, x.2]) : ¬ c.isColon ∧ ¬ c.isWrapper := by
  obtain ⟨x, hx, hmem⟩ := List.mem_flatMap.mp hc
  obtain ⟨hcomma, hargument⟩ := p.further_isArgument x hx
  rcases List.mem_cons.mp hmem with rfl | hmem
  · have htype : x.1.head.type = "," := by
      simp only [isComma, Bool.and_eq_true, beq_iff_eq] at hcomma
      exact hcomma.1
    simp [isColon, isWrapper, htype]
  · obtain rfl := List.mem_singleton.mp hmem
    exact ⟨hargument.notColon, hargument.notWrapper⟩

end SentPart

theorem not_isWrapper_of_isName {c : Cst} (hname : c.head.isName) : ¬ c.isWrapper := by
  rcases Head.type_of_isName hname with h | h | h <;> simp [isWrapper, h]

/-! ## From one part to the next -/

open Reading

variable (src : Octets)

/-- The machine stands between two parts, with these arguments behind it. -/
structure Between (s : MessageState) (arguments : List (Option Node)) : Prop where
  hasReceiver : s.hasReceiver
  current : s.current = none
  arguments : s.keywords.map (·.argument) = arguments

/-- The machine has read a colon and waits for what closes the part. -/
structure Opened (s : MessageState) (arguments : List (Option Node)) : Prop where
  hasReceiver : s.hasReceiver
  current : ∃ k, s.current = some k
  arguments : s.keywords.map (·.argument) = arguments

variable {s : MessageState} {arguments : List (Option Node)}

/-- Between two parts, nothing but a colon opens one. -/
theorem Between.read (h : Between s arguments) {c : Cst} (hcolon : ¬ c.isColon)
    (hwrapper : ¬ c.isWrapper) : Between (s.read src (c.reading src)) arguments := by
  have htype : ¬ (c.reading src).type == ":" := by simpa [Reading.type, isColon] using hcolon
  rw [read_behind s h.hasReceiver, if_neg hwrapper]
  split
  · exact h
  · rw [MessageState.step, if_neg htype, h.current]
    dsimp only
    split
    · exact ⟨h.hasReceiver, rfl, h.arguments⟩
    · exact h

theorem Between.readAll {cs : List Cst} (hcs : ∀ c ∈ cs, ¬ c.isColon ∧ ¬ c.isWrapper)
    (h : Between s arguments) : Between (s.readAll src (readings src cs)) arguments := by
  induction cs generalizing s with
  | nil => exact h
  | cons c cs ih =>
    obtain ⟨hcolon, hwrapper⟩ := hcs c List.mem_cons_self
    rw [readings, MessageState.readAll]
    exact ih (fun d hd => hcs d (List.mem_cons_of_mem _ hd)) (h.read src hcolon hwrapper)

theorem Between.read_colon (h : Between s arguments) {c : Cst} (hcolon : c.isColon) :
    Opened (s.read src (c.reading src)) arguments := by
  have htype : c.head.type = ":" := by simpa [isColon] using hcolon
  have hbracket : ¬ c.isBracket := by simp [isBracket, htype]
  have hwrapper : ¬ c.isWrapper := by simp [isWrapper, htype]
  rw [read_behind s h.hasReceiver, if_neg hbracket, if_neg hwrapper, MessageState.step,
    if_pos (by simp [Reading.type, htype])]
  exact ⟨h.hasReceiver, ⟨_, rfl⟩, h.arguments⟩

/-- The first argument closes the part. -/
theorem Opened.read_argument (h : Opened s arguments) {c : Cst} (hc : c.IsArgument) :
    Between (s.read src (c.reading src)) (arguments ++ [(c.reading src).node]) := by
  obtain ⟨k, hk⟩ := h.current
  have htype : ¬ (c.reading src).type == ":" := by
    simpa [Reading.type, isColon] using hc.notColon
  have hnamed : (c.reading src).head.named := by simpa using hc.named
  rw [read_behind s h.hasReceiver, if_neg hc.notBracket, if_neg hc.notWrapper, MessageState.step,
    if_neg htype, hk]
  dsimp only
  rw [if_pos hnamed]
  exact ⟨h.hasReceiver, rfl, by rw [List.map_append, h.arguments]; rfl⟩

/-- A whole part adds its first argument. -/
theorem Between.readAll_part (h : Between s arguments) (p : SentPart) :
    Between (s.readAll src (readings src p.nodes))
      (arguments ++ [(p.argument.reading src).node]) := by
  have hkeyword : Between (s.readAll src (readings src p.keyword.toList)) arguments := by
    refine h.readAll src fun c hc => ?_
    have hname := p.keyword_isName c (Option.mem_toList.mp hc)
    exact ⟨fun hcolon => not_isName_of_isColon hcolon hname, not_isWrapper_of_isName hname⟩
  have hfirst := (hkeyword.read_colon src p.colon_isColon).read_argument src p.argument_isArgument
  rw [readings_eq_map, SentPart.nodes, List.map_append, readAll_append, ← readings_eq_map,
    ← readings_eq_map, readings, readings, MessageState.readAll, MessageState.readAll]
  exact hfirst.readAll src fun c hc => p.not_isColon_of_mem_further hc

theorem Between.readAll_parts (h : Between s arguments) (parts : List SentPart) :
    Between (s.readAll src (readings src (parts.flatMap SentPart.nodes)))
      (arguments ++ parts.map fun p => (p.argument.reading src).node) := by
  induction parts generalizing s arguments with
  | nil =>
    rw [List.map_nil, List.append_nil]
    exact h
  | cons p parts ih =>
    rw [List.flatMap_cons, readings_eq_map, List.map_append, readAll_append, ← readings_eq_map,
      ← readings_eq_map, List.map_cons, List.append_cons]
    exact ih (h.readAll_part src p)

/-- The selector has the arguments that the machine has behind it. -/
theorem Between.arguments_selector? (h : Between s arguments) :
    (s.selector? src).toList.flatMap (fun m => m.keywords.map (·.argument)) = arguments := by
  have hall : s.allKeywords = s.keywords := by rw [MessageState.allKeywords, h.current]; simp
  rw [← h.arguments, MessageState.selector?, hall]
  cases s.keywords with
  | nil => cases s.pending <;> rfl
  | cons k ks => simp

end Cst

/-! ## What a message keeps -/

/-- Lists with something added to each are the lists themselves only if nothing is added. -/
theorem flatMap_append_eq_iff {α β : Type} (f g : α → List β) (xs : List α) :
    xs.flatMap f = xs.flatMap (fun x => f x ++ g x) ↔ ∀ x ∈ xs, g x = [] := by
  have hlength : (xs.flatMap fun x => f x ++ g x).length =
      (xs.flatMap f).length + (xs.flatMap g).length := by
    induction xs with
    | nil => rfl
    | cons x xs ih =>
      simp only [List.flatMap_cons, List.length_append, ih]
      omega
  constructor
  · intro heq
    have hnil : xs.flatMap g = [] := by
      rw [← List.length_eq_zero_iff]
      rw [← heq] at hlength
      omega
    exact List.flatMap_eq_nil_iff.mp hnil
  · intro hnone
    refine List.flatMap_congr fun x hx => ?_
    rw [hnone x hx, List.append_nil]

namespace Cst

open Reading

/-- A message keeps the first argument of each of its parts.  These are all its arguments
just if no argument behind a comma is a construct. -/
theorem arguments_of_message (src : Octets) {message receiver closing : Cst}
    {parts : List SentPart}
    (hmessage : message.Message receiver (parts.flatMap SentPart.nodes ++ [closing]))
    (hclosing : closing.isBracket) :
    ∃ selector, (message.reading src).node = some (.messageExpression
        (message.head.excerpt src) (receiver.reading src).node selector) ∧
      selector.toList.flatMap (fun m => m.keywords.map (·.argument)) =
        parts.map (fun p => (p.argument.reading src).node) ∧
      (selector.toList.flatMap MessageSelector.arguments =
          (parts.flatMap SentPart.arguments).filterMap (fun a => (a.reading src).node) ↔
        ∀ p ∈ parts, ∀ x ∈ p.further, (x.2.reading src).node = none) := by
  let start : MessageState := { receiver := (receiver.reading src).node, hasReceiver := true }
  let last := start.readAll src (readings src (parts.flatMap SentPart.nodes ++ [closing]))
  have hlast : Between last (parts.map fun p => (p.argument.reading src).node) := by
    have hstart : Between start [] := ⟨rfl, rfl, rfl⟩
    have hparts := hstart.readAll_parts src parts
    have hread : last = start.readAll src (readings src (parts.flatMap SentPart.nodes)) := by
      change start.readAll src (readings src (_ ++ _)) = _
      rw [readings_eq_map, List.map_append, readAll_append, ← readings_eq_map, ← readings_eq_map]
      exact readAll_brackets _ fun c hc => List.mem_singleton.mp hc ▸ hclosing
    rwa [hread]
  refine ⟨last.selector? src, node_behind hmessage, hlast.arguments_selector? src, ?_⟩
  -- Both sides go through the parts; the right one adds what stands behind the commas.
  have hkept : (last.selector? src).toList.flatMap MessageSelector.arguments =
      parts.flatMap fun p => (p.argument.reading src).node.toList := by
    have hflat := congrArg (List.flatMap Option.toList) (hlast.arguments_selector? src)
    rw [List.flatMap_assoc, List.flatMap_map] at hflat
    rw [← hflat]
    refine List.flatMap_congr fun m _ => ?_
    rw [List.flatMap_map]
    rfl
  have hall : (parts.flatMap SentPart.arguments).filterMap (fun a => (a.reading src).node) =
      parts.flatMap fun p => (p.argument.reading src).node.toList ++
        p.further.filterMap fun x => (x.2.reading src).node := by
    rw [List.filterMap_flatMap]
    refine List.flatMap_congr fun p _ => ?_
    rw [SentPart.arguments, List.filterMap_cons, List.filterMap_map]
    cases (p.argument.reading src).node <;> rfl
  rw [hkept, hall, flatMap_append_eq_iff]
  simp only [List.filterMap_eq_nil_iff]

/-! Two parts, the first with an argument behind a comma:

    [f g:a, b :c]

The name behind the comma is taken for the keyword of the second part. -/

def commaBytes : Octets := Text.Utf8.encode "[f g:a, b :c]"

def commaReceiver : Cst := leaf "identifier" 1 2 true

def commaParts : List SentPart :=
  [⟨some (leaf "identifier" 3 4 true), leaf ":" 4 5 false, leaf "identifier" 5 6 true,
      [(leaf "," 6 7 false, leaf "identifier" 8 9 true)], by decide, rfl, by decide, by decide⟩,
    ⟨none, leaf ":" 10 11 false, leaf "identifier" 11 12 true, [], nofun, rfl, by decide, nofun⟩]

def commaMessage : Cst :=
  branch "message_expression" 0 13
    (leaf "[" 0 1 false :: commaReceiver ::
      (commaParts.flatMap SentPart.nodes ++ [leaf "]" 12 13 false]))

theorem commaMessage_message : commaMessage.Message commaReceiver
    (commaParts.flatMap SentPart.nodes ++ [leaf "]" 12 13 false]) :=
  ⟨rfl, rfl, ⟨[leaf "[" 0 1 false], rfl, by decide⟩, rfl, by decide⟩

theorem arguments_of_message_comma :
    ∃ selector, (commaMessage.reading commaBytes).node = some (.messageExpression
        (commaMessage.head.excerpt commaBytes) (commaReceiver.reading commaBytes).node selector) ∧
      selector.toList.flatMap (fun m => m.keywords.map (·.argument)) =
        commaParts.map (fun p => (p.argument.reading commaBytes).node) ∧
      selector.toList.flatMap MessageSelector.arguments ≠
        (commaParts.flatMap SentPart.arguments).filterMap fun a => (a.reading commaBytes).node := by
  obtain ⟨selector, hnode, hfirst, hall⟩ :=
    arguments_of_message commaBytes commaMessage_message rfl
  refine ⟨selector, hnode, hfirst, fun heq => ?_⟩
  have hnone := hall.mp heq _ List.mem_cons_self _ List.mem_cons_self
  cases hnone

/-- An identifier behind a comma is a construct, and no argument of the message. -/
theorem argument_behind_comma_is_lost :
    commaMessage.Message commaReceiver
        (commaParts.flatMap SentPart.nodes ++ [leaf "]" 12 13 false]) ∧
      (commaParts.flatMap SentPart.arguments).map
          (fun a => (a.reading commaBytes).node.map (·.excerpt.text)) =
        [some "a", some "b", some "c"] ∧
      ∃ e receiver selector, (commaMessage.reading commaBytes).node =
          some (.messageExpression e receiver (some selector)) ∧
        selector.arguments.map (·.excerpt.text) = ["a", "c"] :=
  ⟨commaMessage_message, by decide +kernel, _, _, _, rfl, by decide +kernel⟩

end Cst

end SymbolGraph
