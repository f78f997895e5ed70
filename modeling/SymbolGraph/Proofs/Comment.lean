import SymbolGraph.Proofs.SelectorName
import SymbolGraph.Proofs.Trimmed

/-!
# `Proofs.Comment` — where a comment changes what a source means

A remark is a comment that fills no field and holds no error.  Taking all remarks out of
a tree never changes its issues.  It does not change the tree of declarations either,
unless some remark stands where children are read by their number or position:

    in the header of a container, before one of its names or marks
    in front of the receiver or of an argument of a message
    in front of the declarator in parentheses
    among the parts of a sized or predefined type, or of a property's attributes
    beside a visibility that has a line of instance variables for itself

or holds names itself.  `unobtrusive` says that no remark does.
-/

namespace SymbolGraph

namespace Cst

/-- A comment between other nodes. -/
def isRemark (c : Cst) : Bool :=
  c.head.type == "comment" && c.head.named && c.head.field.isNone && !c.hasError

mutual

/-- The tree without the remarks below its root. -/
def withoutRemarks : Cst → Cst
  | node head children => node head (withoutRemarksAll children)

def withoutRemarksAll : List Cst → List Cst
  | [] => []
  | c :: rest => if c.isRemark then withoutRemarksAll rest
      else withoutRemarks c :: withoutRemarksAll rest

end

/-! ## Remarks that stand in the way -/

mutual

/-- A name stands at or below the node, punctuation left out. -/
def hasName : Cst → Bool
  | node head children => head.isName || anyHasName children

def anyHasName : List Cst → Bool
  | [] => false
  | c :: rest => c.head.named && hasName c || anyHasName rest

end

/-- The child is read as part of a container's header. -/
def isHeading (c : Cst) : Bool :=
  c.head.type == "(" || c.head.type == ")" || c.isColon || c.head.isName ||
    c.head.type == "superclass_reference"

/-- Behind a remark in the header of a container stands nothing of the header. -/
def clearHeader : List Cst → Bool
  | [] => true
  | c :: rest =>
      if c.isRemark then rest.all (!·.isHeading)
      else if c.isHeading || c.head.isProtocolList then clearHeader rest
      else c.head.type == "instance_variables" || c.head.named || clearHeader rest

/-- The protocol is only declared ahead, and has no header. -/
def isForward (children : List Cst) : Bool :=
  children.any (·.head.type == ";") && !children.any (·.head.type == "@end")

/-- Where in a message a child stands. -/
structure MessagePlace where
  /-- The receiver has been read. -/
  received : Bool := false
  /-- A colon waits for its argument. -/
  waiting : Bool := false

mutual

/-- The place behind a child of a message, unless a remark is taken for a receiver or an
argument. -/
def clearMessage (p : MessagePlace) : Cst → Option MessagePlace
  | node head children =>
      let c := node head children
      if c.isBracket then some p
      else if c.isRemark then if p.received && !p.waiting then some p else none
      else if !p.received && head.named then some { p with received := true }
      else if c.isWrapper then clearMessageAll p children
      else if c.isColon then some { p with waiting := true }
      else if head.named then some { p with waiting := false }
      else some p

def clearMessageAll (p : MessagePlace) : List Cst → Option MessagePlace
  | [] => some p
  | c :: rest =>
      match clearMessage p c with
      | none => none
      | some p => clearMessageAll p rest

end

def noRemarks (children : List Cst) : Bool := children.all (!·.isRemark)

/-- A line of instance variables that writes a visibility and nothing else has no remark. -/
def clearLine (line : Cst) : Bool :=
  let kept := line.children.filter fun c => c.head.named && !c.isRemark
  !(kept.length == 1 && kept.all (·.head.type == "visibility_specification")) ||
    noRemarks line.children

/-- No remark among the children changes what the node is read as. -/
def clear (head : Head) (children : List Cst) : Bool :=
  match head.type with
  | "class_interface" | "category_interface" | "class_implementation"
  | "category_implementation" => clearHeader children
  | "protocol_declaration" => isForward children || clearHeader children
  | "instance_variables" => children.all fun c => !c.head.isIvar || c.clearLine
  | "message_expression" => (clearMessageAll {} children).isSome
  | "parenthesized_declarator" => ((children.filter (·.head.named)).head?.all (!·.isRemark))
  | "sized_type_specifier" | "typedefed_specifier" => noRemarks children
  | "property_declaration" =>
      children.all fun c => !Text.has c.head.type "attribute" || noRemarks c.children
  | _ => true

mutual

/-- No remark below the node stands in the way. -/
def unobtrusive : Cst → Bool
  | node head children => clear head children && unobtrusiveAll children

def unobtrusiveAll : List Cst → Bool
  | [] => true
  | c :: rest => (if c.isRemark then !c.hasName else c.unobtrusive) && unobtrusiveAll rest

end

/-! ## Remarks among readings -/

open Reading

variable {src : Octets}

mutual

theorem hasError_reading (src : Octets) : ∀ c : Cst, (c.reading src).hasError = c.hasError
  | node head children => by
      rw [reading, Reading.make, Reading.hasError, hasError, anyHasError_readings src children]

theorem anyHasError_readings (src : Octets) : ∀ cs : List Cst,
    Reading.anyHasError (readings src cs) = anyHasError cs
  | [] => rfl
  | c :: rest => by
      rw [readings, Reading.anyHasError, anyHasError, hasError_reading src c,
        anyHasError_readings src rest]

end

@[simp] theorem isRemark_reading (src : Octets) (c : Cst) :
    (c.reading src).isRemark = c.isRemark := by
  simp only [Reading.isRemark, isRemark, Reading.type, head_reading, hasError_reading]

mutual

/-- A node without names has none when it is read. -/
theorem names_reading : ∀ {c : Cst}, c.hasName = false → (c.reading src).names = []
  | node head children, h => by
      rw [hasName, Bool.or_eq_false_iff] at h
      rw [reading, Reading.make, namesOf, if_neg (by simp [h.1])]
      exact names_named_readings h.2

theorem names_named_readings : ∀ {cs : List Cst}, anyHasName cs = false →
    (named (readings src cs)).flatMap (·.names) = []
  | [], _ => rfl
  | c :: rest, h => by
      rw [anyHasName, Bool.or_eq_false_iff, Bool.and_eq_false_iff] at h
      have hrest := names_named_readings h.2
      rw [readings, named]
      by_cases hnamed : c.head.named
      · rw [List.filter_cons_of_pos (by simpa using hnamed), List.flatMap_cons,
          names_reading (h.1.resolve_left (by simp [hnamed]))]
        exact hrest
      · rw [List.filter_cons_of_neg (by simpa using hnamed)]
        exact hrest

end

theorem unobtrusiveAll_cons {c : Cst} {rest : List Cst} : unobtrusiveAll (c :: rest) ↔
    (c.isRemark → c.hasName = false) ∧ (¬ c.isRemark → c.unobtrusive) ∧ unobtrusiveAll rest := by
  rw [unobtrusiveAll]
  by_cases h : c.isRemark <;> simp [h]

/-- Remarks that hold no names add nothing to what their neighbours say. -/
theorem silent_readings {cs : List Cst} (h : unobtrusiveAll cs) : Silent (readings src cs) := by
  induction cs with
  | nil => exact fun _ => nofun
  | cons c rest ih =>
    obtain ⟨hname, -, hrest⟩ := unobtrusiveAll_cons.mp h
    rw [readings]
    refine List.forall_mem_cons.mpr ⟨fun hremark => ?_, ih hrest⟩
    rw [isRemark_reading] at hremark
    refine ⟨?_, names_reading (hname hremark)⟩
    cases c with
    | node head children =>
      refine if_pos ?_
      have htype : head.type = "comment" := by
        simp only [isRemark, Bool.and_eq_true, beq_iff_eq] at hremark
        exact hremark.1.1.1
      rw [htype]
      simp [skippedTypes]

/-! ## Containers -/

theorem named_readings (cs : List Cst) :
    named (cs.map (reading src)) = (cs.filter (·.head.named)).map (reading src) := by
  simp [named, List.filter_map, Function.comp_def]

theorem length_named_trimAll (cs : List Cst) :
    (named (trimAll (cs.map (reading src)))).length =
      (cs.filter fun c => c.head.named && !c.isRemark).length := by
  simp [trimAll_eq, named, List.filter_map, List.filter_filter, Function.comp_def]

theorem not_isRemark {c : Cst} (h : c.head.type ≠ "comment") : ¬ c.isRemark := by
  simp [isRemark, h]

theorem filter_not_isRemark {cs : List Cst} (h : noRemarks cs) (p : Cst → Bool) :
    (cs.filter fun c => p c && !c.isRemark) = cs.filter p := by
  refine List.filter_congr fun c hc => ?_
  rw [List.all_eq_true.mp h c hc, Bool.and_true]

/-- A line that writes a visibility writes nothing else, with its remarks or without them. -/
theorem alone_trimAll (src : Octets) {line : Cst} (hclear : line.clearLine)
    (hmark : ∃ c ∈ line.children, c.head.named ∧ c.head.type = "visibility_specification") :
    ((named (trimAll (line.children.map (reading src)))).length == 1) =
      ((named (line.children.map (reading src))).length == 1) := by
  rw [length_named_trimAll, named_readings, List.length_map]
  rw [clearLine, Bool.or_eq_true] at hclear
  rcases hclear with hbeside | hnone
  · -- The mark is kept, so something else is kept too.
    obtain ⟨c, hc, hnamed, htype⟩ := hmark
    have hkept : c ∈ line.children.filter fun c => c.head.named && !c.isRemark := by
      have hremark : ¬ c.isRemark := not_isRemark (by simp [htype])
      exact List.mem_filter.mpr ⟨hc, by simp [hnamed, hremark]⟩
    have hsome : (line.children.filter fun c => c.head.named && !c.isRemark).length ≠ 1 := by
      intro hone
      obtain ⟨x, hx⟩ := List.length_eq_one_iff.mp hone
      simp only [hx, List.mem_singleton] at hkept hbeside
      subst hkept
      simp [htype] at hbeside
    have hle : (line.children.filter fun c => c.head.named && !c.isRemark).length ≤
        (line.children.filter (·.head.named)).length :=
      (List.monotone_filter_right _ (by simp +contextual)).length_le
    have hpos := List.length_pos_of_mem hkept
    have hmany : (line.children.filter (·.head.named)).length ≠ 1 := by omega
    simp [hsome, hmany]
  · rw [filter_not_isRemark hnone]

theorem ivars_trimAll {lines : List Cst} (hclear : ∀ c ∈ lines, c.head.isIvar → c.clearLine)
    (visibility : Option String) :
    Reading.ivars visibility (trimAll (lines.map (reading src))) =
      Reading.ivars visibility (lines.map (reading src)) := by
  have hskips : Skips (·.type == "visibility_specification") :=
    skips_type (q := (· == "visibility_specification")) (by decide)
  induction lines generalizing visibility with
  | nil => rfl
  | cons c rest ih =>
    have hrest := ih fun x hx => hclear x (List.mem_cons_of_mem _ hx)
    rw [List.map_cons, trimAll]
    by_cases hremark : (c.reading src).isRemark
    · have htype := type_of_isRemark hremark
      have hvisibility : isVisibility (c.reading src) = false := by
        rw [isVisibility, htype]
        decide
      have hivar : (c.reading src).head.isIvar = false := by
        rw [Head.isIvar, show (c.reading src).head.type = "comment" from htype]
        decide
      rw [if_pos hremark, hrest, Reading.ivars, if_neg (by simp [hvisibility]),
        if_pos (by rw [hivar]; rfl)]
    · have hvisibility : isVisibility (c.reading src).trim = isVisibility (c.reading src) := by
        simp [isVisibility]
      have htext : visibilityText (c.reading src).trim = visibilityText (c.reading src) := by
        simp [visibilityText]
      rw [if_neg hremark, Reading.ivars, Reading.ivars, hvisibility, htext, head_trim]
      split
      · exact hrest _
      split
      · exact hrest _
      case isFalse.isFalse hivar =>
        rw [children_trim, find?_named_trimAll hskips]
        cases hfound :
            (named (c.reading src).children).find? (·.type == "visibility_specification") with
        | none => simp only [Option.map_none, ivar_trim, hrest]
        | some mark =>
          have hmark : ∃ x ∈ c.children,
              x.head.named ∧ x.head.type = "visibility_specification" := by
            obtain ⟨hmem, hnamed⟩ := List.mem_filter.mp (List.mem_of_find?_eq_some hfound)
            rw [children_reading] at hmem
            obtain ⟨x, hx, rfl⟩ := List.mem_map.mp hmem
            have htype := List.find?_some hfound
            exact ⟨x, hx, by simpa using hnamed, by simpa [Reading.type] using htype⟩
          have halone := alone_trimAll src
            (hclear c List.mem_cons_self (by simpa using hivar)) hmark
          rw [← children_reading] at halone
          simp only [Option.map_some, halone, ivar_trim, hrest, visibilityText, excerpt_trim]

end Cst

namespace Reading

/-- The same parts, with the header behind the reader. -/
def Container.closed (s : Container) : Container := { s with inHeader := false }

theorem Container.closed_closed (s : Container) : s.closed.closed = s.closed := rfl

theorem Container.closed_eq_self {s : Container} (h : s.inHeader = false) : s.closed = s := by
  obtain ⟨⟩ := s
  cases h
  rfl

/-- No construct asks whether the reader of its parts has left the header. -/
theorem interface_congr {excerpt : Excerpt} {a b : List Reading}
    (h : (container a).closed = (container b).closed) :
    interface excerpt a = interface excerpt b ∧
      implementation excerpt a = implementation excerpt b ∧
      (container a).name = (container b).name ∧ (container a).protocols = (container b).protocols ∧
      (container a).members = (container b).members := by
  unfold interface implementation
  generalize container a = s at h ⊢
  generalize container b = t at h ⊢
  cases s
  cases t
  simp only [Container.closed, Container.mk.injEq] at h
  obtain ⟨rfl, rfl, rfl, rfl, rfl, rfl, rfl, rfl, rfl, -⟩ := h
  exact ⟨rfl, rfl, rfl, rfl, rfl⟩

/-- A remark ends the header and adds no member. -/
theorem Container.step_remark (s : Container) {r : Reading} (h : r.isRemark)
    (hnode : r.node = none) : s.step r = s.closed := by
  have htype : r.head.type = "comment" := type_of_isRemark h
  simp [Container.step, Reading.type, htype, isName_of_isRemark h, named_of_isRemark h, hnode,
    Head.isProtocolList, protocolListTypes, Container.closed]

theorem Container.inHeader_step {s : Container} (h : s.inHeader = false) (r : Reading) :
    (s.step r).inHeader = false := by
  simp only [Container.step, h, Bool.false_and]
  repeat' split
  all_goals first | exact h | rfl

end Reading

namespace Cst

open Reading

variable {src : Octets}

/-- If the child holds instance variables, their lines are clear. -/
def ClearLines (c : Cst) : Prop :=
  c.head.type = "instance_variables" → ∀ line ∈ c.children, line.head.isIvar → line.clearLine

theorem step_trim (s : Container) {c : Cst} (hlines : c.ClearLines) :
    s.step (c.reading src).trim = s.step (c.reading src) := by
  simp only [Container.step, type_trim, head_trim, names_trim, node_trim, children_trim]
  by_cases hivars : (c.reading src).type == "instance_variables"
  · have htype : c.head.type = "instance_variables" := by simpa [Reading.type] using hivars
    rw [children_reading, ivars_trimAll (hlines htype)]
  · simp only [hivars, Bool.false_eq_true, if_false]

theorem step_of_not_isHeading (src : Octets) (s : Container) {c : Cst} (h : ¬ c.isHeading) :
    s.step (c.reading src) =
      if c.head.isProtocolList then { s with protocols := s.protocols ++ (c.reading src).names }
      else if c.head.type == "instance_variables" then
        { s with ivars := Reading.ivars none (c.reading src).children, inHeader := false }
      else if c.head.named then
        { s with inHeader := false, members := s.members ++ (c.reading src).node.toList }
      else s := by
  simp only [isHeading, isColon, Bool.or_eq_true, beq_iff_eq, not_or] at h
  obtain ⟨⟨⟨⟨hopen, hclose⟩, hcolon⟩, hname⟩, hsuper⟩ := h
  simp [Container.step, Reading.type, hopen, hclose, hcolon, hname, hsuper]

/-- A child that is no part of the header does not ask whether the header is over. -/
theorem step_closed (s : Container) {c : Cst} (h : ¬ c.isHeading) :
    s.closed.step (c.reading src) = (s.step (c.reading src)).closed := by
  rw [step_of_not_isHeading src _ h, step_of_not_isHeading src _ h]
  repeat' split
  all_goals rfl

/-- Once the header is over, remarks say nothing. -/
theorem foldl_step_trimAll {cs : List Cst} (hsilent : Silent (cs.map (reading src)))
    (hlines : ∀ c ∈ cs, c.ClearLines) (s : Container) (hs : s.inHeader = false) :
    (trimAll (cs.map (reading src))).foldl Container.step s =
      (cs.map (reading src)).foldl Container.step s := by
  induction cs generalizing s with
  | nil => rfl
  | cons c rest ih =>
    have hrest := ih (fun r hr => hsilent r (List.mem_cons_of_mem _ hr))
      (fun x hx => hlines x (List.mem_cons_of_mem _ hx))
    rw [List.map_cons, trimAll]
    by_cases hremark : (c.reading src).isRemark
    · have hnode := (hsilent _ List.mem_cons_self hremark).1
      rw [if_pos hremark, List.foldl_cons, s.step_remark hremark hnode,
        Container.closed_eq_self hs, hrest s hs]
    · rw [if_neg hremark, List.foldl_cons, step_trim s (hlines c List.mem_cons_self),
        hrest _ (Container.inHeader_step hs _), List.foldl_cons]

theorem foldl_step_closed {cs : List Cst} (h : ∀ c ∈ cs, ¬ c.isHeading)
    (hlines : ∀ c ∈ cs, c.ClearLines) (s : Container) :
    (trimAll (cs.map (reading src))).foldl Container.step s.closed =
      ((trimAll (cs.map (reading src))).foldl Container.step s).closed := by
  induction cs generalizing s with
  | nil => rfl
  | cons c rest ih =>
    have hrest := ih (fun x hx => h x (List.mem_cons_of_mem _ hx))
      (fun x hx => hlines x (List.mem_cons_of_mem _ hx))
    rw [List.map_cons, trimAll]
    by_cases hremark : (c.reading src).isRemark
    · rw [if_pos hremark, hrest]
    · have hline := hlines c List.mem_cons_self
      rw [if_neg hremark, List.foldl_cons, step_trim _ hline,
        step_closed s (h c List.mem_cons_self), hrest, List.foldl_cons, step_trim _ hline]

/-- The parts of a container are the same without remarks. -/
theorem container_trimAll {cs : List Cst} (hclear : clearHeader cs)
    (hsilent : Silent (cs.map (reading src))) (hlines : ∀ c ∈ cs, c.ClearLines) (s : Container) :
    ((trimAll (cs.map (reading src))).foldl Container.step s).closed =
      ((cs.map (reading src)).foldl Container.step s).closed := by
  induction cs generalizing s with
  | nil => rfl
  | cons c rest ih =>
    have hsilentRest : Silent (rest.map (reading src)) :=
      fun r hr => hsilent r (List.mem_cons_of_mem _ hr)
    have hlinesRest : ∀ x ∈ rest, x.ClearLines := fun x hx => hlines x (List.mem_cons_of_mem _ hx)
    rw [clearHeader] at hclear
    rw [List.map_cons, trimAll, isRemark_reading, List.foldl_cons]
    split at hclear
    case isTrue hremark =>
      -- The remark ends the header early, but nothing of it is to come.
      have hnode := (hsilent _ List.mem_cons_self (by simpa using hremark)).1
      have hrest : ∀ x ∈ rest, ¬ x.isHeading := by simpa using hclear
      rw [if_pos hremark, s.step_remark (by simpa using hremark) hnode,
        ← foldl_step_trimAll hsilentRest hlinesRest s.closed rfl,
        foldl_step_closed hrest hlinesRest, Container.closed_closed]
    case isFalse hremark =>
      rw [if_neg hremark, List.foldl_cons, step_trim s (hlines c List.mem_cons_self)]
      split at hclear
      · exact ih hclear hsilentRest hlinesRest _
      case isFalse hheading =>
        simp only [Bool.or_eq_true, not_or] at hheading
        have hstep := step_of_not_isHeading src s hheading.1
        rw [if_neg hheading.2] at hstep
        by_cases hend : c.head.type == "instance_variables" || c.head.named
        · have hover : (s.step (c.reading src)).inHeader = false := by
            rw [hstep]
            split
            · rfl
            · rw [if_pos (by simp_all)]
          rw [foldl_step_trimAll hsilentRest hlinesRest _ hover]
        · simp only [Bool.or_eq_true, not_or] at hend
          rw [hstep, if_neg hend.1, if_neg hend.2]
          exact ih (by simp_all) hsilentRest hlinesRest s

/-! ## Properties -/

theorem trimAll_of_noRemarks {cs : List Cst} (h : noRemarks cs) :
    trimAll (cs.map (reading src)) = (cs.map (reading src)).map trim := by
  rw [trimAll_eq, List.filter_eq_self.mpr]
  intro r hr
  obtain ⟨c, hc, rfl⟩ := List.mem_map.mp hr
  rw [isRemark_reading]
  exact List.all_eq_true.mp h c hc

theorem property_trimAll {cs : List Cst}
    (hclear : ∀ c ∈ cs, Text.has c.head.type "attribute" → noRemarks c.children)
    (excerpt : Excerpt) :
    property excerpt (trimAll (cs.map (reading src))) =
      property excerpt (cs.map (reading src)) := by
  have hattribute : Skips fun c => Text.has c.type "attribute" :=
    skips_type (q := (Text.has · "attribute")) (by decide)
  have htarget : Skips fun c => !Text.has c.type "attribute" && c.head.isIvar :=
    skips_type (q := fun t => !Text.has t "attribute" && ivarTypes.contains t) (by decide)
  simp only [property, filter_named_trimAll hattribute, filter_named_trimAll htarget,
    List.flatMap_map, List.getLast?_map]
  congr 1
  · refine List.flatMap_congr fun r hr => ?_
    obtain ⟨hmem, htype⟩ := List.mem_filter.mp hr
    obtain ⟨c, hc, rfl⟩ := List.mem_map.mp (List.mem_of_mem_filter hmem)
    have hnone := hclear c hc (by simpa [Reading.type] using htype)
    rw [children_trim, children_reading, trimAll_of_noRemarks hnone]
    simp [named, List.filter_map, Function.comp_def]
  all_goals
    cases ((named (cs.map (reading src))).filter _).getLast? <;>
      simp [specifiersIn_trimAll, declaredNames_trimAll]

/-! ## Messages -/

/-- The place that the machine for messages has reached. -/
def place (s : MessageState) : MessagePlace := ⟨s.hasReceiver, s.current.isSome⟩

theorem messageStep_trim (s : MessageState) (r : Reading) : s.step src r.trim = s.step src r := by
  simp only [MessageState.step, type_trim, head_trim, excerpt_trim, node_trim]

theorem place_messageStep (s : MessageState) (r : Reading) :
    place (s.step src r) =
      if r.type == ":" then { place s with waiting := true }
      else if r.head.named then { place s with waiting := false }
      else place s := by
  unfold MessageState.step place
  cases hcurrent : s.current <;> (repeat' split) <;> simp_all

/-- A child that is neither a bracket nor the receiver. -/
theorem read_eq (s : MessageState) (r : Reading) :
    s.read src r =
      if r.type == "[" || r.type == "]" then s
      else if !s.hasReceiver && r.head.named then { s with receiver := r.node, hasReceiver := true }
      else if Reading.isWrapper r then s.readAll src r.children
      else s.step src r := by
  cases r
  rw [MessageState.read]
  rfl

/-- Between two parts of a selector a remark is passed over. -/
theorem read_remark {s : MessageState} {r : Reading} (h : r.isRemark) (hreceiver : s.hasReceiver)
    (hcurrent : s.current = none) : s.read src r = s := by
  simp [read_eq, Reading.isWrapper, MessageState.step, type_of_isRemark h, isName_of_isRemark h,
    hreceiver, hcurrent]

mutual

/-- A remark leaves the machine as it is, and any other child moves it in the same way
without the remarks in its wrappers. -/
theorem read_trim (src : Octets) (s : MessageState) : ∀ {c : Cst} {p : MessagePlace},
    clearMessage (place s) c = some p →
      (if c.isRemark then s else s.read src (c.reading src).trim) = s.read src (c.reading src) ∧
      place (s.read src (c.reading src)) = p
  | node head children, p, h => by
      let c := node head children
      have hread : s.read src (c.reading src) =
          if c.isBracket then s
          else if !s.hasReceiver && head.named then
            { s with receiver := (c.reading src).node, hasReceiver := true }
          else if c.isWrapper then s.readAll src (readings src children)
          else s.step src (c.reading src) := read_eq s _
      have htrim : s.read src (c.reading src).trim =
          if c.isBracket then s
          else if !s.hasReceiver && head.named then
            { s with receiver := (c.reading src).node, hasReceiver := true }
          else if c.isWrapper then s.readAll src (trimAll (readings src children))
          else s.step src (c.reading src) := by
        rw [read_eq, Reading.isWrapper, type_trim, head_trim, node_trim, children_trim,
          messageStep_trim]
        rfl
      rw [clearMessage] at h
      by_cases hbracket : c.isBracket
      · rw [if_pos hbracket] at h hread htrim
        rw [hread, htrim]
        exact ⟨ite_self _, Option.some.inj h⟩
      rw [if_neg hbracket] at h
      by_cases hremark : c.isRemark
      · rw [if_pos hremark] at h ⊢
        split at h
        case isTrue hplace =>
          simp only [place, Bool.and_eq_true, Bool.not_eq_true', Option.isSome_eq_false_iff,
            Option.isNone_iff_eq_none] at hplace
          rw [read_remark (by rwa [isRemark_reading]) hplace.1 hplace.2]
          exact ⟨rfl, Option.some.inj h⟩
        · cases h
      rw [if_neg hremark] at h ⊢
      rw [if_neg hbracket] at hread htrim
      by_cases hreceiver : !s.hasReceiver && head.named
      · rw [if_pos hreceiver] at hread htrim
        rw [if_pos (show !(place s).received && head.named from hreceiver)] at h
        rw [hread, htrim]
        exact ⟨rfl, Option.some.inj h⟩
      rw [if_neg hreceiver] at hread htrim
      rw [if_neg (show ¬ (!(place s).received && head.named) from hreceiver)] at h
      by_cases hwrapper : c.isWrapper
      · rw [if_pos hwrapper] at h hread htrim
        rw [hread, htrim]
        exact readAll_trimAll src s h
      · rw [if_neg hwrapper] at h hread htrim
        rw [hread, htrim, place_messageStep]
        refine ⟨rfl, Option.some.inj (Eq.trans ?_ h)⟩
        rw [apply_ite some, apply_ite some]
        rfl

theorem readAll_trimAll (src : Octets) (s : MessageState) : ∀ {cs : List Cst} {p : MessagePlace},
    clearMessageAll (place s) cs = some p →
      s.readAll src (trimAll (readings src cs)) = s.readAll src (readings src cs) ∧
      place (s.readAll src (readings src cs)) = p
  | [], p, h => ⟨rfl, Option.some.inj h⟩
  | c :: rest, p, h => by
      rw [clearMessageAll] at h
      split at h
      · cases h
      case h_2 next hnext =>
        obtain ⟨hread, hplace⟩ := read_trim src s hnext
        obtain ⟨hrest, hend⟩ := readAll_trimAll src _ (hplace ▸ h)
        rw [readings, MessageState.readAll, trimAll, isRemark_reading]
        refine ⟨?_, hend⟩
        rw [← hrest, ← hread]
        split <;> rfl

end

theorem message_trimAll {cs : List Cst} (hclear : (clearMessageAll {} cs).isSome)
    (excerpt : Excerpt) :
    message src excerpt (trimAll (readings src cs)) = message src excerpt (readings src cs) := by
  obtain ⟨p, hp⟩ := Option.isSome_iff_exists.mp hclear
  have hplace : clearMessageAll (place {}) cs = some p := hp
  rw [message, message, (readAll_trimAll src _ hplace).1]

/-! ## Every node -/

/-- What the conditions on a node and its children give. -/
structure Clear (src : Octets) (head : Head) (cs : List Cst) : Prop where
  node : clear head cs
  silent : Silent (readings src cs)
  lines : ∀ c ∈ cs, c.ClearLines

theorem specifiersOf_trimAll {head : Head} {cs : List Cst} (h : Clear src head cs)
    (excerpt : Excerpt) :
    specifiersOf head excerpt (trimAll (readings src cs)) =
      specifiersOf head excerpt (readings src cs) := by
  have hclear := h.node
  unfold specifiersOf
  split
  case h_1 | h_2 => rfl
  case h_3 htype =>
    rw [clear, htype] at hclear
    rw [readings_eq_map, trimAll_of_noRemarks hclear]
    simp [List.filter_map, Function.comp_def]
  case h_4 => rfl
  case h_5 htype =>
    rw [clear, htype] at hclear
    rw [protocolsIn_trimAll, readings_eq_map, trimAll_of_noRemarks hclear, List.flatMap_map]
    simp only [predefinedPart_trim]
  case h_6 | h_7 => simp only [fieldExcerpt?_trimAll]
  case h_8 => rw [enumeration_trimAll]
  case h_9 =>
    have harguments : Silent ((named (readings src cs)).filter (!·.head.isName)) :=
      (h.silent.filter _).filter _
    rw [fieldExcerpt?_trimAll, h.silent.namesOf_trimAll, named_trimAll,
      filter_trimAll_comm (fun r => by rw [head_trim]), harguments.names_trimAll]
  case h_10 => rfl

theorem declaratorOf_trimAll {head : Head} {cs : List Cst} (h : Clear src head cs)
    (excerpt : Excerpt) :
    declaratorOf head excerpt (trimAll (readings src cs)) =
      declaratorOf head excerpt (readings src cs) := by
  have hclear := h.node
  unfold declaratorOf
  split
  · rfl
  split
  case isTrue htype =>
    rw [clear, beq_iff_eq.mp htype] at hclear
    have hfirst : (named (trimAll (readings src cs))).head? =
        (named (readings src cs)).head?.map trim := by
      rw [named_trimAll, readings_eq_map, named_readings]
      cases hnamed : cs.filter (·.head.named) with
      | nil => rfl
      | cons c rest =>
        have hremark : ¬ (c.reading src).isRemark := by simpa [hnamed] using hclear
        rw [List.map_cons, trimAll, if_neg hremark]
        rfl
    simp only [hfirst, Option.map_map, Function.comp_def, declarator_trim]
  · simp only [innerDeclarator?_trimAll, field?_trimAll, parametersOf_map_trim, Option.map_map,
      Function.comp_def, declarator_trim]

theorem construct_trimAll {head : Head} {cs : List Cst} (h : Clear src head cs) (excerpt : Excerpt)
    (names : List Excerpt) (specifiers : List Specifier) :
    construct src head excerpt names specifiers (trimAll (readings src cs)) =
      construct src head excerpt names specifiers (readings src cs) := by
  have hclear := h.node
  have hcontainer (hheader : clearHeader cs) :
      (container (trimAll (readings src cs))).closed = (container (readings src cs)).closed := by
    have hsilent := h.silent
    rw [readings_eq_map] at hsilent ⊢
    exact container_trimAll hheader hsilent h.lines {}
  unfold construct
  split
  case h_1 | h_2 | h_3 | h_4 => rfl
  case h_5 | h_6 => rw [inclusion_trimAll]
  case h_7 htype | h_8 htype =>
    rw [clear, htype] at hclear
    exact (interface_congr (hcontainer hclear)).1
  case h_9 htype | h_10 htype =>
    rw [clear, htype] at hclear
    exact (interface_congr (hcontainer hclear)).2.1
  case h_11 htype =>
    rw [clear, htype] at hclear
    simp only [protocol, forward, hasType_trimAll (show ";" ≠ "comment" by decide),
      hasType_trimAll (show "@end" ≠ "comment" by decide),
      hasType_trimAll (show "@protocol" ≠ "comment" by decide)]
    split
    · rfl
    case isFalse hbody =>
      have hheader : clearHeader cs := by
        refine (Bool.or_eq_true _ _ ▸ hclear).resolve_left fun hforward => hbody ?_
        simpa [isForward, hasType, readings_eq_map, Reading.type] using hforward
      obtain ⟨-, -, hname, hprotocols, hmembers⟩ :=
        @interface_congr excerpt _ _ (hcontainer hheader)
      rw [hname, hprotocols, hmembers]
  case h_12 | h_13 | h_14 => rw [forward, hasType_trimAll (by decide), forward]
  case h_15 =>
    rw [methodState_trimAll, hasType_trimAll (by decide)]
    rfl
  case h_16 =>
    rw [methodState_trimAll, hasType_trimAll (by decide)]
    exact congrArg (Node.methodDefinition _ _ _ _) (bind_node_trim _)
  case h_17 htype =>
    rw [clear, htype] at hclear
    rw [readings_eq_map]
    refine property_trimAll (fun c hc htype => ?_) excerpt
    simpa [htype] using List.all_eq_true.mp hclear c hc
  case h_18 => rw [declaration_trimAll]
  case h_19 => rw [typeDefinition_trimAll]
  case h_20 => rfl
  case h_21 => rw [function_trimAll]
  case h_22 => rw [h.silent.nodes_trimAll]
  case h_23 | h_24 => rw [h.silent.loop_trimAll]
  case h_25 => rw [catchClause_trimAll]
  case h_26 | h_27 => rw [block_trimAll]
  case h_28 => rw [memberAccess_trimAll]
  case h_29 htype =>
    rw [clear, htype] at hclear
    exact message_trimAll hclear excerpt
  case h_30 => rw [cast_trimAll]
  case h_31 => rw [inclusion_trimAll, h.silent.nodes_trimAll]

/-- The reading of a node is made alike from children with remarks and without them. -/
theorem make_trimAll {head : Head} {cs : List Cst} (h : Clear src head cs) :
    Reading.make src head (trimAll (readings src cs)) =
      (Reading.make src head (readings src cs)).trim := by
  simp only [Reading.make, nodeOf, Reading.trim, h.silent.namesOf_trimAll, specifiersOf_trimAll h,
    declaratorOf_trimAll h, construct_trimAll h]

theorem clearLines_of_unobtrusive : ∀ {c : Cst}, c.unobtrusive → c.ClearLines
  | node head children, h, htype, line, hline, hivar => by
      rw [unobtrusive, Bool.and_eq_true, clear,
        show head.type = "instance_variables" from htype] at h
      simpa [hivar] using List.all_eq_true.mp h.1 line hline

/-- A remark holds no instance variables. -/
theorem clearLines_of_mem {cs : List Cst} (h : unobtrusiveAll cs) : ∀ c ∈ cs, c.ClearLines := by
  induction cs with
  | nil => exact fun _ => nofun
  | cons c rest ih =>
    obtain ⟨-, hkept, hrest⟩ := unobtrusiveAll_cons.mp h
    refine List.forall_mem_cons.mpr ⟨fun htype => ?_, ih hrest⟩
    exact clearLines_of_unobtrusive (hkept (not_isRemark (by simp [htype]))) htype

mutual

/-- Without its remarks a tree reads as its own reading does, trimmed. -/
theorem reading_withoutRemarks : ∀ {c : Cst}, c.unobtrusive →
    c.withoutRemarks.reading src = (c.reading src).trim
  | node head children, h => by
      rw [unobtrusive, Bool.and_eq_true] at h
      rw [withoutRemarks, reading, readings_withoutRemarks h.2, reading]
      exact make_trimAll ⟨h.1, silent_readings h.2, clearLines_of_mem h.2⟩

theorem readings_withoutRemarks : ∀ {cs : List Cst}, unobtrusiveAll cs →
    readings src (withoutRemarksAll cs) = trimAll (readings src cs)
  | [], _ => rfl
  | c :: rest, h => by
      obtain ⟨-, hkept, hrest⟩ := unobtrusiveAll_cons.mp h
      rw [withoutRemarksAll, readings, trimAll, isRemark_reading]
      by_cases hremark : c.isRemark
      · rw [if_pos hremark, if_pos hremark, readings_withoutRemarks hrest]
      · rw [if_neg hremark, if_neg hremark, readings, reading_withoutRemarks (hkept hremark),
          readings_withoutRemarks hrest]

end

theorem tree_withoutRemarks {root : Cst} (h : unobtrusiveAll root.children) :
    root.withoutRemarks.tree src = root.tree src := by
  cases root with
  | node head children =>
    have hchildren : unobtrusiveAll children := h
    have hsilent : Silent (readings src children) := silent_readings hchildren
    have hnodes : nodes (readings src (withoutRemarksAll children)) =
        nodes (readings src children) := by
      rw [readings_withoutRemarks hchildren, hsilent.nodes_trimAll]
    rw [withoutRemarks]
    exact congrArg (Node.unit _) hnodes

/-! ## Issues -/

mutual

theorem hasError_withoutRemarks : ∀ c : Cst, c.withoutRemarks.hasError = c.hasError
  | node head children => by
      rw [withoutRemarks, hasError, anyHasError_withoutRemarks children, hasError]

theorem anyHasError_withoutRemarks : ∀ cs : List Cst,
    anyHasError (withoutRemarksAll cs) = anyHasError cs
  | [] => rfl
  | c :: rest => by
      rw [withoutRemarksAll]
      by_cases hremark : c.isRemark
      · have hnone : c.hasError = false := by
          simp only [isRemark, Bool.and_eq_true, Bool.not_eq_true'] at hremark
          exact hremark.2
        rw [if_pos hremark, anyHasError_withoutRemarks rest, anyHasError, hnone, Bool.false_or]
      · rw [if_neg hremark, anyHasError, hasError_withoutRemarks c, anyHasError_withoutRemarks rest,
          anyHasError]

end

theorem withoutRemarksAll_append (a b : List Cst) :
    withoutRemarksAll (a ++ b) = withoutRemarksAll a ++ withoutRemarksAll b := by
  induction a with
  | nil => rfl
  | cons c a ih =>
    rw [List.cons_append, withoutRemarksAll, withoutRemarksAll, ih]
    split <;> rfl

/-- A node without errors has no issue. -/
theorem issuesOfStack_of_not_hasError {c : Cst} (h : c.hasError = false) (rest : List Cst)
    (found : List Issue) : issuesOfStack src (c :: rest) found = issuesOfStack src rest found := by
  cases c with
  | node head children =>
    have hhead := h
    simp only [hasError, Bool.or_eq_false_iff] at hhead
    rw [issuesOfStack]
    simp [Head.issue?, hhead.1.1, hhead.1.2, h]

theorem issuesOfStack_withoutRemarks (src : Octets) : ∀ (stack : List Cst) (found : List Issue),
    issuesOfStack src (withoutRemarksAll stack) found = issuesOfStack src stack found
  | [], _ => rfl
  | node head children :: rest, found => by
      rw [withoutRemarksAll]
      by_cases hremark : (node head children).isRemark
      · have hnone : (node head children).hasError = false := by
          simp only [isRemark, Bool.and_eq_true, Bool.not_eq_true'] at hremark
          exact hremark.2
        rw [if_pos hremark, issuesOfStack_of_not_hasError hnone,
          issuesOfStack_withoutRemarks src rest found]
      · have herror := hasError_withoutRemarks (node head children)
        rw [withoutRemarks] at herror
        rw [if_neg hremark, withoutRemarks, issuesOfStack, issuesOfStack, herror,
          ← withoutRemarksAll_append]
        cases head.issue? src with
        | error e => rfl
        | ok issue =>
          simp only [issuesOfStack_withoutRemarks src (children ++ rest) _,
            issuesOfStack_withoutRemarks src rest _]
termination_by stack => sizeOfAll stack
decreasing_by
  all_goals
    simp only [sizeOfAll, size, sizeOfAll_append]
    omega

theorem issues_withoutRemarks (src : Octets) (root : Cst) :
    root.withoutRemarks.issues src = root.issues src := by
  have hstack : issuesOfStack src [root.withoutRemarks] [] = issuesOfStack src [root] [] := by
    by_cases herror : root.hasError
    · have hremark : ¬ root.isRemark := by simp [isRemark, herror]
      rw [← issuesOfStack_withoutRemarks src [root], withoutRemarksAll, if_neg hremark,
        withoutRemarksAll]
    · rw [Bool.not_eq_true] at herror
      rw [issuesOfStack_of_not_hasError herror,
        issuesOfStack_of_not_hasError ((hasError_withoutRemarks root).trans herror)]
  rw [issues, hstack, issues]

/-- Taking the remarks out of a tree changes none of its issues, and nothing at all
unless one of them stands where it is taken for something else. -/
theorem parse_withoutRemarks (src : Octets) (root : Cst) :
    root.withoutRemarks.issues src = root.issues src ∧
    (unobtrusiveAll root.children → root.withoutRemarks.parse src = root.parse src) := by
  refine ⟨issues_withoutRemarks src root, fun h => ?_⟩
  rw [parse, issues_withoutRemarks, tree_withoutRemarks h, parse]

/-! Remarks around a superclass, with `c` for the text of a comment:

    @interface A : B c @end        @interface A c : B @end
-/

def headerBytes (text : String) : Octets := Text.Utf8.encode text

/-- A remark behind the header. -/
def remarkBehind : Cst :=
  branch "translation_unit" 0 23
    [branch "class_interface" 0 23
      [leaf "@interface" 0 10 false, leaf "identifier" 11 12 true, leaf ":" 13 14 false,
        leaf "identifier" 15 16 true, leaf "comment" 17 18 true, leaf "@end" 19 23 false]]

theorem parse_withoutRemarks_behind :
    unobtrusiveAll remarkBehind.children ∧ remarkBehind.withoutRemarks.size < remarkBehind.size ∧
    remarkBehind.withoutRemarks.parse (headerBytes "@interface A : B c @end") =
      remarkBehind.parse (headerBytes "@interface A : B c @end") := by
  have hclear : unobtrusiveAll remarkBehind.children := by decide +kernel
  exact ⟨hclear, by decide +kernel, (parse_withoutRemarks _ _).2 hclear⟩

/-- A remark in the header. -/
def remarkInside : Cst :=
  branch "translation_unit" 0 23
    [branch "class_interface" 0 23
      [leaf "@interface" 0 10 false, leaf "identifier" 11 12 true, leaf "comment" 13 14 true,
        leaf ":" 15 16 false, leaf "identifier" 17 18 true, leaf "@end" 19 23 false]]

/-- Behind a remark the superclass is no superclass any more, but a member that is read. -/
theorem remark_hides_superclass :
    remarkInside.withoutRemarks.parse (headerBytes "@interface A c : B @end") ≠
      remarkInside.parse (headerBytes "@interface A c : B @end") ∧
    .refer ⟨"B", 17, 17⟩ (.global "B") ∈
      (remarkInside.withoutRemarks.tree (headerBytes "@interface A c : B @end")).actions {} ∧
    .read ⟨some "A", none⟩ ⟨"B", 17, 17⟩ ∈
      (remarkInside.tree (headerBytes "@interface A c : B @end")).actions {} := by
  refine ⟨fun h => ?_, by decide +kernel, by decide +kernel⟩
  have hsteps := congrArg (fun p => p.toOption.map fun p => p.tree.actions {}) h
  revert hsteps
  decide +kernel

end Cst

end SymbolGraph
