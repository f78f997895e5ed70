import SymbolGraph.Proofs.Reading

/-!
# `Proofs.Construct` — constructs that keep to a standard

The machines for selectors take names, types and arguments from the nodes that they
see, so what they have read keeps to a standard if the nodes do, child by child.  The
spans of selectors they put together themselves: those are the one thing that is asked
for here.  With them every construct is faithful, and a reading is sound as soon as the
readings below it are.
-/

namespace SymbolGraph

variable {std : Standard} {src : Octets}

/-- The part of a selector keeps to the standard, its span apart. -/
structure KeywordDeclarator.Sound (std : Standard) (k : KeywordDeclarator) : Prop where
  keyword : ∀ e ∈ k.keyword, std.Name e
  typeName : ∀ t ∈ k.typeName, t.Faithful std
  name : ∀ e ∈ k.name, std.Name e

structure KeywordArgument.Sound (std : Standard) (k : KeywordArgument) : Prop where
  keyword : ∀ e ∈ k.keyword, std.Name e
  argument : ∀ n ∈ k.argument, n.Faithful std

namespace Reading

/-! ## Methods -/

/-- Whatever holds of the nodes of a part holds of its keyword and its name. -/
theorem forall_keywordNames {P : Excerpt → Prop} : ∀ {rs : List Reading}
    {keyword name : Option Excerpt} (afterColon : Bool), (∀ c ∈ rs, P c.excerpt) →
    (∀ e ∈ keyword, P e) → (∀ e ∈ name, P e) →
    (∀ e ∈ (keywordNames keyword name afterColon rs).1, P e) ∧
      ∀ e ∈ (keywordNames keyword name afterColon rs).2, P e
  | [], _, _, _, _, hkeyword, hname => ⟨hkeyword, hname⟩
  | c :: rest, keyword, name, afterColon, hrs, hkeyword, hname => by
      obtain ⟨hc, hrest⟩ := List.forall_mem_cons.mp hrs
      have hsome : ∀ e ∈ some c.excerpt, P e := fun e he => Option.some.inj he ▸ hc
      unfold keywordNames
      split
      · exact forall_keywordNames _ hrest hkeyword hname
      · split
        · split
          · exact forall_keywordNames _ hrest hsome hname
          · split
            · exact forall_keywordNames _ hrest hkeyword hsome
            · exact forall_keywordNames _ hrest hkeyword hname
        · exact forall_keywordNames _ hrest hkeyword hname

/-- The keyword of a part that is a node of its own, or the one in front of it. -/
theorem forall_keywordDeclarator (src : Octets) {P : Excerpt → Prop} {pending : Option Excerpt}
    {r : Reading} (hpending : ∀ e ∈ pending, P e) (hr : ∀ c ∈ r.children, P c.excerpt) :
    (∀ e ∈ (keywordDeclarator src pending r).keyword, P e) ∧
      ∀ e ∈ (keywordDeclarator src pending r).name, P e := by
  have hfield : ∀ field, ∀ e ∈ fieldExcerpt? field r.children, P e := by
    intro field e he
    obtain ⟨c, hc, rfl⟩ := Option.map_eq_some_iff.mp he
    exact hr c (List.mem_of_find?_eq_some hc)
  obtain ⟨hown, hname⟩ := forall_keywordNames false hr (hfield "keyword") (hfield "name")
  refine ⟨fun e he => ?_, hname⟩
  rcases Option.or_eq_some_iff.mp he with he | ⟨-, he⟩
  · exact hown e he
  · exact hpending e he

theorem sound_keywordDeclarator {pending : Option Excerpt} {r : Reading}
    (hpending : ∀ e ∈ pending, std.Name e) (hr : r.Sound std) :
    (keywordDeclarator src pending r).Sound std := by
  obtain ⟨hkeyword, hname⟩ := forall_keywordDeclarator src hpending fun c hc =>
    (hr.children c hc).name
  refine ⟨hkeyword, fun t ht => ?_, hname⟩
  obtain ⟨c, hc, rfl⟩ := Option.map_eq_some_iff.mp ht
  exact (hr.children c (List.mem_of_mem_filter (List.mem_of_getLast? hc))).typeName

/-- What the machine for methods has read keeps to the standard. -/
structure MethodState.Sound (std : Standard) (s : MethodState) : Prop where
  returnType : ∀ t ∈ s.returnType, t.Faithful std
  body : ∀ r ∈ s.body, r.Sound std
  pending : ∀ e ∈ s.pending, std.Name e
  current : ∀ k ∈ s.current, k.Sound std
  keywords : ∀ k ∈ s.keywords, k.Sound std

namespace MethodState.Sound

variable {s : MethodState} (hs : s.Sound std)
include hs

theorem addPart {k : KeywordDeclarator} (hk : k.Sound std) :
    ∀ x ∈ s.keywords ++ [k], x.Sound std :=
  List.forall_mem_append.mpr ⟨hs.keywords, fun _ hx => List.mem_singleton.mp hx ▸ hk⟩

theorem step {r : Reading} (hr : r.Sound std) : (s.step src r).Sound std := by
  unfold MethodState.step
  split
  · exact { hs with body := fun x hx => Option.some.inj hx ▸ hr }
  · split
    · exact { hs with returnType := fun t ht => Option.some.inj ht ▸ hr.typeName }
    · split
      · exact { hs with
          pending := fun _ => nofun
          keywords := hs.addPart (sound_keywordDeclarator hs.pending hr) }
      · split
        · refine { hs with pending := fun _ => nofun, current := fun k hk => ?_ }
          rw [← Option.some.inj hk]
          exact ⟨hs.pending, fun _ => nofun, fun _ => nofun⟩
        · split
          · next k hk =>
            have hcurrent := hs.current k hk
            split
            · refine { hs with current := fun x hx => ?_ }
              rw [← Option.some.inj hx]
              exact { hcurrent with typeName := fun t ht => Option.some.inj ht ▸ hr.typeName }
            · split
              · exact { hs with
                  current := fun _ => nofun
                  keywords := hs.addPart ⟨hcurrent.keyword, hcurrent.typeName, fun e he =>
                    Option.some.inj he ▸ hr.name⟩ }
              · exact hs
          · split
            · exact { hs with pending := fun e he => Option.some.inj he ▸ hr.name }
            · exact hs

theorem finish : s.finish.Sound std := by
  unfold MethodState.finish
  split
  · exact hs
  · next k hk =>
    exact { hs with
      current := fun _ => nofun
      keywords := hs.addPart (hs.current k hk) }

theorem selector? (hanchor : ∀ x ∈ s.selector? src, std.Span x.anchor)
    (hparts : ∀ k ∈ s.keywords, std.Span k.excerpt) :
    ∀ x ∈ s.selector? src, x.Faithful std := by
  intro x hx
  refine ⟨hanchor x hx, fun k hk => ?_⟩
  unfold MethodState.selector? at hx
  split at hx
  · obtain ⟨e, -, rfl⟩ := Option.map_eq_some_iff.mp hx
    cases hk
  · rw [← Option.some.inj hx] at hk
    have hsound := hs.keywords k hk
    exact ⟨hparts k hk, hsound.typeName, hsound.name⟩

end MethodState.Sound

theorem sound_methodState (src : Octets) {children : List Reading}
    (h : ∀ c ∈ children, c.Sound std) : (methodState src children).Sound std := by
  have hinitial : MethodState.Sound std {} :=
    ⟨fun _ => nofun, fun _ => nofun, fun _ => nofun, fun _ => nofun, fun _ => nofun⟩
  have hfold : ∀ {s : MethodState}, s.Sound std →
      (children.foldl (MethodState.step src) s).Sound std := by
    induction children with
    | nil => exact fun hs => hs
    | cons r rest ih =>
        obtain ⟨hr, hrest⟩ := List.forall_mem_cons.mp h
        exact fun hs => ih hrest (hs.step hr)
  exact (hfold hinitial).finish

/-! ## Messages -/

/-- What the machine for messages has read keeps to the standard. -/
structure MessageState.Sound (std : Standard) (s : MessageState) : Prop where
  receiver : ∀ n ∈ s.receiver, n.Faithful std
  pending : ∀ e ∈ s.pending, std.Name e
  current : ∀ k ∈ s.current, k.Sound std
  keywords : ∀ k ∈ s.keywords, k.Sound std

namespace MessageState.Sound

variable {s : MessageState} (hs : s.Sound std)
include hs

theorem step {r : Reading} (hr : r.Sound std) : (s.step src r).Sound std := by
  have hpending : ∀ e ∈ some r.excerpt, std.Name e := fun e he => Option.some.inj he ▸ hr.name
  unfold MessageState.step
  split
  · refine { hs with pending := fun _ => nofun, current := fun k hk => ?_ }
    rw [← Option.some.inj hk]
    exact ⟨hs.pending, fun _ => nofun⟩
  · split
    · next k hk =>
      split
      · exact { hs with
          current := fun _ => nofun
          keywords := List.forall_mem_append.mpr ⟨hs.keywords, fun x hx =>
            List.mem_singleton.mp hx ▸ ⟨(hs.current k hk).keyword, hr.faithful.node⟩⟩ }
      · split
        · exact { hs with pending := hpending }
        · exact hs
    · split
      · exact { hs with pending := hpending }
      · exact hs

theorem selector? (hanchor : ∀ x ∈ s.selector? src, std.Span x.anchor) :
    ∀ x ∈ s.selector? src, x.Faithful std := by
  have hall : ∀ k ∈ s.allKeywords, k.Sound std :=
    List.forall_mem_append.mpr ⟨hs.keywords, fun k hk => hs.current k (Option.mem_toList.mp hk)⟩
  intro x hx
  refine ⟨hanchor x hx, fun k hk => ?_⟩
  unfold MessageState.selector? at hx
  split at hx
  · obtain ⟨e, -, rfl⟩ := Option.map_eq_some_iff.mp hx
    cases hk
  · next hparts =>
    rw [← Option.some.inj hx] at hk
    exact (hall k (hparts ▸ hk)).argument

end MessageState.Sound

mutual

theorem MessageState.Sound.read : ∀ {r : Reading} {s : MessageState}, s.Sound std →
    r.Sound std → (s.read src r).Sound std
  | ⟨head, excerpt, node, names, specifiers, declarator, children⟩, s, hs, hr => by
      unfold MessageState.read
      dsimp only
      split
      · exact hs
      · split
        · exact { hs with receiver := hr.faithful.node }
        · split
          · exact hs.readAll hr.children
          · exact hs.step hr

theorem MessageState.Sound.readAll : ∀ {rs : List Reading} {s : MessageState}, s.Sound std →
    (∀ c ∈ rs, c.Sound std) → (s.readAll src rs).Sound std
  | [], _, hs, _ => hs
  | r :: rest, _, hs, hrs => by
      obtain ⟨hr, hrest⟩ := List.forall_mem_cons.mp hrs
      unfold MessageState.readAll
      exact (hs.read hr).readAll hrest

end

theorem sound_messageState (src : Octets) {children : List Reading}
    (h : ∀ c ∈ children, c.Sound std) : (MessageState.readAll src {} children).Sound std :=
  MessageState.Sound.readAll ⟨fun _ => nofun, fun _ => nofun, fun _ => nofun, fun _ => nofun⟩ h

/-! ## Constructs -/

variable {head : Head} {children : List Reading}

/-- The spans that the machines for selectors put together meet the standard. -/
structure SelectorSpans (std : Standard) (src : Octets) (children : List Reading) : Prop where
  method : ∀ x ∈ (methodState src children).selector? src, std.Span x.anchor
  parts : ∀ k ∈ (methodState src children).keywords, std.Span k.excerpt
  message : ∀ x ∈ (MessageState.readAll src {} children).selector? src, std.Span x.anchor

theorem faithful_inclusion (excerpt : Excerpt) :
    (inclusion src head excerpt children).Faithful std := by
  unfold inclusion
  split
  · exact Node.faithful_inclusion _ _ _
  · split
    · exact Node.faithful_generic _ fun _ => nofun
    · exact Node.faithful_inclusion _ _ _

section Make

variable (hown : std.Name (head.excerpt src)) (h : ∀ c ∈ children, c.Sound std)
  (hspans : SelectorSpans std src children)
include hown h hspans

theorem faithful_construct {names : List Excerpt} {specifiers : List Specifier}
    (hnames : ∀ e ∈ names, std.Name e) (hspecifiers : ∀ s ∈ specifiers, s.Faithful std) :
    (construct src head (head.excerpt src) names specifiers children).Faithful std := by
  have hspan := std.span_of_name hown
  have hmethod := sound_methodState src h
  have hselector := hmethod.selector? hspans.method hspans.parts
  have hmessage := sound_messageState src h
  -- One case for each type of a node, in the order of `construct`; the last one is any other type.
  unfold construct
  split
  case h_1 | h_2 | h_3 | h_4 => exact Node.faithful_identifier hown
  case h_5 | h_6 => exact faithful_inclusion _
  case h_7 | h_8 => exact faithful_interface h hspan
  case h_9 | h_10 => exact faithful_implementation h _
  case h_11 => exact faithful_protocol h hspan hnames
  case h_12 | h_13 | h_14 => exact Node.faithful_forwardDeclaration hnames _
  case h_15 => exact Node.faithful_methodDeclaration hspan hmethod.returnType hselector _
  case h_16 =>
    refine Node.faithful_methodDefinition hspan hmethod.returnType hselector ?_ _
    intro n hn
    obtain ⟨body, hbody, hn⟩ := Option.bind_eq_some_iff.mp hn
    exact (hmethod.body body hbody).faithful.node n hn
  case h_17 => exact faithful_property h hspan
  case h_18 => exact Node.faithful_declaration (faithful_declaration h hspan)
  case h_19 => exact Node.faithful_declaration (faithful_typeDefinition h hspan)
  case h_20 => exact Node.faithful_declaration ⟨hspan, hspecifiers, fun _ => nofun⟩
  case h_21 => exact faithful_function h hspan
  case h_22 => exact Node.faithful_compoundStatement (faithful_of_nodes h)
  case h_23 | h_24 => exact faithful_loop h hspan
  case h_25 => exact faithful_catchClause h _
  case h_26 | h_27 => exact faithful_block h _
  case h_28 =>
    exact Node.faithful_memberAccess (faithful_of_fieldNode? h) (name_of_fieldExcerpt? h) _
  case h_29 =>
    exact Node.faithful_messageExpression hmessage.receiver (hmessage.selector? hspans.message)
  case h_30 => exact faithful_cast h _
  case h_31 =>
    split
    · exact faithful_inclusion _
    · exact Node.faithful_generic _ (faithful_of_nodes h)

theorem sound_make : (make src head children).Sound std := by
  have hnames : ∀ e ∈ namesOf head (head.excerpt src) children, std.Name e := name_of_namesOf h hown
  have hspecifiers : ∀ s ∈ specifiersOf head (head.excerpt src) children, s.Faithful std :=
    faithful_of_specifiersOf h hown
  refine .intro ⟨hown, fun n hn => ?_, hnames, hspecifiers, faithful_declaratorOf h hown⟩ h
  simp only [make, nodeOf] at hn
  split at hn
  · cases hn
  · rw [← Option.some.inj hn]
    exact faithful_construct hown h hspans hnames hspecifiers

end Make

end Reading

end SymbolGraph
