import SymbolGraph.Cst.Parse
import SymbolGraph.Proofs.Faithful

/-!
# `Proofs.Reading` — readings that keep to a standard

A reading is SOUND for a standard if it is faithful to it in every role that its node
can play, and so are the readings below it.  Readings are made from the leaves up, and
so are the proofs: each role is faithful if the children are sound.  The two machines
for selectors, whose spans depend on the order of the children, are treated apart.
-/

namespace SymbolGraph

open SymbolGraph.Action

variable {std : Standard}

/-- The reading keeps to the standard, whatever the role of its node. -/
structure Reading.Faithful (std : Standard) (r : Reading) : Prop where
  excerpt : std.Name r.excerpt
  node : ∀ n ∈ r.node, n.Faithful std
  names : ∀ e ∈ r.names, std.Name e
  specifiers : ∀ s ∈ r.specifiers, s.Faithful std
  declarator : r.declarator.Faithful std

/-- The reading and all readings below it are faithful. -/
inductive Reading.Sound (std : Standard) : Reading → Prop
  | intro {r : Reading} :
      r.Faithful std → (∀ c ∈ r.children, Reading.Sound std c) → Reading.Sound std r

namespace Reading.Sound

variable {r : Reading}

theorem faithful : r.Sound std → r.Faithful std
  | intro h _ => h

theorem children : r.Sound std → ∀ c ∈ r.children, c.Sound std
  | intro _ h => h

theorem name (h : r.Sound std) : std.Name r.excerpt := h.faithful.excerpt

theorem span (h : r.Sound std) : std.Span r.excerpt := std.span_of_name h.name

end Reading.Sound

/-! ## Protocols after a specifier -/

namespace Specifier

variable {more : List Excerpt} (hmore : ∀ e ∈ more, std.Name e)
include hmore

theorem faithful_addProtocols {s : Specifier} (h : s.Faithful std) :
    (s.addProtocols more).Faithful std := by
  intro c
  have hs := h c
  have hnames := allFaithful_referNames hmore
  cases s with
  | other =>
      simp only [addProtocols, actions, List.map_append, allFaithful_append] at hs ⊢
      exact ⟨hs, hnames⟩
  | _ =>
      simp only [addProtocols, actions, List.map_append, allFaithful_append] at hs ⊢
      exact ⟨⟨hs.1, hnames⟩, hs.2⟩

theorem faithful_addProtocolsToLast : ∀ {specifiers : List Specifier},
    (∀ s ∈ specifiers, s.Faithful std) →
      ∀ s ∈ addProtocolsToLast more specifiers, s.Faithful std
  | [], _ => fun _ => nofun
  | [s], h => by
      intro t ht
      rw [List.mem_singleton.mp ht]
      exact faithful_addProtocols hmore (h s List.mem_cons_self)
  | s :: t :: rest, h => by
      obtain ⟨hs, hrest⟩ := List.forall_mem_cons.mp h
      exact List.forall_mem_cons.mpr ⟨hs, faithful_addProtocolsToLast hrest⟩

end Specifier

/-! ## Roles of a node -/

namespace Reading

variable {children : List Reading} (h : ∀ c ∈ children, c.Sound std)

section Children

include h

theorem sound_of_named {r : Reading} (hr : r ∈ named children) : r.Sound std :=
  h r (List.mem_of_mem_filter hr)

theorem sound_of_filling {field : String} {r : Reading} (hr : r ∈ filling field children) :
    r.Sound std := h r (List.mem_of_mem_filter hr)

theorem sound_of_field? {field : String} {r : Reading} (hr : r ∈ field? field children) :
    r.Sound std := h r (List.mem_of_find?_eq_some hr)

theorem name_of_fieldExcerpt? {field : String} :
    ∀ e ∈ fieldExcerpt? field children, std.Name e := by
  intro e he
  obtain ⟨r, hr, rfl⟩ := Option.map_eq_some_iff.mp he
  exact (sound_of_field? h hr).name

theorem faithful_of_fieldNode? {field : String} :
    ∀ n ∈ fieldNode? field children, n.Faithful std := by
  intro n hn
  obtain ⟨r, hr, hn⟩ := Option.bind_eq_some_iff.mp hn
  exact (sound_of_field? h hr).faithful.node n hn

theorem faithful_of_nodes : ∀ n ∈ nodes children, n.Faithful std := by
  intro n hn
  obtain ⟨r, hr, hn⟩ := List.mem_filterMap.mp hn
  exact (sound_of_named h hr).faithful.node n hn

theorem name_of_namesOf {head : Head} {excerpt : Excerpt} (hown : std.Name excerpt) :
    ∀ e ∈ namesOf head excerpt children, std.Name e := by
  intro e he
  unfold namesOf at he
  split at he
  · rw [List.mem_singleton.mp he]
    exact hown
  · obtain ⟨r, hr, he⟩ := List.mem_flatMap.mp he
    exact (sound_of_named h hr).faithful.names e he

theorem name_of_protocolsIn : ∀ e ∈ protocolsIn children, std.Name e := by
  intro e he
  obtain ⟨r, hr, he⟩ := List.mem_flatMap.mp he
  exact (sound_of_named h (List.mem_of_mem_filter hr)).faithful.names e he

/-! ### Types -/

theorem faithful_of_specifiersIn : ∀ s ∈ specifiersIn children, s.Faithful std := by
  unfold specifiersIn
  refine Specifier.faithful_addProtocolsToLast (name_of_protocolsIn h) fun s hs => ?_
  obtain ⟨r, hr, hs⟩ := List.mem_flatMap.mp hs
  refine Faithful.specifiers (Sound.faithful ?_) s hs
  split at hr
  · exact sound_of_named h (List.mem_of_mem_filter hr)
  · exact sound_of_filling h hr

theorem faithful_enumeration {excerpt : Excerpt} (hspan : std.Span excerpt) :
    (enumeration excerpt children).Faithful std where
  excerpt := hspan
  name := name_of_fieldExcerpt? h
  underlying := by
    intro t ht
    obtain ⟨r, hr, rfl⟩ := Option.map_eq_some_iff.mp ht
    exact (sound_of_field? h hr).faithful.specifiers
  constants := by
    intro k hk
    simp only [enumeration] at hk
    split at hk
    · cases hk
    · next body hbody =>
      obtain ⟨r, hr, rfl⟩ := List.mem_map.mp hk
      have hsound := sound_of_named (sound_of_field? h hbody).children (List.mem_of_mem_filter hr)
      exact ⟨hsound.span, name_of_fieldExcerpt? hsound.children,
        faithful_of_fieldNode? hsound.children⟩

omit h in
theorem faithful_of_predefinedPart {c : Reading} (hc : c.Sound std) :
    ∀ s ∈ predefinedPart c, s.Faithful std := by
  intro s hs
  unfold predefinedPart at hs
  split at hs
  · split at hs
    · cases hs
    · exact hc.faithful.specifiers s hs
  · split at hs
    · rw [List.mem_singleton.mp hs]
      exact Specifier.faithful_primitive hc.name fun _ => nofun
    · split at hs
      · rw [List.mem_singleton.mp hs]
        exact Specifier.faithful_named (fun n hn => Option.some.inj hn ▸ hc.name) fun _ => nofun
      · cases hs

theorem faithful_of_specifiersOf {head : Head} {excerpt : Excerpt} (hown : std.Name excerpt) :
    ∀ s ∈ specifiersOf head excerpt children, s.Faithful std := by
  have hnone : ∀ e ∈ ([] : List Excerpt), std.Name e := fun _ => nofun
  intro s hs
  unfold specifiersOf at hs
  split at hs
  · rw [List.mem_singleton.mp hs]
    exact Specifier.faithful_primitive hown hnone
  · rw [List.mem_singleton.mp hs]
    exact Specifier.faithful_primitive hown hnone
  · obtain ⟨c, hc, rfl⟩ := List.mem_map.mp hs
    exact Specifier.faithful_primitive (h c (List.mem_of_mem_filter hc)).name hnone
  · rw [List.mem_singleton.mp hs]
    exact Specifier.faithful_named (fun n hn => Option.some.inj hn ▸ hown) hnone
  · refine Specifier.faithful_addProtocolsToLast (name_of_protocolsIn h) (fun t ht => ?_) s hs
    obtain ⟨c, hc, ht⟩ := List.mem_flatMap.mp ht
    exact faithful_of_predefinedPart (h c hc) t ht
  · rw [List.mem_singleton.mp hs]
    exact Specifier.faithful_struct (name_of_fieldExcerpt? h) hnone
  · rw [List.mem_singleton.mp hs]
    exact Specifier.faithful_struct (name_of_fieldExcerpt? h) hnone
  · rw [List.mem_singleton.mp hs]
    refine Specifier.faithful_enum (fun x hx => ?_) hnone
    exact Option.some.inj hx ▸ faithful_enumeration h (std.span_of_name hown)
  · rw [List.mem_singleton.mp hs]
    refine Specifier.faithful_named (fun n hn => ?_) fun e he => ?_
    · rcases Option.or_eq_some_iff.mp hn with hn | ⟨-, hn⟩
      · exact name_of_fieldExcerpt? h n hn
      · exact name_of_namesOf h hown n (List.mem_of_mem_head? hn)
    · obtain ⟨c, hc, he⟩ := List.mem_flatMap.mp he
      exact (sound_of_named h (List.mem_of_mem_filter hc)).faithful.names e he
  · rw [List.mem_singleton.mp hs]
    exact Specifier.faithful_other hnone

end Children

theorem Sound.typeName {r : Reading} (hr : r.Sound std) : r.typeName.Faithful std := by
  unfold Reading.typeName
  intro s hs
  refine faithful_of_specifiersIn (Sound.children ?_) s hs
  cases hinner : (named r.children).find? _ with
  | none => exact hr
  | some inner => exact sound_of_named hr.children (List.mem_of_find?_eq_some hinner)

/-! ### Declarators -/

theorem faithful_noDeclarator : noDeclarator.Faithful std := ⟨fun _ => nofun, fun _ => nofun⟩

theorem Sound.parameter {r : Reading} (hr : r.Sound std) : (parameter r).Faithful std where
  excerpt := hr.span
  specifiers := faithful_of_specifiersIn hr.children
  name := by
    intro d hd
    obtain ⟨c, hc, rfl⟩ := Option.map_eq_some_iff.mp hd
    exact (sound_of_field? hr.children hc).faithful.declarator.name

theorem faithful_of_parametersOf {r : Option Reading} (hr : ∀ x ∈ r, x.Sound std) :
    ∀ p ∈ parametersOf r, p.Faithful std := by
  intro p hp
  cases r with
  | none => cases hp
  | some r =>
      obtain ⟨c, hc, rfl⟩ := List.mem_map.mp hp
      exact (sound_of_named (hr r rfl).children (List.mem_of_mem_filter hc)).parameter

theorem faithful_getD_declarator {r : Option Reading} (hr : ∀ x ∈ r, x.Sound std) :
    ((r.map (·.declarator)).getD noDeclarator).Faithful std := by
  cases r with
  | none => exact faithful_noDeclarator
  | some r => exact (hr r rfl).faithful.declarator

section Children

include h

theorem sound_of_innerDeclarator? : ∀ r ∈ innerDeclarator? children, r.Sound std := by
  intro r hr
  rcases Option.or_eq_some_iff.mp hr with hr | ⟨-, hr⟩
  · exact sound_of_field? h hr
  · exact sound_of_named h (List.mem_of_find?_eq_some hr)

theorem faithful_declaratorOf {head : Head} {excerpt : Excerpt} (hown : std.Name excerpt) :
    (declaratorOf head excerpt children).Faithful std := by
  unfold declaratorOf
  split
  · exact ⟨fun e he => Option.some.inj he ▸ hown, fun _ => nofun⟩
  · split
    · have hinner := faithful_getD_declarator fun r hr =>
        sound_of_named h (List.mem_of_mem_head? hr)
      exact ⟨hinner.name, hinner.parameters⟩
    · have hinner := faithful_getD_declarator (sound_of_innerDeclarator? h)
      refine ⟨hinner.name, fun ps hps => ?_⟩
      dsimp only at hps
      split at hps
      · rw [← Option.some.inj hps]
        exact faithful_of_parametersOf fun r hr => sound_of_field? h hr
      · exact hinner.parameters ps hps

theorem name_of_declaredNames : ∀ e ∈ declaredNames children, std.Name e := by
  intro e he
  obtain ⟨r, hr, he⟩ := List.mem_filterMap.mp he
  refine Declarator.Faithful.name (Faithful.declarator (Sound.faithful ?_)) e he
  split at hr
  · exact sound_of_named h (List.mem_of_mem_filter hr)
  · exact sound_of_filling h hr

end Children

theorem Sound.bareDeclarator {r : Reading} (hr : r.Sound std) :
    (bareDeclarator r).Faithful std :=
  ⟨fun _ hd => Option.some.inj hd ▸ hr.faithful.declarator, fun _ => nofun⟩

theorem Sound.initDeclarator {r : Reading} (hr : r.Sound std) :
    (initDeclarator r).Faithful std := by
  unfold Reading.initDeclarator
  split
  · refine ⟨fun d hd => ?_, faithful_of_fieldNode? hr.children⟩
    obtain ⟨c, hc, rfl⟩ := Option.map_eq_some_iff.mp hd
    exact (sound_of_field? hr.children hc).faithful.declarator
  · exact hr.bareDeclarator

/-- Declarators that are read one by one. -/
theorem faithful_of_map {f : Reading → InitDeclarator} {rs : List Reading}
    (hf : ∀ {r : Reading}, r.Sound std → (f r).Faithful std) (hrs : ∀ r ∈ rs, r.Sound std) :
    ∀ i ∈ rs.map f, i.Faithful std := by
  intro i hi
  obtain ⟨r, hr, rfl⟩ := List.mem_map.mp hi
  exact hf (hrs r hr)

section Children

include h

theorem faithful_declaration {excerpt : Excerpt} (hspan : std.Span excerpt) :
    (declaration excerpt children).Faithful std :=
  ⟨hspan, faithful_of_specifiersIn h,
    faithful_of_map Sound.initDeclarator fun _ hr => sound_of_filling h hr⟩

theorem faithful_typeDefinition {excerpt : Excerpt} (hspan : std.Span excerpt) :
    (typeDefinition excerpt children).Faithful std :=
  ⟨hspan, faithful_of_specifiersIn h,
    faithful_of_map Sound.bareDeclarator fun _ hr => sound_of_filling h hr⟩

/-! ### Statements and expressions -/

theorem faithful_of_nodesExcept (excluded : List Reading) :
    ∀ n ∈ nodesExcept excluded children, n.Faithful std :=
  faithful_of_nodes fun c hc => h c (List.mem_of_mem_filter hc)

theorem faithful_of_inDeclaration? {excerpt : Excerpt} (hspan : std.Span excerpt) :
    ∀ d ∈ inDeclaration? excerpt children, d.Faithful std := by
  have hheader : ∀ r ∈ inHeader children, r.Sound std := fun r hr =>
    h r ((List.takeWhile_sublist _).subset (List.mem_of_mem_filter hr))
  intro d hd
  simp only [inDeclaration?] at hd
  split at hd
  · cases hd
  · rw [← Option.some.inj hd]
    refine ⟨hspan, fun s hs => ?_, faithful_of_map Sound.bareDeclarator fun r hr =>
      hheader r (List.mem_of_mem_filter hr)⟩
    obtain ⟨r, hr, hs⟩ := List.mem_flatMap.mp hs
    exact (hheader r (List.mem_of_mem_filter hr)).faithful.specifiers s hs

theorem faithful_of_loopHeader {excerpt : Excerpt} (hspan : std.Span excerpt) :
    ∀ d ∈ (loopHeader excerpt children).1, d.Faithful std := by
  intro d hd
  simp only [loopHeader] at hd
  split at hd
  · next r hr =>
    have hsound := sound_of_field? h (Option.filter_eq_some_iff.mp hr).1
    rw [← Option.some.inj hd]
    exact faithful_declaration hsound.children hsound.span
  · split at hd
    · rw [← Option.some.inj hd]
      exact ⟨hspan, faithful_of_specifiersIn h,
        faithful_of_map Sound.bareDeclarator fun r hr => sound_of_filling h hr⟩
    · split at hd
      · split at hd
        · next hdeclaration =>
          rw [← Option.some.inj hd]
          exact faithful_of_inDeclaration? h hspan _ hdeclaration
        · cases hd
      · split at hd
        · next r hr =>
          have hsound := sound_of_named h (List.mem_of_find?_eq_some hr)
          rw [← Option.some.inj hd]
          exact faithful_declaration hsound.children hsound.span
        · cases hd

theorem faithful_loop {excerpt : Excerpt} (hspan : std.Span excerpt) :
    (loop excerpt children).Faithful std :=
  Node.faithful_forStatement (faithful_of_loopHeader h hspan) (faithful_of_nodesExcept h _)
    (faithful_of_fieldNode? h)

theorem faithful_of_lastBlock? : ∀ n ∈ (lastBlock? children).bind (·.node), n.Faithful std := by
  intro n hn
  obtain ⟨r, hr, hn⟩ := Option.bind_eq_some_iff.mp hn
  exact (sound_of_named h (List.mem_of_mem_filter (List.mem_of_getLast? hr))).faithful.node n hn

omit h in
theorem Sound.catchParameter {r : Reading} (hr : r.Sound std) :
    (catchParameter r).Faithful std where
  excerpt := hr.span
  specifiers := faithful_of_specifiersIn hr.children
  name := by
    intro d hd
    obtain ⟨c, hc, rfl⟩ := Option.map_eq_some_iff.mp hd
    refine Declarator.Faithful.name (Faithful.declarator (Sound.faithful ?_))
    rcases Option.or_eq_some_iff.mp hc with hc | ⟨-, hc⟩
    · exact sound_of_field? hr.children hc
    · exact sound_of_named hr.children (List.mem_of_find?_eq_some hc)

theorem faithful_catchClause (excerpt : Excerpt) : (catchClause excerpt children).Faithful std := by
  refine Node.faithful_catchClause (fun p hp => ?_) (faithful_of_lastBlock? h)
  obtain ⟨r, hr, rfl⟩ := Option.map_eq_some_iff.mp hp
  exact (sound_of_named h (List.mem_of_find?_eq_some hr)).catchParameter

theorem faithful_block (excerpt : Excerpt) : (block excerpt children).Faithful std := by
  refine Node.faithful_blockExpression (faithful_of_parametersOf fun r hr => ?_)
    (faithful_of_lastBlock? h)
  exact sound_of_named h (List.mem_of_mem_filter (List.mem_of_getLast? hr))

theorem faithful_cast (excerpt : Excerpt) : (cast excerpt children).Faithful std := by
  refine Node.faithful_castExpression (fun t ht => ?_) (faithful_of_fieldNode? h)
  obtain ⟨r, hr, rfl⟩ := Option.map_eq_some_iff.mp ht
  exact (sound_of_field? h hr).typeName

theorem faithful_function {excerpt : Excerpt} (hspan : std.Span excerpt) :
    (function excerpt children).Faithful std := by
  refine Node.faithful_functionDefinition hspan (faithful_of_specifiersIn h) (fun d hd => ?_)
    (faithful_of_fieldNode? h)
  obtain ⟨r, hr, rfl⟩ := Option.map_eq_some_iff.mp hd
  exact (sound_of_field? h hr).faithful.declarator

end Children

/-! ### Containers -/

theorem Sound.ivar {r : Reading} (hr : r.Sound std) (visibility : Option String) :
    (ivar visibility r).Faithful std := by
  have htarget : ∀ {target : Reading}, target.Sound std →
      Ivar.Faithful std ⟨r.excerpt, specifiersIn target.children, declaredNames target.children,
        visibility⟩ := fun htarget =>
    ⟨hr.span, faithful_of_specifiersIn htarget.children, name_of_declaredNames htarget.children⟩
  unfold Reading.ivar
  dsimp only
  split
  · split
    · next inner hinner =>
      have hmem : inner ∈ (named r.children).filter (·.head.isIvar) :=
        hinner ▸ List.mem_singleton_self inner
      exact htarget (sound_of_named hr.children (List.mem_of_mem_filter hmem))
    · exact htarget hr
  · exact htarget hr

theorem faithful_of_ivars : ∀ {rs : List Reading} (visibility : Option String),
    (∀ r ∈ rs, r.Sound std) → ∀ i ∈ ivars visibility rs, i.Faithful std
  | [], _, _ => fun _ => nofun
  | r :: rest, visibility, hrs => by
      obtain ⟨hr, hrest⟩ := List.forall_mem_cons.mp hrs
      unfold ivars
      split
      · exact faithful_of_ivars _ hrest
      · split
        · exact faithful_of_ivars _ hrest
        · split
          · exact List.forall_mem_cons.mpr ⟨hr.ivar _, faithful_of_ivars _ hrest⟩
          · dsimp only
            split
            · exact faithful_of_ivars _ hrest
            · exact List.forall_mem_cons.mpr ⟨hr.ivar _, faithful_of_ivars _ hrest⟩

structure Container.Faithful (std : Standard) (s : Container) : Prop where
  name : ∀ e ∈ s.name, std.Name e
  superclass : ∀ e ∈ s.superclass, std.Name e
  category : ∀ e ∈ s.category, std.Name e
  protocols : ∀ e ∈ s.protocols, std.Name e
  ivars : ∀ i ∈ s.ivars, i.Faithful std
  members : ∀ n ∈ s.members, n.Faithful std

namespace Container.Faithful

variable {s : Container} (hs : s.Faithful std)
include hs

theorem addName {name : Option Excerpt} (hname : ∀ e ∈ name, std.Name e) :
    (s.addName name).Faithful std := by
  unfold Container.addName
  split
  · exact { hs with name := hname }
  · split
    · exact { hs with category := hname }
    · split
      · exact { hs with superclass := hname }
      · exact hs

theorem step {r : Reading} (hr : r.Sound std) : (s.step r).Faithful std := by
  have hprotocols : ∀ e ∈ s.protocols ++ r.names, std.Name e :=
    List.forall_mem_append.mpr ⟨hs.protocols, hr.faithful.names⟩
  have hmembers : ∀ n ∈ s.members ++ r.node.toList, n.Faithful std :=
    List.forall_mem_append.mpr
      ⟨hs.members, fun n hn => hr.faithful.node n (Option.mem_toList.mp hn)⟩
  unfold Container.step
  split
  · exact { hs with }
  · split
    · exact { hs with }
    · split
      · exact { hs with }
      · split
        · exact hs.addName fun e he => hr.faithful.names e (List.mem_of_mem_head? he)
        · split
          · exact { hs with protocols := hprotocols }
          · split
            · exact { hs with ivars := faithful_of_ivars none hr.children }
            · split
              · exact { hs with members := hmembers }
              · exact hs

end Container.Faithful

section Children

include h

theorem faithful_container : (container children).Faithful std := by
  have hfold : ∀ {s : Container}, s.Faithful std →
      (children.foldl Container.step s).Faithful std := by
    induction children with
    | nil => exact fun hs => hs
    | cons r rest ih =>
        obtain ⟨hr, hrest⟩ := List.forall_mem_cons.mp h
        exact fun hs => ih hrest (hs.step hr)
  exact hfold ⟨fun _ => nofun, fun _ => nofun, fun _ => nofun, fun _ => nofun, fun _ => nofun,
    fun _ => nofun⟩

theorem faithful_interface {excerpt : Excerpt} (hspan : std.Span excerpt) :
    (interface excerpt children).Faithful std := by
  have hs := faithful_container h
  unfold interface
  dsimp only
  split
  · exact Node.faithful_categoryInterface hs.name hs.ivars hs.members hspan hs.category
      hs.protocols
  · exact Node.faithful_classInterface hs.name hs.ivars hs.members hspan hs.superclass
      hs.protocols

theorem faithful_implementation (excerpt : Excerpt) :
    (implementation excerpt children).Faithful std := by
  have hs := faithful_container h
  exact Node.faithful_classImplementation hs.name hs.ivars hs.members hs.superclass hs.category

theorem faithful_protocol {excerpt : Excerpt} {names : List Excerpt}
    (hspan : std.Span excerpt) (hnames : ∀ e ∈ names, std.Name e) :
    (protocol excerpt names children).Faithful std := by
  unfold protocol
  split
  · exact Node.faithful_forwardDeclaration hnames _
  · have hs := faithful_container h
    exact Node.faithful_protocolDeclaration hs.name hs.members hspan hs.protocols

theorem faithful_property {excerpt : Excerpt} (hspan : std.Span excerpt) :
    (property excerpt children).Faithful std := by
  have htarget : ∀ {target : List Reading}, (∀ c ∈ target, c.Sound std) → ∀ attributes,
      (Node.propertyDeclaration excerpt attributes (specifiersIn target)
        (declaredNames target)).Faithful std := fun ht =>
    Node.faithful_propertyDeclaration hspan (faithful_of_specifiersIn ht) (name_of_declaredNames ht)
  unfold property
  dsimp only
  split
  · next inner hinner =>
    exact htarget (sound_of_named h
      (List.mem_of_mem_filter (List.mem_of_getLast? hinner))).children _
  · exact htarget h _

end Children

end Reading

end SymbolGraph
