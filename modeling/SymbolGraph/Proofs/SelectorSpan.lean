import SymbolGraph.Proofs.Construct
import SymbolGraph.Proofs.Placed

/-!
# `Proofs.SelectorSpan` — the spans of selectors

The span of a selector, and those of its parts, are put together from several nodes:
they begin with one and end with another.  That they are spans at all depends on the
order in which the two machines see the nodes.  Both are followed by an invariant
about a POSITION, behind which nothing has been read: what has been read lies before
it, and the next node does not.
-/

namespace SymbolGraph

variable {src : Octets}

/-- The excerpt lies in the source, before a position. -/
structure Excerpt.Before (src : Octets) (position : Int) (e : Excerpt) : Prop where
  within : e.Within src
  before : e.stop < position

theorem Excerpt.Before.mono {p q : Int} {e : Excerpt} (h : e.Before src p) (hle : p ≤ q) :
    e.Before src q := ⟨h.within, by have := h.before; omega⟩

namespace Reading

/-! ## Positions -/

/-- The readings lie one behind the other in a range. -/
def Ordered (low high : Int) : List Reading → Prop
  | [] => low ≤ high
  | r :: rest => low ≤ r.head.start ∧ Ordered r.head.stop high rest

/-- The reading is that of a range in the source, and those below it lie one behind the
other in that range. -/
inductive Placed (src : Octets) : Reading → Prop
  | intro {r : Reading} : r.head.Fits src → r.excerpt = r.head.excerpt src →
      Ordered r.head.start r.head.stop r.children → (∀ c ∈ r.children, Placed src c) → Placed src r

namespace Placed

variable {r : Reading}

theorem fits : r.Placed src → r.head.Fits src
  | intro h _ _ _ => h

theorem excerpt : r.Placed src → r.excerpt = r.head.excerpt src
  | intro _ h _ _ => h

theorem ordered : r.Placed src → Ordered r.head.start r.head.stop r.children
  | intro _ _ h _ => h

theorem children : r.Placed src → ∀ c ∈ r.children, c.Placed src
  | intro _ _ _ h => h

theorem within (h : r.Placed src) : r.excerpt.Within src := h.excerpt ▸ h.fits.cut.within

end Placed

theorem Ordered.le : ∀ {low high : Int} {rs : List Reading}, Ordered low high rs →
    (∀ c ∈ rs, c.Placed src) → low ≤ high
  | _, _, [], h, _ => h
  | low, high, c :: rest, ⟨hstart, hrest⟩, hrs => by
      obtain ⟨hc, hplaced⟩ := List.forall_mem_cons.mp hrs
      have hnonempty := hc.fits.nonempty
      have hstop := hrest.le hplaced
      omega

theorem Ordered.mem {r : Reading} : ∀ {low high : Int} {rs : List Reading}, Ordered low high rs →
    (∀ c ∈ rs, c.Placed src) → r ∈ rs → low ≤ r.head.start ∧ r.head.stop ≤ high
  | low, high, c :: rest, ⟨hstart, hrest⟩, hrs, hr => by
      obtain ⟨hc, hplaced⟩ := List.forall_mem_cons.mp hrs
      have hnonempty := hc.fits.nonempty
      rcases List.mem_cons.mp hr with rfl | hmem
      · exact ⟨hstart, hrest.le hplaced⟩
      · obtain ⟨hlow, hstop⟩ := hrest.mem hplaced hmem
        exact ⟨by omega, hstop⟩

variable {r : Reading} {p : Int}

theorem Placed.before (hr : r.Placed src) (hp : r.head.stop ≤ p) : r.excerpt.Before src p := by
  refine ⟨hr.within, ?_⟩
  have hnonempty := hr.fits.nonempty
  rw [hr.excerpt]
  simp only [Head.excerpt]
  omega

theorem Placed.before_children (hr : r.Placed src) :
    ∀ c ∈ r.children, c.excerpt.Before src r.head.stop := fun c hc =>
  (hr.children c hc).before (hr.ordered.mem hr.children hc).2

/-- The span of a name that is pending, or of a colon without one, up to the colon. -/
theorem spans_colon {pending : Option Excerpt} (hpending : ∀ e ∈ pending, e.Before src p)
    (hr : r.Placed src) (hp : p ≤ r.head.start) :
    src.Spans ((pending.map (·.start)).getD r.head.start) r.head.start := by
  obtain ⟨hnonneg, hnonempty, hbounded⟩ := hr.fits
  cases pending with
  | none => exact ⟨hnonneg, Int.le_refl _, by omega⟩
  | some e =>
      obtain ⟨hwithin, hbefore⟩ := hpending e rfl
      have hordered := hwithin.ordered
      exact ⟨hwithin.nonneg, by simp only [Option.map_some, Option.getD_some]; omega, by omega⟩

/-- The span from a start to the end of a node. -/
theorem spans_to_stop {start : Int} (hnonneg : 0 ≤ start) (hstart : start < src.size)
    (hr : r.Placed src) : src.Spans start (max start (r.head.stop - 1)) := by
  have hbounded := hr.fits.bounded
  exact ⟨hnonneg, by omega, by omega⟩

/-! ## Methods -/

/-- The part and its keyword lie in the source. -/
structure PartWithin (src : Octets) (k : KeywordDeclarator) : Prop where
  excerpt : k.excerpt.Within src
  keyword : ∀ e ∈ k.keyword, e.Within src

/-- A part that is a node of its own. -/
theorem partWithin_keywordDeclarator {pending : Option Excerpt}
    (hpending : ∀ e ∈ pending, e.Before src r.head.stop) (hr : r.Placed src) :
    let k := keywordDeclarator src pending r
    PartWithin src k ∧ k.excerpt.start ≤ r.head.stop ∧ r.head.start ≤ k.excerpt.stop := by
  obtain ⟨hnonneg, hnonempty, hbounded⟩ := hr.fits
  have hkeyword := (forall_keywordDeclarator src hpending hr.before_children).1
  -- The part begins with its keyword or, if it has none, with its own node.
  have hstart : (keywordDeclarator src pending r).excerpt.start =
      ((keywordDeclarator src pending r).keyword.map (·.start)).getD r.head.start := rfl
  have hstop : (keywordDeclarator src pending r).excerpt.stop =
      max (keywordDeclarator src pending r).excerpt.start (r.head.stop - 1) := rfl
  generalize keywordDeclarator src pending r = k at hkeyword hstart hstop
  have hbegins : 0 ≤ k.excerpt.start ∧ k.excerpt.start < r.head.stop := by
    rw [hstart]
    cases hk : k.keyword with
    | none => exact ⟨hnonneg, hnonempty⟩
    | some e =>
        obtain ⟨hwithin, hbefore⟩ := hkeyword e hk
        have hordered := hwithin.ordered
        exact ⟨hwithin.nonneg, by simp only [Option.map_some, Option.getD_some]; omega⟩
  have hspans := spans_to_stop hbegins.1 (by omega) hr
  rw [← hstop] at hspans
  exact ⟨⟨hspans, fun e he => (hkeyword e he).within⟩, by omega, by omega⟩

/-- What a machine for methods has read lies before a position. -/
structure MethodState.Placed (src : Octets) (position : Int) (s : MethodState) : Prop where
  pending : ∀ e ∈ s.pending, e.Before src position
  first : ∀ f ∈ s.first, 0 ≤ f ∧ f ≤ position
  current : ∀ k ∈ s.current, PartWithin src k ∧ k.excerpt.stop < position ∧
    ∃ f ∈ s.first, f ≤ k.excerpt.stop
  keywords : ∀ k ∈ s.keywords, PartWithin src k
  span : s.keywords ≠ [] → ∃ f ∈ s.first, src.Spans f s.last

namespace MethodState.Placed

variable {s : MethodState} (hs : s.Placed src p)
include hs

theorem mono {q : Int} (hle : p ≤ q) : s.Placed src q where
  pending := fun e he => (hs.pending e he).mono hle
  first := fun f hf => by
    obtain ⟨hnonneg, hlast⟩ := hs.first f hf
    exact ⟨hnonneg, by omega⟩
  current := fun k hk => by
    obtain ⟨hwithin, hstop, hfirst⟩ := hs.current k hk
    exact ⟨hwithin, by omega, hfirst⟩
  keywords := hs.keywords
  span := hs.span

/-- The selector begins, at the latest, with what is read now. -/
theorem exists_first {start stop : Int} (hspans : src.Spans start stop) (hstop : p ≤ stop) :
    ∃ f ∈ s.first.or (some start), src.Spans f stop := by
  cases hfirst : s.first with
  | none => exact ⟨start, rfl, hspans⟩
  | some f =>
      obtain ⟨hnonneg, hlast⟩ := hs.first f hfirst
      exact ⟨f, rfl, hnonneg, by omega, hspans.bounded⟩

theorem first_or {start q : Int} (hnonneg : 0 ≤ start) (hstart : start ≤ q) (hle : p ≤ q) :
    ∀ f ∈ s.first.or (some start), 0 ≤ f ∧ f ≤ q := by
  intro f hf
  rcases Option.or_eq_some_iff.mp hf with hf | ⟨-, hf⟩
  · exact (hs.mono hle).first f hf
  · rw [← Option.some.inj hf]
    exact ⟨hnonneg, hstart⟩

theorem addPart {k : KeywordDeclarator} (hk : PartWithin src k) :
    ∀ x ∈ s.keywords ++ [k], PartWithin src x :=
  List.forall_mem_append.mpr ⟨hs.keywords, fun _ hx => List.mem_singleton.mp hx ▸ hk⟩

/-- A part that is a node of its own comes to an end. -/
theorem addNode (hr : r.Placed src) (hp : p ≤ r.head.start) :
    let k := keywordDeclarator src s.pending r
    MethodState.Placed src r.head.stop { s with
      pending := none
      keywords := s.keywords ++ [k]
      first := s.first.or (some k.excerpt.start)
      last := k.excerpt.stop } := by
  have hnonempty := hr.fits.nonempty
  have hmono := hs.mono (q := r.head.stop) (by omega)
  obtain ⟨hwithin, hstart, hstop⟩ := partWithin_keywordDeclarator hmono.pending hr
  exact {
    pending := fun _ => nofun
    first := hs.first_or hwithin.excerpt.nonneg hstart (by omega)
    current := fun k hk => by
      obtain ⟨hk, hbefore, f, hf, hfirst⟩ := hmono.current k hk
      exact ⟨hk, hbefore, f, Option.or_eq_some_iff.mpr (Or.inl hf), hfirst⟩
    keywords := hs.addPart hwithin
    span := fun _ => hs.exists_first hwithin.excerpt (Int.le_trans hp hstop) }

/-- A colon opens a part. -/
theorem openPart (hr : r.Placed src) (hp : p ≤ r.head.start) :
    let start := (s.pending.map (·.start)).getD r.head.start
    MethodState.Placed src r.head.stop { s with
      pending := none
      current := some ⟨⟨"", start, r.head.start⟩, s.pending, none, none⟩
      first := s.first.or (some start) } := by
  have hnonempty := hr.fits.nonempty
  have hspans := spans_colon hs.pending hr hp
  have hordered := hspans.ordered
  exact {
    pending := fun _ => nofun
    first := hs.first_or hspans.nonneg (by omega) (by omega)
    current := fun k hk => by
      obtain ⟨f, hf, hfirst⟩ := hs.exists_first hspans hp
      rw [← Option.some.inj hk]
      exact ⟨⟨hspans, fun e he => (hs.pending e he).within⟩, hnonempty, f, hf, hfirst.ordered⟩
    keywords := hs.keywords
    span := fun hne => by
      obtain ⟨f, hf, hspan⟩ := hs.span hne
      exact ⟨f, Option.or_eq_some_iff.mpr (Or.inl hf), hspan⟩ }

/-- A name closes the part that is open. -/
theorem closePart {k : KeywordDeclarator} (hk : s.current = some k) (hr : r.Placed src)
    (hp : p ≤ r.head.start) :
    MethodState.Placed src r.head.stop { s with
      current := none
      keywords := s.keywords ++ [{ k with
        excerpt := ⟨src.text k.excerpt.start (r.excerpt.stop + 1), k.excerpt.start, r.excerpt.stop⟩
        name := r.excerpt }]
      last := r.excerpt.stop } := by
  have hnonempty := hr.fits.nonempty
  have hmono := hs.mono (q := r.head.stop) (by omega)
  obtain ⟨hwithin, hstop, f, hf, hfirst⟩ := hs.current k hk
  have hopened := hwithin.excerpt
  have hordered := hopened.ordered
  have hstart : r.head.start ≤ r.excerpt.stop := by
    rw [hr.excerpt]
    exact Int.le_max_left _ _
  exact { hmono with
    current := fun _ => nofun
    keywords := hs.addPart
      ⟨⟨hopened.nonneg, by dsimp only; omega, hr.within.bounded⟩, hwithin.keyword⟩
    span := fun _ => ⟨f, hf, (hs.first f hf).1, by dsimp only; omega, hr.within.bounded⟩ }

theorem step (hr : r.Placed src) (hp : p ≤ r.head.start) :
    (s.step src r).Placed src r.head.stop := by
  have hnonempty := hr.fits.nonempty
  have hmono := hs.mono (q := r.head.stop) (by omega)
  unfold MethodState.step
  split
  · exact { hmono with }
  · split
    · exact { hmono with }
    · split
      · exact hs.addNode hr hp
      · split
        · exact hs.openPart hr hp
        · split
          · next k hk =>
            split
            · obtain ⟨hwithin, hrest⟩ := hmono.current k hk
              refine { hmono with current := fun x hx => ?_ }
              rw [← Option.some.inj hx]
              exact ⟨{ hwithin with }, hrest⟩
            · split
              · exact hs.closePart hk hr hp
              · exact hmono
          · split
            · have hbefore := hr.before (Int.le_refl _)
              exact { hmono with pending := fun e he => Option.some.inj he ▸ hbefore }
            · exact hmono

theorem finish : s.finish.Placed src p := by
  unfold MethodState.finish
  split
  · exact hs
  · next k hk =>
    obtain ⟨hwithin, -, f, hf, hfirst⟩ := hs.current k hk
    exact { hs with
      current := fun _ => nofun
      keywords := hs.addPart hwithin
      span := fun _ => ⟨f, hf, (hs.first f hf).1, hfirst, hwithin.excerpt.bounded⟩ }

theorem anchor : ∀ x ∈ s.selector? src, x.anchor.Within src := by
  intro x hx
  unfold MethodState.selector? at hx
  split at hx
  · obtain ⟨e, he, rfl⟩ := Option.map_eq_some_iff.mp hx
    exact (hs.pending e he).within
  · next hne =>
    obtain ⟨f, hf, hspan⟩ := hs.span hne
    rw [← Option.some.inj hx, Option.mem_def.mp hf, Option.getD_some]
    unfold Selector.anchor
    split
    · next hunary => cases hunary
    · next hkeywords => exact (hs.keywords _ (hkeywords ▸ List.mem_cons_self)).keyword _ rfl
    · exact hspan

end MethodState.Placed

theorem MethodState.Placed.foldl {high : Int} : ∀ {rs : List Reading} {low : Int} {s : MethodState},
    s.Placed src low → (∀ c ∈ rs, c.Placed src) → Ordered low high rs →
      (rs.foldl (MethodState.step src) s).Placed src high
  | [], _, _, hs, _, hordered => hs.mono hordered
  | _ :: _, _, _, hs, hrs, ⟨hstart, hrest⟩ => by
      obtain ⟨hr, hplaced⟩ := List.forall_mem_cons.mp hrs
      exact (hs.step hr hstart).foldl hplaced hrest

theorem placed_methodState {children : List Reading} {low high : Int}
    (h : ∀ c ∈ children, c.Placed src) (hordered : Ordered low high children) :
    (methodState src children).Placed src high := by
  have hinitial : MethodState.Placed src low {} :=
    ⟨fun _ => nofun, fun _ => nofun, fun _ => nofun, fun _ => nofun, fun hne => absurd rfl hne⟩
  exact (hinitial.foldl h hordered).finish

/-! ## Messages -/

/-- A part of a message that has been read before a position. -/
structure PartBefore (src : Octets) (position : Int) (k : KeywordArgument) : Prop where
  within : k.excerpt.Within src
  before : k.excerpt.stop < position
  keyword : ∀ e ∈ k.keyword, e.Within src

theorem PartBefore.mono {q : Int} {k : KeywordArgument} (h : PartBefore src p k) (hle : p ≤ q) :
    PartBefore src q k := ⟨h.within, by have := h.before; omega, h.keyword⟩

/-- What the machine for messages has read lies before a position.  No part ends before
another one in front of it begins. -/
structure MessageState.Placed (src : Octets) (position : Int) (s : MessageState) : Prop where
  pending : ∀ e ∈ s.pending, e.Before src position
  keywords : ∀ k ∈ s.allKeywords, PartBefore src position k
  ordered : s.allKeywords.Pairwise fun a b => a.excerpt.start ≤ b.excerpt.stop

namespace MessageState.Placed

variable {s : MessageState} (hs : s.Placed src p)
include hs

theorem mono {q : Int} (hle : p ≤ q) : s.Placed src q where
  pending := fun e he => (hs.pending e he).mono hle
  keywords := fun k hk => (hs.keywords k hk).mono hle
  ordered := hs.ordered

/-- The parts that are closed, and one more that ends behind the position. -/
theorem addPart {q : Int} {k : KeywordArgument} (hk : PartBefore src q k) (hle : p ≤ q)
    (hstop : p ≤ k.excerpt.stop) :
    (∀ x ∈ s.keywords ++ [k], PartBefore src q x) ∧
      (s.keywords ++ [k]).Pairwise fun a b => a.excerpt.start ≤ b.excerpt.stop := by
  have hclosed : ∀ x ∈ s.keywords, PartBefore src p x := fun x hx =>
    hs.keywords x (List.mem_append_left _ hx)
  refine ⟨List.forall_mem_append.mpr ⟨fun x hx => (hclosed x hx).mono hle, fun x hx =>
    List.mem_singleton.mp hx ▸ hk⟩, List.pairwise_append.mpr ⟨?_, List.pairwise_singleton _ _, ?_⟩⟩
  · exact (List.pairwise_append.mp hs.ordered).1
  · intro a ha b hb
    rw [List.mem_singleton.mp hb]
    have hbefore := (hclosed a ha).before
    have hordered := (hclosed a ha).within.ordered
    omega

theorem step (hr : r.Placed src) (hp : p ≤ r.head.start) :
    (s.step src r).Placed src r.head.stop := by
  have hnonempty := hr.fits.nonempty
  have hmono := hs.mono (q := r.head.stop) (by omega)
  have hown := hr.before (Int.le_refl _)
  unfold MessageState.step
  split
  · have hspans := spans_colon hs.pending hr hp
    obtain ⟨hkeywords, hordered⟩ := hs.addPart (k := ⟨⟨"", _, r.head.start⟩, s.pending, none⟩)
      ⟨hspans, hnonempty, fun e he => (hs.pending e he).within⟩ (by omega) hp
    exact ⟨fun _ => nofun, hkeywords, hordered⟩
  · split
    · next k hk =>
      split
      · have hopen := hs.keywords k (List.mem_append_right _ (by simp [hk]))
        have hbefore := hopen.before
        have hbounded := hopen.within.bounded
        have hstart := hopen.within.ordered
        have hspans := spans_to_stop hopen.within.nonneg (by omega) hr
        obtain ⟨hkeywords, hordered⟩ := hs.addPart (q := r.head.stop) (k := { k with
            excerpt := ⟨src.text k.excerpt.start r.head.stop, k.excerpt.start, _⟩
            argument := r.node })
          ⟨hspans, by dsimp only; omega, hopen.keyword⟩ (by omega) (by dsimp only; omega)
        refine ⟨hmono.pending, ?_, ?_⟩
        · simpa [MessageState.allKeywords] using hkeywords
        · simpa [MessageState.allKeywords] using hordered
      · split
        · exact { hmono with pending := fun e he => Option.some.inj he ▸ hown }
        · exact hmono
    · split
      · exact { hmono with pending := fun e he => Option.some.inj he ▸ hown }
      · exact hmono

theorem anchor : ∀ x ∈ s.selector? src, x.anchor.Within src := by
  intro x hx
  unfold MessageState.selector? at hx
  split at hx
  · obtain ⟨e, he, rfl⟩ := Option.map_eq_some_iff.mp hx
    exact (hs.pending e he).within
  · next k rest hparts =>
    have hkeywords : ∀ y ∈ k :: rest, PartBefore src p y := hparts ▸ hs.keywords
    have hk := hkeywords k List.mem_cons_self
    have hspan : src.Spans k.excerpt.start ((k :: rest).getLastD k).excerpt.stop := by
      rw [List.getLastD_cons]
      have hmem : rest.getLastD k ∈ k :: rest := List.getLastD_mem_cons
      rcases List.mem_cons.mp hmem with hlast | hlast
      · rw [hlast]
        exact hk.within
      · have hordered := List.pairwise_cons.mp (hparts ▸ hs.ordered)
        exact ⟨hk.within.nonneg, hordered.1 _ hlast,
          (hkeywords _ (List.mem_cons_of_mem _ hlast)).within.bounded⟩
    rw [← Option.some.inj hx]
    unfold MessageSelector.anchor
    split
    · next hunary => cases hunary
    · next hcons =>
      rw [(List.cons.inj hcons).1] at hk
      exact hk.keyword _ rfl
    · exact hspan

end MessageState.Placed

mutual

theorem MessageState.Placed.read : ∀ {r : Reading} {p : Int} {s : MessageState}, s.Placed src p →
    r.Placed src → p ≤ r.head.start → (s.read src r).Placed src r.head.stop
  | ⟨head, excerpt, node, names, specifiers, declarator, children⟩, p, s, hs, hr, hp => by
      have hnonempty := hr.fits.nonempty
      have hmono := hs.mono (q := head.stop) (by dsimp only at hp hnonempty; omega)
      unfold MessageState.read
      dsimp only
      split
      · exact hmono
      · split
        · exact { hmono with }
        · split
          · exact (hs.mono hp).readAll hr.children hr.ordered
          · exact hs.step hr hp

theorem MessageState.Placed.readAll {high : Int} : ∀ {rs : List Reading} {low : Int}
    {s : MessageState}, s.Placed src low → (∀ c ∈ rs, c.Placed src) → Ordered low high rs →
      (s.readAll src rs).Placed src high
  | [], _, _, hs, _, hordered => hs.mono hordered
  | r :: rest, _, _, hs, hrs, ⟨hstart, hrest⟩ => by
      obtain ⟨hr, hplaced⟩ := List.forall_mem_cons.mp hrs
      unfold MessageState.readAll
      exact (hs.read hr hstart).readAll hplaced hrest

end

theorem placed_messageState {children : List Reading} {low high : Int}
    (h : ∀ c ∈ children, c.Placed src) (hordered : Ordered low high children) :
    (MessageState.readAll src {} children).Placed src high := by
  have hinitial : MessageState.Placed src low {} :=
    ⟨fun _ => nofun, fun _ => nofun, List.Pairwise.nil⟩
  exact hinitial.readAll h hordered

end Reading

end SymbolGraph
