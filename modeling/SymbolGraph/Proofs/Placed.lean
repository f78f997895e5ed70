import SymbolGraph.Cst.Parse

/-!
# `Proofs.Placed` — trees that lie well in their source

A concrete syntax tree is PLACED in a range if its own range is not empty and lies
in that one, and its children, one behind the other, are placed in its own.  Of a
tree that is placed in its source every node has some text: octets never decode to
nothing.  So such a tree always parses, and the excerpt of each of its nodes is CUT
from the source, that is, its text is the text of its span.
-/

namespace SymbolGraph

/-! ## Octets have some text -/

namespace Text.Utf8

/-- An octet that begins a character completes it, or leaves the machine inside it. -/
theorem within_of_first {b : UInt8} {state : State} (h : first b = some (state, none)) :
    state ≠ .idle := by
  rintro rfl
  unfold first at h
  repeat' split at h
  all_goals simp at h

theorem within_of_next {needed : Nat} {low high : UInt8} {bits : Nat} {b : UInt8} {state : State}
    (h : next needed low high bits b = some (state, none)) : state ≠ .idle := by
  rintro rfl
  simp only [next] at h
  repeat' split at h
  all_goals simp at h

theorem decodeFrom_ne_nil (octets : List UInt8) : ∀ (state : State) (read : List Char),
    state ≠ .idle ∨ read ≠ [] ∨ octets ≠ [] → decodeFrom state octets read ≠ [] := by
  induction octets with
  | nil =>
      intro state read h
      cases state with
      | idle => simpa [decodeFrom] using h
      | within => simp [decodeFrom]
  | cons b rest ih =>
      -- Whether the machine takes the octet or not, something is left of it.
      have htaken : ∀ (state : State) (c : Option Char) (read : List Char),
          (c = none → state ≠ .idle) → decodeFrom state rest (emit c read) ≠ [] := by
        intro state c read hc
        refine ih state _ ?_
        cases c with
        | none => exact Or.inl (hc rfl)
        | some c => exact Or.inr (Or.inl (List.cons_ne_nil _ _))
      have hreplaced : ∀ read : List Char, decodeFrom .idle rest (replacement :: read) ≠ [] :=
        fun read => ih .idle _ (Or.inr (Or.inl (List.cons_ne_nil _ _)))
      intro state read _
      cases state with
      | idle =>
          rw [decodeFrom]
          split
          · next hfirst => exact htaken _ _ _ fun hnone => within_of_first (hnone ▸ hfirst)
          · exact hreplaced _
      | within =>
          rw [decodeFrom]
          split
          · next hnext => exact htaken _ _ _ fun hnone => within_of_next (hnone ▸ hnext)
          · split
            · next hfirst => exact htaken _ _ _ fun hnone => within_of_first (hnone ▸ hfirst)
            · exact hreplaced _

theorem decode_ne_empty {octets : List UInt8} (h : octets ≠ []) : decode octets ≠ "" := by
  intro hempty
  refine decodeFrom_ne_nil octets .idle [] (Or.inr (Or.inr h)) ?_
  simpa [decode] using congrArg String.toList hempty

end Text.Utf8

/-! ## Spans -/

namespace Octets

/-- The span, both ends included, lies in the source. -/
structure Spans (src : Octets) (start stop : Int) : Prop where
  nonneg : 0 ≤ start
  ordered : start ≤ stop
  bounded : stop < src.size

theorem index_of_nonneg (src : Octets) {offset : Int} (h : 0 ≤ offset) :
    src.index offset = offset.toNat := by
  rw [index, if_neg (by omega)]

theorem slice_ne_nil {src : Octets} {start stop : Int} (h : src.Spans start stop) :
    src.slice start (stop + 1) ≠ [] := by
  obtain ⟨hnonneg, hordered, hbounded⟩ := h
  rw [slice, index_of_nonneg src hnonneg, index_of_nonneg src (by omega)]
  intro hnil
  have hsize := congrArg List.length hnil
  simp only [Array.length_toList, Array.size_extract, List.length_nil] at hsize
  omega

end Octets

/-- The span of the excerpt lies in the source. -/
abbrev Excerpt.Within (src : Octets) (e : Excerpt) : Prop := src.Spans e.start e.stop

/-- The excerpt is cut from the source: its text is that of its span. -/
structure Excerpt.Cut (src : Octets) (e : Excerpt) : Prop where
  within : e.Within src
  text : e.text = src.text e.start (e.stop + 1)

theorem Excerpt.Cut.ne_empty {src : Octets} {e : Excerpt} (h : e.Cut src) : e.text ≠ "" := by
  rw [h.text]
  exact Text.Utf8.decode_ne_empty (Octets.slice_ne_nil h.within)

/-! ## Trees -/

/-- The range is not empty and lies in the source. -/
structure Head.Fits (src : Octets) (h : Head) : Prop where
  nonneg : 0 ≤ h.start
  nonempty : h.start < h.stop
  bounded : h.stop ≤ src.size

theorem Head.Fits.cut {src : Octets} {h : Head} (hfits : h.Fits src) : (h.excerpt src).Cut src := by
  obtain ⟨hnonneg, hnonempty, hbounded⟩ := hfits
  have hstop : max h.start (h.stop - 1) + 1 = h.stop := by omega
  refine ⟨⟨hnonneg, ?_, ?_⟩, ?_⟩
  · exact Int.le_max_left _ _
  · simp only [Head.excerpt]
    omega
  · simp only [Head.excerpt, hstop]

namespace Cst

mutual

/-- The node has a range that is not empty and lies in the given one, and its children
are placed in its range. -/
def Placed (low high : Int) : Cst → Prop
  | node h children =>
      low ≤ h.start ∧ h.start < h.stop ∧ h.stop ≤ high ∧ PlacedAll h.start h.stop children

/-- The nodes are placed one behind the other. -/
def PlacedAll (low high : Int) : List Cst → Prop
  | [] => True
  | c :: rest => Placed low high c ∧ PlacedAll c.head.stop high rest

end

mutual

def decidePlaced (low high : Int) : (c : Cst) → Decidable (c.Placed low high)
  | node h children =>
      have := decidePlacedAll h.start h.stop children
      inferInstanceAs (Decidable (_ ∧ _ ∧ _ ∧ _))

def decidePlacedAll (low high : Int) : (cs : List Cst) → Decidable (PlacedAll low high cs)
  | [] => isTrue trivial
  | c :: rest =>
      have := decidePlaced low high c
      have := decidePlacedAll c.head.stop high rest
      inferInstanceAs (Decidable (_ ∧ _))

end

instance (low high : Int) (c : Cst) : Decidable (c.Placed low high) := decidePlaced low high c

theorem Placed.mono {low high low' high' : Int} {c : Cst} (h : c.Placed low high)
    (hlow : low' ≤ low) (hhigh : high ≤ high') : c.Placed low' high' := by
  obtain ⟨head, children⟩ := c
  obtain ⟨hstart, hnonempty, hstop, hchildren⟩ := h
  exact ⟨by omega, hnonempty, by omega, hchildren⟩

theorem Placed.fits {src : Octets} {c : Cst} (h : c.Placed 0 src.size) : c.head.Fits src := by
  obtain ⟨head, children⟩ := c
  exact ⟨h.1, h.2.1, h.2.2.1⟩

theorem PlacedAll.mem {c : Cst} : ∀ {low high : Int} {cs : List Cst}, PlacedAll low high cs →
    c ∈ cs → c.Placed low high
  | low, high, d :: rest, ⟨hd, hrest⟩, hc => by
      rcases List.mem_cons.mp hc with rfl | hmem
      · exact hd
      · obtain ⟨head, children⟩ := d
        obtain ⟨hstart, hnonempty, -, -⟩ := hd
        have hhead : (node head children).head = head := rfl
        exact (hrest.mem hmem).mono (by rw [hhead]; omega) (Int.le_refl _)

theorem Placed.mem {low high : Int} {head : Head} {children : List Cst} {c : Cst}
    (h : (node head children).Placed low high) (hc : c ∈ children) : c.Placed low high := by
  obtain ⟨hstart, -, hstop, hchildren⟩ := h
  exact (hchildren.mem hc).mono hstart hstop

/-! ## Placed trees parse -/

theorem issue?_of_fits {src : Octets} {h : Head} (hfits : h.Fits src) :
    ∃ issue, h.issue? src = .ok issue := by
  have htext : (src.text h.start h.stop).toList ≠ [] := by
    have hcut := hfits.cut.ne_empty
    intro hnil
    exact hcut (String.toList_eq_nil_iff.mp hnil)
  have hline : ∃ line, Text.firstLine? (src.text h.start h.stop) = some line := by
    unfold Text.firstLine?
    split
    · next hnil => exact absurd hnil htext
    · exact ⟨_, rfl⟩
  obtain ⟨line, hline⟩ := hline
  unfold Head.issue? Head.snippet
  rw [if_pos hfits.nonempty, hline]
  simp only
  split
  · exact ⟨_, rfl⟩
  · split
    · exact ⟨_, rfl⟩
    · exact ⟨_, rfl⟩

theorem issuesOfStack_of_placed {src : Octets} (stack : List Cst) (found : List Issue)
    (h : ∀ c ∈ stack, c.Placed 0 src.size) :
    ∃ issues, issuesOfStack src stack found = .ok issues := by
  fun_induction issuesOfStack src stack found with
  | case1 => exact ⟨_, rfl⟩
  | case2 found head children rest e he =>
      obtain ⟨issue, hissue⟩ := issue?_of_fits (h _ List.mem_cons_self).fits
      exact absurd (he.symm.trans hissue) nofun
  | case3 found head children rest issue hissue found' herror ih =>
      refine ih fun c hc => ?_
      rcases List.mem_append.mp hc with hc | hc
      · exact (h _ List.mem_cons_self).mem hc
      · exact h c (List.mem_cons_of_mem _ hc)
  | case4 found head children rest issue hissue found' herror ih =>
      exact ih fun c hc => h c (List.mem_cons_of_mem _ hc)

/-- A tree that is placed in its source is parsed, whatever errors it has. -/
theorem parse_of_placed {src : Octets} {root : Cst} (h : root.Placed 0 src.size) :
    ∃ issues, root.parse src = .ok ⟨root.tree src, issues⟩ := by
  obtain ⟨found, hfound⟩ := issuesOfStack_of_placed [root] [] fun c hc =>
    List.mem_singleton.mp hc ▸ h
  exact ⟨found.mergeSort Issue.notAfter, by rw [parse, issues, hfound]; rfl⟩

end Cst

end SymbolGraph
