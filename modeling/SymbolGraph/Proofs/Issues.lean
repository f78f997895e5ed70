import SymbolGraph.Proofs.Placed

/-!
# `Proofs.Issues` — every error of a tree is reported, and reported once

The search for issues keeps a stack and opens only nodes that know of an error
(`Cst.hasError`).  The reference is the search that opens ALL nodes, in document order:

    root.preorder                      every node, each before the ones inside it
    root.preorder.filterMap report?    what they are reported as

Below a node that knows of no error there is none (`quiet_of_not_hasError`), so nothing is
passed over (`issuesOfStack_eq`).  What is found is then SORTED BY PLACE: the same issues, in
the order of their lines and columns, those of one place in document order.  A list has
exactly one such order (`SortedByPlace.eq`).

An error is reported with the start of its text.  A node can be MUTE, an error over some range
that has no text, and then there is no list of issues at all; in a tree whose ranges lie in the
source no node is.
-/

namespace SymbolGraph

/-! ## One node -/

namespace Head

/-- The first characters of the text, on its first line. -/
def shown (src : Octets) (h : Head) : String :=
  if h.start < h.stop then
    String.ofList
      (((src.text h.start h.stop).toList.takeWhile fun c => !Text.isLineEnd c).take shownLength)
  else ""

/-- What a node itself is reported as: missing, or unexpected, or not at all. -/
def report? (src : Octets) (h : Head) : Option Issue :=
  let place := src.place h.start
  if h.missing then some ⟨place.1 + 1, place.2, "missing '" ++ h.type ++ "'"⟩
  else if h.isError then some ⟨place.1 + 1, place.2, "unexpected '" ++ h.shown src ++ "'"⟩
  else none

/-- An error over a range that has no text. -/
structure Mute (src : Octets) (h : Head) : Prop where
  present : h.missing = false
  error : h.isError = true
  nonempty : h.start < h.stop
  noText : src.text h.start h.stop = ""

/-- The range lies in the source; it may be empty. -/
structure InRange (src : Octets) (h : Head) : Prop where
  nonneg : 0 ≤ h.start
  ordered : h.start ≤ h.stop
  bounded : h.stop ≤ src.size

instance (src : Octets) (h : Head) : Decidable (h.InRange src) :=
  decidable_of_iff (0 ≤ h.start ∧ h.start ≤ h.stop ∧ h.stop ≤ src.size)
    ⟨fun ⟨a, b, c⟩ => ⟨a, b, c⟩, fun ⟨a, b, c⟩ => ⟨a, b, c⟩⟩

variable {src : Octets} {h : Head}

theorem InRange.not_mute (hrange : h.InRange src) : ¬ h.Mute src := by
  intro hmute
  have hcut := Fits.cut ⟨hrange.nonneg, hmute.nonempty, hrange.bounded⟩
  exact hcut.ne_empty hmute.noText

theorem snippet_eq_ok (htext : h.start < h.stop → src.text h.start h.stop ≠ "") :
    h.snippet src = .ok (h.shown src) := by
  unfold snippet shown
  split
  · next hnonempty =>
    have hchars : (src.text h.start h.stop).toList ≠ [] := fun hnil =>
      htext hnonempty (String.toList_eq_nil_iff.mp hnil)
    unfold Text.firstLine?
    split
    · next line hline =>
      split at hline
      · cases hline
      · injection hline with hline
        rw [← hline, String.toList_ofList]
    · next hline =>
      split at hline
      · next hnil => exact absurd hnil hchars
      · cases hline
  · rfl

theorem issue?_of_not_mute (hmute : ¬ h.Mute src) : h.issue? src = .ok (h.report? src) := by
  unfold issue? report?
  by_cases hmissing : h.missing
  · simp [hmissing]
  by_cases herror : h.isError
  · have htext : h.start < h.stop → src.text h.start h.stop ≠ "" := fun hnonempty hempty =>
      hmute ⟨by simpa using hmissing, herror, hnonempty, hempty⟩
    simp [hmissing, herror, snippet_eq_ok htext, Except.map]
  · simp [hmissing, herror]

theorem issue?_of_mute (hmute : h.Mute src) : h.issue? src = .error .emptyError := by
  have hsnippet : h.snippet src = .error .emptyError := by
    rw [snippet, if_pos hmute.nonempty, hmute.noText]
    rfl
  simp [issue?, hmute.present, hmute.error, hsnippet, Except.map]

end Head

/-! ## All nodes -/

namespace Cst

mutual

/-- Every node of a tree, in document order: each before the ones inside it. -/
def preorder : Cst → List Head
  | node h children => h :: preorderAll children

def preorderAll : List Cst → List Head
  | [] => []
  | c :: rest => preorder c ++ preorderAll rest

end

theorem preorderAll_append : ∀ as bs : List Cst,
    preorderAll (as ++ bs) = preorderAll as ++ preorderAll bs
  | [], _ => rfl
  | a :: as, bs => by
      rw [List.cons_append, preorderAll, preorderAll, preorderAll_append as bs, List.append_assoc]

/-- The ranges of all nodes lie in the source. -/
def Inside (src : Octets) (c : Cst) : Prop := ∀ h ∈ c.preorder, h.InRange src

instance (src : Octets) (c : Cst) : Decidable (c.Inside src) :=
  inferInstanceAs (Decidable (∀ h ∈ c.preorder, h.InRange src))

variable {src : Octets}

-- A node knows of the errors inside it: on the tree and its children at once.
mutual

theorem quiet_of_not_hasError : ∀ {c : Cst}, c.hasError = false →
    ∀ h ∈ c.preorder, h.missing = false ∧ h.isError = false
  | node head children, hnone, h, hmem => by
      simp only [hasError, Bool.or_eq_false_iff] at hnone
      rw [preorder, List.mem_cons] at hmem
      rcases hmem with rfl | hmem
      · exact ⟨hnone.1.2, hnone.1.1⟩
      · exact quiet_of_not_anyHasError hnone.2 h hmem

theorem quiet_of_not_anyHasError : ∀ {cs : List Cst}, anyHasError cs = false →
    ∀ h ∈ preorderAll cs, h.missing = false ∧ h.isError = false
  | c :: rest, hnone, h, hmem => by
      simp only [anyHasError, Bool.or_eq_false_iff] at hnone
      rw [preorderAll, List.mem_append] at hmem
      rcases hmem with hmem | hmem
      · exact quiet_of_not_hasError hnone.1 h hmem
      · exact quiet_of_not_anyHasError hnone.2 h hmem

end

theorem reports_of_quiet {hs : List Head}
    (hquiet : ∀ h ∈ hs, h.missing = false ∧ h.isError = false) :
    hs.filterMap (Head.report? src) = [] := by
  refine List.filterMap_eq_nil_iff.mpr fun h hmem => ?_
  simp [Head.report?, hquiet h hmem]

/-- Whatever lies on the stack, its nodes are all reported, behind what was found before. -/
theorem issuesOfStack_eq (stack : List Cst) (found : List Issue)
    (hmute : ∀ h ∈ preorderAll stack, ¬ h.Mute src) :
    issuesOfStack src stack found =
      .ok (found.reverse ++ (preorderAll stack).filterMap (Head.report? src)) := by
  fun_induction issuesOfStack src stack found with
  | case1 => simp [preorderAll]
  | case2 found head children rest e he =>
      have hhead := Head.issue?_of_not_mute (hmute head (by simp [preorderAll, preorder]))
      cases he.symm.trans hhead
  | case3 found head children rest issue hissue found' herror ih =>
      have hhead := Head.issue?_of_not_mute (hmute head (by simp [preorderAll, preorder]))
      have hreport : issue = head.report? src := Except.ok.inj (hissue.symm.trans hhead)
      have hopened : preorderAll (node head children :: rest) =
          head :: preorderAll (children ++ rest) := by
        rw [preorderAll, preorder, preorderAll_append, List.cons_append]
      rw [ih fun h hmem => hmute h (by rw [hopened]; exact List.mem_cons_of_mem _ hmem), hopened]
      cases hreport' : head.report? src <;> simp [found', hreport, hreport']
  | case4 found head children rest issue hissue found' herror ih =>
      have hhead := Head.issue?_of_not_mute (hmute head (by simp [preorderAll, preorder]))
      have hquiet := quiet_of_not_hasError (Bool.not_eq_true _ ▸ herror)
      have hreport : issue = none := by
        rw [Except.ok.inj (hissue.symm.trans hhead)]
        simp [Head.report?, hquiet head (by simp [preorder])]
      rw [ih fun h hmem => hmute h (by rw [preorderAll]; exact List.mem_append_right _ hmem),
        preorderAll, List.filterMap_append, reports_of_quiet hquiet]
      simp [found', hreport]

theorem issuesOfStack_of_mute (stack : List Cst) (found : List Issue)
    (hmute : ∃ h ∈ preorderAll stack, h.Mute src) :
    issuesOfStack src stack found = .error .emptyError := by
  fun_induction issuesOfStack src stack found with
  | case1 =>
      obtain ⟨h, hmem, -⟩ := hmute
      exact absurd hmem List.not_mem_nil
  | case2 found head children rest e he =>
      by_cases hhead : head.Mute src
      · rw [Except.error.inj (he.symm.trans (Head.issue?_of_mute hhead))]
      · cases he.symm.trans (Head.issue?_of_not_mute hhead)
  | case3 found head children rest issue hissue found' herror ih =>
      obtain ⟨h, hmem, hmute⟩ := hmute
      refine ih ⟨h, ?_, hmute⟩
      rw [preorderAll, preorder, List.cons_append, List.mem_cons] at hmem
      rcases hmem with rfl | hmem
      · cases hissue.symm.trans (Head.issue?_of_mute hmute)
      · rwa [preorderAll_append]
  | case4 found head children rest issue hissue found' herror ih =>
      obtain ⟨h, hmem, hmute⟩ := hmute
      refine ih ⟨h, ?_, hmute⟩
      rw [preorderAll, List.mem_append] at hmem
      rcases hmem with hmem | hmem
      · have hquiet := quiet_of_not_hasError (Bool.not_eq_true _ ▸ herror) h hmem
        exact absurd hmute.error (by simp [hquiet.2])
      · exact hmem

end Cst

/-! ## The order of the issues -/

namespace Issue

/-- The first issue stands on an earlier line, or on the same line and not behind. -/
def NotAfter (a b : Issue) : Prop := a.line < b.line ∨ a.line = b.line ∧ a.column ≤ b.column

/-- The issue stands at a place. -/
def isAt (line column : Int) (i : Issue) : Bool := i.line == line && i.column == column

theorem isAt_iff {line column : Int} {i : Issue} :
    i.isAt line column = true ↔ i.line = line ∧ i.column = column := by
  simp [isAt]

theorem isAt_self (i : Issue) : i.isAt i.line i.column = true := isAt_iff.mpr ⟨rfl, rfl⟩

theorem notAfter_iff {a b : Issue} : Cst.Issue.notAfter a b = true ↔ a.NotAfter b := by
  simp [Cst.Issue.notAfter, NotAfter]

theorem notAfter_trans (a b c : Issue) (hab : Cst.Issue.notAfter a b = true)
    (hbc : Cst.Issue.notAfter b c = true) : Cst.Issue.notAfter a c = true := by
  rw [notAfter_iff, NotAfter] at *
  omega

theorem notAfter_total (a b : Issue) :
    (Cst.Issue.notAfter a b || Cst.Issue.notAfter b a) = true := by
  rw [Bool.or_eq_true, notAfter_iff, notAfter_iff, NotAfter, NotAfter]
  omega

/-- Of two issues that are not after one another, the places are one. -/
theorem NotAfter.antisymm {a b : Issue} (hab : a.NotAfter b) (hba : b.NotAfter a) :
    a.isAt b.line b.column = true := by
  unfold NotAfter at hab hba
  exact isAt_iff.mpr (by omega)

end Issue

/-- The issues in the order of their places, those of one place in the order given. -/
structure SortedByPlace (given sorted : List Issue) : Prop where
  perm : sorted.Perm given
  ordered : sorted.Pairwise Issue.NotAfter
  stable : ∀ line column,
    sorted.filter (Issue.isAt line column) = given.filter (Issue.isAt line column)

theorem sortedByPlace_mergeSort (given : List Issue) :
    SortedByPlace given (given.mergeSort Cst.Issue.notAfter) where
  perm := given.mergeSort_perm _
  ordered := (given.pairwise_mergeSort Issue.notAfter_trans Issue.notAfter_total).imp
    Issue.notAfter_iff.mp
  stable line column := by
    have htie : (given.filter (Issue.isAt line column)).Pairwise
        fun a b => Cst.Issue.notAfter a b = true := by
      refine List.pairwise_of_forall_mem_list fun a ha b hb => Issue.notAfter_iff.mpr ?_
      obtain ⟨haline, hacolumn⟩ := Issue.isAt_iff.mp (List.mem_filter.mp ha).2
      obtain ⟨hbline, hbcolumn⟩ := Issue.isAt_iff.mp (List.mem_filter.mp hb).2
      exact .inr ⟨by omega, by omega⟩
    -- Issues of one place are in order already, so sorting keeps them as a sublist.
    have hkept := (List.sublist_mergeSort Issue.notAfter_trans Issue.notAfter_total htie
      List.filter_sublist).filter (Issue.isAt line column)
    simp only [List.filter_filter, Bool.and_self] at hkept
    exact (hkept.eq_of_length ((given.mergeSort_perm _).filter _).length_eq.symm).symm

/-- Lists in the order of the places that agree at each place are equal. -/
theorem eq_of_ordered : ∀ {as bs : List Issue},
    as.Pairwise Issue.NotAfter → bs.Pairwise Issue.NotAfter →
    (∀ line column, as.filter (Issue.isAt line column) = bs.filter (Issue.isAt line column)) →
    as = bs
  | [], [], _, _, _ => rfl
  | [], b :: bs, _, _, hsame => by
      have hb := hsame b.line b.column
      rw [List.filter_nil, List.filter_cons_of_pos b.isAt_self] at hb
      cases hb
  | a :: as, [], _, _, hsame => by
      have ha := hsame a.line a.column
      rw [List.filter_nil, List.filter_cons_of_pos a.isAt_self] at ha
      cases ha
  | a :: as, b :: bs, has, hbs, hsame => by
      have hmem : ∀ i, i ∈ a :: as ↔ i ∈ b :: bs := fun i => by
        have hi := congrArg (i ∈ ·) (hsame i.line i.column)
        simpa only [List.mem_filter, i.isAt_self, and_true, eq_iff_iff] using hi
      -- Each of the two first issues is in the other list, so neither is after the other.
      have hfirst : ∀ {x y : Issue} {xs : List Issue}, (x :: xs).Pairwise Issue.NotAfter →
          y ∈ x :: xs → x.NotAfter y := fun {x y xs} hxs hy => by
        rcases List.mem_cons.mp hy with rfl | hy
        · exact .inr ⟨rfl, Int.le_refl _⟩
        · exact (List.pairwise_cons.mp hxs).1 y hy
      have hplace : a.isAt b.line b.column = true :=
        (hfirst has ((hmem b).mpr List.mem_cons_self)).antisymm
          (hfirst hbs ((hmem a).mp List.mem_cons_self))
      have heq := hsame b.line b.column
      rw [List.filter_cons_of_pos hplace, List.filter_cons_of_pos b.isAt_self] at heq
      obtain ⟨rfl, -⟩ := List.cons.inj heq
      rw [eq_of_ordered (List.pairwise_cons.mp has).2 (List.pairwise_cons.mp hbs).2]
      intro line column
      have hrest := hsame line column
      by_cases hat : a.isAt line column
      · rw [List.filter_cons_of_pos hat, List.filter_cons_of_pos hat] at hrest
        exact (List.cons.inj hrest).2
      · rwa [List.filter_cons_of_neg hat, List.filter_cons_of_neg hat] at hrest

theorem SortedByPlace.eq {given as bs : List Issue} (ha : SortedByPlace given as)
    (hb : SortedByPlace given bs) : as = bs :=
  eq_of_ordered ha.ordered hb.ordered fun line column =>
    (ha.stable line column).trans (hb.stable line column).symm

namespace Cst

theorem issues_of_not_mute {src : Octets} {root : Cst}
    (hmute : ∀ h ∈ root.preorder, ¬ h.Mute src) : root.issues src =
      .ok ((root.preorder.filterMap (Head.report? src)).mergeSort Issue.notAfter) := by
  have hroot : preorderAll [root] = root.preorder := by simp [preorderAll]
  rw [issues, issuesOfStack_eq [root] [] (hroot ▸ hmute), hroot]
  rfl

theorem issues_of_mute {src : Octets} {root : Cst} (hmute : ∃ h ∈ root.preorder, h.Mute src) :
    root.issues src = .error .emptyError := by
  have hroot : preorderAll [root] = root.preorder := by simp [preorderAll]
  rw [issues, issuesOfStack_of_mute [root] [] (hroot ▸ hmute)]
  rfl

/-- There are issues of a tree just if none of its nodes is mute, as in every tree whose
ranges lie in the source; and then they are the reports of all nodes, taken in document order
and sorted by place. -/
theorem issues_complete (src : Octets) (root : Cst) :
    (∀ found, root.issues src = .ok found ↔
      (∀ h ∈ root.preorder, ¬ h.Mute src) ∧
        SortedByPlace (root.preorder.filterMap (Head.report? src)) found) ∧
    (root.Inside src → ∃ found, root.issues src = .ok found) := by
  refine ⟨fun found => ⟨fun hfound => ?_, fun ⟨hmute, hsorted⟩ => ?_⟩, fun hinside => ?_⟩
  · have hmute : ∀ h ∈ root.preorder, ¬ h.Mute src := fun h hmem hmute => by
      rw [issues_of_mute ⟨h, hmem, hmute⟩] at hfound
      cases hfound
    rw [issues_of_not_mute hmute] at hfound
    exact ⟨hmute, Except.ok.inj hfound ▸ sortedByPlace_mergeSort _⟩
  · rw [issues_of_not_mute hmute, (sortedByPlace_mergeSort _).eq hsorted]
  · exact ⟨_, issues_of_not_mute fun h hmem => (hinside h hmem).not_mute⟩

/-! Errors inside and beside an error, and two issues at one place:

    a )
    (b
-/

def brokenBytes : Octets := Text.Utf8.encode "a )\n(b"

def brokenTree : Cst :=
  node ⟨"translation_unit", 0, 6, true, false, none⟩
    [node ⟨"ERROR", 0, 3, true, false, none⟩
      [node ⟨"identifier", 0, 1, true, false, none⟩ [],
        node ⟨";", 3, 3, false, true, none⟩ [],
        node ⟨"ERROR", 2, 3, true, false, none⟩ []],
      node ⟨"ERROR", 4, 6, true, false, none⟩ [node ⟨"identifier", 4, 4, true, true, none⟩ []]]

theorem issues_complete_broken :
    brokenTree.Inside brokenBytes ∧ ∃ found, brokenTree.issues brokenBytes = .ok found ∧
      found.length = 5 ∧ ⟨1, 2, "unexpected ')'"⟩ ∈ found ∧ ⟨1, 3, "missing ';'"⟩ ∈ found ∧
      found.filter (Issue.isAt 2 0) =
        [⟨2, 0, "unexpected '(b'"⟩, ⟨2, 0, "missing 'identifier'"⟩] := by
  have hinside : brokenTree.Inside brokenBytes := by decide
  have hreports : brokenTree.preorder.filterMap (Head.report? brokenBytes) =
      [⟨1, 0, "unexpected 'a )'"⟩, ⟨1, 3, "missing ';'"⟩, ⟨1, 2, "unexpected ')'"⟩,
        ⟨2, 0, "unexpected '(b'"⟩, ⟨2, 0, "missing 'identifier'"⟩] := by decide +kernel
  obtain ⟨hissues, hsome⟩ := issues_complete brokenBytes brokenTree
  obtain ⟨found, hfound⟩ := hsome hinside
  have hsorted := ((hissues found).mp hfound).2
  rw [hreports] at hsorted
  refine ⟨hinside, found, hfound, hsorted.perm.length_eq, ?_, ?_, hsorted.stable 2 0⟩
  · exact hsorted.perm.mem_iff.mpr (by decide)
  · exact hsorted.perm.mem_iff.mpr (by decide)

end Cst

end SymbolGraph
