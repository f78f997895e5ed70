import Mathlib.Data.List.TakeWhile
import SymbolGraph.Proofs.SelectorName

/-!
# `Proofs.Inclusion` — which bytes are an include directive

A LAYOUT is a directive with everything that stands around it:

    lead # gap keyword space opener path closer rest

    lead, gap, space    blanks, or nothing
    keyword             import, include
    opener              < or "
    path                some bytes, neither > nor "
    closer              > or "

Taking bytes apart succeeds exactly for the bytes of a layout, and gives what the layout
says (`Directive.ofBytes?_eq_some_iff`).  Bytes have one layout at most: each part that may
have any length is followed by a byte that it cannot hold.

A node of the preprocessor is read as an inclusion exactly if its bytes have a layout, unless
its type says already that it is an inclusion.  Where they have one, the two agree.
-/

namespace SymbolGraph

/-! ## Runs -/

section Runs

variable {α : Type} {p : α → Bool} {run run' rest rest' : List α}

/-- What follows does not begin with what a run is made of. -/
def Stops (p : α → Bool) (rest : List α) : Prop := ∀ a ∈ rest.head?, p a = false

theorem stops_cons {a : α} (h : p a = false) : Stops p (a :: rest) := by
  intro b hb
  rw [← Option.some.inj hb]
  exact h

theorem stops_dropWhile (p : α → Bool) (xs : List α) : Stops p (xs.dropWhile p) := by
  intro a ha
  have hhead := List.head?_dropWhile_not p xs
  rw [Option.mem_def.mp ha] at hhead
  exact hhead

theorem takeWhile_run (hrun : ∀ a ∈ run, p a = true) (hrest : Stops p rest) :
    (run ++ rest).takeWhile p = run := by
  rw [List.takeWhile_append_of_pos hrun]
  cases rest with
  | nil => simp
  | cons a rest => rw [List.takeWhile_cons_of_neg (by simp [hrest a rfl]), List.append_nil]

theorem dropWhile_run (hrun : ∀ a ∈ run, p a = true) (hrest : Stops p rest) :
    (run ++ rest).dropWhile p = rest := by
  rw [List.dropWhile_append_of_pos hrun]
  cases rest with
  | nil => rfl
  | cons a rest => rw [List.dropWhile_cons_of_neg (by simp [hrest a rfl])]

/-- A run ends in one place only. -/
theorem run_inj (hrun : ∀ a ∈ run, p a = true) (hrest : Stops p rest)
    (hrun' : ∀ a ∈ run', p a = true) (hrest' : Stops p rest') (h : run ++ rest = run' ++ rest') :
    run = run' ∧ rest = rest' := by
  have htake := congrArg (List.takeWhile p) h
  have hdrop := congrArg (List.dropWhile p) h
  rw [takeWhile_run hrun hrest, takeWhile_run hrun' hrest'] at htake
  rw [dropWhile_run hrun hrest, dropWhile_run hrun' hrest'] at hdrop
  exact ⟨htake, hdrop⟩

end Runs

namespace Directive

/-! ## Layouts -/

/-- Space, tab, line feed, carriage return, form feed and vertical tab. -/
def blanks : List UInt8 := [32, 9, 10, 13, 12, 11]

/-- A directive, and what stands around its parts. -/
@[ext] structure Layout where
  lead : List UInt8
  gap : List UInt8
  keyword : String
  space : List UInt8
  opener : UInt8
  path : List UInt8
  closer : UInt8
  rest : List UInt8
  lead_blank : ∀ b ∈ lead, b ∈ blanks
  gap_blank : ∀ b ∈ gap, b ∈ blanks
  keyword_known : keyword ∈ ["import", "include"]
  space_blank : ∀ b ∈ space, b ∈ blanks
  /-- Either `<` or `"`. -/
  opener_known : opener ∈ [60, 34]
  path_nonempty : path ≠ []
  /-- Neither `>` nor `"`. -/
  path_open : ∀ b ∈ path, b ∉ [62, 34]
  /-- Either `>` or `"`. -/
  closer_known : closer ∈ [62, 34]

namespace Layout

/-- From the opener on. -/
def quoted (l : Layout) : List UInt8 := l.opener :: (l.path ++ l.closer :: l.rest)

/-- From the keyword on. -/
def body (l : Layout) : List UInt8 := Directive.bytes l.keyword ++ (l.space ++ l.quoted)

/-- All bytes, the number sign between the first two runs of blanks. -/
def bytes (l : Layout) : List UInt8 := l.lead ++ 35 :: (l.gap ++ l.body)

/-- What the layout says. -/
def directive (l : Layout) : Directive := ⟨l.keyword, l.opener == 60, l.path⟩

end Layout

theorem isSpace_iff {b : UInt8} : isSpace b = true ↔ b ∈ blanks := by
  simp only [isSpace, blanks, List.mem_cons, List.not_mem_nil, or_false, Bool.or_eq_true,
    Bool.and_eq_true, beq_iff_eq, decide_eq_true_eq, ← UInt8.toNat_inj, UInt8.le_iff_toNat_le,
    UInt8.reduceToNat]
  omega

theorem isCloser_iff {b : UInt8} : isCloser b = true ↔ b ∈ [62, 34] := by
  simp [isCloser]

theorem not_isCloser_iff {b : UInt8} : (!isCloser b) = true ↔ b ∉ [62, 34] := by
  rw [Bool.not_eq_true', ← Bool.not_eq_true, isCloser_iff]

theorem stops_closer {closer : UInt8} (h : closer ∈ [62, 34]) (rest : List UInt8) :
    Stops (!isCloser ·) (closer :: rest) :=
  stops_cons (by rw [isCloser_iff.mpr h]; rfl)

/-! ## The parts -/

theorem after?_eq_some_iff : ∀ {start bytes rest : List UInt8},
    after? start bytes = some rest ↔ bytes = start ++ rest
  | [], _, _ => by simp [after?]
  | _ :: _, [], _ => by simp [after?]
  | b :: start, c :: bytes, rest => by
      rw [after?]
      split
      · next h => rw [after?_eq_some_iff, h, List.cons_append, List.cons.injEq, and_iff_right rfl]
      · next h => exact iff_of_false nofun fun heq => h (List.cons.inj heq).1.symm

/-- Neither keyword begins with the other, so the first that fits is the only one. -/
theorem keyword?_eq_some_iff {bytes rest : List UInt8} {keyword : String} :
    keyword? bytes = some (keyword, rest) ↔
      keyword ∈ ["import", "include"] ∧ bytes = Directive.bytes keyword ++ rest := by
  unfold keyword?
  constructor
  · intro h
    split at h
    · next behind himport =>
      cases h
      exact ⟨by simp, after?_eq_some_iff.mp himport⟩
    · obtain ⟨behind, hinclude, heq⟩ := Option.map_eq_some_iff.mp h
      cases heq
      exact ⟨by simp, after?_eq_some_iff.mp hinclude⟩
  · rintro ⟨hkeyword, rfl⟩
    rcases List.mem_pair.mp hkeyword with rfl | rfl
    · rw [after?_eq_some_iff.mpr rfl]
    · have hother : after? (Directive.bytes "import") (Directive.bytes "include" ++ rest) = none :=
        rfl
      rw [hother, after?_eq_some_iff.mpr rfl]
      rfl

/-- Bytes that are not all taken have a closer behind those that are. -/
theorem exists_closer {bytes : List UInt8}
    (h : (bytes.takeWhile (!isCloser ·)).length < bytes.length) :
    ∃ closer rest, closer ∈ [62, 34] ∧
      bytes = bytes.takeWhile (!isCloser ·) ++ closer :: rest := by
  have hsplit : bytes.takeWhile (!isCloser ·) ++ bytes.dropWhile (!isCloser ·) = bytes :=
    List.takeWhile_append_dropWhile
  have hstops := stops_dropWhile (!isCloser ·) bytes
  cases hrest : bytes.dropWhile (!isCloser ·) with
  | nil =>
      rw [hrest, List.append_nil] at hsplit
      rw [hsplit] at h
      exact absurd h (Nat.lt_irrefl _)
  | cons closer rest =>
      rw [hrest] at hsplit hstops
      have hcloser : (!isCloser closer) = false := hstops closer rfl
      exact ⟨closer, rest, isCloser_iff.mp (by simpa using hcloser), hsplit.symm⟩

theorem path?_eq_some_iff {bytes path : List UInt8} {system : Bool} :
    path? bytes = some (system, path) ↔
      ∃ opener closer rest, opener ∈ [60, 34] ∧ path ≠ [] ∧ (∀ b ∈ path, b ∉ [62, 34]) ∧
        closer ∈ [62, 34] ∧ bytes = opener :: (path ++ closer :: rest) ∧
        system = (opener == 60) := by
  constructor
  · intro h
    cases bytes with
    | nil => cases h
    | cons opener bytes =>
        rw [path?] at h
        split at h
        · next hform =>
          cases h
          simp only [Bool.and_eq_true, Bool.or_eq_true, beq_iff_eq, Bool.not_eq_true',
            List.isEmpty_eq_false_iff, decide_eq_true_eq] at hform
          obtain ⟨⟨hopener, hnonempty⟩, hlength⟩ := hform
          obtain ⟨closer, rest, hcloser, hbytes⟩ := exists_closer hlength
          exact ⟨opener, closer, rest, List.mem_pair.mpr hopener, hnonempty,
            fun b hb => not_isCloser_iff.mp (List.mem_takeWhile_imp (p := (!isCloser ·)) hb),
            hcloser, congrArg (opener :: ·) hbytes, rfl⟩
        · cases h
  · rintro ⟨opener, closer, rest, hopener, hnonempty, hpath, hcloser, rfl, rfl⟩
    rw [path?, takeWhile_run (fun b hb => not_isCloser_iff.mpr (hpath b hb))
      (stops_closer hcloser rest)]
    refine if_pos ?_
    simpa [hnonempty] using hopener

/-! ## Taking bytes apart -/

namespace Layout

variable (l : Layout)

theorem lead_isSpace : ∀ b ∈ l.lead, isSpace b = true := fun b hb =>
  isSpace_iff.mpr (l.lead_blank b hb)

theorem gap_isSpace : ∀ b ∈ l.gap, isSpace b = true := fun b hb =>
  isSpace_iff.mpr (l.gap_blank b hb)

theorem space_isSpace : ∀ b ∈ l.space, isSpace b = true := fun b hb =>
  isSpace_iff.mpr (l.space_blank b hb)

theorem stops_quoted : Stops isSpace l.quoted := by
  refine stops_cons ?_
  rcases List.mem_pair.mp l.opener_known with h | h <;> rw [h] <;> rfl

theorem stops_body : Stops isSpace l.body := by
  unfold body
  rcases List.mem_pair.mp l.keyword_known with h | h <;> rw [h] <;> exact stops_cons rfl

theorem keyword?_body : keyword? l.body = some (l.keyword, l.space ++ l.quoted) :=
  keyword?_eq_some_iff.mpr ⟨l.keyword_known, rfl⟩

end Layout

theorem ofBytes?_bytes (l : Layout) : ofBytes? l.bytes = some l.directive := by
  have hsharp : l.bytes.dropWhile isSpace = 35 :: (l.gap ++ l.body) :=
    dropWhile_run l.lead_isSpace (stops_cons rfl)
  have hgap : (l.gap ++ l.body).dropWhile isSpace = l.body :=
    dropWhile_run l.gap_isSpace l.stops_body
  have hspace : (l.space ++ l.quoted).dropWhile isSpace = l.quoted :=
    dropWhile_run l.space_isSpace l.stops_quoted
  have hpath : path? l.quoted = some (l.opener == 60, l.path) :=
    path?_eq_some_iff.mpr ⟨l.opener, l.closer, l.rest, l.opener_known, l.path_nonempty,
      l.path_open, l.closer_known, rfl, rfl⟩
  rw [ofBytes?, hsharp]
  dsimp only
  rw [if_pos rfl, hgap, l.keyword?_body]
  dsimp only
  rw [hspace, hpath]
  rfl

theorem blank_of_mem_takeWhile {bytes : List UInt8} {b : UInt8}
    (h : b ∈ bytes.takeWhile isSpace) : b ∈ blanks :=
  isSpace_iff.mp (List.mem_takeWhile_imp h)

/-- What is taken apart has a layout: the blanks that were dropped are its runs. -/
theorem exists_layout {bytes : List UInt8} {d : Directive} (h : ofBytes? bytes = some d) :
    ∃ l : Layout, l.bytes = bytes := by
  have hsplit : ∀ bs : List UInt8, bs.takeWhile isSpace ++ bs.dropWhile isSpace = bs := fun _ =>
    List.takeWhile_append_dropWhile
  unfold ofBytes? at h
  split at h
  · cases h
  · next sharp behind hsharp =>
    split at h
    · next hsign =>
      split at h
      · cases h
      · next keyword tail hkeyword =>
        obtain ⟨⟨system, path⟩, hpath, -⟩ := Option.map_eq_some_iff.mp h
        obtain ⟨hknown, hbody⟩ := keyword?_eq_some_iff.mp hkeyword
        obtain ⟨opener, closer, rest, hopener, hnonempty, hopen, hcloser, hquoted, -⟩ :=
          path?_eq_some_iff.mp hpath
        refine ⟨⟨bytes.takeWhile isSpace, behind.takeWhile isSpace, keyword,
          tail.takeWhile isSpace, opener, path, closer, rest, fun _ => blank_of_mem_takeWhile,
          fun _ => blank_of_mem_takeWhile, hknown, fun _ => blank_of_mem_takeWhile, hopener,
          hnonempty, hopen, hcloser⟩, ?_⟩
        simp only [Layout.bytes, Layout.body, Layout.quoted]
        rw [← hquoted, hsplit tail, ← hbody, hsplit behind, ← hsign, ← hsharp, hsplit bytes]
    · cases h

theorem ofBytes?_eq_some_iff {bytes : List UInt8} {d : Directive} :
    ofBytes? bytes = some d ↔ ∃ l : Layout, l.bytes = bytes ∧ l.directive = d := by
  constructor
  · intro h
    obtain ⟨l, rfl⟩ := exists_layout h
    exact ⟨l, rfl, Option.some.inj ((ofBytes?_bytes l).symm.trans h)⟩
  · rintro ⟨l, rfl, rfl⟩
    exact ofBytes?_bytes l

/-- Bytes have one layout at most. -/
theorem Layout.bytes_injective : Function.Injective Layout.bytes := by
  intro l m h
  obtain ⟨hlead, hsharp⟩ := run_inj l.lead_isSpace (stops_cons rfl) m.lead_isSpace
    (stops_cons rfl) h
  obtain ⟨hgap, hbody⟩ := run_inj l.gap_isSpace l.stops_body m.gap_isSpace m.stops_body
    (List.cons.inj hsharp).2
  have hparts : (l.keyword, l.space ++ l.quoted) = (m.keyword, m.space ++ m.quoted) := by
    refine Option.some.inj ?_
    rw [← l.keyword?_body, hbody, m.keyword?_body]
  obtain ⟨hkeyword, hbehind⟩ := Prod.mk.inj hparts
  obtain ⟨hspace, hquoted⟩ := run_inj l.space_isSpace l.stops_quoted m.space_isSpace
    m.stops_quoted hbehind
  obtain ⟨hopener, hinside⟩ := List.cons.inj hquoted
  obtain ⟨hpath, hclosed⟩ := run_inj (fun b hb => not_isCloser_iff.mpr (l.path_open b hb))
    (stops_closer l.closer_known l.rest) (fun b hb => not_isCloser_iff.mpr (m.path_open b hb))
    (stops_closer m.closer_known m.rest) hinside
  obtain ⟨hcloser, hrest⟩ := List.cons.inj hclosed
  exact Layout.ext hlead hgap hkeyword hspace hopener hpath hcloser hrest

end Directive

/-! ## Nodes of the preprocessor -/

/-- The types that say already that a node is an inclusion. -/
def inclusionTypes : List String := ["preproc_include", "preproc_import"]

namespace Reading

variable {src : Octets} {head : Head}

/-- What an inclusion is read as, where its bytes have a layout. -/
theorem inclusion_of_layout (excerpt : Excerpt) (children : List Reading) {l : Directive.Layout}
    (h : l.bytes = src.slice head.start head.stop) :
    inclusion src head excerpt children =
      .inclusion excerpt (Text.Utf8.decode l.path) (l.opener == 60) ("#" ++ l.keyword) := by
  rw [inclusion, ← h, Directive.ofBytes?_bytes]
  rfl

theorem construct_of_inclusionType (h : head.type ∈ inclusionTypes) (excerpt : Excerpt)
    (names : List Excerpt) (specifiers : List Specifier) (children : List Reading) :
    construct src head excerpt names specifiers children = inclusion src head excerpt children := by
  rcases List.mem_pair.mp h with h | h <;> simp [construct, h]

/-- The bytes decide, where the type says no more than that it belongs to the preprocessor. -/
theorem construct_of_preproc (h : Text.startsWith head.type "preproc" = true)
    (hother : head.type ∉ inclusionTypes) (excerpt : Excerpt) (names : List Excerpt)
    (specifiers : List Specifier) (children : List Reading) :
    construct src head excerpt names specifiers children =
      if (Directive.ofBytes? (src.slice head.start head.stop)).isSome then
        inclusion src head excerpt children
      else .generic excerpt head.type (nodes children) := by
  unfold construct
  split
  case h_5 | h_6 => next heq => exact absurd (by rw [heq]; decide) hother
  case h_31 => rw [h, Bool.true_and]
  -- No other type that is known begins so.
  all_goals next heq => exact absurd (heq ▸ h) (by decide)

end Reading

namespace Cst

open Reading

/-- The bytes of a node. -/
def bytes (src : Octets) (c : Cst) : List UInt8 := src.slice c.head.start c.head.stop

variable {src : Octets} {c : Cst}

theorem notMem_skippedTypes (h : Text.startsWith c.head.type "preproc" = true) :
    c.head.type ∉ skippedTypes := by
  have hskipped : ∀ type ∈ skippedTypes, Text.startsWith type "preproc" = false := by decide
  intro hmem
  rw [hskipped _ hmem] at h
  cases h

theorem node_of_inclusionType (hnamed : c.head.named = true)
    (htype : c.head.type ∈ inclusionTypes) {l : Directive.Layout} (h : l.bytes = c.bytes src) :
    (c.reading src).node =
      some (.inclusion (c.head.excerpt src) (Text.Utf8.decode l.path) (l.opener == 60)
        ("#" ++ l.keyword)) := by
  have hpreproc : ∀ type ∈ inclusionTypes, Text.startsWith type "preproc" = true := by decide
  rw [node_reading hnamed (notMem_skippedTypes (hpreproc _ htype)),
    construct_of_inclusionType htype, inclusion_of_layout _ _ h]

section Preproc

variable (hnamed : c.head.named = true) (hpreproc : Text.startsWith c.head.type "preproc" = true)
  (hother : c.head.type ∉ inclusionTypes)
include hnamed hpreproc hother

theorem node_of_layout {l : Directive.Layout} (h : l.bytes = c.bytes src) :
    (c.reading src).node =
      some (.inclusion (c.head.excerpt src) (Text.Utf8.decode l.path) (l.opener == 60)
        ("#" ++ l.keyword)) := by
  have hsome : Directive.ofBytes? (c.bytes src) = some l.directive :=
    Directive.ofBytes?_eq_some_iff.mpr ⟨l, h, rfl⟩
  rw [node_reading hnamed (notMem_skippedTypes hpreproc), construct_of_preproc hpreproc hother,
    ← bytes, hsome, inclusion_of_layout _ _ h]
  rfl

/-- Without a layout the node is no inclusion. -/
theorem exists_layout_of_node {excerpt : Excerpt} {path directive : String} {system : Bool}
    (h : (c.reading src).node = some (.inclusion excerpt path system directive)) :
    ∃ l : Directive.Layout, l.bytes = c.bytes src := by
  rw [node_reading hnamed (notMem_skippedTypes hpreproc), construct_of_preproc hpreproc hother,
    ← bytes] at h
  cases hbytes : Directive.ofBytes? (c.bytes src) with
  | some d =>
      obtain ⟨l, hl, -⟩ := Directive.ofBytes?_eq_some_iff.mp hbytes
      exact ⟨l, hl⟩
  | none =>
      rw [hbytes] at h
      cases h

end Preproc

/-- A node of the preprocessor that is no inclusion by its type is read as one exactly if its
bytes have a layout.  They have one at most, which tells the path, whether it is one of the
system, and the directive; and any node that is an inclusion by its type and has the same
bytes tells the same. -/
theorem inclusion_iff_layout (src : Octets) (c : Cst) (hnamed : c.head.named = true)
    (hpreproc : Text.startsWith c.head.type "preproc" = true)
    (hother : c.head.type ∉ inclusionTypes) :
    ((∃ excerpt path system directive,
        (c.reading src).node = some (.inclusion excerpt path system directive)) ↔
      ∃ l : Directive.Layout, l.bytes = c.bytes src) ∧
    ∀ l : Directive.Layout, l.bytes = c.bytes src →
      (∀ m : Directive.Layout, m.bytes = c.bytes src → m = l) ∧
      (c.reading src).node =
        some (.inclusion (c.head.excerpt src) (Text.Utf8.decode l.path) (l.opener == 60)
          ("#" ++ l.keyword)) ∧
      ∀ (other : Octets) (d : Cst), d.head.named = true → d.head.type ∈ inclusionTypes →
        d.bytes other = c.bytes src →
        (d.reading other).node =
          some (.inclusion (d.head.excerpt other) (Text.Utf8.decode l.path) (l.opener == 60)
            ("#" ++ l.keyword)) := by
  refine ⟨⟨?_, ?_⟩, fun l hl => ⟨fun m hm => ?_, ?_, fun other d hd htype hsame => ?_⟩⟩
  · rintro ⟨excerpt, path, system, directive, h⟩
    exact exists_layout_of_node hnamed hpreproc hother h
  · rintro ⟨l, hl⟩
    exact ⟨_, _, _, _, node_of_layout hnamed hpreproc hother hl⟩
  · exact Directive.Layout.bytes_injective (hm.trans hl.symm)
  · exact node_of_layout hnamed hpreproc hother hl
  · exact node_of_inclusionType hd htype (hl.trans hsame.symm)

/-- Blanks on both sides of the sign, a path that is not text throughout, and a closer that
does not go with the opener. -/
def strayLayout : Directive.Layout where
  lead := [32, 11]
  gap := [10, 9]
  keyword := "import"
  space := []
  opener := 60
  path := [97, 255, 46, 104]
  closer := 34
  rest := [62]
  lead_blank := by simp [Directive.blanks]
  gap_blank := by simp [Directive.blanks]
  keyword_known := by decide
  space_blank := fun _ => nofun
  opener_known := by decide
  path_nonempty := by decide
  path_open := by simp
  closer_known := by decide

/-- A node of a type, as long as the layout. -/
def strayNode (type : String) (start : Nat) : Cst :=
  node { type, start, stop := start + 18, named := true } []

theorem inclusion_iff_layout_stray :
    ((strayNode "preproc_call" 0).reading strayLayout.bytes.toArray).node =
      some (.inclusion ((strayNode "preproc_call" 0).head.excerpt strayLayout.bytes.toArray)
        "a\ufffd.h" true "#import") ∧
    ((strayNode "preproc_include" 1).reading (35 :: strayLayout.bytes).toArray).node =
      some (.inclusion
        ((strayNode "preproc_include" 1).head.excerpt (35 :: strayLayout.bytes).toArray)
        "a\ufffd.h" true "#import") := by
  have hpath : Text.Utf8.decode strayLayout.path = "a\ufffd.h" := by decide
  have hbytes : strayLayout.bytes =
      (strayNode "preproc_call" 0).bytes strayLayout.bytes.toArray := by decide
  obtain ⟨-, hlayout⟩ := inclusion_iff_layout strayLayout.bytes.toArray
    (strayNode "preproc_call" 0) rfl (by decide) (by decide)
  obtain ⟨-, hnode, hsame⟩ := hlayout strayLayout hbytes
  have hinclude := hsame (35 :: strayLayout.bytes).toArray (strayNode "preproc_include" 1) rfl
    (by decide) (by decide)
  rw [hpath] at hnode hinclude
  exact ⟨hnode, hinclude⟩

end Cst

end SymbolGraph
