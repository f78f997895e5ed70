import SymbolGraph.Proofs.Key

/-!
# `Proofs.KeyPath` — a path tells its key

A key is compared by its path alone, so two keys are mixed up if they are written alike:

    Foo, bar    and    Foo/bar        a slash inside a segment
    x in 2      and    x$2            a dollar sign in the last segment
    (nothing)   and    the empty one  no segment at all

Where none of this occurs (`Key.Plain`), the path is read back: between the slashes stand
the segments, the last of them with its block behind it, and the first dollar sign of that
piece parts the two.  Dollar signs in the other segments do no harm.  The SHAPE of a key is
what is told: its segments, and its block as far as it is positive.
-/

namespace SymbolGraph

/-- Two lists made from one hold as many different values, if they tell its members apart
in the same way. -/
theorem length_eraseDups_map {α β γ : Type} [BEq β] [LawfulBEq β] [BEq γ] [LawfulBEq γ]
    {f : α → β} {g : α → γ} : ∀ (xs : List α), (∀ a ∈ xs, ∀ b ∈ xs, f a = f b ↔ g a = g b) →
      (xs.map f).eraseDups.length = (xs.map g).eraseDups.length
  | [], _ => rfl
  | x :: xs, hsame => by
      -- Both lists lose the same members to their first one.
      have hkept : ∀ a ∈ xs, (!f a == f x) = (!g a == g x) := by
        intro a ha
        have hiff := hsame a (List.mem_cons_of_mem _ ha) x List.mem_cons_self
        rw [Bool.eq_iff_iff]
        simpa using not_congr hiff
      have hfilter : xs.filter ((fun b => !b == f x) ∘ f) =
          xs.filter ((fun b => !b == g x) ∘ g) := List.filter_congr hkept
      rw [List.map_cons, List.map_cons, List.eraseDups_cons, List.eraseDups_cons,
        List.length_cons, List.length_cons, List.filter_map, List.filter_map, hfilter]
      refine congrArg (· + 1) (length_eraseDups_map _ ?_)
      intro a ha b hb
      exact hsame a (List.mem_cons_of_mem _ (List.mem_of_mem_filter ha)) b
        (List.mem_cons_of_mem _ (List.mem_of_mem_filter hb))
termination_by xs => xs.length
decreasing_by exact Nat.lt_succ_of_le (List.length_filter_le ..)

namespace Key

/-- A key made of names: no segment holds a slash, and the last one no dollar sign. -/
structure Plain (k : Key) : Prop where
  nonempty : k.segments ≠ []
  noSlash : ∀ segment ∈ k.segments, '/' ∉ segment.toList
  noDollar : '$' ∉ k.name.toList

/-- What a key is made of, no block and every block that is not positive being one. -/
def shape (k : Key) : List String × Nat := (k.segments, k.block.toNat)

/-! ## The last piece -/

/-- How the block is written behind the last segment. -/
def suffix (k : Key) : String := if 0 < k.block then "$" ++ toString k.block else ""

theorem suffix_of_nonpos {k : Key} (h : k.block ≤ 0) : k.suffix = "" := if_neg (by omega)

theorem suffix_of_pos {k : Key} (h : 0 < k.block) :
    k.suffix = "$" ++ toString k.block.toNat := by
  have hnat : k.block = (k.block.toNat : Int) := by omega
  rw [suffix, if_pos h]
  conv_lhs => rw [hnat]
  rfl

theorem slash_notMem_suffix (k : Key) : '/' ∉ k.suffix.toList := by
  by_cases h : 0 < k.block
  · rw [suffix_of_pos h, String.toList_append, List.mem_append, not_or]
    exact ⟨by decide, notMem_toString (by decide) _⟩
  · rw [suffix_of_nonpos (by omega)]
    exact List.not_mem_nil

theorem dollar_mem_iff {k : Key} (h : '$' ∉ k.name.toList) :
    '$' ∈ (k.name ++ k.suffix).toList ↔ 0 < k.block := by
  rw [String.toList_append, List.mem_append, or_iff_right h]
  by_cases hpositive : 0 < k.block
  · simp [suffix_of_pos hpositive, hpositive]
  · simp [suffix_of_nonpos (Int.not_lt.mp hpositive), hpositive]

/-- What follows a name without a dollar sign tells the block. -/
theorem name_and_block {k l : Key} (hk : '$' ∉ k.name.toList) (hl : '$' ∉ l.name.toList)
    (h : k.name ++ k.suffix = l.name ++ l.suffix) :
    k.name = l.name ∧ k.block.toNat = l.block.toNat := by
  have hboth : 0 < k.block ↔ 0 < l.block := by
    rw [← dollar_mem_iff hk, h, dollar_mem_iff hl]
  have hchars := congrArg String.toList h
  by_cases hpositive : 0 < k.block
  · rw [suffix_of_pos hpositive, suffix_of_pos (hboth.mp hpositive)] at hchars
    simp only [String.toList_append] at hchars
    obtain ⟨hname, hblock⟩ := append_cons_inj_left hk hl hchars
    exact ⟨String.toList_inj.mp hname, toString_nat_inj (String.toList_inj.mp hblock)⟩
  · rw [suffix_of_nonpos (by omega), suffix_of_nonpos (by omega), String.append_empty,
      String.append_empty] at hchars
    exact ⟨String.toList_inj.mp hchars, by omega⟩

/-! ## The pieces between the slashes -/

/-- The segments, the last one with the block behind it. -/
def pieces (k : Key) : List String := k.segments.dropLast ++ [k.name ++ k.suffix]

theorem dropLast_append_name {k : Key} (h : k.segments ≠ []) :
    k.segments.dropLast ++ [k.name] = k.segments := by
  rw [name, List.getLastD_eq_getLast?, List.getLast?_eq_some_getLast h, Option.getD_some]
  exact List.dropLast_append_getLast h

theorem path_eq_append_suffix (k : Key) : k.path = "/".intercalate k.segments ++ k.suffix := by
  unfold path suffix
  split
  · rw [String.append_assoc]
  · rw [String.append_empty]

theorem path_eq_intercalate {k : Key} (h : k.segments ≠ []) :
    k.path = "/".intercalate k.pieces := by
  rw [path_eq_append_suffix, pieces]
  conv_lhs => rw [← dropLast_append_name h]
  by_cases hfirst : k.segments.dropLast = []
  · rw [hfirst]
    simp
  · rw [String.intercalate_append_of_ne_nil hfirst (List.cons_ne_nil _ _),
      String.intercalate_append_of_ne_nil hfirst (List.cons_ne_nil _ _),
      String.intercalate_singleton, String.intercalate_singleton, ← String.append_assoc]

/-- Reading a path between its slashes gives the pieces. -/
theorem Plain.ofPath_path {k : Key} (h : k.Plain) : (ofPath k.path).segments = k.pieces := by
  have hslash : ∀ piece ∈ k.pieces, '/' ∉ piece.toList := by
    intro piece hpiece
    rcases List.mem_append.mp hpiece with hpiece | hpiece
    · exact h.noSlash piece (List.dropLast_subset _ hpiece)
    · rw [List.mem_singleton.mp hpiece, String.toList_append, List.mem_append, not_or]
      have hname : k.name ∈ k.segments := by
        rw [← dropLast_append_name h.nonempty]
        exact List.mem_append_right _ List.mem_cons_self
      exact ⟨h.noSlash _ hname, k.slash_notMem_suffix⟩
  have hsplit : Path.splitSlash k.path.toList = k.pieces.map String.toList := by
    rw [path_eq_intercalate h.nonempty, String.toList_intercalate]
    refine Path.splitSlash_intercalate (by simp [pieces]) ?_
    intro piece hpiece
    obtain ⟨segment, hsegment, rfl⟩ := List.mem_map.mp hpiece
    exact hslash segment hsegment
  rw [ofPath, hsplit, List.map_map]
  simp only [Function.comp_def, String.ofList_toList, List.map_id']

/-! ## Paths and shapes -/

theorem path_congr {k l : Key} (h : k.shape = l.shape) : k.path = l.path := by
  obtain ⟨hsegments, hblock⟩ := Prod.mk.inj h
  rw [path_eq_append_suffix, path_eq_append_suffix, hsegments]
  by_cases hpositive : 0 < k.block
  · rw [suffix_of_pos hpositive, suffix_of_pos (by omega), hblock]
  · rw [suffix_of_nonpos (by omega), suffix_of_nonpos (by omega)]

theorem Plain.path_eq_iff {k l : Key} (hk : k.Plain) (hl : l.Plain) :
    k.path = l.path ↔ k.shape = l.shape := by
  refine ⟨?_, path_congr⟩
  intro h
  have hpieces : k.pieces = l.pieces := by rw [← hk.ofPath_path, h, hl.ofPath_path]
  obtain ⟨hfirst, hlast⟩ := List.append_inj' hpieces rfl
  obtain ⟨hname, hblock⟩ := name_and_block hk.noDollar hl.noDollar (List.cons.inj hlast).1
  have hsegments : k.segments = l.segments := by
    rw [← dropLast_append_name hk.nonempty, ← dropLast_append_name hl.nonempty, hfirst, hname]
  exact Prod.ext hsegments hblock

/-- Keys made of names have one path only if they have one shape: then, and only then, they
are the same and neither comes before the other.  A set of such keys has a member for each
shape. -/
theorem paths_tell_plain_keys :
    (∀ k l : Key, k.Plain → l.Plain →
      (k.path = l.path ↔ k.segments = l.segments ∧ k.block.toNat = l.block.toNat) ∧
      (k.same l = true ↔ k.segments = l.segments ∧ k.block.toNat = l.block.toNat) ∧
      (k.before l = false ∧ l.before k = false ↔
        k.segments = l.segments ∧ k.block.toNat = l.block.toNat)) ∧
    ∀ keys : List Key, (∀ k ∈ keys, k.Plain) →
      (distinct keys).length = (keys.map shape).eraseDups.length := by
  constructor
  · intro k l hk hl
    have hpath : k.path = l.path ↔ k.segments = l.segments ∧ k.block.toNat = l.block.toNat :=
      (hk.path_eq_iff hl).trans Prod.ext_iff
    refine ⟨hpath, by rw [same, beq_iff_eq, hpath], ?_⟩
    rw [← hpath, before, before, decide_eq_false_iff_not, decide_eq_false_iff_not,
      String.not_lt, String.not_lt]
    exact ⟨fun h => String.le_antisymm h.2 h.1, fun h => h ▸ ⟨String.le_refl _, String.le_refl _⟩⟩
  · intro keys hplain
    exact length_eraseDups_map keys fun k hk l hl => (hplain k hk).path_eq_iff (hplain l hl)

theorem paths_tell_plain_keys_local :
    Plain ⟨["Foo", "a$1", "x"], 12⟩ ∧ Plain ⟨["Foo", "a$1", "x"], 1⟩ ∧
    Key.path ⟨["Foo", "a$1", "x"], 12⟩ ≠ Key.path ⟨["Foo", "a$1", "x"], 1⟩ ∧
    Key.same ⟨["Foo", "a$1", "x"], -3⟩ ⟨["Foo", "a$1", "x"], 0⟩ = true ∧
    (distinct [⟨["Foo", "a$1", "x"], 12⟩, ⟨["Foo", "a$1", "x"], 1⟩,
      ⟨["Foo", "a$1", "x"], -3⟩, ⟨["Foo", "a$1", "x"], 0⟩]).length = 3 := by
  have hplain : ∀ block, Plain ⟨["Foo", "a$1", "x"], block⟩ := fun block =>
    ⟨List.cons_ne_nil _ _,
      show ∀ segment ∈ ["Foo", "a$1", "x"], '/' ∉ segment.toList by decide,
      show '$' ∉ "x".toList by decide⟩
  obtain ⟨hpairs, hsets⟩ := paths_tell_plain_keys
  refine ⟨hplain 12, hplain 1, fun h => ?_, ?_, ?_⟩
  · obtain ⟨-, hblock⟩ := (hpairs _ _ (hplain 12) (hplain 1)).1.mp h
    exact absurd hblock (by decide)
  · exact (hpairs _ _ (hplain (-3)) (hplain 0)).2.1.mpr ⟨rfl, rfl⟩
  · rw [hsets _ (by simp [hplain])]
    decide

end Key

end SymbolGraph
