import Mathlib.Data.List.Nodup
import SymbolGraph.Proofs.Act
import SymbolGraph.Store

/-!
# `Proofs.Store` — the store against the list of what was written to it

Three views tell all that later proofs need:

    get? path     the LAST definition written under the path
    written       all definitions ever written, as a multiset: those that stand
                  and those that became the earlier half of a collision
    references    the first of those that are the same

The references of one file are kept as if those of the other files had never
been written, because references of two files are never the same.
-/

namespace SymbolGraph

namespace Reference

theorem same_iff {a b : Reference} : a.same b = true ↔
    a.start = b.start ∧ a.stop = b.stop ∧ a.isDef = b.isDef ∧ a.file = b.file ∧
      a.repo = b.repo ∧ a.unitType = b.unitType ∧ a.unit = b.unit ∧ a.key.path = b.key.path := by
  simp [same, Key.same, and_assoc]

theorem file_eq_of_same {a b : Reference} (h : a.same b = true) : a.file = b.file :=
  (same_iff.mp h).2.2.2.1

theorem path_eq_of_same {a b : Reference} (h : a.same b = true) : a.key.path = b.key.path :=
  (same_iff.mp h).2.2.2.2.2.2.2

/-- A reference goes behind those that are there, unless it is one of them. -/
def addTo (refs : List Reference) (r : Reference) : List Reference :=
  if refs.any (·.same r) then refs else refs ++ [r]

/-- Adding a reference does not touch those of another file. -/
theorem addTo_filter (file : String) (refs : List Reference) (r : Reference) :
    (addTo refs r).filter (·.file = file) =
      if r.file = file then addTo (refs.filter (·.file = file)) r
      else refs.filter (·.file = file) := by
  have hany : r.file = file →
      (refs.filter (·.file = file)).any (·.same r) = refs.any (·.same r) := by
    intro hr
    rw [Bool.eq_iff_iff, List.any_eq_true, List.any_eq_true]
    constructor
    · rintro ⟨x, hx, hsame⟩
      exact ⟨x, (List.mem_filter.mp hx).1, hsame⟩
    · rintro ⟨x, hx, hsame⟩
      have hfile : x.file = file := (file_eq_of_same hsame).trans hr
      exact ⟨x, List.mem_filter.mpr ⟨hx, by simpa using hfile⟩, hsame⟩
  by_cases hr : r.file = file
  · rw [if_pos hr, addTo, addTo, hany hr]
    split
    · rfl
    · simp [List.filter_append, hr]
  · rw [if_neg hr, addTo]
    split
    · rfl
    · simp [List.filter_append, hr]

theorem foldl_addTo_filter (file : String) : ∀ (rs refs : List Reference),
    (rs.foldl addTo refs).filter (·.file = file) =
      (rs.filter (·.file = file)).foldl addTo (refs.filter (·.file = file))
  | [], _ => rfl
  | r :: rs, refs => by
      rw [List.foldl_cons, foldl_addTo_filter file rs, addTo_filter]
      by_cases hr : r.file = file
      · rw [if_pos hr, List.filter_cons_of_pos (by simpa using hr), List.foldl_cons]
      · rw [if_neg hr, List.filter_cons_of_neg (by simpa using hr)]

theorem mem_addTo {refs : List Reference} {x r : Reference} (h : x ∈ addTo refs r) :
    x ∈ refs ∨ x = r := by
  unfold addTo at h
  split at h
  · exact Or.inl h
  · exact (List.mem_append.mp h).imp_right List.mem_singleton.mp

theorem mem_foldl_addTo {x : Reference} : ∀ {rs refs : List Reference},
    x ∈ rs.foldl addTo refs → x ∈ rs ∨ x ∈ refs
  | [], _, h => Or.inr h
  | r :: rs, refs, h => by
      have hrest : x ∈ rs.foldl addTo (addTo refs r) := h
      rcases mem_foldl_addTo hrest with h | h
      · exact Or.inl (List.mem_cons_of_mem _ h)
      · rcases mem_addTo h with h | rfl
        · exact Or.inr h
        · exact Or.inl List.mem_cons_self

theorem same_refl (r : Reference) : r.same r = true := by simp [same_iff]

theorem subset_addTo (refs : List Reference) (r : Reference) : refs ⊆ addTo refs r := by
  unfold addTo
  split
  · exact List.Subset.refl _
  · exact List.subset_append_left _ _

theorem exists_same_addTo (refs : List Reference) (r : Reference) :
    ∃ x ∈ addTo refs r, x.same r = true := by
  unfold addTo
  split
  · next h => exact List.any_eq_true.mp h
  · exact ⟨r, List.mem_append_right _ (List.mem_singleton.mpr rfl), same_refl r⟩

theorem subset_foldl_addTo (rs : List Reference) : ∀ refs, refs ⊆ rs.foldl addTo refs := by
  induction rs with
  | nil => exact List.Subset.refl
  | cons r rs ih => exact fun refs => List.Subset.trans (subset_addTo refs r) (ih _)

/-- Whatever is added, one that is the same stays. -/
theorem exists_same_foldl_addTo {r : Reference} {rs refs : List Reference}
    (h : r ∈ rs ∨ ∃ x ∈ refs, x.same r = true) : ∃ x ∈ rs.foldl addTo refs, x.same r = true := by
  induction rs generalizing refs with
  | nil => exact h.resolve_left List.not_mem_nil
  | cons first rs ih =>
      rw [List.foldl_cons]
      apply ih
      rcases h with h | ⟨x, hx, hsame⟩
      · rcases List.mem_cons.mp h with rfl | h
        · exact Or.inr (exists_same_addTo refs r)
        · exact Or.inl h
      · exact Or.inr ⟨x, subset_addTo refs first hx, hsame⟩

end Reference

namespace Definition

/-- The last definition under a path. -/
def lastUnder (path : String) (ds : List Definition) : Option Definition :=
  (ds.filter (·.key.path == path)).getLast?

theorem lastUnder_append (path : String) (as bs : List Definition) :
    lastUnder path (as ++ bs) = (lastUnder path bs).or (lastUnder path as) := by
  rw [lastUnder, List.filter_append, List.getLast?_append]
  rfl

theorem lastUnder_isSome {path : String} {ds : List Definition} :
    (lastUnder path ds).isSome ↔ ∃ d ∈ ds, d.key.path = path := by
  rw [lastUnder, List.getLast?_isSome, ne_eq, List.filter_eq_nil_iff]
  simp

end Definition

namespace Store

/-- Every definition that was ever written. -/
def written (s : Store) : List Definition := s.definitions ++ s.collisions.map (·.previous)

/-- No path stands twice. -/
def Distinct (s : Store) : Prop := (s.definitions.map (·.key.path)).Nodup

/-- Keeps a record. -/
def record (s : Store) : Emission → Store
  | .definition d => s.define d
  | .reference r => s.refer r
  | .skipped .. => s

def recordAll (es : List Emission) (s : Store) : Store := es.foldl record s

theorem recordAll_append (as bs : List Emission) (s : Store) :
    recordAll (as ++ bs) s = recordAll bs (recordAll as s) := by
  simp [recordAll]

/-! ## Definitions and references keep apart -/

section Frame

variable (s : Store) (r : Reference)

theorem references_define (d : Definition) : (s.define d).references = s.references := by
  unfold define
  split <;> rfl

theorem references_refer : (s.refer r).references = Reference.addTo s.references r := by
  unfold refer Reference.addTo
  split <;> rfl

theorem definitions_refer : (s.refer r).definitions = s.definitions := by
  unfold refer
  split <;> rfl

theorem collisions_refer : (s.refer r).collisions = s.collisions := by
  unfold refer
  split <;> rfl

theorem get?_refer (path : String) : (s.refer r).get? path = s.get? path := by
  rw [get?, definitions_refer, get?]

theorem written_refer : (s.refer r).written = s.written := by
  rw [written, definitions_refer, collisions_refer, written]

end Frame

/-! ## Writing one definition -/

theorem find?_replace (d : Definition) (path : String) : ∀ {ds : List Definition},
    ds.find? (·.key.path == d.key.path) ≠ none →
      (replace d ds).find? (·.key.path == path) =
        if d.key.path = path then some d else ds.find? (·.key.path == path)
  | [], h => absurd rfl h
  | e :: ds, h => by
      rw [replace]
      by_cases he : e.key.path = d.key.path
      · have hsame : e.key.same d.key = true := by simpa [Key.same] using he
        rw [if_pos hsame]
        by_cases hp : d.key.path = path
        · simp [hp]
        · simp [hp, he]
      · have hsame : ¬ e.key.same d.key = true := by simpa [Key.same] using he
        rw [if_neg hsame]
        have hds : ds.find? (·.key.path == d.key.path) ≠ none := by simpa [he] using h
        have ih := find?_replace d path hds
        by_cases hp : e.key.path = path
        · have hne : d.key.path ≠ path := fun hd => he (hp.trans hd.symm)
          simp [hp, hne]
        · simp [hp, ih]

theorem map_path_replace (d : Definition) : ∀ ds : List Definition,
    (replace d ds).map (·.key.path) = ds.map (·.key.path)
  | [] => rfl
  | e :: ds => by
      rw [replace]
      split
      · next h => simp [show e.key.path = d.key.path by simpa [Key.same] using h]
      · rw [List.map_cons, List.map_cons, map_path_replace d ds]

theorem replace_perm {d previous : Definition} : ∀ {ds : List Definition},
    ds.find? (·.key.path == d.key.path) = some previous →
      (previous :: replace d ds).Perm (d :: ds)
  | [], h => by cases h
  | e :: ds, h => by
      rw [replace]
      by_cases he : e.key.path = d.key.path
      · have hsame : e.key.same d.key = true := by simpa [Key.same] using he
        have hprev : e = previous := by simpa [he] using h
        rw [if_pos hsame, hprev]
        exact List.Perm.swap _ _ _
      · have hsame : ¬ e.key.same d.key = true := by simpa [Key.same] using he
        rw [if_neg hsame]
        have hds : ds.find? (·.key.path == d.key.path) = some previous := by simpa [he] using h
        have ih := replace_perm hds
        exact (List.Perm.swap _ _ _).trans ((ih.cons e).trans (List.Perm.swap _ _ _))

theorem get?_define (s : Store) (d : Definition) (path : String) :
    (s.define d).get? path = if d.key.path = path then some d else s.get? path := by
  unfold define
  split
  · next hnone =>
    by_cases hp : d.key.path = path
    · subst hp
      simp only [get?] at hnone
      simp [get?, List.find?_append, hnone]
    · simp [get?, List.find?_append, hp]
  · next previous hsome =>
    exact find?_replace d path (by simp only [get?] at hsome; simp [hsome])

theorem written_define (s : Store) (d : Definition) :
    (s.define d).written.Perm (d :: s.written) := by
  unfold define
  split
  · simp [written]
  · next previous hsome =>
    have hperm := replace_perm (d := d) hsome
    have hlast : (replace d s.definitions ++ (s.collisions.map (·.previous) ++ [previous])).Perm
        (previous :: replace d s.definitions ++ s.collisions.map (·.previous)) := by
      rw [← List.append_assoc]
      exact List.perm_append_singleton _ _
    simpa [written] using hlast.trans (hperm.append_right _)

theorem distinct_define {s : Store} (h : s.Distinct) (d : Definition) : (s.define d).Distinct := by
  unfold define
  split
  · next hnone =>
    simp only [get?, List.find?_eq_none, beq_iff_eq] at hnone
    simp only [Distinct, List.map_append, List.map_cons, List.map_nil]
    refine List.nodup_append.mpr ⟨h, by simp, ?_⟩
    intro path hpath other hother heq
    obtain ⟨e, he, rfl⟩ := List.mem_map.mp hpath
    exact hnone e he (heq.trans (List.mem_singleton.mp hother))
  · simpa [Distinct, map_path_replace] using h

theorem mem_definitions_iff {s : Store} (h : s.Distinct) {d : Definition} :
    d ∈ s.definitions ↔ s.get? d.key.path = some d := by
  constructor
  · intro hd
    cases hget : s.get? d.key.path with
    | none => exact absurd (List.find?_eq_none.mp hget d hd) (by simp)
    | some e =>
        have hpath : e.key.path = d.key.path := by simpa using List.find?_some hget
        rw [List.inj_on_of_nodup_map h (List.mem_of_find?_eq_some hget) hd hpath]
  · exact List.mem_of_find?_eq_some

/-! ## Keeping all records -/

theorem get?_recordAll (path : String) : ∀ (es : List Emission) (s : Store),
    (recordAll es s).get? path =
      (Definition.lastUnder path (es.filterMap Emission.definition?)).or (s.get? path)
  | [], s => rfl
  | .definition d :: es, s => by
      have ih := get?_recordAll path es (s.define d)
      have hlast : Definition.lastUnder path ((Emission.definition d :: es).filterMap
          Emission.definition?) = (Definition.lastUnder path
            (es.filterMap Emission.definition?)).or (Definition.lastUnder path [d]) :=
        Definition.lastUnder_append path [d] _
      rw [recordAll, List.foldl_cons, record, ← recordAll, ih, get?_define, hlast, Option.or_assoc]
      by_cases hp : d.key.path = path
      · simp [Definition.lastUnder, hp]
      · simp [Definition.lastUnder, hp]
  | .reference r :: es, s => by
      have ih := get?_recordAll path es (s.refer r)
      rwa [get?_refer] at ih
  | .skipped _ _ :: es, s => get?_recordAll path es s

theorem written_recordAll : ∀ (es : List Emission) (s : Store),
    (recordAll es s).written.Perm (es.filterMap Emission.definition? ++ s.written)
  | [], s => .refl _
  | .definition d :: es, s => by
      have ih := written_recordAll es (s.define d)
      exact ih.trans (((written_define s d).append_left _).trans List.perm_middle)
  | .reference r :: es, s => by
      have ih := written_recordAll es (s.refer r)
      rwa [written_refer] at ih
  | .skipped _ _ :: es, s => written_recordAll es s

theorem references_recordAll : ∀ (es : List Emission) (s : Store),
    (recordAll es s).references =
      (es.filterMap Emission.reference?).foldl Reference.addTo s.references
  | [], s => rfl
  | .definition d :: es, s => by
      have ih := references_recordAll es (s.define d)
      rwa [references_define] at ih
  | .reference r :: es, s => by
      have ih := references_recordAll es (s.refer r)
      rwa [references_refer] at ih
  | .skipped _ _ :: es, s => references_recordAll es s

theorem distinct_recordAll : ∀ (es : List Emission) {s : Store}, s.Distinct →
    (recordAll es s).Distinct
  | [], _, h => h
  | .definition d :: es, _, h => distinct_recordAll es (distinct_define h d)
  | .reference r :: es, s, h => by
      exact distinct_recordAll es (by rwa [record, Distinct, definitions_refer])
  | .skipped _ _ :: es, _, h => distinct_recordAll es h

/-- Stores that answer alike hold the same definitions. -/
theorem definitions_perm {s u : Store} (hs : s.Distinct) (hu : u.Distinct)
    (h : ∀ path, s.get? path = u.get? path) : s.definitions.Perm u.definitions := by
  refine (List.perm_ext_iff_of_nodup (List.Nodup.of_map _ hs) (List.Nodup.of_map _ hu)).mpr ?_
  intro d
  rw [mem_definitions_iff hs, mem_definitions_iff hu, h]

end Store

end SymbolGraph
