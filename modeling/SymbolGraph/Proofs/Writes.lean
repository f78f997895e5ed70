import SymbolGraph.Proofs.Key
import SymbolGraph.Proofs.Store

/-!
# `Proofs.Writes` — the store told by the sequence of its writes

For every sequence of writes to an empty store, with completions anywhere between
them, each part of the store is a function of what was written:

    definitions   the paths in the order of their FIRST writes, each with the
                  definition that was written under it LAST
    collisions    for each write under a path that was there: what stood under it
                  just before, and what was written
    references    what was written, less everything that was written before
    lookup        the last definition under a path, however the path is spelled

Keys of different segments and blocks may have one path, and then they are one key.
A path that is given as a text is cut at its slashes and put together again, which
gives the text back (`Key.path_ofPath`), so a text finds what any key with that path
would find.
-/

namespace SymbolGraph

/-- One operation on a store. -/
inductive Write where
  | define (d : Definition)
  | refer (r : Reference)
  | flush
  deriving Repr, DecidableEq

namespace Write

def emission? : Write → Option Emission
  | .define d => some (.definition d)
  | .refer r => some (.reference r)
  | .flush => none

/-- The definitions that are written, in order. -/
def definitions (ws : List Write) : List Definition :=
  ws.filterMap fun
    | .define d => some d
    | _ => none

/-- The references that are written, in order. -/
def references (ws : List Write) : List Reference :=
  ws.filterMap fun
    | .refer r => some r
    | _ => none

theorem filterMap_definition? (ws : List Write) :
    (ws.filterMap emission?).filterMap Emission.definition? = definitions ws := by
  rw [List.filterMap_filterMap, definitions]
  congr 1
  funext w
  cases w <;> rfl

theorem filterMap_reference? (ws : List Write) :
    (ws.filterMap emission?).filterMap Emission.reference? = references ws := by
  rw [List.filterMap_filterMap, references]
  congr 1
  funext w
  cases w <;> rfl

end Write

/-- All that makes two references one: the written path of the key counts, not the key. -/
def Reference.identity (r : Reference) :
    String × String × Int × Int × Bool × Option String × Option String × Option String :=
  (r.key.path, r.file, r.start, r.stop, r.isDef, r.repo, r.unitType, r.unit)

/-- The collisions of some definitions: each one whose path was written before, with what
was written last under the path. -/
def Definition.clashes (earlier : List Definition) : List Definition → List Collision
  | [] => []
  | d :: rest =>
      (lastUnder d.key.path earlier).toList.map (⟨·, d⟩) ++ clashes (earlier ++ [d]) rest

/-! ## References -/

namespace Reference

theorem same_eq_identity (a b : Reference) : a.same b = (b.identity == a.identity) := by
  rw [Bool.eq_iff_iff, same_iff, beq_iff_eq]
  simp only [identity, Prod.mk.injEq]
  grind

/-- Adding one by one drops what was there before. -/
theorem foldl_addTo_eq_loop : ∀ rs kept : List Reference,
    rs.foldl addTo kept =
      List.eraseDupsBy.loop (fun a b => a.identity == b.identity) rs kept.reverse
  | [], kept => by simp [List.eraseDupsBy.loop]
  | r :: rs, kept => by
      have hany : kept.reverse.any (fun b => r.identity == b.identity) = kept.any (·.same r) := by
        rw [List.any_reverse]
        exact congrArg kept.any (funext fun b => (same_eq_identity b r).symm)
      rw [List.foldl_cons, foldl_addTo_eq_loop rs, List.eraseDupsBy.loop, hany, addTo]
      cases kept.any (·.same r) with
      | true => rfl
      | false =>
          rw [if_neg Bool.false_ne_true, List.reverse_append]
          rfl

theorem foldl_addTo_nil (rs : List Reference) :
    rs.foldl addTo [] = rs.eraseDupsBy fun a b => a.identity == b.identity :=
  foldl_addTo_eq_loop rs []

end Reference

/-! ## Definitions -/

theorem eraseDups_concat (xs : List String) (x : String) :
    (xs ++ [x]).eraseDups = xs.eraseDups ++ if x ∈ xs then [] else [x] := by
  rw [List.eraseDups_append, List.removeAll]
  by_cases hx : x ∈ xs
  · rw [if_pos hx, List.filter_cons_of_neg (by simp [hx])]
    rfl
  · rw [if_neg hx, List.filter_cons_of_pos (by simp [hx])]
    rfl

namespace Store

/-- The paths of the definitions that stand, in their order. -/
def paths (s : Store) : List String := s.definitions.map (·.key.path)

theorem get?_eq_none_iff {s : Store} {path : String} : s.get? path = none ↔ path ∉ s.paths := by
  simp [get?, paths, List.find?_eq_none]

/-- A path keeps the place of its first write. -/
theorem paths_define (s : Store) (d : Definition) :
    (s.define d).paths = s.paths ++ if d.key.path ∈ s.paths then [] else [d.key.path] := by
  unfold define
  cases hget : s.get? d.key.path with
  | none =>
      rw [if_neg (get?_eq_none_iff.mp hget)]
      exact List.map_append
  | some previous =>
      have hmem : d.key.path ∈ s.paths := by
        by_contra hnot
        rw [get?_eq_none_iff.mpr hnot] at hget
        cases hget
      rw [if_pos hmem, List.append_nil]
      exact map_path_replace d s.definitions

theorem paths_recordAll : ∀ (es : List Emission) {s : Store} (earlier : List Definition),
    s.paths = (earlier.map (·.key.path)).eraseDups →
      (recordAll es s).paths =
        ((earlier ++ es.filterMap Emission.definition?).map (·.key.path)).eraseDups
  | [], s, earlier, h => by simpa [recordAll] using h
  | .definition d :: es, s, earlier, h => by
      have hdefine : (s.define d).paths = ((earlier ++ [d]).map (·.key.path)).eraseDups := by
        rw [paths_define, h, List.map_append, List.map_singleton, eraseDups_concat]
        simp only [List.mem_eraseDups]
      have ih := paths_recordAll es (earlier ++ [d]) hdefine
      rwa [List.append_assoc] at ih
  | .reference r :: es, s, earlier, h => by
      have hrefer : (s.refer r).paths = s.paths := by rw [paths, definitions_refer, paths]
      exact paths_recordAll es earlier (hrefer.trans h)
  | .skipped _ _ :: es, s, earlier, h => paths_recordAll es earlier h

/-- Where no path stands twice, each definition is the one that its path finds. -/
theorem definitions_eq_filterMap {s : Store} (h : s.Distinct) :
    s.definitions = s.paths.filterMap s.get? := by
  have hfound : ∀ ds ⊆ s.definitions, (ds.map (·.key.path)).filterMap s.get? = ds := by
    intro ds hsub
    induction ds with
    | nil => rfl
    | cons d ds ih =>
        obtain ⟨hd, hds⟩ := List.cons_subset.mp hsub
        rw [List.map_cons, List.filterMap_cons, (mem_definitions_iff h).mp hd, ih hds]
  exact (hfound s.definitions (List.Subset.refl _)).symm

/-- What stood under the path just before is what was written last under it. -/
theorem collisions_recordAll : ∀ (es : List Emission) {s : Store} (earlier : List Definition),
    (∀ path, s.get? path = Definition.lastUnder path earlier) →
      (recordAll es s).collisions =
        s.collisions ++ Definition.clashes earlier (es.filterMap Emission.definition?)
  | [], s, earlier, _ => (List.append_nil _).symm
  | .definition d :: es, s, earlier, h => by
      have hget : ∀ path, (s.define d).get? path = Definition.lastUnder path (earlier ++ [d]) := by
        intro path
        rw [get?_define, Definition.lastUnder_append, ← h]
        by_cases hp : d.key.path = path
        · simp [Definition.lastUnder, hp]
        · simp [Definition.lastUnder, hp]
      have hclash : (s.define d).collisions =
          s.collisions ++ (Definition.lastUnder d.key.path earlier).toList.map (⟨·, d⟩) := by
        rw [← h]
        unfold define
        cases s.get? d.key.path with
        | none => exact (List.append_nil _).symm
        | some previous => rfl
      have ih := collisions_recordAll es (earlier ++ [d]) hget
      rw [hclash, List.append_assoc] at ih
      exact ih
  | .reference r :: es, s, earlier, h => by
      have hget : ∀ path, (s.refer r).get? path = Definition.lastUnder path earlier := by
        intro path
        rw [get?_refer, h]
      have ih := collisions_recordAll es earlier hget
      rwa [collisions_refer] at ih
  | .skipped _ _ :: es, s, earlier, h => collisions_recordAll es earlier h

/-! ## Completions between the writes -/

/-- Performs an operation. -/
def write (s : Store) : Write → Store
  | .define d => s.define d
  | .refer r => s.refer r
  | .flush => s.flush

/-- The store behind some operations on an empty one. -/
def ofWrites (ws : List Write) : Store := ws.foldl write {}

/-- Only the mark of completion tells whether the store was completed between writes. -/
theorem record_flushed (s : Store) (e : Emission) (flushed : Bool) :
    ({ s with flushed } : Store).record e = { s.record e with flushed } := by
  cases e with
  | definition d =>
      have hget : ({ s with flushed } : Store).get? d.key.path = s.get? d.key.path := rfl
      simp only [record, define, hget]
      cases s.get? d.key.path <;> rfl
  | reference r =>
      simp only [record, refer]
      split <;> rfl
  | skipped => rfl

theorem recordAll_flushed (flushed : Bool) : ∀ (es : List Emission) (s : Store),
    recordAll es { s with flushed } = { recordAll es s with flushed }
  | [], _ => rfl
  | e :: es, s => by
      have ih := recordAll_flushed flushed es (s.record e)
      rwa [← record_flushed] at ih

theorem foldl_write : ∀ (ws : List Write) (s : Store), ∃ flushed,
    ws.foldl write s = { recordAll (ws.filterMap Write.emission?) s with flushed }
  | [], s => ⟨s.flushed, rfl⟩
  | .define d :: ws, s => foldl_write ws (s.define d)
  | .refer r :: ws, s => foldl_write ws (s.refer r)
  | .flush :: ws, s => by
      obtain ⟨flushed, h⟩ := foldl_write ws s.flush
      refine ⟨flushed, h.trans ?_⟩
      rw [flush, recordAll_flushed]
      rfl

section OfWrites

variable (ws : List Write)

theorem get?_ofWrites (path : String) :
    (ofWrites ws).get? path = Definition.lastUnder path (Write.definitions ws) := by
  obtain ⟨flushed, hstore⟩ := foldl_write ws {}
  rw [ofWrites, hstore, ← Write.filterMap_definition?]
  exact (get?_recordAll path _ {}).trans Option.or_none

theorem definitions_ofWrites : (ofWrites ws).definitions =
    ((Write.definitions ws).map (·.key.path)).eraseDups.filterMap
      (Definition.lastUnder · (Write.definitions ws)) := by
  obtain ⟨flushed, hstore⟩ := foldl_write ws {}
  have hdistinct : (ofWrites ws).Distinct := by
    rw [ofWrites, hstore]
    exact distinct_recordAll (s := {}) _ List.nodup_nil
  have hpaths : (ofWrites ws).paths = ((Write.definitions ws).map (·.key.path)).eraseDups := by
    rw [ofWrites, hstore, ← Write.filterMap_definition?]
    exact paths_recordAll _ [] rfl
  rw [definitions_eq_filterMap hdistinct, hpaths, funext (get?_ofWrites ws)]

theorem collisions_ofWrites :
    (ofWrites ws).collisions = Definition.clashes [] (Write.definitions ws) := by
  obtain ⟨flushed, hstore⟩ := foldl_write ws {}
  rw [ofWrites, hstore, ← Write.filterMap_definition?]
  exact collisions_recordAll (s := {}) _ [] fun _ => rfl

theorem written_ofWrites : (ofWrites ws).written.Perm (Write.definitions ws) := by
  obtain ⟨flushed, hstore⟩ := foldl_write ws {}
  have hall := written_recordAll (ws.filterMap Write.emission?) {}
  rw [Write.filterMap_definition?, show ({} : Store).written = [] from rfl, List.append_nil] at hall
  rw [ofWrites, hstore]
  exact hall

theorem references_ofWrites : (ofWrites ws).references =
    (Write.references ws).eraseDupsBy fun a b => a.identity == b.identity := by
  obtain ⟨flushed, hstore⟩ := foldl_write ws {}
  rw [ofWrites, hstore, ← Write.filterMap_reference?, ← Reference.foldl_addTo_nil]
  exact references_recordAll _ {}

/-- A text finds what was written last under any key with that path. -/
theorem lookup_ofWrites (written : String) :
    (ofWrites ws).lookup written = Definition.lastUnder written (Write.definitions ws) := by
  rw [lookup, Key.path_ofPath, get?_ofWrites]

/-- The store told by its writes: what stands, what was overwritten, what refers, and
what a text or a key finds. -/
theorem store_told_by_writes :
    (ofWrites ws).definitions =
      ((Write.definitions ws).map (·.key.path)).eraseDups.filterMap
        (Definition.lastUnder · (Write.definitions ws)) ∧
    (ofWrites ws).collisions = Definition.clashes [] (Write.definitions ws) ∧
    (ofWrites ws).definitions.length + (ofWrites ws).collisions.length =
      (Write.definitions ws).length ∧
    (ofWrites ws).references =
      (Write.references ws).eraseDupsBy (fun a b => a.identity == b.identity) ∧
    (∀ written, (ofWrites ws).lookup written =
      Definition.lastUnder written (Write.definitions ws)) ∧
    (∀ key : Key, (ofWrites ws).get? key.path = (ofWrites ws).lookup key.path) ∧
    ∀ path, (ofWrites ws).refsTo path = (ofWrites ws).references.filter (·.key.path = path) := by
  refine ⟨definitions_ofWrites ws, collisions_ofWrites ws, ?_, references_ofWrites ws,
    lookup_ofWrites ws, fun key => ?_, fun path => ?_⟩
  · have hlength := (written_ofWrites ws).length_eq
    rwa [written, List.length_append, List.length_map] at hlength
  · rw [lookup_ofWrites, get?_ofWrites]
  · exact List.filter_congr fun r _ => Bool.beq_eq_decide_eq _ _

end OfWrites

end Store

end SymbolGraph
