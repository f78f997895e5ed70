import Mathlib.Data.List.Basic
import SymbolGraph.Path

/-!
# `Proofs.Path` — a normalized path is its own normal form

A text is cut into segments that are neither empty nor `.` and hold no slash.
Resolving leaves `..` only in front (`Ascends`), and so does the way from a
root to a location.  Written out and read back, such segments come back as
they were, and resolving them again changes nothing:

    normalize root (ofText (normalize root p)) = normalize root p

for every `p` with proper segments.  No root is special here: what is
normalized once is relative, and a relative path does not look at the root.
-/

namespace SymbolGraph

namespace Path

/-- What may stand between two slashes: `..` may, `.` may not. -/
def IsSegment (s : String) : Prop := s ≠ "" ∧ s ≠ "." ∧ '/' ∉ s.toList

/-- A step up stands only behind steps up. -/
def Ascends (segments : List String) : Prop :=
  segments.Pairwise fun earlier later => later = ".." → earlier = ".."

/-! ## Cutting a text at its slashes -/

theorem splitSlash_ne_nil (cs : List Char) : splitSlash cs ≠ [] := by
  cases cs with
  | nil => simp [splitSlash]
  | cons c rest =>
      unfold splitSlash
      split
      · simp
      · split <;> simp

theorem splitSlash_cons_of_ne {c : Char} (hc : c ≠ '/') {rest piece : List Char}
    {pieces : List (List Char)} (h : splitSlash rest = piece :: pieces) :
    splitSlash (c :: rest) = (c :: piece) :: pieces := by
  rw [splitSlash, if_neg hc, h]

theorem slash_notMem_of_mem_splitSlash :
    ∀ (cs : List Char) {piece : List Char}, piece ∈ splitSlash cs → '/' ∉ piece
  | [], piece, h => by
      rw [splitSlash, List.mem_singleton] at h
      simp [h]
  | c :: rest, piece, h => by
      by_cases hc : c = '/'
      · rw [splitSlash, if_pos hc] at h
        rcases List.mem_cons.mp h with rfl | h
        · simp
        · exact slash_notMem_of_mem_splitSlash rest h
      · obtain ⟨first, pieces, hs⟩ := List.exists_cons_of_ne_nil (splitSlash_ne_nil rest)
        rw [splitSlash_cons_of_ne hc hs] at h
        rcases List.mem_cons.mp h with rfl | h
        · have hfirst : '/' ∉ first := slash_notMem_of_mem_splitSlash rest (by simp [hs])
          simpa [eq_comm] using And.intro hc hfirst
        · exact slash_notMem_of_mem_splitSlash rest (by simp [hs, h])

theorem splitSlash_of_notMem : ∀ {cs : List Char}, '/' ∉ cs → splitSlash cs = [cs]
  | [], _ => rfl
  | c :: rest, h => by
      rw [List.mem_cons, not_or] at h
      exact splitSlash_cons_of_ne (Ne.symm h.1) (splitSlash_of_notMem h.2)

theorem splitSlash_append_slash {tail : List Char} :
    ∀ {cs : List Char}, '/' ∉ cs → splitSlash (cs ++ '/' :: tail) = cs :: splitSlash tail
  | [], _ => by simp [splitSlash]
  | c :: rest, h => by
      rw [List.mem_cons, not_or] at h
      exact splitSlash_cons_of_ne (Ne.symm h.1) (splitSlash_append_slash h.2)

/-- Pieces without slashes are found again between the slashes that join them. -/
theorem splitSlash_intercalate :
    ∀ {pieces : List (List Char)}, pieces ≠ [] → (∀ piece ∈ pieces, '/' ∉ piece) →
      splitSlash (['/'].intercalate pieces) = pieces
  | [], h, _ => absurd rfl h
  | [piece], _, h => by
      rw [List.intercalate_singleton]
      exact splitSlash_of_notMem (h piece List.mem_cons_self)
  | piece :: next :: pieces, _, h => by
      rw [List.intercalate_cons_cons, List.append_assoc, List.singleton_append,
        splitSlash_append_slash (h piece List.mem_cons_self),
        splitSlash_intercalate (by simp) fun p hp => h p (List.mem_cons_of_mem _ hp)]

/-- Whatever a text holds, its pieces with slashes between them are the text again. -/
theorem intercalate_splitSlash : ∀ cs : List Char, ['/'].intercalate (splitSlash cs) = cs
  | [] => by simp [splitSlash]
  | c :: rest => by
      have ih := intercalate_splitSlash rest
      obtain ⟨first, pieces, hs⟩ := List.exists_cons_of_ne_nil (splitSlash_ne_nil rest)
      rw [hs] at ih
      by_cases hc : c = '/'
      · rw [splitSlash, if_pos hc, hs, List.intercalate_cons_cons, ih, hc]
        rfl
      · rw [splitSlash_cons_of_ne hc hs]
        cases pieces with
        | nil =>
            rw [List.intercalate_singleton] at ih ⊢
            rw [ih]
        | cons next pieces =>
            rw [List.intercalate_cons_cons] at ih ⊢
            rw [← ih]
            rfl

theorem isSegment_of_mem_segmentsOf {text s : String} (h : s ∈ segmentsOf text) :
    IsSegment s := by
  simp only [segmentsOf, List.mem_filter, List.mem_map, decide_eq_true_eq] at h
  obtain ⟨⟨piece, hpiece, rfl⟩, hne, hdot⟩ := h
  exact ⟨hne, hdot, by simpa using slash_notMem_of_mem_splitSlash _ hpiece⟩

/-! ## Resolving -/

theorem mem_pushSegment {absolute : Bool} {before : List String} {segment s : String}
    (h : s ∈ pushSegment absolute before segment) : s = segment ∨ s ∈ before := by
  unfold pushSegment at h
  split at h
  · next hup =>
    split at h
    · split at h <;> simp_all
    · split at h
      · simp_all
      · exact Or.inr (List.mem_cons_of_mem _ h)
  · exact List.mem_cons.mp h

theorem mem_foldl_pushSegment {absolute : Bool} {s : String} :
    ∀ {segments before : List String}, s ∈ segments.foldl (pushSegment absolute) before →
      s ∈ segments ∨ s ∈ before
  | [], _, h => Or.inr h
  | segment :: rest, before, h => by
      have hrest : s ∈ rest.foldl (pushSegment absolute) (pushSegment absolute before segment) := h
      rcases mem_foldl_pushSegment hrest with h | h
      · exact Or.inl (List.mem_cons_of_mem _ h)
      · rcases mem_pushSegment h with rfl | h
        · exact Or.inl List.mem_cons_self
        · exact Or.inr h

theorem mem_resolveSegments {absolute : Bool} {segments : List String} {s : String}
    (h : s ∈ resolveSegments absolute segments) : s ∈ segments := by
  rcases mem_foldl_pushSegment (List.mem_reverse.mp h) with h | h
  · exact h
  · exact absurd h List.not_mem_nil

/-- The stack holds the latest segment first, so steps up lie at its bottom. -/
theorem pushSegment_ascends {before : List String} (segment : String)
    (h : Ascends before.reverse) : Ascends (pushSegment false before segment).reverse := by
  unfold Ascends at h ⊢
  rw [List.pairwise_reverse] at h ⊢
  unfold pushSegment
  split
  · cases before with
    | nil => simp
    | cons top rest =>
        obtain ⟨htop, hrest⟩ := List.pairwise_cons.mp h
        dsimp only
        split
        · next hup =>
          refine List.pairwise_cons.mpr ⟨fun s hs _ => ?_, h⟩
          rcases List.mem_cons.mp hs with rfl | hs
          · exact hup
          · exact htop s hs hup
        · exact hrest
  · next hne => exact List.pairwise_cons.mpr ⟨fun _ _ hup => absurd hup hne, h⟩

theorem foldl_pushSegment_ascends :
    ∀ (segments : List String) {before : List String}, Ascends before.reverse →
      Ascends (segments.foldl (pushSegment false) before).reverse
  | [], _, h => h
  | segment :: rest, _, h => foldl_pushSegment_ascends rest (pushSegment_ascends segment h)

theorem resolveSegments_ascends (segments : List String) :
    Ascends (resolveSegments false segments) :=
  foldl_pushSegment_ascends segments List.Pairwise.nil

/-- Above a root there is nothing: no step up is left. -/
theorem foldl_pushSegment_absolute :
    ∀ (segments : List String) {before : List String}, ".." ∉ before →
      ".." ∉ segments.foldl (pushSegment true) before
  | [], _, h => h
  | segment :: rest, before, h => by
      refine foldl_pushSegment_absolute rest ?_
      unfold pushSegment
      split
      · cases before with
        | nil => simp
        | cons top before =>
            rw [List.mem_cons, not_or] at h
            simpa [Ne.symm h.1] using h.2
      · next hne => simpa [eq_comm] using And.intro hne h

theorem up_notMem_resolveSegments (segments : List String) :
    ".." ∉ resolveSegments true segments := by
  intro h
  exact foldl_pushSegment_absolute segments List.not_mem_nil (List.mem_reverse.mp h)

/-- Segments that ascend already are pushed one after the other. -/
theorem foldl_pushSegment_of_ascends :
    ∀ (segments : List String) {before : List String}, Ascends (before.reverse ++ segments) →
      segments.foldl (pushSegment false) before = segments.reverse ++ before
  | [], _, _ => rfl
  | segment :: rest, before, h => by
      have hpush : pushSegment false before segment = segment :: before := by
        unfold pushSegment
        split
        · next hup =>
          cases before with
          | nil => simp [hup]
          | cons top before =>
              have htop : top = ".." :=
                (List.pairwise_append.mp h).2.2 top (by simp) segment List.mem_cons_self hup
              simp [htop, hup]
        · rfl
      have hrest : Ascends ((segment :: before).reverse ++ rest) := by
        simpa [Ascends, List.append_assoc] using h
      rw [List.foldl_cons, hpush, foldl_pushSegment_of_ascends rest hrest]
      simp

theorem resolveSegments_of_ascends {segments : List String} (h : Ascends segments) :
    resolveSegments false segments = segments := by
  rw [resolveSegments, foldl_pushSegment_of_ascends segments (by simpa using h)]
  simp

theorem foldl_pushSegment_of_up_notMem (absolute : Bool) :
    ∀ (segments : List String) {before : List String}, ".." ∉ segments →
      segments.foldl (pushSegment absolute) before = segments.reverse ++ before
  | [], _, _ => rfl
  | segment :: rest, before, h => by
      rw [List.mem_cons, not_or] at h
      have hpush : pushSegment absolute before segment = segment :: before := if_neg (Ne.symm h.1)
      rw [List.foldl_cons, hpush, foldl_pushSegment_of_up_notMem absolute rest h.2]
      simp

/-- Where no segment goes up, there is nothing to resolve. -/
theorem resolveSegments_of_up_notMem (absolute : Bool) {segments : List String}
    (h : ".." ∉ segments) : resolveSegments absolute segments = segments := by
  rw [resolveSegments, foldl_pushSegment_of_up_notMem absolute segments h]
  simp

/-! ## The way from a root -/

theorem ascends_ups_append (n : Nat) {down : List String} (h : ".." ∉ down) :
    Ascends (List.replicate n ".." ++ down) := by
  refine List.pairwise_append.mpr ⟨List.pairwise_replicate.mpr (Or.inr fun h => h), ?_, ?_⟩
  · exact List.pairwise_of_forall_mem_list fun _ _ s hs hup => absurd (hup ▸ hs) h
  · intro a ha _ _ _
    exact List.eq_of_mem_replicate ha

theorem wayTo_eq : ∀ (start target : List String),
    ∃ n down, wayTo start target = List.replicate n ".." ++ down ∧ down ⊆ target
  | [], target => ⟨0, target, by simp [wayTo], List.Subset.refl _⟩
  | s :: start, [] => ⟨start.length + 1, [], by simp [wayTo], List.Subset.refl _⟩
  | s :: start, t :: target => by
      by_cases h : s = t
      · obtain ⟨n, down, heq, hsub⟩ := wayTo_eq start target
        exact ⟨n, down, by rw [wayTo, if_pos h, heq], fun x hx => List.mem_cons_of_mem _ (hsub hx)⟩
      · exact ⟨start.length + 1, t :: target, by rw [wayTo, if_neg h], List.Subset.refl _⟩

theorem relativeSegments_ascends (root p : Path) : Ascends (relativeSegments root p) := by
  unfold relativeSegments
  split
  · next habs =>
    obtain ⟨n, down, heq, hsub⟩ := wayTo_eq root.resolve.segments p.resolve.segments
    rw [heq]
    refine ascends_ups_append n fun hup => ?_
    have hmem : ".." ∈ resolveSegments p.isAbsolute p.segments := hsub hup
    rw [habs] at hmem
    exact up_notMem_resolveSegments p.segments hmem
  · next habs =>
    rw [Bool.not_eq_true] at habs
    simpa [resolve, habs] using resolveSegments_ascends p.segments

theorem isSegment_up : IsSegment ".." := by
  refine ⟨by decide, by decide, by decide⟩

theorem isSegment_of_mem_relativeSegments {root p : Path} (hp : ∀ s ∈ p.segments, IsSegment s)
    {s : String} (h : s ∈ relativeSegments root p) : IsSegment s := by
  unfold relativeSegments at h
  split at h
  · obtain ⟨n, down, heq, hsub⟩ := wayTo_eq root.resolve.segments p.resolve.segments
    rw [heq] at h
    rcases List.mem_append.mp h with h | h
    · rw [List.eq_of_mem_replicate h]
      exact isSegment_up
    · exact hp s (mem_resolveSegments (hsub h))
  · exact hp s (mem_resolveSegments h)

/-! ## Writing and reading back -/

theorem anchorOf_of_head_ne {c : Char} {cs : List Char} (h : c ≠ '/') :
    anchorOf (c :: cs) = .here := by
  unfold anchorOf
  split <;> simp_all

/-- Proper segments, written as a relative path, are read back. -/
theorem ofText_text {segments : List String} (h : ∀ s ∈ segments, IsSegment s) :
    ofText (Path.mk .here segments).text = ⟨.here, segments⟩ := by
  cases segments with
  | nil => decide
  | cons first rest =>
      have hchars : ("/".intercalate (first :: rest)).toList =
          ['/'].intercalate ((first :: rest).map String.toList) := by
        rw [String.toList_intercalate]
        rfl
      obtain ⟨hne, -, hslash⟩ := h first List.mem_cons_self
      obtain ⟨c, cs, hfirst⟩ : ∃ c cs, first.toList = c :: cs := by
        refine List.exists_cons_of_ne_nil fun hnil => hne ?_
        exact String.toList_eq_nil_iff.mp hnil
      have hanchor : anchorOf ("/".intercalate (first :: rest)).toList = .here := by
        have hc : c ≠ '/' := by
          rintro rfl
          exact hslash (by simp [hfirst])
        rw [hchars, List.map_cons, hfirst]
        cases rest with
        | nil => simpa using anchorOf_of_head_ne hc
        | cons next rest =>
            rw [List.map_cons, List.intercalate_cons_cons]
            exact anchorOf_of_head_ne hc
      have hsplit : splitSlash ("/".intercalate (first :: rest)).toList =
          (first :: rest).map String.toList := by
        rw [hchars]
        refine splitSlash_intercalate (by simp) fun piece hpiece => ?_
        obtain ⟨s, hs, rfl⟩ := List.mem_map.mp hpiece
        exact (h s hs).2.2
      have hsegments : segmentsOf ("/".intercalate (first :: rest)) = first :: rest := by
        rw [segmentsOf, hsplit, List.map_map]
        simp only [Function.comp_def, String.ofList_toList, List.map_id']
        exact List.filter_eq_self.mpr fun s hs => by simpa using And.intro (h s hs).1 (h s hs).2.1
      have htext : (Path.mk .here (first :: rest)).text = "/".intercalate (first :: rest) := rfl
      rw [htext, ofText, hanchor, hsegments]

/-- Segments that ascend already are written as they are normalized. -/
theorem normalize_ofText_text_of_ascends (root : Path) {segments : List String}
    (h : ∀ s ∈ segments, IsSegment s) (hascends : Ascends segments) :
    normalize root (ofText (Path.mk .here segments).text) = (Path.mk .here segments).text := by
  have hrelative : relativeSegments root ⟨.here, segments⟩ = segments := by
    simpa [relativeSegments, isAbsolute, resolve] using resolveSegments_of_ascends hascends
  rw [ofText_text h, normalize, hrelative]

/-- A relative path that never goes up is written as it is normalized. -/
theorem normalize_ofText_text (root : Path) {segments : List String}
    (h : ∀ s ∈ segments, IsSegment s) (hup : ".." ∉ segments) :
    normalize root (ofText (Path.mk .here segments).text) = (Path.mk .here segments).text :=
  normalize_ofText_text_of_ascends root h (ascends_ups_append 0 hup)

theorem normalize_ofText_normalize (root : Path) {p : Path} (hp : ∀ s ∈ p.segments, IsSegment s) :
    normalize root (ofText (normalize root p)) = normalize root p :=
  normalize_ofText_text_of_ascends root (fun _ hs => isSegment_of_mem_relativeSegments hp hs)
    (relativeSegments_ascends root p)

theorem isSegment_of_mem_ofText {text s : String} (h : s ∈ (ofText text).segments) :
    IsSegment s := isSegment_of_mem_segmentsOf h

end Path

end SymbolGraph
