import Mathlib.Data.List.Induction
import SymbolGraph.Proofs.Definitions

/-!
# `Proofs.Spelling` — which spellings of a location have one normal form

Seen from an absolute root, a path leads to a LOCATION: the path joined to the root, with
every `..` resolved.  Two ways of spelling a location meet in one normal form only if they
go up from the root equally far:

    relativeSegments root p = `..` repeated, then what the location has below   `relative_eq`

An absolute path goes up as far as it has to, to what the root and the location share.  A
relative path goes up as far as it SAYS.  It may climb out of the root and come back into
a directory that it has left, or go up from the top of the file system: then it DETOURS,
and its normal form is not the one of the location (`direct_iff`).

Without detours, normal forms and locations are one to one.  Then no file is visited under
two names, and an inclusion that leads to a configured file is recognized.
-/

namespace SymbolGraph

namespace Path

/-! ## Going up, then down -/

/-- How many steps up are left when the segments are resolved; they stand in front. -/
def climb (segments : List String) : Nat := (resolveSegments false segments).count ".."

/-- What stands behind the steps up. -/
def descent (segments : List String) : List String :=
  (resolveSegments false segments).filter (· ≠ "..")

theorem up_notMem_descent (segments : List String) : ".." ∉ descent segments := by
  simp [descent]

theorem count_ups (k : Nat) {down : List String} (h : ".." ∉ down) :
    (List.replicate k ".." ++ down).count ".." = k := by
  rw [List.count_append, List.count_replicate_self, List.count_eq_zero.mpr h]
  rfl

theorem climb_and_descent {segments down : List String} {k : Nat}
    (h : resolveSegments false segments = List.replicate k ".." ++ down) (hdown : ".." ∉ down) :
    climb segments = k ∧ descent segments = down := by
  refine ⟨by rw [climb, h, count_ups k hdown], ?_⟩
  rw [descent, h, List.filter_append, List.filter_replicate_of_neg (by simp), List.nil_append]
  exact List.filter_eq_self.mpr fun s hs => by
    simpa using fun heq : s = ".." => hdown (heq ▸ hs)

theorem pushSegment_down (absolute : Bool) (before : List String) {segment : String}
    (h : segment ≠ "..") : pushSegment absolute before segment = segment :: before := if_neg h

/-- A step up takes away the segment before it. -/
theorem pushSegment_up (absolute : Bool) {top : String} (rest : List String) (h : top ≠ "..") :
    pushSegment absolute (top :: rest) ".." = rest := by
  rw [pushSegment, if_pos rfl]
  exact if_neg h

theorem pushSegment_up_ups (k : Nat) :
    pushSegment false (List.replicate k "..") ".." = List.replicate (k + 1) ".." := by
  cases k with
  | zero => rfl
  | succ k => rfl

/-- Above the root there is nothing. -/
theorem pushSegment_up_root {before : List String} (h : ".." ∉ before) :
    pushSegment true before ".." = before.drop 1 := by
  cases before with
  | nil => rfl
  | cons top rest =>
      exact pushSegment_up true rest fun htop => h (htop ▸ List.mem_cons_self)

/-- Relative segments resolve to steps up and a way down; from a stack, the steps up take
away as many segments, if there are so many. -/
theorem exists_climb (segments : List String) : ∃ (k : Nat) (down : List String), ".." ∉ down ∧
    segments.foldl (pushSegment false) [] = down.reverse ++ List.replicate k ".." ∧
    ∀ stack : List String, ".." ∉ stack →
      segments.foldl (pushSegment true) stack = down.reverse ++ stack.drop k := by
  induction segments using List.reverseRecOn with
  | nil => exact ⟨0, [], List.not_mem_nil, rfl, fun _ _ => rfl⟩
  | append_singleton before segment ih =>
      obtain ⟨k, down, hdown, hrelative, habsolute⟩ := ih
      by_cases hup : segment = ".."
      · subst hup
        rcases List.eq_nil_or_concat down with rfl | ⟨init, last, rfl⟩
        · refine ⟨k + 1, [], List.not_mem_nil, ?_, fun stack hstack => ?_⟩
          · rw [List.foldl_append, hrelative]
            exact pushSegment_up_ups k
          · have hleft : ".." ∉ stack.drop k := fun h => hstack (List.mem_of_mem_drop h)
            rw [List.foldl_append, habsolute stack hstack]
            exact (pushSegment_up_root hleft).trans (by rw [List.drop_drop]; rfl)
        · rw [List.concat_eq_append] at hdown hrelative habsolute
          have hlast : last ≠ ".." := fun h =>
            hdown (h ▸ List.mem_append_right _ List.mem_cons_self)
          refine ⟨k, init, fun h => hdown (List.mem_append_left _ h), ?_, fun stack hstack => ?_⟩
          · rw [List.foldl_append, hrelative, List.reverse_append]
            exact pushSegment_up false _ hlast
          · rw [List.foldl_append, habsolute stack hstack, List.reverse_append]
            exact pushSegment_up true _ hlast
      · refine ⟨k, down ++ [segment], ?_, ?_, fun stack hstack => ?_⟩
        · simpa using And.intro hdown (Ne.symm hup)
        · rw [List.foldl_append, hrelative, List.reverse_append]
          exact pushSegment_down false _ hup
        · rw [List.foldl_append, habsolute stack hstack, List.reverse_append]
          exact pushSegment_down true _ hup

theorem climb_descent (segments : List String) :
    resolveSegments false segments =
        List.replicate (climb segments) ".." ++ descent segments ∧
      ∀ stack : List String, ".." ∉ stack →
        segments.foldl (pushSegment true) stack =
          (descent segments).reverse ++ stack.drop (climb segments) := by
  obtain ⟨k, down, hdown, hrelative, habsolute⟩ := exists_climb segments
  have hresolve : resolveSegments false segments = List.replicate k ".." ++ down := by
    rw [resolveSegments, hrelative]
    simp
  obtain ⟨rfl, rfl⟩ := climb_and_descent hresolve hdown
  exact ⟨hresolve, habsolute⟩

/-! ## The way from the root to a location -/

theorem wayTo_append (shared start target : List String) :
    wayTo (shared ++ start) (shared ++ target) = wayTo start target := by
  induction shared with
  | nil => rfl
  | cons s rest ih => rw [List.cons_append, List.cons_append, wayTo, if_pos rfl, ih]

/-- The way goes up some part of the start, and down to the rest of the target; what it
does not go up is shared. -/
theorem wayTo_up_down : ∀ start target : List String, ∃ ups ≤ start.length,
    wayTo start target = List.replicate ups ".." ++ target.drop (start.length - ups) ∧
      start.take (start.length - ups) = target.take (start.length - ups)
  | [], target => ⟨0, Nat.le_refl _, by simp [wayTo], rfl⟩
  | s :: start, [] => ⟨start.length + 1, Nat.le_refl _, by simp [wayTo], by simp⟩
  | s :: start, t :: target => by
      by_cases h : s = t
      · obtain ⟨ups, hups, hway, hshared⟩ := wayTo_up_down start target
        have hlength : (s :: start).length - ups = start.length - ups + 1 := by
          rw [List.length_cons]
          omega
        refine ⟨ups, Nat.le_succ_of_le hups, ?_, ?_⟩
        · rw [wayTo, if_pos h, hway, hlength, List.drop_succ_cons]
        · rw [hlength, List.take_succ_cons, List.take_succ_cons, hshared, h]
      · refine ⟨start.length + 1, Nat.le_refl _, ?_, by simp⟩
        rw [wayTo, if_neg h]
        simp

/-- Down a directory that the start is in, there is nothing to go up for. -/
theorem count_wayTo_le {start target : List String} (h : ".." ∉ target) :
    (wayTo start target).count ".." ≤ start.length := by
  obtain ⟨ups, hups, hway, -⟩ := wayTo_up_down start target
  have hdown : ".." ∉ target.drop (start.length - ups) := fun hin => h (List.mem_of_mem_drop hin)
  rwa [hway, count_ups _ hdown]

/-- The way is to go up all of the start, unless the first step down leads back. -/
theorem wayTo_eq_ups_iff {start target : List String} {k : Nat} (htarget : ".." ∉ target)
    (hk : start.length ≤ k) : wayTo start target = List.replicate k ".." ++ target ↔
      start.length = k ∧ ¬ ∃ name ∈ target.head?, name ∈ start.head? := by
  cases start with
  | nil =>
      have hway : wayTo [] target = target := by rw [wayTo] <;> simp
      rw [hway]
      refine ⟨fun h => ⟨?_, by simp⟩, fun h => h.1 ▸ rfl⟩
      have hlength : k = 0 := by simpa using congrArg List.length h
      exact hlength.symm
  | cons s start =>
      cases target with
      | nil => simp [wayTo]
      | cons t target =>
          by_cases h : s = t
          · have hcount : (wayTo start target).count ".." ≤ start.length :=
              count_wayTo_le fun hin => htarget (List.mem_cons_of_mem _ hin)
            rw [wayTo, if_pos h]
            refine ⟨fun heq => ?_, fun hnot => absurd ⟨s, by simp [h], by simp⟩ hnot.2⟩
            rw [heq, List.count_append, List.count_replicate_self] at hcount
            rw [List.length_cons] at hk
            omega
          · rw [wayTo, if_neg h]
            simp [h]

/-! ## Locations -/

/-- Where a path leads from a root, as segments from the top of the file system. -/
def location (root p : Path) : List String := (root.join p).resolve.segments

/-- The path goes up further than there are directories, or comes back into the directory
that it has left last. -/
def Detours (root p : Path) : Prop :=
  p.isAbsolute = false ∧
    (root.segments.length < climb p.segments ∨
      ∃ name ∈ (descent p.segments).head?,
        name ∈ (root.segments.drop (root.segments.length - climb p.segments)).head?)

instance (root p : Path) : Decidable (Detours root p) :=
  inferInstanceAs (Decidable (_ ∧ (_ ∨ _)))

theorem location_of_absolute (root : Path) {p : Path} (h : p.isAbsolute = true) :
    location root p = p.resolve.segments := by
  rw [location, join, if_pos h]

theorem resolve_root {root : Path} (h : ".." ∉ root.segments) :
    root.resolve.segments = root.segments := resolveSegments_of_up_notMem _ h

section Root

variable {root p q : Path} (habsolute : root.isAbsolute = true)
include habsolute

theorem isAbsolute_join (p : Path) : (root.join p).isAbsolute = true := by
  unfold join
  split
  · next h => exact h
  · exact habsolute

theorem up_notMem_location (p : Path) : ".." ∉ location root p := by
  rw [location, resolve, isAbsolute_join habsolute]
  exact up_notMem_resolveSegments _

variable (hroot : ".." ∉ root.segments)
include hroot

theorem location_of_relative (h : p.isAbsolute = false) : location root p =
    root.segments.take (root.segments.length - climb p.segments) ++ descent p.segments := by
  have hjoin : root.join p = ⟨root.anchor, root.segments ++ p.segments⟩ :=
    if_neg (by simp [h])
  have hstack : root.segments.foldl (pushSegment true) [] = root.segments.reverse := by
    rw [foldl_pushSegment_of_up_notMem true _ hroot, List.append_nil]
  rw [location, resolve, isAbsolute_join habsolute, hjoin, resolveSegments, List.foldl_append,
    hstack, (climb_descent p.segments).2 _ (by simpa using hroot), List.drop_reverse]
  simp

/-- The normal form goes up some part of the root, and then down to the location. -/
theorem relative_eq (p : Path) : ∃ ups,
    relativeSegments root p =
        List.replicate ups ".." ++ (location root p).drop (root.segments.length - ups) ∧
      root.segments.take (root.segments.length - ups) =
        (location root p).take (root.segments.length - ups) := by
  cases h : p.isAbsolute with
  | true =>
      obtain ⟨ups, -, hway, hshared⟩ := wayTo_up_down root.segments (location root p)
      refine ⟨ups, ?_, hshared⟩
      rw [relativeSegments, if_pos h, resolve_root hroot, ← location_of_absolute root h, hway]
  | false =>
      have hlength : (root.segments.take (root.segments.length - climb p.segments)).length =
          root.segments.length - climb p.segments := by
        rw [List.length_take]
        omega
      refine ⟨climb p.segments, ?_, ?_⟩
      · rw [relativeSegments, if_neg (by simp [h]), location_of_relative habsolute hroot h,
          List.drop_left' hlength, resolve, h]
        exact (climb_descent p.segments).1
      · rw [location_of_relative habsolute hroot h, List.take_left' hlength]

/-- Of the spellings of a location, those are one that go up equally far. -/
theorem relative_eq_iff (hsame : location root p = location root q) :
    relativeSegments root p = relativeSegments root q ↔
      (relativeSegments root p).count ".." = (relativeSegments root q).count ".." := by
  obtain ⟨ups, hp, -⟩ := relative_eq habsolute hroot p
  obtain ⟨ups', hq, -⟩ := relative_eq habsolute hroot q
  have hdown : ∀ n, ".." ∉ (location root q).drop n := fun n h =>
    up_notMem_location habsolute q (List.mem_of_mem_drop h)
  rw [hp, hq, hsame]
  refine ⟨fun h => congrArg _ h, fun h => ?_⟩
  rw [count_ups _ (hdown _), count_ups _ (hdown _)] at h
  rw [h]

/-- A path takes the way to its location unless it detours. -/
theorem direct_iff (p : Path) :
    relativeSegments root p = wayTo root.segments (location root p) ↔ ¬ Detours root p := by
  cases h : p.isAbsolute with
  | true =>
      rw [relativeSegments, if_pos h, resolve_root hroot, ← location_of_absolute root h]
      exact iff_of_true rfl fun hdetour => by simp [Detours, h] at hdetour
  | false =>
      -- What the root and the location share in any case is what the path does not go up.
      have hway : wayTo root.segments (location root p) =
          wayTo (root.segments.drop (root.segments.length - climb p.segments))
            (descent p.segments) := by
        rw [location_of_relative habsolute hroot h]
        nth_rewrite 1 [← List.take_append_drop (root.segments.length - climb p.segments)
          root.segments]
        exact wayTo_append _ _ _
      have hrelative : relativeSegments root p =
          List.replicate (climb p.segments) ".." ++ descent p.segments := by
        rw [relativeSegments, if_neg (by simp [h]), resolve, h]
        exact (climb_descent p.segments).1
      have hlength : (root.segments.drop (root.segments.length - climb p.segments)).length ≤
          climb p.segments := by
        rw [List.length_drop]
        omega
      have hclimb : (root.segments.drop (root.segments.length - climb p.segments)).length =
          climb p.segments ↔ ¬ root.segments.length < climb p.segments := by
        rw [List.length_drop]
        omega
      rw [hway, hrelative, eq_comm, wayTo_eq_ups_iff (up_notMem_descent _) hlength, hclimb,
        ← not_or, Detours, and_iff_right h]

/-! ## Normal forms -/

omit habsolute hroot in
theorem normalize_eq_iff_relative (hp : ∀ s ∈ p.segments, IsSegment s)
    (hq : ∀ s ∈ q.segments, IsSegment s) :
    normalize root p = normalize root q ↔ relativeSegments root p = relativeSegments root q := by
  refine ⟨fun h => ?_, fun h => by rw [normalize, h, normalize]⟩
  have hread : ∀ {r : Path}, (∀ s ∈ r.segments, IsSegment s) →
      ofText (normalize root r) = ⟨.here, relativeSegments root r⟩ := fun hr =>
    ofText_text fun _ hs => isSegment_of_mem_relativeSegments hr hs
  have hsame := (hread hp).symm.trans ((congrArg ofText h).trans (hread hq))
  exact (Path.mk.inj hsame).2

/-- The normal form of a path leads where the path leads. -/
theorem location_normalize (hp : ∀ s ∈ p.segments, IsSegment s) :
    location root (ofText (normalize root p)) = location root p := by
  obtain ⟨ups, hrelative, hshared⟩ := relative_eq habsolute hroot p
  have hread : ofText (normalize root p) = ⟨.here, relativeSegments root p⟩ :=
    ofText_text fun _ hs => isSegment_of_mem_relativeSegments hp hs
  have hdown : ".." ∉ (location root p).drop (root.segments.length - ups) := fun h =>
    up_notMem_location habsolute p (List.mem_of_mem_drop h)
  have hresolve := resolveSegments_of_ascends (relativeSegments_ascends root p)
  obtain ⟨hclimb, hdescent⟩ := climb_and_descent (hresolve.trans hrelative) hdown
  rw [hread, location_of_relative habsolute hroot rfl, hclimb, hdescent, hshared,
    List.take_append_drop]

/-- Two paths have one normal form if they lead to one location and both are direct, or
both detour and go up equally far; otherwise they have two. -/
theorem normalize_eq_iff (hp : ∀ s ∈ p.segments, IsSegment s)
    (hq : ∀ s ∈ q.segments, IsSegment s) : normalize root p = normalize root q ↔
      location root p = location root q ∧ (Detours root p ↔ Detours root q) ∧
        (Detours root p → climb p.segments = climb q.segments) := by
  by_cases hsame : location root p = location root q
  case neg =>
    refine iff_of_false (fun h => hsame ?_) fun h => hsame h.1
    rw [← location_normalize habsolute hroot hp, h, location_normalize habsolute hroot hq]
  have hcount : ∀ {r : Path}, Detours root r →
      (relativeSegments root r).count ".." = climb r.segments := by
    rintro r ⟨hrelative, -⟩
    rw [relativeSegments, if_neg (by simp [hrelative]), resolve, hrelative, climb]
  have hdirect := direct_iff habsolute hroot p
  have hdirect' := direct_iff habsolute hroot q
  rw [normalize_eq_iff_relative hp hq, and_iff_right hsame]
  by_cases hpdetour : Detours root p
  · by_cases hqdetour : Detours root q
    · rw [relative_eq_iff habsolute hroot hsame, hcount hpdetour, hcount hqdetour]
      exact ⟨fun h => ⟨iff_of_true hpdetour hqdetour, fun _ => h⟩, fun h => h.2 hpdetour⟩
    · refine iff_of_false (fun h => hdirect.mp ?_ hpdetour) fun h => hqdetour (h.1.mp hpdetour)
      rw [h, hsame]
      exact hdirect'.mpr hqdetour
  · by_cases hqdetour : Detours root q
    · refine iff_of_false (fun h => hdirect'.mp ?_ hqdetour) fun h => hpdetour (h.1.mpr hqdetour)
      rw [← h, ← hsame]
      exact hdirect.mpr hpdetour
    · refine iff_of_true ?_ ⟨iff_of_false hpdetour hqdetour, fun h => absurd h hpdetour⟩
      rw [hdirect.mpr hpdetour, hdirect'.mpr hqdetour, hsame]

/-- The normal form of a direct path is direct. -/
theorem not_detours_normalize (hp : ∀ s ∈ p.segments, IsSegment s) (h : ¬ Detours root p) :
    ¬ Detours root (ofText (normalize root p)) := by
  have hproper : ∀ s ∈ (ofText (normalize root p)).segments, IsSegment s := fun _ =>
    isSegment_of_mem_ofText
  have hagain := (normalize_eq_iff_relative hproper hp).mp (normalize_ofText_normalize root hp)
  rw [← direct_iff habsolute hroot, hagain, location_normalize habsolute hroot hp]
  exact (direct_iff habsolute hroot p).mpr h

end Root

/-- What an inclusion names is made of proper segments, as everything that is read is. -/
theorem isSegment_of_mem_included {origin : Option String} {path s : String}
    (h : s ∈ (included origin path).segments) : IsSegment s := by
  cases origin with
  | none => exact isSegment_of_mem_ofText h
  | some file =>
      simp only [included, join] at h
      split at h
      · exact isSegment_of_mem_ofText h
      · rcases List.mem_append.mp h with h | h
        · exact isSegment_of_mem_ofText (List.dropLast_subset _ h)
        · exact isSegment_of_mem_ofText h

end Path

namespace Session

/-- Where a file lies. -/
def locate (s : Session) (file : String) : List String := Path.location s.root (.ofText file)

variable {s : Session} {paths : List String}

section Root

variable (habsolute : s.root.isAbsolute = true) (hroot : ".." ∉ s.root.segments)
  (hdirect : ∀ path ∈ paths, ¬ Path.Detours s.root (.ofText path))
include habsolute hroot hdirect

/-- An inclusion that does not detour is recognized. -/
theorem normalizeFrom_of_locate {origin : Option String} {path file : String}
    (hpath : ¬ Path.Detours s.root (.included origin path)) (hfile : file ∈ s.configured paths)
    (hsame : Path.location s.root (.included origin path) = s.locate file) :
    s.normalizeFrom origin path = file := by
  obtain ⟨given, hgiven, rfl⟩ := List.mem_map.mp hfile
  have hproper : ∀ x ∈ (Path.ofText given).segments, Path.IsSegment x := fun _ =>
    Path.isSegment_of_mem_ofText
  have hlocate : s.locate (s.normalize given) = Path.location s.root (.ofText given) :=
    Path.location_normalize habsolute hroot hproper
  have hnot := hdirect given hgiven
  exact (Path.normalize_eq_iff habsolute hroot (fun _ => Path.isSegment_of_mem_included)
    hproper).mpr ⟨hsame.trans hlocate, iff_of_false hpath hnot, fun h => absurd h hpath⟩

/-- Configured files that lie at one place are one. -/
theorem eq_of_locate {f g : String} (hf : f ∈ s.configured paths) (hg : g ∈ s.configured paths)
    (hsame : s.locate f = s.locate g) : f = g := by
  have hnot : ¬ Path.Detours s.root (.included none f) := by
    obtain ⟨given, hgiven, rfl⟩ := List.mem_map.mp hf
    exact Path.not_detours_normalize habsolute hroot (fun _ => Path.isSegment_of_mem_ofText)
      (hdirect given hgiven)
  exact (normalizeFrom_configured hf).symm.trans
    (normalizeFrom_of_locate habsolute hroot hdirect hnot hg hsame)

theorem nodup_map_locate {files : List String} (hfiles : ∀ f ∈ files, f ∈ s.configured paths)
    (hnodup : files.Nodup) : (files.map s.locate).Nodup :=
  hnodup.map_on fun f hf g hg =>
    eq_of_locate habsolute hroot hdirect (hfiles f hf) (hfiles g hg)

end Root

/-- Seen from an absolute root, paths have one normal form if they lead to one location
and none of them detours; paths that detour have to go up equally far.  A run on paths that
do not detour visits and reports no location twice, and every inclusion of a configured
file is recognized that does not detour. -/
theorem one_name_without_detours (habsolute : s.root.isAbsolute = true)
    (hroot : ".." ∉ s.root.segments) :
    (∀ p q, s.normalize p = s.normalize q ↔ s.locate p = s.locate q ∧
      (Path.Detours s.root (.ofText p) ↔ Path.Detours s.root (.ofText q)) ∧
      (Path.Detours s.root (.ofText p) →
        Path.climb (Path.ofText p).segments = Path.climb (Path.ofText q).segments)) ∧
    ∀ paths, (∀ path ∈ paths, ¬ Path.Detours s.root (.ofText path)) →
      ((s.process paths {}).run.visited.map s.locate).Nodup ∧
      (∀ run report, s.process paths {} = .done run report →
        (report.map (s.locate ·.path)).Nodup) ∧
      ∀ origin path, ¬ Path.Detours s.root (.included origin path) →
        ∀ file ∈ s.configured paths,
          Path.location s.root (.included origin path) = s.locate file →
          s.normalizeFrom origin path = file := by
  refine ⟨fun p q => Path.normalize_eq_iff habsolute hroot
    (fun _ => Path.isSegment_of_mem_ofText) fun _ => Path.isSegment_of_mem_ofText,
    fun paths hdirect => ⟨?_, fun run report h => ?_, fun origin path hpath file hfile =>
      normalizeFrom_of_locate habsolute hroot hdirect hpath hfile⟩⟩
  · have hvisited : ∃ steps stop, (s.process paths {}).run.visited = Step.entered steps ∧
        Traversal s (s.configured paths) [] (s.roots paths) steps stop := by
      cases h : s.process paths {} with
      | done run report =>
          obtain ⟨steps, htour, hfinished⟩ := process_done h
          exact ⟨steps, none, hfinished.visited, htour⟩
      | halted run e =>
          obtain ⟨steps, htraversal, hhalted⟩ := process_traversal h
          exact ⟨steps, some e.file, hhalted.visited, htraversal⟩
    obtain ⟨steps, stop, heq, htraversal⟩ := hvisited
    rw [heq]
    exact nodup_map_locate habsolute hroot hdirect
      (fun f hf => (htraversal.fresh_of_mem_entered hf).1) htraversal.nodup_entered
  · obtain ⟨steps, htour, hfinished⟩ := process_done h
    have hnodup := nodup_map_locate habsolute hroot hdirect
      (fun _ => (hfinished.mem_report htour).mp) (hfinished.nodup_report htour)
    rwa [List.map_map] at hnodup

theorem one_name_without_detours_mutual :
    mutualUnit.root.isAbsolute = true ∧ ".." ∉ mutualUnit.root.segments ∧
    mutualUnit.normalize "./lib/..//user.m" = mutualUnit.normalize "/../unit//user.m" ∧
    (∀ path ∈ ["./user.m", "//unit/foo.h"], ¬ Path.Detours mutualUnit.root (.ofText path)) ∧
    ∃ run report, mutualUnit.process ["./user.m", "//unit/foo.h"] {} = .done run report ∧
      (run.visited.map mutualUnit.locate).Nodup ∧
      (report.map (mutualUnit.locate ·.path)).Nodup ∧
      mutualUnit.normalizeFrom (some "lib/b.m") "..//user.m" = "user.m" := by
  have hdirect : ∀ path ∈ ["./user.m", "//unit/foo.h"],
      ¬ Path.Detours mutualUnit.root (.ofText path) := by decide
  obtain ⟨hnormal, hruns⟩ :=
    one_name_without_detours (s := mutualUnit) (by decide) (by decide)
  obtain ⟨run, report, hdone⟩ := mutualUnit_done ["./user.m", "//unit/foo.h"]
  obtain ⟨hvisited, hreport, hinclusion⟩ := hruns _ hdirect
  rw [hdone] at hvisited
  exact ⟨by decide, by decide, (hnormal _ _).mpr (by decide), hdirect, run, report, hdone,
    hvisited, hreport run report hdone,
    hinclusion _ _ (by decide) "user.m" (by decide) (by decide)⟩

/-- A path that climbs out of the root and comes back into it is not recognized: the file
is visited under two names. -/
theorem detour_is_visited_again :
    mutualUnit.locate "user.m" = mutualUnit.locate "../unit/user.m" ∧
    mutualUnit.normalize "user.m" ≠ mutualUnit.normalize "../unit/user.m" ∧
    ∃ run report, mutualUnit.process ["user.m", "../unit/user.m"] {} = .done run report ∧
      "user.m" ∈ report.map (·.path) ∧ "../unit/user.m" ∈ report.map (·.path) := by
  obtain ⟨run, report, hdone⟩ := mutualUnit_done ["user.m", "../unit/user.m"]
  obtain ⟨steps, htour, hfinished⟩ := process_done hdone
  exact ⟨by decide, by decide, run, report, hdone, (hfinished.mem_report htour).mpr (by decide),
    (hfinished.mem_report htour).mpr (by decide)⟩

end Session

end SymbolGraph
