import Mathlib.Data.List.Infix
import Mathlib.Data.String.Basic
import SymbolGraph.Proofs.Scanned
import SymbolGraph.Proofs.Spelling

/-!
# `Proofs.Partition` — files inside a directory and files outside

Seen from a directory, a file has a LOCATION (`Path.location`): its path joined to the
directory's, every `..` resolved.  The file is inside if the location begins, segment by
segment, with the place of the directory, and then it is listed by the rest of the segments;
otherwise it is outside and keeps its path.  So each file makes one entry, and every entry
for a file inside leads from the directory to the location of that file.

Paths are looked up in the file system, which follows links.  Where there is none, a look-up
is LEXICAL: it leads to what resolving gives, whether anything lies there or not.
-/

namespace SymbolGraph

/-! ## Looking up without links -/

namespace Path

/-- Looking up an absolute path removes its `..`, and does nothing else. -/
def Lexical (real : Path → Path) : Prop :=
  ∀ p : Path, p.isAbsolute = true → (∀ s ∈ p.segments, IsSegment s) →
    (real p).isAbsolute = true ∧ (real p).segments = resolveSegments true p.segments

theorem lexical_resolve : Lexical resolve := fun p habsolute _ =>
  ⟨habsolute, by rw [resolve, habsolute]⟩

end Path

namespace FileSystem

open SymbolGraph.Path

/-- No entry is a link. -/
def LinkFree (fs : FileSystem) : Prop := ∀ entry ∈ fs.entries, ∀ target, entry.2 ≠ .link target

variable {fs : FileSystem}

theorem LinkFree.entry?_ne (h : fs.LinkFree) (path : List String) (target : String) :
    fs.entry? path ≠ some (.link target) := by
  unfold entry?
  split
  · exact nofun
  · intro hentry
    obtain ⟨entry, hfound, hlink⟩ := Option.map_eq_some_iff.mp hentry
    exact h entry (List.mem_of_find?_eq_some hfound) target hlink

/-- Along the look-up: the place that is reached is the stack of the segments so far. -/
theorem follow_eq_resolve (hlinks : fs.LinkFree) {links : Nat} {here rest place : List String}
    (hhere : ".." ∉ here) (hrest : ∀ s ∈ rest, IsSegment s)
    (h : fs.follow links here rest = .ok place) :
    place = (rest.foldl (pushSegment true) here.reverse).reverse := by
  fun_induction FileSystem.follow fs links here rest with
  | case1 => simpa using (Except.ok.inj h).symm
  | case2 _ _ segment rest hskip ih =>
      obtain ⟨hne, hdot, -⟩ := hrest segment List.mem_cons_self
      exact absurd hskip (not_or.mpr ⟨hne, hdot⟩)
  | case3 _ here rest _ ih =>
      have hup : pushSegment true here.reverse ".." = here.dropLast.reverse := by
        rw [pushSegment_up_root (by simpa using hhere), List.drop_one, List.tail_reverse]
      rw [List.foldl_cons, hup]
      exact ih (fun hmem => hhere (List.mem_of_mem_dropLast hmem))
        (fun s hs => hrest s (List.mem_cons_of_mem _ hs)) h
  | case6 _ here segment rest _ hup _ _ _ hentry hlast =>
      rw [List.isEmpty_iff.mp hlast, List.foldl_cons, List.foldl_nil, pushSegment_down true _ hup]
      simpa using (Except.ok.inj h).symm
  | case8 _ here segment rest _ hup _ hentry ih =>
      rw [List.foldl_cons, pushSegment_down true _ hup, ← List.reverse_concat]
      exact ih (by simp [hhere, Ne.symm hup]) (fun s hs => hrest s (List.mem_cons_of_mem _ hs)) h
  | case10 _ _ _ _ _ _ target hentry => exact absurd hentry (hlinks.entry?_ne _ target)
  | case4 => cases h
  | case5 => cases h
  | case7 => cases h
  | case9 => cases h

theorem lexical_real (hlinks : fs.LinkFree) : Lexical fs.real := by
  intro p _ hsegments
  unfold real
  split
  · next place hplace =>
    unfold locate at hplace
    split at hplace
    · cases hplace
    · exact ⟨rfl, follow_eq_resolve hlinks List.not_mem_nil hsegments hplace⟩
  · exact ⟨rfl, rfl⟩

end FileSystem

/-! ## Texts in order -/

namespace Text

/-- The code points of a text. -/
def codes (s : String) : List Nat := s.toList.map Char.toNat

theorem lt_of_map_toNat_lt : ∀ {xs ys : List Char}, xs.map Char.toNat < ys.map Char.toNat → xs < ys
  | _, [], h => absurd h (List.not_lt_nil _)
  | [], _ :: _, _ => List.nil_lt_cons _ _
  | x :: xs, y :: ys, h => by
      rw [List.map_cons, List.map_cons, List.cons_lt_cons_iff] at h
      rw [List.cons_lt_cons_iff]
      rcases h with h | ⟨heq, h⟩
      · exact .inl h
      · exact .inr ⟨Char.toNat_inj.mp heq, lt_of_map_toNat_lt h⟩

theorem codes_le {a b : String} (h : a ≤ b) : codes a ≤ codes b :=
  not_lt.mp fun hlt => not_lt.mpr (String.le_iff_toList_le.mp h) (lt_of_map_toNat_lt hlt)

end Text

theorem sortTexts_perm (texts : List String) : (sortTexts texts).Perm texts :=
  texts.mergeSort_perm _

theorem pairwise_sortTexts (texts : List String) : (sortTexts texts).Pairwise (· ≤ ·) := by
  refine (texts.pairwise_mergeSort (fun a b c hab hbc => ?_) fun a b => ?_).imp fun h => ?_
  · exact decide_eq_true (String.le_trans (of_decide_eq_true hab) (of_decide_eq_true hbc))
  · simpa using String.le_total a b
  · exact of_decide_eq_true h

/-- Sorting forgets the order. -/
theorem sortTexts_eq_of_perm {xs ys : List String} (h : xs.Perm ys) :
    sortTexts xs = sortTexts ys :=
  List.Perm.eq_of_pairwise (fun _ _ _ _ => String.le_antisymm) (pairwise_sortTexts xs)
    (pairwise_sortTexts ys) ((sortTexts_perm xs).trans (h.trans (sortTexts_perm ys).symm))

/-! ## What a file contributes -/

namespace Scan

open SymbolGraph.Path

theorem below?_append (rest : List String) : ∀ directory : List String,
    below? directory (directory ++ rest) = some rest
  | [] => rfl
  | d :: directory => by rw [List.cons_append, below?, if_pos rfl, below?_append rest directory]

theorem below?_eq_some_iff {directory path rest : List String} :
    below? directory path = some rest ↔ path = directory ++ rest :=
  ⟨eq_append_of_below?, fun h => h ▸ below?_append rest directory⟩

/-- The location of a file is that of the directory, or below it. -/
def Inside (cwd file : String) : Prop :=
  (ofText cwd).resolve.segments <+: location (ofText cwd) (ofText file)

/-- An entry for a file inside a directory: a path that does not go up, leads from the
directory to the location of the file, and is spelled as it is normalized. -/
structure Leads (cwd file entry : String) : Prop where
  relative : (ofText entry).isAbsolute = false
  down : ".." ∉ (ofText entry).segments
  joined : (ofText cwd).resolve.segments ++ (ofText entry).segments =
    location (ofText cwd) (ofText file)
  location : location (ofText cwd) (ofText entry) = location (ofText cwd) (ofText file)
  normal : normalize (ofText cwd) (ofText entry) = entry

/-- The entry that a file makes: on the left if it is inside, on the right if not. -/
inductive Contributes (cwd file : String) : String ⊕ String → Prop
  | inside {entry : String} : Inside cwd file → Leads cwd file entry →
      Contributes cwd file (.inl entry)
  | outside : ¬ Inside cwd file → Contributes cwd file (.inr (ofText file).resolve.text)

/-- Resolving a directory first makes no difference to what lies below it. -/
theorem resolveSegments_append (a b : List String) :
    resolveSegments true (resolveSegments true a ++ b) = resolveSegments true (a ++ b) := by
  have hstack : (resolveSegments true a).foldl (pushSegment true) [] =
      a.foldl (pushSegment true) [] := by
    rw [foldl_pushSegment_of_up_notMem true _ (up_notMem_resolveSegments a), resolveSegments]
    simp
  rw [resolveSegments, List.foldl_append, hstack, ← List.foldl_append, ← resolveSegments]

theorem isSegment_join {base : Path} (hbase : ∀ s ∈ base.segments, IsSegment s) (file : String) :
    ∀ s ∈ (base.join (ofText file)).segments, IsSegment s := by
  intro s hs
  unfold join at hs
  split at hs
  · exact isSegment_of_mem_ofText hs
  · rcases List.mem_append.mp hs with hs | hs
    · exact hbase s hs
    · exact isSegment_of_mem_ofText hs

/-- A relative path goes on from the place of the directory. -/
theorem location_append {base p : Path} (habsolute : base.isAbsolute = true)
    (hrelative : p.isAbsolute = false) :
    location base p = resolveSegments true (base.resolve.segments ++ p.segments) := by
  rw [location, resolve, isAbsolute_join habsolute, join, if_neg (by simp [hrelative]), resolve,
    habsolute, resolveSegments_append]

/-- The rest of the location, written as a path, is an entry for the file. -/
theorem leads_text {cwd file : String} (habsolute : (ofText cwd).isAbsolute = true)
    {rest : List String}
    (h : location (ofText cwd) (ofText file) = (ofText cwd).resolve.segments ++ rest) :
    Leads cwd file (Path.mk .here rest).text := by
  have hproper : ∀ s ∈ rest, IsSegment s := fun s hs =>
    isSegment_join (fun _ => isSegment_of_mem_ofText) file s
      (mem_resolveSegments (h ▸ List.mem_append_right _ hs))
  have hup : ".." ∉ (ofText cwd).resolve.segments ++ rest :=
    h ▸ up_notMem_location habsolute (ofText file)
  have hdown : ".." ∉ rest := fun hmem => hup (List.mem_append_right _ hmem)
  have hread := ofText_text hproper
  constructor
  case relative => rw [hread]; rfl
  case down => rwa [hread]
  case joined => rw [hread, h]
  case location =>
    rw [hread, location_append habsolute rfl, resolveSegments_of_up_notMem true hup, h]
  case normal => exact normalize_ofText_text _ hproper hdown

section

variable {real : Path → Path} (hreal : Lexical real) {cwd : String}
  (habsolute : (ofText cwd).isAbsolute = true)
include hreal habsolute

theorem segments_real_cwd :
    (real (ofText cwd)).isAbsolute = true ∧
      (real (ofText cwd)).segments = (ofText cwd).resolve.segments := by
  have h := hreal (ofText cwd) habsolute fun _ => isSegment_of_mem_ofText
  rwa [resolve, habsolute]

/-- The look-up from the directory comes to the location. -/
theorem segments_real_join (file : String) :
    (real ((real (ofText cwd)).join (ofText file))).segments =
      location (ofText cwd) (ofText file) := by
  obtain ⟨hbase, hsegments⟩ := segments_real_cwd hreal habsolute
  have hproper : ∀ s ∈ ((real (ofText cwd)).join (ofText file)).segments, IsSegment s :=
    isSegment_join (fun s hs => isSegment_of_mem_ofText (mem_resolveSegments (hsegments ▸ hs))) file
  rw [(hreal _ (isAbsolute_join hbase _) hproper).2]
  cases hfile : (ofText file).isAbsolute with
  | true => rw [location_of_absolute _ hfile, join, if_pos hfile, resolve, hfile]
  | false => rw [location_append habsolute hfile, join, if_neg (by simp [hfile]), hsegments]

theorem contributes_place (file : String) :
    Contributes cwd file (place real (real (ofText cwd)) (ofText file)) := by
  obtain ⟨-, hsegments⟩ := segments_real_cwd hreal habsolute
  unfold place
  rw [segments_real_join hreal habsolute, hsegments]
  cases hbelow : below? (ofText cwd).resolve.segments (location (ofText cwd) (ofText file)) with
  | some rest =>
      have heq := eq_append_of_below? hbelow
      exact .inside ⟨rest, heq.symm⟩ (leads_text habsolute heq)
  | none =>
      refine .outside fun ⟨rest, hrest⟩ => ?_
      rw [below?_eq_some_iff.mpr hrest.symm] at hbelow
      cases hbelow

end

/-! ## The two lists -/

/-- Each file makes one entry in one of the two lists, and there are no others; both lists are
in the order of code points. -/
structure Partitioned (cwd : String) (files internal external : List String) : Prop where
  entries : ∃ placed : List (String ⊕ String), List.Forall₂ (Contributes cwd) files placed ∧
    internal.Perm (placed.filterMap Sum.getLeft?) ∧ external.Perm (placed.filterMap Sum.getRight?)
  internalOrdered : internal.Pairwise fun a b => Text.codes a ≤ Text.codes b
  externalOrdered : external.Pairwise fun a b => Text.codes a ≤ Text.codes b

theorem arrange_eq (real : Path → Path) (base : Path) (files : List Path) :
    arrange real base files =
      (sortTexts ((files.map (place real base)).filterMap Sum.getLeft?),
        sortTexts ((files.map (place real base)).filterMap Sum.getRight?)) := by
  refine Prod.ext (congrArg sortTexts (List.filterMap_congr fun p _ => ?_))
    (congrArg sortTexts (List.filterMap_congr fun p _ => ?_))
  · cases p <;> rfl
  · cases p <;> rfl

/-- The order of the files makes no difference. -/
theorem arrange_of_perm {real : Path → Path} {base : Path} {files others : List Path}
    (h : others.Perm files) : arrange real base others = arrange real base files := by
  rw [arrange_eq, arrange_eq]
  have hplaced := h.map (place real base)
  exact Prod.ext (sortTexts_eq_of_perm (hplaced.filterMap _))
    (sortTexts_eq_of_perm (hplaced.filterMap _))

/-- The text has a NUL in it, so nothing can be looked up under it. -/
abbrev HasNul (text : String) : Prop := Char.ofNat 0 ∈ text.toList

theorem read_eq (text : String) :
    Path.read text = if HasNul text then .error .nul else .ok (ofText text) := by
  simp [Path.read]

theorem mapM_read : ∀ files : List String, files.mapM Path.read =
    if ∃ file ∈ files, HasNul file then .error .nul else .ok (files.map ofText)
  | [] => by simp; rfl
  | file :: rest => by
      rw [List.mapM_cons, read_eq, mapM_read rest]
      by_cases hfile : HasNul file
      · have hany : ∃ other ∈ file :: rest, HasNul other := ⟨file, List.mem_cons_self, hfile⟩
        rw [if_pos hfile, if_pos hany]
        rfl
      · by_cases hrest : ∃ other ∈ rest, HasNul other
        · simp [hfile, hrest]
          rfl
        · simp [hfile, hrest]
          rfl

theorem split_eq (real : Path → Path) (cwd : String) (files : List String) :
    split real cwd files =
      if ∃ text ∈ cwd :: files, HasNul text then .error .nul
      else .ok (arrange real (real (ofText cwd)) (files.map ofText)) := by
  rw [split, read_eq, mapM_read]
  by_cases hcwd : HasNul cwd
  · simp [hcwd]
    rfl
  · by_cases hfiles : ∃ file ∈ files, HasNul file
    · simp [hcwd, hfiles]
      rfl
    · simp [hcwd, hfiles]
      rfl

/-- Files given by their paths, seen from an absolute directory where no link is involved.
Unless something cannot be looked up at all, each of them makes one entry: among the files inside
just if its location is that of the directory or below, and then by a path that leads there.
Both lists are in order, and the order of the files makes no difference. -/
theorem split_partitions {real : Path → Path} (hreal : Lexical real) {cwd : String}
    (habsolute : (ofText cwd).isAbsolute = true) (files : List String) :
    ((∃ text ∈ cwd :: files, HasNul text) → split real cwd files = .error .nul) ∧
    ((∀ text ∈ cwd :: files, ¬ HasNul text) → ∃ internal external,
      split real cwd files = .ok (internal, external) ∧
        Partitioned cwd files internal external) ∧
    ∀ others : List String, others.Perm files → split real cwd others = split real cwd files := by
  refine ⟨fun hnul => by rw [split_eq, if_pos hnul], fun hnone => ?_, fun others hperm => ?_⟩
  · have hnul : ¬ ∃ text ∈ cwd :: files, HasNul text := fun ⟨text, hmem, htext⟩ =>
      hnone text hmem htext
    refine ⟨_, _, by rw [split_eq, if_neg hnul, arrange_eq, List.map_map], ?_, ?_, ?_⟩
    · refine ⟨_, ?_, sortTexts_perm _, sortTexts_perm _⟩
      exact List.forall₂_map_right_iff.mpr
        (List.forall₂_same.mpr fun file _ => contributes_place hreal habsolute file)
    · exact (pairwise_sortTexts _).imp Text.codes_le
    · exact (pairwise_sortTexts _).imp Text.codes_le
  · have hsame : (∃ text ∈ cwd :: others, HasNul text) ↔ ∃ text ∈ cwd :: files, HasNul text := by
      simp only [(hperm.cons cwd).mem_iff]
    simp only [split_eq, hsame, arrange_of_perm (hperm.map ofText)]

/-! A directory with one file in it, and paths that lead into it, past it, above the root, and
to the directory itself. -/

def projectFiles : FileSystem where
  entries := [(["proj"], .directory), (["proj", "a.m"], .file #[] 0)]

def projectPaths : List String :=
  ["/proj/a.m", "src/../b.m", "/project/c.m", "../../x.m", "//proj/./d.m", ""]

theorem split_partitions_mixed :
    projectFiles.LinkFree ∧
    (∃ internal external, split projectFiles.real "/proj" projectPaths = .ok (internal, external) ∧
      Partitioned "/proj" projectPaths internal external) ∧
    split Path.resolve "/proj" projectPaths.reverse = split Path.resolve "/proj" projectPaths := by
  have hlinks : projectFiles.LinkFree := by
    intro entry hentry target
    simp only [projectFiles, List.mem_cons, List.not_mem_nil, or_false] at hentry
    rcases hentry with rfl | rfl <;> exact nofun
  have habsolute : (ofText "/proj").isAbsolute = true := rfl
  have hlooked := split_partitions (FileSystem.lexical_real hlinks) habsolute projectPaths
  have hwritten := split_partitions lexical_resolve habsolute projectPaths
  exact ⟨hlinks, hlooked.2.1 (by decide), hwritten.2.2 _ (List.reverse_perm _)⟩

end Scan

end SymbolGraph
