import Mathlib.Data.List.Basic
import SymbolGraph.Action
import SymbolGraph.Proofs.Path

/-!
# `Proofs.Key` — what a key and the path of a local tell

A key ends with the name that it was made for, unless that is empty.  The path of a
local is the text of its segments, a dollar sign and the number of its block.  A number
has no dollar sign in it, so the last one marks where it begins, whatever signs the
names hold; and in one context the segments of two names differ only at their end.
Hence a path tells the name and the block of a local, if the context is known
(`Context.local_path_inj`).
-/

namespace SymbolGraph

/-- The last occurrence of a mark parts a list in one way only. -/
theorem append_cons_inj_right {α : Type} {x : α} {as bs cs ds : List α} (hb : x ∉ bs)
    (hd : x ∉ ds) (h : as ++ x :: bs = cs ++ x :: ds) : as = cs ∧ bs = ds := by
  rcases List.append_eq_append_iff.mp h with ⟨gap, rfl, hgap⟩ | ⟨gap, rfl, hgap⟩
  · cases gap with
    | nil => exact ⟨(List.append_nil _).symm, (List.cons.inj hgap).2⟩
    | cons y gap =>
        obtain ⟨-, hbs⟩ := List.cons.inj hgap
        exact absurd (hbs ▸ List.mem_append_right _ List.mem_cons_self) hb
  · cases gap with
    | nil => exact ⟨List.append_nil _, (List.cons.inj hgap).2.symm⟩
    | cons y gap =>
        obtain ⟨-, hds⟩ := List.cons.inj hgap
        exact absurd (hds ▸ List.mem_append_right _ List.mem_cons_self) hd

/-- So does the first one. -/
theorem append_cons_inj_left {α : Type} {x : α} {as bs cs ds : List α} (ha : x ∉ as)
    (hc : x ∉ cs) (h : as ++ x :: bs = cs ++ x :: ds) : as = cs ∧ bs = ds := by
  have hreverse := congrArg List.reverse h
  simp only [List.reverse_append, List.reverse_cons, List.append_assoc,
    List.singleton_append] at hreverse
  obtain ⟨hback, hfront⟩ := append_cons_inj_right (by simpa using ha) (by simpa using hc) hreverse
  exact ⟨List.reverse_injective hfront, List.reverse_injective hback⟩

theorem toString_nat_inj {n m : Nat} (h : toString n = toString m) : n = m := by
  rw [Nat.toString_eq_ofList_toDigits, Nat.toString_eq_ofList_toDigits] at h
  have hdigits := congrArg (Nat.ofDigitChars 10 · 0) (String.ofList_injective h)
  simpa only [Nat.ofDigitChars_ten_toDigits] using hdigits

theorem notMem_toString {c : Char} (hc : c.isDigit = false) (n : Nat) :
    c ∉ (toString n).toList := by
  intro h
  rw [Nat.toString_eq_ofList_toDigits, String.toList_ofList] at h
  have hdigit := Nat.isDigit_of_mem_toDigits (by decide) (by decide) h
  exact absurd hdigit (by simp [hc])

namespace Key

theorem path_inBlock (k : Key) {n : Nat} (hn : 0 < n) :
    (k.inBlock n).path = "/".intercalate k.segments ++ "$" ++ toString n := by
  have hpositive : (0 : Int) < n := by omega
  unfold path inBlock
  dsimp only
  rw [if_pos hpositive]
  rfl

/-- The number of the block stands behind the last dollar sign. -/
theorem path_inBlock_inj {k l : Key} {n m : Nat} (hn : 0 < n) (hm : 0 < m)
    (h : (k.inBlock n).path = (l.inBlock m).path) :
    "/".intercalate k.segments = "/".intercalate l.segments ∧ n = m := by
  rw [path_inBlock k hn, path_inBlock l hm] at h
  have hchars := congrArg String.toList h
  simp only [String.toList_append, List.append_assoc] at hchars
  have hdollar : ∀ block : Nat, '$' ∉ (toString block).toList := notMem_toString (by decide)
  obtain ⟨hfront, hback⟩ := append_cons_inj_right (hdollar n) (hdollar m) hchars
  exact ⟨String.toList_inj.mp hfront, toString_nat_inj (String.toList_inj.mp hback)⟩

theorem path_global (name : String) : (global name).path = name := by
  by_cases h : name = ""
  · rw [h]
    rfl
  · simp [global, of, path, Option.filter, h]

/-- A written path, read as a key, is the path of that key: no text is changed by being
cut at its slashes. -/
theorem path_ofPath (written : String) : (ofPath written).path = written := by
  have hjoined : ("/".intercalate (ofPath written).segments).toList = written.toList := by
    rw [String.toList_intercalate, ofPath, List.map_map]
    simp only [Function.comp_def, String.toList_ofList, List.map_id']
    exact Path.intercalate_splitSlash written.toList
  exact String.toList_inj.mp hjoined

theorem name_global {name : String} (h : name ≠ "") : (global name).name = name := by
  simp [Key.name, global, of, Option.filter, h]

theorem name_child (k : Key) (name : String) : (k.child name).name = name :=
  List.getLastD_concat ..

theorem path_member (owner name : String) : (member owner name).path = owner ++ "/" ++ name := rfl

theorem path_member_ne_empty (owner name : String) : (member owner name).path ≠ "" := by
  simp [path_member]

end Key

namespace Context

variable (c : Context)

/-- A name stands at the end of its key. -/
theorem segments_key (name : String) :
    (c.key name).segments = ([c.className, c.methodName].filterMap fun s => s.filter (· ≠ "")) ++
      if name = "" then [] else [name] := by
  have hsplit : [c.className, c.methodName, some name] =
      [c.className, c.methodName] ++ [some name] := rfl
  rw [key, Key.of, hsplit, List.filterMap_append]
  by_cases hname : name = ""
  · simp [hname]
  · simp [hname, Option.filter]

theorem intercalate_key_inj {x y : String}
    (h : "/".intercalate (c.key x).segments = "/".intercalate (c.key y).segments) : x = y := by
  rw [segments_key, segments_key] at h
  generalize [c.className, c.methodName].filterMap (fun s => s.filter (· ≠ "")) = around at h
  have hlast : ∀ z, "/".intercalate (around ++ if z = "" then [] else [z]) =
      if around = [] then z else "/".intercalate around ++ if z = "" then "" else "/" ++ z := by
    intro z
    by_cases hz : z = ""
    · by_cases haround : around = []
      · simp [hz, haround]
      · simp [hz, haround]
    · by_cases haround : around = []
      · simp [hz, haround]
      · rw [if_neg hz, if_neg haround, if_neg hz,
          String.intercalate_append_of_ne_nil haround (List.cons_ne_nil _ _),
          String.intercalate_singleton, String.append_assoc]
  rw [hlast, hlast] at h
  split at h
  · exact h
  · have hback := (String.append_right_inj _).mp h
    split at hback
    · next hx =>
      split at hback
      · next hy => exact hx.trans hy.symm
      · exact absurd (congrArg String.toList hback) (by simp)
    · split at hback
      · exact absurd (congrArg String.toList hback) (by simp)
      · exact (String.append_right_inj _).mp hback

theorem name_key {name : String} (h : name ≠ "") : (c.key name).name = name := by
  rw [Key.name, segments_key, if_neg h]
  exact List.getLastD_concat ..

/-- The path of a local tells its name and its block. -/
theorem local_path_inj {x y : String} {n m : Nat} (hn : 0 < n) (hm : 0 < m) :
    ((c.key x).inBlock n).path = ((c.key y).inBlock m).path ↔ x = y ∧ n = m := by
  constructor
  · intro h
    obtain ⟨hsegments, hblock⟩ := Key.path_inBlock_inj hn hm h
    exact ⟨c.intercalate_key_inj hsegments, hblock⟩
  · rintro ⟨rfl, rfl⟩
    rfl

end Context

end SymbolGraph
