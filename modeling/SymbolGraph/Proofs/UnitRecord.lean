import SymbolGraph.Command
import SymbolGraph.Proofs.Dict
import SymbolGraph.Proofs.JsonTokens

/-!
# `Proofs.UnitRecord` — a unit read back from its record

The reader takes the tokens of a value and has the value, in whatever container
they stand, as long as no part of the value lies deeper than the limit
(`readFrom_tokens`); if a part does, the text is refused (`readFrom_tokens_deep`).
With the spelling of the tokens, a record is read back as the unit it was
written for.  Depth and the length of an integer can each make a record unreadable
(`deep_record_is_refused`, `long_record_is_refused`).
-/

namespace SymbolGraph

theorem Dict.set_of_notMem_keys {α : Type} {key : String} {value : α} {d : Dict α}
    (h : key ∉ d.keys) : d.set key value = d ++ [(key, value)] := by
  induction d with
  | nil => rfl
  | cons entry rest ih =>
      obtain ⟨k, v⟩ := entry
      obtain ⟨hk, hrest⟩ := not_or.mp (mt List.mem_cons.mpr h)
      rw [Dict.set, if_neg (Ne.symm hk), ih hrest]
      rfl

namespace Json

mutual

/-- How many containers lie around the innermost value. -/
def depth : Json → Nat
  | .arr items => itemsDepth items
  | .obj members => membersDepth members
  | _ => 0

def itemsDepth : List Json → Nat
  | [] => 0
  | x :: items => max (depth x + 1) (itemsDepth items)

def membersDepth : List (String × Json) → Nat
  | [] => 0
  | (_, x) :: members => max (depth x + 1) (membersDepth members)

end

mutual

/-- No object in the value names a member twice. -/
def HasDistinctNames : Json → Prop
  | .arr items => ItemsHaveDistinctNames items
  | .obj members => Dict.Distinct members ∧ MembersHaveDistinctNames members
  | _ => True

def ItemsHaveDistinctNames : List Json → Prop
  | [] => True
  | x :: items => HasDistinctNames x ∧ ItemsHaveDistinctNames items

def MembersHaveDistinctNames : List (String × Json) → Prop
  | [] => True
  | (_, x) :: members => HasDistinctNames x ∧ MembersHaveDistinctNames members

end

/-! ## Reading the tokens of a value -/

/-- The further reading, once a value is complete. -/
def resume (limit : Nat) (rest : List Token) (value : Json) (stack : List Frame) :
    Except Fault Json :=
  readFrom limit rest (complete value stack).1 (complete value stack).2

variable {limit : Nat}

/-- A token that starts a value which lies no deeper than the limit. -/
theorem startValue_of_le {stack : List Frame} (h : stack.length ≤ limit) (token : Token) :
    startValue limit token stack = match token with
      | .word value => .ok (complete value stack)
      | .text s => .ok (complete (.str s) stack)
      | .openArray => .ok (.array [] :: stack, .firstItem)
      | .openObject => .ok (.object [] "" :: stack, .firstName)
      | _ => .error .malformed := by
  unfold startValue
  exact if_neg (Nat.not_lt.mpr h)

theorem readFrom_word {stack : List Frame} (h : stack.length ≤ limit) (rest : List Token)
    (value : Json) :
    readFrom limit (.word value :: rest) stack .value = resume limit rest value stack := by
  rw [readFrom, step, startValue_of_le h]
  rfl

theorem exists_tokens_eq_cons (v : Json) : ∃ token more, v.tokens = token :: more := by
  unfold tokens
  split <;> exact ⟨_, _, rfl⟩

theorem readFrom_of_deep (v : Json) (rest : List Token) {stack : List Frame}
    (h : limit < stack.length) :
    ∃ object, readFrom limit (v.tokens ++ rest) stack .value = .error (.tooDeep object) := by
  obtain ⟨token, more, htokens⟩ := exists_tokens_eq_cons v
  have hstart : ∃ object, startValue limit token stack = .error (.tooDeep object) := by
    unfold startValue
    exact ⟨_, if_pos h⟩
  obtain ⟨object, hstart⟩ := hstart
  exact ⟨object, by rw [htokens, List.cons_append, readFrom, step, hstart]⟩

/-- Where an array may be closed at once, a value may start as well. -/
theorem readFrom_firstItem (v : Json) (rest : List Token) (items : List Json)
    (outer : List Frame) :
    readFrom limit (v.tokens ++ rest) (.array items :: outer) .firstItem =
      readFrom limit (v.tokens ++ rest) (.array items :: outer) .value := by
  unfold tokens
  split <;> rfl

mutual

/-- The tokens of a value that lies no deeper than the limit are read as that
value. -/
theorem readFrom_tokens : ∀ (v : Json) (stack : List Frame) (rest : List Token),
    HasDistinctNames v → stack.length + v.depth ≤ limit →
      readFrom limit (v.tokens ++ rest) stack .value = resume limit rest v stack
  | .null, _, rest, _, h => readFrom_word h rest .null
  | .bool b, _, rest, _, h => readFrom_word h rest (.bool b)
  | .int n, _, rest, _, h => readFrom_word h rest (.int n)
  | .float x, _, rest, _, h => readFrom_word h rest (.float x)
  | .str s, stack, rest, _, h => by
      rw [tokens, List.cons_append, readFrom, step, startValue_of_le h]
      rfl
  | .arr [], stack, rest, _, h => by
      rw [tokens, List.cons_append, readFrom, step, startValue_of_le h]
      rfl
  | .arr (x :: items), stack, rest, ⟨hx, hitems⟩, h => by
      have hdepth : stack.length + max (x.depth + 1) (itemsDepth items) ≤ limit := h
      rw [tokens, List.cons_append, List.append_assoc, List.append_assoc, readFrom, step,
        startValue_of_le (by omega)]
      calc readFrom limit (x.tokens ++ (itemTokens items ++ .closeArray :: rest))
            (.array [] :: stack) .firstItem
          = readFrom limit (x.tokens ++ (itemTokens items ++ .closeArray :: rest))
              (.array [] :: stack) .value := readFrom_firstItem ..
        _ = readFrom limit (itemTokens items ++ .closeArray :: rest) (.array [x] :: stack)
              .after := readFrom_tokens x _ _ hx (by simp only [List.length_cons]; omega)
        _ = resume limit rest (.arr (x :: items)) stack :=
            readFrom_itemTokens items [x] stack rest hitems (by omega)
  | .obj [], stack, rest, _, h => by
      rw [tokens, List.cons_append, readFrom, step, startValue_of_le h]
      rfl
  | .obj ((name, x) :: members), stack, rest, ⟨hdistinct, hx, hmembers⟩, h => by
      have hdepth : stack.length + max (x.depth + 1) (membersDepth members) ≤ limit := h
      rw [tokens, List.cons_append, List.cons_append, List.cons_append, List.append_assoc,
        List.append_assoc, readFrom, step, startValue_of_le (by omega)]
      calc readFrom limit
            (.text name :: .colon :: (x.tokens ++ (memberTokens members ++ .closeObject :: rest)))
            (.object [] "" :: stack) .firstName
          = readFrom limit (x.tokens ++ (memberTokens members ++ .closeObject :: rest))
              (.object [] name :: stack) .value := rfl
        _ = readFrom limit (memberTokens members ++ .closeObject :: rest)
              (.object [(name, x)] name :: stack) .after :=
            readFrom_tokens x _ _ hx (by simp only [List.length_cons]; omega)
        _ = resume limit rest (.obj ((name, x) :: members)) stack :=
            readFrom_memberTokens members [(name, x)] name stack rest hdistinct hmembers (by omega)

theorem readFrom_itemTokens : ∀ (items acc : List Json) (outer : List Frame)
    (rest : List Token), ItemsHaveDistinctNames items → outer.length + itemsDepth items ≤ limit →
      readFrom limit (itemTokens items ++ .closeArray :: rest) (.array acc :: outer) .after =
        resume limit rest (.arr (acc.reverse ++ items)) outer
  | [], acc, outer, rest, _, _ => by
      rw [List.append_nil]
      rfl
  | x :: items, acc, outer, rest, ⟨hx, hitems⟩, h => by
      have hdepth : outer.length + max (x.depth + 1) (itemsDepth items) ≤ limit := h
      rw [itemTokens, List.cons_append, List.append_assoc]
      calc readFrom limit (.comma :: (x.tokens ++ (itemTokens items ++ .closeArray :: rest)))
            (.array acc :: outer) .after
          = readFrom limit (x.tokens ++ (itemTokens items ++ .closeArray :: rest))
              (.array acc :: outer) .value := rfl
        _ = readFrom limit (itemTokens items ++ .closeArray :: rest) (.array (x :: acc) :: outer)
              .after := readFrom_tokens x _ _ hx (by simp only [List.length_cons]; omega)
        _ = resume limit rest (.arr ((x :: acc).reverse ++ items)) outer :=
            readFrom_itemTokens items (x :: acc) outer rest hitems (by omega)
        _ = resume limit rest (.arr (acc.reverse ++ x :: items)) outer := by simp

theorem readFrom_memberTokens : ∀ (members acc : List (String × Json)) (name : String)
    (outer : List Frame) (rest : List Token), Dict.Distinct (acc ++ members) →
      MembersHaveDistinctNames members → outer.length + membersDepth members ≤ limit →
      readFrom limit (memberTokens members ++ .closeObject :: rest) (.object acc name :: outer)
        .after = resume limit rest (.obj (acc ++ members)) outer
  | [], acc, name, outer, rest, _, _, _ => by
      rw [List.append_nil]
      rfl
  | (other, x) :: members, acc, name, outer, rest, hdistinct, ⟨hx, hmembers⟩, h => by
      have hdepth : outer.length + max (x.depth + 1) (membersDepth members) ≤ limit := h
      have hkeys : (Dict.keys acc ++ Dict.keys ((other, x) :: members)).Nodup :=
        List.map_append (f := Prod.fst) ▸ hdistinct
      have hfresh : other ∉ Dict.keys acc := fun hin =>
        (List.nodup_append.mp hkeys).2.2 other hin other List.mem_cons_self rfl
      rw [memberTokens, List.cons_append, List.cons_append, List.cons_append, List.append_assoc]
      calc readFrom limit (.comma :: .text other :: .colon ::
              (x.tokens ++ (memberTokens members ++ .closeObject :: rest)))
            (.object acc name :: outer) .after
          = readFrom limit (x.tokens ++ (memberTokens members ++ .closeObject :: rest))
              (.object acc other :: outer) .value := rfl
        _ = readFrom limit (memberTokens members ++ .closeObject :: rest)
              (.object (Dict.set other x acc) other :: outer) .after :=
            readFrom_tokens x _ _ hx (by simp only [List.length_cons]; omega)
        _ = resume limit rest (.obj (acc ++ (other, x) :: members)) outer := by
            rw [Dict.set_of_notMem_keys hfresh, readFrom_memberTokens members _ other outer rest
              (by simpa using hdistinct) hmembers (by omega), List.append_assoc]
            rfl

end

mutual

/-- A value that lies deeper than the limit in some part is refused, whatever
follows it. -/
theorem readFrom_tokens_deep : ∀ (v : Json) (stack : List Frame) (rest : List Token),
    HasDistinctNames v → limit < stack.length + v.depth →
      ∃ object, readFrom limit (v.tokens ++ rest) stack .value = .error (.tooDeep object)
  | .null, _, rest, _, h => readFrom_of_deep .null rest h
  | .bool b, _, rest, _, h => readFrom_of_deep (.bool b) rest h
  | .int n, _, rest, _, h => readFrom_of_deep (.int n) rest h
  | .float x, _, rest, _, h => readFrom_of_deep (.float x) rest h
  | .str s, _, rest, _, h => readFrom_of_deep (.str s) rest h
  | .arr [], _, rest, _, h => readFrom_of_deep (.arr []) rest h
  | .obj [], _, rest, _, h => readFrom_of_deep (.obj []) rest h
  | .arr (x :: items), stack, rest, ⟨hx, hitems⟩, h => by
      have hdepth : limit < stack.length + max (x.depth + 1) (itemsDepth items) := h
      by_cases hstack : limit < stack.length
      · exact readFrom_of_deep _ rest hstack
      rw [tokens, List.cons_append, List.append_assoc, List.append_assoc, readFrom, step,
        startValue_of_le (Nat.not_lt.mp hstack)]
      simp only [readFrom_firstItem]
      by_cases hdeep : limit < stack.length + 1 + x.depth
      · exact readFrom_tokens_deep x (.array [] :: stack) _ hx hdeep
      · have hfirst := readFrom_tokens x (.array [] :: stack)
          (itemTokens items ++ .closeArray :: rest) hx (Nat.not_lt.mp hdeep)
        obtain ⟨object, hmore⟩ := readFrom_itemTokens_deep items [x] stack (.closeArray :: rest)
          hitems (Nat.not_lt.mp hstack) (by omega)
        exact ⟨object, hfirst.trans hmore⟩
  | .obj ((name, x) :: members), stack, rest, ⟨_, hx, hmembers⟩, h => by
      have hdepth : limit < stack.length + max (x.depth + 1) (membersDepth members) := h
      by_cases hstack : limit < stack.length
      · exact readFrom_of_deep _ rest hstack
      rw [tokens, List.cons_append, List.cons_append, List.cons_append, List.append_assoc,
        List.append_assoc, readFrom, step, startValue_of_le (Nat.not_lt.mp hstack)]
      by_cases hdeep : limit < stack.length + 1 + x.depth
      · exact readFrom_tokens_deep x (.object [] name :: stack) _ hx hdeep
      · have hfirst := readFrom_tokens x (.object [] name :: stack)
          (memberTokens members ++ .closeObject :: rest) hx (Nat.not_lt.mp hdeep)
        obtain ⟨object, hmore⟩ := readFrom_memberTokens_deep members [(name, x)] name stack
          (.closeObject :: rest) hmembers (Nat.not_lt.mp hstack) (by omega)
        exact ⟨object, hfirst.trans hmore⟩

theorem readFrom_itemTokens_deep : ∀ (items acc : List Json) (outer : List Frame)
    (rest : List Token), ItemsHaveDistinctNames items → outer.length ≤ limit →
      limit < outer.length + itemsDepth items →
      ∃ object, readFrom limit (itemTokens items ++ rest) (.array acc :: outer) .after =
        .error (.tooDeep object)
  | [], _, _, _, _, houter, h => absurd houter (Nat.not_le.mpr h)
  | x :: items, acc, outer, rest, ⟨hx, hitems⟩, houter, h => by
      have hdepth : limit < outer.length + max (x.depth + 1) (itemsDepth items) := h
      rw [itemTokens, List.cons_append, List.append_assoc]
      by_cases hdeep : limit < outer.length + 1 + x.depth
      · exact readFrom_tokens_deep x (.array acc :: outer) _ hx hdeep
      · have hfirst := readFrom_tokens x (.array acc :: outer) (itemTokens items ++ rest) hx
          (Nat.not_lt.mp hdeep)
        obtain ⟨object, hmore⟩ :=
          readFrom_itemTokens_deep items (x :: acc) outer rest hitems houter (by omega)
        exact ⟨object, hfirst.trans hmore⟩

theorem readFrom_memberTokens_deep : ∀ (members acc : List (String × Json)) (name : String)
    (outer : List Frame) (rest : List Token), MembersHaveDistinctNames members →
      outer.length ≤ limit → limit < outer.length + membersDepth members →
      ∃ object, readFrom limit (memberTokens members ++ rest) (.object acc name :: outer) .after =
        .error (.tooDeep object)
  | [], _, _, _, _, _, houter, h => absurd houter (Nat.not_le.mpr h)
  | (other, x) :: members, acc, name, outer, rest, ⟨hx, hmembers⟩, houter, h => by
      have hdepth : limit < outer.length + max (x.depth + 1) (membersDepth members) := h
      rw [memberTokens, List.cons_append, List.cons_append, List.cons_append, List.append_assoc]
      by_cases hdeep : limit < outer.length + 1 + x.depth
      · exact readFrom_tokens_deep x (.object acc other :: outer) _ hx hdeep
      · have hfirst := readFrom_tokens x (.object acc other :: outer)
          (memberTokens members ++ rest) hx (Nat.not_lt.mp hdeep)
        obtain ⟨object, hmore⟩ := readFrom_memberTokens_deep members (Dict.set other x acc) other
          outer rest hmembers houter (by omega)
        exact ⟨object, hfirst.trans hmore⟩

end

/-! ## The text of a value -/

theorem toList_written {v : Json} {text : List Char}
    (htext : ∀ out, (writeOnto (some 2) 0 v out).toList = out.toList ++ text) :
    (Command.written v).toList = text ++ ['\n'] := by
  rw [Command.written, render, String.toList_append, htext]
  rfl

/-- What a command writes is read as the tokens of the value. -/
theorem tokens?_written {d : Dialect} (hd : d.TakesIntegers) {v : Json}
    (hshort : HasShortIntegers v) : tokens? d (Command.written v).toList = some v.tokens := by
  obtain ⟨text, hspells, htext⟩ := spells_writeOnto hd (some 2) 0 v hshort
  rw [toList_written htext, tokens?, hspells ['\n'] [] (ends_cons rfl [])]
  simp [lexFrom, lexStep, betweenStep, isSpace]

/-- A value is read back from its text, unless some part of it lies too deep. -/
theorem parse?_written {d : Dialect} (hd : d.TakesIntegers) {v : Json}
    (hshort : HasShortIntegers v) (hnames : HasDistinctNames v) :
    parse? d (Command.written v) = if v.depth ≤ d.nesting then some v else none := by
  have hparse : parse d (Command.written v) = readFrom d.nesting (v.tokens ++ []) [] .value := by
    rw [parse, tokens?_written hd hshort, List.append_nil]
  rw [parse?, hparse]
  by_cases hdepth : v.depth ≤ d.nesting
  · rw [if_pos hdepth, readFrom_tokens v [] [] hnames (by simpa using hdepth)]
    rfl
  · obtain ⟨object, hread⟩ := readFrom_tokens_deep v [] [] hnames (by simpa using hdepth)
    rw [if_neg hdepth, hread]
    rfl

/-- A value with an integer that is too long is not read back. -/
theorem parse?_written_long {d : Dialect} (hd : d.TakesIntegers) (hlong : d.RefusesLong) {v : Json}
    (h : HasOneLongInteger v) : parse? d (Command.written v) = none := by
  obtain ⟨text, hrefused, htext⟩ := refused_writeOnto hd hlong (some 2) 0 v h
  rw [parse?, parse, toList_written htext, tokens?, hrefused ['\n'] [] (ends_cons rfl [])]
  rfl

end Json

namespace SourceUnit

theorem takesIntegers_dialect : dialect.TakesIntegers :=
  fun _ h => decide_eq_true h

theorem refusesLong_dialect : dialect.RefusesLong :=
  fun _ h => decide_eq_false (Nat.not_le.mpr h)

theorem texts_map_str (field : String) (texts : List String) :
    Checked.texts field (texts.map .str) = .ok texts := by
  simp [Checked.texts, List.zipIdx_map, List.filterMap_map]

/-- Every field of a record is found under its written name; the repository may
be absent, and then it is absent in lower case too. -/
theorem ofMembers_toJson (u : SourceUnit) :
    ∃ members, u.toJson = .obj members ∧ ofMembers members = .ok u := by
  refine ⟨_, rfl, ?_⟩
  obtain ⟨name, type, dir, files, dependencies, data, repo, config⟩ := u
  have hlower : Text.lower "Repo" = "repo" := by decide
  cases repo with
  | none =>
      simp [ofMembers, field, member?, Dict.get?, readString, readStrings, readList, readDict,
        Json.strs, texts_map_str, hlower]
  | some repo =>
      simp [ofMembers, field, member?, Dict.get?, readString, readStrings, readList, readDict,
        readOptString, Json.strs, texts_map_str]

/-- The record of a unit, read: the unit, or nothing at all if a value lies too
deep. -/
theorem ofText_written {u : SourceUnit} (hshort : u.toJson.HasShortIntegers)
    (hnames : u.toJson.HasDistinctNames) :
    ofText (Command.written u.toJson) =
      if u.toJson.depth ≤ 200 then .ok u else .error [⟨.jsonInvalid, []⟩] := by
  obtain ⟨members, hmembers, hunit⟩ := u.ofMembers_toJson
  have hlimit : dialect.nesting = 200 := rfl
  rw [ofText, Json.parse?_written takesIntegers_dialect hshort hnames, hlimit]
  by_cases hdepth : u.toJson.depth ≤ 200
  · rw [if_pos hdepth, if_pos hdepth, hmembers]
    exact hunit
  · rw [if_neg hdepth, if_neg hdepth]

theorem ofText_written_long {u : SourceUnit} (h : u.toJson.HasOneLongInteger) :
    ofText (Command.written u.toJson) = .error [⟨.jsonInvalid, []⟩] := by
  rw [ofText, Json.parse?_written_long takesIntegers_dialect refusesLong_dialect h]

end SourceUnit

namespace Command

theorem loadUnit_input (w : Workspace) (input : String) :
    loadUnit w input none = .ok ((SourceUnit.ofText input).mapError .invalid) := rfl

/-- A unit all of whose numbers are integers short enough to be read comes back
from its record unchanged exactly if no value of the record lies in more than
200 containers, the record itself counted; a deeper record is refused. -/
theorem record_survives_unless_deep (w : Workspace) (u : SourceUnit)
    (hshort : u.toJson.HasShortIntegers) (hnames : u.toJson.HasDistinctNames) :
    loadUnit w (written u.toJson) none =
      .ok (if u.toJson.depth ≤ 200 then .ok u else .error (.invalid [⟨.jsonInvalid, []⟩])) := by
  rw [loadUnit_input, SourceUnit.ofText_written hshort hnames]
  by_cases hdepth : u.toJson.depth ≤ 200
  · rw [if_pos hdepth, if_pos hdepth]
    rfl
  · rw [if_neg hdepth, if_neg hdepth]
    rfl

/-! ## Three records -/

/-- A workspace with nothing in it. -/
def bareWorkspace : Workspace where
  directory := ⟨.root, []⟩
  parse := fun _ _ => ([], .error .emptyError)

/-- Quotation marks, a control character, a character of one unit and one of two;
integers of either sign; containers inside each other, some of them empty. -/
def mixedUnit : SourceUnit where
  name := "na\u00efve \\ \"quoted\"\n"
  files := ["😀.m", "\x7f\x01.m", ""]
  dependencies := [.null, .bool false, .int (-120), .arr [.obj [("a", .arr []), ("b", .int 0)]]]
  data := [("", .obj []), ("\uffff", .str "\t/")]
  repo := some "r"

theorem mixedUnit_shortIntegers : mixedUnit.toJson.HasShortIntegers := by
  have hbound : 120 < 10 ^ Json.maxDigits :=
    Nat.lt_of_lt_of_le (by decide : 120 < 10 ^ 3) (Nat.pow_le_pow_right (by decide) (by decide))
  have hzero : 0 < 10 ^ Json.maxDigits := Nat.zero_lt_of_lt hbound
  simp [mixedUnit, SourceUnit.toJson, Json.strs, Json.HasShortIntegers,
    Json.MembersHaveShortIntegers, Json.ItemsHaveShortIntegers, hbound, hzero]

theorem mixedUnit_distinctNames : mixedUnit.toJson.HasDistinctNames := by
  simp [mixedUnit, SourceUnit.toJson, Json.strs, Json.HasDistinctNames, Dict.Distinct, Dict.keys,
    Json.MembersHaveDistinctNames, Json.ItemsHaveDistinctNames]

theorem record_survives_unless_deep_mixed :
    mixedUnit.toJson.HasShortIntegers ∧ mixedUnit.toJson.HasDistinctNames ∧
      loadUnit bareWorkspace (written mixedUnit.toJson) none = .ok (.ok mixedUnit) :=
  ⟨mixedUnit_shortIntegers, mixedUnit_distinctNames,
    record_survives_unless_deep bareWorkspace mixedUnit mixedUnit_shortIntegers
      mixedUnit_distinctNames⟩

/-- `null` in so many arrays. -/
def nested : Nat → Json
  | 0 => .null
  | n + 1 => .arr [nested n]

theorem depth_nested (n : Nat) : (nested n).depth = n := by
  induction n with
  | zero => rfl
  | succ n ih => simp [nested, Json.depth, Json.itemsDepth, ih]

theorem shortIntegers_nested (n : Nat) : (nested n).HasShortIntegers := by
  induction n with
  | zero => trivial
  | succ n ih => exact ⟨ih, trivial⟩

theorem distinctNames_nested (n : Nat) : (nested n).HasDistinctNames := by
  induction n with
  | zero => trivial
  | succ n ih => exact ⟨ih, trivial⟩

/-- With the record and its list of dependencies, the `null` lies in 201 containers. -/
def deepUnit : SourceUnit where
  dependencies := [nested 199]

/-- Depth alone can make a record unreadable. -/
theorem deep_record_is_refused :
    deepUnit.toJson.HasShortIntegers ∧ deepUnit.toJson.HasDistinctNames ∧
      deepUnit.toJson.depth = 201 ∧
      loadUnit bareWorkspace (written deepUnit.toJson) none =
        .ok (.error (.invalid [⟨.jsonInvalid, []⟩])) := by
  have hshort : deepUnit.toJson.HasShortIntegers := by
    simp [deepUnit, SourceUnit.toJson, Json.strs, Json.HasShortIntegers,
      Json.MembersHaveShortIntegers, Json.ItemsHaveShortIntegers, shortIntegers_nested]
  have hnames : deepUnit.toJson.HasDistinctNames := by
    simp [deepUnit, SourceUnit.toJson, Json.strs, Json.HasDistinctNames, Dict.Distinct, Dict.keys,
      Json.MembersHaveDistinctNames, Json.ItemsHaveDistinctNames, distinctNames_nested]
  have hdepth : deepUnit.toJson.depth = 201 := by
    simp [deepUnit, SourceUnit.toJson, Json.strs, Json.depth, Json.membersDepth, Json.itemsDepth,
      depth_nested]
  refine ⟨hshort, hnames, hdepth, ?_⟩
  rw [loadUnit_input, SourceUnit.ofText_written hshort hnames, if_neg (by omega)]
  rfl

/-- A unit that depends on a number. -/
def numberUnit (n : Nat) : SourceUnit where
  dependencies := [.nat n]

/-- So can the length of an integer alone: this is the least one with a digit too many. -/
theorem long_record_is_refused :
    ¬ (numberUnit (10 ^ Json.maxDigits)).toJson.HasShortIntegers ∧
      (numberUnit (10 ^ Json.maxDigits)).toJson.HasDistinctNames ∧
      (numberUnit (10 ^ Json.maxDigits)).toJson.depth = 2 ∧
      loadUnit bareWorkspace (written (numberUnit (10 ^ Json.maxDigits)).toJson) none =
        .ok (.error (.invalid [⟨.jsonInvalid, []⟩])) := by
  -- Nothing is to be computed with the number: it is only known to be too large.
  generalize hn : 10 ^ Json.maxDigits = n
  have hlong : (numberUnit n).toJson.HasOneLongInteger := by
    simp [numberUnit, SourceUnit.toJson, Json.strs, Json.nat, Json.HasOneLongInteger,
      Json.HasShortIntegers, Json.MembersHaveOneLongInteger, Json.ItemsHaveOneLongInteger,
      Json.MembersHaveShortIntegers, Json.ItemsHaveShortIntegers, hn]
  refine ⟨?_, ?_, ?_, ?_⟩
  · simp [numberUnit, SourceUnit.toJson, Json.strs, Json.nat, Json.HasShortIntegers,
      Json.MembersHaveShortIntegers, Json.ItemsHaveShortIntegers, hn]
  · simp [numberUnit, SourceUnit.toJson, Json.strs, Json.nat, Json.HasDistinctNames,
      Dict.Distinct, Dict.keys, Json.MembersHaveDistinctNames, Json.ItemsHaveDistinctNames]
  · simp [numberUnit, SourceUnit.toJson, Json.strs, Json.nat, Json.depth, Json.membersDepth,
      Json.itemsDepth]
  · rw [loadUnit_input, SourceUnit.ofText_written_long hlong]
    rfl

end Command

end SymbolGraph
