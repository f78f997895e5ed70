import Mathlib.Algebra.Group.Nat.Defs
import Mathlib.Data.List.Basic
import Mathlib.Data.List.TakeWhile
import SymbolGraph.Json.Token
import SymbolGraph.Json.Writer

/-!
# `Proofs.JsonTokens` — the text of a value is its tokens

`Json.tokens` says which tokens a value is made of, with no text between.  What
the writer writes reads as these tokens, in every layout (`spells_writeOnto`):
a string comes back character by character, whichever of the escapes a
character took, and an integer digit by digit.

A word runs up to the next character that cannot belong to it, so a text that
ends in a word spells its tokens only in front of a rest that does not go on
with one (`Ends`); the writer never puts two words side by side.

An integer with more digits than a reader takes spoils the text of every value that it
stands in (`refused_writeOnto`).

The empty array and the empty object have a line of their own in the writer,
and so they have in every definition by recursion here.
-/

namespace SymbolGraph.Json

open Number (Decimal)
open Text.Quoted (hex)

mutual

/-- The tokens of a value. -/
def tokens : Json → List Token
  | .str s => [.text s]
  | .arr [] => [.openArray, .closeArray]
  | .arr (x :: items) => .openArray :: (tokens x ++ (itemTokens items ++ [.closeArray]))
  | .obj [] => [.openObject, .closeObject]
  | .obj ((name, x) :: members) =>
      .openObject :: .text name :: .colon :: (tokens x ++ (memberTokens members ++ [.closeObject]))
  | constant => [.word constant]

/-- The tokens of the items after the first. -/
def itemTokens : List Json → List Token
  | [] => []
  | x :: items => .comma :: (tokens x ++ itemTokens items)

/-- The tokens of the members after the first. -/
def memberTokens : List (String × Json) → List Token
  | [] => []
  | (name, x) :: members =>
      .comma :: .text name :: .colon :: (tokens x ++ memberTokens members)

end

mutual

/-- Every number in the value is an integer, of no more digits than are read. -/
def HasShortIntegers : Json → Prop
  | .int n => n.natAbs < 10 ^ maxDigits
  | .float _ => False
  | .arr items => ItemsHaveShortIntegers items
  | .obj members => MembersHaveShortIntegers members
  | _ => True

def ItemsHaveShortIntegers : List Json → Prop
  | [] => True
  | x :: items => HasShortIntegers x ∧ ItemsHaveShortIntegers items

def MembersHaveShortIntegers : List (String × Json) → Prop
  | [] => True
  | (_, x) :: members => HasShortIntegers x ∧ MembersHaveShortIntegers members

end

/-! ## Numbers -/

theorem eq_zero_of_digitChar : ∀ d < 10, Nat.digitChar d = '0' → d = 0 := by decide

/-- The digits of a number start with a zero only if they are nothing else. -/
theorem eq_zero_of_head?_toDigits {n : Nat} (h : (Nat.toDigits 10 n).head? = some '0') :
    n = 0 := by
  induction n using Nat.strongRecOn with
  | _ n ih =>
      by_cases hn : n < 10
      · rw [Nat.toDigits_of_lt_base hn] at h
        exact eq_zero_of_digitChar n hn (Option.some.inj h)
      · rw [Nat.toDigits_of_base_le (by omega) (by omega),
          List.head?_append_of_ne_nil _ Nat.toDigits_ne_nil] at h
        have hzero : n / 10 = 0 := ih (n / 10) (by omega) h
        omega

theorem isDigit_toDigits (n : Nat) : ∀ c ∈ Nat.toDigits 10 n, c.isDigit = true :=
  fun _ hc => Nat.isDigit_of_mem_toDigits (by decide) (by decide) hc

theorem value_toDigits (n : Nat) : Decimal.value (Nat.toDigits 10 n) = n :=
  Nat.ofDigitChars_ten_toDigits

/-- A word of digits has no sign. -/
theorem sign_of_isDigit {digits : List Char} (h : ∀ c ∈ digits, c.isDigit = true) :
    Decimal.sign false digits = (false, digits) := by
  cases digits with
  | nil => rfl
  | cons c rest =>
      have hc := h c List.mem_cons_self
      have hminus : c ≠ '-' := fun heq => absurd (heq ▸ hc) (by decide)
      have hplus : c ≠ '+' := fun heq => absurd (heq ▸ hc) (by decide)
      simp [Decimal.sign, hminus, hplus]

/-- Digits behind a sign that is taken off are a number with nothing but a whole
part. -/
theorem split_of_sign {word digits : List Char} {negative : Bool}
    (h : ∀ c ∈ digits, c.isDigit = true) (hsign : Decimal.sign false word = (negative, digits)) :
    Decimal.split false word = some ⟨negative, digits, none, none⟩ := by
  have htake : digits.takeWhile Char.isDigit = digits := List.takeWhile_eq_self_iff.mpr h
  have hdrop : digits.dropWhile Char.isDigit = [] := List.dropWhile_eq_nil_iff.mpr h
  simp [Decimal.split, hsign, htake, hdrop, Decimal.exponentOf]

theorem isNumber_toDigits (negative : Bool) (n : Nat) :
    isNumber ⟨negative, Nat.toDigits 10 n, none, none⟩ = true := by
  have hhead : (Nat.toDigits 10 n).head? ≠ some '0' ∨ (Nat.toDigits 10 n).length ≤ 1 := by
    by_cases hzero : (Nat.toDigits 10 n).head? = some '0'
    · rw [eq_zero_of_head?_toDigits hzero]
      exact Or.inr (by decide)
    · exact Or.inl hzero
  simpa [isNumber, Nat.toDigits_ne_nil] using hhead

/-- The dialects that take every integer the writer is expected to write. -/
def Dialect.TakesIntegers (d : Dialect) : Prop :=
  ∀ n : Decimal, n.whole.length ≤ maxDigits → d.accepts n = true

/-- The dialects that take no integer beyond these. -/
def Dialect.RefusesLong (d : Dialect) : Prop :=
  ∀ n : Decimal, maxDigits < n.whole.length → d.accepts n = false

theorem number?_of_sign {d : Dialect} (hd : d.TakesIntegers) {word : List Char} {negative : Bool}
    {n : Nat} (hn : n < 10 ^ maxDigits)
    (hsign : Decimal.sign false word = (negative, Nat.toDigits 10 n)) :
    number? d word = some (.int (if negative then -(n : Int) else n)) := by
  have hlength : (Nat.toDigits 10 n).length ≤ maxDigits :=
    (Nat.length_toDigits_le_iff (by decide) (by decide)).mpr hn
  have htaken := hd ⟨negative, Nat.toDigits 10 n, none, none⟩ hlength
  simp [number?, split_of_sign (isDigit_toDigits n) hsign, isNumber_toDigits, htaken,
    value_toDigits]

/-- None of the constants is made of digits and a sign only. -/
theorem word?_of_isDigit (d : Dialect) {word : List Char}
    (h : ∀ c ∈ word, c.isDigit = true ∨ c = '-') : word? d word = number? d word := by
  have hother : ∀ constant : String, String.ofList word = constant →
      ∀ c ∈ constant.toList, c.isDigit = true ∨ c = '-' := by
    rintro _ rfl c hc
    exact h c (by simpa using hc)
  unfold word?
  split
  · next heq => exact absurd (hother _ heq 'n' (by decide)) (by decide)
  · next heq => exact absurd (hother _ heq 't' (by decide)) (by decide)
  · next heq => exact absurd (hother _ heq 'f' (by decide)) (by decide)
  · next heq => exact absurd (hother _ heq 'N' (by decide)) (by decide)
  · next heq => exact absurd (hother _ heq 'I' (by decide)) (by decide)
  · next heq => exact absurd (hother _ heq 'I' (by decide)) (by decide)
  · rfl

/-- How an integer is written. -/
theorem toList_toString (n : Int) :
    (toString n).toList = (if n < 0 then ['-'] else []) ++ Nat.toDigits 10 n.natAbs := by
  cases n with
  | ofNat m =>
      have htext : toString (Int.ofNat m) = toString m := rfl
      have hsign : ¬ Int.ofNat m < 0 := by simp
      rw [htext, Nat.toString_eq_ofList_toDigits, String.toList_ofList, if_neg hsign]
      rfl
  | negSucc m =>
      have htext : toString (Int.negSucc m) = "-" ++ toString (m + 1) := rfl
      rw [htext, Nat.toString_eq_ofList_toDigits, String.toList_append,
        if_pos (Int.negSucc_lt_zero m)]
      exact congrArg ('-' :: ·) String.toList_ofList

theorem toString_ne_nil (n : Int) : (toString n).toList ≠ [] := by
  rw [toList_toString]
  exact List.append_ne_nil_of_right_ne_nil _ Nat.toDigits_ne_nil

theorem isDigit_toString {n : Int} : ∀ c ∈ (toString n).toList, c.isDigit = true ∨ c = '-' := by
  intro c hc
  rw [toList_toString] at hc
  rcases List.mem_append.mp hc with hc | hc
  · split at hc
    · exact Or.inr (List.mem_singleton.mp hc)
    · cases hc
  · exact Or.inl (isDigit_toDigits n.natAbs c hc)

theorem sign_toString (n : Int) :
    Decimal.sign false (toString n).toList = (decide (n < 0), Nat.toDigits 10 n.natAbs) := by
  rw [toList_toString]
  by_cases hneg : n < 0
  · rw [if_pos hneg, decide_eq_true hneg]
    rfl
  · rw [if_neg hneg, decide_eq_false hneg, List.nil_append, sign_of_isDigit (isDigit_toDigits _)]

/-- An integer that is short enough is read as it was written. -/
theorem word?_toString {d : Dialect} (hd : d.TakesIntegers) {n : Int}
    (hn : n.natAbs < 10 ^ maxDigits) : word? d (toString n).toList = some (.int n) := by
  rw [word?_of_isDigit d isDigit_toString, number?_of_sign hd hn (sign_toString n)]
  simp only [decide_eq_true_eq, Option.some.injEq, Json.int.injEq]
  split <;> omega

/-- A longer one is not read. -/
theorem word?_toString_long {d : Dialect} (hd : d.RefusesLong) {n : Int}
    (hn : 10 ^ maxDigits ≤ n.natAbs) : word? d (toString n).toList = none := by
  have hlength : ¬ (Nat.toDigits 10 n.natAbs).length ≤ maxDigits := by
    rw [Nat.length_toDigits_le_iff (by decide) (by decide)]
    exact Nat.not_lt.mpr hn
  have hrefused := hd ⟨decide (n < 0), Nat.toDigits 10 n.natAbs, none, none⟩ (Nat.not_le.mp hlength)
  rw [word?_of_isDigit d isDigit_toString, number?,
    split_of_sign (isDigit_toDigits _) (sign_toString n)]
  simp [hrefused]

/-! ## Strings -/

theorem hexValue?_digitChar : ∀ n < 16, hexValue? (Nat.digitChar n) = some n := by decide

theorem lexFrom_string {d : Dialect} {c : Char} {rest read read' : List Char}
    {state state' : StringState} {out : List Token}
    (hstep : stringStep d state c read = some (state', read')) (hopen : state' ≠ .closed) :
    lexFrom d (c :: rest) (.string state read) out = lexFrom d rest (.string state' read') out := by
  cases state' <;> simp_all [lexFrom, lexStep]

/-- The digits of a number, up to the last of the four, gather in the state. -/
theorem lexFrom_hex (d : Dialect) (width n left : Nat) (high : Option Nat)
    (rest read : List Char) (out : List Token) :
    lexFrom d (hex width n ++ rest) (.string (.number (width + left + 1) 0 high) read) out =
      lexFrom d rest (.string (.number (left + 1) (n % 16 ^ width) high) read) out := by
  induction width generalizing n left rest with
  | zero => simp [hex, Nat.mod_one]
  | succ width ih =>
      have hvalue : 16 * (n / 16 % 16 ^ width) + n % 16 = n % 16 ^ (width + 1) := by
        rw [Nat.pow_succ', Nat.mod_mul, Nat.add_comm]
      have hstep : stringStep d (.number (left + 2) (n / 16 % 16 ^ width) high)
          (Nat.digitChar (n % 16)) read =
            some (.number (left + 1) (n % 16 ^ (width + 1)) high, read) := by
        simp [stringStep, hexValue?_digitChar (n % 16) (Nat.mod_lt _ (by decide)), hvalue]
      have hleft : width + 1 + left + 1 = width + (left + 1) + 1 := by omega
      rw [hex, List.append_assoc, hleft, ih, List.singleton_append, lexFrom_string hstep (by simp)]

/-- A unit by its number, behind the mark for it: what its value brings about. -/
theorem lexFrom_unit {d : Dialect} {n : Nat} (hn : n < 0x10000) {high : Option Nat}
    {state : StringState} {rest read read' : List Char} {out : List Token}
    (hstep : stringStep d (.number 1 (n / 16) high) (Nat.digitChar (n % 16)) read =
      some (state, read')) (hopen : state ≠ .closed) :
    lexFrom d (hex 4 n ++ rest) (.string (.number 4 0 high) read) out =
      lexFrom d rest (.string state read') out := by
  have hmod : n / 16 % 16 ^ 3 = n / 16 := Nat.mod_eq_of_lt (by omega)
  rw [hex, List.append_assoc, lexFrom_hex d 3 (n / 16) 0, hmod, List.singleton_append,
    lexFrom_string hstep hopen]

theorem stringStep_lastDigit (d : Dialect) (n : Nat) (read : List Char) :
    stringStep d (.number 1 (n / 16) none) (Nat.digitChar (n % 16)) read = numbered d n read := by
  simp [stringStep, hexValue?_digitChar (n % 16) (Nat.mod_lt _ (by decide)), Nat.div_add_mod]

/-- A character that is no half of a pair is read by its number. -/
theorem lexFrom_unitText (d : Dialect) {c : Char} (hc : c.toNat < 0x10000) (rest read : List Char)
    (out : List Token) :
    lexFrom d (unitText c.toNat ++ rest) (.string .plain read) out =
      lexFrom d rest (.string .plain (c :: read)) out := by
  have hvalid : c.toNat < 0xD800 ∨ 0xDFFF < c.toNat := c.valid.imp id And.left
  have hstep := stringStep_lastDigit d c.toNat read
  rw [numbered, if_neg (by omega), if_neg (by omega), Char.ofNat_toNat] at hstep
  calc lexFrom d (unitText c.toNat ++ rest) (.string .plain read) out
      = lexFrom d (hex 4 c.toNat ++ rest) (.string (.number 4 0 none) read) out := rfl
    _ = lexFrom d rest (.string .plain (c :: read)) out := lexFrom_unit hc hstep (by simp)

/-- The two numbers of a pair are one character. -/
theorem lexFrom_pairText (d : Dialect) {high low : Nat} (hhigh : 0xD800 ≤ high ∧ high < 0xDC00)
    (hlow : 0xDC00 ≤ low ∧ low < 0xE000) (rest read : List Char) (out : List Token) :
    lexFrom d (unitText high ++ (unitText low ++ rest)) (.string .plain read) out =
      lexFrom d rest (.string .plain
        (Char.ofNat (0x10000 + (high - 0xD800) * 0x400 + (low - 0xDC00)) :: read)) out := by
  have hfirst := stringStep_lastDigit d high read
  rw [numbered, if_pos hhigh] at hfirst
  have hsecond : stringStep d (.number 1 (low / 16) (some high)) (Nat.digitChar (low % 16)) read =
      some (.plain, Char.ofNat (0x10000 + (high - 0xD800) * 0x400 + (low - 0xDC00)) :: read) := by
    simp only [stringStep, hexValue?_digitChar _ (Nat.mod_lt _ (by decide)), Nat.div_add_mod]
    rw [if_neg (by decide), if_pos hlow]
  calc lexFrom d (unitText high ++ (unitText low ++ rest)) (.string .plain read) out
      = lexFrom d (hex 4 high ++ (unitText low ++ rest)) (.string (.number 4 0 none) read) out :=
        rfl
    _ = lexFrom d (unitText low ++ rest) (.string (.second high) read) out :=
        lexFrom_unit (by omega) hfirst (by simp)
    _ = lexFrom d (hex 4 low ++ rest) (.string (.number 4 0 (some high)) read) out := rfl
    _ = _ := lexFrom_unit (by omega) hsecond (by simp)

/-- Every character of a string is read as it was written. -/
theorem lexFrom_charText (d : Dialect) (c : Char) (rest read : List Char) (out : List Token) :
    lexFrom d (charText c ++ rest) (.string .plain read) out =
      lexFrom d rest (.string .plain (c :: read)) out := by
  unfold charText
  split
  · next h => subst h; rfl
  split
  · next h => subst h; rfl
  split
  · next h => subst h; rfl
  split
  · next h => subst h; rfl
  split
  · next h => subst h; rfl
  split
  · next h => subst h; rfl
  split
  · next h => subst h; rfl
  split
  · next hquote hmark _ _ _ _ _ hprinted =>
    have hstep : stringStep d .plain c read = some (.plain, c :: read) := by
      simp only [stringStep, plainStep]
      rw [if_neg hquote, if_neg hmark, if_neg (by omega)]
    exact lexFrom_string hstep (by simp)
  split
  · next h => exact lexFrom_unitText d h rest read out
  · next h =>
    have hvalid : c.toNat < 0xD800 ∨ 0xDFFF < c.toNat ∧ c.toNat < 0x110000 := c.valid
    rw [List.append_assoc, lexFrom_pairText d (by omega) (by omega)]
    have hnumber : 0x10000 + (0xD800 + (c.toNat - 0x10000) / 0x400 - 0xD800) * 0x400 +
        (0xDC00 + (c.toNat - 0x10000) % 0x400 - 0xDC00) = c.toNat := by omega
    rw [hnumber, Char.ofNat_toNat]

theorem lexFrom_flatMap_charText (d : Dialect) (s rest read : List Char) (out : List Token) :
    lexFrom d (s.flatMap charText ++ '"' :: rest) (.string .plain read) out =
      lexFrom d rest .between (.text (String.ofList (read.reverse ++ s)) :: out) := by
  induction s generalizing read with
  | nil => rw [List.append_nil]; rfl
  | cons c s ih =>
      rw [List.flatMap_cons, List.append_assoc, lexFrom_charText, ih, List.reverse_cons,
        List.append_assoc, List.singleton_append]

/-- A string between its quotation marks is one token, whatever follows it. -/
theorem lexFrom_stringText (d : Dialect) (s : String) (rest : List Char) (out : List Token) :
    lexFrom d ((stringText s).toList ++ rest) .between out =
      lexFrom d rest .between (.text s :: out) := by
  have hopen : lexFrom d ((stringText s).toList ++ rest) .between out =
      lexFrom d (s.toList.flatMap charText ++ '"' :: rest) (.string .plain []) out := by
    rw [stringText, String.toList_ofList, List.cons_append, List.append_assoc]
    rfl
  rw [hopen, lexFrom_flatMap_charText, List.reverse_nil, List.nil_append, String.ofList_toList]

/-! ## Texts that spell tokens -/

/-- The text does not go on with a word. -/
def Ends (rest : List Char) : Prop := ∀ c ∈ rest.head?, isWordPart c = false

/-- In front of a text that does not go on with a word, the text is read as
these tokens. -/
def Spells (d : Dialect) (text : List Char) (tokens : List Token) : Prop :=
  ∀ rest out, Ends rest →
    lexFrom d (text ++ rest) .between out = lexFrom d rest .between (tokens.reverse ++ out)

theorem Ends.append {a b : List Char} (ha : Ends a) (hb : Ends b) : Ends (a ++ b) := by
  cases a with
  | nil => exact hb
  | cons c a => exact ha

theorem ends_cons {c : Char} (h : isWordPart c = false) (rest : List Char) : Ends (c :: rest) := by
  rintro _ ⟨⟩
  exact h

theorem isWordPart_of_isSpace {c : Char} (h : isSpace c = true) : isWordPart c = false := by
  simp only [isSpace, Bool.or_eq_true, beq_iff_eq] at h
  rcases h with ((rfl | rfl) | rfl) | rfl <;> decide

theorem ends_of_isSpace {blanks : List Char} (h : ∀ c ∈ blanks, isSpace c = true) : Ends blanks :=
  fun c hc => isWordPart_of_isSpace (h c (List.mem_of_mem_head? hc))

variable {d : Dialect}

theorem spells_nil : Spells d [] [] := fun _ _ _ => rfl

theorem Spells.append {a b : List Char} {s t : List Token} (ha : Spells d a s) (hb : Spells d b t)
    (hends : Ends b) : Spells d (a ++ b) (s ++ t) := by
  intro rest out hrest
  rw [List.append_assoc, ha _ _ (hends.append hrest), hb _ _ hrest, List.reverse_append,
    List.append_assoc]

theorem lexFrom_mark {c : Char} {token : Token}
    (hmark : ∀ out, betweenStep c out = some (.between, token :: out)) (rest : List Char)
    (out : List Token) :
    lexFrom d (c :: rest) .between out = lexFrom d rest .between (token :: out) := by
  rw [lexFrom, lexStep, hmark]

theorem lexFrom_blanks {blanks : List Char} (hblanks : ∀ c ∈ blanks, isSpace c = true)
    (rest : List Char) (out : List Token) :
    lexFrom d (blanks ++ rest) .between out = lexFrom d rest .between out := by
  induction blanks with
  | nil => rfl
  | cons c blanks ih =>
      have hstep : betweenStep c out = some (.between, out) :=
        if_pos (hblanks c List.mem_cons_self)
      rw [List.cons_append, lexFrom, lexStep, hstep]
      exact ih fun b hb => hblanks b (List.mem_cons_of_mem c hb)

theorem Spells.mark {c : Char} {token : Token} {text : List Char} {tokens : List Token}
    (hmark : ∀ out, betweenStep c out = some (.between, token :: out))
    (h : Spells d text tokens) : Spells d (c :: text) (token :: tokens) := by
  intro rest out hrest
  rw [List.cons_append, lexFrom_mark hmark, h rest _ hrest]
  simp

theorem Spells.blanks {blanks text : List Char} {tokens : List Token}
    (hblanks : ∀ c ∈ blanks, isSpace c = true) (h : Spells d text tokens) :
    Spells d (blanks ++ text) tokens := by
  intro rest out hrest
  rw [List.append_assoc, lexFrom_blanks hblanks, h rest out hrest]

theorem Spells.string {text : List Char} {tokens : List Token} (s : String)
    (h : Spells d text tokens) : Spells d ((stringText s).toList ++ text) (.text s :: tokens) := by
  intro rest out hrest
  rw [List.append_assoc, lexFrom_stringText, h rest _ hrest, List.reverse_cons, List.append_assoc]
  rfl

theorem betweenStep_of_isWordPart {c : Char} (h : isWordPart c = true) (out : List Token) :
    betweenStep c out = some (.word [c], out) := by
  have hspace : isSpace c = false := by
    by_contra hspace
    rw [isWordPart_of_isSpace (by simpa using hspace)] at h
    cases h
  have hquote : c ≠ '"' := by
    rintro rfl
    cases h
  have hmark : mark? c = none := by
    unfold mark?
    split <;> first | rfl | cases h
  rw [betweenStep, hspace, if_neg Bool.false_ne_true, if_neg hquote, hmark]
  exact if_pos h

/-- Inside a word, its further characters and then its value. -/
theorem lexFrom_word {word rest : List Char} (read : List Char) (out : List Token)
    (hword : ∀ c ∈ word, isWordPart c = true) (hrest : Ends rest) :
    lexFrom d (word ++ rest) (.word read) out =
      (word? d (read.reverse ++ word)).bind fun value =>
        lexFrom d rest .between (.word value :: out) := by
  induction word generalizing read with
  | nil =>
      rw [List.append_nil]
      cases rest with
      | nil => cases hvalue : word? d read.reverse <;> simp [lexFrom, hvalue]
      | cons c rest =>
          cases hvalue : word? d read.reverse <;> simp [lexFrom, lexStep, hrest c rfl, hvalue]
  | cons c word ih =>
      rw [List.cons_append, lexFrom, lexStep, if_pos (hword c List.mem_cons_self)]
      refine (ih (c :: read) fun b hb => hword b (List.mem_cons_of_mem c hb)).trans ?_
      rw [List.reverse_cons, List.append_assoc, List.singleton_append]

/-- A word is read as a whole, or ends the reading. -/
theorem lexFrom_between_word {word rest : List Char} (out : List Token) (hne : word ≠ [])
    (hword : ∀ c ∈ word, isWordPart c = true) (hrest : Ends rest) :
    lexFrom d (word ++ rest) .between out =
      (word? d word).bind fun value => lexFrom d rest .between (.word value :: out) := by
  cases word with
  | nil => exact absurd rfl hne
  | cons c word =>
      rw [List.cons_append, lexFrom, lexStep,
        betweenStep_of_isWordPart (hword c List.mem_cons_self)]
      exact lexFrom_word [c] out (fun b hb => hword b (List.mem_cons_of_mem c hb)) hrest

theorem spells_word {value : Json} {word : List Char} (hne : word ≠ [])
    (hword : ∀ c ∈ word, isWordPart c = true) (hvalue : word? d word = some value) :
    Spells d word [.word value] := by
  intro rest out hrest
  rw [lexFrom_between_word out hne hword hrest, hvalue]
  rfl

/-! ## What the writer writes -/

theorem isSpace_lineEnd (layout : Layout) (level : Nat) :
    ∀ c ∈ (lineEnd layout level).toList, isSpace c = true := by
  cases layout with
  | none => simp [lineEnd]
  | some width =>
      intro c hc
      simp only [lineEnd, String.toList_append, String.toList_ofList, List.mem_append,
        List.mem_replicate] at hc
      rcases hc with hc | ⟨-, rfl⟩
      · rw [List.mem_singleton.mp hc]; rfl
      · rfl

/-- A comma and blanks. -/
theorem toList_separator (layout : Layout) (level : Nat) :
    ∃ blanks : List Char, (separator layout level).toList = ',' :: blanks ∧
      ∀ c ∈ blanks, isSpace c = true := by
  cases layout with
  | none => exact ⟨[' '], by simp [separator], List.forall_mem_singleton.mpr rfl⟩
  | some width =>
      refine ⟨(lineEnd (some width) level).toList, ?_, isSpace_lineEnd _ _⟩
      rw [separator, String.toList_append]
      rfl

theorem isWordPart_toString {n : Int} : ∀ c ∈ (toString n).toList, isWordPart c = true := by
  intro c hc
  rcases isDigit_toString c hc with hdigit | rfl
  · simp [isWordPart, Char.isAlphanum, hdigit]
  · rfl

theorem spells_toString (hd : d.TakesIntegers) {n : Int} (hn : n.natAbs < 10 ^ maxDigits) :
    Spells d (toString n).toList [.word (.int n)] :=
  spells_word (toString_ne_nil n) isWordPart_toString (word?_toString hd hn)

/-- The end of a container: its mark on the next line, or at once. -/
theorem spells_closing {c : Char} {token : Token} (layout : Layout) (level : Nat)
    (hmark : ∀ out, betweenStep c out = some (.between, token :: out)) :
    Spells d ((lineEnd layout level).toList ++ [c]) [token] :=
  .blanks (isSpace_lineEnd layout level) (.mark hmark spells_nil)

theorem ends_closing {c : Char} (layout : Layout) (level : Nat) (h : isWordPart c = false) :
    Ends ((lineEnd layout level).toList ++ [c]) :=
  (ends_of_isSpace (isSpace_lineEnd layout level)).append (ends_cons h [])

/-- Behind the name of a member. -/
theorem Spells.named {text : List Char} {tokens : List Token} (name : String)
    (h : Spells d text tokens) :
    Spells d ((stringText name).toList ++ ':' :: ' ' :: text) (.text name :: .colon :: tokens) :=
  have hblank : ∀ c ∈ [' '], isSpace c = true := List.forall_mem_singleton.mpr rfl
  .string name (.mark (fun _ => rfl) (.blanks hblank h))

/-- The writer puts a text that spells these tokens behind what stands already. -/
def Writes (d : Dialect) (write : String → String) (tokens : List Token) : Prop :=
  ∃ text, Spells d text tokens ∧ ∀ out, (write out).toList = out.toList ++ text

/-- It does so, and that text does not go on with a word. -/
def WritesApart (d : Dialect) (write : String → String) (tokens : List Token) : Prop :=
  ∃ text, Ends text ∧ Spells d text tokens ∧ ∀ out, (write out).toList = out.toList ++ text

mutual

/-- The text of a value is read as its tokens. -/
theorem spells_writeOnto (hd : d.TakesIntegers) (layout : Layout) (level : Nat) :
    ∀ v : Json, HasShortIntegers v → Writes d (writeOnto layout level v) v.tokens
  | .null, _ => by
      have hword : Spells d "null".toList [.word .null] :=
        spells_word (by decide) (List.all_eq_true.mp rfl) (by simp [word?])
      exact ⟨_, hword, fun out => String.toList_append⟩
  | .bool b, _ => by
      have hword : Spells d (if b then "true" else "false").toList [.word (.bool b)] := by
        cases b with
        | true => exact spells_word (by decide) (List.all_eq_true.mp rfl) (by simp [word?])
        | false => exact spells_word (by decide) (List.all_eq_true.mp rfl) (by simp [word?])
      exact ⟨_, hword, fun out => String.toList_append⟩
  | .int n, hn => ⟨_, spells_toString hd hn, fun out => String.toList_append⟩
  | .float x, hx => hx.elim
  | .str s, _ => by
      have hstring : Spells d ((stringText s).toList ++ []) [.text s] := .string s spells_nil
      exact ⟨_, hstring, fun out => by simp [writeOnto]⟩
  | .arr [], _ =>
      ⟨['[', ']'], .mark (fun _ => rfl) (.mark (fun _ => rfl) spells_nil),
        fun out => String.toList_append⟩
  | .arr (x :: items), ⟨hx, hitems⟩ => by
      obtain ⟨first, hfirst, houtFirst⟩ := spells_writeOnto hd layout (level + 1) x hx
      obtain ⟨more, hends, hmore, houtMore⟩ :=
        spells_writeItems hd layout (level + 1) items hitems
      have hclosing : Ends ((lineEnd layout level).toList ++ [']']) :=
        ends_closing layout level rfl
      refine ⟨'[' :: ((lineEnd layout (level + 1)).toList ++
        (first ++ (more ++ ((lineEnd layout level).toList ++ [']'])))), ?_, fun out => ?_⟩
      · exact .mark (fun _ => rfl) (.blanks (isSpace_lineEnd layout (level + 1))
          (hfirst.append (hmore.append (spells_closing layout level fun _ => rfl) hclosing)
            (hends.append hclosing)))
      · simp [writeOnto, houtFirst, houtMore]
  | .obj [], _ =>
      ⟨['\x7b', '\x7d'], .mark (fun _ => rfl) (.mark (fun _ => rfl) spells_nil),
        fun out => String.toList_append⟩
  | .obj ((name, x) :: members), ⟨hx, hmembers⟩ => by
      obtain ⟨first, hfirst, houtFirst⟩ := spells_writeOnto hd layout (level + 1) x hx
      obtain ⟨more, hends, hmore, houtMore⟩ :=
        spells_writeMembers hd layout (level + 1) members hmembers
      have hclosing : Ends ((lineEnd layout level).toList ++ ['\x7d']) :=
        ends_closing layout level rfl
      refine ⟨'\x7b' :: ((lineEnd layout (level + 1)).toList ++
        ((stringText name).toList ++ ':' :: ' ' ::
          (first ++ (more ++ ((lineEnd layout level).toList ++ ['\x7d']))))), ?_, fun out => ?_⟩
      · exact .mark (fun _ => rfl) (.blanks (isSpace_lineEnd layout (level + 1)) (.named name
          (hfirst.append (hmore.append (spells_closing layout level fun _ => rfl) hclosing)
            (hends.append hclosing))))
      · simp [writeOnto, houtFirst, houtMore]

theorem spells_writeItems (hd : d.TakesIntegers) (layout : Layout) (level : Nat) :
    ∀ items, ItemsHaveShortIntegers items →
      WritesApart d (writeItems layout level items) (itemTokens items)
  | [], _ => ⟨[], nofun, spells_nil, fun out => (List.append_nil _).symm⟩
  | x :: items, ⟨hx, hitems⟩ => by
      obtain ⟨blanks, hseparator, hblanks⟩ := toList_separator layout level
      obtain ⟨first, hfirst, houtFirst⟩ := spells_writeOnto hd layout level x hx
      obtain ⟨more, hends, hmore, houtMore⟩ := spells_writeItems hd layout level items hitems
      refine ⟨',' :: (blanks ++ (first ++ more)), ends_cons rfl _, ?_, fun out => ?_⟩
      · exact .mark (fun _ => rfl) (.blanks hblanks (hfirst.append hmore hends))
      · simp [writeItems, houtFirst, houtMore, hseparator]

theorem spells_writeMembers (hd : d.TakesIntegers) (layout : Layout) (level : Nat) :
    ∀ members, MembersHaveShortIntegers members →
      WritesApart d (writeMembers layout level members) (memberTokens members)
  | [], _ => ⟨[], nofun, spells_nil, fun out => (List.append_nil _).symm⟩
  | (name, x) :: members, ⟨hx, hmembers⟩ => by
      obtain ⟨blanks, hseparator, hblanks⟩ := toList_separator layout level
      obtain ⟨first, hfirst, houtFirst⟩ := spells_writeOnto hd layout level x hx
      obtain ⟨more, hends, hmore, houtMore⟩ := spells_writeMembers hd layout level members hmembers
      refine ⟨',' :: (blanks ++ ((stringText name).toList ++ ':' :: ' ' :: (first ++ more))),
        ends_cons rfl _, ?_, fun out => ?_⟩
      · exact .mark (fun _ => rfl) (.blanks hblanks (.named name (hfirst.append hmore hends)))
      · simp [writeMembers, houtFirst, houtMore, hseparator]

end

/-! ## Texts that cannot be read -/

/-- In front of a text that does not go on with a word, the text is no tokens. -/
def Refused (d : Dialect) (text : List Char) : Prop :=
  ∀ rest out, Ends rest → lexFrom d (text ++ rest) .between out = none

theorem Refused.append {a b : List Char} (ha : Refused d a) (hends : Ends b) :
    Refused d (a ++ b) := by
  intro rest out hrest
  rw [List.append_assoc, ha _ _ (hends.append hrest)]

theorem Spells.refused {a b : List Char} {tokens : List Token} (ha : Spells d a tokens)
    (hb : Refused d b) (hends : Ends b) : Refused d (a ++ b) := by
  intro rest out hrest
  rw [List.append_assoc, ha _ _ (hends.append hrest), hb _ _ hrest]

theorem Refused.mark {c : Char} {token : Token} {text : List Char}
    (hmark : ∀ out, betweenStep c out = some (.between, token :: out)) (h : Refused d text) :
    Refused d (c :: text) := by
  intro rest out hrest
  rw [List.cons_append, lexFrom_mark hmark, h rest _ hrest]

theorem Refused.blanks {blanks text : List Char} (hblanks : ∀ c ∈ blanks, isSpace c = true)
    (h : Refused d text) : Refused d (blanks ++ text) := by
  intro rest out hrest
  rw [List.append_assoc, lexFrom_blanks hblanks, h rest out hrest]

theorem Refused.named {text : List Char} (name : String) (h : Refused d text) :
    Refused d ((stringText name).toList ++ ':' :: ' ' :: text) := by
  have hblank : ∀ c ∈ [' '], isSpace c = true := List.forall_mem_singleton.mpr rfl
  have hbehind : Refused d (':' :: ' ' :: text) :=
    .mark (fun _ => rfl) (.blanks hblank h)
  intro rest out hrest
  rw [List.append_assoc, lexFrom_stringText, hbehind rest _ hrest]

/-- The writer puts a text that cannot be read behind what stands already. -/
def WritesRefused (d : Dialect) (write : String → String) : Prop :=
  ∃ text, Refused d text ∧ ∀ out, (write out).toList = out.toList ++ text

/-- It does so, and that text does not go on with a word. -/
def WritesRefusedApart (d : Dialect) (write : String → String) : Prop :=
  ∃ text, Ends text ∧ Refused d text ∧ ∀ out, (write out).toList = out.toList ++ text

section Container

variable {first more : String → String} {tokens : List Token} {layout : Layout} {level : Nat}
  {x : Json}

theorem WritesRefused.andThen (hfirst : WritesRefused d first) (hmore : WritesApart d more tokens) :
    WritesRefused d (more ∘ first) := by
  obtain ⟨a, ha, houtFirst⟩ := hfirst
  obtain ⟨b, hends, -, houtMore⟩ := hmore
  exact ⟨a ++ b, ha.append hends, fun out => by simp [houtFirst, houtMore]⟩

theorem Writes.andRefused (hfirst : Writes d first tokens) (hmore : WritesRefusedApart d more) :
    WritesRefused d (more ∘ first) := by
  obtain ⟨a, ha, houtFirst⟩ := hfirst
  obtain ⟨b, hends, hb, houtMore⟩ := hmore
  exact ⟨a ++ b, ha.refused hb hends, fun out => by simp [houtFirst, houtMore]⟩

theorem refused_arr {items : List Json}
    (h : WritesRefused d (writeItems layout (level + 1) items ∘ writeOnto layout (level + 1) x)) :
    WritesRefused d (writeOnto layout level (.arr (x :: items))) := by
  obtain ⟨text, htext, hout⟩ := h
  simp only [Function.comp_apply] at hout
  refine ⟨'[' :: ((lineEnd layout (level + 1)).toList ++
    (text ++ ((lineEnd layout level).toList ++ [']']))), ?_, fun out => ?_⟩
  · exact .mark (fun _ => rfl) (.blanks (isSpace_lineEnd layout (level + 1))
      (htext.append (ends_closing layout level rfl)))
  · simp [writeOnto, hout]

theorem refused_items {items : List Json}
    (h : WritesRefused d (writeItems layout level items ∘ writeOnto layout level x)) :
    WritesRefusedApart d (writeItems layout level (x :: items)) := by
  obtain ⟨blanks, hseparator, hblanks⟩ := toList_separator layout level
  obtain ⟨text, htext, hout⟩ := h
  simp only [Function.comp_apply] at hout
  refine ⟨',' :: (blanks ++ text), ends_cons rfl _, ?_, fun out => ?_⟩
  · exact .mark (fun _ => rfl) (.blanks hblanks htext)
  · simp [writeItems, hout, hseparator]

theorem refused_obj {members : List (String × Json)} (name : String)
    (h : WritesRefused d (writeMembers layout (level + 1) members ∘
      writeOnto layout (level + 1) x)) :
    WritesRefused d (writeOnto layout level (.obj ((name, x) :: members))) := by
  obtain ⟨text, htext, hout⟩ := h
  simp only [Function.comp_apply] at hout
  refine ⟨'\x7b' :: ((lineEnd layout (level + 1)).toList ++ ((stringText name).toList ++
    ':' :: ' ' :: (text ++ ((lineEnd layout level).toList ++ ['\x7d'])))), ?_, fun out => ?_⟩
  · exact .mark (fun _ => rfl) (.blanks (isSpace_lineEnd layout (level + 1))
      (.named name (htext.append (ends_closing layout level rfl))))
  · simp [writeOnto, hout]

theorem refused_members {members : List (String × Json)} (name : String)
    (h : WritesRefused d (writeMembers layout level members ∘ writeOnto layout level x)) :
    WritesRefusedApart d (writeMembers layout level ((name, x) :: members)) := by
  obtain ⟨blanks, hseparator, hblanks⟩ := toList_separator layout level
  obtain ⟨text, htext, hout⟩ := h
  simp only [Function.comp_apply] at hout
  refine ⟨',' :: (blanks ++ ((stringText name).toList ++ ':' :: ' ' :: text)), ends_cons rfl _, ?_,
    fun out => ?_⟩
  · exact .mark (fun _ => rfl) (.blanks hblanks (.named name htext))
  · simp [writeMembers, hout, hseparator]

end Container

mutual

/-- One integer of the value has more digits than are read, and no other one. -/
def HasOneLongInteger : Json → Prop
  | .int n => 10 ^ maxDigits ≤ n.natAbs
  | .arr items => ItemsHaveOneLongInteger items
  | .obj members => MembersHaveOneLongInteger members
  | _ => False

def ItemsHaveOneLongInteger : List Json → Prop
  | [] => False
  | x :: items => (HasOneLongInteger x ∧ ItemsHaveShortIntegers items) ∨
      (HasShortIntegers x ∧ ItemsHaveOneLongInteger items)

def MembersHaveOneLongInteger : List (String × Json) → Prop
  | [] => False
  | (_, x) :: members => (HasOneLongInteger x ∧ MembersHaveShortIntegers members) ∨
      (HasShortIntegers x ∧ MembersHaveOneLongInteger members)

end

mutual

/-- The text of a value with an integer that is too long cannot be read. -/
theorem refused_writeOnto (hd : d.TakesIntegers) (hlong : d.RefusesLong) (layout : Layout)
    (level : Nat) : ∀ v : Json, HasOneLongInteger v → WritesRefused d (writeOnto layout level v)
  | .int n, hn => by
      refine ⟨(toString n).toList, fun rest out hrest => ?_, fun out => String.toList_append⟩
      rw [lexFrom_between_word out (toString_ne_nil n) isWordPart_toString hrest,
        word?_toString_long hlong hn]
      rfl
  | .arr (x :: items), .inl ⟨hx, hitems⟩ =>
      refused_arr ((refused_writeOnto hd hlong layout (level + 1) x hx).andThen
        (spells_writeItems hd layout (level + 1) items hitems))
  | .arr (x :: items), .inr ⟨hx, hitems⟩ =>
      refused_arr ((spells_writeOnto hd layout (level + 1) x hx).andRefused
        (refused_writeItems hd hlong layout (level + 1) items hitems))
  | .obj ((name, x) :: members), .inl ⟨hx, hmembers⟩ =>
      refused_obj name ((refused_writeOnto hd hlong layout (level + 1) x hx).andThen
        (spells_writeMembers hd layout (level + 1) members hmembers))
  | .obj ((name, x) :: members), .inr ⟨hx, hmembers⟩ =>
      refused_obj name ((spells_writeOnto hd layout (level + 1) x hx).andRefused
        (refused_writeMembers hd hlong layout (level + 1) members hmembers))

theorem refused_writeItems (hd : d.TakesIntegers) (hlong : d.RefusesLong) (layout : Layout)
    (level : Nat) : ∀ items, ItemsHaveOneLongInteger items →
      WritesRefusedApart d (writeItems layout level items)
  | x :: items, .inl ⟨hx, hitems⟩ =>
      refused_items ((refused_writeOnto hd hlong layout level x hx).andThen
        (spells_writeItems hd layout level items hitems))
  | x :: items, .inr ⟨hx, hitems⟩ =>
      refused_items ((spells_writeOnto hd layout level x hx).andRefused
        (refused_writeItems hd hlong layout level items hitems))

theorem refused_writeMembers (hd : d.TakesIntegers) (hlong : d.RefusesLong) (layout : Layout)
    (level : Nat) : ∀ members, MembersHaveOneLongInteger members →
      WritesRefusedApart d (writeMembers layout level members)
  | (name, x) :: members, .inl ⟨hx, hmembers⟩ =>
      refused_members name ((refused_writeOnto hd hlong layout level x hx).andThen
        (spells_writeMembers hd layout level members hmembers))
  | (name, x) :: members, .inr ⟨hx, hmembers⟩ =>
      refused_members name ((spells_writeOnto hd layout level x hx).andRefused
        (refused_writeMembers hd hlong layout level members hmembers))

end

end SymbolGraph.Json
