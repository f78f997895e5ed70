import SymbolGraph.Proofs.Resolution

/-!
# `Proofs.FreshBlocks` — every block of a definition has a number of its own

The blocks of a definition are numbered as they open, at all depths by ONE counter, and
a local is written under the number that the counter stands at.  So the numbers go up
along the steps (`Act.pairwise_block`), and a block that opens has a number above those of
all locals in front of it.  Paths then differ too: two numbers stand behind the last dollar
sign of the paths, and a path without a number cannot be one with a number behind the same
name (`Context.path_inBlock_ne`).

The counter starts again where a function or method opens, and the type that a function
returns is walked in front of that.  Its locals belong around the function:

    n.actions c = head ++ returned type ++ openRoutine :: (types, body ++ [closeRoutine])
                          └── counter of the surroundings ─┘ └── counter of the definition ──┘

Both stretches number their blocks afresh, each by itself.
-/

namespace SymbolGraph

open SymbolGraph.Action

/-! ## Paths with a number and without -/

/-- A text that ends in `x`, behind a slash if behind anything, does not also have `x` in
front of an end without a slash. -/
theorem append_ne_append_mark {front other x mark : List Char}
    (hfront : front = [] ∨ front.getLast? = some '/') (hmark : mark ≠ []) (hslash : '/' ∉ mark) :
    front ++ x ≠ other ++ (x ++ mark) := by
  intro h
  have hpositive := List.length_pos_iff.mpr hmark
  obtain ⟨gap, -, hgap⟩ | ⟨gap, rfl, hgap⟩ := List.append_eq_append_iff.mp h
  · have hlength := congrArg List.length hgap
    simp only [List.length_append] at hlength
    omega
  · have hlength := congrArg List.length hgap
    have hcount := congrArg (List.count '/') hgap
    have hnone := List.count_eq_zero.mpr hslash
    simp only [List.length_append, List.count_append] at hlength hcount
    have hne : gap ≠ [] := List.length_pos_iff.mp (by omega)
    have hlast : gap.getLast? = some '/' := by
      rcases hfront with hnil | hlast
      · exact absurd (List.append_eq_nil_iff.mp hnil).2 hne
      · rwa [List.getLast?_append_of_ne_nil _ hne] at hlast
    have hgapNone : gap.count '/' = 0 := by omega
    exact List.count_eq_zero.mp hgapNone (List.mem_of_getLast? hlast)

namespace Context

/-- What the key of a local ends in: the name of the local, or that of its routine. -/
def ending (c : Context) (name : String) : String :=
  if name = "" then c.methodName.getD "" else name

variable {c d : Context} {name : String}

theorem exists_joined_key (h : name ≠ "") :
    ∃ front, ("/".intercalate (c.key name).segments).toList = front ++ name.toList ∧
      (front = [] ∨ front.getLast? = some '/') := by
  rw [segments_key, if_neg h]
  generalize [c.className, c.methodName].filterMap (fun s => s.filter (· ≠ "")) = around
  by_cases haround : around = []
  · exact ⟨[], by simp [haround], .inl rfl⟩
  · refine ⟨("/".intercalate around ++ "/").toList, ?_, .inr (by simp)⟩
    rw [String.intercalate_append_of_ne_nil haround (List.cons_ne_nil _ _),
      String.intercalate_singleton, String.toList_append]

/-- In front of what a key ends in stands a slash, if anything. -/
theorem exists_joined_ending (h : c.ending name ≠ "") :
    ∃ front, ("/".intercalate (c.key name).segments).toList = front ++ (c.ending name).toList ∧
      (front = [] ∨ front.getLast? = some '/') := by
  by_cases hname : name = ""
  · subst hname
    obtain ⟨className, methodName⟩ := c
    cases methodName with
    | none => exact absurd rfl h
    | some method =>
      have hmethod : method ≠ "" := h
      have hsegments : (key ⟨className, some method⟩ "").segments =
          (key ⟨className, none⟩ method).segments := by
        rw [segments_key, segments_key, if_neg hmethod]
        cases className <;> simp [Option.filter, List.filterMap_cons, hmethod]
        split <;> rfl
      rw [hsegments]
      exact exists_joined_key hmethod
  · rw [ending, if_neg hname]
    exact exists_joined_key hname

end Context

theorem slash_notMem_mark (n : Nat) : '/' ∉ "$".toList ++ (toString n).toList := by
  intro h
  rcases List.mem_append.mp h with h | h
  · exact absurd h (by decide)
  · rw [Nat.toString_eq_ofList_toDigits, String.toList_ofList] at h
    have hdigit := Nat.isDigit_of_mem_toDigits (by decide) (by decide) h
    exact absurd hdigit (by decide)

/-- A text that a name ends, behind a slash if behind anything, is no path of a local with
that name at the end of its key. -/
theorem Key.path_inBlock_ne {k : Key} {front other x : List Char} {number : Nat}
    (hnumber : 0 < number) (hjoined : ("/".intercalate k.segments).toList = other ++ x)
    (hfront : front = [] ∨ front.getLast? = some '/') :
    (k.inBlock number).path.toList ≠ front ++ x := by
  intro h
  rw [path_inBlock k hnumber, String.toList_append, String.toList_append, hjoined,
    List.append_assoc, List.append_assoc] at h
  exact append_ne_append_mark hfront (by simp) (slash_notMem_mark number) h.symm

/-- Locals of one name, in routines of one name, have different paths if their blocks have
different numbers, unless all names are empty and only their classes have one. -/
theorem Context.path_inBlock_ne {c d : Context} {name : String} {m n : Nat} (hlt : m < n)
    (hmethod : d.methodName = c.methodName) (hnamed : c.ending name ≠ "" ∨ d = c) :
    ((d.key name).inBlock n).path ≠ ((c.key name).inBlock m).path := by
  have hn : 0 < n := Nat.zero_lt_of_lt hlt
  intro h
  rcases Nat.eq_zero_or_pos m with rfl | hm
  · have hpath : ((c.key name).inBlock (0 : Nat)).path =
        "/".intercalate (c.key name).segments := rfl
    rw [hpath] at h
    rcases hnamed with hending | rfl
    · have hsame : d.ending name = c.ending name := by rw [ending, ending, hmethod]
      obtain ⟨front, hfront, hslash⟩ := exists_joined_ending hending
      obtain ⟨other, hother, -⟩ := exists_joined_ending (hsame.trans_ne hending)
      rw [hsame] at hother
      exact Key.path_inBlock_ne hn hother hslash (by rw [h, hfront])
    · rw [Key.path_inBlock _ hn] at h
      have hlength := congrArg (fun s => s.toList.length) h
      simp at hlength
  · have := (Key.path_inBlock_inj hn hm h).2
    omega

/-! ## The numbers go up -/

namespace Act

/-- The local that an act declares, with the context it is declared in. -/
def local? (a : Act) : Option (Context × Definition) :=
  match a.action with
  | .declareLocal c .. => a.candidate?.map (c, ·)
  | _ => none

theorem local?_eq_some {a : Act} {x : Context × Definition} (h : a.local? = some x) :
    x.2.key = (x.1.key x.2.name).inBlock a.walker.block ∧ a.action.context? = some x.1 ∧
      (a.action.moved a.walker).block = a.walker.block := by
  obtain ⟨file, w, action⟩ := a
  cases action with
  | declareLocal =>
    obtain rfl := Option.some.inj h
    exact ⟨rfl, rfl, rfl⟩
  | _ => cases h

theorem local?_eq_none {a : Act} (h : a.action.local? = none) : a.local? = none := by
  obtain ⟨file, w, action⟩ := a
  cases action with
  | declareLocal => cases h
  | _ => rfl

/-- Where no routine opens, an act leaves the counter at most where the next one finds it. -/
theorem pairwise_block (file : String) {steps : List Action} (h : .openRoutine ∉ steps)
    (w : Walker) : (ofActions file steps w).Pairwise fun a b =>
      (a.action.moved a.walker).block ≤ b.walker.block := by
  induction steps generalizing w with
  | nil => exact .nil
  | cons a rest ih =>
    rw [List.mem_cons, not_or] at h
    by_cases ha : ∃ path, a = .inclusion path
    · obtain ⟨path, rfl⟩ := ha
      exact ih h.2 w
    · rw [ofActions_cons file fun path hpath => ha ⟨path, hpath⟩]
      refine List.pairwise_cons.mpr ⟨fun b hb => ?_, ih h.2 _⟩
      obtain ⟨before, after, rfl, -, hwalker⟩ := exists_of_mem_ofActions hb
      have hbefore : .openRoutine ∉ before := fun hmem => h.2 (List.mem_append_left _ hmem)
      rw [hwalker, Walker.after_block hbefore]
      exact Nat.le_add_right _ _

/-- Each block that opens has a number above that of every local in front of it, and no
local behind it has the path of one of its name in front of it. -/
def OpensFresh (acts : List Act) : Prop :=
  ∀ front opening back, acts = front ++ opening :: back → opening.action = .openBlock →
    ∀ a ∈ front, ∀ x ∈ a.local?,
      x.2.key.block < (opening.action.moved opening.walker).block ∧
      ∀ b ∈ back, ∀ y ∈ b.local?, y.2.name = x.2.name →
        (x.1.ending x.2.name ≠ "" ∨ y.1 = x.1) → y.2.key.path ≠ x.2.key.path

/-- No local behind a block that opens has the path that a parameter of its name has. -/
def SparesParameters (r : Routine) (acts : List Act) : Prop :=
  ∀ front opening back, acts = front ++ opening :: back → opening.action = .openBlock →
    ∀ b ∈ back, ∀ y ∈ b.local?, (r.inner.ending y.2.name ≠ "" ∨ y.1 = r.inner) →
      y.2.key.path ≠ (r.parameterKey y.2.name).path

/-- Around an opening of a block: numbers in front are below its number, and numbers behind
are not. -/
theorem block_split {acts front back : List Act} {opening : Act}
    (hup : acts.Pairwise fun a b => (a.action.moved a.walker).block ≤ b.walker.block)
    (hacts : acts = front ++ opening :: back) (hopening : opening.action = .openBlock) :
    (opening.action.moved opening.walker).block = opening.walker.block + 1 ∧
      (∀ a ∈ front, (a.action.moved a.walker).block ≤ opening.walker.block) ∧
      ∀ b ∈ back, opening.walker.block + 1 ≤ b.walker.block := by
  have hnumber : (opening.action.moved opening.walker).block = opening.walker.block + 1 := by
    rw [hopening]
    rfl
  rw [hacts, List.pairwise_append, List.pairwise_cons] at hup
  obtain ⟨-, ⟨hback, -⟩, hfront⟩ := hup
  refine ⟨hnumber, fun a ha => hfront a ha opening List.mem_cons_self, fun b hb => ?_⟩
  rw [← hnumber]
  exact hback b hb

theorem action_mem_of_mem_ofActions {file : String} {steps : List Action} {w : Walker} {a : Act}
    (h : a ∈ ofActions file steps w) : a.action ∈ steps := by
  obtain ⟨before, after, rfl, -⟩ := exists_of_mem_ofActions h
  exact List.mem_append_right _ List.mem_cons_self

/-- A stretch of a tree's steps in which no routine opens numbers its blocks afresh. -/
theorem opensFresh_ofActions (file : String) {steps : List Action} {method : Option String}
    (hflat : .openRoutine ∉ steps)
    (hmethod : ∀ a ∈ steps, ∀ d ∈ a.context?, d.methodName = method) (w : Walker) :
    OpensFresh (ofActions file steps w) := by
  intro front opening back hacts hopening a ha x hx
  obtain ⟨hnumber, hfront, hback⟩ := block_split (pairwise_block file hflat w) hacts hopening
  obtain ⟨hxkey, hxcontext, hsame⟩ := local?_eq_some hx
  have hbelow := hfront a ha
  rw [hsame] at hbelow
  refine ⟨?_, fun b hb y hy hname hnamed => ?_⟩
  · rw [hnumber, hxkey]
    exact Int.ofNat_lt.mpr (Nat.lt_succ_of_le hbelow)
  · obtain ⟨hykey, hycontext, -⟩ := local?_eq_some hy
    have habove := hback b hb
    have hmem : ∀ e ∈ front ++ opening :: back, e.action ∈ steps := fun e he =>
      action_mem_of_mem_ofActions (hacts ▸ he)
    have hxmethod := hmethod _ (hmem a (List.mem_append_left _ ha)) _ hxcontext
    have hymethod := hmethod _
      (hmem b (List.mem_append_right _ (List.mem_cons_of_mem _ hb))) _ hycontext
    rw [hxkey, hykey, hname]
    exact Context.path_inBlock_ne (by omega) (hymethod.trans hxmethod.symm) hnamed

end Act

/-- Where no routine opens, all names belong to one routine. -/
theorem Script.methodName_of_flat {c : Context} {as : List Action} (h : Script c as)
    (hflat : .openRoutine ∉ as) : ∀ a ∈ as, ∀ d ∈ a.context?, d.methodName = c.methodName := by
  induction h with
  | nil => exact fun _ => nofun
  | append _ _ iha ihb =>
      rw [List.mem_append, not_or] at hflat
      exact List.forall_mem_append.mpr ⟨iha hflat.1, ihb hflat.2⟩
  | plain ha => exact List.forall_mem_singleton.mpr fun d hd => by rw [ha.context_eq d hd]
  | @entered _ a _ hentries _ hb =>
      refine List.forall_mem_cons.mpr ⟨?_, List.forall_mem_singleton.mpr fun d hd => by
        rw [hb.context_eq d hd]⟩
      cases a with
      | declareLocal | read | access | send => exact absurd rfl hentries
      | _ => exact fun _ => nofun
  | recorded ha _ hb =>
      refine List.forall_mem_cons.mpr ⟨fun d hd => by rw [hb.context_eq d hd],
        List.forall_mem_singleton.mpr ?_⟩
      rcases ha with rfl | rfl <;> exact fun _ => nofun
  | classScope hmention hplain _ _ _ ihbefore ihbetween ihbody =>
      simp only [List.mem_cons, List.mem_append, not_or] at hflat
      obtain ⟨-, hbefore, -, hbetween, -, hbody, -⟩ := hflat
      intro a ha
      simp only [List.mem_cons, List.mem_append, List.not_mem_nil, or_false] at ha
      rcases ha with rfl | ha | rfl | ha | rfl | ha | rfl
      · exact fun d hd => by rw [hplain.context_eq d hd]
      · exact ihbefore hbefore a ha
      · exact fun _ => nofun
      · exact ihbetween hbetween a ha
      · exact fun _ => nofun
      · exact ihbody hbody a ha
      · exact fun _ => nofun
  | routine => exact absurd List.mem_cons_self hflat
  | block _ ih =>
      rw [List.mem_cons, not_or, List.mem_append, not_or] at hflat
      exact List.forall_mem_cons.mpr ⟨fun _ => nofun, List.forall_mem_append.mpr
        ⟨ih hflat.2.1, List.forall_mem_singleton.mpr fun _ => nofun⟩⟩

/-! ## Parameters -/

namespace Node

variable {c : Context} {n : Node} {r : Routine}

/-- A local of a block is written under another path than a parameter of its name. -/
theorem path_ne_parameterKey (h : n.routine? c = some r) {d : Context} {name : String}
    {number : Nat} (hnumber : 0 < number) (hmethod : d.methodName = r.inner.methodName)
    (hnamed : r.inner.ending name ≠ "" ∨ d = r.inner) :
    ((d.key name).inBlock number).path ≠ (r.parameterKey name).path := by
  obtain ⟨e, specifiers, _, ident, _, parameters, body, rfl, rfl⟩ |
    ⟨e, isClassMethod, returnType, s, body, className, rfl, -, rfl⟩ := routine?_cases h
  · exact Context.path_inBlock_ne (m := 0) hnumber hmethod hnamed
  · have hparameter : ((Key.member className s.name).child name).path.toList =
        (className ++ "/" ++ s.name ++ "/").toList ++ name.toList := by
      rw [← String.toList_append]
      rfl
    have hjoined : ∃ other, ("/".intercalate (d.key name).segments).toList =
        other ++ name.toList := by
      by_cases hname : name = ""
      · exact ⟨_, by rw [hname, String.toList_empty, List.append_nil]⟩
      · obtain ⟨other, hother, -⟩ := Context.exists_joined_key (c := d) hname
        exact ⟨other, hother⟩
    obtain ⟨other, hother⟩ := hjoined
    have hslash : (className ++ "/" ++ s.name ++ "/").toList.getLast? = some '/' := by
      rw [String.toList_append]
      exact List.getLast?_concat
    intro heq
    exact Key.path_inBlock_ne hnumber hother (.inr hslash) (by rw [heq, hparameter])

end Node

namespace Act

theorem sparesParameters_ofActions (file : String) {c : Context} {n : Node} {r : Routine}
    {steps : List Action} (h : n.routine? c = some r) (hflat : .openRoutine ∉ steps)
    (hmethod : ∀ a ∈ steps, ∀ d ∈ a.context?, d.methodName = r.inner.methodName) (w : Walker) :
    SparesParameters r (ofActions file steps w) := by
  intro front opening back hacts hopening b hb y hy hnamed
  obtain ⟨-, -, hback⟩ := block_split (pairwise_block file hflat w) hacts hopening
  obtain ⟨hkey, hcontext, -⟩ := local?_eq_some hy
  have hpositive : 0 < b.walker.block := Nat.zero_lt_of_lt (hback b hb)
  have hmem : b.action ∈ steps := action_mem_of_mem_ofActions
    (hacts ▸ List.mem_append_right _ (List.mem_cons_of_mem _ hb))
  rw [hkey]
  exact Node.path_ne_parameterKey h hpositive (hmethod _ hmem _ hcontext) hnamed

end Act

/-! ## The steps of a definition -/

theorem openRoutine_notMem_of_untouched {steps : List Action}
    (h : ∀ a ∈ steps, a.touchesParameters = false) : .openRoutine ∉ steps :=
  fun hmem => Bool.noConfusion (h _ hmem)

/-- The types of a function's parameters open no routine if they hold no definition. -/
theorem Parameter.openRoutine_notMem {c : Context} : ∀ {parameters : List Parameter},
    (∀ m ∈ Parameter.values parameters, m.Lacks c Node.isDefinition) →
      .openRoutine ∉ Parameter.actionsOfAll c parameters
  | [], _ => by
      rw [Parameter.actionsOfAll]
      exact List.not_mem_nil
  | ⟨e, specifiers, declarator⟩ :: rest, hparts => by
      obtain ⟨hfirst, hrest⟩ := List.forall_mem_append.mp hparts
      have htype := (Specifier.tracedOfAll c (.unit {} []) specifiers).untouched rfl hfirst
      rw [Parameter.actionsOfAll.eq_def]
      dsimp only
      rw [List.mem_append, List.mem_append, not_or, not_or]
      refine ⟨⟨openRoutine_notMem_of_untouched htype, ?_⟩, Parameter.openRoutine_notMem hrest⟩
      split <;> simp [defineName]

/-- So are those of a method's parameters. -/
theorem KeywordDeclarator.openRoutine_notMem {c : Context} {method : Key} :
    ∀ {keywords : List KeywordDeclarator},
    (∀ m ∈ KeywordDeclarator.values keywords, m.Lacks c Node.isDefinition) →
      .openRoutine ∉ KeywordDeclarator.actionsOfAll c method keywords
  | [], _ => by
      rw [KeywordDeclarator.actionsOfAll]
      exact List.not_mem_nil
  | ⟨e, keyword, typeName, ident⟩ :: rest, hparts => by
      obtain ⟨hfirst, hrest⟩ := List.forall_mem_append.mp hparts
      have htype := (TypeName.tracedOfOption c (.unit {} []) typeName).untouched rfl hfirst
      rw [KeywordDeclarator.actionsOfAll.eq_def]
      dsimp only
      rw [List.mem_append, List.mem_append, not_or, not_or]
      refine ⟨⟨openRoutine_notMem_of_untouched htype, ?_⟩,
        KeywordDeclarator.openRoutine_notMem hrest⟩
      cases ident <;> simp [defineName]

namespace Node

variable {c : Context} {n : Node} {r : Routine}

/-- A definition with no other definition in it opens one routine, behind the type that a
function returns and in front of all other types and the body. -/
theorem exists_flat_body (h : n.routine? c = some r)
    (hflat : ∀ p ∈ n.children c, p.2.Lacks p.1 isDefinition) :
    ∃ head body,
      n.actions c = head ++ (n.returnSteps c ++ .openRoutine :: (body ++ [.closeRoutine])) ∧
      (∀ a ∈ head, a ≠ .openBlock ∧ a.local? = none) ∧
      .openRoutine ∉ n.returnSteps c ∧ Script c (n.returnSteps c) ∧
      .openRoutine ∉ body ∧ Script r.inner body := by
  obtain ⟨e, specifiers, x, ident, nested, parameters, body, rfl, rfl⟩ |
    ⟨e, isClassMethod, returnType, s, body, className, rfl, hclass, rfl⟩ := routine?_cases h
  · rw [children, List.forall_mem_append, List.forall_mem_map, List.forall_mem_map,
      List.forall_mem_append] at hflat
    obtain ⟨hreturn, hparameters, hbody⟩ := hflat
    have houtside := (Specifier.tracedOfAll c (.unit {} []) specifiers).untouched rfl hreturn
    have hinside := (Node.tracedOfOption _ (.unit {} []) body).untouched rfl hbody
    refine ⟨[defineName ident e .function (.global ident.text), .addFunction ident.text],
      Parameter.actionsOfOption { c with methodName := ident.text } parameters ++
        actionsOfOption { c with methodName := ident.text } body, ?_,
      by simp [defineName, Action.local?], openRoutine_notMem_of_untouched houtside,
      Specifier.scriptOfAll c specifiers, ?_,
      (Parameter.scriptOfOption _ parameters).append (Node.scriptOfOption _ body)⟩
    · simp only [actions, returnSteps, List.append_assoc, List.cons_append, List.nil_append]
    · rw [List.mem_append, not_or]
      refine ⟨?_, openRoutine_notMem_of_untouched hinside⟩
      cases parameters with
      | none =>
        rw [Parameter.actionsOfOption]
        exact List.not_mem_nil
      | some parameters =>
        rw [Parameter.actionsOfOption]
        exact Parameter.openRoutine_notMem hparameters
  · rw [children, if_pos (by rw [hclass]; rfl), List.forall_mem_map, List.forall_mem_append,
      List.forall_mem_append] at hflat
    obtain ⟨⟨hreturn, hkeywords⟩, hbody⟩ := hflat
    have htypes := (TypeName.tracedOfOption _ (.unit {} []) returnType).untouched rfl hreturn
    have hinside := (Node.tracedOfOption _ (.unit {} []) body).untouched rfl hbody
    refine ⟨[.implement s.anchor e (.member className s.name) s.name,
        .addFunction (Key.member className s.name).path], _,
      actions_methodDefinition hclass _ _ _ _ _, by simp [Action.local?], List.not_mem_nil, .nil,
      ?_, .append (.append (TypeName.scriptOfOption _ returnType)
        (KeywordDeclarator.scriptOfAll _ _ s.keywords)) (Node.scriptOfOption _ body)⟩
    rw [List.mem_append, List.mem_append, not_or, not_or]
    exact ⟨⟨openRoutine_notMem_of_untouched htypes, KeywordDeclarator.openRoutine_notMem hkeywords⟩,
      openRoutine_notMem_of_untouched hinside⟩

/-- In a definition that holds no other definition, every block opens with a number above
those of all locals in front of it, and no local in it or behind it has the path of a
local in front of it, or of a parameter, that has its name.  What the type of a function's
result declares is counted apart: there the same holds, among its own locals.  A definition
without a name, or a method outside a class, is skipped. -/
theorem blocks_open_fresh {c : Context} {n : Node} (hdefinition : n.isDefinition = true)
    (hflat : ∀ p ∈ n.children c, p.2.Lacks p.1 isDefinition) (file : String) (w : Walker) :
    (n.routine? c = none ∧ ∃ reason start, n.actions c = [.skip reason start]) ∨
    ∃ r before outside entering inside after, n.routine? c = some r ∧
      Act.ofActions file (n.actions c) w =
        before ++ (outside ++ entering :: (inside ++ after)) ∧
      (∀ a ∈ before ++ after, a.action ≠ .openBlock ∧ a.local? = none) ∧
      (∀ a ∈ outside, a.action ∈ n.returnSteps c) ∧ entering.action = .openRoutine ∧
      Act.OpensFresh outside ∧ Act.OpensFresh inside ∧ Act.SparesParameters r inside := by
  rcases hroutine : n.routine? c with _ | r
  · obtain ⟨-, hskip⟩ | ⟨hsome, -⟩ := exists_definition hdefinition c
    · exact Or.inl ⟨rfl, hskip⟩
    · rw [hroutine] at hsome
      cases hsome
  obtain ⟨head, body, hactions, hhead, hreturnFlat, hreturn, hbodyFlat, hbody⟩ :=
    exists_flat_body hroutine hflat
  have houtside := hreturn.methodName_of_flat hreturnFlat
  have hinside := hbody.methodName_of_flat hbodyFlat
  let w₁ := w.after head
  let w₂ := w₁.after (n.returnSteps c)
  let w₃ := openRoutine.moved w₂
  refine Or.inr ⟨r, Act.ofActions file head w, Act.ofActions file (n.returnSteps c) w₁,
    ⟨file, w₂, .openRoutine⟩, Act.ofActions file body w₃, [⟨file, w₃.after body, .closeRoutine⟩],
    rfl, ?_, ?_, fun a ha => Act.action_mem_of_mem_ofActions ha, rfl,
    Act.opensFresh_ofActions file hreturnFlat houtside w₁,
    Act.opensFresh_ofActions file hbodyFlat hinside w₃,
    Act.sparesParameters_ofActions file hroutine hbodyFlat hinside w₃⟩
  · rw [hactions, Act.ofActions_append, Act.ofActions_append,
      Act.ofActions_cons file (a := .openRoutine) (fun _ => nofun), Act.ofActions_append]
    rfl
  · refine List.forall_mem_append.mpr ⟨fun a ha => ?_,
      List.forall_mem_singleton.mpr ⟨(fun h => by cases h), rfl⟩⟩
    obtain ⟨hblock, hlocal⟩ := hhead _ (Act.action_mem_of_mem_ofActions ha)
    exact ⟨hblock, Act.local?_eq_none hlocal⟩

end Node

/-! A function with three locals `x`, a function whose result type declares a constant of the
name that its body declares, one whose result type holds a block, and one where nothing but
the classes has a name:

    void f(int x) { int x; { char x; x; } { char x; x; } }
    enum { A } f() { int A; }
    enum { A = ^(int p) } f() { int x; }
    (enum { }) { @implementation A int; @end }
-/

/-- The names of the locals that some acts declare, and their paths. -/
def Act.localPaths (acts : List Act) : List (String × String) :=
  (acts.filterMap local?).map fun x => (x.2.name, x.2.key.path)

namespace Node

def reopening : Node :=
  .functionF [.typed (.primitive ⟨"int", 0, 0⟩ []) "x"] [.typed "int" "x", .shadowing, .shadowing]

theorem blocks_open_fresh_reopening :
    reopening.isDefinition = true ∧
    (∀ p ∈ reopening.children {}, p.2.Lacks p.1 isDefinition) ∧
    (∃ r before outside entering inside after, reopening.routine? {} = some r ∧
      Act.ofActions "a.m" (reopening.actions {}) {} =
        before ++ (outside ++ entering :: (inside ++ after)) ∧
      Act.OpensFresh inside ∧ Act.SparesParameters r inside) ∧
    Act.localPaths (Act.ofActions "a.m" (reopening.actions {}) {}) =
      [("x", "f/x$1"), ("x", "f/x$2"), ("x", "f/x$3")] := by
  have hflat : ∀ p ∈ reopening.children {}, p.2.Lacks p.1 isDefinition := by
    refine List.forall_mem_singleton.mpr (.of_children rfl ?_)
    exact List.forall_mem_cons.mpr ⟨.of_children rfl (List.forall_mem_nil _),
      List.forall_mem_cons.mpr ⟨shadowing_lacks rfl rfl rfl,
        List.forall_mem_singleton.mpr (shadowing_lacks rfl rfl rfl)⟩⟩
  refine ⟨rfl, hflat, ?_, by decide +kernel⟩
  obtain ⟨hnone, -⟩ | ⟨r, before, outside, entering, inside, after, hroutine, hacts, -, -, -, -,
    hfresh, hspares⟩ := blocks_open_fresh (n := .reopening) rfl hflat "a.m" {}
  · cases hnone
  · exact ⟨r, before, outside, entering, inside, after, hroutine, hacts, hfresh, hspares⟩

def returning (value : Option Node) (name : String) : Node :=
  .functionDefinition {} [.enum {} (some ⟨{}, none, none, [⟨{}, some ⟨"A", 0, 0⟩, value⟩]⟩) []]
    (some ⟨{}, some ⟨"f", 0, 0⟩, false, some []⟩) (some (.compoundStatement {} [.typed "int" name]))

def valueBlock : Node := .blockExpression {} [.typed (.primitive ⟨"int", 0, 0⟩ []) "p"] none

def unnamed : Node :=
  .functionDefinition {} []
    (some ⟨{}, some ⟨"", 0, 0⟩, false,
      some [⟨{}, [.enum {} (some ⟨{}, none, none, [⟨{}, some ⟨"", 0, 0⟩, none⟩]⟩) []], none⟩]⟩)
    (some (.compoundStatement {} [.classImplementation {} (some ⟨"A", 0, 0⟩) none none []
      [.typed "int" ""]]))

theorem returning_flat {c : Context} {value : Option Node} {name : String}
    (h : ∀ m ∈ value, m.Lacks c isDefinition) :
    ∀ p ∈ (returning value name).children c, p.2.Lacks p.1 isDefinition := by
  have hbody : (Node.compoundStatement {} [.typed "int" name]).Lacks { c with methodName := "f" }
      isDefinition :=
    .of_children rfl (List.forall_mem_singleton.mpr (.of_children rfl (List.forall_mem_nil _)))
  cases value with
  | none => exact List.forall_mem_singleton.mpr hbody
  | some m => exact List.forall_mem_cons.mpr ⟨h m rfl, List.forall_mem_singleton.mpr hbody⟩

/-- A block may open with the number of a local that the type of the result declared, and a
local in it may have its path; and where the routine and its locals have no names, the path
of a local may be that of a local of another class. -/
theorem blocks_share_numbers_with_result_type :
    ((∀ p ∈ (returning none "A").children .inF, p.2.Lacks p.1 isDefinition) ∧
      Act.localPaths (Act.ofActions "a.m" ((returning none "A").actions .inF)
        (({} : Walker).after insideF)) = [("A", "f/A$1"), ("A", "f/A$1")]) ∧
    ((∀ p ∈ (returning (some valueBlock) "x").children {}, p.2.Lacks p.1 isDefinition) ∧
      Act.localPaths (Act.ofActions "a.m" ((returning (some valueBlock) "x").actions {}) {}) =
        [("p", "p$1"), ("x", "f/x$1")] ∧
      ¬ Act.OpensFresh (Act.ofActions "a.m" ((returning (some valueBlock) "x").actions {}) {})) ∧
    (∀ p ∈ unnamed.children ⟨some "A$1", none⟩, p.2.Lacks p.1 isDefinition) ∧
      Act.localPaths (Act.ofActions "a.m" (unnamed.actions ⟨some "A$1", none⟩) {}) =
        [("", "A$1"), ("", "A$1")] := by
  have hvalue : valueBlock.Lacks {} isDefinition := .of_children rfl (List.forall_mem_nil _)
  have hunnamed : ∀ p ∈ unnamed.children ⟨some "A$1", none⟩, p.2.Lacks p.1 isDefinition := by
    refine List.forall_mem_singleton.mpr (.of_children rfl (List.forall_mem_singleton.mpr ?_))
    exact .of_children rfl
      (List.forall_mem_singleton.mpr (.of_children rfl (List.forall_mem_nil _)))
  refine ⟨⟨returning_flat nofun, by decide +kernel⟩,
    ⟨returning_flat (by rintro m ⟨⟩; exact hvalue), by decide +kernel, fun hfresh => ?_⟩,
    hunnamed, by decide +kernel⟩
  -- Counted from zero, step nine opens the body and step six declares `p`.
  obtain ⟨hlt, -⟩ := hfresh [_, _, _, _, _, _, _, _, _] _ _ rfl rfl _
    (List.mem_of_getElem? (i := 6) rfl) _ rfl
  exact absurd hlt (by decide)

end Node

end SymbolGraph
