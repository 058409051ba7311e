import Mathlib.Data.List.Nodup
import PegGen.Grammar.Check

/-!
# References and well-formed grammars

`Expression.RefersTo` says by the shape of an expression which rules it refers to, without a
traversal.  A grammar is well formed if its rules have different names and it refers to rules only.
The two checks of a grammar find nothing exactly when it is well formed
(`Grammar.duplicates_eq_nil_iff`, `Grammar.undefinedRefs_eq_nil_iff`).

Expressions contain lists of expressions.  `Expression.induct` is induction over them with a
hypothesis for every member of such a list.
-/

namespace PegGen

namespace Expression

/-! ## Induction -/

mutual

/-- Induction over expressions, with a hypothesis for every item of a sequence or choice. -/
theorem induct {motive : Expression → Prop}
    (literal : ∀ value ignoreCase, motive (.literal value ignoreCase))
    (charClass : ∀ k, motive (.charClass k))
    (any : motive .any)
    (ref : ∀ name location, motive (.ref name location))
    (seq : ∀ items, (∀ e ∈ items, motive e) → motive (.seq items))
    (choice : ∀ items, (∀ e ∈ items, motive e) → motive (.choice items))
    (named : ∀ name body, motive body → motive (.named name body)) : ∀ e, motive e
  | .literal value ignoreCase => literal value ignoreCase
  | .charClass k => charClass k
  | .any => any
  | .ref name location => ref name location
  | .seq items => seq items (inductAll literal charClass any ref seq choice named items)
  | .choice items => choice items (inductAll literal charClass any ref seq choice named items)
  | .named name body => named name body (induct literal charClass any ref seq choice named body)

/-- The hypotheses for the items of a list. -/
theorem inductAll {motive : Expression → Prop}
    (literal : ∀ value ignoreCase, motive (.literal value ignoreCase))
    (charClass : ∀ k, motive (.charClass k))
    (any : motive .any)
    (ref : ∀ name location, motive (.ref name location))
    (seq : ∀ items, (∀ e ∈ items, motive e) → motive (.seq items))
    (choice : ∀ items, (∀ e ∈ items, motive e) → motive (.choice items))
    (named : ∀ name body, motive body → motive (.named name body)) :
    ∀ items : List Expression, ∀ e ∈ items, motive e
  | [], _, h => nomatch h
  | e :: es, e', h => by
      rcases List.mem_cons.1 h with heq | h'
      · rw [heq]
        exact induct literal charClass any ref seq choice named e
      · exact inductAll literal charClass any ref seq choice named es e' h'

end

/-! ## References of an expression -/

/-- The expression refers to a rule, itself or somewhere inside. -/
inductive RefersTo (name : String) : Expression → Prop where
  | ref : RefersTo name (.ref name location)
  | seq : e ∈ items → RefersTo name e → RefersTo name (.seq items)
  | choice : e ∈ items → RefersTo name e → RefersTo name (.choice items)
  | named : RefersTo name body → RefersTo name (.named description body)

@[simp] theorem refs_ref (name : String) (location : Location) :
    (ref name location).refs = [(name, location)] := rfl

@[simp] theorem refs_seq (items : List Expression) : (seq items).refs = items.flatMap refs := by
  show List.filterMap ref? (nodesAll items) = _
  rw [nodesAll_eq_flatMap, List.filterMap_flatMap]
  rfl

@[simp] theorem refs_choice (items : List Expression) :
    (choice items).refs = items.flatMap refs := by
  show List.filterMap ref? (nodesAll items) = _
  rw [nodesAll_eq_flatMap, List.filterMap_flatMap]
  rfl

@[simp] theorem refs_named (name : String) (body : Expression) :
    (named name body).refs = body.refs := rfl

/-- The references that a traversal lists are the ones that the expression makes. -/
theorem exists_mem_refs_iff {name : String} {e : Expression} :
    (∃ location, (name, location) ∈ e.refs) ↔ e.RefersTo name := by
  induction e using induct with
  | literal => exact ⟨fun ⟨_, h⟩ => (nomatch h), fun h => (nomatch h)⟩
  | charClass => exact ⟨fun ⟨_, h⟩ => (nomatch h), fun h => (nomatch h)⟩
  | any => exact ⟨fun ⟨_, h⟩ => (nomatch h), fun h => (nomatch h)⟩
  | ref other location =>
      constructor
      · rintro ⟨_, h⟩
        obtain ⟨rfl, rfl⟩ := Prod.mk.inj (List.mem_singleton.1 h)
        exact .ref
      · intro h
        cases h with
        | ref => exact ⟨location, List.mem_singleton.2 rfl⟩
  | seq items ih =>
      simp only [refs_seq, List.mem_flatMap]
      constructor
      · rintro ⟨location, e, he, h⟩
        exact .seq he ((ih e he).1 ⟨location, h⟩)
      · intro h
        cases h with
        | seq he h =>
            obtain ⟨location, h⟩ := (ih _ he).2 h
            exact ⟨location, _, he, h⟩
  | choice items ih =>
      simp only [refs_choice, List.mem_flatMap]
      constructor
      · rintro ⟨location, e, he, h⟩
        exact .choice he ((ih e he).1 ⟨location, h⟩)
      · intro h
        cases h with
        | choice he h =>
            obtain ⟨location, h⟩ := (ih _ he).2 h
            exact ⟨location, _, he, h⟩
  | named description body ih =>
      rw [refs_named, ih]
      exact ⟨.named, fun h => by cases h with | named h => exact h⟩

end Expression

/-- In a list without two elements of the same key, every element is found under its own. -/
theorem find?_key {α : Type} {l : List α} {key : α → String} (hkeys : (l.map key).Nodup) {a : α}
    (ha : a ∈ l) : l.find? (key · = key a) = some a := by
  cases h : l.find? (key · = key a) with
  | none => exact absurd (decide_eq_true rfl) (List.find?_eq_none.1 h a ha)
  | some b =>
      have hkey : key b = key a := by simpa using List.find?_some h
      rw [List.inj_on_of_nodup_map hkeys (List.mem_of_find?_eq_some h) ha hkey]

namespace Grammar

/-! ## Well-formed grammars -/

/-- Some rule of the grammar refers to a rule of this name. -/
def RefersTo (g : Grammar) (name : String) : Prop :=
  ∃ r ∈ g.rules, r.expression.RefersTo name

/-- The rules have different names, and all references are to rules. -/
structure WellFormed (g : Grammar) : Prop where
  /-- No two rules share a name. -/
  names_nodup : g.ruleNames.Nodup
  /-- Every reference names a rule. -/
  refs_defined : ∀ name, g.RefersTo name → name ∈ g.ruleNames

theorem exists_mem_refs_iff {g : Grammar} {name : String} :
    (∃ location, (name, location) ∈ g.refs) ↔ g.RefersTo name := by
  simp only [refs, List.mem_flatMap]
  constructor
  · rintro ⟨location, r, hr, h⟩
    exact ⟨r, hr, Expression.exists_mem_refs_iff.1 ⟨location, h⟩⟩
  · rintro ⟨r, hr, h⟩
    obtain ⟨location, h⟩ := Expression.exists_mem_refs_iff.2 h
    exact ⟨location, r, hr, h⟩

/-- The check finds no undefined reference exactly when there is none. -/
theorem undefinedRefs_eq_nil_iff {g : Grammar} :
    g.undefinedRefs = [] ↔ ∀ name, g.RefersTo name → name ∈ g.ruleNames := by
  simp only [undefinedRefs, List.filter_eq_nil_iff, decide_eq_true_eq, Decidable.not_not]
  constructor
  · intro h name hname
    obtain ⟨location, hmem⟩ := exists_mem_refs_iff.2 hname
    exact h _ hmem
  · rintro h ⟨name, location⟩ hmem
    exact h name (exists_mem_refs_iff.1 ⟨location, hmem⟩)

/-- No duplicate is found after `seen` exactly when the names are new and different. -/
theorem duplicatesAfter_eq_nil_iff (seen rules : List Rule) :
    duplicatesAfter seen rules = [] ↔
      (rules.map (·.name)).Nodup ∧ ∀ r ∈ rules, ∀ s ∈ seen, s.name ≠ r.name := by
  induction rules generalizing seen with
  | nil => simp [duplicatesAfter]
  | cons r rules ih =>
      rw [duplicatesAfter]
      cases hf : seen.find? (·.name = r.name) with
      | some first =>
          have hmem := List.mem_of_find?_eq_some hf
          have hname : first.name = r.name := by simpa using List.find?_some hf
          constructor
          · intro h
            cases h
          · rintro ⟨-, h⟩
            exact absurd hname (h r (.head _) first hmem)
      | none =>
          have hnew : ∀ s ∈ seen, s.name ≠ r.name := by
            simpa using List.find?_eq_none.1 hf
          simp only [ih, List.map_cons, List.nodup_cons, List.mem_append, List.mem_cons,
            List.not_mem_nil, or_false, List.mem_map]
          constructor
          · rintro ⟨hd, h⟩
            refine ⟨⟨?_, hd⟩, ?_⟩
            · rintro ⟨r', hr', hr⟩
              exact h r' hr' r (.inr rfl) hr.symm
            · rintro r' (rfl | hr') s hs
              · exact hnew s hs
              · exact h r' hr' s (.inl hs)
          · rintro ⟨⟨hr, hd⟩, h⟩
            refine ⟨hd, ?_⟩
            rintro r' hr' s (hs | rfl)
            · exact h r' (.inr hr') s hs
            · exact fun heq => hr ⟨r', hr', heq.symm⟩

/-- The check finds no duplicate exactly when the rules have different names. -/
theorem duplicates_eq_nil_iff {g : Grammar} : g.duplicates = [] ↔ g.ruleNames.Nodup := by
  simp [duplicates, duplicatesAfter_eq_nil_iff, ruleNames]

theorem wellFormed_iff {g : Grammar} :
    g.WellFormed ↔ g.duplicates = [] ∧ g.undefinedRefs = [] := by
  rw [duplicates_eq_nil_iff, undefinedRefs_eq_nil_iff]
  exact ⟨fun h => ⟨h.names_nodup, h.refs_defined⟩, fun h => ⟨h.1, h.2⟩⟩

instance (g : Grammar) : Decidable g.WellFormed :=
  decidable_of_iff _ wellFormed_iff.symm

/-! ## Looking up rules -/

theorem mem_ruleNames {g : Grammar} {name : String} :
    name ∈ g.ruleNames ↔ ∃ r ∈ g.rules, r.name = name :=
  List.mem_map

theorem rule?_eq_some {g : Grammar} {name : String} {r : Rule} (h : g.rule? name = some r) :
    r ∈ g.rules ∧ r.name = name :=
  ⟨List.mem_of_find?_eq_some h, by simpa using List.find?_some h⟩

/-- With different names every rule is found under its own. -/
theorem rule?_name {g : Grammar} (hnames : g.ruleNames.Nodup) {r : Rule} (hr : r ∈ g.rules) :
    g.rule? r.name = some r :=
  find?_key hnames hr

/-- With different names a rule is known by its name. -/
theorem eq_of_name {g : Grammar} (hnames : g.ruleNames.Nodup) {r r' : Rule} (hr : r ∈ g.rules)
    (hr' : r' ∈ g.rules) (hsame : r.name = r'.name) : r = r' := by
  have hfound := rule?_name hnames hr
  rw [hsame, rule?_name hnames hr'] at hfound
  exact (Option.some.inj hfound).symm

end Grammar

end PegGen
