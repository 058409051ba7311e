import Mathlib.Data.List.Lex
import PegGen.Proofs.Compile.Stages
import PegGen.Proofs.Grammar.References

/-!
# What the checks report

A node of a grammar stands at a place: the number of its rule, and then the number of an item for
each step down into the expression.  In the lexicographic order of places a node comes before the
nodes under it and after those of the items and rules before, so this is the order in which a
traversal from the top meets the nodes.

A list is the `Inventory` of what stands at places if it has one item for every such place, in the
order of the places.  The nodes that a traversal lists are the inventory of the nodes of the grammar
(`Grammar.inventory_nodes`), so what is selected from them is the inventory of what is selected.

A mistake is a rule that has the name of an earlier one, or a place with a reference that names no
rule.  The two checks report the inventories of the two kinds of mistakes, and change nothing else
(`checks_report_mistakes`).
-/

namespace PegGen

/-! ## Inventories -/

section Inventories

variable {ι δ ε : Type} [LT ι]

/-- There is one item for every place at which something stands, in the order of places. -/
def Inventory (stands : ι → δ → Prop) (items : List δ) : Prop :=
  ∃ places : List ι, places.Pairwise (· < ·) ∧ (∀ p, p ∈ places ↔ ∃ d, stands p d) ∧
    List.Forall₂ stands places items

namespace Inventory

variable {stands stands' : ι → δ → Prop} {items items' : List δ}

theorem congr (h : Inventory stands items) (hiff : ∀ p d, stands p d ↔ stands' p d) :
    Inventory stands' items := by
  obtain rfl : stands = stands' := funext fun p => funext fun d => propext (hiff p d)
  exact h

theorem empty (h : ∀ p d, ¬ stands p d) : Inventory stands [] :=
  ⟨[], .nil, fun p => by simpa using h p, .nil⟩

theorem single (p : ι) (d : δ) : Inventory (fun q e => q = p ∧ e = d) [d] :=
  ⟨[p], List.pairwise_singleton _ _, by simp, .cons ⟨rfl, rfl⟩ .nil⟩

/-- All places of one inventory come before those of another. -/
theorem append (h : Inventory stands items) (h' : Inventory stands' items')
    (hlt : ∀ {p d q e}, stands p d → stands' q e → p < q) :
    Inventory (fun p d => stands p d ∨ stands' p d) (items ++ items') := by
  obtain ⟨places, hsorted, hmem, hitems⟩ := h
  obtain ⟨places', hsorted', hmem', hitems'⟩ := h'
  refine ⟨places ++ places', ?_, ?_, ?_⟩
  · refine List.pairwise_append.2 ⟨hsorted, hsorted', fun p hp q hq => ?_⟩
    obtain ⟨d, hd⟩ := (hmem p).1 hp
    obtain ⟨e, he⟩ := (hmem' q).1 hq
    exact hlt hd he
  · intro p
    rw [List.mem_append, hmem, hmem', exists_or]
  · exact List.rel_append (hitems.imp fun _ _ => .inl) (hitems'.imp fun _ _ => .inr)

/-- Places may be renamed if their order is kept. -/
theorem moved {κ : Type} [LT κ] (h : Inventory stands items) {f : ι → κ}
    (hf : ∀ {p q}, p < q → f p < f q) : Inventory (fun k d => ∃ p, f p = k ∧ stands p d) items := by
  obtain ⟨places, hsorted, hmem, hitems⟩ := h
  refine ⟨places.map f, hsorted.map f fun _ _ => hf, ?_, ?_⟩
  · intro k
    simp only [List.mem_map, hmem]
    constructor
    · rintro ⟨p, ⟨d, hd⟩, rfl⟩
      exact ⟨d, p, rfl, hd⟩
    · rintro ⟨d, p, rfl, hd⟩
      exact ⟨p, ⟨d, hd⟩, rfl⟩
  · exact List.forall₂_map_left_iff.2 (hitems.imp fun p _ hd => ⟨p, rfl, hd⟩)

/-- What is selected from an inventory, where only one thing stands at a place. -/
theorem filterMap (h : Inventory stands items)
    (hunique : ∀ {p d d'}, stands p d → stands p d' → d = d') (f : δ → Option ε) :
    Inventory (fun p e => ∃ d, stands p d ∧ f d = some e) (items.filterMap f) := by
  classical
  obtain ⟨places, hsorted, hmem, hitems⟩ := h
  refine ⟨places.filter fun p => ∃ e d, stands p d ∧ f d = some e, hsorted.filter _, ?_, ?_⟩
  · intro p
    rw [List.mem_filter, hmem, decide_eq_true_eq]
    refine ⟨fun h => h.2, fun h => ⟨?_, h⟩⟩
    obtain ⟨e, d, hd, -⟩ := h
    exact ⟨d, hd⟩
  · clear hmem hsorted
    induction hitems with
    | nil => exact .nil
    | @cons p d places items hd hitems ih =>
        cases hfd : f d with
        | none =>
            have hnot : ¬ ∃ e d', stands p d' ∧ f d' = some e := by
              rintro ⟨e, d', hd', hfd'⟩
              rw [hunique hd' hd, hfd] at hfd'
              cases hfd'
            rwa [List.filterMap_cons_none hfd, List.filter_cons_of_neg (by simpa using hnot)]
        | some e =>
            have hselected : ∃ e d', stands p d' ∧ f d' = some e := ⟨e, d, hd, hfd⟩
            rw [List.filterMap_cons_some hfd, List.filter_cons_of_pos (by simpa using hselected)]
            exact .cons ⟨d, hd, hfd⟩ ih

end Inventory

end Inventories

/-! ## Nodes and their places -/

namespace Expression

/-- The expressions right under an expression. -/
def children : Expression → List Expression
  | .seq items => items
  | .choice items => items
  | .named _ body => [body]
  | .literal .. | .charClass _ | .any | .ref .. => []

/-- The node to which a path of numbers leads down from an expression. -/
def nodeAt? (e : Expression) : List Nat → Option Expression
  | [] => some e
  | i :: path => e.children[i]?.bind fun child => child.nodeAt? path

theorem nodes_eq_cons (e : Expression) : e.nodes = e :: nodesAll e.children := by
  cases e with
  | named name body => simp [nodes, nodesAll, children]
  | _ => rfl

/-- Induction over expressions, with a hypothesis for everything right below. -/
theorem induct_children {motive : Expression → Prop}
    (step : ∀ e, (∀ child ∈ e.children, motive child) → motive e) (e : Expression) : motive e := by
  induction e using induct with
  | literal value ignoreCase => exact step _ nofun
  | charClass k => exact step _ nofun
  | any => exact step _ nofun
  | ref name location => exact step _ nofun
  | seq items ih => exact step _ ih
  | choice items ih => exact step _ ih
  | named name body ih => exact step _ (by simpa [children] using ih)

/-- A node stands at a place in a row of expressions, of which the first has the number `n`. -/
def StandsAmong (n : Nat) (es : List Expression) (place : List Nat) (node : Expression) : Prop :=
  ∃ i path e, (n + i) :: path = place ∧ es[i]? = some e ∧ e.nodeAt? path = some node

theorem standsAmong_zero_cons {es : List Expression} {i : Nat} {path : List Nat}
    {node : Expression} : StandsAmong 0 es (i :: path) node ↔
      ∃ e, es[i]? = some e ∧ e.nodeAt? path = some node := by
  simp [StandsAmong]

theorem standsAmong_cons {n : Nat} {e node : Expression} {es : List Expression}
    {place : List Nat} : StandsAmong n (e :: es) place node ↔
      (∃ path, n :: path = place ∧ e.nodeAt? path = some node) ∨
        StandsAmong (n + 1) es place node := by
  constructor
  · rintro ⟨i, path, e', rfl, he, hnode⟩
    cases i with
    | zero =>
        obtain rfl : e = e' := Option.some.inj he
        exact .inl ⟨path, rfl, hnode⟩
    | succ i => exact .inr ⟨i, path, e', by rw [Nat.add_right_comm, Nat.add_assoc], he, hnode⟩
  · rintro (⟨path, rfl, hnode⟩ | ⟨i, path, e', rfl, he, hnode⟩)
    · exact ⟨0, path, e, rfl, rfl, hnode⟩
    · exact ⟨i + 1, path, e', by rw [Nat.add_right_comm, Nat.add_assoc], he, hnode⟩

theorem inventory_nodesAll (n : Nat) (es : List Expression)
    (h : ∀ e ∈ es, Inventory (fun path node => e.nodeAt? path = some node) e.nodes) :
    Inventory (StandsAmong n es) (nodesAll es) := by
  induction es generalizing n with
  | nil => exact .empty fun place node => by simp [StandsAmong]
  | cons e es ih =>
      have hfirst : Inventory (fun place node => ∃ path, n :: path = place ∧
          e.nodeAt? path = some node) e.nodes :=
        (h e (.head _)).moved fun hlt => List.Lex.cons hlt
      have hrest := ih (n + 1) fun e' he' => h e' (.tail _ he')
      refine (hfirst.append hrest ?_).congr fun place node => standsAmong_cons.symm
      rintro _ _ _ _ ⟨path, rfl, -⟩ ⟨i, path', e', rfl, -⟩
      exact List.Lex.rel (by omega)

/-- The nodes of an expression are met in the order of their paths. -/
theorem inventory_nodes (e : Expression) :
    Inventory (fun path node => e.nodeAt? path = some node) e.nodes := by
  induction e using induct_children with
  | step e ih =>
      rw [nodes_eq_cons]
      have htop : Inventory (fun (path : List Nat) node => path = [] ∧ node = e) [e] :=
        .single [] e
      refine (htop.append (inventory_nodesAll 0 e.children ih) ?_).congr ?_
      · rintro _ _ _ _ ⟨rfl, -⟩ ⟨i, path, e', rfl, -⟩
        exact List.Lex.nil
      · intro path node
        cases path with
        | nil => simp [StandsAmong, nodeAt?, eq_comm]
        | cons i path => simp [standsAmong_zero_cons, nodeAt?, Option.bind_eq_some_iff]

theorem ref?_eq_some_iff {e : Expression} {r : String × Location} :
    e.ref? = some r ↔ e = .ref r.1 r.2 := by
  cases e <;> simp [ref?, Prod.ext_iff]

end Expression

namespace Grammar

/-- The node at a place of a grammar. -/
def nodeAt? (g : Grammar) : List Nat → Option Expression
  | [] => none
  | i :: path => g.rules[i]?.bind fun r => r.expression.nodeAt? path

/-- The nodes of a grammar are met in the order of their places. -/
theorem inventory_nodes (g : Grammar) :
    Inventory (fun place node => g.nodeAt? place = some node) g.nodes := by
  have hforest := Expression.inventory_nodesAll 0 (g.rules.map (·.expression))
    fun e _ => e.inventory_nodes
  rw [Expression.nodesAll_eq_flatMap, List.flatMap_map] at hforest
  refine hforest.congr fun place node => ?_
  cases place with
  | nil => simp [Expression.StandsAmong, nodeAt?]
  | cons i path => simp [Expression.standsAmong_zero_cons, nodeAt?, Option.bind_eq_some_iff]

/-! ## References that name no rule -/

/-- At a place stands a reference that names no rule.  The error is located at the reference. -/
inductive Dangling (g : Grammar) : List Nat → Diagnostic → Prop where
  | intro {place : List Nat} {name : String} {location : Location}
      (href : g.nodeAt? place = some (.ref name location)) (hname : name ∉ g.ruleNames) :
      Dangling g place ⟨.error, "", "Rule \"" ++ name ++ "\" is not defined", some location⟩

/-- The error that a message and a location make in a session that has entered no stage. -/
def reported (e : String × Location) : Diagnostic :=
  ⟨.error, "", e.1, some e.2⟩

theorem refs_eq_filterMap (g : Grammar) : g.refs = g.nodes.filterMap Expression.ref? := by
  rw [nodes, List.filterMap_flatMap]
  rfl

theorem inventory_undefinedRefs (g : Grammar) :
    Inventory g.Dangling (g.undefinedRefs.map fun r => reported (undefinedError r.1 r.2)) := by
  have hlist : (g.undefinedRefs.map fun r => reported (undefinedError r.1 r.2)) =
      g.nodes.filterMap fun node => (node.ref?.filter fun r => r.1 ∉ g.ruleNames).map fun r =>
        reported (undefinedError r.1 r.2) := by
    rw [undefinedRefs, refs_eq_filterMap, List.filter_filterMap, List.map_filterMap]
  rw [hlist]
  refine (g.inventory_nodes.filterMap ?_ _).congr fun place d => ⟨?_, ?_⟩
  · exact fun h h' => Option.some.inj (h.symm.trans h')
  · rintro ⟨node, hnode, hd⟩
    obtain ⟨r, hr, rfl⟩ := Option.map_eq_some_iff.1 hd
    rw [Option.filter_eq_some_iff, Expression.ref?_eq_some_iff] at hr
    obtain ⟨rfl, hname⟩ := hr
    exact .intro hnode (by simpa using hname)
  · rintro @⟨name, location, href, hname⟩
    refine ⟨_, href, Option.map_eq_some_iff.2 ⟨(name, location), ?_, rfl⟩⟩
    exact Option.filter_eq_some_iff.2 ⟨rfl, by simpa using hname⟩

/-! ## Rules that repeat a name -/

/-- A rule has the name of an earlier one.  The error is located at the rule, and cites where the
first rule of the name starts. -/
inductive Repetition (g : Grammar) : Nat → Diagnostic → Prop where
  | intro {i : Nat} {r earlier first : Rule} (hr : g.rules[i]? = some r)
      (hearlier : earlier ∈ g.rules.take i) (hname : earlier.name = r.name)
      (hfirst : g.rule? r.name = some first) :
      Repetition g i ⟨.error, "", "Rule \"" ++ r.name ++ "\" is already defined at " ++
        first.location.start.render, some r.location⟩

theorem Repetition.unique {g : Grammar} {i : Nat} {d d' : Diagnostic} (h : g.Repetition i d)
    (h' : g.Repetition i d') : d = d' := by
  obtain ⟨hr, -, -, hfirst⟩ := h
  obtain ⟨hr', -, -, hfirst'⟩ := h'
  obtain rfl := Option.some.inj (hr.symm.trans hr')
  obtain rfl := Option.some.inj (hfirst.symm.trans hfirst')
  rfl

section Split

variable {g : Grammar} {before rules : List Rule} {r : Rule}

theorem repetition_of_find? {first : Rule} (hrules : g.rules = before ++ r :: rules)
    (h : before.find? (·.name = r.name) = some first) :
    g.Repetition before.length (reported (duplicateError r first)) := by
  have hearlier : first ∈ g.rules.take before.length := by
    simpa [hrules] using List.mem_of_find?_eq_some h
  refine .intro (by simp [hrules]) hearlier (by simpa using List.find?_some h) ?_
  rw [rule?, hrules, List.find?_append, h]
  rfl

theorem not_repetition_of_find? (hrules : g.rules = before ++ r :: rules)
    (h : before.find? (·.name = r.name) = none) (d : Diagnostic) :
    ¬ g.Repetition before.length d := by
  rintro @⟨r', earlier, first, hr, hearlier, hname, -⟩
  obtain rfl : r = r' := by simpa [hrules] using hr
  have hmem : earlier ∈ before := by simpa [hrules] using hearlier
  exact absurd hname (by simpa using List.find?_eq_none.1 h earlier hmem)

/-- One more rule of a known name changes no first rule. -/
theorem find?_concat {first : Rule} (h : before.find? (·.name = r.name) = some first)
    (name : String) :
    (before ++ [r]).find? (·.name = name) = before.find? (·.name = name) := by
  rw [List.find?_append]
  by_cases hname : r.name = name
  · rw [← hname, h]
    rfl
  · simp [hname]

end Split

/-- The rules before are `before`, and `seen` has the first of each name among them. -/
theorem inventory_duplicatesAfter {g : Grammar} {before seen rules : List Rule}
    (hrules : g.rules = before ++ rules)
    (hseen : ∀ name, seen.find? (·.name = name) = before.find? (·.name = name)) :
    Inventory (fun i d => before.length ≤ i ∧ g.Repetition i d)
      ((duplicatesAfter seen rules).map fun d => reported (duplicateError d.1 d.2)) := by
  induction rules generalizing before seen with
  | nil =>
      refine .empty ?_
      rintro i d ⟨hle, hr, -⟩
      rw [hrules, List.append_nil, List.getElem?_eq_none hle] at hr
      cases hr
  | cons r rules ih =>
      have hsplit : g.rules = (before ++ [r]) ++ rules := by simp [hrules]
      rw [duplicatesAfter, hseen]
      cases hfind : before.find? (·.name = r.name) with
      | some first =>
          have hhere := repetition_of_find? hrules hfind
          have hlater := ih hsplit fun name => by rw [hseen, find?_concat hfind]
          rw [List.length_append, List.length_singleton] at hlater
          refine ((Inventory.single before.length _).append hlater ?_).congr fun i d => ⟨?_, ?_⟩
          · rintro _ _ i _ ⟨rfl, -⟩ ⟨hle, -⟩
            exact hle
          · rintro (⟨rfl, rfl⟩ | ⟨hle, h⟩)
            · exact ⟨le_rfl, hhere⟩
            · exact ⟨Nat.le_of_succ_le hle, h⟩
          · rintro ⟨hle, h⟩
            rcases hle.eq_or_lt with rfl | hlt
            · exact .inl ⟨rfl, h.unique hhere⟩
            · exact .inr ⟨hlt, h⟩
      | none =>
          have hseen' : ∀ name, (seen ++ [r]).find? (·.name = name) =
              (before ++ [r]).find? (·.name = name) := by
            intro name
            rw [List.find?_append, hseen, List.find?_append]
          have hlater := ih hsplit hseen'
          rw [List.length_append, List.length_singleton] at hlater
          refine hlater.congr fun i d => ⟨And.imp_left Nat.le_of_succ_le, ?_⟩
          rintro ⟨hle, h⟩
          rcases hle.eq_or_lt with rfl | hlt
          · exact absurd h (not_repetition_of_find? hrules hfind d)
          · exact ⟨hlt, h⟩

theorem inventory_duplicates (g : Grammar) :
    Inventory g.Repetition (g.duplicates.map fun d => reported (duplicateError d.1 d.2)) :=
  (inventory_duplicatesAfter rfl fun _ => rfl).congr fun i d => by simp

end Grammar

open PassT

/-- From a fresh session the check for repeated names reports the inventory of the rules that repeat
a name, and after it the check for references adds the inventory of those that name no rule.
Neither changes the grammar, and nothing is reported exactly when the grammar is well formed. -/
theorem checks_report_mistakes (options : Options) (g : Grammar) :
    ∃ (checked finished : Session) (undefined : List Diagnostic),
      runWith options ⟨g, {}⟩ (reportDuplicates : Pass Id) = (.ok (), ⟨g, checked⟩) ∧
      runWith options ⟨g, checked⟩ (reportUndefined : Pass Id) = (.ok (), ⟨g, finished⟩) ∧
      finished.diagnostics = checked.diagnostics ++ undefined ∧
      Inventory g.Repetition checked.diagnostics ∧ Inventory g.Dangling undefined ∧
      (finished.diagnostics = [] ↔ g.WellFormed) := by
  obtain ⟨checked, hrun, hstage, hchecked⟩ := runWith_reportErrors options ⟨g, {}⟩
    (g.duplicates.map fun d => duplicateError d.1 d.2)
  obtain ⟨finished, hrun', -, hfinished⟩ := runWith_reportErrors options ⟨g, checked⟩
    (g.undefinedRefs.map fun r => undefinedError r.1 r.2)
  simp only [List.nil_append, List.map_map] at hchecked
  simp only [hstage, List.map_map] at hfinished
  refine ⟨checked, finished, _, ?_, ?_, hfinished, ?_, g.inventory_undefinedRefs, ?_⟩
  · rw [reportDuplicates, runWith_bind, runWith_grammar]
    exact hrun
  · rw [reportUndefined, runWith_bind, runWith_grammar]
    exact hrun'
  · rw [hchecked]
    exact g.inventory_duplicates
  · rw [hfinished, hchecked, Grammar.wellFormed_iff]
    simp

end PegGen
