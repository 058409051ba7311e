import Mathlib.Logic.Relation
import PegGen.Proofs.Compile.Outcome
import PegGen.Proofs.Grammar.Redirection

/-!
# Chains of proxies

From a proxy one gets to its target, which may be a proxy again.  Following a name in this way ends
at a name that is no proxy, or runs into a circle.  This module says which name that comes to
without visiting rules: the end of the chain, or the member of the circle that is last in the order
of the rules (`Settles`).

The visits lead every name to the one where it settles.  Two things are kept by each visit
(`Passage`).  A name is led along its chain, and only past rules that were visited as proxies.  And
a proxy that was passed by was the last of a circle: the others have been visited, so its target was
led back to it.  So in the end the visited rules are the proxies that are not last of a circle, in
whatever order the rules come (`Passage.mem_visited_iff`).
-/

namespace PegGen

/-! ## Deterministic steps -/

section Steps

variable {α : Type} {r v : α → α → Prop}

/-- If the target of a step leads back to where the step began, then so does every later place. -/
theorem reflTransGen_back (hunique : Relator.RightUnique r) (hv : ∀ a b, v a b → r a b)
    {a t b : α} (hat : r a t) (hta : Relation.ReflTransGen v t a)
    (hab : Relation.ReflTransGen r a b) : Relation.ReflTransGen v b a := by
  induction hab with
  | refl => exact .refl
  | tail _ hstep ih =>
      rcases ih.cases_head with rfl | ⟨c, hfirst, hrest⟩
      · rwa [← hunique hat hstep]
      · rwa [← hunique (hv _ _ hfirst) hstep]

/-- The places that can be reached from a circle are on it. -/
theorem reflTransGen_circle (hunique : Relator.RightUnique r) {a b : α}
    (hcircle : Relation.TransGen r a a) (hab : Relation.ReflTransGen r a b) :
    Relation.ReflTransGen r b a ∧ Relation.TransGen r b b := by
  obtain ⟨t, hat, hta⟩ := Relation.TransGen.head'_iff.1 hcircle
  have hba := reflTransGen_back hunique (fun _ _ h => h) hat hta hab
  exact ⟨hba, .trans_right hba (.trans_left hcircle hab)⟩

end Steps

namespace Grammar

/-! ## Chains -/

/-- There is a rule of the first name which is a reference to the second, another name. -/
def ProxyFor (g : Grammar) (name target : String) : Prop :=
  ∃ r ∈ g.rules, r.name = name ∧ target ≠ name ∧ ∃ location, r.expression = .ref target location

/-- Some rule of this name is a proxy. -/
def IsProxy (g : Grammar) (name : String) : Prop :=
  ∃ target, g.ProxyFor name target

/-- One gets from the first name to the second by going from proxies to their targets. -/
def Chain (g : Grammar) : String → String → Prop :=
  Relation.ReflTransGen g.ProxyFor

/-- The name is on a circle of proxies, and no other member comes later in the order of the
rules. -/
structure LastOfCircle (g : Grammar) (name : String) : Prop where
  /-- The chain of the name comes back to it. -/
  circle : Relation.TransGen g.ProxyFor name name
  /-- The members of the circle are what the chain comes to. -/
  last : ∀ other, g.Chain name other → g.ruleNames.idxOf other ≤ g.ruleNames.idxOf name

/-- The chain of the first name ends at the second, or runs into a circle of which the second is the
last member. -/
def Settles (g : Grammar) (name last : String) : Prop :=
  g.Chain name last ∧ (¬ g.IsProxy last ∨ g.LastOfCircle last)

variable {g : Grammar}

theorem proxyFor_iff {name target : String} :
    g.ProxyFor name target ↔ ∃ r ∈ g.rules, r.name = name ∧ r.proxyTarget? = some target := by
  refine exists_congr fun r => and_congr_right fun _ => and_congr_right fun hname => ?_
  rw [Rule.proxyTarget?_eq_some_iff, hname]
  exact ⟨fun ⟨hne, location, heq⟩ => ⟨location, heq, hne⟩,
    fun ⟨location, heq, hne⟩ => ⟨hne, location, heq⟩⟩

/-- With different names a proxy has one target. -/
theorem rightUnique_proxyFor (hnames : g.ruleNames.Nodup) : Relator.RightUnique g.ProxyFor := by
  intro name target target' h h'
  obtain ⟨r, hr, hname, htarget⟩ := proxyFor_iff.1 h
  obtain ⟨r', hr', hname', htarget'⟩ := proxyFor_iff.1 h'
  obtain rfl := eq_of_name hnames hr hr' (hname.trans hname'.symm)
  exact Option.some.inj (htarget.symm.trans htarget')

theorem IsProxy.mem_ruleNames {name : String} (h : g.IsProxy name) : name ∈ g.ruleNames := by
  obtain ⟨_, r, hr, rfl, -⟩ := h
  exact List.mem_map_of_mem hr

theorem LastOfCircle.isProxy {name : String} (h : g.LastOfCircle name) : g.IsProxy name := by
  obtain ⟨target, hstep, -⟩ := Relation.TransGen.head'_iff.1 h.circle
  exact ⟨target, hstep⟩

/-- What is reached from the last of a circle and is such a last one itself, is the same. -/
theorem LastOfCircle.eq_of_chain (hnames : g.ruleNames.Nodup) {name name' : String}
    (h : g.LastOfCircle name) (h' : g.LastOfCircle name') (hchain : g.Chain name name') :
    name = name' := by
  have hback := (reflTransGen_circle (rightUnique_proxyFor hnames) h.circle hchain).1
  have hindex := Nat.le_antisymm (h'.last name hback) (h.last name' hchain)
  exact (List.idxOf_inj h.isProxy.mem_ruleNames).1 hindex

/-- A chain that has settled goes no further. -/
theorem Settles.eq_of_chain (hnames : g.ruleNames.Nodup) {name last other : String}
    (h : g.Settles name last) (h' : g.Settles name other) (hchain : g.Chain last other) :
    last = other := by
  rcases h.2 with hend | hlast
  · rcases hchain.cases_head with heq | ⟨target, hstep, -⟩
    · exact heq
    · exact absurd ⟨target, hstep⟩ hend
  · rcases h'.2 with hend | hlast'
    · have hcircle := (reflTransGen_circle (rightUnique_proxyFor hnames) hlast.circle hchain).2
      obtain ⟨target, hstep, -⟩ := Relation.TransGen.head'_iff.1 hcircle
      exact absurd ⟨target, hstep⟩ hend
    · exact hlast.eq_of_chain hnames hlast' hchain

theorem Settles.unique (hnames : g.ruleNames.Nodup) {name last last' : String}
    (h : g.Settles name last) (h' : g.Settles name last') : last = last' := by
  rcases Relation.ReflTransGen.total_of_right_unique (rightUnique_proxyFor hnames) h.1 h'.1 with
    hchain | hchain
  · exact h.eq_of_chain hnames h' hchain
  · exact (h'.eq_of_chain hnames h hchain).symm

/-! ## Visits go along chains -/

/-- The number of a rule is the place of its name. -/
theorem idxOf_name (hnames : g.ruleNames.Nodup) {i : Nat} {r : Rule} (hr : g.rules[i]? = some r) :
    g.ruleNames.idxOf r.name = i := by
  obtain ⟨hlt, rfl⟩ := List.getElem?_eq_some_iff.1 hr
  have hlt' : i < g.ruleNames.length := by rwa [ruleNames, List.length_map]
  have hname : g.ruleNames[i] = g.rules[i].name := List.getElem_map ..
  rw [← hname]
  exact hnames.idxOf_getElem i hlt'

/-- A step from a proxy that was visited. -/
def Skips (g : Grammar) (visited : List String) (name target : String) : Prop :=
  name ∈ visited ∧ g.ProxyFor name target

theorem Skips.mono {visited visited' : List String} (h : visited ⊆ visited') {name last : String}
    (hpath : Relation.ReflTransGen (g.Skips visited) name last) :
    Relation.ReflTransGen (g.Skips visited') name last :=
  Relation.ReflTransGen.mono (fun _ _ hstep => ⟨h hstep.1, hstep.2⟩) _ _ hpath

theorem Skips.chain {visited : List String} {name last : String}
    (hpath : Relation.ReflTransGen (g.Skips visited) name last) : g.Chain name last :=
  Relation.ReflTransGen.mono (fun _ _ hstep => hstep.2) _ _ hpath

/-- How the visits of the first `n` rules go along chains. -/
structure Passage (g : Grammar) (n : Nat) (lead : String → String) (visited : List String) :
    Prop where
  /-- A name is led along its chain, past visited proxies. -/
  along : ∀ name, Relation.ReflTransGen (g.Skips visited) name (lead name)
  /-- A proxy that was passed by is the last of its circle. -/
  passed_by : ∀ i r, i < n → g.rules[i]? = some r → r.name ∉ visited → g.IsProxy r.name →
    g.LastOfCircle r.name

namespace Passage

variable {startRules : List String} {n : Nat} {p : ProxyRemoval} {lead : String → String}
  {visited : List String}

theorem init (g : Grammar) : g.Passage 0 id [] where
  along _ := .refl
  passed_by _ _ h := nomatch h

/-- A rule that is passed by is no proxy, or its target is led back to it.  Then the whole circle
has been visited before. -/
theorem visit_none (h : g.Passage n lead visited) (hnames : g.ruleNames.Nodup)
    (hled : Redirection startRules g.rules n p lead visited)
    (hnone : ∀ r, g.rules[n]? = some r → (r.renameRefs lead).proxyTarget? = none) :
    g.Passage (n + 1) lead visited := by
  refine ⟨h.along, fun i r hi hr hname hproxy => ?_⟩
  rcases Nat.lt_succ_iff_lt_or_eq.1 hi with hi | rfl
  · exact h.passed_by i r hi hr hname hproxy
  obtain ⟨target, hstep⟩ := hproxy
  have hback : lead target = r.name := by
    obtain ⟨r', hr', hsame, hne, location, hexpression⟩ := hstep
    obtain rfl := eq_of_name hnames (List.mem_of_getElem? hr) hr' hsame.symm
    by_contra hother
    have htarget := Rule.proxyTarget?_renameRefs_iff.2
      ⟨target, location, hexpression, rfl, hother⟩
    rw [hnone r hr] at htarget
    cases htarget
  have hpath : Relation.ReflTransGen (g.Skips visited) target r.name := hback ▸ h.along target
  refine ⟨.head' hstep (Skips.chain hpath), fun other hother => ?_⟩
  rw [idxOf_name hnames hr]
  have hreturn : Relation.ReflTransGen (g.Skips visited) other r.name :=
    reflTransGen_back (rightUnique_proxyFor hnames) (fun _ _ h => h.2) hstep hpath hother
  rcases hreturn.cases_head with rfl | ⟨_, ⟨hvisited, -⟩, -⟩
  · exact Nat.le_of_eq (idxOf_name hnames hr)
  · obtain ⟨j, s, _, hj, hs, rfl, -⟩ := hled.follows other hvisited
    rw [idxOf_name hnames hs]
    exact Nat.le_of_lt hj

/-- A visit leads the names that were led to the proxy on to where its target is led. -/
theorem visit_some (h : g.Passage n lead visited) (hnames : g.ruleNames.Nodup)
    (hled : Redirection startRules g.rules n p lead visited) {r : Rule} {target : String}
    (hr : g.rules[n]? = some r) (htarget : (r.renameRefs lead).proxyTarget? = some target) :
    g.Passage (n + 1) (redirect r.name target ∘ lead) (visited ++ [r.name]) := by
  obtain ⟨target₀, location, hexpression, hlead, hne⟩ := Rule.proxyTarget?_renameRefs_iff.1 htarget
  have hsub : visited ⊆ visited ++ [r.name] := List.subset_append_left ..
  have hstep : g.Skips (visited ++ [r.name]) r.name target₀ := by
    refine ⟨List.mem_append_right _ (.head _), r, List.mem_of_getElem? hr, rfl, ?_, location,
      hexpression⟩
    rintro rfl
    exact hne (hlead.symm.trans (hled.stays _ (hled.not_mem_visited hnames hr)))
  refine ⟨fun name => ?_, fun i s hi hs hname hproxy => ?_⟩
  · have hpath := Skips.mono hsub (h.along name)
    rw [Function.comp_apply, redirect]
    split
    next hhere =>
      rw [hhere] at hpath
      exact hpath.trans (.head hstep (hlead ▸ Skips.mono hsub (h.along target₀)))
    · exact hpath
  · obtain ⟨hold, hother⟩ := not_or.1 (mt List.mem_append.2 hname)
    refine h.passed_by i s (Nat.lt_of_le_of_ne (Nat.le_of_lt_succ hi) fun heq => ?_) hs hold hproxy
    rw [heq, hr] at hs
    exact hother (List.mem_singleton.2 (congrArg Rule.name (Option.some.inj hs)).symm)

/-- A proxy was visited unless it is the last of a circle.  A visited one that is last would be led
to a member of the circle that was not visited, so to another last one. -/
theorem mem_visited_iff (h : g.Passage g.rules.length lead visited) (hnames : g.ruleNames.Nodup)
    (hled : g.Led startRules lead visited) {name : String} :
    name ∈ visited ↔ g.IsProxy name ∧ ¬ g.LastOfCircle name := by
  have hpassed : ∀ name, name ∉ visited → g.IsProxy name → g.LastOfCircle name := by
    intro name hname hproxy
    obtain ⟨_, r, hr, rfl, -⟩ := id hproxy
    obtain ⟨i, hi, hget⟩ := List.getElem_of_mem hr
    exact h.passed_by i r hi (List.getElem?_eq_some_iff.2 ⟨hi, hget⟩) hname hproxy
  constructor
  · intro hvisited
    obtain ⟨_, r, target, -, hr, rfl, htarget, -⟩ := hled.follows name hvisited
    refine ⟨⟨target, proxyFor_iff.2 ⟨r, List.mem_of_getElem? hr, rfl, htarget⟩⟩, fun hlast => ?_⟩
    have hchain := Skips.chain (h.along r.name)
    have hcircle := (reflTransGen_circle (rightUnique_proxyFor hnames) hlast.circle hchain).2
    obtain ⟨next, hstep, -⟩ := Relation.TransGen.head'_iff.1 hcircle
    have hlast' := hpassed _ (hled.settles r.name) ⟨next, hstep⟩
    exact hled.settles r.name (hlast.eq_of_chain hnames hlast' hchain ▸ hvisited)
  · rintro ⟨hproxy, hlast⟩
    by_contra hvisited
    exact hlast (hpassed name hvisited hproxy)

/-- A name is led to where it settles. -/
theorem settles_lead (h : g.Passage g.rules.length lead visited) (hnames : g.ruleNames.Nodup)
    (hled : g.Led startRules lead visited) (name : String) : g.Settles name (lead name) := by
  refine ⟨Skips.chain (h.along name), or_iff_not_imp_left.2 fun hproxy => ?_⟩
  by_contra hlast
  exact hled.settles name ((h.mem_visited_iff hnames hled).2 ⟨not_not.1 hproxy, hlast⟩)

end Passage

theorem exists_passage (startRules : List String) (hnames : g.ruleNames.Nodup) :
    ∃ lead visited, g.Led startRules lead visited ∧ g.Passage g.rules.length lead visited :=
  Redirection.exists_visitAll startRules hnames (.init g)
    (fun hled h hnone => h.visit_none hnames hled hnone)
    (fun hled h hr htarget => h.visit_some hnames hled hr htarget)

/-! ## What is left of a grammar -/

/-- What a grammar becomes without its proxies: a reference to `name` is one to `lead name`, and the
rules with names in `removed` are gone. -/
structure ProxiesRemoved (startRules : List String) (g g' : Grammar) (lead : String → String)
    (removed : List String) : Prop where
  /-- The other rules are left in their order, with names in references replaced and nothing
  else. -/
  rules_eq : g'.rules = (g.rules.filter (·.name ∉ removed)).map (Rule.renameRefs lead)
  /-- The pool and the code are left alone. -/
  rest_eq : g'.pool = g.pool ∧ g'.code = g.code
  /-- A chain that ends, at a rule that is no proxy or at an undefined name, is led to its end. -/
  leads_to_end : ∀ name last, g.Chain name last → ¬ g.IsProxy last → lead name = last
  /-- A chain that comes to a circle is led to the member that is last in the order of the rules. -/
  leads_to_circle : ∀ name other, g.Chain name other → Relation.TransGen g.ProxyFor other other →
    g.Chain other (lead name) ∧ g.LastOfCircle (lead name)
  /-- Every chain ends or comes to a circle. -/
  ends_or_circles : ∀ name, (∃ last, g.Chain name last ∧ ¬ g.IsProxy last) ∨
    ∃ other, g.Chain name other ∧ Relation.TransGen g.ProxyFor other other
  /-- The last rule of a circle stays, and refers to itself. -/
  last_of_circle : ∀ r ∈ g.rules, g.LastOfCircle r.name → r.renameRefs lead ∈ g'.rules ∧
    ∃ location, (r.renameRefs lead).expression = .ref r.name location
  /-- What is removed are the proxies that are neither start rules nor last of a circle. -/
  mem_removed_iff : ∀ name,
    name ∈ removed ↔ g.IsProxy name ∧ name ∉ startRules ∧ ¬ g.LastOfCircle name
  /-- Nothing refers to a removed rule. -/
  not_refersTo : ∀ name ∈ removed, ¬ g'.RefersTo name
  /-- If all references were defined, then they still are. -/
  refs_defined : (∀ name, g.RefersTo name → name ∈ g.ruleNames) →
    ∀ name, g'.RefersTo name → name ∈ g'.ruleNames

namespace Passage

variable {startRules : List String} {lead : String → String} {visited : List String}

theorem leads_to_end (h : g.Passage g.rules.length lead visited) (hnames : g.ruleNames.Nodup)
    (hled : g.Led startRules lead visited) {name last : String} (hchain : g.Chain name last)
    (hend : ¬ g.IsProxy last) : lead name = last :=
  (h.settles_lead hnames hled name).unique hnames ⟨hchain, .inl hend⟩

/-- Once on a circle, a chain settles on it. -/
theorem leads_to_circle (h : g.Passage g.rules.length lead visited) (hnames : g.ruleNames.Nodup)
    (hled : g.Led startRules lead visited) {name other : String} (hchain : g.Chain name other)
    (hcircle : Relation.TransGen g.ProxyFor other other) :
    g.Chain other (lead name) ∧ g.LastOfCircle (lead name) := by
  obtain ⟨hother, hsettled⟩ := h.settles_lead hnames hled other
  have hsame : lead other = lead name :=
    Settles.unique hnames ⟨hchain.trans hother, hsettled⟩ (h.settles_lead hnames hled name)
  have hback := (reflTransGen_circle (rightUnique_proxyFor hnames) hcircle hother).2
  obtain ⟨target, hstep, -⟩ := Relation.TransGen.head'_iff.1 hback
  rw [← hsame]
  exact ⟨hother, hsettled.resolve_left fun hend => hend ⟨target, hstep⟩⟩

theorem ends_or_circles (h : g.Passage g.rules.length lead visited) (hnames : g.ruleNames.Nodup)
    (hled : g.Led startRules lead visited) (name : String) :
    (∃ last, g.Chain name last ∧ ¬ g.IsProxy last) ∨
      ∃ other, g.Chain name other ∧ Relation.TransGen g.ProxyFor other other := by
  obtain ⟨hchain, hend | hlast⟩ := h.settles_lead hnames hled name
  · exact .inl ⟨_, hchain, hend⟩
  · exact .inr ⟨_, hchain, hlast.circle⟩

/-- The target of the last rule of a circle is led back to the rule. -/
theorem last_refersTo_self (h : g.Passage g.rules.length lead visited) (hnames : g.ruleNames.Nodup)
    (hled : g.Led startRules lead visited) {r : Rule} (hr : r ∈ g.rules)
    (hlast : g.LastOfCircle r.name) :
    ∃ location, (r.renameRefs lead).expression = .ref r.name location := by
  obtain ⟨target, hstep⟩ := hlast.isProxy
  have hback : g.Settles target r.name := by
    obtain ⟨t, ht, hback⟩ := Relation.TransGen.head'_iff.1 hlast.circle
    exact ⟨rightUnique_proxyFor hnames ht hstep ▸ hback, .inr hlast⟩
  have hlead : lead target = r.name := (h.settles_lead hnames hled target).unique hnames hback
  obtain ⟨r', hr', hsame, -, location, hexpression⟩ := hstep
  obtain rfl := eq_of_name hnames hr' hr hsame
  exact ⟨location, Expression.renameRefs_eq_ref_iff.2 ⟨target, hexpression, hlead⟩⟩

end Passage

theorem exists_proxiesRemoved (startRules : List String) (hnames : g.ruleNames.Nodup) :
    ∃ lead removed, ProxiesRemoved startRules g (g.withoutProxies startRules) lead removed := by
  obtain ⟨lead, visited, hled, h⟩ := exists_passage startRules hnames
  refine ⟨lead, visited.filter (· ∉ startRules), ?_, ⟨rfl, rfl⟩, ?_, ?_,
    h.ends_or_circles hnames hled, ?_, ?_, ?_, ?_⟩
  · show List.filter _ (ProxyRemoval.visitAll startRules g.rules).rules = _
    rw [hled.removed_eq, hled.rules_eq, List.filter_map]
    rfl
  · exact fun name last => h.leads_to_end hnames hled
  · exact fun name other => h.leads_to_circle hnames hled
  · intro r hr hlast
    have hvisited : r.name ∉ visited :=
      fun hmem => ((h.mem_visited_iff hnames hled).1 hmem).2 hlast
    exact ⟨hled.mem_rules_iff.2 ⟨r, hr, rfl, .inl hvisited⟩,
      h.last_refersTo_self hnames hled hr hlast⟩
  · intro name
    rw [List.mem_filter, h.mem_visited_iff hnames hled, decide_eq_true_eq]
    exact ⟨fun ⟨⟨hproxy, hlast⟩, hstart⟩ => ⟨hproxy, hstart, hlast⟩,
      fun ⟨hproxy, hstart, hlast⟩ => ⟨⟨hproxy, hlast⟩, hstart⟩⟩
  · intro name hname hrefers
    exact (hled.refersTo_withoutProxies hrefers).1 (List.mem_filter.1 hname).1
  · exact fun hrefs => ((⟨hnames, hrefs⟩ : g.WellFormed).withoutProxies startRules).refs_defined

end Grammar

open PassT

/-- The pass that removes proxies succeeds, and leaves every reference where its chain settles. -/
theorem removeProxies_settles (o : Options) (w : Work) (hnames : w.grammar.ruleNames.Nodup) :
    ∃ w' lead removed, runWith o w (removeProxies : Pass Id) = (.ok (), w') ∧
      Grammar.ProxiesRemoved o.startRules w.grammar w'.grammar lead removed := by
  obtain ⟨session, hrun, -⟩ := runWith_removeProxies o w
  obtain ⟨lead, removed, h⟩ := Grammar.exists_proxiesRemoved o.startRules hnames
  exact ⟨_, lead, removed, hrun, h⟩

/-- A chain against the order of the rules, a tail into a circle, a proxy that is a start rule, and
a proxy for an undefined name. -/
def Grammar.meandering : Grammar where
  rules :=
    [⟨"s", .seq [.ref "tail" default, .named "n" (.ref "p" default), .ref "lost" default], default⟩,
      ⟨"c", .ref "a" default, default⟩, ⟨"a", .ref "b" default, default⟩,
      ⟨"tail", .ref "a" default, default⟩, ⟨"b", .ref "c" default, default⟩,
      ⟨"p", .ref "q" default, default⟩, ⟨"q", .ref "x" default, default⟩,
      ⟨"x", .literal "x" false, default⟩, ⟨"lost", .ref "nowhere" default, default⟩]

theorem removeProxies_settles_meandering :
    Grammar.meandering.ruleNames.Nodup ∧
    ∃ w' lead removed, runWith { startRules := ["s", "p"] } ⟨Grammar.meandering, {}⟩
        (removeProxies : Pass Id) = (.ok (), w') ∧
      Grammar.ProxiesRemoved ["s", "p"] Grammar.meandering w'.grammar lead removed ∧
      w'.grammar.ruleNames = ["s", "b", "p", "x"] ∧
      w'.grammar.refs.map (·.1) = ["b", "x", "nowhere", "b", "x"] := by
  have hnames : Grammar.meandering.ruleNames.Nodup := by decide
  obtain ⟨w', lead, removed, hrun, h⟩ :=
    removeProxies_settles { startRules := ["s", "p"] } ⟨Grammar.meandering, {}⟩ hnames
  have hgrammar : w'.grammar = Grammar.meandering.withoutProxies ["s", "p"] := by
    obtain ⟨session, hrun', -⟩ :=
      runWith_removeProxies { startRules := ["s", "p"] } ⟨Grammar.meandering, {}⟩
    rw [hrun] at hrun'
    cases hrun'
    rfl
  refine ⟨hnames, w', lead, removed, hrun, h, ?_⟩
  rw [hgrammar]
  decide

end PegGen
