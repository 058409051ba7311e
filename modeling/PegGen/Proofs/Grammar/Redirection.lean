import PegGen.Proofs.Grammar.ProxyMeaning

/-!
# Where references are led

All visits together lead each name that is referred to somewhere: a proxy that was visited to where
its target is led, and any other name to itself.  So every reference is led past the visited
proxies (`Redirection.settles`), and a rule that was not visited as a proxy is none in the end
(`Redirection.passed`).

It follows that what is left of the proxies of a grammar are start rules that nothing refers to
(`Grammar.proxiesApart_withoutProxies`), and of such a grammar nothing more is removed
(`Grammar.withoutProxies_of_proxiesApart`).  A well-formed grammar stays so
(`Grammar.WellFormed.withoutProxies`).
-/

namespace PegGen

/-! ## Renaming twice -/

namespace Expression

theorem renameRefs_renameRefs (f f' : String → String) (e : Expression) :
    (e.renameRefs f).renameRefs f' = e.renameRefs (f' ∘ f) := by
  induction e using induct with
  | literal => simp only [renameRefs]
  | charClass => simp only [renameRefs]
  | any => simp only [renameRefs]
  | ref => simp only [renameRefs, Function.comp_apply]
  | seq items ih =>
      simp only [renameRefs, renameRefsAll_eq_map, List.map_map]
      exact congrArg seq (List.map_congr_left ih)
  | choice items ih =>
      simp only [renameRefs, renameRefsAll_eq_map, List.map_map]
      exact congrArg choice (List.map_congr_left ih)
  | named name body ih => rw [renameRefs, renameRefs, ih, renameRefs]

/-- Names that are not referred to are renamed in vain. -/
theorem renameRefs_eq_self {f : String → String} {e : Expression}
    (h : ∀ name, e.RefersTo name → f name = name) : e.renameRefs f = e := by
  induction e using induct with
  | literal => rw [renameRefs]
  | charClass => rw [renameRefs]
  | any => rw [renameRefs]
  | ref name location => rw [renameRefs, h name .ref]
  | seq items ih =>
      rw [renameRefs, renameRefsAll_eq_map, List.map_congr_left (g := id), List.map_id]
      exact fun e he => ih e he fun name hname => h name (.seq he hname)
  | choice items ih =>
      rw [renameRefs, renameRefsAll_eq_map, List.map_congr_left (g := id), List.map_id]
      exact fun e he => ih e he fun name hname => h name (.choice he hname)
  | named name body ih => rw [renameRefs, ih fun name hname => h name (.named hname)]

end Expression

theorem Rule.renameRefs_renameRefs (f f' : String → String) (r : Rule) :
    (r.renameRefs f).renameRefs f' = r.renameRefs (f' ∘ f) :=
  congrArg (Rule.mk r.name · r.location) (r.expression.renameRefs_renameRefs f f')

theorem Rule.renameRefs_eq_self {f : String → String} {r : Rule}
    (h : ∀ name, r.expression.RefersTo name → f name = name) : r.renameRefs f = r :=
  congrArg (Rule.mk r.name · r.location) (Expression.renameRefs_eq_self h)

@[simp] theorem Rule.name_renameRefs (f : String → String) (r : Rule) :
    (r.renameRefs f).name = r.name := rfl

/-- A proxy is a reference to another rule. -/
theorem Rule.proxyTarget?_eq_some_iff {r : Rule} {target : String} :
    r.proxyTarget? = some target ↔
      ∃ location, r.expression = .ref target location ∧ target ≠ r.name := by
  constructor
  · exact proxyTarget?_eq_some
  · rintro ⟨location, hexpression, hne⟩
    rw [proxyTarget?, hexpression]
    exact if_neg hne

theorem Expression.renameRefs_eq_ref_iff {f : String → String} {e : Expression} {name : String}
    {location : Location} :
    e.renameRefs f = .ref name location ↔ ∃ name₀, e = .ref name₀ location ∧ f name₀ = name := by
  cases e with
  | ref name₀ location₀ => simp [renameRefs, and_comm]
  | literal => simp [renameRefs]
  | charClass => simp [renameRefs]
  | any => simp [renameRefs]
  | seq => simp [renameRefs]
  | choice => simp [renameRefs]
  | named => simp [renameRefs]

/-- A rule is a proxy after a renaming if it refers to a rule whose new name is another. -/
theorem Rule.proxyTarget?_renameRefs_iff {f : String → String} {r : Rule} {target : String} :
    (r.renameRefs f).proxyTarget? = some target ↔
      ∃ target₀ location, r.expression = .ref target₀ location ∧ f target₀ = target ∧
        target ≠ r.name := by
  rw [proxyTarget?_eq_some_iff]
  show (∃ location, r.expression.renameRefs f = _ ∧ _) ↔ _
  simp only [Expression.renameRefs_eq_ref_iff]
  constructor
  · rintro ⟨location, ⟨target₀, hexpression, htarget⟩, hne⟩
    exact ⟨target₀, location, hexpression, htarget, hne⟩
  · rintro ⟨target₀, location, hexpression, htarget, hne⟩
    exact ⟨location, ⟨target₀, hexpression, htarget⟩, hne⟩

/-- A rule that is no proxy does not become one when the references to another rule are led on. -/
theorem Rule.proxyTarget?_redirect {f : String → String} {r : Rule} {proxy target : String}
    (hname : r.name ≠ proxy) (h : (r.renameRefs f).proxyTarget? = none) :
    (r.renameRefs (redirect proxy target ∘ f)).proxyTarget? = none := by
  refine Option.eq_none_iff_forall_ne_some.2 fun u hu => ?_
  obtain ⟨u₀, location, hexpression, hlead, hne⟩ := proxyTarget?_renameRefs_iff.1 hu
  have hself : f u₀ = r.name := by
    by_contra hself
    rw [proxyTarget?_renameRefs_iff.2 ⟨u₀, location, hexpression, rfl, hself⟩] at h
    cases h
  rw [Function.comp_apply, hself, redirect, if_neg hname] at hlead
  exact hne hlead.symm

/-- With different names a rule has one place only. -/
theorem index_eq {rules : List Rule} (hnames : (rules.map (·.name)).Nodup) {i j : Nat}
    {r s : Rule} (hr : rules[i]? = some r) (hs : rules[j]? = some s) (hsame : r.name = s.name) :
    i = j := by
  have hlt : i < (rules.map (·.name)).length := by
    rw [List.length_map]
    exact (List.getElem?_eq_some_iff.1 hr).1
  refine (List.getElem?_inj hlt hnames).1 ?_
  rw [List.getElem?_map, List.getElem?_map, hr, hs, Option.map_some, Option.map_some, hsame]

/-! ## Redirections -/

/-- What the visits of the first `n` rules have come to.  A reference to `name` is now one to
`lead name`, and `visited` are the rules that were proxies when they were visited. -/
structure Redirection (startRules : List String) (rules : List Rule) (n : Nat) (p : ProxyRemoval)
    (lead : String → String) (visited : List String) : Prop where
  /-- All references are led. -/
  rules_eq : p.rules = rules.map (Rule.renameRefs lead)
  /-- The visited proxies are removed, unless they are start rules. -/
  removed_eq : p.removed = visited.filter (· ∉ startRules)
  /-- A visited rule is a proxy, and led to where its target is led. -/
  follows : ∀ name ∈ visited, ∃ i r target, i < n ∧ rules[i]? = some r ∧ r.name = name ∧
    r.proxyTarget? = some target ∧ lead name = lead target
  /-- Somewhere there was a reference to the name to which a visited rule is led. -/
  referred : ∀ name ∈ visited, ∃ r ∈ rules, r.expression.RefersTo (lead name)
  /-- Other names are left alone. -/
  stays : ∀ name, name ∉ visited → lead name = name
  /-- No name is led to a visited proxy. -/
  settles : ∀ name, lead name ∉ visited
  /-- A rule that had its turn was visited as a proxy, or is none. -/
  passed : ∀ i r, i < n → rules[i]? = some r → r.name ∉ visited →
    (r.renameRefs lead).proxyTarget? = none

namespace Redirection

variable {startRules : List String} {rules : List Rule} {n : Nat} {p : ProxyRemoval}
  {lead : String → String} {visited : List String}

theorem refl (startRules : List String) (rules : List Rule) :
    Redirection startRules rules 0 ⟨rules, [], []⟩ id [] where
  rules_eq := by
    rw [List.map_congr_left (g := id), List.map_id]
    exact fun r _ => Rule.renameRefs_eq_self fun _ _ => rfl
  removed_eq := rfl
  follows _ h := nomatch h
  referred _ h := nomatch h
  stays _ _ := rfl
  settles _ h := nomatch h
  passed _ _ h := nomatch h

/-- The rule whose turn it is. -/
theorem getElem?_rules (h : Redirection startRules rules n p lead visited) (i : Nat) :
    p.rules[i]? = (rules[i]?).map (Rule.renameRefs lead) := by
  rw [h.rules_eq, List.getElem?_map]

/-- A visit that finds no proxy. -/
theorem visit_none (h : Redirection startRules rules n p lead visited)
    (hnone : ∀ r, rules[n]? = some r → (r.renameRefs lead).proxyTarget? = none) :
    Redirection startRules rules (n + 1) (p.visit startRules n) lead visited := by
  have hvisit : p.visit startRules n = p := by
    rw [ProxyRemoval.visit, h.getElem?_rules]
    cases hr : rules[n]? with
    | none => rfl
    | some r => simp only [Option.map_some, hnone r hr]
  rw [hvisit]
  refine ⟨h.rules_eq, h.removed_eq, ?_, h.referred, h.stays, h.settles, ?_⟩
  · intro name hname
    obtain ⟨i, r, target, hi, hrest⟩ := h.follows name hname
    exact ⟨i, r, target, Nat.lt_succ_of_lt hi, hrest⟩
  · intro i r hi hr hname
    rcases Nat.lt_succ_iff_lt_or_eq.1 hi with hi | rfl
    · exact h.passed i r hi hr hname
    · exact hnone r hr

/-- A rule whose turn has not come was not visited. -/
theorem not_mem_visited (h : Redirection startRules rules n p lead visited)
    (hnames : (rules.map (·.name)).Nodup) {r : Rule} (hr : rules[n]? = some r) :
    r.name ∉ visited := by
  intro hname
  obtain ⟨i, s, _, hi, hs, hsame, -⟩ := h.follows _ hname
  exact Nat.ne_of_lt hi (index_eq hnames hs hr hsame)

/-- A visit of a proxy leads the references to it on to its target, which is where the target that
it had in the beginning is led already. -/
theorem visit_some (h : Redirection startRules rules n p lead visited)
    (hnames : (rules.map (·.name)).Nodup) {r : Rule} {target : String} (hr : rules[n]? = some r)
    (htarget : (r.renameRefs lead).proxyTarget? = some target) :
    Redirection startRules rules (n + 1) (p.visit startRules n)
      (redirect r.name target ∘ lead) (visited ++ [r.name]) := by
  obtain ⟨target₀, location, hexpression, hlead, hne⟩ := Rule.proxyTarget?_renameRefs_iff.1 htarget
  have hnew : r.name ∉ visited := h.not_mem_visited hnames hr
  have hvisit : (p.visit startRules n).rules =
        p.rules.map (Rule.renameRefs (redirect r.name target)) ∧
      (p.visit startRules n).removed =
        if r.name ∈ startRules then p.removed else p.removed ++ [r.name] := by
    rw [ProxyRemoval.visit, h.getElem?_rules, hr, Option.map_some]
    dsimp only
    rw [htarget]
    exact ⟨rfl, rfl⟩
  have hreferred : ∃ s ∈ rules, s.expression.RefersTo target := by
    rw [← hlead]
    by_cases hold : target₀ ∈ visited
    · exact h.referred target₀ hold
    · exact ⟨r, List.mem_of_getElem? hr, by rw [h.stays target₀ hold, hexpression]; exact .ref⟩
  refine ⟨?_, ?_, ?_, ?_, ?_, ?_, ?_⟩
  · rw [hvisit.1, h.rules_eq, List.map_map]
    exact List.map_congr_left fun r _ => r.renameRefs_renameRefs _ _
  · rw [hvisit.2, h.removed_eq, List.filter_append]
    by_cases hstart : r.name ∈ startRules
    · simp [hstart]
    · simp [hstart]
  · intro name hname
    rcases List.mem_append.1 hname with hname | hname
    · obtain ⟨i, s, target', hi, hs, hsame, hproxy, hfollows⟩ := h.follows name hname
      exact ⟨i, s, target', Nat.lt_succ_of_lt hi, hs, hsame, hproxy,
        congrArg (redirect r.name target) hfollows⟩
    · obtain rfl := List.mem_singleton.1 hname
      have hproxy : target₀ ≠ r.name := by
        rintro rfl
        exact hne (hlead.symm.trans (h.stays _ hnew))
      refine ⟨n, r, target₀, Nat.lt_succ_self n, hr, rfl,
        Rule.proxyTarget?_eq_some_iff.2 ⟨location, hexpression, hproxy⟩, ?_⟩
      rw [Function.comp_apply, Function.comp_apply, h.stays _ hnew, hlead, redirect, redirect,
        if_pos rfl, if_neg hne]
  · intro name hname
    rw [Function.comp_apply, redirect]
    split
    · exact hreferred
    next hother =>
      rcases List.mem_append.1 hname with hname | hname
      · exact h.referred name hname
      · rw [List.mem_singleton.1 hname] at hother
        exact absurd (h.stays _ hnew) hother
  · intro name hname
    obtain ⟨hold, hother⟩ := not_or.1 (mt List.mem_append.2 hname)
    rw [Function.comp_apply, h.stays name hold, redirect, if_neg (mt List.mem_singleton.2 hother)]
  · intro name hmem
    rw [Function.comp_apply, redirect] at hmem
    split at hmem
    · rcases List.mem_append.1 hmem with hmem | hmem
      · exact h.settles target₀ (hlead ▸ hmem)
      · exact hne (List.mem_singleton.1 hmem)
    next hother =>
      rcases List.mem_append.1 hmem with hmem | hmem
      · exact h.settles name hmem
      · exact hother (List.mem_singleton.1 hmem)
  · intro i s hi hs hname
    obtain ⟨hold, hother⟩ := not_or.1 (mt List.mem_append.2 hname)
    have hdiffers : s.name ≠ r.name := mt List.mem_singleton.2 hother
    have hi : i < n := Nat.lt_of_le_of_ne (Nat.le_of_lt_succ hi) fun heq => by
      rw [heq, hr] at hs
      exact hdiffers (congrArg Rule.name (Option.some.inj hs)).symm
    exact Rule.proxyTarget?_redirect hdiffers (h.passed i s hi hs hold)

/-- The visits of all rules lead somewhere.  What holds at first and is kept by a visit that passes
a rule by, and by one that leads the references to a proxy on, holds in the end. -/
theorem exists_visitAll (startRules : List String) (hnames : (rules.map (·.name)).Nodup)
    {P : Nat → (String → String) → List String → Prop} (hinit : P 0 id [])
    (hnone : ∀ {n p lead visited}, Redirection startRules rules n p lead visited →
      P n lead visited → (∀ r, rules[n]? = some r → (r.renameRefs lead).proxyTarget? = none) →
      P (n + 1) lead visited)
    (hsome : ∀ {n p lead visited r target}, Redirection startRules rules n p lead visited →
      P n lead visited → rules[n]? = some r → (r.renameRefs lead).proxyTarget? = some target →
      P (n + 1) (redirect r.name target ∘ lead) (visited ++ [r.name])) :
    ∃ lead visited, Redirection startRules rules rules.length (.visitAll startRules rules) lead
      visited ∧ P rules.length lead visited := by
  have hrange : ∀ n, ∃ lead visited, Redirection startRules rules n
      ((List.range n).foldl (ProxyRemoval.visit startRules) ⟨rules, [], []⟩) lead visited ∧
        P n lead visited := by
    intro n
    induction n with
    | zero => exact ⟨id, [], .refl startRules rules, hinit⟩
    | succ n ih =>
        obtain ⟨lead, visited, h, hkept⟩ := ih
        rw [List.range_succ, List.foldl_append]
        by_cases hproxy : ∃ r target, rules[n]? = some r ∧
            (r.renameRefs lead).proxyTarget? = some target
        · obtain ⟨r, target, hr, htarget⟩ := hproxy
          exact ⟨_, _, h.visit_some hnames hr htarget, hsome h hkept hr htarget⟩
        · have hpassed : ∀ r, rules[n]? = some r → (r.renameRefs lead).proxyTarget? = none :=
            fun r hr => Option.eq_none_iff_forall_ne_some.2 fun target htarget =>
              hproxy ⟨r, target, hr, htarget⟩
          exact ⟨lead, visited, h.visit_none hpassed, hnone h hkept hpassed⟩
  exact hrange rules.length

end Redirection

/-! ## Grammars without proxies -/

namespace Grammar

variable {g : Grammar} {startRules : List String}

/-- The proxies of the grammar are start rules, and nothing refers to them. -/
def ProxiesApart (startRules : List String) (g : Grammar) : Prop :=
  ∀ r ∈ g.rules, ∀ target, r.proxyTarget? = some target →
    r.name ∈ startRules ∧ ¬ g.RefersTo r.name

/-- Where the references of a grammar are led when its proxies are removed. -/
abbrev Led (startRules : List String) (g : Grammar) (lead : String → String)
    (visited : List String) : Prop :=
  Redirection startRules g.rules g.rules.length (.visitAll startRules g.rules) lead visited

theorem exists_led (startRules : List String) (hnames : g.ruleNames.Nodup) :
    ∃ lead visited, g.Led startRules lead visited := by
  obtain ⟨lead, visited, h, -⟩ := Redirection.exists_visitAll startRules hnames
    (P := fun _ _ _ => True) trivial (fun _ _ _ => trivial) (fun _ _ _ _ => trivial)
  exact ⟨lead, visited, h⟩

namespace Led

variable {lead : String → String} {visited : List String}

/-- A rule is kept unless it is a visited proxy and no start rule. -/
theorem mem_rules_iff (h : g.Led startRules lead visited) {r : Rule} :
    r ∈ (g.withoutProxies startRules).rules ↔
      ∃ r₀ ∈ g.rules, r₀.renameRefs lead = r ∧ (r₀.name ∉ visited ∨ r₀.name ∈ startRules) := by
  show r ∈ List.filter _ (ProxyRemoval.visitAll startRules g.rules).rules ↔ _
  rw [h.removed_eq, h.rules_eq, List.mem_filter, List.mem_map]
  constructor
  · rintro ⟨⟨r₀, hr₀, rfl⟩, hkept⟩
    exact ⟨r₀, hr₀, rfl, by simpa using hkept⟩
  · rintro ⟨r₀, hr₀, rfl, hkept⟩
    exact ⟨⟨r₀, hr₀, rfl⟩, by simpa using hkept⟩

theorem ruleNames_withoutProxies (h : g.Led startRules lead visited) :
    (g.withoutProxies startRules).ruleNames =
      g.ruleNames.filter fun name => name ∉ visited ∨ name ∈ startRules := by
  show (List.filter _ (ProxyRemoval.visitAll startRules g.rules).rules).map _ = _
  rw [h.removed_eq, h.rules_eq, ruleNames, List.filter_map, List.map_map, List.filter_map]
  refine congrArg (List.map Rule.name) (List.filter_congr fun r _ => ?_)
  refine decide_eq_decide.2 ?_
  show r.name ∉ visited.filter (· ∉ startRules) ↔ _
  rw [List.mem_filter]
  simp [Classical.or_iff_not_imp_left]

/-- What is referred to was not visited. -/
theorem refersTo_withoutProxies (h : g.Led startRules lead visited) {name : String}
    (hname : (g.withoutProxies startRules).RefersTo name) :
    name ∉ visited ∧ ∃ name₀, g.RefersTo name₀ ∧ lead name₀ = name := by
  obtain ⟨r, hr, hrefers⟩ := hname
  obtain ⟨r₀, hr₀, rfl, -⟩ := h.mem_rules_iff.1 hr
  obtain ⟨name₀, hname₀, rfl⟩ := Expression.refersTo_renameRefs_iff.1 hrefers
  exact ⟨h.settles name₀, name₀, ⟨r₀, hr₀, hname₀⟩, rfl⟩

/-- A rule that is kept has its name and is a rule of the grammar. -/
theorem mem_ruleNames_iff (h : g.Led startRules lead visited) {name : String} :
    name ∈ (g.withoutProxies startRules).ruleNames ↔
      name ∈ g.ruleNames ∧ (name ∉ visited ∨ name ∈ startRules) := by
  rw [h.ruleNames_withoutProxies, List.mem_filter, decide_eq_true_eq]

/-- A rule that is kept is found as before, with its references led. -/
theorem rule?_withoutProxies (h : g.Led startRules lead visited) {name : String}
    (hname : name ∉ visited ∨ name ∈ startRules) :
    (g.withoutProxies startRules).rule? name = (g.rule? name).map (Rule.renameRefs lead) := by
  have hkept : name ∉ (ProxyRemoval.visitAll startRules g.rules).removed := by
    rw [h.removed_eq, List.mem_filter, decide_eq_true_eq]
    exact fun hremoved => hname.elim (· hremoved.1) hremoved.2
  show ({ g with rules := _ } : Grammar).rule? name = _
  rw [rule?_kept g _ hkept, h.rules_eq]
  exact g.rule?_renameRefs lead name

/-- A visited rule is a proxy and led to where its target is. -/
theorem exists_of_mem_visited (h : g.Led startRules lead visited) (hnames : g.ruleNames.Nodup)
    {r : Rule} (hr : r ∈ g.rules) (hvisited : r.name ∈ visited) :
    ∃ target, r.proxyTarget? = some target ∧ lead r.name = lead target := by
  obtain ⟨i, r', target, -, hr', hname, htarget, hlead⟩ := h.follows r.name hvisited
  obtain rfl := eq_of_name hnames (List.mem_of_getElem? hr') hr hname
  exact ⟨target, htarget, hlead⟩

/-- A rule that was not visited is no proxy in the end. -/
theorem proxyTarget?_of_not_mem_visited (h : g.Led startRules lead visited) {r : Rule}
    (hr : r ∈ g.rules) (hvisited : r.name ∉ visited) :
    (r.renameRefs lead).proxyTarget? = none := by
  obtain ⟨i, hi, hget⟩ := List.getElem_of_mem hr
  exact h.passed i r hi (List.getElem?_eq_some_iff.2 ⟨hi, hget⟩) hvisited

/-- A proxy is led to where its target is, also if it was not visited as one: then its target is
led back to it. -/
theorem lead_eq_of_proxyTarget? (h : g.Led startRules lead visited) (hnames : g.ruleNames.Nodup)
    {r : Rule} (hr : r ∈ g.rules) {target : String} (htarget : r.proxyTarget? = some target) :
    lead r.name = lead target := by
  by_cases hvisited : r.name ∈ visited
  · obtain ⟨target', htarget', hlead⟩ := h.exists_of_mem_visited hnames hr hvisited
    rw [htarget] at htarget'
    cases htarget'
    exact hlead
  · obtain ⟨location, hexpression, -⟩ := Rule.proxyTarget?_eq_some_iff.1 htarget
    have hnone := h.proxyTarget?_of_not_mem_visited hr hvisited
    rw [h.stays r.name hvisited]
    by_contra hother
    rw [Rule.proxyTarget?_renameRefs_iff.2
      ⟨target, location, hexpression, rfl, fun heq => hother heq.symm⟩] at hnone
    cases hnone

/-- In a grammar without undefined references no reference is led to one. -/
theorem mem_ruleNames_lead (h : g.Led startRules lead visited)
    (hrefs : ∀ name, g.RefersTo name → name ∈ g.ruleNames) {name : String}
    (hname : name ∈ g.ruleNames) : lead name ∈ g.ruleNames := by
  by_cases hvisited : name ∈ visited
  · exact hrefs _ (h.referred name hvisited)
  · rw [h.stays name hvisited]
    exact hname

end Led

/-- What is left of the proxies are start rules that nothing refers to. -/
theorem proxiesApart_withoutProxies (startRules : List String) (hnames : g.ruleNames.Nodup) :
    (g.withoutProxies startRules).ProxiesApart startRules := by
  obtain ⟨lead, visited, h⟩ := exists_led startRules hnames
  intro r hr target htarget
  obtain ⟨r₀, hr₀, rfl, hkept⟩ := h.mem_rules_iff.1 hr
  have hvisited : r₀.name ∈ visited := by
    by_contra hnot
    rw [h.proxyTarget?_of_not_mem_visited hr₀ hnot] at htarget
    cases htarget
  refine ⟨hkept.resolve_left fun hnot => hnot hvisited, fun hrefers => ?_⟩
  exact (h.refersTo_withoutProxies hrefers).1 hvisited

end Grammar

namespace ProxyRemoval

/-- A visit does nothing to rules whose proxies are start rules that nothing refers to. -/
theorem visit_of_proxiesApart {startRules : List String} {g : Grammar}
    (h : g.ProxiesApart startRules) {p : ProxyRemoval} (hrules : p.rules = g.rules) (i : Nat) :
    (p.visit startRules i).rules = g.rules ∧ (p.visit startRules i).removed = p.removed := by
  rw [← hrules]
  rcases visit_cases startRules p i with heq | ⟨r, target, location, hr, hexpression, hne, hmap,
    hremoved⟩
  · rw [heq]
    exact ⟨rfl, rfl⟩
  rw [hrules] at hr
  obtain ⟨hstart, hrefers⟩ :=
    h r hr target (Rule.proxyTarget?_eq_some_iff.2 ⟨location, hexpression, hne⟩)
  rw [hmap, hremoved, if_pos hstart]
  refine ⟨?_, rfl⟩
  rw [List.map_congr_left (g := id), List.map_id]
  intro s hs
  refine Rule.renameRefs_eq_self fun name hname => ?_
  rw [redirect, if_neg]
  rintro rfl
  exact hrefers ⟨s, hrules ▸ hs, hname⟩

end ProxyRemoval

namespace Grammar

variable {g : Grammar} {startRules : List String}

/-- Nothing is removed from a grammar whose proxies are start rules that nothing refers to. -/
theorem withoutProxies_of_proxiesApart (h : g.ProxiesApart startRules) :
    g.withoutProxies startRules = g := by
  have hfold : ∀ (l : List Nat) (p : ProxyRemoval), p.rules = g.rules → p.removed = [] →
      (l.foldl (ProxyRemoval.visit startRules) p).kept = g.rules := by
    intro l
    induction l with
    | nil =>
        intro p hrules hremoved
        rw [List.foldl_nil, ProxyRemoval.kept, hremoved, hrules]
        simp
    | cons i l ih =>
        intro p hrules hremoved
        obtain ⟨hrules', hremoved'⟩ := ProxyRemoval.visit_of_proxiesApart h hrules i
        exact ih _ hrules' (hremoved'.trans hremoved)
  show ({ g with rules := _ } : Grammar) = g
  rw [ProxyRemoval.visitAll, hfold _ _ rfl rfl]

/-- A grammar stays well formed when its proxies are removed. -/
theorem WellFormed.withoutProxies (hg : g.WellFormed) (startRules : List String) :
    (g.withoutProxies startRules).WellFormed := by
  obtain ⟨lead, visited, h⟩ := exists_led startRules hg.names_nodup
  refine ⟨?_, fun name hname => ?_⟩
  · rw [h.ruleNames_withoutProxies]
    exact hg.names_nodup.filter _
  · obtain ⟨hvisited, name₀, hname₀, rfl⟩ := h.refersTo_withoutProxies hname
    exact h.mem_ruleNames_iff.2
      ⟨h.mem_ruleNames_lead hg.refs_defined (hg.refs_defined name₀ hname₀), .inl hvisited⟩

end Grammar

end PegGen
