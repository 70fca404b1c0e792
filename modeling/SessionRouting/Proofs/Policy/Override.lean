/-
What the layers of a policy come to, in terms of the settings. Of the layers that apply to a user the last one that
sets a strategy decides on the strategy, and the last one that has something for the target on the candidates: its
entry for the target if it has one, and else its `default`. Of several keys of a layer for one address the last one
stands. `plan_overrides` says so for every compiled policy, and that nothing else of the settings matters.
-/
import SessionRouting.Proofs.Policy.Compile

namespace SessionRouting

/-! ## The last one that has a say -/

section Last

variable {α β : Type}

/-- A fold in which each member replaces the value, if it has one, ends with that of the last member that has. -/
theorem foldl_getD_cases (f : α → Option β) (l : List α) (b : β) :
    ((∀ a ∈ l, f a = none) ∧ l.foldl (fun b a => (f a).getD b) b = b) ∨
    ∃ pre a post, l = pre ++ a :: post ∧ f a = some (l.foldl (fun b a => (f a).getD b) b) ∧
      ∀ a' ∈ post, f a' = none := by
  induction l using List.reverseRecOn with
  | nil => exact .inl ⟨fun a ha => absurd ha List.not_mem_nil, rfl⟩
  | append_singleton l a ih =>
    rw [List.foldl_append, List.foldl_cons, List.foldl_nil]
    cases ha : f a with
    | some c => exact .inr ⟨l, a, [], rfl, ha, fun a' ha' => absurd ha' List.not_mem_nil⟩
    | none =>
      have hone : ∀ a' ∈ [a], f a' = none := fun a' ha' => List.mem_singleton.1 ha' ▸ ha
      rcases ih with ⟨hnone, heq⟩ | ⟨pre, a', post, hl, hsome, hpost⟩
      · exact .inl ⟨List.forall_mem_append.2 ⟨hnone, hone⟩, heq⟩
      · refine .inr ⟨pre, a', post ++ [a], ?_, hsome, List.forall_mem_append.2 ⟨hpost, hone⟩⟩
        rw [hl, List.append_assoc, List.cons_append]

/-- What comes after a member in the order of a list is behind it in the list. -/
theorem mem_behind {R : α → α → Prop} (hR : ∀ a b, R a b → ¬ R b a) {pre post : List α} {a b : α}
    (hl : (pre ++ a :: post).Pairwise R) (hb : b ∈ pre ++ a :: post) (hab : R a b) : b ∈ post := by
  obtain ⟨-, -, hacross⟩ := List.pairwise_append.1 hl
  rcases List.mem_append.1 hb with hb | hb
  · exact absurd hab (hR b a (hacross b hb a (List.mem_cons_self ..)))
  · rcases List.mem_cons.1 hb with rfl | hb
    · exact absurd hab (hR b b hab)
    · exact hb

/-- Where one of two related lists splits, the other one does as well. -/
theorem exists_split_of_forall₂ {R : α → β → Prop} {l : List α} {pre post : List β} {b : β}
    (h : List.Forall₂ R l (pre ++ b :: post)) :
    ∃ pre' a post', l = pre' ++ a :: post' ∧ R a b ∧ List.Forall₂ R post' post := by
  obtain ⟨a, post', hab, hpost, heq⟩ := List.forall₂_cons_right_iff.1 (List.forall₂_drop_append l pre (b :: post) h)
  exact ⟨l.take pre.length, a, post', by rw [← heq, List.take_append_drop], hab, hpost⟩

end Last

namespace Table

variable {β : Type}

/-- Of the rows for a key the last one stands. -/
theorem getElem?_rows (rows : List (String × β)) (t : Table β) (k : String) :
    (rows.foldl (fun t row => t.insert row.1 row.2) t)[k]? =
      rows.foldl (fun v row => (if row.1 = k then some (some row.2) else none).getD v) t[k]? := by
  induction rows generalizing t with
  | nil => rfl
  | cons row rows ih =>
    rw [List.foldl_cons, List.foldl_cons, ih, Std.ExtTreeMap.getElem?_insert]
    congr 1
    by_cases hk : row.1 = k <;> simp [hk]

end Table

/-! ## Entries of a layer -/

namespace Policy

/-- A layer has these destinations under the last key of all that it has for a canonical key. -/
structure IsLastKey (destinations? : String → Option (List String)) (k key : String) (texts : List String) : Prop where
  found : destinations? key = some texts
  canonical : Layer.compileKey key = .ok k
  last : ∀ later, (destinations? later).isSome → key < later → Layer.compileKey later ≠ .ok k

/-- There is at most one last key. -/
theorem IsLastKey.unique {destinations? : String → Option (List String)} {k key key' : String}
    {texts texts' : List String} (h : IsLastKey destinations? k key texts)
    (h' : IsLastKey destinations? k key' texts') : texts = texts' := by
  rcases Std.lt_trichotomy key key' with hlt | rfl | hlt
  · exact absurd h'.canonical (h.last key' (by simp [h'.found]) hlt)
  · exact Option.some.inj (h.found.symm.trans h'.found)
  · exact absurd h.canonical (h'.last key (by simp [h.found]) hlt)

namespace Layer

/-- A compiled layer has for a canonical key what the last configured key for it has, in canonical texts. -/
theorem route_of_compile {strategy : Option Strategy} {routes : Routes} {l : Layer}
    (h : compile strategy routes = .ok l) (k : String) :
    (l.routes[k]? = none ∧ ∀ key, routes[key]?.isSome → compileKey key ≠ .ok k) ∨
    ∃ key texts ds, l.routes[k]? = some ds ∧ IsLastKey (routes[·]?) k key texts ∧
      List.Forall₂ (fun text d => Address.normalize text = .ok d) texts ds := by
  unfold compile at h
  obtain ⟨rows, hrows, h⟩ := exists_of_bind_eq_ok h
  cases h
  have hforall := forall₂_of_mapM hrows
  have hmem : ∀ {key : String}, routes[key]?.isSome → ∃ texts, (key, texts) ∈ routes.toList := by
    intro key hkey
    obtain ⟨texts, htexts⟩ := Option.isSome_iff_exists.1 hkey
    exact ⟨texts, Std.ExtTreeMap.mem_toList_iff_getElem?_eq_some.2 htexts⟩
  have hrow : ∀ row : String × List String,
      (if row.1 = k then some (some row.2) else none) = none ↔ row.1 ≠ k := by
    intro row
    simp
  simp only [Table.getElem?_rows, Std.ExtTreeMap.getElem?_empty]
  rcases foldl_getD_cases (fun row : String × List String => if row.1 = k then some (some row.2) else none)
    rows none with ⟨hnone, heq⟩ | ⟨pre, row, post, rfl, hsome, hpost⟩
  · refine .inl ⟨heq, fun key hkey hk => ?_⟩
    obtain ⟨texts, htexts⟩ := hmem hkey
    obtain ⟨row, hin, hc⟩ := mem_of_forall₂_left hforall htexts
    exact (hrow row).1 (hnone row hin) (Except.ok.inj ((compileRoute_ok hc).1.symm.trans hk))
  · obtain ⟨pre', ⟨key, texts⟩, post', hsplit, hc, hbehind⟩ := exists_split_of_forall₂ hforall
    obtain ⟨hkey, hds⟩ := compileRoute_ok hc
    split at hsome
    · rename_i hk
      refine .inr ⟨key, texts, row.2, (Option.some.inj hsome).symm,
        ⟨?_, hk ▸ hkey, fun later hlater hlt hk' => ?_⟩, hds⟩
      · exact Std.ExtTreeMap.mem_toList_iff_getElem?_eq_some.1 (by rw [hsplit]; simp)
      · -- a later key is behind this one, where no row has the canonical key
        obtain ⟨texts', hlater⟩ := hmem hlater
        have hsorted : routes.toList.Pairwise (·.1 < ·.1) :=
          (Std.ExtTreeMap.ordered_keys_toList (t := routes)).imp fun h => compareOfLessAndEq_eq_lt.1 h
        rw [hsplit] at hsorted hlater
        have hin := mem_behind (fun a b => String.lt_asymm) hsorted hlater hlt
        obtain ⟨row', hrow', hc'⟩ := mem_of_forall₂_left hbehind hin
        exact (hrow row').1 (hpost row' hrow') (Except.ok.inj ((compileRoute_ok hc').1.symm.trans hk'))
    · cases hsome

end Layer

end Policy

/-! ## Layers in order -/

namespace Settings.LayerName

/-- The layer has its say before the other one: the global layer before those of groups, these in the order of their
names, and the layers of users after all of them. -/
def Precedes : LayerName → LayerName → Prop
  | policy, group _ | policy, user _ | group _, user _ => True
  | group a, group b => a < b
  | _, _ => False

theorem Precedes.asymm (a b : LayerName) (h : a.Precedes b) : ¬ b.Precedes a := by
  cases a <;> cases b
  case group.group => exact String.lt_asymm h
  all_goals simp_all [Precedes]

/-- The last layer that applies to a user and has something. -/
structure IsLast (user : String) (groups : Names) (Has : LayerName → Prop) (name : LayerName) : Prop where
  applies : name.AppliesTo user groups
  has : Has name
  last : ∀ later : LayerName, later.AppliesTo user groups → name.Precedes later → ¬ Has later

/-- The layers that apply to a user, in order. -/
def applicable (user : String) (groups : Names) : List LayerName :=
  policy :: groups.toList.map group ++ [LayerName.user user]

theorem mem_applicable {user : String} {groups : Names} {name : LayerName} :
    name ∈ applicable user groups ↔ name.AppliesTo user groups := by
  cases name <;> simp [applicable, AppliesTo]

theorem pairwise_applicable (user : String) (groups : Names) : (applicable user groups).Pairwise Precedes := by
  have hgroups : (groups.toList.map group).Pairwise Precedes :=
    List.pairwise_map.2 ((Std.ExtTreeSet.ordered_toList (t := groups)).imp fun h => compareOfLessAndEq_eq_lt.1 h)
  unfold applicable
  rw [List.pairwise_append]
  refine ⟨List.pairwise_cons.2 ⟨?_, hgroups⟩, List.pairwise_singleton .., ?_⟩
  · intro name hname
    obtain ⟨g, -, rfl⟩ := List.mem_map.1 hname
    trivial
  · intro name hname later hlater
    obtain rfl := List.mem_singleton.1 hlater
    rcases List.mem_cons.1 hname with rfl | hname
    · trivial
    · obtain ⟨g, -, rfl⟩ := List.mem_map.1 hname
      trivial

/-- A fold over the layers that apply ends with what the last one has that has anything. -/
theorem foldl_applicable {β : Type} (user : String) (groups : Names) (f : LayerName → Option β) (b : β) :
    ((∀ name : LayerName, name.AppliesTo user groups → f name = none) ∧
      (applicable user groups).foldl (fun b name => (f name).getD b) b = b) ∨
    ∃ name, IsLast user groups (fun name => (f name).isSome) name ∧
      f name = some ((applicable user groups).foldl (fun b name => (f name).getD b) b) := by
  have hsorted := pairwise_applicable user groups
  rcases foldl_getD_cases f (applicable user groups) b with ⟨hnone, heq⟩ | ⟨pre, name, post, hl, hsome, hpost⟩
  · exact .inl ⟨fun name happlies => hnone name (mem_applicable.2 happlies), heq⟩
  · have hname : name ∈ applicable user groups := by rw [hl]; simp
    refine .inr ⟨name, ⟨mem_applicable.1 hname, by rw [hsome]; rfl, fun later happlies hprecedes hhas => ?_⟩, hsome⟩
    rw [hl] at hsorted
    have hbehind := mem_behind Precedes.asymm hsorted (hl ▸ mem_applicable.2 happlies) hprecedes
    rw [hpost later hbehind] at hhas
    cases hhas

end Settings.LayerName

open Settings

/-! ## Plans -/

namespace Policy

/-- The strategy that a layer sets. -/
def strategy? (p : Policy) (name : LayerName) : Option Strategy := (p.layer? name).bind (·.strategy)

/-- What a layer has for a canonical key. -/
def entry? (p : Policy) (k : String) (name : LayerName) : Option (List String) := (p.layer? name).bind (·.routes[k]?)

/-- What a layer has for a target. -/
def lookup? (p : Policy) (target : String) (name : LayerName) : Option (List String) :=
  (p.entry? target name).or (p.entry? defaultRoute name)

theorem layersFor_eq (p : Policy) (user : String) (groups : Names) :
    p.layersFor user groups = (LayerName.applicable user groups).filterMap p.layer? := by
  have hglobal : p.layer? .policy = some p.global := rfl
  have huser : [LayerName.user user].filterMap p.layer? = p.users[user]?.toList := by
    have hlayer : p.layer? (.user user) = p.users[user]? := rfl
    cases hl : p.users[user]? with
    | none => rw [List.filterMap_cons_none (hlayer.trans hl)]; rfl
    | some l => rw [List.filterMap_cons_some (hlayer.trans hl)]; rfl
  unfold layersFor LayerName.applicable
  rw [List.filterMap_append, List.filterMap_cons_some hglobal, List.filterMap_map, huser]
  rfl

theorem foldl_override (p : Policy) (target : String) (names : List LayerName) (q : Plan) :
    (names.filterMap p.layer?).foldl (Plan.override target) q =
      { strategy := names.foldl (fun b name => (p.strategy? name).getD b) q.strategy
        candidates := names.foldl (fun b name => (p.lookup? target name).getD b) q.candidates } := by
  induction names generalizing q with
  | nil => rfl
  | cons name names ih =>
    cases hl : p.layer? name with
    | none =>
      rw [List.filterMap_cons_none hl, ih]
      simp [strategy?, lookup?, entry?, hl]
    | some l =>
      rw [List.filterMap_cons_some hl, List.foldl_cons, ih]
      simp [strategy?, lookup?, entry?, hl, Plan.override, Layer.lookup]

/-- A plan goes through the layers that apply, and each of them replaces what it has anything for. -/
theorem plan_eq (p : Policy) (user target : String) (groups : Names) :
    p.plan user target groups =
      { strategy := (LayerName.applicable user groups).foldl (fun b name => (p.strategy? name).getD b) .ordered
        candidates := (LayerName.applicable user groups).foldl (fun b name => (p.lookup? target name).getD b) [] } := by
  unfold plan
  rw [layersFor_eq, foldl_override]

end Policy

/-! ## What layers of settings have -/

namespace Settings

/-- The strategy that a layer sets. -/
def strategy? (s : Settings) (name : LayerName) : Option Strategy := (s.layer? name).bind (·.strategy)

/-- A route key stands for an address, which `default` does not. -/
def Writes (key address : String) : Prop := key ≠ Policy.defaultRoute ∧ Address.normalize key = .ok address

/-- A layer has these destinations for an address: those under the last key for it, in code-point order. -/
def HasEntry (s : Settings) (name : LayerName) (address : String) (texts : List String) : Prop :=
  ∃ key, s.destinations? name key = some texts ∧ Writes key address ∧
    ∀ later, (s.destinations? name later).isSome → key < later → ¬ Writes later address

/-- A layer has these destinations for a target: its entry for it, or else what it has under `default`. -/
def Offers (s : Settings) (name : LayerName) (target : String) (texts : List String) : Prop :=
  s.HasEntry name target texts ∨
  ((∀ key, (s.destinations? name key).isSome → ¬ Writes key target) ∧
    s.destinations? name Policy.defaultRoute = some texts)

theorem compileKey_eq_address {key k : String} (hk : k ≠ Policy.defaultRoute) :
    Policy.Layer.compileKey key = .ok k ↔ Writes key k := by
  unfold Policy.Layer.compileKey Writes
  split
  · rename_i hkey
    exact ⟨fun h => absurd (Except.ok.inj h).symm (hkey ▸ hk), fun h => absurd hkey h.1⟩
  · rename_i hkey
    exact ⟨fun h => ⟨hkey, h⟩, fun h => h.2⟩

theorem compileKey_eq_default {key : String} :
    Policy.Layer.compileKey key = .ok Policy.defaultRoute ↔ key = Policy.defaultRoute := by
  constructor
  · intro h
    rcases Policy.Layer.compileKey_eq_ok h with ⟨hkey, -⟩ | hnorm
    · exact hkey
    · exact absurd rfl (Policy.Layer.ne_defaultRoute_of_normalize hnorm)
  · rintro rfl
    exact if_pos rfl

variable {s s' : Settings} {p p' : Policy}

/-- Compiling keeps the strategies. -/
theorem strategy?_of_compilePolicy (h : s.compilePolicy = .ok p) (name : LayerName) :
    p.strategy? name = s.strategy? name := by
  have hcompiled := compiled_of_compilePolicy h name
  unfold Policy.strategy? strategy?
  generalize s.layer? name = c, p.layer? name = l at hcompiled ⊢
  cases hcompiled with
  | none => rfl
  | some hcompile => exact (Policy.Layer.of_compile hcompile).strategy

/-- A compiled policy has for a canonical key what the last key of that layer of the settings has. -/
theorem entry?_of_compilePolicy (h : s.compilePolicy = .ok p) (name : LayerName) (k : String) :
    (p.entry? k name = none ∧
      ∀ key, (s.destinations? name key).isSome → Policy.Layer.compileKey key ≠ .ok k) ∨
    ∃ key texts ds, p.entry? k name = some ds ∧ Policy.IsLastKey (s.destinations? name) k key texts ∧
      List.Forall₂ (fun text d => Address.normalize text = .ok d) texts ds := by
  have hcompiled := compiled_of_compilePolicy h name
  unfold Policy.entry? destinations?
  generalize s.layer? name = c, p.layer? name = l at hcompiled ⊢
  cases hcompiled with
  | none => exact .inl ⟨rfl, fun key hkey => absurd hkey (by simp)⟩
  | some hcompile => exact Policy.Layer.route_of_compile hcompile k

/-- What a compiled policy has for a target is what the layer of the settings offers, in canonical texts. -/
theorem lookup?_of_compilePolicy (h : s.compilePolicy = .ok p) {target : String} (ht : target ≠ Policy.defaultRoute)
    (name : LayerName) :
    (p.lookup? target name = none ∧ ∀ texts, ¬ s.Offers name target texts) ∨
    ∃ texts ds, p.lookup? target name = some ds ∧ s.Offers name target texts ∧
      List.Forall₂ (fun text d => Address.normalize text = .ok d) texts ds := by
  unfold Policy.lookup?
  rcases entry?_of_compilePolicy h name target with ⟨hnone, hno⟩ | ⟨key, texts, ds, hsome, hlast, hds⟩
  · have hwrites : ∀ key, (s.destinations? name key).isSome → ¬ Writes key target :=
      fun key hkey hw => hno key hkey ((compileKey_eq_address ht).2 hw)
    rw [hnone, Option.none_or]
    rcases entry?_of_compilePolicy h name Policy.defaultRoute with ⟨hnone', hno'⟩ | ⟨key, texts, ds, hsome, hlast, hds⟩
    · refine .inl ⟨hnone', ?_⟩
      rintro texts (⟨key, hfound, hw, -⟩ | ⟨-, hdefault⟩)
      · exact hwrites key (by simp [hfound]) hw
      · exact hno' _ (by simp [hdefault]) (compileKey_eq_default.2 rfl)
    · obtain rfl := compileKey_eq_default.1 hlast.canonical
      exact .inr ⟨texts, ds, hsome, .inr ⟨hwrites, hlast.found⟩, hds⟩
  · rw [hsome, Option.some_or]
    refine .inr ⟨texts, ds, rfl, .inl ⟨key, hlast.found, (compileKey_eq_address ht).1 hlast.canonical, ?_⟩, hds⟩
    exact fun later hlater hlt hw => hlast.last later hlater hlt ((compileKey_eq_address ht).2 hw)

/-- What a compiled policy has for a canonical key depends on nothing but the keys for it. -/
theorem entry?_congr (h : s.compilePolicy = .ok p) (h' : s'.compilePolicy = .ok p') {name : LayerName} {k : String}
    (hk : ∀ key, Policy.Layer.compileKey key = .ok k → s'.destinations? name key = s.destinations? name key) :
    p'.entry? k name = p.entry? k name := by
  have hunique : Relator.RightUnique
      (List.Forall₂ fun text d : String => Address.normalize text = .ok d) :=
    Relator.RightUnique.forall₂ fun text d d' hd hd' => Except.ok.inj (hd.symm.trans hd')
  rcases entry?_of_compilePolicy h name k with ⟨hnone, hno⟩ | ⟨key, texts, ds, hsome, hlast, hds⟩
  · rcases entry?_of_compilePolicy h' name k with ⟨hnone', -⟩ | ⟨key, texts, ds, -, hlast, -⟩
    · rw [hnone, hnone']
    · refine absurd hlast.canonical (hno key ?_)
      rw [← hk key hlast.canonical, hlast.found]
      rfl
  · rcases entry?_of_compilePolicy h' name k with ⟨-, hno'⟩ | ⟨key', texts', ds', hsome', hlast', hds'⟩
    · refine absurd hlast.canonical (hno' key ?_)
      rw [hk key hlast.canonical, hlast.found]
      rfl
    · -- the last key of the one is the last key of the other, and texts have one canonical form
      have hsame : Policy.IsLastKey (s.destinations? name) k key' texts' := by
        refine ⟨hk key' hlast'.canonical ▸ hlast'.found, hlast'.canonical, fun later hlater hlt hc => ?_⟩
        exact hlast'.last later (hk later hc ▸ hlater) hlt hc
      obtain rfl := hlast.unique hsame
      rw [hsome, hsome', hunique hds hds']

/-! ## Effective plans -/

/-- The strategy is that of the last layer that sets one. -/
theorem strategy_plan_eq (h : s.compilePolicy = .ok p) (user target : String) (groups : Names) :
    ∃ name, LayerName.IsLast user groups (fun name => (s.strategy? name).isSome) name ∧
      s.strategy? name = some (p.plan user target groups).strategy := by
  rw [p.plan_eq, ← funext (strategy?_of_compilePolicy h)]
  rcases LayerName.foldl_applicable user groups p.strategy? .ordered with ⟨hnone, -⟩ | hlast
  · -- the global layer always sets one
    have hglobal := hnone .policy trivial
    rw [strategy?_of_compilePolicy h] at hglobal
    cases hglobal
  · exact hlast

/-- The candidates are what the last layer offers that offers anything. -/
theorem candidates_plan_eq (h : s.compilePolicy = .ok p) {target : String} (ht : target ≠ Policy.defaultRoute)
    (user : String) (groups : Names) :
    (∃ name texts, LayerName.IsLast user groups (fun name => ∃ texts, s.Offers name target texts) name ∧
      s.Offers name target texts ∧
      List.Forall₂ (fun text d => Address.normalize text = .ok d) texts (p.plan user target groups).candidates) ∨
    (p.plan user target groups).candidates = [] ∧
      ∀ name : LayerName, name.AppliesTo user groups → ∀ texts, ¬ s.Offers name target texts := by
  have hoffers : ∀ name, (p.lookup? target name).isSome = true ↔ ∃ texts, s.Offers name target texts := by
    intro name
    rcases lookup?_of_compilePolicy h ht name with ⟨hnone, hno⟩ | ⟨texts, ds, hsome, hoffer, -⟩
    · simp [hnone, hno]
    · simp only [hsome, Option.isSome_some, true_iff]
      exact ⟨texts, hoffer⟩
  rw [p.plan_eq]
  rcases LayerName.foldl_applicable user groups (p.lookup? target) [] with ⟨hnone, heq⟩ | ⟨name, hlast, hsome⟩
  · refine .inr ⟨heq, fun name happlies texts hoffer => ?_⟩
    have hhas := (hoffers name).2 ⟨texts, hoffer⟩
    rw [hnone name happlies] at hhas
    cases hhas
  · simp only [hoffers] at hlast
    rcases lookup?_of_compilePolicy h ht name with ⟨hnone, -⟩ | ⟨texts, ds, hsome', hoffer, hds⟩
    · rw [hnone] at hsome
      cases hsome
    · obtain rfl := Option.some.inj (hsome'.symm.trans hsome)
      exact .inl ⟨name, texts, hlast, hoffer, hds⟩

/-- A plan depends on nothing but the layers that apply, and of these on the strategies, on what they have under
`default`, and on the keys for the target. -/
theorem plan_congr (h : s.compilePolicy = .ok p) (h' : s'.compilePolicy = .ok p') {target : String}
    (ht : target ≠ Policy.defaultRoute) {user : String} {groups : Names}
    (hsame : ∀ name : LayerName, name.AppliesTo user groups → s'.strategy? name = s.strategy? name ∧
      ∀ key, (key = Policy.defaultRoute ∨ Writes key target) → s'.destinations? name key = s.destinations? name key) :
    p'.plan user target groups = p.plan user target groups := by
  have hstrategy : ∀ name ∈ LayerName.applicable user groups, p'.strategy? name = p.strategy? name := by
    intro name hname
    rw [strategy?_of_compilePolicy h, strategy?_of_compilePolicy h']
    exact (hsame name (LayerName.mem_applicable.1 hname)).1
  have hlookup : ∀ name ∈ LayerName.applicable user groups, p'.lookup? target name = p.lookup? target name := by
    intro name hname
    obtain ⟨-, hkeys⟩ := hsame name (LayerName.mem_applicable.1 hname)
    have htarget : p'.entry? target name = p.entry? target name :=
      entry?_congr h h' fun key hk => hkeys key (.inr ((compileKey_eq_address ht).1 hk))
    have hdefault : p'.entry? Policy.defaultRoute name = p.entry? Policy.defaultRoute name :=
      entry?_congr h h' fun key hk => hkeys key (.inl (compileKey_eq_default.1 hk))
    unfold Policy.lookup?
    rw [htarget, hdefault]
  rw [p'.plan_eq, p.plan_eq, Policy.Plan.mk.injEq]
  constructor
  · exact List.foldl_ext _ _ _ fun b name hname => by rw [hstrategy name hname]
  · exact List.foldl_ext _ _ _ fun b name hname => by rw [hlookup name hname]

/-- What a user gets for a target, from the settings. Of the layers that apply the last one that sets a strategy
decides on the strategy, and the last one that offers anything for the target on the candidates, which are its
destinations in canonical texts; there are none if no layer offers any. Other settings come to the same if the layers
that apply set the same strategies in both and have the same under `default` and under the keys for the target:
layers of other users and other groups do not matter, nor do other keys. -/
theorem plan_overrides (h : s.compilePolicy = .ok p) {text target : String} (ht : Address.normalize text = .ok target)
    (user : String) (groups : Names) :
    let plan := p.plan user target groups
    (∃ name, LayerName.IsLast user groups (fun name => (s.strategy? name).isSome) name ∧
      s.strategy? name = some plan.strategy) ∧
    ((∃ name texts, LayerName.IsLast user groups (fun name => ∃ texts, s.Offers name target texts) name ∧
        s.Offers name target texts ∧
        List.Forall₂ (fun text d => Address.normalize text = .ok d) texts plan.candidates) ∨
      plan.candidates = [] ∧ ∀ name : LayerName, name.AppliesTo user groups → ∀ texts, ¬ s.Offers name target texts) ∧
    ∀ (s' : Settings) p', s'.compilePolicy = .ok p' →
      (∀ name : LayerName, name.AppliesTo user groups → s'.strategy? name = s.strategy? name ∧
        ∀ key, (key = Policy.defaultRoute ∨ Writes key target) →
          s'.destinations? name key = s.destinations? name key) →
      p'.plan user target groups = plan := by
  intro plan
  have hne : target ≠ Policy.defaultRoute := Policy.Layer.ne_defaultRoute_of_normalize ht
  exact ⟨strategy_plan_eq h user target groups, candidates_plan_eq h hne user groups,
    fun s' p' h' hsame => plan_congr h h' hne hsame⟩

/-- Of two groups one sets the strategy and has two keys for the target; the other one has nothing to say. -/
theorem plan_overrides_two_groups :
    let s : Settings := {
      policy := { routes := (∅ : Routes).insert Policy.defaultRoute ["c"] }
      groups := ((∅ : Table Settings.Layer).insert "dev"
        { strategy := some .random, routes := ((∅ : Routes).insert "DB" ["a"]).insert "db" ["B"] }).insert "ops"
          { routes := (∅ : Routes).insert "web" ["w"] } }
    let groups : Names := ((∅ : Names).insert "dev").insert "ops"
    ∃ p, s.compilePolicy = .ok p ∧ p.plan "alice" "db:22" groups = ⟨.random, ["b:22"]⟩ ∧
      (∃ name, LayerName.IsLast "alice" groups (fun name => (s.strategy? name).isSome) name ∧
        s.strategy? name = some .random) ∧
      ∃ name texts, LayerName.IsLast "alice" groups (fun name => ∃ texts, s.Offers name "db:22" texts) name ∧
        s.Offers name "db:22" texts ∧ List.Forall₂ (fun text d => Address.normalize text = .ok d) texts ["b:22"] := by
  intro s groups
  let p : Policy := {
    global := { strategy := some .ordered, routes := (∅ : Routes).insert Policy.defaultRoute ["c:22"] }
    groups := ((∅ : Table Policy.Layer).insert "dev"
      { strategy := some .random, routes := (∅ : Routes).insert "db:22" ["b:22"] }).insert "ops"
        { strategy := none, routes := (∅ : Routes).insert "web:22" ["w:22"] }
    users := ∅ }
  have hp : s.compilePolicy = .ok p := rfl
  have hplan : p.plan "alice" "db:22" groups = ⟨.random, ["b:22"]⟩ := by decide +kernel
  have ht : Address.normalize "db" = .ok "db:22" := by decide +kernel
  obtain ⟨hstrategy, hcandidates, -⟩ := plan_overrides hp ht "alice" groups
  rw [hplan] at hstrategy hcandidates
  exact ⟨p, hp, hplan, hstrategy, hcandidates.resolve_right fun h => by cases h.1⟩

end Settings

end SessionRouting
