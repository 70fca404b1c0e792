/-
Compiled policies and the settings that they come from. A layer of settings has a name, and its compiled layer holds
the canonical texts of its keys and destinations (`Layer.Of`); a policy compiled from settings has exactly the layers
that the settings have (`Policy.Of`). The candidates of a plan are then the canonical destinations of one route of one
layer that applies, or there are none for want of a route: `candidates_of_compilePolicy`.

Compiling stops at the first fault. `faultOf?` says which one that is, without saying what comes out otherwise.
-/
import SessionRouting.Settings
import SessionRouting.Proofs.Address.Canonical
import Mathlib.Data.List.Forall2

namespace SessionRouting

/-! ## Faults -/

section Faults

variable {ε α β : Type}

/-- The fault that a computation ends with, if it does. -/
def faultOf? : Except ε α → Option ε
  | .ok _ => none
  | .error e => some e

theorem faultOf?_eq_some {x : Except ε α} {e : ε} : faultOf? x = some e ↔ x = .error e := by
  cases x <;> simp [faultOf?]

theorem faultOf?_eq_none {x : Except ε α} : faultOf? x = none ↔ ∃ a, x = .ok a := by
  cases x <;> simp [faultOf?]

/-- A computation without a fault has none in its parts. -/
theorem exists_of_bind_eq_ok {x : Except ε α} {f : α → Except ε β} {b : β} (h : x >>= f = .ok b) :
    ∃ a, x = .ok a ∧ f a = .ok b := by
  cases x with
  | ok a => exact ⟨a, rfl, h⟩
  | error e => cases h

/-- A fault comes from the first part, or else from the second one. -/
theorem faultOf?_bind (x : Except ε α) {f : α → Except ε β} (later : Option ε) (hf : ∀ a, faultOf? (f a) = later) :
    faultOf? (x >>= f) = (faultOf? x).or later := by
  cases x with
  | ok a => exact hf a
  | error e => rfl

/-- A list is mapped up to the first fault. -/
theorem faultOf?_mapM (f : α → Except ε β) (l : List α) :
    faultOf? (l.mapM f) = l.findSome? fun a => faultOf? (f a) := by
  induction l with
  | nil => rfl
  | cons a l ih =>
    rw [List.mapM_cons, faultOf?_bind _ (l.findSome? fun a => faultOf? (f a)), List.findSome?_cons]
    · cases faultOf? (f a) <;> rfl
    · intro b
      rw [faultOf?_bind _ none fun _ => rfl, ih, Option.or_none]

theorem forall₂_of_mapM {f : α → Except ε β} {l : List α} {ys : List β} (h : l.mapM f = .ok ys) :
    List.Forall₂ (fun a b => f a = .ok b) l ys := by
  induction l generalizing ys with
  | nil =>
    cases h
    exact .nil
  | cons a l ih =>
    rw [List.mapM_cons] at h
    obtain ⟨b, hb, h⟩ := exists_of_bind_eq_ok h
    obtain ⟨bs, hbs, h⟩ := exists_of_bind_eq_ok h
    cases h
    exact .cons hb (ih hbs)

theorem mem_of_forall₂_left {R : α → β → Prop} {l : List α} {m : List β} (h : List.Forall₂ R l m) {a : α} (ha : a ∈ l) :
    ∃ b ∈ m, R a b := by
  induction h with
  | nil => cases ha
  | cons hab _ ih =>
    rcases List.mem_cons.1 ha with rfl | ha
    · exact ⟨_, List.mem_cons_self .., hab⟩
    · obtain ⟨b, hb, hr⟩ := ih ha
      exact ⟨b, List.mem_cons_of_mem _ hb, hr⟩

theorem mem_of_forall₂_right {R : α → β → Prop} {l : List α} {m : List β} (h : List.Forall₂ R l m) {b : β}
    (hb : b ∈ m) : ∃ a ∈ l, R a b := by
  obtain ⟨a, ha, hr⟩ := mem_of_forall₂_left h.flip hb
  exact ⟨a, ha, hr⟩

theorem exists_right_of_rel {R : α → β → Prop} {x : Option α} {y : Option β} (h : Option.Rel R x y) {a : α}
    (ha : x = some a) : ∃ b, y = some b ∧ R a b := by
  subst ha
  cases h with
  | some hab => exact ⟨_, rfl, hab⟩

theorem exists_left_of_rel {R : α → β → Prop} {x : Option α} {y : Option β} (h : Option.Rel R x y) {b : β}
    (hb : y = some b) : ∃ a, x = some a ∧ R a b := by
  subst hb
  cases h with
  | some hab => exact ⟨_, rfl, hab⟩

end Faults

/-! ## Tables made of rows -/

namespace Table

variable {β : Type}

/-- A table of rows, of which the later ones replace the ones before them. -/
theorem mem_rows {rows : List (String × β)} {t : Table β} {k : String} {v : β}
    (h : (rows.foldl (fun t row => t.insert row.1 row.2) t)[k]? = some v) : (k, v) ∈ rows ∨ t[k]? = some v := by
  induction rows generalizing t with
  | nil => exact .inr h
  | cons row rows ih =>
    rcases ih h with h | h
    · exact .inl (List.mem_cons_of_mem _ h)
    · rw [Std.ExtTreeMap.getElem?_insert] at h
      split at h
      · rename_i hk
        cases h
        rw [Std.LawfulEqOrd.compare_eq_iff_eq] at hk
        exact .inl (hk ▸ List.mem_cons_self ..)
      · exact .inr h

/-- Every row leaves an entry for its key. -/
theorem exists_of_rows {rows : List (String × β)} {t : Table β} {k : String}
    (h : (∃ v, (k, v) ∈ rows) ∨ k ∈ t) : k ∈ rows.foldl (fun t row => t.insert row.1 row.2) t := by
  induction rows generalizing t with
  | nil => exact h.resolve_left fun ⟨_, hv⟩ => List.not_mem_nil hv
  | cons row rows ih =>
    refine ih ?_
    rcases h with ⟨v, hv⟩ | h
    · rcases List.mem_cons.1 hv with rfl | hv
      · exact .inr Std.ExtTreeMap.mem_insert_self
      · exact .inl ⟨v, hv⟩
    · exact .inr (Std.ExtTreeMap.mem_insert.2 (.inr h))

end Table

/-! ## Layers -/

namespace Policy.Layer

/-- A layer is compiled from configured routes. Its routes are theirs, and it has one for each key of theirs. -/
structure Of (strategy : Option Strategy) (routes : Routes) (l : Layer) : Prop where
  strategy : l.strategy = strategy
  route : ∀ (k : String) ds, l.routes[k]? = some ds → ∃ (key : String) (texts : List String),
    routes[key]? = some texts ∧ compileKey key = .ok k ∧
      List.Forall₂ (fun text d => Address.normalize text = .ok d) texts ds
  key : ∀ (key : String) texts, routes[key]? = some texts → ∃ k, compileKey key = .ok k ∧ k ∈ l.routes

theorem compileKey_eq_ok {key k : String} (h : compileKey key = .ok k) :
    (key = defaultRoute ∧ k = defaultRoute) ∨ Address.normalize key = .ok k := by
  unfold compileKey at h
  split at h
  · rename_i hkey
    cases h
    exact .inl ⟨hkey, hkey⟩
  · exact .inr h

/-- The route `default` is no address. -/
theorem ne_defaultRoute_of_normalize {key k : String} (h : Address.normalize key = .ok k) : k ≠ defaultRoute := by
  obtain ⟨a, -, rfl⟩ := Address.normalize_eq_ok.1 h
  intro heq
  have hcolon : ':' ∈ a.text.toList := by
    rw [Address.toList_text]
    simp
  rw [heq] at hcolon
  exact absurd hcolon (by decide)

theorem compileRoute_ok {row row' : String × List String} (h : compileRoute row = .ok row') :
    compileKey row.1 = .ok row'.1 ∧ List.Forall₂ (fun text d => Address.normalize text = .ok d) row.2 row'.2 := by
  unfold compileRoute at h
  obtain ⟨k, hk, h⟩ := exists_of_bind_eq_ok h
  obtain ⟨ds, hds, h⟩ := exists_of_bind_eq_ok h
  cases h
  exact ⟨hk, forall₂_of_mapM hds⟩

theorem of_compile {strategy : Option Strategy} {routes : Routes} {l : Layer} (h : compile strategy routes = .ok l) :
    Of strategy routes l := by
  unfold compile at h
  obtain ⟨rows, hrows, h⟩ := exists_of_bind_eq_ok h
  cases h
  have hforall := forall₂_of_mapM hrows
  refine ⟨rfl, fun k ds hk => ?_, fun key texts hkey => ?_⟩
  · have hmem : (k, ds) ∈ rows := (Table.mem_rows hk).resolve_right (by simp)
    obtain ⟨row, hrow, hc⟩ := mem_of_forall₂_right hforall hmem
    obtain ⟨hkey, hds⟩ := compileRoute_ok hc
    exact ⟨row.1, row.2, Std.ExtTreeMap.mem_toList_iff_getElem?_eq_some.1 hrow, hkey, hds⟩
  · have hrow := Std.ExtTreeMap.mem_toList_iff_getElem?_eq_some.2 hkey
    obtain ⟨⟨k, ds⟩, hmem, hc⟩ := mem_of_forall₂_left hforall hrow
    exact ⟨k, (compileRoute_ok hc).1, Table.exists_of_rows (.inl ⟨ds, hmem⟩)⟩

/-- The first fault of a layer: of its keys and, after each of them, of its destinations. -/
theorem faultOf?_compile (strategy : Option Strategy) (routes : Routes) :
    faultOf? (compile strategy routes) = routes.toList.findSome? fun row =>
      (faultOf? (compileKey row.1)).or (row.2.findSome? fun d => faultOf? (Address.normalize d)) := by
  unfold compile
  rw [faultOf?_bind _ none fun _ => rfl, Option.or_none, faultOf?_mapM]
  congr 1
  funext row
  unfold compileRoute
  refine faultOf?_bind _ _ fun k => ?_
  rw [faultOf?_bind _ none fun _ => rfl, Option.or_none, faultOf?_mapM]

end Policy.Layer

/-! ## Names of layers -/

namespace Settings

/-- A layer of settings, by what it is for. -/
inductive LayerName
  | policy
  | group (name : String)
  | user (name : String)
  deriving DecidableEq, Repr

namespace LayerName

/-- Where problems place the layer. -/
def path : LayerName → String
  | policy => "policy"
  | group name => "groups" ++ "." ++ name
  | user name => "users" ++ "." ++ name

/-- Whether the layer has a say about a user in these groups. -/
def AppliesTo (user : String) (groups : Names) : LayerName → Prop
  | policy => True
  | group name => name ∈ groups
  | LayerName.user name => name = user

end LayerName

/-- The layer with this name, if the settings have one. -/
def layer? (s : Settings) : LayerName → Option Layer
  | .policy => some { strategy := some s.policy.strategy, routes := s.policy.routes }
  | .group name => s.groups[name]?
  | .user name => s.users[name]?

/-- What a layer has for a route key. -/
def destinations? (s : Settings) (layer : LayerName) (key : String) : Option (List String) :=
  (s.layer? layer).bind (·.routes[key]?)

/-- A layer has a route for the target, or one for every target. -/
def HasRoute (s : Settings) (layer : LayerName) (target : String) : Prop :=
  ∃ key texts, s.destinations? layer key = some texts ∧
    (key = Policy.defaultRoute ∨ Address.normalize key = .ok target)

/-- The layer is configured to send sessions to the address. -/
def Sends (s : Settings) (layer : LayerName) (address : String) : Prop :=
  ∃ key texts text, s.destinations? layer key = some texts ∧ text ∈ texts ∧ Address.normalize text = .ok address

end Settings

open Settings

namespace Policy

/-- The layer with this name, if the policy has one. -/
def layer? (p : Policy) : LayerName → Option Layer
  | .policy => some p.global
  | .group name => p.groups[name]?
  | .user name => p.users[name]?

/-- A policy is compiled from settings, layer by layer. -/
def Of (s : Settings) (p : Policy) : Prop :=
  ∀ name, Option.Rel (fun (c : Settings.Layer) l => Layer.Of c.strategy c.routes l) (s.layer? name) (p.layer? name)

theorem mem_layersFor {p : Policy} {user : String} {groups : Names} {l : Layer} :
    l ∈ p.layersFor user groups ↔ ∃ name : LayerName, name.AppliesTo user groups ∧ p.layer? name = some l := by
  simp only [layersFor, List.cons_append, List.mem_cons, List.mem_append, List.mem_filterMap, Option.mem_toList]
  constructor
  · rintro (rfl | ⟨name, hname, hl⟩ | hl)
    · exact ⟨.policy, trivial, rfl⟩
    · exact ⟨.group name, Std.ExtTreeSet.mem_toList.1 hname, hl⟩
    · exact ⟨.user user, rfl, hl⟩
  · rintro ⟨name, happlies, hl⟩
    cases name with
    | policy => exact .inl (Option.some.inj hl).symm
    | group name => exact .inr (.inl ⟨name, Std.ExtTreeSet.mem_toList.2 happlies, hl⟩)
    | user name =>
      obtain rfl : name = user := happlies
      exact .inr (.inr hl)

theorem candidates_foldl {target : String} (layers : List Layer) (q : Plan) :
    ((∀ l ∈ layers, l.lookup target = none) ∧ (layers.foldl (Plan.override target) q).candidates = q.candidates) ∨
    ∃ l ∈ layers, l.lookup target = some (layers.foldl (Plan.override target) q).candidates := by
  induction layers generalizing q with
  | nil => exact .inl ⟨fun l hl => absurd hl List.not_mem_nil, rfl⟩
  | cons l layers ih =>
    rw [List.foldl_cons]
    rcases ih (q.override target l) with ⟨hnone, heq⟩ | ⟨l', hl', hsome⟩
    · rw [heq]
      cases hl : l.lookup target with
      | none =>
        refine .inl ⟨fun l' hl' => ?_, by simp [Plan.override, hl]⟩
        rcases List.mem_cons.1 hl' with rfl | hl'
        · exact hl
        · exact hnone l' hl'
      | some cs => exact .inr ⟨l, List.mem_cons_self .., by simp [Plan.override, hl]⟩
    · exact .inr ⟨l', List.mem_cons_of_mem _ hl', hsome⟩

/-- The candidates of a plan are those of one layer that applies, or no layer has any. -/
theorem candidates_plan (p : Policy) (user target : String) (groups : Names) :
    ((∀ l ∈ p.layersFor user groups, l.lookup target = none) ∧ (p.plan user target groups).candidates = []) ∨
    ∃ l ∈ p.layersFor user groups, l.lookup target = some (p.plan user target groups).candidates :=
  candidates_foldl _ _

end Policy

/-! ## Compiled settings -/

namespace Settings

/-- The rows from which a table of compiled layers is made. -/
theorem rows_of_compileLayers {layers : Table Layer} {t : Table Policy.Layer} (h : compileLayers layers = .ok t) :
    ∃ rows : List (String × Policy.Layer), t = rows.foldl (fun t row => t.insert row.1 row.2) ∅ ∧
      List.Forall₂ (fun c row => row.1 = c.1 ∧ Policy.Layer.compile c.2.strategy c.2.routes = .ok row.2)
        layers.toList rows := by
  unfold compileLayers at h
  obtain ⟨rows, hrows, h⟩ := exists_of_bind_eq_ok h
  cases h
  refine ⟨rows, rfl, (forall₂_of_mapM hrows).imp fun c row hrow => ?_⟩
  obtain ⟨l, hl, hrow⟩ := exists_of_bind_eq_ok hrow
  cases hrow
  exact ⟨rfl, hl⟩

theorem compiled_of_compileLayers {layers : Table Layer} {t : Table Policy.Layer} (h : compileLayers layers = .ok t)
    (name : String) :
    Option.Rel (fun (c : Layer) l => Policy.Layer.compile c.strategy c.routes = .ok l) layers[name]? t[name]? := by
  obtain ⟨rows, rfl, hrows⟩ := rows_of_compileLayers h
  have hfrom : ∀ l, (rows.foldl (fun t row => t.insert row.1 row.2) (∅ : Table Policy.Layer))[name]? = some l →
      ∃ c, layers[name]? = some c ∧ Policy.Layer.compile c.strategy c.routes = .ok l := by
    intro l hl
    have hmem : (name, l) ∈ rows := (Table.mem_rows hl).resolve_right (by simp)
    obtain ⟨⟨name', c⟩, hc, hname, hcompile⟩ := mem_of_forall₂_right hrows hmem
    obtain rfl : name = name' := hname
    exact ⟨c, Std.ExtTreeMap.mem_toList_iff_getElem?_eq_some.1 hc, hcompile⟩
  cases hc : layers[name]? with
  | none =>
    cases ht : (rows.foldl (fun t row => t.insert row.1 row.2) (∅ : Table Policy.Layer))[name]? with
    | none => exact .none
    | some l =>
      obtain ⟨c, hc', -⟩ := hfrom l ht
      rw [hc] at hc'
      cases hc'
  | some c =>
    have hrow := Std.ExtTreeMap.mem_toList_iff_getElem?_eq_some.2 hc
    obtain ⟨⟨name', l⟩, hmem, hname, -⟩ := mem_of_forall₂_left hrows hrow
    obtain rfl : name' = name := hname
    have hl := Std.ExtTreeMap.getElem?_eq_some_getElem (Table.exists_of_rows (t := ∅) (.inl ⟨l, hmem⟩))
    obtain ⟨c', hc', hof⟩ := hfrom _ hl
    obtain rfl := Option.some.inj (hc.symm.trans hc')
    rw [hl]
    exact .some hof

/-- A compiled policy has the layers that the settings have, each compiled from the one of that name. -/
theorem compiled_of_compilePolicy {s : Settings} {p : Policy} (h : s.compilePolicy = .ok p) (name : LayerName) :
    Option.Rel (fun (c : Layer) l => Policy.Layer.compile c.strategy c.routes = .ok l)
      (s.layer? name) (p.layer? name) := by
  unfold compilePolicy at h
  obtain ⟨global, hglobal, h⟩ := exists_of_bind_eq_ok h
  obtain ⟨groups, hgroups, h⟩ := exists_of_bind_eq_ok h
  obtain ⟨users, husers, h⟩ := exists_of_bind_eq_ok h
  cases h
  cases name with
  | policy => exact .some hglobal
  | group name => exact compiled_of_compileLayers hgroups name
  | user name => exact compiled_of_compileLayers husers name

theorem of_compilePolicy {s : Settings} {p : Policy} (h : s.compilePolicy = .ok p) : Policy.Of s p := by
  intro name
  have hcompiled := compiled_of_compilePolicy h name
  generalize s.layer? name = c, p.layer? name = l at hcompiled ⊢
  cases hcompiled with
  | none => exact .none
  | some hcompile => exact .some (Policy.Layer.of_compile hcompile)

theorem faultOf?_compileLayers (layers : Table Layer) : faultOf? (compileLayers layers) =
    layers.toList.findSome? fun row => faultOf? (Policy.Layer.compile row.2.strategy row.2.routes) := by
  unfold compileLayers
  rw [faultOf?_bind _ none fun _ => rfl, Option.or_none, faultOf?_mapM]
  congr 1
  funext row
  exact (faultOf?_bind _ none fun _ => rfl).trans (Option.or_none ..)

/-- The first fault of a policy: of the global layer, of the groups or of the users. -/
theorem faultOf?_compilePolicy (s : Settings) : faultOf? s.compilePolicy =
    (faultOf? (Policy.Layer.compile (some s.policy.strategy) s.policy.routes)).or
      ((faultOf? (compileLayers s.groups)).or (faultOf? (compileLayers s.users))) := by
  unfold compilePolicy
  refine faultOf?_bind _ _ fun global => ?_
  refine faultOf?_bind _ _ fun groups => ?_
  exact (faultOf?_bind _ none fun _ => rfl).trans (Option.or_none ..)

/-- The candidates for a target are the canonical texts of what one layer that applies has for it, in their order;
there are none if no layer that applies has anything. -/
theorem candidates_of_compilePolicy {s : Settings} {p : Policy} (h : s.compilePolicy = .ok p) (user target : String)
    (groups : Names) :
    (p.plan user target groups).candidates = [] ∧
      (∀ name : LayerName, name.AppliesTo user groups → ¬ s.HasRoute name target) ∨
    ∃ (name : LayerName) (key : String) (texts : List String), name.AppliesTo user groups ∧
      s.destinations? name key = some texts ∧ (key = Policy.defaultRoute ∨ Address.normalize key = .ok target) ∧
      List.Forall₂ (fun text d => Address.normalize text = .ok d) texts (p.plan user target groups).candidates := by
  have hof := of_compilePolicy h
  rcases p.candidates_plan user target groups with ⟨hnone, hempty⟩ | ⟨l, hl, hsome⟩
  · refine .inl ⟨hempty, fun name happlies => ?_⟩
    rintro ⟨key, texts, hdest, hkey⟩
    obtain ⟨c, hc, htexts⟩ := Option.bind_eq_some_iff.1 hdest
    obtain ⟨l, hl, hlayer⟩ := exists_right_of_rel (hof name) hc
    have hlookup := hnone l (Policy.mem_layersFor.2 ⟨name, happlies, hl⟩)
    simp only [Policy.Layer.lookup, Option.or_eq_none_iff] at hlookup
    obtain ⟨k, hk, hmem⟩ := hlayer.key key texts htexts
    rcases Policy.Layer.compileKey_eq_ok hk with ⟨-, rfl⟩ | hnorm
    · exact absurd hmem ((getElem?_eq_none_iff ..).1 hlookup.2)
    · rcases hkey with rfl | htarget
      · rw [Policy.Layer.compileKey, if_pos rfl] at hk
        cases hk
        exact absurd hmem ((getElem?_eq_none_iff ..).1 hlookup.2)
      · obtain rfl : k = target := Except.ok.inj (hnorm.symm.trans htarget)
        exact absurd hmem ((getElem?_eq_none_iff ..).1 hlookup.1)
  · obtain ⟨name, happlies, hname⟩ := Policy.mem_layersFor.1 hl
    obtain ⟨c, hc, hlayer⟩ := exists_left_of_rel (hof name) hname
    obtain ⟨k, hk, hroute⟩ : ∃ k, (k = target ∨ k = Policy.defaultRoute) ∧
        l.routes[k]? = some (p.plan user target groups).candidates := by
      simp only [Policy.Layer.lookup, Option.or_eq_some_iff] at hsome
      rcases hsome with h1 | ⟨-, h1⟩
      · exact ⟨_, .inl rfl, h1⟩
      · exact ⟨_, .inr rfl, h1⟩
    obtain ⟨key, texts, htexts, hkey, hall⟩ := hlayer.route k _ hroute
    refine .inr ⟨name, key, texts, happlies, Option.bind_eq_some_iff.2 ⟨c, hc, htexts⟩, ?_, hall⟩
    rcases Policy.Layer.compileKey_eq_ok hkey with ⟨rfl, -⟩ | hnorm
    · exact .inl rfl
    · rcases hk with rfl | rfl
      · exact .inr hnorm
      · exact absurd rfl (Policy.Layer.ne_defaultRoute_of_normalize hnorm)

end Settings

end SessionRouting
