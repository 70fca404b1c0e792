/-
What settings have to keep, and what the list of their problems has to do with it. `Settings.Imposes` says which
constraints there are on given settings: on their fields, and on every key and every destination of every layer.
`problems_eq_broken` says that each constraint that is not kept makes exactly one problem, whatever else is wrong.

A policy is compiled from the same keys and destinations, up to the first fault. `faultOf?_compilePolicy_eq` says that
this is the fault of the first problem with an address, so that settings without problems have a policy; the plans of
such a policy have candidates whenever there is a route: `problems_agree`.
-/
import SessionRouting.Routing
import SessionRouting.Settings.Problem
import SessionRouting.Proofs.Policy.Compile
import Mathlib.Data.List.Nodup
import Mathlib.Data.Option.Basic

namespace SessionRouting

namespace Settings

/-! ## Constraints -/

/-- Something that settings have to keep, with what they say about it. -/
inductive Constraint
  | socketAddress (field value : String)
  | connections (count : Nat)
  | duration (field : String) (secs : Nat)
  | routes (count : Nat)
  | key (layer : LayerName) (key : String)
  | destinations (layer : LayerName) (key : String) (texts : List String)
  | destination (layer : LayerName) (key : String) (index : Nat) (text : String)
  deriving DecidableEq, Repr

namespace Constraint

/-- Whether what is said is in order: socket addresses, keys and destinations can be read, and the rest is not zero. -/
def Kept : Constraint → Prop
  | socketAddress _ value => ∃ a, Net.SocketAddress.read? value = some a
  | connections count => 0 < count
  | duration _ secs => 0 < secs
  | routes count => 0 < count
  | key _ k => k = Policy.defaultRoute ∨ ∃ text, Address.normalize k = .ok text
  | destinations _ _ texts => texts ≠ []
  | destination _ _ _ text => ∃ canonical, Address.normalize text = .ok canonical

/-- The problem that it makes if it is not kept. -/
def problem : Constraint → Problem
  | socketAddress field value => .badSocketAddress field value
  | connections _ => .noConnections
  | duration field _ => .zeroDuration field
  | routes _ => .noRoutes
  | key layer k => .badKey layer.path k
  | destinations layer k _ => .noDestinations layer.path k
  | destination layer k _ text => .badDestination layer.path k text

def isBroken : Constraint → Bool
  | socketAddress _ value => isBadSocketAddress value
  | connections count => count == 0
  | duration _ secs => secs == 0
  | routes count => count == 0
  | key _ k => k != Policy.defaultRoute && isBadAddress k
  | destinations _ _ texts => texts.isEmpty
  | destination _ _ _ text => isBadAddress text

theorem isBadAddress_iff (text : String) :
    isBadAddress text = true ↔ ¬ ∃ canonical, Address.normalize text = .ok canonical := by
  unfold isBadAddress Address.normalize
  cases Address.parse text <;> simp [Except.map]

theorem isBroken_iff (c : Constraint) : c.isBroken = true ↔ ¬ c.Kept := by
  cases c with
  | socketAddress field value =>
    simp [isBroken, Kept, isBadSocketAddress, ← Option.isSome_iff_exists]
  | connections count | duration field count | routes count =>
    simp [isBroken, Kept]
  | key layer key =>
    simp only [isBroken, Kept, Bool.and_eq_true, bne_iff_ne, isBadAddress_iff, not_or]
  | destinations layer key texts => simp [isBroken, Kept]
  | destination layer key index text => exact isBadAddress_iff text

end Constraint

/-- The constraints on settings. The address for metrics is one only if metrics are on. -/
def Imposes (s : Settings) : Constraint → Prop
  | .socketAddress field value =>
    (field = "listener.bind_address" ∧ value = s.listener.bindAddress) ∨
    (field = "observability.metrics_address" ∧ value = s.observability.metricsAddress ∧
      s.observability.metricsEnabled = true)
  | .connections count => count = s.listener.maxConnections
  | .duration field secs =>
    (field = "health_check.interval_secs" ∧ secs = s.healthCheck.intervalSecs) ∨
    (field = "health_check.probe_timeout_secs" ∧ secs = s.healthCheck.probeTimeoutSecs) ∨
    (field = "timeouts.read_secs" ∧ secs = s.timeouts.readSecs)
  | .routes count => count = s.policy.routes.size
  | .key layer key => ∃ texts, s.destinations? layer key = some texts
  | .destinations layer key texts => s.destinations? layer key = some texts
  | .destination layer key index text => ∃ texts, s.destinations? layer key = some texts ∧ texts[index]? = some text

/-! ## Listing them -/

/-- The layers of settings with their names, in the order in which they are looked through. -/
def layers (s : Settings) : List (LayerName × Routes) :=
  (.policy, s.policy.routes) :: s.groups.toList.map (fun row => (.group row.1, row.2.routes)) ++
    s.users.toList.map (fun row => (.user row.1, row.2.routes))

/-- The constraints on one route. -/
def routeConstraints (layer : LayerName) (row : String × List String) : List Constraint :=
  .key layer row.1 :: .destinations layer row.1 row.2 :: row.2.mapIdx (.destination layer row.1)

def layerConstraints (layer : LayerName × Routes) : List Constraint :=
  layer.2.toList.flatMap (routeConstraints layer.1)

def fieldConstraints (s : Settings) : List Constraint :=
  .socketAddress "listener.bind_address" s.listener.bindAddress :: .connections s.listener.maxConnections ::
    (if s.observability.metricsEnabled then
      [.socketAddress "observability.metrics_address" s.observability.metricsAddress] else []) ++
    [.duration "health_check.interval_secs" s.healthCheck.intervalSecs,
      .duration "health_check.probe_timeout_secs" s.healthCheck.probeTimeoutSecs,
      .duration "timeouts.read_secs" s.timeouts.readSecs, .routes s.policy.routes.size]

def constraints (s : Settings) : List Constraint :=
  s.fieldConstraints ++ s.layers.flatMap layerConstraints

/-- The problems that constraints make that are not kept. -/
def broken (l : List Constraint) : List Problem :=
  (l.filter (·.isBroken)).map Constraint.problem

theorem broken_append (l m : List Constraint) : broken (l ++ m) = broken l ++ broken m := by
  simp [broken]

theorem broken_cons (c : Constraint) (l : List Constraint) :
    broken (c :: l) = problemIf c.isBroken c.problem ++ broken l := by
  unfold broken problemIf
  cases h : c.isBroken with
  | true => rw [List.filter_cons_of_pos h]; rfl
  | false => rw [List.filter_cons_of_neg (by simp [h])]; rfl

theorem broken_flatMap {α : Type} (f : α → List Constraint) (l : List α) :
    broken (l.flatMap f) = l.flatMap fun a => broken (f a) := by
  unfold broken
  rw [List.filter_flatMap, List.map_flatMap]

theorem broken_destinations (layer : LayerName) (key : String) (texts : List String) (start : Nat) :
    broken (texts.mapIdx fun i => .destination layer key (start + i)) =
      (texts.filter isBadAddress).map (.badDestination layer.path key) := by
  induction texts generalizing start with
  | nil => rfl
  | cons text texts ih =>
    have hshift : texts.mapIdx (fun i => Constraint.destination layer key (start + (i + 1))) =
        texts.mapIdx fun i => .destination layer key (start + 1 + i) := by
      refine congrArg (List.mapIdx · texts) (funext fun i => ?_)
      rw [Nat.add_right_comm, Nat.add_assoc]
    rw [List.mapIdx_cons, broken_cons, hshift, ih]
    cases h : isBadAddress text with
    | true => simp [problemIf, Constraint.isBroken, Constraint.problem, h]
    | false => simp [problemIf, Constraint.isBroken, h]

theorem broken_route (layer : LayerName) (row : String × List String) :
    broken (routeConstraints layer row) = routeProblems layer.path row := by
  have hdest := broken_destinations layer row.1 row.2 0
  simp only [Nat.zero_add] at hdest
  unfold routeConstraints routeProblems
  rw [broken_cons, broken_cons, hdest, List.append_assoc]
  rfl

theorem broken_layer (layer : LayerName × Routes) :
    broken (layerConstraints layer) = routesProblems layer.1.path layer.2 := by
  unfold layerConstraints routesProblems
  rw [broken_flatMap]
  exact List.flatMap_congr fun row _ => broken_route layer.1 row

theorem broken_layers (s : Settings) : broken (s.layers.flatMap layerConstraints) =
    routesProblems "policy" s.policy.routes ++ layersProblems "groups" s.groups ++ layersProblems "users" s.users := by
  rw [broken_flatMap]
  simp only [layers, List.cons_append, List.flatMap_cons, List.flatMap_append, List.flatMap_map, broken_layer]
  rw [List.append_assoc]
  rfl

theorem broken_fields (s : Settings) : broken s.fieldConstraints =
    problemIf (isBadSocketAddress s.listener.bindAddress)
      (.badSocketAddress "listener.bind_address" s.listener.bindAddress) ++
    problemIf (s.listener.maxConnections == 0) .noConnections ++
    problemIf (s.observability.metricsEnabled && isBadSocketAddress s.observability.metricsAddress)
      (.badSocketAddress "observability.metrics_address" s.observability.metricsAddress) ++
    problemIf (s.healthCheck.intervalSecs == 0) (.zeroDuration "health_check.interval_secs") ++
    problemIf (s.healthCheck.probeTimeoutSecs == 0) (.zeroDuration "health_check.probe_timeout_secs") ++
    problemIf (s.timeouts.readSecs == 0) (.zeroDuration "timeouts.read_secs") ++
    problemIf s.policy.routes.isEmpty .noRoutes := by
  have hempty : (s.policy.routes.size == 0) = s.policy.routes.isEmpty := Std.ExtTreeMap.isEmpty_eq_size_beq_zero.symm
  have hmetrics : broken (if s.observability.metricsEnabled then
      [.socketAddress "observability.metrics_address" s.observability.metricsAddress] else []) =
      problemIf (s.observability.metricsEnabled && isBadSocketAddress s.observability.metricsAddress)
        (.badSocketAddress "observability.metrics_address" s.observability.metricsAddress) := by
    cases s.observability.metricsEnabled with
    | true => exact (broken_cons ..).trans (List.append_nil _)
    | false => rfl
  unfold fieldConstraints
  rw [List.cons_append, broken_cons, List.cons_append, broken_cons, broken_append, hmetrics]
  simp only [broken_cons, ← hempty, List.append_assoc]
  simp [broken, Constraint.isBroken, Constraint.problem]

/-- The problems of settings are those of the constraints that are not kept. -/
theorem problems_eq_broken (s : Settings) : s.problems = broken s.constraints := by
  unfold constraints
  rw [broken_append, broken_fields, broken_layers]
  simp only [problems, List.append_assoc]

/-! ## Which constraints are listed -/

/-- The layer and the route key that a constraint is about. -/
def Constraint.place? : Constraint → Option (LayerName × String)
  | .key layer k | .destinations layer k _ | .destination layer k _ _ => some (layer, k)
  | _ => none

theorem place?_of_mem_route {layer : LayerName} {row : String × List String} {c : Constraint}
    (hc : c ∈ routeConstraints layer row) : c.place? = some (layer, row.1) := by
  simp only [routeConstraints, List.mem_cons, List.mem_mapIdx] at hc
  rcases hc with rfl | rfl | ⟨i, hi, rfl⟩
  · rfl
  · rfl
  · rfl

theorem place?_of_mem_layer {layer : LayerName × Routes} {c : Constraint} (hc : c ∈ layerConstraints layer) :
    ∃ k, c.place? = some (layer.1, k) := by
  obtain ⟨row, -, hrow⟩ := List.mem_flatMap.1 hc
  exact ⟨row.1, place?_of_mem_route hrow⟩

theorem mem_layers {s : Settings} {name : LayerName} {routes : Routes} :
    (name, routes) ∈ s.layers ↔ ∃ c, s.layer? name = some c ∧ c.routes = routes := by
  simp only [layers, List.cons_append, List.mem_cons, List.mem_append, List.mem_map, Prod.exists, Prod.mk.injEq,
    Std.ExtTreeMap.mem_toList_iff_getElem?_eq_some]
  cases name <;> simp [layer?, eq_comm]

theorem mem_layerConstraints {s : Settings} {c : Constraint} : c ∈ s.layers.flatMap layerConstraints ↔
    ∃ name key texts, s.destinations? name key = some texts ∧ c ∈ routeConstraints name (key, texts) := by
  simp only [List.mem_flatMap, Prod.exists, mem_layers, layerConstraints, destinations?, Option.bind_eq_some_iff,
    Std.ExtTreeMap.mem_toList_iff_getElem?_eq_some]
  constructor
  · rintro ⟨name, _, ⟨l, hl, rfl⟩, key, texts, htexts, hc⟩
    exact ⟨name, key, texts, ⟨l, hl, htexts⟩, hc⟩
  · rintro ⟨name, key, texts, ⟨l, hl, htexts⟩, hc⟩
    exact ⟨name, _, ⟨l, hl, rfl⟩, key, texts, htexts, hc⟩

theorem mem_fieldConstraints {s : Settings} {c : Constraint} :
    c ∈ s.fieldConstraints ↔ c.place? = none ∧ s.Imposes c := by
  have hmetrics : ∀ d, (d ∈ if s.observability.metricsEnabled then
      [Constraint.socketAddress "observability.metrics_address" s.observability.metricsAddress] else []) ↔
      s.observability.metricsEnabled = true ∧
        d = .socketAddress "observability.metrics_address" s.observability.metricsAddress := by
    intro d
    split <;> simp_all
  simp only [fieldConstraints, List.cons_append, List.mem_cons, List.mem_append, hmetrics, List.not_mem_nil, or_false]
  cases c <;> simp [Imposes, Constraint.place?, and_comm, and_left_comm]

/-- All constraints are listed, and nothing else. -/
theorem mem_constraints {s : Settings} {c : Constraint} : c ∈ s.constraints ↔ s.Imposes c := by
  rw [constraints, List.mem_append, mem_fieldConstraints, mem_layerConstraints]
  cases c with
  | key layer k => simp [Constraint.place?, routeConstraints, Imposes]
  | destinations layer k texts => simp [Constraint.place?, routeConstraints, Imposes]
  | destination layer k i text => simp [Constraint.place?, routeConstraints, Imposes, List.getElem?_eq_some_iff]
  | _ => simp [Constraint.place?, routeConstraints]

/-- Lists put together have no repetitions if their members tell which list they come from. -/
theorem nodup_flatMap_of_label {α β γ : Type} {l : List α} {f : α → List β} (read : β → γ) (label : α → γ)
    (hl : (l.map label).Nodup) (hf : ∀ a ∈ l, (f a).Nodup) (hread : ∀ a ∈ l, ∀ b ∈ f a, read b = label a) :
    (l.flatMap f).Nodup := by
  refine List.nodup_flatMap.2 ⟨hf, (List.pairwise_map.1 hl).imp_of_mem fun {a a'} ha ha' hne b hb hb' => hne ?_⟩
  exact (hread a ha b hb).symm.trans (hread a' ha' b hb')

theorem nodup_fieldConstraints (s : Settings) : s.fieldConstraints.Nodup := by
  unfold fieldConstraints
  cases s.observability.metricsEnabled <;> simp

theorem nodup_routeConstraints (layer : LayerName) (row : String × List String) :
    (routeConstraints layer row).Nodup := by
  have hdest : (row.2.mapIdx (Constraint.destination layer row.1)).Nodup := by
    rw [List.nodup_iff_injective_get]
    intro i j hij
    simp at hij
    exact Fin.ext hij.1
  simp [routeConstraints, hdest]

theorem nodup_layers (s : Settings) : (s.layers.map Prod.fst).Nodup := by
  have hnames : s.layers.map Prod.fst = .policy :: (s.groups.keys.map .group ++ s.users.keys.map .user) := by
    simp [layers, ← Std.ExtTreeMap.map_fst_toList_eq_keys, Function.comp_def]
  have hg := (Std.ExtTreeMap.nodup_keys (t := s.groups)).map (f := LayerName.group) fun a b h => by injection h
  have hu := (Std.ExtTreeMap.nodup_keys (t := s.users)).map (f := LayerName.user) fun a b h => by injection h
  rw [hnames]
  refine List.nodup_cons.2 ⟨by simp, List.nodup_append.2 ⟨hg, hu, fun a ha b hb heq => ?_⟩⟩
  obtain ⟨name, -, rfl⟩ := List.mem_map.1 ha
  obtain ⟨name', -, rfl⟩ := List.mem_map.1 hb
  cases heq

theorem nodup_layerConstraints (s : Settings) : (s.layers.flatMap layerConstraints).Nodup := by
  refine nodup_flatMap_of_label (fun c => c.place?.map Prod.fst) (fun layer => some layer.1)
    ?_ (fun layer _ => ?_) fun layer _ c hc => ?_
  · rw [← Function.comp_def, ← List.map_map]
    exact s.nodup_layers.map (Option.some_injective _)
  · refine nodup_flatMap_of_label (fun c => c.place?.map Prod.snd) (fun row => some row.1)
      ?_ (fun row _ => nodup_routeConstraints layer.1 row) fun row _ c hc => ?_
    · rw [← Function.comp_def, ← List.map_map, Std.ExtTreeMap.map_fst_toList_eq_keys]
      exact Std.ExtTreeMap.nodup_keys.map (Option.some_injective _)
    · rw [place?_of_mem_route hc]
      rfl
  · obtain ⟨k, hk⟩ := place?_of_mem_layer hc
    rw [hk]
    rfl

theorem nodup_constraints (s : Settings) : s.constraints.Nodup := by
  refine List.nodup_append.2 ⟨s.nodup_fieldConstraints, s.nodup_layerConstraints, fun c hc d hd heq => ?_⟩
  subst heq
  obtain ⟨layer, -, hlayer⟩ := List.mem_flatMap.1 hd
  obtain ⟨k, hk⟩ := place?_of_mem_layer hlayer
  rw [(mem_fieldConstraints.1 hc).1] at hk
  cases hk

/-! ## The first address at fault -/

/-- The text that is no address, where this is the problem. -/
def Problem.address? : Problem → Option String
  | .badKey _ key => some key
  | .badDestination _ _ destination => some destination
  | _ => none

/-- The fault of the text that is no address. -/
def Problem.fault? (p : Problem) : Option Address.Fault :=
  p.address?.bind fun text => faultOf? (Address.normalize text)

theorem faultOf?_normalize {text : String} (h : isBadAddress text = false) :
    faultOf? (Address.normalize text) = none := by
  rw [Bool.eq_false_iff, ne_eq, Constraint.isBadAddress_iff, not_not] at h
  exact faultOf?_eq_none.2 h

theorem findSome?_flatMap {α β γ : Type} (g : β → Option γ) (f : α → List β) (l : List α) :
    (l.flatMap f).findSome? g = l.findSome? fun a => (f a).findSome? g := by
  induction l with
  | nil => rfl
  | cons a l ih =>
    rw [List.flatMap_cons, List.findSome?_append, ih, List.findSome?_cons]
    cases (f a).findSome? g <;> rfl

theorem fault?_routeProblems (layer : String) (row : String × List String) :
    (routeProblems layer row).findSome? Problem.fault? =
      (faultOf? (Policy.Layer.compileKey row.1)).or (row.2.findSome? fun d => faultOf? (Address.normalize d)) := by
  have hkey : (problemIf (row.1 != Policy.defaultRoute && isBadAddress row.1) (.badKey layer row.1)).findSome?
      Problem.fault? = faultOf? (Policy.Layer.compileKey row.1) := by
    unfold Policy.Layer.compileKey problemIf
    by_cases hdefault : row.1 = Policy.defaultRoute
    · simp [hdefault, faultOf?]
    · cases hbad : isBadAddress row.1 with
      | true => simp [hdefault, Problem.fault?, Problem.address?]
      | false => simp [hdefault, faultOf?_normalize hbad]
  have hempty : (problemIf row.2.isEmpty (.noDestinations layer row.1)).findSome? Problem.fault? = none := by
    unfold problemIf
    split <;> rfl
  have hdest : ∀ texts : List String, ((texts.filter isBadAddress).map (Problem.badDestination layer row.1)).findSome?
      Problem.fault? = texts.findSome? fun d => faultOf? (Address.normalize d) := by
    intro texts
    induction texts with
    | nil => rfl
    | cons text texts ih =>
      cases hbad : isBadAddress text with
      | true =>
        rw [List.filter_cons_of_pos hbad, List.map_cons, List.findSome?_cons, List.findSome?_cons, ih]
        rfl
      | false =>
        rw [List.filter_cons_of_neg (by simp [hbad]), ih, List.findSome?_cons, faultOf?_normalize hbad]
  unfold routeProblems
  rw [List.findSome?_append, List.findSome?_append, hkey, hempty, hdest, Option.or_none]

theorem fault?_routesProblems (layer : String) (strategy : Option Strategy) (routes : Routes) :
    (routesProblems layer routes).findSome? Problem.fault? = faultOf? (Policy.Layer.compile strategy routes) := by
  unfold routesProblems
  rw [findSome?_flatMap, Policy.Layer.faultOf?_compile]
  simp only [fault?_routeProblems]

theorem fault?_layersProblems (kind : String) (layers : Table Layer) :
    (layersProblems kind layers).findSome? Problem.fault? = faultOf? (compileLayers layers) := by
  unfold layersProblems
  rw [findSome?_flatMap, faultOf?_compileLayers]
  congr 1
  funext row
  exact fault?_routesProblems ..

/-- The fault of a policy is that of the first problem with an address. -/
theorem faultOf?_compilePolicy_eq (s : Settings) : faultOf? s.compilePolicy = s.problems.findSome? Problem.fault? := by
  have hnone : ∀ (bad : Bool) (p : Problem), p.address? = none → (problemIf bad p).findSome? Problem.fault? = none := by
    intro bad p hp
    cases bad <;> simp [problemIf, Problem.fault?, hp]
  rw [faultOf?_compilePolicy]
  unfold problems
  simp only [List.findSome?_append]
  rw [hnone _ _ rfl, hnone _ _ rfl, hnone _ _ rfl, hnone _ _ rfl, hnone _ _ rfl, hnone _ _ rfl, hnone _ _ rfl,
    fault?_routesProblems "policy" (some s.policy.strategy), fault?_layersProblems, fault?_layersProblems]
  simp only [Option.none_or, Option.or_assoc]

/-- A problem with an address is that the address has a fault. -/
theorem fault_of_mem_problems {s : Settings} {p : Problem} {text : String} (hp : p ∈ s.problems)
    (htext : p.address? = some text) : ∃ f, Address.normalize text = .error f := by
  rw [problems_eq_broken, broken, List.mem_map] at hp
  obtain ⟨c, hc, rfl⟩ := hp
  have hkept := (Constraint.isBroken_iff c).1 (List.mem_filter.1 hc).2
  have hbad : ¬ ∃ canonical, Address.normalize text = .ok canonical := by
    cases c with
    | key layer k =>
      cases htext
      exact fun h => hkept (.inr h)
    | destination layer k i t =>
      cases htext
      exact hkept
    | _ => cases htext
  cases hn : Address.normalize text with
  | ok canonical => exact absurd ⟨canonical, hn⟩ hbad
  | error f => exact ⟨f, rfl⟩

/-- Compiling ends with the fault of the first text in the list that is no address. -/
theorem compilePolicy_eq_error {s : Settings} {f : Address.Fault} : s.compilePolicy = .error f ↔
    ∃ text, s.problems.findSome? Problem.address? = some text ∧ Address.normalize text = .error f := by
  have hfirst : ∀ l : List Problem, (∀ p ∈ l, p ∈ s.problems) →
      l.findSome? Problem.fault? =
        (l.findSome? Problem.address?).bind fun text => faultOf? (Address.normalize text) := by
    intro l hl
    induction l with
    | nil => rfl
    | cons p l ih =>
      rw [List.findSome?_cons, List.findSome?_cons, ih fun q hq => hl q (List.mem_cons_of_mem _ hq)]
      cases htext : p.address? with
      | none => simp only [Problem.fault?, htext, Option.bind_none]
      | some text =>
        obtain ⟨f, hf⟩ := fault_of_mem_problems (hl p (List.mem_cons_self ..)) htext
        simp only [Problem.fault?, htext, Option.bind_some, hf, faultOf?]
  rw [← faultOf?_eq_some, faultOf?_compilePolicy_eq, hfirst _ fun _ h => h, Option.bind_eq_some_iff]
  simp only [faultOf?_eq_some]

/-! ## Agreement -/

/-- The constraints that are not kept, each once, make the problems. -/
theorem exists_broken (s : Settings) : ∃ l : List Constraint, l.Nodup ∧ (∀ c, c ∈ l ↔ s.Imposes c ∧ ¬ c.Kept) ∧
    s.problems = l.map Constraint.problem := by
  refine ⟨s.constraints.filter (·.isBroken), s.nodup_constraints.filter _, fun c => ?_, s.problems_eq_broken⟩
  rw [List.mem_filter, mem_constraints, Constraint.isBroken_iff]

theorem kept_of_problems_eq_nil {s : Settings} (h : s.problems = []) {c : Constraint} (hc : s.Imposes c) : c.Kept := by
  obtain ⟨l, -, hl, hproblems⟩ := s.exists_broken
  by_contra hkept
  have hmem : c ∈ l := (hl c).2 ⟨hc, hkept⟩
  rw [h] at hproblems
  rw [List.map_eq_nil_iff.1 hproblems.symm] at hmem
  cases hmem

theorem ofSettings_eq_error {s : Settings} {d : Directory} {f : Address.Fault} :
    Router.ofSettings s d = .error f ↔ s.compilePolicy = .error f := by
  rw [← faultOf?_eq_some, ← faultOf?_eq_some]
  unfold Router.ofSettings
  rw [faultOf?_bind _ none fun _ => rfl, Option.or_none]

/-- The candidates of a policy are canonical. -/
theorem canonical_of_compilePolicy {s : Settings} {p : Policy} (h : s.compilePolicy = .ok p) {user target : String}
    {groups : Names} {a : String} (ha : a ∈ (p.plan user target groups).candidates) : Address.normalize a = .ok a := by
  rcases candidates_of_compilePolicy h user target groups with ⟨hempty, -⟩ | ⟨name, key, texts, -, -, -, hall⟩
  · rw [hempty] at ha
    cases ha
  · obtain ⟨text, -, htext⟩ := mem_of_forall₂_right hall ha
    exact Address.normalize_normalize htext

/-- The candidates of a policy of settings without problems end only with the routes. -/
theorem candidates_eq_nil_iff {s : Settings} (hs : s.problems = []) {p : Policy} (h : s.compilePolicy = .ok p)
    (user target : String) (groups : Names) : (p.plan user target groups).candidates = [] ↔
      ∀ name : LayerName, name.AppliesTo user groups → ¬ s.HasRoute name target := by
  rcases candidates_of_compilePolicy h user target groups with
    ⟨hempty, hnone⟩ | ⟨name, key, texts, happlies, hdest, hkey, hall⟩
  · exact ⟨fun _ => hnone, fun _ => hempty⟩
  · refine ⟨fun hnil => ?_, fun hnone => absurd ⟨key, texts, hdest, hkey⟩ (hnone name happlies)⟩
    rw [hnil, List.forall₂_nil_right_iff] at hall
    have hkept : texts ≠ [] := kept_of_problems_eq_nil hs (c := .destinations name key texts) hdest
    exact absurd hall hkept

/-- Checking settings and compiling their policy agree. Compiling fails if and only if some problem has an address, and
then with the fault that the first such address has; the daemon has no router exactly then. The problems are those of
the constraints that are not kept, one for each. Settings without problems have a policy whose candidates are canonical
and are missing only where no layer that applies has a route for the target, so never under a global default. -/
theorem problems_agree (s : Settings) (d : Directory) :
    ((∃ f, s.compilePolicy = .error f) ↔ ∃ p ∈ s.problems, p.address?.isSome) ∧
    (∀ f, s.compilePolicy = .error f ↔
      ∃ text, s.problems.findSome? Problem.address? = some text ∧ Address.normalize text = .error f) ∧
    (∀ f, Router.ofSettings s d = .error f ↔ s.compilePolicy = .error f) ∧
    (∃ l : List Constraint, l.Nodup ∧ (∀ c, c ∈ l ↔ s.Imposes c ∧ ¬ c.Kept) ∧ s.problems = l.map Constraint.problem) ∧
    (s.problems = [] → ∃ p, s.compilePolicy = .ok p ∧ ∀ user target groups,
      (∀ a ∈ (p.plan user target groups).candidates, Address.normalize a = .ok a) ∧
      ((p.plan user target groups).candidates = [] ↔
        ∀ name : LayerName, name.AppliesTo user groups → ¬ s.HasRoute name target) ∧
      ((s.destinations? .policy Policy.defaultRoute).isSome → (p.plan user target groups).candidates ≠ [])) := by
  refine ⟨⟨?_, ?_⟩, fun f => compilePolicy_eq_error, fun f => ofSettings_eq_error, s.exists_broken, fun hs => ?_⟩
  · rintro ⟨f, hf⟩
    obtain ⟨text, hfirst, -⟩ := compilePolicy_eq_error.1 hf
    exact List.findSome?_isSome_iff.1 (Option.isSome_of_mem hfirst)
  · rintro hsome
    obtain ⟨text, hfirst⟩ := Option.isSome_iff_exists.1 (List.findSome?_isSome_iff.2 hsome)
    obtain ⟨p, hp, htext⟩ := List.exists_of_findSome?_eq_some hfirst
    obtain ⟨f, hf⟩ := fault_of_mem_problems hp htext
    exact ⟨f, compilePolicy_eq_error.2 ⟨text, hfirst, hf⟩⟩
  · obtain ⟨p, hp⟩ := faultOf?_eq_none.1 (s.faultOf?_compilePolicy_eq.trans (congrArg _ hs))
    refine ⟨p, hp, fun user target groups =>
      ⟨fun a => canonical_of_compilePolicy hp, candidates_eq_nil_iff hs hp user target groups, fun hdefault hnil => ?_⟩⟩
    obtain ⟨texts, htexts⟩ := Option.isSome_iff_exists.1 hdefault
    exact (candidates_eq_nil_iff hs hp user target groups).1 hnil .policy trivial ⟨_, texts, htexts, .inl rfl⟩

end Settings

end SessionRouting
