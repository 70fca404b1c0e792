/-
What the metrics show. The row of a counter shows how many events of its sort there were, and there is no row as long
as there were none; the row of a gauge shows the number that the last event of its sort gave (`lookup_counter`,
`lookup_gauge`). The rows of command lines, under whatever labels, add up to the number of command lines that are done
with: `sum_commands`.
-/
import SessionRouting.Event.Metrics
import SessionRouting.Proofs.Health.Watch

namespace SessionRouting

/-! ## What is counted -/

namespace Event

/-- The kind of a command line that is done with, and whether it went well. -/
def executed? : Event → Option (Option Command.Kind × Bool)
  | executed kind ok => some (kind, ok)
  | _ => none

/-- The answer of a probe. -/
def reachable? : Event → Option Bool
  | probed _ reachable _ _ => some reachable
  | _ => none

/-- Whether an event touches no metric. -/
def isUncounted : Event → Bool
  | probed .. | executed .. | hostsTracked _ | entriesOpen _ => false
  | _ => true

end Event

namespace Metrics

theorem Counter.value_cons (c : Counter) (e : Event) (t : Trace) :
    c.value (e :: t) = c.value t + if Counter.of? e = some c then 1 else 0 := by
  unfold Counter.value
  rw [List.countP_cons]
  simp

/-- A counter of command lines counts their kind and outcome among those that are done with. -/
theorem Counter.value_commands (kind : Option Command.Kind) (ok : Bool) (t : Trace) :
    (commands kind ok).value t = (t.collect Event.executed?).count (kind, ok) := by
  induction t with
  | nil => rfl
  | cons e t ih =>
    rw [value_cons, Trace.collect_cons, List.count_append, ih]
    cases e with
    | executed kind' ok' =>
      simp [of?, Event.executed?, List.count_singleton, Prod.ext_iff]
    | _ => simp [of?, Event.executed?]

/-- A counter of probes counts their answer. -/
theorem Counter.value_probes (reachable : Bool) (t : Trace) :
    (probes reachable).value t = (t.collect Event.reachable?).count reachable := by
  induction t with
  | nil => rfl
  | cons e t ih =>
    rw [value_cons, Trace.collect_cons, List.count_append, ih]
    cases e with
    | probed a answer cause done => simp [of?, Event.reachable?, List.count_singleton]
    | _ => simp [of?, Event.reachable?]

theorem Gauge.value_cons (g : Gauge) (e : Event) (t : Trace) :
    g.value (e :: t) = (((of? e).filter (·.1 = g)).map Prod.snd).or (g.value t) := by
  unfold Gauge.value
  rw [List.findSome?_cons]
  rcases of? e with _ | ⟨g', n⟩
  · rfl
  · by_cases hg : g' = g <;> simp [Option.filter, hg]

/-! ## Rows -/

theorem Counter.mem_all (c : Counter) : c ∈ all := by
  rcases c with ⟨_ | kind, ok⟩ | reachable
  · cases ok <;> decide
  · cases kind <;> cases ok <;> decide
  · cases reachable <;> decide

theorem Gauge.mem_all (g : Gauge) : g ∈ all := by
  cases g <;> decide

/-- Different metrics have different names. -/
theorem nodup_texts : (Counter.all.map Counter.text ++ Gauge.all.map Gauge.text).Nodup := by
  decide +kernel

section Rows

variable {α : Type} {l : List α} {name : α → String} (value : α → Option Nat)

theorem lookup_of_not_mem {key : String} (hkey : key ∉ l.map name) :
    (l.filterMap fun a => (value a).map (name a, ·)).lookup key = none := by
  rw [List.lookup_eq_none_iff]
  intro row hrow
  obtain ⟨a, ha, hvalue⟩ := List.mem_filterMap.1 hrow
  obtain ⟨n, -, rfl⟩ := Option.map_eq_some_iff.1 hvalue
  rw [bne_iff_ne]
  rintro rfl
  exact hkey (List.mem_map_of_mem ha)

/-- Under its name a metric has its own value. -/
theorem lookup_of_mem (hl : (l.map name).Nodup) {a : α} (ha : a ∈ l) :
    (l.filterMap fun a => (value a).map (name a, ·)).lookup (name a) = value a := by
  induction l with
  | nil => cases ha
  | cons b l ih =>
    rw [List.map_cons, List.nodup_cons] at hl
    rw [List.filterMap_cons]
    rcases List.mem_cons.1 ha with rfl | ha
    · cases hv : value a with
      | none => exact lookup_of_not_mem value hl.1
      | some n => exact List.lookup_cons_self
    · cases hv : value b with
      | none => exact ih hl.2 ha
      | some n =>
        have hne : (name a == name b) = false := by
          rw [beq_eq_false_iff_ne]
          intro heq
          exact hl.1 (heq ▸ List.mem_map_of_mem ha)
        simp only [Option.map_some, List.lookup_cons, hne]
        exact ih hl.2 ha

end Rows

/-- The value that a counter shows. -/
def Counter.shown? (c : Counter) (t : Trace) : Option Nat := if 0 < c.value t then some (c.value t) else none

theorem Counter.getD_shown? (c : Counter) (t : Trace) : (c.shown? t).getD 0 = c.value t := by
  unfold shown?
  split
  · rfl
  · simp only [Option.getD_none]
    omega

end Metrics

namespace Trace

open Metrics

theorem metrics_eq (t : Trace) : t.metrics =
    (Counter.all.filterMap fun c => (c.shown? t).map (c.text, ·)) ++
      Gauge.all.filterMap fun g => (g.value t).map (g.text, ·) := by
  unfold metrics
  congr 1
  induction Counter.all with
  | nil => rfl
  | cons c l ih =>
    rw [List.filterMap_cons, List.filter_cons, ← ih]
    by_cases hc : 0 < c.value t <;> simp [Counter.shown?, hc]

theorem lookup_counter (c : Counter) (t : Trace) : t.metrics.lookup c.text = c.shown? t := by
  obtain ⟨hcounters, -, hdisjoint⟩ := List.nodup_append.1 nodup_texts
  have hmem : c.text ∈ Counter.all.map Counter.text := List.mem_map_of_mem c.mem_all
  rw [metrics_eq, List.lookup_append, lookup_of_mem _ hcounters c.mem_all,
    lookup_of_not_mem _ fun hg => hdisjoint _ hmem _ hg rfl, Option.or_none]

theorem lookup_gauge (g : Gauge) (t : Trace) : t.metrics.lookup g.text = g.value t := by
  obtain ⟨-, hgauges, hdisjoint⟩ := List.nodup_append.1 nodup_texts
  have hmem : g.text ∈ Gauge.all.map Gauge.text := List.mem_map_of_mem g.mem_all
  rw [metrics_eq, List.lookup_append, lookup_of_not_mem _ fun hc => hdisjoint _ hc _ hmem rfl, Option.none_or,
    lookup_of_mem _ hgauges g.mem_all]

/-- A gauge shows its number, and it is zero as long as the gauge shows none. -/
theorem eq_of_lookup_gauge {g : Gauge} {t : Trace} {n : Nat} (hn : (g.value t).getD 0 = n) :
    (∀ m, t.metrics.lookup g.text = some m → m = n) ∧ (t.metrics.lookup g.text = none → n = 0) := by
  rw [lookup_gauge]
  constructor
  · intro m hm
    rw [← hn, hm, Option.getD_some]
  · intro hnone
    rw [← hn, hnone, Option.getD_none]

/-- What the metric with this name shows, under all the labels that have a row. -/
def family (name : String) (t : Trace) : List Nat :=
  (t.metrics.filter fun row => name.toList.isPrefixOf row.1.toList).map Prod.snd

/-- The counters of command lines. -/
def commandCounters : List Counter :=
  (none :: Command.Kind.all.map some).flatMap fun k => [.commands k true, .commands k false]

/-- Their names begin with the name of the metric. -/
theorem isPrefix_text_commands (kind : Option Command.Kind) (ok : Bool) :
    "sshproxy_commands_total".toList <+: (Counter.commands kind ok).text.toList := by
  have hbegin : "sshproxy_commands_total".toList <+: "sshproxy_commands_total\x7bcommand=".toList := by decide +kernel
  show _ <+: ("sshproxy_commands_total\x7bcommand=" ++ (kind.map Command.Kind.name).getD "invalid" ++ ",result=" ++
    (if ok then "ok" else "error") ++ "\x7d").toList
  rw [String.toList_append, String.toList_append, String.toList_append, String.toList_append]
  exact (((hbegin.trans (List.prefix_append ..)).trans (List.prefix_append ..)).trans (List.prefix_append ..)).trans
    (List.prefix_append ..)

theorem filter_all_commands :
    (Counter.all.filter fun c => "sshproxy_commands_total".toList.isPrefixOf c.text.toList) = commandCounters := by
  have hcommands : ∀ c ∈ commandCounters, "sshproxy_commands_total".toList.isPrefixOf c.text.toList = true := by
    intro c hc
    rw [List.isPrefixOf_iff_prefix]
    obtain ⟨kind, -, hc⟩ := List.mem_flatMap.1 hc
    simp only [List.mem_cons, List.not_mem_nil, or_false] at hc
    rcases hc with rfl | rfl
    · exact isPrefix_text_commands kind true
    · exact isPrefix_text_commands kind false
  have hprobes : ∀ c ∈ [Counter.probes true, .probes false],
      ¬ "sshproxy_commands_total".toList.isPrefixOf c.text.toList = true := by decide +kernel
  have hall : Counter.all = commandCounters ++ [.probes true, .probes false] := rfl
  rw [hall, List.filter_append, List.filter_eq_self.2 hcommands, List.filter_eq_nil_iff.2 hprobes, List.append_nil]

/-- Each line that is done with adds one to one of them. -/
theorem sum_added (e : Event) :
    (commandCounters.map fun c => if Counter.of? e = some c then 1 else 0).sum = (Event.executed? e).toList.length := by
  cases e with
  | executed kind ok =>
    rcases kind with _ | kind
    · cases ok <;> simp [commandCounters, Counter.of?, Event.executed?, Command.Kind.all]
    · cases kind <;> cases ok <;> simp [commandCounters, Counter.of?, Event.executed?, Command.Kind.all]
  | _ => simp [commandCounters, Counter.of?, Event.executed?, Command.Kind.all]

theorem sum_commandCounters (t : Trace) :
    (commandCounters.map (·.value t)).sum = (t.collect Event.executed?).length := by
  induction t with
  | nil => rfl
  | cons e t ih =>
    simp only [Counter.value_cons, List.sum_map_add, ih, sum_added, collect_cons, List.length_append]

/-- Counters without a row would add nothing. -/
theorem sum_filter_pos (l : List Counter) (t : Trace) :
    ((l.filter (0 < ·.value t)).map (·.value t)).sum = (l.map (·.value t)).sum := by
  induction l with
  | nil => rfl
  | cons c l ih =>
    rw [List.filter_cons]
    split
    · simp only [List.map_cons, List.sum_cons, ih]
    · rename_i hc
      have hzero : c.value t = 0 := by simpa using hc
      rw [List.map_cons, List.sum_cons, hzero, Nat.zero_add, ih]

/-- The rows of command lines add up to the number of those that are done with. -/
theorem sum_commands (t : Trace) :
    (family "sshproxy_commands_total" t).sum = (t.collect Event.executed?).length := by
  have hgauges : (Gauge.all.filterMap fun g => (g.value t).map (g.text, ·)).filter
      (fun row => "sshproxy_commands_total".toList.isPrefixOf row.1.toList) = [] := by
    rw [List.filter_eq_nil_iff]
    intro row hrow
    obtain ⟨g, -, hvalue⟩ := List.mem_filterMap.1 hrow
    obtain ⟨n, -, rfl⟩ := Option.map_eq_some_iff.1 hvalue
    show ¬ "sshproxy_commands_total".toList.isPrefixOf g.text.toList = true
    cases g <;> decide +kernel
  unfold family metrics
  rw [List.filter_append, hgauges, List.append_nil, List.filter_map, List.map_map, List.filter_comm]
  simp only [Function.comp_def]
  rw [filter_all_commands, sum_filter_pos, sum_commandCounters]

end Trace

end SessionRouting
