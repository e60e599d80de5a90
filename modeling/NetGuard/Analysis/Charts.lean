import NetGuard.Analysis.Views

/-! # The lists of the charts

A chart lists the entries of the analysis by the keys of its last sort. An insertion sorts
again when its log has a new package or a new destination, and the keys are read from the
applications of the entries, not from the map.
-/
namespace NetGuard.Analysis
open Service (Text)

namespace SessionLogAnalysisState
variable (s : SessionLogAnalysisState)

def listAnalysisByApplication : List TrafficLogByApplication :=
  s.applicationsSortedFiltered.filterMap s.analysisByApplication.get

def listAnalysisByDestination : List TrafficLogByDestination :=
  s.destinationsSortedFiltered.filterMap s.analysisByDestination.get

end SessionLogAnalysisState

/-- No entry is missing in the lists, and none is listed twice. -/
structure Complete (s : SessionLogAnalysisState) : Prop where
  applications : s.listAnalysisByApplication.Perm s.analysisByApplication.values
  destinations : s.listAnalysisByDestination.Perm s.analysisByDestination.values
  packages : (s.applicationsSortedFiltered.filter
    fun k => (s.analysisByApplication.get k).isSome).Perm s.analysisByApplication.keys
  destinationKeys : (s.destinationsSortedFiltered.filter
    fun k => (s.analysisByDestination.get k).isSome).Perm s.analysisByDestination.keys

/-- A package that no insertion of `ins` was kept under is listed under its name: its
application has that name, and the log makes the lists be sorted again. -/
def Shown (ins : List Insertion) (i : Insertion) : Prop :=
  (∀ j ∈ ins, j.package ≠ i.package) →
    i.application.map Application.packageName = i.package ∧
      ((∀ j ∈ ins, j.package ≠ i.log.packageName) ∨
        ∀ j ∈ ins, j.log.destination ≠ i.log.destination)

section Listed
variable {ins : List Insertion} {s : SessionLogAnalysisState} {chart : Chart} {i : Insertion}

theorem perm_filter_isSome {κ ν : Type} [DecidableEq κ] {m : OrderedMap κ ν} {l : List κ}
    (h : l.Perm m.keys) : (l.filter fun k => (m.get k).isSome).Perm m.keys := by
  have hall : (l.filter fun k => (m.get k).isSome) = l := by
    rw [List.filter_eq_self]
    intro k hk
    exact Option.isSome_iff_exists.mpr (OrderedMap.mem_keys_iff.mp (h.mem_iff.mp hk))
  rwa [hall]

/-- The lists as they are while every key is that of its entry. -/
structure Listed (ins : List Insertion) (s : SessionLogAnalysisState) : Prop where
  built : Built ins s
  application : ∀ k a, s.analysisByApplication.get k = some a →
    a.application.map Application.packageName = k
  destination : ∀ k a, s.analysisByDestination.get k = some a → a.destination = k
  packages : s.applicationsSortedFiltered.Perm s.analysisByApplication.keys
  destinationKeys : s.destinationsSortedFiltered.Perm s.analysisByDestination.keys

theorem listed_initial : Listed [] .initial :=
  ⟨built_initial, nofun, nofun, List.Perm.nil, List.Perm.nil⟩

theorem Listed.complete (h : Listed ins s) : Complete s where
  applications := OrderedMap.perm_values h.packages
  destinations := OrderedMap.perm_values h.destinationKeys
  packages := perm_filter_isSome h.packages
  destinationKeys := perm_filter_isSome h.destinationKeys

theorem Built.mem_packages (h : Built ins s) {k : Option Text} :
    k ∈ s.analysisByApplication.keys ↔ ∃ j ∈ ins, j.package = k := by
  rw [h.analysisByApplication]
  exact OrderedMap.mem_keys_collect

theorem Built.mem_destinations (h : Built ins s) {k : Text} :
    k ∈ s.analysisByDestination.keys ↔ ∃ j ∈ ins, j.log.destination = k := by
  rw [h.analysisByDestination]
  exact OrderedMap.mem_keys_collect

theorem insert_analysis (chart : Chart) (i : Insertion) (s : SessionLogAnalysisState) :
    (s.insert chart i).analysisByApplication = s.analysisByApplication.upsert i.package
        ⟨.initial, i.application⟩ (TrafficLogByApplication.add i.log) ∧
      (s.insert chart i).analysisByDestination = s.analysisByDestination.upsert i.log.destination
        ⟨.initial, i.log.destination⟩ (TrafficLogByDestination.add i.log) := by
  simp only [SessionLogAnalysisState.insert]
  split <;> exact ⟨OrderedMap.add_getD, OrderedMap.add_getD⟩

/-- The lists after an insertion, sorted again or left. -/
theorem insert_lists (hchart : chart.filterApplications = []) :
    ((i.log.packageName ∉ s.analysisByApplication.keys ∨
        i.log.destination ∉ s.analysisByDestination.keys) ∧
      (s.insert chart i).applicationsSortedFiltered.Perm
        ((s.insert chart i).analysisByApplication.values.map
          fun a => a.application.map Application.packageName) ∧
      (s.insert chart i).destinationsSortedFiltered.Perm
        ((s.insert chart i).analysisByDestination.values.map fun a => a.destination)) ∨
    (i.log.packageName ∈ s.analysisByApplication.keys ∧
        i.log.destination ∈ s.analysisByDestination.keys) ∧
      (s.insert chart i).applicationsSortedFiltered = s.applicationsSortedFiltered ∧
      (s.insert chart i).destinationsSortedFiltered = s.destinationsSortedFiltered := by
  simp only [SessionLogAnalysisState.insert]
  split
  next hnew =>
    left
    refine ⟨hnew, ?_, ?_⟩
    · simp only [SessionLogAnalysisState.applySortAndFilter, hchart, List.isEmpty_nil,
        Bool.true_or, List.filter_true]
      exact (chart.sortApplications_perm _).map _
    · exact (chart.sortDestinations_perm _).map _
  next hold =>
    rw [not_or, not_not, not_not] at hold
    exact .inr ⟨hold, rfl, rfl⟩

/-- The keys of the map stay, and the key of the insertion is among them. -/
theorem mem_insert_packages {k : Option Text} :
    k ∈ (s.insert chart i).analysisByApplication.keys ↔
      k = i.package ∨ k ∈ s.analysisByApplication.keys := by
  rw [(insert_analysis chart i s).1, OrderedMap.mem_keys_iff, OrderedMap.get_upsert,
    OrderedMap.mem_keys_iff]
  by_cases hk : k = i.package <;> simp [hk]

theorem Listed.insert (h : Listed ins s) (hchart : chart.filterApplications = [])
    (hshown : Shown ins i) : Listed (ins ++ [i]) (s.insert chart i) := by
  obtain ⟨hanalysis, hanalysis'⟩ := insert_analysis chart i s
  have hlabel : s.analysisByApplication.get i.package = none →
      i.application.map Application.packageName = i.package := by
    intro hnone
    refine (hshown ?_).1
    intro j hj hpackage
    obtain ⟨a, ha⟩ := OrderedMap.mem_keys_iff.mp (h.built.mem_packages.mpr ⟨j, hj, hpackage⟩)
    rw [hnone] at ha
    exact absurd ha nofun
  have happlication : ∀ k a, (s.insert chart i).analysisByApplication.get k = some a →
      a.application.map Application.packageName = k := by
    rw [hanalysis]
    exact OrderedMap.forall_get_upsert h.application hlabel fun _ hv => hv
  have hdestination : ∀ k a, (s.insert chart i).analysisByDestination.get k = some a →
      a.destination = k := by
    rw [hanalysis']
    exact OrderedMap.forall_get_upsert h.destination (fun _ => rfl) fun _ hv => hv
  refine ⟨h.built.insert chart i, happlication, hdestination, ?_, ?_⟩
  · obtain ⟨-, hsorted, -⟩ | ⟨⟨hpackage, hdest⟩, hleft, -⟩ := insert_lists (s := s) (i := i) hchart
    · rwa [OrderedMap.map_values fun e he => happlication e.1 e.2 (OrderedMap.get_eq_some_iff.mpr he)]
        at hsorted
    · -- the lists were left, so the package of the insertion is not a new one
      have hold : i.package ∈ s.analysisByApplication.keys := by
        by_contra hnew
        have hnone : ∀ j ∈ ins, j.package ≠ i.package :=
          fun j hj hj' => hnew (h.built.mem_packages.mpr ⟨j, hj, hj'⟩)
        rcases (hshown hnone).2 with hfresh | hfresh
        · obtain ⟨j, hj, hj'⟩ := h.built.mem_packages.mp hpackage
          exact hfresh j hj hj'
        · obtain ⟨j, hj, hj'⟩ := h.built.mem_destinations.mp hdest
          exact hfresh j hj hj'
      rw [hleft, hanalysis, OrderedMap.keys_upsert_of_mem hold]
      exact h.packages
  · obtain ⟨-, -, hsorted⟩ | ⟨⟨-, hdest⟩, -, hleft⟩ := insert_lists (s := s) (i := i) hchart
    · rwa [OrderedMap.map_values fun e he => hdestination e.1 e.2 (OrderedMap.get_eq_some_iff.mpr he)]
        at hsorted
    · rw [hleft, hanalysis', OrderedMap.keys_upsert_of_mem hdest]
      exact h.destinationKeys

/-- A new package that is not shown is in the map, but not in the list. -/
theorem Listed.shown_of_complete (h : Listed ins s) (hchart : chart.filterApplications = [])
    (hcomplete : Complete (s.insert chart i)) : Shown ins i := by
  intro hnone
  have hnew : i.package ∉ s.analysisByApplication.keys := by
    rw [h.built.mem_packages]
    rintro ⟨j, hj, hj'⟩
    exact hnone j hj hj'
  have hmem : i.package ∈ (s.insert chart i).applicationsSortedFiltered := by
    have hkey : i.package ∈ (s.insert chart i).analysisByApplication.keys :=
      mem_insert_packages.mpr (.inl rfl)
    exact List.mem_of_mem_filter (hcomplete.packages.mem_iff.mpr hkey)
  obtain ⟨hfires, hsorted, -⟩ | ⟨-, hleft, -⟩ := insert_lists (s := s) (i := i) hchart
  · refine ⟨?_, ?_⟩
    · rw [hsorted.mem_iff, List.mem_map] at hmem
      obtain ⟨a, ha, hname⟩ := hmem
      obtain ⟨k, hk⟩ := OrderedMap.mem_values_iff.mp ha
      rw [(insert_analysis chart i s).1, OrderedMap.get_upsert] at hk
      split at hk
      · obtain rfl := Option.some.inj hk
        cases hget : s.analysisByApplication.get i.package with
        | none => rwa [hget] at hname
        | some a => exact absurd (OrderedMap.mem_keys_iff.mpr ⟨a, hget⟩) hnew
      · -- the entries before are labelled with keys that are not new
        have hkey := h.application k a hk
        rw [hname] at hkey
        exact absurd (OrderedMap.mem_keys_iff.mpr ⟨a, hkey ▸ hk⟩) hnew
    · rcases hfires with hpackage | hdest
      · left
        intro j hj hj'
        exact hpackage (h.built.mem_packages.mpr ⟨j, hj, hj'⟩)
      · right
        intro j hj hj'
        exact hdest (h.built.mem_destinations.mpr ⟨j, hj, hj'⟩)
  · rw [hleft, h.packages.mem_iff] at hmem
    exact absurd hmem hnew

end Listed

section Complete

theorem insertAll_concat (calls : List (Chart × Insertion)) (call : Chart × Insertion) :
    insertAll (calls ++ [call]) = (insertAll calls).insert call.1 call.2 := by
  rw [insertAll, SessionLogAnalysisState.run, List.map_append, List.foldl_append]
  rfl

/-- The lists are complete after each of the insertions. -/
def AlwaysComplete (calls : List (Chart × Insertion)) : Prop :=
  ∀ before, before <+: calls → Complete (insertAll before)

/-- Each of the insertions that brings a new package shows it. -/
def AlwaysShown (calls : List (Chart × Insertion)) : Prop :=
  ∀ before call, before ++ [call] <+: calls → Shown (before.map Prod.snd) call.2

theorem alwaysComplete_concat {calls : List (Chart × Insertion)} {call : Chart × Insertion} :
    AlwaysComplete (calls ++ [call]) ↔
      AlwaysComplete calls ∧ Complete (insertAll (calls ++ [call])) := by
  simp only [AlwaysComplete, List.prefix_concat_iff, or_imp, forall_and, forall_eq]
  exact and_comm

theorem alwaysShown_concat {calls : List (Chart × Insertion)} {call : Chart × Insertion} :
    AlwaysShown (calls ++ [call]) ↔
      AlwaysShown calls ∧ Shown (calls.map Prod.snd) call.2 := by
  constructor
  · intro h
    exact ⟨fun before c hbefore => h before c (hbefore.trans (List.prefix_append _ _)),
      h calls call List.prefix_rfl⟩
  · rintro ⟨hbefore, hlast⟩ before c hprefix
    rcases List.prefix_concat_iff.mp hprefix with heq | hprefix
    · obtain ⟨rfl, hsingle⟩ := List.append_inj' heq rfl
      obtain rfl := List.singleton_inj.mp hsingle
      exact hlast
    · exact hbefore before c hprefix

theorem listed_insertAll {calls : List (Chart × Insertion)}
    (hcharts : ∀ call ∈ calls, call.1.filterApplications = []) (hshown : AlwaysShown calls) :
    Listed (calls.map Prod.snd) (insertAll calls) := by
  induction calls using List.reverseRecOn with
  | nil => exact listed_initial
  | append_singleton calls call ih =>
    obtain ⟨hbefore, hlast⟩ := alwaysShown_concat.mp hshown
    have hlisted := ih (fun c hc => hcharts c (List.mem_append_left _ hc)) hbefore
    rw [insertAll_concat, List.map_append]
    exact hlisted.insert (hcharts call (by simp)) hlast

/-- The lists are complete after every insertion exactly if each insertion that brings a
new package shows it. -/
theorem alwaysComplete_iff (calls : List (Chart × Insertion))
    (hcharts : ∀ call ∈ calls, call.1.filterApplications = []) :
    AlwaysComplete calls ↔ AlwaysShown calls := by
  induction calls using List.reverseRecOn with
  | nil =>
    refine iff_of_true ?_ ?_
    · intro before hbefore
      obtain rfl := List.prefix_nil.mp hbefore
      exact listed_initial.complete
    · intro before call hprefix
      exact absurd (List.prefix_nil.mp hprefix) (by simp)
  | append_singleton calls call ih =>
    have hbefore : ∀ c ∈ calls, c.1.filterApplications = [] :=
      fun c hc => hcharts c (List.mem_append_left _ hc)
    have hchart := hcharts call (by simp)
    rw [alwaysComplete_concat, alwaysShown_concat, ih hbefore]
    apply and_congr_right
    intro hshown
    have hlisted := listed_insertAll hbefore hshown
    rw [insertAll_concat]
    constructor
    · exact hlisted.shown_of_complete hchart
    · intro hlast
      exact (hlisted.insert hchart hlast).complete

end Complete

section Sample

/-- The second log is of the application and the destination of the first, and leaves the
lists. -/
theorem alwaysComplete_sample :
    AlwaysShown [(.plain, .sampleKnown), (.plain, .sampleKnown)] ∧
      AlwaysComplete [(.plain, .sampleKnown), (.plain, .sampleKnown)] := by
  have hcharts : ∀ call ∈ [(Chart.plain, Insertion.sampleKnown), (.plain, .sampleKnown)],
      call.1.filterApplications = [] := by
    simp [Chart.plain]
  have hshown : AlwaysShown [(.plain, .sampleKnown), (.plain, .sampleKnown)] := by
    have hnone : AlwaysShown [] := by
      intro before call hprefix
      exact absurd (List.prefix_nil.mp hprefix) (by simp)
    have hfirst : AlwaysShown ([] ++ [(.plain, .sampleKnown)]) :=
      alwaysShown_concat.mpr ⟨hnone, fun _ => ⟨by decide, .inl nofun⟩⟩
    have hsecond : AlwaysShown ([(.plain, .sampleKnown)] ++ [(.plain, .sampleKnown)]) := by
      refine alwaysShown_concat.mpr ⟨hfirst, fun hnew => ?_⟩
      exact absurd rfl (hnew _ (List.mem_singleton_self _))
    exact hsecond
  exact ⟨hshown, (alwaysComplete_iff _ hcharts).mpr hshown⟩

/-- An application is known when its first log comes, and removed before its second. The
second log is kept under no package, which is not listed. -/
theorem not_alwaysComplete :
    (insertAll [(.plain, .sampleKnown), (.plain, .sample 2 80 true)]).analysisByApplication.keys =
        [some "app".toList, none] ∧
      (insertAll [(.plain, .sampleKnown), (.plain, .sample 2 80 true)]).applicationsSortedFiltered =
        [some "app".toList] ∧
      ¬ AlwaysComplete [(.plain, .sampleKnown), (.plain, .sample 2 80 true)] := by
  refine ⟨by decide, by decide, ?_⟩
  intro h
  have hlength := (h _ List.prefix_rfl).applications.length_eq
  exact absurd hlength (by decide)

end Sample

end NetGuard.Analysis
