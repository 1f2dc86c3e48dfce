import DoctypeProbe.Proofs.CommandLine.Ending
import Mathlib.Data.List.Basic

/-!
# Modes Are Remembered Without a Trace

A run remembers the modes that it has found. Nobody can tell from its records: each location has the
record that it has in a run of its own, however often, in whatever spelling and in whatever order
the locations are named. What comes of its locations is the same without the memory
(`Run.outcomes_of_sound`), so a run and the runs of its locations one by one have the same outcomes,
and a record is a function of its outcome.

Help is an exception among the options. It is shown once for a run, and once more for each run of a
single location.

## Main results

* `Run.conclude_of_plain`: the records and the status of a run, from outcomes without a memory.
* `Run.run_eq_alone`: a run, and runs of the same options with one location each.
-/

namespace DoctypeProbe

namespace Run

open Arguments Session

variable {plan : Plan} {s s₀ : Session}

/-! ### Whole runs -/

/-- **The records of a run** are those of its locations, each looked at as if it were the first. -/
theorem conclude_of_plain {locations : List Bytes}
    (hplain : ∀ location ∈ locations, Plain plan s₀ location) :
    (conclude plan locations s₀).2.printed = s₀.printed ++
        locations.map (fun l => entry plan.numeric l (outcomeAt plan s₀.files l)) ∧
      (conclude plan locations s₀).1 = statusOf (locations.map (outcomeAt plan s₀.files)) := by
  have houtcomes := outcomes_of_sound (sound_start plan s₀) hplain
  rw [printed_conclude, conclude_fst, houtcomes, List.zipWith_map_right, List.zipWith_self]
  exact ⟨rfl, rfl⟩

/-- The status of a run is the largest of those that its outcomes lead to one by one. -/
theorem max?_code_statusOf {outcomes : List (Except Failure Mode)} (h : outcomes ≠ []) :
    (outcomes.map fun outcome => (statusOf [outcome]).code).max? =
      some (statusOf outcomes).code := by
  have hok : ∀ mode, (statusOf [.ok mode]).code = 0 := fun _ => rfl
  have herror : ∀ e, (statusOf [.error e]).code = 1 := fun _ => rfl
  rw [List.max?_eq_some_iff]
  by_cases hall : outcomes.all (·.isOk) = true
  · have hcode : ∀ outcome ∈ outcomes, (statusOf [outcome]).code = 0 := by
      intro outcome hmem
      cases outcome with
      | ok mode => exact hok mode
      | error e => exact absurd hmem (all_isOk_iff.mp hall e)
    rw [code_statusOf_eq_zero_iff.mpr (all_isOk_iff.mp hall), List.forall_mem_map]
    obtain ⟨outcome, hmem⟩ := List.exists_mem_of_ne_nil outcomes h
    exact ⟨List.mem_map.mpr ⟨outcome, hmem, hcode outcome hmem⟩,
      fun outcome hmem => (hcode outcome hmem).le⟩
  · obtain ⟨e, he⟩ := not_forall_not.mp (mt all_isOk_iff.mpr hall)
    rw [code_statusOf_eq_one_iff.mpr ⟨e, he⟩, List.forall_mem_map]
    refine ⟨List.mem_map.mpr ⟨.error e, he, herror e⟩, fun outcome _ => ?_⟩
    cases outcome with
    | ok mode => exact (hok mode).le.trans (Nat.zero_le 1)
    | error e => exact (herror e).le

/-- The same arguments with one location are prepared for in the same way. -/
theorem prepare_alone {invocation : Invocation} (h : invocation.locations ≠ []) (l : Bytes)
    (s : Session) :
    prepare { invocation with locations := [l] } s = prepare invocation s := by
  simp only [prepare, prepareWith, planFor, List.isEmpty_eq_false_iff.mpr h, List.isEmpty_cons]

section

variable {args : List Bytes} {items : List Item}

/-- **A run with one of the locations** has the same preparations behind it. -/
theorem run_alone_of_prepare (hreads : Reads args items) (hhelp : .help ∉ items)
    (hprepare : prepare (requested items) s = (.ok plan, s₀)) {l : Bytes}
    (hmem : l ∈ items.filterMap Item.location?) :
    run (alone args l) s = conclude plan [l] s₀ := by
  rw [← requested_locations] at hmem
  have hparse := parse_alone (parse_of_reads hreads) hmem
  rw [run, runWith_eq_prepare _ hparse (help_eq_false hhelp),
    prepare_alone (List.ne_nil_of_mem hmem), hprepare, conclude]

/-- A run with one of the locations, where nothing has been written before, has its one record. -/
theorem run_alone_of_plain (hreads : Reads args items) (hhelp : .help ∉ items)
    (hprepare : prepare (requested items) s = (.ok plan, s₀)) (hempty : s₀.printed = [])
    {l : Bytes} (hmem : l ∈ items.filterMap Item.location?) (hplain : Plain plan s₀ l) :
    (run (alone args l) s).2.printed = [entry plan.numeric l (outcomeAt plan s₀.files l)] ∧
      (run (alone args l) s).1 = statusOf [outcomeAt plan s₀.files l] := by
  have hone := conclude_of_plain (List.forall_mem_singleton.mpr hplain)
  rw [hempty] at hone
  rw [run_alone_of_prepare hreads hhelp hprepare hmem]
  exact hone

/-- A location among items leads to the log file that a run opens. -/
def NamesLogFile (items : List Item) (s : Session) : Prop :=
  ∃ plan s₀ number, prepare (requested items) s = (.ok plan, s₀) ∧ s₀.logger.file = some number ∧
    ∃ location ∈ items.filterMap Item.location?, LeadsTo plan s₀.files location number

/-- Locations that are not standard input and do not lead to the log file are plain. -/
theorem plain_of_not_namesLogFile (hprepare : prepare (requested items) s = (.ok plan, s₀))
    (hinput : inputLocation ∉ items.filterMap Item.location?) (hlog : ¬NamesLogFile items s) :
    ∀ l ∈ items.filterMap Item.location?, Plain plan s₀ l := by
  intro l hmem
  refine ⟨fun hl => hinput (hl ▸ hmem), fun number hnumber hleads => ?_⟩
  exact hlog ⟨plan, s₀, number, hprepare, hnumber, l, hmem, hleads⟩

/-- **A run writes what runs of one location write.** Take arguments that can be read, without help
among them, that nothing is wrong with before the first location, and where no location is standard
input or the log file. Compare the run of these arguments with the runs of the same options with
one location each, all of them in the same files and with nothing written before. Then

* the run of one location writes its record, with what comes of looking at it when nothing is
  remembered;
* what the run writes to standard output, and the messages that it writes, are those of the other
  runs, one after the other in the order of the locations;
* its status is the largest of theirs;
* a location that has no mode is not remembered when the run gets to it, however often it has been
  named before, so it is looked at anew. -/
theorem run_eq_alone {s : Session} (hreads : Reads args items) (hhelp : .help ∉ items)
    (haccepted : Accepted items s.files)
    (hinput : inputLocation ∉ items.filterMap Item.location?) (hlog : ¬NamesLogFile items s)
    (hfresh : s.written = []) :
    let locations := items.filterMap Item.location?
    ∃ plan s₀, prepare (requested items) s = (.ok plan, s₀) ∧
      (∀ l ∈ locations, (run (alone args l) s).2.printed =
        [entry plan.numeric l (outcomeAt plan s₀.files l)]) ∧
      (run args s).2.results = locations.flatMap (fun l => (run (alone args l) s).2.results) ∧
      (run args s).2.messages = locations.flatMap (fun l => (run (alone args l) s).2.messages) ∧
      (locations.map fun l => (run (alone args l) s).1.code).max? = some (run args s).1.code ∧
      ∀ front l back, locations = front ++ l :: back → (run (alone args l) s).1.code = 1 →
        ¬Remembered plan l (visitAll plan front { session := s₀ }).2 := by
  intro locations
  obtain ⟨plan, s₀, hprepare, hprinted₀, -⟩ := exists_prepare haccepted
  have hempty : s₀.printed = [] := by rw [hprinted₀, printed, hfresh, List.filter_nil]
  have hplain : ∀ l ∈ locations, Plain plan s₀ l := plain_of_not_namesLogFile hprepare hinput hlog
  have halone := fun l (hmem : l ∈ locations) =>
    run_alone_of_plain hreads hhelp hprepare hempty hmem (hplain l hmem)
  obtain ⟨hprinted, hstatus⟩ := conclude_of_plain hplain
  rw [hempty, List.nil_append, ← run_of_prepare hreads hhelp hprepare] at hprinted
  rw [← run_of_prepare hreads hhelp hprepare] at hstatus
  have htexts : ∀ channel, textsFor channel (run args s).2.printed =
      locations.flatMap fun l => textsFor channel (run (alone args l) s).2.printed := by
    intro channel
    rw [hprinted, textsFor_map]
    exact List.flatMap_congr fun l hmem => by rw [(halone l hmem).1]
  refine ⟨plan, s₀, hprepare, fun l hmem => (halone l hmem).1, ?_, ?_, ?_, ?_⟩
  · simp only [results_eq]
    exact htexts .results
  · simp only [messages_eq]
    exact htexts .messages
  · have hne : locations.map (outcomeAt plan s₀.files) ≠ [] := by
      obtain ⟨_, husable, -⟩ := haccepted
      have hne := husable.locations_ne_nil
      rw [requested_locations] at hne
      exact mt List.map_eq_nil_iff.mp hne
    rw [hstatus, ← max?_code_statusOf hne, List.map_map]
    exact congrArg List.max? (List.map_congr_left fun l hmem => by rw [(halone l hmem).2]; rfl)
  · intro front l back hlocations hfails
    rw [hlocations, List.forall_mem_append, List.forall_mem_cons] at hplain halone
    rw [halone.2.1.2, code_statusOf_eq_one_iff] at hfails
    obtain ⟨e, he⟩ := hfails
    exact not_remembered_of_error (visitAll_of_sound (sound_start plan s₀) hplain.1)
      (List.mem_singleton.mp he).symm

theorem not_namesLogFile_sampleItems : ¬NamesLogFile sampleItems sampleSession := by
  rintro ⟨plan, s₀, number, hprepare, hnumber, -⟩
  have hnone : (prepare (requested sampleItems) sampleSession).2.logger.file = none := rfl
  rw [hprepare, hnumber] at hnone
  cases hnone

/-- A document in two spellings, with a missing one between them, is recorded in one run as it is in
three. -/
theorem run_sampleLocations :
    Reads sampleLocations sampleItems ∧ .help ∉ sampleItems ∧
    Accepted sampleItems sampleSession.files ∧ ¬NamesLogFile sampleItems sampleSession ∧
    (run sampleLocations sampleSession).2.results =
      sampleLocations.flatMap
        (fun l => (run (alone sampleLocations l) sampleSession).2.results) ∧
    (run sampleLocations sampleSession).2.messages =
      sampleLocations.flatMap
        (fun l => (run (alone sampleLocations l) sampleSession).2.messages) ∧
    (sampleLocations.map fun l => (run (alone sampleLocations l) sampleSession).1.code).max? =
      some (run sampleLocations sampleSession).1.code := by
  have hhelp : .help ∉ sampleItems := by decide
  have hinput : inputLocation ∉ sampleItems.filterMap Item.location? := by decide
  obtain ⟨plan, s₀, -, -, hresults, hmessages, hcode, -⟩ :=
    run_eq_alone reads_sampleLocations hhelp accepted_sampleItems hinput
      not_namesLogFile_sampleItems rfl
  exact ⟨reads_sampleLocations, hhelp, accepted_sampleItems, not_namesLogFile_sampleItems,
    hresults, hmessages, hcode⟩

theorem helpText_ne_nil : helpText ≠ [] := by
  intro hnil
  have hline := List.flatMap_eq_nil_iff.mp hnil _ List.mem_cons_self
  exact List.append_ne_nil_of_right_ne_nil _ (List.cons_ne_nil _ _) hline

theorem results_of_asksForHelp (h : AsksForHelp args) (hfresh : s.written = []) :
    (run args s).2.results = helpText := by
  rw [(run_of_asksForHelp h s).1, results, textOn_write, textOn, hfresh]
  rfl

/-- Help that is asked for together with the locations of the sample is shown once, and three times
in runs of one location each. -/
theorem run_help_sampleLocations :
    Reads (ascii "--help" :: sampleLocations) (.help :: sampleItems) ∧
    Accepted (.help :: sampleItems) sampleSession.files ∧
    (run (ascii "--help" :: sampleLocations) sampleSession).2.results ≠
      sampleLocations.flatMap fun l =>
        (run (alone (ascii "--help" :: sampleLocations) l) sampleSession).2.results := by
  have hreads : Reads (ascii "--help" :: sampleLocations) (.help :: sampleItems) :=
    .cons (.help rfl) reads_sampleLocations
  have halone : ∀ l ∈ sampleLocations,
      (run (alone (ascii "--help" :: sampleLocations) l) sampleSession).2.results = helpText := by
    intro l hmem
    have hloc : isLocation l = true := isLocation_of_reads reads_sampleLocations hmem
    have hone : Reads (alone (ascii "--help" :: sampleLocations) l) [.help, .location l] :=
      .cons (.help rfl) (.cons (.location hloc) .nil)
    exact results_of_asksForHelp ⟨_, hone, List.mem_cons_self⟩ rfl
  have haccepted : Accepted (.help :: sampleItems) sampleSession.files := by
    obtain ⟨settings, husable, hbase⟩ := accepted_sampleItems
    exact ⟨settings, ⟨husable.inForce, husable.knowsLogLevel, husable.canRead,
      List.cons_ne_nil _ _⟩, hbase⟩
  refine ⟨hreads, haccepted, ?_⟩
  rw [results_of_asksForHelp ⟨_, hreads, List.mem_cons_self⟩ rfl, List.flatMap_congr halone]
  intro hsame
  have hlength := congrArg List.length hsame
  have hpositive := List.length_pos_iff.mpr helpText_ne_nil
  simp only [sampleLocations, List.flatMap_cons, List.flatMap_nil, List.length_append] at hlength
  omega

end

end Run

end DoctypeProbe
