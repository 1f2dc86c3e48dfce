import DoctypeProbe.Proofs.CommandLine.Arguments
import DoctypeProbe.Proofs.CommandLine.Memory
import DoctypeProbe.Proofs.CommandLine.Preparation

/-!
# How a Run Ends

A run ends in one of three ways. It is refused if something is wrong before the first location: an
argument, the settings file, a setting, or that there is no location. It shows the help text and
does nothing else if the arguments can be read and help is among them; the settings are not looked
at then. Otherwise it records every location, and its status says whether any of them has failed.

A run that is refused has not looked at any location. A run is parametric in how locations are
looked at (`Run.runWith`), and a refused one is the same for every way of looking at them. Its
message shows it too: it depends on the arguments and the table of the settings file alone.

One thing that can be wrong is no fault of the arguments. Where no base directory is set, relative
locations are resolved against the working directory, which may have been taken away
(`Run.Anchored`). Such a run ends as a refused one does, with a message of its own.

## Main results

* `Run.refused_iff`: the reasons to refuse a run, as one condition.
* `Run.run_of_refused`, `Run.run_of_asksForHelp`, `Run.run_of_accepted`: the three ways.
* `Run.run_ends`: the three ways together.
* `Run.run_of_not_anchored`: a run without a directory to resolve locations against.
-/

namespace DoctypeProbe

namespace Run

open Arguments

/-! ### The ways -/

/-- The arguments can be read, and help is among them. -/
def AsksForHelp (args : List Bytes) : Prop := ∃ items, Reads args items ∧ .help ∈ items

/-- The reasons to refuse a run. -/
inductive Refused (args : List Bytes) (files : FileSystem) : Prop
  /-- An argument is invalid. -/
  | argument (h : ¬∃ items, Reads args items)
  /-- The settings file has no table, or one with a value that cannot be used. -/
  | settingsFile {items : List Item} (h : Reads args items) (hhelp : .help ∉ items)
      (hnone : ¬∃ settings, (requested items).settings.InForce files settings)
  /-- The log level is unknown. -/
  | logLevel {items : List Item} {settings : Settings} (h : Reads args items)
      (hhelp : .help ∉ items) (hsettings : (requested items).settings.InForce files settings)
      (hlevel : ¬settings.KnowsLogLevel)
  /-- The charset is unknown, or the read buffer has no size. -/
  | reading {items : List Item} {settings : Settings} (h : Reads args items)
      (hhelp : .help ∉ items) (hsettings : (requested items).settings.InForce files settings)
      (hread : ¬settings.CanRead)
  /-- There is no location. -/
  | noLocation {items : List Item} (h : Reads args items) (hhelp : .help ∉ items)
      (hnone : items.filterMap Item.location? = [])

/-- Nothing is wrong with what items ask for, before the first location. -/
def Accepted (items : List Item) (files : FileSystem) : Prop :=
  ∃ settings, Usable (requested items) files settings ∧ settings.HasBase files

/-- Relative locations have a base directory: one is set, or the working directory is there. -/
def Anchored (args : List Bytes) (files : FileSystem) : Prop :=
  ∀ items settings, Reads args items → (requested items).settings.InForce files settings →
    settings.HasBase files

variable {args : List Bytes} {items : List Item} {files : FileSystem} {s s' : Session}

theorem anchored_of_hasWorkingDirectory (h : files.HasWorkingDirectory) : Anchored args files :=
  fun _ _ _ _ => Or.inr h

/-- **A run is refused** exactly if its arguments cannot be read, or help is not among them and
what they ask for is invalid. -/
theorem refused_iff :
    Refused args files ↔
      (¬∃ items, Reads args items) ∨
        ∃ items, Reads args items ∧ .help ∉ items ∧
          ¬∃ settings, Usable (requested items) files settings := by
  constructor
  · intro h
    cases h with
    | argument h => exact .inl h
    | settingsFile h hhelp hnone =>
        exact .inr ⟨_, h, hhelp, fun ⟨settings, husable⟩ => hnone ⟨settings, husable.inForce⟩⟩
    | logLevel h hhelp hsettings hlevel =>
        refine .inr ⟨_, h, hhelp, fun ⟨settings', husable⟩ => ?_⟩
        exact hlevel (hsettings.unique husable.inForce ▸ husable.knowsLogLevel)
    | reading h hhelp hsettings hread =>
        refine .inr ⟨_, h, hhelp, fun ⟨settings', husable⟩ => ?_⟩
        exact hread (hsettings.unique husable.inForce ▸ husable.canRead)
    | noLocation h hhelp hnone =>
        refine .inr ⟨_, h, hhelp, fun ⟨settings, husable⟩ => husable.locations_ne_nil ?_⟩
        rw [requested_locations, hnone]
  · rintro (h | ⟨items, h, hhelp, hwrong⟩)
    · exact .argument h
    · by_cases hsettings : ∃ settings, (requested items).settings.InForce files settings
      · obtain ⟨settings, hsettings⟩ := hsettings
        by_cases hlevel : settings.KnowsLogLevel
        · by_cases hread : settings.CanRead
          · refine .noLocation h hhelp (Classical.byContradiction fun hlocations => ?_)
            rw [← requested_locations] at hlocations
            exact hwrong ⟨settings, hsettings, hlevel, hread, hlocations⟩
          · exact .reading h hhelp hsettings hread
        · exact .logLevel h hhelp hsettings hlevel
      · exact .settingsFile h hhelp hsettings

theorem parse_of_reads (h : Reads args items) : parse args = (.ok (), requested items) :=
  parse_eq_ok_iff.mpr ⟨items, h, rfl⟩

theorem help_eq_false (h : .help ∉ items) : (requested items).help = false :=
  Bool.eq_false_iff.mpr (mt requested_help.mp h)

/-! ### Refused runs -/

/-- A run that is refused writes its message, and reads nothing. -/
structure RefusedWith (text : Bytes) (s : Session) (ended : Status × Session) : Prop where
  /-- The status says so. -/
  code : ended.1.code = 2
  /-- One message has been written, and nothing to standard output. -/
  printed : ended.2.printed =
    s.printed ++ [(.messages, ascii "xmlmode: " ++ text ++ ascii "\n")]
  /-- Standard input stands where it stood. -/
  input : ended.2.input = s.input

/-- A run looks at no location: it is the same, whatever looking at its locations would do. -/
def LooksAtNothing (args : List Bytes) (s : Session) : Prop :=
  ∀ look, runWith look args s = run args s

/-- A run that ends in one way, whatever looking at its locations would do, looks at none. -/
theorem looksAtNothing_of_forall {ended : Status × Session}
    (h : ∀ look, runWith look args s = ended) : run args s = ended ∧ LooksAtNothing args s :=
  ⟨h visitAll, fun look => (h look).trans (h visitAll).symm⟩

theorem refusedWith_refuse (s : Session) (text : Bytes) :
    RefusedWith text.untilNul s (refuse s text) := by
  refine ⟨rfl, ?_, rfl⟩
  rw [refuse, Session.printed_write (nofun : Channel.messages ≠ .console), messageLine_eq]

/-- **A run whose preparation fails** is refused with the message of the failure. -/
theorem run_of_prepare_error {text : Bytes} (h : Reads args items) (hhelp : .help ∉ items)
    (hprepare : (prepare (requested items) s).1 = .error text) :
    RefusedWith text.untilNul s (run args s) ∧ LooksAtNothing args s := by
  have hrun : ∀ look, runWith look args s = refuse (prepare (requested items) s).2 text := by
    intro look
    rw [runWith_eq_prepare look (parse_of_reads h) (help_eq_false hhelp)]
    rcases hs : prepare (requested items) s with ⟨outcome, s'⟩
    rw [hs] at hprepare
    obtain rfl : outcome = .error text := hprepare
    rfl
  obtain ⟨hends, hnothing⟩ := looksAtNothing_of_forall hrun
  obtain ⟨hprinted, hinput⟩ := prepare_quiet (requested items) s
  obtain ⟨hcode, hmessage, hrest⟩ := refusedWith_refuse (prepare (requested items) s).2 text
  rw [hends]
  exact ⟨⟨hcode, hmessage.trans (congrArg (· ++ _) hprinted), hrest.trans hinput⟩, hnothing⟩

/-- The settings file that arguments name has the same table in two sessions. -/
def SameSettings (args : List Bytes) (s s' : Session) : Prop :=
  ∀ items, Reads args items → (requested items).settings.SameTable s.files s'.files

/-- **A run is refused** with a message that the locations and standard input have no part in. -/
theorem run_of_refused (h : Refused args s.files) :
    ∃ text, ∀ s', SameSettings args s s' →
      RefusedWith text s' (run args s') ∧ LooksAtNothing args s' := by
  -- the arguments have failed, or a step of the preparation has
  rcases refused_iff.mp h with hnone | ⟨items, hreads, hhelp, hwrong⟩
  · obtain ⟨e, he⟩ := parse_eq_error_iff.mpr hnone
    refine ⟨e.message.untilNul, fun s' _ => ?_⟩
    have hrun : ∀ look, runWith look args s' = refuse s' e.message := by
      intro look
      rw [runWith]
      rcases hparse : parse args with ⟨outcome, invocation⟩
      rw [hparse] at he
      obtain rfl : outcome = .error e := he
      rfl
    obtain ⟨hends, hnothing⟩ := looksAtNothing_of_forall hrun
    exact ⟨hends ▸ refusedWith_refuse s' e.message, hnothing⟩
  · obtain ⟨text, hprepare⟩ := exists_prepare_error hwrong
    exact ⟨text.untilNul, fun s' hsame =>
      run_of_prepare_error hreads hhelp (hprepare s' (hsame items hreads))⟩

/-- **A run without a directory to resolve locations against** ends as a refused one does, with a
message of its own. -/
theorem run_of_not_anchored (hrefused : ¬Refused args s.files) (hhelp : ¬AsksForHelp args)
    (h : ¬Anchored args s.files) :
    RefusedWith Settings.noWorkingDirectory s (run args s) ∧ LooksAtNothing args s := by
  simp only [Anchored, not_forall] at h
  obtain ⟨items, settings, hreads, hsettings, hbase⟩ := h
  have hnohelp : .help ∉ items := fun hmem => hhelp ⟨items, hreads, hmem⟩
  obtain ⟨settings', husable⟩ : ∃ settings, Usable (requested items) s.files settings :=
    not_not.mp fun hwrong => hrefused (refused_iff.mpr (.inr ⟨items, hreads, hnohelp, hwrong⟩))
  obtain ⟨options, files, hprepare⟩ := prepare_of_usable husable
  rw [hsettings.unique husable.inForce] at hbase
  rw [if_neg hbase] at hprepare
  have htext : Settings.noWorkingDirectory.untilNul = Settings.noWorkingDirectory := by
    decide +kernel
  exact htext ▸ run_of_prepare_error hreads hnohelp hprepare

/-- A run in a directory that has been taken away. -/
example : (run [ascii "a.xml"]
    { files := { workingDirectory := [ascii "d"] }, input := none,
      stamp := ⟨⟨2000, 1, 1, 0, 0, 0, 0⟩, 0⟩ }).2.printed =
    [(.messages, ascii "xmlmode: filesystem error: cannot get current path: " ++
      ascii "No such file or directory\n")] := by
  decide +kernel

/-! ### Help -/

/-- **Help is shown** on standard output, and nothing else is done. -/
theorem run_of_asksForHelp (h : AsksForHelp args) (s : Session) :
    run args s = (.ok, s.write .results helpText) ∧ LooksAtNothing args s := by
  obtain ⟨items, hreads, hhelp⟩ := h
  refine looksAtNothing_of_forall fun look => ?_
  rw [runWith, parse_of_reads hreads]
  exact if_pos (requested_help.mpr hhelp)

/-! ### Runs that look at locations -/

theorem printed_conclude (plan : Plan) (locations : List Bytes) (s : Session) :
    (conclude plan locations s).2.printed =
      s.printed ++ List.zipWith (entry plan.numeric) locations
        (outcomes plan locations { session := s }) :=
  printed_visitAll plan locations { session := s }

/-- How a run ends that has come to outcomes. -/
def statusOf (outcomes : List (Except Failure Mode)) : Status :=
  if outcomes.all (·.isOk) then .ok else .detectionFailed

theorem conclude_fst (plan : Plan) (locations : List Bytes) (s : Session) :
    (conclude plan locations s).1 = statusOf (outcomes plan locations { session := s }) := by
  rw [statusOf, ← visitAll_fst]
  rfl

/-- All outcomes are modes exactly if none is a failure. -/
theorem all_isOk_iff {outcomes : List (Except Failure Mode)} :
    outcomes.all (·.isOk) = true ↔ ∀ e, .error e ∉ outcomes := by
  rw [List.all_eq_true]
  constructor
  · intro h e he
    exact Bool.false_ne_true (h _ he)
  · intro h outcome hmem
    cases outcome with
    | ok mode => rfl
    | error e => exact absurd hmem (h e)

theorem code_statusOf_eq_zero_iff {outcomes : List (Except Failure Mode)} :
    (statusOf outcomes).code = 0 ↔ ∀ e, .error e ∉ outcomes := by
  rw [← all_isOk_iff, statusOf]
  cases outcomes.all (·.isOk) with
  | true => exact iff_of_true rfl rfl
  | false => exact iff_of_false nofun nofun

theorem code_statusOf_eq_one_iff {outcomes : List (Except Failure Mode)} :
    (statusOf outcomes).code = 1 ↔ ∃ e, .error e ∈ outcomes := by
  rw [← not_forall_not, ← all_isOk_iff, statusOf]
  cases outcomes.all (·.isOk) with
  | true => exact iff_of_false nofun fun h => h rfl
  | false => exact iff_of_true rfl nofun

/-- Every location of a run has been recorded, in order, and nothing else has been written. -/
structure Recorded (items : List Item) (s : Session) (ended : Status × Session)
    (outcomes : List (Except Failure Mode)) : Prop where
  /-- There is one outcome for each location. -/
  length : outcomes.length = (items.filterMap Item.location?).length
  /-- The records of the outcomes have been written, in order. -/
  printed : ended.2.printed = s.printed ++
    List.zipWith (entry (requested items).numeric) (items.filterMap Item.location?) outcomes
  /-- The status is 1 if a location has failed. -/
  code_eq_one_iff : ended.1.code = 1 ↔ ∃ e, .error e ∈ outcomes
  /-- The status is 0 if none has. -/
  code_eq_zero_iff : ended.1.code = 0 ↔ ∀ e, .error e ∉ outcomes

/-- What is accepted is prepared for, and nothing is written by then. -/
theorem exists_prepare (h : Accepted items s.files) :
    ∃ plan s₀, prepare (requested items) s = (.ok plan, s₀) ∧ s₀.printed = s.printed ∧
      plan.numeric = (requested items).numeric := by
  obtain ⟨plan, hplan⟩ := prepare_succeeds_iff.mpr h
  exact ⟨plan, (prepare (requested items) s).2, Prod.ext hplan rfl,
    (prepare_quiet (requested items) s).1, numeric_of_prepare hplan⟩

/-- A run that is prepared looks at its locations. -/
theorem run_of_prepare {plan : Plan} {s₀ : Session} (h : Reads args items)
    (hhelp : .help ∉ items) (hprepare : prepare (requested items) s = (.ok plan, s₀)) :
    run args s = conclude plan (items.filterMap Item.location?) s₀ := by
  rw [run, runWith_eq_prepare _ (parse_of_reads h) (help_eq_false hhelp), hprepare,
    ← requested_locations, conclude]

/-- **Locations are recorded** if the arguments can be read and what they ask for is accepted. -/
theorem run_of_accepted (h : Reads args items) (hhelp : .help ∉ items)
    (haccepted : Accepted items s.files) :
    ∃ plan s₀, prepare (requested items) s = (.ok plan, s₀) ∧
      Recorded items s (run args s)
        (outcomes plan (items.filterMap Item.location?) { session := s₀ }) := by
  obtain ⟨plan, s₀, hprepare, hprinted, hnumeric⟩ := exists_prepare haccepted
  refine ⟨plan, s₀, hprepare, length_outcomes _ _ _, ?_, ?_, ?_⟩
  · rw [run_of_prepare h hhelp hprepare, printed_conclude, hprinted, hnumeric]
  · rw [run_of_prepare h hhelp hprepare, conclude_fst, code_statusOf_eq_one_iff]
  · rw [run_of_prepare h hhelp hprepare, conclude_fst, code_statusOf_eq_zero_iff]

/-! ### The three ways together -/

/-- **A run ends in one of three ways**, for all arguments, files and standard input.

* It is refused, exactly if an argument, the settings file or a setting is invalid or there is no
  location: the status is 2, one message and nothing else is written, standard input is not read,
  and no location is looked at.
* It shows the help text, if the arguments can be read and help is among them: the status is 0, and
  nothing else happens.
* It records every location, in order, with one line or one message for each: the status is 1 if
  one of them has failed, and 0 otherwise. The outcome of each is what comes of looking at it after
  those before, so a failure does not stop the run. The locations have to have a directory that they
  can be resolved against, as they have whenever the working directory is there
  (`run_of_not_anchored`). -/
theorem run_ends (args : List Bytes) (s : Session) :
    (Refused args s.files →
      ∃ text, ∀ s', SameSettings args s s' →
        RefusedWith text s' (run args s') ∧ LooksAtNothing args s') ∧
    (AsksForHelp args →
      run args s = (.ok, s.write .results helpText) ∧ LooksAtNothing args s) ∧
    (¬Refused args s.files → ¬AsksForHelp args → Anchored args s.files →
      ∃ items plan s₀, Reads args items ∧ prepare (requested items) s = (.ok plan, s₀) ∧
        Recorded items s (run args s)
          (outcomes plan (items.filterMap Item.location?) { session := s₀ })) := by
  refine ⟨run_of_refused, fun h => run_of_asksForHelp h s, fun hrefused hhelp hanchored => ?_⟩
  obtain ⟨hreads, hright⟩ := not_or.mp (mt refused_iff.mpr hrefused)
  obtain ⟨items, hreads⟩ := not_not.mp hreads
  have hnohelp : .help ∉ items := fun hmem => hhelp ⟨items, hreads, hmem⟩
  obtain ⟨settings, husable⟩ : ∃ settings, Usable (requested items) s.files settings :=
    not_not.mp fun hwrong => hright ⟨items, hreads, hnohelp, hwrong⟩
  have haccepted : Accepted items s.files :=
    ⟨settings, husable, hanchored items settings hreads husable.inForce⟩
  obtain ⟨plan, s₀, hprepare, hrecorded⟩ := run_of_accepted hreads hnohelp haccepted
  exact ⟨items, plan, s₀, hreads, hprepare, hrecorded⟩

/-! ### A sample -/

/-- A document that declares a document type, with standard input closed. -/
def sampleSession : Session where
  files :=
    { entries := [([ascii "a.xml"], .file 0)], contents := [(0, ascii "<!DOCTYPE r>")] }
  input := none
  stamp := ⟨⟨2000, 1, 1, 0, 0, 0, 0⟩, 0⟩

/-- A document that is there, one that is not, and the first one again in another spelling. -/
def sampleLocations : List Bytes := [ascii "a.xml", ascii "b.xml", ascii "./a.xml"]

/-- The locations of the sample as items. -/
def sampleItems : List Item := sampleLocations.map .location

/-- What comes of the locations of the sample. -/
def sampleOutcomes : List (Except Failure Mode) :=
  [.ok .dtd, .error (.io (.notFound (ascii "/b.xml"))), .ok .dtd]

theorem reads_sampleLocations : Reads sampleLocations sampleItems :=
  .cons (.location rfl) (.cons (.location rfl) (.cons (.location rfl) .nil))

theorem accepted_sampleItems : Accepted sampleItems sampleSession.files :=
  ⟨{}, ⟨.unnamed rfl, ⟨.info, by decide⟩, ⟨nofun, nofun⟩, List.cons_ne_nil _ _⟩, Or.inr rfl⟩

/-- The plan of the sample. -/
def samplePlan : Plan :=
  { options := {}, loader := Settings.loader {} sampleSession.files, numeric := false }

theorem prepare_sampleItems :
    prepare (requested sampleItems) sampleSession =
      (.ok samplePlan, (prepare (requested sampleItems) sampleSession).2) := rfl

/-- The first location and the last one lead to the document; nothing stands at the other one. -/
theorem outcomes_sampleLocations :
    outcomes samplePlan sampleLocations
      { session := (prepare (requested sampleItems) sampleSession).2 } = sampleOutcomes := by
  have hplain : ∀ l ∈ sampleLocations,
      Plain samplePlan (prepare (requested sampleItems) sampleSession).2 l := fun l hmem =>
    ⟨fun hinput => absurd (hinput ▸ hmem) (by decide), nofun⟩
  have hfiles : (prepare (requested sampleItems) sampleSession).2.files = sampleSession.files := rfl
  have hmode : Detector.modeAt samplePlan.options sampleSession.files (ascii "/a.xml") =
      .ok .dtd := by
    have hfirst : Detector.firstDecision .utf8 (ascii "<!DOCTYPE r>") = .dtd := by
      rw [Detector.firstDecision_eq_modeOf]
      decide +kernel
    exact congrArg Except.ok hfirst
  have hlocated : (samplePlan.loader.locate sampleSession.files (ascii "a.xml")).1 =
      .ok (.file (Path.ofText (ascii "/a.xml"))) := rfl
  have hagain : (samplePlan.loader.locate sampleSession.files (ascii "./a.xml")).1 =
      .ok (.file (Path.ofText (ascii "/a.xml"))) := rfl
  have hmissing : outcomeAt samplePlan sampleSession.files (ascii "b.xml") =
      .error (.io (.notFound (ascii "/b.xml"))) := rfl
  rw [outcomes_of_sound (sound_start _ _) hplain, hfiles]
  simp only [sampleLocations, sampleOutcomes, List.map_cons, List.map_nil, hmissing,
    outcomeAt_of_locate hlocated, outcomeAt_of_locate hagain]
  rw [Path.text_ofText, hmode]

/-- No arguments are refused with a message, help is shown, and the locations of the sample have
their records: two lines, and a message between them. -/
theorem run_samples :
    RefusedWith (ascii "no input locations given (try --help)") sampleSession
      (run [] sampleSession) ∧
    run [ascii "--help"] sampleSession = (.ok, sampleSession.write .results helpText) ∧
    (∃ items, Reads sampleLocations items ∧
      Recorded items sampleSession (run sampleLocations sampleSession) sampleOutcomes) ∧
    (run sampleLocations sampleSession).1.code = 1 ∧
    (run sampleLocations sampleSession).2.printed =
      [(.results, ascii "a.xml\tDTD\n"),
        (.messages, ascii "xmlmode: b.xml: I/O Error: resource not found: /b.xml\n"),
        (.results, ascii "./a.xml\tDTD\n")] := by
  refine ⟨?_, ?_, ?_⟩
  · have hrefused : Refused [] sampleSession.files := .noLocation .nil List.not_mem_nil rfl
    obtain ⟨text, hrun⟩ := (run_ends [] sampleSession).1 hrefused
    obtain ⟨hends, -⟩ := hrun sampleSession fun _ _ _ _ => rfl
    -- the message that has been written is the one for no locations
    have hprinted : (run [] sampleSession).2.printed =
        [(.messages, ascii "xmlmode: " ++ noLocations ++ ascii "\n")] := by decide +kernel
    have htext : text = noLocations := by
      have hsame := hends.printed.symm.trans hprinted
      injection hsame with hrecord
      injection hrecord with _ hline
      exact List.append_cancel_left (List.append_cancel_right hline)
    rw [htext] at hends
    exact hends
  · have hasks : AsksForHelp [ascii "--help"] :=
      ⟨[.help], .cons (.help rfl) .nil, List.mem_cons_self⟩
    exact ((run_ends _ sampleSession).2.1 hasks).1
  · -- the items are those of the sample, whatever the reading
    have hrequested : ∀ items, Reads sampleLocations items →
        requested items = requested sampleItems := by
      intro items hreads
      have hparse := parse_of_reads hreads
      rw [parse_of_reads reads_sampleLocations] at hparse
      exact (Prod.mk.inj hparse).2.symm
    have hnotRefused : ¬Refused sampleLocations sampleSession.files := by
      rw [refused_iff]
      rintro (hnone | ⟨items, hreads, -, hwrong⟩)
      · exact hnone ⟨_, reads_sampleLocations⟩
      · obtain ⟨settings, husable, -⟩ := accepted_sampleItems
        exact hwrong ⟨settings, hrequested items hreads ▸ husable⟩
    have hnoHelp : ¬AsksForHelp sampleLocations := by
      rintro ⟨items, hreads, hhelp⟩
      have hasked := requested_help.mpr hhelp
      rw [hrequested items hreads] at hasked
      cases hasked
    have hanchored : Anchored sampleLocations sampleSession.files :=
      anchored_of_hasWorkingDirectory rfl
    obtain ⟨items, plan, s₀, hreads, hprepare, hrecorded⟩ :=
      (run_ends _ sampleSession).2.2 hnotRefused hnoHelp hanchored
    have hlocations : items.filterMap Item.location? = sampleLocations := by
      rw [← requested_locations, hrequested items hreads]
      rfl
    rw [hrequested items hreads, prepare_sampleItems] at hprepare
    cases hprepare
    rw [hlocations, outcomes_sampleLocations] at hrecorded
    refine ⟨⟨items, hreads, hrecorded⟩, hrecorded.code_eq_one_iff.mpr ?_, ?_⟩
    · exact ⟨_, List.mem_cons_of_mem _ List.mem_cons_self⟩
    · rw [hrecorded.printed, hlocations, hrequested items hreads]
      decide +kernel

end Run

end DoctypeProbe
