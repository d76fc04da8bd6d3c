import Pagefold.Command.Run
import Pagefold.Proofs.Records

/-! # Quiet runs

Nothing that a run notes in its log is an error (`Linker.errorFree_link`, `errorFree_runDirectory`), and a quiet run
tells of errors alone, so of its log it tells nothing (`text_quiet_eq_empty_iff`).  The other lines for standard
error are the summary of a folded build, which a quiet run leaves out, and the warnings of a linked script, which it
does not.  `quiet_run_told` says what a quiet run leaves on both streams. -/

namespace Pagefold

/-- Lines of some items are empty only if there is no such item. -/
theorem join_lines_eq_empty_iff {α : Type} {line : α → String} (hline : ∀ a, line a ≠ "") {p : α → Bool}
    {items : List α} : String.join ((items.filter p).map line) = "" ↔ ∀ a ∈ items, p a = false := by
  induction items with
  | nil => exact iff_of_true rfl nofun
  | cons a items ih =>
      rw [List.forall_mem_cons, ← ih, List.filter_cons]
      cases p a with
      | false => exact (and_iff_right rfl).symm
      | true =>
          refine iff_of_false (fun h => ?_) (fun h => Bool.noConfusion h.1)
          rw [if_pos rfl, List.map_cons, String.join_cons, String.append_eq_empty_iff] at h
          exact hline a h.1

end Pagefold

namespace Pagefold.Log

variable {log log' : List Event} {e : Event} {α : Type}

/-! ### Logs without errors -/

/-- No event of a log is an error. -/
def ErrorFree (log : List Event) : Prop := ∀ e ∈ log, e.level ≠ .error

@[simp]
theorem errorFree_nil : ErrorFree [] := nofun

@[simp]
theorem errorFree_cons : ErrorFree (e :: log) ↔ e.level ≠ .error ∧ ErrorFree log := List.forall_mem_cons

@[simp]
theorem errorFree_append : ErrorFree (log ++ log') ↔ ErrorFree log ∧ ErrorFree log' := List.forall_mem_append

@[simp]
theorem errorFree_map {note : α → Event} {items : List α} :
    ErrorFree (items.map note) ↔ ∀ a ∈ items, (note a).level ≠ .error := List.forall_mem_map

@[simp]
theorem errorFree_flatMap {notes : α → List Event} {items : List α} :
    ErrorFree (items.flatMap notes) ↔ ∀ a ∈ items, ErrorFree (notes a) := List.forall_mem_flatMap

/-! ### What a view shows -/

namespace Filter

theorem admits_uniform (v : Verbosity) (e : Event) : (uniform v).admits e = v.admits e.level := by
  rw [admits, verbosity_uniform]

end Filter

namespace View

variable {v : View}

theorem line_ne_empty (v : View) (e : Event) : v.line e ≠ "" := by
  rw [line, ne_eq, String.append_eq_empty_iff]
  exact fun h => absurd h.2 (by decide)

/-- Every event that is told takes a line. -/
theorem text_eq_empty_iff : v.text log = "" ↔ ∀ e ∈ log, v.filter.admits e = false :=
  join_lines_eq_empty_iff (line_ne_empty v)

end View

end Pagefold.Log

/-! ### The log of linking -/

namespace Pagefold.Link

open Script Log

variable {linker : Linker} {reference : String} {importer? : Option String} {flat : Flat}

theorem errorFree_segmentEvents (scope : Scope) (c : Chunk) (clauseSeen : Bool) (segments : List Segment) :
    ErrorFree (segmentEvents scope c clauseSeen segments) := by
  induction segments generalizing clauseSeen with
  | nil => exact errorFree_nil
  | cons segment rest ih =>
      cases segment with
      | code text => exact ih clauseSeen
      | statement text parsed =>
          unfold segmentEvents
          rw [errorFree_append, errorFree_append]
          refine ⟨⟨?_, by simp [collected]⟩, ih _⟩
          split
          · cases scope.target? c _ <;> simp
          · exact errorFree_nil

theorem errorFree_flatten (code : Dictionary String) (catalog : Catalog) (lead entry : String) :
    ErrorFree (flatten code catalog lead entry).log := by
  simp [flatten, collected, bodyEvents, errorFree_segmentEvents]

/-- Nothing that linking notes is an error. -/
theorem Linker.errorFree_link (h : linker.link reference importer? = .ok flat) : ErrorFree flat.log := by
  obtain ⟨located, _, h⟩ := Json.bind_eq_ok h
  have hflatten := errorFree_flatten linker.code linker.catalog linker.lead located.id
  dsimp only at h
  split at h
  · cases h
    exact errorFree_append.2 ⟨hflatten, by simp [collected]⟩
  · cases h
    exact hflatten

end Pagefold.Link

/-! ### The log of folding -/

namespace Pagefold.Fold

open Page Link Log

variable {ctx : Context} {document reference source : String} {tag : Tag}

theorem TagPlan.errorFree_ofFinding (f : Finding) : ErrorFree (ofFinding f).log := by simp [ofFinding, collected]

theorem errorFree_withoutPreload (flat : Flat) : ErrorFree (withoutPreload flat).2 := by
  unfold withoutPreload
  split <;> simp

theorem errorFree_planScript : ErrorFree (planScript ctx document tag source).log := by
  unfold planScript
  split
  · exact errorFree_nil
  · split
    · exact TagPlan.errorFree_ofFinding _
    · split
      · simp
      · rename_i entry _ _
        have hflat : ErrorFree (ctx.linker.flatten entry.id).log := errorFree_flatten _ _ _ _
        have hnotes := errorFree_withoutPreload (ctx.linker.flatten entry.id)
        dsimp only
        rw [errorFree_append, errorFree_append]
        refine ⟨⟨hflat, by simp [collected]⟩, ?_⟩
        split
        · exact hnotes
        · exact errorFree_nil

theorem errorFree_planStyle : ErrorFree (planStyle ctx document reference).log := by
  unfold planStyle
  split
  · exact errorFree_nil
  · split
    · exact TagPlan.errorFree_ofFinding _
    · split
      · exact errorFree_nil
      · split
        · exact TagPlan.errorFree_ofFinding _
        · exact errorFree_nil

theorem errorFree_planTag : ErrorFree (planTag ctx document tag).log := by
  unfold planTag
  split
  · exact errorFree_planScript
  · exact errorFree_planStyle
  · exact errorFree_nil

theorem Plan.errorFree_of : ErrorFree (Plan.of ctx document).log := by
  unfold Plan.of
  split
  · simp [ofUndecoded, collected]
  · simp [ofText, errorFree_planTag]

theorem Plan.errorFree_closingEvents (plan : Plan) : ErrorFree plan.closingEvents := by
  have hforwarded : ∀ f, (forwarded plan.name f).level ≠ .error := by
    intro f
    unfold forwarded
    cases f.severity <;> nofun
  simp [closingEvents, hforwarded]

/-- Nothing that a run on disk notes is an error. -/
theorem errorFree_runDirectory (options : Options) (selection : Glob.Selection) (t : FileTree) (directory : String)
    (output? : Option String) : ErrorFree (runDirectory options selection t directory output?).log := by
  have hrun : ∀ build, ErrorFree (run options selection build).log := by
    simp [run, Plan.errorFree_of, Plan.errorFree_closingEvents]
  unfold runDirectory
  cases Build.read t directory with
  | error error => exact errorFree_nil
  | ok build =>
      have hlog : ErrorFree (readEvent directory build :: (run options selection build).log) :=
        errorFree_cons.2 ⟨by simp [readEvent], hrun build⟩
      have hwritten : ErrorFree (readEvent directory build :: (run options selection build).log ++
          [writtenEvent (output?.getD directory) (run options selection build).build]) :=
        errorFree_append.2 ⟨hlog, by simp [writtenEvent]⟩
      dsimp only
      split
      · exact hlog
      · split
        · exact hwritten
        · split <;> exact hwritten

end Pagefold.Fold

/-! ### Both streams -/

namespace Pagefold.Command

open Log

variable {flags : Flags} {env : List (String × String)} {configured? : Option Verbosity} {log : List Event}
  {t : FileTree} {i : Invocation}

/-- **The log of a quiet run** is not told, unless the run is to be verbose at the same time. -/
theorem text_quiet_eq_empty_iff (hquiet : flags.quiet = true) (hfree : ErrorFree log)
    (hdebug : ∃ e ∈ log, e.level = .debug) :
    (viewOf env flags configured?).text log = "" ↔ flags.verbose = false := by
  have hadmits : ∀ e, (viewOf env flags configured?).filter.admits e = flags.verbosity.admits e.level := by
    intro e
    rw [viewOf, chosenFilter, hquiet, Bool.or_true, if_pos rfl, Filter.admits_uniform]
  rw [View.text_eq_empty_iff]
  simp only [hadmits]
  unfold Flags.verbosity
  cases hverbose : flags.verbose with
  | true =>
      -- Verbose prevails over quiet, and tells of the debug event.
      obtain ⟨e, he, hlevel⟩ := hdebug
      refine iff_of_false (fun h => ?_) Bool.noConfusion
      have hsilent := h e he
      rw [hlevel] at hsilent
      exact Bool.noConfusion hsilent
  | false =>
      refine iff_of_true (fun e he => ?_) rfl
      rw [hquiet]
      have hlevel := hfree e he
      cases hl : e.level with
      | error => exact absurd hl hlevel
      | warn | info | debug | trace => rfl

theorem warningLines_ne_empty (d : Diagnostic) : warningLines d ≠ "" := by
  rw [warningLines, Status.line, ne_eq, String.append_eq_empty_iff, String.append_eq_empty_iff]
  exact fun h => absurd h.1.2 (by decide)

theorem diagnosticLines_eq_empty_iff {ds : List Diagnostic} :
    diagnosticLines ds = "" ↔ ∀ d ∈ ds, d.isWarning = false :=
  join_lines_eq_empty_iff warningLines_ne_empty

/-! ### Folding -/

variable {r : FoldRequest}

theorem prepare_eq_ok {options : Options} {selection : Glob.Selection} {view : View}
    (h : prepare flags r t env = .ok (options, selection, view)) :
    ∃ configured?, view = viewOf env flags configured? := by
  obtain ⟨c, _, h⟩ := Json.bind_eq_ok h
  obtain ⟨configured?, _, h⟩ := Json.bind_eq_ok h
  obtain ⟨selection', _, h⟩ := Json.bind_eq_ok h
  cases h
  exact ⟨configured?, rfl⟩

/-- A quiet run tells nothing of a report but the report itself, if that is wanted. -/
theorem told_quiet (hquiet : flags.quiet = true) (report : Fold.Report) :
    told flags r t report = .ok (if r.json then report.toJson.pretty ++ "\n" else "", "") := by
  unfold told
  rw [hquiet]
  cases r.json <;> rfl

theorem foldWith_quiet {options : Options} {selection : Glob.Selection} {view : View} (hquiet : flags.quiet = true)
    (hok : (foldWith flags r t options selection view).result = .ok ()) :
    ∃ report, (Fold.runDirectory options selection t r.directory r.output?).result = .ok report ∧
      (foldWith flags r t options selection view).output = (if r.json then report.toJson.pretty ++ "\n" else "") ∧
      (foldWith flags r t options selection view).notes = view.text
        (startedEvent r.directory :: (Fold.runDirectory options selection t r.directory r.output?).log) := by
  unfold foldWith at hok ⊢
  cases hdirectory : checkDirectory t r.directory with
  | error failure =>
      rw [hdirectory] at hok
      cases hok
  | ok _ =>
      rw [hdirectory] at hok
      dsimp only at hok ⊢
      cases hresult : (Fold.runDirectory options selection t r.directory r.output?).result with
      | error error =>
          rw [hresult] at hok
          cases hok
      | ok report =>
          dsimp only
          rw [told_quiet hquiet]
          exact ⟨report, rfl, rfl, String.append_empty⟩

theorem fold_quiet (hquiet : flags.quiet = true) (hok : (fold flags r t env).result = .ok ()) :
    ∃ options selection view report, prepare flags r t env = .ok (options, selection, view) ∧
      (Fold.runDirectory options selection t r.directory r.output?).result = .ok report ∧
      (fold flags r t env).output = (if r.json then report.toJson.pretty ++ "\n" else "") ∧
      ((fold flags r t env).notes = "" ↔ flags.verbose = false) := by
  unfold fold at hok ⊢
  cases hprepare : prepare flags r t env with
  | error failure =>
      rw [hprepare] at hok
      cases hok
  | ok prepared =>
      obtain ⟨options, selection, view⟩ := prepared
      obtain ⟨configured?, hview⟩ := prepare_eq_ok hprepare
      rw [hprepare] at hok
      obtain ⟨report, hreport, houtput, hnotes⟩ := foldWith_quiet hquiet hok
      refine ⟨options, selection, view, report, rfl, hreport, houtput, ?_⟩
      have hfree : ErrorFree
          (startedEvent r.directory :: (Fold.runDirectory options selection t r.directory r.output?).log) :=
        errorFree_cons.2 ⟨by simp [startedEvent], Fold.errorFree_runDirectory _ _ _ _ _⟩
      dsimp only
      rw [hnotes, hview]
      exact text_quiet_eq_empty_iff hquiet hfree ⟨_, List.mem_cons_self, rfl⟩

/-! ### Linking -/

variable {q : LinkRequest} {flat : Link.Flat} {notes : String}

/-- A quiet run adds nothing to what was told before. -/
theorem deliver_quiet (hquiet : flags.quiet = true) (hok : (deliver flags q t flat notes).result = .ok ()) :
    (deliver flags q t flat notes).output = (if q.output?.isNone then flat.script ++ "\n" else "") ∧
    (deliver flags q t flat notes).notes = notes := by
  unfold deliver at hok ⊢
  split
  · rename_i hnone
    rw [hnone]
    exact ⟨rfl, rfl⟩
  · rename_i path hpath
    rw [hpath] at hok ⊢
    dsimp only at hok
    split
    · rename_i hwrite
      rw [hwrite] at hok
      cases hok
    · rw [hquiet]
      exact ⟨rfl, String.append_empty⟩

theorem link_quiet (hquiet : flags.quiet = true) (hok : (link flags q t env).result = .ok ()) :
    ∃ build flat, Build.read t q.directory = .ok build ∧
      (Link.Linker.ofChunks build.chunks (q.lead?.getD ({} : Options).lead)).link q.entry none = .ok flat ∧
      (link flags q t env).output = (if q.output?.isNone then flat.script ++ "\n" else "") ∧
      (link flags q t env).notes = (viewOf env flags none).text (Fold.readEvent q.directory build :: flat.log)
        ++ diagnosticLines flat.diagnostics := by
  unfold link at hok ⊢
  cases hdirectory : checkDirectory t q.directory with
  | error failure =>
      rw [hdirectory] at hok
      cases hok
  | ok _ =>
      rw [hdirectory] at hok
      dsimp only at hok ⊢
      cases hread : Build.read t q.directory with
      | error error =>
          rw [hread] at hok
          cases hok
      | ok build =>
          rw [hread] at hok
          dsimp only at hok ⊢
          cases hlink : (Link.Linker.ofChunks build.chunks (q.lead?.getD ({} : Options).lead)).link q.entry none with
          | error error =>
              rw [hlink] at hok
              cases hok
          | ok flat =>
              rw [hlink] at hok
              exact ⟨build, flat, rfl, hlink, deliver_quiet hquiet hok⟩

/-! ### Quiet and verbose -/

variable {before : Progress} {args : List String}

/-- What stands in front of a command is taken in first, and what stands behind it by its own options. -/
theorem readFrom_eq_ok (h : readFrom before args = .ok i) : ∃ front name back front' behind,
    args = front ++ CommandName.text name :: back ∧
    front.foldlM (fun p arg => programLevel.take p (misplaced p arg) arg) before = .ok front' ∧
    name.level.takeAll {} back = .ok behind ∧
    programLevel.checkAll front' = .ok () ∧ name.level.checkAll behind = .ok () ∧
    i = ⟨.ofGiven front' behind, .ofGiven behind name⟩ := by
  induction args generalizing before with
  | nil => cases h
  | cons arg rest ih =>
      unfold readFrom at h
      split at h
      · cases h
      · split at h
        · rename_i name hname
          have harg : name.text = arg := by
            split at hname
            · cases hname
            · unfold CommandName.ofText? at hname
              simpa using List.find?_some hname
          subst harg
          obtain ⟨behind, hbehind, h⟩ := Json.bind_eq_ok h
          obtain ⟨_, hcheck, h⟩ := Json.bind_eq_ok h
          obtain ⟨_, hfront, h⟩ := Json.bind_eq_ok h
          cases h
          exact ⟨[], name, rest, before, behind, rfl, rfl, hbehind, hfront, hcheck, rfl⟩
        · obtain ⟨next, hnext, h⟩ := Json.bind_eq_ok h
          obtain ⟨front, name, back, front', behind, rfl, hfold, hrest⟩ := ih h
          refine ⟨arg :: front, name, back, front', behind, rfl, ?_, hrest⟩
          rw [List.foldlM_cons, hnext]
          exact hfold

theorem not_both_of_checkAll {level : Level} {p : Progress} (hexclusive : level.exclusive = exclusiveOptions)
    (h : level.checkAll p = .ok ()) : ¬(p.has "quiet" = true ∧ p.has "verbose" = true) := by
  rintro ⟨hquiet, hverbose⟩
  unfold Level.checkAll at h
  rw [hexclusive, if_pos (by simp [exclusiveOptions, hquiet, hverbose])] at h
  cases h

/-- Of a command line that is read, the program is to be quiet and verbose at the same time only if one of the two
flags stands in front of the command and the other one behind it. -/
theorem quiet_verbose_apart (h : Invocation.read args = .ok i) (hquiet : i.flags.quiet = true)
    (hverbose : i.flags.verbose = true) : ∃ front name back front' behind,
    args = front ++ CommandName.text name :: back ∧
    front.foldlM (fun p arg => programLevel.take p (misplaced p arg) arg) {} = .ok front' ∧
    name.level.takeAll {} back = .ok behind ∧
    (front'.has "quiet" = true ∧ behind.has "verbose" = true ∨
      front'.has "verbose" = true ∧ behind.has "quiet" = true) := by
  obtain ⟨front, name, back, front', behind, hargs, hfront, hbehind, hfront', hbehind', rfl⟩ := readFrom_eq_ok h
  have hnot := not_both_of_checkAll rfl hfront'
  have hnot' := not_both_of_checkAll (by cases name <;> rfl) hbehind'
  refine ⟨front, name, back, front', behind, hargs, hfront, hbehind, ?_⟩
  simp only [Flags.ofGiven, Bool.or_eq_true] at hquiet hverbose
  rcases hquiet with hquiet | hquiet
  · rcases hverbose with hverbose | hverbose
    · exact absurd ⟨hquiet, hverbose⟩ hnot
    · exact .inl ⟨hquiet, hverbose⟩
  · rcases hverbose with hverbose | hverbose
    · exact .inr ⟨hverbose, hquiet⟩
    · exact absurd ⟨hquiet, hverbose⟩ hnot'

/-! ### Quiet runs -/

/-- **A quiet run** that succeeds writes to standard output what it was run for and nothing else: the report of a
folded build if it is wanted, or the linked script if it does not go to a file.  Of its log it tells nothing, unless
it is to be verbose as well.  So standard error stays empty when a build is folded, and when a script is linked it
holds the warnings of the script. -/
theorem quiet_run_told (hquiet : i.flags.quiet = true) (hok : (run t env i).result = .ok ()) :
    match i.request with
    | .fold r => ∃ options selection view report,
      prepare i.flags r t env = .ok (options, selection, view) ∧
      (Fold.runDirectory options selection t r.directory r.output?).result = .ok report ∧
      (run t env i).output = (if r.json then report.toJson.pretty ++ "\n" else "") ∧
      ((run t env i).notes = "" ↔ i.flags.verbose = false)
    | .link r => ∃ build flat, Build.read t r.directory = .ok build ∧
      (Link.Linker.ofChunks build.chunks (r.lead?.getD ({} : Options).lead)).link r.entry none = .ok flat ∧
      (run t env i).output = (if r.output?.isNone then flat.script ++ "\n" else "") ∧
      (i.flags.verbose = false → (run t env i).notes = diagnosticLines flat.diagnostics) ∧
      ((run t env i).notes = "" ↔ i.flags.verbose = false ∧ ∀ d ∈ flat.diagnostics, d.isWarning = false) := by
  obtain ⟨flags, request⟩ := i
  cases request with
  | fold r => exact fold_quiet hquiet hok
  | link r =>
      obtain ⟨build, flat, hread, hlink, houtput, hnotes⟩ := link_quiet hquiet hok
      have hfree : ErrorFree (Fold.readEvent r.directory build :: flat.log) :=
        errorFree_cons.2 ⟨by simp [Fold.readEvent], Link.Linker.errorFree_link hlink⟩
      have hlog : (viewOf env flags none).text (Fold.readEvent r.directory build :: flat.log) = ""
          ↔ flags.verbose = false := text_quiet_eq_empty_iff hquiet hfree ⟨_, List.mem_cons_self, rfl⟩
      refine ⟨build, flat, hread, hlink, houtput, fun hverbose => ?_, ?_⟩
      · exact hnotes.trans (by rw [hlog.2 hverbose, String.empty_append])
      · rw [← hlog, ← diagnosticLines_eq_empty_iff, ← String.append_eq_empty_iff]
        exact Eq.congr_left hnotes

/-- A build with a document and its script, of which an import leads nowhere. -/
def brokenImport : FileTree :=
  .ofList ["work"] [(["work", "site", "p.html"], .file "<script src=i.js></script>".toUTF8),
    (["work", "site", "i.js"], .file "import\"./b.js\";".toUTF8)]

def quietFold : Invocation := ⟨{ quiet := true }, .fold { directory := "site", json := true }⟩

def quietLink : Invocation := ⟨{ quiet := true }, .link { directory := "site", entry := "i.js" }⟩

theorem eq_ok_of_toOption {α ε : Type} {e : Except ε α} {a : α} (h : e.toOption = some a) : e = .ok a := by
  cases e with
  | error => cases h
  | ok => exact congrArg _ (Option.some_inj.1 h)

theorem brokenImport_quiet :
    (run brokenImport [] quietFold).result = .ok () ∧
    (∃ report : Fold.Report, (run brokenImport [] quietFold).output = report.toJson.pretty ++ "\n") ∧
    (run brokenImport [] quietFold).notes = "" ∧
    (run brokenImport [] quietLink).result = .ok () ∧
    ∃ flat : Link.Flat, (run brokenImport [] quietLink).output = flat.script ++ "\n" ∧
      (run brokenImport [] quietLink).notes = diagnosticLines flat.diagnostics := by
  have hfold : (run brokenImport [] quietFold).result = .ok () := eq_ok_of_toOption (by decide +kernel)
  have hlink : (run brokenImport [] quietLink).result = .ok () := eq_ok_of_toOption (by decide +kernel)
  obtain ⟨_, _, _, report, _, _, hreport, hsilent⟩ := quiet_run_told (i := quietFold) rfl hfold
  obtain ⟨_, flat, _, _, hscript, htold, _⟩ := quiet_run_told (i := quietLink) rfl hlink
  exact ⟨hfold, ⟨report, hreport⟩, hsilent.2 rfl, hlink, flat, hscript, htold rfl⟩

/-- A script that is linked quietly is warned of all the same. -/
theorem brokenImport_warned : Invocation.read ["link", "site", "i.js", "-q"] = .ok quietLink ∧
    (run brokenImport [] quietLink).result = .ok () ∧ (run brokenImport [] quietLink).notes ≠ "" :=
  ⟨eq_ok_of_toOption (by decide +kernel), eq_ok_of_toOption (by decide +kernel), by decide +kernel⟩

end Pagefold.Command
