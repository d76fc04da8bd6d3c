import Pagefold.Proofs.WritingBack
import Pagefold.Proofs.WrittenFiles

/-! # What a run leaves on disk

A run on disk does there what it does in memory (`disk_matches_run`).  With another directory for the output, the
files of the build stand there, and nothing else changes.  In place, too, each file that is left stands below the
directory with its bytes, and nothing changes outside (`WrittenBack`).

The directory is then read as the build that the run leaves (`read_after`), and the files that went are the
deleted ones, as long as all names in it are text: each was written back under a name by which it is read as what it
is (`itemOf_of_run`).  A stray is read under another name than its own; so its page is written beside it, and is hidden
by the old one in the next walk (`strayPage_left`). -/

namespace Pagefold.Fold

open Pagefold.Path Pagefold.Text Build

variable {t t' t₁ t₂ : FileTree} {directory out name : String} {place steps p : Place} {bytes : ByteArray}
  {build : Build} {item : Item} {options : Options} {selection : Glob.Selection} {report : Report}

/-! ### Kinds of files -/

theorem bytes_itemOf (name : String) (bytes : ByteArray) : (itemOf name bytes).bytes = bytes := by
  unfold itemOf
  split
  · unfold String.fromUTF8?
    split
    · rfl
    · rfl
  · rfl

/-- **A file of a run is read as what it is.** -/
theorem itemOf_of_run (wf : t.WellFormed)
    (h : (run options selection (readBelow t place)).build.get? name = some item) : itemOf name item.bytes = item := by
  have hread : ∀ item, (readBelow t place).get? name = some item → itemOf name item.bytes = item := by
    intro item hitem
    obtain ⟨bytes, _, rfl⟩ := (get?_readBelow_iff wf).1 hitem
    rw [bytes_itemOf]
  rcases untouched_or_text (readBelow t place) name with huntouched | ⟨hd, before, page, hbefore, hpage⟩
  · rw [get?_run_of_untouched huntouched] at h
    split at h
    · cases h
    · exact hread item h
  · rw [get?_run_of_document hd hbefore hpage] at h
    split at h
    · cases h
    · -- A document is no script, so it is kept as bytes.
      have hnot : isScriptName name = false := by
        rw [← Bool.not_eq_true]
        exact excludes_document_script.not_endsIn (endsIn_of_mem_documents hd)
      have hasset := hread before hbefore
      unfold itemOf at hasset ⊢
      rw [hnot, if_neg Bool.false_ne_true] at hasset ⊢
      rw [← hasset] at h
      cases h
      rfl

theorem areWays_readBelow (wf : t.WellFormed) : AreWays (readBelow t place).names := by
  intro name hname
  obtain ⟨_, steps, hway, rfl, _⟩ := (mem_names_readBelow_iff wf).1 hname
  exact ⟨steps, hway, rfl⟩

/-! ### In place -/

/-- A build is written back to its directory, and files of other names are deleted there. -/
structure WrittenBack (build : Build) (names : List String) (t : FileTree) (directory : String) (t₁ t₂ : FileTree) :
    Prop where
  wellFormed : t.WellFormed
  isDirectory : t.get? (.resolve t.current directory) = some .directory
  ways : AreWays build.names
  ways_deleted : AreWays names
  apart : ∀ name ∈ names, name ∉ build.names
  written : build.write t directory = (t₁, .ok ())
  pruned : prune t₁ directory names = (t₂, .ok ())

namespace WrittenBack

variable {names : List String} (hb : WrittenBack build names t directory t₁ t₂)

include hb

theorem write_altersOnly : FileTree.AltersOnly (OutputPlace (reducedPath directory) build.names t.current) t t₁ := by
  have halters := Build.write_altersOnly build t directory
  rwa [hb.written] at halters

theorem prune_altersOnly : FileTree.AltersOnly (OutputPlace (reducedPath directory) names t.current) t₁ t₂ := by
  have halters := Build.prune_altersOnly t₁ directory names
  rwa [hb.pruned, hb.write_altersOnly.current] at halters

/-- **Each file of the build stands below the directory**: deleting the others leaves it there. -/
theorem hasFile (hitem : build.get? name = some item) :
    HasFile t₂ (.resolve t.current directory) name item.bytes := by
  obtain ⟨steps, hway, rfl, hfile⟩ := hasFile_of_write hb.ways hb.written hitem
  have hnot : nameOf steps ∉ names := fun hmem => hb.apart _ hmem (mem_names_iff.2 (by rw [hitem]; rfl))
  have halters := hb.prune_altersOnly
  have hcurrent := hb.write_altersOnly.current
  rw [← hcurrent] at halters hfile ⊢
  refine ⟨steps, hway, rfl, FileTree.file?_eq_some_iff.1 ?_⟩
  rw [file?_of_altersOnly hb.ways_deleted halters hnot, FileTree.file?_eq_some_iff]
  exact hfile

/-- Nothing changes but files below the directory. -/
theorem get?_elsewhere (hp : ¬ Place.Below (.resolve t.current directory) p) : t₂.get? p = t.get? p := by
  have hfiles : FileTree.AltersOnly (Place.Below (.resolve t.current directory)) t t₂ :=
    (hb.write_altersOnly.mono fun _ => below_of_names hb.ways).trans
      (hb.prune_altersOnly.mono fun _ => below_of_names hb.ways_deleted)
  have hpruned := deleteAll_opensOnly (Place.Below (.resolve t.current directory)) t₁ (reducedPath directory) names
  rw [← prune, hb.pruned] at hpruned
  have hopens := (write_opensBelow hb.wellFormed hb.isDirectory hb.ways hb.written).trans hpruned
  exact FileTree.get?_of_altersOnly hfiles hopens hp hp

theorem strays : t₂.strays = t.strays := hb.prune_altersOnly.strays.trans hb.write_altersOnly.strays

end WrittenBack

/-- **A run in place writes back what it leaves**, and deletes the rest. -/
theorem writtenBack_of_run (wf : t.WellFormed) (hthere : t.get? (.resolve t.current directory) = some .directory)
    (hnames : AreWays build.names) (hwritten : (run options selection build).build.write t directory = (t₁, .ok ()))
    (hpruned : prune t₁ directory (run options selection build).report.deleted = (t₂, .ok ())) :
    WrittenBack (run options selection build).build (run options selection build).report.deleted t directory t₁ t₂ where
  wellFormed := wf
  isDirectory := hthere
  ways := fun name hname => hnames name (mem_names_of_mem_names_run hname)
  ways_deleted := fun name hname => hnames name (mem_names_of_mem_deleted hname)
  apart := fun _ hdeleted hname => isLeft_iff.1 (isSome_get?_run.1 (mem_names_iff.1 hname)).2 hdeleted
  written := hwritten
  pruned := hpruned

theorem runDirectory_none_eq_ok
    (h : (runDirectory options selection t directory none).result = .ok report) :
    ∃ build t₁, Build.read t directory = .ok build ∧ report = (run options selection build).report ∧
      (run options selection build).build.write t directory = (t₁, .ok ()) ∧
      prune t₁ directory (run options selection build).report.deleted
        = ((runDirectory options selection t directory none).files, .ok ()) := by
  unfold runDirectory at h ⊢
  cases hread : Build.read t directory with
  | error error =>
      rw [hread] at h
      cases h
  | ok build =>
      rw [hread] at h
      simp only [Option.getD_none] at h ⊢
      split at h
      · cases h
      · rename_i t₁ hwritten
        split at h
        · cases h
        · rename_i t₂ hpruned
          cases h
          refine ⟨build, t₁, rfl, rfl, hwritten, ?_⟩
          simp only [hpruned]

/-! ### In place, where all names are text -/

/-- A run that succeeded was not refused. -/
theorem exists_runInPlace_of_ok (hw : Walked t directory place)
    (hread : Build.read t directory = .ok (readBelow t place)) (hscripts : NamesScripts (readBelow t place))
    (h : (runDirectory options selection t directory none).result = .ok report) :
    ∃ t₁ t₂, RunInPlace options selection t directory place t₁ t₂ := by
  refine exists_runInPlace options selection hw ?_
  by_contra hnot
  rw [not_or, ne_eq, not_not] at hnot
  obtain ⟨name, _, herror⟩ :=
    refused_in_place options selection hw hread hscripts (areWays_readBelow hw.wellFormed) hnot.1 hnot.2
  rw [herror] at h
  cases h

namespace RunInPlace

variable (hw : Walked t directory place) (hr : RunInPlace options selection t directory place t₁ t₂)

include hw hr

theorem writtenBack : WrittenBack (run options selection (readBelow t place)).build
    (run options selection (readBelow t place)).report.deleted t directory t₁ t₂ :=
  writtenBack_of_run hw.wellFormed (FileTree.locate_eq hw.located ▸ hw.isDirectory) (areWays_readBelow hw.wellFormed)
    hr.written hr.pruned

/-- A file that is left stands there. -/
theorem hasFile_of_left (hitem : (run options selection (readBelow t place)).build.get? name = some item) :
    HasFile t₂ place name item.bytes := by
  have hfile := (hr.writtenBack hw).hasFile hitem
  rwa [← FileTree.locate_eq hw.located] at hfile

/-- **What stands in the directory** after a run in place are the files of the build that it leaves. -/
theorem hasFile_iff : HasFile t₂ place name bytes ↔
    ∃ item, (run options selection (readBelow t place)).build.get? name = some item ∧ item.bytes = bytes := by
  constructor
  · rintro ⟨steps, hway, rfl, hfile⟩
    obtain ⟨old, hold⟩ := (hr.rewritten.trans hr.emptied).exists_file hfile
    have hmem : nameOf steps ∈ (readBelow t place).names :=
      (mem_names_readBelow_iff hw.wellFormed).2 ⟨old, steps, hway, rfl, hold⟩
    have hleft : isLeft options selection (readBelow t place) (nameOf steps) = true := by
      refine isLeft_iff.2 fun hdeleted => ?_
      rw [hr.gone steps hway hdeleted] at hfile
      cases hfile
    obtain ⟨item, hitem⟩ := Option.isSome_iff_exists.1 (isSome_get?_run.2 ⟨mem_names_iff.1 hmem, hleft⟩)
    exact ⟨item, hitem, (hr.hasFile_of_left hw hitem).unique ⟨steps, hway, rfl, hfile⟩⟩
  · rintro ⟨item, hitem, rfl⟩
    exact hr.hasFile_of_left hw hitem

/-- **The directory is read as the build** that the run leaves. -/
theorem read_after (hnamed : t.straysBelow place = []) :
    Build.read t₂ directory = .ok (run options selection (readBelow t place)).build := by
  have hw₂ := hw.edited (hr.rewritten.trans hr.emptied)
  have hthere : t₂.isDirectory directory = true := FileTree.isDirectory_iff.2 ⟨place, hw₂.located, hw₂.isDirectory⟩
  have hsame : readBelow t₂ place = (run options selection (readBelow t place)).build := by
    suffices hitems : (readBelow t₂ place).items = (run options selection (readBelow t place)).build.items from
      congrArg Build.mk hitems
    refine Table.ext_get? fun name item => ?_
    refine (get?_readBelow_iff hw₂.wellFormed).trans ?_
    simp only [hr.hasFile_iff hw]
    constructor
    · rintro ⟨_, ⟨left, hleft, rfl⟩, rfl⟩
      rw [itemOf_of_run hw.wellFormed hleft]
      exact hleft
    · intro hitem
      exact ⟨_, ⟨item, hitem, rfl⟩, (itemOf_of_run hw.wellFormed hitem).symm⟩
  have hnamed₂ : t₂.straysBelow (.resolve t₂.current directory) = [] := by
    rw [← FileTree.locate_eq hw₂.located, FileTree.straysBelow, (hr.writtenBack hw).strays]
    exact hnamed
  rw [← hsame]
  exact (read_eq_ok_iff_of_named hw₂.wellFormed hthere hnamed₂).2 ⟨place, hw₂, rfl⟩

/-- **The files that went** are the deleted ones. -/
theorem mem_deleted_iff_gone : name ∈ (run options selection (readBelow t place)).report.deleted
    ↔ (∃ bytes, HasFile t place name bytes) ∧ ¬ ∃ bytes, HasFile t₂ place name bytes := by
  rw [← mem_names_readBelow_iff hw.wellFormed]
  constructor
  · intro hdeleted
    refine ⟨mem_names_of_mem_deleted hdeleted, ?_⟩
    rintro ⟨bytes, steps, hway, rfl, hfile⟩
    rw [hr.gone steps hway hdeleted] at hfile
    cases hfile
  · rintro ⟨hname, hgone⟩
    by_contra hleft
    obtain ⟨item, hitem⟩ := Option.isSome_iff_exists.1
      (isSome_get?_run.2 ⟨mem_names_iff.1 hname, isLeft_iff.2 hleft⟩)
    exact hgone ⟨item.bytes, (hr.hasFile_iff hw).2 ⟨item, hitem, rfl⟩⟩

end RunInPlace

/-! ### With another directory for the output -/

/-- Neither of two places is the other one or lies below it. -/
def Beside (a b : Place) : Prop := ¬ a <+: b ∧ ¬ b <+: a

instance {a b : Place} : Decidable (Beside a b) := inferInstanceAs (Decidable (_ ∧ _))

theorem Beside.not_prefix {a b : Place} (h : Beside a b) (ha : a <+: p) : ¬ p <+: b ++ steps := by
  intro hp
  rcases List.prefix_or_prefix_of_prefix (ha.trans hp) (List.prefix_append b steps) with hab | hba
  · exact h.1 hab
  · exact h.2 hba

/-- Writing a build below another place leaves a directory as it is. -/
theorem get?_of_beside (wf : t.WellFormed) (hnames : AreWays build.names)
    (hbeside : Beside place (.resolve t.current out)) (h : build.write t out = (t', .ok ()))
    (hp : place <+: p) : t'.get? p = t.get? p := by
  have halters := write_altersOnly build t out
  rw [h] at halters
  have hfiles : ¬ OutputPlace (reducedPath out) build.items.keys t.current p := by
    intro hplace
    obtain ⟨steps, _, _, he⟩ := exists_of_outputPlace hnames hplace
    exact hbeside.not_prefix hp (by rw [he])
  refine FileTree.get?_of_altersOnly halters (write_opensToward wf hnames h) hfiles ?_
  rintro ⟨steps, hsteps⟩
  exact hbeside.not_prefix hp hsteps

theorem runDirectory_some_eq_ok
    (h : (runDirectory options selection t directory (some out)).result = .ok report) :
    ∃ build, Build.read t directory = .ok build ∧ report = (run options selection build).report ∧
      (run options selection build).build.write t out
        = ((runDirectory options selection t directory (some out)).files, .ok ()) := by
  unfold runDirectory at h ⊢
  cases hread : Build.read t directory with
  | error error =>
      rw [hread] at h
      cases h
  | ok build =>
      rw [hread] at h
      simp only [Option.getD_some] at h ⊢
      refine ⟨build, rfl, ?_⟩
      split at h
      · cases h
      · rename_i t₁ hwritten
        cases h
        exact ⟨rfl, hwritten⟩

/-! ### Both -/

/-- **The disk matches the run.**  Let a run on the directory succeed.

In place, every file of the build that the run leaves stands below the directory with its bytes, and nothing
changes at the directory's own place, outside, or where names are no text.  If all names below the directory are
text, it is read afterwards as the build that the run leaves, and the files below it that are gone are those that
the report names as deleted.

With the output in a directory apart, nothing changes in the build's directory, every file of the build that the
run leaves stands below the output directory with its bytes, and other files there stay. -/
theorem disk_matches_run (wf : t.WellFormed) (hdirectory : t.isDirectory directory = true) (options : Options)
    (selection : Glob.Selection) :
    (∀ report, (runDirectory options selection t directory none).result = .ok report →
      ∃ build, Build.read t directory = .ok build ∧ report = (run options selection build).report ∧
        let t' := (runDirectory options selection t directory none).files
        let place := Place.resolve t.current directory
        (∀ name item, (run options selection build).build.get? name = some item →
          HasFile t' place name item.bytes) ∧
        (∀ p, ¬ Place.Below place p → t'.get? p = t.get? p) ∧ t'.strays = t.strays ∧
        (t.straysBelow place = [] → Build.read t' directory = .ok (run options selection build).build ∧
          ∀ name, name ∈ report.deleted
            ↔ (∃ bytes, HasFile t place name bytes) ∧ ¬ ∃ bytes, HasFile t' place name bytes)) ∧
    ∀ out report, Beside (.resolve t.current directory) (.resolve t.current out) →
      (runDirectory options selection t directory (some out)).result = .ok report →
      ∃ build, Build.read t directory = .ok build ∧ report = (run options selection build).report ∧
        let t' := (runDirectory options selection t directory (some out)).files
        let target := Place.resolve t.current out
        (∀ p, Place.resolve t.current directory <+: p → t'.get? p = t.get? p) ∧ t'.strays = t.strays ∧
        (∀ name item, (run options selection build).build.get? name = some item →
          HasFile t' target name item.bytes) ∧
        ∀ steps, nameOf steps ∉ (run options selection build).build.names →
          t'.file? (target ++ steps) = t.file? (target ++ steps) := by
  constructor
  · intro report hresult
    obtain ⟨build, t₁, hread, rfl, hwritten, hpruned⟩ := runDirectory_none_eq_ok hresult
    obtain ⟨place, hw, _, rfl⟩ := (read_eq_ok_iff wf hdirectory).1 hread
    have hplace := FileTree.locate_eq hw.located
    have hb := writtenBack_of_run wf (hplace ▸ hw.isDirectory) (areWays_ofWalk wf) hwritten hpruned
    refine ⟨_, hread, rfl, fun name item => hb.hasFile, fun p => hb.get?_elsewhere, hb.strays, fun hnamed => ?_⟩
    rw [← hplace] at hnamed ⊢
    rw [ofWalk_eq_readBelow wf hnamed] at hread hresult ⊢
    have hscripts : NamesScripts (readBelow t place) := ofWalk_eq_readBelow wf hnamed ▸ namesScripts_ofWalk
    obtain ⟨t₁, t₂, hr⟩ := exists_runInPlace_of_ok hw hread hscripts hresult
    rw [(hr.runDirectory_eq hread).1]
    exact ⟨hr.read_after hw hnamed, fun name => hr.mem_deleted_iff_gone hw⟩
  · intro out report hbeside hresult
    obtain ⟨build, hread, hreport, hwritten⟩ := runDirectory_some_eq_ok hresult
    obtain ⟨place, hw, _, rfl⟩ := (read_eq_ok_iff wf hdirectory).1 hread
    have hnames : AreWays (run options selection (ofWalk t place)).build.names :=
      fun name hname => areWays_ofWalk wf name (mem_names_of_mem_names_run hname)
    have halters := write_altersOnly (run options selection (ofWalk t place)).build t out
    rw [hwritten] at halters
    exact ⟨_, hread, hreport, fun p => get?_of_beside wf hnames hbeside hwritten, halters.strays,
      fun name item => hasFile_of_write hnames hwritten, fun steps => file?_of_altersOnly hnames halters⟩

/-- Paths are followed from `/work`; beside the site `/work/site` stands a directory for the output. -/
def twoDirectories : FileTree :=
  .ofList ["work"] [(["work", "site", "p.html"], .file "<script src=js/a.js></script>".toUTF8),
    (["work", "site", "js", "a.js"], .file "a()".toUTF8), (["work", "out", "b.txt"], .file "b".toUTF8)]

theorem twoDirectories_match :
    twoDirectories.WellFormed ∧ twoDirectories.isDirectory "./site" = true ∧
    (∃ report build, (runDirectory {} ⟨[]⟩ twoDirectories "./site" none).result = .ok report ∧
      report.deleted = ["js/a.js"] ∧
      Build.read (runDirectory {} ⟨[]⟩ twoDirectories "./site" none).files "./site"
        = .ok (run {} ⟨[]⟩ build).build ∧
      (runDirectory {} ⟨[]⟩ twoDirectories "./site" none).files.get? ["work", "out", "b.txt"]
        = some (.file "b".toUTF8)) ∧
    Beside (.resolve twoDirectories.current "./site") (.resolve twoDirectories.current "out/x") ∧
    ∃ report build, (runDirectory {} ⟨[]⟩ twoDirectories "./site" (some "out/x")).result = .ok report ∧
      (run {} ⟨[]⟩ build).build.get? "p.html" = some (.asset "<script>a()</script>".toUTF8) ∧
      HasFile (runDirectory {} ⟨[]⟩ twoDirectories "./site" (some "out/x")).files ["work", "out", "x"] "p.html"
        "<script>a()</script>".toUTF8 ∧
      (runDirectory {} ⟨[]⟩ twoDirectories "./site" (some "out/x")).files.get? ["work", "site", "js", "a.js"]
        = some (.file "a()".toUTF8) := by
  have hwellFormed : twoDirectories.WellFormed := by decide +kernel
  have hdirectory : twoDirectories.isDirectory "./site" = true := by decide +kernel
  have hbeside : Beside (.resolve twoDirectories.current "./site") (.resolve twoDirectories.current "out/x") := by
    decide +kernel
  have hdeleted : (runDirectory {} ⟨[]⟩ twoDirectories "./site" none).result.map (·.deleted) = .ok ["js/a.js"] := by
    decide +kernel
  have hpage : (Build.read twoDirectories "./site").map (fun build => (run {} ⟨[]⟩ build).build.get? "p.html")
      = .ok (some (.asset "<script>a()</script>".toUTF8)) := by
    decide +kernel
  have hother : (runDirectory {} ⟨[]⟩ twoDirectories "./site" (some "out/x")).result.map (·.deleted)
      = .ok ["js/a.js"] := by
    decide +kernel
  obtain ⟨hinPlace, hapart⟩ := disk_matches_run hwellFormed hdirectory {} ⟨[]⟩
  refine ⟨hwellFormed, hdirectory, ?_, hbeside, ?_⟩
  · cases hresult : (runDirectory {} ⟨[]⟩ twoDirectories "./site" none).result with
    | error error =>
        rw [hresult] at hdeleted
        cases hdeleted
    | ok report =>
        rw [hresult] at hdeleted
        obtain ⟨build, _, _, _, helsewhere, _, hnamed⟩ := hinPlace report hresult
        refine ⟨report, build, rfl, Except.ok.inj hdeleted, (hnamed (by decide +kernel)).1, ?_⟩
        rw [helsewhere ["work", "out", "b.txt"] (by decide +kernel)]
        decide +kernel
  · cases hresult : (runDirectory {} ⟨[]⟩ twoDirectories "./site" (some "out/x")).result with
    | error error =>
        rw [hresult] at hother
        cases hother
    | ok report =>
        obtain ⟨build, hread, _, hkept, _, hstands, _⟩ := hapart "out/x" report hbeside hresult
        rw [hread] at hpage
        have hpage := Except.ok.inj hpage
        refine ⟨report, build, rfl, hpage, hstands "p.html" _ hpage, ?_⟩
        rw [hkept ["work", "site", "js", "a.js"] (by decide +kernel)]
        decide +kernel

/-- A site with a script and a page that refers to it; the page's name is `p`, a byte that is no text, and
`.html`. -/
def straySite : FileTree :=
  { FileTree.ofList ["work"] [(["work", "site", "a.js"], .file "x()".toUTF8)] with
    strays := [(Place.raw ["work", "site"] ++ [[0x70, 0xFF, 0x2E, 0x68, 0x74, 0x6D, 0x6C]],
      .file "<script src=a.js></script>".toUTF8)] }

/-- The run succeeds, folds the script into the page and deletes it.  But the directory is read afterwards with the
page as it was, which refers to the script. -/
theorem strayPage_left :
    straySite.WellFormed ∧ straySite.isDirectory "site" = true ∧
    (runDirectory {} ⟨[]⟩ straySite "site" none).result.map (·.deleted) = .ok ["a.js"] ∧
    (Build.read straySite "site").map (fun build => (run {} ⟨[]⟩ build).build.get? "p\uFFFD.html")
      = .ok (some (.asset "<script>x()</script>".toUTF8)) ∧
    (Build.read (runDirectory {} ⟨[]⟩ straySite "site" none).files "site").map (·.get? "p\uFFFD.html")
      = .ok (some (.asset "<script src=a.js></script>".toUTF8)) ∧
    ∀ build, Build.read straySite "site" = .ok build →
      Build.read (runDirectory {} ⟨[]⟩ straySite "site" none).files "site" ≠ .ok (run {} ⟨[]⟩ build).build := by
  have hfolded : (Build.read straySite "site").map (fun build => (run {} ⟨[]⟩ build).build.get? "p\uFFFD.html")
      = .ok (some (.asset "<script>x()</script>".toUTF8)) := by
    decide +kernel
  have hleft : (Build.read (runDirectory {} ⟨[]⟩ straySite "site" none).files "site").map (·.get? "p\uFFFD.html")
      = .ok (some (.asset "<script src=a.js></script>".toUTF8)) := by
    decide +kernel
  refine ⟨by decide +kernel, by decide +kernel, by decide +kernel, hfolded, hleft, fun build hread hafter => ?_⟩
  rw [hread] at hfolded
  rw [hafter] at hleft
  have hsame := Except.ok.inj (hfolded.symm.trans hleft)
  exact absurd hsame (by decide +kernel)

end Pagefold.Fold
