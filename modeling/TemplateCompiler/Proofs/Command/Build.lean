import TemplateCompiler.Proofs.Command.Outputs
import TemplateCompiler.Proofs.Files.Order
import TemplateCompiler.Proofs.Files.Search

/-! # What a build leaves behind

A build writes one file for each template that lies in the source directory and compiles. Different
templates have different output paths, and they meet only where two of these paths lead to one file,
which is left to the later one.
-/
namespace TemplateCompiler.Command
open Files Script

/-! ## The templates -/

theorem templatesIn_eq_ok {sourceRoot : Path} {extension : String} {files : Store}
    {templates : List Path} (h : templatesIn sourceRoot extension files = .ok templates) :
    ∃ pattern, Pattern.parse (templatePattern sourceRoot extension) = .ok pattern ∧
      templates = (files.search pattern).mergeSort Path.le := by
  unfold templatesIn at h
  split at h
  · next pattern hpattern =>
    cases h
    exact ⟨pattern, hpattern, rfl⟩
  · cases h

theorem lookup_of_mem_templatesIn {sourceRoot : Path} {extension : String} {files : Store}
    {templates : List Path} (ht : files.IsTree)
    (h : templatesIn sourceRoot extension files = .ok templates) {p : Path} (hp : p ∈ templates) :
    files.lookup p ≠ .error .notFound := by
  obtain ⟨pattern, -, rfl⟩ := templatesIn_eq_ok h
  exact Store.lookup_of_mem_search ht (List.mem_mergeSort.1 hp)

theorem lead_of_mem_templatesIn {sourceRoot : Path} {extension : String} {files : Store}
    {templates : List Path} (ht : files.IsTree)
    (h : templatesIn sourceRoot extension files = .ok templates) (hroot : sourceRoot.text = "")
    {p : Path} (hp : p ∈ templates) : p.lead.1 = none := by
  obtain ⟨pattern, hpattern, rfl⟩ := templatesIn_eq_ok h
  have hbase : templatePattern sourceRoot extension = "." ++ "/**/*." ++ extension := by
    rw [templatePattern, hroot]
    rfl
  rw [hbase] at hpattern
  obtain ⟨⟨wild, rest, hparts⟩, hstart⟩ := Pattern.parts_of_parse_below hpattern
  exact Store.lead_of_mem_search_below ht hparts (Pattern.isPlain_of_parse hpattern) hstart
    (List.mem_mergeSort.1 hp)

/-- Templates with the same output path are the same. -/
theorem components_of_output? {options : Options} {sourceRoot outputDir : Path} {files : Store}
    {p q : Path} {o o' : Path × String} (hp : output? options sourceRoot outputDir files p = some o)
    (hq : output? options sourceRoot outputDir files q = some o')
    (hpl : sourceRoot.text = "" → p.lead.1 = none) (hql : sourceRoot.text = "" → q.lead.1 = none)
    (h : o.1.components = o'.1.components) :
    p.components = q.components := by
  unfold output? at hp hq
  split at hp
  · next r code hr _ =>
    split at hq
    · next r' code' hr' _ =>
      cases hp
      cases hq
      obtain ⟨hpc, hlead⟩ := Path.relativeTo?_eq_some hr hpl
      obtain ⟨hqc, hlead'⟩ := Path.relativeTo?_eq_some hr' hql
      rw [hpc, hqc, Path.components_of_mirrored hlead hlead' (by decide) (by decide) h]
    · cases hq
  · cases hp

/-! ## The whole build -/

def sourceRoot (settings : Settings) (source : Option String) : Path :=
  Path.normalize ⟨source.getD settings.sourceDir⟩

def outputDir (settings : Settings) (output : Option String) :
    Path := ⟨output.getD settings.outputDir⟩

def outputs (settings : Settings) (source output : Option String) (files : Store)
    (templates : List Path) :
    List (Path × String) :=
  templates.filterMap (output? settings.options (sourceRoot settings source)
    (outputDir settings output) files)

def buildFound (settings : Settings) (source output : Option String) (templates : List Path) :
    Script BuildReport := do
  if templates.isEmpty then
    printLine ("No templates found in " ++ source.getD settings.sourceDir)
    return {}
  else
    change (·.makeDirectories (outputDir settings output))
    let report ← buildEach settings.options ⟨source.getD settings.sourceDir⟩
        (sourceRoot settings source)
      (outputDir settings output) templates {}
    printLine s!"Compiled {report.written.length} template(s) to {(outputDir settings output).text}"
    return report

section Run

variable {settings : Settings} {source output : Option String}

theorem run_build {s : Session} {templates : List Path}
    (hfound : templatesIn (sourceRoot settings source) settings.extension s.files = .ok templates) :
    (build settings source output).run.run s = (buildFound settings source output templates).run.run
      { s with output :=
        s.output ++ ("Building templates from: " ++ source.getD settings.sourceDir ++ "\n") } := by
  let started : Session :=
    { s with output :=
      s.output ++ ("Building templates from: " ++ source.getD settings.sourceDir ++ "\n") }
  exact @run_query_bind _ _ started _ _ hfound (buildFound settings source output)

theorem build_eq_ok {report : BuildReport} {s t : Session} {templates : List Path}
    (h : (build settings source output).run.run s = (.ok report, t))
    (hfound : templatesIn (sourceRoot settings source) settings.extension s.files = .ok templates) :
    ∃ u v : Session, s.files.GainsDirectories u.files ∧ v.files = t.files ∧
      (buildEach settings.options ⟨source.getD settings.sourceDir⟩ (sourceRoot settings source)
        (outputDir settings output) templates {}).run.run u = (.ok report, v) := by
  rw [run_build hfound, buildFound] at h
  by_cases hempty : templates.isEmpty = true
  · rw [if_pos hempty] at h
    obtain ⟨_, v, hsaid, hend⟩ := run_bind_eq_ok h
    cases run_print_eq_ok hsaid
    obtain ⟨rfl, rfl⟩ := run_pure_eq_ok hend
    rw [List.isEmpty_iff.1 hempty]
    exact ⟨s, s, .refl s.files, rfl, rfl⟩
  · rw [if_neg hempty] at h
    obtain ⟨_, made, hmade, hbuild⟩ := run_bind_eq_ok h
    obtain ⟨-, rfl⟩ := run_change_eq_ok hmade
    obtain ⟨_, v, heach, hclose⟩ := run_bind_eq_ok hbuild
    obtain ⟨_, w, hsaid, hend⟩ := run_bind_eq_ok hclose
    cases run_print_eq_ok hsaid
    obtain ⟨rfl, rfl⟩ := run_pure_eq_ok hend
    exact ⟨_, v, Store.gainsDirectories_makeDirectories s.files (outputDir settings output), rfl,
      heach⟩

theorem read_of_lookup {files : Store} {p : Path} {content : ByteArray}
    (h : files.lookup p = .ok (.file content)) :
    files.read p = .ok content := by
  rw [Store.read, h]
  rfl

theorem pairwise_outputs {files : Store} {templates : List Path} (ht : files.IsTree)
    (hfound : templatesIn (sourceRoot settings source) settings.extension files = .ok templates)
    (honce : templates.Pairwise fun p q => p.components ≠ q.components) :
    (outputs settings source output files templates).Pairwise fun o o' =>
      o.1.components ≠ o'.1.components := by
  refine List.Pairwise.filterMap _ ?_ (List.Pairwise.and_mem.1 honce)
  rintro p q ⟨hp, hq, hne⟩ o ho o' ho' hsame
  exact hne (components_of_output? ho ho' (fun hroot => lead_of_mem_templatesIn ht hfound hroot hp)
    (fun hroot => lead_of_mem_templatesIn ht hfound hroot hq) hsame)

/-- A build that writes over no template reads templates as they were and makes their outputs. -/
theorem outputs_of_build {session later : Session} {report : BuildReport} {templates : List Path}
    (ht : session.files.IsTree)
    (hbuild : (build settings source output).run.run session = (.ok report, later))
    (hfound : templatesIn (sourceRoot settings source) settings.extension session.files =
      .ok templates)
    (hapart : ∀ o ∈ outputs settings source output session.files templates, ∀ p ∈ templates,
      o.1.location ≠ p.location) :
    report.written = (outputs settings source output session.files templates).map Prod.fst ∧
      report.failed + (outputs settings source output session.files templates).length =
        templates.length ∧
      Outputs (outputs settings source output session.files templates) session.files
        later.files := by
  obtain ⟨u, v, hgains, hfiles, heach⟩ := build_eq_ok hbuild hfound
  have hlookup : ∀ p ∈ templates, u.files.lookup p = session.files.lookup p := fun p hp =>
    hgains.grows.lookup (lookup_of_mem_templatesIn ht hfound hp) (hgains.files _)
  have hcongr : outputs settings source output u.files templates =
      outputs settings source output session.files templates :=
    List.filterMap_congr fun p hp => output?_congr (hlookup p hp) _ _ _
  have hthere : ∀ p ∈ templates, u.files.lookup p ≠ .error .notFound := fun p hp => by
    rw [hlookup p hp]
    exact lookup_of_mem_templatesIn ht hfound hp
  rw [← hcongr] at hapart ⊢
  obtain ⟨hwritten, hfailed, houtputs⟩ := buildEach_outputs heach hthere hapart
  rw [← hfiles]
  exact ⟨hwritten, hfailed.trans (Nat.zero_add _), .of_gainsDirectories hgains houtputs⟩

/-- A build that writes over no template writes one file for each template that lies in the source
directory and compiles, in the order of the templates, under a path of its own, and counts the
others. What it writes is what the templates compiled to before. A file that several outputs lead to
holds the last of them, and every other file stays. -/
theorem build_outputs {session later : Session} {report : BuildReport} {templates : List Path}
    (ht : session.files.IsTree)
    (hbuild : (build settings source output).run.run session = (.ok report, later))
    (hfound : templatesIn (sourceRoot settings source) settings.extension session.files =
      .ok templates)
    (honce : templates.Pairwise fun p q => p.components ≠ q.components)
    (hapart : ∀ o ∈ outputs settings source output session.files templates, ∀ p ∈ templates,
      o.1.location ≠ p.location) :
    templates.Pairwise (fun p q => p.le q = true) ∧
      report.written = (outputs settings source output session.files templates).map Prod.fst ∧
      report.written.Pairwise (fun o o' => o.components ≠ o'.components) ∧
      report.failed + report.written.length = templates.length ∧
      (∀ before o behind,
        outputs settings source output session.files templates = before ++ o :: behind →
        (∀ o' ∈ behind, o'.1.location ≠ o.1.location) → later.files.read o.1 = .ok o.2.toUTF8) ∧
      ∀ here, (∀ o ∈ report.written, o.location ≠ here) →
        later.files.fileAt here = session.files.fileAt here := by
  obtain ⟨hpaths, hfailed, houtputs⟩ := outputs_of_build ht hbuild hfound hapart
  have hcount : report.written.length =
      (outputs settings source output session.files templates).length := by
    rw [hpaths, List.length_map]
  refine ⟨?_, hpaths, ?_, ?_, fun before o behind heq hbehind => ?_, fun here hhere => ?_⟩
  · obtain ⟨pattern, -, hsorted⟩ := templatesIn_eq_ok hfound
    rw [hsorted]
    exact Path.pairwise_mergeSort _
  · rw [hpaths, List.pairwise_map]
    exact pairwise_outputs ht hfound honce
  · rw [hcount]
    exact hfailed
  · exact read_of_lookup (houtputs.last heq hbehind)
  · refine houtputs.elsewhere here fun o ho => hhere o.1 ?_
    rw [hpaths]
    exact List.mem_map_of_mem ho

end Run

/-! ## Two small projects -/

def result? {α : Type} : Except Failure α × Session → Option (α × Session)
  | (.ok a, later) => some (a, later)
  | (.error _, _) => none

theorem result?_eq_some {α : Type} {x : Except Failure α × Session} {a : α} {later : Session}
    (h : result? x = some (a, later)) : x = (.ok a, later) := by
  unfold result? at h
  split at h
  · cases h
    rfl
  · cases h

theorem exists_of_isOk {ε α : Type} {x : Except ε α} (h : x.isOk = true) : ∃ a, x = .ok a := by
  cases x with
  | error e => cases h
  | ok a => exact ⟨a, rfl⟩

def project : Store :=
  ⟨[(["t"], .directory), (["t", "a.html"], .file "".toUTF8),
    (["t", "b.html"], .file "</b>".toUTF8)]⟩

def projectSettings : Settings := { sourceDir := "t", outputDir := "o" }

theorem isTree_project : project.IsTree := by
  have hname : ∀ name ∈ ["t", "a.html", "b.html"], IsName name := by decide
  intro e he
  simp only [project, List.mem_cons, List.not_mem_nil, or_false] at he
  rcases he with rfl | rfl | rfl
  · exact ⟨[], "t", rfl, hname _ (by decide), rfl⟩
  · exact ⟨["t"], "a.html", rfl, hname _ (by decide), rfl⟩
  · exact ⟨["t"], "b.html", rfl, hname _ (by decide), rfl⟩

theorem search_project :
    project.search
        ⟨[.literal "t", .directories, .wild (.text :: ['.', 'h', 't', 'm', 'l'].map .char)],
          false, false⟩ =
      [⟨"t/a.html"⟩, ⟨"t/b.html"⟩] := by
  have hbelow : project.descendantPaths ⟨"t"⟩ = [⟨"t/a.html"⟩, ⟨"t/b.html"⟩] :=
    @Store.descendantPaths_eq project ⟨"t"⟩ ["t"] _ (by with_unfolding_all rfl) (by decide +kernel)
      (by decide +kernel)
  change project.follow _ ⟨"."⟩ = _
  rw [Store.follow_name (by decide) (by decide +kernel),
    Store.follow_below (by decide) (by decide +kernel)]
  change ((project.descendantPaths ⟨"t"⟩).filter _).flatMap _ = _
  rw [hbelow, funext (Store.fitsPart_star _)]
  decide +kernel

theorem templatesIn_project :
    templatesIn (sourceRoot projectSettings none) projectSettings.extension project =
      .ok [⟨"t/a.html"⟩, ⟨"t/b.html"⟩] := by
  have hroot : sourceRoot projectSettings none = ⟨"t"⟩ := by decide +kernel
  have hpattern : Pattern.parse (templatePattern ⟨"t"⟩ "html") =
      .ok ⟨[.literal "t", .directories, .wild (.text :: ['.', 'h', 't', 'm', 'l'].map .char)],
        false, false⟩ := by
    with_unfolding_all rfl
  change templatesIn _ "html" project = _
  rw [hroot, templatesIn, hpattern]
  change Except.ok ((project.search _).mergeSort Path.le) = _
  rw [search_project, List.mergeSort_of_pairwise (by decide +kernel)]

theorem run_project :
    (result? ((build projectSettings none none).run.run { files := project })).isSome = true := by
  rw [@run_build projectSettings none none { files := project } _ templatesIn_project]
  decide +kernel

theorem build_outputs_project :
    ∃ report later code, (build projectSettings none none).run.run { files := project } =
      (.ok report, later) ∧
      outputs projectSettings none none project [⟨"t/a.html"⟩, ⟨"t/b.html"⟩] =
        [(⟨"o/a.html.php"⟩, code)] ∧
      report.written = [⟨"o/a.html.php"⟩] ∧ report.failed = 1 ∧
      later.files.read ⟨"o/a.html.php"⟩ = .ok code.toUTF8 ∧
      later.files.fileAt ["t", "b.html"] = project.fileAt ["t", "b.html"] := by
  obtain ⟨⟨report, later⟩, hrun⟩ := Option.isSome_iff_exists.1 run_project
  have hbuild := result?_eq_some hrun
  have hoptions : (outputs projectSettings none none project [⟨"t/a.html"⟩,
      ⟨"t/b.html"⟩]).map Prod.fst =
      [⟨"o/a.html.php"⟩] := by decide +kernel
  obtain ⟨⟨target, code⟩, houtputs, htarget⟩ := List.map_eq_singleton_iff.1 hoptions
  cases htarget
  have hapart : ∀ o ∈ outputs projectSettings none none project [⟨"t/a.html"⟩, ⟨"t/b.html"⟩],
      ∀ p ∈ [(⟨"t/a.html"⟩ : Path), ⟨"t/b.html"⟩], o.1.location ≠ p.location := by
    rw [houtputs]
    intro o ho
    rw [List.mem_singleton.1 ho]
    change ∀ p ∈ [(⟨"t/a.html"⟩ : Path), ⟨"t/b.html"⟩], Path.location ⟨"o/a.html.php"⟩ ≠ p.location
    decide +kernel
  obtain ⟨-, hwritten, -, hfailed, hread, helsewhere⟩ :=
    @build_outputs projectSettings none none { files := project } later report _ isTree_project
      hbuild templatesIn_project (by decide +kernel) hapart
  have hpaths : report.written = [⟨"o/a.html.php"⟩] := by
    rw [hwritten, houtputs, List.map_singleton]
  rw [hpaths] at hfailed helsewhere
  have hcount : report.failed = 1 := Nat.succ.inj hfailed
  have hfile := hread [] _ [] houtputs (fun _ ho => absurd ho List.not_mem_nil)
  have helse : ∀ o ∈ [(⟨"o/a.html.php"⟩ : Path)], o.location ≠ ["t", "b.html"] := by decide +kernel
  exact ⟨report, later, code, hbuild, houtputs, hpaths, hcount, hfile, helsewhere _ helse⟩

/-- Two templates whose output paths lead to one file: the extension goes up again, so one template
is next to the source directory and the other one in it. -/
def crossed : Store :=
  ⟨[(["o"], .directory), (["o", "x.html"], .file "x".toUTF8), (["t"], .directory),
    (["t", "a.d"], .directory), (["t", "s"], .directory), (["t", "s", "b.d"], .directory),
    (["t", "x.html"], .file "".toUTF8)]⟩

def crossedSettings :
    Settings := { sourceDir := "t", outputDir := "o", extension := "d/../../**/x.html" }

def crossedTemplates : List Path :=
  [⟨"t/a.d/../../o/x.html"⟩, ⟨"t/a.d/../../t/x.html"⟩, ⟨"t/s/b.d/../../x.html"⟩]

theorem isTree_crossed : crossed.IsTree := by
  have hname : ∀ name ∈ ["o", "x.html", "t", "a.d", "s", "b.d"], IsName name := by decide
  intro e he
  simp only [crossed, List.mem_cons, List.not_mem_nil, or_false] at he
  rcases he with rfl | rfl | rfl | rfl | rfl | rfl | rfl
  · exact ⟨[], "o", rfl, hname _ (by decide), rfl⟩
  · exact ⟨["o"], "x.html", rfl, hname _ (by decide), rfl⟩
  · exact ⟨[], "t", rfl, hname _ (by decide), rfl⟩
  · exact ⟨["t"], "a.d", rfl, hname _ (by decide), rfl⟩
  · exact ⟨["t"], "s", rfl, hname _ (by decide), rfl⟩
  · exact ⟨["t", "s"], "b.d", rfl, hname _ (by decide), rfl⟩
  · exact ⟨["t"], "x.html", rfl, hname _ (by decide), rfl⟩

theorem search_crossed :
    crossed.search ⟨[.literal "t", .directories, .wild (.text :: ['.', 'd'].map .char),
      .literal "..", .literal "..",
      .directories, .literal "x.html"], false, false⟩ = crossedTemplates := by
  have hbelow : crossed.descendantPaths ⟨"t"⟩ = [⟨"t/a.d"⟩, ⟨"t/s"⟩, ⟨"t/s/b.d"⟩, ⟨"t/x.html"⟩] :=
    @Store.descendantPaths_eq crossed ⟨"t"⟩ ["t"] _ (by with_unfolding_all rfl) (by decide +kernel)
      (by decide +kernel)
  have hfits : (crossed.descendantPaths ⟨"t"⟩).filter
      (Store.fitsPart (.wild (.text :: ['.', 'd'].map .char))) =
      [⟨"t/a.d"⟩, ⟨"t/s/b.d"⟩] := by
    rw [hbelow, funext (Store.fitsPart_star _)]
    decide +kernel
  have houtside : crossed.descendantPaths ⟨"t/a.d/../.."⟩ =
      ["o", "o/x.html", "t", "t/a.d", "t/s", "t/s/b.d", "t/x.html"].map fun name =>
        ⟨"t/a.d/../../" ++ name⟩ :=
    @Store.descendantPaths_eq crossed ⟨"t/a.d/../.."⟩ [] _ (by with_unfolding_all rfl)
      (by decide +kernel)
      (by decide +kernel)
  have hinside : crossed.descendantPaths ⟨"t/s/b.d/../.."⟩ =
      ["a.d", "s", "s/b.d", "x.html"].map fun name => ⟨"t/s/b.d/../../" ++ name⟩ :=
    @Store.descendantPaths_eq crossed ⟨"t/s/b.d/../.."⟩ ["t"] _ (by with_unfolding_all rfl)
      (by decide +kernel)
      (by decide +kernel)
  have hfirst : crossed.follow [.literal "..", .literal "..", .directories,
      .literal "x.html"] ⟨"t/a.d"⟩ =
      [⟨"t/a.d/../../o/x.html"⟩, ⟨"t/a.d/../../t/x.html"⟩] := by
    rw [Store.follow_up (by decide +kernel), Store.follow_up (by decide +kernel),
      Store.follow_below (by decide) (by decide +kernel)]
    have hend : entryPath (entryPath ⟨"t/a.d"⟩ "..") ".." = ⟨"t/a.d/../.."⟩ := by decide +kernel
    rw [hend, houtside]
    decide +kernel
  have hsecond : crossed.follow [.literal "..", .literal "..", .directories, .literal "x.html"]
      ⟨"t/s/b.d"⟩ =
      [⟨"t/s/b.d/../../x.html"⟩] := by
    rw [Store.follow_up (by decide +kernel), Store.follow_up (by decide +kernel),
      Store.follow_below (by decide) (by decide +kernel)]
    have hend : entryPath (entryPath ⟨"t/s/b.d"⟩ "..") ".." = ⟨"t/s/b.d/../.."⟩ := by decide +kernel
    rw [hend, hinside]
    decide +kernel
  change crossed.follow _ ⟨"."⟩ = _
  rw [Store.follow_name (by decide) (by decide +kernel),
    Store.follow_below (by decide) (by decide +kernel)]
  change ((crossed.descendantPaths ⟨"t"⟩).filter _).flatMap _ = _
  rw [hfits, List.flatMap_cons, List.flatMap_cons, hfirst, hsecond]
  rfl

theorem templatesIn_crossed :
    templatesIn (sourceRoot crossedSettings none) crossedSettings.extension crossed =
      .ok crossedTemplates := by
  have hroot : sourceRoot crossedSettings none = ⟨"t"⟩ := by decide +kernel
  have hpattern : Pattern.parse (templatePattern ⟨"t"⟩ "d/../../**/x.html") =
      .ok ⟨[.literal "t", .directories, .wild (.text :: ['.', 'd'].map .char), .literal "..",
        .literal "..", .directories, .literal "x.html"], false, false⟩ := by
    with_unfolding_all rfl
  change templatesIn _ "d/../../**/x.html" crossed = _
  rw [hroot, templatesIn, hpattern]
  change Except.ok ((crossed.search _).mergeSort Path.le) = _
  rw [search_crossed, List.mergeSort_of_pairwise (by decide +kernel)]

theorem run_crossed :
    ∃ ended, result? ((build crossedSettings none none).run.run { files := crossed }) = some ended ∧
      ∃ o ∈ outputs crossedSettings none none crossed crossedTemplates,
        o.1 ∈ ended.1.written ∧ (ended.2.files.read o.1).toOption ≠ some o.2.toUTF8 := by
  have hany :
      ((result? ((build crossedSettings none none).run.run { files := crossed })).any fun ended =>
        (outputs crossedSettings none none crossed crossedTemplates).any fun o =>
          o.1 ∈ ended.1.written ∧ (ended.2.files.read o.1).toOption ≠ some o.2.toUTF8) = true := by
    rw [@run_build crossedSettings none none { files := crossed } _ templatesIn_crossed]
    decide +kernel
  obtain ⟨ended, hrun, hlost⟩ := (Option.any_eq_true _ _).1 hany
  obtain ⟨o, ho, hread⟩ := List.any_eq_true.1 hlost
  exact ⟨ended, hrun, o, ho, of_decide_eq_true hread⟩

/-- Without a template written over, an output may still be lost to that of another template. -/
theorem build_outputs_crossed :
    crossed.IsTree ∧
      templatesIn (sourceRoot crossedSettings none) crossedSettings.extension crossed =
        .ok crossedTemplates ∧
      crossedTemplates.Pairwise (fun p q => p.components ≠ q.components) ∧
      (∀ o ∈ outputs crossedSettings none none crossed crossedTemplates, ∀ p ∈ crossedTemplates,
        o.1.location ≠ p.location) ∧
      ∃ report later, (build crossedSettings none none).run.run { files := crossed } =
        (.ok report, later) ∧
        ∃ o ∈ outputs crossedSettings none none crossed crossedTemplates,
          o.1 ∈ report.written ∧ later.files.read o.1 ≠ .ok o.2.toUTF8 := by
  obtain ⟨⟨report, later⟩, hrun, o, ho, hwritten, hother⟩ := run_crossed
  refine ⟨isTree_crossed, templatesIn_crossed, by decide +kernel, by decide +kernel, report, later,
    result?_eq_some hrun, o, ho, hwritten, fun hsame => hother ?_⟩
  rw [hsame]
  rfl

end TemplateCompiler.Command
