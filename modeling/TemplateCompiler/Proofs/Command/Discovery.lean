import TemplateCompiler.Proofs.Command.Build
import TemplateCompiler.Proofs.Files.Beneath

/-! # Which templates a build finds

A build finds everything beneath the source directory that is called a template, knows that it lies
in there, and writes what compiles, as long as no character of the path of the directory is a
wildcard. A wildcard is not taken as it is written, so a build may miss the directory that it was
given.
-/
namespace TemplateCompiler.Command
open Files Script

def sourceDir (settings : Settings) (source : Option String) :
    Path := ⟨source.getD settings.sourceDir⟩

/-- Names that lead down from a directory to something that is called a template. -/
def HoldsTemplate (files : Store) (directory : Path) (names : List String) : Prop :=
  ∃ here front last, files.locate directory = .ok here ∧ names = front ++ [last] ∧
  files.Descends here names ∧
    ".html".toList <:+ last.toList

def pathBelow (directory : Path) (names : List String) :
    Path := directory.join ⟨"/".intercalate names⟩

/-- The path of the directory that something lies in, some way down from another directory, is not
too long to be opened. -/
def InOpen (files : Store) (directory : Path) (names : List String) : Prop :=
  names.dropLast = [] ∨ files.isDirectory (pathBelow directory names.dropLast) = true

namespace HoldsTemplate

variable {files : Store} {directory : Path} {names : List String}

theorem isName (h : HoldsTemplate files directory names) : ∀ name ∈ names, IsName name := by
  obtain ⟨_, _, _, -, -, hdescends, -⟩ := h
  exact hdescends.name

theorem isStep (h : HoldsTemplate files directory names) : ∀ name ∈ names, IsStep name :=
  fun name hname => (h.isName name hname).isStep

theorem ne_nil (h : HoldsTemplate files directory names) : names ≠ [] := by
  obtain ⟨_, front, last, -, rfl, -, -⟩ := h
  simp

end HoldsTemplate

/-! ## Finding -/

theorem templatePattern_ofSteps (absolute : Bool) {names : List String}
    (hn : ∀ name ∈ names, IsStep name) :
    templatePattern (Path.ofSteps absolute names) "html" = (Path.shown absolute names).text ++
      "/**/*.html" := by
  have hending : ∀ base : String, base ++ "/**/*." ++ "html" = base ++ "/**/*.html" :=
    fun base => by
    rw [String.append_assoc]
    rfl
  by_cases hdot : absolute = false ∧ names = []
  · obtain ⟨rfl, rfl⟩ := hdot
    decide +kernel
  · have htext : (Path.ofSteps absolute names).text ≠ "" := by
      intro htext
      have hnone := Path.components_eq_nil_iff.2 htext
      rw [Path.components_ofSteps absolute hn, List.append_eq_nil_iff, List.map_eq_nil_iff] at hnone
      obtain ⟨hroot, hnames⟩ := hnone
      refine hdot ⟨?_, hnames⟩
      cases absolute with
      | true => cases hroot
      | false => rfl
    rw [templatePattern, Path.shown_eq_ofSteps hdot, hending]
    simp [htext]

section Found

variable {files : Store} {directory : Path}

theorem pathBelow_eq {names : List String} (hn : ∀ name ∈ names, IsStep name) (hne : names ≠ []) :
    pathBelow directory.normalize names =
      Path.shown directory.isAbsolute (directory.stepNames ++ names) := by
  rw [pathBelow, Path.normalize_eq,
    Path.join_ofSteps _ (fun _ => Path.isStep_of_mem_stepNames) hn hne,
    Path.shown_of_ne_nil _ (by simp [hne])]

theorem relativeTo?_pathBelow {names : List String} (hn : ∀ name ∈ names, IsStep name)
    (hne : names ≠ []) :
    (pathBelow directory.normalize names).relativeTo? directory.normalize =
      some ⟨"/".intercalate names⟩ := by
  rw [pathBelow_eq hn hne, Path.shown_of_ne_nil _ (by simp [hne]), Path.normalize_eq,
    Path.relativeTo?_ofSteps _ (fun _ => Path.isStep_of_mem_stepNames) hn hne]

theorem inOpen_iff (hd : files.isDirectory directory = true) {front : List String} {last : String}
    (hn : ∀ name ∈ front, IsStep name) :
    InOpen files directory.normalize (front ++ [last]) ↔
      files.isDirectory (Path.shown directory.isAbsolute (directory.stepNames ++ front)) =
        true := by
  rw [InOpen, List.dropLast_concat]
  by_cases hne : front = []
  · subst hne
    obtain ⟨here, hlocate, hdirectory⟩ := Store.way_of_isDirectory hd
    rw [List.append_nil]
    exact iff_of_true (.inl rfl)
      (Store.isDirectory_of_locate (Store.locate_stepNames hlocate) hdirectory)
  · rw [pathBelow_eq hn hne]
    exact or_iff_right hne

/-- The characters of a normalized path are those of the path, or it is the working directory or the
root. -/
theorem isLiteral_shown (hplain : ∀ c ∈ directory.text.toList, IsLiteral c)
    (ht : directory.text ≠ "") :
    ∀ c ∈ (Path.shown directory.isAbsolute directory.stepNames).text.toList, IsLiteral c := by
  by_cases hne : directory.stepNames = []
  · have hroot : (Path.shown true []).text.toList = ['/'] := rfl
    have hhere : (Path.shown false []).text.toList = ['.'] := rfl
    rw [hne]
    cases directory.isAbsolute with
    | true => simp [hroot, IsLiteral]
    | false => simp [hhere, IsLiteral]
  · rw [Path.shown_of_ne_nil _ hne]
    intro c hc
    exact hplain c
      ((Path.sublist_ofSteps _ (fun _ => Path.isStep_of_mem_stepNames) hne
        (Path.stepNames_sublist ht)).subset hc)

/-- A build finds exactly what is called a template beneath a directory without wildcards in its
path. -/
theorem templatesIn_beneath (ht : files.IsTree) (hd : files.isDirectory directory = true)
    (hplain : ∀ c ∈ directory.text.toList, IsLiteral c) :
    ∃ templates, templatesIn directory.normalize "html" files = .ok templates ∧
      ∀ p, p ∈ templates ↔
        ∃ names, HoldsTemplate files directory names ∧ InOpen files directory.normalize names ∧
          p = pathBelow directory.normalize names := by
  obtain ⟨here, hlocate, hdirectory⟩ := Store.way_of_isDirectory hd
  have htext := (Store.way_of_locate hlocate).1
  have hn : ∀ name ∈ directory.stepNames, IsStep name := fun _ => Path.isStep_of_mem_stepNames
  have hparse := Pattern.parse_beneath directory.isAbsolute hn (isLiteral_shown hplain htext)
  rw [templatesIn, Path.normalize_eq, templatePattern_ofSteps _ hn, hparse]
  refine ⟨_, rfl, fun p => ?_⟩
  rw [List.mem_mergeSort,
    Store.mem_search_beneath ht _ hn (Store.locate_stepNames hlocate) hdirectory,
    ← Path.normalize_eq]
  constructor
  · rintro ⟨front, last, hdescends, hopen, hending, rfl⟩
    have hall := hdescends.isStep
    refine ⟨front ++ [last], ⟨here, front, last, hlocate, rfl, hdescends, hending⟩, ?_, ?_⟩
    · exact (inOpen_iff hd (List.forall_mem_append.1 hall).1).2 hopen
    · exact (pathBelow_eq hall (by simp)).symm
  · rintro ⟨_, ⟨_, front, last, hhere, rfl, hdescends, hending⟩, hopen, rfl⟩
    cases hlocate.symm.trans hhere
    have hall := hdescends.isStep
    refine ⟨front, last, hdescends, ?_, hending, pathBelow_eq hall (by simp)⟩
    exact (inOpen_iff hd (List.forall_mem_append.1 hall).1).1 hopen

end Found

/-! ## Writing -/

theorem location_pathBelow (directory : Path) {names : List String}
    (hn : ∀ name ∈ names, IsName name) (hne : names ≠ []) :
    (pathBelow directory names).location = directory.location ++ names := by
  have hsteps : ∀ name ∈ names, IsStep name := fun name hname => (hn name hname).isStep
  rw [pathBelow, Path.location_join (Path.not_isAbsolute_intercalate hsteps hne),
    Path.segments_intercalate_steps hsteps hne, Location.along_names hn]

theorem targetOf_intercalate (outputDir : Path) (front : List String) (last : String) :
    targetOf outputDir ⟨"/".intercalate (front ++ [last])⟩ =
      pathBelow outputDir (front ++ [last ++ ".php"]) := by
  have htext : "/".intercalate (front ++ [last]) ++ ".php" =
      "/".intercalate (front ++ [last ++ ".php"]) := by
    refine String.toList_injective ?_
    rw [String.toList_append, String.toList_intercalate, String.toList_intercalate, List.map_append,
      List.map_append, List.map_singleton, List.map_singleton, String.toList_append]
    exact Text.intercalate_concat_append _ _ _ _
  rw [targetOf, htext, pathBelow]

theorem isName_append {name : String} (h : IsName name) : IsName (name ++ ".php") := by
  obtain ⟨hinert, hstep⟩ := @Path.not_inert_append name ".php" (by decide)
  refine ⟨hinert, fun hup => ?_, ?_⟩
  · rw [stepOf, if_pos hup] at hstep
    cases hstep
  · rw [String.toList_append, List.mem_append]
    exact not_or.2 ⟨h.2.2, by decide⟩

theorem location_targetOf (outputDir : Path) {front : List String} {last : String}
    (hn : ∀ name ∈ front ++ [last], IsName name) :
    (targetOf outputDir ⟨"/".intercalate (front ++ [last])⟩).location =
      outputDir.location ++ (front ++ [last ++ ".php"]) := by
  obtain ⟨hfront, hlast⟩ := List.forall_mem_append.1 hn
  have hall : ∀ name ∈ front ++ [last ++ ".php"], IsName name :=
    List.forall_mem_append.2 ⟨hfront,
      by simpa using isName_append (hlast last (List.mem_singleton_self _))⟩
  rw [targetOf_intercalate, location_pathBelow outputDir hall (by simp)]

/-- What is written has another ending than a template. -/
theorem append_ne_of_ending {name other : String} (h : ".html".toList <:+ other.toList) :
    name ++ ".php" ≠ other := by
  rintro rfl
  obtain ⟨front, hfront⟩ := h
  have hlast := congrArg List.getLast? hfront
  rw [String.toList_append, List.getLast?_append_of_ne_nil _ (by decide),
    List.getLast?_append_of_ne_nil _ (by decide)] at hlast
  exact absurd hlast (by decide)

/-- No output is written over a template. -/
theorem location_targetOf_ne {files : Store} {directory outputDir root : Path}
    {names names' : List String} (h : HoldsTemplate files directory names)
    (h' : HoldsTemplate files directory names') :
    (targetOf outputDir ⟨"/".intercalate names⟩).location ≠ (pathBelow root names').location := by
  have hn := h.isName
  have hn' := h'.isName
  obtain ⟨_, front, last, -, rfl, -, -⟩ := h
  obtain ⟨_, front', last', -, rfl, -, hending⟩ := h'
  rw [location_targetOf outputDir hn, location_pathBelow root hn' (by simp), ← List.append_assoc,
    ← List.append_assoc]
  exact fun hsame => append_ne_of_ending hending
    (List.singleton_inj.1 (List.append_inj' hsame rfl).2)

theorem eq_of_location_targetOf {files : Store} {directory outputDir : Path}
    {names names' : List String} (h : HoldsTemplate files directory names)
    (h' : HoldsTemplate files directory names')
    (hsame : (targetOf outputDir ⟨"/".intercalate names⟩).location =
      (targetOf outputDir ⟨"/".intercalate names'⟩).location) : names = names' := by
  have hn := h.isName
  have hn' := h'.isName
  obtain ⟨_, front, last, -, rfl, -, -⟩ := h
  obtain ⟨_, front', last', -, rfl, -, -⟩ := h'
  rw [location_targetOf outputDir hn, location_targetOf outputDir hn',
    List.append_cancel_left_eq] at hsame
  obtain ⟨rfl, hlast⟩ := List.append_inj' hsame rfl
  rw [List.singleton_inj, String.append_left_inj] at hlast
  rw [hlast]

theorem exists_lookup_of_compileFile {options : Options} {files : Store} {path : Path}
    {code : String} (h : compileFile options files path = .ok code) :
    ∃ content, files.lookup path = .ok (.file content) := by
  obtain ⟨text, hread, -⟩ := bind_eq_ok.1 h
  unfold readSource Store.readText at hread
  cases hbytes : files.read path with
  | error e =>
    rw [hbytes] at hread
    cases hread
  | ok bytes =>
    obtain ⟨item, hlookup, hitem⟩ := bind_eq_ok.1 hbytes
    cases item with
    | file content => exact ⟨content, hlookup⟩
    | directory => cases hitem

section Written

variable {settings : Settings} {source output : Option String}

theorem output?_pathBelow {files : Store} {names : List String} {o : Path × String}
    (hn : ∀ name ∈ names, IsStep name) (hne : names ≠ []) :
    output? settings.options (sourceRoot settings source) (outputDir settings output) files
        (pathBelow (sourceRoot settings source) names) = some o ↔
      o.1 = targetOf (outputDir settings output) ⟨"/".intercalate names⟩ ∧
        compileFile settings.options files (pathBelow (sourceRoot settings source) names) =
          .ok o.2 := by
  have hrelative : (pathBelow (sourceRoot settings source) names).relativeTo?
      (sourceRoot settings source) =
      some ⟨"/".intercalate names⟩ := relativeTo?_pathBelow hn hne
  obtain ⟨target, code⟩ := o
  rw [output?, hrelative]
  cases compileFile settings.options files (pathBelow (sourceRoot settings source) names) with
  | error failure => simp
  | ok found => simp [eq_comm]

/-- What compiles can be read, so the directory that it lies in can be opened. -/
theorem inOpen_of_compileFile {files : Store} {directory : Path}
    (hd : files.isDirectory directory = true) {names : List String}
    (hholds : HoldsTemplate files directory names) {options : Options} {code : String}
    (h : compileFile options files (pathBelow directory.normalize names) = .ok code) :
    InOpen files directory.normalize names := by
  have hn := hholds.isStep
  obtain ⟨_, front, last, -, rfl, -, -⟩ := hholds
  obtain ⟨content, hlookup⟩ := exists_lookup_of_compileFile h
  obtain ⟨there, hlocate, -⟩ := bind_eq_ok.1 hlookup
  rw [pathBelow_eq hn (by simp), ← List.append_assoc] at hlocate
  refine (inOpen_iff hd (List.forall_mem_append.1 hn).1).2
    (Store.isDirectory_of_behind ?_ (by simp) hlocate)
  rw [List.append_assoc]
  exact List.forall_mem_append.2 ⟨fun _ => Path.isStep_of_mem_stepNames, hn⟩

theorem mem_outputs_iff {files : Store} {templates : List Path}
    (hd : files.isDirectory (sourceDir settings source) = true)
    (hiff : ∀ p, p ∈ templates ↔
      ∃ names, HoldsTemplate files (sourceDir settings source) names ∧
      InOpen files (sourceRoot settings source) names ∧
        p = pathBelow (sourceRoot settings source) names) {o : Path × String} :
    o ∈ outputs settings source output files templates ↔
      ∃ names, HoldsTemplate files (sourceDir settings source) names ∧
        o.1 = targetOf (outputDir settings output) ⟨"/".intercalate names⟩ ∧
        compileFile settings.options files (pathBelow (sourceRoot settings source) names) =
          .ok o.2 := by
  rw [outputs, List.mem_filterMap]
  constructor
  · rintro ⟨p, hp, hout⟩
    obtain ⟨names, hholds, -, rfl⟩ := (hiff p).1 hp
    exact ⟨names, hholds, (output?_pathBelow hholds.isStep hholds.ne_nil).1 hout⟩
  · rintro ⟨names, hholds, htarget, hcompile⟩
    exact ⟨_, (hiff _).2 ⟨names, hholds, inOpen_of_compileFile hd hholds hcompile, rfl⟩,
      (output?_pathBelow hholds.isStep hholds.ne_nil).2 ⟨htarget, hcompile⟩⟩

/-- A template beneath the source directory that compiles is written. -/
theorem written_of_holdsTemplate {session later : Session} {report : BuildReport}
    (ht : session.files.IsTree) (hd : session.files.isDirectory (sourceDir settings source) = true)
    (hplain : ∀ c ∈ (sourceDir settings source).text.toList, IsLiteral c)
    (he : settings.extension = "html")
    (hbuild : (build settings source output).run.run session = (.ok report, later))
    {names : List String} {code : String}
    (hholds : HoldsTemplate session.files (sourceDir settings source) names)
    (hcompile : compileFile settings.options session.files
      (pathBelow (sourceRoot settings source) names) = .ok code) :
    targetOf (outputDir settings output) ⟨"/".intercalate names⟩ ∈ report.written ∧
      later.files.read (targetOf (outputDir settings output) ⟨"/".intercalate names⟩) =
        .ok code.toUTF8 := by
  obtain ⟨templates, hfound, hiff⟩ := templatesIn_beneath ht hd hplain
  rw [← he] at hfound
  have hmem := @mem_outputs_iff settings source output session.files templates hd hiff
  have hapart : ∀ o ∈ outputs settings source output session.files templates, ∀ p ∈ templates,
      o.1.location ≠ p.location := by
    intro o ho p hp
    obtain ⟨names', hholds', htarget, -⟩ := hmem.1 ho
    obtain ⟨other, hother, -, rfl⟩ := (hiff p).1 hp
    rw [htarget]
    exact location_targetOf_ne hholds' hother
  obtain ⟨hwritten, -, houtputs⟩ := outputs_of_build ht hbuild hfound hapart
  have ho : (targetOf (outputDir settings output) ⟨"/".intercalate names⟩, code) ∈
      outputs settings source output session.files templates :=
        hmem.2 ⟨names, hholds, rfl, hcompile⟩
  have honly : ∀ o ∈ outputs settings source output session.files templates,
      o.1.location = (targetOf (outputDir settings output) ⟨"/".intercalate names⟩).location →
      o = (targetOf (outputDir settings output) ⟨"/".intercalate names⟩, code) := by
    intro o ho hsame
    obtain ⟨names', hholds', htarget, hcompile'⟩ := hmem.1 ho
    rw [htarget] at hsame
    cases eq_of_location_targetOf hholds' hholds hsame
    exact Prod.ext htarget (Except.ok.inj (hcompile'.symm.trans hcompile))
  have hlookup := houtputs.lookup ho honly
  refine ⟨?_, read_of_lookup hlookup⟩
  rw [hwritten]
  exact List.mem_map_of_mem ho

theorem buildFound_failsByFiles (settings : Settings) (source output : Option String)
    (templates : List Path) :
    FailsByFiles (buildFound settings source output templates) := by
  unfold buildFound
  split
  · exact .bind (.print _) fun _ => .pure _
  · refine .bind (.change _) fun _ => .bind (buildEach_failsByFiles _ _ _ _ _ _) fun _ => ?_
    exact .bind (.print _) fun _ => .pure _

/-- A build finds exactly what is called a template beneath the source directory, in whatever
directory that can be opened, as long as the path of the source directory has no wildcard in it. It
recognises all of this as lying in the source directory. Unless a file or directory cannot be made,
each template that compiles is written to its place in the output directory. -/
theorem build_finds_templates {session later : Session} {result : Except Failure BuildReport}
    (ht : session.files.IsTree) (hd : session.files.isDirectory (sourceDir settings source) = true)
    (hplain : ∀ c ∈ (sourceDir settings source).text.toList, IsLiteral c)
    (he : settings.extension = "html")
    (hrun : (build settings source output).run.run session = (result, later)) :
    ∃ templates,
      templatesIn (sourceRoot settings source) settings.extension session.files = .ok templates ∧
      (∀ p, p ∈ templates ↔
        ∃ names, HoldsTemplate session.files (sourceDir settings source) names ∧
          InOpen session.files (sourceRoot settings source) names ∧
          p = pathBelow (sourceRoot settings source) names) ∧
      (∀ names, HoldsTemplate session.files (sourceDir settings source) names →
        (pathBelow (sourceRoot settings source) names).relativeTo? (sourceRoot settings source) =
          some ⟨"/".intercalate names⟩) ∧
      ((∃ cause, result = .error (.file cause)) ∨
        ∃ report, result = .ok report ∧ ∀ names code,
          HoldsTemplate session.files (sourceDir settings source) names →
          compileFile settings.options session.files
            (pathBelow (sourceRoot settings source) names) = .ok code →
          targetOf (outputDir settings output) ⟨"/".intercalate names⟩ ∈ report.written ∧
            later.files.read (targetOf (outputDir settings output) ⟨"/".intercalate names⟩) =
              .ok code.toUTF8) := by
  obtain ⟨templates, hfound, hiff⟩ := templatesIn_beneath ht hd hplain
  rw [← he] at hfound
  refine ⟨templates, hfound, hiff, fun names hholds => ?_, ?_⟩
  · exact relativeTo?_pathBelow hholds.isStep hholds.ne_nil
  · cases result with
    | error failure =>
      obtain ⟨cause, rfl⟩ := buildFound_failsByFiles settings source output templates _ _ _
        ((run_build hfound).symm.trans hrun)
      exact .inl ⟨cause, rfl⟩
    | ok report => exact .inr ⟨report, rfl, fun _ _ =>
      written_of_holdsTemplate ht hd hplain he hrun⟩

end Written

/-! ## A directory with dots and one with brackets -/

theorem holdsTemplate_project : HoldsTemplate project ⟨"./t/"⟩ ["a.html"] :=
  ⟨["t"], [], "a.html", by with_unfolding_all rfl, rfl, isTree_project.descends nofun rfl,
    by decide⟩

theorem run_dotted :
    (result? ((build projectSettings (some "./t/") none).run.run { files := project })).isSome =
      true := by
  have hroot : sourceRoot projectSettings (some "./t/") =
      sourceRoot projectSettings none := by decide +kernel
  have hfound : templatesIn
      (sourceRoot projectSettings (some "./t/")) projectSettings.extension project =
      .ok [⟨"t/a.html"⟩, ⟨"t/b.html"⟩] := by rw [hroot, templatesIn_project]
  rw [@run_build projectSettings (some "./t/") none { files := project } _ hfound]
  decide +kernel

theorem build_finds_templates_dotted :
    ∃ templates report later code,
      templatesIn (sourceRoot projectSettings (some "./t/")) projectSettings.extension project =
        .ok templates ∧
      (build projectSettings (some "./t/") none).run.run { files := project } =
        (.ok report, later) ∧
      ⟨"t/a.html"⟩ ∈ templates ∧ Path.relativeTo? ⟨"t/a.html"⟩ ⟨"t"⟩ = some ⟨"a.html"⟩ ∧
      compileFile {} project ⟨"t/a.html"⟩ = .ok code ∧ ⟨"o/a.html.php"⟩ ∈ report.written ∧
      later.files.read ⟨"o/a.html.php"⟩ = .ok code.toUTF8 := by
  obtain ⟨⟨report, later⟩, hrun⟩ := Option.isSome_iff_exists.1 run_dotted
  have hbuild := result?_eq_some hrun
  obtain ⟨code, hcode⟩ :=
    @exists_of_isOk _ _ (compileFile {} project ⟨"t/a.html"⟩) (by decide +kernel)
  have hroot : sourceRoot projectSettings (some "./t/") = ⟨"t"⟩ := by decide +kernel
  have hpath : pathBelow ⟨"t"⟩ ["a.html"] = ⟨"t/a.html"⟩ := by decide +kernel
  have htarget : targetOf (outputDir projectSettings none) ⟨"/".intercalate ["a.html"]⟩ =
      ⟨"o/a.html.php"⟩ := by
    decide +kernel
  have hcompile : compileFile {} project
      (pathBelow (sourceRoot projectSettings (some "./t/")) ["a.html"]) =
      .ok code := by rw [hroot, hpath, hcode]
  obtain ⟨templates, hfound, hmem, hrelative, hresult⟩ :=
    @build_finds_templates projectSettings
      (some "./t/") none { files := project } later _ isTree_project
      (by decide +kernel) (by simp [sourceDir, IsLiteral]) rfl hbuild
  have hinside := hrelative ["a.html"] holdsTemplate_project
  have hhere := (hmem (pathBelow (sourceRoot projectSettings (some "./t/")) ["a.html"])).2
    ⟨["a.html"], holdsTemplate_project, .inl rfl, rfl⟩
  rw [hroot, hpath] at hinside hhere
  obtain ⟨_, hfailed⟩ | ⟨_, hdone, hall⟩ := hresult
  · cases hfailed
  · cases hdone
    obtain ⟨hwritten, hread⟩ := hall _ _ holdsTemplate_project hcompile
    rw [htarget] at hwritten hread
    exact ⟨templates, report, later, code, hfound, hbuild, hhere, hinside, hcode, hwritten, hread⟩

/-- The brackets of the directory make a set of one character, so its pattern fits another name. -/
def bracketed : Store := ⟨[(["t[1]"], .directory), (["t[1]", "a.html"], .file "One".toUTF8)]⟩

theorem isTree_bracketed : bracketed.IsTree := by
  have hname : ∀ name ∈ ["t[1]", "a.html"], IsName name := by decide
  intro e he
  simp only [bracketed, List.mem_cons, List.not_mem_nil, or_false] at he
  rcases he with rfl | rfl
  · exact ⟨[], "t[1]", rfl, hname _ (by decide), rfl⟩
  · exact ⟨["t[1]"], "a.html", rfl, hname _ (by decide), rfl⟩

theorem templatesIn_bracketed : templatesIn (sourceRoot {} (some "t[1]")) "html" bracketed =
    .ok [] := by
  have hroot : sourceRoot {} (some "t[1]") = ⟨"t[1]"⟩ := by decide +kernel
  have hpattern : Pattern.parse (templatePattern ⟨"t[1]"⟩ "html") =
      .ok ⟨.wild [.char 't', .oneOf [('1', '1')]] :: beneathParts, false, false⟩ := by
    with_unfolding_all rfl
  have hchildren : bracketed.childPaths ⟨"."⟩ = [⟨"t[1]"⟩] := by
    have hone : (bracketed.children []).map (entryPath ⟨"."⟩) = [⟨"t[1]"⟩] := by decide +kernel
    change ((bracketed.children []).map (entryPath ⟨"."⟩)).mergeSort Path.le = _
    rw [hone, List.mergeSort_singleton]
  have hother : Store.fitsPart (.wild [.char 't', .oneOf [('1', '1')]]) ⟨"t[1]"⟩ = false := by
    have hname : Path.fileName? ⟨"t[1]"⟩ = some "t[1]" := by decide +kernel
    simp [Store.fitsPart, hname, PatternPart.fits, fits, inRanges]
  have hsearch : bracketed.search ⟨.wild [.char 't', .oneOf [('1', '1')]] :: beneathParts, false,
      false⟩ = [] := by
    change bracketed.follow (.wild [.char 't', .oneOf [('1', '1')]] :: beneathParts) ⟨"."⟩ = []
    have hdots : Store.dotPaths ⟨"."⟩ [.char 't', .oneOf [('1', '1')]] = [] := rfl
    have hthere : bracketed.isDirectory ⟨"."⟩ = true := rfl
    rw [Store.follow, if_pos hthere, hdots, hchildren, List.filter_cons_of_neg (by simp [hother])]
    rfl
  rw [hroot, templatesIn, hpattern]
  change Except.ok ((bracketed.search _).mergeSort Path.le) = _
  rw [hsearch, List.mergeSort_nil]

/-- A build misses a directory whose name is a pattern for other names. -/
theorem bracketed_is_missed :
    bracketed.IsTree ∧ bracketed.isDirectory ⟨"t[1]"⟩ = true ∧
    HoldsTemplate bracketed ⟨"t[1]"⟩ ["a.html"] ∧
      (∃ code, compileFile {} bracketed ⟨"t[1]/a.html"⟩ = .ok code) ∧
      templatesIn (sourceRoot {} (some "t[1]")) "html" bracketed = .ok [] ∧
      ∃ later, (build {} (some "t[1]") (some "o")).run.run { files := bracketed } =
        (.ok {}, later) := by
  have hworks : (compileFile {} bracketed ⟨"t[1]/a.html"⟩).isOk = true := by decide +kernel
  have hholds : HoldsTemplate bracketed ⟨"t[1]"⟩ ["a.html"] :=
    ⟨["t[1]"], [], "a.html", by with_unfolding_all rfl, rfl, isTree_bracketed.descends nofun rfl,
      by decide⟩
  refine ⟨isTree_bracketed, by decide +kernel, hholds, ?_, templatesIn_bracketed, ?_⟩
  · exact exists_of_isOk hworks
  · rw [@run_build {} (some "t[1]") (some "o") { files := bracketed } _ templatesIn_bracketed]
    exact ⟨_, rfl⟩

end TemplateCompiler.Command
