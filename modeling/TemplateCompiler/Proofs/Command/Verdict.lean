import TemplateCompiler.Proofs.Command.Build

/-! # One verdict

Whether a template is good is decided by compiling it, whichever command asks. A template that fails
is reported with the same text by all of them, and no file is touched for it.
-/
namespace TemplateCompiler.Command
open Files Script

def passLine (path : Path) : String := "ok " ++ path.text ++ "\n"

def failureEntry (path : Path) (failure : Failure) : String :=
  "error " ++ path.text ++ "\n" ++ failure.message ++ "\n"

def passLines (options : Options) (files : Store) (paths : List Path) : String :=
  String.join (paths.filterMap fun path =>
    match compileFile options files path with
    | .ok _ => some (passLine path)
    | .error _ => none)

def failureEntries (options : Options) (files : Store) (paths : List Path) : String :=
  String.join (paths.filterMap fun path =>
    match compileFile options files path with
    | .ok _ => none
    | .error failure => some (failureEntry path failure))

def failures (options : Options) (files : Store) (paths : List Path) : Nat :=
  paths.countP fun path => !(compileFile options files path).isOk

theorem checkFile_eq (options : Options) (files : Store) (path : Path) :
    checkFile options files path = (compileFile options files path).map fun _ => () := by
  unfold checkFile compileFile
  cases readSource files path with
  | error failure => rfl
  | ok source =>
    change located path source ((TemplateCompiler.compile source options).map fun _ => ()) =
      (located path source (TemplateCompiler.compile source options)).map fun _ => ()
    cases TemplateCompiler.compile source options with
    | error fault => rfl
    | ok code => rfl

theorem run_printFailure (path : Path) (failure : Failure) (session : Session) :
    (printFailure path failure).run.run session =
      (.ok (), { session with errors := session.errors ++ failureEntry path failure }) := by
  have htext : session.errors ++ failureEntry path failure =
      session.errors ++ ("error " ++ path.text ++ "\n" ++ failure.message) ++ "\n" :=
    String.append_assoc.symm
  rw [htext]
  rfl

/-- A checked template is counted if it fails, and reported either way. -/
theorem run_checkEach (options : Options) (paths : List Path) (session : Session) :
    (checkEach options paths).run.run session =
      (.ok (failures options session.files paths),
        { session with
          output := session.output ++ passLines options session.files paths
          errors := session.errors ++ failureEntries options session.files paths }) := by
  induction paths generalizing session with
  | nil =>
    have hnone : session =
        { session with output := session.output ++ "", errors := session.errors ++ "" } := by
      rw [String.append_empty, String.append_empty]
    exact congrArg (Prod.mk _) hnone
  | cons path rest ih =>
    rw [checkEach, run_get_bind, checkFile_eq]
    cases hverdict : compileFile options session.files path with
    | ok code =>
      have hprint : (printLine ("ok " ++ path.text)).run.run session =
          (.ok (), { session with output := session.output ++ passLine path }) := rfl
      change (printLine ("ok " ++ path.text) >>= fun _ => pure 0 >>= fun failed =>
        checkEach options rest >>= fun more => pure (failed + more)).run.run session = _
      rw [run_bind_of_ok hprint, pure_bind, run_bind_of_ok (ih _)]
      simp only [failures, passLines, failureEntries, List.countP_cons, List.filterMap_cons,
        hverdict, String.join_cons]
      rw [Nat.zero_add, String.append_assoc]
      rfl
    | error failure =>
      change (printFailure path failure >>= fun _ => pure 1 >>= fun failed =>
        checkEach options rest >>= fun more => pure (failed + more)).run.run session = _
      rw [run_bind_of_ok (run_printFailure path failure session), pure_bind, run_bind_of_ok (ih _)]
      simp only [failures, passLines, failureEntries, List.countP_cons, List.filterMap_cons,
        hverdict, String.join_cons]
      rw [Nat.add_comm 1, String.append_assoc]
      rfl

/-- A check reports on every template and fails if one of them does. -/
theorem run_check (options : Options) (paths : List Path) (session : Session) :
    (check options paths).run.run session =
      (if 0 < failures options session.files paths then
          .error (.faultyTemplates (failures options session.files paths) paths.length)
        else .ok (),
        { session with
          output := session.output ++ passLines options session.files paths
          errors := session.errors ++ failureEntries options session.files paths }) := by
  rw [check, run_bind_of_ok (run_checkEach options paths session)]
  split
  · rfl
  · rfl

section Failing

variable {options : Options} {path : Path} {session : Session} {failure : Failure}
  (h : compileFile options session.files path = .error failure)
include h

theorem run_compile_of_error (output : Option Path) :
    (compile options path output).run.run session = (.error failure, session) := by
  have hquery : (query (compileFile options · path)).run.run session = (.error failure, session) :=
    run_query_of_error h
  rw [compile, run_bind_of_error hquery]

theorem run_buildOne_of_error {sourceDir sourceRoot outputDir relative : Path}
    (report : BuildReport) (hr : path.relativeTo? sourceRoot = some relative) :
    (buildOne options sourceDir sourceRoot outputDir path report).run.run session =
      (.ok { report with failed := report.failed + 1 },
        { session with errors := session.errors ++ failureEntry path failure }) := by
  simp only [buildOne, hr]
  rw [run_get_bind]
  simp only [h]
  rw [run_bind_of_ok (run_printFailure path failure session)]
  rfl

end Failing

section Compiling

variable {options : Options} {path : Path} {session : Session} {code : String}
  (h : compileFile options session.files path = .ok code)
include h

theorem run_compile_of_ok (target : Path) :
    (compile options path (some target)).run.run session =
      (writeFile target code).run.run session := by
  rw [compile, run_query_bind h]

theorem run_buildOne_of_ok {sourceDir sourceRoot outputDir relative : Path} (report : BuildReport)
    (hr : path.relativeTo? sourceRoot = some relative) :
    (buildOne options sourceDir sourceRoot outputDir path report).run.run session =
      (do
        writeFile (targetOf outputDir relative) code
        return { report with written := report.written ++
          [targetOf outputDir relative] }).run.run session := by
  simp only [buildOne, hr]
  rw [run_get_bind]
  simp only [h]

end Compiling

/-- The commands agree on every template. A check goes through all of them, whatever fails, shows
one line for each that compiles and one entry with the failure for each other one, fails if there is
such a one, and changes no file. A template that fails makes `compile` fail in the same way, without
any change, and is passed over by a build with the same entry; what compiles is written. -/
theorem verdicts_agree (options : Options) (session : Session) :
    (∀ paths, (check options paths).run.run session =
      (if 0 < failures options session.files paths then
          .error (.faultyTemplates (failures options session.files paths) paths.length)
        else .ok (),
        { session with
          output := session.output ++ passLines options session.files paths
          errors := session.errors ++ failureEntries options session.files paths })) ∧
      (∀ path failure, compileFile options session.files path = .error failure →
        (∀ output, (compile options path output).run.run session = (.error failure, session)) ∧
          ∀ sourceDir sourceRoot outputDir relative report,
            path.relativeTo? sourceRoot = some relative →
            (buildOne options sourceDir sourceRoot outputDir path report).run.run session =
              (.ok { report with failed := report.failed + 1 },
                { session with errors := session.errors ++ failureEntry path failure })) ∧
      ∀ path code, compileFile options session.files path = .ok code →
        (∀ target,
          (compile options path (some target)).run.run session =
            (writeFile target code).run.run session) ∧
          ∀ sourceDir sourceRoot outputDir relative report,
            path.relativeTo? sourceRoot = some relative →
            (buildOne options sourceDir sourceRoot outputDir path report).run.run session =
              (do
                writeFile (targetOf outputDir relative) code
                return { report with written := report.written ++
                  [targetOf outputDir relative] }).run.run
                  session := by
  refine ⟨fun paths => run_check options paths session, fun path failure h => ⟨?_, ?_⟩,
    fun path code h => ⟨?_, ?_⟩⟩
  · exact run_compile_of_error h
  · exact fun _ _ _ _ report hr => run_buildOne_of_error h report hr
  · exact run_compile_of_ok h
  · exact fun _ _ _ _ report hr => run_buildOne_of_ok h report hr

theorem verdicts_agree_project :
    ∃ failure code later, compileFile {} project ⟨"t/b.html"⟩ = .error failure ∧
      compileFile {} project ⟨"t/a.html"⟩ = .ok code ∧
      (check {} [⟨"t/b.html"⟩, ⟨"t/a.html"⟩, ⟨"t/b.html"⟩,
        ⟨"t/c.html"⟩]).run.run { files := project } =
        (.error (.faultyTemplates 3 4), later) ∧
      later.output = "ok t/a.html\n" ∧ later.files = project ∧
      (compile {} ⟨"t/b.html"⟩ (some ⟨"o/b.php"⟩)).run.run { files := project } =
        (.error failure, { files := project }) ∧
      (compile {} ⟨"t/a.html"⟩ (some ⟨"o/a.php"⟩)).run.run { files := project } =
        (writeFile ⟨"o/a.php"⟩ code).run.run { files := project } ∧
      (buildOne {} ⟨"t"⟩ ⟨"t"⟩ ⟨"o"⟩ ⟨"t/b.html"⟩ {}).run.run { files := project } =
        (.ok { failed := 1 },
          { files := project, errors := "" ++ failureEntry ⟨"t/b.html"⟩ failure }) := by
  have hfails : (compileFile {} project ⟨"t/b.html"⟩).isOk = false := by decide +kernel
  have hworks : (compileFile {} project ⟨"t/a.html"⟩).isOk = true := by decide +kernel
  have hcount : failures {} project [⟨"t/b.html"⟩, ⟨"t/a.html"⟩, ⟨"t/b.html"⟩, ⟨"t/c.html"⟩] =
      3 := by
    decide +kernel
  have hlines : "" ++ passLines {} project [⟨"t/b.html"⟩, ⟨"t/a.html"⟩, ⟨"t/b.html"⟩,
      ⟨"t/c.html"⟩] =
      "ok t/a.html\n" := by decide +kernel
  have hrelative : Path.relativeTo? ⟨"t/b.html"⟩ ⟨"t"⟩ = some ⟨"b.html"⟩ := by decide +kernel
  obtain ⟨hcheck, hfailing, hcompiling⟩ := verdicts_agree {} { files := project }
  cases hb : compileFile {} project ⟨"t/b.html"⟩ with
  | ok code =>
    rw [hb] at hfails
    cases hfails
  | error failure =>
    cases ha : compileFile {} project ⟨"t/a.html"⟩ with
    | error failure =>
      rw [ha] at hworks
      cases hworks
    | ok code =>
      obtain ⟨hcompile, hbuild⟩ := hfailing _ _ hb
      have hrun := hcheck [⟨"t/b.html"⟩, ⟨"t/a.html"⟩, ⟨"t/b.html"⟩, ⟨"t/c.html"⟩]
      rw [hcount] at hrun
      exact ⟨failure, code, _, rfl, rfl, hrun, hlines, rfl, hcompile _, (hcompiling _ _ ha).1 _,
        hbuild ⟨"t"⟩ ⟨"t"⟩ ⟨"o"⟩ ⟨"b.html"⟩ {} hrelative⟩

end TemplateCompiler.Command
