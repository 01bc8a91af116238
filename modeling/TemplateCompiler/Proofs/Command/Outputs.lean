import Mathlib.Data.List.Basic
import TemplateCompiler.Command.Build
import TemplateCompiler.Proofs.Command.Session

/-! # What templates are compiled into

The templates of a build are taken one after the other, and each step only adds to the files. As
long as no output is one of the templates, each of them is read as it was before the first step, so
its outcome depends on nothing but its own file.
-/
namespace TemplateCompiler.Command
open Files Script

/-- What a template is compiled into and its code, if it lies in the source directory and
compiles. -/
def output? (options : Options) (sourceRoot outputDir : Path) (files : Store) (path : Path) :
    Option (Path × String) :=
  match path.relativeTo? sourceRoot, compileFile options files path with
  | some relative, .ok code => some (targetOf outputDir relative, code)
  | _, _ => none

theorem compileFile_congr {files changed : Store} {path : Path}
    (h : changed.lookup path = files.lookup path) (options : Options) :
    compileFile options changed path = compileFile options files path := by
  unfold compileFile readSource Store.readText Store.read
  rw [h]

theorem output?_congr {files changed : Store} {path : Path}
    (h : changed.lookup path = files.lookup path) (options : Options)
    (sourceRoot outputDir : Path) :
    output? options sourceRoot outputDir changed path =
      output? options sourceRoot outputDir files path := by
  unfold output?
  rw [compileFile_congr h]

/-! ## One template -/

theorem writes_of_writeFile {path : Path} {content : String} {s t : Session}
    (h : (writeFile path content).run.run s = (.ok (), t)) :
    Store.Writes path content.toUTF8 s.files t.files := by
  have hparent : ∃ u, s.files.GainsDirectories u.files ∧
      (change fun files => files.commit (files.write path content.toUTF8)).run.run u =
        (.ok (), t) := by
    unfold writeFile at h
    split at h
    · next parent _ =>
      obtain ⟨_, u, hmade, hwrite⟩ := run_bind_eq_ok h
      obtain ⟨-, rfl⟩ := run_change_eq_ok hmade
      exact ⟨_, Store.gainsDirectories_makeDirectories s.files parent, hwrite⟩
    · exact ⟨s, .refl s.files, h⟩
  obtain ⟨u, hgains, hwrite⟩ := hparent
  obtain ⟨hresult, rfl⟩ := run_change_eq_ok hwrite
  refine hgains.writes ?_
  cases hchanged : u.files.write path content.toUTF8 with
  | error e =>
    rw [hchanged] at hresult
    cases hresult
  | ok changed => exact Store.writes_of_write hchanged

/-- A template is either counted as failed, or compiled and written. -/
theorem buildOne_cases {options : Options} {sourceDir sourceRoot outputDir path : Path}
    {report next : BuildReport} {s t : Session}
    (h : (buildOne options sourceDir sourceRoot outputDir path report).run.run s = (.ok next, t)) :
    (output? options sourceRoot outputDir s.files path = none ∧
        next = { report with failed := report.failed + 1 } ∧ t.files = s.files) ∨
      ∃ target code, output? options sourceRoot outputDir s.files path = some (target, code) ∧
        next = { report with written := report.written ++ [target] } ∧
        Store.Writes target code.toUTF8 s.files t.files := by
  unfold buildOne at h
  unfold output?
  cases hrelative : path.relativeTo? sourceRoot with
  | none =>
    rw [hrelative] at h
    obtain ⟨_, u, hprint, hend⟩ := run_bind_eq_ok h
    cases run_printError_eq_ok hprint
    obtain ⟨rfl, rfl⟩ := run_pure_eq_ok hend
    exact .inl ⟨rfl, rfl, rfl⟩
  | some relative =>
    rw [hrelative] at h
    obtain ⟨_, start, hget, hrest⟩ := run_bind_eq_ok h
    obtain ⟨rfl, rfl⟩ := run_get_eq_ok hget
    cases hcompile : compileFile options start.files path with
    | error failure =>
      simp only [hcompile] at hrest
      obtain ⟨_, u, hprint, hend⟩ := run_bind_eq_ok hrest
      cases run_printError_eq_ok hprint
      obtain ⟨rfl, rfl⟩ := run_pure_eq_ok hend
      exact .inl ⟨rfl, rfl, rfl⟩
    | ok code =>
      simp only [hcompile] at hrest
      obtain ⟨_, u, hwrite, hend⟩ := run_bind_eq_ok hrest
      obtain ⟨rfl, rfl⟩ := run_pure_eq_ok hend
      exact .inr ⟨targetOf outputDir relative, code, rfl, rfl, writes_of_writeFile hwrite⟩

/-! ## All templates -/

/-- Files are written one after the other, so that the last one at a place stays. -/
structure Outputs (outputs : List (Path × String)) (s t : Store) : Prop where
  grows : s.Grows t
  last : ∀ {front o back}, outputs = front ++ o :: back →
    (∀ o' ∈ back, o'.1.location ≠ o.1.location) →
    t.lookup o.1 = .ok (.file o.2.toUTF8)
  elsewhere : ∀ here, (∀ o ∈ outputs, o.1.location ≠ here) → t.fileAt here = s.fileAt here

namespace Outputs

theorem nil {s t : Store} (h : s.GainsDirectories t) : Outputs [] s t := by
  refine ⟨h.grows, fun {front o back} heq _ => ?_, fun here _ => h.files here⟩
  cases front with
  | nil => cases heq
  | cons first front => cases heq

theorem cons {s t u : Store} {o : Path × String} {outputs : List (Path × String)}
    (h : Store.Writes o.1 o.2.toUTF8 s t) (ho : Outputs outputs t u) :
    Outputs (o :: outputs) s u := by
  refine ⟨h.grows.trans ho.grows, fun {front o' back} heq hback => ?_, fun here hhere => ?_⟩
  · cases front with
    | nil =>
      cases heq
      rw [ho.grows.lookup (by rw [h.lookup]; exact nofun) (ho.elsewhere _ hback), h.lookup]
    | cons first front =>
      cases heq
      exact ho.last rfl hback
  · obtain ⟨hfirst, hrest⟩ := List.forall_mem_cons.1 hhere
    rw [ho.elsewhere here hrest, h.elsewhere here (Ne.symm hfirst)]

theorem of_gainsDirectories {outputs : List (Path × String)} {s t u : Store}
    (h : s.GainsDirectories t) (ho : Outputs outputs t u) : Outputs outputs s u :=
  ⟨h.grows.trans ho.grows, ho.last, fun here hhere =>
    (ho.elsewhere here hhere).trans (h.files here)⟩

theorem lookup {outputs : List (Path × String)} {s t : Store} (h : Outputs outputs s t)
    {o : Path × String} (ho : o ∈ outputs)
    (honly : ∀ o' ∈ outputs, o'.1.location = o.1.location → o' = o) :
    t.lookup o.1 = .ok (.file o.2.toUTF8) := by
  obtain ⟨behind, front, hreverse, hlast⟩ := List.eq_append_cons_of_mem (List.mem_reverse.2 ho)
  have heq : outputs = front.reverse ++ o :: behind.reverse := by
    rw [← List.reverse_reverse outputs, hreverse, List.reverse_append, List.reverse_cons,
      List.append_assoc, List.singleton_append]
  refine h.last heq fun o' ho' hsame => hlast ?_
  rw [← honly o' (by rw [heq]; simp [List.mem_reverse.1 ho']) hsame]
  exact List.mem_reverse.1 ho'

end Outputs

/-- A run over templates that are there, when no output is one of them. -/
theorem buildEach_outputs {options : Options} {sourceDir sourceRoot outputDir : Path}
    {paths : List Path} {report last : BuildReport} {s t : Session}
    (h : (buildEach options sourceDir sourceRoot outputDir paths report).run.run s = (.ok last, t))
    (hfound : ∀ p ∈ paths, s.files.lookup p ≠ .error .notFound)
    (hapart : ∀ o ∈ paths.filterMap (output? options sourceRoot outputDir s.files), ∀ p ∈ paths,
      o.1.location ≠ p.location) :
    last.written =
        report.written ++ (paths.filterMap
          (output? options sourceRoot outputDir s.files)).map Prod.fst ∧
      last.failed + (paths.filterMap (output? options sourceRoot outputDir s.files)).length =
        report.failed + paths.length ∧
      Outputs (paths.filterMap (output? options sourceRoot outputDir s.files)) s.files t.files := by
  induction paths generalizing report s with
  | nil =>
    obtain ⟨rfl, rfl⟩ := run_pure_eq_ok h
    exact ⟨(List.append_nil _).symm, rfl, .nil (.refl _)⟩
  | cons path paths ih =>
    rw [buildEach] at h
    obtain ⟨next, u, hone, hrest⟩ := run_bind_eq_ok h
    obtain ⟨-, hfoundRest⟩ := List.forall_mem_cons.1 hfound
    rcases buildOne_cases hone with ⟨hnone, rfl, hfiles⟩ | ⟨target, code, hsome, rfl, hwrites⟩
    · rw [List.filterMap_cons_none hnone] at hapart ⊢
      rw [← hfiles] at hapart hfoundRest ⊢
      obtain ⟨hwritten, hfailed, houtputs⟩ :=
        ih hrest hfoundRest fun o ho p hp => hapart o ho p (List.mem_cons_of_mem _ hp)
      refine ⟨hwritten, ?_, houtputs⟩
      rw [hfailed, List.length_cons]
      exact Nat.add_right_comm _ _ _
    · rw [List.filterMap_cons_some hsome] at hapart ⊢
      obtain ⟨htarget, hapartRest⟩ := List.forall_mem_cons.1 hapart
      have hsame : ∀ p ∈ paths, u.files.lookup p = s.files.lookup p := fun p hp =>
        hwrites.grows.lookup (hfoundRest p hp)
          (hwrites.elsewhere _ (Ne.symm (htarget p (List.mem_cons_of_mem _ hp))))
      have hcongr : paths.filterMap (output? options sourceRoot outputDir u.files) =
          paths.filterMap (output? options sourceRoot outputDir s.files) :=
        List.filterMap_congr fun p hp => output?_congr (hsame p hp) options sourceRoot outputDir
      obtain ⟨hwritten, hfailed, houtputs⟩ :=
        ih hrest (fun p hp => by rw [hsame p hp]; exact hfoundRest p hp)
        (fun o ho p hp => hapartRest o (hcongr ▸ ho) p (List.mem_cons_of_mem _ hp))
      rw [hcongr] at hwritten hfailed houtputs
      refine ⟨?_, ?_, .cons hwrites houtputs⟩
      · rw [hwritten, List.map_cons, List.append_assoc, List.singleton_append]
      · rw [List.length_cons, List.length_cons, ← Nat.add_assoc, hfailed]
        rfl

/-! ## Trees -/

theorem writeFile_keeps_isTree (path : Path) (content : String) :
    Keeps Store.IsTree (writeFile path content) := by
  have hwrite : Keeps Store.IsTree (change fun files =>
      files.commit (files.write path content.toUTF8)) := by
    refine .change fun files ht => ?_
    cases hwritten : files.write path content.toUTF8 with
    | error e => exact ht
    | ok written => exact ht.write hwritten
  unfold writeFile
  split
  · exact .bind (.change fun files ht => ht.makeDirectories _) fun _ => hwrite
  · exact hwrite

theorem buildOne_keeps_isTree (options : Options) (sourceDir sourceRoot outputDir path : Path)
    (report : BuildReport) :
    Keeps Store.IsTree (buildOne options sourceDir sourceRoot outputDir path report) := by
  unfold buildOne
  split
  · exact .bind (.printError _) fun _ => .pure _
  · refine .get_bind fun u => ?_
    split
    · exact .bind (.printError _) fun _ => .pure _
    · exact .bind (writeFile_keeps_isTree _ _) fun _ => .pure _

theorem buildEach_keeps_isTree (options : Options) (sourceDir sourceRoot outputDir : Path)
    (paths : List Path) (report : BuildReport) :
    Keeps Store.IsTree (buildEach options sourceDir sourceRoot outputDir paths report) := by
  induction paths generalizing report with
  | nil => exact .pure report
  | cons path paths ih =>
    exact .bind (buildOne_keeps_isTree options sourceDir sourceRoot outputDir path report) ih

/-- A build leaves a tree behind, whether it comes to its end or not. -/
theorem build_keeps_isTree (settings : Settings) (source output : Option String) :
    Keeps Store.IsTree (build settings source output) := by
  refine .bind (.print _) fun _ => .query_bind fun templates => ?_
  split
  · exact .bind (.print _) fun _ => .pure _
  · refine .bind (.change fun files ht => ht.makeDirectories _) fun _ => .bind ?_ fun report => ?_
    · exact buildEach_keeps_isTree _ _ _ _ _ _
    · exact .bind (.print _) fun _ => .pure _

/-! ## Failures -/

theorem writeFile_failsByFiles (path : Path) (content : String) :
    FailsByFiles (writeFile path content) := by
  unfold writeFile
  split
  · exact .bind (.change _) fun _ => .change _
  · exact .change _

theorem buildOne_failsByFiles (options : Options) (sourceDir sourceRoot outputDir path : Path)
    (report : BuildReport) :
    FailsByFiles (buildOne options sourceDir sourceRoot outputDir path report) := by
  unfold buildOne
  split
  · exact .bind (.printError _) fun _ => .pure _
  · refine .get_bind fun u => ?_
    split
    · exact .bind (.printError _) fun _ => .pure _
    · exact .bind (writeFile_failsByFiles _ _) fun _ => .pure _

theorem buildEach_failsByFiles (options : Options) (sourceDir sourceRoot outputDir : Path)
    (paths : List Path) (report : BuildReport) :
    FailsByFiles (buildEach options sourceDir sourceRoot outputDir paths report) := by
  induction paths generalizing report with
  | nil => exact .pure report
  | cons path paths ih =>
    exact .bind (buildOne_failsByFiles options sourceDir sourceRoot outputDir path report) ih

end TemplateCompiler.Command
