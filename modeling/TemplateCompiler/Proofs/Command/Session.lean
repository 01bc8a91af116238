import TemplateCompiler.Command.Single
import TemplateCompiler.Proofs.Files.Location

/-! # Running scripts

A script that succeeds has run its parts one after the other. Only changes of the files change the
files.
-/
namespace TemplateCompiler.Command
open Files

namespace Script

variable {α β : Type} {s t : Session}

theorem run_bind_eq_ok {x : Script α} {f : α → Script β} {b : β}
    (h : (x >>= f).run.run s = (.ok b, t)) :
    ∃ a u, x.run.run s = (.ok a, u) ∧ (f a).run.run u = (.ok b, t) := by
  rw [ExceptT.run_bind, StateT.run_bind] at h
  rcases hx : x.run.run s with ⟨e | a, u⟩
  · rw [hx] at h
    cases h
  · rw [hx] at h
    exact ⟨a, u, rfl, h⟩

theorem run_bind_of_ok {x : Script α} {a : α} (h : x.run.run s = (.ok a, t)) (f : α → Script β) :
    (x >>= f).run.run s = (f a).run.run t := by
  rw [ExceptT.run_bind, StateT.run_bind, h]
  rfl

theorem run_bind_of_error {x : Script α} {e : Failure} (h : x.run.run s = (.error e, t))
    (f : α → Script β) :
    (x >>= f).run.run s = (.error e, t) := by
  rw [ExceptT.run_bind, StateT.run_bind, h]
  rfl

theorem run_pure_eq_ok {a b : α} (h : (pure a : Script α).run.run s = (.ok b, t)) :
    b = a ∧ t = s := by
  cases h
  exact ⟨rfl, rfl⟩

theorem run_get_eq_ok {u : Session} (h : (get : Script Session).run.run s = (.ok u, t)) :
    u = s ∧ t = s := by
  cases h
  exact ⟨rfl, rfl⟩

theorem run_print_eq_ok {text : String} (h : (print text).run.run s = (.ok (), t)) :
    t = { s with output := s.output ++ text } := by
  cases h
  rfl

theorem run_printError_eq_ok {text : String} (h : (printError text).run.run s = (.ok (), t)) :
    t = { s with errors := s.errors ++ text ++ "\n" } := by
  cases h
  rfl

theorem run_get_bind (f : Session → Script β) : (get >>= f).run.run s = (f s).run.run s := rfl

theorem run_query_bind {question : Store → Except Failure α} {a : α} (h : question s.files = .ok a)
    (f : α → Script β) : (query question >>= f).run.run s = (f a).run.run s := by
  change (query (fun _ => question s.files) >>= f).run.run s = _
  rw [h]
  rfl

theorem run_query_of_error {question : Store → Except Failure α} {e : Failure}
    (h : question s.files = .error e) :
    (query question).run.run s = (.error e, s) := by
  change (query fun _ => question s.files).run.run s = _
  rw [h]
  rfl

theorem run_change_eq_ok {step : Store → Except FileError Unit × Store}
    (h : (change step).run.run s = (.ok (), t)) :
    (step s.files).1 = .ok () ∧ t = { s with files := (step s.files).2 } := by
  obtain ⟨_, start, hget, hrest⟩ := run_bind_eq_ok h
  obtain ⟨rfl, rfl⟩ := run_get_eq_ok hget
  obtain ⟨_, changed, hset, hend⟩ := run_bind_eq_ok hrest
  cases hset
  cases hstep : (step start.files).1 with
  | error e =>
    rw [hstep] at hend
    cases hend
  | ok _ =>
    rw [hstep] at hend
    cases hend
    exact ⟨rfl, rfl⟩

/-! ## What every run keeps -/

def Keeps (P : Store → Prop) (x : Script α) : Prop := ∀ s :
  Session, P s.files → P (x.run.run s).2.files

namespace Keeps

variable {P : Store → Prop}

theorem pure (a : α) : Keeps P (Pure.pure a : Script α) := fun _ h => h

theorem print (text : String) : Keeps P (print text) := fun _ h => h

theorem printError (text : String) : Keeps P (printError text) := fun _ h => h

theorem bind {x : Script α} {f : α → Script β} (hx : Keeps P x) (hf : ∀ a, Keeps P (f a)) :
    Keeps P (x >>= f) := by
  intro s h
  have hstart := hx s h
  rw [ExceptT.run_bind, StateT.run_bind]
  rcases hrun : x.run.run s with ⟨e | a, t⟩
  · rwa [hrun] at hstart
  · rw [hrun] at hstart
    exact hf a t hstart

theorem get_bind {f : Session → Script β} (hf : ∀ u, Keeps P (f u)) :
    Keeps P (get >>= f) := fun s h => hf s s h

theorem query_bind {question : Store → Except Failure α} {f : α → Script β}
    (hf : ∀ a, Keeps P (f a)) :
    Keeps P (query question >>= f) := by
  refine bind (get_bind fun u => ?_) hf
  split
  · exact pure _
  · exact fun _ h => h

theorem change {step : Store → Except FileError Unit × Store}
    (hstep : ∀ files, P files → P (step files).2) :
    Keeps P (change step) := by
  intro s h
  have hnext := hstep s.files h
  change P ((Script.change fun _ => step s.files).run.run s).2.files
  generalize step s.files = taken at hnext ⊢
  obtain ⟨result, files⟩ := taken
  cases result with
  | ok _ => exact hnext
  | error _ => exact hnext

end Keeps

/-! ## How a run fails -/

/-- A script that fails only where the files cannot be changed. -/
def FailsByFiles (x : Script α) : Prop :=
  ∀ (s t : Session) (e : Failure), x.run.run s = (.error e, t) → ∃ cause, e = .file cause

namespace FailsByFiles

theorem pure (a : α) : FailsByFiles (Pure.pure a : Script α) := fun _ _ _ h => by cases h

theorem print (text : String) : FailsByFiles (print text) := fun _ _ _ h => by cases h

theorem printError (text : String) : FailsByFiles (printError text) := fun _ _ _ h => by cases h

theorem bind {x : Script α} {f : α → Script β} (hx : FailsByFiles x)
    (hf : ∀ a, FailsByFiles (f a)) :
    FailsByFiles (x >>= f) := by
  intro s t e h
  rcases hrun : x.run.run s with ⟨failure | a, u⟩
  · rw [run_bind_of_error hrun] at h
    cases h
    exact hx s _ _ hrun
  · rw [run_bind_of_ok hrun] at h
    exact hf a u t e h

theorem get_bind {f : Session → Script β} (hf : ∀ u, FailsByFiles (f u)) :
    FailsByFiles (get >>= f) :=
  fun s t e h => hf s s t e h

theorem change (step : Store → Except FileError Unit × Store) : FailsByFiles (change step) := by
  intro s t e h
  change (Script.change fun _ => step s.files).run.run s = _ at h
  generalize step s.files = taken at h
  obtain ⟨result, files⟩ := taken
  cases result with
  | ok _ => cases h
  | error cause =>
    cases h
    exact ⟨cause, rfl⟩

end FailsByFiles
end Script
end TemplateCompiler.Command
