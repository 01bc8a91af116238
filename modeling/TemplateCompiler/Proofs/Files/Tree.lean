import Mathlib.Data.List.Induction
import TemplateCompiler.Files.Store

/-! # Trees

In a tree everything is in a directory, under a name. So the way down to something leads through
directories, and the way up from a directory does as well.
-/
namespace TemplateCompiler.Files

def IsName (name : String) : Prop := isInert name = false ∧ name ≠ ".." ∧ '/' ∉ name.toList

instance (name : String) : Decidable (IsName name) := inferInstanceAs (Decidable (_ ∧ _ ∧ _))

theorem IsName.ne_empty {name : String} (h : IsName name) : name ≠ "" := by
  rintro rfl
  exact absurd h.1 (by decide)

theorem Location.isBase_enclosing {here : Location} (h : here.isBase = true) :
    here.enclosing.isBase = true := by
  match here with
  | [] => rfl
  | [name] =>
    have hway : isWayOut name = true := h
    rw [enclosing]
    split
    · rfl
    · have hslash : "/..".toList = ['/', '.', '.'] := rfl
      rw [isBase, isWayOut, String.toList_append, hslash]
      simp
  | _ :: _ :: _ => cases h

/-- What is right below a location and stays on its side is no base. -/
theorem Location.not_isBase_concat {here : Location} {names : List String} {name : String}
    (h : here.isOutside = isOutside (here ++ (names ++ [name]))) :
    isBase (here ++ (names ++ [name])) = false := by
  match here, names with
  | [], [] => exact h.symm
  | [], [_] => rfl
  | [], _ :: _ :: _ => rfl
  | [_], [] => rfl
  | [_], _ :: _ => rfl
  | _ :: _ :: _, _ => rfl

theorem Location.isOutside_front {here : Location} {names : List String} {name : String}
    (h : here.isOutside = isOutside (here ++ (names ++ [name]))) :
    here.isOutside = isOutside (here ++ names) := by
  match here, names with
  | [], [] => rfl
  | [], _ :: _ => exact h
  | _ :: _, _ => rfl

namespace Store

/-- Everything is in a directory, under a name. -/
def IsTree (s : Store) : Prop :=
  ∀ e ∈ s.entries, ∃ directory name, e.1 = directory ++ [name] ∧ IsName name ∧ s.find? directory =
    some .directory

variable {s : Store}

theorem not_isBase_of_find? {s : Store} {here : Location} (h : s.find? here ≠ some .directory) :
    here.isBase = false := by
  cases hbase : here.isBase with
  | false => rfl
  | true => exact absurd (by rw [find?, if_pos hbase]) h

theorem find?_of_isBase {here : Location} (h : here.isBase = true) :
    s.find? here = some .directory := by
  rw [find?, if_pos h]

theorem find?_ne_none_of_mem {e : Location × Item} (h : e ∈ s.entries) : s.find? e.1 ≠ none := by
  unfold find?
  split
  · exact nofun
  · intro hnone
    rw [Option.map_eq_none_iff, List.find?_eq_none] at hnone
    exact hnone e h (by simp)

theorem exists_mem_of_find? {here : Location} {item : Item} (h : s.find? here = some item)
    (hbase : here.isBase = false) : ∃ e ∈ s.entries, e.1 = here := by
  rw [find?, hbase] at h
  obtain ⟨e, he, -⟩ := Option.map_eq_some_iff.1 h
  exact ⟨e, List.mem_of_find?_eq_some he, by simpa using List.find?_some he⟩

theorem IsTree.enclosing (ht : s.IsTree) {here : Location} (h : s.find? here = some .directory) :
    s.find? here.enclosing = some .directory := by
  by_cases hbase : here.isBase = true
  · exact find?_of_isBase (Location.isBase_enclosing hbase)
  · rw [Bool.not_eq_true] at hbase
    obtain ⟨e, he, rfl⟩ := exists_mem_of_find? h hbase
    obtain ⟨directory, name, hplace, hname, hdirectory⟩ := ht e he
    rw [hplace] at hbase ⊢
    cases directory with
    | nil =>
      have hway : Location.isWayOut name = false := hbase
      have hroot : name ≠ "/" := by
        rintro rfl
        exact hname.2.2 (by decide)
      change s.find?
        (if name = "/" then ["/"] else if Location.isWayOut name = true then _ else []) = _
      rw [if_neg hroot, hway]
      rfl
    | cons first rest =>
      have hlast : Location.enclosing (first :: rest ++ [name]) = first :: rest := by
        cases rest with
        | nil => rfl
        | cons second rest =>
          change (first :: second :: rest ++ [name]).dropLast = first :: second :: rest
          exact List.dropLast_concat
      rwa [hlast]

/-! ## The way down -/

/-- Names that lead from a directory through directories to something. -/
structure Descends (s : Store) (here : Location) (names : List String) : Prop where
  name : ∀ name ∈ names, IsName name
  directory : ∀ {front back}, names = front ++ back → back ≠ [] → s.find? (here ++ front) =
    some .directory
  item : s.find? (here ++ names) ≠ none

/-- The way down stays on its side. -/
theorem Descends.isOutside {here : Location} {names : List String} (h : s.Descends here names) :
    here.isOutside = Location.isOutside (here ++ names) := by
  cases here with
  | nil =>
    cases names with
    | nil => rfl
    | cons name names =>
      obtain ⟨hinert, hup, hslash⟩ := h.name name List.mem_cons_self
      change false = Location.isWayOut name
      simp [Location.isWayOut, hup, hslash]
  | cons first rest => rfl

theorem Descends.concat {here : Location} {names : List String} {name : String}
    (h : s.Descends here names) (hd : s.find? (here ++ names) = some .directory) (hn : IsName name)
    (hi : s.find? (here ++ (names ++ [name])) ≠ none) : s.Descends here (names ++ [name]) := by
  refine ⟨?_, ?_, hi⟩
  · intro other hother
    rcases List.mem_append.1 hother with hother | hother
    · exact h.name other hother
    · rwa [List.mem_singleton.1 hother]
  · intro front back heq hback
    obtain ⟨before, last, rfl⟩ := (List.eq_nil_or_concat back).resolve_left hback
    rw [List.concat_eq_append, ← List.append_assoc] at heq
    obtain ⟨hnames, -⟩ := List.append_inj' heq rfl
    by_cases hempty : before = []
    · rw [hempty, List.append_nil] at hnames
      rwa [← hnames]
    · exact h.directory hnames hempty

/-- In a tree the names to something below a directory lead through directories. -/
theorem IsTree.descends (ht : s.IsTree) {here : Location} {names : List String}
    (hi : s.find? (here ++ names) ≠ none)
    (hout : here.isOutside = Location.isOutside (here ++ names)) : s.Descends here names := by
  induction names using List.reverseRecOn with
  | nil =>
    refine ⟨fun name hname => absurd hname List.not_mem_nil, fun {front back} heq hback => ?_, hi⟩
    exact absurd (List.append_eq_nil_iff.1 heq.symm).2 hback
  | append_singleton names name ih =>
    obtain ⟨item, hitem⟩ := Option.ne_none_iff_exists'.1 hi
    obtain ⟨e, he, hplace⟩ := exists_mem_of_find? hitem (Location.not_isBase_concat hout)
    obtain ⟨directory, last, hsplit, hlast, hdirectory⟩ := ht e he
    rw [hplace, ← List.append_assoc] at hsplit
    obtain ⟨rfl, hsame⟩ := List.append_inj' hsplit rfl
    cases hsame
    have hfront := ih (by rw [hdirectory]; exact nofun) (Location.isOutside_front hout)
    exact hfront.concat hdirectory hlast hi

/-! ## Growing trees -/

/-- A tree stays one when something is put in a directory under a name. -/
theorem IsTree.set (ht : s.IsTree) {directory : Location} {name : String} {item : Item}
    (hd : s.find? directory = some .directory) (hn : IsName name)
    (hi : s.find? (directory ++ [name]) ≠ some .directory) :
    (s.set (directory ++ [name]) item).IsTree := by
  have hkept : ∀ {here}, s.find? here = some .directory →
      (s.set (directory ++ [name]) item).find? here = some .directory := by
    intro here hhere
    have hne : here ≠ directory ++ [name] := by
      rintro rfl
      exact hi hhere
    rwa [find?_set_of_ne hne]
  intro e he
  rcases List.mem_cons.1 he with rfl | he
  · exact ⟨directory, name, rfl, hn, hkept hd⟩
  · obtain ⟨parent, last, hplace, hlast, hparent⟩ := ht e (List.mem_filter.1 he).1
    exact ⟨parent, last, hplace, hlast, hkept hparent⟩

end Store
end TemplateCompiler.Files
