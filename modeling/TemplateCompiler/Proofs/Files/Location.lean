import TemplateCompiler.Fault
import TemplateCompiler.Proofs.Files.Path
import TemplateCompiler.Proofs.Files.Tree

/-! # Where paths lead

There are no links in a store, so the location that a path leads to is written in the path, and the
store only decides whether the way is open. Steps that leave directories where they are and files
where they are keep open ways open, and closed ones closed unless something was missing.
-/
namespace TemplateCompiler.Files

/-- The location that segments lead to from another, whatever is there. -/
def Location.along (here : Location) : List String → Location
  | [] => here
  | segment :: rest =>
    if isInert segment then along here rest
    else if segment = ".." then along here.enclosing rest
    else along (here ++ [segment]) rest

/-- The location that a path leads to if the way is open. -/
def Path.location (p : Path) :
    Location := Location.along (if p.isAbsolute then ["/"] else []) p.segments

theorem Location.along_append (here : Location) (front back : List String) :
    here.along (front ++ back) = (here.along front).along back := by
  induction front generalizing here with
  | nil => rfl
  | cons segment front ih =>
    rw [List.cons_append, along, along]
    split
    · exact ih here
    · split
      · exact ih here.enclosing
      · exact ih (here ++ [segment])

theorem Location.along_names {here : Location} {names : List String}
    (h : ∀ name ∈ names, IsName name) :
    here.along names = here ++ names := by
  induction names generalizing here with
  | nil => exact (List.append_nil here).symm
  | cons name names ih =>
    obtain ⟨⟨hinert, hup, -⟩, hnames⟩ := List.forall_mem_cons.1 h
    rw [along, if_neg (by simp [hinert]), if_neg hup, ih hnames, List.append_assoc,
      List.singleton_append]

theorem Path.location_join {p other : Path} (h : other.isAbsolute = false) :
    (p.join other).location = p.location.along other.segments := by
  by_cases ht : p.text = ""
  · obtain ⟨text⟩ := p
    cases ht
    rw [join_of_empty rfl, location, h]
    rfl
  · obtain ⟨first, rest, behind, hp, hbehind, hjoin⟩ := segments_join ht h
    have hend : ∀ here : Location, here.along behind = here :=
      fun here => by rcases hbehind with rfl | rfl <;> rfl
    rw [location, location, isAbsolute_join ht h, hjoin, hp, ← List.cons_append, ← List.cons_append,
      Location.along_append, Location.along_append, hend]

namespace Store

theorem entryOf_eq_ok {here there : Location} {name : String} (h : entryOf here name = .ok there) :
    there = here ++ [name] := by
  unfold entryOf at h
  split at h
  · cases h
  · cases h
    rfl

theorem requireDirectory_eq_ok {s : Store} {here : Location} :
    s.requireDirectory here = .ok () ↔ s.find? here = some .directory := by
  unfold requireDirectory
  split
  · next h => simp [h]
  · next h => simp [h]
  · next h => simp [h]

theorem origin_eq_ok {p : Path} {here : Location} (h : origin p = .ok here) :
    p.text ≠ "" ∧ here = if p.isAbsolute then ["/"] else [] := by
  unfold origin at h
  split at h
  · cases h
  · split at h
    · cases h
    · next ht =>
      split at h
      · cases h
      · exact ⟨ht, (Except.ok.inj h).symm⟩

theorem walk_append (s : Store) (here : Location) (front back : List String) :
    s.walk here (front ++ back) = s.walk here front >>= (s.walk · back) := by
  induction front generalizing here with
  | nil => rfl
  | cons segment front ih =>
    rw [List.cons_append, walk, walk, bind_assoc]
    refine bind_congr fun _ => ?_
    split
    · exact ih here
    · split
      · exact ih here.enclosing
      · rw [bind_assoc]
        exact bind_congr fun next => ih next

theorem along_of_walk {s : Store} {here there : Location} {segments : List String}
    (h : s.walk here segments = .ok there) : there = here.along segments := by
  induction segments generalizing here with
  | nil =>
    cases h
    rfl
  | cons segment rest ih =>
    rw [walk] at h
    obtain ⟨_, -, h⟩ := bind_eq_ok.1 h
    rw [Location.along]
    split at h
    · next hinert => rw [if_pos hinert, ih h]
    · next hinert =>
      rw [if_neg hinert]
      split at h
      · next hup => rw [if_pos hup, ih h]
      · next hup =>
        obtain ⟨next, hnext, h⟩ := bind_eq_ok.1 h
        rw [if_neg hup, ih h, entryOf_eq_ok hnext]

theorem location_of_locate {s : Store} {p : Path} {here : Location} (h : s.locate p = .ok here) :
    here = p.location := by
  obtain ⟨start, hstart, hwalk⟩ := bind_eq_ok.1 h
  rw [Path.location, along_of_walk hwalk, (origin_eq_ok hstart).2]

theorem lookup_of_some {s : Store} {p : Path} {here : Location} {item : Item}
    (h : s.locate p = .ok here) (hitem : s.find? here = some item) : s.lookup p = .ok item :=
  bind_eq_ok.2 ⟨here, h, by simp only [hitem]⟩

theorem lookup_of_none {s : Store} {p : Path} {here : Location} (h : s.locate p = .ok here)
    (hitem : s.find? here = none) : s.lookup p = .error .notFound :=
  bind_eq_error.2 (.inr ⟨here, h, by simp only [hitem]⟩)

/-! ## Steps that keep what is there -/

def fileAt (s : Store) (here : Location) : Option ByteArray :=
  match s.find? here with
  | some (.file content) => some content
  | _ => none

theorem fileAt_eq_some {s : Store} {here : Location} {content : ByteArray} :
    s.fileAt here = some content ↔ s.find? here = some (.file content) := by
  unfold fileAt
  split
  · next found h => simp [h]
  · next h =>
    constructor
    · intro hnone
      cases hnone
    · intro hfile
      exact absurd hfile (h content)

/-- Directories stay directories and files stay files. -/
structure Grows (s t : Store) : Prop where
  directory : ∀ {here}, s.find? here = some .directory → t.find? here = some .directory
  file : ∀ {here content}, s.fileAt here = some content → (t.fileAt here).isSome

namespace Grows

theorem refl (s : Store) : s.Grows s := ⟨id, fun h => by rw [h]; rfl⟩

theorem trans {s t u : Store} (h : s.Grows t) (h' : t.Grows u) : s.Grows u := by
  refine ⟨fun hs => h'.directory (h.directory hs), fun hs => ?_⟩
  obtain ⟨content, ht⟩ := Option.isSome_iff_exists.1 (h.file hs)
  exact h'.file ht

variable {s t : Store}

theorem requireDirectory (h : s.Grows t) {here : Location}
    (hn : s.requireDirectory here ≠ .error .notFound) :
    t.requireDirectory here = s.requireDirectory here := by
  cases hs : s.find? here with
  | none => exact absurd (by rw [Store.requireDirectory, hs]) hn
  | some item =>
    cases item with
    | directory => rw [requireDirectory_eq_ok.2 hs, requireDirectory_eq_ok.2 (h.directory hs)]
    | file content =>
      obtain ⟨content', ht⟩ := Option.isSome_iff_exists.1 (h.file (fileAt_eq_some.2 hs))
      rw [Store.requireDirectory, Store.requireDirectory, hs, fileAt_eq_some.1 ht]

/-- A way that misses nothing is open or closed as before. -/
theorem walk (h : s.Grows t) {here : Location} {segments : List String}
    (hn : s.walk here segments ≠ .error .notFound) :
    t.walk here segments = s.walk here segments := by
  induction segments generalizing here with
  | nil => rfl
  | cons segment rest ih =>
    rw [Store.walk] at hn
    rw [Store.walk, Store.walk, h.requireDirectory fun he => hn (bind_eq_error.2 (.inl he))]
    cases hd : s.requireDirectory here with
    | error e => rfl
    | ok _ =>
      rw [hd] at hn
      change (if isInert segment then _ else _) = (if isInert segment then _ else _)
      change (if isInert segment then _ else _) ≠ _ at hn
      split
      · next hinert =>
        rw [if_pos hinert] at hn
        exact ih hn
      · next hinert =>
        rw [if_neg hinert] at hn
        split
        · next hup =>
          rw [if_pos hup] at hn
          exact ih hn
        · next hup =>
          rw [if_neg hup] at hn
          cases hnext : entryOf here segment with
          | error e => rfl
          | ok next =>
            rw [hnext] at hn
            exact ih hn

theorem locate (h : s.Grows t) {p : Path} (hn : s.locate p ≠ .error .notFound) :
    t.locate p = s.locate p := by
  unfold Store.locate at hn ⊢
  cases hstart : origin p with
  | error e => rfl
  | ok here =>
    rw [hstart] at hn
    exact h.walk hn

/-- What a path leads to is found again, unless it is a file whose content has changed. -/
theorem lookup (h : s.Grows t) {p : Path} (hn : s.lookup p ≠ .error .notFound)
    (hfile : t.fileAt p.location = s.fileAt p.location) : t.lookup p = s.lookup p := by
  have hlocate := h.locate fun he => hn (bind_eq_error.2 (.inl he))
  cases hs : s.locate p with
  | error e =>
    rw [Store.lookup, Store.lookup, hlocate, hs]
    rfl
  | ok here =>
    rw [hs] at hlocate
    rw [← location_of_locate hs] at hfile
    cases hitem : s.find? here with
    | none => exact absurd (lookup_of_none hs hitem) hn
    | some item =>
      rw [lookup_of_some hs hitem]
      refine lookup_of_some hlocate ?_
      cases item with
      | directory => exact h.directory hitem
      | file content =>
        rw [fileAt_eq_some.2 hitem] at hfile
        exact fileAt_eq_some.1 hfile

end Grows

/-! ## Places -/

theorem lastStep_eq_some {segments before : List String} {last : String} {slash : Bool}
    (h : lastStep segments = some (last, before, slash)) : last ∈ segments ∧ last ≠ "" := by
  unfold lastStep at h
  split at h
  · cases h
  · next final front hdrop =>
    simp only [Option.some.injEq, Prod.mk.injEq] at h
    obtain ⟨rfl, -, -⟩ := h
    have hmem : final ∈ segments.reverse.dropWhile (· = "") := by
      rw [hdrop]
      exact List.mem_cons_self
    have hnot := List.head?_dropWhile_not (· = "") segments.reverse
    rw [hdrop] at hnot
    exact ⟨List.mem_reverse.1 ((List.dropWhile_suffix _).subset hmem), by simpa using hnot⟩

theorem placeOf_eq_ok {s : Store} {p : Path} {place : Place} (h : s.placeOf p = .ok (some place)) :
    ∃ start before, origin p = .ok start ∧ lastStep p.segments =
      some (place.name, before, place.slash) ∧
      s.walk start before = .ok place.directory ∧ s.find? place.directory = some .directory ∧
      place.name ≠ "." ∧ place.name ≠ ".." := by
  obtain ⟨start, hstart, h⟩ := bind_eq_ok.1 h
  split at h
  · cases h
  · next last before slash hlast =>
    obtain ⟨parent, hparent, h⟩ := bind_eq_ok.1 h
    obtain ⟨_, hdirectory, h⟩ := bind_eq_ok.1 h
    split at h
    · cases h
    · next hdots =>
      cases h
      simp only [Bool.or_eq_true, decide_eq_true_eq, not_or] at hdots
      exact ⟨start, before, hstart, hlast, hparent, requireDirectory_eq_ok.1 hdirectory, hdots⟩

theorem isName_of_placeOf {s : Store} {p : Path} {place : Place}
    (h : s.placeOf p = .ok (some place)) :
    IsName place.name := by
  obtain ⟨_, _, -, hlast, -, -, hdot, hup⟩ := placeOf_eq_ok h
  obtain ⟨hmem, hempty⟩ := lastStep_eq_some hlast
  exact ⟨by simp [isInert, hempty, hdot], hup, Path.notMem_of_mem_segments hmem⟩

theorem makeDirectory_eq_ok {s t : Store} {p : Path} (h : s.makeDirectory p = .ok t) :
    ∃ place, s.placeOf p = .ok (some place) ∧ s.find? (place.directory ++ [place.name]) = none ∧
      t = s.set (place.directory ++ [place.name]) .directory := by
  obtain ⟨place, hplace, h⟩ := bind_eq_ok.1 h
  cases place with
  | none => cases h
  | some place =>
    obtain ⟨here, hhere, h⟩ := bind_eq_ok.1 h
    cases entryOf_eq_ok hhere
    split at h
    · cases h
    · next hnone =>
      cases h
      exact ⟨place, hplace, hnone, rfl⟩

theorem write_eq_ok {s t : Store} {p : Path} {content : ByteArray} (h : s.write p content = .ok t) :
    ∃ place, s.placeOf p = .ok (some place) ∧ place.slash = false ∧
      entryOf place.directory place.name = .ok (place.directory ++ [place.name]) ∧
      s.find? (place.directory ++ [place.name]) ≠ some .directory ∧
      t = s.set (place.directory ++ [place.name]) (.file content) := by
  obtain ⟨place, hplace, h⟩ := bind_eq_ok.1 h
  cases place with
  | none => cases h
  | some place =>
    change (if place.slash = true then _ else _) = _ at h
    split at h
    · cases h
    · next hslash =>
      obtain ⟨here, hhere, h⟩ := bind_eq_ok.1 h
      cases entryOf_eq_ok hhere
      split at h
      · cases h
      · next hfree =>
        cases h
        exact ⟨place, hplace, by simpa using hslash, hhere, fun hitem => hfree hitem, rfl⟩

theorem IsTree.makeDirectory {s t : Store} {p : Path} (ht : s.IsTree)
    (h : s.makeDirectory p = .ok t) : t.IsTree := by
  obtain ⟨place, hplace, hnone, rfl⟩ := makeDirectory_eq_ok h
  obtain ⟨_, _, -, -, -, hdirectory, -⟩ := placeOf_eq_ok hplace
  exact ht.set hdirectory (isName_of_placeOf hplace) (by rw [hnone]; exact nofun)

theorem IsTree.write {s t : Store} {p : Path} {content : ByteArray} (ht : s.IsTree)
    (h : s.write p content = .ok t) :
    t.IsTree := by
  obtain ⟨place, hplace, -, -, hfree, rfl⟩ := write_eq_ok h
  obtain ⟨_, _, -, -, -, hdirectory, -⟩ := placeOf_eq_ok hplace
  exact ht.set hdirectory (isName_of_placeOf hplace) hfree

/-! ## Making directories -/

structure GainsDirectories (s t : Store) : Prop where
  grows : s.Grows t
  files : ∀ here, t.fileAt here = s.fileAt here

namespace GainsDirectories

theorem refl (s : Store) : s.GainsDirectories s := ⟨.refl s, fun _ => rfl⟩

theorem trans {s t u : Store} (h : s.GainsDirectories t) (h' : t.GainsDirectories u) :
    s.GainsDirectories u :=
  ⟨h.grows.trans h'.grows, fun here => (h'.files here).trans (h.files here)⟩

end GainsDirectories

theorem gainsDirectories_set {s : Store} {here : Location} (h : s.find? here = none) :
    s.GainsDirectories (s.set here .directory) := by
  have hbase : here.isBase = false := not_isBase_of_find? (by rw [h]; exact nofun)
  have hother : ∀ {there item}, s.find? there = some item → (s.set here .directory).find? there =
      some item := by
    intro there item hthere
    by_cases heq : there = here
    · rw [heq, h] at hthere
      cases hthere
    · rwa [find?_set_of_ne heq]
  have hfiles : ∀ there, (s.set here .directory).fileAt there = s.fileAt there := by
    intro there
    by_cases heq : there = here
    · rw [heq, fileAt, fileAt, h, find?_set hbase]
    · rw [fileAt, fileAt, find?_set_of_ne heq]
  exact ⟨⟨hother, fun hfile => by rw [hfiles, hfile]; rfl⟩, hfiles⟩

section Keeps

variable {P : Store → Prop}
    (hmake : ∀ {s t : Store} {p : Path}, P s → s.makeDirectory p = .ok t → P t)
include hmake

theorem ensureDirectory_keeps {s : Store} (h : P s) (p : Path) : P (s.ensureDirectory p).2 := by
  unfold ensureDirectory
  split
  · next hmade => exact hmake h hmade
  · exact h

theorem makeDirectoriesIn_keeps {s : Store} (h : P s) (paths : List Path) :
    P (s.makeDirectoriesIn paths).2 := by
  induction paths generalizing s with
  | nil => exact h
  | cons p ancestors ih =>
    have habove := ih h
    rw [makeDirectoriesIn]
    split
    · split
      · next hfailed => rwa [hfailed] at habove
      · next hmade =>
        rw [hmade] at habove
        exact ensureDirectory_keeps hmake habove p
    · exact ensureDirectory_keeps hmake h p

/-- What a made directory keeps, all directories that are made on the way to a path keep, also when
the last one cannot be made. -/
theorem makeDirectories_keeps {s : Store} (h : P s) (p : Path) : P (s.makeDirectories p).2 := by
  unfold makeDirectories
  split
  · exact h
  · exact makeDirectoriesIn_keeps hmake h _

end Keeps

theorem gainsDirectories_makeDirectories (s : Store) (p : Path) :
    s.GainsDirectories (s.makeDirectories p).2 := by
  refine makeDirectories_keeps (P := (s.GainsDirectories ·)) (fun {t u q} ht hmade =>
    ?_) (.refl s) p
  obtain ⟨_, -, hnone, rfl⟩ := makeDirectory_eq_ok hmade
  exact ht.trans (gainsDirectories_set hnone)

theorem IsTree.makeDirectories {s : Store} (ht : s.IsTree) (p : Path) :
    (s.makeDirectories p).2.IsTree :=
  makeDirectories_keeps (P := IsTree) IsTree.makeDirectory ht p

/-! ## Writing a file -/

/-- A file is written, which may be new, and all else stays but for new directories. -/
structure Writes (target : Path) (content : ByteArray) (s t : Store) : Prop where
  grows : s.Grows t
  lookup : t.lookup target = .ok (.file content)
  elsewhere : ∀ here, here ≠ target.location → t.fileAt here = s.fileAt here

theorem GainsDirectories.writes {s t u : Store} {target : Path} {content : ByteArray}
    (h : s.GainsDirectories t) (hw : Writes target content t u) : Writes target content s u :=
  ⟨h.grows.trans hw.grows, hw.lookup, fun here hne => (hw.elsewhere here hne).trans (h.files here)⟩

theorem grows_set {s : Store} {here : Location} {content : ByteArray}
    (h : s.find? here ≠ some .directory) :
    s.Grows (s.set here (.file content)) := by
  constructor
  · intro there hthere
    have hne : there ≠ here := by
      rintro rfl
      exact h hthere
    rwa [find?_set_of_ne hne]
  · intro there old hthere
    by_cases heq : there = here
    · rw [heq, fileAt, find?_set (not_isBase_of_find? h)]
      rfl
    · rw [fileAt_eq_some] at hthere
      rw [fileAt, find?_set_of_ne heq, hthere]
      rfl

theorem segments_of_lastStep {segments before : List String} {last : String}
    (h : lastStep segments = some (last, before, false)) :
    segments = before ++ [last] ∧ last ≠ "" := by
  unfold lastStep at h
  cases hreverse : segments.reverse with
  | nil =>
    rw [hreverse] at h
    cases h
  | cons final front =>
    have hsegments : segments = front.reverse ++ [final] := by
      rw [← List.reverse_reverse segments, hreverse, List.reverse_cons]
    have hend : segments.getLast? = some final := by
      rw [hsegments, List.getLast?_concat]
    by_cases hempty : final = ""
    · rw [hend, hempty] at h
      split at h
      · cases h
      · simp at h
    · rw [hreverse, List.dropWhile_cons_of_neg (by simpa using hempty)] at h
      simp only [Option.some.injEq, Prod.mk.injEq] at h
      obtain ⟨rfl, rfl, -⟩ := h
      exact ⟨hsegments, hempty⟩

/-- A step to a name leaves the decision to the length of the name. -/
theorem walk_name {s : Store} {here : Location} {name : String} (h : s.find? here = some .directory)
    (hinert : isInert name = false) (hup : name ≠ "..") :
    s.walk here [name] = entryOf here name := by
  rw [walk, requireDirectory_eq_ok.2 h, hinert]
  change (if name = ".." then _ else entryOf here name >>= fun there => .ok there) = _
  rw [if_neg hup]
  cases entryOf here name with
  | error e => rfl
  | ok there => rfl

theorem writes_of_write {s t : Store} {p : Path} {content : ByteArray}
    (h : s.write p content = .ok t) :
    Writes p content s t := by
  obtain ⟨place, hplace, hslash, hentry, hfree, rfl⟩ := write_eq_ok h
  obtain ⟨start, before, hstart, hlast, hwalk, hdirectory, -, hup⟩ := placeOf_eq_ok hplace
  rw [hslash] at hlast
  have hgrows : s.Grows (s.set (place.directory ++ [place.name]) (.file content)) := grows_set hfree
  have hopen : ∀ {u : Store}, s.Grows u → u.locate p = .ok (place.directory ++ [place.name]) := by
    intro u hu
    have hfront : u.walk start before = .ok place.directory := by
      rw [hu.walk (by rw [hwalk]; exact nofun), hwalk]
    rw [locate, hstart]
    change u.walk start p.segments = _
    rw [(segments_of_lastStep hlast).1, walk_append, hfront]
    exact (walk_name (hu.directory hdirectory) (isName_of_placeOf hplace).1 hup).trans hentry
  have hlocation : place.directory ++ [place.name] = p.location :=
    location_of_locate (hopen (.refl s))
  refine ⟨hgrows, ?_, fun there hne => ?_⟩
  · exact lookup_of_some (hopen hgrows) (find?_set (not_isBase_of_find? hfree))
  · rw [← hlocation] at hne
    rw [fileAt, fileAt, find?_set_of_ne hne]

end Store
end TemplateCompiler.Files
