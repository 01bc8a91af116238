import TemplateCompiler.Files.Search
import TemplateCompiler.Proofs.Files.Location
import TemplateCompiler.Proofs.Files.Pattern

/-! # What a search finds

Where everything is in a directory, a search finds nothing but paths that lead somewhere: their ways
miss nothing, though a name or a whole path may be too long to be followed.
-/
namespace TemplateCompiler.Files

namespace Store

variable {s : Store}

/-! ## Open ways -/

def way (s : Store) (p : Path) :
    Except FileError Location := s.walk (if p.isAbsolute then ["/"] else []) p.segments

theorem locate_cases {p : Path} (h : p.text ≠ "") :
    s.locate p = .error .nullInName ∨ s.locate p = .error .nameTooLong ∨ s.locate p = s.way p := by
  unfold locate origin
  by_cases hnul : p.text.toList.contains '\x00' = true
  · rw [if_pos hnul]
    exact .inl rfl
  · rw [if_neg hnul, if_neg h]
    by_cases hsize : maxPathSize < p.text.utf8ByteSize
    · rw [if_pos hsize]
      exact .inr (.inl rfl)
    · rw [if_neg hsize]
      exact .inr (.inr rfl)

theorem way_of_locate {p : Path} {here : Location} (h : s.locate p = .ok here) :
    p.text ≠ "" ∧ s.way p = .ok here := by
  obtain ⟨start, hstart, hwalk⟩ := bind_eq_ok.1 h
  obtain ⟨ht, rfl⟩ := origin_eq_ok hstart
  exact ⟨ht, hwalk⟩

theorem way_of_isDirectory {p : Path} (h : s.isDirectory p = true) :
    ∃ here, s.locate p = .ok here ∧ s.find? here = some .directory := by
  unfold isDirectory at h
  split at h
  · next hlookup =>
    obtain ⟨here, hlocate, hitem⟩ := bind_eq_ok.1 hlookup
    refine ⟨here, hlocate, ?_⟩
    split at hitem
    · cases hitem
    · next hfound =>
      cases hitem
      exact hfound
  · cases h

/-- The way of a path misses nothing, and something is at its end. -/
def Leads (s : Store) (p : Path) : Prop :=
  p.text ≠ "" ∧ s.way p ≠ .error .notFound ∧ ∀ here, s.way p = .ok here → s.find? here ≠ none

theorem Leads.lookup_ne {p : Path} (h : s.Leads p) : s.lookup p ≠ .error .notFound := by
  obtain ⟨ht, hway, hend⟩ := h
  intro hlookup
  rcases bind_eq_error.1 hlookup with hlocate | ⟨here, hlocate, hitem⟩
  · rcases locate_cases ht with hcase | hcase | hcase
    · rw [hlocate] at hcase
      cases hcase
    · rw [hlocate] at hcase
      cases hcase
    · exact hway (hcase ▸ hlocate)
  · split at hitem
    · next hnone => exact hend here (way_of_locate hlocate).2 hnone
    · cases hitem

theorem walk_inert {here : Location} {segments : List String} (h : s.find? here = some .directory)
    (hi : ∀ segment ∈ segments, isInert segment = true) : s.walk here segments = .ok here := by
  induction segments with
  | nil => rfl
  | cons segment rest ih =>
    obtain ⟨hsegment, hrest⟩ := List.forall_mem_cons.1 hi
    rw [walk, requireDirectory_eq_ok.2 h, hsegment]
    exact ih hrest

/-- A slash at the end asks for a directory, like the step that follows. -/
theorem walk_slash_bind (here : Location) (name : String) :
    (s.walk here [""] >>= (s.walk · [name])) = s.walk here [name] := by
  have hslash : s.walk here [""] = s.requireDirectory here >>= fun _ => .ok here := rfl
  rw [hslash, bind_assoc]
  cases hd : s.requireDirectory here with
  | error e =>
    rw [walk, hd]
    rfl
  | ok u => rfl

theorem way_join {p : Path} {name : String} (h : p.text ≠ "") (hn : '/' ∉ name.toList) :
    s.way (p.join ⟨name⟩) = s.way p >>= (s.walk · [name]) := by
  have hname := Path.not_isAbsolute_name hn
  obtain ⟨first, rest, behind, hp, hbehind, hjoin⟩ := Path.segments_join h hname
  rw [way, way, Path.isAbsolute_join h hname, hjoin, hp, Path.segments_name hn, ← List.cons_append,
    ← List.cons_append, walk_append, walk_append, bind_assoc]
  refine bind_congr fun here => ?_
  rcases hbehind with rfl | rfl
  · rfl
  · exact (walk_slash_bind here name).symm

theorem text_entryPath_ne {p : Path} {name : String} (h : p.text ≠ "") (hn : name ≠ "") :
    (entryPath p name).text ≠ "" := by
  unfold entryPath
  split
  · exact hn
  · exact Path.text_join_ne h ⟨name⟩

theorem way_entryPath {p : Path} {name : String} (h : p.text ≠ "") (hn : '/' ∉ name.toList) :
    s.way (entryPath p name) = s.way p >>= (s.walk · [name]) := by
  unfold entryPath
  split
  · next hhere =>
    obtain ⟨habsolute, hinert⟩ := Path.isInert_of_components_here hhere
    have hway : s.way p = .ok [] := by
      rw [way, habsolute]
      exact walk_inert (find?_of_isBase rfl) hinert
    rw [hway, way, Path.not_isAbsolute_name hn, Path.segments_name hn]
    rfl
  · exact way_join h hn

theorem way_foldl {p : Path} {names : List String} (h : p.text ≠ "")
    (hn : ∀ name ∈ names, IsName name) :
    (names.foldl entryPath p).text ≠ "" ∧ s.way (names.foldl entryPath p) = s.way p >>=
      (s.walk · names) := by
  induction names generalizing p with
  | nil =>
    refine ⟨h, ?_⟩
    change s.way p = s.way p >>= fun here => .ok here
    cases s.way p with
    | error e => rfl
    | ok here => rfl
  | cons name names ih =>
    obtain ⟨hname, hnames⟩ := List.forall_mem_cons.1 hn
    obtain ⟨htext, hway⟩ := ih (text_entryPath_ne h hname.ne_empty) hnames
    refine ⟨htext, ?_⟩
    rw [List.foldl_cons, hway, way_entryPath h hname.2.2, bind_assoc]
    exact bind_congr fun here => (walk_append s here [name] names).symm

/-! ## What is below a directory -/

/-- Going down ends where the names say, unless a name is too long. -/
theorem Descends.walk {here : Location} {names : List String} (h : s.Descends here names) :
    s.walk here names = .ok (here ++ names) ∨ s.walk here names = .error .nameTooLong := by
  obtain ⟨hname, hdirectory, -⟩ := h
  induction names generalizing here with
  | nil => exact .inl (by rw [List.append_nil]; rfl)
  | cons name names ih =>
    obtain ⟨hfirst, hnames⟩ := List.forall_mem_cons.1 hname
    have hhere : s.find? here = some .directory := by
      simpa using hdirectory (List.nil_append (name :: names)).symm (List.cons_ne_nil name names)
    have hstep := walk_name hhere hfirst.1 hfirst.2.1
    have hsplit : s.walk here (name :: names) = s.walk here [name] >>= (s.walk · names) :=
      walk_append s here [name] names
    rw [hsplit, hstep]
    cases hnext : entryOf here name with
    | error e =>
      right
      unfold entryOf at hnext
      split at hnext
      · cases hnext
        rfl
      · cases hnext
    | ok next =>
      cases entryOf_eq_ok hnext
      have hrest := ih hnames fun {front back} heq hback => by
        have hbelow : s.find? (here ++ name :: front) = some .directory :=
          hdirectory (by rw [heq]; rfl) hback
        rwa [List.append_cons] at hbelow
      rwa [List.append_cons here name names]

theorem Descends.leads {here : Location} {names : List String} (h : s.Descends here names)
    {p : Path} (hp : s.locate p = .ok here) : s.Leads (names.foldl entryPath p) := by
  obtain ⟨ht, hway⟩ := way_of_locate hp
  obtain ⟨htext, hfoldl⟩ := way_foldl (s := s) ht h.name
  rw [hway] at hfoldl
  change _ = s.walk here names at hfoldl
  rcases h.walk with hwalk | hwalk
  · rw [hwalk] at hfoldl
    refine ⟨htext, by rw [hfoldl]; exact nofun, fun there hthere => ?_⟩
    cases hfoldl.symm.trans hthere
    exact h.item
  · rw [hwalk] at hfoldl
    refine ⟨htext, by rw [hfoldl]; exact nofun, fun there hthere => ?_⟩
    cases hfoldl.symm.trans hthere

/-! ## Found paths -/

/-- A path that names lead to from another, down through directories. -/
def Below (s : Store) (p q : Path) : Prop :=
  ∃ here names, s.locate p = .ok here ∧ names ≠ [] ∧ s.Descends here names ∧
  q = names.foldl entryPath p

theorem Below.leads {p q : Path} (h : s.Below p q) : s.Leads q := by
  obtain ⟨here, names, hlocate, -, hnames, rfl⟩ := h
  exact hnames.leads hlocate

theorem below_of_mem_childPaths (ht : s.IsTree) {p q : Path} (h : q ∈ s.childPaths p) :
    s.Below p q := by
  unfold childPaths at h
  split at h
  · next here hlocate =>
    rw [List.mem_mergeSort] at h
    obtain ⟨name, hname, rfl⟩ := List.mem_map.1 h
    obtain ⟨e, he, hlast⟩ := List.mem_filterMap.1 hname
    obtain ⟨directory, last, hplace, hentry, hdirectory⟩ := ht e he
    have hitem := find?_ne_none_of_mem he
    simp only [hplace, List.getLast?_concat, List.dropLast_concat] at hlast hitem
    split at hlast
    · next hhere =>
      cases hlast
      subst hhere
      have hnil : s.Descends directory [] := by
        refine ⟨fun name hname => absurd hname List.not_mem_nil, fun {front back} heq hback => ?_,
          ?_⟩
        · exact absurd (List.append_eq_nil_iff.1 heq.symm).2 hback
        · rw [List.append_nil, hdirectory]
          exact nofun
      have hdescends := hnil.concat (by rwa [List.append_nil]) hentry hitem
      exact ⟨directory, [name], hlocate, List.cons_ne_nil name [], hdescends, rfl⟩
    · cases hlast
  · cases h

theorem mem_descendants_iff (ht : s.IsTree) {here : Location} {names : List String} :
    names ∈ s.descendants here ↔ names ≠ [] ∧ s.Descends here names := by
  constructor
  · intro h
    obtain ⟨e, he, hbelow⟩ := List.mem_filterMap.1 h
    simp only [Bool.and_eq_true, List.isPrefixOf_iff_prefix, decide_eq_true_eq,
      Option.ite_none_right_eq_some, Option.some.injEq] at hbelow
    obtain ⟨⟨⟨⟨rest, hrest⟩, hlength⟩, hout⟩, rfl⟩ := hbelow
    have hdrop : e.1.drop here.length = rest := by rw [← hrest, List.drop_left]
    have hitem := find?_ne_none_of_mem he
    rw [← hrest] at hitem hout hlength
    rw [hdrop]
    refine ⟨?_, ht.descends hitem hout⟩
    rintro rfl
    simp at hlength
  · rintro ⟨hne, hnames⟩
    have hout := hnames.isOutside
    obtain ⟨front, name, hsplit⟩ := (List.eq_nil_or_concat names).resolve_left hne
    obtain ⟨item, hitem⟩ := Option.ne_none_iff_exists'.1 hnames.item
    have hbase : Location.isBase (here ++ names) = false := by
      rw [hsplit, List.concat_eq_append] at hout ⊢
      exact Location.not_isBase_concat hout
    obtain ⟨e, he, hplace⟩ := exists_mem_of_find? hitem hbase
    refine List.mem_filterMap.2 ⟨e, he, ?_⟩
    simp [hplace, hne, hout]

/-- Everything beneath a directory is found, unless the path of the directory that it is in leads
nowhere. -/
theorem mem_descendantPaths_iff (ht : s.IsTree) {p q : Path} :
    q ∈ s.descendantPaths p ↔
      ∃ here names, s.locate p = .ok here ∧ names ≠ [] ∧ s.Descends here names ∧
        s.isDirectory (names.dropLast.foldl entryPath p) = true ∧ q = names.foldl entryPath p := by
  unfold descendantPaths
  cases hlocate : s.locate p with
  | error e => simp
  | ok here =>
    change q ∈ List.mergeSort (List.map _ (List.filter _ _)) Path.le ↔ _
    rw [List.mem_mergeSort, List.mem_map]
    constructor
    · rintro ⟨names, hnames, rfl⟩
      obtain ⟨hmem, hopen⟩ := List.mem_filter.1 hnames
      obtain ⟨hne, hdescends⟩ := (mem_descendants_iff ht).1 hmem
      exact ⟨here, names, rfl, hne, hdescends, hopen, rfl⟩
    · rintro ⟨_, names, hhere, hne, hdescends, hopen, rfl⟩
      cases hhere
      exact ⟨names, List.mem_filter.2 ⟨(mem_descendants_iff ht).2 ⟨hne, hdescends⟩, hopen⟩, rfl⟩

theorem below_of_mem_descendantPaths (ht : s.IsTree) {p q : Path} (h : q ∈ s.descendantPaths p) :
    s.Below p q := by
  obtain ⟨here, names, hlocate, hne, hnames, -, hq⟩ := (mem_descendantPaths_iff ht).1 h
  exact ⟨here, names, hlocate, hne, hnames, hq⟩

theorem exists_of_mem_dotPaths {p q : Path} {tokens : List Token} (h : q ∈ dotPaths p tokens) :
    ∃ name, (name = "." ∨ name = "..") ∧ q = p.join ⟨name⟩ := by
  unfold dotPaths at h
  split at h
  · obtain ⟨name, hname, rfl⟩ := List.mem_map.1 h
    have hmem := (List.mem_filter.1 hname).1
    exact ⟨name, by simpa [or_comm] using hmem, rfl⟩
  · cases h

theorem notMem_of_dots {name : String} (h : name = "." ∨ name = "..") : '/' ∉ name.toList := by
  rcases h with rfl | rfl
  · decide
  · decide

theorem IsTree.leads_dot (ht : s.IsTree) {p q : Path} {name : String} (hp : s.isDirectory p = true)
    (hn : name = "." ∨ name = "..") (hq : q.text ≠ "")
    (hway : s.way q = s.way p >>= (s.walk · [name])) :
    s.Leads q := by
  obtain ⟨here, hlocate, hdirectory⟩ := way_of_isDirectory hp
  rw [(way_of_locate hlocate).2] at hway
  have hstep : ∃ there, s.walk here [name] = .ok there ∧ s.find? there = some .directory := by
    rcases hn with rfl | rfl
    · exact ⟨here, walk_inert hdirectory (by decide), hdirectory⟩
    · refine ⟨here.enclosing, ?_, ht.enclosing hdirectory⟩
      rw [walk, requireDirectory_eq_ok.2 hdirectory]
      rfl
  obtain ⟨there, hthere, hitem⟩ := hstep
  have hend : s.way q = .ok there := hway.trans hthere
  refine ⟨hq, by rw [hend]; simp, fun other hother => ?_⟩
  cases hend.symm.trans hother
  rw [hitem]
  exact Option.some_ne_none _

/-- The steps that a part of a pattern takes. -/
inductive Step (s : Store) : PatternPart → Path → Path → Prop where
  | name {p : Path} {name : String} :
    s.contains (entryPath p name) = true → s.Step (.literal name) p (entryPath p name)
  | dot {p : Path} {name : String} :
    name = "." ∨ name = ".." → s.isDirectory p = true → s.Step (.literal name) p (entryPath p name)
  | special {p q : Path} {tokens : List Token} :
    s.isDirectory p = true → q ∈ dotPaths p tokens → s.Step (.wild tokens) p q
  | child {p q : Path} {tokens : List Token} :
    s.isDirectory p = true → q ∈ s.childPaths p → s.Step (.wild tokens) p q
  | below {p q : Path} : s.isDirectory p = true → q ∈ s.descendantPaths p → s.Step .directories p q

theorem mem_follow_literal {name : String} {rest : List PatternPart} {p q : Path}
    (h : q ∈ s.follow (.literal name :: rest) p) :
    s.Step (.literal name) p (entryPath p name) ∧ q ∈ s.follow rest (entryPath p name) := by
  rw [follow] at h
  by_cases hthere :
    (if name = "." || name = ".." then s.isDirectory p else s.contains (entryPath p name)) = true
  · rw [if_pos hthere] at h
    refine ⟨?_, h⟩
    by_cases hdots : (name = "." || name = "..") = true
    · rw [if_pos hdots] at hthere
      exact .dot (by simpa using hdots) hthere
    · rw [if_neg hdots] at hthere
      exact .name hthere
  · rw [if_neg hthere] at h
    cases h

/-- Only what is below a directory fits behind `**`. -/
theorem mem_follow_directories {part : PatternPart} {rest : List PatternPart} {p q : Path}
    (hpart : part ≠ .directories) (h : q ∈ s.follow (.directories :: part :: rest) p) :
    ∃ r, s.Step .directories p r ∧ q ∈ s.follow rest r := by
  rw [follow] at h
  · split at h
    · next hdirectory =>
      obtain ⟨r, hr, hq⟩ := List.mem_flatMap.1 h
      exact ⟨r, .below hdirectory (List.mem_filter.1 hr).1, hq⟩
    · cases h
  · exact hpart

/-- What every step keeps, a search keeps. -/
theorem follow_keeps {P : Path → Prop} : ∀ {parts : List PatternPart} {p q : Path},
    (∀ part ∈ parts, ∀ p q, s.Step part p q → P p → P q) → q ∈ s.follow parts p → P p → P q
  | [], p, q, _, h, hp => by
    rw [follow, List.mem_singleton] at h
    rwa [h]
  | .literal name :: rest, p, q, hkeep, h, hp => by
    obtain ⟨hpart, hrest⟩ := List.forall_mem_cons.1 hkeep
    obtain ⟨hstep, hq⟩ := mem_follow_literal h
    exact follow_keeps hrest hq (hpart _ _ hstep hp)
  | .wild tokens :: rest, p, q, hkeep, h, hp => by
    obtain ⟨hpart, hrest⟩ := List.forall_mem_cons.1 hkeep
    rw [follow] at h
    split at h
    · next hdirectory =>
      obtain ⟨r, hr, hq⟩ := List.mem_flatMap.1 h
      rcases List.mem_append.1 hr with hr | hr
      · exact follow_keeps hrest hq (hpart _ _ (.special hdirectory hr) hp)
      · exact follow_keeps hrest hq (hpart _ _ (.child hdirectory (List.mem_filter.1 hr).1) hp)
    · cases h
  | [.directories], p, q, hkeep, h, hp => by
    rw [follow] at h
    split at h
    · next hdirectory =>
        exact hkeep _ List.mem_cons_self _ _ (.below hdirectory (List.mem_filter.1 h).1) hp
    · cases h
  | .directories :: part :: rest, p, q, hkeep, h, hp => by
    obtain ⟨hbelow, hbehind⟩ := List.forall_mem_cons.1 hkeep
    by_cases hpart : part = .directories
    · subst hpart
      rw [follow] at h
      exact follow_keeps hbehind h hp
    · obtain ⟨r, hr, hq⟩ := mem_follow_directories hpart h
      exact follow_keeps (List.forall_mem_cons.1 hbehind).2 hq (hbelow _ _ hr hp)
termination_by parts => parts.length

theorem lookup_of_step (ht : s.IsTree) {part : PatternPart} {p q : Path} (h : s.Step part p q) :
    s.lookup q ≠ .error .notFound := by
  cases h with
  | name hcontains =>
    intro hlookup
    rw [contains, hlookup] at hcontains
    cases hcontains
  | @dot _ name hdots hdirectory =>
    obtain ⟨here, hlocate, -⟩ := way_of_isDirectory hdirectory
    have htext := (way_of_locate hlocate).1
    have hslash := notMem_of_dots hdots
    have hname : name ≠ "" := by
      rcases hdots with rfl | rfl
      · decide
      · decide
    exact (ht.leads_dot hdirectory hdots (text_entryPath_ne htext hname)
      (way_entryPath htext hslash)).lookup_ne
  | special hdirectory hq =>
    obtain ⟨here, hlocate, -⟩ := way_of_isDirectory hdirectory
    have htext := (way_of_locate hlocate).1
    obtain ⟨name, hdots, rfl⟩ := exists_of_mem_dotPaths hq
    exact (ht.leads_dot hdirectory hdots (Path.text_join_ne htext _)
      (way_join htext (notMem_of_dots hdots))).lookup_ne
  | child _ hq => exact (below_of_mem_childPaths ht hq).leads.lookup_ne
  | below _ hq => exact (below_of_mem_descendantPaths ht hq).leads.lookup_ne

theorem lookup_start (s : Store) (pattern : Pattern) : s.lookup pattern.start = .ok .directory := by
  unfold Pattern.start
  split
  · rfl
  · rfl

theorem mem_follow_of_mem_search {pattern : Pattern} {p : Path} (h : p ∈ s.search pattern) :
    p ∈ s.follow pattern.parts pattern.start := by
  change p ∈ if pattern.directoriesOnly then _ else _ at h
  split at h
  · exact (List.mem_filter.1 h).1
  · exact h

/-- What a search finds is there. -/
theorem lookup_of_mem_search (ht : s.IsTree) {pattern : Pattern} {p : Path}
    (h : p ∈ s.search pattern) :
    s.lookup p ≠ .error .notFound := by
  refine follow_keeps (fun part _ p q hstep _ => lookup_of_step ht hstep)
    (mem_follow_of_mem_search h) ?_
  rw [lookup_start]
  exact nofun

/-! ## Following a pattern -/

theorem follow_name {name : String} {p : Path} (hn : name ≠ "." ∧ name ≠ "..")
    (h : s.contains (entryPath p name) = true) (rest : List PatternPart) :
    s.follow (.literal name :: rest) p = s.follow rest (entryPath p name) := by
  simp [follow, hn, h]

theorem follow_up {p : Path} (h : s.isDirectory p = true) (rest : List PatternPart) :
    s.follow (.literal ".." :: rest) p = s.follow rest (entryPath p "..") := by
  simp [follow, h]

theorem follow_below {part : PatternPart} {p : Path} (hpart : part ≠ .directories)
    (h : s.isDirectory p = true) (rest : List PatternPart) :
    s.follow (.directories :: part :: rest) p =
      ((s.descendantPaths p).filter (fitsPart part)).flatMap (s.follow rest) := by
  rw [follow, if_pos h]
  exact hpart

/-- Paths that the store has in order are found in its order. -/
theorem descendantPaths_eq {p : Path} {here : Location} {paths : List Path}
    (h : s.locate p = .ok here)
    (hp : (((s.descendants here).filter fun names =>
        s.isDirectory (names.dropLast.foldl entryPath p)).map
      fun names => names.foldl entryPath p) = paths)
    (hs : paths.Pairwise fun p q => p.le q = true) : s.descendantPaths p = paths := by
  rw [descendantPaths, h]
  change List.mergeSort (List.map _ _) Path.le = paths
  rw [hp, List.mergeSort_of_pairwise hs]

theorem fitsPart_star (chars : List Char) (p : Path) :
    fitsPart (.wild (.text :: chars.map .char)) p = p.fileName?.any fun name =>
      chars.isSuffixOf name.toList := by
  unfold fitsPart
  split
  · next name hname =>
    rw [hname, Option.any_some, Bool.eq_iff_iff, List.isSuffixOf_iff_suffix]
    exact fits_star
  · next hname => rw [hname, Option.any_none]

/-! ## Paths that start with a name -/

theorem entryPath_of_lead {p : Path} (h : p.text ≠ "") (hp : p.lead.1 = none) (name : String) :
    entryPath p name = p.join ⟨name⟩ := by
  refine if_neg ?_
  obtain ⟨first, rest, hsegments⟩ := p.segments_eq_cons
  have hinert := (Path.lead_eq_none_iff hsegments h).1 hp
  rw [Path.components_of_segments hsegments h, Component.ofFirst]
  simp only [isInert, Bool.or_eq_false_iff, decide_eq_false_iff_not] at hinert
  rw [if_neg hinert.1, if_neg hinert.2, stepOf]
  split
  · simp
  · simp

theorem lead_entryPath {p : Path} {name : String} (h : p.lead.1 = none ∧ p.text ≠ "")
    (hn : '/' ∉ name.toList) :
    (entryPath p name).lead.1 = none ∧ (entryPath p name).text ≠ "" := by
  rw [entryPath_of_lead h.2 h.1]
  exact ⟨(Path.lead_join h.2 (Path.not_isAbsolute_name hn)).2 h.1, Path.text_join_ne h.2 _⟩

theorem lead_foldl {p : Path} {names : List String} (h : p.lead.1 = none ∧ p.text ≠ "")
    (hn : ∀ name ∈ names, IsName name) :
    (names.foldl entryPath p).lead.1 = none ∧ (names.foldl entryPath p).text ≠ "" := by
  induction names generalizing p with
  | nil => exact h
  | cons name names ih =>
    obtain ⟨hname, hnames⟩ := List.forall_mem_cons.1 hn
    exact ih (lead_entryPath h hname.2.2) hnames

theorem lead_of_step (ht : s.IsTree) {part : PatternPart} {p q : Path} (hpart : part.IsPlain)
    (hstep : s.Step part p q) (h : p.lead.1 = none ∧ p.text ≠ "") :
    q.lead.1 = none ∧ q.text ≠ "" := by
  cases hstep with
  | name _ => exact lead_entryPath h hpart
  | dot _ _ => exact lead_entryPath h hpart
  | special _ hq =>
    obtain ⟨name, hdots, rfl⟩ := exists_of_mem_dotPaths hq
    exact ⟨(Path.lead_join h.2 (Path.not_isAbsolute_name (notMem_of_dots hdots))).2 h.1,
      Path.text_join_ne h.2 _⟩
  | child _ hq =>
    obtain ⟨_, _, _, _, hnames, rfl⟩ := below_of_mem_childPaths ht hq
    exact lead_foldl h hnames.name
  | below _ hq =>
    obtain ⟨_, _, _, _, hnames, rfl⟩ := below_of_mem_descendantPaths ht hq
    exact lead_foldl h hnames.name

/-- What is found anywhere below the working directory is shown without a dot before. -/
theorem lead_of_mem_search_below (ht : s.IsTree) {pattern : Pattern} {wild : List Token}
    {rest : List PatternPart} {p : Path}
    (hparts : pattern.parts = .literal "." :: .directories :: .wild wild :: rest)
    (hplain : ∀ part ∈ pattern.parts, part.IsPlain) (hstart : pattern.absolute = false)
    (h : p ∈ s.search pattern) :
    p.lead.1 = none := by
  have hfollow := mem_follow_of_mem_search h
  have hdot : entryPath ⟨"."⟩ "." = ⟨"."⟩ := rfl
  have hbegin : pattern.start = ⟨"."⟩ := by rw [Pattern.start, hstart]; rfl
  rw [hparts, hbegin] at hfollow
  obtain ⟨-, hbelow⟩ := mem_follow_literal hfollow
  rw [hdot] at hbelow
  obtain ⟨q, hq, hp⟩ := mem_follow_directories (by simp) hbelow
  cases hq with
  | below _ hq =>
    obtain ⟨here, names, -, hnonempty, hnames, rfl⟩ := below_of_mem_descendantPaths ht hq
    obtain ⟨name, names, rfl⟩ := List.exists_cons_of_ne_nil hnonempty
    obtain ⟨hname, hbehind⟩ := List.forall_mem_cons.1 hnames.name
    have hfirst : entryPath ⟨"."⟩ name = ⟨name⟩ := rfl
    have hlead : (⟨name⟩ : Path).lead.1 = none ∧ (⟨name⟩ : Path).text ≠ "" :=
      ⟨Path.lead_of_cons (Path.segments_name hname.2.2) hname.1, hname.ne_empty⟩
    have hfirstLead := lead_foldl hlead hbehind
    rw [List.foldl_cons, hfirst] at hp
    refine (follow_keeps (fun part hpart _ _ hstep =>
      lead_of_step ht (hplain part ?_) hstep) hp hfirstLead).1
    rw [hparts]
    simp [hpart]

end Store
end TemplateCompiler.Files
