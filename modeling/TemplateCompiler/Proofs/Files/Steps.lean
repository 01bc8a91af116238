import Mathlib.Data.String.Basic
import TemplateCompiler.Proofs.Files.Search

/-! # Paths made of steps

A normalized path is made of the steps of the path and nothing else, and so is what a search shows
on its way. Such a path leads where every path with these steps leads, and what lies behind the
first steps of one can be told from it.
-/
namespace TemplateCompiler.Files

def IsStep (segment : String) : Prop := isInert segment = false ∧ '/' ∉ segment.toList

theorem IsName.isStep {name : String} (h : IsName name) : IsStep name := ⟨h.1, h.2.2⟩

theorem Store.Descends.isStep {s : Store} {here : Location} {names : List String}
    (h : s.Descends here names) :
    ∀ name ∈ names, IsStep name := fun name hname => (h.name name hname).isStep

theorem IsStep.ne_empty {segment : String} (h : IsStep segment) : segment ≠ "" := by
  rintro rfl
  exact absurd h.1 (by decide)

theorem text_stepOf (segment : String) : (stepOf segment).text = segment := by
  unfold stepOf
  split
  · next h => exact h.symm
  · rfl

theorem steps_of_isStep {names : List String} (h : ∀ name ∈ names, IsStep name) :
    steps names = names.map stepOf := by
  rw [steps, List.filter_eq_self.2 fun name hname => by rw [(h name hname).1]; rfl]

theorem stepOf_ne_here (segment : String) : stepOf segment ≠ .here := by
  unfold stepOf
  split
  · exact nofun
  · exact nofun

theorem filter_steps (segments : List String) :
    (steps segments).filter (· ≠ .here) = steps segments := by
  refine List.filter_eq_self.2 fun c hc => ?_
  obtain ⟨segment, -, rfl⟩ := List.mem_map.1 hc
  exact decide_eq_true (stepOf_ne_here segment)

namespace Path

theorem toList_text (p : Path) :
    p.text.toList = ['/'].intercalate (p.segments.map String.toList) := by
  rw [segments, List.map_map, show (String.toList ∘ String.ofList) = id from funext fun _ =>
    String.toList_ofList, List.map_id, Text.intercalate_pieces]

theorem sublist_of_mem_segments {p : Path} {segment : String} (h : segment ∈ p.segments) :
    segment.toList.Sublist p.text.toList := by
  obtain ⟨piece, hpiece, rfl⟩ := List.mem_map.1 h
  rw [String.toList_ofList]
  exact Text.sublist_of_mem_pieces hpiece

theorem text_ne_of_mem_segments {p : Path} {segment : String} (h : segment ∈ p.segments)
    (hne : segment ≠ "") :
    p.text ≠ "" := by
  intro ht
  rw [segments, ht] at h
  exact hne (List.mem_singleton.1 h)

theorem eq_of_segments {p q : Path} (h : p.segments = q.segments) : p = q := by
  obtain ⟨a⟩ := p
  obtain ⟨b⟩ := q
  have htext : (⟨a⟩ : Path).text.toList = (⟨b⟩ : Path).text.toList := by rw [toList_text,
    toList_text, h]
  rw [show a = b from String.toList_injective htext]

theorem segments_join_of_last {p other : Path} (h : p.text ≠ "")
    (hlast : p.segments.getLast? ≠ some "") (ho : other.isAbsolute = false) :
    (p.join other).segments = p.segments ++ other.segments := by
  obtain ⟨first, rest, behind, hp, hbehind, hjoin⟩ := segments_join h ho
  rcases hbehind with rfl | rfl
  · rw [hjoin, hp, List.append_nil, List.cons_append]
  · rw [hp, ← List.cons_append, List.getLast?_concat] at hlast
    exact absurd rfl hlast

theorem segments_join_root {other : Path} (ho : other.isAbsolute = false) :
    (join ⟨"/"⟩ other).segments = "" :: other.segments := by
  have hends : ("/" : String).endsWith "/" = true := by decide +kernel
  have hjoin : join ⟨"/"⟩ other = ⟨"/" ++ other.text⟩ := by simp [join, ho, hends]
  have hslash : "/".toList = ['/'] := rfl
  rw [hjoin, segments, segments, String.toList_append, hslash]
  rfl

/-! ## The steps of a path -/

def stepNames (p : Path) : List String := p.segments.filter (!isInert ·)

theorem isStep_of_mem_stepNames {p : Path} {name : String} (h : name ∈ p.stepNames) :
    IsStep name := by
  obtain ⟨hmem, hname⟩ := List.mem_filter.1 h
  exact ⟨by simpa using hname, notMem_of_mem_segments hmem⟩

def ofSteps (absolute : Bool) (names : List String) : Path :=
  ofComponents ((if absolute then [.root] else []) ++ names.map stepOf)

/-- The same path as a search shows it, which is a dot for the working directory. -/
def shown (absolute : Bool) (names : List String) : Path :=
  if !absolute && names.isEmpty then ⟨"."⟩ else ofSteps absolute names

theorem ofSteps_concat (absolute : Bool) (names : List String) (name : String) :
    ofSteps absolute (names ++ [name]) = (ofSteps absolute names).join ⟨name⟩ := by
  rw [ofSteps, ofSteps, ofComponents, ofComponents, List.map_append, ← List.append_assoc,
    List.foldl_append, List.map_singleton, List.foldl_cons, List.foldl_nil, text_stepOf]

theorem segments_ofSteps_join (absolute : Bool) {names : List String}
    (hn : ∀ name ∈ names, IsStep name)
    (hsegments : names ≠ [] →
      (ofSteps absolute names).segments = (if absolute then [""] else []) ++ names)
    {other : Path} (ho : other.isAbsolute = false) :
    ((ofSteps absolute names).join other).segments = (if absolute then [""] else []) ++
      (names ++ other.segments) := by
  by_cases hne : names = []
  · subst hne
    cases absolute with
    | true => exact segments_join_root ho
    | false => exact congrArg segments (join_of_empty rfl)
  · obtain ⟨front, last, rfl⟩ := (List.eq_nil_or_concat names).resolve_left hne
    have hlast : last ≠ "" := (hn last (by simp)).ne_empty
    have hpath := hsegments hne
    rw [segments_join_of_last, hpath, List.append_assoc]
    · exact text_ne_of_mem_segments (by rw [hpath]; simp) hlast
    · rw [hpath, List.concat_eq_append, ← List.append_assoc, List.getLast?_concat]
      exact fun heq => hlast (Option.some.inj heq)
    · exact ho

theorem segments_ofSteps (absolute : Bool) {names : List String} (hn : ∀ name ∈ names, IsStep name)
    (hne : names ≠ []) :
    (ofSteps absolute names).segments = (if absolute then [""] else []) ++ names := by
  induction names using List.reverseRecOn with
  | nil => exact absurd rfl hne
  | append_singleton front name ih =>
    obtain ⟨hfront, hname⟩ := List.forall_mem_append.1 hn
    have hslash := (hname name (List.mem_singleton_self _)).2
    rw [ofSteps_concat, segments_ofSteps_join absolute hfront (ih hfront)
      (not_isAbsolute_name hslash), segments_name hslash]

theorem sublist_ofSteps (absolute : Bool) {names : List String} (hn : ∀ name ∈ names, IsStep name)
    (hne : names ≠ []) {q : Path}
    (hs : ((if absolute then [""] else []) ++ names).Sublist q.segments) :
    (ofSteps absolute names).text.toList.Sublist q.text.toList := by
  rw [toList_text, toList_text, segments_ofSteps absolute hn hne]
  exact Text.intercalate_sublist ['/'] (hs.map String.toList)

theorem stepNames_sublist {p : Path} (h : p.text ≠ "") :
    ((if p.isAbsolute then [""] else []) ++ p.stepNames).Sublist p.segments := by
  obtain ⟨first, rest, hsegments⟩ := p.segments_eq_cons
  cases habsolute : p.isAbsolute with
  | false => exact List.filter_sublist
  | true =>
    rw [stepNames, hsegments, (isAbsolute_iff hsegments h).1 habsolute,
      List.filter_cons_of_neg (by decide)]
    exact List.filter_sublist.cons_cons ""

theorem text_ofSteps_ne (absolute : Bool) {names : List String} (hn : ∀ name ∈ names, IsStep name)
    (hne : names ≠ []) : (ofSteps absolute names).text ≠ "" := by
  obtain ⟨name, rest, rfl⟩ := List.exists_cons_of_ne_nil hne
  refine text_ne_of_mem_segments ?_ (hn name List.mem_cons_self).ne_empty
  rw [segments_ofSteps absolute hn hne]
  simp

theorem lead_ofSteps (absolute : Bool) {names : List String} (hn : ∀ name ∈ names, IsStep name)
    (hne : names ≠ []) :
    (ofSteps absolute names).lead = (if absolute then some .root else none, names) := by
  have hsegments := segments_ofSteps absolute hn hne
  have htext := text_ofSteps_ne absolute hn hne
  cases absolute with
  | true => exact lead_of_segments hsegments htext
  | false =>
    obtain ⟨name, rest, rfl⟩ := List.exists_cons_of_ne_nil hne
    have hfirst := (hn name List.mem_cons_self).1
    simp only [isInert, Bool.or_eq_false_iff, decide_eq_false_iff_not] at hfirst
    rw [lead_of_segments hsegments htext, if_neg hfirst.1, if_neg hfirst.2]
    rfl

theorem components_ofSteps (absolute : Bool) {names : List String}
    (hn : ∀ name ∈ names, IsStep name) :
    (ofSteps absolute names).components = (if absolute then [.root] else []) ++
      names.map stepOf := by
  by_cases hne : names = []
  · subst hne
    cases absolute with
    | true => rfl
    | false => rfl
  · rw [components, lead_ofSteps absolute hn hne, ← steps_of_isStep hn, steps]
    cases absolute with
    | true => rfl
    | false => rfl

theorem isAbsolute_ofSteps (absolute : Bool) {names : List String}
    (hn : ∀ name ∈ names, IsStep name) :
    (ofSteps absolute names).isAbsolute = absolute := by
  by_cases hne : names = []
  · subst hne
    cases absolute with
    | true => rfl
    | false => rfl
  · rw [isAbsolute, lead_ofSteps absolute hn hne]
    cases absolute with
    | true => rfl
    | false => rfl

/-- A normalized path has the steps of the path. -/
theorem normalize_eq (p : Path) : p.normalize = ofSteps p.isAbsolute p.stepNames := by
  obtain ⟨first, rest, hsegments⟩ := p.segments_eq_cons
  by_cases ht : p.text = ""
  · obtain ⟨text⟩ := p
    cases ht
    rfl
  · have hfirst : ((Component.ofFirst first :: steps rest).filter (· ≠ .here)) =
        (if p.isAbsolute then [.root] else []) ++ steps (first :: rest) := by
      unfold Component.ofFirst
      by_cases hempty : first = ""
      · rw [if_pos hempty, (isAbsolute_iff hsegments ht).2 hempty,
          List.filter_cons_of_pos (by decide), filter_steps, steps_of_inert (by rw [hempty]; rfl)]
        rfl
      · rw [if_neg hempty, Bool.eq_false_iff.2 (mt (isAbsolute_iff hsegments ht).1 hempty)]
        by_cases hdot : first = "."
        · rw [if_pos hdot, List.filter_cons_of_neg (by decide), filter_steps,
            steps_of_inert (by rw [hdot]; rfl)]
          rfl
        · rw [if_neg hdot, ← steps_of_not_inert (by simp [isInert, hempty, hdot]), filter_steps]
          rfl
    rw [normalize, ofSteps, components_of_segments hsegments ht, hfirst, stepNames, hsegments]
    rfl

theorem segments_intercalate_steps {names : List String} (hn : ∀ name ∈ names, IsStep name)
    (hne : names ≠ []) :
    segments ⟨"/".intercalate names⟩ = names :=
  segments_intercalate (fun name hname => (hn name hname).2) hne

theorem not_isAbsolute_intercalate {names : List String} (hn : ∀ name ∈ names, IsStep name)
    (hne : names ≠ []) :
    isAbsolute ⟨"/".intercalate names⟩ = false := by
  obtain ⟨name, rest, rfl⟩ := List.exists_cons_of_ne_nil hne
  exact not_isAbsolute_of_lead (lead_of_cons (segments_intercalate_steps hn hne)
    (hn name List.mem_cons_self).1)

theorem join_ofSteps (absolute : Bool) {names behind : List String}
    (hn : ∀ name ∈ names, IsStep name) (hb : ∀ name ∈ behind, IsStep name) (hne : behind ≠ []) :
    (ofSteps absolute names).join ⟨"/".intercalate behind⟩ =
      ofSteps absolute (names ++ behind) := by
  have hall : ∀ name ∈ names ++ behind, IsStep name := List.forall_mem_append.2 ⟨hn, hb⟩
  refine eq_of_segments ?_
  rw [segments_ofSteps absolute hall (by simp [hne]),
    segments_ofSteps_join absolute hn (segments_ofSteps absolute hn)
      (not_isAbsolute_intercalate hb hne),
    segments_intercalate_steps hb hne]

/-! ## Relative to the first steps -/

theorem dropComponents_steps {names : List String} (hn : ∀ name ∈ names, IsStep name)
    (segments : List String) :
    dropComponents (names.map stepOf) (names ++ segments) = dropComponents [] segments := by
  induction names with
  | nil => rfl
  | cons name names ih =>
    obtain ⟨hname, hnames⟩ := List.forall_mem_cons.1 hn
    have hfirst : (name :: (names ++ segments)).dropWhile isInert = name :: (names ++ segments) :=
      List.dropWhile_cons_of_neg (by simp [hname.1])
    simp only [List.map_cons, List.cons_append, dropComponents, hfirst]
    exact (if_pos trivial).trans (ih hnames)

theorem dropComponents_nil_steps {names : List String} (hn : ∀ name ∈ names, IsStep name) :
    dropComponents [] names = some names := by
  have hkept : ∀ rest : List String, (∀ name ∈ rest, IsStep name) →
      rest.dropWhile isInert = rest := by
    intro rest hrest
    cases rest with
    | nil => rfl
    | cons name rest =>
      exact List.dropWhile_cons_of_neg (by simp [(hrest name List.mem_cons_self).1])
  rw [dropComponents, hkept names hn, hkept names.reverse fun name hname =>
    hn name (List.mem_reverse.1 hname), List.reverse_reverse]

/-- What lies behind the first steps is recognised. -/
theorem relativeTo?_ofSteps (absolute : Bool) {names behind : List String}
    (hn : ∀ name ∈ names, IsStep name) (hb : ∀ name ∈ behind, IsStep name) (hne : behind ≠ []) :
    (ofSteps absolute (names ++ behind)).relativeTo? (ofSteps absolute names) =
      some ⟨"/".intercalate behind⟩ := by
  have hall : ∀ name ∈ names ++ behind, IsStep name := List.forall_mem_append.2 ⟨hn, hb⟩
  have hdrop : dropComponents (names.map stepOf) (names ++ behind) = some behind := by
    rw [dropComponents_steps hn, dropComponents_nil_steps hb]
  rw [relativeTo?, components_ofSteps absolute hn, lead_ofSteps absolute hall (by simp [hne])]
  cases absolute with
  | true =>
    change ((if Component.root = .root then _ else _ : Option (List String)).map _) = _
    rw [if_pos rfl]
    exact congrArg (Option.map _) hdrop
  | false =>
    cases names with
    | nil => exact congrArg (Option.map _) hdrop
    | cons name names => exact congrArg (Option.map _) hdrop

/-! ## What a search shows -/

theorem shown_eq_ofSteps {absolute : Bool} {names : List String}
    (h : ¬(absolute = false ∧ names = [])) :
    shown absolute names = ofSteps absolute names := by
  refine if_neg ?_
  rwa [Bool.and_eq_true, Bool.not_eq_true', List.isEmpty_iff]

theorem shown_of_ne_nil (absolute : Bool) {names : List String} (hne : names ≠ []) :
    shown absolute names = ofSteps absolute names := shown_eq_ofSteps fun hdot => hne hdot.2

end Path

theorem entryPath_shown (absolute : Bool) {names : List String} {name : String}
    (hn : ∀ name ∈ names, IsStep name) :
    entryPath (Path.shown absolute names) name = Path.shown absolute (names ++ [name]) := by
  have hnext : Path.shown absolute (names ++ [name]) =
      (Path.ofSteps absolute names).join ⟨name⟩ := by
    rw [Path.shown_of_ne_nil absolute (by simp), Path.ofSteps_concat]
  rw [hnext]
  by_cases hdot : absolute = false ∧ names = []
  · obtain ⟨rfl, rfl⟩ := hdot
    exact (Path.join_of_empty rfl).symm
  · rw [Path.shown_eq_ofSteps hdot]
    refine if_neg ?_
    rw [Path.components_ofSteps absolute hn]
    intro hhere
    have hmem : Component.here ∈ (if absolute then [Component.root] else []) ++
        names.map stepOf := by
      rw [hhere]
      exact List.mem_singleton_self _
    rcases List.mem_append.1 hmem with hroot | hstep
    · cases absolute with
      | true => cases List.mem_singleton.1 hroot
      | false => cases hroot
    · obtain ⟨segment, -, hsegment⟩ := List.mem_map.1 hstep
      exact stepOf_ne_here segment hsegment

theorem foldl_entryPath_shown (absolute : Bool) {names behind : List String}
    (hn : ∀ name ∈ names, IsStep name) (hb : ∀ name ∈ behind, IsStep name) :
    behind.foldl entryPath (Path.shown absolute names) = Path.shown absolute (names ++ behind) := by
  induction behind generalizing names with
  | nil => rw [List.foldl_nil, List.append_nil]
  | cons name behind ih =>
    obtain ⟨hname, hbehind⟩ := List.forall_mem_cons.1 hb
    have hnext : ∀ other ∈ names ++ [name], IsStep other :=
      List.forall_mem_append.2 ⟨hn, by simpa using hname⟩
    rw [List.foldl_cons, entryPath_shown absolute hn, ih hnext hbehind, List.append_assoc,
      List.singleton_append]

/-! ## Where steps lead -/

namespace Store

variable {s : Store}

/-- Only the segments with a step lead on. -/
theorem walk_steps {here there : Location} {segments : List String}
    (h : s.walk here segments = .ok there) :
    s.walk here (segments.filter (!isInert ·)) = .ok there := by
  induction segments generalizing here with
  | nil => exact h
  | cons segment rest ih =>
    rw [walk] at h
    obtain ⟨_, hdirectory, h⟩ := bind_eq_ok.1 h
    by_cases hinert : isInert segment = true
    · rw [if_pos hinert] at h
      rw [List.filter_cons_of_neg (by simp [hinert])]
      exact ih h
    · rw [if_neg hinert] at h
      rw [List.filter_cons_of_pos (by simp [hinert]), walk, hdirectory]
      change (if isInert segment then _ else _) = _
      rw [if_neg hinert]
      by_cases hup : segment = ".."
      · rw [if_pos hup] at h ⊢
        exact ih h
      · rw [if_neg hup] at h ⊢
        obtain ⟨next, hnext, h⟩ := bind_eq_ok.1 h
        exact bind_eq_ok.2 ⟨next, hnext, ih h⟩

/-- A text is accepted as a path if a longer one is. -/
theorem origin_of_sublist {p q : Path} {start : Location} (h : origin q = .ok start)
    (hs : p.text.toList.Sublist q.text.toList) (ht : p.text ≠ "") :
    origin p = .ok (if p.isAbsolute then ["/"] else []) := by
  have hsize : p.text.utf8ByteSize ≤ q.text.utf8ByteSize := by
    have hlength : ∀ text : String, text.utf8ByteSize = String.utf8Len text.toList := fun text => by
      rw [← String.utf8ByteSize_ofList, String.ofList_toList]
    rw [hlength, hlength]
    exact String.utf8Len_le_of_sublist hs
  unfold origin at h ⊢
  split at h
  · cases h
  · next hnul =>
    split at h
    · cases h
    · split at h
      · cases h
      · next hlong =>
        rw [if_neg fun hmem =>
          hnul (List.contains_iff_mem.2 (hs.subset (List.contains_iff_mem.1 hmem))), if_neg ht,
            if_neg fun hmore => hlong (Nat.lt_of_lt_of_le hmore hsize)]

/-- Steps that an accepted path takes among others can be taken without the others. -/
theorem locate_shown (absolute : Bool) {names : List String} (hn : ∀ name ∈ names, IsStep name)
    {q : Path} {start : Location} (h : origin q = .ok start)
    (hs : ((if absolute then [""] else []) ++ names).Sublist q.segments) :
    s.locate (Path.shown absolute names) = s.walk (if absolute then ["/"] else []) names := by
  by_cases hne : names = []
  · subst hne
    cases absolute with
    | true => rfl
    | false => rfl
  · have htext := Path.sublist_ofSteps absolute hn hne hs
    rw [Path.shown_of_ne_nil absolute hne, locate,
      origin_of_sublist h htext (Path.text_ofSteps_ne absolute hn hne),
      Path.isAbsolute_ofSteps absolute hn, Path.segments_ofSteps absolute hn hne]
    cases absolute with
    | true => rfl
    | false => rfl

/-- The directory that a search shows is the one that the path leads to. -/
theorem locate_stepNames {p : Path} {here : Location} (h : s.locate p = .ok here) :
    s.locate (Path.shown p.isAbsolute p.stepNames) = .ok here := by
  obtain ⟨start, hstart, hwalk⟩ := bind_eq_ok.1 h
  obtain ⟨ht, rfl⟩ := origin_eq_ok hstart
  rw [locate_shown _ (fun _ => Path.isStep_of_mem_stepNames) hstart (Path.stepNames_sublist ht)]
  exact walk_steps hwalk

theorem isDirectory_of_locate {p : Path} {here : Location} (h : s.locate p = .ok here)
    (hd : s.find? here = some .directory) : s.isDirectory p = true := by
  rw [isDirectory, lookup_of_some h hd]

/-- What steps lead to is in a directory that the steps before lead to. -/
theorem isDirectory_of_behind {absolute : Bool} {front behind : List String} {there : Location}
    (hn : ∀ name ∈ front ++ behind, IsStep name) (hne : behind ≠ [])
    (h : s.locate (Path.shown absolute (front ++ behind)) = .ok there) :
    s.isDirectory (Path.shown absolute front) = true := by
  have hsteps : front ++ behind ≠ [] := List.append_ne_nil_of_right_ne_nil front hne
  have hsegments : (Path.shown absolute (front ++ behind)).segments =
      (if absolute then [""] else []) ++ (front ++ behind) := by
    rw [Path.shown_of_ne_nil absolute hsteps, Path.segments_ofSteps absolute hn hsteps]
  have hfront : ((if absolute then [""] else []) ++ front).Sublist
      (Path.shown absolute (front ++ behind)).segments := by
    rw [hsegments, ← List.append_assoc]
    exact List.sublist_append_left _ behind
  obtain ⟨start, hstart, -⟩ := bind_eq_ok.1 h
  rw [locate_shown absolute hn hstart (by rw [hsegments]), walk_append] at h
  obtain ⟨here, hhere, hrest⟩ := bind_eq_ok.1 h
  obtain ⟨name, rest, rfl⟩ := List.exists_cons_of_ne_nil hne
  rw [walk] at hrest
  obtain ⟨_, hrequired, -⟩ := bind_eq_ok.1 hrest
  exact isDirectory_of_locate
    ((locate_shown absolute (List.forall_mem_append.1 hn).1 hstart hfront).trans hhere)
    (requireDirectory_eq_ok.1 hrequired)

/-- The way to a directory leads through directories. -/
theorem isDirectory_front {absolute : Bool} {front behind : List String}
    (hn : ∀ name ∈ front ++ behind, IsStep name)
    (h : s.isDirectory (Path.shown absolute (front ++ behind)) = true) :
    s.isDirectory (Path.shown absolute front) = true := by
  by_cases hempty : behind = []
  · rwa [hempty, List.append_nil] at h
  · obtain ⟨there, hlocate, -⟩ := way_of_isDirectory h
    exact isDirectory_of_behind hn hempty hlocate

end Store
end TemplateCompiler.Files
