import TemplateCompiler.Files.Path
import TemplateCompiler.Proofs.Text.Occurrence
import TemplateCompiler.Proofs.Text.Pieces

/-! # Paths below one another

A path joined to another goes on behind its steps, and the path relative to a directory has the
steps that are left. So a path can be told from the place it is mirrored to.
-/
namespace TemplateCompiler.Files

def steps (segments : List String) : List Component := (segments.filter (!isInert ·)).map stepOf

def Component.ofFirst (segment : String) : Component :=
  if segment = "" then .root else if segment = "." then .here else stepOf segment

theorem steps_append (front back : List String) :
    steps (front ++ back) = steps front ++ steps back := by
  rw [steps, List.filter_append, List.map_append, steps, steps]

theorem steps_of_inert {segment : String} (h : isInert segment = true) (rest : List String) :
    steps (segment :: rest) = steps rest := by
  rw [steps, List.filter_cons_of_neg (by simp [h]), steps]

theorem steps_of_not_inert {segment : String} (h : isInert segment = false) (rest : List String) :
    steps (segment :: rest) = stepOf segment :: steps rest := by
  rw [steps, List.filter_cons_of_pos (by simp [h]), List.map_cons, steps]

theorem steps_dropWhile (segments : List String) :
    steps (segments.dropWhile isInert) = steps segments := by
  induction segments with
  | nil => rfl
  | cons segment rest ih =>
    rw [List.dropWhile_cons]
    split
    · next h => rw [ih, steps_of_inert h]
    · rfl

theorem steps_reverse (segments : List String) :
    steps segments.reverse = (steps segments).reverse := by
  rw [steps, List.filter_reverse, List.map_reverse, steps]

theorem steps_dropEndWhile (segments : List String) :
    steps (segments.reverse.dropWhile isInert).reverse = steps segments := by
  rw [steps_reverse, steps_dropWhile, steps_reverse, List.reverse_reverse]

namespace Path

theorem notMem_of_mem_segments {p : Path} {segment : String} (h : segment ∈ p.segments) :
    '/' ∉ segment.toList := by
  obtain ⟨piece, hpiece, rfl⟩ := List.mem_map.1 h
  rw [String.toList_ofList]
  exact Text.notMem_of_mem_pieces hpiece

theorem segments_eq_cons (p : Path) : ∃ first rest, p.segments = first :: rest :=
  List.exists_cons_of_ne_nil (by simp [segments, Text.pieces_ne_nil])

theorem segments_intercalate {names : List String} (h : ∀ name ∈ names, '/' ∉ name.toList)
    (hne : names ≠ []) :
    segments ⟨"/".intercalate names⟩ = names := by
  have hslash : "/".toList = ['/'] := rfl
  have hpieces : ∀ piece ∈ names.map String.toList, '/' ∉ piece := by
    intro piece hpiece
    obtain ⟨name, hname, rfl⟩ := List.mem_map.1 hpiece
    exact h name hname
  rw [segments, String.toList_intercalate, hslash, Text.pieces_intercalate hpieces (by simpa),
    List.map_map]
  simp

theorem segments_name {name : String} (h : '/' ∉ name.toList) : segments ⟨name⟩ = [name] := by
  rw [segments, Text.pieces_eq_singleton h, List.map_singleton, String.ofList_toList]

section First

variable {p : Path} {first : String} {rest : List String}

theorem lead_of_segments (h : p.segments = first :: rest) (ht : p.text ≠ "") :
    p.lead =
      if first = "" then (some .root, rest) else if first = "." then (some .here, rest)
      else (none, first :: rest) := by
  simp [lead, h, ht]

theorem components_of_segments (h : p.segments = first :: rest) (ht : p.text ≠ "") :
    p.components = .ofFirst first :: steps rest := by
  rw [components, lead_of_segments h ht, Component.ofFirst]
  by_cases hempty : first = ""
  · simp [hempty, steps]
  · by_cases hdot : first = "."
    · simp [hdot, steps]
    · simp [hempty, hdot, steps, isInert]

theorem lead_eq_none_iff (h : p.segments = first :: rest) (ht : p.text ≠ "") :
    p.lead.1 = none ↔ isInert first = false := by
  rw [lead_of_segments h ht, isInert]
  by_cases hempty : first = ""
  · simp [hempty]
  · by_cases hdot : first = "."
    · simp [hdot]
    · simp [hempty, hdot]

theorem isAbsolute_iff (h : p.segments = first :: rest) (ht : p.text ≠ "") :
    p.isAbsolute = true ↔ first = "" := by
  rw [isAbsolute, lead_of_segments h ht]
  by_cases hempty : first = ""
  · simp [hempty]
  · by_cases hdot : first = "."
    · simp [hdot]
    · simp [hempty, hdot]

end First

theorem components_eq_nil_iff {p : Path} : p.components = [] ↔ p.text = "" := by
  constructor
  · intro h
    by_cases ht : p.text = ""
    · exact ht
    · obtain ⟨first, rest, hsegments⟩ := p.segments_eq_cons
      rw [components_of_segments hsegments ht] at h
      cases h
  · intro h
    obtain ⟨text⟩ := p
    cases h
    rfl

/-- A path whose only component is the working directory has nothing but dots and empty names. -/
theorem isInert_of_components_here {p : Path} (h : p.components = [.here]) :
    p.isAbsolute = false ∧ ∀ segment ∈ p.segments, isInert segment = true := by
  have ht : p.text ≠ "" := fun ht => by
    rw [components_eq_nil_iff.2 ht] at h
    cases h
  obtain ⟨first, rest, hsegments⟩ := p.segments_eq_cons
  rw [components_of_segments hsegments ht, List.cons.injEq] at h
  obtain ⟨hfirst, hrest⟩ := h
  have hdot : first = "." := by
    unfold Component.ofFirst stepOf at hfirst
    split at hfirst
    · cases hfirst
    · split at hfirst
      · next hdot => exact hdot
      · split at hfirst
        · cases hfirst
        · cases hfirst
  subst hdot
  refine ⟨Bool.eq_false_iff.2 (mt (isAbsolute_iff hsegments ht).1 (by decide)), ?_⟩
  rw [hsegments]
  refine List.forall_mem_cons.2 ⟨by decide, fun segment hsegment => ?_⟩
  rw [steps, List.map_eq_nil_iff, List.filter_eq_nil_iff] at hrest
  simpa using hrest segment hsegment

theorem components_of_lead {p : Path} (h : p.lead.1 = none) : p.components = steps p.segments := by
  by_cases ht : p.text = ""
  · obtain ⟨text⟩ := p
    cases ht
    rfl
  · obtain ⟨first, rest, hsegments⟩ := p.segments_eq_cons
    have hinert := (lead_eq_none_iff hsegments ht).1 h
    rw [components, lead_of_segments hsegments ht, hsegments]
    simp [isInert] at hinert
    simp [hinert, steps]

theorem not_isAbsolute_of_lead {p : Path} (h : p.lead.1 = none) : p.isAbsolute = false := by
  simp [isAbsolute, h]

theorem lead_of_cons {p : Path} {first : String} {rest : List String}
    (h : p.segments = first :: rest) (hfirst : isInert first = false) : p.lead.1 = none := by
  refine (lead_eq_none_iff h ?_).2 hfirst
  intro ht
  obtain ⟨text⟩ := p
  cases ht
  cases h
  exact absurd hfirst (by decide)

theorem not_isAbsolute_name {name : String} (h : '/' ∉ name.toList) :
    isAbsolute ⟨name⟩ = false := by
  by_cases hempty : name = ""
  · rw [hempty]
    rfl
  · exact Bool.eq_false_iff.2 (mt (isAbsolute_iff (segments_name h) hempty).1 hempty)

/-! ## Joining -/

theorem join_of_empty {p other : Path} (h : p.text = "") : p.join other = other := by
  simp [join, h]

theorem text_join_ne {p : Path} (h : p.text ≠ "") (other : Path) : (p.join other).text ≠ "" := by
  unfold join
  split
  · next habsolute =>
    intro ht
    obtain ⟨text⟩ := other
    cases ht
    exact absurd habsolute (by decide)
  · split <;> simp [h]

/-- A path that is joined to another has its segments behind those of the other, without the empty
one at the end. -/
theorem segments_join {p other : Path} (h : p.text ≠ "") (ho : other.isAbsolute = false) :
    ∃ first rest behind, p.segments = first :: (rest ++ behind) ∧ (behind = [] ∨ behind = [""]) ∧
      (p.join other).segments = first :: (rest ++ other.segments) := by
  by_cases hslash : p.text.endsWith "/" = true
  · have hjoin : p.join other = ⟨p.text ++ other.text⟩ := by simp [join, ho, h, hslash]
    obtain ⟨front, hfront⟩ : ∃ front, p.text.toList = front ++ ['/'] := by
      have hsuffix : "/".toList <:+ p.text.toSlice.copy.toList :=
        String.Slice.endsWith_string_iff.1 hslash
      rw [String.copy_toSlice] at hsuffix
      obtain ⟨front, hfront⟩ := hsuffix
      exact ⟨front, hfront.symm⟩
    obtain ⟨first, rest, hpieces⟩ := List.exists_cons_of_ne_nil (Text.pieces_ne_nil '/' front)
    refine ⟨String.ofList first, rest.map String.ofList, [""], ?_, .inr rfl, ?_⟩
    · rw [segments, hfront, Text.pieces_append, hpieces]
      simp [Text.pieces]
    · rw [hjoin, segments, segments, String.toList_append, hfront, List.append_assoc,
        List.singleton_append, Text.pieces_append, hpieces]
      simp
  · have hjoin : p.join other = ⟨p.text ++ "/" ++ other.text⟩ := by simp [join, ho, h, hslash]
    have hbetween : "/".toList = ['/'] := rfl
    obtain ⟨first, rest, hsegments⟩ := p.segments_eq_cons
    refine ⟨first, rest, [], by rw [hsegments, List.append_nil], .inl rfl, ?_⟩
    rw [← List.cons_append, ← hsegments, hjoin, segments, segments, segments, String.toList_append,
      String.toList_append, hbetween, List.append_assoc, List.singleton_append, Text.pieces_append,
      List.map_append]

section Join

variable {p other : Path} (h : p.text ≠ "") (ho : other.isAbsolute = false)
include h ho

theorem components_join : (p.join other).components = p.components ++ steps other.segments := by
  obtain ⟨first, rest, behind, hp, hbehind, hjoin⟩ := segments_join h ho
  have hend : steps behind = [] := by rcases hbehind with rfl | rfl <;> rfl
  rw [components_of_segments hjoin (text_join_ne h other), components_of_segments hp h,
    steps_append, steps_append, hend, List.append_nil, List.cons_append]

theorem lead_join : (p.join other).lead.1 = none ↔ p.lead.1 = none := by
  obtain ⟨first, rest, behind, hp, -, hjoin⟩ := segments_join h ho
  rw [lead_eq_none_iff hjoin (text_join_ne h other), lead_eq_none_iff hp h]

theorem isAbsolute_join : (p.join other).isAbsolute = p.isAbsolute := by
  obtain ⟨first, rest, behind, hp, -, hjoin⟩ := segments_join h ho
  rw [Bool.eq_iff_iff, isAbsolute_iff hjoin (text_join_ne h other), isAbsolute_iff hp h]

end Join

/-! ## Relative paths -/

/-- What is left starts with a step, if there is anything. -/
theorem dropComponents_eq_some {components : List Component} {segments rest : List String}
    (h : dropComponents components segments = some rest) :
    steps segments = components ++ steps rest ∧ rest ⊆ segments ∧
      ∀ segment ∈ rest.head?, isInert segment = false := by
  induction components generalizing segments with
  | nil =>
    rw [dropComponents, Option.some.injEq] at h
    have hprefix : rest <+: segments.dropWhile isInert := by
      rw [← h, ← List.reverse_suffix, List.reverse_reverse]
      exact List.dropWhile_suffix isInert
    refine ⟨?_, ?_, ?_⟩
    · rw [← h, steps_dropEndWhile, steps_dropWhile, List.nil_append]
    · exact List.Subset.trans hprefix.subset (List.dropWhile_suffix isInert).subset
    · intro segment hsegment
      obtain ⟨back, hback⟩ := hprefix
      have hhead : segment ∈ (segments.dropWhile isInert).head? := by
        cases rest with
        | nil => cases hsegment
        | cons first rest =>
          cases hsegment
          rw [← hback]
          rfl
      exact Text.head?_dropWhile isInert segments segment hhead
  | cons c components ih =>
    rw [dropComponents] at h
    split at h
    · cases h
    · next segment behind hdrop =>
      split at h
      · next hstep =>
        obtain ⟨hsteps, hsubset, hhead⟩ := ih h
        have hnot : isInert segment = false :=
          Text.head?_dropWhile isInert segments segment (by rw [hdrop]; rfl)
        have hbehind : behind ⊆ segments.dropWhile isInert := by
          rw [hdrop]
          exact List.subset_cons_self segment behind
        refine ⟨?_, ?_, hhead⟩
        · rw [← steps_dropWhile, hdrop, steps_of_not_inert hnot, hstep, hsteps, List.cons_append]
        · exact List.Subset.trans hsubset
            (List.Subset.trans hbehind (List.dropWhile_suffix isInert).subset)
      · cases h

theorem lead_subset (p : Path) : p.lead.2 ⊆ p.segments := by
  obtain ⟨first, rest, hsegments⟩ := p.segments_eq_cons
  by_cases ht : p.text = ""
  · obtain ⟨text⟩ := p
    cases ht
    exact List.Subset.refl _
  · rw [lead_of_segments hsegments ht, hsegments]
    split
    · exact List.subset_cons_self first rest
    · split
      · exact List.subset_cons_self first rest
      · exact List.Subset.refl _

/-- A relative path has the components that are left behind those of the directory. -/
theorem relativeTo?_eq_some {p base relative : Path} (h : p.relativeTo? base = some relative)
    (hbase : base.text = "" → p.lead.1 = none) :
    p.components = base.components ++ relative.components ∧ relative.lead.1 = none := by
  obtain ⟨rest, hrest, rfl⟩ := Option.map_eq_some_iff.1 h
  obtain ⟨hcomponents, hsubset, hhead⟩ : p.components = base.components ++ steps rest ∧
      rest ⊆ p.segments ∧
      ∀ segment ∈ rest.head?, isInert segment = false := by
    split at hrest
    · next first hnil hfirst =>
      rw [hbase (components_eq_nil_iff.1 hnil)] at hfirst
      cases hfirst
    · next c components first hcons hfirst =>
      split at hrest
      · next hc =>
        obtain ⟨hsteps, hsubset, hhead⟩ := dropComponents_eq_some hrest
        refine ⟨?_, List.Subset.trans hsubset p.lead_subset, hhead⟩
        rw [hcons, hc, Path.components, hfirst, Option.toList_some, List.singleton_append,
          List.cons_append, ← hsteps, steps]
      · cases hrest
    · next hfirst =>
      obtain ⟨hsteps, hsubset, hhead⟩ := dropComponents_eq_some hrest
      refine ⟨?_, List.Subset.trans hsubset p.lead_subset, hhead⟩
      rw [Path.components, hfirst, Option.toList_none, List.nil_append, ← hsteps, steps]
  cases rest with
  | nil => exact ⟨by rw [hcomponents]; rfl, rfl⟩
  | cons first rest =>
    have hsegments := segments_intercalate (fun name hname =>
      notMem_of_mem_segments (hsubset hname))
      (List.cons_ne_nil first rest)
    have hlead := lead_of_cons hsegments (hhead first rfl)
    exact ⟨by rw [hcomponents, components_of_lead hlead, hsegments], hlead⟩

/-! ## Mirrored paths -/

theorem not_inert_append {name suffix : String} (h : 2 < suffix.length) :
    isInert (name ++ suffix) = false ∧ stepOf (name ++ suffix) = .name (name ++ suffix) := by
  have hlonger : ∀ short : String, short.length ≤ 2 → name ++ suffix ≠ short := by
    rintro _ hshort rfl
    rw [String.length_append] at hshort
    omega
  simp [isInert, stepOf, hlonger "" (by decide), hlonger "." (by decide), hlonger ".." (by decide)]

/-- An extension makes the last step longer. -/
theorem components_append {p : Path} {suffix : String} (hp : p.lead.1 = none)
    (hs : '/' ∉ suffix.toList) (hl : 2 < suffix.length) :
    ∃ front last, p.components = steps front ++ steps [last] ∧
      (⟨p.text ++ suffix⟩ : Path).lead.1 = none ∧
      (⟨p.text ++ suffix⟩ : Path).components = steps front ++ [.name (last ++ suffix)] := by
  obtain ⟨front, last, hpieces, hlonger⟩ := Text.pieces_append_of_notMem hs p.text.toList
  have hsegments : p.segments = front.map String.ofList ++ [String.ofList last] := by
    rw [segments, hpieces, List.map_append, List.map_singleton]
  have hlast : String.ofList (last ++ suffix.toList) = String.ofList last ++ suffix := by
    rw [String.ofList_append, String.ofList_toList]
  have happend : (⟨p.text ++ suffix⟩ : Path).segments =
      front.map String.ofList ++ [String.ofList last ++ suffix] := by
    rw [segments, String.toList_append, hlonger, List.map_append, List.map_singleton, hlast]
  obtain ⟨hnot, hname⟩ := @not_inert_append (String.ofList last) suffix hl
  have hlead : (⟨p.text ++ suffix⟩ : Path).lead.1 = none := by
    cases front with
    | nil => exact lead_of_cons happend hnot
    | cons first front =>
      refine lead_of_cons happend ?_
      refine (lead_eq_none_iff hsegments ?_).1 hp
      intro ht
      rw [ht] at hpieces
      cases front with
      | nil => cases hpieces
      | cons second front => cases hpieces
  refine ⟨front.map String.ofList, String.ofList last, ?_, hlead, ?_⟩
  · rw [components_of_lead hp, hsegments, steps_append]
  · rw [components_of_lead hlead, happend, steps_append, steps_of_not_inert hnot, hname]
    rfl

theorem components_join_append {base p : Path} {suffix : String} (hp : p.lead.1 = none)
    (hs : '/' ∉ suffix.toList) (hl : 2 < suffix.length) :
    (base.join ⟨p.text ++ suffix⟩).components = base.components ++
      (⟨p.text ++ suffix⟩ : Path).components := by
  obtain ⟨_, _, _, hlead, _⟩ := components_append hp hs hl
  by_cases hbase : base.text = ""
  · rw [join_of_empty hbase, components_eq_nil_iff.2 hbase, List.nil_append]
  · rw [components_join hbase (not_isAbsolute_of_lead hlead), components_of_lead hlead]

/-- Paths that are mirrored to the same place below a directory are the same. -/
theorem components_of_mirrored {base p q : Path} {suffix : String} (hp : p.lead.1 = none)
    (hq : q.lead.1 = none) (hs : '/' ∉ suffix.toList) (hl : 2 < suffix.length)
    (h : (base.join ⟨p.text ++ suffix⟩).components = (base.join ⟨q.text ++ suffix⟩).components) :
    p.components = q.components := by
  rw [components_join_append hp hs hl, components_join_append hq hs hl,
    List.append_cancel_left_eq] at h
  obtain ⟨front, last, hfront, -, hsteps⟩ := components_append hp hs hl
  obtain ⟨front', last', hfront', -, hsteps'⟩ := components_append hq hs hl
  rw [hsteps, hsteps'] at h
  obtain ⟨hbefore, hname⟩ := List.append_inj' h rfl
  simp only [List.cons.injEq, Component.name.injEq, String.append_left_inj, and_true] at hname
  rw [hfront, hfront', hbefore, hname]

end Path
end TemplateCompiler.Files
