import TemplateCompiler.Directive.Iteration
import TemplateCompiler.Proofs.Host.Segments
import TemplateCompiler.Proofs.Text.Trim

/-! # Loop heads with `in`

A head of variables, the word `in` and an iterable is rewritten, and any other head is trimmed.
There is one exception: where two spaces or more and nothing else stand behind `in`, the last of
them is taken for the iterable.
-/
namespace TemplateCompiler.Directive
open Text Host

inductive Declares : List Char → List Char → Prop
  | item {name : List Char} (h : IsName name) : Declares ('$' :: name) ('$' :: name)
  | pair {key value front back : List Char} (hk : IsName key) (hv : IsName value)
  (hf : IsSpaces front)
    (hb : IsSpaces back) :
    Declares ('$' :: key ++ front ++ ',' :: back ++ '$' :: value)
      ('$' :: key ++ " => ".toList ++ '$' :: value)

inductive Names : List Char → List Char → Prop
  | mk {space iterable trail : List Char} (hs : IsSpaces space) (hne : space ≠ [])
    (hi : IsTrimmed iterable) (ht : IsSpaces trail) : Names (space ++ iterable ++ trail) iterable

/-- The text behind `in` is space, of which the last character is taken for an iterable. -/
inductive Lacks : List Char → List Char → Prop
  | mk {space : List Char} {last : Char} (hs : IsSpaces space) (hne : space ≠ [])
    (hl : isSpace last = true) :
    Lacks (space ++ [last]) [last]

/-- What is taken for the iterable. -/
def Takes (behind iterable : List Char) : Prop := Names behind iterable ∨ Lacks behind iterable

/-- A head with `in`, and the loop head for it, when `source` tells the iterable by the text behind
`in`. -/
inductive Rewrites (source : List Char → List Char → Prop) : List Char → List Char → Prop
  | mk {lead declared written space behind iterable : List Char} (hl : IsSpaces lead)
    (hd : Declares declared written) (hs : IsSpaces space) (hne : space ≠ [])
    (hi : source behind iterable) :
    Rewrites source (lead ++ declared ++ space ++ ['i', 'n'] ++ behind)
      (iterable ++ " as ".toList ++ written)

/-- The loop head for a head: it is rewritten if it has the form for it, and else trimmed. -/
def Gives (source : List Char → List Char → Prop) (head result : String) : Prop :=
  Rewrites source head.toList result.toList ∨
    (∀ other, ¬Rewrites source head.toList other) ∧ result.toList = trim head.toList

/-! ## Readers -/

section Read

variable {text rest found iterable : List Char}

theorem head?_space {space : List Char} (hs : IsSpaces space) (hne : space ≠ [])
    (rest : List Char) :
    ∀ c ∈ (space ++ rest).head?, isWordChar c = false := by
  obtain ⟨c, space, rfl⟩ := List.exists_cons_of_ne_nil hne
  intro d hd
  cases hd
  exact isWordChar_of_isSpace (hs c List.mem_cons_self)

theorem head?_comma {front : List Char} (hf : IsSpaces front) (rest : List Char) :
    ∀ c ∈ (front ++ ',' :: rest).head?, isWordChar c = false := by
  by_cases hne : front = []
  · subst hne
    intro c hc
    cases hc
    decide
  · exact head?_space hf hne (',' :: rest)

theorem readVariable_eq_some_iff :
    readVariable text = some (found, rest) ↔
      (∃ name, IsName name ∧ found = '$' :: name ∧ text = found ++ rest) ∧
        ∀ c ∈ rest.head?, isWordChar c = false := by
  constructor
  · intro h
    unfold readVariable at h
    split at h
    · next text =>
      split at h
      · cases h
      · next hne =>
        cases h
        refine ⟨⟨_, ⟨hne, of_mem_takeWhile⟩, rfl, ?_⟩, head?_dropWhile isWordChar text⟩
        rw [List.cons_append, List.takeWhile_append_dropWhile]
    · cases h
  · rintro ⟨⟨name, hname, rfl, rfl⟩, hrest⟩
    obtain ⟨htake, hdrop⟩ := takeWhile_append_of_head hname.2 hrest
    rw [List.cons_append, readVariable, htake, hdrop]
    split
    · exact absurd rfl hname.1
    · rfl

theorem readSecondVariable_eq_some_iff :
    readSecondVariable text = some (found, rest) ↔
      (∃ front back name, IsSpaces front ∧ IsSpaces back ∧ IsName name ∧ found = '$' :: name ∧
          text = front ++ ',' :: back ++ found ++ rest) ∧
        ∀ c ∈ rest.head?, isWordChar c = false := by
  constructor
  · intro h
    obtain ⟨front, hfront, htext⟩ := exists_lead text
    unfold readSecondVariable at h
    split at h
    · next behind hbehind =>
      obtain ⟨back, hback, hspace⟩ := exists_lead behind
      obtain ⟨⟨name, hname, hfound, hrest⟩, hhead⟩ := readVariable_eq_some_iff.1 h
      refine ⟨⟨front, back, name, hfront, hback, hname, hfound, ?_⟩, hhead⟩
      rw [htext, hbehind, hspace, hrest]
      simp
    · cases h
  · rintro ⟨⟨front, back, name, hfront, hback, hname, rfl, rfl⟩, hrest⟩
    have htext : front ++ ',' :: back ++ '$' :: name ++ rest =
        front ++ ',' :: (back ++ '$' :: (name ++ rest)) := by
      simp
    rw [htext, readSecondVariable, trimStart_cons hfront (by decide)]
    simp only
    rw [trimStart_cons hback (by decide), ← List.cons_append, readVariable_eq_some_iff]
    exact ⟨⟨name, hname, rfl, rfl⟩, hrest⟩

theorem trimStart_in {space : List Char} (hs : IsSpaces space) (behind : List Char) :
    trimStart (space ++ ['i', 'n'] ++ behind) = ['i', 'n'] ++ behind := by
  rw [List.append_assoc]
  exact trimStart_cons hs (by decide) ('n' :: behind)

theorem readSecondVariable_in {space : List Char} (hs : IsSpaces space) (behind : List Char) :
    readSecondVariable (space ++ ['i', 'n'] ++ behind) = none := by
  rw [readSecondVariable, trimStart_in hs]
  rfl

theorem iterable?_of_names (h : Names text iterable) : iterable? text = some iterable := by
  obtain ⟨hs, hne, hi, ht⟩ := h
  next space trail =>
  obtain ⟨c, rest, rfl⟩ := List.exists_cons_of_ne_nil hi.ne_nil
  have hlength := List.length_pos_iff.2 hne
  rw [iterable?, List.append_assoc, List.cons_append, trimStart_cons hs (hi.first c rfl)]
  simp only
  rw [if_pos (by simp only [List.length_append, List.length_cons]; omega), ← List.cons_append,
    trimEnd_append ht hi.last]

theorem iterable?_of_lacks (h : Lacks text iterable) : iterable? text = some iterable := by
  obtain ⟨hs, hne, hl⟩ := h
  next space last =>
  have hspaces : IsSpaces (space ++ [last]) :=
    List.forall_mem_append.2 ⟨hs, List.forall_mem_singleton.2 hl⟩
  obtain ⟨more, c, rfl⟩ := (List.eq_nil_or_concat space).resolve_left hne
  rw [iterable?, trimStart_eq_nil_iff.2 hspaces]
  simp

theorem iterable?_eq_some_iff : iterable? text = some iterable ↔ Takes text iterable := by
  constructor
  · intro h
    unfold iterable? at h
    split at h
    · next hnone =>
      have hspaces := trimStart_eq_nil_iff.1 hnone
      split at h
      · next last c more hreverse =>
        cases h
        obtain rfl := List.reverse_eq_iff.1 hreverse
        rw [List.reverse_cons] at hspaces ⊢
        obtain ⟨hspace, hlast⟩ := List.forall_mem_append.1 hspaces
        exact .inr (.mk hspace (by simp) (hlast last List.mem_cons_self))
      · cases h
    · next hvisible =>
      split at h
      · next hlength =>
        cases h
        obtain ⟨space, hspace, hne, htext⟩ := exists_lead_of_lt hlength
        obtain ⟨trail, htrail, hrest⟩ := exists_trail (trimStart text)
        have htrimmed := isTrimmed_trimEnd hvisible (head?_dropWhile isSpace text)
        have hnames := Names.mk hspace hne htrimmed htrail
        rw [List.append_assoc, ← hrest, ← htext] at hnames
        exact .inl hnames
      · cases h
  · rintro (h | h)
    · exact iterable?_of_names h
    · exact iterable?_of_lacks h

theorem source?_eq_some_iff :
    source? text = some iterable ↔
      ∃ space behind, IsSpaces space ∧ space ≠ [] ∧ text = space ++ ['i', 'n'] ++ behind ∧
        Takes behind iterable := by
  constructor
  · intro h
    unfold source? at h
    split at h
    · next behind hin =>
      rw [dropPrefix?_eq_some_iff] at hin
      split at h
      · next hlength =>
        obtain ⟨space, hspace, hne, htext⟩ := exists_lead_of_lt hlength
        exact ⟨space, behind, hspace, hne, by rw [htext, hin, List.append_assoc],
          iterable?_eq_some_iff.1 h⟩
      · cases h
    · cases h
  · rintro ⟨space, behind, hs, hne, rfl, h⟩
    have hlength := List.length_pos_iff.2 hne
    rw [source?, trimStart_in hs, dropPrefix?_eq_some_iff.2 rfl]
    simp only
    rw [if_pos (by simp only [List.length_append]; omega), iterable?_eq_some_iff.2 h]

theorem inHead?_of_one {key : List Char} (hk : readVariable (trimStart text) = some (key, rest))
    (hnone : readSecondVariable rest = none) :
    inHead? text = (source? rest).map (· ++ " as ".toList ++ key) := by
  rw [inHead?, hk]
  simp only
  rw [hnone]

theorem inHead?_of_two {key value behind : List Char}
    (hk : readVariable (trimStart text) = some (key, rest))
    (hv : readSecondVariable rest = some (value, behind)) :
    inHead? text = (source? behind).map (· ++ " as ".toList ++ key ++ " => ".toList ++ value) := by
  rw [inHead?, hk]
  simp only
  rw [hv]

theorem inHead?_item {lead name : List Char} (hl : IsSpaces lead) (hname : IsName name)
    (hrest : ∀ c ∈ rest.head?, isWordChar c = false) (hnone : readSecondVariable rest = none) :
    inHead? (lead ++ '$' :: (name ++ rest)) =
      (source? rest).map (· ++ " as ".toList ++ '$' :: name) := by
  refine inHead?_of_one ?_ hnone
  rw [trimStart_cons hl (by decide), readVariable_eq_some_iff]
  exact ⟨⟨name, hname, rfl, rfl⟩, hrest⟩

theorem inHead?_pair {lead key value front back : List Char} (hl : IsSpaces lead) (hk : IsName key)
    (hv : IsName value) (hf : IsSpaces front) (hb : IsSpaces back)
    (hrest : ∀ c ∈ rest.head?, isWordChar c = false) :
    inHead? (lead ++ '$' :: (key ++ (front ++ ',' :: back ++ '$' :: value ++ rest))) =
      (source? rest).map (· ++ " as ".toList ++ '$' :: key ++ " => ".toList ++ '$' :: value) := by
  refine inHead?_of_two ?_
    (readSecondVariable_eq_some_iff.2 ⟨⟨front, back, value, hf, hb, hv, rfl, rfl⟩, hrest⟩)
  rw [trimStart_cons hl (by decide), readVariable_eq_some_iff]
  refine ⟨⟨key, hk, rfl, rfl⟩, ?_⟩
  rw [List.append_assoc, List.append_assoc, List.cons_append]
  exact head?_comma hf _

theorem inHead?_declared {lead declared written space : List Char} (hl : IsSpaces lead)
    (hd : Declares declared written) (hs : IsSpaces space) (hne : space ≠ []) (behind : List Char) :
    inHead? (lead ++ declared ++ space ++ ['i', 'n'] ++ behind) =
      (source? (space ++ ['i', 'n'] ++ behind)).map (· ++ " as ".toList ++ written) := by
  have hrest : ∀ c ∈ (space ++ ['i', 'n'] ++ behind).head?, isWordChar c = false := by
    rw [List.append_assoc]
    exact head?_space hs hne _
  cases hd with
  | item hname =>
    have h := inHead?_item hl hname hrest (readSecondVariable_in hs behind)
    simpa only [List.append_assoc, List.cons_append] using h
  | pair hk hv hf hb =>
    have h := inHead?_pair hl hk hv hf hb hrest
    simpa only [List.append_assoc, List.cons_append] using h

theorem rewrites_of_inHead? {result : List Char} (h : inHead? text = some result) :
    Rewrites Takes text result := by
  obtain ⟨lead, hlead, htext⟩ := exists_lead text
  cases hkey : readVariable (trimStart text) with
  | none =>
    rw [inHead?, hkey] at h
    cases h
  | some read =>
    obtain ⟨key, rest⟩ := read
    obtain ⟨⟨name, hname, rfl, hrest⟩, -⟩ := readVariable_eq_some_iff.1 hkey
    cases hsecond : readSecondVariable rest with
    | none =>
      rw [inHead?_of_one hkey hsecond] at h
      obtain ⟨iterable, hsource, rfl⟩ := Option.map_eq_some_iff.1 h
      obtain ⟨space, behind, hs, hne, rfl, htakes⟩ := source?_eq_some_iff.1 hsource
      have hrewrites := Rewrites.mk hlead (.item hname) hs hne htakes
      rw [htext, hrest]
      simpa only [List.append_assoc, List.cons_append] using hrewrites
    | some read =>
      obtain ⟨value, behind⟩ := read
      obtain ⟨⟨front, back, second, hf, hb, hn, rfl, rfl⟩, -⟩ :=
        readSecondVariable_eq_some_iff.1 hsecond
      rw [inHead?_of_two hkey hsecond] at h
      obtain ⟨iterable, hsource, rfl⟩ := Option.map_eq_some_iff.1 h
      obtain ⟨space, behind, hs, hne, rfl, htakes⟩ := source?_eq_some_iff.1 hsource
      have hrewrites := Rewrites.mk hlead (.pair hname hn hf hb) hs hne htakes
      rw [htext, hrest]
      simpa only [List.append_assoc, List.cons_append] using hrewrites

/-- A head is rewritten with the iterable named behind `in`, or with space where none is. -/
theorem inHead?_eq_some_iff {result : List Char} :
    inHead? text = some result ↔ Rewrites Takes text result := by
  constructor
  · exact rewrites_of_inHead?
  · rintro ⟨hl, hd, hs, hne, htakes⟩
    rw [inHead?_declared hl hd hs hne, source?_eq_some_iff.2 ⟨_, _, hs, hne, rfl, htakes⟩]
    rfl

end Read

/-! ## Rewritten heads -/

section Rewrite

variable {source other : List Char → List Char → Prop} {text result : List Char}

theorem Rewrites.mono (h : ∀ behind iterable, source behind iterable → other behind iterable)
    (hr : Rewrites source text result) : Rewrites other text result := by
  obtain ⟨hl, hd, hs, hne, hi⟩ := hr
  exact .mk hl hd hs hne (h _ _ hi)

theorem rewrites_takes_iff :
    Rewrites Takes text result ↔ Rewrites Names text result ∨ Rewrites Lacks text result := by
  constructor
  · rintro ⟨hl, hd, hs, hne, hi | hi⟩
    · exact .inl (.mk hl hd hs hne hi)
    · exact .inr (.mk hl hd hs hne hi)
  · rintro (h | h)
    · exact h.mono fun _ _ => .inl
    · exact h.mono fun _ _ => .inr

theorem head?_of_names (h : Rewrites Names text result) :
    ∃ c ∈ result.head?, isSpace c = false := by
  obtain ⟨-, -, -, -, ⟨-, -, hi, -⟩⟩ := h
  next iterable _ =>
  obtain ⟨c, rest, rfl⟩ := List.exists_cons_of_ne_nil hi.ne_nil
  exact ⟨c, rfl, hi.first c rfl⟩

theorem head?_of_lacks (h : Rewrites Lacks text result) : ∃ c ∈ result.head?, isSpace c = true := by
  obtain ⟨-, -, -, -, ⟨-, -, hl⟩⟩ := h
  exact ⟨_, rfl, hl⟩

/-- A head is rewritten in one way, so it cannot both name an iterable and lack one. -/
theorem not_lacks_of_names {lacking : List Char} (h : Rewrites Names text result) :
    ¬Rewrites Lacks text lacking := by
  intro hl
  have hnames := inHead?_eq_some_iff.2 (rewrites_takes_iff.2 (.inl h))
  have hlacks := inHead?_eq_some_iff.2 (rewrites_takes_iff.2 (.inr hl))
  rw [hnames, Option.some.injEq] at hlacks
  subst hlacks
  obtain ⟨c, hc, hvisible⟩ := head?_of_names h
  obtain ⟨d, hd, hspace⟩ := head?_of_lacks hl
  rw [Option.mem_unique hc hd, hspace] at hvisible
  cases hvisible

end Rewrite

section Head

variable {head : String} {rewritten : List Char}

theorem loopHead_of_rewrites (h : Rewrites Takes head.toList rewritten) :
    (loopHead head).toList = rewritten := by
  rw [loopHead, inHead?_eq_some_iff.2 h, String.toList_ofList]

theorem loopHead_of_not_rewrites (h : ∀ other, ¬Rewrites Takes head.toList other) :
    (loopHead head).toList = trim head.toList := by
  have hnone : inHead? head.toList = none := by
    rw [Option.eq_none_iff_forall_ne_some]
    intro other hother
    exact h other (inHead?_eq_some_iff.1 hother)
  rw [loopHead, hnone, String.toList_ofList]

theorem gives_takes_iff {result : String} : Gives Takes head result ↔ loopHead head = result := by
  constructor
  · rintro (h | ⟨hnone, htrim⟩)
    · exact String.toList_inj.1 (loopHead_of_rewrites h)
    · exact String.toList_inj.1 ((loopHead_of_not_rewrites hnone).trans htrim.symm)
  · rintro rfl
    by_cases h : ∃ rewritten, Rewrites Takes head.toList rewritten
    · obtain ⟨rewritten, h⟩ := h
      exact .inl (loopHead_of_rewrites h ▸ h)
    · rw [not_exists] at h
      exact .inr ⟨h, loopHead_of_not_rewrites h⟩

theorem gives_names_iff :
    Gives Names head (loopHead head) ↔ ∀ rewritten, ¬Rewrites Lacks head.toList rewritten := by
  constructor
  · rintro (h | ⟨-, htrim⟩) rewritten hl
    · exact not_lacks_of_names h hl
    · rw [loopHead_of_rewrites (rewrites_takes_iff.2 (.inr hl))] at htrim
      obtain ⟨c, hc, hspace⟩ := head?_of_lacks hl
      rw [head?_trim head.toList c (htrim ▸ hc)] at hspace
      cases hspace
  · intro hlacks
    rcases gives_takes_iff.2 rfl with h | ⟨hnone, htrim⟩
    · rcases rewrites_takes_iff.1 h with h | h
      · exact .inl h
      · exact absurd h (hlacks _)
    · exact .inr ⟨fun other h => hnone other (rewrites_takes_iff.2 (.inl h)), htrim⟩

end Head

/-- The loop head for a head is written for what is taken for its iterable. It is the one for the
iterable that the head names unless there is none, but space instead. -/
theorem gives_loopHead (head : String) :
    (∀ result, loopHead head = result ↔ Gives Takes head result) ∧
      (Gives Names head (loopHead head) ↔ ∀ rewritten, ¬Rewrites Lacks head.toList rewritten) :=
  ⟨fun _ => gives_takes_iff.symm, gives_names_iff⟩

/-- The first `in` counts, and space around the iterable is left out. -/
example : loopHead "\n$k ,$v in  in $m " = "in $m as $k => $v" := by decide

/-- The last of two spaces behind `in` becomes the iterable of a head that names none. -/
theorem space_is_iterable :
    loopHead "$a in  " = "  as $a" ∧ Gives Names "$a in  " "$a in" ∧
      ¬Gives Names "$a in  " (loopHead "$a in  ") := by
  have hname : IsName ['a'] := ⟨List.cons_ne_nil _ _, List.forall_mem_singleton.2 (by decide)⟩
  have hspace : IsSpaces [' '] := List.forall_mem_singleton.2 (by decide)
  have hlacks : Rewrites Lacks ([] ++ ['$', 'a'] ++ [' '] ++ ['i', 'n'] ++ ([' '] ++ [' ']))
      ([' '] ++ " as ".toList ++ ['$', 'a']) :=
    .mk (List.forall_mem_nil _) (.item hname) hspace (List.cons_ne_nil _ _)
      (.mk hspace (List.cons_ne_nil _ _) (by decide))
  have htrim : trim "$a in  ".toList = "$a in".toList := by with_unfolding_all rfl
  refine ⟨by decide, .inr ⟨?_, htrim.symm⟩, ?_⟩
  · intro rewritten h
    exact not_lacks_of_names h hlacks
  · rw [gives_names_iff]
    intro h
    exact h _ hlacks

end TemplateCompiler.Directive
