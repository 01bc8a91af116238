import TemplateCompiler.Proofs.Files.Steps

/-! # Searching everything beneath a directory

A pattern may be made of the path of a directory, of `**` and of a star before an ending. As long as
no character of the path is a wildcard, the pattern leads to this directory alone, and it finds
exactly what is beneath and has the ending.
-/
namespace TemplateCompiler.Files
open Text

/-! ## Patterns without wildcards -/

def IsLiteral (c : Char) : Prop := c ≠ '?' ∧ c ≠ '*' ∧ c ≠ '['

theorem tokensFrom_cons {c : Char} (h : IsLiteral c) (position : Nat) (previous : Option Char)
    (rest : List Char) :
    tokensFrom position previous (c :: rest) =
      (tokensFrom (position + 1) (some c) rest).map (.char c :: ·) := by
  obtain ⟨hany, htext, hset⟩ := h
  rw [tokensFrom]
  · exact fun heq => hany heq
  · exact fun _ heq => absurd heq htext
  · exact fun _ heq => absurd heq htext
  · exact fun heq => htext heq
  · exact fun heq => hset heq

theorem tokensFrom_append {chars : List Char} (h : ∀ c ∈ chars, IsLiteral c) (position : Nat)
    (previous : Option Char) (rest : List Char) :
    tokensFrom position previous (chars ++ rest) =
      (tokensFrom (position + chars.length) (chars.getLast?.or previous) rest).map
        (chars.map .char ++ ·) := by
  induction chars generalizing position previous with
  | nil =>
    change _ = (tokensFrom position previous rest).map id
    rw [Except.map_id]
    rfl
  | cons c chars ih =>
    obtain ⟨hc, hchars⟩ := List.forall_mem_cons.1 h
    have hlast : (c :: chars).getLast?.or previous = chars.getLast?.or (some c) := by
      cases chars with
      | nil => rfl
      | cons d chars => rfl
    rw [List.cons_append, tokensFrom_cons hc, ih hchars, hlast, List.length_cons,
      Nat.add_right_comm, Nat.add_assoc]
    cases tokensFrom (position + (chars.length + 1)) (chars.getLast?.or (some c)) rest with
    | error e => rfl
    | ok found => rfl

theorem tokens_of_isLiteral {chars : List Char} (h : ∀ c ∈ chars, IsLiteral c) :
    tokens chars = .ok (chars.map .char) := by
  have happend := tokensFrom_append h 0 none []
  rw [List.append_nil, tokensFrom] at happend
  rw [tokens, happend]
  exact congrArg Except.ok (List.append_nil _)

theorem ofTokens_map_char (name : String) :
    PatternPart.ofTokens (name.toList.map .char) = .literal name := by
  have hmap : ∀ chars : List Char, (chars.map Token.char).mapM Token.literal? = some chars := by
    intro chars
    induction chars with
    | nil => rfl
    | cons c chars ih =>
      rw [List.map_cons, List.mapM_cons, ih]
      rfl
  have hone : name.toList.map Token.char ≠ [.directories] := by
    cases name.toList with
    | nil => exact nofun
    | cons c chars => exact nofun
  rw [PatternPart.ofTokens, if_neg hone, hmap]
  change PatternPart.literal (String.ofList name.toList) = _
  rw [String.ofList_toList]

def beneathEnding : List Char := ['*', '*', '/', '*', '.', 'h', 't', 'm', 'l']

def beneathParts : List PatternPart :=
  [.directories, .wild (.text :: ['.', 'h', 't', 'm', 'l'].map .char)]

theorem tokens_beneath {chars : List Char} (h : ∀ c ∈ chars, IsLiteral c) :
    ∃ found, tokens (chars ++ '/' :: beneathEnding) = .ok found := by
  have hslash : ∀ c ∈ chars ++ ['/'], IsLiteral c :=
    List.forall_mem_append.2 ⟨h, by simp [IsLiteral]⟩
  have hall := tokensFrom_append hslash 0 none beneathEnding
  have hend : ∀ position, ∃ found, tokensFrom position (some '/') beneathEnding = .ok found := by
    simp [beneathEnding, tokensFrom, Except.map]
  obtain ⟨found, hfound⟩ := hend (0 + (chars ++ ['/']).length)
  rw [List.append_assoc, List.singleton_append, List.getLast?_concat, Option.some_or,
    hfound] at hall
  exact ⟨_, hall⟩

theorem partTexts_beneath (chars : List Char) :
    partTexts (chars ++ '/' :: beneathEnding) = pieces '/' chars ++
      [['*', '*'], ['*', '.', 'h', 't', 'm', 'l']] := by
  have hend : pieces '/' beneathEnding = [['*', '*'], ['*', '.', 'h', 't', 'm', 'l']] := by decide
  have hlast : (pieces '/' chars ++ [['*', '*'], ['*', '.', 'h', 't', 'm', 'l']]).getLast? =
      some ['*', '.', 'h', 't', 'm', 'l'] := by
    rw [List.getLast?_append_of_ne_nil _ (by decide)]
    rfl
  rw [partTexts_eq, pieces_append, hend, hlast]
  rfl

theorem mapM_tokens {names : List String} (h : ∀ name ∈ names, ∀ c ∈ name.toList, IsLiteral c) :
    ∃ found, (names.map String.toList ++ [['*', '*'], ['*', '.', 'h', 't', 'm', 'l']]).mapM tokens =
      .ok found ∧
      found.map PatternPart.ofTokens = names.map .literal ++ beneathParts := by
  induction names with
  | nil =>
    refine ⟨[[.directories], .text :: ['.', 'h', 't', 'm', 'l'].map .char], ?_, by decide⟩
    simp [tokens, tokensFrom, Except.map]
    rfl
  | cons name names ih =>
    obtain ⟨hname, hnames⟩ := List.forall_mem_cons.1 h
    obtain ⟨found, hfound, hparts⟩ := ih hnames
    refine ⟨name.toList.map .char :: found, ?_, ?_⟩
    · rw [List.map_cons, List.cons_append, List.mapM_cons, tokens_of_isLiteral hname, hfound]
      rfl
    · rw [List.map_cons, List.map_cons, ofTokens_map_char, hparts, List.cons_append]

/-! ## The pattern of a directory -/

def patternNames (absolute : Bool) (names : List String) : List String :=
  if !absolute && names.isEmpty then ["."] else names

theorem patternNames_of_ne_nil (absolute : Bool) {names : List String} (hne : names ≠ []) :
    patternNames absolute names = names := by
  obtain ⟨name, rest, rfl⟩ := List.exists_cons_of_ne_nil hne
  rw [patternNames, List.isEmpty_cons, Bool.and_false]
  rfl

/-- Names between slashes do not start with a slash. -/
theorem dropWhile_intercalate {names : List String} (hn : ∀ name ∈ names, IsStep name)
    (hne : names ≠ []) (behind : List Char) :
    (['/'].intercalate (names.map String.toList) ++ behind).dropWhile (· = '/') =
      ['/'].intercalate (names.map String.toList) ++ behind := by
  obtain ⟨name, rest, rfl⟩ := List.exists_cons_of_ne_nil hne
  have hname := hn name List.mem_cons_self
  obtain ⟨c, chars, hchars⟩ := List.exists_cons_of_ne_nil fun hnil =>
    hname.ne_empty (String.toList_eq_nil_iff.1 hnil)
  have hslash : c ≠ '/' := by
    rintro rfl
    exact hname.2 (by rw [hchars]; exact List.mem_cons_self)
  obtain ⟨more, hmore⟩ : ∃ more, ['/'].intercalate ((name :: rest).map String.toList) =
      c :: more := by
    cases rest with
    | nil => exact ⟨chars, by rw [List.map_singleton, List.intercalate_singleton, hchars]⟩
    | cons second rest =>
      exact ⟨_, by rw [List.map_cons, List.map_cons, List.intercalate_cons_cons, hchars]; rfl⟩
  rw [hmore, List.cons_append, List.dropWhile_cons_of_neg (by simpa using hslash)]

theorem body_shown (absolute : Bool) {names : List String} (hn : ∀ name ∈ names, IsStep name) :
    partTexts (((Path.shown absolute names).text.toList ++ '/' :: beneathEnding).dropWhile
      (· = '/')) =
        (patternNames absolute names).map String.toList ++
          [['*', '*'], ['*', '.', 'h', 't', 'm', 'l']] ∧
      decide ((((Path.shown absolute names).text.toList ++ '/' :: beneathEnding).dropWhile
        (· = '/')).length <
        ((Path.shown absolute names).text.toList ++ '/' :: beneathEnding).length) = absolute := by
  by_cases hne : names = []
  · subst hne
    cases absolute with
    | true => decide +kernel
    | false => decide +kernel
  · have hpieces : pieces '/' (['/'].intercalate (names.map String.toList)) =
        names.map String.toList := by
      refine pieces_intercalate (fun row hrow => ?_) (by simpa using hne)
      obtain ⟨name, hname, rfl⟩ := List.mem_map.1 hrow
      exact (hn name hname).2
    have hdrop := dropWhile_intercalate hn hne ('/' :: beneathEnding)
    rw [patternNames_of_ne_nil absolute hne, Path.shown_of_ne_nil absolute hne, Path.toList_text,
      Path.segments_ofSteps absolute hn hne]
    cases absolute with
    | true =>
      have hroot : ['/'].intercalate (([""] ++ names).map String.toList) =
          '/' :: ['/'].intercalate (names.map String.toList) := by
        obtain ⟨name, rest, rfl⟩ := List.exists_cons_of_ne_nil hne
        rfl
      rw [if_pos rfl, hroot, List.cons_append, List.dropWhile_cons_of_pos (by decide), hdrop,
        partTexts_beneath, hpieces, List.length_cons]
      exact ⟨rfl, decide_eq_true (Nat.lt_succ_self _)⟩
    | false =>
      change partTexts ((['/'].intercalate (names.map String.toList) ++ _).dropWhile _) = _ ∧
        decide (((['/'].intercalate (names.map String.toList) ++ _).dropWhile _).length <
          (['/'].intercalate (names.map String.toList) ++ _).length) = false
      rw [hdrop, partTexts_beneath, hpieces]
      exact ⟨rfl, decide_eq_false (Nat.lt_irrefl _)⟩

/-- The pattern of what is beneath a directory, as long as no character of its path is a
wildcard. -/
theorem Pattern.parse_beneath (absolute : Bool) {names : List String}
    (hn : ∀ name ∈ names, IsStep name)
    (hplain : ∀ c ∈ (Path.shown absolute names).text.toList, IsLiteral c) :
    Pattern.parse ((Path.shown absolute names).text ++ "/**/*.html") =
      .ok ⟨(patternNames absolute names).map .literal ++ beneathParts, absolute, false⟩ := by
  have hnames : ∀ name ∈ patternNames absolute names, ∀ c ∈ name.toList, IsLiteral c := by
    by_cases hne : names = []
    · subst hne
      cases absolute with
      | true => simp [patternNames]
      | false => simp [patternNames, IsLiteral]
    · rw [patternNames_of_ne_nil absolute hne]
      intro name hname c hc
      refine hplain c ((Path.sublist_of_mem_segments ?_).subset hc)
      rw [Path.shown_of_ne_nil absolute hne, Path.segments_ofSteps absolute hn hne]
      exact List.mem_append_right _ hname
  have htext : ((Path.shown absolute names).text ++ "/**/*.html").toList =
      (Path.shown absolute names).text.toList ++ '/' :: beneathEnding := by
    rw [String.toList_append]
    rfl
  obtain ⟨whole, hwhole⟩ := tokens_beneath hplain
  obtain ⟨found, hfound, hparts⟩ := mapM_tokens hnames
  obtain ⟨hbody, habsolute⟩ := body_shown absolute hn
  have hlast : ((Path.shown absolute names).text.toList ++ '/' :: beneathEnding).getLast? =
      some 'l' := by
    rw [List.getLast?_append_of_ne_nil _ (List.cons_ne_nil _ _)]
    rfl
  unfold Pattern.parse
  rw [htext]
  refine bind_eq_ok.2 ⟨whole, hwhole,
    bind_eq_ok.2 ⟨found, (congrArg (List.mapM tokens) hbody).trans hfound, ?_⟩⟩
  change Except.ok (Pattern.mk (found.map .ofTokens) (decide _) (decide _)) = _
  rw [hparts, habsolute, hlast]
  rfl

/-! ## The search -/

namespace Store

variable {s : Store}

theorem contains_of_isDirectory {p : Path} (h : s.isDirectory p = true) : s.contains p = true := by
  obtain ⟨here, hlocate, hdirectory⟩ := way_of_isDirectory h
  rw [contains, lookup_of_some hlocate hdirectory]
  rfl

/-- The names of a directory are followed to it. -/
theorem follow_shown (absolute : Bool) {front names : List String}
    (hn : ∀ name ∈ front ++ names, IsStep name)
    (h : s.isDirectory (Path.shown absolute (front ++ names)) = true) (rest : List PatternPart) :
    s.follow (names.map .literal ++ rest) (Path.shown absolute front) =
      s.follow rest (Path.shown absolute (front ++ names)) := by
  induction names generalizing front with
  | nil => rw [List.append_nil, List.map_nil, List.nil_append]
  | cons name names ih =>
    rw [List.append_cons] at hn h ⊢
    obtain ⟨hname, -⟩ := List.forall_mem_append.1 hn
    obtain ⟨hfront, hstep⟩ := List.forall_mem_append.1 hname
    have hnext : entryPath (Path.shown absolute front) name =
        Path.shown absolute (front ++ [name]) :=
      entryPath_shown absolute hfront
    have hthere := isDirectory_front hn h
    rw [List.map_cons, List.cons_append, ← ih hn h]
    by_cases hup : name = ".."
    · rw [hup] at hnext ⊢
      rw [follow_up (isDirectory_front hname hthere), hnext]
    · have hdot : name ≠ "." := by
        rintro rfl
        exact absurd (hstep "." (List.mem_singleton_self _)).1 (by decide)
      rw [follow_name ⟨hdot, hup⟩ (by rw [hnext]; exact contains_of_isDirectory hthere), hnext]

theorem follow_patternNames (absolute : Bool) {names : List String}
    (hn : ∀ name ∈ names, IsStep name) (h : s.isDirectory (Path.shown absolute names) = true)
    (rest : List PatternPart) :
    s.follow ((patternNames absolute names).map .literal ++ rest) (Path.shown absolute []) =
      s.follow rest (Path.shown absolute names) := by
  by_cases hdot : absolute = false ∧ names = []
  · obtain ⟨rfl, rfl⟩ := hdot
    have hstay : entryPath ⟨"."⟩ "." = ⟨"."⟩ := rfl
    have hthere : s.isDirectory ⟨"."⟩ = true := rfl
    change s.follow (.literal "." :: rest) ⟨"."⟩ = s.follow rest ⟨"."⟩
    simp [follow, hstay, hthere]
  · have hnames : patternNames absolute names = names := by
      refine if_neg ?_
      rwa [Bool.and_eq_true, Bool.not_eq_true', List.isEmpty_iff]
    rw [hnames]
    exact @follow_shown s absolute [] names hn h rest

theorem fileName?_shown (absolute : Bool) {names : List String} {name : String}
    (hn : ∀ name ∈ names, IsStep name) (hname : IsName name) :
    (Path.shown absolute (names ++ [name])).fileName? = some name := by
  have hall : ∀ other ∈ names ++ [name], IsStep other :=
    List.forall_mem_append.2 ⟨hn, by simpa using hname.isStep⟩
  have hlast : stepOf name = .name name := if_neg hname.2.1
  rw [Path.fileName?, Path.shown_of_ne_nil absolute (by simp),
    Path.components_ofSteps absolute hall, List.map_append, List.map_singleton, ← List.append_assoc,
    List.getLast?_concat, hlast]

/-- What a search for everything with an ending beneath a directory finds. -/
theorem mem_search_beneath (ht : s.IsTree) (absolute : Bool) {names : List String}
    (hn : ∀ name ∈ names, IsStep name) {here : Location}
    (hhere : s.locate (Path.shown absolute names) = .ok here)
    (hdirectory : s.find? here = some .directory) {q : Path} :
    q ∈ s.search ⟨(patternNames absolute names).map .literal ++ beneathParts, absolute, false⟩ ↔
      ∃ front last, s.Descends here (front ++ [last]) ∧
      s.isDirectory (Path.shown absolute (names ++ front)) = true ∧
        ".html".toList <:+ last.toList ∧ q = Path.shown absolute (names ++ (front ++ [last])) := by
  have hthere := isDirectory_of_locate hhere hdirectory
  have hstart : Pattern.start ⟨(patternNames absolute names).map .literal ++ beneathParts,
      absolute, false⟩ =
      Path.shown absolute [] := by
    cases absolute with
    | true => rfl
    | false => rfl
  have hsearch : s.search ⟨(patternNames absolute names).map .literal ++ beneathParts,
      absolute, false⟩ =
      ((s.descendantPaths (Path.shown absolute names)).filter
        (fitsPart (.wild (.text :: ['.', 'h', 't', 'm', 'l'].map .char)))).flatMap
          (s.follow []) := by
    change s.follow _ (Pattern.start _) = _
    rw [hstart, follow_patternNames absolute hn hthere, beneathParts,
      follow_below (by decide) hthere]
  have hbelow : ∀ {front : List String} {last : String}, s.Descends here (front ++ [last]) →
      (front ++ [last]).dropLast.foldl entryPath (Path.shown absolute names) =
        Path.shown absolute (names ++ front) ∧
        (front ++ [last]).foldl entryPath (Path.shown absolute names) =
          Path.shown absolute (names ++ (front ++ [last])) ∧
        (fitsPart (.wild (.text :: ['.', 'h', 't', 'm', 'l'].map .char))
          (Path.shown absolute (names ++ (front ++ [last]))) = true ↔
          ".html".toList <:+ last.toList) := by
    intro front last hdescends
    have hall := hdescends.isStep
    have hfront := (List.forall_mem_append.1 hall).1
    refine ⟨?_, foldl_entryPath_shown absolute hn hall, ?_⟩
    · rw [List.dropLast_concat, foldl_entryPath_shown absolute hn hfront]
    · rw [fitsPart_star, ← List.append_assoc,
        fileName?_shown absolute (List.forall_mem_append.2 ⟨hn, hfront⟩)
          (hdescends.name last (by simp)),
        Option.any_some, List.isSuffixOf_iff_suffix]
      rfl
  have hfollow : ∀ p : Path, s.follow [] p = [p] := fun p => by rw [follow]
  rw [hsearch]
  simp only [List.mem_flatMap, List.mem_filter, hfollow, List.mem_singleton,
    mem_descendantPaths_iff ht]
  constructor
  · rintro ⟨_, ⟨⟨_, behind, hlocate, hne, hdescends, hopen, rfl⟩, hfit⟩, rfl⟩
    cases hhere.symm.trans hlocate
    obtain ⟨front, last, hsplit⟩ := (List.eq_nil_or_concat behind).resolve_left hne
    rw [List.concat_eq_append] at hsplit
    subst hsplit
    obtain ⟨hdirectory, hpath, hending⟩ := hbelow hdescends
    rw [hdirectory] at hopen
    rw [hpath] at hfit ⊢
    exact ⟨front, last, hdescends, hopen, hending.1 hfit, rfl⟩
  · rintro ⟨front, last, hdescends, hopen, hending, rfl⟩
    obtain ⟨hdirectory, hpath, hfit⟩ := hbelow hdescends
    rw [← hdirectory] at hopen
    refine ⟨_, ⟨⟨here, front ++ [last], hhere, by simp, hdescends, hopen, hpath.symm⟩,
      hfit.2 hending⟩, rfl⟩

end Store
end TemplateCompiler.Files
