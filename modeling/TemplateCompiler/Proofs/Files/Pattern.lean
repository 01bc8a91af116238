import TemplateCompiler.Fault
import TemplateCompiler.Files.Pattern
import TemplateCompiler.Proofs.Text.Pieces

/-! # The parts of a pattern

A pattern is split at its slashes, so no part without wildcards has a slash in it.
-/
namespace TemplateCompiler.Files
open Text

/-! ## Fitting names -/

theorem fits_chars {chars name : List Char} : fits (chars.map .char) name = true ↔
    name = chars := by
  induction chars generalizing name with
  | nil => simp [fits]
  | cons c chars ih =>
    cases name with
    | nil => simp [fits]
    | cons d name =>
      rw [List.map_cons, fits, Bool.and_eq_true, ih, decide_eq_true_eq, List.cons.injEq]
      exact and_congr_left' eq_comm

theorem fits_text {rest : List Token} {name : List Char} :
    fits (.text :: rest) name = true ↔ ∃ back, back <:+ name ∧ fits rest back = true := by
  induction name with
  | nil => simp [fits]
  | cons c name ih =>
    rw [fits, Bool.or_eq_true, ih]
    constructor
    · rintro (h | ⟨back, hback, h⟩)
      · exact ⟨c :: name, List.suffix_rfl, h⟩
      · exact ⟨back, hback.trans (List.suffix_cons c name), h⟩
    · rintro ⟨back, hback, h⟩
      rcases List.suffix_cons_iff.1 hback with rfl | hback
      · exact .inl h
      · exact .inr ⟨back, hback, h⟩

/-- A star before characters stands for what comes before them. -/
theorem fits_star {chars name : List Char} : fits (.text :: chars.map .char) name = true ↔
    chars <:+ name := by
  rw [fits_text]
  constructor
  · rintro ⟨back, hback, h⟩
    rwa [← fits_chars.1 h]
  · intro h
    exact ⟨chars, h, fits_chars.2 rfl⟩

/-! ## Parts -/

def PatternPart.IsPlain : PatternPart → Prop
  | literal name => '/' ∉ name.toList
  | directories => True
  | wild _ => True

theorem readSet_subset {text rest : List Char} {token : Token} {n : Nat}
    (h : readSet text = some (token, n, rest)) :
    rest ⊆ text := by
  unfold readSet at h
  split at h
  · next c behind =>
    obtain ⟨⟨set, r⟩, hcut, he⟩ := Option.map_eq_some_iff.1 h
    cases he
    rw [eq_of_cut? hcut]
    exact fun d hd => by simp [hd]
  · cases h
  · next c behind _ =>
    obtain ⟨⟨set, r⟩, hcut, he⟩ := Option.map_eq_some_iff.1 h
    cases he
    rw [eq_of_cut? hcut]
    exact fun d hd => by simp [hd]
  · cases h

theorem not_char_of_readSet {text rest : List Char} {token : Token} {n : Nat}
    (h : readSet text = some (token, n, rest)) (c : Char) : token ≠ .char c := by
  rintro rfl
  unfold readSet at h
  split at h
  · obtain ⟨_, _, he⟩ := Option.map_eq_some_iff.1 h
    cases he
  · cases h
  · obtain ⟨_, _, he⟩ := Option.map_eq_some_iff.1 h
    cases he
  · cases h

theorem mem_of_map_cons {x : Except PatternError (List Token)} {token : Token}
    {found : List Token} {c : Char} (h : x.map (token :: ·) = .ok found) (hc : .char c ∈ found) :
    token = .char c ∨ ∃ rest, x = .ok rest ∧ .char c ∈ rest := by
  cases x with
  | error e => cases h
  | ok rest =>
    cases h
    rcases List.mem_cons.1 hc with hc | hc
    · exact .inl hc.symm
    · exact .inr ⟨rest, rfl, hc⟩

theorem mem_of_tokensFrom {position : Nat} {previous : Option Char} {text : List Char}
    {found : List Token} {c : Char} (h : tokensFrom position previous text = .ok found)
    (hc : .char c ∈ found) : c ∈ text := by
  fun_induction tokensFrom position previous text generalizing found with
  | case1 =>
    cases h
    cases hc
  | case2 _ _ rest ih =>
    rcases mem_of_map_cons h hc with hany | ⟨_, hrest, hmem⟩
    · cases hany
    · exact List.mem_cons_of_mem _ (ih hrest hmem)
  | case4 =>
    cases h
    simp at hc
  | case5 _ _ _ rest _ ih =>
    rcases mem_of_map_cons h hc with hdirectories | ⟨_, hrest, hmem⟩
    · cases hdirectories
    · have hbehind := ih hrest hmem
      simp [hbehind]
  | case8 _ _ rest _ _ ih =>
    rcases mem_of_map_cons h hc with htext | ⟨_, hrest, hmem⟩
    · cases htext
    · exact List.mem_cons_of_mem _ (ih hrest hmem)
  | case10 _ _ rest token length rest' hset _ ih =>
    rcases mem_of_map_cons h hc with hchar | ⟨_, hrest, hmem⟩
    · exact absurd hchar (not_char_of_readSet hset c)
    · exact List.mem_cons_of_mem _ (readSet_subset hset (ih hrest hmem))
  | case11 _ _ d rest _ _ _ _ _ ih =>
    rcases mem_of_map_cons h hc with hchar | ⟨_, hrest, hmem⟩
    · cases hchar
      exact List.mem_cons_self
    · exact List.mem_cons_of_mem _ (ih hrest hmem)
  | _ => cases h

theorem char_mem_of_literal {found : List Token} {name : List Char} {c : Char}
    (h : found.mapM Token.literal? = some name) (hc : c ∈ name) : .char c ∈ found := by
  induction found generalizing name with
  | nil =>
    cases h
    cases hc
  | cons token found ih =>
    rw [List.mapM_cons] at h
    obtain ⟨d, hd, h⟩ := Option.bind_eq_some_iff.1 h
    obtain ⟨rest, hrest, h⟩ := Option.bind_eq_some_iff.1 h
    cases h
    rcases List.mem_cons.1 hc with rfl | hc
    · have htoken : token = .char c := by
        unfold Token.literal? at hd
        split at hd
        · cases hd
          rfl
        · cases hd
      rw [htoken]
      exact List.mem_cons_self
    · exact List.mem_cons_of_mem _ (ih hrest hc)

theorem isPlain_ofTokens {piece : List Char} {found : List Token} (h : tokens piece = .ok found)
    (hp : '/' ∉ piece) :
    (PatternPart.ofTokens found).IsPlain := by
  unfold PatternPart.ofTokens
  split
  · trivial
  · split
    · next name hname =>
      change '/' ∉ (String.ofList name).toList
      rw [String.toList_ofList]
      exact fun hslash => hp (mem_of_tokensFrom h (char_mem_of_literal hname hslash))
    · trivial

theorem mapM_cons_eq_ok {ε α β : Type} {f : α → Except ε β} {a : α} {items : List α}
    {found : List β} (h : (a :: items).mapM f = .ok found) :
    ∃ b rest, f a = .ok b ∧ items.mapM f = .ok rest ∧ found = b :: rest := by
  rw [List.mapM_cons] at h
  obtain ⟨b, hb, h⟩ := bind_eq_ok.1 h
  obtain ⟨rest, hrest, h⟩ := bind_eq_ok.1 h
  cases h
  exact ⟨b, rest, hb, hrest, rfl⟩

theorem exists_mem_of_mapM {ε α β : Type} {f : α → Except ε β} {items : List α}
    {found : List β} {b : β} (h : items.mapM f = .ok found) (hb : b ∈ found) :
    ∃ a ∈ items, f a = .ok b := by
  induction items generalizing found with
  | nil =>
    cases h
    cases hb
  | cons a items ih =>
    obtain ⟨first, rest, hfirst, hrest, rfl⟩ := mapM_cons_eq_ok h
    rcases List.mem_cons.1 hb with rfl | hb
    · exact ⟨a, List.mem_cons_self, hfirst⟩
    · obtain ⟨other, hother, hgives⟩ := ih hrest hb
      exact ⟨other, List.mem_cons_of_mem _ hother, hgives⟩

theorem partTexts_eq (text : List Char) :
    partTexts text =
      if (pieces '/' text).getLast? =
        some [] then (pieces '/' text).dropLast else pieces '/' text :=
  rfl

theorem notMem_of_mem_partTexts {text piece : List Char} (h : piece ∈ partTexts text) :
    '/' ∉ piece := by
  rw [partTexts_eq] at h
  split at h
  · exact notMem_of_mem_pieces (List.dropLast_subset _ h)
  · exact notMem_of_mem_pieces h

theorem partTexts_append {piece : List Char} (hp : '/' ∉ piece) (text : List Char) :
    partTexts (piece ++ '/' :: text) = piece :: partTexts text := by
  obtain ⟨first, rest, hpieces⟩ := List.exists_cons_of_ne_nil (pieces_ne_nil '/' text)
  rw [partTexts_eq, partTexts_eq, pieces_of_notMem hp, hpieces, List.getLast?_cons_cons,
    List.dropLast_cons_cons]
  split
  · rfl
  · rfl

theorem partTexts_star (text : List Char) :
    ∃ first rest, partTexts ('*' :: '.' :: text) = ('*' :: '.' :: first) :: rest := by
  obtain ⟨first, rest, hpieces⟩ := List.exists_cons_of_ne_nil (pieces_ne_nil '/' text)
  have hstar : pieces '/' ('*' :: '.' :: text) = ('*' :: '.' :: first) :: rest := by
    rw [pieces, pieces, hpieces]
    rfl
  rw [partTexts_eq, hstar]
  cases rest with
  | nil => exact ⟨first, [], rfl⟩
  | cons second rest =>
    split
    · exact ⟨first, (second :: rest).dropLast, rfl⟩
    · exact ⟨first, second :: rest, rfl⟩

namespace Pattern

theorem parse_eq_ok {text : String} {pattern : Pattern} (h : Pattern.parse text = .ok pattern) :
    ∃ found, (partTexts (text.toList.dropWhile (· = '/'))).mapM tokens = .ok found ∧
      pattern.parts = found.map .ofTokens ∧
      pattern.absolute = decide ((text.toList.dropWhile (· = '/')).length <
        text.toList.length) := by
  obtain ⟨_, -, h⟩ := bind_eq_ok.1 h
  obtain ⟨found, hfound, h⟩ := bind_eq_ok.1 h
  cases h
  exact ⟨found, hfound, rfl, rfl⟩

theorem isPlain_of_parse {text : String} {pattern : Pattern}
    (h : Pattern.parse text = .ok pattern) :
    ∀ part ∈ pattern.parts, part.IsPlain := by
  obtain ⟨found, hfound, hparts, -⟩ := parse_eq_ok h
  intro part hpart
  rw [hparts] at hpart
  obtain ⟨ts, hts, rfl⟩ := List.mem_map.1 hpart
  obtain ⟨piece, hpiece, htokens⟩ := exists_mem_of_mapM hfound hts
  exact isPlain_ofTokens htokens (notMem_of_mem_partTexts hpiece)

theorem wild_of_star {rest : List Char} {found : List Token}
    (h : tokens ('*' :: '.' :: rest) = .ok found) :
    ∃ wild, PatternPart.ofTokens found = .wild wild := by
  rw [tokens, tokensFrom] at h
  · cases hrest : tokensFrom 1 (some '*') ('.' :: rest) with
    | error e =>
      rw [Nat.zero_add, hrest] at h
      cases h
    | ok behind =>
      rw [Nat.zero_add, hrest] at h
      cases h
      exact ⟨.text :: behind, rfl⟩
  · simp
  · simp

/-- The pattern of what is anywhere below the working directory. -/
theorem parts_of_parse_below {extension : String} {pattern : Pattern}
    (h : Pattern.parse ("." ++ "/**/*." ++ extension) = .ok pattern) :
    (∃ wild rest, pattern.parts = .literal "." :: .directories :: .wild wild :: rest) ∧
    pattern.absolute = false := by
  obtain ⟨found, hfound, hparts, habsolute⟩ := parse_eq_ok h
  obtain ⟨first, rest, hstar⟩ := partTexts_star extension.toList
  have htext : ("." ++ "/**/*." ++ extension).toList =
      ['.'] ++ '/' :: (['*', '*'] ++ '/' :: ('*' :: '.' :: extension.toList)) := by
    rw [String.toList_append, String.toList_append]
    rfl
  have hdrop : ("." ++ "/**/*." ++ extension).toList.dropWhile (· = '/') =
      ("." ++ "/**/*." ++ extension).toList := by
    rw [htext]
    rfl
  rw [hdrop] at hfound habsolute
  rw [htext, partTexts_append (by decide), partTexts_append (by decide), hstar] at hfound
  obtain ⟨here, _, hhere, hfound', rfl⟩ := mapM_cons_eq_ok hfound
  obtain ⟨below, _, hbelow, hfound'', rfl⟩ := mapM_cons_eq_ok hfound'
  obtain ⟨name, behind, hname, -, rfl⟩ := mapM_cons_eq_ok hfound''
  have hdot : tokens ['.'] = .ok [.char '.'] := by simp [tokens, tokensFrom, Except.map]
  have hstars : tokens ['*', '*'] = .ok [.directories] := by simp [tokens, tokensFrom]
  cases hdot.symm.trans hhere
  cases hstars.symm.trans hbelow
  obtain ⟨wild, hwild⟩ := wild_of_star hname
  refine ⟨⟨wild, behind.map .ofTokens, ?_⟩, by simpa using habsolute⟩
  rw [hparts, List.map_cons, List.map_cons, List.map_cons, hwild]
  rfl

end Pattern
end TemplateCompiler.Files
