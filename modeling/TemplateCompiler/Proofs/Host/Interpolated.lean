import TemplateCompiler.Proofs.Host.Quoted
import TemplateCompiler.Proofs.Host.Segments

/-! # Interpolation that stays live

A literal keeps the dollar signs of its text, so the host language evaluates what stands behind
them. It escapes the code between the braces of an interpolation as it does the text around them, so
the code is kept exactly if it has no character to escape.
-/
namespace TemplateCompiler.Host
open Text

structure IsPlain (text : List Char) : Prop where
  dollar : '$' ∉ text
  braceless : Braceless text

/-- Code that may stand in an interpolation: no brace, and neither a line break nor a tab. -/
structure IsInner (code : List Char) : Prop where
  braceless : Braceless code
  unbroken : ∀ c ∈ code, c ≠ '\r' ∧ c ≠ '\n' ∧ c ≠ '\t'

def interpolated (before code after : String) :
    String := before ++ "\x7b$" ++ code ++ "\x7d" ++ after

/-- A literal with the code interpolated as it stands, between literals of the texts around it. -/
def KeepsLive (before code after literal : String) : Prop :=
  ∃ front back, literal = "\"" ++ interpolated front code back ++ "\"" ∧
    literalValue? ("\"" ++ front ++ "\"") = some (withoutReturns before) ∧
    literalValue? ("\"" ++ back ++ "\"") = some (withoutReturns after)

/-! ## Escapes -/

section Live

variable {text : List Char}

theorem mem_of_brace_mem_live {c : Char} (hc : c = '{' ∨ c = '}') (h : c ∈ text.flatMap liveChar) :
    c ∈ text := by
  obtain ⟨d, hd, hlive⟩ := List.mem_flatMap.1 h
  rcases liveChar_cases d with ⟨-, hchar⟩ | ⟨-, e, hchar, he⟩ | ⟨-, hchar, -, -⟩
  · rw [hchar] at hlive
    cases hlive
  · rw [hchar] at hlive
    rcases hc with rfl | rfl
    · obtain rfl : '{' = e := by simpa using hlive
      cases he
    · obtain rfl : '}' = e := by simpa using hlive
      cases he
  · rw [hchar, List.mem_singleton] at hlive
    rwa [hlive]

theorem braceless_live (h : Braceless text) : Braceless (text.flatMap liveChar) :=
  ⟨fun ho => h.1 (mem_of_brace_mem_live (.inl rfl) ho), fun hc =>
    h.2 (mem_of_brace_mem_live (.inr rfl) hc)⟩

theorem length_le_live (h : '\r' ∉ text) : text.length ≤ (text.flatMap liveChar).length := by
  induction text with
  | nil => exact Nat.le_refl _
  | cons c text ih =>
    rw [List.mem_cons, not_or] at h
    have htail := ih h.2
    rw [List.flatMap_cons, List.length_append, List.length_cons]
    rcases liveChar_cases c with ⟨hreturn, -⟩ | ⟨-, e, hchar, -⟩ | ⟨-, hchar, -, -⟩
    · exact absurd hreturn.symm h.1
    · rw [hchar, List.length_cons, List.length_singleton]
      omega
    · rw [hchar, List.length_singleton]
      omega

theorem liveChar_eq_singleton_iff {c : Char} :
    liveChar c = [c] ↔ c ∉ ['\\', '"', '\n', '\t', '\r'] := by
  constructor
  · intro h hc
    simp only [List.mem_cons, List.not_mem_nil, or_false] at hc
    rcases hc with rfl | rfl | rfl | rfl | rfl <;> cases h
  · intro hc
    simp only [List.mem_cons, List.not_mem_nil, or_false, not_or] at hc
    obtain ⟨hbackslash, hquote, hline, htab, hreturn⟩ := hc
    simp [liveChar, hbackslash, hquote, hline, htab, hreturn]

/-- A text stays as it is exactly if each of its characters does, for none of them is dropped. -/
theorem live_eq_self_iff (h : '\r' ∉ text) :
    text.flatMap liveChar = text ↔ ∀ c ∈ text, liveChar c = [c] := by
  induction text with
  | nil => simp
  | cons c text ih =>
    rw [List.mem_cons, not_or] at h
    have htail := length_le_live h.2
    rw [List.flatMap_cons, List.forall_mem_cons, ← ih h.2]
    constructor
    · intro hlive
      have hlength := congrArg List.length hlive
      rw [List.length_append, List.length_cons] at hlength
      rcases liveChar_cases c with ⟨hreturn, -⟩ | ⟨-, e, hchar, -⟩ | ⟨-, hchar, -, -⟩
      · exact absurd hreturn.symm h.1
      · rw [hchar, List.length_cons, List.length_singleton] at hlength
        omega
      · rw [hchar] at hlive
        exact ⟨hchar, (List.cons.inj hlive).2⟩
    · rintro ⟨hchar, hlive⟩
      rw [hchar, hlive]
      rfl

end Live

/-! ## Interpolations -/

section Interpolation

variable {before code after : String}

theorem expression_interpolated (hb : IsPlain before.toList) (hc : Braceless code.toList)
    (ha : IsPlain after.toList) :
    expression (interpolated before code after) = liveLiteral (interpolated before code after) := by
  have hv : isVariable (interpolated before code after) = false := by
    rw [isVariable_eq_false_iff]
    rintro name hvalue ⟨-, hname⟩
    have hbrace : '{' ∈ '$' :: name := by
      rw [← hvalue]
      simp [interpolated]
    have hword := hname '{' (by simpa using hbrace)
    exact absurd hword (by decide)
  have hone : (interpolated before code after).toList.count '{' < 2 := by
    have hbefore := List.count_eq_zero.2 hb.braceless.1
    have hcode := List.count_eq_zero.2 hc.1
    have hafter := List.count_eq_zero.2 ha.braceless.1
    simp [interpolated, hbefore, hcode, hafter]
  exact expression_of_unpaired hv (unpaired_of_count (.inl hone))

/-- Text without a dollar sign is what its escapes stand for. -/
theorem literalValue?_escapeLive {text : String} (h : '$' ∉ text.toList) :
    literalValue? ("\"" ++ escapeLive text ++ "\"") = some (withoutReturns text) := by
  have hlive : "\"" ++ escapeLive text ++ "\"" = staticLiteral text :=
    liveLiteral_eq_staticLiteral h
  rw [hlive, literalValue?_staticLiteral]

/-- The braces tell the code from the text around it, in the value and in the literal. -/
theorem keepsLive_iff (hb : IsPlain before.toList) (hc : Braceless code.toList)
    (ha : IsPlain after.toList) :
    KeepsLive before code after (expression (interpolated before code after)) ↔
      code.toList.flatMap liveChar = code.toList := by
  rw [expression_interpolated hb hc ha]
  constructor
  · rintro ⟨front, back, hliteral, -, -⟩
    have hlive : before.toList.flatMap liveChar ++ '{' :: '$' ::
          (code.toList.flatMap liveChar ++ '}' :: (after.toList.flatMap liveChar ++ ['"'])) =
        front.toList ++ '{' :: '$' :: (code.toList ++ '}' :: (back.toList ++ ['"'])) := by
      simpa [liveLiteral, escapeLive, interpolated, ← String.toList_inj, liveChar] using hliteral
    have hbefore := braceless_live hb.braceless
    have hcode := braceless_live hc
    have hafter := braceless_live ha.braceless
    have hbehind : '{' ∉ '$' ::
        (code.toList.flatMap liveChar ++ '}' :: (after.toList.flatMap liveChar ++ ['"'])) := by
      simp [hcode.1, hafter.1]
    have hend : '}' ∉ after.toList.flatMap liveChar ++ ['"'] := by simp [hafter.2]
    obtain ⟨-, -, hregion⟩ := (List.append_cons_inj_of_notMem hbefore.1 hbehind).1 hlive
    exact ((List.append_cons_inj_of_notMem hcode.2 hend).1 (List.cons.inj hregion).2).1
  · intro hcode
    refine ⟨escapeLive before, escapeLive after, ?_, literalValue?_escapeLive hb.dollar,
      literalValue?_escapeLive ha.dollar⟩
    simp [liveLiteral, escapeLive, interpolated, ← String.toList_inj, hcode, liveChar]

/-- Code in an interpolation stays live exactly if it has neither a double quote nor a backslash. -/
theorem keepsLive_expression_iff (hb : IsPlain before.toList) (hc : IsInner code.toList)
    (ha : IsPlain after.toList) :
    KeepsLive before code after (expression (interpolated before code after)) ↔
      '"' ∉ code.toList ∧ '\\' ∉ code.toList := by
  have hreturn : '\r' ∉ code.toList := fun h => (hc.unbroken '\r' h).1 rfl
  rw [keepsLive_iff hb hc.braceless ha, live_eq_self_iff hreturn]
  constructor
  · intro h
    exact ⟨fun hq => absurd (h '"' hq) (by decide), fun hs => absurd (h '\\' hs) (by decide)⟩
  · rintro ⟨hquote, hbackslash⟩ c hmem
    obtain ⟨hr, hn, ht⟩ := hc.unbroken c hmem
    have hq : c ≠ '"' := fun he => hquote (he ▸ hmem)
    have hs : c ≠ '\\' := fun he => hbackslash (he ▸ hmem)
    rw [liveChar_eq_singleton_iff]
    simp [hq, hs, hr, hn, ht]

end Interpolation

/-- A property and a key in single quotes have nothing to escape. -/
theorem keepsLive_expression_iff_property :
    IsPlain "Hi ".toList ∧ IsInner "user['name']->first".toList ∧ IsPlain "!\r\n".toList ∧
      KeepsLive "Hi " "user['name']->first" "!\r\n"
        (expression (interpolated "Hi " "user['name']->first" "!\r\n")) := by
  have hb : IsPlain "Hi ".toList := ⟨by decide, by decide⟩
  have hc : IsInner "user['name']->first".toList := ⟨by decide, by simp⟩
  have ha : IsPlain "!\r\n".toList := ⟨by decide, by decide⟩
  exact ⟨hb, hc, ha, (keepsLive_expression_iff hb hc ha).2 ⟨by decide, by decide⟩⟩

/-- The quotes of an array key are escaped, so the code in the literal is another one. -/
theorem key_is_escaped :
    IsPlain "".toList ∧ IsInner "a[\"k\"]".toList ∧
      expression (interpolated "" "a[\"k\"]" "") = "\"\x7b$a[\\\"k\\\"]\x7d\"" ∧
      ¬KeepsLive "" "a[\"k\"]" "" (expression (interpolated "" "a[\"k\"]" "")) := by
  have hplain : IsPlain "".toList := ⟨by decide, by decide⟩
  have hinner : IsInner "a[\"k\"]".toList := ⟨by decide, by simp⟩
  refine ⟨hplain, hinner, ?_, ?_⟩
  · rw [expression_interpolated hplain hinner.braceless hplain]
    decide
  · rw [keepsLive_iff hplain hinner.braceless hplain]
    decide

end TemplateCompiler.Host
