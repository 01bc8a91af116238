import Mathlib.Logic.Basic
import TemplateCompiler.Proofs.Host.Segments
import TemplateCompiler.Proofs.Text.Trim

/-! # Arguments of an include

An include passes a variable and the code of a value that is one pair of braces as they stand, and
any other value as a literal. Code between double braces is taken if it is not empty and has no
double brace inside, so blank code and code with a single brace are taken as well. These are the
only values whose argument is not the documented one, and the only ones that may pass nothing.
-/
namespace TemplateCompiler.Host
open Text

def Nonblank (text : List Char) : Prop := ∃ c ∈ text, isSpace c = false

instance (text : List Char) : Decidable (Nonblank text) :=
  List.decidableBEx (fun c => isSpace c = false) text

/-- What makes code of the text between double braces. -/
def IsCode (code : List Char) : Prop := Nonblank code ∧ Braceless code

instance (code : List Char) : Decidable (IsCode code) := inferInstanceAs (Decidable (_ ∧ _))

def IsLive (code : List Char) : Prop := code ≠ [] ∧ Braceless code

/-- The argument that a value is documented to give. -/
inductive Exports (value : String) : String → Prop
  | bare {name : List Char} (h : value.toList = '$' :: name) (hn : IsName name) :
    Exports value value
  | code {code : List Char} (h : value.toList = opener ++ code ++ closer) (hc : IsCode code) :
    Exports value (String.ofList (trim code))
  | live {code : List Char} (h : value.toList = ['{', '$'] ++ code ++ ['}']) (hl : IsLive code) :
    Exports value (String.ofList ('$' :: code))
  | literal (hv : ∀ name, value.toList = '$' :: name → ¬IsName name)
    (hc : ∀ code, value.toList = opener ++ code ++ closer → ¬IsCode code)
    (hl : ∀ code, value.toList = ['{', '$'] ++ code ++ ['}'] → ¬IsLive code) :
    Exports value (liveLiteral value)

/-- What is taken for code between double braces. -/
structure IsTaken (code : List Char) : Prop where
  ne_nil : code ≠ []
  unopened : ¬opener <:+: code
  unclosed : ¬closer <:+: code

/-- The value is taken for code that is none. -/
def IsMistaken (value : String) : Prop :=
  ∃ code, value.toList = opener ++ code ++ closer ∧ IsTaken code ∧ ¬IsCode code

theorem nonblank_trim_iff {text : List Char} : Nonblank (trim text) ↔ Nonblank text := by
  constructor
  · rintro ⟨c, hc, hs⟩
    exact ⟨c, (infix_trim text).subset hc, hs⟩
  · rintro ⟨c, hc, hs⟩
    exact ⟨c, mem_trim hc hs, hs⟩

/-! ## Code of a value -/

section Code

variable {value code kept : List Char}

theorem isTaken_of_isCode (h : IsCode code) : IsTaken code := by
  obtain ⟨⟨c, hc, -⟩, hbraces⟩ := h
  refine ⟨List.ne_nil_of_mem hc, fun ho => hbraces.1 ?_, fun hcl => hbraces.2 ?_⟩
  · exact ho.subset List.mem_cons_self
  · exact hcl.subset List.mem_cons_self

theorem isTaken_iff :
    (code ≠ [] && (cut? opener code).isNone && (cut? closer code).isNone) = true ↔
    IsTaken code := by
  have ho : opener ≠ [] := List.cons_ne_nil _ _
  have hc : closer ≠ [] := List.cons_ne_nil _ _
  rw [Bool.and_eq_true, Bool.and_eq_true, decide_eq_true_eq, Option.isNone_iff_eq_none,
    Option.isNone_iff_eq_none, cut?_eq_none_iff ho, cut?_eq_none_iff hc]
  constructor
  · rintro ⟨⟨hne, hopener⟩, hcloser⟩
    exact ⟨hne, hopener, hcloser⟩
  · rintro ⟨hne, hopener, hcloser⟩
    exact ⟨⟨hne, hopener⟩, hcloser⟩

/-- Code between double braces hides what the braces would be alone, whether it is taken or not. -/
theorem wrappedCode?_double_iff :
    wrappedCode? (opener ++ code ++ closer) = some kept ↔ IsTaken code ∧ kept = trim code := by
  have hcode : between? opener closer (opener ++ code ++ closer) = some code :=
    between?_eq_some_iff.2 rfl
  rw [wrappedCode?, hcode]
  simp only
  split
  · next h =>
    rw [isTaken_iff] at h
    rw [Option.some_inj, and_iff_right h, eq_comm]
  · next h =>
    rw [isTaken_iff] at h
    simp [h]

theorem contains_brace_iff : (code.contains '{' || code.contains '}') = true ↔ ¬Braceless code := by
  rw [Bool.or_eq_true, List.contains_iff_mem, List.contains_iff_mem, Braceless, not_and_or,
    not_not, not_not]

theorem wrappedCode?_single_iff (h : ∀ code, value ≠ opener ++ code ++ closer) :
    wrappedCode? value = some kept ↔
      ∃ code, value = ['{', '$'] ++ code ++ ['}'] ∧ IsLive code ∧ kept = '$' :: code := by
  have hnone : between? opener closer value = none := by
    rw [Option.eq_none_iff_forall_ne_some]
    intro code hcode
    exact h code (between?_eq_some_iff.1 hcode)
  rw [wrappedCode?, hnone]
  simp only
  split
  · next c code hcode =>
    rw [between?_eq_some_iff] at hcode
    have hinner : ∀ inner, value = ['{', '$'] ++ inner ++ ['}'] → c :: code = inner := by
      intro inner hvalue
      have hbehind : c :: code ++ ['}'] = inner ++ ['}'] :=
        (List.cons.inj (List.cons.inj (hcode.symm.trans hvalue)).2).2
      exact List.append_cancel_right hbehind
    split
    · next hbrace =>
      rw [contains_brace_iff] at hbrace
      constructor
      · intro hkept
        cases hkept
      · rintro ⟨inner, hvalue, hlive, -⟩
        obtain rfl := hinner inner hvalue
        exact absurd hlive.2 hbrace
    · next hbrace =>
      rw [contains_brace_iff, not_not] at hbrace
      constructor
      · rintro ⟨⟩
        exact ⟨c :: code, hcode, ⟨List.cons_ne_nil c code, hbrace⟩, rfl⟩
      · rintro ⟨inner, hvalue, -, rfl⟩
        obtain rfl := hinner inner hvalue
        rfl
  · next hother =>
    constructor
    · intro hkept
      cases hkept
    · rintro ⟨code, hvalue, hlive, -⟩
      obtain ⟨c, code, rfl⟩ := List.exists_cons_of_ne_nil hlive.1
      have hsingle : between? ['{'] ['}'] value = some ('$' :: c :: code) :=
        between?_eq_some_iff.2 hvalue
      exact absurd hsingle (hother c code)

end Code

/-! ## Arguments -/

section Argument

variable {value : String}

theorem argument_of_isVariable (h : isVariable value = true) : argument (.text value) = value := by
  rw [argument, if_pos h]

theorem argument_of_wrapped {code : List Char} (hv : isVariable value = false)
    (h : wrappedCode? value.toList = some code) : argument (.text value) = String.ofList code := by
  rw [argument, if_neg (by simp [hv]), h]

theorem argument_of_none (hv : isVariable value = false) (h : wrappedCode? value.toList = none) :
    argument (.text value) = liveLiteral value := by
  rw [argument, if_neg (by simp [hv]), h]

theorem nonblank_liveLiteral (value : String) : Nonblank (liveLiteral value).toList :=
  ⟨'"', by simp [liveLiteral], by decide⟩

theorem nonblank_dollar (code : List Char) :
    Nonblank ('$' :: code) := ⟨'$', List.mem_cons_self, by decide⟩

theorem argument_of_taken {code : List Char} (hvalue : value.toList = opener ++ code ++ closer)
    (h : IsTaken code) : argument (.text value) = String.ofList (trim code) := by
  have hv : isVariable value = false := by
    rw [isVariable_eq_false_iff]
    intro name hname
    rw [hvalue] at hname
    cases hname
  have hwrapped : wrappedCode? value.toList = some (trim code) := by
    rw [hvalue, wrappedCode?_double_iff]
    exact ⟨h, rfl⟩
  exact argument_of_wrapped hv hwrapped

/-- The literal of the value has its braces, and what is taken for code has none like them. -/
theorem IsMistaken.not_exports (h : IsMistaken value) :
    ¬Exports value (argument (.text value)) := by
  obtain ⟨code, hvalue, htaken, hcode⟩ := h
  rw [argument_of_taken hvalue htaken]
  -- the argument is an index of `Exports`, so it has to be a variable before the cases
  generalize hout : String.ofList (trim code) = out
  intro hexports
  cases hexports with
  | bare h hn =>
    rw [hvalue] at h
    cases h
  | code h hc =>
    rw [hvalue, List.append_left_inj, List.append_right_inj] at h
    exact hcode (h ▸ hc)
  | live h hl =>
    rw [hvalue] at h
    cases h
  | literal hv hc hl =>
    have hopener : opener <:+: (liveLiteral value).toList := by
      refine ⟨['"'], code.flatMap liveChar ++ closer ++ ['"'], ?_⟩
      simp [liveLiteral, escapeLive, hvalue, opener, closer, liveChar]
    rw [← hout, String.toList_ofList] at hopener
    exact htaken.unopened (hopener.trans (infix_trim code))

theorem exports_of_double {code : List Char} (hv : isVariable value = false)
    (hvalue : value.toList = opener ++ code ++ closer) (h : IsTaken code → IsCode code) :
    Exports value (argument (.text value)) ∧ Nonblank (argument (.text value)).toList := by
  by_cases htaken : IsTaken code
  · rw [argument_of_taken hvalue htaken, String.toList_ofList]
    exact ⟨.code hvalue (h htaken), nonblank_trim_iff.2 (h htaken).1⟩
  · have hwrapped : wrappedCode? value.toList = none := by
      rw [hvalue, Option.eq_none_iff_forall_ne_some]
      intro kept hkept
      exact htaken (wrappedCode?_double_iff.1 hkept).1
    rw [argument_of_none hv hwrapped]
    refine ⟨.literal (isVariable_eq_false_iff.1 hv) ?_ ?_, nonblank_liveLiteral value⟩
    · intro other hother hcode
      rw [hvalue] at hother
      obtain rfl := List.append_cancel_left (List.append_cancel_right hother)
      exact htaken (isTaken_of_isCode hcode)
    · intro other hother
      rw [hvalue] at hother
      cases hother

theorem exports_of_single (hv : isVariable value = false)
    (h : ∀ code, value.toList ≠ opener ++ code ++ closer) :
    Exports value (argument (.text value)) ∧ Nonblank (argument (.text value)).toList := by
  cases hwrapped : wrappedCode? value.toList with
  | some kept =>
    obtain ⟨code, hvalue, hlive, rfl⟩ := (wrappedCode?_single_iff h).1 hwrapped
    rw [argument_of_wrapped hv hwrapped, String.toList_ofList]
    exact ⟨.live hvalue hlive, nonblank_dollar code⟩
  | none =>
    rw [argument_of_none hv hwrapped]
    refine ⟨.literal (isVariable_eq_false_iff.1 hv) ?_ ?_, nonblank_liveLiteral value⟩
    · intro code hvalue
      exact absurd hvalue (h code)
    · intro code hvalue hlive
      rw [(wrappedCode?_single_iff h).2 ⟨code, hvalue, hlive, rfl⟩] at hwrapped
      cases hwrapped

theorem exports_argument (h : ¬IsMistaken value) :
    Exports value (argument (.text value)) ∧ Nonblank (argument (.text value)).toList := by
  by_cases hv : isVariable value = true
  · obtain ⟨name, hvalue, hname⟩ := isVariable_iff.1 hv
    rw [argument_of_isVariable hv]
    exact ⟨.bare hvalue hname, hvalue ▸ nonblank_dollar name⟩
  · rw [Bool.not_eq_true] at hv
    by_cases hdouble : ∃ code, value.toList = opener ++ code ++ closer
    · obtain ⟨code, hvalue⟩ := hdouble
      refine exports_of_double hv hvalue fun htaken => ?_
      exact Decidable.byContradiction fun hcode => h ⟨code, hvalue, htaken, hcode⟩
    · exact exports_of_single hv (not_exists.1 hdouble)

end Argument

/-- An include passes the documented argument, and one with a visible character, exactly if it does
not take for code what is none. -/
theorem exports_argument_iff (value : String) :
    Exports value (argument (.text value)) ∧ Nonblank (argument (.text value)).toList ↔
    ¬IsMistaken value := by
  constructor
  · rintro ⟨hexports, -⟩ hmistaken
    exact hmistaken.not_exports hexports
  · exact exports_argument

/-- Blank code passes nothing, and a further brace inside the code is passed on. -/
theorem blank_code_is_passed :
    ("\x7b\x7b \x7d\x7d".toList = opener ++ [' '] ++ closer ∧ ¬IsCode [' '] ∧
        argument (.text "\x7b\x7b \x7d\x7d") = "" ∧
        ¬Exports "\x7b\x7b \x7d\x7d" (argument (.text "\x7b\x7b \x7d\x7d"))) ∧
      argument (.text "\x7b\x7b\x7b$a\x7d\x7d\x7d") = "\x7b$a\x7d" ∧
      ¬Exports "\x7b\x7b\x7b$a\x7d\x7d\x7d" (argument (.text "\x7b\x7b\x7b$a\x7d\x7d\x7d")) := by
  have hblank : IsMistaken "\x7b\x7b \x7d\x7d" :=
    ⟨[' '], by decide, isTaken_iff.1 (by decide), by decide⟩
  have hbrace : IsMistaken "\x7b\x7b\x7b$a\x7d\x7d\x7d" :=
    ⟨"\x7b$a\x7d".toList, by decide, isTaken_iff.1 (by decide), by decide⟩
  exact ⟨⟨by decide, by decide, by decide, hblank.not_exports⟩, by decide, hbrace.not_exports⟩

end TemplateCompiler.Host
