import Mathlib.Logic.ExistsUnique
import TemplateCompiler.Code.RenderFunction

/-! # The layout of the lines of a function

Lines are laid out like brackets: a block between its head and a brace, captured output between
`ob_start();` and the call that takes it. `Laid` is that layout, with the blocks and captures
that it has in order. Every line of a layout fits where it stands: its block and its capture end
behind it, and a branch that continues another one has the brace of that one before it.
-/
namespace TemplateCompiler.Code
open Markup Directive Host Writer

/-! ## Lines that carry structure -/

def begins (start text : String) : Bool := start.toList.isPrefixOf text.toList

def ends (stop text : String) : Bool := stop.toList.isSuffixOf text.toList

def isBranchHead (text : String) : Bool := begins "if (" text || begins "else if (" text

def isElseHead (text : String) : Bool := begins "else if (" text || text = "else \x7b"

def isHead (text : String) : Bool := isBranchHead text || isElseHead text || begins "foreach (" text

def functionHead : String := "return function($zRenderer, $zProps, $innerHTML = '') \x7b"

def opens (text : String) : Bool := isHead text || text = functionHead

def closes (text : String) : Bool := text = "\x7d" || text = "\x7d;"

def captureStart : String := "ob_start();"

def isStatement (text : String) : Bool := !(opens text || closes text || text = captureStart)

def isRelease (text : String) : Bool :=
  begins "$zRenderer->render(" text && ends ", ob_get_clean());" text

/-- The level behind a line, which ends a level that there is or stands at the level before it. -/
def nextLevel (level : Nat) (line : Line) : Option Nat :=
  if closes line.text then
    if level = line.indent + 1 then some line.indent else none
  else if level = line.indent then some (if opens line.text then level + 1 else level)
  else none

/-- The number of captures behind a line that have started and not ended. -/
def nextCapture (started : Nat) (line : Line) : Option Nat :=
  if line.text = captureStart then some (started + 1)
  else if isRelease line.text then if started = 0 then none else some (started - 1)
  else some started

def apart (a b : String) : Bool := !begins a b && !begins b a

theorem begins_of_apart {start front : String} (h : apart start front = true) (rest : String) :
    begins start (front ++ rest) = false := by
  simp only [apart, begins, Bool.and_eq_true, Bool.not_eq_true', ← Bool.not_eq_true,
    List.isPrefixOf_iff_prefix] at h ⊢
  intro hs
  rw [String.toList_append] at hs
  rcases Nat.le_total start.toList.length front.toList.length with hle | hle
  · exact h.1 (List.prefix_of_prefix_length_le hs (List.prefix_append _ _) hle)
  · exact h.2 (List.prefix_of_prefix_length_le (List.prefix_append _ _) hs hle)

theorem ne_of_apart {text front : String} (h : apart text front = true) (rest : String) :
    front ++ rest ≠ text := by
  rintro rfl
  simp only [apart, begins, Bool.and_eq_true, Bool.not_eq_true', ← Bool.not_eq_true,
    List.isPrefixOf_iff_prefix, String.toList_append] at h
  exact h.2 (List.prefix_append _ _)

def structural : List String :=
  ["if (", "else if (", "else \x7b", "foreach (", functionHead, "\x7d", "\x7d;", captureStart]

theorem isStatement_of_apart {front : String} (h : ∀ s ∈ structural, apart s front = true)
    (rest : String) : isStatement (front ++ rest) = true := by
  have hb := fun s hs => begins_of_apart (h s hs) rest
  have hn := fun s hs => ne_of_apart (h s hs) rest
  simp only [structural, List.mem_cons, List.not_mem_nil, or_false, forall_eq_or_imp,
    forall_eq] at hb hn
  simp [isStatement, opens, isHead, isBranchHead, isElseHead, closes, hb, hn]

/-- A line by itself: it begins with none of these, and with no call of the renderer. -/
def isPlain (text : String) : Bool := isStatement text && !isRelease text

theorem isPlain_of_apart {front : String} (h : ∀ s ∈ structural, apart s front = true)
    (hr : apart "$zRenderer->render(" front = true) (rest : String) :
    isPlain (front ++ rest) = true := by
  rw [isPlain, isStatement_of_apart h, isRelease, begins_of_apart hr]
  rfl

theorem isPlain_echo (rest : String) : isPlain ("echo " ++ rest) = true :=
  isPlain_of_apart (by decide) (by decide) rest

theorem inclusion_eq (file : String) (arguments : Properties) (inner : String) :
    ∃ rest, inclusion file arguments inner =
      "$zRenderer->render(" ++ (rest ++ (", " ++ inner ++ ");")) := by
  have hclose : "], " = "]" ++ ", " := by decide
  refine ⟨liveLiteral file ++ ", [" ++ ", ".intercalate (arguments.toList.map argumentText) ++ "]",
    ?_⟩
  unfold inclusion
  rw [hclose]
  simp only [String.append_assoc]

theorem isPlain_inclusion (file : String) (arguments : Properties) :
    isPlain (inclusion file arguments "''") = true := by
  obtain ⟨rest, hrest⟩ := inclusion_eq file arguments "''"
  have hback : ", " ++ "''" ++ ");" = ", '');" := by decide
  have hrelease : isRelease (inclusion file arguments "''") = false := by
    rw [isRelease, Bool.and_eq_false_iff, hrest, hback, ← String.append_assoc]
    refine .inr ?_
    rw [ends, ← Bool.not_eq_true, List.isSuffixOf_iff_suffix, String.toList_append]
    intro hs
    exact absurd (List.suffix_of_suffix_length_le (List.suffix_append _ _) hs (by decide))
      (by decide)
  rw [isPlain, hrelease, hrest, isStatement_of_apart (by decide)]
  rfl

theorem isRelease_inclusion (file : String) (arguments : Properties) :
    isStatement (inclusion file arguments "ob_get_clean()") = true ∧
      isRelease (inclusion file arguments "ob_get_clean()") = true := by
  obtain ⟨rest, hrest⟩ := inclusion_eq file arguments "ob_get_clean()"
  have hback : ", " ++ "ob_get_clean()" ++ ");" = ", ob_get_clean());" := by decide
  rw [hrest, hback]
  refine ⟨isStatement_of_apart (by decide) _, ?_⟩
  rw [isRelease, Bool.and_eq_true, begins, ends, List.isPrefixOf_iff_prefix,
    List.isSuffixOf_iff_suffix]
  refine ⟨?_, ?_⟩
  · rw [String.toList_append]
    exact List.prefix_append _ _
  · rw [← String.append_assoc, String.toList_append]
    exact List.suffix_append _ _

theorem exists_of_begins {start text : String} (h : begins start text = true) :
    ∃ rest, text = start ++ rest := by
  rw [begins, List.isPrefixOf_iff_prefix] at h
  obtain ⟨rest, hrest⟩ := h
  refine ⟨String.ofList rest, ?_⟩
  rw [← String.toList_inj, String.toList_append, String.toList_ofList, hrest]

theorem begins_append (start rest : String) : begins start (start ++ rest) = true := by
  rw [begins, List.isPrefixOf_iff_prefix, String.toList_append]
  exact List.prefix_append _ _

def headStarts : List String := ["if (", "else if (", "else \x7b", "foreach ("]

theorem exists_of_isHead {text : String} (h : isHead text = true) :
    ∃ start ∈ headStarts, ∃ rest, text = start ++ rest := by
  simp only [isHead, isBranchHead, isElseHead, Bool.or_eq_true, decide_eq_true_eq] at h
  rcases h with ((h | h) | h | h) | h
  · exact ⟨"if (", by simp [headStarts], exists_of_begins h⟩
  · exact ⟨"else if (", by simp [headStarts], exists_of_begins h⟩
  · exact ⟨"else if (", by simp [headStarts], exists_of_begins h⟩
  · exact ⟨"else \x7b", by simp [headStarts], "", by rw [h, String.append_empty]⟩
  · exact ⟨"foreach (", by simp [headStarts], exists_of_begins h⟩

theorem isHead_apart {text : String} (h : isHead text = true) :
    closes text = false ∧ text ≠ captureStart ∧ isRelease text = false := by
  obtain ⟨start, hs, rest, rfl⟩ := exists_of_isHead h
  have hapart : ∀ start ∈ headStarts,
      ∀ s ∈ ["\x7d", "\x7d;", captureStart, "$zRenderer->render("],
        apart s start = true := by decide
  have ha := hapart start hs
  refine ⟨?_, ne_of_apart (ha _ (by simp)) rest, ?_⟩
  · have hbrace := ne_of_apart (ha "\x7d" (by simp)) rest
    have hend := ne_of_apart (ha "\x7d;" (by simp)) rest
    simp [closes, hbrace, hend]
  · rw [isRelease, begins_of_apart (ha _ (by simp))]
    rfl

theorem isStatement_of_isPlain {text : String} (h : isPlain text = true) :
    isStatement text = true :=
  (Bool.and_eq_true_iff.1 h).1

theorem isHead_eq_false {text : String} (h : isStatement text = true) : isHead text = false := by
  simp only [isStatement, opens, Bool.not_eq_true', Bool.or_eq_false_iff] at h
  exact h.1.1.1

theorem ne_captureStart {text : String} (h : isStatement text = true) : text ≠ captureStart := by
  simp only [isStatement, Bool.not_eq_true', Bool.or_eq_false_iff, decide_eq_false_iff_not] at h
  exact h.2

/-! ## Levels and captures -/

section Step

variable {text : String} {level started : Nat}

theorem nextLevel_statement (h : isStatement text = true) :
    nextLevel level ⟨level, text⟩ = some level := by
  simp only [isStatement, Bool.not_eq_true', Bool.or_eq_false_iff] at h
  simp [nextLevel, h.1.1, h.1.2]

theorem nextLevel_head (h : isHead text = true) :
    nextLevel level ⟨level, text⟩ = some (level + 1) := by
  simp [nextLevel, (isHead_apart h).1, opens, h]

theorem nextLevel_brace : nextLevel (level + 1) ⟨level, "\x7d"⟩ = some level := by
  simp [nextLevel, closes]

theorem nextLevel_capture : nextLevel level ⟨level, captureStart⟩ = some level := by
  have hc : closes captureStart = false := by decide
  have ho : opens captureStart = false := by decide
  simp [nextLevel, hc, ho]

theorem nextCapture_plain (h : isPlain text = true) :
    nextCapture started ⟨level, text⟩ = some started := by
  have hr : isRelease text = false := by simpa using (Bool.and_eq_true_iff.1 h).2
  simp [nextCapture, ne_captureStart (isStatement_of_isPlain h), hr]

theorem nextCapture_head (h : isHead text = true) :
    nextCapture started ⟨level, text⟩ = some started := by
  simp [nextCapture, (isHead_apart h).2]

theorem nextCapture_brace : nextCapture started ⟨level, "\x7d"⟩ = some started := by
  have hc : "\x7d" ≠ captureStart := by decide
  have hr : isRelease "\x7d" = false := by decide
  simp [nextCapture, hc, hr]

theorem nextCapture_start : nextCapture started ⟨level, captureStart⟩ = some (started + 1) := by
  simp [nextCapture]

theorem nextCapture_release (h : isStatement text = true ∧ isRelease text = true) :
    nextCapture (started + 1) ⟨level, text⟩ = some started := by
  simp [nextCapture, ne_captureStart h.1, h.2]

end Step

/-! ## The heads of the blocks of a template -/

theorem blockHead_eq (keyword condition : String) :
    blockHead keyword condition = keyword ++ " (" ++ (condition ++ ") \x7b") := by
  rw [blockHead, String.append_assoc]

theorem isBranchHead_when (condition : String) :
    isBranchHead (blockHead "if" condition) = true ∧
      isElseHead (blockHead "if" condition) = false := by
  have hstart : "if" ++ " (" = "if (" := by decide
  have hne : ∀ rest, "if (" ++ rest ≠ "else \x7b" := ne_of_apart (by decide)
  rw [blockHead_eq, hstart, isBranchHead, isElseHead, begins_append, begins_of_apart (by decide)]
  simp [hne]

theorem isBranchHead_elseWhen (condition : String) :
    isBranchHead (blockHead "else if" condition) = true ∧
      isElseHead (blockHead "else if" condition) = true := by
  have hstart : "else if" ++ " (" = "else if (" := by decide
  rw [blockHead_eq, hstart, isBranchHead, isElseHead, begins_append]
  simp

theorem isBranchHead_forEach (head : String) :
    isHead (blockHead "foreach" head) = true ∧ isBranchHead (blockHead "foreach" head) = false ∧
      isElseHead (blockHead "foreach" head) = false := by
  have hstart : "foreach" ++ " (" = "foreach (" := by decide
  have hne : ∀ rest, "foreach (" ++ rest ≠ "else \x7b" := ne_of_apart (by decide)
  rw [blockHead_eq, hstart, isHead, isBranchHead, isElseHead, begins_append,
    begins_of_apart (by decide), begins_of_apart (by decide)]
  simp [hne]

/-! ## The layout of lines -/

/-- A block, or a capture of output, with what stands inside it. -/
inductive Frame where
  | block (head : String) (inside : List Frame)
  | capture (call : String) (inside : List Frame)

/-- Lines at a level with these frames among them. `first` tells whether the line before them ends a
block that a branch may follow, and `last` whether theirs does. -/
inductive Laid : Nat → Bool → List Frame → List Line → Bool → Prop
  | nil {level : Nat} {first last : Bool} (h : last = true → first = true) :
    Laid level first [] [] last
  | plain {level : Nat} {first last : Bool} {text : String} {frames : List Frame}
    {lines : List Line} (ht : isPlain text = true) (h : Laid level false frames lines last) :
    Laid level first frames (⟨level, text⟩ :: lines) last
  | block {level : Nat} {first last last' : Bool} {head : String} {inside frames : List Frame}
    {inner lines : List Line} (hh : isHead head = true) (hf : isElseHead head = true → first = true)
    (hi : Laid (level + 1) false inside inner last')
    (h : Laid level (isBranchHead head) frames lines last) :
    Laid level first (.block head inside :: frames)
      (⟨level, head⟩ :: (inner ++ ⟨level, "\x7d"⟩ :: lines)) last
  | capture {level : Nat} {first last last' : Bool} {call : String} {inside frames : List Frame}
    {inner lines : List Line} (hc : isStatement call = true ∧ isRelease call = true)
    (hi : Laid level false inside inner last') (h : Laid level false frames lines last) :
    Laid level first (.capture call inside :: frames)
      (⟨level, captureStart⟩ :: (inner ++ ⟨level, call⟩ :: lines)) last

namespace Laid

variable {level : Nat} {first last next : Bool} {frames more : List Frame}
    {lines lines' : List Line}

theorem append (h : Laid level first frames lines last) (h' : Laid level last more lines' next) :
    Laid level first (frames ++ more) (lines ++ lines') next := by
  induction h with
  | nil hl =>
    cases h' with
    | nil hn => exact .nil fun hnext => hl (hn hnext)
    | plain ht h => exact .plain ht h
    | block hh hf hi h => exact .block hh (fun he => hl (hf he)) hi h
    | capture hc hi h => exact .capture hc hi h
  | plain ht _ ih => exact .plain ht (ih h')
  | block hh hf hi _ _ ih =>
    simp only [List.cons_append, List.append_assoc]
    exact .block hh hf hi (ih h')
  | capture hc hi _ _ ih =>
    simp only [List.cons_append, List.append_assoc]
    exact .capture hc hi (ih h')

theorem level_le (h : Laid level first frames lines last) : ∀ l ∈ lines, level ≤ l.indent := by
  induction h with
  | nil => simp
  | plain _ _ ih => exact List.forall_mem_cons.2 ⟨Nat.le_refl _, ih⟩
  | block _ _ _ _ ihi ih =>
    refine List.forall_mem_cons.2 ⟨Nat.le_refl _, List.forall_mem_append.2 ⟨fun l hl => ?_, ?_⟩⟩
    · exact Nat.le_trans (Nat.le_succ _) (ihi l hl)
    · exact List.forall_mem_cons.2 ⟨Nat.le_refl _, ih⟩
  | capture _ _ _ ihi ih =>
    exact List.forall_mem_cons.2 ⟨Nat.le_refl _,
      List.forall_mem_append.2 ⟨ihi, List.forall_mem_cons.2 ⟨Nat.le_refl _, ih⟩⟩⟩

theorem nextLevel_eq (h : Laid level first frames lines last) :
    lines.foldlM nextLevel level = some level := by
  induction h with
  | nil => rfl
  | plain ht _ ih =>
    rw [List.foldlM_cons, nextLevel_statement (isStatement_of_isPlain ht)]
    exact ih
  | block hh _ _ _ ihi ih =>
    rw [List.foldlM_cons, nextLevel_head hh, Option.bind_eq_bind, Option.bind_some,
      List.foldlM_append, ihi]
    simpa [nextLevel_brace] using ih
  | capture hc _ _ ihi ih =>
    rw [List.foldlM_cons, nextLevel_capture, Option.bind_eq_bind, Option.bind_some,
      List.foldlM_append, ihi]
    simpa [nextLevel_statement hc.1] using ih

theorem nextCapture_eq (h : Laid level first frames lines last) (started : Nat) :
    lines.foldlM nextCapture started = some started := by
  induction h generalizing started with
  | nil => rfl
  | plain ht _ ih =>
    rw [List.foldlM_cons, nextCapture_plain ht]
    exact ih started
  | block hh _ _ _ ihi ih =>
    rw [List.foldlM_cons, nextCapture_head hh, Option.bind_eq_bind, Option.bind_some,
      List.foldlM_append, ihi]
    simpa [nextCapture_brace] using ih started
  | capture hc _ _ ihi ih =>
    rw [List.foldlM_cons, nextCapture_start, Option.bind_eq_bind, Option.bind_some,
      List.foldlM_append, ihi]
    simpa [nextCapture_release hc] using ih started

end Laid

/-! ## What stands around a line -/

/-- The block of the head `l` has the lines `inner`: they are above its level, and the next line is
the brace at its level. -/
structure BlockBehind (l : Line) (inner after : List Line) : Prop where
  brace : ∃ rest, after = inner ++ ⟨l.indent, "\x7d"⟩ :: rest
  above : ∀ x ∈ inner, l.indent < x.indent
  nested : inner.foldlM nextLevel (l.indent + 1) = some (l.indent + 1)

/-- The output of the lines `inner` is captured from the line `l` on: they stay in its block, what
is captured in them ends in them, and the next line is a call that takes the output. -/
structure CaptureBehind (l : Line) (inner after : List Line) : Prop where
  call : ∃ call rest, after = inner ++ ⟨l.indent, call⟩ :: rest ∧ isRelease call = true
  within : ∀ x ∈ inner, l.indent ≤ x.indent
  nested : inner.foldlM nextLevel l.indent = some l.indent
  captures : inner.foldlM nextCapture 0 = some 0

/-- The last line is the brace of a block at the level that a branch may follow. -/
def BranchBefore (level : Nat) (before : List Line) : Prop :=
  ∃ front head inner, before = front ++ ⟨level, head⟩ :: (inner ++ [⟨level, "\x7d"⟩]) ∧
    isBranchHead head = true ∧ BlockBehind ⟨level, head⟩ inner (inner ++ [⟨level, "\x7d"⟩])

/-- How a line stands between the others: a head has one block, what starts to be captured is taken
once, and a branch that continues another one stands right behind its brace. -/
structure Fits (before : List Line) (l : Line) (after : List Line) : Prop where
  block : isHead l.text = true → ∃! inner, BlockBehind l inner after
  capture : l.text = captureStart → ∃! inner, CaptureBehind l inner after
  branch : isElseHead l.text = true → BranchBefore l.indent before

/-- Two beginnings of a list are the same if the line behind either one is not in the other. -/
theorem eq_of_cuts {a b rest rest' : List Line} {x y : Line} (h : a ++ x :: rest = b ++ y :: rest')
    (hx : ∀ c, b ≠ a ++ x :: c) (hy : ∀ c, a ≠ b ++ y :: c) : a = b := by
  rcases List.append_eq_append_iff.1 h with ⟨c, rfl, hc⟩ | ⟨c, rfl, hc⟩
  · cases c with
    | nil => simp
    | cons z c =>
      obtain ⟨rfl, -⟩ := List.cons.inj hc
      exact absurd rfl (hx c)
  · cases c with
    | nil => simp
    | cons z c =>
      obtain ⟨rfl, -⟩ := List.cons.inj hc
      exact absurd rfl (hy c)

theorem BlockBehind.unique {l : Line} {a b after : List Line} (ha : BlockBehind l a after)
    (hb : BlockBehind l b after) : a = b := by
  obtain ⟨rest, hrest⟩ := ha.brace
  obtain ⟨rest', hrest'⟩ := hb.brace
  refine eq_of_cuts (hrest.symm.trans hrest') ?_ ?_
  · rintro c rfl
    have hbrace := hb.above ⟨l.indent, "\x7d"⟩ (by simp)
    exact absurd hbrace (Nat.lt_irrefl l.indent)
  · rintro c rfl
    have hbrace := ha.above ⟨l.indent, "\x7d"⟩ (by simp)
    exact absurd hbrace (Nat.lt_irrefl l.indent)

theorem nextCapture_append_release {lines more : List Line} {indent : Nat} {call : String}
    (h : lines.foldlM nextCapture 0 = some 0) (hc : isRelease call = true) :
    (lines ++ ⟨indent, call⟩ :: more).foldlM nextCapture 0 = none := by
  have hstart : call ≠ captureStart := by
    rintro rfl
    have hr : ¬ isRelease captureStart = true := by decide
    exact hr hc
  simp [List.foldlM_append, h, nextCapture, hstart, hc]

theorem CaptureBehind.unique {l : Line} {a b after : List Line} (ha : CaptureBehind l a after)
    (hb : CaptureBehind l b after) : a = b := by
  obtain ⟨call, rest, hrest, hcall⟩ := ha.call
  obtain ⟨call', rest', hrest', hcall'⟩ := hb.call
  refine eq_of_cuts (hrest.symm.trans hrest') ?_ ?_
  · rintro c rfl
    have hcut := hb.captures
    rw [nextCapture_append_release ha.captures hcall] at hcut
    cases hcut
  · rintro c rfl
    have hcut := ha.captures
    rw [nextCapture_append_release hb.captures hcall'] at hcut
    cases hcut

theorem fits_of_not {before after : List Line} {l : Line} (hh : isHead l.text = false)
    (hc : l.text ≠ captureStart) : Fits before l after := by
  have helse : isElseHead l.text = false := by
    simp only [isHead, Bool.or_eq_false_iff] at hh
    exact hh.1.2
  refine ⟨fun h => ?_, fun h => absurd h hc, fun h => ?_⟩
  · rw [hh] at h
    cases h
  · rw [helse] at h
    cases h

theorem fits_brace {before after : List Line} {level : Nat} : Fits before ⟨level, "\x7d"⟩ after :=
  fits_of_not (show isHead "\x7d" = false by decide) (show "\x7d" ≠ captureStart by decide)

theorem Fits.append {before after : List Line} {l : Line} (h : Fits before l after)
    (more : List Line) :
    Fits before l (after ++ more) := by
  refine ⟨fun hh => ?_, fun hc => ?_, h.branch⟩
  · obtain ⟨inner, ⟨⟨rest, rfl⟩, habove, hnested⟩, -⟩ := h.block hh
    have hblock : BlockBehind l inner (inner ++ ⟨l.indent, "\x7d"⟩ :: rest ++ more) :=
      ⟨⟨rest ++ more, by simp⟩, habove, hnested⟩
    exact ⟨inner, hblock, fun _ hother => hother.unique hblock⟩
  · obtain ⟨inner, ⟨⟨call, rest, rfl, hr⟩, hwithin, hnested, hcaptures⟩, -⟩ := h.capture hc
    have hcapture : CaptureBehind l inner (inner ++ ⟨l.indent, call⟩ :: rest ++ more) :=
      ⟨⟨call, rest ++ more, by simp, hr⟩, hwithin, hnested, hcaptures⟩
    exact ⟨inner, hcapture, fun _ hother => hother.unique hcapture⟩

theorem append_eq_append_cons {a b before after : List Line} {l : Line}
    (h : a ++ b = before ++ l :: after) :
    (∃ rest, a = before ++ l :: rest ∧ after = rest ++ b) ∨
      ∃ front, before = a ++ front ∧ b = front ++ l :: after := by
  rcases List.append_eq_append_iff.1 h with ⟨front, rfl, hb⟩ | ⟨rest, rfl, hrest⟩
  · exact .inr ⟨front, rfl, hb⟩
  · cases rest with
    | nil => exact .inr ⟨[], by simp, hrest.symm⟩
    | cons x rest =>
      obtain ⟨rfl, rfl⟩ := List.cons.inj hrest
      exact .inl ⟨rest, rfl, rfl⟩

theorem cons_append_cons_eq {head close l : Line} {inner lines before after : List Line}
    (h : head :: (inner ++ close :: lines) = before ++ l :: after) :
    (before = [] ∧ l = head ∧ after = inner ++ close :: lines) ∨
      (∃ b a, before = head :: b ∧ inner = b ++ l :: a ∧ after = a ++ close :: lines) ∨
      (before = head :: inner ∧ l = close ∧ after = lines) ∨
      ∃ b, before = head :: (inner ++ close :: b) ∧ lines = b ++ l :: after := by
  cases before with
  | nil =>
    obtain ⟨rfl, rfl⟩ := List.cons.inj h
    exact .inl ⟨rfl, rfl, rfl⟩
  | cons x before =>
    obtain ⟨rfl, htail⟩ := List.cons.inj h
    refine .inr ?_
    rcases append_eq_append_cons htail with ⟨rest, rfl, rfl⟩ | ⟨front, rfl, hfront⟩
    · exact .inl ⟨before, rest, rfl, rfl, rfl⟩
    · cases front with
      | nil =>
        obtain ⟨rfl, rfl⟩ := List.cons.inj hfront
        exact .inr (.inl ⟨by simp, rfl, rfl⟩)
      | cons y front =>
        obtain ⟨rfl, rfl⟩ := List.cons.inj hfront
        exact .inr (.inr ⟨front, rfl, rfl⟩)

/-- Every line of a layout fits where it stands. -/
theorem Laid.fits {level : Nat} {first last : Bool} {frames : List Frame} {lines : List Line}
    (h : Laid level first frames lines last) {front before after : List Line} {l : Line}
    (hf : first = true → BranchBefore level front) (hl : lines = before ++ l :: after) :
    Fits (front ++ before) l after := by
  induction h generalizing front before after l with
  | nil => simp at hl
  | @plain level first last text frames lines ht h ih =>
    have hstatement := isStatement_of_isPlain ht
    cases before with
    | nil =>
      obtain ⟨rfl, rfl⟩ := List.cons.inj hl
      exact fits_of_not (isHead_eq_false hstatement) (ne_captureStart hstatement)
    | cons x before =>
      obtain ⟨rfl, htail⟩ := List.cons.inj hl
      rw [List.append_cons]
      exact ih (fun h => absurd h Bool.false_ne_true) htail
  | @block level first last last' head inside frames inner lines hh hfirst hi h ihi ih =>
    have hblock : ∀ rest, BlockBehind ⟨level, head⟩ inner (inner ++ ⟨level, "\x7d"⟩ :: rest) :=
      fun rest => ⟨⟨rest, rfl⟩, fun x hx => hi.level_le x hx, hi.nextLevel_eq⟩
    rcases cons_append_cons_eq hl with ⟨rfl, rfl, rfl⟩ | ⟨b, a, rfl, hb, rfl⟩ | ⟨rfl, rfl, rfl⟩ |
      ⟨b, rfl, hb⟩
    · refine ⟨fun _ => ⟨inner, hblock lines, fun _ hother => hother.unique (hblock lines)⟩,
        fun hc => absurd hc (isHead_apart hh).2.1, fun he => ?_⟩
      rw [List.append_nil]
      exact hf (hfirst he)
    · rw [List.append_cons]
      exact (ihi (fun h => absurd h Bool.false_ne_true) hb).append _
    · exact fits_brace
    · have hbefore : front ++ ⟨level, head⟩ :: (inner ++ ⟨level, "\x7d"⟩ :: b) =
          front ++ ⟨level, head⟩ :: (inner ++ [⟨level, "\x7d"⟩]) ++ b := by simp
      rw [hbefore]
      exact ih (fun he => ⟨front, head, inner, rfl, he, hblock []⟩) hb
  | @capture level first last last' call inside frames inner lines hc hi h ihi ih =>
    have hcapture : ∀ rest, CaptureBehind ⟨level, captureStart⟩ inner (inner ++
        ⟨level, call⟩ :: rest) :=
      fun rest => ⟨⟨call, rest, rfl, hc.2⟩, hi.level_le, hi.nextLevel_eq, hi.nextCapture_eq 0⟩
    rcases cons_append_cons_eq hl with ⟨rfl, rfl, rfl⟩ | ⟨b, a, rfl, hb, rfl⟩ | ⟨rfl, rfl, rfl⟩ |
      ⟨b, rfl, hb⟩
    · have hhead : ¬ isHead captureStart = true := by decide
      have helse : ¬ isElseHead captureStart = true := by decide
      exact ⟨fun h => absurd h hhead,
        fun _ => ⟨inner, hcapture lines, fun _ hother => hother.unique (hcapture lines)⟩,
        fun h => absurd h helse⟩
    · rw [List.append_cons]
      exact (ihi (fun h => absurd h Bool.false_ne_true) hb).append _
    · exact fits_of_not (isHead_eq_false hc.1) (ne_captureStart hc.1)
    · have hbefore : front ++ ⟨level, captureStart⟩ :: (inner ++ ⟨level, call⟩ :: b) =
          front ++ ⟨level, captureStart⟩ :: (inner ++ [⟨level, call⟩]) ++ b := by simp
      rw [hbefore]
      exact ih (fun h => absurd h Bool.false_ne_true) hb

end TemplateCompiler.Code
