import TemplateCompiler.Proofs.Code.Coalescing
import TemplateCompiler.Proofs.Code.Layout

/-! # Generated code is well nested

The lines of a function body are laid out with the blocks and captures of the template, in its
order. A branch that continues another one stands right behind its brace, because nothing is
pending behind a block: this is what `Writer.Adds` carries from one sibling to the next.
-/
namespace TemplateCompiler.Directive

def Entry.continues : Entry → Bool
  | .elseWhen .. | .otherwise _ => true
  | _ => false

mutual
def Entry.isChained : Entry → Bool
  | .text _ | .raw _ | .slot _ => true
  | .when _ children | .elseWhen _ children | .otherwise children => areChained false children
  | .forEach _ children | .inclusion _ _ children => areChained false children
  | .element _ _ children _ => areChained false children

/-- Whether each branch that continues another one directly follows it, here and at any depth.
`behindBranch` tells whether the entries follow one. -/
def areChained (behindBranch : Bool) : List Entry → Bool
  | [] => true
  | e :: rest => (!e.continues || behindBranch) && e.isChained && areChained e.isBranch rest
end

end TemplateCompiler.Directive

namespace TemplateCompiler.Code
open Markup Directive Host Writer

/-! ## The frames of a template -/

def propertyFrames : String × Value → List Frame
  | (name, .text mapping) =>
    if name = spreadProperty then
      [.block (blockHead "foreach" (trimmed mapping ++ " as $zKey => $zValue")) []]
    else []
  | _ => []

mutual
def entryFrames : Entry → List Frame
  | .text _ | .raw _ | .slot _ => []
  | .when condition children =>
    [.block (blockHead "if" (trimmed condition)) (entriesFrames children)]
  | .elseWhen condition children =>
    [.block (blockHead "else if" (trimmed condition)) (entriesFrames children)]
  | .otherwise children => [.block "else \x7b" (entriesFrames children)]
  | .forEach head children => [.block (blockHead "foreach" head) (entriesFrames children)]
  | .inclusion file arguments children =>
    if children.isEmpty then []
    else [.capture (inclusion file arguments "ob_get_clean()") (entriesFrames children)]
  | .element tag properties children _ =>
    properties.toList.flatMap propertyFrames ++ if isVoid tag then [] else entriesFrames children

def entriesFrames : List Entry → List Frame
  | [] => []
  | e :: rest => entryFrames e ++ entriesFrames rest
end

/-! ## What a writer adds -/

namespace Writer
variable {level : Nat} {first last mid : Bool} {frames more inside : List Frame} {w u v : Writer}

/-- The lines added have these frames. Nothing is pending behind the brace of a branch. -/
def Adds (level : Nat) (first : Bool) (frames : List Frame) (w v : Writer) (last : Bool) : Prop :=
  ∃ lines, v.lines.toList = w.lines.toList ++ lines ∧ Laid level first frames lines last ∧
    (last = true → v.buffer.pending = "")

theorem Adds.trans (h : Adds level first frames w u mid) (h' : Adds level mid more u v last) :
    Adds level first (frames ++ more) w v last := by
  obtain ⟨lines, hl, hlaid, -⟩ := h
  obtain ⟨lines', hl', hlaid', hpending⟩ := h'
  exact ⟨lines ++ lines', by rw [hl', hl, List.append_assoc], hlaid.append hlaid', hpending⟩

theorem flush_pending (w : Writer) (indent : Nat) : (w.flush indent).buffer.pending = "" :=
  w.line_pending indent ""

theorem line_lines (w : Writer) (indent : Nat) (text : String) :
    (w.line indent text).lines.toList = (w.flush indent).lines.toList ++ [⟨indent, text⟩] := by
  simp [Writer.line]

theorem flush_lines (w : Writer) (indent : Nat) :
    (w.flush indent).lines.toList = w.lines.toList ++
      if w.buffer.pending = "" then [] else [⟨indent, LiteralBuffer.echo w.buffer.pending⟩] := by
  by_cases hw : w.buffer.pending = ""
  · simp [flush_of_empty hw, hw]
  · simp [flush, LiteralBuffer.takeStatement, LiteralBuffer.isEmpty, hw]

theorem adds_flush (w : Writer) (h : last = true → first = true ∧ w.buffer.pending = "") :
    Adds level first [] w (w.flush level) last := by
  by_cases hw : w.buffer.pending = ""
  · rw [flush_of_empty hw]
    exact ⟨[], by simp, .nil fun hl => (h hl).1, fun _ => hw⟩
  · have hlast : last = false := by
      rw [← Bool.not_eq_true]
      exact fun hl => hw (h hl).2
    subst hlast
    refine ⟨[⟨level, LiteralBuffer.echo w.buffer.pending⟩], ?_, ?_, fun _ => flush_pending w level⟩
    · rw [flush_lines, if_neg hw]
    · refine .plain ?_ (.nil id)
      rw [LiteralBuffer.echo, String.append_assoc]
      exact isPlain_echo _

theorem adds_literal (w : Writer) (markup : String) :
    Adds level first [] w (w.literal markup) false :=
  ⟨[], by simp [Writer.literal], .nil fun h => absurd h Bool.false_ne_true,
    fun h => absurd h Bool.false_ne_true⟩

theorem adds_line (w : Writer) {text : String} (ht : isPlain text = true) :
    Adds level first [] w (w.line level text) false := by
  have hflush : Adds level first [] w (w.flush level) false :=
    adds_flush w fun h => absurd h Bool.false_ne_true
  have hline : Adds level false [] (w.flush level) (w.line level text) false :=
    ⟨[⟨level, text⟩], line_lines w level text, .plain ht (.nil id), fun _ =>
      line_pending w level text⟩
  exact hflush.trans hline

theorem adds_block {head : String} (hh : isHead head = true)
    (hf : isElseHead head = true → first = true) (hw : first = true → w.buffer.pending = "")
    (hi : Adds (level + 1) false inside (w.line level head) v mid) :
    Adds level first [.block head inside] w (v.endBlock level) (isBranchHead head) := by
  have hflush : Adds level first [] w (w.flush level) first := adds_flush w fun h => ⟨h, hw h⟩
  have hinner : Adds (level + 1) false inside (w.line level head) (v.flush (level + 1)) false := by
    simpa using hi.trans (adds_flush v fun h => absurd h Bool.false_ne_true)
  obtain ⟨inner, hlines, hlaid, -⟩ := hinner
  have hblock :
      Adds level first [.block head inside] (w.flush level) (v.endBlock level)
        (isBranchHead head) := by
    refine ⟨_, ?_, .block hh hf hlaid (.nil id), fun _ => line_pending _ level _⟩
    rw [endBlock, line_lines, flush_of_empty (flush_pending v _), hlines, line_lines]
    simp
  exact hflush.trans hblock

theorem adds_capture {call : String} (hc : isStatement call = true ∧ isRelease call = true)
    (hi : Adds level false inside (w.line level captureStart) v mid) :
    Adds level first [.capture call inside] w (v.line level call) false := by
  have hflush : Adds level first [] w (w.flush level) false :=
    adds_flush w fun h => absurd h Bool.false_ne_true
  have hinner : Adds level false inside (w.line level captureStart) (v.flush level) false := by
    simpa using hi.trans (adds_flush v fun h => absurd h Bool.false_ne_true)
  obtain ⟨inner, hlines, hlaid, -⟩ := hinner
  have hcapture : Adds level false [.capture call inside] (w.flush level)
      (v.line level call) false := by
    refine ⟨_, ?_, .capture hc hlaid (.nil id), fun _ => line_pending v level _⟩
    rw [line_lines, hlines, line_lines]
    simp
  exact hflush.trans hcapture

theorem adds_text (w : Writer) (content : String) :
    Adds level first [] w (w.text level content) false := by
  unfold Writer.text
  split
  · have hstart : "echo $zRenderer->escapeText(" = "echo " ++ "$zRenderer->escapeText(" := by decide
    rw [hstart]
    simp only [String.append_assoc]
    exact adds_line w (isPlain_echo _)
  · exact adds_literal w _

theorem adds_raw (w : Writer) (content : String) :
    Adds level first [] w (w.raw level content) false := by
  unfold Writer.raw LiteralBuffer.echo
  simp only [String.append_assoc]
  split
  · exact adds_line w (isPlain_echo _)
  · exact adds_line w (isPlain_echo _)

theorem adds_slot (w : Writer) (slot : Slot) : Adds level first [] w (w.slot level slot) false := by
  cases slot with
  | inner => exact adds_line w (by decide)
  | scripts => exact adds_line w (by decide)
  | stylesheets => exact adds_line w (by decide)

theorem adds_spread (w : Writer) (mapping : String) :
    Adds level false [.block (blockHead "foreach" (trimmed mapping ++ " as $zKey => $zValue")) []] w
      (w.spread level mapping) false := by
  obtain ⟨hhead, hbranch, helse⟩ := isBranchHead_forEach (trimmed mapping ++ " as $zKey => $zValue")
  have hpair : Adds (level + 1) false []
      (w.line level (blockHead "foreach" (trimmed mapping ++ " as $zKey => $zValue"))) _ false :=
    adds_line _ (isPlain_echo "\" \" . $zKey . \"=\\\"\" . $zRenderer->escapeProperty($zValue) . \"\\\"\";")
  have hblock := adds_block hhead (fun h => absurd (helse.symm.trans h) Bool.false_ne_true)
    (fun h => absurd h Bool.false_ne_true) hpair
  rw [hbranch, endBlock, flush_of_empty (line_pending _ _ _)] at hblock
  exact hblock

theorem adds_value (w : Writer) (content : String) :
    Adds level first [] w
      (if mayHoldCode content then
        w.line level ("echo $zRenderer->escapeProperty(" ++ expression content ++ ");")
      else w.literal (escapeProperty content)) false := by
  split
  · have hstart : "echo $zRenderer->escapeProperty(" = "echo " ++
        "$zRenderer->escapeProperty(" := by decide
    rw [hstart]
    simp only [String.append_assoc]
    exact adds_line w (isPlain_echo _)
  · exact adds_literal w _

theorem adds_property {options : Options} {faultAt : Cause → Fault} {p : String × Value}
    (hp : w.property options level faultAt p = .ok v) :
    Adds level false (propertyFrames p) w v false := by
  obtain ⟨name, value⟩ := p
  cases value with
  | null =>
    cases hp
    exact ⟨[], by simp, .nil id, fun h => absurd h Bool.false_ne_true⟩
  | flag =>
    simp only [Writer.property] at hp
    split at hp
    · cases hp
    · split at hp
      · obtain rfl := Except.ok.inj hp
        exact adds_literal w _
      · obtain rfl := Except.ok.inj hp
        exact adds_literal w _
  | text content =>
    simp only [Writer.property] at hp
    simp only [propertyFrames]
    split at hp
    · next hs =>
      obtain rfl := Except.ok.inj hp
      rw [if_pos hs]
      exact adds_spread w content
    · next hs =>
      obtain rfl := Except.ok.inj hp
      rw [if_neg hs]
      exact ((adds_literal w _).trans (adds_value _ content)).trans (adds_literal _ _)

theorem adds_properties {options : Options} {faultAt : Cause → Fault}
    {properties : List (String × Value)}
    (hp : properties.foldlM (fun w p => w.property options level faultAt p) w = .ok v) :
    Adds level false (properties.flatMap propertyFrames) w v false := by
  induction properties generalizing w with
  | nil =>
    cases hp
    exact ⟨[], by simp, .nil id, fun h => absurd h Bool.false_ne_true⟩
  | cons p rest ih =>
    rw [List.foldlM_cons] at hp
    obtain ⟨u, hu, hp⟩ := bind_eq_ok.1 hp
    exact (adds_property hu).trans (ih hp)

mutual
/-- Behind a branch, where nothing is pending, an entry adds its frames. -/
theorem adds_entry {options : Options} (e : Entry) {level : Nat} {first : Bool} {w v : Writer}
    (hf : e.continues = true → first = true) (hw : first = true → w.buffer.pending = "")
    (hc : e.isChained = true) (he : w.entry options level e = .ok v) :
    Adds level first (entryFrames e) w v e.isBranch := by
  cases e with
  | text content =>
    obtain rfl := Except.ok.inj he
    exact adds_text w content
  | raw content =>
    obtain rfl := Except.ok.inj he
    exact adds_raw w content
  | slot slot =>
    obtain rfl := Except.ok.inj he
    exact adds_slot w slot
  | when condition children =>
    obtain ⟨u, hu, he⟩ := bind_eq_ok.1 he
    obtain rfl := Except.ok.inj he
    obtain ⟨hbranch, helse⟩ := isBranchHead_when (trimmed condition)
    have hhead : isHead (blockHead "if" (trimmed condition)) = true := by simp [isHead, hbranch]
    obtain ⟨mid, hinner⟩ := adds_entries children (fun h => absurd h Bool.false_ne_true) hc hu
    have hblock := adds_block hhead (fun h =>
      absurd (helse.symm.trans h) Bool.false_ne_true) hw hinner
    rwa [hbranch] at hblock
  | elseWhen condition children =>
    obtain ⟨u, hu, he⟩ := bind_eq_ok.1 he
    obtain rfl := Except.ok.inj he
    obtain ⟨hbranch, -⟩ := isBranchHead_elseWhen (trimmed condition)
    have hhead : isHead (blockHead "else if" (trimmed condition)) =
        true := by simp [isHead, hbranch]
    obtain ⟨mid, hinner⟩ := adds_entries children (fun h => absurd h Bool.false_ne_true) hc hu
    have hblock := adds_block hhead (fun _ => hf rfl) hw hinner
    rwa [hbranch] at hblock
  | otherwise children =>
    obtain ⟨u, hu, he⟩ := bind_eq_ok.1 he
    obtain rfl := Except.ok.inj he
    have hhead : isHead "else \x7b" = true := by decide
    have hbranch : isBranchHead "else \x7b" = false := by decide
    obtain ⟨mid, hinner⟩ := adds_entries children (fun h => absurd h Bool.false_ne_true) hc hu
    have hblock := adds_block hhead (fun _ => hf rfl) hw hinner
    rwa [hbranch] at hblock
  | forEach head children =>
    obtain ⟨u, hu, he⟩ := bind_eq_ok.1 he
    obtain rfl := Except.ok.inj he
    obtain ⟨hhead, hbranch, helse⟩ := isBranchHead_forEach head
    obtain ⟨mid, hinner⟩ := adds_entries children (fun h => absurd h Bool.false_ne_true) hc hu
    have hblock := adds_block hhead (fun h =>
      absurd (helse.symm.trans h) Bool.false_ne_true) hw hinner
    rwa [hbranch] at hblock
  | inclusion file arguments children =>
    simp only [Writer.entry] at he
    simp only [entryFrames]
    split at he
    · next hempty =>
      obtain rfl := Except.ok.inj he
      rw [if_pos hempty]
      exact adds_line w (isPlain_inclusion file arguments)
    · next hempty =>
      obtain ⟨u, hu, he⟩ := bind_eq_ok.1 he
      obtain rfl := Except.ok.inj he
      rw [if_neg hempty]
      obtain ⟨mid, hinner⟩ := adds_entries children (fun h => absurd h Bool.false_ne_true) hc hu
      exact adds_capture (isRelease_inclusion file arguments) hinner
  | element tag properties children position =>
    simp only [Writer.entry] at he
    simp only [entryFrames]
    split at he
    · cases he
    · obtain ⟨u, hu, he⟩ := bind_eq_ok.1 he
      rw [literal_literal] at hu
      have hopen :
          Adds level first ([] ++ properties.toList.flatMap propertyFrames ++ []) w
            (u.literal ">") false :=
        ((adds_literal w _).trans (adds_properties hu)).trans (adds_literal u ">")
      split at he
      · next hvoid =>
        obtain rfl := Except.ok.inj he
        rw [if_pos hvoid]
        simpa [Entry.isBranch] using hopen
      · next hvoid =>
        obtain ⟨t, ht, he⟩ := bind_eq_ok.1 he
        obtain rfl := Except.ok.inj he
        rw [if_neg hvoid]
        obtain ⟨mid, hinner⟩ := adds_entries children (fun h => absurd h Bool.false_ne_true) hc ht
        simpa [Entry.isBranch] using (hopen.trans hinner).trans
          (adds_literal t ("</" ++ tag ++ ">"))

theorem adds_entries {options : Options} (es : List Entry) {level : Nat} {first : Bool}
    {w v : Writer} (hw : first = true → w.buffer.pending = "") (hc : areChained first es = true)
    (he : w.entries options level es = .ok v) :
    ∃ last, Adds level first (entriesFrames es) w v last := by
  cases es with
  | nil =>
    cases he
    exact ⟨false, [], by simp, .nil fun h => absurd h Bool.false_ne_true,
      fun h => absurd h Bool.false_ne_true⟩
  | cons e rest =>
    obtain ⟨u, hu, he⟩ := bind_eq_ok.1 he
    simp only [areChained, Bool.and_eq_true, Bool.or_eq_true, Bool.not_eq_true'] at hc
    obtain ⟨⟨hfirst, hchained⟩, hrest⟩ := hc
    have hf : e.continues = true → first = true := fun h => by simpa [h] using hfirst
    have hentry := adds_entry e hf hw hchained hu
    have hpending : e.isBranch = true → u.buffer.pending = "" := by
      obtain ⟨_, _, _, hp⟩ := hentry
      exact hp
    obtain ⟨last, hentries⟩ := adds_entries rest hpending hrest he
    exact ⟨last, hentry.trans hentries⟩
end

end Writer

/-! ## The whole function -/

def functionWriter (template : Template) (options : Options) : Except Fault Writer := do
  let w ← ((preamble template).literal (template.doctype.getD "")).entries options 1 template.body
  return (w.flush 1).line 0 "\x7d;"

theorem renderFunction_eq (template : Template) (options : Options) :
    renderFunction template options = Writer.render <$> functionWriter template options := by
  rw [renderFunction, functionWriter]
  cases ((preamble template).literal
    (template.doctype.getD "")).entries options 1 template.body with
  | error fault => rfl
  | ok w => rfl

theorem isPlain_useLine (declaration : String) : isPlain (useLine declaration) = true := by
  rw [useLine, String.append_assoc]
  exact isPlain_of_apart (by decide) (by decide) _

theorem lines_uses (uses : List String) {w : Writer} (h : w.buffer.pending = "") :
    (uses.foldl (fun w declaration => w.line 0 (useLine declaration)) w).buffer.pending = "" ∧
      (uses.foldl (fun w declaration => w.line 0 (useLine declaration)) w).lines.toList =
        w.lines.toList ++ uses.map fun declaration => ⟨0, useLine declaration⟩ := by
  induction uses generalizing w with
  | nil => simpa using h
  | cons declaration rest ih =>
    obtain ⟨hpending, hlines⟩ := ih (line_pending w 0 (useLine declaration))
    refine ⟨hpending, hlines.trans ?_⟩
    rw [line_lines, flush_of_empty h]
    simp

theorem preamble_lines (template : Template) :
    (preamble template).lines.toList =
      [⟨0, "<?php"⟩] ++ template.uses.map (fun declaration => ⟨0, useLine declaration⟩) ++
        [⟨0, functionHead⟩, ⟨1, "extract($zProps);"⟩, ⟨1, "unset($zProps);"⟩] := by
  have hstart : ({} : Writer).buffer.pending = "" := rfl
  obtain ⟨hpending, hlines⟩ := lines_uses template.uses (line_pending {} 0 "<?php")
  rw [preamble, line_lines, flush_of_empty (line_pending _ _ _), line_lines,
    flush_of_empty (line_pending _ _ _), line_lines, flush_of_empty hpending, hlines,
    line_lines, flush_of_empty hstart]
  simp [functionHead]

theorem foldlM_nextLevel_statements {level : Nat} {lines : List Line}
    (h : ∀ l ∈ lines, l.indent = level ∧ isStatement l.text = true) :
    lines.foldlM nextLevel level = some level := by
  induction lines with
  | nil => rfl
  | cons l rest ih =>
    obtain ⟨⟨rfl, hl⟩, hrest⟩ := List.forall_mem_cons.1 h
    rw [List.foldlM_cons, nextLevel_statement hl]
    exact ih hrest

theorem preamble_level (template : Template) :
    (preamble template).lines.toList.foldlM nextLevel 0 = some 1 := by
  have huses : (template.uses.map fun declaration =>
      (⟨0, useLine declaration⟩ : Line)).foldlM nextLevel 0 =
      some 0 := by
    refine foldlM_nextLevel_statements fun l hl => ?_
    obtain ⟨declaration, -, rfl⟩ := List.mem_map.1 hl
    exact ⟨rfl, isStatement_of_isPlain (isPlain_useLine declaration)⟩
  have hstart : [(⟨0, "<?php"⟩ : Line)].foldlM nextLevel 0 = some 0 := by decide
  have hend :
      [(⟨0, functionHead⟩ : Line), ⟨1, "extract($zProps);"⟩,
        ⟨1, "unset($zProps);"⟩].foldlM nextLevel 0 =
        some 1 := by decide
  rw [preamble_lines, List.foldlM_append, List.foldlM_append, hstart]
  simp only [Option.bind_eq_bind, Option.bind_some, huses, hend]

theorem preamble_fits (template : Template) {before rest after : List Line} {l : Line}
    (h : (preamble template).lines.toList = before ++ l :: rest) : Fits before l after := by
  have hplain : ∀ l ∈ (preamble template).lines.toList, isHead l.text = false ∧
      l.text ≠ captureStart := by
    have hends : ∀ text ∈ ["<?php", functionHead, "extract($zProps);", "unset($zProps);"],
        isHead text = false ∧ text ≠ captureStart := by decide
    intro l hl
    simp only [preamble_lines, List.mem_append, List.mem_map, List.mem_cons, List.not_mem_nil,
      or_false] at hl
    rcases hl with (rfl | ⟨declaration, -, rfl⟩) | rfl | rfl | rfl
    · exact hends _ (by simp)
    · have hstatement := isStatement_of_isPlain (isPlain_useLine declaration)
      exact ⟨isHead_eq_false hstatement, ne_captureStart hstatement⟩
    · exact hends _ (by simp)
    · exact hends _ (by simp)
    · exact hends _ (by simp)
  obtain ⟨hhead, hcapture⟩ := hplain l (by simp [h])
  exact fits_of_not hhead hcapture

/-- Where every branch that continues another one follows it, the lines of a render function are
well nested. The body has the blocks and captures of the template in its order, every line of the
function fits where it stands, and its last line is at level 0. -/
theorem renderFunction_nested {template : Template} {options : Options} {code : String}
    (hc : areChained false template.body = true) (h : renderFunction template options = .ok code) :
    ∃ w body last, functionWriter template options = .ok w ∧ code = w.render ∧
      w.lines.toList = (preamble template).lines.toList ++ body ++ [⟨0, "\x7d;"⟩] ∧
      w.lines.toList.foldlM nextLevel 0 = some 0 ∧ body.foldlM nextCapture 0 = some 0 ∧
      Laid 1 false (entriesFrames template.body) body last ∧
      ∀ before l after, w.lines.toList = before ++ l :: after → Fits before l after := by
  rw [renderFunction_eq] at h
  cases hw : functionWriter template options with
  | error fault =>
    rw [hw] at h
    cases h
  | ok w =>
    rw [hw] at h
    obtain rfl := Except.ok.inj h
    obtain ⟨u, hu, hlast⟩ := bind_eq_ok.1 hw
    obtain rfl := Except.ok.inj hlast
    obtain ⟨mid, hentries⟩ :=
      adds_entries template.body (fun h => absurd h Bool.false_ne_true) hc hu
    obtain ⟨body, hbody, hlaid, -⟩ :=
      hentries.trans (adds_flush u fun h : false = true => absurd h Bool.false_ne_true)
    rw [List.append_nil] at hlaid
    have hlines : ((u.flush 1).line 0 "\x7d;").lines.toList =
        (preamble template).lines.toList ++ body ++ [⟨0, "\x7d;"⟩] := by
      rw [line_lines, flush_of_empty (flush_pending u 1), hbody]
      rfl
    refine ⟨_, body, false, rfl, rfl, hlines, ?_, hlaid.nextCapture_eq 0, hlaid, ?_⟩
    · rw [hlines, List.foldlM_append, List.foldlM_append, preamble_level, Option.bind_eq_bind,
        Option.bind_some, hlaid.nextLevel_eq]
      rfl
    · intro before l after hsplit
      rw [hlines] at hsplit
      rcases append_eq_append_cons hsplit with ⟨rest, hsplit, hafter⟩ | ⟨front, -, hend⟩
      · rw [hafter]
        refine Fits.append ?_ _
        rcases append_eq_append_cons hsplit with ⟨rest, hpreamble, -⟩ | ⟨front, hbefore, hin⟩
        · exact preamble_fits template hpreamble
        · rw [hbefore]
          exact hlaid.fits (fun h => absurd h Bool.false_ne_true) hin
      · have hmem : l ∈ [(⟨0, "\x7d;"⟩ : Line)] := by simp [hend]
        rw [List.mem_singleton.1 hmem]
        exact fits_of_not (show isHead "\x7d;" = false by decide)
          (show "\x7d;" ≠ captureStart by decide)

def menu : Template where
  body := [.when "$empty" [.text "none"],
    .otherwise [.inclusion "list" .empty
      [.forEach "$items as $i" [.element "br" ⟨[(spreadProperty, .text "$i")],
        by simp⟩ [] .start]]]]
  uses := []
  doctype := none

def menuCode : String :=
  "<?php\nreturn function($zRenderer, $zProps, $innerHTML = '') \x7b\n    extract($zProps);\n" ++
    "    unset($zProps);\n    if ($empty) \x7b\n        echo \"none\";\n    \x7d\n    else \x7b\n" ++
    "        ob_start();\n        foreach ($items as $i) \x7b\n            echo \"<br\";\n" ++
    "            foreach ($i as $zKey => $zValue) \x7b\n" ++
    "                echo \" \" . $zKey . \"=\\\"\" . $zRenderer->escapeProperty($zValue) . \"\\\"\";\n" ++
    "            \x7d\n            echo \">\";\n        \x7d\n" ++
    "        $zRenderer->render(\"list\", [], ob_get_clean());\n    \x7d\n\x7d;\n"

theorem renderFunction_nested_menu :
    areChained false menu.body = true ∧ renderFunction menu {} = .ok menuCode ∧
      ∃ w body last, functionWriter menu {} = .ok w ∧ menuCode = w.render ∧
        w.lines.toList.foldlM nextLevel 0 = some 0 ∧
        Laid 1 false [.block "if ($empty) \x7b" [],
          .block "else \x7b" [.capture "$zRenderer->render(\"list\", [], ob_get_clean());"
            [.block "foreach ($items as $i) \x7b" [.block "foreach ($i as $zKey => $zValue) \x7b" []]]]]
          body last ∧
        ∀ before l after, w.lines.toList = before ++ l :: after → Fits before l after := by
  have hc : areChained false menu.body = true := by decide
  have hcode : renderFunction menu {} = .ok menuCode := by decide +kernel
  have hframes : entriesFrames menu.body = [.block "if ($empty) \x7b" [],
      .block "else \x7b" [.capture "$zRenderer->render(\"list\", [], ob_get_clean());"
        [.block "foreach ($items as $i) \x7b" [.block "foreach ($i as $zKey => $zValue) \x7b" []]]]] := by
    with_unfolding_all rfl
  obtain ⟨w, body, last, hw, hrender, -, hlevel, -, hlaid, hfits⟩ := renderFunction_nested hc hcode
  rw [hframes] at hlaid
  exact ⟨hc, hcode, w, body, last, hw, hrender, hlevel, hlaid, hfits⟩

end TemplateCompiler.Code
