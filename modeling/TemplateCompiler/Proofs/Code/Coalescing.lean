import Mathlib.Data.List.SplitBy
import TemplateCompiler.Code.RenderFunction

/-! # Static markup is written in maximal runs

The trace of a template lists what its entries emit, in order and without any buffer: static
fragments and lines. The function body is the trace with every maximal run of fragments
replaced by one `echo`. The invariant `Writer.Shows` splits the trace emitted so far into
what has been written and the run that is still pending.
-/
namespace TemplateCompiler.Code
open Markup Directive Host Writer

inductive Item where
  | fragment (indent : Nat) (markup : String)
  | line (line : Line)

namespace Item

def isFragment : Item → Bool
  | fragment .. => true
  | line _ => false

def markup : Item → String
  | fragment _ markup => markup
  | line _ => ""

end Item

/-! ## The trace -/

def slotLine : Slot → String
  | .inner => "echo $innerHTML;"
  | .scripts => "$zRenderer->renderScripts();"
  | .stylesheets => "$zRenderer->renderStylesheets();"

def textTrace (indent : Nat) (content : String) : List Item :=
  if mayHoldCode content then
    [.line ⟨indent, "echo $zRenderer->escapeText(" ++ expression content ++ ");"⟩]
  else [.fragment indent (escapeText content)]

def rawTrace (indent : Nat) (content : String) : List Item :=
  if mayHoldCode content then [.line ⟨indent, "echo " ++ expression content ++ ";"⟩]
  else [.line ⟨indent, "echo " ++ staticLiteral content ++ ";"⟩]

def valueTrace (indent : Nat) (content : String) : List Item :=
  if mayHoldCode content then
    [.line ⟨indent, "echo $zRenderer->escapeProperty(" ++ expression content ++ ");"⟩]
  else [.fragment indent (escapeProperty content)]

def spreadTrace (indent : Nat) (mapping : String) : List Item :=
  [.line ⟨indent, blockHead "foreach" (trimmed mapping ++ " as $zKey => $zValue")⟩,
    .line ⟨indent + 1,
      "echo \" \" . $zKey . \"=\\\"\" . $zRenderer->escapeProperty($zValue) . \"\\\"\";"⟩,
    .line ⟨indent, "\x7d"⟩]

def propertyTrace (options : Options) (indent : Nat) : String × Value → List Item
  | (_, .null) => []
  | (name, .flag) =>
    if options.isBooleanAttribute name then [.fragment indent (" " ++ name)]
    else [.fragment indent (" " ++ name ++ "=\"\"")]
  | (name, .text content) =>
    if name = spreadProperty then spreadTrace indent content
    else
      [.fragment indent (" " ++ name ++ "=\"")] ++ valueTrace indent content ++
        [.fragment indent "\""]

def blockTrace (indent : Nat) (head : String) (inner : List Item) : List Item :=
  [.line ⟨indent, head⟩] ++ inner ++ [.line ⟨indent, "\x7d"⟩]

mutual
def entryTrace (options : Options) (indent : Nat) : Entry → List Item
  | .text content => textTrace indent content
  | .raw content => rawTrace indent content
  | .slot slot => [.line ⟨indent, slotLine slot⟩]
  | .when condition children =>
    blockTrace indent (blockHead "if" (trimmed condition))
      (entriesTrace options (indent + 1) children)
  | .elseWhen condition children =>
    blockTrace indent (blockHead "else if" (trimmed condition))
      (entriesTrace options (indent + 1) children)
  | .otherwise children =>
    blockTrace indent "else \x7b" (entriesTrace options (indent + 1) children)
  | .forEach head children =>
    blockTrace indent (blockHead "foreach" head) (entriesTrace options (indent + 1) children)
  | .inclusion file arguments children =>
    if children.isEmpty then [.line ⟨indent, inclusion file arguments "''"⟩]
    else
      [.line ⟨indent, "ob_start();"⟩] ++ entriesTrace options indent children ++
        [.line ⟨indent, inclusion file arguments "ob_get_clean()"⟩]
  | .element tag properties children _ =>
    [.fragment indent ("<" ++ tag)] ++
      properties.toList.flatMap (propertyTrace options indent) ++ [.fragment indent ">"] ++
      if isVoid tag then []
      else entriesTrace options indent children ++ [.fragment indent ("</" ++ tag ++ ">")]

def entriesTrace (options : Options) (indent : Nat) : List Entry → List Item
  | [] => []
  | e :: rest => entryTrace options indent e ++ entriesTrace options indent rest
end

/-- What a template emits in the body of its function. -/
def trace (template : Template) (options : Options) : List Item :=
  template.doctype.toList.map (Item.fragment 1) ++ entriesTrace options 1 template.body

/-! ## Runs -/

def bothFragments (a b : Item) : Bool := a.isFragment && b.isFragment

def runLines : List Item → List Line
  | [] => []
  | .line l :: _ => [l]
  | .fragment indent markup :: rest =>
    let text := String.join (markup :: rest.map Item.markup)
    if text.isEmpty then [] else [⟨indent, "echo " ++ staticLiteral text ++ ";"⟩]

/-- The lines of a trace, and its maximal runs of fragments. -/
def runs (items : List Item) : List (List Item) := items.splitBy bothFragments

def coalesce (items : List Item) : List Line := (runs items).flatMap runLines

def IsRun (indent : Nat) (run : List Item) :
    Prop := ∀ x ∈ run, ∃ markup, x = .fragment indent markup

def IsPiece (piece : List Item) : Prop :=
  (∃ l, piece = [.line l]) ∨ piece ≠ [] ∧ ∃ indent, IsRun indent piece

theorem runs_append_line (items : List Item) (l : Line) :
    runs (items ++ [.line l]) = runs items ++ [[.line l]] := by
  have hline : [Item.line l].splitBy bothFragments = [[.line l]] := rfl
  rw [runs, List.splitBy_append, hline, runs]
  intro x _ y hy
  have hy : y = Item.line l := by simpa using hy.symm
  simp [bothFragments, hy, Item.isFragment]

theorem runs_append_run {indent : Nat} {done run : List Item} (hr : IsRun indent run)
    (hd : ∀ x ∈ done.getLast?, x.isFragment = false) :
    runs (done ++ run) = runs done ++ if run = [] then [] else [run] := by
  have hrun : run.splitBy bothFragments = if run = [] then [] else [run] := by
    split
    · next h =>
      subst h
      rfl
    · next hne =>
      refine List.splitBy_of_isChain hne (List.Pairwise.isChain ?_)
      refine List.pairwise_of_forall_mem_list ?_
      intro x hx y hy
      obtain ⟨m, rfl⟩ := hr x hx
      obtain ⟨n, rfl⟩ := hr y hy
      rfl
  rw [runs, List.splitBy_append, hrun, runs]
  intro x hx y _
  simp [bothFragments, hd x hx]

theorem runLines_run {indent : Nat} {run : List Item} (h : IsRun indent run) :
    runLines run =
      if (String.join (run.map Item.markup)).isEmpty then []
      else [⟨indent, "echo " ++ staticLiteral (String.join (run.map Item.markup)) ++ ";"⟩] := by
  cases run with
  | nil => rfl
  | cons x rest =>
    obtain ⟨markup, rfl⟩ := h x List.mem_cons_self
    rfl

/-! ## The writer's invariant -/

/-- Behind the lines of `start` the lines written are the trace up to its last run, which is
pending. -/
def Writer.Shows (start : List Line) (w : Writer) (indent : Nat) (items : List Item) : Prop :=
  ∃ done run, items = done ++ run ∧ IsRun indent run ∧ (∀ x ∈ done.getLast?, x.isFragment = false) ∧
    w.lines.toList = start ++ coalesce done ∧ (∀ piece ∈ runs done, IsPiece piece) ∧
    w.buffer.pending = String.join (run.map Item.markup)

namespace Writer
variable {start : List Line} {w v : Writer} {indent : Nat} {items : List Item}

theorem Shows.literal (h : Shows start w indent items) (markup : String) :
    Shows start (w.literal markup) indent (items ++ [.fragment indent markup]) := by
  obtain ⟨done, run, rfl, hr, hd, hl, hp, hb⟩ := h
  refine ⟨done, run ++ [.fragment indent markup], by simp, ?_, hd, hl, hp, ?_⟩
  · intro x hx
    rcases List.mem_append.1 hx with hx | hx
    · exact hr x hx
    · exact ⟨markup, List.mem_singleton.1 hx⟩
  · simp [Writer.literal, LiteralBuffer.push, hb, String.join, Item.markup]

theorem literal_literal (w : Writer) (a b : String) :
    (w.literal a).literal b = w.literal (a ++ b) := by
  simp [Writer.literal, LiteralBuffer.push, String.append_assoc]

theorem literal_empty (w : Writer) : w.literal "" = w := by
  simp [Writer.literal, LiteralBuffer.push]

theorem flush_eq {run : List Item} (hr : IsRun indent run)
    (hb : w.buffer.pending = String.join (run.map Item.markup)) :
    (w.flush indent).buffer.pending = "" ∧
      (w.flush indent).lines.toList = w.lines.toList ++ runLines run := by
  rw [runLines_run hr, ← hb, flush, LiteralBuffer.takeStatement]
  by_cases he : w.buffer.pending.isEmpty = true
  · have hempty : w.buffer.pending = "" := by simpa using he
    simp [LiteralBuffer.isEmpty, hempty]
  · simp [LiteralBuffer.isEmpty, he, LiteralBuffer.echo]

theorem flush_of_empty (h : w.buffer.pending = "") (indent : Nat) : w.flush indent = w := by
  simp [flush, LiteralBuffer.takeStatement, LiteralBuffer.isEmpty, h]

theorem Shows.flush (h : Shows start w indent items) :
    (w.flush indent).buffer.pending = "" ∧
      (w.flush indent).lines.toList = start ++ coalesce items ∧
      ∀ piece ∈ runs items, IsPiece piece := by
  obtain ⟨done, run, rfl, hr, hd, hl, hp, hb⟩ := h
  obtain ⟨hb', hl'⟩ := flush_eq hr hb
  refine ⟨hb', ?_, ?_⟩
  · rw [hl', hl, coalesce, coalesce, runs_append_run hr hd]
    split
    · next hn => simp [hn, runLines]
    · simp
  · rw [runs_append_run hr hd]
    intro piece hpiece
    rcases List.mem_append.1 hpiece with hpiece | hpiece
    · exact hp piece hpiece
    · split at hpiece
      · cases hpiece
      · next hne =>
        rw [List.mem_singleton.1 hpiece]
        exact .inr ⟨hne, indent, hr⟩

theorem Shows.flush_line (h : Shows start w indent items) (outer : Nat) (text : String)
    (next : Nat) :
    Shows start ((w.flush indent).line outer text) next (items ++ [.line ⟨outer, text⟩]) := by
  obtain ⟨hb, hl, hp⟩ := h.flush
  refine ⟨items ++ [.line ⟨outer, text⟩], [], by simp, by simp [IsRun], ?_, ?_, ?_, ?_⟩
  · intro x hx
    have hx : x = Item.line ⟨outer, text⟩ := by simpa using hx.symm
    rw [hx]
    rfl
  · rw [coalesce, runs_append_line]
    simp [Writer.line, flush_of_empty hb, hl, coalesce, runLines]
  · rw [runs_append_line]
    intro piece hpiece
    rcases List.mem_append.1 hpiece with hpiece | hpiece
    · exact hp piece hpiece
    · rw [List.mem_singleton.1 hpiece]
      exact .inl ⟨_, rfl⟩
  · simp [Writer.line, flush_of_empty hb, hb, String.join]

theorem Shows.line (h : Shows start w indent items) (text : String) (next : Nat) :
    Shows start (w.line indent text) next (items ++ [.line ⟨indent, text⟩]) := by
  have heq : w.line indent text = (w.flush indent).line indent text := by
    simp only [Writer.line, flush_of_empty h.flush.1]
  rw [heq]
  exact h.flush_line indent text next

theorem Shows.endBlock (h : Shows start w (indent + 1) items) :
    Shows start (w.endBlock indent) indent (items ++ [.line ⟨indent, "\x7d"⟩]) :=
  h.flush_line indent _ indent

theorem Shows.text (h : Shows start w indent items) (content : String) :
    Shows start (w.text indent content) indent (items ++ textTrace indent content) := by
  unfold Writer.text textTrace
  split
  · exact h.line _ indent
  · exact h.literal _

theorem Shows.raw (h : Shows start w indent items) (content : String) :
    Shows start (w.raw indent content) indent (items ++ rawTrace indent content) := by
  unfold Writer.raw rawTrace
  split
  · exact h.line _ indent
  · exact h.line _ indent

theorem Shows.slot (h : Shows start w indent items) (slot : Slot) :
    Shows start (w.slot indent slot) indent (items ++ [.line ⟨indent, slotLine slot⟩]) := by
  cases slot <;> exact h.line _ indent

theorem Shows.spread (h : Shows start w indent items) (mapping : String) :
    Shows start (w.spread indent mapping) indent (items ++ spreadTrace indent mapping) := by
  have hhead := h.line (blockHead "foreach" (trimmed mapping ++ " as $zKey => $zValue"))
    (indent + 1)
  have hpair := hhead.line
    "echo \" \" . $zKey . \"=\\\"\" . $zRenderer->escapeProperty($zValue) . \"\\\"\";" indent
  have hend := hpair.line "\x7d" indent
  rw [Writer.spread, spreadTrace]
  simpa using hend

theorem Shows.property {options : Options} {faultAt : Cause → Fault} {p : String × Value}
    (h : Shows start w indent items) (hp : w.property options indent faultAt p = .ok v) :
    Shows start v indent (items ++ propertyTrace options indent p) := by
  obtain ⟨name, value⟩ := p
  cases value with
  | null =>
    cases hp
    simpa only [propertyTrace, List.append_nil] using h
  | flag =>
    simp only [Writer.property] at hp
    split at hp
    · cases hp
    · simp only [propertyTrace]
      split at hp
      · next hb =>
        obtain rfl := Except.ok.inj hp
        rw [if_pos hb]
        exact h.literal _
      · next hb =>
        obtain rfl := Except.ok.inj hp
        rw [if_neg hb]
        exact h.literal _
  | text content =>
    simp only [Writer.property] at hp
    simp only [propertyTrace]
    split at hp
    · next hs =>
      obtain rfl := Except.ok.inj hp
      rw [if_pos hs]
      exact h.spread content
    · next hs =>
      obtain rfl := Except.ok.inj hp
      rw [if_neg hs]
      have hname := h.literal (" " ++ name ++ "=\"")
      have hvalue : ∀ {w : Writer} {items : List Item}, Shows start w indent items →
          Shows start (if mayHoldCode content then
            w.line indent ("echo $zRenderer->escapeProperty(" ++ expression content ++ ");")
          else w.literal (escapeProperty content)) indent (items ++ valueTrace indent content) := by
        intro w items h
        unfold valueTrace
        split
        · exact h.line _ indent
        · exact h.literal _
      simpa only [List.append_assoc] using (hvalue hname).literal "\""

theorem Shows.properties {options : Options} {faultAt : Cause → Fault}
    {properties : List (String × Value)} (h : Shows start w indent items)
    (hp : properties.foldlM (fun w p => w.property options indent faultAt p) w = .ok v) :
    Shows start v indent (items ++ properties.flatMap (propertyTrace options indent)) := by
  induction properties generalizing w items with
  | nil =>
    cases hp
    simpa using h
  | cons p rest ih =>
    rw [List.foldlM_cons] at hp
    obtain ⟨u, hu, hp⟩ := bind_eq_ok.1 hp
    simpa only [List.flatMap_cons, List.append_assoc] using ih (h.property hu) hp

/-- A block is a line, its content one level deeper and a closing brace. -/
theorem Shows.block (h : Shows start w indent items) {head : String} {inner : List Item}
    (hv : ∀ {items : List Item}, Shows start (w.line indent head) (indent + 1) items →
      Shows start v (indent + 1) (items ++ inner)) :
    Shows start (v.endBlock indent) indent (items ++ blockTrace indent head inner) := by
  have hend := (hv (h.line head (indent + 1))).endBlock
  simpa only [blockTrace, List.append_assoc] using hend

mutual
theorem Shows.entry {options : Options} (e : Entry) {w v : Writer} {indent : Nat}
    {items : List Item} (h : Shows start w indent items) (he : w.entry options indent e = .ok v) :
    Shows start v indent (items ++ entryTrace options indent e) := by
  cases e with
  | text content =>
    obtain rfl := Except.ok.inj he
    exact h.text content
  | raw content =>
    obtain rfl := Except.ok.inj he
    exact h.raw content
  | slot slot =>
    obtain rfl := Except.ok.inj he
    exact h.slot slot
  | when condition children =>
    obtain ⟨u, hu, he⟩ := bind_eq_ok.1 he
    obtain rfl := Except.ok.inj he
    exact h.block fun h => h.entries children hu
  | elseWhen condition children =>
    obtain ⟨u, hu, he⟩ := bind_eq_ok.1 he
    obtain rfl := Except.ok.inj he
    exact h.block fun h => h.entries children hu
  | otherwise children =>
    obtain ⟨u, hu, he⟩ := bind_eq_ok.1 he
    obtain rfl := Except.ok.inj he
    exact h.block fun h => h.entries children hu
  | forEach head children =>
    obtain ⟨u, hu, he⟩ := bind_eq_ok.1 he
    obtain rfl := Except.ok.inj he
    exact h.block fun h => h.entries children hu
  | inclusion file arguments children =>
    simp only [Writer.entry] at he
    simp only [entryTrace]
    split at he
    · next hempty =>
      obtain rfl := Except.ok.inj he
      rw [if_pos hempty]
      exact h.line _ indent
    · next hempty =>
      obtain ⟨u, hu, he⟩ := bind_eq_ok.1 he
      obtain rfl := Except.ok.inj he
      rw [if_neg hempty]
      have hinner := (h.line "ob_start();" indent).entries children hu
      simpa only [List.append_assoc] using hinner.line _ indent
  | element tag properties children position =>
    simp only [Writer.entry] at he
    simp only [entryTrace]
    split at he
    · cases he
    · obtain ⟨u, hu, he⟩ := bind_eq_ok.1 he
      rw [literal_literal] at hu
      have hopen := ((h.literal ("<" ++ tag)).properties hu).literal ">"
      split at he
      · next hvoid =>
        obtain rfl := Except.ok.inj he
        rw [if_pos hvoid]
        simpa using hopen
      · next hvoid =>
        obtain ⟨t, ht, he⟩ := bind_eq_ok.1 he
        obtain rfl := Except.ok.inj he
        rw [if_neg hvoid]
        simpa using (hopen.entries children ht).literal ("</" ++ tag ++ ">")

theorem Shows.entries {options : Options} {w v : Writer} {indent : Nat} {items : List Item}
    (h : Shows start w indent items) (es : List Entry) (he : w.entries options indent es = .ok v) :
    Shows start v indent (items ++ entriesTrace options indent es) := by
  cases es with
  | nil =>
    cases he
    simpa only [entriesTrace, List.append_nil] using h
  | cons e rest =>
    obtain ⟨u, hu, he⟩ := bind_eq_ok.1 he
    simpa only [entriesTrace, List.append_assoc] using (h.entry e hu).entries rest he
end

@[simp]
theorem line_pending (w : Writer) (indent : Nat) (text : String) :
    (w.line indent text).buffer.pending = "" := by
  unfold Writer.line flush LiteralBuffer.takeStatement
  split
  · next hw =>
    split at hw
    · next he => simpa [LiteralBuffer.isEmpty] using he
    · cases hw
  · next hw =>
    split at hw
    · cases hw
    · cases hw
      rfl

theorem shows_of_empty (h : w.buffer.pending = "") (indent : Nat) :
    Shows w.lines.toList w indent [] :=
  ⟨[], [], rfl, by simp [IsRun], by simp, by simp [coalesce, runs], by simp [runs], h⟩

end Writer

/-- One of two pieces is a line. -/
def Interrupted (a b : List Item) : Prop := (∃ l, a = [.line l]) ∨ ∃ l, b = [.line l]

theorem runs_interrupted {items : List Item} (h : ∀ piece ∈ runs items, IsPiece piece) :
    (runs items).IsChain Interrupted := by
  refine (List.isChain_getLast_head_splitBy bothFragments items).imp_of_mem_imp ?_
  rintro a b ha hb ⟨hna, hnb, hne⟩
  rcases h a ha with hline | ⟨_, i, hra⟩
  · exact .inl hline
  rcases h b hb with hline | ⟨_, j, hrb⟩
  · exact .inr hline
  obtain ⟨m, hm⟩ := hra _ (List.getLast_mem hna)
  obtain ⟨n, hn⟩ := hrb _ (List.head_mem hnb)
  rw [hm, hn] at hne
  cases hne

theorem shows_doctype {w : Writer} (hw : w.buffer.pending = "") (doctype : Option String) :
    Shows w.lines.toList (w.literal (doctype.getD "")) 1
      (doctype.toList.map (Item.fragment 1)) := by
  cases doctype with
  | none => exact shows_of_empty (by simp [Writer.literal, LiteralBuffer.push, hw]) 1
  | some markup => exact (shows_of_empty hw 1).literal markup

/-- The lines of a render function are those before its body, the trace of the template with each
maximal run of fragments as one line, and the closing brace. -/
theorem renderFunction_lines {template : Template} {options : Options} {code : String}
    (h : renderFunction template options = .ok code) :
    code = String.join
        (((preamble template).lines.toList ++ coalesce (trace template options) ++
          [(⟨0, "\x7d;"⟩ : Line)]).map Line.render) ∧
      (runs (trace template options)).flatten = trace template options ∧
      (∀ piece ∈ runs (trace template options), IsPiece piece) ∧
      (runs (trace template options)).IsChain Interrupted := by
  obtain ⟨w, hw, h⟩ := bind_eq_ok.1 h
  have hcode : ((w.flush 1).line 0 "\x7d;").render = code := Except.ok.inj h
  have hstart : (preamble template).buffer.pending = "" := Writer.line_pending _ _ _
  have hbody := (shows_doctype hstart template.doctype).entries template.body hw
  obtain ⟨hb, hl, hp⟩ := hbody.flush
  refine ⟨?_, List.flatten_splitBy _ _, hp, runs_interrupted hp⟩
  rw [← hcode]
  simp [Writer.render, Writer.line, flush_of_empty hb, hl, trace]

def paragraph : Template :=
  ⟨[.element "p" .empty [.text "a < b ", .text "$x"] .start], [], some "<!DOCTYPE html>"⟩

def paragraphCode : String :=
  "<?php\nreturn function($zRenderer, $zProps, $innerHTML = '') \x7b\n    extract($zProps);\n" ++
    "    unset($zProps);\n    echo \"<!DOCTYPE html><p>a &lt; b \";\n" ++
    "    echo $zRenderer->escapeText($x);\n    echo \"</p>\";\n\x7d;\n"

/-- The doctype, the tag and its static text are one run, which the variable interrupts. -/
theorem renderFunction_lines_paragraph :
    renderFunction paragraph {} = .ok paragraphCode ∧
      paragraphCode = String.join
        (((preamble paragraph).lines.toList ++ coalesce (trace paragraph {}) ++
          [(⟨0, "\x7d;"⟩ : Line)]).map Line.render) ∧
      (runs (trace paragraph {})).IsChain Interrupted := by
  have h : renderFunction paragraph {} = .ok paragraphCode := by decide +kernel
  obtain ⟨hcode, _, _, hchain⟩ := renderFunction_lines h
  exact ⟨h, hcode, hchain⟩

end TemplateCompiler.Code
