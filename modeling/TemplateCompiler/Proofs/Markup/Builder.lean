import TemplateCompiler.Proofs.Markup.State

/-! # Building the arena while reading

A builder reads a document straight into an arena. What it knows of the open elements is the number
of the entry it stands in and their count, and these two and the arena change one after the other: a
tag is entered before its properties are read, which are written into its entry one by one, it is
left again if it does not open, and it is counted only then. A construct that fails leaves all this
where it was at the time. Between constructs a builder is in the state of a reader.
-/
namespace TemplateCompiler.Markup
open Text

/-! ## Changing entries -/

def Item.insertProperty (property : String) (value : Value) : Item → Item
  | .tag name properties => .tag name (properties.insert property value)
  | item => item

def Item.tagName? : Item → Option String
  | .tag name _ => some name
  | _ => none

namespace Arena

def insertProperty (a : Arena) (id : Nat) (name : String) (value : Value) : Arena where
  entries := a.entries.modify id fun e => { e with item := e.item.insertProperty name value }
  younger := by
    intro n e h c hc
    rw [Array.getElem?_modify] at h
    split at h
    · obtain ⟨old, hold, rfl⟩ := Option.map_eq_some_iff.1 h
      exact a.younger n old hold c hc
    · exact a.younger n e h c hc

def tagName? (a : Arena) (id : Nat) : Option String := a.entries[id]?.bind fun e => e.item.tagName?

def parent (a : Arena) (id : Nat) : Nat := (a.entries[id]?.bind Entry.parent).getD 0

def position (a : Arena) (id : Nat) : Position := (a.entries[id]?.map Entry.position).getD .start

def topLevel (a : Arena) : List Nat := (a.entries[0]?.map Entry.children).getD []

end Arena

/-! ## The builder -/

structure Builder extends State where
  reading : Cursor

/-- How a builder leaves a construct: with a value, with a fault and the state it was in, or because
the count of open elements would go below zero. -/
inductive Exit (α : Type) where
  | done (value : α) (b : Builder)
  | failed (fault : Fault) (s : State)
  | underflow

namespace Builder

def ofSource (source : String) : Builder := ⟨⟨.empty, 0, 0⟩, .ofSource source⟩

def append (b : Builder) (item : Item) (position : Position) (c : Cursor) : Builder :=
  { b with reading := c, arena := b.arena.append b.current item position }

/-- Behind a run of layout, which counts as one space. -/
def space (b : Builder) : Builder :=
  let layout := b.reading.run isLayout
  if layout.1 = [] then b else b.append (.text " ") b.reading.position layout.2

theorem length_space (b : Builder) :
    (b.reading.run isLayout).1.length + b.space.reading.rest.length = b.reading.rest.length := by
  have hrun := b.reading.length_run isLayout
  unfold space
  simp only
  split
  · next h => simp [h]
  · exact hrun

theorem length_lt_of_value {c d : Cursor} {value : Value}
    (hn : (c.skipLayout.run isPropertyNameChar).1 ≠ [])
    (hv : readValue (String.ofList (c.skipLayout.run isPropertyNameChar).1)
      (c.skipLayout.run isPropertyNameChar).2 = .ok (value, d)) :
    d.rest.length < c.rest.length := by
  have hvalue := length_readValue_le hv
  have hname := c.skipLayout.length_run isPropertyNameChar
  have hskip := c.length_skipLayout_le
  have hpositive := List.length_pos_iff.2 hn
  omega

def skip (b : Builder) : Exit Unit :=
  match hc : b.space.reading.accept? ['<', '!', '-', '-'] with
  | some c =>
    match hd : c.through? ['-', '-', '>'] with
    | none => .failed (c.fault .unclosedComment c.position nearLength) b.space.toState
    | some (_, d) =>
      have : d.rest.length < b.reading.rest.length := by
        have hspace := b.length_space
        have haccept := Cursor.length_accept? hc
        have hthrough := Cursor.length_through? hd
        simp only [List.length_cons, List.length_nil] at haccept
        omega
      { b.space with reading := d }.skip
  | none =>
    if hl : (b.reading.run isLayout).1 = [] then .done () b
    else
      have : b.space.reading.rest.length < b.reading.rest.length := by
        have hspace := b.length_space
        have hlayout := List.length_pos_iff.2 hl
        omega
      b.space.skip
termination_by b.reading.rest.length

def closing (b : Builder) (start : Position) : Exit Unit :=
  match Reader.voidCloser? b.reading with
  | some (name, count) => .failed (b.reading.fault (.voidWithChildren name) start count) b.toState
  | none =>
    match b.arena.tagName? b.current with
    | none => .failed (b.reading.fault .closerWithoutOpener start nearLength) b.toState
    | some name =>
      match b.reading.accept? (name.toList ++ ['>']) with
      | none =>
        .failed (b.reading.fault (.wrongCloser name) b.reading.position (name.length + 1)) b.toState
      | some c =>
        let left := { b with reading := c, current := b.arena.parent b.current }
        match left.depth with
        | 0 => .underflow
        | depth + 1 => .done () { left with depth }

def doctype (b : Builder) (start : Position) : Exit Unit :=
  if b.current ≠ 0 ∨ b.arena.topLevel ≠ [] then
    .failed (b.reading.fault .misplacedDoctype start nearLength) b.toState
  else
    match b.reading.through? ['>'] with
    | none => .failed (b.reading.fault .unclosedDoctype start 5) b.toState
    | some (content, c) =>
      let literal := String.ofList (['<', '!'] ++ content ++ ['>'])
      .done () { b with reading := c, arena := b.arena.append 0 (.doctype literal) start }

/-- Writes properties into an entry up to the end of its tag, and says whether that end opens. -/
def properties (b : Builder) (id : Nat) (tag : Position) : Exit Bool :=
  let c := b.reading.skipLayout
  if c.rest = [] then .failed (c.fault .endInsideTag tag nearLength) b.toState
  else
    match c.accept? ['/', '>'] with
    | some d => .done false { b with reading := d }
    | none =>
      match c.accept? ['>'] with
      | some d => .done true { b with reading := d }
      | none =>
        let name := c.run isPropertyNameChar
        if hn : name.1 = [] then
          .failed (c.fault .unexpectedCharacter c.position nearLength) b.toState
        else
          match hv : readValue (String.ofList name.1) name.2 with
          | .error fault => .failed fault b.toState
          | .ok (value, d) =>
            have : d.rest.length < b.reading.rest.length := length_lt_of_value hn hv
            let arena := b.arena.insertProperty id (String.ofList name.1) value
            { b with reading := d, arena }.properties id tag
termination_by b.reading.rest.length

/-- Behind an opening tag, which is left again if it does not open. -/
def opened (b : Builder) (id : Nat) (name : String) (opens : Bool) (start : Position) : Exit Unit :=
  if !opens || isVoid name then .done () { b with current := b.arena.parent id }
  else
    let counted := { b with depth := b.depth + 1 }
    if maxDepth < counted.depth then .failed ⟨.nestingTooDeep, start, "<" ++ name⟩ counted.toState
    else .done () counted

def opening (b : Builder) (start : Position) : Exit Unit :=
  let name := b.reading.run isTagNameChar
  if name.2.rest = [] then .failed (b.reading.fault .unclosedTag start 5) b.toState
  else if name.1 = [] then .failed (b.reading.fault .missingTagName start 5) b.toState
  else
    let tag := String.ofList name.1
    let id := b.arena.size
    let entered := { b.append (.tag tag .empty) start name.2 with current := id }
    match entered.properties id start with
    | .failed fault s => .failed fault s
    | .underflow => .underflow
    | .done opens read => read.opened id tag opens start

def element (b : Builder) : Exit Unit :=
  match b.skip with
  | .failed fault s => .failed fault s
  | .underflow => .underflow
  | .done () b =>
    let start := b.reading.position
    if b.reading.rest = [] then .done () b
    else
      match b.reading.accept? ['<'] with
      | none =>
        let text := b.reading.run (· ≠ '<')
        .done () (b.append (.text (String.ofList text.1)) start text.2)
      | some c =>
        match c.accept? ['/'] with
        | some d => { b with reading := d }.closing start
        | none =>
          match c.accept? ['!'] with
          | some d => { b with reading := d }.doctype start
          | none => { b with reading := c }.opening start

def finish (b : Builder) : Except Fault Arena :=
  if b.current = 0 then .ok b.arena
  else
    let name := (b.arena.tagName? b.current).getD ""
    .error (b.reading.fault (.elementLeftOpen name) (b.arena.position b.current) 0)

/-- The builders at the start of the elements that are read. -/
inductive Visits : Builder → Builder → Prop
  | refl (b : Builder) : Visits b b
  | step {b c d : Builder} (hne : b.reading.rest ≠ []) (h : b.element = .done () c)
    (hv : Visits c d) :
    Visits b d

/-- How reading element after element ends. -/
inductive Runs : Builder → Except Fault Arena → Prop
  | finish {b : Builder} (h : b.reading.rest = []) : Runs b b.finish
  | fail {b : Builder} {fault : Fault} {s : State} (hne : b.reading.rest ≠ [])
    (h : b.element = .failed fault s) : Runs b (.error fault)
  | step {b c : Builder} {result : Except Fault Arena} (hne : b.reading.rest ≠ [])
    (h : b.element = .done () c) (hr : Runs c result) : Runs b result

end Builder

/-! ## Constructs -/

theorem Properties.Present.insert {properties : Properties} {name : String} {value : Value}
    (h : properties.Present) (hv : value ≠ .null) : (properties.insert name value).Present := by
  refine ⟨(properties.insert name value).distinct, fun p hp => ?_⟩
  rcases mem_insertEntry hp with rfl | hp
  · exact hv
  · exact h.2 p hp

theorem present_empty :
    Properties.empty.Present := ⟨List.nodup_nil, fun _ h => absurd h List.not_mem_nil⟩

theorem readValue_ne_null {property : String} {c d : Cursor} {value : Value}
    (h : readValue property c = .ok (value, d)) : value ≠ .null := by
  rcases readValue_eq_ok_iff.1 h with ⟨rfl, -⟩ | ⟨raw, rfl, -⟩
  · exact nofun
  · exact nofun

namespace Arena

variable {a : Arena} {parent id : Nat} {e : Entry} {position : Position}

theorem ext_getElem? {b : Arena} (h : ∀ id : Nat, a.entries[id]? = b.entries[id]?) : a = b := by
  obtain ⟨entries, younger⟩ := a
  obtain ⟨entries', younger'⟩ := b
  obtain rfl : entries = entries' := Array.ext_getElem? h
  rfl

/-- A property of the newest entry could have been there from the start. -/
theorem insertProperty_append (hp : parent < a.size) (name property : String)
    (properties : Properties) (value : Value) :
    (a.append parent (.tag name properties) position).insertProperty a.size property value =
      a.append parent (.tag name (properties.insert property value)) position := by
  refine ext_getElem? fun id => ?_
  have hinsert : ∀ b : Arena, (b.insertProperty a.size property value).entries[id]? =
      if a.size = id then b.entries[id]?.map fun e =>
        { e with item := e.item.insertProperty property value }
      else b.entries[id]? := fun _ => Array.getElem?_modify
  rw [hinsert]
  rcases Nat.lt_trichotomy id a.size with hlt | rfl | hgt
  · obtain ⟨e, he⟩ := getElem?_of_lt_size hlt
    rw [if_neg (Nat.ne_of_gt hlt), getElem?_append_old hp he, getElem?_append_old hp he]
  · rw [if_pos rfl, getElem?_append_new hp, getElem?_append_new hp]
    rfl
  · have hnone : ∀ item, (a.append parent item position).entries[id]? = none := by
      intro item
      have hsize : (a.append parent item position).size = a.size + 1 := size_append hp
      exact Array.getElem?_eq_none (by rw [size] at hsize; omega)
    rw [if_neg (Nat.ne_of_lt hgt), hnone, hnone]

theorem tagName?_of_getElem? (he : a.entries[id]? = some e) : a.tagName? id = e.item.tagName? := by
  rw [tagName?, he]
  rfl

theorem parent_of_getElem? (he : a.entries[id]? = some e) : a.parent id = e.parent.getD 0 := by
  rw [Arena.parent, he]
  rfl

theorem position_of_getElem? (he : a.entries[id]? = some e) : a.position id = e.position := by
  rw [Arena.position, he]
  rfl

theorem size_lt_addNode (hp : parent < a.size) (node : Node) :
    a.size < (a.addNode parent node).size := by
  have happend : ∀ {item : Item} {position : Position}, a.size <
      (a.append parent item position).size := by
    intro item position
    rw [size_append hp]
    exact Nat.lt_succ_self a.size
  cases node with
  | text | doctype => exact happend
  | tag name properties children position =>
    exact Nat.lt_of_lt_of_le happend (extends_addForest children _ a.size).size_le

theorem Linked.size_of_topLevel (h : a.Linked) (hn : a.topLevel = []) : a.size = 1 := by
  obtain ⟨root, hroot, -⟩ := h.root
  have hchildren : root.children = [] := by
    rwa [topLevel, hroot] at hn
  by_contra hne
  have hpos := h.size_pos
  have hmore : 1 < a.size := by omega
  obtain ⟨e, he⟩ := getElem?_of_lt_size hmore
  obtain ⟨-, p, q, -, hlt, hq, hmem⟩ := h.parent 1 e he Nat.zero_lt_one
  obtain rfl : p = 0 := by omega
  rw [hroot] at hq
  cases hq
  rw [hchildren] at hmem
  cases hmem

end Arena

namespace Reader

def builder (r : Reader) : Builder := ⟨r.state, r.cursor⟩

variable {r q : Reader} {c d : Cursor}

theorem Passes.length_le (h : r.Passes q) : q.cursor.rest.length ≤ r.cursor.rest.length := by
  induction h with
  | refl r => exact Nat.le_refl _
  | step hne hs _ ih => exact Nat.le_trans ih (Nat.le_of_lt (length_step_lt hne hs))

theorem current_lt (r : Reader) : r.state.current < r.state.arena.size :=
  Nat.lt_of_lt_of_le (opened_lt r.enclosing) (Arena.extends_addForest _ _ _).size_le

theorem current_eq_zero_iff : r.state.current = 0 ↔ r.enclosing = [] := by
  obtain ⟨c, siblings, enclosing⟩ := r
  cases enclosing with
  | nil => exact iff_of_true rfl rfl
  | cons e outer =>
    have hlt := Nat.lt_of_lt_of_le (opened_lt outer)
      (Arena.extends_addForest e.before.reverse _ (opened outer).2).size_le
    exact iff_of_false (Nat.ne_of_gt (Nat.zero_lt_of_lt hlt)) (List.cons_ne_nil e outer)

end Reader

/-- A builder leaves a construct as a reader does, and where it fails the arena is still sound. -/
def Exit.Follows : Exit Unit → Except Fault Reader → Prop
  | .done () b, .ok r => b = r.builder
  | .failed fault s, .error fault' => fault = fault' ∧ s.arena.Sound
  | _, _ => False

namespace Builder

variable {r q : Reader} {c d : Cursor}

theorem closing_follows (hs : r.state.Steady) (c : Cursor) :
    (closing ⟨r.state, c⟩ r.cursor.position).Follows (r.closing c) := by
  obtain ⟨start, siblings, enclosing⟩ := r
  unfold closing Reader.closing
  cases hv : Reader.voidCloser? c with
  | some closer => exact ⟨rfl, hs.sound⟩
  | none =>
    cases enclosing with
    | nil =>
      obtain ⟨root, hroot, hitem, -⟩ := hs.sound.linked.root
      have hname : (Reader.state ⟨start, siblings, []⟩).arena.tagName?
          (Reader.state ⟨start, siblings, []⟩).current = none :=
        (Arena.tagName?_of_getElem? hroot).trans (hitem ▸ rfl)
      simp only [hname]
      exact ⟨rfl, hs.sound⟩
    | cons e outer =>
      obtain ⟨children, he⟩ := Reader.exists_current siblings e outer start
      have hname : (Reader.state ⟨start, siblings, e :: outer⟩).arena.tagName?
          (Reader.state ⟨start, siblings, e :: outer⟩).current = some e.name :=
        Arena.tagName?_of_getElem? he
      have hparent : (Reader.state ⟨start, siblings, e :: outer⟩).arena.parent
          (Reader.state ⟨start, siblings, e :: outer⟩).current = (Reader.opened outer).2 :=
        Arena.parent_of_getElem? he
      simp only [hname, hparent]
      cases c.accept? (e.name.toList ++ ['>']) with
      | none => exact ⟨rfl, hs.sound⟩
      | some d =>
        have hclose := Reader.state_close siblings e outer start d
        have hdepth : (Reader.state ⟨start, siblings, e :: outer⟩).depth = outer.length + 1 := rfl
        simp only [hdepth, Exit.Follows, Reader.builder, hclose]

theorem fresh_iff (hs : r.state.Steady) :
    r.state.current = 0 ∧ r.state.arena.topLevel = [] ↔ r.isFresh = true := by
  obtain ⟨start, siblings, enclosing⟩ := r
  rw [Reader.current_eq_zero_iff, Reader.isFresh, Bool.and_eq_true, List.isEmpty_iff,
    List.isEmpty_iff]
  refine and_congr_right fun hn => ?_
  obtain rfl : enclosing = [] := hn
  constructor
  · intro htop
    have hsize := hs.sound.linked.size_of_topLevel htop
    cases siblings with
    | nil => rfl
    | cons node siblings =>
      have hadd := Reader.state_add ⟨start, siblings, []⟩ node start
      have hlt := Arena.size_lt_addNode (Reader.current_lt ⟨start, siblings, []⟩) node
      have harena : (Reader.state ⟨start, node :: siblings, []⟩).arena =
          (Reader.state ⟨start, siblings, []⟩).arena.addNode
            (Reader.state ⟨start, siblings, []⟩).current node :=
        congrArg State.arena hadd
      rw [harena] at hsize
      have hpos := Nat.zero_lt_of_lt (Reader.current_lt ⟨start, siblings, []⟩)
      omega
  · rintro rfl
    rfl

theorem builder_add (r : Reader) (node : Node) (c : Cursor) :
    (r.add node c).builder =
      ⟨{ r.state with arena := r.state.arena.addNode r.state.current node }, c⟩ := by
  rw [Reader.builder, Reader.state_add]
  rfl

theorem doctype_follows (hs : r.state.Steady) (c : Cursor) :
    (doctype ⟨r.state, c⟩ r.cursor.position).Follows (r.doctype c) := by
  unfold doctype Reader.doctype
  cases hf : r.isFresh with
  | true =>
    obtain ⟨hcurrent, htop⟩ := (fresh_iff hs).2 hf
    have hbuilder : ¬(r.state.current ≠ 0 ∨ r.state.arena.topLevel ≠ []) := by simp [hcurrent, htop]
    have hreader : ¬(!r.enclosing.isEmpty || !r.siblings.isEmpty) = true := by
      rw [← Bool.not_and, ← Reader.isFresh, hf]
      exact Bool.false_ne_true
    rw [if_neg hreader, if_neg hbuilder]
    cases hd : c.through? ['>'] with
    | none => exact ⟨rfl, hs.sound⟩
    | some d =>
      simp only [Exit.Follows, builder_add, hcurrent, Arena.addNode]
  | false =>
    have hbuilder : r.state.current ≠ 0 ∨ r.state.arena.topLevel ≠ [] := by
      rw [← not_and_or, fresh_iff hs, hf]
      exact Bool.false_ne_true
    have hreader : (!r.enclosing.isEmpty || !r.siblings.isEmpty) = true := by
      rw [← Bool.not_and, ← Reader.isFresh, hf]
      rfl
    rw [if_pos hreader, if_pos hbuilder]
    exact ⟨rfl, hs.sound⟩

/-- The newest entry of an arena holds the properties that have been read. -/
def Holds (a : Arena) (parent depth : Nat) (name : String) (start : Position) :
    Exit Bool → Except Fault (Properties × Bool × Cursor) → Prop
  | .done opens b, .ok (p, opens', d) =>
    opens = opens' ∧ p.Present ∧ b = ⟨⟨a.append parent (.tag name p) start, a.size, depth⟩, d⟩
  | .failed fault s, .error fault' =>
    fault = fault' ∧ ∃ p : Properties, p.Present ∧
      s = ⟨a.append parent (.tag name p) start, a.size, depth⟩
  | _, _ => False

section
variable {b : Builder} {id : Nat} {tag : Position} {fault : Fault} {value : Value}

theorem properties_of_fault (hend : b.reading.skipLayout.rest ≠ [])
    (hclosed : b.reading.skipLayout.accept? ['/', '>'] = none)
    (hopen : b.reading.skipLayout.accept? ['>'] = none)
    (hname : (b.reading.skipLayout.run isPropertyNameChar).1 ≠ [])
    (hv : readValue (String.ofList (b.reading.skipLayout.run isPropertyNameChar).1)
      (b.reading.skipLayout.run isPropertyNameChar).2 = .error fault) :
    b.properties id tag = .failed fault b.toState := by
  rw [properties]
  simp only [hend, hclosed, hopen, hname, if_false, dif_neg, not_false_eq_true]
  split
  · next hv' =>
    cases hv.symm.trans hv'
    rfl
  · next hv' => cases hv.symm.trans hv'

theorem properties_of_value (hend : b.reading.skipLayout.rest ≠ [])
    (hclosed : b.reading.skipLayout.accept? ['/', '>'] = none)
    (hopen : b.reading.skipLayout.accept? ['>'] = none)
    (hname : (b.reading.skipLayout.run isPropertyNameChar).1 ≠ [])
    (hv : readValue (String.ofList (b.reading.skipLayout.run isPropertyNameChar).1)
      (b.reading.skipLayout.run isPropertyNameChar).2 = .ok (value, d)) :
    b.properties id tag = properties ⟨⟨b.arena.insertProperty id
      (String.ofList (b.reading.skipLayout.run isPropertyNameChar).1) value, b.current, b.depth⟩, d⟩
      id tag := by
  rw [properties]
  simp only [hend, hclosed, hopen, hname, if_false, dif_neg, not_false_eq_true]
  split
  · next hv' => cases hv.symm.trans hv'
  · next hv' =>
    cases hv.symm.trans hv'
    rfl

end

theorem holds_properties {a : Arena} {parent : Nat} (hp : parent < a.size) (depth : Nat)
    (start : Position) (name : String) {p : Properties} (hpresent : p.Present) (c : Cursor) :
    Holds a parent depth name start
      (properties ⟨⟨a.append parent (.tag name p) start, a.size, depth⟩, c⟩ a.size start)
      (readProperties start p c) := by
  rw [readProperties]
  by_cases hend : c.skipLayout.rest = []
  · rw [properties]
    simp only [hend, if_true]
    exact ⟨rfl, p, hpresent, rfl⟩
  · cases hclosed : c.skipLayout.accept? ['/', '>'] with
    | some d =>
      rw [properties]
      simp only [hend, hclosed, if_false]
      exact ⟨rfl, hpresent, rfl⟩
    | none =>
      cases hopen : c.skipLayout.accept? ['>'] with
      | some d =>
        rw [properties]
        simp only [hend, hclosed, hopen, if_false]
        exact ⟨rfl, hpresent, rfl⟩
      | none =>
        by_cases hname : (c.skipLayout.run isPropertyNameChar).1 = []
        · rw [properties]
          simp only [hend, hclosed, hopen, hname, if_false, dif_pos]
          exact ⟨rfl, p, hpresent, rfl⟩
        · simp only [hend, hname, if_false, dif_neg, not_false_eq_true]
          split
          · next fault hv =>
            rw [properties_of_fault hend hclosed hopen hname hv]
            exact ⟨rfl, p, hpresent, rfl⟩
          · next value d hv =>
            have hshorter := length_lt_of_value hname hv
            rw [properties_of_value hend hclosed hopen hname hv]
            dsimp only
            rw [Arena.insertProperty_append hp]
            exact holds_properties hp depth start name (hpresent.insert (readValue_ne_null hv)) d
termination_by c.rest.length

theorem opened_follows (hs : r.state.Steady) (name : String) {p : Properties} (hpresent : p.Present)
    (opens : Bool) (d : Cursor) :
    (opened ⟨⟨r.state.arena.append r.state.current (.tag name p) r.cursor.position,
      r.state.arena.size,
      r.state.depth⟩, d⟩ r.state.arena.size name opens r.cursor.position).Follows
      (if !opens || isVoid name then .ok (r.add (.tag name p [] r.cursor.position) d)
      else if maxDepth ≤ r.depth then .error ⟨.nestingTooDeep, r.cursor.position, "<" ++ name⟩
      else .ok ⟨d, [], ⟨name, p, r.cursor.position, r.siblings⟩ :: r.enclosing⟩) := by
  have hnew : (r.state.arena.append r.state.current (.tag name p) r.cursor.position).entries[
      r.state.arena.size]? = some ⟨.tag name p, r.cursor.position, some r.state.current, []⟩ :=
    Arena.getElem?_append_new r.current_lt
  unfold opened
  split
  · have hparent := Arena.parent_of_getElem? hnew
    simp only [Exit.Follows, hparent, builder_add]
    rfl
  · by_cases hdeep : maxDepth ≤ r.depth
    · have hadmits : r.state.arena.Admits r.state.current (.tag name p) := hpresent
      have hcount : maxDepth < r.state.depth + 1 := Nat.lt_succ_of_le hdeep
      rw [if_pos hdeep, if_pos hcount]
      exact ⟨rfl, hs.append hadmits r.cursor.position⟩
    · have hcount : ¬maxDepth < r.state.depth + 1 := fun h => hdeep (Nat.le_of_lt_succ h)
      rw [if_neg hdeep, if_neg hcount]
      rfl

theorem opening_follows (hs : r.state.Steady) (c : Cursor) :
    (opening ⟨r.state, c⟩ r.cursor.position).Follows (r.opening c) := by
  have hholds := holds_properties r.current_lt r.state.depth r.cursor.position
    (String.ofList (c.run isTagNameChar).1) present_empty (c.run isTagNameChar).2
  unfold opening Reader.opening
  by_cases hend : (c.run isTagNameChar).2.rest = []
  · simp only [hend, if_true]
    exact ⟨rfl, hs.sound⟩
  · by_cases hname : (c.run isTagNameChar).1 = []
    · simp only [hend, hname, if_false, if_true]
      exact ⟨rfl, hs.sound⟩
    · simp only [hend, hname, if_false]
      revert hholds
      unfold append
      generalize properties _ _ _ = exit
      generalize readProperties _ _ _ = read
      intro hholds
      match exit, read, hholds with
      | .done opens b, .ok (p, opens', d), hholds =>
        obtain ⟨rfl, hpresent, rfl⟩ := hholds
        exact opened_follows hs _ hpresent opens d
      | .failed fault s, .error fault', hholds =>
        obtain ⟨rfl, p, hpresent, rfl⟩ := hholds
        have hadmits : r.state.arena.Admits r.state.current
            (.tag (String.ofList (c.run isTagNameChar).1) p) := hpresent
        exact ⟨rfl, hs.append hadmits r.cursor.position⟩

/-! ## Elements -/

theorem space_passes (r : Reader) :
    ∃ q, r.Passes q ∧ r.builder.space = q.builder ∧ NoLayoutFirst q.cursor.rest ∧
      ((r.cursor.run isLayout).1 = [] → q = r) := by
  have hbehind : NoLayoutFirst (r.cursor.run isLayout).2.rest := head?_dropWhile _ _
  by_cases hl : (r.cursor.run isLayout).1 = []
  · have hrest : r.cursor.rest = (r.cursor.run isLayout).2.rest := by
      have hreads := (r.cursor.reads_run isLayout).1
      rwa [hl] at hreads
    exact ⟨r, .refl r, if_pos hl, hrest ▸ hbehind, fun _ => rfl⟩
  · have hhead : ∀ x ∈ (r.cursor.run isLayout).1.head?, x ≠ '<' := by
      rintro x hx rfl
      exact absurd (of_mem_takeWhile _ (List.mem_of_mem_head? hx)) (by decide)
    have hnot := Reader.not_prefix_of_head hl (r.cursor.reads_run isLayout) hhead
    have hstep : r.step = .ok (r.add (.text " " r.cursor.position) (r.cursor.run isLayout).2) := by
      rw [Reader.step_of_content hnot, Reader.content]
      simp only [hl, if_false]
    have hne : r.cursor.rest ≠ [] := by
      intro hend
      exact hl (by rw [Cursor.run, hend]; rfl)
    refine ⟨_, .step hne hstep (.refl _), ?_, hbehind, fun h => absurd h hl⟩
    rw [builder_add]
    exact if_neg hl

section
variable {b : Builder} {text : List Char}

theorem skip_of_comment (hc : b.space.reading.accept? ['<', '!', '-', '-'] = some c)
    (hd : c.through? ['-', '-', '>'] = some (text, d)) :
    b.skip = { b.space with reading := d }.skip := by
  rw [skip]
  split
  · next hc' =>
    cases hc.symm.trans hc'
    split
    · next hd' => cases hd.symm.trans hd'
    · next hd' =>
      cases hd.symm.trans hd'
      rfl
  · next hc' => cases hc.symm.trans hc'

theorem skip_of_unclosed (hc : b.space.reading.accept? ['<', '!', '-', '-'] = some c)
    (hd : c.through? ['-', '-', '>'] = none) :
    b.skip = .failed (c.fault .unclosedComment c.position nearLength) b.space.toState := by
  rw [skip]
  split
  · next hc' =>
    cases hc.symm.trans hc'
    split
    · rfl
    · next hd' => cases hd.symm.trans hd'
  · next hc' => cases hc.symm.trans hc'

theorem skip_of_none (hc : b.space.reading.accept? ['<', '!', '-', '-'] = none) :
    b.skip = if (b.reading.run isLayout).1 = [] then .done () b else b.space.skip := by
  rw [skip]
  split
  · next hc' => cases hc.symm.trans hc'
  · rw [dite_eq_ite]

end

/-- Layout and comments are constructs of their own for a reader. -/
theorem skip_passes (r : Reader) :
    (∃ q, r.Passes q ∧ r.builder.skip = .done () q.builder ∧ NoLayoutFirst q.cursor.rest ∧
      ¬['<', '!', '-', '-'] <+: q.cursor.rest) ∨
    ∃ q fault, r.Passes q ∧ q.cursor.rest ≠ [] ∧ q.step = .error fault ∧ fault.cause =
      .unclosedComment ∧
      r.builder.skip = .failed fault q.state := by
  obtain ⟨q, hq, hspace, hno, hsame⟩ := space_passes r
  have hlength : (r.cursor.run isLayout).1.length + q.cursor.rest.length =
      r.cursor.rest.length := by
    have hlength := length_space r.builder
    rwa [hspace] at hlength
  cases hc : q.cursor.accept? ['<', '!', '-', '-'] with
  | some c =>
    have hcomment := Cursor.accept?_eq_some_iff.1 hc
    have hne : q.cursor.rest ≠ [] := by
      rw [hcomment.1]
      exact List.cons_ne_nil _ _
    have hstep := Reader.step_of_comment hcomment
    rw [Reader.comment] at hstep
    have hc : r.builder.space.reading.accept? ['<', '!', '-', '-'] = some c := hspace ▸ hc
    cases hd : c.through? ['-', '-', '>'] with
    | none =>
      rw [hd] at hstep
      rw [skip_of_unclosed hc hd, hspace]
      exact .inr ⟨q, _, hq, hne, hstep, rfl, rfl⟩
    | some body =>
      rw [hd] at hstep
      have hshorter : body.2.rest.length < q.cursor.rest.length := Reader.length_step_lt hne hstep
      rw [skip_of_comment hc hd, hspace]
      obtain ⟨s, hs, h⟩ | ⟨s, fault, hs, h⟩ := skip_passes { q with cursor := body.2 }
      · exact .inl ⟨s, hq.trans (.step hne hstep hs), h⟩
      · exact .inr ⟨s, fault, hq.trans (.step hne hstep hs), h⟩
  | none =>
    have hcomment := Reader.not_prefix_of_accept? hc
    rw [skip_of_none (hspace ▸ hc), hspace]
    by_cases hl : (r.cursor.run isLayout).1 = []
    · obtain rfl := hsame hl
      exact .inl ⟨q, hq, if_pos hl, hno, hcomment⟩
    · have hpositive := List.length_pos_iff.2 hl
      rw [if_neg (show ¬(r.builder.reading.run isLayout).1 = [] from hl)]
      obtain ⟨s, hs, h⟩ | ⟨s, fault, hs, h⟩ := skip_passes q
      · exact .inl ⟨s, hq.trans hs, h⟩
      · exact .inr ⟨s, fault, hq.trans hs, h⟩
termination_by r.cursor.rest.length

theorem head?_ne_of_accept? {x : Char} (h : c.accept? [x] = none) : ∀ y ∈ c.rest.head?, y ≠ x := by
  rintro y hy rfl
  obtain ⟨rest, hrest⟩ := List.head?_eq_some_iff.1 hy
  exact Reader.not_prefix_of_accept? h ⟨rest, hrest.symm⟩

theorem element_follows (hs : q.state.Steady) (hne : q.cursor.rest ≠ [])
    (hno : NoLayoutFirst q.cursor.rest) (hcomment : ¬['<', '!', '-', '-'] <+: q.cursor.rest)
    {b : Builder} (hskip : b.skip = .done () q.builder) :
    b.element.Follows q.step := by
  have hend : q.builder.reading.rest ≠ [] := hne
  simp only [element, hskip, hend, if_false]
  cases hlt : q.builder.reading.accept? ['<'] with
  | none =>
    have hlayout : (q.cursor.run isLayout).1 = [] := by
      obtain ⟨x, rest, hx⟩ := List.exists_cons_of_ne_nil hne
      have hx' := hno x (by simp [hx])
      simp [Cursor.run, hx, hx']
    rw [Reader.step_of_content (Reader.not_prefix_of_accept? hlt), Reader.content]
    simp only [hlayout, if_true, Exit.Follows, builder_add]
    rfl
  | some c =>
    have hc : q.cursor.Reads ['<'] c := Cursor.accept?_eq_some_iff.1 hlt
    cases hslash : c.accept? ['/'] with
    | some d =>
      have hd : q.cursor.Reads ['<', '/'] d := hc.trans (Cursor.accept?_eq_some_iff.1 hslash)
      rw [Reader.step_of_closing hd]
      simp only [hslash]
      exact closing_follows hs d
    | none =>
      cases hbang : c.accept? ['!'] with
      | some d =>
        have hd : q.cursor.Reads ['<', '!'] d := hc.trans (Cursor.accept?_eq_some_iff.1 hbang)
        have hdash : ¬['-', '-'] <+: d.rest := by
          rintro ⟨rest, hrest⟩
          exact hcomment ⟨rest, by rw [hd.1, ← hrest]; rfl⟩
        rw [Reader.step_of_doctype hd hdash]
        simp only [hslash, hbang]
        exact doctype_follows hs d
      | none =>
        rw [Reader.step_of_opening hc fun y hy =>
          ⟨head?_ne_of_accept? hbang y hy, head?_ne_of_accept? hslash y hy⟩]
        simp only [hslash, hbang]
        exact opening_follows hs c

/-- An element is one construct behind the layout and the comments, if there is one. -/
theorem element_cases {source : String} (hr : (Reader.ofSource source).Passes r) :
    (∃ s, r.Passes s ∧ r.builder.element = .done () s.builder ∧
      (r.cursor.rest ≠ [] → s.cursor.rest.length < r.cursor.rest.length)) ∨
    ∃ q fault s, r.Passes q ∧ q.cursor.rest ≠ [] ∧ q.step = .error fault ∧
      r.builder.element = .failed fault s ∧ s.arena.Sound ∧
      (fault.cause = .nestingTooDeep → r.builder.skip = .done () q.builder) := by
  obtain ⟨q, hq, hskip, hno, hcomment⟩ | ⟨q, fault, hq, hne, hstep, hcause, hskip⟩ := skip_passes r
  · have hs := (hr.trans hq).steady
    by_cases hne : q.cursor.rest = []
    · refine .inl ⟨q, hq, ?_, fun h => ?_⟩
      · rw [element, hskip]
        exact if_pos hne
      · rw [hne]
        exact List.length_pos_iff.2 h
    · have hfollows := element_follows hs hne hno hcomment hskip
      revert hfollows
      cases helement : r.builder.element with
      | done value b =>
        cases hstep : q.step with
        | error fault => exact False.elim
        | ok s =>
          rintro rfl
          have hlt := Reader.length_step_lt hne hstep
          have hle := hq.length_le
          exact .inl ⟨s, hq.trans (.step hne hstep (.refl s)), rfl, fun _ =>
            Nat.lt_of_lt_of_le hlt hle⟩
      | failed fault s =>
        cases hstep : q.step with
        | error fault' =>
          rintro ⟨rfl, hsound⟩
          exact .inr ⟨q, _, s, hq, hne, hstep, rfl, hsound, fun _ => hskip⟩
        | ok s => exact False.elim
      | underflow => exact False.elim
  · refine .inr ⟨q, fault, q.state, hq, hne, hstep, ?_, (hr.trans hq).steady.sound, ?_⟩
    · rw [element, hskip]
    · intro h
      cases hcause.symm.trans h

theorem passes_of_done {source : String} (hr : (Reader.ofSource source).Passes r) {c : Builder}
    (h : r.builder.element = .done () c) : ∃ s, r.Passes s ∧ c = s.builder := by
  obtain ⟨s, hs, hdone, -⟩ | ⟨q, fault, s, -, -, -, hfailed, -⟩ := element_cases hr
  · obtain ⟨-, rfl⟩ := Exit.done.inj (h.symm.trans hdone)
    exact ⟨s, hs, rfl⟩
  · cases h.symm.trans hfailed

theorem step_of_failed {source : String} (hr : (Reader.ofSource source).Passes r)
    {fault : Fault} {s : State} (h : r.builder.element = .failed fault s) :
    ∃ q, r.Passes q ∧ q.cursor.rest ≠ [] ∧ q.step = .error fault ∧
      (fault.cause = .nestingTooDeep → r.builder.skip = .done () q.builder) := by
  obtain ⟨s, -, hdone, -⟩ | ⟨q, fault, s, hq, hne, hstep, hfailed, -, hskip⟩ := element_cases hr
  · cases h.symm.trans hdone
  · cases h.symm.trans hfailed
    exact ⟨q, hq, hne, hstep, hskip⟩

/-! ## Runs -/

theorem finish_builder (r : Reader) : r.builder.finish = r.finish.map Arena.ofForest := by
  obtain ⟨c, siblings, enclosing⟩ := r
  cases enclosing with
  | nil => rfl
  | cons e outer =>
    have hopen : (Reader.state ⟨c, siblings, e :: outer⟩).current ≠ 0 :=
      fun h => List.cons_ne_nil e outer (Reader.current_eq_zero_iff.1 h)
    obtain ⟨children, he⟩ := Reader.exists_current siblings e outer c
    have hname : (Reader.state ⟨c, siblings, e :: outer⟩).arena.tagName?
        (Reader.state ⟨c, siblings, e :: outer⟩).current = some e.name :=
          Arena.tagName?_of_getElem? he
    have hposition : (Reader.state ⟨c, siblings, e :: outer⟩).arena.position
        (Reader.state ⟨c, siblings, e :: outer⟩).current = e.position :=
          Arena.position_of_getElem? he
    simp only [finish, Reader.builder, hopen, if_false, hname, hposition]
    rfl

theorem passes_of_visits {source : String} (hr : (Reader.ofSource source).Passes r) {d : Builder}
    (h : Visits r.builder d) : ∃ s, (Reader.ofSource source).Passes s ∧ d = s.builder := by
  generalize hb : r.builder = b at h
  induction h generalizing r with
  | refl => exact ⟨r, hr, hb.symm⟩
  | step hne helement _ ih =>
    subst hb
    obtain ⟨s, hs, rfl⟩ := passes_of_done hr helement
    exact ih (hr.trans hs) rfl

theorem run_of_runs {source : String} (hr : (Reader.ofSource source).Passes r)
    {result : Except Fault Arena} (h : Runs r.builder result) :
    result = r.run.map Arena.ofForest := by
  generalize hb : r.builder = b at h
  induction h generalizing r with
  | finish hend =>
    subst hb
    rw [Reader.run_of_end hend, finish_builder]
  | fail hne helement =>
    subst hb
    obtain ⟨q, hq, hqne, hstep, -⟩ := step_of_failed hr helement
    rw [hq.run_eq, Reader.run_of_step_error hqne hstep]
    rfl
  | step hne helement _ ih =>
    subst hb
    obtain ⟨s, hs, rfl⟩ := passes_of_done hr helement
    rw [hs.run_eq]
    exact ih (hr.trans hs) rfl

theorem exists_runs (source : String) (r : Reader) (hr : (Reader.ofSource source).Passes r) :
    ∃ result, Runs r.builder result := by
  by_cases hne : r.cursor.rest = []
  · exact ⟨_, .finish hne⟩
  · obtain ⟨s, hs, hdone, hlt⟩ | ⟨q, fault, s, -, -, -, hfailed, -⟩ := element_cases hr
    · have hshorter := hlt hne
      obtain ⟨result, hruns⟩ := exists_runs source s (hr.trans hs)
      exact ⟨result, .step hne hdone hruns⟩
    · exact ⟨_, .fail hne hfailed⟩
termination_by r.cursor.rest.length

/-- A run ends as the parser does. -/
theorem runs_ofSource_iff {source : String} {result : Except Fault Arena} :
    Runs (.ofSource source) result ↔ result = (parse source).map Arena.ofForest := by
  constructor
  · exact run_of_runs (.refl _)
  · rintro rfl
    obtain ⟨result, hruns⟩ := exists_runs source _ (.refl _)
    obtain rfl : result = (parse source).map Arena.ofForest := run_of_runs (.refl _) hruns
    exact hruns

theorem nesting_of_runs {source : String} (hr : (Reader.ofSource source).Passes r) {fault : Fault}
    (h : Runs r.builder (.error fault)) (hcause : fault.cause = .nestingTooDeep) :
    ∃ b q, Visits r.builder b ∧ b.skip = .done () q.builder ∧ (Reader.ofSource source).Passes q ∧
      q.step = .error fault := by
  generalize hb : r.builder = b at h
  generalize hresult : (Except.error fault : Except Fault Arena) = result at h
  induction h generalizing r with
  | finish hend =>
    subst hb
    rw [finish_builder] at hresult
    cases hfinish : r.finish with
    | ok nodes =>
      rw [hfinish] at hresult
      cases hresult
    | error fault' =>
      rw [hfinish] at hresult
      obtain rfl := Except.error.inj hresult
      obtain ⟨e, outer, -, rfl⟩ := Reader.finish_eq_error hfinish
      cases hcause
  | fail hne helement =>
    subst hb
    obtain rfl := Except.error.inj hresult
    obtain ⟨q, hq, -, hstep, hskip⟩ := step_of_failed hr helement
    exact ⟨r.builder, q, .refl _, hskip hcause, hr.trans hq, hstep⟩
  | step hne helement _ ih =>
    subst hb
    obtain ⟨s, hs, rfl⟩ := passes_of_done hr helement
    obtain ⟨b, q, hb, h⟩ := ih (hr.trans hs) rfl hresult
    exact ⟨b, q, .step hne helement hb, h⟩

end Builder

open Builder in
/-- A builder is steady before every element it reads and behind every one it reads without a fault.
Where it fails its arena is still sound. The count of open elements never goes below zero, and it
would exceed the greatest number exactly where a run fails for its nesting. -/
theorem steady_of_visits (source : String) :
    (∀ b, Visits (.ofSource source) b → b.Steady ∧ (b.reading.rest ≠ [] →
      (∃ c, b.element = .done () c ∧ c.Steady) ∨
      ∃ fault s, b.element = .failed fault s ∧ s.arena.Sound)) ∧
    (∀ result, Runs (.ofSource source) result ↔ result = (parse source).map Arena.ofForest) ∧
    ((∃ fault, Runs (.ofSource source) (.error fault) ∧ fault.cause = .nestingTooDeep) ↔
      ∃ b c name properties tag d, Visits (.ofSource source) b ∧ b.skip = .done () c ∧
        TagText name properties true tag ∧ c.reading.Reads tag d ∧ isVoid name = false ∧
        c.depth + 1 = 257) ∧
    ∀ a, Runs (.ofSource source) (.ok a) →
      a.Sound ∧ ∀ id < a.size, Arena.tags (a.path id).tail ≤ 256 := by
  refine ⟨?_, fun _ => runs_ofSource_iff, ?_, ?_⟩
  · intro b hb
    obtain ⟨r, hr, rfl⟩ := passes_of_visits (.refl _) hb
    refine ⟨hr.steady, fun hne => ?_⟩
    obtain ⟨s, hs, hdone, -⟩ | ⟨q, fault, s, -, -, -, hfailed, hsound, -⟩ := element_cases hr
    · exact .inl ⟨s.builder, hdone, (hr.trans hs).steady⟩
    · exact .inr ⟨fault, s, hfailed, hsound⟩
  · constructor
    · rintro ⟨fault, hruns, hcause⟩
      obtain ⟨b, q, hb, hskip, hq, hstep⟩ := nesting_of_runs (.refl _) hruns hcause
      obtain ⟨name, properties, tag, d, htag, hd, hv, hdeep⟩ :=
        Reader.step_nesting_iff.1 ⟨fault, hstep, hcause⟩
      have hle : q.depth ≤ maxDepth := hq.steady.depth_le
      exact ⟨b, q.builder, name, properties, tag, d, hb, hskip, htag, hd, hv,
        congrArg (· + 1) (Nat.le_antisymm hle hdeep)⟩
    · rintro ⟨b, c, name, properties, tag, d, hb, hskip, htag, hd, hv, hdepth⟩
      obtain ⟨r, hr, rfl⟩ := passes_of_visits (.refl _) hb
      obtain ⟨q, hq, hdone, -⟩ | ⟨q, fault, -, -, -, -, hfailed⟩ := skip_passes r
      · obtain ⟨-, rfl⟩ := Exit.done.inj (hskip.symm.trans hdone)
        have hdeep : q.depth = maxDepth := Nat.succ.inj hdepth
        obtain ⟨fault, hparse, hcause⟩ :=
          parse_nesting_iff.2 ⟨q, name, properties, tag, d, hr.trans hq, htag, hd, hv, hdeep⟩
        exact ⟨fault, runs_ofSource_iff.2 (by rw [hparse]; rfl), hcause⟩
      · cases hskip.symm.trans hfailed
  · intro a ha
    have hmap := runs_ofSource_iff.1 ha
    obtain ⟨nodes, hparse, rfl⟩ : ∃ nodes, parse source = .ok nodes ∧ a = Arena.ofForest nodes := by
      cases hparse : parse source with
      | error fault =>
        rw [hparse] at hmap
        cases hmap
      | ok nodes =>
        rw [hparse] at hmap
        exact ⟨nodes, rfl, Except.ok.inj hmap⟩
    obtain ⟨q, hq, hend, hfinish⟩ := Reader.exists_finish_of_run hparse
    have hsound := hq.steady.sound
    rw [Reader.state_of_finish hfinish] at hsound
    exact ⟨hsound, hsound.above⟩

open Builder in
/-- Between its tags the paragraph is counted, and the line break is not. -/
theorem steady_of_visits_lineBreak :
    (∃ b c, Visits (.ofSource "<p>a<br></p>") b ∧ b.depth = 1 ∧ b.Steady ∧
      b.element = .done () c ∧ c.Steady) ∧
      ∃ a, Runs (.ofSource "<p>a<br></p>") (.ok a) ∧ a.size = 4 ∧ a.Sound := by
  obtain ⟨hsteady, hruns, -, hsound⟩ := steady_of_visits "<p>a<br></p>"
  constructor
  · obtain ⟨b, c, hopen, hdepth, hne, htext⟩ : ∃ b c,
        (Builder.ofSource "<p>a<br></p>").element = .done () b ∧ b.depth = 1 ∧
        b.reading.rest = "a<br></p>".toList ∧ b.element = .done () c :=
      ⟨_, _, by with_unfolding_all rfl, by with_unfolding_all rfl, by with_unfolding_all rfl,
        by with_unfolding_all rfl⟩
    have hb := Visits.step (by decide) hopen (.refl b)
    obtain ⟨hbs, hexits⟩ := hsteady b hb
    obtain ⟨d, hd, hds⟩ | ⟨fault, s, hfailed, -⟩ := hexits (hne ▸ by decide)
    · obtain ⟨-, rfl⟩ := Exit.done.inj (htext.symm.trans hd)
      exact ⟨b, c, hb, hdepth, hbs, htext, hds⟩
    · cases htext.symm.trans hfailed
  · have hparse : (parse "<p>a<br></p>").map Arena.ofForest = .ok (Arena.ofForest
        [.tag "p" .empty [.text "a" ⟨3, 1, 4⟩, .tag "br" .empty [] ⟨4, 1, 5⟩] .start]) := by
      with_unfolding_all rfl
    have ha := (hruns _).2 hparse.symm
    exact ⟨_, ha, by with_unfolding_all rfl, (hsound _ ha).1⟩

/-- A tag that fails has been entered already, void or not, and has not been counted. -/
theorem void_entered_at_fault :
    ∃ fault s, (Builder.ofSource "<img a=b>").element = .failed fault s ∧
      s.arena.tagName? s.current = some "img" ∧ isVoid "img" = true ∧
      s.depth = 0 ∧ Arena.tags (s.arena.path s.current) = 1 ∧ ¬s.Steady := by
  obtain ⟨fault, s, helement, hname, hdepth, htags⟩ : ∃ fault s,
      (Builder.ofSource "<img a=b>").element = .failed fault s ∧
      s.arena.tagName? s.current = some "img" ∧ s.depth = 0 ∧
      Arena.tags (s.arena.path s.current) = 1 :=
    ⟨_, _, by with_unfolding_all rfl, by with_unfolding_all rfl, by with_unfolding_all rfl,
      by with_unfolding_all rfl⟩
  refine ⟨fault, s, helement, hname, by decide, hdepth, htags, fun h => ?_⟩
  have hcount := h.depth_eq
  rw [hdepth, htags] at hcount
  cases hcount

end TemplateCompiler.Markup
