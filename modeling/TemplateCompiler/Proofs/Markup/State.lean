import TemplateCompiler.Proofs.Markup.Numbering
import TemplateCompiler.Proofs.Markup.Reading
import TemplateCompiler.Proofs.Markup.Stumble

/-! # The arena behind a reader

A reader stands for an arena that holds everything read so far, with the tag of each open element as
an entry, and for the number of the innermost of these. A construct appends one entry at most, opens
the element it has appended, or closes the innermost one (`State.Moves`). What holds in between
(`State.Steady`) is kept by each of these moves.
-/
namespace TemplateCompiler.Markup
open Construct (Written)

def Item.isLeaf : Item → Bool
  | .text _ | .doctype _ => true
  | .tag name _ => isVoid name
  | .document => false

def Properties.Present (properties : Properties) : Prop :=
  (properties.toList.map Prod.fst).Nodup ∧ ∀ p ∈ properties.toList, p.2 ≠ .null

namespace Arena

variable {a : Arena} {parent id : Nat} {e : Entry} {item : Item}

def tags (path : List Item) : Nat := path.countP Item.isTag

theorem tags_cons {path : List Item} (h : item.isTag = true) :
    tags (item :: path) = tags path + 1 :=
  List.countP_cons_of_pos h

/-- What holds of the entries of a document that is being read. -/
structure Sound (a : Arena) : Prop where
  linked : a.Linked
  leaf : ∀ (id : Nat) (e : Entry), a.entries[id]? = some e → e.item.isLeaf = true → e.children = []
  /-- A doctype is the first child of the document, so there is one at most. -/
  doctype : ∀ (id : Nat) (e : Entry) (literal : String), a.entries[id]? = some e →
    e.item = .doctype literal → ∃ root, a.entries[0]? = some root ∧ root.children.head? = some id
  properties : ∀ (id : Nat) (e : Entry) (name : String) (properties : Properties),
    a.entries[id]? = some e → e.item = .tag name properties → properties.Present
  /-- No entry has more tags above it than elements may be open. -/
  above : ∀ id < a.size, tags (a.path id).tail ≤ maxDepth

def Admits (a : Arena) (parent : Nat) : Item → Prop
  | .document => False
  | .text _ => True
  | .doctype _ => a = .empty ∧ parent = 0
  | .tag _ properties => properties.Present

theorem sound_empty : empty.Sound := by
  have hentry : ∀ (id : Nat) (e : Entry), empty.entries[id]? = some e →
      id = 0 ∧ e = ⟨.document, .start, none, []⟩ := by
    intro id e he
    have hlt : id < 1 := lt_size_of_getElem? he
    obtain rfl : id = 0 := by omega
    exact ⟨rfl, (Option.some.inj he).symm⟩
  refine ⟨linked_empty, ?_, ?_, ?_, ?_⟩
  · intro id e he _
    rw [(hentry id e he).2]
  · intro id e literal he hdoctype
    rw [(hentry id e he).2] at hdoctype
    cases hdoctype
  · intro id e name properties he htag
    rw [(hentry id e he).2] at htag
    cases htag
  · intro id hid
    obtain ⟨e, he⟩ := getElem?_of_lt_size hid
    obtain ⟨rfl, rfl⟩ := hentry id e he
    rw [path_of_root he rfl]
    exact Nat.zero_le _

theorem Sound.opens_of_children (h : a.Sound) (he : a.entries[id]? = some e)
    (hc : e.children ≠ []) :
    id = 0 ∨ ∃ name properties, e.item = .tag name properties ∧ isVoid name = false := by
  have hleaf : e.item.isLeaf = false := by
    rw [← Bool.not_eq_true]
    exact fun hleaf => hc (h.leaf id e he hleaf)
  by_cases hzero : id = 0
  · exact .inl hzero
  · obtain ⟨hdocument, -⟩ := h.linked.parent id e he (Nat.pos_of_ne_zero hzero)
    cases hitem : e.item with
    | document => exact absurd hitem hdocument
    | text content =>
      rw [hitem] at hleaf
      cases hleaf
    | doctype literal =>
      rw [hitem] at hleaf
      cases hleaf
    | tag name properties =>
      rw [hitem] at hleaf
      exact .inr ⟨name, properties, rfl, hleaf⟩

theorem Sound.append (h : a.Sound) (he : a.entries[parent]? = some e)
    (hleaf : e.item.isLeaf = false) (habove : tags (a.path parent) ≤ maxDepth)
    (hi : a.Admits parent item) (position : Position) :
    (a.append parent item position).Sound := by
  have hp := lt_size_of_getElem? he
  have hdocument : item ≠ .document := by
    rintro rfl
    exact hi
  refine ⟨h.linked.append hp hdocument, ?_, ?_, ?_, ?_⟩
  · intro id f hf hfl
    rcases getElem?_append_cases hp hf with ⟨-, rfl⟩ | ⟨old, hold, rfl⟩
    · rfl
    · have hne : id ≠ parent := by
        rintro rfl
        rw [he] at hold
        cases hold
        rw [hleaf] at hfl
        cases hfl
      simp [hne, h.leaf id old hold hfl]
  · intro id f literal hf hdoctype
    rcases getElem?_append_cases hp hf with ⟨rfl, rfl⟩ | ⟨old, hold, rfl⟩
    · obtain rfl : item = .doctype literal := hdoctype
      obtain ⟨rfl, rfl⟩ := hi
      exact ⟨_, getElem?_append_old hp he, by cases he; rfl⟩
    · obtain ⟨root, hroot, hhead⟩ := h.doctype id old literal hold hdoctype
      refine ⟨_, getElem?_append_old hp hroot, ?_⟩
      rw [List.head?_append, hhead]
      rfl
  · intro id f name properties hf htag
    rcases getElem?_append_cases hp hf with ⟨-, rfl⟩ | ⟨old, hold, rfl⟩
    · obtain rfl : item = .tag name properties := htag
      exact hi
    · exact h.properties id old name properties hold htag
  · intro id hid
    rw [size_append hp] at hid
    by_cases hnew : id = a.size
    · rw [hnew, path_append_new hp]
      exact habove
    · have hlt : id < a.size := by omega
      rw [(extends_append a parent item position).path_eq hlt]
      exact h.above id hlt

end Arena

/-! ## States -/

structure State where
  arena : Arena
  current : Nat
  depth : Nat

namespace State
open Arena (tags)

/-- What a construct does to the state. -/
inductive Moves : State → State → Prop
  | skip (s : State) : Moves s s
  | append {s : State} {item : Item} (position : Position) (h : s.arena.Admits s.current item) :
    Moves s { s with arena := s.arena.append s.current item position }
  | enter {s : State} {name : String} {properties : Properties} (position : Position)
    (hv : isVoid name = false) (hp : properties.Present) (hd : s.depth < maxDepth) :
    Moves s ⟨s.arena.append s.current (.tag name properties) position, s.arena.size, s.depth + 1⟩
  | leave {arena : Arena} {current parent depth : Nat} {e : Arena.Entry}
    (he : arena.entries[current]? = some e) (hp : e.parent = some parent) :
    Moves ⟨arena, current, depth + 1⟩ ⟨arena, parent, depth⟩

/-- What holds between two constructs. -/
structure Steady (s : State) : Prop where
  sound : s.arena.Sound
  /-- The document or an element that may have children. -/
  cursor : ∃ e, s.arena.entries[s.current]? = some e ∧
    (s.current = 0 ∨ ∃ name properties, e.item = .tag name properties ∧ isVoid name = false)
  depth_eq : s.depth = tags (s.arena.path s.current)
  depth_le : s.depth ≤ maxDepth

variable {s t : State}

theorem steady_start : Steady ⟨.empty, 0, 0⟩ := by
  have hroot : Arena.empty.entries[0]? = some ⟨.document, .start, none, []⟩ := rfl
  refine ⟨Arena.sound_empty, ⟨_, hroot, .inl rfl⟩, ?_, Nat.zero_le _⟩
  rw [Arena.path_of_root hroot rfl]
  rfl

theorem Steady.isLeaf_eq_false (h : s.Steady) :
    ∃ e, s.arena.entries[s.current]? = some e ∧ e.item.isLeaf = false := by
  obtain ⟨e, he, hcursor⟩ := h.cursor
  refine ⟨e, he, ?_⟩
  rcases hcursor with hzero | ⟨name, properties, hitem, hv⟩
  · obtain ⟨root, hroot, hitem, -⟩ := h.sound.linked.root
    rw [hzero, hroot] at he
    cases he
    rw [hitem]
    rfl
  · rw [hitem]
    exact hv

theorem Steady.append (h : s.Steady) {item : Item} (hi : s.arena.Admits s.current item)
    (position : Position) :
    (s.arena.append s.current item position).Sound := by
  obtain ⟨e, he, hleaf⟩ := h.isLeaf_eq_false
  exact h.sound.append he hleaf (h.depth_eq ▸ h.depth_le) hi position

/-- Every move keeps the state steady. -/
theorem Steady.move (h : s.Steady) (hm : Moves s t) : t.Steady := by
  cases hm with
  | skip => exact h
  | append position hi =>
    obtain ⟨e, he, hcursor⟩ := h.cursor
    have hp := Arena.lt_size_of_getElem? he
    refine ⟨h.append hi position, ⟨_, Arena.getElem?_append_old hp he, hcursor⟩, ?_, h.depth_le⟩
    show s.depth = tags ((s.arena.append s.current _ position).path s.current)
    rw [(Arena.extends_append _ _ _ _).path_eq hp]
    exact h.depth_eq
  | @enter _ name properties position hv hproperties hd =>
    obtain ⟨e, he, -⟩ := h.cursor
    have hp := Arena.lt_size_of_getElem? he
    have hadmits : s.arena.Admits s.current (.tag name properties) := hproperties
    refine ⟨h.append hadmits position,
      ⟨_, Arena.getElem?_append_new hp, .inr ⟨name, properties, rfl, hv⟩⟩, ?_, hd⟩
    show s.depth + 1 = tags ((s.arena.append s.current _ position).path s.arena.size)
    rw [Arena.path_append_new hp, Arena.tags_cons rfl, h.depth_eq]
  | @leave arena current parent depth e he hp =>
    obtain ⟨hlt, q, hq, hchild⟩ := h.sound.linked.mem_children he hp
    have htag : e.item.isTag = true := by
      obtain ⟨f, hf, hcursor⟩ := h.cursor
      have hf : arena.entries[current]? = some f := hf
      rw [he] at hf
      cases hf
      rcases hcursor with hzero | ⟨name, properties, hitem, -⟩
      · have hzero : current = 0 := hzero
        omega
      · rw [hitem]
        rfl
    have hdepth : depth + 1 = tags (arena.path current) := h.depth_eq
    rw [Arena.path_of_parent he hp hlt, Arena.tags_cons htag] at hdepth
    exact ⟨h.sound, ⟨q, hq, h.sound.opens_of_children hq (List.ne_nil_of_mem hchild)⟩,
      Nat.succ.inj hdepth, Nat.le_of_succ_le h.depth_le⟩

end State

/-! ## The state of a reader -/

theorem TagText.present {name : String} {properties : Properties} {opens : Bool} {text : List Char}
    (h : TagText name properties opens text) : properties.Present :=
  ⟨properties.distinct, fun p hp => (h.isWritable.2 p hp).2⟩

theorem Content.present {first : Bool} {depth : Nat} {p position : Position} {text : List Char}
    {nodes children : List Node} {name : String} {properties : Properties}
    (h : Content first depth p text nodes)
    (hn : .tag name properties children position ∈ allNodes nodes) :
    properties.Present := by
  obtain ⟨_, _, _, _, -, hk, hm⟩ := h.writtenIn hn
  cases hm with
  | single =>
    cases hk with
    | single htag => exact htag.present
  | opener =>
    cases hk with
    | opener htag => exact htag.present

namespace Reader

/-- The arena with everything before and around the innermost open element, and its number. -/
def opened : List OpenElement → Arena × Nat
  | [] => (.empty, 0)
  | e :: outer =>
    let a := (opened outer).1.addForest (opened outer).2 e.before.reverse
    (a.append (opened outer).2 (.tag e.name e.properties) e.position, a.size)

def state (r : Reader) : State :=
  ⟨(opened r.enclosing).1.addForest (opened r.enclosing).2 r.siblings.reverse,
    (opened r.enclosing).2, r.depth⟩

variable {r s : Reader}

theorem opened_lt (enclosing : List OpenElement) :
    (opened enclosing).2 < (opened enclosing).1.size := by
  induction enclosing with
  | nil => exact Nat.zero_lt_one
  | cons e outer ih =>
    have hp := Nat.lt_of_lt_of_le ih (Arena.extends_addForest e.before.reverse _
      (opened outer).2).size_le
    rw [opened, Arena.size_append hp]
    exact Nat.lt_succ_self _

theorem state_add (r : Reader) (node : Node) (c : Cursor) :
    (r.add node c).state =
      { r.state with arena := r.state.arena.addNode r.state.current node } := by
  have hsiblings : (node :: r.siblings).reverse = r.siblings.reverse ++ [node] := List.reverse_cons
  simp only [state, add, hsiblings, Arena.addForest_append]
  rfl

theorem finish_eq_error {fault : Fault} (h : r.finish = .error fault) :
    ∃ e outer, r.enclosing = e :: outer ∧
    fault = r.cursor.fault (.elementLeftOpen e.name) e.position 0 := by
  obtain ⟨c, siblings, enclosing⟩ := r
  cases enclosing with
  | nil => cases h
  | cons e outer =>
    cases h
    exact ⟨e, outer, rfl, rfl⟩

/-- The arena of a document that has been read is that of its nodes. -/
theorem state_of_finish {nodes : List Node} (h : r.finish = .ok nodes) :
    r.state = ⟨Arena.ofForest nodes, 0, 0⟩ := by
  obtain ⟨c, siblings, enclosing⟩ := r
  cases enclosing with
  | nil =>
    cases h
    rfl
  | cons e outer => cases h

/-- The tag of the innermost open element is an entry below that of the next one. -/
theorem exists_current (siblings : List Node) (e : OpenElement) (outer : List OpenElement)
    (c : Cursor) :
    ∃ children, (state ⟨c, siblings, e :: outer⟩).arena.entries[(opened (e :: outer)).2]? =
      some ⟨.tag e.name e.properties, e.position, some (opened outer).2, children⟩ := by
  have hp := Nat.lt_of_lt_of_le (opened_lt outer)
    (Arena.extends_addForest e.before.reverse _ (opened outer).2).size_le
  have hnew : (opened (e :: outer)).1.entries[(opened (e :: outer)).2]? =
      some ⟨.tag e.name e.properties, e.position, some (opened outer).2, []⟩ :=
      Arena.getElem?_append_new hp
  exact Arena.extends_addForest siblings.reverse _ (opened (e :: outer)).2 _ _ hnew

/-- An element that is closed is in the arena with all its children. -/
theorem state_close (siblings : List Node) (e : OpenElement) (outer : List OpenElement)
    (c d : Cursor) :
    state ⟨d, e.close siblings :: e.before, outer⟩ =
      ⟨(state ⟨c, siblings, e :: outer⟩).arena, (opened outer).2, outer.length⟩ := by
  simp only [state, List.reverse_cons, Arena.addForest_append]
  rfl

/-- One construct moves the state once. -/
theorem moves_of_take? {k : Construct} {t rest : List Char} {d : Cursor} (hk : k.Written t rest)
    (h : r.take? d k = some s) : r.state.Moves s.state := by
  cases hk with
  | layout | text =>
    cases h
    rw [state_add]
    exact .append r.cursor.position trivial
  | comment =>
    cases h
    exact .skip r.state
  | doctype =>
    simp only [take?] at h
    split at h
    · next hf =>
      cases h
      rw [state_add]
      refine .append r.cursor.position ?_
      obtain ⟨c, siblings, enclosing⟩ := r
      obtain ⟨hn, hs⟩ : enclosing = [] ∧ siblings = [] := by simpa [isFresh] using hf
      rw [hn, hs]
      exact ⟨rfl, rfl⟩
    · cases h
  | single htag =>
    cases h
    rw [state_add]
    exact .append r.cursor.position htag.present
  | opener htag hv =>
    simp only [take?] at h
    split at h
    · next hd =>
      cases h
      exact .enter r.cursor.position hv htag.present hd
    · cases h
  | closer =>
    obtain ⟨c, siblings, enclosing⟩ := r
    cases enclosing with
    | nil => cases h
    | cons e outer =>
      simp only [take?] at h
      split at h
      · cases h
        obtain ⟨children, hf⟩ := exists_current siblings e outer c
        rw [state_close siblings e outer c d]
        exact .leave hf rfl
      · cases h

theorem Passes.steady {source : String} (h : (ofSource source).Passes r) : r.state.Steady := by
  refine h.invariant (P := fun r => r.state.Steady) (legal_ofSource source) ?_ State.steady_start
  rintro s s' ⟨k, t, hk, -, ht⟩ hs
  exact hs.move (moves_of_take? hk ht)

theorem step_nesting_iff :
    (∃ fault, r.step = .error fault ∧ fault.cause = .nestingTooDeep) ↔
      ∃ name properties tag c, TagText name properties true tag ∧ r.cursor.Reads tag c ∧
        isVoid name = false ∧ maxDepth ≤ r.depth := by
  constructor
  · rintro ⟨fault, hs, hcause⟩
    cases stumbles_of_step hs with
    | nesting htag h hv hd => exact ⟨_, _, _, _, htag, h, hv, hd⟩
    | inside _ hi => cases hi <;> cases hcause
    | _ => cases hcause
  · rintro ⟨name, properties, tag, c, htag, h, hv, hd⟩
    have hclosed : ¬ (!true || isVoid name) = true := by simp [hv]
    have hs : r.step = .error ⟨.nestingTooDeep, r.cursor.position, "<" ++ name⟩ := by
      rw [step_of_tagText htag h, if_neg hclosed, if_pos hd]
    exact ⟨_, hs, rfl⟩

end Reader

/-- A source is nested too deep exactly if a tag is read that opens while as many elements are open
as may be. -/
theorem parse_nesting_iff {source : String} :
    (∃ fault, parse source = .error fault ∧ fault.cause = .nestingTooDeep) ↔
      ∃ r name properties tag c, (Reader.ofSource source).Passes r ∧
      TagText name properties true tag ∧
        r.cursor.Reads tag c ∧ isVoid name = false ∧ r.depth = maxDepth := by
  constructor
  · rintro ⟨fault, hparse, hcause⟩
    obtain ⟨r, hr, ⟨-, hfinish⟩ | ⟨-, hstep⟩⟩ := Reader.run_eq_error_iff.1 hparse
    · obtain ⟨e, outer, -, rfl⟩ := Reader.finish_eq_error hfinish
      cases hcause
    · obtain ⟨name, properties, tag, c, htag, hc, hv, hd⟩ :=
        Reader.step_nesting_iff.1 ⟨fault, hstep, hcause⟩
      have hle : r.depth ≤ maxDepth := hr.steady.depth_le
      exact ⟨r, name, properties, tag, c, hr, htag, hc, hv, Nat.le_antisymm hle hd⟩
  · rintro ⟨r, name, properties, tag, c, hr, htag, hc, hv, hd⟩
    have hne : r.cursor.rest ≠ [] := by
      rw [hc.1]
      cases htag
      simp
    obtain ⟨fault, hstep, hcause⟩ :=
      Reader.step_nesting_iff.2 ⟨name, properties, tag, c, htag, hc, hv, Nat.le_of_eq hd.symm⟩
    exact ⟨fault, Reader.run_eq_error_iff.2 ⟨r, hr, .inr ⟨hne, hstep⟩⟩, hcause⟩

end TemplateCompiler.Markup
