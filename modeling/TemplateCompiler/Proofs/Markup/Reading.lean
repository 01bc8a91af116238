import TemplateCompiler.Proofs.Markup.Outline

/-! # What is read can be written

The names that are read are legal, void tags get no children, and no text has a tag in it. A tree
can therefore be written again if its elements were never nested as deep as the reader allows, so
that every tag leaves room to be opened. No character is in a tree that is not in its source, but
for the spaces of layout and what entities stand for.
-/
namespace TemplateCompiler.Markup
open Text
open Construct (Written)

/-! ## Properties that are read -/

theorem mem_insertEntry {name : String} {value : Value} {entries : List (String × Value)}
    {e : String × Value} (h : e ∈ insertEntry name value entries) :
    e = (name, value) ∨ e ∈ entries := by
  induction entries with
  | nil => exact .inl (List.mem_singleton.1 h)
  | cons f rest ih =>
    obtain ⟨n, v⟩ := f
    rw [insertEntry] at h
    split at h
    · next hn =>
      rcases List.mem_cons.1 h with rfl | h
      · exact .inl (by rw [hn])
      · exact .inr (List.mem_cons_of_mem _ h)
    · rcases List.mem_cons.1 h with rfl | h
      · exact .inr List.mem_cons_self
      · exact (ih h).imp_right (List.mem_cons_of_mem _)

theorem mem_foldl_insert {pairs : List (String × Value)} {p : Properties} {e : String × Value}
    (h : e ∈ (pairs.foldl (fun p e => p.insert e.1 e.2) p).toList) : e ∈ pairs ∨ e ∈ p.toList := by
  induction pairs generalizing p with
  | nil => exact .inr h
  | cons f rest ih =>
    rcases ih h with h | h
    · exact .inl (List.mem_cons_of_mem _ h)
    · rcases mem_insertEntry h with rfl | h
      · exact .inl List.mem_cons_self
      · exact .inr h

theorem mem_ofList {pairs : List (String × Value)} {e : String × Value}
    (h : e ∈ (Properties.ofList pairs).toList) : e ∈ pairs :=
  (mem_foldl_insert h).resolve_right (by simp [Properties.empty, Properties.toList])

theorem PropertyList.isWritable {text : List Char} {pairs : List (String × Value)}
    (h : PropertyList text pairs) : ∀ e ∈ pairs, IsWritable e := by
  induction h with
  | layout => simp
  | flag _ hname _ _ ih => exact List.forall_mem_cons.2 ⟨⟨by simpa using hname, by simp⟩, ih⟩
  | quoted _ hname _ _ ih => exact List.forall_mem_cons.2 ⟨⟨by simpa using hname, by simp⟩, ih⟩

theorem TagText.isWritable {name : String} {properties : Properties} {opens : Bool}
    {text : List Char} (h : TagText name properties opens text) :
    IsTagName name.toList ∧ ∀ e ∈ properties.toList, IsWritable e := by
  cases h with
  | mk hname hend hlist hp =>
    subst hp
    exact ⟨hname, fun e he => hlist.isWritable e (mem_ofList he)⟩

/-! ## Depth -/

theorem Reader.Passes.trans {r s q : Reader} (h : r.Passes s) (h' : s.Passes q) : r.Passes q := by
  induction h with
  | refl r => exact h'
  | step hne hs _ ih => exact .step hne hs (ih h')

/-- A reader passes where the reader behind a construct does. -/
theorem Reader.Passes.of_written (p : Position) (siblings : List Node)
    (enclosing : List OpenElement) {k : Construct} {t rest : List Char} {siblings' : List Node}
    {enclosing' : List OpenElement} (hk : Written k t rest)
    (ht : (⟨⟨t ++ rest, p⟩, siblings, enclosing⟩ : Reader).take? ⟨rest, p.after t⟩ k =
      some ⟨⟨rest, p.after t⟩, siblings', enclosing'⟩)
    (q : Reader) (hq : Reader.Passes ⟨⟨rest, p.after t⟩, siblings', enclosing'⟩ q) :
    Reader.Passes ⟨⟨t ++ rest, p⟩, siblings, enclosing⟩ q := by
  refine .step ?_ (Reader.step_of_written hk ⟨rfl, rfl⟩ ht) hq
  simp [hk.ne_nil]

theorem Reader.Passes.of_opener (p : Position) (siblings : List Node) (enclosing : List OpenElement)
    {name : String} {properties : Properties} {o rest : List Char}
    (ho : Written (.opener name properties) o rest) (hroom : enclosing.length < maxDepth)
    (q : Reader)
    (hq : Reader.Passes ⟨⟨rest, p.after o⟩, [], ⟨name, properties, p, siblings⟩ :: enclosing⟩ q) :
    Reader.Passes ⟨⟨o ++ rest, p⟩, siblings, enclosing⟩ q :=
  .of_written p siblings enclosing ho (if_pos hroom) q hq

theorem Reader.Passes.of_closer (p : Position) (children : List Node) (e : OpenElement)
    (enclosing : List OpenElement) {c rest : List Char} (hc : Written (.closer e.name) c rest)
    (q : Reader) (hq : Reader.Passes ⟨⟨rest, p.after c⟩, e.close children :: e.before,
      enclosing⟩ q) :
    Reader.Passes ⟨⟨c ++ rest, p⟩, children, e :: enclosing⟩ q :=
  .of_written p children (e :: enclosing) hc (if_pos rfl) q hq

/-- A content that is read inside less than the greatest number of open elements can be written. -/
theorem Content.writable {first : Bool} {depth : Nat} {p : Position} {text : List Char}
    {nodes : List Node} (h : Content first depth p text nodes) {siblings : List Node}
    {enclosing : List OpenElement} {tail : List Char}
    (hf : first = true → enclosing.isEmpty = true ∧ siblings.isEmpty = true)
    (hd : enclosing.length = depth) (ht : ∀ c ∈ tail.head?, c = '<')
    (hdeep : ∀ q, Reader.Passes ⟨⟨text ++ tail, p⟩, siblings, enclosing⟩ q → q.depth < maxDepth) :
    Writable first depth nodes ∧
      Reader.Passes ⟨⟨text ++ tail, p⟩, siblings, enclosing⟩
        ⟨⟨tail, p.after text⟩, nodes.reverse ++ siblings, enclosing⟩ := by
  have hnone : ∀ {prop : Prop}, false = true → prop := fun h => absurd h Bool.false_ne_true
  -- the bound holds behind a construct because the reader passes there, inside an element and
  -- behind it
  induction h generalizing siblings enclosing tail with
  | nil => exact ⟨.nil, .refl _⟩
  | @layout _ _ p t rest nodes hk _ ih =>
    rw [List.append_assoc] at hdeep ⊢
    have hpass := Reader.Passes.of_written p siblings enclosing (hk.extend ht) rfl
    obtain ⟨hw, hbehind⟩ := ih hnone hd ht fun q hq => hdeep q (hpass q hq)
    refine ⟨.text (by decide) hw, ?_⟩
    simpa [Position.after_append] using hpass _ hbehind
  | @text _ _ p content t rest nodes hk _ ih =>
    rw [List.append_assoc] at hdeep ⊢
    have hpass := Reader.Passes.of_written p siblings enclosing (hk.extend ht) rfl
    obtain ⟨hw, hbehind⟩ := ih hnone hd ht fun q hq => hdeep q (hpass q hq)
    refine ⟨.text ?_ hw, ?_⟩
    · cases hk with
      | text _ hcontent => simpa using hcontent
    · simpa [Position.after_append] using hpass _ hbehind
  | @comment _ _ p t rest nodes hk _ ih =>
    rw [List.append_assoc] at hdeep ⊢
    have hpass := Reader.Passes.of_written p siblings enclosing (hk.extend ht) rfl
    obtain ⟨hw, hbehind⟩ := ih hf hd ht fun q hq => hdeep q (hpass q hq)
    refine ⟨hw, ?_⟩
    simpa [Position.after_append] using hpass _ hbehind
  | @single _ _ p name properties t rest nodes hk _ ih =>
    rw [List.append_assoc] at hdeep ⊢
    have hpass := Reader.Passes.of_written p siblings enclosing (hk.extend ht) rfl
    obtain ⟨hw, hbehind⟩ := ih hnone hd ht fun q hq => hdeep q (hpass q hq)
    have hdepth := hdeep _ (.refl _)
    refine ⟨?_, by simpa [Position.after_append] using hpass _ hbehind⟩
    cases hk with
    | single htag =>
      obtain ⟨hname, hproperties⟩ := htag.isWritable
      cases hv : isVoid name with
      | true => exact .void hname hv hproperties hw
      | false => exact .element hname hv hproperties (hd ▸ hdepth) .nil hw
  | @doctype _ _ p literal t rest nodes hk hfirst _ ih =>
    rw [List.append_assoc] at hdeep ⊢
    obtain ⟨henclosing, hsiblings⟩ := hf hfirst
    have hfresh : (⟨⟨t ++ (rest ++ tail), p⟩, siblings, enclosing⟩ : Reader).isFresh = true := by
      simp [Reader.isFresh, henclosing, hsiblings]
    have hpass := Reader.Passes.of_written p siblings enclosing (hk.extend ht) (if_pos hfresh)
    obtain ⟨hw, hbehind⟩ := ih hnone hd ht fun q hq => hdeep q (hpass q hq)
    refine ⟨?_, by simpa [Position.after_append] using hpass _ hbehind⟩
    cases hk with
    | doctype hinside hdash => exact .doctype hfirst hinside hdash hw
  | @element _ depth p name properties o inner c rest children nodes ho hdepth _ hc _ ihi ih =>
    simp only [List.append_assoc] at hdeep ⊢
    let e : OpenElement := ⟨name, properties, p, siblings⟩
    have hlt : ∀ x ∈ (c ++ (rest ++ tail)).head?, x = '<' := by
      cases hc with
      | closer hname hv => simp
    have ho' : Written (.opener name properties) o (inner ++ (c ++ (rest ++ tail))) := by
      simpa using ho.extend ht
    have hopen := Reader.Passes.of_opener p siblings enclosing ho' (hd ▸ hdepth)
    obtain ⟨hwi, hinner⟩ := ihi hnone (by simp [hd]) hlt fun q hq => hdeep q (hopen q hq)
    have hclose : ∀ q, Reader.Passes ⟨⟨rest ++ tail, p.after (o ++ inner ++ c)⟩,
          .tag name properties children p :: siblings, enclosing⟩ q →
        Reader.Passes ⟨⟨o ++ (inner ++ (c ++ (rest ++ tail))), p⟩, siblings, enclosing⟩ q := by
      intro q hq
      rw [Position.after_append, Position.after_append] at hq
      refine hopen q (hinner.trans (.of_closer _ _ e enclosing (hc.extend ht) q ?_))
      simpa [OpenElement.close, e] using hq
    obtain ⟨hw, hbehind⟩ := ih hnone hd ht fun q hq => hdeep q (hclose q hq)
    refine ⟨?_, by simpa [Position.after_append] using hclose _ hbehind⟩
    cases ho with
    | opener htag hv =>
      obtain ⟨hname, hproperties⟩ := htag.isWritable
      exact .element hname hv hproperties hdepth hwi hw

/-- A construct opens one element at most. -/
theorem Reader.depth_of_take? {r s : Reader} {c : Cursor} {k : Construct}
    (h : r.take? c k = some s) :
    s.depth ≤ r.depth + 1 := by
  cases k with
  | layout | comment | text | single =>
    cases h
    exact Nat.le_succ _
  | doctype literal =>
    simp only [Reader.take?] at h
    split at h <;> cases h
    exact Nat.le_succ _
  | opener name properties =>
    simp only [Reader.take?] at h
    split at h <;> cases h
    exact Nat.le_refl _
  | closer name =>
    simp only [Reader.take?] at h
    split at h
    · cases h
    · next e outer he =>
      split at h <;> cases h
      simp only [Reader.depth, he, List.length_cons]
      omega

/-- Every open element has taken a character of the source at least. -/
theorem Reader.Passes.depth_le {r q : Reader} (h : r.Passes q) (hl : r.Legal) :
    q.depth + q.cursor.rest.length ≤ r.depth + r.cursor.rest.length := by
  refine h.invariant (P := fun s => s.depth + s.cursor.rest.length ≤
    r.depth + r.cursor.rest.length) hl ?_
    (Nat.le_refl _)
  intro s s' hs hle
  have hlength := hs.length_lt
  obtain ⟨k, t, -, -, ht⟩ := hs
  have hdepth := Reader.depth_of_take? ht
  omega

theorem writable_of_parse {source : String} {nodes : List Node} (h : parse source = .ok nodes)
    (hdeep : ∀ r, Reader.Passes (.ofSource source) r → r.depth < maxDepth) :
    Writable true 0 nodes := by
  have hsource : Reader.ofSource source = ⟨⟨source.toList ++ [], .start⟩, [], []⟩ := by
    simp [Reader.ofSource, Cursor.ofSource]
  rw [hsource] at hdeep
  exact ((document_of_parse h).writable (fun _ => ⟨rfl, rfl⟩) rfl (by simp) hdeep).1

/-! ## Characters -/

theorem mem_replaceAll {needle new : List Char} {x : Char} (text : List Char)
    (h : x ∈ replaceAll needle new text) : x ∈ new ∨ x ∈ text := by
  cases hc : cut? needle text with
  | none =>
    rw [replaceAll_of_none new hc] at h
    exact .inr h
  | some found =>
    obtain ⟨before, rest⟩ := found
    by_cases hn : needle = []
    · subst hn
      rw [replaceAll, dif_pos rfl] at h
      exact .inr h
    · have hlength := length_cut? hc
      have hneedle := List.length_pos_iff.2 hn
      have htext := eq_of_cut? hc
      rw [replaceAll_of_some hn new hc] at h
      simp only [List.mem_append, or_assoc] at h
      rcases h with h | h | h
      · exact .inr (by simp [htext, h])
      · exact .inl h
      · rcases mem_replaceAll rest h with h | h
        · exact .inl h
        · exact .inr (by simp [htext, h])
termination_by text.length
decreasing_by omega

theorem mem_decodeEntities {x : Char} {text : List Char} (h : x ∈ decodeEntities text) :
    x ∈ decoded ∨ x ∈ text := by
  have hpass : ∀ {needle new : List Char} {text : List Char}, new ⊆ decoded →
      x ∈ replaceAll needle new text → x ∈ decoded ∨ x ∈ text := fun hnew hx =>
    (mem_replaceAll _ hx).imp_left (@hnew x)
  rcases hpass (by decide) h with h | h
  · exact .inl h
  rcases hpass (by decide) h with h | h
  · exact .inl h
  rcases hpass (by decide) h with h | h
  · exact .inl h
  · exact hpass (by decide) h

def PropertyAvoids (x : Char) (e : String × Value) : Prop :=
  x ∉ e.1.toList ∧ ∀ content, e.2 = .text content → x ∉ content.toList

def Node.Avoids (x : Char) : Node → Prop
  | .text content _ => x ∉ content.toList
  | .doctype literal _ => x ∉ literal.toList
  | .tag name properties _ _ => x ∉ name.toList ∧ ∀ e ∈ properties.toList, PropertyAvoids x e

theorem PropertyList.avoids {x : Char} (hx : x ∉ decoded) {text : List Char}
    {pairs : List (String × Value)} (h : PropertyList text pairs) (ht : x ∉ text) :
    ∀ e ∈ pairs, PropertyAvoids x e := by
  induction h with
  | layout => simp
  | flag _ _ _ _ ih =>
    simp only [List.mem_append, not_or] at ht
    exact List.forall_mem_cons.2 ⟨⟨by simpa using ht.1.2, by simp⟩, ih ht.2⟩
  | quoted _ _ _ _ ih =>
    simp only [List.mem_append, not_or] at ht
    refine List.forall_mem_cons.2 ⟨⟨by simpa using ht.1.1.2, ?_⟩, ih ht.2⟩
    intro content hcontent
    cases hcontent
    rw [String.toList_ofList]
    exact fun hm => (mem_decodeEntities hm).elim hx ht.1.2.1.2

theorem TagText.avoids {x : Char} (hx : x ∉ decoded) {name : String} {properties : Properties}
    {opens : Bool} {text : List Char} (h : TagText name properties opens text) (ht : x ∉ text) :
    x ∉ name.toList ∧ ∀ e ∈ properties.toList, PropertyAvoids x e := by
  cases h with
  | mk hname hend hlist hp =>
    subst hp
    simp only [List.mem_append, not_or] at ht
    exact ⟨ht.2.1, fun e he => hlist.avoids hx ht.2.2.1 e (mem_ofList he)⟩

/-- A tree has no character that its source does not have. -/
theorem Content.avoids {x : Char} (hx : x ∉ ' ' :: decoded) {first : Bool} {depth : Nat}
    {p : Position} {text : List Char} {nodes : List Node} (h : Content first depth p text nodes)
    (ht : x ∉ text) :
    ∀ n ∈ allNodes nodes, n.Avoids x := by
  simp only [List.mem_cons, not_or] at hx
  induction h with
  | nil => simp
  | layout hk _ ih =>
    simp only [List.mem_append, not_or] at ht
    exact List.forall_mem_cons.2 ⟨by simpa [Node.Avoids] using hx.1, ih ht.2⟩
  | comment hk _ ih =>
    simp only [List.mem_append, not_or] at ht
    exact ih ht.2
  | text hk _ ih =>
    simp only [List.mem_append, not_or] at ht
    cases hk
    exact List.forall_mem_cons.2 ⟨by simpa [Node.Avoids] using ht.1, ih ht.2⟩
  | single hk _ ih =>
    simp only [List.mem_append, not_or] at ht
    cases hk with
    | single htag =>
      have hnone : ∀ n ∈ allNodes [], n.Avoids x := by simp
      exact List.forall_mem_cons.2 ⟨htag.avoids hx.2 ht.1,
        List.forall_mem_append.2 ⟨hnone, ih ht.2⟩⟩
  | element ho _ _ hc _ ihi ih =>
    simp only [List.mem_append, not_or] at ht
    cases ho with
    | opener htag =>
      exact List.forall_mem_cons.2 ⟨htag.avoids hx.2 ht.1,
        List.forall_mem_append.2 ⟨ihi ht.2.1, ih ht.2.2.2⟩⟩
  | doctype hk _ _ ih =>
    simp only [List.mem_append, not_or] at ht
    cases hk
    exact List.forall_mem_cons.2 ⟨by simpa [Node.Avoids] using ht.1, ih ht.2⟩

end TemplateCompiler.Markup
