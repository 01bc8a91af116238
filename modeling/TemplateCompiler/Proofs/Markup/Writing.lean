import TemplateCompiler.Proofs.Markup.Entity
import TemplateCompiler.Proofs.Markup.Tree

/-! # Written markup is read back

A tree is written with its texts as they are and its values escaped. What is read back is the tree
with its texts settled: neighbouring texts are one, and layout before a text is a space of its
own. A tree in normal form has settled texts, so it is read back as it was.
-/
namespace TemplateCompiler.Markup
open Text
open Construct (Written)

/-! ## Properties -/

theorem insertEntry_of_notMem {name : String} {value : Value} {entries : List (String × Value)}
    (h : name ∉ entries.map Prod.fst) :
    insertEntry name value entries = entries ++ [(name, value)] := by
  induction entries with
  | nil => rfl
  | cons e rest ih =>
    obtain ⟨n, v⟩ := e
    simp only [List.map_cons, List.mem_cons, not_or] at h
    rw [insertEntry, if_neg (Ne.symm h.1), ih h.2, List.cons_append]

theorem entries_foldl_insert {p : Properties} {pairs : List (String × Value)}
    (h : ((p.entries ++ pairs).map Prod.fst).Nodup) :
    (pairs.foldl (fun p e => p.insert e.1 e.2) p).entries = p.entries ++ pairs := by
  induction pairs generalizing p with
  | nil => simp
  | cons e rest ih =>
    obtain ⟨name, value⟩ := e
    have hname : name ∉ p.entries.map Prod.fst := by
      rw [List.map_append, List.nodup_append] at h
      exact fun hm => h.2.2 name hm name (by simp) rfl
    have hinsert : (p.insert name value).entries = p.entries ++ [(name, value)] :=
      insertEntry_of_notMem hname
    rw [List.foldl_cons, ih (by simpa [hinsert] using h), hinsert, List.append_assoc,
      List.singleton_append]

theorem Properties.ofList_entries (p : Properties) : Properties.ofList p.entries = p := by
  refine Properties.ext ?_
  have h := @entries_foldl_insert Properties.empty p.entries p.distinct
  exact h

def rereadProperty : String × Value → String × Value
  | (name, .text content) => (name, .text (escapeApostrophes content))
  | property => property

theorem names_reread (entries : List (String × Value)) :
    (entries.map rereadProperty).map Prod.fst = entries.map Prod.fst := by
  rw [List.map_map]
  refine List.map_congr_left fun e _ => ?_
  obtain ⟨name, value⟩ := e
  cases value <;> rfl

def Properties.reread (p : Properties) : Properties :=
  ⟨p.entries.map rereadProperty, by rw [names_reread]; exact p.distinct⟩

/-! ## Writing -/

def writtenProperty : String × Value → String
  | (name, .text content) => " " ++ name ++ "=\"" ++ escapeProperty content ++ "\""
  | (name, .flag) => " " ++ name
  | (_, .null) => ""

def writtenTag (name : String) (properties : Properties) : String :=
  "<" ++ name ++ String.join (properties.toList.map writtenProperty) ++ ">"

mutual
def writeNode : Node → String
  | .text content _ => content
  | .doctype literal _ => literal
  | .tag name properties children _ =>
    if isVoid name then writtenTag name properties
    else writtenTag name properties ++ write children ++ "</" ++ name ++ ">"

def write : List Node → String
  | [] => ""
  | node :: rest => writeNode node ++ write rest
end

@[simp]
theorem write_nil : write [] = "" := rfl

@[simp]
theorem write_text (content : String) (p : Position) (rest : List Node) :
    write (.text content p :: rest) = content ++ write rest := rfl

@[simp]
theorem write_doctype (literal : String) (p : Position) (rest : List Node) :
    write (.doctype literal p :: rest) = literal ++ write rest := rfl

@[simp]
theorem write_tag (name : String) (properties : Properties) (children : List Node) (p : Position)
    (rest : List Node) : write (.tag name properties children p :: rest) =
      (if isVoid name then writtenTag name properties
        else writtenTag name properties ++ write children ++ "</" ++ name ++ ">") ++
          write rest := rfl

def IsWritable (property : String × Value) : Prop := IsPropertyName property.1.toList ∧
  property.2 ≠ .null

/-- Trees that can be written inside `depth` open elements. `first` says that no node stands before
them in the document. -/
inductive Writable : Bool → Nat → List Node → Prop
  | nil {first : Bool} {depth : Nat} : Writable first depth []
  | text {first : Bool} {depth : Nat} {content : String} {p : Position} {rest : List Node}
    (ht : '<' ∉ content.toList) (h : Writable false depth rest) :
    Writable first depth (.text content p :: rest)
  | doctype {first : Bool} {depth : Nat} {inside : List Char} {p : Position} {rest : List Node}
    (hf : first = true) (hinside : '>' ∉ inside) (hdash : ¬ ['-', '-'] <+: inside)
    (h : Writable false depth rest) :
    Writable first depth (.doctype (String.ofList (['<', '!'] ++ inside ++ ['>'])) p :: rest)
  | void {first : Bool} {depth : Nat} {name : String} {properties : Properties} {p : Position}
    {rest : List Node} (hname : IsTagName name.toList) (hv : isVoid name = true)
    (hp : ∀ e ∈ properties.toList, IsWritable e) (h : Writable false depth rest) :
    Writable first depth (.tag name properties [] p :: rest)
  | element {first : Bool} {depth : Nat} {name : String} {properties : Properties}
    {children rest : List Node} {p : Position} (hname : IsTagName name.toList)
    (hv : isVoid name = false) (hp : ∀ e ∈ properties.toList, IsWritable e) (hd : depth < maxDepth)
    (hi : Writable false (depth + 1) children) (h : Writable false depth rest) :
    Writable first depth (.tag name properties children p :: rest)

theorem layoutFirst_written {entries : List (String × Value)} (h : ∀ e ∈ entries, IsWritable e) :
    LayoutFirst (String.join (entries.map writtenProperty)).toList := by
  cases entries with
  | nil => simp [LayoutFirst]
  | cons e rest =>
    obtain ⟨name, value⟩ := e
    have hvalue := (h _ List.mem_cons_self).2
    intro c hc
    have hspace : c = ' ' := by
      cases value with
      | null => exact absurd rfl hvalue
      | flag => simpa [writtenProperty] using hc.symm
      | text content => simpa [writtenProperty] using hc.symm
    rw [hspace]
    rfl

theorem propertyList_written {entries : List (String × Value)} (h : ∀ e ∈ entries, IsWritable e) :
    PropertyList (String.join (entries.map writtenProperty)).toList
      (entries.map rereadProperty) := by
  have hspace : IsLayout [' '] := by simp [IsLayout, isLayout]
  induction entries with
  | nil => exact .layout (by simp [IsLayout])
  | cons e rest ih =>
    obtain ⟨name, value⟩ := e
    obtain ⟨⟨hname, hvalue⟩, hrest⟩ := List.forall_mem_cons.1 h
    rw [List.map_cons, String.join_cons, String.toList_append]
    cases value with
    | null => exact absurd rfl hvalue
    | flag =>
      have hlist := PropertyList.flag hspace hname (layoutFirst_written hrest) (ih hrest)
      simpa [writtenProperty, rereadProperty] using hlist
    | text content =>
      have hlist := PropertyList.quoted hspace hname (quote_notMem_propertyEntity content.toList)
        (ih hrest)
      rw [decodeEntities_propertyEntity] at hlist
      simpa [writtenProperty, rereadProperty, escapeProperty, escapeApostrophes] using hlist

theorem tagText_written {name : String} {properties : Properties} (hname : IsTagName name.toList)
    (h : ∀ e ∈ properties.toList, IsWritable e) :
    TagText name properties.reread true (writtenTag name properties).toList := by
  have hproperties : properties.reread = Properties.ofList (properties.toList.map rereadProperty) :=
    (Properties.ofList_entries properties.reread).symm
  have htag : TagText name properties.reread true _ :=
    .mk hname (layoutFirst_written h) (propertyList_written h) hproperties
  simpa [writtenTag, tagEnd] using htag

/-! ## Settled texts -/

def textNodes (text : List Char) : List Node :=
  (if text.takeWhile isLayout = [] then [] else [.text " " .start]) ++
    if text.dropWhile isLayout =
      [] then [] else [.text (String.ofList (text.dropWhile isLayout)) .start]

def Node.text? : Node → Option String
  | .text content _ => some content
  | .doctype .. | .tag .. => none

mutual
def Node.settled : Node → Node
  | .text content _ => .text content .start
  | .doctype literal _ => .doctype literal .start
  | .tag name properties children _ => .tag name properties.reread (settledNodes [] children) .start

/-- The tree without its positions, with the texts settled behind `pending`. -/
def settledNodes (pending : List Char) : List Node → List Node
  | [] => textNodes pending
  | node :: rest =>
    match node.text? with
    | some content => settledNodes (pending ++ content.toList) rest
    | none => textNodes pending ++ node.settled :: settledNodes [] rest
end

section Settled

variable (pending : List Char) (rest : List Node) (p : Position)

@[simp]
theorem settledNodes_nil : settledNodes pending [] = textNodes pending := rfl

@[simp]
theorem settledNodes_text (content : String) :
    settledNodes pending (.text content p :: rest) =
      settledNodes (pending ++ content.toList) rest := rfl

@[simp]
theorem settledNodes_doctype (literal : String) :
    settledNodes pending (.doctype literal p :: rest) =
      textNodes pending ++ .doctype literal .start :: settledNodes [] rest := rfl

@[simp]
theorem settledNodes_tag (name : String) (properties : Properties) (children : List Node) :
    settledNodes pending (.tag name properties children p :: rest) =
      textNodes pending ++ .tag name properties.reread (settledNodes [] children) .start ::
        settledNodes [] rest := rfl

end Settled

mutual
def Node.unplaced : Node → Node
  | .text content _ => .text content .start
  | .doctype literal _ => .doctype literal .start
  | .tag name properties children _ => .tag name properties (unplacedNodes children) .start

def unplacedNodes : List Node → List Node
  | [] => []
  | node :: rest => node.unplaced :: unplacedNodes rest
end

section Unplaced

variable (rest : List Node) (p : Position)

@[simp]
theorem unplacedNodes_nil : unplacedNodes [] = [] := rfl

@[simp]
theorem unplacedNodes_text (content : String) :
    unplacedNodes (.text content p :: rest) = .text content .start :: unplacedNodes rest := rfl

@[simp]
theorem unplacedNodes_doctype (literal : String) :
    unplacedNodes (.doctype literal p :: rest) = .doctype literal .start :: unplacedNodes rest :=
  rfl

@[simp]
theorem unplacedNodes_tag (name : String) (properties : Properties) (children : List Node) :
    unplacedNodes (.tag name properties children p :: rest) =
      .tag name properties (unplacedNodes children) .start :: unplacedNodes rest := rfl

end Unplaced

@[simp]
theorem textNodes_nil : textNodes [] = [] := rfl

theorem content_text {depth : Nat} {p : Position} (first : Bool) {pending text : List Char}
    {more : List Node} (hp : '<' ∉ pending) (ht : ∀ c ∈ text.head?, c = '<')
    (h : ∀ first, Content first depth (p.after pending) text more) :
    ∃ nodes, Content first depth p (pending ++ text) nodes ∧
      unplacedNodes nodes = textNodes pending ++ unplacedNodes more := by
  have hsplit : pending.takeWhile isLayout ++ pending.dropWhile isLayout = pending :=
    List.takeWhile_append_dropWhile
  have hlayout : IsLayout (pending.takeWhile isLayout) := of_mem_takeWhile
  have hfirst : NoLayoutFirst (pending.dropWhile isLayout) := head?_dropWhile _ _
  have hlt : '<' ∉ pending.dropWhile isLayout := fun hm => hp (List.dropWhile_subset _ hm)
  rw [textNodes]
  generalize pending.takeWhile isLayout = gap at *
  generalize pending.dropWhile isLayout = kept at *
  subst hsplit
  rw [Position.after_append] at h
  have hkept : ∀ first, ∃ nodes, Content first depth (p.after gap) (kept ++ text) nodes ∧
      unplacedNodes nodes =
        (if kept = [] then [] else [.text (String.ofList kept) .start]) ++ unplacedNodes more := by
    intro first
    by_cases hk : kept = []
    · subst hk
      exact ⟨more, h first, by simp⟩
    · exact ⟨_, .text (.text hk hlt hfirst ht) (h false), by simp [hk]⟩
  have hnext : NoLayoutFirst (kept ++ text) := by
    intro c hc
    cases kept with
    | nil => exact ht c hc ▸ rfl
    | cons d kept => exact hfirst c hc
  by_cases hg : gap = []
  · subst hg
    simpa using hkept first
  · obtain ⟨nodes, hcontent, hnodes⟩ := hkept false
    rw [List.append_assoc]
    exact ⟨_, .layout (.layout hg hlayout hnext) hcontent, by simp [hg, hnodes]⟩

theorem write_tag_head {name : String} {properties : Properties} {children rest : List Node}
    {p : Position} :
    ∀ c ∈ (write (.tag name properties children p :: rest)).toList.head?, c = '<' := by
  intro c hc
  rw [write_tag] at hc
  split at hc
  · simpa [writtenTag] using hc.symm
  · simpa [writtenTag] using hc.symm

/-- What is written is a content that has the tree with its texts settled. -/
theorem Writable.content {first : Bool} {depth : Nat} {nodes : List Node}
    (h : Writable first depth nodes) (pending : List Char) (fresh : Bool) (p : Position)
    (hp : '<' ∉ pending) (hf : first = true → fresh = true ∧ pending = []) :
    ∃ more, Content fresh depth p (pending ++ (write nodes).toList) more ∧
      unplacedNodes more = settledNodes pending nodes := by
  have hnone : ∀ {prop : Prop}, false = true → prop := fun h => absurd h Bool.false_ne_true
  -- `pending` is the text since the last tag: texts only make it longer, a tag or the end
  -- settles it
  induction h generalizing pending fresh p with
  | nil =>
    obtain ⟨more, hcontent, hmore⟩ := content_text fresh hp (by simp) fun first => .nil
    exact ⟨more, by simpa using hcontent, by simpa using hmore⟩
  | @text _ _ content _ rest ht _ ih =>
    obtain ⟨more, hcontent, hmore⟩ :=
      ih (pending ++ content.toList) fresh p (by simp [hp, ht]) hnone
    exact ⟨more, by simpa using hcontent, by simpa using hmore⟩
  | @doctype first depth inside _ rest hfirst hinside hdash _ ih =>
    obtain ⟨rfl, rfl⟩ := hf hfirst
    obtain ⟨more, hcontent, hmore⟩ :=
      ih [] false (p.after (['<', '!'] ++ (inside ++ ['>']))) hp hnone
    refine ⟨.doctype (String.ofList (['<', '!'] ++ inside ++ ['>'])) p :: more, ?_, ?_⟩
    · have hdoctype := Content.doctype (.doctype hinside hdash) rfl hcontent
      simpa using hdoctype
    · simp [hmore]
  | @void first depth name properties q rest hname hv hwritable _ ih =>
    have htag := tagText_written hname hwritable
    obtain ⟨more, hcontent, hmore⟩ :=
      ih [] false ((p.after pending).after (writtenTag name properties).toList) (by simp) hnone
    have hnode : ∀ first, Content first depth (p.after pending)
        (write (.tag name properties [] q :: rest)).toList
        (.tag name properties.reread [] (p.after pending) :: more) := by
      intro first
      simpa [hv] using Content.single (.single htag (.inr hv)) hcontent
    obtain ⟨nodes, hnodes, htext⟩ := content_text fresh hp write_tag_head hnode
    refine ⟨nodes, hnodes, ?_⟩
    rw [htext]
    simp [hmore]
  | @element first depth name properties children rest q hname hv hwritable hd _ _ ihi ih =>
    have htag := tagText_written hname hwritable
    let c := ['<', '/'] ++ (name.toList ++ ['>'])
    obtain ⟨inner, hinner, hchildren⟩ :=
      ihi [] false ((p.after pending).after (writtenTag name properties).toList) (by simp) hnone
    obtain ⟨more, hcontent, hmore⟩ := ih [] false
      ((p.after pending).after ((writtenTag name properties).toList ++ (write children).toList ++
        c))
      (by simp) hnone
    have hnode : ∀ first, Content first depth (p.after pending)
        (write (.tag name properties children q :: rest)).toList
        (.tag name properties.reread inner (p.after pending) :: more) := by
      intro first
      have helement : Content first depth (p.after pending) _
          (.tag name properties.reread inner (p.after pending) :: more) :=
        .element (.opener htag hv) hd hinner (.closer hname hv) hcontent
      simpa [hv] using helement
    obtain ⟨nodes, hnodes, htext⟩ := content_text fresh hp write_tag_head hnode
    refine ⟨nodes, hnodes, ?_⟩
    rw [htext]
    simp [hmore, hchildren]

/-! ## Normal form -/

/-- One space, or a text that begins with no layout and has no tags. -/
def IsNormalText (content : String) : Prop :=
  content = " " ∨ content ≠ "" ∧ '<' ∉ content.toList ∧ NoLayoutFirst content.toList

def IsNormalProperty (property : String × Value) : Prop :=
  IsPropertyName property.1.toList ∧
    (property.2 = .flag ∨ ∃ content, property.2 = .text content ∧ '\'' ∉ content.toList)

/-- Trees in normal form. `before` is the text right before them, if there is one: only a text that
is no space may follow, and only a space. -/
inductive Normal : Bool → Nat → Option String → List Node → Prop
  | nil {first : Bool} {depth : Nat} {before : Option String} : Normal first depth before []
  | text {first : Bool} {depth : Nat} {before : Option String} {content : String} {p : Position}
    {rest : List Node} (ht : IsNormalText content) (hb : ∀ b ∈ before, b = " " ∧ content ≠ " ")
    (h : Normal false depth (some content) rest) :
      Normal first depth before (.text content p :: rest)
  | doctype {first : Bool} {depth : Nat} {before : Option String} {inside : List Char}
    {p : Position} {rest : List Node} (hf : first = true) (hinside : '>' ∉ inside)
    (hdash : ¬ ['-', '-'] <+: inside) (h : Normal false depth none rest) :
    Normal first depth before (.doctype (String.ofList (['<', '!'] ++ inside ++ ['>'])) p :: rest)
  | void {first : Bool} {depth : Nat} {before : Option String} {name : String}
    {properties : Properties} {p : Position} {rest : List Node}
    (hname : IsTagName name.toList) (hv : isVoid name = true)
    (hp : ∀ e ∈ properties.toList, IsNormalProperty e) (h : Normal false depth none rest) :
    Normal first depth before (.tag name properties [] p :: rest)
  | element {first : Bool} {depth : Nat} {before : Option String} {name : String}
    {properties : Properties} {children rest : List Node} {p : Position}
    (hname : IsTagName name.toList) (hv : isVoid name = false)
    (hp : ∀ e ∈ properties.toList, IsNormalProperty e) (hd : depth < maxDepth)
    (hi : Normal false (depth + 1) none children) (h : Normal false depth none rest) :
    Normal first depth before (.tag name properties children p :: rest)

section Normal

variable {first : Bool} {depth : Nat} {before : Option String} {nodes : List Node}

theorem IsNormalProperty.isWritable {e : String × Value} (h : IsNormalProperty e) :
    IsWritable e := by
  refine ⟨h.1, ?_⟩
  rcases h.2 with hv | ⟨content, hv, -⟩
  · simp [hv]
  · simp [hv]

theorem IsNormalProperty.reread_eq {e : String × Value} (h : IsNormalProperty e) :
    rereadProperty e = e := by
  obtain ⟨name, value⟩ := e
  rcases h.2 with rfl | ⟨content, rfl, hc⟩
  · rfl
  · rw [rereadProperty, escapeApostrophes_eq_self hc]

theorem reread_eq_self {properties : Properties} (h : ∀ e ∈ properties.toList, IsNormalProperty e) :
    properties.reread = properties :=
  Properties.ext ((List.map_congr_left fun e he => (h e he).reread_eq).trans (List.map_id _))

theorem IsNormalText.notMem {content : String} (h : IsNormalText content) :
    '<' ∉ content.toList := by
  rcases h with rfl | ⟨-, h, -⟩
  · decide
  · exact h

theorem Normal.writable (h : Normal first depth before nodes) : Writable first depth nodes := by
  induction h with
  | nil => exact .nil
  | text ht _ _ ih => exact .text ht.notMem ih
  | doctype hf hinside hdash _ ih => exact .doctype hf hinside hdash ih
  | void hname hv hp _ ih => exact .void hname hv (fun e he => (hp e he).isWritable) ih
  | element hname hv hp hd _ _ ihi ih =>
    exact .element hname hv (fun e he => (hp e he).isWritable) hd ihi ih

theorem textNodes_append {gap : List Char} {content : String} (hgap : IsLayout gap)
    (hne : content ≠ "") (h : NoLayoutFirst content.toList) :
    textNodes (gap ++ content.toList) = textNodes gap ++ [.text content .start] := by
  have hlist : content.toList ≠ [] := by simpa using hne
  obtain ⟨htake, hdrop⟩ := takeWhile_append_of_head hgap h
  have hends : (gap ++ []).takeWhile isLayout = gap ∧ (gap ++ []).dropWhile isLayout = [] :=
    takeWhile_append_of_head hgap (by simp)
  rw [List.append_nil] at hends
  simp [textNodes, htake, hdrop, hends, hlist]

theorem Normal.settled_eq (h : Normal first depth before nodes) (pending : List Char)
    (hnone : before = none → pending = []) (hspace : before = some " " → pending = [' ']) :
    settledNodes pending nodes = textNodes pending ++ unplacedNodes nodes := by
  induction h generalizing pending with
  | nil => simp
  | @text _ _ before content _ rest ht hb _ ih =>
    have hpending : pending = [] ∨ pending = [' '] ∧ content ≠ " " := by
      cases before with
      | none => exact .inl (hnone rfl)
      | some b =>
        obtain ⟨rfl, hcontent⟩ := hb b rfl
        exact .inr ⟨hspace rfl, hcontent⟩
    have hnext : some content = some " " → pending ++ content.toList = [' '] := by
      intro hc
      obtain rfl := Option.some.inj hc
      rcases hpending with rfl | ⟨-, hcontent⟩
      · rfl
      · exact absurd rfl hcontent
    have htext : textNodes (pending ++ content.toList) = textNodes pending ++
        [.text content .start] := by
      rcases ht with rfl | ⟨hne, -, hfirst⟩
      · rw [hnext rfl]
        rcases hpending with rfl | ⟨-, hcontent⟩
        · rfl
        · exact absurd rfl hcontent
      · refine textNodes_append ?_ hne hfirst
        rcases hpending with rfl | ⟨rfl, -⟩
        · simp [IsLayout]
        · simp [IsLayout, isLayout]
    rw [settledNodes_text, ih (pending ++ content.toList) (fun h => by cases h) hnext, htext,
      unplacedNodes_text, List.append_assoc, List.singleton_append]
  | doctype _ _ _ _ ih =>
    have hrest := ih [] (fun _ => rfl) fun h => by cases h
    simp [hrest]
  | void _ _ hp _ ih =>
    have hrest := ih [] (fun _ => rfl) fun h => by cases h
    simp [hrest, reread_eq_self hp]
  | element _ _ hp _ _ _ ihi ih =>
    have hrest := ih [] (fun _ => rfl) fun h => by cases h
    have hchildren := ihi [] (fun _ => rfl) fun h => by cases h
    simp [hrest, hchildren, reread_eq_self hp]

end Normal

theorem Writable.parse_eq {nodes : List Node} (h : Writable true 0 nodes) :
    ∃ more, parse (write nodes) = .ok more ∧ unplacedNodes more = settledNodes [] nodes := by
  obtain ⟨more, hcontent, hmore⟩ := h.content [] true .start (by simp) fun _ => ⟨rfl, rfl⟩
  exact ⟨more, Document.parse_eq_ok hcontent, hmore⟩

/-- A tree in normal form is read back from its markup, but for its positions. -/
theorem parse_write {nodes : List Node} (h : Normal true 0 none nodes) :
    ∃ more, parse (write nodes) = .ok more ∧ unplacedNodes more = unplacedNodes nodes := by
  obtain ⟨more, hparse, hmore⟩ := h.writable.parse_eq
  refine ⟨more, hparse, hmore.trans ?_⟩
  rw [h.settled_eq [] (fun _ => rfl) fun h => by cases h]
  rfl

def page : List Node :=
  [.doctype (String.ofList (['<', '!'] ++ "DOCTYPE html".toList ++ ['>'])) .start, .text " " .start,
    .tag "p" ⟨[("title", .text "a \"b\" & <c>"), ("hidden", .flag)], by simp⟩
      [.text " " .start, .text "x > y" .start, .tag "br" .empty [] .start] .start]

theorem parse_write_page :
    Normal true 0 none page ∧
      write page = "<!DOCTYPE html> <p title=\"a &quot;b&quot; &amp; &lt;c&gt;\" hidden> x > y<br></p>" ∧
      ∃ more, parse (write page) = .ok more ∧ unplacedNodes more = unplacedNodes page := by
  have hp : IsTagName "p".toList := ⟨by decide, List.all_eq_true.1 (by decide), by decide⟩
  have hbr : IsTagName "br".toList := ⟨by decide, List.all_eq_true.1 (by decide), by decide⟩
  have htext : IsNormalText "x > y" :=
    .inr ⟨by decide, by decide, by simp [NoLayoutFirst, isLayout]⟩
  have htitle : IsNormalProperty ("title", .text "a \"b\" & <c>") :=
    ⟨⟨by decide, List.all_eq_true.1 (by decide)⟩, .inr ⟨_, rfl, by decide⟩⟩
  have hhidden : IsNormalProperty ("hidden", .flag) :=
    ⟨⟨by decide, List.all_eq_true.1 (by decide)⟩, .inl rfl⟩
  have hinner : Normal false 1 none [.text " " .start, .text "x > y" .start,
      .tag "br" .empty [] .start] := by
    refine .text (.inl rfl) (by simp) (.text htext (by simp) (.void hbr (by decide) ?_ .nil))
    simp [Properties.toList, Properties.empty]
  have h : Normal true 0 none page := by
    refine .doctype rfl (by decide) (by decide) (.text (.inl rfl) (by simp) ?_)
    refine .element hp (by decide) ?_ (by decide) hinner .nil
    simpa [Properties.toList] using ⟨htitle, hhidden⟩
  exact ⟨h, by decide +kernel, parse_write h⟩

end TemplateCompiler.Markup
