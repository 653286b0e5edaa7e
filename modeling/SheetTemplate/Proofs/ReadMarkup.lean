import SheetTemplate.Proofs.MarkupRoundTrip

/-!
# Documents that are read can be written

A section ends at the first mark that can end it, and so does a comment. What is read therefore
never contains such a mark, and a document that was read can be written if it uses names of XML.

## Key results

- `Token.closed_of_next?`: the sections and comments of a text
- `Reader.good_of_parse`: what holds of all nodes that are read
- `Document.writable_of_parse`: documents that are read
- `once_of_parse`: no attribute is given twice
-/

namespace SheetTemplate.Xml

open Text (Glyph)
open Text.Utf8 (lossy)

/-! ### Names and sections -/

mutual
/-- An element that has names of XML, as its attributes have, no two the same, and all elements in
it. -/
def Element.Named : Element → Prop
  | ⟨name, attributes, children⟩ => NamedTag name attributes ∧ Node.AllNamed children

/-- Nodes in which all elements have names of XML. -/
def Node.AllNamed : List Node → Prop
  | [] => True
  | .element e :: r => e.Named ∧ Node.AllNamed r
  | .text _ :: r | .cdata _ :: r | .comment _ :: r => Node.AllNamed r
end

mutual
/-- Whether an element has names of XML, with all elements in it. -/
def Element.decideNamed : (e : Element) → Decidable e.Named
  | ⟨name, attributes, children⟩ =>
    have := Node.decideAllNamed children
    inferInstanceAs (Decidable (NamedTag name attributes ∧ Node.AllNamed children))

def Node.decideAllNamed : (nodes : List Node) → Decidable (Node.AllNamed nodes)
  | [] => inferInstanceAs (Decidable True)
  | .element e :: r =>
    have := e.decideNamed
    have := Node.decideAllNamed r
    inferInstanceAs (Decidable (e.Named ∧ Node.AllNamed r))
  | .text _ :: r | .cdata _ :: r | .comment _ :: r => Node.decideAllNamed r
end

instance (e : Element) : Decidable e.Named := e.decideNamed

mutual
/-- An element in which no section or comment contains the mark that ends it. -/
def Element.Closed : Element → Prop
  | ⟨_, _, children⟩ => Node.AllClosed children

/-- A node in which no section or comment contains the mark that ends it. -/
def Node.Closed : Node → Prop
  | .element e => e.Closed
  | .text _ => True
  | .cdata t => ¬[']', ']', '>'] <:+: t.toList
  | .comment t => ¬['-', '-', '>'] <:+: t.toList

/-- Nodes in which no section or comment contains the mark that ends it. -/
def Node.AllClosed : List Node → Prop
  | [] => True
  | n :: r => n.Closed ∧ Node.AllClosed r
end

mutual
/-- An element with names of XML and closed sections is writable. -/
theorem Element.writable_of_named : (e : Element) → e.Named → e.Closed → e.Writable
  | ⟨_, _, children⟩, hnamed, hclosed =>
    ⟨hnamed.1, Node.allWritable_of_named children hnamed.2 hclosed⟩

/-- So is a list of such nodes. -/
theorem Node.allWritable_of_named :
    (nodes : List Node) → Node.AllNamed nodes → Node.AllClosed nodes → Node.AllWritable nodes
  | [], _, _ => trivial
  | .element e :: r, hnamed, hclosed =>
    ⟨e.writable_of_named hnamed.1 hclosed.1, Node.allWritable_of_named r hnamed.2 hclosed.2⟩
  | .text _ :: r, hnamed, hclosed => ⟨trivial, Node.allWritable_of_named r hnamed hclosed.2⟩
  | .cdata _ :: r, hnamed, hclosed => ⟨hclosed.1, Node.allWritable_of_named r hnamed hclosed.2⟩
  | .comment _ :: r, hnamed, hclosed => ⟨hclosed.1, Node.allWritable_of_named r hnamed hclosed.2⟩
end

/-- Nodes are closed all together when each of them is. -/
theorem Node.allClosed_iff {nodes : List Node} : Node.AllClosed nodes ↔ ∀ n ∈ nodes, n.Closed := by
  induction nodes with
  | nil => simp [Node.AllClosed]
  | cons n r ih => simp [Node.AllClosed, ih]

/-! ### Sections and comments -/

namespace Token

/-- What was passed over before stays at the beginning of the content. -/
private theorem markedEnd?_passed {mark : Glyph} {least : Nat} {done s content rest : List Glyph}
    (h : markedEnd? mark least done s = some (content, rest)) : done.reverse <+: content := by
  induction s generalizing done with
  | nil => cases h
  | cons g r ih =>
    rw [markedEnd?] at h
    split at h
    · cases h
      exact List.prefix_refl _
    · have := ih h
      rw [List.reverse_cons] at this
      exact (List.prefix_append _ _).trans this

/-- No mark that could have ended it is passed on the way to the end. -/
private theorem not_passed {mark : Glyph} {least : Nat} {done s content rest : List Glyph}
    (h : markedEnd? mark least done s = some (content, rest)) {before after : List Glyph}
    (hcontent : content = before ++ mark :: mark :: .char '>' :: after)
    (hdone : done.length ≤ before.length + 2) : ¬least ≤ before.length + 2 := by
  intro hleast
  induction s generalizing done with
  | nil => cases h
  | cons g r ih =>
    have hcut := h
    rw [markedEnd?] at h
    split at h
    · cases h
      have := congrArg List.length hcontent
      simp at this
      omega
    · rename_i hgoes
      by_cases hlast : done.length = before.length + 2
      · -- The bracket would have been the end.
        obtain ⟨more, hmore⟩ := markedEnd?_passed h
        rw [List.reverse_cons, hcontent] at hmore
        have hsplit : done.reverse ++ g :: more =
            (before ++ [mark, mark]) ++ .char '>' :: after := by simpa using hmore
        obtain ⟨hpassed, hrest⟩ := List.append_inj hsplit (by simp [hlast])
        refine hgoes ⟨by simpa using (List.cons.inj hrest).1, ?_, by omega⟩
        rw [← done.reverse_reverse, hpassed]
        simp
      · exact ih h (by rw [List.length_cons]; omega)

/-- Behind a word comes what follows as many glyphs as it has. -/
private theorem afterWord?_eq_some {word : List Char} {s body : List Glyph}
    (h : afterWord? word s = some body) : ∃ passed, s = passed ++ body ∧
      passed.length = word.length := by
  -- Along the word, which is compared glyph by glyph.
  induction word generalizing s with
  | nil =>
    cases h
    exact ⟨[], rfl, rfl⟩
  | cons w ws ih =>
    match s, h with
    | .char c :: r, h =>
      rw [afterWord?] at h
      split at h
      · obtain ⟨passed, rfl, hlength⟩ := ih h
        exact ⟨.char c :: passed, rfl, by simp [hlength]⟩
      · cases h

/-- A character that was read, unless nothing could be. -/
private theorem eq_char {g : Glyph} {c : Char} (hc : c ≠ '\uFFFD') (h : lossy [g] = [c]) :
    g = .char c := by
  cases g with
  | char d => simpa [lossy] using h
  | malformed bytes => exact absurd (by simpa [lossy] using h.symm) hc

/-- A mark in a text that was read is a mark in the glyphs it was read from. -/
private theorem exists_glyphs {content : List Glyph} {m : Char} (hm : m ≠ '\uFFFD')
    (h : [m, m, '>'] <:+: lossy content) :
    ∃ before after, content = before ++ .char m :: .char m :: .char '>' :: after := by
  obtain ⟨before, after, hsplit⟩ := h
  -- A glyph becomes one character, so the three of the mark come from three glyphs in a row.
  obtain ⟨start, stop, rfl, hstart, -⟩ := List.map_eq_append_iff.1 hsplit.symm
  obtain ⟨start, marks, rfl, -, hmarks⟩ := List.map_eq_append_iff.1 hstart
  have hlength : marks.length = 3 := by simpa using congrArg List.length hmarks
  obtain ⟨g, g', g'', rfl⟩ := List.length_eq_three.1 hlength
  simp only [List.map_cons, List.map_nil, List.cons.injEq, and_true] at hmarks
  refine ⟨start, stop, ?_⟩
  rw [eq_char hm (congrArg (fun c => [c]) hmarks.1),
    eq_char hm (congrArg (fun c => [c]) hmarks.2.1),
    eq_char (by decide) (congrArg (fun c => [c]) hmarks.2.2)]
  simp

/-- What stands before the end of a section or a comment, after the word that begins it. -/
private theorem not_marked {m : Char} {least : Nat} {word : List Char}
    {s content body rest : List Glyph} (hm : m ≠ '\uFFFD') (hleast : least ≤ word.length + 2)
    (hend : markedEnd? (.char m) least [] s = some (content, rest))
    (hbody : afterWord? word content = some body) :
    ¬[m, m, '>'] <:+: lossy (body.take (body.length - 2)) := by
  intro hmark
  obtain ⟨before, after, htake⟩ := exists_glyphs hm hmark
  obtain ⟨passed, rfl, hlength⟩ := afterWord?_eq_some hbody
  have hcontent : passed ++ body = (passed ++ before) ++ .char m :: .char m :: .char '>' ::
      (after ++ body.drop (body.length - 2)) := by
    conv => lhs; rw [← List.take_append_drop (body.length - 2) body, htake]
    simp
  exact not_passed hend hcontent (by simp) (by rw [List.length_append]; omega)

/-- A token in which no section or comment contains the mark that ends it. -/
def Closed : Token → Prop
  | .cdata content => ¬[']', ']', '>'] <:+: lossy content
  | .comment content => ¬['-', '-', '>'] <:+: lossy content
  | _ => True

/-- A section or a comment that is read ends at its first mark, and any other such token has no
content. -/
private theorem closed_of_marked? {s rest : List Glyph} {token : Token}
    (h : marked? s = some (token, rest)) : token.Closed := by
  unfold marked? at h
  split at h
  · obtain ⟨⟨content, rest'⟩, hend, h⟩ := Option.bind_eq_some_iff.1 h
    obtain ⟨body, hbody, h⟩ := Option.bind_eq_some_iff.1 h
    cases h
    exact not_marked (by decide) (by decide) hend hbody
  · obtain ⟨⟨content, rest'⟩, hend, h⟩ := Option.bind_eq_some_iff.1 h
    obtain ⟨body, hbody, h⟩ := Option.bind_eq_some_iff.1 h
    cases h
    exact not_marked (by decide) (by decide) hend hbody
  · -- A document type is passed over, whatever it contains.
    dsimp only at h
    split at h
    · cases h
    obtain ⟨⟨content, rest'⟩, -, h⟩ := Option.bind_eq_some_iff.1 h
    obtain ⟨body, -, h⟩ := Option.bind_eq_some_iff.1 h
    dsimp only at h
    split at h
    · cases h
    cases h
    trivial
  · cases h

/-- An instruction has no content. -/
private theorem closed_of_instruction? {s rest : List Glyph} {token : Token}
    (h : instruction? s = some (token, rest)) : token.Closed := by
  unfold instruction? at h
  dsimp only at h
  split at h
  · split at h
    · cases h
      split <;> trivial
    · cases h
      trivial
  · cases h

/-- Neither has a tag. -/
private theorem closed_tag (s : List Glyph) : (tag s).1.Closed := by
  unfold tag
  dsimp only
  split <;> trivial

/-- No section or comment that is read contains the mark that ends it. -/
theorem closed_of_next? {s rest : List Glyph} {token : Token}
    (h : next? s = some (some (token, rest))) : token.Closed := by
  unfold next? at h
  -- One case for each kind of token; only sections and comments have anything to show.
  split at h
  · cases h
  · cases h
  · obtain ⟨⟨token', rest'⟩, hmarked, h⟩ := Option.map_eq_some_iff.1 h
    cases h
    exact closed_of_marked? hmarked
  · obtain ⟨⟨token', rest'⟩, hinstruction, h⟩ := Option.map_eq_some_iff.1 h
    cases h
    exact closed_of_instruction? hinstruction
  · cases h
    trivial
  · rename_i r _ _ _ _
    have := closed_tag r
    rwa [Option.some_inj.1 (Option.some_inj.1 h)] at this
  · cases h
    trivial

end Token

/-! ### Documents -/

namespace Reader

/-- What holds of all nodes that are read: it holds of texts, of sections and comments that end at
their mark, and of an element that a tag opens if it holds of the children. -/
structure Kept (good : Node → Prop) : Prop where
  text : ∀ t, good (.text t)
  cdata : ∀ content, Token.Closed (.cdata content) → good (.cdata (Token.verbatim content))
  comment : ∀ content, Token.Closed (.comment content) → good (.comment (Token.verbatim content))
  element : ∀ (tag : List Glyph) (e : Element) (children : List Node), Token.element? tag = some e →
    (∀ n ∈ children, good n) → good (.element { e with children })

/-- A reader that has read nothing but good nodes. -/
structure Good (good : Node → Prop) (r : Reader) : Prop where
  stack : ∀ top ∈ r.stack,
    (∃ tag, Token.element? tag = some top.element) ∧ ∀ n ∈ top.children, good n
  root : ∀ e, r.root = some e → good (.element e)

variable {good : Node → Prop}

/-- A good node may be attached. -/
private theorem good_attach {r : Reader} (h : r.Good good) {n : Node} (hn : good n) :
    (r.attach n).Good good := by
  unfold attach
  split
  · exact h
  · rename_i top rest hstack
    have hall := hstack ▸ h.stack
    rw [List.forall_mem_cons] at hall
    exact ⟨List.forall_mem_cons.2 ⟨⟨hall.1.1, List.forall_mem_cons.2 ⟨hn, hall.1.2⟩⟩, hall.2⟩,
      h.root⟩

/-- So may a good element, as the root or inside the element that is open. -/
private theorem good_attachElement {r : Reader} (h : r.Good good) {e : Element}
    (he : good (.element e)) : (r.attachElement e).Good good := by
  unfold attachElement
  split
  · exact ⟨h.stack, fun root hroot => Option.some.inj hroot ▸ he⟩
  · exact good_attach h he

/-- The element that a tag opens has no children. -/
private theorem children_of_element? {tag : List Glyph} {e : Element}
    (h : Token.element? tag = some e) : { e with children := [] } = e := by
  unfold Token.element? at h
  obtain ⟨written, -, h⟩ := Option.bind_eq_some_iff.1 h
  obtain ⟨attributes, -, h⟩ := Option.bind_eq_some_iff.1 h
  cases h
  rfl

/-- Every token keeps what was read good: tags open and close elements, all others attach at most
one node. -/
private theorem good_of_step (hgood : Kept good) {r next : Reader} {token : Token}
    (h : r.Good good) (htoken : token.Closed) (hstep : r.step token = some next) :
    next.Good good := by
  -- What is kept is that all nodes attached so far are good, on the stack and at the root.
  cases token with
  | opening tag =>
    obtain ⟨e, he, rfl⟩ := Option.map_eq_some_iff.1 hstep
    exact ⟨List.forall_mem_cons.2 ⟨⟨⟨tag, he⟩, fun n hn => by cases hn⟩, h.stack⟩, h.root⟩
  | lone tag =>
    obtain ⟨e, he, rfl⟩ := Option.map_eq_some_iff.1 hstep
    have hempty := hgood.element tag e [] he fun n hn => by cases hn
    rw [children_of_element? he] at hempty
    exact good_attachElement h hempty
  | closing name =>
    rw [step] at hstep
    split at hstep
    · rename_i top rest hstack
      split at hstep
      · cases hstep
        have hall := hstack ▸ h.stack
        rw [List.forall_mem_cons] at hall
        obtain ⟨⟨⟨tag, htag⟩, hchildren⟩, hrest⟩ := hall
        -- The children were collected in reverse.
        exact good_attachElement (r := { r with stack := rest }) ⟨hrest, h.root⟩
          (hgood.element tag _ _ htag fun n hn => hchildren n (List.mem_reverse.1 hn))
      · cases hstep
    · cases hstep
  | text content =>
    rw [step] at hstep
    split at hstep
    · cases hstep
      exact h
    · obtain ⟨t, -, rfl⟩ := Option.map_eq_some_iff.1 hstep
      exact good_attach h (hgood.text t)
  | cdata content =>
    cases hstep
    exact good_attach h (hgood.cdata content htoken)
  | comment content =>
    cases hstep
    exact good_attach h (hgood.comment content htoken)
  | declaration =>
    cases hstep
    exact ⟨h.stack, h.root⟩
  | skipped =>
    cases hstep
    exact h

/-- So does every number of tokens. -/
private theorem good_of_run (hgood : Kept good) {r last : Reader} {steps : Nat} {s : List Glyph}
    (h : r.Good good) (hrun : r.run steps s = some last) : last.Good good := by
  induction steps generalizing r s with
  | zero =>
    cases hrun
    exact h
  | succ steps ih =>
    rw [run] at hrun
    split at hrun
    · cases hrun
      exact h
    · rename_i token rest hnext
      split at hrun
      · rename_i next hstep
        exact ih (good_of_step hgood h (Token.closed_of_next? hnext) hstep) hrun
      · cases hrun
    · cases hrun

/-- What is kept while nodes are read holds of the root. -/
theorem good_of_parse (hgood : Kept good) {bytes : ByteArray} {d : Document}
    (h : Document.parse bytes = .ok d) : good (.element d.root) := by
  unfold Document.parse Document.ofGlyphs at h
  split at h
  · rename_i r hrun
    have hlast := good_of_run hgood ⟨by simp, by simp⟩ hrun
    unfold finish at h
    split at h
    · cases h
    · split at h
      · rename_i root hroot
        cases h
        exact hlast.root _ hroot
      · cases h
  · cases h

/-- Being closed is such a property. -/
private theorem kept_closed : Kept Node.Closed where
  text _ := trivial
  cdata content h := by
    rw [Node.Closed, Token.verbatim, String.toList_ofList]
    exact h
  comment content h := by
    rw [Node.Closed, Token.verbatim, String.toList_ofList]
    exact h
  element _ _ _ _ h := Node.allClosed_iff.2 h

end Reader

/-- A document that was read can be written if it has names of XML. -/
theorem Document.writable_of_parse {bytes : ByteArray} {d : Document}
    (h : Document.parse bytes = .ok d) (hnamed : d.root.Named) : d.Writable :=
  d.root.writable_of_named hnamed (Reader.good_of_parse Reader.kept_closed h)

/-! ### Attributes -/

/-- A key stands only once among some attributes. -/
def Once (key : String) (attributes : List (String × String)) : Prop :=
  attributes.Pairwise fun a b => a.1 = key → b.1 ≠ key

/-- An attribute that stands only once can be removed. -/
theorem Element.attr?_removeAttr_self {e : Element} {key : String} (h : Once key e.attributes) :
    (e.removeAttr key).attr? key = none := by
  obtain ⟨name, attributes, children⟩ := e
  unfold removeAttr attr?
  dsimp only at h ⊢
  -- Along the attributes: behind the first one of the key there is no other.
  induction attributes with
  | nil => rfl
  | cons a r ih =>
    obtain ⟨hfirst, hrest⟩ := List.pairwise_cons.1 h
    by_cases hkey : a.1 = key
    · rw [List.eraseP_cons_of_pos (by simpa using hkey), List.lookup_eq_none_iff]
      intro b hb
      simpa using Ne.symm (hfirst b hb hkey)
    · obtain ⟨k, v⟩ := a
      rw [List.eraseP_cons_of_neg (by simpa using hkey), List.lookup_cons,
        beq_eq_false_iff_ne.2 (Ne.symm hkey)]
      exact ih hrest

namespace Token

/-- No key is read twice as it is written. -/
private theorem nodup_of_attributes? {done written : List (List Glyph × List Glyph)} {steps : Nat}
    {s : List Glyph} (hdone : (done.map Prod.fst).Nodup)
    (h : attributes? done steps s = some written) : (written.map Prod.fst).Nodup := by
  -- Along the steps; the keys done so far are kept distinct, as a key that is among them stops the
  -- reading.
  induction steps generalizing done s with
  | zero =>
    unfold attributes? at h
    split at h
    · cases h
      rw [List.map_reverse]
      exact List.pairwise_reverse.2 (hdone.imp Ne.symm)
    · cases h
  | succ steps ih =>
    unfold attributes? at h
    split at h
    · cases h
      rw [List.map_reverse]
      exact List.pairwise_reverse.2 (hdone.imp Ne.symm)
    · rename_i pair rest _
      split at h
      · cases h
      · rename_i hnew
        have hpair : ((pair :: done).map Prod.fst).Nodup := by
          refine List.nodup_cons.2 ⟨fun hmem => hnew ?_, hdone⟩
          obtain ⟨old, hold, hkey⟩ := List.mem_map.1 hmem
          exact List.any_eq_true.2 ⟨old, hold, by simpa using hkey⟩
        exact ih hpair h
    · cases h

/-- A key that could be read was written in one way only. -/
private theorem eq_of_verbatim {k k' : List Glyph} {key : String} (hkey : '\uFFFD' ∉ key.toList)
    (h : verbatim k = key) (h' : verbatim k' = key) : k = k' := by
  -- Without a replacement character a text is read from well-formed glyphs only, and those are told
  -- apart.
  have hread : ∀ g : List Glyph, '\uFFFD' ∉ lossy g → g = (lossy g).map .char := by
    intro g hg
    induction g with
    | nil => rfl
    | cons x r ih =>
      have hsplit : lossy (x :: r) = lossy [x] ++ lossy r := by simp [lossy]
      rw [hsplit] at hg ⊢
      cases x with
      | char c =>
        rw [List.map_append, ← ih fun hmem => hg (List.mem_append_right _ hmem)]
        rfl
      | malformed bytes => exact absurd (List.mem_append_left _ (by simp [lossy])) hg
  have hlossy : ∀ g : List Glyph, verbatim g = key → lossy g = key.toList := by
    rintro g rfl
    rw [verbatim, String.toList_ofList]
  rw [hread k (hlossy k h ▸ hkey), hread k' (hlossy k' h' ▸ hkey), hlossy k h, hlossy k' h']

/-- The keys are not changed by reading the values. -/
private theorem map_fst_of_mapM {α β γ : Type} {f : α → Option (β × γ)} {key : α → β}
    (hf : ∀ a x, f a = some x → x.1 = key a) {l : List α} {r : List (β × γ)}
    (h : l.mapM f = some r) : r.map Prod.fst = l.map key := by
  induction l generalizing r with
  | nil =>
    cases h
    rfl
  | cons a l ih =>
    rw [List.mapM_cons] at h
    obtain ⟨x, hx, h⟩ := Option.bind_eq_some_iff.1 h
    obtain ⟨more, hmore, h⟩ := Option.bind_eq_some_iff.1 h
    cases h
    rw [List.map_cons, List.map_cons, ih hmore, hf a x hx]

/-- A tag gives an attribute only once. -/
theorem once_of_element? {tag : List Glyph} {e : Element} {key : String}
    (hkey : '\uFFFD' ∉ key.toList) (h : element? tag = some e) : Once key e.attributes := by
  unfold element? at h
  obtain ⟨written, hwritten, h⟩ := Option.bind_eq_some_iff.1 h
  obtain ⟨attributes, hattributes, h⟩ := Option.bind_eq_some_iff.1 h
  cases h
  -- The attributes stand in the order they are written in, each with its key.
  have hkeys : attributes.map Prod.fst = written.map fun pair => verbatim pair.1 :=
    map_fst_of_mapM (fun pair x hx => by
      obtain ⟨value, -, rfl⟩ := Option.map_eq_some_iff.1 hx
      rfl) hattributes
  have hpairwise : (attributes.map Prod.fst).Pairwise fun a b => a = key → b ≠ key := by
    rw [hkeys, List.pairwise_map]
    refine (List.pairwise_map.1 (nodup_of_attributes? (by simp) hwritten)).imp ?_
    exact fun hne ha hb => hne (eq_of_verbatim hkey ha hb)
  exact List.pairwise_map.1 hpairwise

end Token

/-- An element that stands somewhere in a node. -/
inductive Within (e : Element) : Node → Prop
  | self : Within e (.element e)
  | child {parent : Element} {n : Node} (hn : n ∈ parent.children) (h : Within e n) :
      Within e (.element parent)

/-- What is inside a child element is inside the element. -/
theorem Within.of_mem_elements {e parent : Element} {n : Node} (he : e ∈ parent.elements)
    (h : Within parent n) : Within e n := by
  induction h with
  | self =>
    obtain ⟨n, hn, hnode⟩ := List.mem_filterMap.1 he
    cases n with
    | element c =>
      cases hnode
      exact .child hn .self
    | text t | cdata t | comment t => cases hnode
  | child hn _ ih => exact .child hn ih

/-- Elements that are read have an attribute only once. -/
theorem once_of_parse {bytes : ByteArray} {d : Document} (h : Document.parse bytes = .ok d)
    {e : Element} (he : Within e (.element d.root)) {key : String}
    (hkey : '\uFFFD' ∉ key.toList) : Once key e.attributes := by
  have hkept : Reader.Kept fun n => ∀ e, Within e n → Once key e.attributes := {
    text := fun t e he => by cases he
    cdata := fun content _ e he => by cases he
    comment := fun content _ e he => by cases he
    element := fun tag e children htag hchildren c hc => by
      cases hc with
      | self => exact Token.once_of_element? (e := e) hkey htag
      | child hn hc => exact hchildren _ hn _ hc }
  exact Reader.good_of_parse hkept h e he

end SheetTemplate.Xml
