import Mathlib.Algebra.GroupWithZero.Nat
import Mathlib.Data.List.Forall2
import ModuleLinker.Proofs.Computation
import ModuleLinker.Proofs.Repetition
import ModuleLinker.Proofs.Xml.Merging
import ModuleLinker.Proofs.Xml.Runs
import ModuleLinker.Xml.Documentation

namespace ModuleLinker.Xml

/-! # Texts of a document

A document is read as the tree that it has when its texts are read whole, but for the white space at the
ends of texts, and it is read if and only if it is when texts are read whole. Elements, attributes and
the order of everything are the same. How much white space is lost is the sum over the runs of text in
the root, so that nothing is lost if and only if each of them is all white space or has none at its ends.
-/

/-! ## Trees whose texts are trimmed -/

/-- Whether the second nodes are the first ones with white space taken off the ends of texts. -/
inductive Trims : List Node → List Node → Prop where
  | nil : Trims [] []
  | text {nodes nodes' : List Node} {front value back : List Char} (hfront : ∀ c ∈ front, Markup.isSpace c)
    (hback : ∀ c ∈ back, Markup.isSpace c) (h : Trims nodes nodes') :
    Trims (.text (String.ofList (front ++ value ++ back)) :: nodes)
      (.text (String.ofList value) :: nodes')
  | element {nodes nodes' inner inner' : List Node} (name : String) (attributes : List Pair)
    (hinner : Trims inner inner') (h : Trims nodes nodes') :
    Trims (.element name attributes inner :: nodes) (.element name attributes inner' :: nodes')

mutual

/-- The number of characters of text in a node. -/
def Node.textSize : Node → Nat
  | .text value => value.length
  | .element _ _ children => textSizes children

/-- The number of characters of text in several nodes. -/
def textSizes : List Node → Nat
  | [] => 0
  | n :: rest => n.textSize + textSizes rest

end

theorem textSizes_append (nodes nodes' : List Node) :
    textSizes (nodes ++ nodes') = textSizes nodes + textSizes nodes' := by
  induction nodes with
  | nil => rw [List.nil_append, textSizes, Nat.zero_add]
  | cons n nodes ih => rw [List.cons_append, textSizes, textSizes, ih, Nat.add_assoc]

namespace Trims

variable {nodes nodes' more more' : List Node}

theorem cons (n : Node) (h : Trims nodes nodes') : Trims (n :: nodes) (n :: nodes') := by
  induction n using Node.induction generalizing nodes nodes' with
  | text value =>
    have hsame : Trims (.text (String.ofList ([] ++ value.toList ++ [])) :: nodes)
        (.text (String.ofList value.toList) :: nodes') := .text nofun nofun h
    rwa [List.nil_append, List.append_nil, String.ofList_toList] at hsame
  | element name attributes children ih =>
    have hchildren : Trims children children := by
      induction children with
      | nil => exact .nil
      | cons c children ihchildren =>
        obtain ⟨hc, hrest⟩ := List.forall_mem_cons.1 ih
        exact hc (ihchildren hrest)
    exact .element name attributes hchildren h

theorem refl (nodes : List Node) : Trims nodes nodes := by
  induction nodes with
  | nil => exact .nil
  | cons n nodes ih => exact ih.cons n

theorem append (h : Trims nodes nodes') (hmore : Trims more more') :
    Trims (nodes ++ more) (nodes' ++ more') := by
  induction h with
  | nil => exact hmore
  | text hfront hback _ ih => exact .text hfront hback ih
  | element name attributes hinner _ _ ih => exact .element name attributes hinner ih

theorem textSizes_le (h : Trims nodes nodes') : textSizes nodes' ≤ textSizes nodes := by
  induction h with
  | nil => exact le_rfl
  | text _ _ _ ih =>
    simp only [textSizes, Node.textSize, String.length_ofList, List.length_append]
    omega
  | element _ _ _ _ ihinner ih =>
    simp only [textSizes, Node.textSize]
    omega

/-- A tree that lost no character is the tree. -/
theorem eq_of_textSizes (h : Trims nodes nodes') (hsize : textSizes nodes = textSizes nodes') :
    nodes = nodes' := by
  induction h with
  | nil => rfl
  | @text _ _ front value back _ _ h ih =>
    have hle := h.textSizes_le
    simp only [textSizes, Node.textSize, String.length_ofList, List.length_append] at hsize
    have hfront : front = [] := List.eq_nil_of_length_eq_zero (by omega)
    have hback : back = [] := List.eq_nil_of_length_eq_zero (by omega)
    rw [ih (by omega), hfront, hback, List.nil_append, List.append_nil]
  | element _ _ hinner h ihinner ih =>
    have hleinner := hinner.textSizes_le
    have hle := h.textSizes_le
    simp only [textSizes, Node.textSize] at hsize
    rw [ihinner (by omega), ih (by omega)]

end Trims

/-- Whether the second element is the first one with white space taken off the ends of texts. -/
structure Element.Trims (whole e : Element) : Prop where
  name : whole.name = e.name
  attributes : whole.attributes = e.attributes
  children : Xml.Trims whole.children e.children

namespace Element

variable {whole e : Element}

/-- The number of characters of text in an element. -/
def textSize (e : Element) : Nat := textSizes e.children

theorem Trims.toNode (h : Trims whole e) : Xml.Trims [whole.toNode] [e.toNode] := by
  rw [Element.toNode, Element.toNode, h.name, h.attributes]
  exact .element _ _ h.children .nil

theorem Trims.eq_iff (h : Trims whole e) : whole = e ↔ whole.textSize = e.textSize := by
  constructor
  · rintro rfl
    rfl
  · intro hsize
    obtain ⟨name, attributes, children⟩ := whole
    obtain ⟨hname, hattributes, hchildren⟩ := h
    obtain rfl : name = e.name := hname
    obtain rfl : attributes = e.attributes := hattributes
    obtain rfl : children = e.children := hchildren.eq_of_textSizes hsize
    rfl

end Element

/-! ## What a piece adds to a reading -/

/-- How many elements are open after a piece. -/
def Markup.depthAfter (depth : Nat) : Markup → Nat
  | opening .. => depth + 1
  | closing _ => depth - 1
  | empty .. | text _ | verbatim _ | ignored | broken => depth

/-- The number of characters of text that a piece is. -/
def Markup.textSize : Markup → Nat
  | text value | verbatim value => value.length
  | opening .. | empty .. | closing _ | ignored | broken => 0

namespace Reading

/-- The number of characters of text that have been read inside of the root. -/
def textSize (r : Reading) : Nat :=
  (r.stack.map Element.textSize).sum + (r.root.map Element.textSize).getD 0

variable {r s : Reading}

theorem textSize_cons (e : Element) (stack : List Element) (root : Option Element) :
    textSize ⟨e :: stack, root⟩ = textSize ⟨stack, root⟩ + e.textSize := by
  simp only [textSize, List.map_cons, List.sum_cons]
  omega

theorem addNode_spec (r : Reading) (n : Node) : (r.addNode n).stack.length = r.stack.length ∧
    (r.addNode n).textSize = r.textSize + if r.stack = [] then 0 else n.textSize := by
  obtain ⟨stack, root⟩ := r
  cases stack with
  | nil => exact ⟨rfl, rfl⟩
  | cons e stack =>
    refine ⟨rfl, ?_⟩
    show textSize ⟨{ e with children := e.children ++ [n] } :: stack, root⟩ = _
    rw [if_neg (List.cons_ne_nil _ _), textSize_cons, textSize_cons, Element.textSize, Element.textSize,
      textSizes_append, textSizes, textSizes]
    omega

theorem addText_spec (r : Reading) (value : String) : (r.addText value).stack.length = r.stack.length ∧
    (r.addText value).textSize = r.textSize + if r.stack = [] then 0 else value.length := by
  rw [addText]
  split
  · next hempty =>
    have hlength : value.length = 0 := by rw [String.isEmpty_iff.1 hempty, String.length_empty]
    rw [hlength, ite_self]
    exact ⟨rfl, rfl⟩
  · exact addNode_spec r (.text value)

theorem complete_spec {e : Element} (h : r.complete e = .ok s) :
    s.stack.length = r.stack.length ∧ s.textSize = r.textSize + e.textSize := by
  obtain ⟨stack, root⟩ := r
  cases stack with
  | cons first stack =>
    obtain rfl := Except.ok.inj h
    obtain ⟨hlength, hsize⟩ := addNode_spec ⟨first :: stack, root⟩ e.toNode
    rw [if_neg (List.cons_ne_nil _ _)] at hsize
    exact ⟨hlength, hsize⟩
  | nil =>
    cases root with
    | some root => exact nomatch h
    | none =>
      obtain rfl := Except.ok.inj h
      exact ⟨rfl, rfl⟩

/-- A piece opens or closes an element, or brings its text into the innermost open one. -/
theorem step_spec {m : Markup} (h : r.step m = .ok s) : s.stack.length = m.depthAfter r.stack.length ∧
    s.textSize = r.textSize + if r.stack = [] then 0 else m.textSize := by
  cases m with
  | opening name attributes =>
    obtain rfl := Except.ok.inj h
    refine ⟨rfl, ?_⟩
    rw [textSize_cons, Element.textSize, textSizes, Markup.textSize, ite_self]
  | empty name attributes =>
    obtain ⟨hlength, hsize⟩ := complete_spec h
    rw [Element.textSize, textSizes] at hsize
    rw [Markup.textSize, ite_self]
    exact ⟨hlength, hsize⟩
  | closing name =>
    obtain ⟨stack, root⟩ := r
    cases stack with
    | nil => exact nomatch h
    | cons e stack =>
      simp only [step] at h
      split at h
      · obtain ⟨hlength, hsize⟩ := complete_spec h
        rw [textSize_cons, Markup.textSize, ite_self]
        exact ⟨hlength, hsize⟩
      · exact nomatch h
  | text value =>
    obtain rfl := Except.ok.inj h
    exact addText_spec r value
  | verbatim value =>
    obtain rfl := Except.ok.inj h
    exact addText_spec r value
  | ignored =>
    obtain rfl := Except.ok.inj h
    rw [Markup.textSize, ite_self]
    exact ⟨rfl, rfl⟩
  | broken => exact nomatch h

/-! ## Two readings go alike -/

/-- Whether the second reading is the first one with white space taken off the ends of texts. -/
structure Alike (whole r : Reading) : Prop where
  stack : List.Forall₂ Element.Trims whole.stack r.stack
  root : Option.Rel Element.Trims whole.root r.root

namespace Alike

variable {whole : Reading} {e e' : Element} {n n' : Node}

/-- The same elements are open. -/
theorem stack_eq_nil_iff (h : Alike whole r) : whole.stack = [] ↔ r.stack = [] := by
  rw [← List.length_eq_zero_iff, ← List.length_eq_zero_iff, h.stack.length_eq]

theorem addNode (h : Alike whole r) (hn : Trims [n] [n']) : Alike (whole.addNode n) (r.addNode n') := by
  obtain ⟨stack, root⟩ := whole
  obtain ⟨stack', root'⟩ := r
  obtain ⟨hstack, hroot⟩ := h
  cases hstack with
  | nil => exact ⟨.nil, hroot⟩
  | cons he hrest => exact ⟨.cons ⟨he.name, he.attributes, he.children.append hn⟩ hrest, hroot⟩

theorem addText (h : Alike whole r) (value : String) : Alike (whole.addText value) (r.addText value) := by
  rw [Reading.addText, Reading.addText]
  split
  · exact h
  · exact h.addNode (.refl _)

theorem complete (h : Alike whole r) (he : Element.Trims e e') :
    SameOutcome Alike (whole.complete e) (r.complete e') := by
  obtain ⟨stack, root⟩ := whole
  obtain ⟨stack', root'⟩ := r
  obtain ⟨hstack, hroot⟩ := h
  cases hstack with
  | cons hfirst hrest => exact .ok (addNode ⟨.cons hfirst hrest, hroot⟩ he.toNode)
  | nil =>
    cases hroot with
    | none => exact .ok ⟨.nil, .some he⟩
    | some => exact .error _

theorem step (h : Alike whole r) (m : Markup) : SameOutcome Alike (whole.step m) (r.step m) := by
  cases m with
  | opening name attributes => exact .ok ⟨.cons ⟨rfl, rfl, .nil⟩ h.stack, h.root⟩
  | empty name attributes => exact h.complete ⟨rfl, rfl, .nil⟩
  | closing name =>
    obtain ⟨stack, root⟩ := whole
    obtain ⟨stack', root'⟩ := r
    obtain ⟨hstack, hroot⟩ := h
    cases hstack with
    | nil => exact .error _
    | cons he hrest =>
      simp only [Reading.step, he.name]
      split
      · exact complete ⟨hrest, hroot⟩ he
      · exact .error _
  | text value => exact .ok (h.addText value)
  | verbatim value => exact .ok (h.addText value)
  | ignored => exact .ok h
  | broken => exact .error _

theorem finish (h : Alike whole r) : SameOutcome (fun e e' => Element.Trims e e' ∧
    e.textSize + r.textSize = e'.textSize + whole.textSize) whole.finish r.finish := by
  obtain ⟨stack, root⟩ := whole
  obtain ⟨stack', root'⟩ := r
  obtain ⟨hstack, hroot⟩ := h
  cases hstack with
  | cons he =>
    simp only [Reading.finish, he.name]
    exact .error _
  | nil =>
    cases hroot with
    | none => exact .error _
    | some he =>
      refine .ok ⟨he, ?_⟩
      simp only [textSize, List.map_nil, List.sum_nil, Option.map_some, Option.getD_some]
      omega

end Alike

end Reading

/-! ## Parts of a document -/

namespace Part

/-- Reads a part of a document. -/
def take (read : List Char → List Markup) (r : Reading) (part : Part) : Except Malformation Reading :=
  (part.pieces read).foldlM Reading.step r

/-- The runs among parts that stand inside of an element, given how many elements are open before. -/
def runsInside : (depth : Nat) → List Part → List (List Char)
  | _, [] => []
  | depth, run cs :: rest =>
    if depth = 0 then runsInside depth rest else cs :: runsInside depth rest
  | depth, markup m :: rest => runsInside (m.depthAfter depth) rest

end Part

namespace Reading.Alike

variable {whole r : Reading} {lost : Nat}

theorem take_markup (h : Alike whole r) (hlost : whole.textSize = r.textSize + lost) (m : Markup) :
    SameOutcome (fun s s' => Alike s s' ∧ s.textSize = s'.textSize + lost ∧
        s'.stack.length = m.depthAfter r.stack.length)
      (Part.take Markup.ofWholeRun whole (.markup m)) (Part.take Markup.ofRun r (.markup m)) := by
  rw [Part.take, Part.take, Part.pieces, Part.pieces, List.foldlM_cons, List.foldlM_cons]
  simp only [List.foldlM_nil, bind_pure]
  refine (h.step m).with_eq.imp ?_
  rintro s s' ⟨hs, hwhole, hr⟩
  obtain ⟨-, hsize⟩ := step_spec hwhole
  obtain ⟨hlength, hsize'⟩ := step_spec hr
  rw [if_congr h.stack_eq_nil_iff rfl rfl] at hsize
  exact ⟨hs, by omega, hlength⟩

theorem take_run (h : Alike whole r) (hlost : whole.textSize = r.textSize + lost) (cs : List Char) :
    SameOutcome (fun s s' => Alike s s' ∧ s'.stack.length = r.stack.length ∧
        s.textSize = s'.textSize + lost + if r.stack = [] then 0 else endSpaces cs)
      (Part.take Markup.ofWholeRun whole (.run cs)) (Part.take Markup.ofRun r (.run cs)) := by
  rw [Part.take, Part.take, Part.pieces, Part.pieces]
  have hreadings := readings_run cs
  generalize endSpaces cs = spaces, Markup.ofWholeRun cs = pieces, Markup.ofRun cs = pieces' at hreadings
  cases hreadings with
  | blank =>
    refine .ok ⟨h, rfl, ?_⟩
    rw [ite_self]
    exact hlost
  | broken => exact .error _
  | @text front value back hfront hback hvalue =>
    obtain ⟨-, hsize⟩ := addText_spec whole (String.ofList (front ++ value ++ back))
    obtain ⟨hlength, hsize'⟩ := addText_spec r (String.ofList value)
    refine .ok ⟨?_, hlength, ?_⟩
    · have hne (cs : List Char) (hcs : cs ≠ []) : ¬(String.ofList cs).isEmpty = true := by
        rwa [String.isEmpty_iff, String.ofList_eq_empty_iff]
      rw [Reading.addText, Reading.addText, if_neg (hne _ (by simp [hvalue])), if_neg (hne _ hvalue)]
      exact h.addNode (.text hfront hback .nil)
    · rw [String.length_ofList, List.length_append, List.length_append, if_congr h.stack_eq_nil_iff rfl rfl] at hsize
      rw [String.length_ofList] at hsize'
      by_cases hnone : r.stack = []
      · rw [if_pos hnone] at hsize hsize' ⊢
        omega
      · rw [if_neg hnone] at hsize hsize' ⊢
        omega

/-- Over the parts of a document the two readings come apart by the white space at the ends of the runs
that stand inside of an element. -/
theorem foldlM_take (parts : List Part) (h : Alike whole r) (hlost : whole.textSize = r.textSize + lost) :
    SameOutcome (fun s s' => Alike s s' ∧ s.textSize =
        s'.textSize + lost + ((Part.runsInside r.stack.length parts).map endSpaces).sum)
      (parts.foldlM (Part.take Markup.ofWholeRun) whole) (parts.foldlM (Part.take Markup.ofRun) r) := by
  -- the same elements are open in both readings, so the same runs count
  induction parts generalizing whole r lost with
  | nil => exact .ok ⟨h, hlost⟩
  | cons part parts ih =>
    rw [List.foldlM_cons, List.foldlM_cons]
    cases part with
    | markup m =>
      refine (h.take_markup hlost m).bind ?_
      rintro s s' ⟨hs, hsize, hlength⟩
      rw [Part.runsInside, ← hlength]
      exact ih hs hsize
    | run cs =>
      refine (h.take_run hlost cs).bind ?_
      rintro s s' ⟨hs, hlength, hsize⟩
      rw [Nat.add_assoc] at hsize
      refine (ih hs hsize).imp ?_
      rintro t t' ⟨ht, hsum⟩
      refine ⟨ht, ?_⟩
      rw [hsum, hlength, Part.runsInside]
      by_cases hopen : r.stack = []
      · rw [if_pos hopen, if_pos (List.length_eq_zero_iff.2 hopen)]
        rfl
      · rw [if_neg hopen, if_neg (mt List.length_eq_zero_iff.1 hopen), List.map_cons, List.sum_cons]
        omega

end Reading.Alike

/-! ## Documents -/

/-- The characters of a document without the byte order mark. -/
def body (cs : List Char) : List Char := if cs.head? = some (Char.ofNat 0xFEFF) then cs.tail else cs

/-- The root of the document that the characters spell, given how its runs of text are read. -/
def parseCharsBy (read : List Char → List Markup) (cs : List Char) : Except Malformation Element := do
  let r ← (Part.cut (body cs)).foldlM (Part.take read) ⟨[], none⟩
  r.finish

/-- The root of a document in UTF-8, given how its runs of text are read. -/
def parseBy (read : List Char → List Markup) (data : Bytes) : Except Fault Element :=
  match Utf8.decode data with
  | .error _ => .error (.malformed .xmlMarkup)
  | .ok s => (parseCharsBy read s.toList).mapError .malformed

/-- The root of a document whose texts are read whole. -/
def parseWhole : Bytes → Except Fault Element := parseBy Markup.ofWholeRun

/-- The runs of text inside of the root of a document. -/
def textRuns (data : Bytes) : List (List Char) :=
  match Utf8.decode data with
  | .error _ => []
  | .ok s => Part.runsInside 0 (Part.cut (body s.toList))

theorem parse_eq_parseBy (data : Bytes) : parse data = parseBy Markup.ofRun data := by
  rw [parse, parseBy]
  cases Utf8.decode data with
  | error => rfl
  | ok s =>
    show (parseChars s.toList).mapError _ = (parseCharsBy Markup.ofRun s.toList).mapError _
    rw [parseChars, parseCharsBy, scan_eq, foldlM_flatMap]
    rfl

/-- The two readings of a document. -/
theorem parseWhole_parse (data : Bytes) :
    SameOutcome (fun whole root => Element.Trims whole root ∧
        whole.textSize = root.textSize + ((textRuns data).map endSpaces).sum)
      (parseWhole data) (parse data) := by
  rw [parse_eq_parseBy, parseWhole, parseBy, parseBy, textRuns]
  cases Utf8.decode data with
  | error => exact .error _
  | ok s =>
    apply SameOutcome.mapError
    let start : Reading := ⟨[], none⟩
    have hstart : start.Alike start := ⟨.nil, .none⟩
    have hzero : start.textSize = start.textSize + 0 := rfl
    refine (hstart.foldlM_take (Part.cut (body s.toList)) hzero).bind ?_
    rintro r r' ⟨hr, hsize⟩
    refine hr.finish.imp ?_
    rintro whole root ⟨htrims, hfinish⟩
    refine ⟨htrims, ?_⟩
    change r.textSize = r'.textSize + 0 + ((Part.runsInside 0 (Part.cut (body s.toList))).map endSpaces).sum
      at hsize
    show whole.textSize = root.textSize + ((Part.runsInside 0 (Part.cut (body s.toList))).map endSpaces).sum
    omega

theorem sum_endSpaces_eq_zero_iff {runs : List (List Char)} :
    (runs.map endSpaces).sum = 0 ↔ ∀ run ∈ runs, Tight run := by
  rw [List.sum_eq_zero_iff_forall_eq_nat, List.forall_mem_map]
  exact forall₂_congr fun run _ => endSpaces_eq_zero_iff

/-! ## Members of documentation files -/

/-- The members that a documentation file declares. -/
def membersOf (root : Element) : List Element :=
  match root.child? "members" with
  | none => []
  | some list => list.elements.filter (·.name == "member")

section

variable {whole e : Element}

theorem Trims.elements {nodes nodes' : List Node} (h : Trims nodes nodes') :
    List.Forall₂ Element.Trims (nodes.filterMap Element.ofNode?) (nodes'.filterMap Element.ofNode?) := by
  induction h with
  | nil => exact .nil
  | text _ _ _ ih => exact ih
  | element name attributes hinner _ _ ih => exact .cons ⟨rfl, rfl, hinner⟩ ih

theorem Element.Trims.exists_mem {elements elements' : List Element}
    (h : List.Forall₂ Element.Trims elements elements') (hmem : e ∈ elements') :
    ∃ whole ∈ elements, Element.Trims whole e :=
  exists_mem_of_forall₂ h.flip hmem

theorem Element.Trims.child? (h : Element.Trims whole e) (name : String) :
    Option.Rel Element.Trims (whole.child? name) (e.child? name) := by
  rw [Element.child?, Element.child?]
  have helements : List.Forall₂ Element.Trims whole.elements e.elements := h.children.elements
  generalize whole.elements = elements, e.elements = elements' at helements
  induction helements with
  | nil => exact .none
  | @cons first first' _ _ hfirst _ ih =>
    rw [List.find?_cons, List.find?_cons, hfirst.name]
    split
    · exact .some hfirst
    · exact ih

theorem Element.Trims.membersOf (h : Element.Trims whole e) :
    List.Forall₂ Element.Trims (membersOf whole) (membersOf e) := by
  rw [Xml.membersOf, Xml.membersOf]
  have hchild := h.child? "members"
  generalize whole.child? "members" = list, e.child? "members" = list' at hchild
  cases hchild with
  | none => exact .nil
  | @some list list' hlist =>
    have helements : List.Forall₂ Element.Trims list.elements list'.elements := hlist.children.elements
    show List.Forall₂ _ (list.elements.filter _) (list'.elements.filter _)
    generalize list.elements = elements, list'.elements = elements' at helements
    induction helements with
    | nil => exact .nil
    | @cons first first' _ _ hfirst _ ih =>
      rw [List.filter_cons, List.filter_cons, hfirst.name]
      split
      · exact .cons hfirst ih
      · exact ih

end

namespace DocumentationMembers

variable {source : DocumentationSource} {members : DocumentationMembers}

theorem offerAll_eq (members : DocumentationMembers) (source : DocumentationSource) :
    offerAll members source = do
      let root ← parse source.data
      return (membersOf root).foldl (offer source) members := by
  rw [offerAll]
  refine bind_congr fun root => ?_
  rw [membersOf]
  cases root.child? "members" <;> rfl

/-- What is kept after an offer was kept before or has the name and the content of what was offered. -/
theorem mem_kept_offer {member kept : Element} (h : kept ∈ (offer source members member).kept) :
    kept ∈ members.kept ∨ kept.name = member.name ∧ kept.children = member.children := by
  rw [offer] at h
  split at h
  · rcases List.mem_append.1 h with h | h
    · exact .inl h
    · rw [List.mem_singleton.1 h]
      exact .inr ⟨rfl, rfl⟩
  dsimp only at h
  split at h
  · exact .inl h
  · rcases List.mem_append.1 h with h | h
    · exact .inl h
    · rw [List.mem_singleton.1 h]
      exact .inr ⟨rfl, rfl⟩

theorem mem_kept_foldl {offered : List Element} {kept : Element}
    (h : kept ∈ (offered.foldl (offer source) members).kept) :
    kept ∈ members.kept ∨
      ∃ member ∈ offered, kept.name = member.name ∧ kept.children = member.children := by
  induction offered generalizing members with
  | nil => exact .inl h
  | cons first offered ih =>
    rcases ih h with h | ⟨member, hmember, hsame⟩
    · rcases mem_kept_offer h with h | hsame
      · exact .inl h
      · exact .inr ⟨first, List.mem_cons_self, hsame⟩
    · exact .inr ⟨member, List.mem_cons_of_mem _ hmember, hsame⟩

end DocumentationMembers

/-- Whether the file of a source declares a member of this name and content. -/
def DocumentationSource.Declares (source : DocumentationSource) (kept : Element) : Prop :=
  ∃ root, parse source.data = .ok root ∧
    ∃ member ∈ membersOf root, kept.name = member.name ∧ kept.children = member.children

/-- Files that are read are merged, and every member that is kept is one that a file declares. -/
theorem mergeDocumentation_declares (assembly : String) {sources : List DocumentationSource}
    (hread : ∀ source ∈ sources, ∃ root, parse source.data = .ok root) :
    ∃ kept, mergeDocumentation assembly sources = .ok (write (documentationTree assembly kept)) ∧
      ∀ member ∈ kept, ∃ source ∈ sources, source.Declares member := by
  have hanswers (members : DocumentationMembers) (source : DocumentationSource) :
      (∃ c, members.offerAll source = .ok c) ↔ ∃ root, parse source.data = .ok root := by
    rw [DocumentationMembers.offerAll_eq]
    cases parse source.data with
    | error fault => exact ⟨nofun, nofun⟩
    | ok root => exact ⟨fun _ => ⟨root, rfl⟩, fun _ => ⟨_, rfl⟩⟩
  obtain ⟨members, hmembers⟩ :=
    (exists_foldlM_iff hanswers (b := (⟨[], []⟩ : DocumentationMembers))).2 hread
  refine ⟨members.kept, ?_, ?_⟩
  · rw [mergeDocumentation, hmembers]
    rfl
  · refine of_foldlM_eq_ok (p := fun members : DocumentationMembers =>
      ∀ member ∈ members.kept, ∃ source ∈ sources, source.Declares member)
      (List.forall_mem_nil _) ?_ hmembers
    intro before source hsource after hbefore hafter member hmember
    rw [DocumentationMembers.offerAll_eq] at hafter
    obtain ⟨root, hroot, hfold⟩ := bind_eq_ok.1 hafter
    obtain rfl := Except.ok.inj hfold
    rcases DocumentationMembers.mem_kept_foldl hmember with hmember | hoffered
    · exact hbefore member hmember
    · exact ⟨source, hsource, root, hroot, hoffered⟩

/-! ## What is lost -/

/-- What becomes of the texts of a document and of the members of documentation files. A document is read
if and only if it is when its texts are read whole. Its tree is then that of the whole texts with white
space taken off the ends of texts, as many characters as the runs inside of the root have at their ends;
so it is that tree if and only if each of these runs is all white space or has none at its ends. A member
that is kept has the content that it has in its file, trimmed in this way. -/
theorem parse_texts (data : Bytes) (assembly : String) (sources : List DocumentationSource) :
    (∀ fault, parse data = .error fault ↔ parseWhole data = .error fault) ∧
      (∀ root, parse data = .ok root → ∃ whole, parseWhole data = .ok whole ∧ Element.Trims whole root ∧
        whole.textSize = root.textSize + ((textRuns data).map endSpaces).sum ∧
        (root = whole ↔ ∀ run ∈ textRuns data, Tight run)) ∧
      ((∀ source ∈ sources, ∃ root, parse source.data = .ok root) →
        ∃ kept, mergeDocumentation assembly sources = .ok (write (documentationTree assembly kept)) ∧
          ∀ member ∈ kept, ∃ source ∈ sources, ∃ whole, parseWhole source.data = .ok whole ∧
            ∃ original ∈ membersOf whole, member.name = original.name ∧
              Trims original.children member.children ∧
              ((∀ run ∈ textRuns source.data, Tight run) → member.children = original.children)) := by
  have hread (data : Bytes) (root : Element) (hroot : parse data = .ok root) : ∃ whole,
      parseWhole data = .ok whole ∧ Element.Trims whole root ∧
      whole.textSize = root.textSize + ((textRuns data).map endSpaces).sum ∧
      (root = whole ↔ ∀ run ∈ textRuns data, Tight run) := by
    obtain ⟨whole, hwhole, htrims, hsize⟩ := (hroot ▸ parseWhole_parse data).exists_left
    refine ⟨whole, hwhole, htrims, hsize, ?_⟩
    rw [eq_comm, htrims.eq_iff, ← sum_endSpaces_eq_zero_iff, hsize]
    omega
  refine ⟨fun fault => ((parseWhole_parse data).error_iff fault).symm, hread data, ?_⟩
  intro hsources
  obtain ⟨kept, hkept, hdeclared⟩ := mergeDocumentation_declares assembly hsources
  refine ⟨kept, hkept, ?_⟩
  intro member hmember
  obtain ⟨source, hsource, root, hroot, declared, hmem, hname, hchildren⟩ := hdeclared member hmember
  obtain ⟨whole, hwhole, htrims, -, hexact⟩ := hread source.data root hroot
  refine ⟨source, hsource, whole, hwhole, ?_⟩
  by_cases htight : ∀ run ∈ textRuns source.data, Tight run
  · -- nothing of this file is lost, so the member is read as it stands there
    rw [← hexact.2 htight]
    refine ⟨declared, hmem, hname, ?_, fun _ => hchildren⟩
    rw [hchildren]
    exact .refl _
  · obtain ⟨original, horiginal, hsame⟩ := Element.Trims.exists_mem htrims.membersOf hmem
    refine ⟨original, horiginal, hname.trans hsame.name.symm, ?_, fun h => absurd h htight⟩
    rw [hchildren]
    exact hsame.children

/-- A documentation file with a member that has a text before an element. -/
theorem parse_texts_member :
    let source : DocumentationSource :=
      ⟨Utf8.encode "<doc><members><member name=\"T:A\">See <c/>.</member></members></doc>", [], []⟩
    let file (text : String) : Element := ⟨"doc", [], [.element "members" [] [.element "member"
      [("name", "T:A")] [.text text, .element "c" [] [], .text "."]]]⟩
    parse source.data = .ok (file "See") ∧ parseWhole source.data = .ok (file "See ") ∧
      (¬∀ run ∈ textRuns source.data, Tight run) ∧
      ∃ kept, mergeDocumentation "A" [source] = .ok (write (documentationTree "A" kept)) ∧
        ∀ member ∈ kept, ∃ original ∈ membersOf (file "See "),
          Trims original.children member.children := by
  intro source file
  have hparse : parse source.data = .ok (file "See") := by decide +kernel
  have hwhole : parseWhole source.data = .ok (file "See ") := by decide +kernel
  obtain ⟨-, htree, hdocumentation⟩ := parse_texts source.data "A" [source]
  obtain ⟨whole, hread, -, -, hexact⟩ := htree (file "See") hparse
  obtain rfl := Except.ok.inj (hwhole.symm.trans hread)
  obtain ⟨kept, hkept, hmembers⟩ := hdocumentation (List.forall_mem_singleton.2 ⟨_, hparse⟩)
  refine ⟨hparse, hwhole, fun htight => absurd (hexact.2 htight) (by decide), kept, hkept, ?_⟩
  intro member hmember
  obtain ⟨_, hsource, whole, hwhole', original, horiginal, -, htrims, -⟩ := hmembers member hmember
  rw [List.mem_singleton.1 hsource] at hwhole'
  obtain rfl := Except.ok.inj (hwhole.symm.trans hwhole')
  exact ⟨original, horiginal, htrims⟩

/-- The blank between a word and the element after it is lost. -/
theorem parse_loses_blank :
    let data := Utf8.encode "<s>See <c/>.</s>"
    textRuns data = ["See ".toList, ".".toList] ∧
      parse data = .ok ⟨"s", [], [.text "See", .element "c" [] [], .text "."]⟩ ∧
      parseWhole data = .ok ⟨"s", [], [.text "See ", .element "c" [] [], .text "."]⟩ := by
  intro data
  refine ⟨?_, ?_, ?_⟩ <;> decide +kernel

end ModuleLinker.Xml
