import Mathlib.Data.List.Chain
import ModuleLinker.Proofs.Bytes.ReadBack
import ModuleLinker.Proofs.Xml.Merging
import ModuleLinker.Proofs.Xml.Tags
import ModuleLinker.Xml.Reader

namespace ModuleLinker.Xml

/-! # Documents that are read back

The writer puts line breaks and blanks between tags, and nothing where a text is on either side. White
space alone is no text to the reader, and a text that has none at its ends is read as it is. So the pieces
of a written document are its tags and texts, in their order, and the tree that the reader makes of them is
the one that was written.
-/

/-! ## Trees that can be read back -/

/-- Whether a text has characters, with no white space at its ends. -/
structure TightText (value : String) : Prop where
  ne_empty : value ≠ ""
  front : ∀ c ∈ value.toList.head?, ¬Markup.isSpace c
  back : ∀ c ∈ value.toList.getLast?, ¬Markup.isSpace c

instance (value : String) : Decidable (TightText value) :=
  decidable_of_iff (value ≠ "" ∧ value.toList.head?.all (fun c => ¬Markup.isSpace c) ∧
      value.toList.getLast?.all fun c => ¬Markup.isSpace c) <| by
    simp only [Option.all_eq_true, decide_eq_true_eq]
    exact ⟨fun ⟨hne, hfront, hback⟩ => ⟨hne, hfront, hback⟩, fun ⟨hne, hfront, hback⟩ => ⟨hne, hfront, hback⟩⟩

/-- Whether all texts in a node are tight and never next to each other, and all tags are sound. -/
inductive Node.Sound : Node → Prop where
  | text {value : String} (htext : TightText value) : Sound (.text value)
  | element {name : String} {attributes : List Pair} {children : List Node}
    (htag : SoundTag name attributes) (hchildren : ∀ n ∈ children, Sound n)
    (hapart : children.IsChain fun a b => a.text? = none ∨ b.text? = none) :
    Sound (.element name attributes children)

/-! ## Pieces -/

mutual

/-- The tags and texts of a node. -/
def Node.pieces : Node → List Markup
  | .text value => [.text value]
  | .element name attributes [] => [.empty name attributes]
  | .element name attributes (first :: rest) =>
    .opening name attributes :: (piecesOf (first :: rest) ++ [.closing name])

/-- The tags and texts of several nodes. -/
def piecesOf : List Node → List Markup
  | [] => []
  | n :: rest => n.pieces ++ piecesOf rest

end

/-- Whether a document is scanned as these pieces, from a place behind markup on. -/
def Scans (cs : List Char) (pieces : List Markup) : Prop :=
  ∀ n, cs.length < n → Markup.scanWithin n cs = pieces

namespace Scans

variable {run rest after : List Char} {m : Markup} {pieces : List Markup}

theorem last (h : ∀ c ∈ run, c ≠ '<') : Scans run (Markup.ofRun run) := by
  intro n hn
  cases n with
  | zero => exact absurd hn (Nat.not_lt_zero _)
  | succ n =>
    have hspan : run.span (· != '<') = (run, []) := by
      have hall (c : Char) (hc : c ∈ run) : (c != '<') = true := by simpa using h c hc
      rw [List.span_eq_takeWhile_dropWhile, List.takeWhile_eq_self_iff.2 hall, List.dropWhile_eq_nil_iff.2 hall]
    rw [Markup.scanWithin, hspan]

/-- A run of text, and the markup behind it. -/
theorem markup (hrun : ∀ c ∈ run, c ≠ '<') (hm : Markup.ofMarkup rest = (m, after))
    (hlength : after.length ≤ rest.length) (h : Scans after pieces) :
    Scans (run ++ '<' :: rest) (Markup.ofRun run ++ m :: pieces) := by
  intro n hn
  cases n with
  | zero => exact absurd hn (Nat.not_lt_zero _)
  | succ n =>
    have hspan : (run ++ '<' :: rest).span (· != '<') = (run, '<' :: rest) :=
      span_append_cons (fun c hc => by simpa using hrun c hc) (by decide)
    have hshort : after.length < n := by
      rw [List.length_append, List.length_cons] at hn
      omega
    rw [Markup.scanWithin, hspan]
    dsimp only
    rw [hm, h n hshort]

theorem scan_eq (h : Scans rest pieces) : Markup.scan rest = pieces := h _ (Nat.lt_succ_self _)

end Scans

/-! ## Runs between tags -/

/-- What is written between the last markup and a place, and what it is read as: nothing, or a text. -/
inductive Pending : (afterText : Bool) → List Char → List Markup → Prop where
  | markup : Pending false [] []
  | text {value : String} (h : TightText value) : Pending true (escape value.toList) [.text value]

theorem ofRun_escape {value : String} (h : TightText value) :
    Markup.ofRun (escape value.toList) = [.text value] := by
  have hiff (c? : Option Char) : (∀ c ∈ c?, ¬Markup.isSpace c) ↔ c?.map Markup.isSpace ≠ some true := by
    cases c? <;> simp
  have htrim : Text.trimBy Markup.isSpace (escape value.toList) = escape value.toList := by
    rw [Text.trimBy_eq_self_iff, hiff, hiff, head?_escape, getLast?_escape, ← hiff, ← hiff]
    exact ⟨h.front, h.back⟩
  have hnil : escape value.toList ≠ [] := by
    intro hnil
    have hvalue := unescape?_escape value.toList
    rw [hnil] at hvalue
    exact h.ne_empty (String.toList_eq_nil_iff.1 (Option.some.inj hvalue).symm)
  obtain ⟨c, cs, hcs⟩ := List.exists_cons_of_ne_nil hnil
  have hunescape := unescape?_escape value.toList
  rw [hcs] at htrim hunescape
  rw [Markup.ofRun, hcs, htrim]
  dsimp only
  rw [hunescape]
  exact congrArg (fun s => [Markup.text s]) String.ofList_toList

namespace Pending

variable {afterText : Bool} {run : List Char} {pieces : List Markup}

/-- A line break before a tag changes nothing about what is read. -/
theorem ofRun_eq (h : Pending afterText run pieces) (depth : Nat) :
    (∀ c ∈ run ++ Writer.breakBefore afterText depth, c ≠ '<') ∧
      Markup.ofRun (run ++ Writer.breakBefore afterText depth) = pieces := by
  cases h with
  | markup =>
    rw [List.nil_append, Writer.breakBefore, if_neg (by decide), Writer.newLine]
    have hspace : ∀ c ∈ '\n' :: List.replicate (2 * depth) ' ', Markup.isSpace c := by
      rw [List.forall_mem_cons]
      refine ⟨by decide, fun c hc => ?_⟩
      rw [List.eq_of_mem_replicate hc]
      decide
    constructor
    · rintro c hc rfl
      exact absurd (hspace _ hc) (by decide)
    · rw [Markup.ofRun, Text.trimBy_eq_nil_iff.2 hspace]
  | text hvalue =>
    rw [Writer.breakBefore, if_pos rfl, List.append_nil]
    exact ⟨fun c hc => ne_of_mem_escape (by decide) (by decide) hc, ofRun_escape hvalue⟩

end Pending

/-! ## Written nodes -/

/-- Whether a node is scanned as its tags and texts wherever it is written: behind markup or behind a text,
but not as a text behind a text. -/
def Node.ScansWritten (n : Node) : Prop :=
  ∀ {depth : Nat} {afterText : Bool} {run after : List Char} {before pieces : List Markup},
    Pending afterText run before → (afterText → n.text? = none) →
    (∀ {run' before'}, Pending n.text?.isSome run' before' → Scans (run' ++ after) (before' ++ pieces)) →
    Scans (run ++ Writer.node depth afterText n after) (before ++ (n.pieces ++ pieces))

/-- Whether a text is the last thing behind some nodes. -/
def endsAfterText (afterText : Bool) (nodes : List Node) : Bool :=
  nodes.foldl (fun _ n => n.text?.isSome) afterText

theorem endsAfterText_cons (afterText : Bool) (n : Node) (nodes : List Node) :
    endsAfterText afterText (n :: nodes) = Writer.endsWithText (n :: nodes) := by
  rw [endsAfterText, Writer.endsWithText, List.foldl_cons]
  induction nodes generalizing n with
  | nil => rfl
  | cons m nodes ih => rw [List.foldl_cons, ih, List.getLast?_cons_cons]

theorem scans_nodes {nodes : List Node} (hnodes : ∀ n ∈ nodes, n.ScansWritten)
    (hapart : nodes.IsChain fun a b => a.text? = none ∨ b.text? = none) {depth : Nat} {afterText : Bool}
    {run after : List Char} {before pieces : List Markup} (hpending : Pending afterText run before)
    (hfirst : afterText → ∀ n ∈ nodes.head?, n.text? = none)
    (hafter : ∀ {run' before'}, Pending (endsAfterText afterText nodes) run' before' →
      Scans (run' ++ after) (before' ++ pieces)) :
    Scans (run ++ Writer.nodes depth afterText nodes after) (before ++ (piecesOf nodes ++ pieces)) := by
  induction nodes generalizing afterText run before with
  | nil =>
    rw [Writer.nodes, piecesOf]
    exact hafter hpending
  | cons n nodes ih =>
    obtain ⟨hn, hnodes⟩ := List.forall_mem_cons.1 hnodes
    obtain ⟨hnext, hapart⟩ := List.isChain_cons.1 hapart
    rw [Writer.nodes, piecesOf, List.append_assoc]
    refine hn hpending (fun htext => hfirst htext n rfl) fun hpending' => ?_
    refine ih hnodes hapart hpending' (fun htext m hm => ?_) hafter
    obtain hnone | hnone := hnext m hm
    · rw [hnone] at htext
      exact nomatch htext
    · exact hnone

theorem Node.Sound.scansWritten {n : Node} (h : n.Sound) : n.ScansWritten := by
  induction n using Node.induction with
  | text value =>
    cases h with | text htext =>
    intro depth afterText run after before pieces hpending hbehind hafter
    cases hpending with
    | markup =>
      rw [Writer.node, Node.pieces]
      exact hafter (.text htext)
    | text => exact nomatch hbehind rfl
  | element name attributes children ih =>
    cases h with | element htag hchildren hapart =>
    intro depth afterText run after before pieces hpending hbehind hafter
    obtain ⟨hrun, hread⟩ := hpending.ofRun_eq depth
    rw [← hread]
    cases children with
    | nil =>
      rw [Writer.node, Node.pieces, ← List.append_assoc]
      exact .markup hrun (htag.ofMarkup_empty after)
        (by simp only [List.length_append, List.length_cons]; omega) (hafter .markup)
    | cons first rest =>
      have hcontent : Scans (Writer.nodes (depth + 1) false (first :: rest)
          (Writer.breakBefore (Writer.endsWithText (first :: rest)) depth ++
            '<' :: '/' :: (name.toList ++ '>' :: after)))
          (piecesOf (first :: rest) ++ .closing name :: pieces) := by
        refine scans_nodes (fun n hn => ih n hn (hchildren n hn)) hapart .markup nofun fun hlast => ?_
        rw [endsAfterText_cons] at hlast
        obtain ⟨hrun, hread⟩ := hlast.ofRun_eq depth
        rw [← hread, ← List.append_assoc]
        exact .markup hrun (SoundTag.ofMarkup_closing htag.name after)
          (by simp only [List.length_append, List.length_cons]; omega) (hafter .markup)
      rw [Writer.node, Node.pieces, ← List.append_assoc run, List.cons_append, List.append_assoc (piecesOf _),
        List.singleton_append]
      exact .markup hrun (htag.ofMarkup_opening _)
        (by simp only [List.length_append, List.length_cons]; omega) hcontent

/-- What is written for an element is scanned as its tags and texts, and nothing behind it counts. -/
theorem scans_root {root : Element} (h : root.toNode.Sound) :
    Scans (Writer.node 0 false root.toNode ['\n']) root.toNode.pieces := by
  have hend : Scans ['\n'] [] := Scans.last (List.forall_mem_singleton.2 (by decide))
  have hscans : Scans ([] ++ Writer.node 0 false root.toNode ['\n']) ([] ++ (root.toNode.pieces ++ [])) := by
    refine h.scansWritten .markup nofun fun hpending => ?_
    cases hpending
    exact hend
  rwa [List.nil_append, List.nil_append, List.append_nil] at hscans

/-! ## The reader's tree -/

section

variable {e : Element} {stack : List Element} {root : Option Element}

/-- The pieces of nodes make the nodes the last parts of the innermost element. -/
theorem foldlM_piecesOf {nodes : List Node} (hnodes : ∀ n ∈ nodes, ∀ {e : Element},
      n.pieces.foldlM Reading.step ⟨e :: stack, root⟩ =
        .ok ⟨{ e with children := e.children ++ [n] } :: stack, root⟩) :
    (piecesOf nodes).foldlM Reading.step ⟨e :: stack, root⟩ =
      .ok ⟨{ e with children := e.children ++ nodes } :: stack, root⟩ := by
  induction nodes generalizing e with
  | nil =>
    rw [piecesOf, List.append_nil]
    rfl
  | cons n nodes ih =>
    obtain ⟨hn, hnodes⟩ := List.forall_mem_cons.1 hnodes
    rw [piecesOf, List.foldlM_append, hn]
    refine (ih hnodes).trans ?_
    rw [List.append_assoc, List.singleton_append]

/-- The pieces of an element complete it. -/
theorem foldlM_element {r : Reading} {name : String} {attributes : List Pair} {children : List Node}
    (hchildren : ∀ n ∈ children, ∀ {e : Element}, n.pieces.foldlM Reading.step ⟨e :: r.stack, r.root⟩ =
      .ok ⟨{ e with children := e.children ++ [n] } :: r.stack, r.root⟩) :
    (Node.element name attributes children).pieces.foldlM Reading.step r =
      r.complete ⟨name, attributes, children⟩ := by
  cases children with
  | nil =>
    rw [Node.pieces, List.foldlM_cons]
    exact bind_pure _
  | cons first rest =>
    rw [Node.pieces, List.foldlM_cons]
    show (piecesOf (first :: rest) ++ [Markup.closing name]).foldlM Reading.step
      ⟨⟨name, attributes, []⟩ :: r.stack, r.root⟩ = _
    rw [List.foldlM_append, foldlM_piecesOf hchildren, List.nil_append]
    show [Markup.closing name].foldlM Reading.step
      ⟨⟨name, attributes, first :: rest⟩ :: r.stack, r.root⟩ = _
    rw [List.foldlM_cons, Reading.step]
    dsimp only
    rw [if_pos rfl]
    exact bind_pure _

theorem Node.Sound.foldlM_pieces {n : Node} (h : n.Sound) : n.pieces.foldlM Reading.step ⟨e :: stack, root⟩ =
    .ok ⟨{ e with children := e.children ++ [n] } :: stack, root⟩ := by
  induction n using Node.induction generalizing e stack with
  | text value =>
    cases h with | text htext =>
    have hstep : Reading.step ⟨e :: stack, root⟩ (.text value) =
        .ok ⟨{ e with children := e.children ++ [.text value] } :: stack, root⟩ := by
      rw [Reading.step, Reading.addText, if_neg (by simpa using htext.ne_empty)]
      rfl
    rw [Node.pieces, List.foldlM_cons, hstep]
    rfl
  | element name attributes children ih =>
    cases h with | element htag hchildren hapart =>
    refine (foldlM_element fun n hn => ?_).trans rfl
    intro inner
    exact ih n hn (hchildren n hn)

end

/-! ## Documents -/

theorem cutAt?_append {first : Char} {mark front rest : List Char} (h : first ∉ front) :
    Markup.cutAt? (first :: mark) (front ++ first :: mark ++ rest) = some (front, rest) := by
  induction front with
  | nil =>
    have hmark : (first :: mark).isPrefixOf? (first :: (mark ++ rest)) = some rest := by
      rw [List.isPrefixOf?_eq_some_iff_append_eq]
      rfl
    rw [List.nil_append, List.cons_append, Markup.cutAt?, hmark]
  | cons c front ih =>
    obtain ⟨hc, hfront⟩ := not_or.1 (mt List.mem_cons.2 h)
    have hnone : (first :: mark).isPrefixOf? (c :: (front ++ first :: mark ++ rest)) = none :=
      if_neg (by simpa using hc)
    rw [List.cons_append, List.cons_append, Markup.cutAt?, hnone]
    dsimp only
    rw [ih hfront, Option.map_some]

/-- The declaration is scanned as one piece, which says nothing. -/
theorem ofMarkup_declaration (after : List Char) : ∃ rest, Writer.declaration ++ after = '<' :: rest ∧
    Markup.ofMarkup rest = (.ignored, after) ∧ after.length ≤ rest.length := by
  let content : List Char := "xml version=\"1.0\" encoding=\"utf-8\"".toList
  have hdeclaration : Writer.declaration = '<' :: '?' :: (content ++ "?>".toList) := by decide
  have hcut : Markup.cutAt? "?>".toList (content ++ "?>".toList ++ after) = some (content, after) :=
    cutAt?_append (by decide)
  have hcontent : content = 'x' :: content.tail := by decide
  refine ⟨'?' :: (content ++ "?>".toList ++ after), by rw [hdeclaration]; rfl, ?_, ?_⟩
  · rw [hcontent] at hcut ⊢
    simp only [List.cons_append] at hcut ⊢
    rw [Markup.ofMarkup, hcut]
    intro rest heq
    exact absurd (List.cons.inj heq).1 (by decide)
  · simp only [List.length_cons, List.length_append]
    omega

/-- A document that was written is read as the tree that it was written for, if every name is a name, no
element has a key twice, and no text is empty, next to another one or with white space at an end. -/
theorem parse_write {root : Element} (h : root.toNode.Sound) : parse (write root) = .ok root := by
  obtain ⟨rest, hdeclaration, hmarkup, hlength⟩ :=
    ofMarkup_declaration (Writer.node 0 false root.toNode ['\n'])
  have hscans : Scans ([] ++ '<' :: rest) (Markup.ofRun [] ++ .ignored :: root.toNode.pieces) :=
    .markup nofun hmarkup hlength (scans_root h)
  have hscan : Markup.scan ('<' :: rest) = .ignored :: root.toNode.pieces := hscans.scan_eq
  have hread : root.toNode.pieces.foldlM Reading.step ⟨[], none⟩ = .ok ⟨[], some root⟩ := by
    obtain ⟨name, attributes, children⟩ := root
    cases h with | element htag hchildren hapart =>
    exact foldlM_element fun n hn e => (hchildren n hn).foldlM_pieces
  have hparse : parseChars ('<' :: rest) = .ok root := by
    rw [parseChars, List.head?_cons, if_neg (by decide), hscan, List.foldlM_cons]
    show (root.toNode.pieces.foldlM Reading.step ⟨[], none⟩ >>= _) = _
    rw [hread]
    rfl
  rw [parse, write, Encoding.decode_encode]
  show (parseChars (render root).toList).mapError _ = _
  rw [render, String.toList_ofList, hdeclaration, hparse]
  rfl

/-- A line with a text between two elements, and with marks in it and in a value. -/
theorem parse_write_line :
    let line : Element := ⟨"line", [("x:at", "a<b \"1\"")],
      [.element "c" [] [], .text "x & y\n>", .element "d" [] [.text "it's"]]⟩
    line.toNode.Sound ∧ parse (write line) = .ok line := by
  intro line
  have hempty : (Node.element "c" [] []).Sound := .element (by decide) nofun (by decide)
  have hinner : (Node.element "d" [] [.text "it's"]).Sound :=
    .element (by decide) (List.forall_mem_singleton.2 (.text (by decide))) (by decide)
  have hparts : ∀ n ∈ line.children, n.Sound :=
    List.forall_mem_cons.2 ⟨hempty, List.forall_mem_cons.2
      ⟨.text (by decide), List.forall_mem_singleton.2 hinner⟩⟩
  have hline : line.toNode.Sound := .element (by decide) hparts (by decide)
  exact ⟨hline, parse_write hline⟩

end ModuleLinker.Xml
