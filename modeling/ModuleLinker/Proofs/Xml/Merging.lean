import ModuleLinker.Proofs.Computation
import ModuleLinker.Xml.LinkerMetadata

namespace ModuleLinker.Xml

/-! # Merges of linker metadata

What merging a node into a content can do: nothing, if the content has the very node; one node more at
the end, if no element stands at the place of the node; or a merge inside the first element that stands
there. Elements of one name and one nonempty key have one place. Whatever is merged, the nodes of a
content stay, in their order and with their attributes.
-/

namespace Node

/-- Induction over nodes, with the nodes inside of elements. -/
@[elab_as_elim]
theorem induction {p : Node → Prop} (text : ∀ value, p (.text value))
    (element : ∀ name attributes children, (∀ n ∈ children, p n) → p (.element name attributes children))
    (n : Node) : p n :=
  @Node.rec p (fun nodes => ∀ n ∈ nodes, p n) element text nofun
    (fun _ _ hn hrest => List.forall_mem_cons.2 ⟨hn, hrest⟩) n

/-- The name of an element and its key attributes. -/
def place? : Node → Option (String × List Pair)
  | .element name attributes _ => some (name, keyOf attributes)
  | .text _ => none

/-- Whether a node is an element of this name and these key attributes. -/
def standsAt (place : String × List Pair) (n : Node) : Bool := n.place? == some place

theorem standsAt_iff {place : String × List Pair} {n : Node} : n.standsAt place ↔ n.place? = some place :=
  beq_iff_eq

theorem standsAt_element {place : String × List Pair} {name : String} {attributes : List Pair}
    {children : List Node} :
    (element name attributes children).standsAt place ↔ (name, keyOf attributes) = place := by
  rw [standsAt_iff, place?, Option.some.injEq]

theorem exists_of_standsAt {name : String} {key : List Pair} {n : Node} (h : n.standsAt (name, key)) :
    ∃ attributes children, n = .element name attributes children ∧ keyOf attributes = key := by
  cases n with
  | text value => exact nomatch standsAt_iff.1 h
  | element other attributes children =>
    obtain ⟨rfl, rfl⟩ := Prod.mk.inj (standsAt_element.1 h)
    exact ⟨attributes, children, rfl, rfl⟩

end Node

/-! ## Changing the first element that is found -/

section

variable {f : α → Option α} {l : List α}

theorem changeFirst?_eq_none (h : ∀ a ∈ l, f a = none) : changeFirst? f l = none := by
  induction l with
  | nil => rfl
  | cons a l ih =>
    obtain ⟨ha, hl⟩ := List.forall_mem_cons.1 h
    rw [changeFirst?, ha, ih hl]
    rfl

theorem changeFirst?_append {front back : List α} {a b : α} (hfront : ∀ x ∈ front, f x = none)
    (ha : f a = some b) : changeFirst? f (front ++ a :: back) = some (front ++ b :: back) := by
  induction front with
  | nil => rw [List.nil_append, changeFirst?, ha, List.nil_append]
  | cons x front ih =>
    obtain ⟨hx, hfront⟩ := List.forall_mem_cons.1 hfront
    rw [List.cons_append, changeFirst?, hx, ih hfront]
    rfl

end

/-! ## One step -/

section

variable {nodes : List Node} {name : String} {attributes : List Pair} {children : List Node}

theorem mergeNode_of_mem (h : n ∈ nodes) : mergeNode nodes n = nodes := by
  cases n with
  | text value => rw [mergeNode]
  | element name attributes children => rw [mergeNode, if_pos (List.contains_iff_mem.2 h)]

theorem mergeNode_of_free (habsent : .element name attributes children ∉ nodes)
    (hfree : keyOf attributes = [] ∨ ∀ m ∈ nodes, ¬m.standsAt (name, keyOf attributes)) :
    mergeNode nodes (.element name attributes children) =
      nodes ++ [.element name attributes children] := by
  rw [mergeNode, if_neg (mt List.contains_iff_mem.1 habsent)]
  dsimp only
  by_cases hkey : keyOf attributes = []
  · rw [if_pos (List.isEmpty_iff.2 hkey)]
  · have hnone := hfree.resolve_left hkey
    rw [if_neg (mt List.isEmpty_iff.1 hkey), changeFirst?_eq_none]
    · rfl
    · intro m hm
      cases m with
      | text value => rfl
      | element other attrs inner =>
        refine if_neg ?_
        rintro ⟨rfl, hsame⟩
        exact hnone _ hm (Node.standsAt_element.2 (by rw [hsame]))

theorem mergeNode_of_first {front back inner : List Node} {attrs : List Pair}
    (habsent : .element name attributes children ∉ front ++ .element name attrs inner :: back)
    (hkey : keyOf attributes ≠ []) (hsame : keyOf attrs = keyOf attributes)
    (hfront : ∀ m ∈ front, ¬m.standsAt (name, keyOf attributes)) :
    mergeNode (front ++ .element name attrs inner :: back) (.element name attributes children) =
      front ++ .element name attrs (mergeNodes inner children) :: back := by
  rw [mergeNode, if_neg (mt List.contains_iff_mem.1 habsent)]
  dsimp only
  rw [if_neg (mt List.isEmpty_iff.1 hkey),
    changeFirst?_append (b := .element name attrs (mergeNodes inner children))]
  · rfl
  · intro m hm
    cases m with
    | text value => rfl
    | element other others inside =>
      refine if_neg ?_
      rintro ⟨rfl, hkeys⟩
      exact hfront _ hm (Node.standsAt_element.2 (by rw [hkeys]))
  · exact if_pos ⟨rfl, hsame⟩

/-- What merging a node does to a content. -/
inductive Step (nodes : List Node) : Node → List Node → Prop where
  /-- Texts are not merged. -/
  | text (value : String) : Step nodes (.text value) nodes
  /-- The content has the very node. -/
  | present {n : Node} (h : n ∈ nodes) : Step nodes n nodes
  /-- No element stands where the node belongs, or it belongs nowhere, having no key. -/
  | added {name : String} {attributes : List Pair} {children : List Node}
    (hfree : keyOf attributes = [] ∨ ∀ m ∈ nodes, ¬m.standsAt (name, keyOf attributes)) :
    Step nodes (.element name attributes children) (nodes ++ [.element name attributes children])
  /-- The first element at the place of the node takes in what the node has inside. -/
  | within {name : String} {attributes attrs : List Pair} {children inner front back : List Node}
    (hnodes : nodes = front ++ .element name attrs inner :: back) (hkey : keyOf attributes ≠ [])
    (hsame : keyOf attrs = keyOf attributes)
    (hfront : ∀ m ∈ front, ¬m.standsAt (name, keyOf attributes)) :
    Step nodes (.element name attributes children)
      (front ++ .element name attrs (mergeNodes inner children) :: back)

theorem mergeNode_step (nodes : List Node) (n : Node) : Step nodes n (mergeNode nodes n) := by
  cases n with
  | text value =>
    rw [mergeNode]
    exact .text value
  | element name attributes children =>
    by_cases hmem : .element name attributes children ∈ nodes
    · rw [mergeNode_of_mem hmem]
      exact .present hmem
    by_cases hkey : keyOf attributes = []
    · rw [mergeNode_of_free hmem (.inl hkey)]
      exact .added (.inl hkey)
    cases hfind : nodes.find? (·.standsAt (name, keyOf attributes)) with
    | none =>
      have hfree : ∀ m ∈ nodes, ¬m.standsAt (name, keyOf attributes) := List.find?_eq_none.1 hfind
      rw [mergeNode_of_free hmem (.inr hfree)]
      exact .added (.inr hfree)
    | some m =>
      obtain ⟨hm, front, back, rfl, hfront⟩ := List.find?_eq_some_iff_append.1 hfind
      obtain ⟨attrs, inner, rfl, hsame⟩ := Node.exists_of_standsAt hm
      have hfront : ∀ m ∈ front, ¬m.standsAt (name, keyOf attributes) := by
        intro m hm
        exact Bool.eq_false_iff.1 (Bool.not_eq_true' _ ▸ hfront m hm)
      rw [mergeNode_of_first hmem hkey hsame hfront]
      exact .within rfl hkey hsame hfront

end

/-! ## The first element at a place -/

/-- A merge inside of the first element at a place leaves the first elements at other places. -/
theorem find?_standsAt_change {front back : List Node} {e e' : Node} {place place' : String × List Pair}
    (hfront : ∀ m ∈ front, ¬m.standsAt place) (he : e.standsAt place) (he' : e'.standsAt place) :
    (front ++ e' :: back).find? (·.standsAt place') =
      if place' = place then some e' else (front ++ e :: back).find? (·.standsAt place') := by
  have hnone : front.find? (·.standsAt place) = none := List.find?_eq_none.2 hfront
  rw [List.find?_append, List.find?_append, List.find?_cons, List.find?_cons]
  by_cases hplace : place' = place
  · rw [if_pos hplace, hplace, hnone, he']
    rfl
  · have hne : ∀ n : Node, n.standsAt place → n.standsAt place' = false := by
      intro n hn
      rw [Bool.eq_false_iff]
      intro hn'
      exact hplace (Option.some.inj ((Node.standsAt_iff.1 hn').symm.trans (Node.standsAt_iff.1 hn)))
    rw [if_neg hplace, hne e he, hne e' he']

/-- What each step keeps, a merge of several nodes keeps. -/
theorem mergeNodes_keeps {p : List Node → Prop} {ms : List Node}
    (hstep : ∀ m ∈ ms, ∀ nodes, p nodes → p (mergeNode nodes m)) {nodes : List Node} (h : p nodes) :
    p (mergeNodes nodes ms) := by
  induction ms generalizing nodes with
  | nil => rwa [mergeNodes]
  | cons m ms ih =>
    obtain ⟨hm, hms⟩ := List.forall_mem_cons.1 hstep
    rw [mergeNodes]
    exact ih hms (hm nodes h)

theorem mergeNodes_append (nodes ms ms' : List Node) :
    mergeNodes nodes (ms ++ ms') = mergeNodes (mergeNodes nodes ms) ms' := by
  induction ms generalizing nodes with
  | nil => rw [List.nil_append, mergeNodes]
  | cons m ms ih => rw [List.cons_append, mergeNodes, mergeNodes, ih]

/-! ## What stays -/

/-- Whether nodes are still there, in their order: texts as they were, elements with their names and
attributes, and at the end of a content elements may have come. -/
inductive Kept : List Node → List Node → Prop where
  | added {more : List Node} (h : ∀ n ∈ more, n.text? = none) : Kept [] more
  | text {nodes nodes' : List Node} (value : String) (h : Kept nodes nodes') :
    Kept (.text value :: nodes) (.text value :: nodes')
  | element {nodes nodes' inner inner' : List Node} (name : String) (attributes : List Pair)
    (hinner : Kept inner inner') (h : Kept nodes nodes') :
    Kept (.element name attributes inner :: nodes) (.element name attributes inner' :: nodes')

namespace Kept

variable {nodes nodes' : List Node}

theorem cons (n : Node) (h : Kept nodes nodes') : Kept (n :: nodes) (n :: nodes') := by
  induction n using Node.induction generalizing nodes nodes' with
  | text value => exact .text value h
  | element name attributes children ih =>
    have hchildren : Kept children children := by
      induction children with
      | nil => exact .added nofun
      | cons c children ihchildren =>
        obtain ⟨hc, hrest⟩ := List.forall_mem_cons.1 ih
        exact hc (ihchildren hrest)
    exact .element name attributes hchildren h

theorem append (front : List Node) (h : Kept nodes nodes') : Kept (front ++ nodes) (front ++ nodes') := by
  induction front with
  | nil => exact h
  | cons n front ih => exact ih.cons n

theorem refl (nodes : List Node) : Kept nodes nodes := by
  have h : Kept (nodes ++ []) (nodes ++ []) := append nodes (.added nofun)
  rwa [List.append_nil] at h

/-- No text comes to the nodes of a content. -/
theorem texts_eq (h : Kept nodes nodes') : nodes'.filterMap Node.text? = nodes.filterMap Node.text? := by
  induction h with
  | added h => exact List.filterMap_eq_nil_iff.2 h
  | text value _ ih => simp only [List.filterMap_cons, Node.text?, ih]
  | element name attributes _ _ _ ih => simp only [List.filterMap_cons, Node.text?, ih]

theorem exists_mem {name : String} {attributes : List Pair} {children : List Node}
    (h : Kept nodes nodes') (hmem : .element name attributes children ∈ nodes) :
    ∃ children', .element name attributes children' ∈ nodes' ∧ Kept children children' := by
  induction h with
  | added => exact nomatch hmem
  | text value _ ih =>
    have hne : Node.element name attributes children ≠ .text value := by
      intro heq
      cases heq
    obtain ⟨children', hmem', hkept⟩ := ih (List.mem_of_ne_of_mem hne hmem)
    exact ⟨children', List.mem_cons_of_mem _ hmem', hkept⟩
  | element other others hinner _ _ ih =>
    rcases List.mem_cons.1 hmem with heq | hmem
    · obtain ⟨rfl, rfl, rfl⟩ := Node.element.inj heq
      exact ⟨_, List.mem_cons_self, hinner⟩
    · obtain ⟨children', hmem', hkept⟩ := ih hmem
      exact ⟨children', List.mem_cons_of_mem _ hmem', hkept⟩

theorem trans {nodes'' : List Node} (h : Kept nodes nodes') (h' : Kept nodes' nodes'') :
    Kept nodes nodes'' := by
  induction h generalizing nodes'' with
  | @added more h =>
    refine .added ?_
    have htexts := h'.texts_eq
    rw [List.filterMap_eq_nil_iff.2 h] at htexts
    exact List.filterMap_eq_nil_iff.1 htexts
  | text value _ ih =>
    cases h' with
    | text _ h' => exact .text value (ih h')
  | element name attributes _ _ ihinner ih =>
    cases h' with
    | element _ _ hinner h' => exact .element name attributes (ihinner hinner) (ih h')

theorem mergeNode (nodes : List Node) (n : Node) : Kept nodes (mergeNode nodes n) := by
  induction n using Node.induction generalizing nodes with
  | text value =>
    rw [Xml.mergeNode]
    exact refl nodes
  | element name attributes children ih =>
    have hstep := mergeNode_step nodes (.element name attributes children)
    generalize Xml.mergeNode nodes (.element name attributes children) = nodes' at hstep
    cases hstep with
    | present => exact refl nodes
    | added =>
      have hmore : Kept [] [.element name attributes children] := by
        refine .added ?_
        intro n hn
        rw [List.mem_singleton.1 hn]
        rfl
      have h := append nodes hmore
      rwa [List.append_nil] at h
    | @within _ _ attrs _ inner front back hnodes =>
      rw [hnodes]
      refine append front (.element name attrs ?_ (refl back))
      exact mergeNodes_keeps (p := Kept inner) (fun m hm inside h => h.trans (ih m hm inside)) (refl inner)

theorem mergeNodes (nodes ms : List Node) : Kept nodes (mergeNodes nodes ms) :=
  mergeNodes_keeps (p := Kept nodes) (fun m _ inside h => h.trans (mergeNode inside m)) (refl nodes)

end Kept

/-! ## Merging documents -/

/-- Several trees are merged into one as their contents one after another. -/
theorem Element.children_foldl_merge (root : Element) (roots : List Element) :
    (roots.foldl merge root).children =
      mergeNodes root.children (roots.flatMap Element.children) := by
  induction roots generalizing root with
  | nil => rw [List.flatMap_nil, mergeNodes, List.foldl_nil]
  | cons tree roots ih =>
    rw [List.foldl_cons, ih, List.flatMap_cons, mergeNodes_append]
    rfl

theorem mergeInto_eq (root : Element) (documents : List Bytes) :
    mergeInto root documents = do
      let roots ← documents.mapM parse
      return roots.foldl Element.merge root := by
  induction documents generalizing root with
  | nil => rfl
  | cons document rest ih =>
    rw [mergeInto, List.mapM_cons]
    cases parse document with
    | error fault => rfl
    | ok tree =>
      refine (ih (root.merge tree)).trans ?_
      cases rest.mapM parse <;> rfl

/-- Documents are merged by merging their trees into the first one. -/
theorem mergeLinkerDocuments_cons (first : Bytes) (rest : List Bytes) :
    mergeLinkerDocuments (first :: rest) = do
      let root ← parse first
      let roots ← rest.mapM parse
      return write (roots.foldl Element.merge root) := by
  rw [mergeLinkerDocuments]
  cases parse first with
  | error fault => rfl
  | ok root =>
    show mergeInto root rest >>= (fun merged => return write merged) = _
    rw [mergeInto_eq]
    cases rest.mapM parse <;> rfl

theorem mergeLinkerDocuments_eq_ok {documents : List Bytes} {root : Element} {roots : List Element}
    (h : documents.mapM parse = .ok (root :: roots)) :
    mergeLinkerDocuments documents = .ok (write (roots.foldl Element.merge root)) := by
  cases documents with
  | nil => exact nomatch h
  | cons first rest =>
    rw [mapM_eq_ok_iff, List.map_cons, List.map_cons, List.cons.injEq, ← mapM_eq_ok_iff] at h
    rw [mergeLinkerDocuments_cons, h.1, h.2]
    rfl

/-! ## Merging again

A content absorbs a node if it has the node, or has an element at its place that absorbs all that the
node has inside. A content absorbs what was merged into it and what it has; no later merge changes that;
and merging what is absorbed changes nothing. So a merge that is done again with one of its parts adds
nothing to its result.
-/

/-! ## What a content absorbs -/

/-- Whether a node is there already, in itself or spread over the first element at its place. -/
inductive Absorbs : List Node → Node → Prop where
  | text (nodes : List Node) (value : String) : Absorbs nodes (.text value)
  | present {nodes : List Node} {n : Node} (h : n ∈ nodes) : Absorbs nodes n
  | within {nodes children inner : List Node} {name : String} {attributes : List Pair}
    (attrs : List Pair) (hkey : keyOf attributes ≠ [])
    (hfirst : nodes.find? (·.standsAt (name, keyOf attributes)) = some (.element name attrs inner))
    (hinner : ∀ n ∈ children, Absorbs inner n) : Absorbs nodes (.element name attributes children)

/-- Merging one by one what leaves a content as it is leaves the content as it is. -/
theorem mergeNodes_eq_self {nodes ms : List Node} (h : ∀ m ∈ ms, mergeNode nodes m = nodes) :
    mergeNodes nodes ms = nodes := by
  induction ms with
  | nil => rw [mergeNodes]
  | cons m ms ih =>
    obtain ⟨hm, hms⟩ := List.forall_mem_cons.1 h
    rw [mergeNodes, hm, ih hms]

namespace Absorbs

variable {nodes : List Node} {n m : Node}

/-- Merging what is absorbed changes nothing. -/
theorem mergeNode_eq (h : Absorbs nodes n) : mergeNode nodes n = nodes := by
  induction h with
  | text nodes value => rw [mergeNode]
  | present h => exact mergeNode_of_mem h
  | @within nodes children inner name attributes attrs hkey hfirst hinner ih =>
    by_cases hmem : .element name attributes children ∈ nodes
    · exact mergeNode_of_mem hmem
    · obtain ⟨hat, front, back, rfl, hfront⟩ := List.find?_eq_some_iff_append.1 hfirst
      have hsame : keyOf attrs = keyOf attributes := (Prod.mk.inj (Node.standsAt_element.1 hat)).2
      rw [mergeNode_of_first hmem hkey hsame, mergeNodes_eq_self ih]
      intro m hm
      exact Bool.eq_false_iff.1 (Bool.not_eq_true' _ ▸ hfront m hm)

theorem append (h : Absorbs nodes n) (more : List Node) : Absorbs (nodes ++ more) n := by
  cases h with
  | text _ value => exact .text _ value
  | present h => exact .present (List.mem_append_left _ h)
  | within attrs hkey hfirst hinner =>
    refine .within attrs hkey ?_ hinner
    rw [List.find?_append, hfirst]
    rfl

/-- A node of a content, and what the content absorbs, are still absorbed when an element of the content
has changed inside to absorb what it had and what it absorbed. -/
theorem change {front back inner inner' : List Node} {name : String} {attrs : List Pair}
    (hfront : ∀ m ∈ front, ¬m.standsAt (name, keyOf attrs)) (hown : keyOf attrs ≠ [])
    (hgrows : ∀ c, Absorbs inner c → Absorbs inner' c)
    (h : Absorbs (front ++ .element name attrs inner :: back) n) :
    Absorbs (front ++ .element name attrs inner' :: back) n := by
  have hat (inside : List Node) : (Node.element name attrs inside).standsAt (name, keyOf attrs) :=
    Node.standsAt_element.2 rfl
  have hfind (place : String × List Pair) :
      (front ++ .element name attrs inner' :: back).find? (·.standsAt place) =
        if place = (name, keyOf attrs) then some (.element name attrs inner')
        else (front ++ .element name attrs inner :: back).find? (·.standsAt place) :=
    find?_standsAt_change hfront (hat inner) (hat inner')
  cases h with
  | text _ value => exact .text _ value
  | present h =>
    rcases List.mem_append.1 h with h | h
    · exact .present (List.mem_append_left _ h)
    rcases List.mem_cons.1 h with rfl | h
    · -- the changed element itself is found at its place, with all that it had
      refine .within attrs hown ((hfind _).trans (if_pos rfl)) ?_
      intro c hc
      exact hgrows c (.present hc)
    · exact .present (List.mem_append_right _ (List.mem_cons_of_mem _ h))
  | @within _ _ _ other attributes others hkey hfirst hinner =>
    by_cases hplace : (other, keyOf attributes) = (name, keyOf attrs)
    · have hfirst' := hfind (other, keyOf attributes)
      rw [if_pos hplace] at hfirst'
      have hold : (front ++ .element name attrs inner :: back).find?
          (·.standsAt (other, keyOf attributes)) = some (.element name attrs inner) := by
        rw [find?_standsAt_change hfront (hat inner) (hat inner), if_pos hplace]
      obtain ⟨rfl, rfl, rfl⟩ := Node.element.inj (Option.some.inj (hfirst.symm.trans hold))
      refine .within _ hkey hfirst' ?_
      intro c hc
      exact hgrows c (hinner c hc)
    · refine .within others hkey ?_ hinner
      rw [hfind, if_neg hplace, hfirst]

/-- What is absorbed stays absorbed, whatever is merged. -/
theorem mergeNode (h : Absorbs nodes n) (m : Node) : Absorbs (mergeNode nodes m) n := by
  induction m using Node.induction generalizing nodes n with
  | text value => rwa [Xml.mergeNode]
  | element name attributes children ih =>
    have hstep := mergeNode_step nodes (.element name attributes children)
    generalize Xml.mergeNode nodes (.element name attributes children) = nodes' at hstep
    cases hstep with
    | present => exact h
    | added => exact h.append _
    | @within _ _ attrs _ inner front back hnodes hkey hsame hfront =>
      subst hnodes
      rw [← hsame] at hkey hfront
      refine h.change hfront hkey ?_
      intro c hc
      exact mergeNodes_keeps (p := fun inside => Absorbs inside c) (fun m hm _ h => ih m hm h) hc

theorem mergeNodes (h : Absorbs nodes n) (ms : List Node) : Absorbs (mergeNodes nodes ms) n :=
  mergeNodes_keeps (p := fun nodes => Absorbs nodes n) (fun m _ _ h => h.mergeNode m) h

end Absorbs

/-- A content absorbs several nodes once they are merged if it absorbs each right after its merge. -/
theorem absorbs_mergeNodes_of {ms : List Node} (hself : ∀ m ∈ ms, ∀ nodes, Absorbs (mergeNode nodes m) m)
    (nodes : List Node) : ∀ m ∈ ms, Absorbs (mergeNodes nodes ms) m := by
  induction ms generalizing nodes with
  | nil => exact nofun
  | cons m ms ih =>
    obtain ⟨hm, hms⟩ := List.forall_mem_cons.1 hself
    rw [mergeNodes]
    exact List.forall_mem_cons.2 ⟨(hm nodes).mergeNodes ms, ih hms _⟩

/-- A content absorbs what was merged into it. -/
theorem absorbs_mergeNode (nodes : List Node) (n : Node) : Absorbs (mergeNode nodes n) n := by
  induction n using Node.induction generalizing nodes with
  | text value => exact .text _ value
  | element name attributes children ih =>
    have hstep := mergeNode_step nodes (.element name attributes children)
    generalize mergeNode nodes (.element name attributes children) = nodes' at hstep
    cases hstep with
    | present h => exact .present h
    | added => exact .present List.mem_concat_self
    | @within _ _ attrs _ inner front back _ hkey hsame hfront =>
      have hat (inside : List Node) : (Node.element name attrs inside).standsAt (name, keyOf attributes) :=
        Node.standsAt_element.2 (by rw [hsame])
      refine .within attrs hkey ?_ (absorbs_mergeNodes_of ih inner)
      rw [find?_standsAt_change hfront (hat inner) (hat _), if_pos rfl]

theorem absorbs_mergeNodes (nodes ms : List Node) : ∀ m ∈ ms, Absorbs (mergeNodes nodes ms) m :=
  absorbs_mergeNodes_of (fun m _ nodes => absorbs_mergeNode nodes m) nodes

/-! ## Trees and documents -/

namespace Element

variable {a b : Element}

theorem merge_eq_self (h : ∀ n ∈ b.children, Absorbs a.children n) : a.merge b = a := by
  have hchildren : mergeNodes a.children b.children = a.children :=
    mergeNodes_eq_self fun n hn => (h n hn).mergeNode_eq
  rw [merge, hchildren]

theorem absorbs_merge (a b : Element) : ∀ n ∈ b.children, Absorbs (a.merge b).children n :=
  absorbs_mergeNodes a.children b.children

/-- What a tree and others were merged to absorbs each of them. -/
theorem foldl_merge_part (a : Element) (parts : List Element) :
    ∀ part ∈ a :: parts, (parts.foldl merge a).merge part = parts.foldl merge a := by
  intro part hpart
  apply merge_eq_self
  intro n hn
  rw [children_foldl_merge]
  rcases List.mem_cons.1 hpart with rfl | hpart
  · exact (Absorbs.present hn).mergeNodes _
  · exact absorbs_mergeNodes _ _ n (List.mem_flatMap.2 ⟨part, hpart, hn⟩)

end Element

/-- A document that was merged already may be merged again. -/
theorem mergeLinkerDocuments_again {documents : List Bytes} {document : Bytes}
    (hdocument : document ∈ documents) :
    mergeLinkerDocuments (documents ++ [document]) = mergeLinkerDocuments documents := by
  cases documents with
  | nil => exact nomatch hdocument
  | cons first rest =>
    rw [List.cons_append, mergeLinkerDocuments_cons, mergeLinkerDocuments_cons, List.mapM_append]
    cases hfirst : parse first with
    | error fault => rfl
    | ok root =>
      cases hrest : rest.mapM parse with
      | error fault => rfl
      | ok roots =>
        have hall : (first :: rest).mapM parse = .ok (root :: roots) := by
          rw [List.mapM_cons, hfirst, hrest]
          rfl
        obtain ⟨part, hmem, hpart⟩ := exists_mem_of_mapM_eq_ok hall hdocument
        have hsame := Element.foldl_merge_part root roots part hmem
        simp only [List.mapM_cons, List.mapM_nil, hpart, bind, Except.bind, pure, Except.pure,
          List.foldl_append, List.foldl_cons, List.foldl_nil, hsame]

/-- A document that was merged already may be merged into the written result again, where that is read
back as it was written. -/
theorem mergeLinkerDocuments_written {documents : List Bytes} {root : Element} {roots : List Element}
    (hread : documents.mapM parse = .ok (root :: roots))
    (hback : parse (write (roots.foldl Element.merge root)) = .ok (roots.foldl Element.merge root))
    {document : Bytes} (hdocument : document ∈ documents) :
    mergeLinkerDocuments [write (roots.foldl Element.merge root), document] =
      mergeLinkerDocuments documents := by
  obtain ⟨part, hmem, hpart⟩ := exists_mem_of_mapM_eq_ok hread hdocument
  have hboth : [write (roots.foldl Element.merge root), document].mapM parse =
      .ok [roots.foldl Element.merge root, part] := by
    rw [List.mapM_cons, List.mapM_cons, List.mapM_nil, hback, hpart]
    rfl
  rw [mergeLinkerDocuments_eq_ok hboth, mergeLinkerDocuments_eq_ok hread, List.foldl_cons, List.foldl_nil,
    Element.foldl_merge_part root roots part hmem]

/-! ## The law -/

/-- A merge absorbs what it merged. What was merged in, the tree itself, and every part of a merge of
several trees or documents change nothing when they are merged again; and a merge keeps the root's name
and attributes, its texts, and its elements with their order and attributes. What was merged and written
absorbs its parts too where it is read back as it was written. -/
theorem Element.merge_absorbs (a b : Element) (parts : List Element) (documents : List Bytes) :
    (a.merge b).merge b = a.merge b ∧ a.merge a = a ∧
      ((a.merge b).name = a.name ∧ (a.merge b).attributes = a.attributes ∧
        Kept a.children (a.merge b).children ∧
        (a.merge b).children.filterMap Node.text? = a.children.filterMap Node.text?) ∧
      (∀ part ∈ a :: parts, (parts.foldl merge a).merge part = parts.foldl merge a) ∧
      (∀ document ∈ documents,
        mergeLinkerDocuments (documents ++ [document]) = mergeLinkerDocuments documents) ∧
      ∀ root roots, documents.mapM parse = .ok (root :: roots) →
        parse (write (roots.foldl merge root)) = .ok (roots.foldl merge root) →
        ∀ document ∈ documents, mergeLinkerDocuments [write (roots.foldl merge root), document] =
          mergeLinkerDocuments documents := by
  have hkept : Kept a.children (a.merge b).children := Kept.mergeNodes a.children b.children
  refine ⟨merge_eq_self (absorbs_merge a b), ?_, ⟨rfl, rfl, hkept, hkept.texts_eq⟩,
    foldl_merge_part a parts, ?_, ?_⟩
  · apply merge_eq_self
    intro n hn
    exact .present hn
  · intro document hdocument
    exact mergeLinkerDocuments_again hdocument
  · intro root roots hread hback document hdocument
    exact mergeLinkerDocuments_written hread hback hdocument

/-- Two documents about one assembly: the second is merged into the written result of both. -/
theorem Element.merge_absorbs_second :
    let assembly (inner : String) : Element :=
      ⟨"l", [], [.element "a" [("name", "x")] [.element inner [] []]]⟩
    let first := Utf8.encode "<l><a name=\"x\"><b/></a></l>"
    let second := Utf8.encode "<l><a name=\"x\"><c/></a></l>"
    let both := (assembly "b").merge (assembly "c")
    parse first = .ok (assembly "b") ∧ parse second = .ok (assembly "c") ∧ parse (write both) = .ok both ∧
      both.merge (assembly "c") = both ∧ both ≠ assembly "b" ∧
      mergeLinkerDocuments [first, second, second] = mergeLinkerDocuments [first, second] ∧
      mergeLinkerDocuments [write both, second] = mergeLinkerDocuments [first, second] := by
  intro assembly first second both
  have hfirst : parse first = .ok (assembly "b") := by decide +kernel
  have hsecond : parse second = .ok (assembly "c") := by decide +kernel
  have hback : parse (write both) = .ok both := by decide +kernel
  have hread : [first, second].mapM parse = .ok [assembly "b", assembly "c"] := by
    rw [List.mapM_cons, List.mapM_cons, List.mapM_nil, hfirst, hsecond]
    rfl
  have hmem : second ∈ [first, second] := List.mem_cons_of_mem _ (List.mem_singleton.2 rfl)
  obtain ⟨hagain, -, -, -, hdocuments, hwritten⟩ :=
    Element.merge_absorbs (assembly "b") (assembly "c") [] [first, second]
  exact ⟨hfirst, hsecond, hback, hagain, by decide, hdocuments second hmem,
    hwritten _ _ hread hback second hmem⟩

/-- Two texts with a comment between them are written as one text, which is read as one. An element with such
texts is then not the one that was written, and is put beside it when its document is merged again. -/
theorem Element.merge_repeats_split_text :
    let start := "<?xml version=\"1.0\" encoding=\"utf-8\"?>\n<l>\n  <a name=\"x\">\n"
    let inner := "    <b>AB</b>\n"
    let rest := "  </a>\n  <c/>\n</l>\n"
    let first := Utf8.encode "<l><a name=\"x\"><b>A<!-- c -->B</b></a></l>"
    let second := Utf8.encode "<l><c/></l>"
    let both := Utf8.encode (start ++ inner ++ rest)
    mergeLinkerDocuments [first, second] = .ok both ∧
      mergeLinkerDocuments [both, first] = .ok (Utf8.encode (start ++ inner ++ inner ++ rest)) ∧
      mergeLinkerDocuments [both, first] ≠ .ok both := by
  intro start inner rest first second both
  have hagain : mergeLinkerDocuments [both, first] = .ok (Utf8.encode (start ++ inner ++ inner ++ rest)) := by
    decide +kernel
  refine ⟨by decide +kernel, hagain, ?_⟩
  rw [hagain]
  decide +kernel

end ModuleLinker.Xml
