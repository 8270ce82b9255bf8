import Mathlib.Data.List.Pairwise
import ModuleLinker.Proofs.Xml.Merging

namespace ModuleLinker.Xml

/-! # Directives of merged documents

An element of a document stands at the end of a path: the places of the elements around it, from the
outside in, and its own place, each a name and a key. A merge loses no path, and an element whose path
has a place without a key keeps its attributes too. Where all places have keys, a later element only
brings what it has inside: the attributes are those of the element that was there before. So what a
merge has at such a path is what the first document with that path has there, as long as no document
repeats a place.
-/

/-! ## Paths -/

/-- Whether an element with these attributes stands in a content at the end of a path. -/
inductive Stands : List Node → List (String × List Pair) → List Pair → Prop where
  | here {nodes children : List Node} {name : String} {attributes : List Pair}
    (h : .element name attributes children ∈ nodes) :
    Stands nodes [(name, keyOf attributes)] attributes
  | inside {nodes children : List Node} {path : List (String × List Pair)} {name : String}
    {attributes own : List Pair} (h : .element name attributes children ∈ nodes)
    (hinner : Stands children path own) : Stands nodes ((name, keyOf attributes) :: path) own

/-- Whether every place of a path has a key. -/
def Keyed (path : List (String × List Pair)) : Prop := ∀ place ∈ path, place.2 ≠ []

instance : DecidablePred Keyed := fun path => inferInstanceAs (Decidable (∀ place ∈ path, place.2 ≠ []))

theorem keyed_cons {place : String × List Pair} {path : List (String × List Pair)} :
    Keyed (place :: path) ↔ place.2 ≠ [] ∧ Keyed path := List.forall_mem_cons

/-- Whether some element at the end of a path has all of these attributes. -/
def Carries (nodes : List Node) (path : List (String × List Pair)) (attributes : List Pair) : Prop :=
  ∃ own, Stands nodes path own ∧ attributes ⊆ own

section

variable {nodes nodes' : List Node} {path : List (String × List Pair)} {own : List Pair}

theorem Stands.mono (h : Stands nodes path own) (hsub : nodes ⊆ nodes') : Stands nodes' path own := by
  cases h with
  | here h => exact .here (hsub h)
  | inside h hinner => exact .inside (hsub h) hinner

theorem Stands.of_mem {n : Node} (hn : n ∈ nodes) (h : Stands [n] path own) : Stands nodes path own := by
  apply h.mono
  intro m hm
  rwa [List.mem_singleton.1 hm]

theorem Stands.exists_mem (h : Stands nodes path own) : ∃ n ∈ nodes, Stands [n] path own := by
  cases h with
  | here h => exact ⟨_, h, .here (List.mem_singleton.2 rfl)⟩
  | inside h hinner => exact ⟨_, h, .inside (List.mem_singleton.2 rfl) hinner⟩

theorem stands_append :
    Stands (nodes ++ nodes') path own ↔ Stands nodes path own ∨ Stands nodes' path own := by
  constructor
  · intro h
    obtain ⟨n, hn, h⟩ := h.exists_mem
    rcases List.mem_append.1 hn with hn | hn
    · exact .inl (.of_mem hn h)
    · exact .inr (.of_mem hn h)
  · rintro (h | h)
    · exact h.mono (List.subset_append_left _ _)
    · exact h.mono (List.subset_append_right _ _)

theorem stands_cons {n : Node} :
    Stands (n :: nodes) path own ↔ Stands [n] path own ∨ Stands nodes path own := by
  show Stands ([n] ++ nodes) path own ↔ _
  exact stands_append

theorem stands_flatMap {trees : List Element} :
    Stands (trees.flatMap Element.children) path own ↔ ∃ tree ∈ trees, Stands tree.children path own := by
  constructor
  · intro h
    obtain ⟨n, hn, h⟩ := h.exists_mem
    obtain ⟨tree, htree, hn⟩ := List.mem_flatMap.1 hn
    exact ⟨tree, htree, .of_mem hn h⟩
  · rintro ⟨tree, htree, h⟩
    refine h.mono ?_
    intro n hn
    exact List.mem_flatMap.2 ⟨tree, htree, hn⟩

/-- What stands in a content stands there after a merge. -/
theorem Stands.kept (h : Stands nodes path own) (hkept : Kept nodes nodes') : Stands nodes' path own := by
  induction h generalizing nodes' with
  | here h =>
    obtain ⟨_, hmem, _⟩ := hkept.exists_mem h
    exact .here hmem
  | inside h _ ih =>
    obtain ⟨_, hmem, hinner⟩ := hkept.exists_mem h
    exact .inside hmem (ih hinner)

end

/-! ## What stands after a merge -/

section

variable {nodes ms : List Node} {path : List (String × List Pair)} {own : List Pair}

theorem stands_of_mergeNodes_of
    (hstep : ∀ m ∈ ms, ∀ nodes path own, Stands (mergeNode nodes m) path own →
      Stands nodes path own ∨ Stands [m] path own)
    (h : Stands (mergeNodes nodes ms) path own) : Stands nodes path own ∨ Stands ms path own := by
  refine mergeNodes_keeps (p := fun inside => ∀ path own, Stands inside path own →
    Stands nodes path own ∨ Stands ms path own) ?_ (fun _ _ => .inl) path own h
  intro m hm inside hinside path own h
  rcases hstep m hm inside path own h with h | h
  · exact hinside path own h
  · exact .inr (.of_mem hm h)

/-- What stands in a merge stood in one of its parts. -/
theorem stands_of_mergeNode {n : Node} (h : Stands (mergeNode nodes n) path own) :
    Stands nodes path own ∨ Stands [n] path own := by
  induction n using Node.induction generalizing nodes path own with
  | text value =>
    rw [mergeNode] at h
    exact .inl h
  | element name attributes children ih =>
    have hstep := mergeNode_step nodes (.element name attributes children)
    generalize mergeNode nodes (.element name attributes children) = nodes' at hstep h
    cases hstep with
    | present => exact .inl h
    | added => exact stands_append.1 h
    | @within _ _ attrs _ inner front back hnodes hkey hsame =>
      subst hnodes
      rcases stands_append.1 h with h | h
      · exact .inl (stands_append.2 (.inl h))
      rcases stands_cons.1 h with h | h
      · have hmem : .element name attrs inner ∈ front ++ .element name attrs inner :: back :=
          List.mem_append_right _ List.mem_cons_self
        cases h with
        | here heq =>
          obtain ⟨rfl, rfl, -⟩ := Node.element.inj (List.mem_singleton.1 heq)
          exact .inl (.here hmem)
        | inside heq hinner =>
          obtain ⟨rfl, rfl, rfl⟩ := Node.element.inj (List.mem_singleton.1 heq)
          -- inside, the old element had it, or the new one has it under the same place
          rcases stands_of_mergeNodes_of (fun m hm _ _ _ => ih m hm) hinner with hinner | hinner
          · exact .inl (.inside hmem hinner)
          · rw [hsame]
            exact .inr (.inside (List.mem_singleton.2 rfl) hinner)
      · exact .inl (stands_append.2 (.inr (stands_cons.2 (.inr h))))

theorem stands_of_mergeNodes (h : Stands (mergeNodes nodes ms) path own) :
    Stands nodes path own ∨ Stands ms path own :=
  stands_of_mergeNodes_of (fun _ _ _ _ _ => stands_of_mergeNode) h

theorem exists_stands_mergeNodes_of (nodes : List Node)
    (hstep : ∀ m ∈ ms, ∀ nodes path own, Stands [m] path own →
      ∃ own', Stands (mergeNode nodes m) path own' ∧ (¬Keyed path → own' = own))
    (h : Stands ms path own) :
    ∃ own', Stands (mergeNodes nodes ms) path own' ∧ (¬Keyed path → own' = own) := by
  induction ms generalizing nodes with
  | nil =>
    obtain ⟨n, hn, -⟩ := h.exists_mem
    exact nomatch hn
  | cons m ms ih =>
    obtain ⟨hm, hms⟩ := List.forall_mem_cons.1 hstep
    rw [mergeNodes]
    rcases stands_cons.1 h with h | h
    · obtain ⟨own', hown', hsame⟩ := hm nodes path own h
      exact ⟨own', hown'.kept (Kept.mergeNodes _ _), hsame⟩
    · exact ih _ hms h

/-- A merge loses no path, and no attributes where a place of the path has no key. -/
theorem exists_stands_mergeNode {n : Node} (h : Stands [n] path own) :
    ∃ own', Stands (mergeNode nodes n) path own' ∧ (¬Keyed path → own' = own) := by
  induction n using Node.induction generalizing nodes path own with
  | text value =>
    cases h with
    | here h => exact nomatch List.mem_singleton.1 h
    | inside h => exact nomatch List.mem_singleton.1 h
  | element name attributes children ih =>
    have hstep := mergeNode_step nodes (.element name attributes children)
    generalize mergeNode nodes (.element name attributes children) = nodes' at hstep
    cases hstep with
    | present hmem => exact ⟨own, .of_mem hmem h, fun _ => rfl⟩
    | added => exact ⟨own, stands_append.2 (.inr h), fun _ => rfl⟩
    | @within _ _ attrs _ inner front back hnodes hkey hsame =>
      have hmem : .element name attrs (mergeNodes inner children) ∈
          front ++ .element name attrs (mergeNodes inner children) :: back :=
        List.mem_append_right _ List.mem_cons_self
      cases h with
      | here h =>
        obtain ⟨rfl, rfl, -⟩ := Node.element.inj (List.mem_singleton.1 h)
        refine ⟨attrs, hsame ▸ .here hmem, ?_⟩
        intro hnot
        -- the only place of the path is the element's own, which has a key
        exact absurd (keyed_cons.2 ⟨hkey, List.forall_mem_nil _⟩) hnot
      | inside h hinner =>
        obtain ⟨rfl, rfl, rfl⟩ := Node.element.inj (List.mem_singleton.1 h)
        obtain ⟨own', hown', hown⟩ := exists_stands_mergeNodes_of inner
          (fun m hm _ _ _ => ih m hm) hinner
        refine ⟨own', hsame ▸ .inside hmem hown', ?_⟩
        intro hnot
        apply hown
        intro hpath
        exact hnot (keyed_cons.2 ⟨hkey, hpath⟩)

theorem exists_stands_mergeNodes (nodes : List Node) (h : Stands ms path own) :
    ∃ own', Stands (mergeNodes nodes ms) path own' ∧ (¬Keyed path → own' = own) :=
  exists_stands_mergeNodes_of nodes (fun _ _ _ _ _ => exists_stands_mergeNode) h

end

/-! ## Documents that repeat no place -/

namespace Node

/-- The place of an element that has a key. -/
def keyedPlace? (n : Node) : Option (String × List Pair) := n.place?.filter fun place => !place.2.isEmpty

theorem keyedPlace?_eq_some_iff {n : Node} {place : String × List Pair} :
    n.keyedPlace? = some place ↔ n.standsAt place ∧ place.2 ≠ [] := by
  rw [keyedPlace?, Option.filter_eq_some_iff, standsAt_iff, Bool.not_eq_true', List.isEmpty_eq_false_iff]

end Node

/-- Whether no two elements that stand side by side, at whatever depth, have one name and one key. -/
inductive Separate : List Node → Prop where
  | of {nodes : List Node} (hplaces : (nodes.filterMap Node.keyedPlace?).Nodup)
    (hinner : ∀ name attributes children, .element name attributes children ∈ nodes → Separate children) :
    Separate nodes

namespace Separate

variable {nodes : List Node}

theorem nodup (h : Separate nodes) : (nodes.filterMap Node.keyedPlace?).Nodup := by
  cases h with
  | of hplaces => exact hplaces

theorem children {name : String} {attributes : List Pair} {children : List Node} (h : Separate nodes)
    (hmem : .element name attributes children ∈ nodes) : Separate children := by
  cases h with
  | of _ hinner => exact hinner name attributes children hmem

/-- Elements that are empty have only their own places. -/
theorem of_leaves (hplaces : (nodes.filterMap Node.keyedPlace?).Nodup)
    (hleaves : ∀ name attributes children, .element name attributes children ∈ nodes → children = []) :
    Separate nodes := by
  refine .of hplaces ?_
  intro name attributes children hmem
  rw [hleaves name attributes children hmem]
  exact .of List.nodup_nil nofun

theorem single {n : Node} (h : Separate nodes) (hn : n ∈ nodes) : Separate [n] := by
  refine .of ?_ ?_
  · exact h.nodup.sublist ((List.singleton_sublist.2 hn).filterMap _)
  · intro name attributes children hmem
    exact h.children (List.mem_singleton.1 hmem ▸ hn)

/-- Two elements with one place that has a key are one element. -/
theorem eq_of_place {m n : Node} {place : String × List Pair} (h : Separate nodes) (hm : m ∈ nodes)
    (hn : n ∈ nodes) (hplace : place.2 ≠ []) (hmat : m.standsAt place) (hnat : n.standsAt place) :
    m = n := by
  have hapart := List.pairwise_filterMap.1 h.nodup
  have hsymm : Std.Symm fun x y : Node =>
      ∀ a, x.keyedPlace? = some a → ∀ b, y.keyedPlace? = some b → a ≠ b :=
    ⟨fun x y hxy a ha b hb => (hxy b hb a ha).symm⟩
  by_contra hne
  exact hapart.forall hm hn hne place (Node.keyedPlace?_eq_some_iff.2 ⟨hmat, hplace⟩) place
    (Node.keyedPlace?_eq_some_iff.2 ⟨hnat, hplace⟩) rfl

/-- At a path of keys stand one element's attributes. -/
theorem attributes_eq {path : List (String × List Pair)} {own own' : List Pair} (h : Separate nodes)
    (hpath : Keyed path) (hown : Stands nodes path own) (hown' : Stands nodes path own') :
    own = own' := by
  induction hown generalizing own' with
  | @here nodes children name attributes hmem =>
    generalize hend : [(name, keyOf attributes)] = path at hown'
    cases hown' with
    | @here _ others other _ hmem' =>
      obtain ⟨rfl, hkey⟩ := Prod.mk.inj (List.singleton_inj.1 hend)
      have heq := h.eq_of_place hmem hmem' (hpath _ (List.mem_singleton.2 rfl))
        (Node.standsAt_element.2 rfl) (Node.standsAt_element.2 (by rw [hkey]))
      exact (Node.element.inj heq).2.1
    | inside _ hinner =>
      cases hinner <;> exact nomatch (List.cons.inj hend).2
  | @inside nodes children path name attributes own hmem hinner ih =>
    generalize hend : (name, keyOf attributes) :: path = path' at hown'
    cases hown' with
    | here =>
      cases hinner <;> exact nomatch (List.cons.inj hend).2
    | @inside _ others _ other attrs _ hmem' hinner' =>
      obtain ⟨hplace, rfl⟩ := List.cons.inj hend
      obtain ⟨rfl, hkey⟩ := Prod.mk.inj hplace
      have heq := h.eq_of_place hmem hmem' (keyed_cons.1 hpath).1
        (Node.standsAt_element.2 rfl) (Node.standsAt_element.2 (by rw [hkey]))
      obtain ⟨-, -, rfl⟩ := Node.element.inj heq
      exact ih (h.children hmem) (keyed_cons.1 hpath).2 hinner'

/-- A merge of what repeats no place repeats none. -/
theorem mergeNode {n : Node} (h : Separate nodes) (hn : Separate [n]) : Separate (mergeNode nodes n) := by
  induction n using Node.induction generalizing nodes with
  | text value => rwa [Xml.mergeNode]
  | element name attributes children ih =>
    have hstep := mergeNode_step nodes (.element name attributes children)
    generalize Xml.mergeNode nodes (.element name attributes children) = nodes' at hstep
    cases hstep with
    | present => exact h
    | added hfree =>
      refine .of ?_ ?_
      · rw [List.filterMap_append]
        refine List.nodup_append.2 ⟨h.nodup, hn.nodup, ?_⟩
        rintro place hplace _ hplace' rfl
        obtain ⟨m, hm, hmplace⟩ := List.mem_filterMap.1 hplace
        obtain ⟨m', hm', hmplace'⟩ := List.mem_filterMap.1 hplace'
        rw [List.mem_singleton.1 hm'] at hmplace'
        obtain ⟨hat, hkey⟩ := Node.keyedPlace?_eq_some_iff.1 hmplace'
        obtain rfl := Node.standsAt_element.1 hat
        exact hfree.resolve_left hkey m hm (Node.keyedPlace?_eq_some_iff.1 hmplace).1
      · intro other others inside hmem
        rcases List.mem_append.1 hmem with hmem | hmem
        · exact h.children hmem
        · exact hn.children hmem
    | @within _ _ attrs _ inner front back hnodes =>
      subst hnodes
      refine .of ?_ ?_
      · have hsame : (Node.element name attrs (mergeNodes inner children)).keyedPlace? =
            (Node.element name attrs inner).keyedPlace? := rfl
        have hnodup := h.nodup
        rw [List.filterMap_append, List.filterMap_cons] at hnodup ⊢
        rwa [hsame]
      · intro other others inside hmem
        rcases List.mem_append.1 hmem with hmem | hmem
        · exact h.children (List.mem_append_left _ hmem)
        rcases List.mem_cons.1 hmem with heq | hmem
        · obtain ⟨rfl, rfl, rfl⟩ := Node.element.inj heq
          have hinner : Separate inner := h.children (List.mem_append_right _ List.mem_cons_self)
          have hchildren : Separate children := hn.children (List.mem_singleton.2 rfl)
          exact mergeNodes_keeps (p := Separate)
            (fun m hm _ hinside => ih m hm hinside (hchildren.single hm)) hinner
        · exact h.children (List.mem_append_right _ (List.mem_cons_of_mem _ hmem))

theorem mergeNodes {ms : List Node} (h : Separate nodes) (hms : ∀ m ∈ ms, Separate [m]) :
    Separate (mergeNodes nodes ms) :=
  mergeNodes_keeps (fun m hm _ hnodes => hnodes.mergeNode (hms m hm)) h

end Separate

/-! ## Trees -/

namespace Element

variable {root : Element} {roots : List Element} {path : List (String × List Pair)} {own : List Pair}

theorem foldl_merge_root (root : Element) (roots : List Element) :
    (roots.foldl merge root).name = root.name ∧ (roots.foldl merge root).attributes = root.attributes := by
  induction roots generalizing root with
  | nil => exact ⟨rfl, rfl⟩
  | cons tree roots ih => exact ih (root.merge tree)

/-- What stands in the merge of several trees stands in one of them. -/
theorem exists_of_stands_foldl (h : Stands (roots.foldl merge root).children path own) :
    ∃ tree ∈ root :: roots, Stands tree.children path own := by
  rw [children_foldl_merge] at h
  rcases stands_of_mergeNodes h with h | h
  · exact ⟨root, List.mem_cons_self, h⟩
  · obtain ⟨tree, htree, h⟩ := stands_flatMap.1 h
    exact ⟨tree, List.mem_cons_of_mem _ htree, h⟩

theorem stands_foldl_root (h : Stands root.children path own) :
    Stands (roots.foldl merge root).children path own := by
  rw [children_foldl_merge]
  exact h.kept (Kept.mergeNodes _ _)

/-- Every path of every tree is one of the merge. -/
theorem exists_stands_foldl {tree : Element} (htree : tree ∈ root :: roots)
    (h : Stands tree.children path own) :
    ∃ own', Stands (roots.foldl merge root).children path own' ∧ (¬Keyed path → own' = own) := by
  rcases List.mem_cons.1 htree with rfl | htree
  · exact ⟨own, stands_foldl_root h, fun _ => rfl⟩
  · rw [children_foldl_merge]
    exact exists_stands_mergeNodes _ (stands_flatMap.2 ⟨tree, htree, h⟩)

/-- At a path of keys stand the attributes of the first tree that has the path. -/
theorem stands_foldl_first {front back : List Element} {first : Element}
    (htrees : root :: roots = front ++ first :: back) (hfirst : Separate first.children)
    (hfront : ∀ tree ∈ front, ∀ own', ¬Stands tree.children path own') (hpath : Keyed path)
    (h : Stands first.children path own) : Stands (roots.foldl merge root).children path own := by
  cases front with
  | nil =>
    obtain ⟨rfl, rfl⟩ := List.cons.inj htrees
    exact stands_foldl_root h
  | cons _ front =>
    rw [List.cons_append] at htrees
    obtain ⟨rfl, rfl⟩ := List.cons.inj htrees
    rw [List.foldl_append, List.foldl_cons]
    -- the trees before have nothing at the path, so what is there after this merge is of this tree
    apply stands_foldl_root
    obtain ⟨own', hown', -⟩ := exists_stands_mergeNodes (front.foldl merge root).children h
    rcases stands_of_mergeNodes hown' with hbefore | hnew
    · obtain ⟨tree, htree, hbefore⟩ := exists_of_stands_foldl hbefore
      exact absurd hbefore (hfront tree htree own')
    · rwa [hfirst.attributes_eq hpath h hnew]

theorem separate_foldl (h : ∀ tree ∈ root :: roots, Separate tree.children) :
    Separate (roots.foldl merge root).children := by
  rw [children_foldl_merge]
  apply (h root List.mem_cons_self).mergeNodes
  intro m hm
  obtain ⟨tree, htree, hm⟩ := List.mem_flatMap.1 hm
  exact (h tree (List.mem_cons_of_mem _ htree)).single hm

end Element

/-! ## Documents -/

/-- What becomes of the elements of merged documents. No path is lost, and no path and no attributes are
new. The attributes of the first document stay, and so do those of elements whose path has a place
without a key. Where all places have keys and no document repeats a place, an element's attributes are
carried if and only if they are among those of the first document that has the path. -/
theorem mergeLinkerDocuments_directives {documents : List Bytes} {root : Element} {roots : List Element}
    (hread : documents.mapM parse = .ok (root :: roots)) :
    ∃ merged : Element, mergeLinkerDocuments documents = .ok (write merged) ∧
      merged.name = root.name ∧ merged.attributes = root.attributes ∧
      (∀ path own, Stands merged.children path own →
        ∃ tree ∈ root :: roots, Stands tree.children path own) ∧
      ∀ tree ∈ root :: roots, ∀ path attributes, Stands tree.children path attributes →
        (∃ own, Stands merged.children path own) ∧
        (tree = root ∨ ¬Keyed path → Stands merged.children path attributes) ∧
        ((∀ t ∈ root :: roots, Separate t.children) → Keyed path →
          ∀ front first back own, root :: roots = front ++ first :: back →
            (∀ t ∈ front, ∀ own', ¬Stands t.children path own') → Stands first.children path own →
            (Carries merged.children path attributes ↔ attributes ⊆ own)) := by
  obtain ⟨hname, hattributes⟩ := Element.foldl_merge_root root roots
  refine ⟨roots.foldl Element.merge root, mergeLinkerDocuments_eq_ok hread, hname, hattributes,
    fun _ _ => Element.exists_of_stands_foldl, ?_⟩
  intro tree htree path attributes h
  obtain ⟨own, hown, hsame⟩ := Element.exists_stands_foldl htree h
  refine ⟨⟨own, hown⟩, ?_, ?_⟩
  · rintro (rfl | hnot)
    · exact Element.stands_foldl_root h
    · rwa [← hsame hnot]
  · intro hseparate hpath front first back own htrees hfront hfirst
    have hmem : first ∈ root :: roots := by
      rw [htrees]
      exact List.mem_append_right _ List.mem_cons_self
    have hown := Element.stands_foldl_first htrees (hseparate first hmem) hfront hpath hfirst
    constructor
    · rintro ⟨own', hown', hsub⟩
      rwa [(Element.separate_foldl hseparate).attributes_eq hpath hown hown']
    · intro hsub
      exact ⟨own, hown, hsub⟩

/-- A second document that says more about a type: the merge has the type as the first document has it,
and all of the element that the first one does not have. -/
theorem mergeLinkerDocuments_directives_type :
    let type (attributes : List Pair) : Node := .element "type" (("fullname", "N.T") :: attributes) []
    let first := Utf8.encode "<linker><type fullname=\"N.T\"/></linker>"
    let second := Utf8.encode "<linker><type fullname=\"N.T\" preserve=\"all\"/><a x=\"1\"/></linker>"
    let place := ("type", [("fullname", "N.T")])
    ∃ merged : Element, mergeLinkerDocuments [first, second] = .ok (write merged) ∧
      [first, second].mapM parse = .ok [⟨"linker", [], [type []]⟩,
        ⟨"linker", [], [type [("preserve", "all")], .element "a" [("x", "1")] []]⟩] ∧
      Stands merged.children [("a", [])] [("x", "1")] ∧
      Carries merged.children [place] [("fullname", "N.T")] ∧
      ¬Carries merged.children [place] [("fullname", "N.T"), ("preserve", "all")] := by
  intro type first second place
  have hread : [first, second].mapM parse = .ok [⟨"linker", [], [type []]⟩,
      ⟨"linker", [], [type [("preserve", "all")], .element "a" [("x", "1")] []]⟩] := by decide +kernel
  obtain ⟨merged, hmerged, -, -, -, hdirectives⟩ := mergeLinkerDocuments_directives hread
  have hseparate : ∀ t ∈ [(⟨"linker", [], [type []]⟩ : Element),
      ⟨"linker", [], [type [("preserve", "all")], .element "a" [("x", "1")] []]⟩], Separate t.children := by
    intro t ht
    rcases List.mem_pair.1 ht with rfl | rfl <;>
      exact .of_leaves (by decide) (by simp +contextual [type, or_imp])
  have hpath : Keyed [place] := by decide
  have hfirst : Stands [type []] [place] [("fullname", "N.T")] := .here List.mem_cons_self
  obtain ⟨-, hstays, -⟩ := hdirectives _ List.mem_cons_self _ _ hfirst
  obtain ⟨-, -, hexact⟩ := hdirectives _ (List.mem_cons_of_mem _ List.mem_cons_self) [place]
    [("fullname", "N.T"), ("preserve", "all")] (.here List.mem_cons_self)
  obtain ⟨-, hplain, -⟩ := hdirectives _ (List.mem_cons_of_mem _ List.mem_cons_self) [("a", [])]
    [("x", "1")] (.here (List.mem_cons_of_mem _ List.mem_cons_self))
  refine ⟨merged, hmerged, hread, hplain (.inr (by decide)), ?_, ?_⟩
  · exact ⟨_, hstays (.inl rfl), List.Subset.refl _⟩
  · rw [hexact hseparate hpath [] _ _ _ rfl nofun hfirst]
    decide

/-- The type of both documents has an attribute in the second one alone, which the merge has lost. -/
theorem mergeLinkerDocuments_loses_attribute :
    let type (attributes : List Pair) : Element :=
      ⟨"linker", [], [.element "type" (("fullname", "N.T") :: attributes) []]⟩
    let first := Utf8.encode "<linker><type fullname=\"N.T\"/></linker>"
    let second := Utf8.encode "<linker><type fullname=\"N.T\" preserve=\"all\"/></linker>"
    let place := ("type", [("fullname", "N.T")])
    parse first = .ok (type []) ∧ parse second = .ok (type [("preserve", "all")]) ∧
      Stands (type [("preserve", "all")]).children [place] [("fullname", "N.T"), ("preserve", "all")] ∧
      mergeLinkerDocuments [first, second] = .ok (write (type [])) ∧
      ¬Carries (type []).children [place] [("fullname", "N.T"), ("preserve", "all")] := by
  intro type first second place
  have hfirst : parse first = .ok (type []) := by decide +kernel
  have hsecond : parse second = .ok (type [("preserve", "all")]) := by decide +kernel
  have hread : [first, second].mapM parse = .ok [type [], type [("preserve", "all")]] := by
    rw [List.mapM_cons, List.mapM_cons, List.mapM_nil, hfirst, hsecond]
    rfl
  have hmerged : (type []).merge (type [("preserve", "all")]) = type [] := by decide
  refine ⟨hfirst, hsecond, .here List.mem_cons_self, ?_, ?_⟩
  · rw [mergeLinkerDocuments_eq_ok hread, List.foldl_cons, List.foldl_nil, hmerged]
  · rintro ⟨own, hown, hsub⟩
    have hseparate : Separate (type []).children := .of_leaves (by decide) (by simp [type])
    have heq := hseparate.attributes_eq (by decide) hown (.here List.mem_cons_self)
    rw [heq] at hsub
    exact absurd hsub (by decide)

end ModuleLinker.Xml
