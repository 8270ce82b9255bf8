import Mathlib.Data.List.Forall2
import ModuleLinker.Module.Builder
import ModuleLinker.Proofs.Member
import ModuleLinker.Proofs.Token

namespace ModuleLinker

/-! # Types that are declared

Whether a type can be declared depends on the rows that it needs, and on nothing else: it takes one row for
itself and one for each of its members, then those of the types nested in it, and it fails where one of these
rows is refused. What is declared is what was described, with the tokens of these rows.
-/

/-! ## Taking rows -/

namespace Allocating

/-- Takes a row of each of the tables in turn. -/
def rows (tables : List UInt8) : Allocating (List Token) := tables.mapM fresh

/-- A row of the first table comes first. -/
theorem rows_cons (table : UInt8) (tables : List UInt8) :
    rows (table :: tables) = do return (← fresh table) :: (← rows tables) :=
  List.mapM_cons

/-- Rows are taken in two parts. -/
theorem rows_append (tables more : List UInt8) :
    rows (tables ++ more) = do return (← rows tables) ++ (← rows more) :=
  List.mapM_append

/-- Run from any state, the computation does what taking a row of each of the tables does: it fails with the
same fault where one of them is refused, and otherwise answers something that goes with their tokens. -/
def Allocates (x : Allocating α) (tables : List UInt8) (post : α → List Token → Prop) : Prop :=
  ∀ a, match (rows tables).run.run a with
    | (.ok tokens, a') => ∃ value, x.run.run a = (.ok value, a') ∧ post value tokens
    | (.error fault, a') => x.run.run a = (.error fault, a')

namespace Allocates

variable {x : Allocating α} {f : α → Allocating β} {tables more : List UInt8} {post post' : α → List Token → Prop}
  {post₂ : β → List Token → Prop} {a a' : Allocator}

theorem of_ok (h : Allocates x tables post) {tokens : List Token}
    (hrows : (rows tables).run.run a = (.ok tokens, a')) :
    ∃ value, x.run.run a = (.ok value, a') ∧ post value tokens := by
  have ha := h a
  rwa [hrows] at ha

theorem of_error (h : Allocates x tables post) {fault : Fault}
    (hrows : (rows tables).run.run a = (.error fault, a')) : x.run.run a = (.error fault, a') := by
  have ha := h a
  rwa [hrows] at ha

theorem mono (h : Allocates x tables post) (himp : ∀ value tokens, post value tokens → post' value tokens) :
    Allocates x tables post' := by
  intro a
  rcases hrows : (rows tables).run.run a with ⟨fault | tokens, a'⟩
  · exact h.of_error hrows
  · obtain ⟨value, hrun, hpost⟩ := h.of_ok hrows
    exact ⟨value, hrun, himp _ _ hpost⟩

theorem pure {value : α} (h : post value []) : Allocates (Pure.pure value) [] post :=
  fun _ => ⟨value, rfl, h⟩

theorem bind (hx : Allocates x tables post)
    (hf : ∀ value tokens, post value tokens → Allocates (f value) more fun y others => post₂ y (tokens ++ others)) :
    Allocates (x >>= f) (tables ++ more) post₂ := by
  intro a
  rw [rows_append, run_bind, run_bind]
  rcases hrows : (rows tables).run.run a with ⟨fault | tokens, a₁⟩
  · -- after a refusal nothing more is taken
    rw [hx.of_error hrows]
  · obtain ⟨value, hrun, hpost⟩ := hx.of_ok hrows
    rw [hrun]
    dsimp only
    rw [run_bind]
    rcases hmore : (rows more).run.run a₁ with ⟨fault | others, a₂⟩
    · exact (hf value tokens hpost).of_error hmore
    · exact (hf value tokens hpost).of_ok hmore

theorem map {f : α → β} (hx : Allocates x tables post)
    (hf : ∀ value tokens, post value tokens → post₂ (f value) tokens) :
    Allocates (do return f (← x)) tables post₂ := by
  rw [← List.append_nil tables]
  refine hx.bind fun value tokens hpost => .pure ?_
  rw [List.append_nil]
  exact hf value tokens hpost

theorem fresh (table : UInt8) : Allocates (Allocating.fresh table) [table]
    fun t tokens => t.table = table ∧ tokens = [t] := by
  intro a
  rw [rows_cons, run_bind]
  rcases hnext : (Allocating.fresh table).run.run a with ⟨fault | t, a'⟩
  · rfl
  · obtain ⟨-, rfl, -⟩ := Allocator.next_eq_ok hnext
    exact ⟨_, rfl, Token.table_ofRow table _, rfl⟩

/-- Each of several things is made of a row of its own. -/
theorem mapM {make : σ → Token → α} (token : α → Token) (r : σ → α → Prop) (table : UInt8)
    (hmake : ∀ s t, token (make s t) = t ∧ r s (make s t)) (ss : List σ) :
    Allocates (ss.mapM fun s => do return make s (← Allocating.fresh table)) (ss.map fun _ => table)
      fun ys tokens => tokens = ys.map token ∧ (∀ y ∈ ys, (token y).table = table) ∧ List.Forall₂ r ss ys := by
  induction ss with
  | nil => exact .pure ⟨rfl, nofun, .nil⟩
  | cons s ss ih =>
    have hfirst : Allocates (do return make s (← Allocating.fresh table)) [table] fun y tokens =>
        tokens = [token y] ∧ (token y).table = table ∧ r s y := by
      refine (fresh table).map ?_
      rintro t _ ⟨ht, rfl⟩
      obtain ⟨htoken, hr⟩ := hmake s t
      exact ⟨by rw [htoken], by rw [htoken, ht], hr⟩
    rw [List.mapM_cons, List.map_cons, ← List.singleton_append]
    refine hfirst.bind ?_
    rintro y _ ⟨rfl, hy, hr⟩
    refine ih.map ?_
    rintro ys _ ⟨rfl, hys, hrs⟩
    exact ⟨rfl, List.forall_mem_cons.2 ⟨hy, hys⟩, .cons hr hrs⟩

end Allocates

end Allocating

namespace Allocator

/-- Rows that are taken follow those that were handed out of their tables before. -/
theorem HandedOut.rows {a a' : Allocator} {table : UInt8} {before tokens : List Token} {tables : List UInt8}
    (h : a.HandedOut table before) (hrows : (Allocating.rows tables).run.run a = (.ok tokens, a')) :
    a'.HandedOut table (before ++ tokens.filter (·.table == table)) := by
  induction tables generalizing a before tokens with
  | nil =>
    obtain ⟨hok, rfl⟩ := Prod.mk.inj hrows
    obtain rfl : [] = tokens := Except.ok.inj hok
    rwa [List.filter_nil, List.append_nil]
  | cons first rest ih =>
    rw [Allocating.rows_cons] at hrows
    obtain ⟨t, a₁, hnext, hrest⟩ := run_bind_eq_ok hrows
    obtain ⟨others, a₂, hothers, hpure⟩ := run_bind_eq_ok hrest
    obtain ⟨hok, rfl⟩ := Prod.mk.inj hpure
    obtain rfl := Except.ok.inj hok
    have hfirst : t.table = first := by
      obtain ⟨-, rfl, -⟩ := next_eq_ok hnext
      exact Token.table_ofRow first _
    rw [List.filter_cons]
    by_cases htable : table = first
    · subst htable
      have hnew := ih (h.next hnext) hothers
      rwa [if_pos (beq_iff_eq.2 hfirst), ← List.singleton_append, ← List.append_assoc]
    · rw [if_neg (by simpa [hfirst] using Ne.symm htable)]
      exact ih (h.next_other htable hnext) hothers

end Allocator

/-! ## What a description says -/

/-- The first method of a name. -/
def FirstNamed (methods : List Method) (name : String) (x : Method) : Prop :=
  ∃ before after, methods = before ++ x :: after ∧ x.name = name ∧ ∀ y ∈ before, y.name ≠ name

/-- An accessor that is given by a name is the first method of this name. There is none if no name is given, or
no method has it. -/
inductive NamedBy (methods : List Method) : Option String → Option Token → Prop where
  | unnamed : NamedBy methods none none
  | first {name : String} {x : Method} (h : FirstNamed methods name x) : NamedBy methods (some name) (some x.token)
  | missing {name : String} (h : ∀ x ∈ methods, x.name ≠ name) : NamedBy methods (some name) none

namespace FieldSpec

/-- The field is what the description says. -/
def Declares (s : FieldSpec) (x : Field) : Prop :=
  x = ⟨x.token, s.name, s.flags, s.signature, []⟩

end FieldSpec

namespace MethodSpec

/-- The method is what the description says. -/
def Declares (s : MethodSpec) (x : Method) : Prop :=
  x = ⟨x.token, s.name, s.flags, s.signature, s.body, s.attributes⟩

end MethodSpec

namespace PropertySpec

/-- The property is what the description says, its accessors among the methods of its type. -/
def Declares (methods : List Method) (s : PropertySpec) (x : Property) : Prop :=
  x = ⟨x.token, s.name, s.signature, x.getter, x.setter, []⟩ ∧
    NamedBy methods s.getter x.getter ∧ NamedBy methods s.setter x.setter

end PropertySpec

namespace EventSpec

/-- The event is what the description says, its accessors among the methods of its type. -/
def Declares (methods : List Method) (s : EventSpec) (x : Event) : Prop :=
  x = ⟨x.token, s.name, s.eventType, x.add, x.remove, []⟩ ∧
    NamedBy methods s.add x.add ∧ NamedBy methods s.remove x.remove

end EventSpec

namespace TypeSpec

/-- The type is what the description says, and so are its members and the types nested in it, in the order in
which they are described. -/
inductive Declares : TypeSpec → TypeDef → Prop where
  | intro {s : TypeSpec} {t : TypeDef} (namespaceName : t.namespaceName = s.namespaceName) (name : t.name = s.name)
      (flags : t.flags = s.flags) (base : t.base = s.base) (interfaces : t.interfaces = s.interfaces)
      (genericParams : t.genericParams = s.genericParams) (attributes : t.attributes = s.attributes)
      (fields : List.Forall₂ FieldSpec.Declares s.fields t.fields)
      (methods : List.Forall₂ MethodSpec.Declares s.methods t.methods)
      (properties : List.Forall₂ (PropertySpec.Declares t.methods) s.properties t.properties)
      (events : List.Forall₂ (EventSpec.Declares t.methods) s.events t.events)
      (nested : List.Forall₂ Declares s.nested t.nested) : Declares s t

mutual

/-- The tables of the rows that a type takes: its own, those of its members, and those of what is nested in it. -/
def tables : TypeSpec → List UInt8
  | ⟨_, _, _, _, _, _, fields, methods, properties, events, nested, _⟩ =>
    Table.typeDef :: (fields.map (fun _ => Table.field) ++ (methods.map (fun _ => Table.method) ++
      (properties.map (fun _ => Table.property) ++ (events.map (fun _ => Table.event) ++ tablesAll nested))))

/-- The tables of the rows that several types take. -/
def tablesAll : List TypeSpec → List UInt8
  | [] => []
  | s :: rest => s.tables ++ tablesAll rest

end

/-- What is found by a name is what is named by it. -/
theorem namedBy_accessor? (methods : List Method) (name : Option String) :
    NamedBy methods name (accessor? methods name) := by
  rcases name with _ | name
  · exact .unnamed
  · have haccessor : accessor? methods (some name) = (methods.find? (·.name == name)).map Method.token :=
      Option.map_eq_bind.symm
    rcases hfind : methods.find? (·.name == name) with _ | x
    · rw [haccessor, hfind]
      exact .missing fun x hx => by simpa using List.find?_eq_none.1 hfind x hx
    · rw [haccessor, hfind]
      obtain ⟨hname, before, after, rfl, hbefore⟩ := List.find?_eq_some_iff_append.1 hfind
      exact .first ⟨before, after, rfl, by simpa using hname, fun y hy => by simpa using hbefore y hy⟩

end TypeSpec

/-! ## Declaring types -/

namespace TypeDef

/-- The tokens of a type and of its members are in the tables of their kinds. -/
structure Tabled (t : TypeDef) : Prop where
  token : t.token.table = Table.typeDef
  members : ∀ x ∈ t.members, x.token.table = x.table

end TypeDef

namespace TypeSpec

open Allocating

mutual

/-- A type that is declared is what its description says, and has the tokens that were taken for it. -/
theorem build_allocates (s : TypeSpec) : Allocates s.build s.tables fun t tokens =>
    tokens = t.within.flatMap TypeDef.definedTokens ∧ (∀ u ∈ t.within, u.Tabled) ∧ s.Declares t := by
  rcases s with ⟨namespaceName, name, flags, base, interfaces, genericParams, fields, methods, properties,
    events, nested, attributes⟩
  unfold build tables
  rw [← List.singleton_append]
  refine (Allocates.fresh Table.typeDef).bind ?_
  rintro token _ ⟨htoken, rfl⟩
  refine (Allocates.mapM Field.token FieldSpec.Declares Table.field ?_ fields).bind ?_
  · exact fun _ _ => ⟨rfl, rfl⟩
  rintro fields' _ ⟨rfl, hfields, hdeclaresFields⟩
  refine (Allocates.mapM Method.token MethodSpec.Declares Table.method ?_ methods).bind ?_
  · exact fun _ _ => ⟨rfl, rfl⟩
  rintro methods' _ ⟨rfl, hmethods, hdeclaresMethods⟩
  refine (Allocates.mapM Property.token (PropertySpec.Declares methods') Table.property ?_
    properties).bind ?_
  · exact fun _ _ => ⟨rfl, rfl, namedBy_accessor? _ _, namedBy_accessor? _ _⟩
  rintro properties' _ ⟨rfl, hproperties, hdeclaresProperties⟩
  refine (Allocates.mapM Event.token (EventSpec.Declares methods') Table.event ?_ events).bind ?_
  · exact fun _ _ => ⟨rfl, rfl, namedBy_accessor? _ _, namedBy_accessor? _ _⟩
  rintro events' _ ⟨rfl, hevents, hdeclaresEvents⟩
  refine (buildAll_allocates nested).map ?_
  rintro nested' _ ⟨rfl, hnested, hdeclaresNested⟩
  refine ⟨?_, ?_, .intro rfl rfl rfl rfl rfl rfl rfl hdeclaresFields hdeclaresMethods hdeclaresProperties
    hdeclaresEvents hdeclaresNested⟩
  · rw [TypeDef.within, List.flatMap_cons]
    simp [TypeDef.definedTokens]
  · rw [TypeDef.within, List.forall_mem_cons]
    refine ⟨⟨htoken, ?_⟩, hnested⟩
    simp only [TypeDef.members, List.forall_mem_append, List.forall_mem_map]
    exact ⟨⟨⟨hfields, hmethods⟩, hproperties⟩, hevents⟩

/-- The same for several types, one after another. -/
theorem buildAll_allocates (ss : List TypeSpec) : Allocates (buildAll ss) (tablesAll ss) fun ts tokens =>
    tokens = (TypeDef.withinAll ts).flatMap TypeDef.definedTokens ∧ (∀ u ∈ TypeDef.withinAll ts, u.Tabled) ∧
      List.Forall₂ Declares ss ts := by
  rcases ss with _ | ⟨s, ss⟩
  · exact .pure ⟨rfl, nofun, .nil⟩
  unfold buildAll tablesAll
  refine (build_allocates s).bind ?_
  rintro t _ ⟨rfl, htabled, hdeclares⟩
  refine (buildAll_allocates ss).map ?_
  rintro ts _ ⟨rfl, htabledAll, hdeclaresAll⟩
  refine ⟨?_, ?_, .cons hdeclares hdeclaresAll⟩
  · rw [TypeDef.withinAll, List.flatMap_append]
  · rw [TypeDef.withinAll]
    exact List.forall_mem_append.2 ⟨htabled, htabledAll⟩

end

end TypeSpec

end ModuleLinker
