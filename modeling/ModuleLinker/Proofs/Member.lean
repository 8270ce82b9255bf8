import ModuleLinker.Closure
import ModuleLinker.MemberKey
import ModuleLinker.Proofs.Renaming.Definition

namespace ModuleLinker

/-! # Members of any kind

The lists of members of a type are gone through in the same way, one after another. As one list of
members of any kind, they need one argument instead of four.
-/

/-- A member of a type. -/
inductive Member where
  | field (x : Field)
  | method (x : Method)
  | property (x : Property)
  | event (x : Event)
deriving DecidableEq, Repr

/-- The tables of types and of their members. -/
def Table.definitions : List UInt8 :=
  [Table.typeDef, Table.field, Table.method, Table.property, Table.event]

namespace Member

/-- The token that the member is known by. -/
def token : Member → Token
  | .field x => x.token
  | .method x => x.token
  | .property x => x.token
  | .event x => x.token

/-- The table that members of its kind belong to. -/
def table : Member → UInt8
  | .field _ => Table.field
  | .method _ => Table.method
  | .property _ => Table.property
  | .event _ => Table.event

/-- The key of the member inside its type. -/
def key (names : NameTable) : Member → MemberKey
  | .field x => .field x.name (names.describe x.signature)
  | .method x => .method x.name x.signature.hasThis (names.describeMethod x.signature)
  | .property x => .property x.name (names.describe x.signature)
  | .event x => .event x.name (names.name x.eventType)

/-- The tokens that the member refers to. -/
def tokens : Member → List Token
  | .field x => x.tokens
  | .method x => x.tokens
  | .property x => x.tokens
  | .event x => x.tokens

/-- The attributes of the member. -/
def attributes : Member → List Attribute
  | .field x => x.attributes
  | .method x => x.attributes
  | .property x => x.attributes
  | .event x => x.attributes

/-- The methods that stand behind the member: the getter and the setter of a property, and those that add
to an event and remove from it. -/
def accessors : Member → List (Option Token)
  | .field _ | .method _ => []
  | .property x => [x.getter, x.setter]
  | .event x => [x.add, x.remove]

/-- The member with its attributes changed. -/
def withAttributes (change : List Attribute → List Attribute) : Member → Member
  | .field x => .field { x with attributes := change x.attributes }
  | .method x => .method { x with attributes := change x.attributes }
  | .property x => .property { x with attributes := change x.attributes }
  | .event x => .event { x with attributes := change x.attributes }

/-- The member with each token replaced. -/
def rename (g : Token → Token) : Member → Member
  | .field x => .field (x.rename g)
  | .method x => .method (x.rename g)
  | .property x => .property (x.rename g)
  | .event x => .event (x.rename g)

theorem withAttributes_id (x : Member) : x.withAttributes id = x := by
  cases x <;> rfl

theorem token_withAttributes (change : List Attribute → List Attribute) (x : Member) :
    (x.withAttributes change).token = x.token := by
  cases x <;> rfl

theorem token_rename (g : Token → Token) (x : Member) : (x.rename g).token = g x.token := by
  cases x <;> rfl

theorem table_withAttributes (change : List Attribute → List Attribute) (x : Member) :
    (x.withAttributes change).table = x.table := by
  cases x <;> rfl

theorem table_rename (g : Token → Token) (x : Member) : (x.rename g).table = x.table := by
  cases x <;> rfl

theorem attributes_withAttributes (change : List Attribute → List Attribute) (x : Member) :
    (x.withAttributes change).attributes = change x.attributes := by
  cases x <;> rfl

theorem attributes_rename (g : Token → Token) (x : Member) :
    (x.rename g).attributes = x.attributes.map (Attribute.rename g) := by
  cases x <;> rfl

theorem accessors_withAttributes (change : List Attribute → List Attribute) (x : Member) :
    (x.withAttributes change).accessors = x.accessors := by
  cases x <;> rfl

theorem accessors_rename (g : Token → Token) (x : Member) :
    (x.rename g).accessors = x.accessors.map (Option.map g) := by
  cases x <;> rfl

theorem tokens_rename (g : Token → Token) (x : Member) : (x.rename g).tokens = x.tokens.map g := by
  cases x with
  | field x => exact x.tokens_rename g
  | method x => exact x.tokens_rename g
  | property x => exact x.tokens_rename g
  | event x => exact x.tokens_rename g

/-- Members of one key are of one kind. -/
theorem table_eq_of_key_eq {names names' : NameTable} {x y : Member}
    (h : x.key names = y.key names') : x.table = y.table := by
  cases x <;> cases y <;> first | rfl | exact nomatch h

/-- No member belongs to the table of types. -/
theorem table_ne_typeDef (x : Member) : x.table ≠ Table.typeDef := by
  unfold table
  split <;> decide

theorem table_mem_definitions (x : Member) : x.table ∈ Table.definitions := by
  cases x <;> simp [table, Table.definitions]

end Member

namespace TypeDef

/-- The members of the type. -/
def members (t : TypeDef) : List Member :=
  t.fields.map .field ++ t.methods.map .method ++ t.properties.map .property ++ t.events.map .event

theorem memberKeys_eq (names : NameTable) (t : TypeDef) :
    t.memberKeys names = t.members.map fun x => (x.key names, x.token) := by
  simp only [memberKeys, members, List.map_append, List.map_map]
  rfl

/-- What is found under a key is the token of the first member that has it. -/
theorem lookup_memberKeys (names : NameTable) (t : TypeDef) (key : MemberKey) :
    (t.memberKeys names).lookup key =
      (t.members.find? fun x => x.key names == key).map Member.token := by
  rw [memberKeys_eq]
  induction t.members with
  | nil => rfl
  | cons x xs ih =>
    rw [List.map_cons, List.lookup_cons, List.find?_cons, BEq.comm]
    split
    · rfl
    · exact ih

theorem definedTokens_eq (t : TypeDef) : t.definedTokens = t.token :: t.members.map Member.token := by
  simp only [definedTokens, members, List.map_append, List.map_map]
  rfl

theorem tokens_eq (t : TypeDef) :
    t.tokens = t.base.toList ++ t.interfaces ++ Attribute.tokensOf t.attributes ++
      t.members.flatMap Member.tokens := by
  simp only [tokens, members, List.flatMap_append, List.flatMap_map, List.append_assoc]
  rfl

/-! ## Types and what is nested in them -/

mutual

/-- The type and the types nested in it at any depth. -/
def within : TypeDef → List TypeDef
  | t@⟨_, _, _, _, _, _, _, _, _, _, _, nested, _⟩ => t :: withinAll nested

/-- The types and the types nested in them at any depth. -/
def withinAll : List TypeDef → List TypeDef
  | [] => []
  | t :: rest => t.within ++ withinAll rest

end

theorem withinAll_eq (ts : List TypeDef) : withinAll ts = ts.flatMap within := by
  induction ts with
  | nil => rfl
  | cons t ts ih => rw [withinAll, ih, List.flatMap_cons]

theorem within_eq (t : TypeDef) : t.within = t :: t.nested.flatMap within := by
  cases t
  rw [within, withinAll_eq]

theorem self_mem_within (t : TypeDef) : t ∈ t.within := by
  rw [within_eq]
  exact List.mem_cons_self

theorem forall_within_iff {p : TypeDef → Prop} {t : TypeDef} :
    (∀ u ∈ t.within, p u) ↔ p t ∧ ∀ v ∈ t.nested, ∀ u ∈ v.within, p u := by
  rw [within_eq, List.forall_mem_cons, List.forall_mem_flatMap]

mutual

theorem map_walkFrom (t : TypeDef) (fullName : String) :
    (walkFrom fullName t).map Prod.fst = t.within := by
  rcases t with ⟨_, _, _, _, _, _, _, _, _, _, _, nested, _⟩
  rw [walkFrom, within, List.map_cons, map_walkAll nested fullName]

theorem map_walkAll (ts : List TypeDef) (outer : String) :
    (walkAll outer ts).map Prod.fst = withinAll ts := by
  cases ts with
  | nil => rfl
  | cons t ts => rw [walkAll, withinAll, List.map_append, map_walkFrom t, map_walkAll ts]

end

/-! ## Methods of types -/

/-- The methods of types and of what is nested in them. -/
def methodsOf (ts : List TypeDef) : List Method := (withinAll ts).flatMap TypeDef.methods

theorem methodsOf_cons (t : TypeDef) (ts : List TypeDef) :
    methodsOf (t :: ts) = t.methods ++ methodsOf t.nested ++ methodsOf ts := by
  unfold methodsOf
  rw [withinAll, List.flatMap_append, within_eq, ← withinAll_eq, List.flatMap_cons]

section

variable {f g : Method → Method}

mutual

theorem mapMethods_mapMethods (t : TypeDef) :
    mapMethods f (mapMethods g t) = mapMethods (f ∘ g) t := by
  obtain ⟨_, _, _, _, _, _, _, _, _, _, _, nested, _⟩ := t
  rw [mapMethods, mapMethods, mapMethods, mapMethodsAll_mapMethodsAll nested, List.map_map]

theorem mapMethodsAll_mapMethodsAll (ts : List TypeDef) :
    mapMethodsAll f (mapMethodsAll g ts) = mapMethodsAll (f ∘ g) ts := by
  cases ts with
  | nil => rfl
  | cons t rest =>
    rw [mapMethodsAll, mapMethodsAll, mapMethodsAll, mapMethods_mapMethods t, mapMethodsAll_mapMethodsAll rest]

end

mutual

theorem mapMethods_congr (t : TypeDef) (h : ∀ x ∈ t.methods ++ methodsOf t.nested, f x = g x) :
    mapMethods f t = mapMethods g t := by
  obtain ⟨_, _, _, _, _, _, _, _, methods, _, _, nested, _⟩ := t
  obtain ⟨hmethods, hnested⟩ := List.forall_mem_append.1 h
  rw [mapMethods, mapMethods, mapMethodsAll_congr nested hnested, List.map_congr_left hmethods]

theorem mapMethodsAll_congr (ts : List TypeDef) (h : ∀ x ∈ methodsOf ts, f x = g x) :
    mapMethodsAll f ts = mapMethodsAll g ts := by
  cases ts with
  | nil => rfl
  | cons t rest =>
    rw [methodsOf_cons] at h
    obtain ⟨ht, hrest⟩ := List.forall_mem_append.1 h
    rw [mapMethodsAll, mapMethodsAll, mapMethods_congr t ht, mapMethodsAll_congr rest hrest]

end

mutual

theorem mapMethods_id (t : TypeDef) : mapMethods id t = t := by
  obtain ⟨_, _, _, _, _, _, _, _, _, _, _, nested, _⟩ := t
  rw [mapMethods, mapMethodsAll_id nested, List.map_id]

theorem mapMethodsAll_id (ts : List TypeDef) : mapMethodsAll id ts = ts := by
  cases ts with
  | nil => rfl
  | cons t rest => rw [mapMethodsAll, mapMethods_id t, mapMethodsAll_id rest]

end

theorem mapMethodsAll_eq_self {ts : List TypeDef} (h : ∀ x ∈ methodsOf ts, f x = x) :
    mapMethodsAll f ts = ts :=
  (mapMethodsAll_congr ts h).trans (mapMethodsAll_id ts)

mutual

theorem methodsOf_mapMethods (t : TypeDef) : (mapMethods f t).methods ++ methodsOf (mapMethods f t).nested =
    (t.methods ++ methodsOf t.nested).map f := by
  obtain ⟨_, _, _, _, _, _, _, _, methods, _, _, nested, _⟩ := t
  rw [mapMethods, methodsOf_mapMethodsAll nested, List.map_append]

theorem methodsOf_mapMethodsAll (ts : List TypeDef) :
    methodsOf (mapMethodsAll f ts) = (methodsOf ts).map f := by
  cases ts with
  | nil => rfl
  | cons t rest =>
    rw [mapMethodsAll, methodsOf_cons, methodsOf_cons, methodsOf_mapMethods t,
      methodsOf_mapMethodsAll rest, ← List.map_append]

end

end

end TypeDef

namespace Module

/-- All types of the module, nested ones too. -/
def allTypes (m : Module) : List TypeDef := m.types.flatMap TypeDef.within

theorem map_walk (m : Module) : m.walk.map Prod.fst = m.allTypes := by
  simp only [walk, allTypes, List.map_flatMap]
  exact List.flatMap_congr fun t _ => TypeDef.map_walkFrom t _

/-- The methods of all types of the module, nested ones too. -/
def methods (m : Module) : List Method := TypeDef.methodsOf m.types

theorem methods_eq (m : Module) : m.methods = m.allTypes.flatMap TypeDef.methods := by
  rw [methods, TypeDef.methodsOf, TypeDef.withinAll_eq]
  rfl

theorem definedTokens_eq (m : Module) :
    m.definedTokens = m.allTypes.flatMap TypeDef.definedTokens ++ m.typeRefs.map TypeRef.token ++
      m.memberRefs.map MemberRef.token := by
  rw [definedTokens, ← map_walk, List.flatMap_map]

/-- The table of a definition's token, of a member's and of a reference's is that of its kind, and no
two of them have the same token. -/
structure WellNumbered (m : Module) : Prop where
  nodup : m.definedTokens.Nodup
  types : ∀ t ∈ m.allTypes, t.token.table = Table.typeDef
  members : ∀ t ∈ m.allTypes, ∀ x ∈ t.members, x.token.table = x.table
  typeRefs : ∀ r ∈ m.typeRefs, r.token.table = Table.typeRef
  memberRefs : ∀ r ∈ m.memberRefs, r.token.table = Table.memberRef

instance (m : Module) : Decidable m.WellNumbered :=
  decidable_of_iff (m.definedTokens.Nodup ∧ (∀ t ∈ m.allTypes, t.token.table = Table.typeDef) ∧
      (∀ t ∈ m.allTypes, ∀ x ∈ t.members, x.token.table = x.table) ∧
      (∀ r ∈ m.typeRefs, r.token.table = Table.typeRef) ∧
      ∀ r ∈ m.memberRefs, r.token.table = Table.memberRef)
    ⟨fun ⟨a, b, c, d, e⟩ => ⟨a, b, c, d, e⟩, fun ⟨a, b, c, d, e⟩ => ⟨a, b, c, d, e⟩⟩

end Module

end ModuleLinker
