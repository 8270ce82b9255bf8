import ModuleLinker.Plan.Build
import ModuleLinker.Proofs.Relocation.Rewriting

namespace ModuleLinker

/-! # Where references to types lead in the output

A reference to a type of an input is replaced by the token of the type that holds it in the output. The
module is found by its name and the type inside of it, so that types of the same name in other inputs do
not matter, and neither does the name in the output. Other references become rows that say the same.
-/

/-- The input that a reference of a module leads to by the end of its chain: the one that has the name
there, or the module itself. An index without a referenced module leads back into the module. -/
inductive LeadsTo (set : ModuleSet) (source : Nat) (m : Module) : Option Nat → Nat → Prop
  | named {index input : Nat} {identity : Identity} (hidentity : m.references[index]? = some identity)
      (hinput : set.inputIndex? identity.name = some input) : LeadsTo set source m (some index) input
  | dangling {index : Nat} (hnone : m.references[index]? = none) :
      LeadsTo set source m (some index) source
  | here : LeadsTo set source m none source

namespace Relocation

open Shape ImportTables Importing

variable {l : Linkage} {set : ModuleSet} {plan : Plan} {policy : Policy}

theorem leadsTo_iff {source : Nat} {m : Module} (hm : l.set.inputs[source]? = some m) {root : Option Nat}
    {input : Nat} : LeadsTo l.set source m root input ↔
      inputOf? l source (root.bind (m.references[·]?)) = some input := by
  have hinput := ModuleSet.isInput_of_getElem? hm
  constructor
  · intro h
    cases h with
    | named hidentity hnamed => simpa [hidentity, inputOf?] using hnamed
    | dangling hnone => simp [hnone, inputOf?, hinput]
    | here => simp [inputOf?, hinput]
  · intro h
    rcases root with _ | index
    · obtain rfl : source = input := by simpa [inputOf?, hinput] using h
      exact .here
    · rcases hidentity : m.references[index]? with _ | identity
      · obtain rfl : source = input := by simpa [inputOf?, hinput, hidentity] using h
        exact .dangling hidentity
      · exact .named hidentity (by simpa [inputOf?, hidentity] using h)

/-- Under one replacement of tokens, each reference to a type that leads to an input becomes the token of
the type of the output that holds the first type of its full name there; each other one becomes a
reference of the output with its full name that leads to the same module. -/
theorem run_binds_typeRefs (hset : set.Identified) {log : Log} {out : Module}
    (h : ((run set plan policy).run.run log).1 = .ok out) :
    ∃ s, RewrittenUnder (.ofSet set policy) plan s out ∧
      ∀ source m, set.inputs[source]? = some m → ∀ row ∈ m.typeRefs,
        ∃ n root name, Chain m.typeRefs n row root name ∧
          (∀ input, LeadsTo set source m root input → ∃ target type v,
            set.inputs[input]? = some target ∧ target.findTypeNamed? name = some type ∧
              v ∈ out.allTypes ∧ HeldBy set plan out.types ⟨input, type⟩ v ∧
                s source row.token = v.token) ∧
          ((∀ input, ¬ LeadsTo set source m root input) → ∃ r ∈ out.typeRefs,
            r.token = s source row.token ∧ out.typeRefName? r.token = m.typeRefName? row.token ∧
              ∃ identity other, m.typeRefTarget? row.token = some identity ∧
                out.typeRefTarget? r.token = some other ∧ other.agrees identity) := by
  obtain ⟨placed, rs, start, tables, hcarried⟩ := run_carries hset h
  have hset' : (Linkage.ofSet set policy).set.Identified := hset
  refine ⟨tables.substitution.counterpart, hcarried.rewritten, fun source m hm row hrow => ?_⟩
  have hidentified := hset m (List.mem_of_getElem? hm)
  obtain ⟨new, hnew⟩ := (hcarried.bound.imported source m hm).typeRefs row hrow
  have hcounterpart := Substitution.counterpart_of_get? (hidentified.unshared_typeRef hrow) hnew
  cases hcarried.bound.wired.typeRefs source m hm row hrow new hnew with
  | @definition n root name input target type hchain hinput htarget htype hget =>
    have hleads := (leadsTo_iff (l := .ofSet set policy) hm).2 hinput
    refine ⟨n, root, name, hchain, fun input' hleads' => ?_, fun hnone => absurd hleads (hnone input)⟩
    have hinput' := (leadsTo_iff (l := .ofSet set policy) hm).1 hleads'
    obtain rfl := Option.some.inj (hinput.symm.trans hinput')
    obtain ⟨s, hs, hlands, htoken⟩ := hcarried.exists_lands hset'
      (t := ⟨input, type⟩) ⟨target, htarget, Module.mem_allTypes_of_findTypeNamed? htype⟩
    refine ⟨target, type, _, htarget, htype, ?_, hlands.held, ?_⟩
    · rw [hcarried.allTypes_eq]
      exact List.mem_map_of_mem hs
    · rw [hcounterpart]
      exact Option.some.inj (hget.symm.trans htoken)
  | @reference n root name identity hchain hidentity hinput hrefers =>
    refine ⟨n, root, name, hchain, fun input hleads => ?_, fun _ => ?_⟩
    · have hinput' := (leadsTo_iff (l := .ofSet set policy) hm).1 hleads
      rw [hidentity, hinput] at hinput'
      exact nomatch hinput'
    · obtain ⟨r, hr, rfl, k, index, other, hchain', hother, hagrees⟩ := hrefers
      have hrows := hcarried.bound.wired.typeRows.nodup
      rw [← hcarried.typeRefs] at hr hchain' hrows
      rw [← hcarried.references] at hother
      refine ⟨r, hr, hcounterpart.symm, ?_, identity, other, ?_, ?_, hagrees⟩
      · rw [Module.typeRefName?_of_chain hrows hr hchain',
          Module.typeRefName?_of_chain hidentified.nodup_typeRefs hrow hchain]
      · rw [Module.typeRefTarget?_of_chain hidentified.nodup_typeRefs hrow hchain, hidentity]
      · rw [Module.typeRefTarget?_of_chain hrows hr hchain']
        exact hother

/-! ## A reference to one of two types of the same name -/

/-- A module with a class that has a field of the type `N.Box/Inner` of another module. -/
def userModule : Module :=
  { Module.ofIdentity (.ofName "user" ⟨1, 0, 0, 0⟩) .dll with
    references := [.ofName "second" ⟨1, 0, 0, 0⟩, .ofName "core" ⟨4, 0, 0, 0⟩]
    typeRefs := [⟨⟨0x01000001⟩, .reference 0, "N", "Box"⟩,
      ⟨⟨0x01000002⟩, .enclosing ⟨0x01000001⟩, "", "Inner"⟩,
      ⟨⟨0x01000003⟩, .reference 1, "System", "Object"⟩]
    types := [⟨⟨0x02000001⟩, "M", "User", ⟨0x1⟩, some ⟨0x01000003⟩, [], [],
      [⟨⟨0x04000001⟩, "part", ⟨0x6⟩, .classType ⟨0x01000002⟩, []⟩], [], [], [], [], []⟩] }

/-- Two modules that both declare `N.Box`, and one that uses that of the second. -/
def namesakes : ModuleSet :=
  { boxes with others := boxes.others ++ [⟨⟨"user.dll"⟩, userModule⟩] }

/-- The plan to keep both types, the second one under another name. -/
def namesakesPlan : Plan :=
  { boxPlan with placements := [(⟨0, 0⟩, .emit "Box" false), (⟨1, 0⟩, .emit "[second]Box" true),
      (⟨2, 0⟩, .emit "User" false)] }

theorem run_binds_typeRefs_namesakes : ∃ out, ∃ s : Nat → Token → Token, ∃ type v,
    ((run namesakes namesakesPlan unionPolicy).run.run []).1 = .ok out ∧
    (boxModule "second" none).findTypeNamed? "N.Box/Inner" = some type ∧
    HeldBy namesakes namesakesPlan out.types ⟨1, type⟩ v ∧ s 2 ⟨0x01000002⟩ = v.token := by
  have hok : ((run namesakes namesakesPlan unionPolicy).run.run []).1.isOk := by decide +kernel
  obtain ⟨out, hrun⟩ := exists_eq_ok hok
  obtain ⟨s, -, hrefs⟩ := run_binds_typeRefs (by decide) hrun
  obtain ⟨n, root, name, hchain, hinside, -⟩ :=
    hrefs 2 userModule rfl ⟨⟨0x01000002⟩, .enclosing ⟨0x01000001⟩, "", "Inner"⟩ (by decide)
  -- the chain of the reference leads to the second module
  have houter : Chain userModule.typeRefs 1 ⟨⟨0x01000001⟩, .reference 0, "N", "Box"⟩
      (some (0 : UInt32).toNat) (qualifiedName "N" "Box") := .reference rfl
  obtain ⟨-, rfl, rfl⟩ := hchain.unique (by decide) (.nested rfl (by decide) (by decide) houter)
  obtain ⟨target, type, v, htarget, htype, -, hheld, htoken⟩ := hinside 1 (.named rfl (by decide))
  obtain rfl : boxModule "second" none = target := Option.some.inj htarget
  exact ⟨out, s, type, v, hrun, htype, hheld, htoken⟩

/-! ## A reference with the null token -/

/-- A class with a method that loads the token of the class by a reference. -/
def selfLoader (reference : Token) : TypeDef :=
  ⟨⟨0x02000001⟩, "N", "Node", ⟨0x1⟩, none, [], [], [],
    [⟨⟨0x06000001⟩, "Self", ⟨0x6⟩, ⟨true, 0, .primitive .void, []⟩,
      some (.ofCode [(0xD0, .token reference), (0x26, .none), (0x2A, .none)]), []⟩], [], [], [], []⟩

/-- A module with this class and a reference to it that has the null token. -/
def nullReference : ModuleSet :=
  { primary := ⟨⟨"A.dll"⟩, { Module.ofIdentity (.ofName "A" ⟨1, 0, 0, 0⟩) .dll with
      typeRefs := [⟨.null, .here, "N", "Node"⟩]
      types := [selfLoader .null] }⟩
    others := [], references := [], attributeSource := none }

/-- The plan that leaves the class as it is. -/
def nullReferencePlan : Plan :=
  { placements := [(⟨0, 0⟩, .emit "Node" false)], resources := [], attributes := [], renames := []
    hidden := 0 }

/-- Null tokens stay as they are, and so does what uses this reference. -/
theorem run_keeps_null_reference :
    (∀ m ∈ nullReference.inputs, m.definedTokens.Nodup) ∧
    nullReference.inputs.map (fun m => m.typeRefs.map fun r =>
      (r.token, m.typeRefName? r.token, m.typeRefTarget? r.token)) = [[(.null, some "N.Node", none)]] ∧
    nullReference.inputs.map (fun m => (m.findTypeNamed? "N.Node").map fun t =>
      (t.token, t.methods.flatMap Method.tokens)) = [some (⟨0x02000001⟩, [.null])] ∧
    ((Plan.build nullReference (.ofSet nullReference) unionPolicy).run.run []).1.toOption =
      some nullReferencePlan ∧
    ((run nullReference nullReferencePlan unionPolicy).run.run []).1.toOption.map
      (fun out => out.types.map fun t => (t.qualifiedName, t.token, t.methods.flatMap Method.tokens)) =
        some [("N.Node", ⟨0x02000001⟩, [.null])] := by
  refine ⟨by decide, by decide +kernel, by decide +kernel, by decide +kernel, ?_⟩
  decide +kernel

end Relocation

/-! ## Searching base types for members

The type that a token of an input stands for, the base types of a type as long as they are types of
inputs, and where the search for a member among them ends.
-/

/-- A token of an input stands for a type that an input declares: for the type whose token it is, or for
the first type of the full name that a reference spells, in the input that the reference leads to. -/
inductive Denotes (set : ModuleSet) (source : Nat) (token : Token) : Sourced TypeDef → Prop
  | definition {m : Module} {t : TypeDef} (hm : set.inputs[source]? = some m) (ht : t ∈ m.allTypes)
      (htoken : t.token = token) : Denotes set source token ⟨source, t⟩
  | reference {m target : Module} {row : TypeRef} {n input : Nat} {root : Option Nat} {name : String}
      {t : TypeDef} (hm : set.inputs[source]? = some m) (hrow : row ∈ m.typeRefs)
      (htoken : row.token = token) (hchain : Chain m.typeRefs n row root name)
      (hleads : LeadsTo set source m root input) (htarget : set.inputs[input]? = some target)
      (htype : target.findTypeNamed? name = some t) : Denotes set source token ⟨input, t⟩

/-- The base types of a type with their numbers, the type itself being the first one; they go on as long
as they are types of inputs. -/
inductive Bases (set : ModuleSet) : Sourced TypeDef → Nat → Sourced TypeDef → Prop
  | self (t : Sourced TypeDef) : Bases set t 0 t
  | base {t u v : Sourced TypeDef} {token : Token} {n : Nat} (hbase : t.value.base = some token)
      (hdenotes : Denotes set t.source token u) (h : Bases set u n v) : Bases set t (n + 1) v

/-- A type has no member with a key. -/
def Lacks (l : Linkage) (key : MemberKey) (t : Sourced TypeDef) : Prop :=
  ∀ x ∈ t.value.members, x.key (l.names t.source) ≠ key

/-- The base types of a type leave the inputs at the one with a number, and none up to it has a member
with a key. -/
structure Leaves (l : Linkage) (key : MemberKey) (t : Sourced TypeDef) (n : Nat) (u : Sourced TypeDef)
    (token : Token) : Prop where
  bases : Bases l.set t n u
  base : u.value.base = some token
  outside : ∀ v, ¬ Denotes l.set u.source token v
  lacks : ∀ k ≤ n, ∀ v, Bases l.set t k v → Lacks l key v

/-! ## Types of inputs -/

namespace Denotes

variable {set : ModuleSet} {source : Nat} {token : Token} {t : Sourced TypeDef}

theorem isInput (h : Denotes set source token t) : set.isInput source := by
  cases h with
  | definition hm => exact ModuleSet.isInput_of_getElem? hm
  | reference hm => exact ModuleSet.isInput_of_getElem? hm

theorem declares (h : Denotes set source token t) : set.Declares t := by
  cases h with
  | definition hm ht => exact ⟨_, hm, ht⟩
  | reference _ _ _ _ _ htarget htype => exact ⟨_, htarget, Module.mem_allTypes_of_findTypeNamed? htype⟩

end Denotes

namespace ModuleSet

variable {set : ModuleSet} {t u : Sourced TypeDef} {n : Nat}

theorem Declares.bases (ht : set.Declares t) (h : Bases set t n u) : set.Declares u := by
  induction h with
  | self => exact ht
  | base _ hdenotes _ ih => exact ih hdenotes.declares

end ModuleSet

namespace Importing

open Relocation

variable {l : Linkage} {source n : Nat} {token : Token} {key : MemberKey} {t u : Sourced TypeDef}

/-- Where tokens are numbered well, a token is taken for the type that it stands for. -/
theorem inputType?_eq_some_iff (hset : l.set.WellNumbered) (hinput : l.set.isInput source) :
    inputType? l source token = some (t.source, t.value) ↔ Denotes l.set source token t := by
  obtain ⟨m, hm⟩ := ModuleSet.exists_of_isInput hinput
  have hwell := hset m (List.mem_of_getElem? hm)
  have hnodup := hwell.identified.nodup_typeRefs
  constructor
  · intro h
    unfold inputType? at h
    split at h
    case isTrue =>
      dsimp only at h
      split at h
      case isTrue => exact nomatch h
      case isFalse =>
        obtain ⟨m', hm', h⟩ := Option.bind_eq_some_iff.1 h
        obtain ⟨v, hv, h⟩ := Option.bind_eq_some_iff.1 h
        cases h
        obtain ⟨hmem, htoken⟩ := Module.mem_allTypes_of_findType? hv
        exact .definition hm' hmem htoken
    case isFalse =>
      split at h
      case isFalse => exact nomatch h
      case isTrue =>
        obtain ⟨m', hm', h⟩ := Option.bind_eq_some_iff.1 h
        obtain ⟨input, hleads, h⟩ := Option.bind_eq_some_iff.1 h
        obtain ⟨name, hname, h⟩ := Option.bind_eq_some_iff.1 h
        obtain ⟨target, htarget, h⟩ := Option.bind_eq_some_iff.1 h
        obtain ⟨v, hv, h⟩ := Option.bind_eq_some_iff.1 h
        cases h
        obtain rfl := Option.some.inj ((ModuleSet.source?_of_getElem? hm).symm.trans hm')
        obtain ⟨row, hrow, n, root, hchain⟩ := Module.exists_chain hname
        have hmem := List.mem_of_find?_eq_some hrow
        obtain rfl : row.token = token := by simpa using List.find?_some hrow
        rw [Module.typeRefTarget?_of_chain hnodup hmem hchain] at hleads
        exact .reference hm hmem rfl hchain ((leadsTo_iff hm).2 hleads) htarget hv
  · intro h
    unfold inputType?
    cases h with
    | definition hm' ht htoken =>
      obtain rfl := Option.some.inj (hm.symm.trans hm')
      subst htoken
      rw [if_pos (hwell.types _ ht)]
      simp [hinput, hm, Module.findType?_of_mem hwell ht]
    | reference hm' hrow htoken hchain hleads htarget htype =>
      obtain rfl := Option.some.inj (hm.symm.trans hm')
      subst htoken
      have htable := hwell.typeRefs _ hrow
      have hne : ¬ Table.typeRef = Table.typeDef := by decide
      rw [htable, if_neg hne, if_pos rfl]
      simp [ModuleSet.source?_of_getElem? hm, Module.typeRefTarget?_of_chain hnodup hrow hchain,
        (leadsTo_iff hm).1 hleads, Module.typeRefName?_of_chain hnodup hrow hchain, htarget, htype]

end Importing

end ModuleLinker
