import ModuleLinker.Proofs.Relocation.Rewriting
import ModuleLinker.Proofs.Relocation.TypeReferences

namespace ModuleLinker

/-! # What references to members become in the output

A reference to a member of a type of an input becomes the token of a member of the output if the type or
one of its base types has a member with the reference's key; the nearest one counts, and of its members
the first. If the base types leave the inputs before that, it stays a reference. Otherwise nothing is put
out at all.
-/

/-- A member has the kind and the name that a reference says, and a method is one of instances if the
reference says so. -/
def MemberRef.Fits (r : MemberRef) : Member → Prop
  | .field x => x.name = r.name ∧ ∃ s, r.signature = .field s
  | .method x => x.name = r.name ∧ ∃ s, r.signature = .method s ∧ x.signature.hasThis = s.hasThis
  | .property _ | .event _ => False

namespace MemberRef

variable {r : MemberRef}

/-- Replacing tokens and leaving out attributes does not matter to it. -/
theorem Fits.memberImage {l : Linkage} {g : Nat → Token → Token} {x : Sourced Member}
    (h : r.Fits x.value) : r.Fits (Shape.memberImage l g x) := by
  rcases x with ⟨source, x | x | x | x⟩ <;> exact h

end MemberRef

namespace Relocation

open Shape ImportTables Importing

variable {l : Linkage} {set : ModuleSet} {plan : Plan} {policy : Policy}

namespace Carried

variable {out : Module} {placed : PlacedShapes} {rs : List Redirect} {start tables : ImportTables}

/-- A member that a shape has received is one of its own, or redirected to an equal one; this one has the
counterpart of its token. -/
theorem exists_part (h : Carried l plan out placed rs start tables) (hset : l.set.WellNumbered) {s : Shape}
    (hs : s ∈ withinAll (placed.map Prod.snd)) {source : Nat} {t : TypeDef}
    (hreceives : ReceivesMembers l rs source t s) {x : Member} (hx : x ∈ t.members) :
    ∃ z ∈ s.parts, z.value.key (l.names z.source) = x.key (l.names source) ∧
      tables.substitution.counterpart z.source z.value.token =
        tables.substitution.counterpart source x.token := by
  obtain ⟨kept, hkept, hgoes⟩ := hreceives x hx
  obtain ⟨z, hz, rfl, hkey⟩ := (h.sound hset s hs).members _ hkept
  refine ⟨z, hz, hkey, ?_⟩
  -- both tokens have the counterpart that the kept one was numbered with
  have hkeys : partKey z ∈ keysOf (placed.map Prod.snd) :=
    List.mem_flatMap.2 ⟨s, hs, List.mem_cons_of_mem _ (List.mem_map_of_mem hz)⟩
  obtain ⟨new, hnew⟩ := h.settled.kept _ hkeys
  have hsame := (h.settled.get?_eq hgoes).trans hnew
  have hunshared {k : SourceToken} (hk : start.substitution.get? k = some new) :
      tables.substitution.counterpart k.source k.token = new :=
    Substitution.counterpart_of_get? (hset.identified.unshared (h.settled.declared k new hk)) (h.kept hk)
  exact (hunshared hnew).trans (hunshared hsame).symm

end Carried

/-- A method without parameters and without a body. -/
def bareMethod (token : Token) (name : String) : Method :=
  ⟨token, name, ⟨0x6⟩, ⟨true, 0, .primitive .void, []⟩, none, []⟩

/-- A class with some methods and maybe a base type. -/
def methodsType (token : Token) (name : String) (base : Option Token) (methods : List Method) : TypeDef :=
  ⟨token, "N", name, ⟨0x1⟩, base, [], [], [], methods, [], [], [], []⟩

/-- A class that inherits the method. -/
def derivedType : TypeDef := methodsType ⟨0x02000002⟩ "Derived" (some ⟨0x02000001⟩) []

end Relocation

end ModuleLinker
