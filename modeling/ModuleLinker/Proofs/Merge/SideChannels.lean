import ModuleLinker.Proofs.Image.Sidecar
import ModuleLinker.Proofs.Merge.Workers
import ModuleLinker.Proofs.Relocation.Visibility

namespace ModuleLinker

/-! # Options that the image does not depend on

Some options only say what is written beside the image, where it is written and what is told of it. No
stage that leads to the module of the output looks at them, so the stages are the same whatever these
options are. The passes over the shapes and references of a relocation take an induction each.
-/

/-- The options with fixed values for those that only concern files and notices. -/
def Options.essential (o : Options) : Options :=
  { o with
    keepSymbols := false, verbose := false, logFile := none, mergeDocumentation := false
    expandWildcards := false, output := ⟨""⟩ }

def Policy.essential (p : Policy) : Policy := { p with options := p.options.essential }

def Linkage.essential (l : Linkage) : Linkage := { l with policy := l.policy.essential }

/-! ## Settings -/

section

variable {o o' : Options}

/-- Of the output's name it only matters for the use of options that there is one. -/
theorem Options.defect?_congr (h : o.essential = o'.essential)
    (houtput : o.output.isEmpty = o'.output.isEmpty) : o.defect? = o'.defect? := by
  have hfield {α : Type} (f : Options → α) : f o.essential = f o'.essential := congrArg f h
  have hinputs : o.inputs = o'.inputs := hfield Options.inputs
  have hfile : o.keyFile = o'.keyFile := hfield Options.keyFile
  have hcontainer : o.keyContainer = o'.keyContainer := hfield Options.keyContainer
  have hpatterns : o.excludePatterns = o'.excludePatterns := hfield Options.excludePatterns
  unfold defect?
  rw [hinputs, hfile, hcontainer, hpatterns, houtput]

theorem Options.validate_alike (h : o.essential = o'.essential) (hdefect : o.defect? = o'.defect?) :
    Merging.Alike (fun p p' => p.essential = p'.essential) o.validate o'.validate := by
  have hpatterns : o.readPatterns = o'.readPatterns := by
    have hreads (o : Options) : o.readPatterns = o.essential.readPatterns := rfl
    rw [hreads, h, ← hreads]
  have hdirectories : o.directories = o'.directories := by
    have hsearched (o : Options) : o.directories = o.essential.directories := rfl
    rw [hsearched, h, ← hsearched]
  unfold validate
  rw [hdefect, hpatterns]
  split
  case h_1 => exact .throw _
  case h_2 =>
    refine .bind (.refl _) ?_
    rintro patterns _ rfl
    refine .pure ?_
    unfold Policy.essential
    rw [hdirectories, h]

namespace Merge

theorem essential_optionsFor (ms : List Module) (h : o.essential = o'.essential) :
    (optionsFor ms o).essential = (optionsFor ms o').essential := by
  have hwith (o : Options) : (optionsFor ms o).essential =
      { o.essential with inputs := (optionsFor ms o).inputs } := rfl
  rw [hwith, hwith, h]
  rfl

/-- The first module names the output if nothing else does, so there is always a name. -/
theorem output_optionsFor_ne (m : Module) (ms : List Module) (o : Options) :
    (optionsFor (m :: ms) o).output.isEmpty = false := by
  have hfile (name : String) : Path.isEmpty ⟨s!"{name}.dll"⟩ = false := by
    have hsuffix : toString ".dll" ≠ "" := by decide
    simp [Path.isEmpty, hsuffix]
  unfold optionsFor
  dsimp only
  split
  case isTrue => exact hfile m.name
  case isFalse h => exact Bool.eq_false_iff.2 h

theorem validate_alike (ms : List Module) (h : o.essential = o'.essential) :
    Merging.Alike (fun p p' => p.essential = p'.essential) (optionsFor ms o).validate
      (optionsFor ms o').validate := by
  have hboth := essential_optionsFor ms h
  refine Options.validate_alike hboth ?_
  cases ms with
  | nil => rfl
  | cons m ms =>
    exact Options.defect?_congr hboth
      ((output_optionsFor_ne m ms o).trans (output_optionsFor_ne m ms o').symm)

end Merge

end

/-! ## Loading and planning -/

theorem Loading.adopt_essential (fs : FileSystem) (p : Policy) (ms : List Module) :
    adopt fs p.essential ms = adopt fs p ms := rfl

theorem Plan.build_essential (set : ModuleSet) (table : SymbolTable) (p : Policy) :
    build set table p.essential = build set table p := by
  have hplace (merged : Internalization.Merged) :
      placeTypes set table p.essential merged = placeTypes set table p merged := by
    have hdecide : Internalization.decideAll table p.essential merged set.declarations =
        Internalization.decideAll table p merged set.declarations := by
      refine Internalization.decideAll_congr ?_ _
      exact fun _ => rfl
    unfold placeTypes
    rw [hdecide]
  have hmerge : mergeSymbols p.essential table = mergeSymbols p table := rfl
  have hresources : planResources set table p.essential = planResources set table p := rfl
  have hattributes : planAttributes set table p.essential = planAttributes set table p := rfl
  unfold build
  rw [hmerge, hresources, hattributes]
  simp only [hplace]

/-! ## Shapes -/

namespace Shape

theorem takeParts_essential (l : Linkage) : takeParts l.essential = takeParts l := rfl

mutual

theorem absorb_essential (l : Linkage) (source : Nat) (s : Shape) (t : TypeDef) :
    absorb l.essential source s t = absorb l source s t := by
  obtain ⟨token, namespaceName, name, flags, base, interfaces, genericParams, fields, methods,
    properties, events, nested, attributes⟩ := t
  have hnested (shapes : List Shape) := absorbNested_essential l source shapes nested
  rw [absorb, absorb, takeParts_essential]
  simp only [hnested]

theorem absorbNested_essential (l : Linkage) (source : Nat) (shapes : List Shape) (ts : List TypeDef) :
    absorbNested l.essential source shapes ts = absorbNested l source shapes ts := by
  cases ts with
  | nil => rw [absorbNested, absorbNested]
  | cons t rest =>
    have ht (s : Shape) := absorb_essential l source s t
    have hrest (shapes : List Shape) := absorbNested_essential l source shapes rest
    rw [absorbNested, absorbNested]
    simp only [ht, hrest]

end

theorem buildAll_essential (l : Linkage) (plan : Plan) : buildAll l.essential plan = buildAll l plan := by
  have hplace : placeDeclaration l.essential plan = placeDeclaration l plan := by
    funext shapes d
    unfold placeDeclaration
    simp only [absorb_essential]
  unfold buildAll
  rw [hplace]
  rfl

mutual

theorem write_essential (l : Linkage) (sub : Substitution) (s : Shape) :
    write l.essential sub s = write l sub s := by
  obtain ⟨source, origin, name, flags, fields, methods, properties, events, interfaces, attributes,
    nested, members, interfaceNames⟩ := s
  have hretained : retained l.essential = retained l := rfl
  rw [write, write, hretained, writeAll_essential l sub nested]

theorem writeAll_essential (l : Linkage) (sub : Substitution) (shapes : List Shape) :
    writeAll l.essential sub shapes = writeAll l sub shapes := by
  cases shapes with
  | nil => rfl
  | cons s rest => rw [writeAll, writeAll, write_essential l sub s, writeAll_essential l sub rest]

end

end Shape

/-! ## References -/

namespace Importing

variable (l : Linkage) (policy : Policy) (source : Nat)

theorem typeRef_policy : typeRef { l with policy } source = typeRef l source := by
  have hwithin (steps : Nat) :
      typeRefWithin { l with policy } source steps = typeRefWithin l source steps := by
    induction steps with
    | zero => rfl
    | succ steps ih => rw [typeRefWithin, typeRefWithin, ih]; rfl
  unfold typeRef
  simp only [hwithin]
  rfl

theorem type_policy : type { l with policy } source = type l source := by
  unfold type
  rw [typeRef_policy]
  rfl

theorem externalMember_policy : externalMember { l with policy } source = externalMember l source := by
  unfold externalMember
  rw [type_policy]

theorem memberRef_policy : memberRef { l with policy } source = memberRef l source := by
  have hmerged (r : MemberRef) (fault : Unbound) (steps : Nat) (t : Nat × TypeDef) :
      mergedMember { l with policy } source r fault steps t = mergedMember l source r fault steps t := by
    induction steps generalizing t with
    | zero => rfl
    | succ steps ih =>
      obtain ⟨input, t⟩ := t
      rw [mergedMember, mergedMember, externalMember_policy]
      simp only [ih]
      rfl
  unfold memberRef
  rw [externalMember_policy]
  simp only [hmerged]
  rfl

end Importing

theorem Relocation.importAll_policy (l : Linkage) (policy : Policy) (plan : Plan) :
    importAll { l with policy } plan = importAll l plan := by
  have hmodule : importModule { l with policy } = importModule l := by
    funext source m
    unfold importModule
    rw [Importing.typeRef_policy, Importing.memberRef_policy]
  have hattribute : importAttribute { l with policy } = importAttribute l := by
    funext planned
    unfold importAttribute
    dsimp only
    rw [Importing.type_policy]
    rfl
  unfold importAll
  rw [hmodule, hattribute]

/-! ## The linked module -/

theorem Relocation.run_essential (set : ModuleSet) (plan : Plan) (policy : Policy) :
    run set plan policy.essential = run set plan policy := by
  have hl : Linkage.ofSet set policy.essential = (Linkage.ofSet set policy).essential := rfl
  have hlay (l : Linkage) : layOut l.essential plan = layOut l plan := by
    unfold layOut
    rw [Shape.buildAll_essential]
  have himport (l : Linkage) : importAll l.essential plan = importAll l plan :=
    importAll_policy l l.policy.essential plan
  unfold run
  rw [hl]
  dsimp only
  rw [hlay, himport]
  simp only [Shape.writeAll_essential]

theorem Merge.link_essential (set : ModuleSet) (p : Policy) : link set p.essential = link set p := by
  unfold link
  simp only [Plan.build_essential, Relocation.run_essential]

/-! ## Keys and images -/

theorem Signer.load_essential (fs : FileSystem) (p : Policy) : load fs p.essential = load fs p := rfl

theorem Emission.encode_essential (p : Policy) (signer : Option Signer) (m : Module) :
    encode p.essential signer m = encode p signer m := rfl

/-! ## Merging whatever is written beside the image

Options that only concern files beside the image and notices, and the number of workers, leave the image
as it is. A merge is compared with itself stage by stage: what leads to the linked module does not look at
these options at all, and from there on places in source texts are all that two runs differ in. Places are no
part of an image, so modules that differ in them alone have the same image, the same version id and the same
signature.
-/

/-! ## Taking places away -/

namespace TypeDef

theorem mapMethodsAll_withoutPoints (ts : List TypeDef) :
    mapMethodsAll Method.withoutPoints (mapMethodsAll Method.withoutPoints ts) =
      mapMethodsAll Method.withoutPoints ts := by
  rw [mapMethodsAll_mapMethodsAll]
  exact mapMethodsAll_congr ts fun x _ => x.withoutPoints_withoutPoints

theorem length_mapMethodsAll (change : Method → Method) (ts : List TypeDef) :
    (mapMethodsAll change ts).length = ts.length := by
  induction ts with
  | nil => rfl
  | cons t rest ih => rw [mapMethodsAll, List.length_cons, List.length_cons, ih]

end TypeDef

/-! ## Images without places -/

namespace Image

open Encoding

theorem encodeMethod_withoutPoints (x : Method) : encodeMethod x.withoutPoints = encodeMethod x := by
  obtain ⟨token, name, flags, signature, body, attributes⟩ := x
  cases body with
  | none => rfl
  | some body => rfl

mutual

theorem encodeType_withoutPoints (t : TypeDef) :
    encodeType (t.mapMethods Method.withoutPoints) = encodeType t := by
  obtain ⟨self, namespaceName, name, flags, base, interfaces, genericParams, fields, methods,
    properties, events, nested, attributes⟩ := t
  have hmethods : list encodeMethod (methods.map Method.withoutPoints) = list encodeMethod methods := by
    unfold list each
    simp only [List.length_map, List.foldr_map, encodeMethod_withoutPoints]
  rw [TypeDef.mapMethods, encodeType, encodeType, hmethods, TypeDef.length_mapMethodsAll,
    encodeTypes_withoutPoints nested]

theorem encodeTypes_withoutPoints (ts : List TypeDef) :
    encodeTypes (TypeDef.mapMethodsAll Method.withoutPoints ts) = encodeTypes ts := by
  cases ts with
  | nil => rfl
  | cons t rest =>
    rw [TypeDef.mapMethodsAll, encodeTypes, encodeTypes, encodeType_withoutPoints t,
      encodeTypes_withoutPoints rest]

end

/-- The image of a module does not show its places in source texts. -/
theorem ofModule_withoutPoints (m : Module) : ofModule m.withoutPoints = ofModule m := by
  have htables : encodeTables m.withoutPoints = encodeTables m := by
    unfold encodeTables Module.withoutPoints Module.mapMethods
    dsimp only
    rw [encodeTypes_withoutPoints, TypeDef.length_mapMethodsAll]
  have hpayload : encodePayload m.withoutPoints = encodePayload m := by
    unfold encodePayload
    rw [htables]
    rfl
  unfold ofModule
  rw [hpayload]
  rfl

end Image

/-! ## Finishing and writing -/

namespace Emission

/-- Two written modules have the same image, and are the same but for places in source texts. -/
structure SameImage (w w' : Written) : Prop where
  image : w.image = w'.image
  module : w.module.withoutPoints = w'.module.withoutPoints

variable {p : Policy} {signer : Option Signer} {m m' : Module}

/-- The options that decide on places in source texts change nothing else of the output. -/
theorem finish_essential (set : ModuleSet) (p : Policy) (signer : Option Signer) (m : Module) :
    SameEnd (fun out out' => out.withoutPoints = out'.withoutPoints)
      (finish set p signer m) (finish set p.essential signer m) := by
  have hplaces (types : List TypeDef) := TypeDef.mapMethodsAll_withoutPoints types
  unfold finish Policy.essential Options.essential Module.withoutPoints Module.mapMethods
  dsimp only
  split
  all_goals
    refine .bind (.refl _) ?_
    rintro manifest _ rfl
    refine .answers ?_
    split
    case isTrue => simp [hplaces]
    case isFalse => rfl

theorem writeMvid_sameEnd (h : m.withoutPoints = m'.withoutPoints) (image : Image) :
    SameEnd SameImage (writeMvid m image) (writeMvid m' image) := by
  let stamp (m : Module) : Module := { m with mvid := Mvid.ofBytes (Sha1.digest image.bytes) }
  refine .bind (.refl _) ?_
  rintro bytes _ rfl
  exact .answers ⟨rfl, congrArg stamp h⟩

theorem writeSignature_sameEnd (signer : Signer) {w w' : Written} (hw : SameImage w w')
    (offset length : Nat) :
    SameEnd SameImage (writeSignature signer w offset length)
      (writeSignature signer w' offset length) := by
  unfold writeSignature
  -- what is signed is the image
  rw [hw.image]
  refine .bind (.refl _) ?_
  rintro signature _ rfl
  dsimp only
  split
  case isTrue => exact .faults _ _
  case isFalse =>
    let sign (m : Module) : Module := { m with signature := some signature }
    refine .bind (.refl _) ?_
    rintro image _ rfl
    exact .answers ⟨rfl, congrArg sign hw.module⟩

/-- Modules that differ in places in source texts alone are written as the same image. -/
theorem encode_alike (h : m.withoutPoints = m'.withoutPoints) :
    Merging.Alike SameImage (encode p signer m) (encode p signer m') := by
  have hblank (m : Module) : (blank m).withoutPoints = blank m.withoutPoints := rfl
  have hmodule : (blank m).withoutPoints = (blank m').withoutPoints := by rw [hblank, hblank, h]
  have himage : Image.ofModule (blank m) = Image.ofModule (blank m') := by
    rw [← Image.ofModule_withoutPoints, hmodule, Image.ofModule_withoutPoints]
  unfold encode
  dsimp only
  rw [himage]
  refine .bind (.refl _) ?_
  rintro image _ rfl
  refine .bind (.ofExcept (writeMvid_sameEnd hmodule image)) fun w w' hw => ?_
  split
  case h_1 =>
    split
    case isTrue =>
      refine .bind (.refl _) ?_
      rintro _ _ rfl
      exact .pure hw
    case isFalse => exact .ofExcept (writeSignature_sameEnd _ hw _ _)
  case h_2 => exact .pure hw

end Emission

/-! ## Options -/

section

variable {p p' : Policy} {o o' : Options}

theorem Emission.finish_congr (set : ModuleSet) (signer : Option Signer) (m : Module)
    (h : p.essential = p'.essential) :
    SameEnd (fun out out' => out.withoutPoints = out'.withoutPoints)
      (finish set p signer m) (finish set p' signer m) := by
  have hleft := finish_essential set p signer m
  rw [h] at hleft
  refine hleft.trans (finish_essential set p' signer m).symm fun _ _ _ h h' => ?_
  exact h.trans h'.symm

/-- Options that agree on what is essential lead to the same image. -/
theorem Merge.modules_sameImage (fs : FileSystem) (ms : List Module) (h : o.essential = o'.essential) :
    Merging.Alike Emission.SameImage (modules fs ms o) (modules fs ms o') := by
  unfold modules
  refine .bind (validate_alike ms h) fun p p' hp => ?_
  have hadopt : Loading.adopt fs p ms = Loading.adopt fs p' ms := by
    rw [← Loading.adopt_essential, hp, Loading.adopt_essential]
  have hlink (set : ModuleSet) : link set p = link set p' := by
    rw [← link_essential, hp, link_essential]
  have hload : Signer.load fs p = Signer.load fs p' := by
    rw [← Signer.load_essential, hp, Signer.load_essential]
  have hencode (signer : Option Signer) (m : Module) :
      Emission.encode p signer m = Emission.encode p' signer m := by
    rw [← Emission.encode_essential, hp, Emission.encode_essential]
  rw [hadopt, hload]
  simp only [hlink, hencode]
  refine .bind (.refl _) ?_
  rintro set _ rfl
  refine .bind (.refl _) ?_
  rintro linked _ rfl
  refine .bind (.refl _) ?_
  rintro signer _ rfl
  refine .bind (.ofExcept (Emission.finish_congr set signer _ hp)) fun m m' hm => ?_
  exact Emission.encode_alike hm

end

/-! ## The image -/

namespace Merge

/-- Two merges of the same modules either both fail or write the same image, version id and signature
included, and their modules differ in places in source texts alone: whatever turns the workers take, and
whether symbols are kept, documentation is merged and wildcards are expanded or not, and whatever is said
about notices, the log file and the output's name. -/
theorem modulesBy_sameImage (ws ws' : Workers) (fs : FileSystem) (ms : List Module) {o o' : Options}
    (h : o.essential = o'.essential) :
    Merging.Alike Emission.SameImage (modulesBy ws fs ms o) (modulesBy ws' fs ms o') := by
  have hleft := (modulesBy_alike ws fs ms o).trans (s := Emission.SameImage)
    (modules_sameImage fs ms h) (by rintro w _ w' rfl hw; exact hw)
  exact hleft.trans (modulesBy_alike ws' fs ms o').symm (by rintro w w' _ hw rfl; exact hw)

/-- A module with a class whose method comes from a place in a source text. -/
def tracedModule (name : String) : Module :=
  let point : SequencePoint := ⟨0, "Main.cs", 1, 1, 1, 8⟩
  let body := { MethodBody.ofCode [(0x2A, .none)] with points := [point] }
  let run : Method := ⟨⟨0x06000001⟩, "Run", ⟨0x96⟩, ⟨false, 0, .primitive .void, []⟩, some body, []⟩
  { Module.ofIdentity (.ofName name ⟨1, 0, 0, 0⟩) .dll with
    types := [⟨⟨0x02000001⟩, name, "Main", ⟨0x1⟩, none, [], [], [], [run], [], [], [], []⟩] }

/-- Two such modules. -/
def tracedModules : List Module := [tracedModule "A", tracedModule "B"]

/-- A file with a pair of keys for signatures of eight bytes. -/
def keyFiles : FileSystem :=
  { entries := [(["key.snk"], .file ([0x07, 0x02, 0, 0, 0, 0x24, 0, 0, 0x52, 0x53, 0x41, 0x32] ++
      [64, 0, 0, 0, 1, 0, 1, 0, 0xC3, 0x5A, 0x17, 0x88, 0x21, 0x4E, 0x90, 0xD1, 1, 2, 3, 4]))]
    current := [] }

/-- Options that ask for a signed output and for nothing beside it. -/
def bareOptions : Options :=
  { Relocation.unionPolicy.options with keyFile := some ⟨"/key.snk"⟩ }

/-- The same options, but for everything that may be asked for beside the output. -/
def ampleOptions : Options :=
  { bareOptions with
    keepSymbols := true, verbose := true, logFile := some ⟨"/merge.log"⟩, mergeDocumentation := true
    expandWildcards := true, output := ⟨"elsewhere.dll"⟩ }

theorem modulesBy_sameImage_traced :
    ∃ w w', ((modulesBy .inOrder keyFiles tracedModules ampleOptions).run.run []).1 = .ok w ∧
      ((modulesBy .backwards keyFiles tracedModules bareOptions).run.run []).1 = .ok w' ∧
      w.image = w'.image ∧ w.module.withoutPoints = w'.module.withoutPoints := by
  have hok : ((modules keyFiles tracedModules ampleOptions).run.run []).1.isOk := by decide +kernel
  obtain ⟨linked, hlinked⟩ := exists_eq_ok hok
  have hfirst := (modulesBy_alike .inOrder keyFiles tracedModules ampleOptions []).2
  rw [hlinked] at hfirst
  obtain ⟨w, hw, -⟩ := hfirst.exists_left
  have hsecond := (modulesBy_sameImage .inOrder .backwards keyFiles tracedModules
    (show ampleOptions.essential = bareOptions.essential from rfl) []).2
  rw [hw] at hsecond
  obtain ⟨w', hw', hsame⟩ := hsecond.exists_right
  exact ⟨w, w', hw, hw', hsame.image, hsame.module⟩

end Merge

end ModuleLinker
