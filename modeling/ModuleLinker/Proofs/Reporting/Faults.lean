import ModuleLinker.Closure
import ModuleLinker.Emission
import ModuleLinker.Loading
import ModuleLinker.Proofs.Computation
import ModuleLinker.Proofs.Relocation.ImportSteps
import ModuleLinker.Proofs.Relocation.Rewriting

namespace ModuleLinker

/-! # Faults other than conflicts

A conflict of two types is found while a merge is planned and nowhere else. What is read, written and
encoded fails for other reasons.
-/

/-- The fault is no conflict of two types. -/
def Fault.Plain (fault : Fault) : Prop := fault.area ≠ .conflict

/-! ## Written forms -/

/-- A fault that cuts the writing short is no conflict. -/
def Encoding.Plain (e : Encoding) : Prop := ∀ fault, e.fault = some fault → fault.Plain

namespace Encoding

variable {α : Type}

@[simp] theorem ofBytes_plain (bytes : Bytes) : (ofBytes bytes).Plain := nofun

@[simp] theorem empty_plain : empty.Plain := nofun

theorem stop_plain {fault : Fault} (h : fault.Plain) : (stop fault).Plain :=
  fun _ heq => Option.some.inj heq ▸ h

/-- What comes after a fault is not written. -/
@[simp] theorem append_plain {a b : Encoding} :
    (a ++ b).Plain ↔ a.Plain ∧ (a.fault = none → b.Plain) := by
  change (append a b).Plain ↔ _
  unfold append
  split
  case h_1 fault heq => simp [Plain, heq]
  case h_2 heq => simp [Plain, heq]

theorem Plain.append {a b : Encoding} (ha : a.Plain) (hb : b.Plain) : (a ++ b).Plain :=
  append_plain.2 ⟨ha, fun _ => hb⟩

@[simp] theorem each_plain {encode : α → Encoding} (h : ∀ a, (encode a).Plain) (as : List α) :
    (each encode as).Plain := by
  induction as with
  | nil => exact empty_plain
  | cons a as ih => exact (h a).append ih

@[simp] theorem byte_plain (b : UInt8) : (byte b).Plain := ofBytes_plain _

@[simp] theorem bool_plain (b : Bool) : (bool b).Plain := ofBytes_plain _

@[simp] theorem u16_plain (n : UInt16) : (u16 n).Plain := ofBytes_plain _

@[simp] theorem u32_plain (n : UInt32) : (u32 n).Plain := ofBytes_plain _

@[simp] theorem u64_plain (n : UInt64) : (u64 n).Plain := ofBytes_plain _

@[simp] theorem i32_plain (n : Int32) : (i32 n).Plain := ofBytes_plain _

@[simp] theorem i64_plain (n : Int64) : (i64 n).Plain := ofBytes_plain _

@[simp] theorem token_plain (t : Token) : (token t).Plain := ofBytes_plain _

@[simp] theorem token?_plain (t : Option Token) : (token? t).Plain := ofBytes_plain _

@[simp] theorem compressed_plain (n : UInt32) : (compressed n).Plain := by
  unfold compressed
  split_ifs
  case neg => exact stop_plain nofun
  all_goals exact ofBytes_plain _

@[simp] theorem count_plain (n : Nat) : (count n).Plain := by
  unfold count
  split
  case isTrue => exact compressed_plain _
  case isFalse => exact stop_plain nofun

@[simp] theorem blob_plain (bytes : Bytes) : (blob bytes).Plain := ofBytes_plain _

@[simp] theorem text_plain (s : String) : (text s).Plain := ofBytes_plain _

@[simp] theorem list_plain {encode : α → Encoding} (h : ∀ a, (encode a).Plain) (as : List α) :
    (list encode as).Plain :=
  (count_plain _).append (each_plain h as)

theorem Plain.result {e : Encoding} (h : e.Plain) : FailsOnly Fault.Plain e.result := by
  unfold Encoding.result
  split
  case h_1 fault heq => exact .error (h fault heq)
  case h_2 => exact .ok _

end Encoding

open Encoding

/-! ### Signatures -/

@[simp] theorem Token.encodeCoded_plain (t : Token) : t.encodeCoded.Plain := by
  unfold encodeCoded codedIndex
  split
  case h_1 => exact compressed_plain _
  case h_2 fault heq =>
    split_ifs at heq
    obtain rfl := Except.error.inj heq
    exact stop_plain nofun

namespace TypeSig

mutual

@[simp] theorem encode_plain (s : TypeSig) : s.encode.Plain := by
  cases s with
  | primitive p => exact byte_plain _
  | pointer s => exact (byte_plain _).append (encode_plain s)
  | byRef s => exact (byte_plain _).append (encode_plain s)
  | valueType t => exact (byte_plain _).append t.encodeCoded_plain
  | classType t => exact (byte_plain _).append t.encodeCoded_plain
  | typeParam n => exact (byte_plain _).append (compressed_plain n)
  | instantiation base arguments =>
    exact (((byte_plain _).append (encode_plain base)).append (compressed_plain _)).append
      (encodeAll_plain arguments)
  | array s => exact (byte_plain _).append (encode_plain s)
  | methodParam n => exact (byte_plain _).append (compressed_plain n)

@[simp] theorem encodeAll_plain (ss : List TypeSig) : (encodeAll ss).Plain := by
  cases ss with
  | nil => exact empty_plain
  | cons s rest => exact (encode_plain s).append (encodeAll_plain rest)

end

end TypeSig

@[simp] theorem MethodSig.encode_plain (s : MethodSig) : s.encode.Plain := by
  unfold encode
  split_ifs <;> simp

@[simp] theorem MemberSig.encode_plain (s : MemberSig) : s.encode.Plain := by
  cases s <;> simp [encode]

/-! ### Images -/

namespace Image

@[simp] theorem encodeStrongName_plain (s : Option StrongName) : (encodeStrongName s).Plain := by
  unfold encodeStrongName
  split <;> simp

@[simp] theorem encodeIdentity_plain (i : Identity) : (encodeIdentity i).Plain := by
  simp [encodeIdentity]

@[simp] theorem encodeValue_plain (v : AttributeValue) : (encodeValue v).Plain := by
  unfold encodeValue
  split <;> simp

@[simp] theorem encodeNamed_plain (a : NamedArgument) : (encodeNamed a).Plain := by
  simp [encodeNamed]

@[simp] theorem encodeAttribute_plain (a : Attribute) : (encodeAttribute a).Plain := by
  simp [encodeAttribute]

@[simp] theorem encodeInstruction_plain (i : Instruction) : (encodeInstruction i).Plain := by
  unfold encodeInstruction encodeOperand
  split <;> simp

@[simp] theorem encodeHandler_plain (h : Handler) : (encodeHandler h).Plain := by
  simp [encodeHandler]

@[simp] theorem encodeBody_plain (b : MethodBody) : (encodeBody b).Plain := by
  simp [encodeBody]

@[simp] theorem encodeField_plain (x : Field) : (encodeField x).Plain := by
  simp [encodeField]

@[simp] theorem encodeMethod_plain (x : Method) : (encodeMethod x).Plain := by
  unfold encodeMethod
  split <;> simp

@[simp] theorem encodeProperty_plain (x : Property) : (encodeProperty x).Plain := by
  simp [encodeProperty]

@[simp] theorem encodeEvent_plain (x : Event) : (encodeEvent x).Plain := by
  simp [encodeEvent]

mutual

@[simp] theorem encodeType_plain (t : TypeDef) : (encodeType t).Plain := by
  obtain ⟨self, namespaceName, name, flags, base, interfaces, genericParams, fields, methods,
    properties, events, nested, attributes⟩ := t
  have hnested := encodeTypes_plain nested
  simp [encodeType, hnested]

@[simp] theorem encodeTypes_plain (ts : List TypeDef) : (encodeTypes ts).Plain := by
  cases ts with
  | nil => exact empty_plain
  | cons t rest => exact (encodeType_plain t).append (encodeTypes_plain rest)

end

@[simp] theorem encodeTypeRef_plain (r : TypeRef) : (encodeTypeRef r).Plain := by
  unfold encodeTypeRef encodeScope
  split <;> simp

@[simp] theorem encodeMemberRef_plain (r : MemberRef) : (encodeMemberRef r).Plain := by
  simp [encodeMemberRef]

@[simp] theorem encodeResource_plain (r : Resource) : (encodeResource r).Plain := by
  simp [encodeResource]

@[simp] theorem encodePayload_plain (m : Module) : (encodePayload m).Plain := by
  unfold encodePayload encodeSignature
  split <;> simp [encodeHead, encodeTables]

theorem ofModule_fails (m : Module) : FailsOnly Fault.Plain (Image.ofModule m) := by
  refine FailsOnly.stepwise.bind (encodePayload_plain m).result fun payload => ?_
  dsimp only
  split
  case isTrue => exact FailsOnly.stepwise.bind (.error nofun) fun _ => .ok _
  case isFalse => exact .ok _

end Image

theorem Sidecar.ofModule_fails (m : Module) : FailsOnly Fault.Plain (Sidecar.ofModule m) := by
  have hpoint (x : SequencePoint) : (encodePoint x).Plain := by simp [encodePoint]
  have hentry (e : Entry) : (encodeEntry e).Plain := by simp [encodeEntry, hpoint]
  have hplain : (encode m).Plain := by simp [encode, hentry]
  exact hplain.result

/-! ## What is read -/

namespace Reader

theorem refuse_stops {α : Type} (cause : Malformation) :
    StopsOnly Fault.Plain (refuse cause : Reader α) := .throw nofun

theorem bytes_stops (n : Nat) : StopsOnly Fault.Plain (bytes n) := by
  refine StopsOnly.stepwise.bind .get fun c => ?_
  split
  case isTrue => exact StopsOnly.stepwise.bind (.set _) fun _ => StopsOnly.stepwise.pure _
  case isFalse => exact .throw nofun

theorem byte_stops : StopsOnly Fault.Plain byte := by
  refine StopsOnly.stepwise.bind .get fun c => ?_
  split
  case h_1 => exact .throw nofun
  case h_2 => exact StopsOnly.stepwise.bind (.modify _) fun _ => StopsOnly.stepwise.pure _

theorem times_stops {α : Type} {r : Reader α} (hr : StopsOnly Fault.Plain r) (n : Nat) :
    StopsOnly Fault.Plain (times r n) := by
  induction n with
  | zero => exact StopsOnly.stepwise.pure _
  | succ n ih =>
    exact StopsOnly.stepwise.bind hr fun _ => StopsOnly.stepwise.bind ih fun _ =>
      StopsOnly.stepwise.pure _

theorem sevenBitGroups_stops (groups shift : Nat) (value : UInt32) :
    StopsOnly Fault.Plain (sevenBitGroups groups shift value) := by
  induction groups generalizing shift value with
  | zero => exact refuse_stops _
  | succ groups ih =>
    refine StopsOnly.stepwise.bind byte_stops fun b => ?_
    dsimp only
    split
    case isTrue => exact StopsOnly.stepwise.pure _
    case isFalse => exact StopsOnly.stepwise.bind (StopsOnly.stepwise.pure _) fun _ => ih _ _

theorem text_stops : StopsOnly Fault.Plain text := by
  have hblob : StopsOnly Fault.Plain blob :=
    StopsOnly.stepwise.bind (sevenBitGroups_stops 5 0 0) fun _ => bytes_stops _
  refine StopsOnly.stepwise.bind hblob fun spelled => ?_
  split
  case h_1 => exact StopsOnly.stepwise.pure _
  case h_2 =>
    have hposition : StopsOnly Fault.Plain position :=
      StopsOnly.stepwise.bind .get fun _ => StopsOnly.stepwise.pure _
    exact StopsOnly.stepwise.bind hposition fun _ => refuse_stops _

end Reader

theorem Manifest.build_fails (modules : List Module) : FailsOnly Fault.Plain (build modules) := by
  have hreader : StopsOnly Fault.Plain reader := by
    refine StopsOnly.stepwise.bind (Reader.sevenBitGroups_stops 5 0 0) fun n => ?_
    refine StopsOnly.stepwise.bind (x := Reader.remaining) (fun _ => trivial) fun _ => ?_
    dsimp only
    split
    case isTrue =>
      exact StopsOnly.stepwise.bind (Reader.refuse_stops _) fun _ => Reader.times_stops Reader.text_stops _
    case isFalse =>
      exact StopsOnly.stepwise.bind (StopsOnly.stepwise.pure _) fun _ =>
        Reader.times_stops Reader.text_stops _
  have hmodule (m : Module) : FailsOnly Fault.Plain (ofModule m) := by
    unfold ofModule
    split
    case h_1 => exact .ok _
    case h_2 => exact (hreader.failsOnly _).map _
  refine FailsOnly.stepwise.bind (FailsOnly.stepwise.mapM (fun m => ?_) modules) fun _ => .ok _
  exact FailsOnly.stepwise.bind (hmodule m) fun _ => .ok _

namespace Xml

theorem parse_fails (data : Bytes) : FailsOnly Fault.Plain (parse data) := by
  unfold parse
  split
  case h_1 => exact .error nofun
  case h_2 s _ =>
    cases parseChars s.toList with
    | error cause => exact .error nofun
    | ok root => exact .ok root

theorem mergeDocumentation_fails (assembly : String) (sources : List DocumentationSource) :
    FailsOnly Fault.Plain (mergeDocumentation assembly sources) := by
  refine FailsOnly.stepwise.bind (FailsOnly.stepwise.foldlM (fun members source => ?_) sources _)
    fun _ => .ok _
  refine FailsOnly.stepwise.bind (parse_fails source.data) fun root => ?_
  split
  case h_1 => exact .ok _
  case h_2 => exact .ok _

end Xml

theorem Pattern.parseAll_fails (texts : List String) : FailsOnly Fault.Plain (parseAll texts) := by
  unfold parseAll
  split
  case h_1 =>
    split
    case isTrue => exact .ok _
    case isFalse => exact .error nofun
  case h_2 => exact .error nofun

/-! ## Files -/

theorem FileSystem.expand_fails (fs : FileSystem) (p : Path) :
    FailsOnly Fault.Plain (fs.expand p) := by
  unfold expand
  split
  case h_1 => exact .error nofun
  case h_2 => exact .ok _

namespace Loading

theorem existing_fails (fs : FileSystem) (p : Policy) (path : Path) :
    FailsOnly Fault.Plain (existing fs p path) := by
  unfold existing
  dsimp only
  split
  case isTrue => exact .ok _
  case isFalse => exact .error nofun

/-- Whatever is wrong with a file that has to be read, it is that file that cannot be read. -/
theorem load_fails (fs : FileSystem) (p : Policy) (path : Path) :
    FailsOnly Fault.Plain (load fs p path) := by
  unfold load
  split
  case h_1 => exact .error nofun
  case h_2 m _ =>
    refine FailsOnly.stepwise.bind ?_ fun _ => .ok _
    unfold checkKind
    split
    case isTrue => exact .error nofun
    case isFalse => exact .ok _

end Loading

namespace FileSystem

/-- A file that cannot be written is named. -/
theorem writeAll_fails (files : List (Path × Bytes)) (fs : FileSystem) :
    FailsOnly Fault.Plain (writeAll files fs).1 := by
  have hstage (files : List (Path × Bytes)) : StopsOnly Fault.Plain (stageAll files) := by
    induction files with
    | nil => exact StopsOnly.stepwise.pure _
    | cons file rest ih =>
      refine StopsOnly.stepwise.bind (x := liftM (createParent file.1).run)
        (StopsOnly.lift _) fun result => ?_
      cases result with
      | error cause => exact .throw nofun
      | ok => exact ih
  have hplace (files : List (Path × Bytes)) (placed : List Path) :
      StopsOnly Fault.Plain (placeAll placed files) := by
    induction files generalizing placed with
    | nil => exact StopsOnly.stepwise.pure _
    | cons file rest ih =>
      refine StopsOnly.stepwise.bind (x := liftM (promote file.1 file.2).run)
        (StopsOnly.lift _) fun result => ?_
      cases result with
      | error cause => exact StopsOnly.stepwise.bind (.modify _) fun _ => .throw nofun
      | ok => exact ih _
  exact (StopsOnly.stepwise.bind (hstage files) fun _ => hplace files []).failsOnly fs

end FileSystem

/-! ## Keys and images -/

namespace Signer

theorem ofFile_fails (fs : FileSystem) (path : Path) : FailsOnly Fault.Plain (ofFile fs path) := by
  unfold ofFile ofBytes
  split
  case h_1 =>
    split
    case h_1 => exact .ok _
    case h_2 => exact .error nofun
  case h_2 => exact .error nofun

theorem find_fails (fs : FileSystem) (p : Policy) : FailsOnly Fault.Plain (find fs p) := by
  unfold find ofContainer
  split
  case h_1 => exact (ofFile_fails fs _).map _
  case h_2 =>
    dsimp only
    split
    case h_1 => exact (ofFile_fails fs _).map _
    case h_2 => exact FailsOnly.map (.error nofun) _
  case h_3 => exact .ok _

theorem sign_fails (signer : Signer) (image : Bytes) : FailsOnly Fault.Plain (signer.sign image) := by
  unfold sign SigningKey.sign
  split
  case h_1 => exact .error nofun
  case h_2 => exact .ok _

end Signer

namespace Emission

theorem patch_fails (what : String) (image : Bytes) (offset : Nat) (value : Bytes) :
    FailsOnly Fault.Plain (patch what image offset value) := by
  unfold patch
  split
  case h_1 => exact .ok _
  case h_2 => exact .error nofun

theorem writeMvid_fails (m : Module) (image : Image) : FailsOnly Fault.Plain (writeMvid m image) :=
  FailsOnly.stepwise.bind (patch_fails _ _ _ _) fun _ => .ok _

theorem writeSignature_fails (signer : Signer) (w : Written) (offset length : Nat) :
    FailsOnly Fault.Plain (writeSignature signer w offset length) := by
  refine FailsOnly.stepwise.bind (signer.sign_fails w.image) fun signature => ?_
  dsimp only
  split
  case isTrue => exact FailsOnly.stepwise.bind (.error nofun) fun _ =>
    FailsOnly.stepwise.bind (patch_fails _ _ _ _) fun _ => .ok _
  case isFalse => exact FailsOnly.stepwise.bind (patch_fails _ _ _ _) fun _ => .ok _

theorem finish_fails (set : ModuleSet) (p : Policy) (signer : Option Signer) (m : Module) :
    FailsOnly Fault.Plain (finish set p signer m) := by
  unfold finish
  dsimp only
  split
  case isTrue => exact FailsOnly.stepwise.bind (.ok _) fun _ => .ok _
  case isFalse =>
    exact FailsOnly.stepwise.bind ((Manifest.build_fails set.inputs).map _) fun _ => .ok _

theorem documentationOf_fails (fs : FileSystem) (plan : Plan) (index : Nat) (l : LoadedModule) :
    FailsOnly Fault.Plain (documentationOf fs plan index l) := by
  unfold documentationOf
  dsimp only
  split
  case isTrue =>
    split
    case h_1 => exact .error nofun
    case h_2 => exact .ok _
  case isFalse => exact .ok _

end Emission

/-! ## References

A relocation fails for want of a counterpart or of a row, and a module that is not closed is refused for
a reference. None of this is a conflict.
-/

open StopsOnly

theorem Substitution.resolve_fails (s : Substitution) (source : Nat) (t : Token) :
    FailsOnly Fault.Plain (s.resolve source t) := by
  intro fault h
  obtain ⟨rfl, -⟩ := resolve_eq_error h
  nofun

/-! ### Imports -/

namespace Importing

theorem fresh_stops (table : UInt8) : StopsOnly Fault.Plain (fresh table) := by
  refine stepwise.bind .get fun tables => ?_
  split
  case h_1 => exact stepwise.bind (.set _) fun _ => stepwise.pure _
  case h_2 fault _ heq =>
    unfold Allocator.next at heq
    dsimp only at heq
    split at heq
    case isTrue => exact .throw (by cases heq; exact nofun)
    case isFalse => cases heq

theorem steps_stopsOnly : Steps (@StopsOnly Fault Fault.Plain ImportTables) :=
  ⟨stepwise, .get, fun _ => .throw nofun, fresh_stops, fun f _ => .modify f⟩

theorem memberRefRow_stops (parent : Token) (name : String) (signature : MemberSig) :
    StopsOnly Fault.Plain (memberRefRow parent name signature) := by
  refine stepwise.bind .get fun tables => ?_
  dsimp only
  split
  case h_1 => exact stepwise.pure _
  case h_2 =>
    exact stepwise.bind (fresh_stops _) fun _ => stepwise.bind (.modify _) fun _ => stepwise.pure _

end Importing

theorem Relocation.importAll_stops (l : Linkage) (plan : Plan) :
    StopsOnly Fault.Plain (importAll l plan) := by
  have h := Importing.steps_stopsOnly
  refine h.importAll plan fun source m _ r _ => h.bind (h.type r.parent) fun parent => ?_
  exact h.bind (r.signature.mapTokens_stepwise stepwise h.type) fun _ =>
    Importing.memberRefRow_stops _ _ _

/-! ### Relocations -/

namespace Shape

theorem substitution_fails (shapes : List Shape) (redirects : List Redirect) :
    FailsOnly Fault.Plain (substitution shapes redirects) := by
  intro fault h
  rcases substitution_eq_error h with ⟨_, rfl, -⟩ | ⟨_, _, _, _, _, _, -, -, -, rfl, -⟩ <;> exact nofun

mutual

theorem write_fails (l : Linkage) (sub : Substitution) (s : Shape) :
    FailsOnly Fault.Plain (write l sub s) := by
  obtain ⟨source, origin, name, flags, fields, methods, properties, events, interfaces, attributes,
    nested, members, interfaceNames⟩ := s
  have hresolve (source : Nat) (t : Token) := sub.resolve_fails source t
  have h : Stepwise (@FailsOnly _ Fault.Plain) := FailsOnly.stepwise
  refine h.bind (h.mapM (fun x => Field.mapTokens_stepwise h (hresolve _) _) _) fun _ => ?_
  refine h.bind (h.mapM (fun x => Method.mapTokens_stepwise h (hresolve _) _) _) fun _ => ?_
  refine h.bind (h.mapM (fun x => Property.mapTokens_stepwise h (hresolve _) _) _) fun _ => ?_
  refine h.bind (h.mapM (fun x => Event.mapTokens_stepwise h (hresolve _) _) _) fun _ => ?_
  refine h.bind (h.mapM (fun a => Attribute.mapTokens_stepwise h (hresolve _) _) _) fun _ => ?_
  refine h.bind (hresolve _ _) fun _ => h.bind (h.optionMapM (hresolve _) _) fun _ => ?_
  refine h.bind (h.mapM (fun i => hresolve _ _) _) fun _ => ?_
  exact h.bind (writeAll_fails l sub nested) fun _ => .ok _

theorem writeAll_fails (l : Linkage) (sub : Substitution) (shapes : List Shape) :
    FailsOnly Fault.Plain (writeAll l sub shapes) := by
  cases shapes with
  | nil => exact .ok _
  | cons s rest =>
    exact FailsOnly.stepwise.bind (write_fails l sub s) fun _ =>
      FailsOnly.stepwise.bind (writeAll_fails l sub rest) fun _ => .ok _

end

end Shape

/-! ### Closed modules -/

theorem Module.checkClosed_fails (m : Module) : FailsOnly Fault.Plain m.checkClosed := by
  have h : Stepwise (@FailsOnly _ Fault.Plain) := FailsOnly.stepwise
  have huse (use : TokenUse) : FailsOnly Fault.Plain (checkUse m.definedTokens use) := by
    unfold checkUse
    dsimp only
    split
    case isTrue => exact .ok _
    case isFalse => exact .error nofun
  have hrow (r : TypeRef) : FailsOnly Fault.Plain (m.checkTypeRef m.definedTokens r) := by
    unfold checkTypeRef
    split
    case h_1 =>
      split
      case isTrue => exact .error nofun
      case isFalse => exact .ok _
    case h_2 => exact huse _
    case h_3 => exact .ok _
  refine h.bind (h.forM hrow _) fun _ => h.bind (h.forM huse _) fun _ => ?_
  refine h.bind (h.forM huse _) fun _ => h.bind (h.forM huse _) fun _ => ?_
  unfold checkEntryPoint
  split
  case h_1 => exact .ok _
  case h_2 =>
    split
    case isTrue => exact .error nofun
    case isFalse => exact huse _

end ModuleLinker
