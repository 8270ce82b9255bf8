import ModuleLinker.Image.Reader
import ModuleLinker.Proofs.Bytes.ReadBack
import ModuleLinker.Proofs.Computation
import ModuleLinker.Proofs.Image.Canonical

namespace ModuleLinker

/-! # The round trip through images

A module that can be written is read back, field by field in the order of writing, as its
canonical form. The reader refuses types nested too deep and instantiations of anything but a named type,
of which the writer takes no notice; modules with these are the only ones that are written and not read
back.
-/

namespace Image

open Encoding

/-! ## Identities and attributes -/

theorem readsBack_kind (k : ModuleKind) : (byte (kindCode k)).ReadsBack decodeKind k := by
  refine (readsBack_byte (kindCode k)).last ?_
  cases k <;> rfl

theorem readsBack_strongName (s : Option StrongName) :
    (encodeStrongName s).ReadsBack decodeStrongName s := by
  rcases s with _ | key | value
  · exact (readsBack_byte 0).last rfl
  · exact (readsBack_byte 1).bind ((readsBack_blob key).map fun key => some (StrongName.publicKey key))
  · exact (readsBack_byte 2).bind ((readsBack_u64 value).map fun value => some (StrongName.token value))

theorem readsBack_identity (i : Identity) :
    (encodeIdentity i).ReadsBack decodeIdentity i.canonical := by
  unfold encodeIdentity
  simp only [append_assoc]
  refine (readsBack_text i.name).bind ?_
  refine (readsBack_u16 i.version.major).bind ?_
  refine (readsBack_u16 i.version.minor).bind ?_
  refine (readsBack_u16 i.version.build).bind ?_
  refine (readsBack_u16 i.version.revision).bind ?_
  refine (readsBack_text (i.culture.getD "")).bind ?_
  refine (readsBack_strongName i.strongName).last ?_
  have hculture : (if (i.culture.getD "").isEmpty then none else some (i.culture.getD "")) =
      i.canonical.culture := by
    rcases i with ⟨_, _, _ | culture, _⟩
    · rfl
    · by_cases hempty : culture.isEmpty <;> simp [Identity.canonical, Option.filter, hempty]
  rw [hculture]
  rfl

theorem identity_ne_nil (i : Identity) : (encodeIdentity i).bytes ≠ [] := by
  simp [encodeIdentity, bytes_append_eq_nil, text_ne_nil]

theorem readsBack_value (v : AttributeValue) : (encodeValue v).ReadsBack decodeValue v := by
  cases v with
  | bool b => exact (readsBack_byte 0).bind ((readsBack_bool b).map AttributeValue.bool)
  | i32 n => exact (readsBack_byte 1).bind ((readsBack_i32 n).map AttributeValue.i32)
  | i64 n => exact (readsBack_byte 2).bind ((readsBack_i64 n).map AttributeValue.i64)
  | string s =>
    rcases s with _ | s
    · exact (readsBack_byte 4).last rfl
    · exact (readsBack_byte 3).bind ((readsBack_text s).map fun s => AttributeValue.string (some s))
  | typeName name =>
    exact (readsBack_byte 5).bind ((readsBack_text name).map AttributeValue.typeName)

theorem value_ne_nil (v : AttributeValue) : (encodeValue v).bytes ≠ [] := by
  rcases v with b | n | n | (_ | s) | name
  all_goals exact List.cons_ne_nil _ _

theorem readsBack_named (a : NamedArgument) : (encodeNamed a).ReadsBack decodeNamed a := by
  unfold encodeNamed
  simp only [append_assoc]
  refine (readsBack_bool a.isField).bind ?_
  refine (readsBack_text a.name).bind ?_
  exact (readsBack_value a.value).last rfl

theorem named_ne_nil (a : NamedArgument) : (encodeNamed a).bytes ≠ [] := by
  unfold encodeNamed
  rw [append_assoc]
  exact List.cons_ne_nil _ _

theorem readsBack_attribute (a : Attribute) : (encodeAttribute a).ReadsBack decodeAttribute a := by
  unfold encodeAttribute
  simp only [append_assoc]
  refine (readsBack_token a.type).bind ?_
  refine (readsBack_list (fun v _ => readsBack_value v) fun v _ => value_ne_nil v).bind ?_
  exact (readsBack_list (fun n _ => readsBack_named n) fun n _ => named_ne_nil n).last rfl

theorem attribute_ne_nil (a : Attribute) : (encodeAttribute a).bytes ≠ [] := by
  simp [encodeAttribute, bytes_append_eq_nil, token_ne_nil]

theorem readsBack_attributes (as : List Attribute) :
    (list encodeAttribute as).ReadsBack (Reader.list decodeAttribute) as :=
  readsBack_list (fun a _ => readsBack_attribute a) fun a _ => attribute_ne_nil a

/-! ## Bodies -/

theorem readsBack_operand (x : Operand) : (encodeOperand x).ReadsBack decodeOperand x := by
  cases x with
  | none => exact (readsBack_byte 0).last rfl
  | i32 n => exact (readsBack_byte 1).bind ((readsBack_i32 n).map Operand.i32)
  | i64 n => exact (readsBack_byte 2).bind ((readsBack_i64 n).map Operand.i64)
  | f64 bits => exact (readsBack_byte 3).bind ((readsBack_u64 bits).map Operand.f64)
  | string s => exact (readsBack_byte 4).bind ((readsBack_text s).map Operand.string)
  | token t => exact (readsBack_byte 5).bind ((readsBack_token t).map Operand.token)
  | branch target => exact (readsBack_byte 6).bind ((readsBack_u32 target).map Operand.branch)
  | switch targets =>
    have htargets := readsBack_list (fun n (_ : n ∈ targets) => readsBack_u32 n)
      fun n _ => u32_ne_nil n
    exact (readsBack_byte 7).bind (htargets.map Operand.switch)

theorem readsBack_instruction (i : Instruction) :
    (encodeInstruction i).ReadsBack decodeInstruction i := by
  unfold encodeInstruction
  simp only [append_assoc]
  refine (readsBack_u32 i.offset).bind ?_
  refine (readsBack_u16 i.opcode).bind ?_
  exact (readsBack_operand i.operand).last rfl

theorem instruction_ne_nil (i : Instruction) : (encodeInstruction i).bytes ≠ [] := by
  simp [encodeInstruction, bytes_append_eq_nil, u32_ne_nil]

theorem readsBack_handlerKind (k : HandlerKind) :
    (byte (handlerCode k)).ReadsBack decodeHandlerKind k := by
  refine (readsBack_byte (handlerCode k)).last ?_
  cases k <;> rfl

theorem readsBack_handler (h : Handler) : (encodeHandler h).ReadsBack decodeHandler h.canonical := by
  unfold encodeHandler
  simp only [append_assoc]
  refine (readsBack_handlerKind h.kind).bind ?_
  refine (readsBack_u32 h.tryOffset).bind ?_
  refine (readsBack_u32 h.tryLength).bind ?_
  refine (readsBack_u32 h.handlerOffset).bind ?_
  refine (readsBack_u32 h.handlerLength).bind ?_
  refine (readsBack_token? h.catchType).bind ?_
  exact (readsBack_u32 h.filterOffset).last rfl

theorem handler_ne_nil (h : Handler) : (encodeHandler h).bytes ≠ [] := by
  unfold encodeHandler
  simp only [append_assoc]
  exact List.cons_ne_nil _ _

theorem readsIff_body (b : MethodBody) :
    (encodeBody b).ReadsIff decodeBody (b.locals.all TypeSig.hasNamedBases) b.canonical := by
  have hlocals := readsIff_list (g := id) (fun s (_ : s ∈ b.locals) => s.readsIff)
    fun s _ => s.encode_ne_nil
  rw [List.map_id] at hlocals
  unfold encodeBody
  simp only [append_assoc]
  refine .after (readsBack_u16 b.maxStack) ?_
  refine .after (readsBack_bool b.initLocals) ?_
  refine .before (hlocals.imp List.all_eq_true.symm) ?_
  refine (readsBack_list (fun i _ => readsBack_instruction i)
    fun i _ => instruction_ne_nil i).bind ?_
  exact (readsBack_listMap (fun h _ => readsBack_handler h) fun h _ => handler_ne_nil h).last rfl

/-! ## Types -/

theorem readsIff_field (x : Field) :
    (encodeField x).ReadsIff decodeField x.signature.hasNamedBases x := by
  unfold encodeField
  simp only [append_assoc]
  refine .after (readsBack_token x.token) ?_
  refine .after (readsBack_text x.name) ?_
  refine .after (readsBack_u32 x.flags.bits) ?_
  refine .before x.signature.readsIff ?_
  exact (readsBack_attributes x.attributes).last rfl

theorem field_ne_nil (x : Field) : (encodeField x).bytes ≠ [] := by
  simp [encodeField, bytes_append_eq_nil, token_ne_nil]

theorem readsIff_body? (body : Option MethodBody) :
    (match body with
      | some b => byte 1 ++ encodeBody b
      | none => byte 0).ReadsIff decodeBody?
        (body.all fun b : MethodBody => b.locals.all TypeSig.hasNamedBases)
        (body.map MethodBody.canonical) := by
  rcases body with _ | b
  · exact .of_readsBack rfl ((readsBack_bool false).last rfl)
  · exact .after (readsBack_bool true) ((readsIff_body b).map some)

theorem readsIff_method (x : Method) :
    (encodeMethod x).ReadsIff decodeMethod x.hasNamedBases x.canonical := by
  unfold encodeMethod
  simp only [append_assoc]
  refine .after (readsBack_token x.token) ?_
  refine .after (readsBack_text x.name) ?_
  refine .after (readsBack_u32 x.flags.bits) ?_
  rw [Method.hasNamedBases, Bool.and_eq_true]
  refine .bind x.signature.readsIff ?_
  refine .before (readsIff_body? x.body) ?_
  exact (readsBack_attributes x.attributes).last rfl

theorem method_ne_nil (x : Method) : (encodeMethod x).bytes ≠ [] := by
  simp [encodeMethod, bytes_append_eq_nil, token_ne_nil]

theorem readsIff_property (x : Property) :
    (encodeProperty x).ReadsIff decodeProperty x.signature.hasNamedBases x.canonical := by
  unfold encodeProperty
  simp only [append_assoc]
  refine .after (readsBack_token x.token) ?_
  refine .after (readsBack_text x.name) ?_
  refine .before x.signature.readsIff ?_
  refine (readsBack_token? x.getter).bind ?_
  refine (readsBack_token? x.setter).bind ?_
  exact (readsBack_attributes x.attributes).last rfl

theorem property_ne_nil (x : Property) : (encodeProperty x).bytes ≠ [] := by
  simp [encodeProperty, bytes_append_eq_nil, token_ne_nil]

theorem readsBack_event (x : Event) : (encodeEvent x).ReadsBack decodeEvent x.canonical := by
  unfold encodeEvent
  simp only [append_assoc]
  refine (readsBack_token x.token).bind ?_
  refine (readsBack_text x.name).bind ?_
  refine (readsBack_token x.eventType).bind ?_
  refine (readsBack_token? x.add).bind ?_
  refine (readsBack_token? x.remove).bind ?_
  exact (readsBack_attributes x.attributes).last rfl

theorem event_ne_nil (x : Event) : (encodeEvent x).bytes ≠ [] := by
  simp [encodeEvent, bytes_append_eq_nil, token_ne_nil]

theorem encodeTypes_eq_each (ts : List TypeDef) : encodeTypes ts = each encodeType ts := by
  induction ts with
  | nil => rfl
  | cons t ts ih =>
    rw [encodeTypes, ih]
    rfl

theorem type_ne_nil (t : TypeDef) : (encodeType t).bytes ≠ [] := by
  cases t
  unfold encodeType
  simp [bytes_append_eq_nil, token_ne_nil]

/-- A type is read back if its signatures have a shape that the reader knows and the types nested in
it leave room for as many levels as it allows. -/
theorem readsIff_typeWithin (t : TypeDef) (depth : Nat) :
    (encodeType t).ReadsIff (decodeTypeWithin depth) (t.hasNamedBases ∧ t.nesting < depth)
      t.canonical := by
  induction depth generalizing t with
  | zero =>
    refine ⟨fun h => absurd h.2 (Nat.not_lt_zero _), fun _ _ rest position => ?_⟩
    exact ⟨_, _, .nesting maxNesting position, rfl⟩
  | succ depth ih =>
    rcases t with ⟨self, namespaceName, name, flags, base, interfaces, genericParams, fields, methods,
      properties, events, nested, attributes⟩
    have hfields := readsIff_list (g := id) (fun x (_ : x ∈ fields) => readsIff_field x)
      fun x _ => field_ne_nil x
    rw [List.map_id] at hfields
    have hmethods := readsIff_list (fun x (_ : x ∈ methods) => readsIff_method x)
      fun x _ => method_ne_nil x
    have hproperties := readsIff_list (fun x (_ : x ∈ properties) => readsIff_property x)
      fun x _ => property_ne_nil x
    -- nested types are read with one level less
    have hnested := readsIff_list (fun u (_ : u ∈ nested) => ih u) fun u _ => type_ne_nil u
    unfold encodeType decodeTypeWithin TypeDef.canonical
    rw [encodeTypes_eq_each, TypeDef.canonicalAll_eq_map]
    unfold list at hnested
    simp only [append_assoc]
    refine .after (readsBack_token self) ?_
    refine .after (readsBack_text namespaceName) ?_
    refine .after (readsBack_text name) ?_
    refine .after (readsBack_u32 flags.bits) ?_
    refine .after (readsBack_token? base) ?_
    refine .after (readsBack_list (fun t _ => readsBack_token t) fun t _ => token_ne_nil t) ?_
    refine .after (readsBack_list (fun s _ => readsBack_text s) fun s _ => text_ne_nil s) ?_
    refine .imp ?_ (TypeDef.shape_iff _ depth).symm
    refine .bind hfields ?_
    refine .bind hmethods ?_
    refine .bind hproperties ?_
    refine .after (readsBack_listMap (fun x _ => readsBack_event x) fun x _ => event_ne_nil x) ?_
    -- the number of nested types and the types are one list
    rw [← append_assoc (count nested.length)]
    refine .before hnested ?_
    exact (readsBack_attributes attributes).last rfl

/-! ## Modules -/

theorem readsBack_scope (s : Scope) : (encodeScope s).ReadsBack decodeScope s := by
  cases s with
  | reference index => exact (readsBack_byte 0).bind ((readsBack_u32 index).map Scope.reference)
  | enclosing outer => exact (readsBack_byte 1).bind ((readsBack_token outer).map Scope.enclosing)
  | here => exact (readsBack_byte 2).last rfl

theorem readsBack_typeRef (r : TypeRef) : (encodeTypeRef r).ReadsBack decodeTypeRef r := by
  unfold encodeTypeRef
  simp only [append_assoc]
  refine (readsBack_token r.token).bind ?_
  refine (readsBack_scope r.scope).bind ?_
  refine (readsBack_text r.namespaceName).bind ?_
  exact (readsBack_text r.name).last rfl

theorem typeRef_ne_nil (r : TypeRef) : (encodeTypeRef r).bytes ≠ [] := by
  simp [encodeTypeRef, bytes_append_eq_nil, token_ne_nil]

theorem readsIff_memberRef (r : MemberRef) :
    (encodeMemberRef r).ReadsIff decodeMemberRef r.signature.hasNamedBases r := by
  unfold encodeMemberRef
  simp only [append_assoc]
  refine .after (readsBack_token r.token) ?_
  refine .after (readsBack_token r.parent) ?_
  refine .after (readsBack_text r.name) ?_
  exact r.signature.readsIff.last rfl

theorem memberRef_ne_nil (r : MemberRef) : (encodeMemberRef r).bytes ≠ [] := by
  simp [encodeMemberRef, bytes_append_eq_nil, token_ne_nil]

theorem readsBack_resource (r : Resource) : (encodeResource r).ReadsBack decodeResource r := by
  unfold encodeResource
  simp only [append_assoc]
  refine (readsBack_text r.name).bind ?_
  refine (readsBack_u32 r.flags.bits).bind ?_
  exact (readsBack_blob r.data).last rfl

theorem resource_ne_nil (r : Resource) : (encodeResource r).bytes ≠ [] := by
  simp [encodeResource, bytes_append_eq_nil, text_ne_nil]

theorem readsBack_signature (s : Option Bytes) :
    (encodeSignature s).ReadsBack decodeSignature s := by
  rcases s with _ | signature
  · exact (readsBack_bool false).last rfl
  · exact (readsBack_bool true).bind ((readsBack_blob signature).map some)

/-- Sixteen bytes are the whole of a version id. -/
theorem ofBytes_bytes (id : Mvid) : Mvid.ofBytes id.bytes = id := by
  rcases id with ⟨bytes, hlength⟩
  simp only [Mvid.ofBytes, Mvid.mk.injEq]
  rw [List.take_left' hlength]

theorem readsBack_mvid (id : Mvid) : (ofBytes id.bytes).ReadsBack (Reader.bytes 16) id.bytes := by
  have h := readsBack_bytes id.bytes
  rwa [id.length_bytes] at h

theorem readsIff_payload (m : Module) :
    (encodePayload m).ReadsIff decodePayload
      (m.hasNamedBases ∧ ∀ t ∈ m.types, t.nesting ≤ maxNesting) m.canonical := by
  have hmemberRefs := readsIff_list (g := id) (fun r (_ : r ∈ m.memberRefs) => readsIff_memberRef r)
    fun r _ => memberRef_ne_nil r
  rw [List.map_id] at hmemberRefs
  have htypes := readsIff_list (fun t (_ : t ∈ m.types) => readsIff_typeWithin t (maxNesting + 1))
    fun t _ => type_ne_nil t
  unfold list at htypes
  unfold encodePayload encodeHead encodeTables
  rw [encodeTypes_eq_each]
  simp only [append_assoc]
  refine .after (readsBack_identity m.identity) ?_
  refine .after (readsBack_kind m.kind) ?_
  refine .after (readsBack_text m.platform) ?_
  refine .after (readsBack_mvid m.mvid) ?_
  refine .after (readsBack_listMap (fun i _ => readsBack_identity i) fun i _ => identity_ne_nil i) ?_
  refine .after (readsBack_list (fun r _ => readsBack_typeRef r) fun r _ => typeRef_ne_nil r) ?_
  refine .imp ?_ (Module.shape_iff m maxNesting).symm
  refine .bind hmemberRefs ?_
  -- here too the number and the types are one list
  rw [← append_assoc (count m.types.length)]
  refine .before htypes ?_
  refine (readsBack_list (fun r _ => readsBack_resource r) fun r _ => resource_ne_nil r).bind ?_
  refine (readsBack_attributes m.attributes).bind ?_
  refine (readsBack_token? m.entryPoint).bind ?_
  refine (readsBack_signature m.signature).last ?_
  rw [ofBytes_bytes]
  rfl

theorem readsBack_payload {m : Module} (hbases : m.hasNamedBases)
    (hnesting : ∀ t ∈ m.types, t.nesting ≤ maxNesting) :
    (encodePayload m).ReadsBack decodePayload m.canonical :=
  (readsIff_payload m).readsBack ⟨hbases, hnesting⟩

/-! ## Images -/

/-- The header of an image whose payload has `length` bytes. -/
def encodeHeader (length : Nat) : Encoding :=
  ofBytes magic ++ (u16 version ++ (ofBytes [0, 0] ++ u32 (UInt32.ofNat length)))

theorem readsBack_header {length : Nat} (hlength : length < UInt32.size) :
    (encodeHeader length).ReadsBack (decodeHeader (headerLength + length)) () := by
  have hcount : (UInt32.ofNat length).toNat = length := by
    rw [UInt32.toNat_ofNat', Nat.mod_eq_of_lt hlength]
  refine (readsBack_bytes magic).bind ?_
  refine (readsBack_u16 version).bind ?_
  refine ((readsBack_bytes [0, 0]).map fun _ => ()).bind ?_
  refine (readsBack_u32 (UInt32.ofNat length)).last ?_
  rw [hcount, Nat.add_sub_cancel_left]
  dsimp only
  rw [bne_self_eq_false]
  rfl

theorem length_header (length : Nat) : (encodeHeader length).bytes.length = headerLength := rfl

/-- What was written after a header is read as long as nothing follows it. -/
theorem decode_append {e : Encoding} {m : Module} (hback : e.ReadsBack decodePayload m)
    (hfits : e.Fits) :
    (decode (headerLength + e.bytes.length)).run ((encodeHeader e.bytes.length).bytes ++ e.bytes) =
      .ok m := by
  have hheaderFits : (encodeHeader e.bytes.length).Fits :=
    ⟨rfl, by rw [length_header]; decide⟩
  have hheader := readsBack_header hfits.length_lt hheaderFits e.bytes 0
  have hpayload := hback hfits [] ((encodeHeader e.bytes.length).bytes.length)
  rw [List.append_nil] at hpayload
  rw [Nat.zero_add] at hheader
  unfold Reader.run decode Cursor.start
  rw [Reader.runAt_bind_of_ok hheader, Reader.runAt_bind_of_ok hpayload]
  rfl

/-- An image that could be made is a header and the payload, whose length 32 bits hold. -/
theorem ofModule_spec {m : Module} {image : Image} (hwrite : ofModule m = .ok image) :
    (encodePayload m).Fits ∧
      image.bytes = (encodeHeader (encodePayload m).bytes.length).bytes ++ (encodePayload m).bytes := by
  unfold ofModule result at hwrite
  rcases hfault : (encodePayload m).fault with _ | fault
  · rw [hfault] at hwrite
    -- writing refuses a payload whose length 32 bits do not hold
    by_cases hlength : UInt32.size ≤ (encodePayload m).bytes.length
    · simp [bind, Except.bind, hlength, throw, throwThe, MonadExceptOf.throw] at hwrite
    · simp only [bind, Except.bind, hlength, if_false, pure, Except.pure, Except.ok.injEq] at hwrite
      rw [← hwrite]
      exact ⟨⟨hfault, Nat.lt_of_not_le hlength⟩, rfl⟩
  · rw [hfault] at hwrite
    exact nomatch hwrite

end Image

namespace Module

/-- An image is read as what its payload is read back as. -/
theorem ofImage_of_readsBack {m n : Module} {image : Image} (hwrite : Image.ofModule m = .ok image)
    (hback : (Image.encodePayload m).ReadsBack Image.decodePayload n) :
    ofImage image.bytes = .ok n := by
  rcases Image.ofModule_spec hwrite with ⟨hfits, hbytes⟩
  have hread := Image.decode_append hback hfits
  unfold ofImage
  rw [hbytes, List.length_append, Image.length_header]
  exact hread

/-- The image of a module holds the module in its canonical form. -/
theorem ofImage_bytes {m : Module} {image : Image} (hwrite : Image.ofModule m = .ok image)
    (hnesting : ∀ t ∈ m.types, t.nesting ≤ Image.maxNesting) (hbases : m.hasNamedBases) :
    ofImage image.bytes = .ok m.canonical :=
  ofImage_of_readsBack hwrite (Image.readsBack_payload hbases hnesting)

/-- A module with something of all that an image changes: a null token where there may be none, a
place in a source text, and the empty culture. -/
def withUnkeptParts : Module :=
  let handler : Handler := ⟨.catch, 0, 1, 1, 1, some .null, 0⟩
  let body : MethodBody :=
    ⟨8, true, [.instantiation (.classType ⟨0x02000001⟩) [.primitive .i4]], [⟨0, 0x2A, .none⟩],
      [handler], [⟨0, "Run.cs", 1, 1, 1, 2⟩]⟩
  let run : Method :=
    ⟨⟨0x06000001⟩, "Run", ⟨0⟩, ⟨true, 1, .primitive .void, [.methodParam 0]⟩, some body, []⟩
  let inner : TypeDef := ⟨⟨0x02000002⟩, "", "Inner", ⟨2⟩, none, [], [], [], [run], [], [], [], []⟩
  let outer : TypeDef :=
    ⟨⟨0x02000001⟩, "N", "Outer", ⟨1⟩, some .null, [], ["T"], [], [], [], [], [inner], []⟩
  { ofIdentity ⟨"Library", ⟨1, 0, 0, 0⟩, some "", some (.token 7)⟩ .dll with types := [outer] }

theorem ofImage_bytes_withUnkeptParts :
    ∃ image, Image.ofModule withUnkeptParts = .ok image ∧
      ofImage image.bytes = .ok withUnkeptParts.canonical := by
  have hok : (Image.ofModule withUnkeptParts).isOk := by decide +kernel
  rcases exists_eq_ok hok with ⟨image, hwrite⟩
  exact ⟨image, hwrite, ofImage_bytes hwrite (by decide) (by decide)⟩

end Module

/-! ## Images that are not read -/

namespace Image

open Encoding

/-- Behind a header that is in order, a payload is refused for what the reader finds in it. -/
theorem decode_append_refused {e : Encoding} (hrefused : e.Refused decodePayload) (hfits : e.Fits) :
    ∃ fault, ShapeFault fault ∧
      (decode (headerLength + e.bytes.length)).run
        ((encodeHeader e.bytes.length).bytes ++ e.bytes) = .error fault := by
  have hheaderFits : (encodeHeader e.bytes.length).Fits :=
    ⟨rfl, by rw [length_header]; decide⟩
  have hheader := readsBack_header hfits.length_lt hheaderFits e.bytes 0
  obtain ⟨fault, c, hshape, hpayload⟩ :=
    hrefused hfits [] (encodeHeader e.bytes.length).bytes.length
  rw [List.append_nil] at hpayload
  rw [Nat.zero_add] at hheader
  refine ⟨fault, hshape, ?_⟩
  unfold Reader.run decode Cursor.start
  rw [Reader.runAt_bind_of_ok hheader, Reader.runAt_bind, hpayload]

end Image

namespace Module

variable {m : Module} {image : Image}

/-- A module with another shape than the reader knows is written, and its image is refused. -/
theorem ofImage_bytes_refused (hwrite : Image.ofModule m = .ok image)
    (hshape : ¬(m.hasNamedBases ∧ ∀ t ∈ m.types, t.nesting ≤ Image.maxNesting)) :
    ∃ fault, ShapeFault fault ∧ ofImage image.bytes = .error fault := by
  obtain ⟨hfits, hbytes⟩ := Image.ofModule_spec hwrite
  have hrefused := (Image.readsIff_payload m).refused hshape
  unfold ofImage
  rw [hbytes, List.length_append, Image.length_header]
  exact Image.decode_append_refused hrefused hfits

/-- What was written is read if and only if its instantiations have named bases and its types are
nested no deeper than the reader allows. -/
theorem ofImage_bytes_isOk_iff (hwrite : Image.ofModule m = .ok image) :
    (ofImage image.bytes).isOk ↔
      m.hasNamedBases ∧ ∀ t ∈ m.types, t.nesting ≤ Image.maxNesting := by
  constructor
  · intro hok
    by_contra hshape
    obtain ⟨fault, -, hfault⟩ := ofImage_bytes_refused hwrite hshape
    rw [hfault] at hok
    exact nomatch hok
  · rintro ⟨hbases, hnesting⟩
    rw [ofImage_of_readsBack hwrite (Image.readsBack_payload hbases hnesting)]
    rfl

/-- A module with one class that has one field of the given type. -/
def withField (type : TypeSig) : Module :=
  let field : Field := ⟨⟨0x04000001⟩, "x", ⟨6⟩, type, []⟩
  let holder : TypeDef :=
    ⟨⟨0x02000001⟩, "N", "T", ⟨1⟩, none, [], [], [field], [], [], [], [], []⟩
  { ofIdentity ⟨"A", ⟨1, 0, 0, 0⟩, none, none⟩ .dll with types := [holder] }

theorem ofImage_bytes_isOk_iff_withField :
    ∃ image,
      Image.ofModule (withField (.instantiation (.classType ⟨0x02000001⟩) [.primitive .i4])) =
        .ok image ∧ (ofImage image.bytes).isOk := by
  have hok : (Image.ofModule
      (withField (.instantiation (.classType ⟨0x02000001⟩) [.primitive .i4]))).isOk := by
    decide +kernel
  obtain ⟨image, hwrite⟩ := exists_eq_ok hok
  exact ⟨image, hwrite, (ofImage_bytes_isOk_iff hwrite).2 (by decide)⟩

/-- A field of an instantiated primitive type is written, and the image cannot be read. -/
theorem ofImage_refuses_instantiated_primitive :
    ∃ image, Image.ofModule (withField (.instantiation (.primitive .i4) [])) = .ok image ∧
      ¬(ofImage image.bytes).isOk := by
  have hok : (Image.ofModule (withField (.instantiation (.primitive .i4) []))).isOk := by
    decide +kernel
  have hread : ((Image.ofModule (withField (.instantiation (.primitive .i4) []))).bind
      fun image => ofImage image.bytes).isOk = false := by
    decide +kernel
  obtain ⟨image, hwrite⟩ := exists_eq_ok hok
  rw [hwrite] at hread
  exact ⟨image, hwrite, Bool.eq_false_iff.1 hread⟩

end Module

end ModuleLinker
