import ModuleLinker.Proofs.Image.Places
import ModuleLinker.Proofs.Signature.WriteBack

namespace ModuleLinker

/-! # Images, written again

Reading an image and writing the module that it holds brings the image into a standard form: the
module can be written, its image is no longer than the one that was read, and holds the same module.
What was read is therefore in the canonical form already, and has the shape that the reader asks for.
-/

namespace Image

open Encoding Reader

/-- Elements that stay what they are make up the same list. -/
theorem map_eq_self {f : α → α} {xs : List α} (h : ∀ x ∈ xs, f x = x) : xs.map f = xs :=
  (List.map_congr_left h).trans (List.map_id xs)

/-! ## Identities and attributes -/

theorem takes_kind : decodeKind.Takes fun k n => (byte (kindCode k)).Within n := by
  refine takes_byte.bind fun code n h => ?_
  subst h
  split
  case h_5 => exact .refuse
  all_goals exact .pure (within_byte _)

theorem takes_strongName : decodeStrongName.Takes fun s n => (encodeStrongName s).Within n := by
  refine takes_byte.bind fun tag n h => ?_
  subst h
  split
  · exact .pure (within_byte _)
  · exact takes_blob.map fun key m hkey => (within_byte _).append hkey
  · exact takes_u64.map fun value m hvalue => (within_byte _).append hvalue
  · exact .refuse

theorem takes_identity :
    decodeIdentity.Takes fun i n => (encodeIdentity i).Within n ∧ i.canonical = i := by
  refine takes_text.bind fun name n₁ hname => ?_
  refine takes_u16.bind fun major n₂ hmajor => ?_
  refine takes_u16.bind fun minor n₃ hminor => ?_
  refine takes_u16.bind fun build n₄ hbuild => ?_
  refine takes_u16.bind fun revision n₅ hrevision => ?_
  refine takes_text.bind fun culture n₆ hculture => ?_
  refine takes_strongName.map fun strongName n₇ hstrongName => ?_
  -- the empty text is the neutral culture, which is written as the empty text
  have hneutral : (if culture.isEmpty then none else some culture).getD "" = culture := by
    by_cases hempty : culture.isEmpty
    · rw [if_pos hempty, Option.getD_none, String.isEmpty_iff.1 hempty]
    · rw [if_neg hempty, Option.getD_some]
  refine ⟨?_, ?_⟩
  · unfold encodeIdentity
    simp only [append_assoc, hneutral]
    exact hname.append (hmajor.append (hminor.append (hbuild.append (hrevision.append
      (hculture.append hstrongName)))))
  · by_cases hempty : culture.isEmpty <;> simp [Identity.canonical, Option.filter, hempty]

theorem takes_value : decodeValue.Takes fun v n => (encodeValue v).Within n := by
  refine takes_byte.bind fun tag n h => ?_
  subst h
  split
  · exact takes_bool.map fun b m hb => (within_byte _).append hb
  · exact takes_i32.map fun k m hk => (within_byte _).append hk
  · exact takes_i64.map fun k m hk => (within_byte _).append hk
  · exact takes_text.map fun s m hs => (within_byte _).append hs
  · exact .pure (within_byte _)
  · exact takes_text.map fun s m hs => (within_byte _).append hs
  · exact .refuse

theorem takes_named : decodeNamed.Takes fun a n => (encodeNamed a).Within n := by
  refine takes_bool.bind fun isField n₁ hisField => takes_text.bind fun name n₂ hname => ?_
  refine takes_value.map fun value n₃ hvalue => ?_
  unfold encodeNamed
  rw [append_assoc]
  exact hisField.append (hname.append hvalue)

theorem takes_attribute : decodeAttribute.Takes fun a n => (encodeAttribute a).Within n := by
  refine takes_token.bind fun type n₁ htype => (takes_plainList takes_value).bind fun fixed n₂ hfixed => ?_
  refine (takes_plainList takes_named).map fun named n₃ hnamed => ?_
  unfold encodeAttribute
  rw [append_assoc]
  exact htype.append (hfixed.append hnamed)

theorem takes_attributes :
    (Reader.list decodeAttribute).Takes fun as n => (Encoding.list encodeAttribute as).Within n :=
  takes_plainList takes_attribute

/-! ## Bodies -/

theorem takes_operand : decodeOperand.Takes fun x n => (encodeOperand x).Within n := by
  refine takes_byte.bind fun tag n h => ?_
  subst h
  split
  · exact .pure (within_byte _)
  · exact takes_i32.map fun k m hk => (within_byte _).append hk
  · exact takes_i64.map fun k m hk => (within_byte _).append hk
  · exact takes_u64.map fun bits m hbits => (within_byte _).append hbits
  · exact takes_text.map fun s m hs => (within_byte _).append hs
  · exact takes_token.map fun t m ht => (within_byte _).append ht
  · exact takes_u32.map fun target m htarget => (within_byte _).append htarget
  · exact (takes_plainList takes_u32).map fun targets m htargets => (within_byte _).append htargets
  · exact .refuse

theorem takes_instruction : decodeInstruction.Takes fun i n => (encodeInstruction i).Within n := by
  refine takes_u32.bind fun offset n₁ hoffset => takes_u16.bind fun opcode n₂ hopcode => ?_
  refine takes_operand.map fun operand n₃ hoperand => ?_
  unfold encodeInstruction
  rw [append_assoc]
  exact hoffset.append (hopcode.append hoperand)

theorem takes_handlerKind :
    decodeHandlerKind.Takes fun k n => (byte (handlerCode k)).Within n := by
  refine takes_byte.bind fun code n h => ?_
  subst h
  split
  case h_5 => exact .refuse
  all_goals exact .pure (within_byte _)

theorem takes_handler :
    decodeHandler.Takes fun h n => (encodeHandler h).Within n ∧ h.canonical = h := by
  refine takes_handlerKind.bind fun kind n₁ hkind => ?_
  refine takes_u32.bind fun tryOffset n₂ htryOffset => ?_
  refine takes_u32.bind fun tryLength n₃ htryLength => ?_
  refine takes_u32.bind fun handlerOffset n₄ hhandlerOffset => ?_
  refine takes_u32.bind fun handlerLength n₅ hhandlerLength => ?_
  refine takes_token?.bind fun catchType n₆ hcatchType => ?_
  refine takes_u32.map fun filterOffset n₇ hfilterOffset => ⟨?_, ?_⟩
  · unfold encodeHandler
    simp only [append_assoc]
    exact hkind.append (htryOffset.append (htryLength.append (hhandlerOffset.append
      (hhandlerLength.append (hcatchType.1.append hfilterOffset)))))
  · rw [Handler.canonical, hcatchType.2]

theorem takes_body : decodeBody.Takes fun b n =>
    (encodeBody b).Within n ∧ b.canonical = b ∧ b.locals.all TypeSig.hasNamedBases := by
  refine takes_u16.bind fun maxStack n₁ hmaxStack => ?_
  refine takes_bool.bind fun initLocals n₂ hinitLocals => ?_
  refine (takes_list TypeSig.takes_decode).bind fun locals n₃ hlocals => ?_
  refine (takes_plainList takes_instruction).bind fun code n₄ hcode => ?_
  refine (takes_list takes_handler).map fun handlers n₅ hhandlers => ⟨?_, ?_, ?_⟩
  · unfold encodeBody
    simp only [append_assoc]
    exact hmaxStack.append (hinitLocals.append (hlocals.1.append (hcode.append hhandlers.1)))
  · rw [MethodBody.canonical, map_eq_self hhandlers.2]
  · exact List.all_eq_true.2 hlocals.2

/-! ## Types -/

theorem takes_field : decodeField.Takes fun x n =>
    (encodeField x).Within n ∧ x.signature.hasNamedBases := by
  refine takes_token.bind fun token n₁ htoken => takes_text.bind fun name n₂ hname => ?_
  refine takes_u32.bind fun flags n₃ hflags => ?_
  refine TypeSig.takes_decode.bind fun signature n₄ hsignature => ?_
  refine takes_attributes.map fun attributes n₅ hattributes => ⟨?_, hsignature.2⟩
  unfold encodeField
  simp only [append_assoc]
  exact htoken.append (hname.append (hflags.append (hsignature.1.append hattributes)))

theorem takes_body? : decodeBody?.Takes fun body n =>
    (match body with
      | some b => byte 1 ++ encodeBody b
      | none => byte 0).Within n ∧ body.map MethodBody.canonical = body ∧
      body.all fun b => b.locals.all TypeSig.hasNamedBases := by
  refine takes_bool.bind fun hasBody n h => ?_
  cases hasBody with
  | false => exact .pure ⟨h, rfl, rfl⟩
  | true =>
    refine takes_body.map fun b m hb => ⟨h.append hb.1, ?_, hb.2.2⟩
    rw [Option.map_some, hb.2.1]

theorem takes_method : decodeMethod.Takes fun x n =>
    (encodeMethod x).Within n ∧ x.canonical = x ∧ x.hasNamedBases := by
  refine takes_token.bind fun token n₁ htoken => takes_text.bind fun name n₂ hname => ?_
  refine takes_u32.bind fun flags n₃ hflags => ?_
  refine MethodSig.takes_decode.bind fun signature n₄ hsignature => ?_
  refine takes_body?.bind fun body n₅ hbody => ?_
  refine takes_attributes.map fun attributes n₆ hattributes => ⟨?_, ?_, ?_⟩
  · unfold encodeMethod
    simp only [append_assoc]
    exact htoken.append (hname.append (hflags.append (hsignature.1.append
      (hbody.1.append hattributes))))
  · rw [Method.canonical, hbody.2.1]
  · rw [Method.hasNamedBases, hsignature.2, hbody.2.2, Bool.true_and]

theorem takes_property : decodeProperty.Takes fun x n =>
    (encodeProperty x).Within n ∧ x.canonical = x ∧ x.signature.hasNamedBases := by
  refine takes_token.bind fun token n₁ htoken => takes_text.bind fun name n₂ hname => ?_
  refine TypeSig.takes_decode.bind fun signature n₃ hsignature => ?_
  refine takes_token?.bind fun getter n₄ hgetter => takes_token?.bind fun setter n₅ hsetter => ?_
  refine takes_attributes.map fun attributes n₆ hattributes => ⟨?_, ?_, hsignature.2⟩
  · unfold encodeProperty
    simp only [append_assoc]
    exact htoken.append (hname.append (hsignature.1.append (hgetter.1.append
      (hsetter.1.append hattributes))))
  · rw [Property.canonical, hgetter.2, hsetter.2]

theorem takes_event : decodeEvent.Takes fun x n =>
    (encodeEvent x).Within n ∧ x.canonical = x := by
  refine takes_token.bind fun token n₁ htoken => takes_text.bind fun name n₂ hname => ?_
  refine takes_token.bind fun eventType n₃ heventType => ?_
  refine takes_token?.bind fun add n₄ hadd => takes_token?.bind fun remove n₅ hremove => ?_
  refine takes_attributes.map fun attributes n₆ hattributes => ⟨?_, ?_⟩
  · unfold encodeEvent
    simp only [append_assoc]
    exact htoken.append (hname.append (heventType.append (hadd.1.append
      (hremove.1.append hattributes))))
  · rw [Event.canonical, hadd.2, hremove.2]

theorem takes_typeWithin (depth : Nat) : (decodeTypeWithin depth).Takes fun t n =>
    (encodeType t).Within n ∧ t.canonical = t ∧ t.hasNamedBases ∧ t.nesting < depth := by
  induction depth with
  | zero => exact .refuseAt
  | succ depth ih =>
    unfold decodeTypeWithin
    refine takes_token.bind fun self n₁ hself => ?_
    refine takes_text.bind fun namespaceName n₂ hnamespaceName => ?_
    refine takes_text.bind fun name n₃ hname => ?_
    refine takes_u32.bind fun flags n₄ hflags => ?_
    refine takes_token?.bind fun base n₅ hbase => ?_
    refine (takes_plainList takes_token).bind fun interfaces n₆ hinterfaces => ?_
    refine (takes_plainList takes_text).bind fun genericParams n₇ hgenericParams => ?_
    refine (takes_list takes_field).bind fun fields n₈ hfields => ?_
    refine (takes_list takes_method).bind fun methods n₉ hmethods => ?_
    refine (takes_list takes_property).bind fun properties n₁₀ hproperties => ?_
    refine (takes_list takes_event).bind fun events n₁₁ hevents => ?_
    refine (takes_list ih).bind fun nested n₁₂ hnested => ?_
    refine takes_attributes.map fun attributes n₁₃ hattributes => ⟨?_, ?_, ?_⟩
    · unfold encodeType
      rw [encodeTypes_eq_each]
      -- the number of nested types and the types are one list
      simp only [append_assoc]
      rw [← append_assoc (count nested.length)]
      exact hself.append (hnamespaceName.append (hname.append (hflags.append (hbase.1.append
        (hinterfaces.append (hgenericParams.append (hfields.1.append (hmethods.1.append
          (hproperties.1.append (hevents.1.append (hnested.1.append hattributes)))))))))))
    · rw [TypeDef.canonical, hbase.2, map_eq_self fun x hx => (hmethods.2 x hx).1,
        map_eq_self fun x hx => (hproperties.2 x hx).1, map_eq_self hevents.2,
        TypeDef.canonicalAll_eq_map, map_eq_self fun u hu => (hnested.2 u hu).1]
    · refine (TypeDef.shape_iff _ depth).2 ⟨hfields.2, ?_, ?_, ?_⟩
      · exact fun x hx => (hmethods.2 x hx).2
      · exact fun x hx => (hproperties.2 x hx).2
      · exact fun u hu => (hnested.2 u hu).2

/-! ## Modules -/

theorem takes_scope : decodeScope.Takes fun s n => (encodeScope s).Within n := by
  refine takes_byte.bind fun tag n h => ?_
  subst h
  split
  · exact takes_u32.map fun index m hindex => (within_byte _).append hindex
  · exact takes_token.map fun outer m houter => (within_byte _).append houter
  · exact .pure (within_byte _)
  · exact .refuse

theorem takes_typeRef : decodeTypeRef.Takes fun r n => (encodeTypeRef r).Within n := by
  refine takes_token.bind fun token n₁ htoken => takes_scope.bind fun scope n₂ hscope => ?_
  refine takes_text.bind fun namespaceName n₃ hnamespaceName => takes_text.map fun name n₄ hname => ?_
  unfold encodeTypeRef
  simp only [append_assoc]
  exact htoken.append (hscope.append (hnamespaceName.append hname))

theorem takes_memberRef : decodeMemberRef.Takes fun r n =>
    (encodeMemberRef r).Within n ∧ r.signature.hasNamedBases := by
  refine takes_token.bind fun token n₁ htoken => takes_token.bind fun parent n₂ hparent => ?_
  refine takes_text.bind fun name n₃ hname => ?_
  refine MemberSig.takes_decode.map fun signature n₄ hsignature => ⟨?_, hsignature.2⟩
  unfold encodeMemberRef
  simp only [append_assoc]
  exact htoken.append (hparent.append (hname.append hsignature.1))

theorem takes_resource : decodeResource.Takes fun r n => (encodeResource r).Within n := by
  refine takes_text.bind fun name n₁ hname => takes_u32.bind fun flags n₂ hflags => ?_
  refine takes_blob.map fun data n₃ hdata => ?_
  unfold encodeResource
  rw [append_assoc]
  exact hname.append (hflags.append hdata)

theorem takes_signature : decodeSignature.Takes fun s n => (encodeSignature s).Within n := by
  refine takes_bool.bind fun signed n h => ?_
  cases signed with
  | false => exact .pure h
  | true => exact takes_blob.map fun signature m hsignature => h.append hsignature

theorem takes_mvid : (Reader.bytes 16).Takes fun b n => (ofBytes (Mvid.ofBytes b).bytes).Within n := by
  refine (takes_bytes 16).mono fun b n h => ⟨rfl, ?_⟩
  rw [bytes_ofBytes, (Mvid.ofBytes b).length_bytes, h.2]

theorem takes_payload : decodePayload.Takes fun m n =>
    (encodePayload m).Within n ∧ m.canonical = m ∧
      m.hasNamedBases ∧ ∀ t ∈ m.types, t.nesting ≤ maxNesting := by
  refine takes_identity.bind fun identity n₁ hidentity => ?_
  refine takes_kind.bind fun kind n₂ hkind => takes_text.bind fun platform n₃ hplatform => ?_
  refine takes_mvid.bind fun mvid n₄ hmvid => ?_
  refine (takes_list takes_identity).bind fun references n₅ hreferences => ?_
  refine (takes_plainList takes_typeRef).bind fun typeRefs n₆ htypeRefs => ?_
  refine (takes_list takes_memberRef).bind fun memberRefs n₇ hmemberRefs => ?_
  refine (takes_list (takes_typeWithin (maxNesting + 1))).bind fun types n₈ htypes => ?_
  refine (takes_plainList takes_resource).bind fun resources n₉ hresources => ?_
  refine takes_attributes.bind fun attributes n₁₀ hattributes => ?_
  refine takes_token?.bind fun entryPoint n₁₁ hentryPoint => ?_
  refine takes_signature.map fun signature n₁₂ hsignature => ⟨?_, ?_, ?_⟩
  · unfold encodePayload encodeHead encodeTables
    rw [encodeTypes_eq_each]
    simp only [append_assoc]
    rw [← append_assoc (count types.length)]
    exact hidentity.1.append (hkind.append (hplatform.append (hmvid.append (hreferences.1.append
      (htypeRefs.append (hmemberRefs.1.append (htypes.1.append (hresources.append
        (hattributes.append (hentryPoint.1.append hsignature))))))))))
  · rw [Module.canonical, hidentity.2, map_eq_self hreferences.2,
      map_eq_self fun t ht => (htypes.2 t ht).1, hentryPoint.2]
  · exact (Module.shape_iff _ maxNesting).2 ⟨hmemberRefs.2, fun t ht => (htypes.2 t ht).2⟩

/-! ## Images -/

/-- A header takes twelve bytes, whatever it holds in those that say nothing, and the length in it is
one that it has room for. -/
theorem takes_header (length : Nat) : (decodeHeader length).Takes fun _ n =>
    n = headerLength ∧ length - headerLength < UInt32.size := by
  have hu16 : u16.Takes fun _ n => n = 2 := (takes_bytes 2).map fun _ _ h => h.2
  have hu32 : u32.Takes fun _ n => n = 4 := (takes_bytes 4).map fun _ _ h => h.2
  have hskip : (skip 2).Takes fun _ n => n = 2 := (takes_bytes 2).map fun _ _ h => h.2
  unfold decodeHeader
  refine (takes_bytes 4).bind fun found n₁ h₁ => ?_
  split_ifs
  · exact .refused .refuse
  refine hu16.bind fun found n₂ h₂ => ?_
  split_ifs
  · exact .refused .refuse
  refine hskip.bind fun _ n₃ h₃ => hu32.bind fun payload n₄ h₄ => ?_
  dsimp only
  split_ifs with hlength
  · exact .refuse
  · rw [bne_iff_ne, ne_eq, Decidable.not_not] at hlength
    refine .pure ⟨?_, hlength ▸ payload.toNat_lt⟩
    rw [h₁.2, h₂, h₃, h₄]
    rfl

/-- What was read to its end as an image has the length of a header and of what follows it, in which
there is room for the module that was read. -/
theorem decode_eq_ok {data : Bytes} {m : Module} (h : (decode data.length).run data = .ok m) :
    ∃ n, data.length = headerLength + n ∧ n < UInt32.size ∧ (encodePayload m).Within n ∧
      m.canonical = m ∧ m.hasNamedBases ∧ ∀ t ∈ m.types, t.nesting ≤ maxNesting := by
  obtain ⟨c, hrun⟩ := runAt_of_run h
  obtain ⟨_, c₁, hheader, hrest⟩ := runAt_bind_eq_ok hrun
  obtain ⟨m', c₂, hpayload, hend⟩ := runAt_bind_eq_ok hrest
  obtain ⟨left, c₃, hremaining, hlast⟩ := runAt_bind_eq_ok hend
  cases hremaining
  by_cases hempty : 0 < c₂.rest.length
  · -- an image with bytes behind the module is refused
    rw [if_pos hempty] at hlast
    exact nomatch hlast
  · rw [if_neg hempty] at hlast
    cases hlast
    obtain ⟨n₁, hn₁, hlength, hsize⟩ := takes_header _ _ _ _ hheader
    obtain ⟨n₂, hn₂, hwithin, hshape⟩ := takes_payload _ _ _ hpayload
    have hdata : data.length = n₁ + c₁.rest.length := hn₁
    exact ⟨n₂, by omega, by omega, hwithin, hshape⟩

end Image

namespace Module

/-- Reading an image and writing what it holds gives an image that is no longer and holds the same
module. -/
theorem ofModule_of_ofImage {data : Bytes} {m : Module} (h : ofImage data = .ok m) :
    ∃ image, Image.ofModule m = .ok image ∧ image.bytes.length ≤ data.length ∧
      ofImage image.bytes = .ok m := by
  obtain ⟨n, hlength, hsize, hwithin, hcanonical, hbases, hnesting⟩ := Image.decode_eq_ok h
  have hfits : (Image.encodePayload m).Fits :=
    ⟨hwithin.fault_eq, lt_of_le_of_lt hwithin.length_le hsize⟩
  have hwrite := Image.ofModule_eq_framed hfits
  refine ⟨_, hwrite, ?_, ?_⟩
  · rw [(Image.ofModule_spec hwrite).2, List.length_append, Image.length_header, hlength]
    exact Nat.add_le_add_left hwithin.length_le _
  · have hread := ofImage_of_readsBack hwrite (Image.readsBack_payload hbases hnesting)
    rwa [hcanonical] at hread

/-- An image that could be shorter: the reserved bytes of the header are not zero, and the length of the
module's name and the number of its references stand in more bytes than they need. -/
def looseImage : Bytes :=
  let identity : Bytes := [0x81, 0x00, 0x41] ++ List.replicate 8 0 ++ [0x00, 0x00]
  let head : Bytes := identity ++ [0x01, 0x00] ++ List.replicate 16 0
  let tables : Bytes := [0x80, 0x00] ++ List.replicate 5 0 ++ List.replicate 4 0
  let payload := head ++ tables ++ [0x00]
  Image.magic ++ [0x01, 0x00] ++ [0xFF, 0xFF] ++ Encoding.littleEndian 4 payload.length ++ payload

theorem ofModule_of_ofImage_looseImage :
    ∃ m image, ofImage looseImage = .ok m ∧ Image.ofModule m = .ok image ∧
      image.bytes.length ≤ looseImage.length ∧ ofImage image.bytes = .ok m := by
  have hok : (ofImage looseImage).isOk := by decide +kernel
  obtain ⟨m, hread⟩ := exists_eq_ok hok
  obtain ⟨image, hwrite, hlength, hagain⟩ := ofModule_of_ofImage hread
  exact ⟨m, image, hread, hwrite, hlength, hagain⟩

end Module

end ModuleLinker
