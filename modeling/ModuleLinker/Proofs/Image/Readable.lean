import ModuleLinker.Loading
import ModuleLinker.Proofs.Image.Sidecar
import ModuleLinker.Proofs.Image.WriteBack

namespace ModuleLinker

/-! # Modules that can be read again

The reader of images bounds how deep types are nested and takes named types only as bases of
instantiations, and the name of a source text has a length of 32 bits. What was read is within these bounds,
its sidecar included.
-/

/-! ## Members -/

namespace Member

/-- Whether the signatures of the member have named types only as bases of instantiations. -/
def hasNamedBases : Member → Bool
  | .field x => x.signature.hasNamedBases
  | .method x => x.hasNamedBases
  | .property x => x.signature.hasNamedBases
  | .event _ => true

/-- The places in source texts that the member comes from. -/
def points : Member → List SequencePoint
  | .method x => x.points?.getD []
  | _ => []

/-- What is asked of a member that can be read again. -/
structure Readable (x : Member) : Prop where
  bases : x.hasNamedBases
  fit : ∀ p ∈ x.points, p.Fits

end Member

namespace TypeDef

/-- Whether all members of the type, nested types left out, can be read again. -/
def Readable (t : TypeDef) : Prop := ∀ x ∈ t.members, x.Readable

theorem forall_members_iff {p : Member → Prop} {t : TypeDef} : (∀ x ∈ t.members, p x) ↔
    (∀ x ∈ t.fields, p (.field x)) ∧ (∀ x ∈ t.methods, p (.method x)) ∧
      (∀ x ∈ t.properties, p (.property x)) ∧ ∀ x ∈ t.events, p (.event x) := by
  simp only [members, List.forall_mem_append, List.forall_mem_map, and_assoc]

mutual

theorem hasNamedBases_iff (t : TypeDef) :
    t.hasNamedBases ↔ ∀ u ∈ t.within, ∀ x ∈ u.members, x.hasNamedBases := by
  obtain ⟨_, _, _, _, _, _, _, fields, methods, properties, events, nested, _⟩ := t
  rw [within, List.forall_mem_cons, ← haveNamedBases_iff nested, forall_members_iff]
  simp [hasNamedBases, Member.hasNamedBases, and_assoc]

theorem haveNamedBases_iff (ts : List TypeDef) :
    haveNamedBases ts ↔ ∀ u ∈ withinAll ts, ∀ x ∈ u.members, x.hasNamedBases := by
  cases ts with
  | nil => exact ⟨fun _ => nofun, fun _ => rfl⟩
  | cons t rest =>
    rw [haveNamedBases, Bool.and_eq_true, withinAll, List.forall_mem_append, hasNamedBases_iff t,
      haveNamedBases_iff rest]

end

end TypeDef

/-! ## Modules -/

namespace Module

/-- What is asked of a module so that its image can be read again, and its sidecar attached. -/
structure Readable (m : Module) : Prop where
  nesting : ∀ t ∈ m.types, t.nesting ≤ Image.maxNesting
  types : ∀ t ∈ m.allTypes, t.Readable
  memberRefs : ∀ r ∈ m.memberRefs, r.signature.hasNamedBases

variable {m : Module}

theorem hasNamedBases_iff (m : Module) : m.hasNamedBases ↔
    (∀ t ∈ m.allTypes, ∀ x ∈ t.members, x.hasNamedBases) ∧
      ∀ r ∈ m.memberRefs, r.signature.hasNamedBases := by
  unfold hasNamedBases allTypes
  simp only [Bool.and_eq_true, List.all_eq_true, TypeDef.hasNamedBases_iff, List.forall_mem_flatMap]

theorem mem_methods_iff {x : Method} : x ∈ m.methods ↔ ∃ t ∈ m.allTypes, Member.method x ∈ t.members := by
  rw [methods_eq, List.mem_flatMap]
  simp [TypeDef.members]

namespace Readable

theorem hasNamedBases (h : m.Readable) : m.hasNamedBases :=
  m.hasNamedBases_iff.2 ⟨fun t ht x hx => (h.types t ht x hx).bases, h.memberRefs⟩

/-- Nothing but types and rows for members matters. -/
theorem congr {n : Module} (h : m.Readable) (htypes : n.types = m.types)
    (hrows : n.memberRefs = m.memberRefs) : n.Readable := by
  refine ⟨htypes ▸ h.nesting, ?_, hrows ▸ h.memberRefs⟩
  rw [Module.allTypes, htypes]
  exact h.types

theorem pointsFit (h : m.Readable) : m.PointsFit := by
  intro x hx points hpoints p hp
  obtain ⟨t, ht, hmem⟩ := mem_methods_iff.1 hx
  refine (h.types t ht _ hmem).fit p ?_
  rw [Member.points, Option.mem_def.1 hpoints]
  exact hp

end Readable

/-- What an image holds can be read again; it has no places. -/
theorem readable_of_ofImage {data : Bytes} (h : ofImage data = .ok m) : m.Readable := by
  obtain ⟨-, -, -, -, hcanonical, hbases, hnesting⟩ := Image.decode_eq_ok h
  obtain ⟨hmembers, hrows⟩ := m.hasNamedBases_iff.1 hbases
  refine ⟨hnesting, fun t ht x hx => ⟨hmembers t ht x hx, ?_⟩, hrows⟩
  cases x with
  | field | property | event => nofun
  | method x =>
    have hmem : x ∈ m.methods := mem_methods_iff.2 ⟨t, ht, hx⟩
    rw [← hcanonical, methods_canonical] at hmem
    obtain ⟨y, -, rfl⟩ := List.mem_map.1 hmem
    rw [Member.points, Method.points?_canonical]
    cases y.points? <;> nofun

end Module

/-! ## Sidecars -/

namespace Reader

/-- A text that was read takes no more bytes than 32 bits count. -/
theorem takes_countedText : text.Takes fun s _ => (Utf8.encode s).length < UInt32.size := by
  have hblob : blob.Takes fun b _ => b.length < UInt32.size := by
    refine takes_sevenBit.bind fun v _ _ => (takes_bytes v.toNat).mono fun b _ hb => ?_
    rw [hb.1]
    exact v.toNat_lt
  refine hblob.bind fun spelled _ h => ?_
  split
  case h_1 s hs => exact .pure (by rwa [encode_of_decode hs])
  case h_2 => exact .refuseAt

/-- What every element has that is read, all elements of a list have. -/
theorem takes_all {element : Reader α} {q : α → Prop} (h : element.Takes fun v _ => q v) :
    (list element).Takes fun vs _ => ∀ v ∈ vs, q v := by
  have hplain : element.Takes fun v n => ((fun _ => Encoding.empty) v).Within n ∧ q v :=
    h.mono fun _ _ hv => ⟨Encoding.Within.empty.mono (Nat.zero_le _), hv⟩
  exact (takes_list hplain).mono fun _ _ hvs => hvs.2

end Reader

namespace Sidecar

open Reader

/-- Whether the names of all source texts in an entry can be written. -/
def Entry.Fits (e : Entry) : Prop := ∀ p ∈ e.points, p.Fits

theorem takes_point : decodePoint.Takes fun p _ => p.Fits := by
  have hu16 : u16.Takes fun _ _ => True := takes_u16.mono fun _ _ _ => trivial
  have hu32 : u32.Takes fun _ _ => True := takes_u32.mono fun _ _ _ => trivial
  refine hu32.bind fun _ _ _ => takes_countedText.bind fun document _ hdocument => ?_
  refine hu32.bind fun _ _ _ => hu16.bind fun _ _ _ => hu32.bind fun _ _ _ => ?_
  exact hu16.map fun _ _ _ => hdocument

theorem takes_entry : decodeEntry.Takes fun e _ => e.Fits :=
  takes_token.bind fun _ _ _ => (takes_all takes_point).map fun _ _ h => h

theorem takes_sidecar (m : Module) : (decode m).Takes fun entries _ => ∀ e ∈ entries, e.Fits := by
  have hbytes (k : Nat) : (bytes k).Takes fun _ _ => True := (takes_bytes k).mono fun _ _ _ => trivial
  have hu16 : u16.Takes fun _ _ => True := takes_u16.mono fun _ _ _ => trivial
  unfold decode
  refine (hbytes 4).bind fun found _ _ => ?_
  split_ifs
  · exact .refused .refuse
  refine hu16.bind fun v _ _ => ?_
  split_ifs
  · exact .refused .refuse
  refine (hbytes 16).bind fun id _ _ => ?_
  split_ifs
  · exact .refused .refuse
  · exact takes_all takes_entry

/-- An entry that is kept is one that was read. -/
theorem forall_foldl_insert {q : Entry → Prop} {entries acc : List Entry} (hacc : ∀ e ∈ acc, q e)
    (h : ∀ e ∈ entries, q e) : ∀ e ∈ entries.foldl insert acc, q e := by
  induction entries generalizing acc with
  | nil => exact hacc
  | cons e entries ih =>
    obtain ⟨he, hrest⟩ := List.forall_mem_cons.1 h
    refine ih ?_ hrest
    exact List.forall_mem_cons.2 ⟨he, fun other hother => hacc other (List.mem_of_mem_filter hother)⟩

/-! ## Attaching to what can be read again -/

theorem hasNamedBases_give (entries : List Entry) (x : Method) :
    (give entries x).hasNamedBases = x.hasNamedBases := by
  have hbare (x : Method) : x.withoutPoints.hasNamedBases = x.hasNamedBases := by
    rw [Method.hasNamedBases, Method.withoutPoints, Option.all_map]
    rfl
  rw [← hbare, withoutPoints_give, hbare]

theorem readable_give {x : Method} {entries : List Entry} (hx : (Member.method x).Readable)
    (h : ∀ e ∈ entries, e.Fits) : (Member.method (give entries x)).Readable := by
  refine ⟨(hasNamedBases_give entries x).trans hx.bases, ?_⟩
  rw [Member.points]
  unfold give
  split
  case h_1 => exact hx.fit
  case h_2 e hfound =>
    -- the places are the entry's, or there is no body to have them
    have hpoints : (x.body.map fun body => { body with points := e.points }).map MethodBody.points =
        x.body.map fun _ => e.points := by
      rw [Option.map_map]
      rfl
    rw [Method.points?, hpoints]
    cases x.body with
    | none => exact fun p hp => absurd hp List.not_mem_nil
    | some body => exact h e (List.mem_of_find?_eq_some hfound)

theorem attachMethods_readable {xs : List Method} {entries : List Entry}
    (hxs : ∀ x ∈ xs, (Member.method x).Readable) (h : ∀ e ∈ entries, e.Fits) :
    (∀ x ∈ (attachMethods xs entries).1, (Member.method x).Readable) ∧
      ∀ e ∈ (attachMethods xs entries).2, e.Fits := by
  induction xs generalizing entries with
  | nil => exact ⟨nofun, h⟩
  | cons x xs ih =>
    obtain ⟨hx, hxs⟩ := List.forall_mem_cons.1 hxs
    rw [attachMethods, attachMethod_eq]
    have hkept : ∀ e ∈ without [x.token] entries, e.Fits := fun e he => h e (List.mem_of_mem_filter he)
    obtain ⟨hrest, hleft⟩ := ih hxs hkept
    exact ⟨List.forall_mem_cons.2 ⟨readable_give hx h, hrest⟩, hleft⟩

open TypeDef

mutual

/-- Attaching leaves what can be read again, and types as deep as they were. -/
theorem attachType_readable (t : TypeDef) {entries : List Entry} (ht : ∀ u ∈ t.within, u.Readable)
    (h : ∀ e ∈ entries, e.Fits) : (∀ u ∈ (attachType t entries).1.within, u.Readable) ∧
      (attachType t entries).1.nesting = t.nesting ∧ ∀ e ∈ (attachType t entries).2, e.Fits := by
  obtain ⟨token, namespaceName, name, flags, base, interfaces, genericParams, fields, methods, properties,
    events, nested, attributes⟩ := t
  rw [within, List.forall_mem_cons] at ht
  obtain ⟨hfields, hmethods, hrest⟩ := forall_members_iff.1 ht.1
  obtain ⟨hmethods', hleft⟩ := attachMethods_readable hmethods h
  obtain ⟨hnested, hdepth, hleft'⟩ := attachTypes_readable nested ht.2 hleft
  rw [attachType]
  refine ⟨?_, hdepth, hleft'⟩
  rw [within, List.forall_mem_cons]
  exact ⟨forall_members_iff.2 ⟨hfields, hmethods', hrest⟩, hnested⟩

theorem attachTypes_readable (ts : List TypeDef) {entries : List Entry}
    (hts : ∀ u ∈ withinAll ts, u.Readable) (h : ∀ e ∈ entries, e.Fits) :
    (∀ u ∈ withinAll (attachTypes ts entries).1, u.Readable) ∧
      nestingAll (attachTypes ts entries).1 = nestingAll ts ∧
      ∀ e ∈ (attachTypes ts entries).2, e.Fits := by
  cases ts with
  | nil => exact ⟨nofun, rfl, h⟩
  | cons t rest =>
    rw [withinAll, List.forall_mem_append] at hts
    obtain ⟨ht, hdepth, hleft⟩ := attachType_readable t hts.1 h
    obtain ⟨hrest, hdepths, hleft'⟩ := attachTypes_readable rest hts.2 hleft
    rw [attachTypes]
    refine ⟨?_, ?_, hleft'⟩
    · rw [withinAll, List.forall_mem_append]
      exact ⟨ht, hrest⟩
    · rw [nestingAll, nestingAll, hdepth, hdepths]

end

theorem attach_readable {m : Module} (hm : m.Readable) (data : Bytes) : (attach m data).1.Readable := by
  unfold attach
  rcases hread : (decode m).run data with fault | entries
  · exact hm
  · obtain ⟨c, hrun⟩ := runAt_of_run hread
    obtain ⟨-, -, hfit⟩ := takes_sidecar m _ _ _ hrun
    have htypes := hm.types
    rw [Module.allTypes, ← withinAll_eq] at htypes
    have hnone : ∀ e ∈ ([] : List Entry), e.Fits := fun e he => absurd he List.not_mem_nil
    obtain ⟨htypes', hdepth, -⟩ := attachTypes_readable m.types htypes (forall_foldl_insert hnone hfit)
    refine ⟨?_, ?_, hm.memberRefs⟩
    · have hnesting := hm.nesting
      simp only [← Nat.lt_succ_iff, ← nestingAll_le_iff] at hnesting ⊢
      exact hdepth ▸ hnesting
    · rwa [Module.allTypes, ← withinAll_eq]

end Sidecar

/-! ## Loading -/

namespace Loading

variable {fs : FileSystem} {p : Policy}

/-- A module that was read can be read again. -/
theorem readModule_readable {path : Path} {m : Module} (h : readModule fs path = .ok m) : m.Readable := by
  obtain ⟨data, -, h⟩ := bind_eq_ok.1 h
  obtain ⟨n, himage, h⟩ := bind_eq_ok.1 h
  have hn := Module.readable_of_ofImage himage
  dsimp only at h
  split at h
  case isTrue =>
    cases h
    exact hn
  case isFalse =>
    obtain ⟨symbols, -, h⟩ := bind_eq_ok.1 h
    have hattached := Sidecar.attach_readable hn symbols
    split at h
    case h_1 heq =>
      rw [heq] at hattached
      cases h
      exact hattached
    case h_2 => exact nomatch h

theorem load_readable {path : Path} {l : LoadedModule} (h : load fs p path = .ok l) :
    l.module.Readable := by
  unfold load at h
  split at h
  case h_1 => exact nomatch h
  case h_2 m hread =>
    obtain ⟨_, -, h⟩ := bind_eq_ok.1 h
    cases h
    exact readModule_readable hread

end Loading

end ModuleLinker
