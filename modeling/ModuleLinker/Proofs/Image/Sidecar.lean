import Mathlib.Data.List.Nodup
import ModuleLinker.Image.Sidecar
import ModuleLinker.Proofs.Bytes.AnyLength
import ModuleLinker.Proofs.Image.RoundTrip
import ModuleLinker.Proofs.Member
import ModuleLinker.Proofs.ReferenceChain

namespace ModuleLinker

/-! # The round trip through sidecars

A sidecar flattens the tree of types into a list of entries, one for each method with places, and is
attached by going through the tree again and taking entries off the list. Where no two methods have the
same token, every entry gets back to its method and none is left.
-/

/-! ## Methods and their places -/

/-- Whether 32 bits hold the number of bytes in the name of the source text. -/
def SequencePoint.Fits (p : SequencePoint) : Prop := (Utf8.encode p.document).length < UInt32.size

namespace Method

/-- The places in the body of a method, if it has a body. -/
def points? (x : Method) : Option (List SequencePoint) := x.body.map MethodBody.points

/-- A method is what it is without places, and its places. -/
theorem eq_of_withoutPoints {x y : Method} (h : x.withoutPoints = y.withoutPoints)
    (hpoints : x.points? = y.points?) : x = y := by
  obtain ⟨token, name, flags, signature, body, attributes⟩ := x
  obtain ⟨token', name', flags', signature', body', attributes'⟩ := y
  simp only [withoutPoints, mk.injEq] at h
  obtain ⟨rfl, rfl, rfl, rfl, hbody, rfl⟩ := h
  rcases body with _ | ⟨_, _, _, _, _, points⟩ <;> rcases body' with _ | ⟨_, _, _, _, _, points'⟩
  · rfl
  · exact nomatch hpoints
  · exact nomatch hpoints
  · simp_all [points?, MethodBody.withoutPoints]

theorem points?_withoutPoints (x : Method) : x.withoutPoints.points? = x.points?.map fun _ => [] := by
  rw [points?, withoutPoints, points?, Option.map_map, Option.map_map]
  rfl

theorem points?_canonical (x : Method) : x.canonical.points? = x.points?.map fun _ => [] := by
  rw [points?, canonical, points?, Option.map_map, Option.map_map]
  rfl

theorem withoutPoints_withoutPoints (x : Method) : x.withoutPoints.withoutPoints = x.withoutPoints := by
  rw [withoutPoints, withoutPoints, Option.map_map]
  rfl

theorem withoutPoints_canonical (x : Method) : x.canonical.withoutPoints = x.canonical := by
  rw [withoutPoints, canonical, Option.map_map]
  rfl

end Method

namespace TypeDef

mutual

theorem methodsOf_canonical (t : TypeDef) : t.canonical.methods ++ methodsOf t.canonical.nested =
    (t.methods ++ methodsOf t.nested).map Method.canonical := by
  obtain ⟨_, _, _, _, _, _, _, _, methods, _, _, nested, _⟩ := t
  rw [canonical, methodsOf_canonicalAll nested, List.map_append]

theorem methodsOf_canonicalAll (ts : List TypeDef) :
    methodsOf (canonicalAll ts) = (methodsOf ts).map Method.canonical := by
  cases ts with
  | nil => rfl
  | cons t rest =>
    rw [canonicalAll, methodsOf_cons, methodsOf_cons, methodsOf_canonical t, methodsOf_canonicalAll rest,
      ← List.map_append]

end

end TypeDef

namespace Module

theorem methods_mapMethods (change : Method → Method) (m : Module) :
    (m.mapMethods change).methods = m.methods.map change :=
  TypeDef.methodsOf_mapMethodsAll m.types

theorem methods_canonical (m : Module) : m.canonical.methods = m.methods.map Method.canonical := by
  rw [methods, canonical, ← TypeDef.canonicalAll_eq_map]
  exact TypeDef.methodsOf_canonicalAll m.types

/-- Whether the names of all source texts can be written. -/
def PointsFit (m : Module) : Prop := ∀ x ∈ m.methods, ∀ points ∈ x.points?, ∀ p ∈ points, p.Fits

instance (m : Module) : Decidable m.PointsFit :=
  inferInstanceAs (Decidable (∀ x ∈ m.methods, ∀ points ∈ x.points?, ∀ p ∈ points,
    (Utf8.encode p.document).length < UInt32.size))

end Module

namespace Sidecar

open Encoding

theorem entryOf?_eq_some {x : Method} {e : Entry} (h : entryOf? x = some e) :
    e.method = x.token ∧ x.points? = some e.points ∧ e.points ≠ [] := by
  obtain ⟨body, hbody, hentry⟩ := Option.bind_eq_some_iff.1 h
  split_ifs at hentry with hempty
  obtain rfl := Option.some.inj hentry
  refine ⟨rfl, ?_, fun hnil => hempty (List.isEmpty_iff.2 hnil)⟩
  rw [Method.points?, hbody]
  rfl

/-- A method without entry has no places, or no body to have them. -/
theorem entryOf?_eq_none {x : Method} (h : entryOf? x = none) : ∀ points ∈ x.points?, points = [] := by
  intro points hpoints
  obtain ⟨body, hbody, rfl⟩ := Option.map_eq_some_iff.1 hpoints
  unfold entryOf? at h
  rw [hbody] at h
  simpa using h

theorem entriesOf_eq (m : Module) : entriesOf m = m.methods.filterMap entryOf? := by
  rw [Module.methods_eq, List.filterMap_flatMap, ← Module.map_walk, List.flatMap_map]
  rfl

/-! ## Reading back -/

theorem readsWhole_point {p : SequencePoint} (h : p.Fits) : (encodePoint p).ReadsWhole decodePoint p := by
  unfold encodePoint
  simp only [append_assoc]
  refine (readsWhole_u32 p.offset).bind ?_
  refine (readsWhole_text h).bind ?_
  refine (readsWhole_u32 p.startLine).bind ?_
  refine (readsWhole_u16 p.startColumn).bind ?_
  refine (readsWhole_u32 p.endLine).bind ?_
  exact (readsWhole_u16 p.endColumn).last rfl

theorem point_ne_nil (p : SequencePoint) : (encodePoint p).bytes ≠ [] := by
  simp [encodePoint, bytes_append_eq_nil, u32_ne_nil]

theorem readsWhole_entry {e : Entry} (h : ∀ p ∈ e.points, p.Fits) :
    (encodeEntry e).ReadsWhole decodeEntry e := by
  refine (readsWhole_token e.method).bind ?_
  exact (readsWhole_list (fun p hp => readsWhole_point (h p hp)) fun p _ => point_ne_nil p).last rfl

theorem entry_ne_nil (e : Entry) : (encodeEntry e).bytes ≠ [] := by
  simp [encodeEntry, bytes_append_eq_nil, token_ne_nil]

/-- A module with the same version id reads all entries of the sidecar. -/
theorem readsWhole_sidecar {m n : Module} (hfit : m.PointsFit) (hmvid : n.mvid = m.mvid) :
    (encode m).ReadsWhole (decode n) (entriesOf m) := by
  have hpoints : ∀ e ∈ entriesOf m, ∀ p ∈ e.points, p.Fits := by
    intro e he
    rw [entriesOf_eq] at he
    obtain ⟨x, hx, hentry⟩ := List.mem_filterMap.1 he
    exact hfit x hx e.points (entryOf?_eq_some hentry).2.1
  have hid := readsWhole_bytes m.mvid.bytes
  rw [m.mvid.length_bytes] at hid
  unfold encode
  simp only [append_assoc]
  refine (readsWhole_bytes magic).bind ?_
  refine (readsWhole_u16 version).bind ?_
  refine hid.bind ?_
  dsimp only
  rw [hmvid, bne_self_eq_false]
  exact readsWhole_list (fun e he => readsWhole_entry (hpoints e he)) fun e _ => entry_ne_nil e

theorem decode_of_ofModule {m n : Module} {data : Bytes} (hfit : m.PointsFit) (hmvid : n.mvid = m.mvid)
    (h : ofModule m = .ok data) : (decode n).run data = .ok (entriesOf m) := by
  unfold ofModule result at h
  split at h
  case h_1 => exact nomatch h
  case h_2 hfault =>
    obtain rfl := Except.ok.inj h
    have hread := readsWhole_sidecar hfit hmvid hfault [] 0
    rw [List.append_nil] at hread
    exact congrArg Prod.fst hread

/-! ## Attaching -/

/-- The method with the places of its entry, if there is one. -/
def give (entries : List Entry) (x : Method) : Method :=
  match entries.find? fun e => e.method == x.token with
  | none => x
  | some e => { x with body := x.body.map fun body => { body with points := e.points } }

/-- The entries that are left when those of some methods have been taken. -/
def without (taken : List Token) (entries : List Entry) : List Entry :=
  entries.filter fun e => e.method ∉ taken

theorem token_give (entries : List Entry) (x : Method) : (give entries x).token = x.token := by
  unfold give
  split <;> rfl

theorem without_append (a b : List Token) (entries : List Entry) :
    without (a ++ b) entries = without b (without a entries) := by
  simp only [without, List.filter_filter, List.mem_append, not_or, Bool.decide_and, Bool.and_comm]

/-- The entries of other methods do not matter to a method. -/
theorem give_without {taken : List Token} {x : Method} (h : x.token ∉ taken) (entries : List Entry) :
    give (without taken entries) x = give entries x := by
  have hfind : (without taken entries).find? (fun e => e.method == x.token) =
      entries.find? fun e => e.method == x.token := by
    rw [without, List.find?_filter]
    congr 1
    funext e
    by_cases hmethod : e.method = x.token <;> simp [hmethod, h]
  rw [give, give, hfind]

theorem attachMethod_eq (x : Method) (entries : List Entry) :
    attachMethod x entries = (give entries x, without [x.token] entries) := by
  have hwithout : without [x.token] entries = entries.filter fun other => other.method != x.token := by
    refine List.filter_congr fun e _ => ?_
    rw [Bool.eq_iff_iff]
    simp
  unfold attachMethod give
  rw [hwithout]
  rcases hfind : entries.find? fun e => e.method == x.token with _ | e
  · -- there is nothing to take
    have hkept : entries.filter (fun other => other.method != x.token) = entries := by
      rw [List.filter_eq_self]
      intro e he
      simpa using List.find?_eq_none.1 hfind e he
    simp only [hfind, hkept]
  · simp only [hfind]

theorem attachMethods_eq {xs : List Method} (h : (xs.map Method.token).Nodup) (entries : List Entry) :
    attachMethods xs entries = (xs.map (give entries), without (xs.map Method.token) entries) := by
  induction xs generalizing entries with
  | nil => simp [attachMethods, without]
  | cons x xs ih =>
    obtain ⟨hx, hxs⟩ := List.nodup_cons.1 h
    have hgive : xs.map (give (without [x.token] entries)) = xs.map (give entries) := by
      refine List.map_congr_left fun y hy => give_without ?_ entries
      intro hmem
      exact hx (List.mem_singleton.1 hmem ▸ List.mem_map_of_mem hy)
    rw [attachMethods, attachMethod_eq]
    dsimp only
    rw [ih hxs, hgive, ← without_append]
    rfl

open TypeDef

/-- What comes behind methods gives the same to their entries' leftovers as to all entries. -/
theorem give_behind {xs ys : List Method} (h : ((xs ++ ys).map Method.token).Nodup)
    (entries : List Entry) :
    ∀ y ∈ ys, give (without (xs.map Method.token) entries) y = give entries y := by
  intro y hy
  rw [List.map_append] at h
  refine give_without (fun hmem => ?_) entries
  exact List.disjoint_of_nodup_append h hmem (List.mem_map_of_mem hy)

mutual

/-- Where no two methods have the same token, each gets what its entry says, and the entries of all of
them are taken. -/
theorem attachType_eq (t : TypeDef) (h : ((t.methods ++ methodsOf t.nested).map Method.token).Nodup)
    (entries : List Entry) : attachType t entries =
      (mapMethods (give entries) t,
        without ((t.methods ++ methodsOf t.nested).map Method.token) entries) := by
  obtain ⟨_, _, _, _, _, _, _, _, methods, _, _, nested, _⟩ := t
  have hbehind := give_behind h entries
  rw [List.map_append] at h
  rw [attachType, attachMethods_eq h.of_append_left]
  dsimp only
  rw [attachTypes_eq nested h.of_append_right, mapMethodsAll_congr nested hbehind, mapMethods,
    List.map_append, without_append]

theorem attachTypes_eq (ts : List TypeDef) (h : ((methodsOf ts).map Method.token).Nodup)
    (entries : List Entry) : attachTypes ts entries =
      (mapMethodsAll (give entries) ts, without ((methodsOf ts).map Method.token) entries) := by
  cases ts with
  | nil => simp [attachTypes, without, mapMethodsAll, methodsOf, withinAll]
  | cons t rest =>
    rw [methodsOf_cons] at h ⊢
    have hbehind := give_behind h entries
    rw [List.map_append] at h
    rw [attachTypes, attachType_eq t h.of_append_left]
    dsimp only
    rw [attachTypes_eq rest h.of_append_right, mapMethodsAll_congr rest hbehind, mapMethodsAll,
      ← without_append, ← List.map_append]

end

/-! ## Entries of one module -/

theorem nodup_entriesOf {m : Module} (h : (m.methods.map Method.token).Nodup) :
    ((entriesOf m).map Entry.method).Nodup := by
  rw [entriesOf_eq, List.Nodup, List.pairwise_map]
  refine List.Pairwise.filterMap entryOf? ?_ (List.pairwise_map.1 h)
  intro x y hne e he e' he'
  rw [(entryOf?_eq_some he).1, (entryOf?_eq_some he').1]
  exact hne

/-- Entries of different methods are all kept, the last one first. -/
theorem foldl_insert (entries acc : List Entry) (h : ((acc.reverse ++ entries).map Entry.method).Nodup) :
    entries.foldl insert acc = entries.reverse ++ acc := by
  induction entries generalizing acc with
  | nil => rfl
  | cons e entries ih =>
    have hkept : acc.filter (fun other => other.method != e.method) = acc := by
      rw [List.filter_eq_self]
      intro other hother
      rw [List.map_append] at h
      have hne := List.disjoint_of_nodup_append h (List.mem_map_of_mem (List.mem_reverse.2 hother))
      simpa using fun heq : other.method = e.method => hne (heq ▸ List.mem_cons_self)
    rw [List.foldl_cons, insert, hkept, ih, List.reverse_cons, List.append_assoc]
    · rfl
    · rwa [List.reverse_cons, List.append_assoc]

/-- What the entries of a module give to a method with the token of one of its methods. -/
theorem give_entriesOf {m : Module} (h : (m.methods.map Method.token).Nodup) {x y : Method}
    (hx : x ∈ m.methods) (htoken : y.token = x.token) : give (entriesOf m).reverse y =
      match entryOf? x with
      | none => y
      | some e => { y with body := y.body.map fun body => { body with points := e.points } } := by
  have hfind : (entriesOf m).reverse.find? (fun e => e.method == y.token) = entryOf? x := by
    rcases hentry : entryOf? x with _ | e
    · rw [List.find?_eq_none]
      intro e he heq
      rw [List.mem_reverse, entriesOf_eq] at he
      obtain ⟨z, hz, hze⟩ := List.mem_filterMap.1 he
      -- an entry of that token would be the method's own
      have hsame : z.token = x.token := by rw [← (entryOf?_eq_some hze).1, beq_iff_eq.1 heq, htoken]
      rw [List.inj_on_of_nodup_map h hz hx hsame, hentry] at hze
      exact nomatch hze
    · have he : e ∈ (entriesOf m).reverse := by
        rw [List.mem_reverse, entriesOf_eq]
        exact List.mem_filterMap.2 ⟨x, hx, hentry⟩
      rw [htoken, ← (entryOf?_eq_some hentry).1]
      refine find?_key_of_mem ?_ he
      rw [List.map_reverse]
      exact List.nodup_reverse.2 (nodup_entriesOf h)
  rw [give, hfind]

theorem withoutPoints_give (entries : List Entry) (x : Method) :
    (give entries x).withoutPoints = x.withoutPoints := by
  unfold give
  split
  · rfl
  · rw [Method.withoutPoints, Option.map_map]
    rfl

/-- A method whose places are gone gets back those that the module's method has. -/
theorem points?_give {m : Module} (h : (m.methods.map Method.token).Nodup) {x y : Method}
    (hx : x ∈ m.methods) (htoken : y.token = x.token) (hpoints : y.points? = x.points?.map fun _ => []) :
    (give (entriesOf m).reverse y).points? = x.points? := by
  rw [give_entriesOf h hx htoken]
  rcases hentry : entryOf? x with _ | e
  · dsimp only
    rw [hpoints]
    refine (Option.map_congr fun points hmem => ?_).trans Option.map_id'
    exact (entryOf?_eq_none hentry points hmem).symm
  · have hbody : (y.body.map fun body => { body with points := e.points }).map MethodBody.points =
        y.points?.map fun _ => e.points := by
      rw [Method.points?, Option.map_map, Option.map_map]
      rfl
    dsimp only
    rw [Method.points?, hbody, hpoints, (entryOf?_eq_some hentry).2.1]
    rfl

/-! ## The round trip -/

/-- A module with the version id and the methods of the one that the sidecar belongs to gets all its
entries. -/
theorem attach_eq {m n : Module} {data : Bytes} (hnodup : (m.methods.map Method.token).Nodup)
    (hfit : m.PointsFit) (h : ofModule m = .ok data) (hmvid : n.mvid = m.mvid)
    (htokens : n.methods.map Method.token = m.methods.map Method.token) :
    attach n data = (n.mapMethods (give (entriesOf m).reverse), none) := by
  have hall : (entriesOf m).foldl insert [] = (entriesOf m).reverse := by
    rw [foldl_insert, List.append_nil]
    exact nodup_entriesOf hnodup
  have hnone : without (n.methods.map Method.token) (entriesOf m).reverse = [] := by
    refine List.filter_eq_nil_iff.2 fun e he => ?_
    rw [List.mem_reverse, entriesOf_eq] at he
    obtain ⟨x, hx, hentry⟩ := List.mem_filterMap.1 he
    rw [htokens, (entryOf?_eq_some hentry).1]
    simpa using ⟨x, hx, rfl⟩
  have htypes : attachTypes n.types (entriesOf m).reverse =
      (TypeDef.mapMethodsAll (give (entriesOf m).reverse) n.types, []) := by
    rw [attachTypes_eq n.types (show (n.methods.map Method.token).Nodup from htokens ▸ hnodup)]
    exact congrArg _ hnone
  unfold attach
  rw [decode_of_ofModule hfit hmvid h]
  dsimp only
  rw [hall, htypes]
  rfl

/-- The sidecar of a module makes up for all places that the module has lost. -/
theorem attach_withoutPoints {m : Module} {data : Bytes} (hnodup : (m.methods.map Method.token).Nodup)
    (hfit : m.PointsFit) (h : ofModule m = .ok data) : attach m.withoutPoints data = (m, none) := by
  have htokens : m.withoutPoints.methods.map Method.token = m.methods.map Method.token := by
    rw [Module.withoutPoints, Module.methods_mapMethods, List.map_map]
    rfl
  rw [attach_eq hnodup hfit h (n := m.withoutPoints) rfl htokens]
  have hback : ∀ x ∈ m.methods, (give (entriesOf m).reverse ∘ Method.withoutPoints) x = x := by
    intro x hx
    rw [Function.comp_apply]
    refine Method.eq_of_withoutPoints ?_ (points?_give hnodup hx rfl x.points?_withoutPoints)
    rw [withoutPoints_give]
    exact x.withoutPoints_withoutPoints
  unfold Module.withoutPoints Module.mapMethods
  dsimp only
  rw [TypeDef.mapMethodsAll_mapMethodsAll, TypeDef.mapMethodsAll_eq_self hback]

/-- The sidecar of a module makes up for the places that its image has lost, and changes nothing else. -/
theorem attach_canonical {m : Module} {data : Bytes} (hnodup : (m.methods.map Method.token).Nodup)
    (hfit : m.PointsFit) (h : ofModule m = .ok data) : ∃ n, attach m.canonical data = (n, none) ∧
      n.withoutPoints = m.canonical ∧
      n.methods.map (fun x => (x.token, x.points?)) = m.methods.map fun x => (x.token, x.points?) := by
  have htokens : m.canonical.methods.map Method.token = m.methods.map Method.token := by
    rw [Module.methods_canonical, List.map_map]
    rfl
  refine ⟨_, attach_eq hnodup hfit h rfl htokens, ?_, ?_⟩
  · have hbare : ∀ y ∈ m.canonical.methods,
        (Method.withoutPoints ∘ give (entriesOf m).reverse) y = y := by
      intro y hy
      rw [Module.methods_canonical] at hy
      obtain ⟨x, -, rfl⟩ := List.mem_map.1 hy
      rw [Function.comp_apply, withoutPoints_give, Method.withoutPoints_canonical]
    unfold Module.withoutPoints Module.mapMethods
    dsimp only
    rw [TypeDef.mapMethodsAll_mapMethodsAll, TypeDef.mapMethodsAll_eq_self hbare]
  · rw [Module.methods_mapMethods, Module.methods_canonical, List.map_map, List.map_map]
    refine List.map_congr_left fun x hx => ?_
    have hpoints := points?_give hnodup hx (y := x.canonical) rfl x.points?_canonical
    rw [Function.comp_apply, Function.comp_apply, hpoints, token_give]
    rfl

end Sidecar

end ModuleLinker
