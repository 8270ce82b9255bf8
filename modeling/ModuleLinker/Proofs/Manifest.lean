import ModuleLinker.Manifest
import ModuleLinker.Proofs.Bytes.AnyLength
import ModuleLinker.Proofs.Computation
import ModuleLinker.Proofs.Repetition

namespace ModuleLinker

/-! # What manifests list

The reader of a manifest refuses a number of entries above that of the bytes behind it. An entry takes a
byte at least, also the empty one, so no list that was written is refused for that. What is built for some
modules is then read back as the names and entries of the modules in order, each at its first place
(`Manifest.listing`).

The names of a module that was merged from others are those that its own list has and the name it goes by,
so nothing is lost when it is merged again, however often this happens (`Manifest.mem_named_of_madeOf`).
-/

namespace Manifest

variable {m : Module} {ms : List Module} {entries : List String} {name : String}

/-! ## Written lists -/

/-- 32 bits hold the number of entries and the number of bytes of each. -/
structure Fits (entries : List String) : Prop where
  count : entries.length < UInt32.size
  texts : ∀ entry ∈ entries, (Utf8.encode entry).length < UInt32.size

instance (entries : List String) : Decidable (Fits entries) :=
  decidable_of_iff (entries.length < UInt32.size ∧
      ∀ entry ∈ entries, (Utf8.encode entry).length < UInt32.size)
    ⟨fun ⟨a, b⟩ => ⟨a, b⟩, fun ⟨a, b⟩ => ⟨a, b⟩⟩

theorem each_text (entries : List String) : Encoding.each Encoding.text entries =
    .ofBytes (entries.flatMap fun entry => (Encoding.text entry).bytes) := by
  induction entries with
  | nil => rfl
  | cons entry entries ih =>
    have hcons : Encoding.each Encoding.text (entry :: entries) =
        Encoding.text entry ++ Encoding.each Encoding.text entries := rfl
    rw [hcons, ih, List.flatMap_cons, ← Encoding.ofBytes_append_ofBytes]
    rfl

theorem encode_eq (entries : List String) : encode entries =
    (Encoding.ofBytes (Encoding.sevenBit (UInt32.ofNat entries.length)) ++
      Encoding.each Encoding.text entries).bytes := by
  rw [each_text, Encoding.ofBytes_append_ofBytes]
  rfl

theorem readsWhole_reader (h : Fits entries) :
    (Encoding.ofBytes (Encoding.sevenBit (UInt32.ofNat entries.length)) ++
      Encoding.each Encoding.text entries).ReadsWhole reader entries := by
  have hcount : (UInt32.ofNat entries.length).toNat = entries.length := by
    rw [UInt32.toNat_ofNat', Nat.mod_eq_of_lt h.count]
  refine (Encoding.readsWhole_sevenBit _).bind fun hfault rest position => ?_
  have hbehind : entries.length ≤ ((Encoding.each Encoding.text entries).bytes ++ rest).length := by
    rw [List.length_append]
    exact (Encoding.length_le_each (fun entry _ => Encoding.text_ne_nil entry) hfault).trans
      (Nat.le_add_right ..)
  dsimp only
  rw [hcount, Reader.runAt_bind_of_ok (Reader.remaining_runAt _), if_neg (Nat.not_lt.2 hbehind)]
  exact Encoding.readsWhole_each (fun entry hentry => Encoding.readsWhole_text (h.texts entry hentry))
    hfault rest position

/-- What is written is read back. -/
theorem decode_encode (h : Fits entries) : decode (encode entries) = .ok entries := by
  have hfault : (Encoding.ofBytes (Encoding.sevenBit (UInt32.ofNat entries.length)) ++
      Encoding.each Encoding.text entries).fault = none := by
    rw [each_text]
    rfl
  have hread := readsWhole_reader h hfault [] 0
  rw [List.append_nil, ← encode_eq] at hread
  exact congrArg Prod.fst hread

/-- Of equal entries the first one stays. -/
theorem distinct_eq (entries : List String) : distinct entries = firsts id [] entries := by
  suffices h : ∀ kept : List String,
      entries.foldl (fun kept entry => if kept.contains entry then kept else kept ++ [entry]) kept =
        kept ++ firsts id kept entries from h []
  induction entries with
  | nil => exact fun kept => (List.append_nil kept).symm
  | cons entry entries ih =>
    intro kept
    rw [List.foldl_cons, ih, firsts, id]
    by_cases hkept : entry ∈ kept
    · rw [if_pos (List.contains_iff_mem.2 hkept), if_pos hkept]
    · rw [if_neg (mt List.contains_iff_mem.1 hkept), if_neg hkept, List.append_assoc,
        List.singleton_append]

/-! ## The names of modules -/

/-- The resource that a module carries its list in: the first one of that name. -/
def list? (m : Module) : Option Resource := m.resources.find? (·.name == resourceName)

/-- The entries of the list that a module carries. -/
def carried (m : Module) : List String := ((list? m).bind fun r => (decode r.data).toOption).getD []

/-- The name that a module goes by, and those that it carries. -/
def named (m : Module) : List String := m.identity.displayName :: carried m

/-- The names of modules in their order, each at its first place. -/
def listing (ms : List Module) : List String := firsts id [] (ms.flatMap named)

theorem mem_listing_iff : name ∈ listing ms ↔ ∃ m ∈ ms, name ∈ named m := by
  rw [← List.mem_flatMap]
  constructor
  · exact fun h => (firsts_sublist id [] _).mem h
  · intro h
    have hfirst : ∃ entry ∈ listing ms, id entry = id name := exists_mem_firsts h List.not_mem_nil
    obtain ⟨_, hkept, rfl⟩ := hfirst
    exact hkept

theorem nodup_listing (ms : List Module) : (listing ms).Nodup := by
  rw [← List.map_id (listing ms)]
  exact (nodup_map_firsts id [] _).1

/-! ## Building -/

/-- The list of the module is one, if it carries any. -/
def Sound (m : Module) : Prop := ∀ r ∈ list? m, ∃ entries, decode r.data = .ok entries

theorem entriesOf_of_sound (h : Sound m) : entriesOf m = .ok (named m) := by
  unfold entriesOf named carried ofModule
  rcases hlist : list? m with _ | r
  · unfold list? at hlist
    rw [hlist]
    rfl
  · obtain ⟨entries, hentries⟩ := h r hlist
    unfold list? at hlist
    simp only [hlist, hentries, Option.bind_some]
    rfl

theorem entriesOf_of_not_sound (h : ¬Sound m) : ∃ fault, entriesOf m = .error fault := by
  unfold Sound at h
  push Not at h
  obtain ⟨r, hlist, hdamaged⟩ := h
  rcases hdecode : decode r.data with fault | entries
  · unfold list? at hlist
    refine ⟨fault, ?_⟩
    unfold entriesOf ofModule
    simp only [Option.mem_def.1 hlist, hdecode]
    rfl
  · exact absurd hdecode (hdamaged entries)

theorem build_of_sound (h : ∀ m ∈ ms, Sound m) :
    build ms = .ok ⟨resourceName, .hidden, encode (listing ms)⟩ := by
  have hentries : ms.mapM entriesOf = .ok (ms.map named) :=
    mapM_list_answers fun m hm => entriesOf_of_sound (h m hm)
  unfold build listing
  rw [hentries, ← distinct_eq, List.flatMap]
  rfl

theorem build_refused_iff :
    (∃ fault, build ms = .error fault) ↔ ∃ m ∈ ms, ¬Sound m := by
  constructor
  · rintro ⟨fault, hfault⟩
    by_contra hall
    push Not at hall
    rw [build_of_sound hall] at hfault
    exact nomatch hfault
  · rintro ⟨m, hm, hnot⟩
    rcases hbuild : build ms with fault | r
    · exact ⟨fault, rfl⟩
    · -- a module whose list cannot be read has no entries
      obtain ⟨lists, hlists, -⟩ := bind_eq_ok.1 hbuild
      obtain ⟨entries, hentries⟩ := exists_of_mapM_eq_ok hlists hm
      obtain ⟨fault, hfault⟩ := entriesOf_of_not_sound hnot
      rw [hentries] at hfault
      exact nomatch hfault

/-! ## Merges of merges -/

/-- The module goes by the name, or its list is that of a merge, and one of the modules merged there goes
by it, or comes from a merge itself and so on. -/
inductive MadeOf : Module → String → Prop where
  | itself (m : Module) : MadeOf m m.identity.displayName
  | part {m n : Module} {ms : List Module} {r : Resource} {name : String} (hbuild : build ms = .ok r)
    (hfits : Fits (listing ms)) (hlist : list? m = some r) (hn : n ∈ ms) (h : MadeOf n name) :
    MadeOf m name

/-- One merge hands on the names of the modules that it was made of. -/
theorem carried_of_build {r : Resource} (hbuild : build ms = .ok r) (hfits : Fits (listing ms))
    (hlist : list? m = some r) : carried m = listing ms := by
  have hall : ∀ n ∈ ms, Sound n := by
    by_contra hnot
    push Not at hnot
    obtain ⟨fault, hfault⟩ := build_refused_iff.2 hnot
    rw [hbuild] at hfault
    exact nomatch hfault
  rw [build_of_sound hall] at hbuild
  cases hbuild
  rw [carried, hlist, Option.bind_some, decode_encode hfits]
  rfl

/-- No number of merges loses a name. -/
theorem mem_named_of_madeOf (h : MadeOf m name) : name ∈ named m := by
  induction h with
  | itself m => exact List.mem_cons_self
  | part hbuild hfits hlist hn _ ih =>
    refine List.mem_cons_of_mem _ ?_
    rw [carried_of_build hbuild hfits hlist]
    exact mem_listing_iff.2 ⟨_, hn, ih⟩

/-- For all modules: no manifest is built for them exactly if one of them carries a list that cannot be
read. Otherwise a manifest is built, and what is read back from it are the names of the modules and the
entries that they carry, in their order and each once, as long as 32 bits hold their numbers; and every
name of a module that went into one of them, by any number of merges, is among them. -/
theorem build_lists (ms : List Module) :
    ((∃ fault, build ms = .error fault) ↔
      ∃ m ∈ ms, ∃ r ∈ list? m, ∃ fault, decode r.data = .error fault) ∧
    ((∀ m ∈ ms, ∀ r ∈ list? m, ∃ entries, decode r.data = .ok entries) →
      ∃ r, build ms = .ok r ∧ r.name = resourceName ∧ r.flags = .hidden ∧
        (Fits (listing ms) → decode r.data = .ok (listing ms))) ∧
    (listing ms).Nodup ∧
    ∀ m ∈ ms, ∀ name, MadeOf m name → name ∈ listing ms := by
  refine ⟨?_, ?_, nodup_listing ms, ?_⟩
  · have hdamaged (m : Module) :
        (∃ r ∈ list? m, ∃ fault, decode r.data = .error fault) ↔ ¬Sound m := by
      unfold Sound
      push Not
      refine exists_congr fun r => and_congr_right fun _ => ?_
      rcases decode r.data with fault | entries <;> simp
    rw [build_refused_iff]
    simp only [hdamaged]
  · intro hall
    exact ⟨_, build_of_sound hall, rfl, rfl, decode_encode⟩
  · intro m hm name hmade
    exact mem_listing_iff.2 ⟨m, hm, mem_named_of_madeOf hmade⟩

/-- A module of a name, with the list of the modules that it was merged from. -/
def mergedFrom (name : String) (ms : List Module) : Module :=
  { Module.ofIdentity (.ofName name ⟨1, 0, 0, 0⟩) .dll with resources := (build ms).toOption.toList }

/-- A merge of a merge of a merge: `Lib` is in two of them, and the list without entries adds none. -/
theorem build_lists_nested :
    let plain (name : String) := Module.ofIdentity (.ofName name ⟨1, 0, 0, 0⟩) .dll
    let inner := mergedFrom "Lib" [plain "Lib", plain "Util"]
    let outer := mergedFrom "App" [plain "App", inner]
    let ms := [mergedFrom "Tool" [], outer, inner]
    ∃ r, build ms = .ok r ∧
      decode r.data = .ok ["Tool, Version=1.0.0.0, Culture=neutral, PublicKeyToken=null",
        "App, Version=1.0.0.0, Culture=neutral, PublicKeyToken=null",
        "Lib, Version=1.0.0.0, Culture=neutral, PublicKeyToken=null",
        "Util, Version=1.0.0.0, Culture=neutral, PublicKeyToken=null"] := by
  intro plain inner outer ms
  have hsound : ∀ m ∈ ms, ∀ r ∈ list? m, (decode r.data).isOk := by decide +kernel
  obtain ⟨-, hbuilt, -, -⟩ := build_lists ms
  obtain ⟨r, hr, -, -, hdecode⟩ := hbuilt fun m hm r hlist => exists_eq_ok (hsound m hm r hlist)
  refine ⟨r, hr, (hdecode (by decide +kernel)).trans ?_⟩
  exact congrArg _ (by decide +kernel : listing ms = _)

end Manifest

end ModuleLinker
