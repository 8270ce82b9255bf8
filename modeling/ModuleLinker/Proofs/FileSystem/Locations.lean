import Mathlib.Data.List.Basic
import ModuleLinker.FileSystem.Temporaries
import ModuleLinker.Proofs.Computation
import ModuleLinker.Proofs.Repetition
import ModuleLinker.Proofs.Text.Cutting

namespace ModuleLinker

/-! # What changes at locations

Each change of a file system as what is found at every location afterwards. Where a path leads depends on
directories alone, so that it still leads there after files were written and removed.
-/

namespace Path

/-! ## Parts of paths -/

variable {p parent : Path} {part : PathPart} {s : String}

theorem text_of_ofText? (h : PathPart.ofText? s = some part) : part.text = s := by
  unfold PathPart.ofText? at h
  split at h
  · exact nomatch h
  · split at h
    case isTrue hup =>
      obtain rfl := Option.some.inj h
      exact (eq_of_beq hup).symm
    · obtain rfl := Option.some.inj h
      rfl

theorem text_mem_segments (h : part ∈ p.parts) : part.text = "" ∨ part.text ∈ p.segments := by
  have hinner (hmem : part ∈ p.segments.filterMap PathPart.ofText?) : part.text ∈ p.segments := by
    obtain ⟨s, hs, hpart⟩ := List.mem_filterMap.1 hmem
    rwa [text_of_ofText? hpart]
  unfold parts at h
  dsimp only at h
  split at h
  · rcases List.mem_cons.1 h with rfl | hmem
    · exact .inl rfl
    · exact .inr (hinner hmem)
  · split at h
    case isTrue hhere =>
      rcases List.mem_cons.1 h with rfl | hmem
      · exact .inr (List.mem_of_mem_head? (eq_of_beq hhere))
      · exact .inr (hinner hmem)
    · exact .inr (hinner h)

/-- The names that lead to the directory around a path are among those of the path. -/
theorem mem_segments_of_parent (h : p.parent? = some parent) (hs : s ∈ parent.segments) :
    s = "" ∨ s ∈ p.segments := by
  have hpart (part : PathPart) (hmem : part ∈ p.parts.dropLast) : part.text = "" ∨ part.text ∈ p.segments :=
    text_mem_segments (List.dropLast_subset _ hmem)
  unfold parent? at h
  split at h
  · exact nomatch h
  · exact nomatch h
  · obtain rfl := Option.some.inj h
    unfold ofParts at hs
    split at hs
    · have hempty : s ∈ ["", ""] := hs
      exact .inl (by simpa using hempty)
    · by_cases hnil : p.parts.dropLast = []
      · rw [hnil] at hs
        have hempty : s ∈ [""] := hs
        exact .inl (by simpa using hempty)
      · have hsegments : (Path.mk ("/".intercalate (p.parts.dropLast.map PathPart.text))).segments =
            p.parts.dropLast.map PathPart.text := by
          apply Text.split_intercalate (c := '/') rfl
          · exact mt List.map_eq_nil_iff.1 hnil
          · intro t ht c hc
            obtain ⟨part, hmem, rfl⟩ := List.mem_map.1 ht
            rcases hpart part hmem with hempty | hin
            · rw [hempty] at hc
              exact nomatch hc
            · have hnot := Text.not_separates_of_mem_split hin hc
              exact hnot
        rw [hsegments] at hs
        obtain ⟨part, hmem, rfl⟩ := List.mem_map.1 hs
        exact hpart part hmem

end Path

namespace FileSystem

variable {fs fs' fs'' : FileSystem} {l l' : Location} {p : Path} {data : Bytes}
  {segments : List String}

/-! ## Entries -/

theorem ne_nil_of_lookup? (h : fs.lookup? l ≠ some .directory) : l ≠ [] := by
  rintro rfl
  exact h rfl

theorem lookup?_erase (hl : l ≠ []) (l' : Location) :
    (fs.erase l).lookup? l' = if l' = l then none else fs.lookup? l' := by
  unfold lookup?
  by_cases hnil : l' = []
  · subst hnil
    rw [if_pos rfl, if_pos rfl, if_neg (Ne.symm hl)]
  · rw [if_neg hnil, if_neg hnil, erase, lookup_filter_fst (· != l)]
    by_cases h : l' = l
    · simp [h]
    · simp [h]

theorem lookup?_put (hl : l ≠ []) (e : FileEntry) (l' : Location) :
    (fs.put l e).lookup? l' = if l' = l then some e else fs.lookup? l' := by
  have herase : (fs.erase l).lookup? l' = _ := lookup?_erase hl l'
  unfold lookup? at herase ⊢
  by_cases hnil : l' = []
  · subst hnil
    rw [if_pos rfl, if_pos rfl, if_neg (Ne.symm hl)]
  · rw [if_neg hnil, if_neg hnil] at herase ⊢
    rw [put, List.lookup_append, herase]
    by_cases h : l' = l
    · simp [h]
    · have hne : (l' == l) = false := by simpa using h
      simp [h, List.lookup_cons, hne]

/-- The root is there without an entry, and stays a directory. -/
theorem lookup?_put_nil (e : FileEntry) (l : Location) : (fs.put [] e).lookup? l = fs.lookup? l := by
  unfold lookup?
  by_cases hnil : l = []
  · rw [if_pos hnil, if_pos hnil]
  · have hne : (l == []) = false := by simpa using hnil
    rw [if_neg hnil, if_neg hnil, put, erase, List.lookup_append, lookup_filter_fst (· != [])]
    simp [hnil, List.lookup_cons, hne]

/-! ## Following paths -/

theorem eq_of_follow_eq_ok (h : fs.follow l segments = .ok l') : l' = segments.foldl step l := by
  induction segments generalizing l with
  | nil => exact (Except.ok.inj h).symm
  | cons segment rest ih =>
    rw [follow] at h
    split at h
    · exact nomatch h
    · exact nomatch h
    · split at h
      · exact nomatch h
      · exact ih h

/-- Where segments lead, they still lead as long as no directory goes. -/
theorem follow_of_directories
    (hdirectory : ∀ l, fs.lookup? l = some .directory → fs'.lookup? l = some .directory)
    (h : fs.follow l segments = .ok l') : fs'.follow l segments = .ok l' := by
  induction segments generalizing l with
  | nil => exact h
  | cons segment rest ih =>
    rw [follow] at h ⊢
    split at h
    · exact nomatch h
    · exact nomatch h
    case h_3 hlookup =>
      rw [hdirectory _ hlookup]
      by_cases hlong : isTooLong segment
      · rw [if_pos hlong] at h
        exact nomatch h
      · rw [if_neg hlong] at h
        rw [if_neg hlong]
        exact ih h

theorem locate_eq (fs : FileSystem) (p : Path) :
    fs.locate p = (checkPath p).bind fun _ => fs.follow (if p.isAbsolute then [] else fs.current) p.segments :=
  rfl

theorem eq_destination (h : fs.locate p = .ok l) : l = fs.destination p := by
  rw [locate_eq] at h
  cases hcheck : checkPath p with
  | error cause =>
    rw [hcheck] at h
    exact nomatch h
  | ok u =>
    rw [hcheck] at h
    exact eq_of_follow_eq_ok h

theorem locate_of_directories (hcurrent : fs'.current = fs.current)
    (hdirectory : ∀ l, fs.lookup? l = some .directory → fs'.lookup? l = some .directory)
    (h : fs.locate p = .ok l) : fs'.locate p = .ok l := by
  rw [locate_eq] at h ⊢
  cases hcheck : checkPath p with
  | error cause =>
    rw [hcheck] at h
    exact nomatch h
  | ok u =>
    rw [hcheck] at h
    rw [hcurrent]
    exact follow_of_directories hdirectory h

theorem destination_congr (hcurrent : fs'.current = fs.current) (p : Path) :
    fs'.destination p = fs.destination p := by
  rw [destination, destination, hcurrent]

/-! ## Reading -/

theorem read_eq_ok_iff : fs.read p = .ok data ↔ ∃ l, fs.locate p = .ok l ∧ fs.lookup? l = some (.file data) := by
  rw [read, bind_eq_ok]
  refine exists_congr fun l => and_congr_right fun _ => ?_
  rcases fs.lookup? l with _ | data' | _
  · exact ⟨nofun, nofun⟩
  · simp
  · exact ⟨nofun, nofun⟩

theorem load_eq_ok_iff : fs.load p = .ok data ↔
    data ≠ [] ∧ ∃ l, fs.locate p = .ok l ∧ fs.lookup? l = some (.file data) := by
  rw [← read_eq_ok_iff, load]
  split
  case h_1 hread => simp [hread]
  case h_2 hread =>
    rw [hread]
    constructor
    · exact nofun
    · rintro ⟨hne, heq⟩
      exact absurd (Except.ok.inj heq).symm hne
  case h_3 data' hne hread =>
    rw [hread]
    constructor
    · intro heq
      obtain rfl := Except.ok.inj heq
      exact ⟨hne, rfl⟩
    · rintro ⟨-, heq⟩
      obtain rfl := Except.ok.inj heq
      rfl

theorem isFile_iff : fs.isFile p ↔ ∃ l data, fs.locate p = .ok l ∧ fs.lookup? l = some (.file data) := by
  unfold isFile find?
  rcases fs.locate p with cause | l
  · simp
  · rcases hfound : fs.lookup? l with _ | data | _ <;> simp [hfound]

/-! ## Making directories -/

/-- Nothing changed but that directories were made where there was nothing. -/
structure Grown (fs fs' : FileSystem) : Prop where
  current : fs'.current = fs.current
  found : ∀ l, fs'.lookup? l = fs.lookup? l ∨ fs.lookup? l = none ∧ fs'.lookup? l = some .directory

namespace Grown

theorem refl (fs : FileSystem) : Grown fs fs := ⟨rfl, fun _ => .inl rfl⟩

theorem trans (h : Grown fs fs') (h' : Grown fs' fs'') : Grown fs fs'' where
  current := h'.current.trans h.current
  found := by
    intro l
    rcases h.found l with hsame | ⟨hnone, hmade⟩
    · rw [← hsame]
      exact h'.found l
    · rcases h'.found l with hsame | ⟨hnone', -⟩
      · exact .inr ⟨hnone, hsame.trans hmade⟩
      · exact absurd (hmade.symm.trans hnone') nofun

theorem put (hl : fs.lookup? l = none) : Grown fs (fs.put l .directory) where
  current := rfl
  found := by
    intro l'
    have hne : l ≠ [] := ne_nil_of_lookup? (by rw [hl]; nofun)
    rw [lookup?_put hne]
    by_cases h : l' = l
    · subst h
      exact .inr ⟨hl, if_pos rfl⟩
    · exact .inl (if_neg h)

end Grown

theorem run_createFrom (l : Location) (segment : String) (rest : List String) (fs : FileSystem) :
    (createFrom l (segment :: rest)).run.run fs =
      if isTooLong segment then (.error .nameTooLong, fs)
      else match fs.lookup? (step l segment) with
        | some .directory => (createFrom (step l segment) rest).run.run fs
        | some (.file _) => (.error (if rest.isEmpty then .alreadyExists else .notDirectory), fs)
        | none => (createFrom (step l segment) rest).run.run (fs.put (step l segment) .directory) := by
  by_cases hlong : isTooLong segment
  · rw [createFrom, if_pos hlong, if_pos hlong]
    rfl
  · rw [createFrom, if_neg hlong, if_neg hlong]
    change (StateT.run (ExceptT.run (match fs.lookup? (step l segment) with
      | some .directory => _ | some (.file _) => _ | none => _)) fs) = _
    rcases fs.lookup? (step l segment) with _ | _ | _ <;> rfl

theorem grown_createFrom (l : Location) (segments : List String) (fs : FileSystem) :
    Grown fs ((createFrom l segments).run.run fs).2 := by
  induction segments generalizing l fs with
  | nil => exact .refl fs
  | cons segment rest ih =>
    rw [run_createFrom]
    split
    · exact .refl fs
    · split
      · exact ih _ _
      · exact .refl fs
      case h_3 hnone => exact (Grown.put hnone).trans (ih _ _)

theorem run_createDirectories (p : Path) (fs : FileSystem) :
    (createDirectories p).run.run fs =
      if p.isEmpty then (.ok (), fs)
      else match checkPath p with
        | .error cause => (.error cause, fs)
        | .ok () => (createFrom (if p.isAbsolute then [] else fs.current) p.segments).run.run fs := by
  by_cases hempty : p.isEmpty
  · rw [createDirectories, if_pos hempty, if_pos hempty]
    rfl
  · rw [createDirectories, if_neg hempty, if_neg hempty]
    rcases checkPath p with cause | ⟨⟩ <;> rfl

theorem grown_createParent (p : Path) (fs : FileSystem) : Grown fs ((createParent p).run.run fs).2 := by
  unfold createParent
  split
  · rw [run_createDirectories]
    split
    · exact .refl fs
    · split
      · exact .refl fs
      · exact grown_createFrom _ _ fs
  · exact .refl fs

/-! ## Placing and removing files -/

/-- The file system with a file at the end of a path. -/
def withFile (fs : FileSystem) (p : Path) (data : Bytes) : FileSystem :=
  (fs.detach (fs.destination p)).put (fs.destination p) (.file data)

/-- Whether a file can be at the end of a path. -/
structure HasRoom (fs : FileSystem) (p : Path) : Prop where
  located : fs.locate p = .ok (fs.destination p)
  vacant : fs.lookup? (fs.destination p) ≠ some .directory

theorem run_promote (p : Path) (data : Bytes) (fs : FileSystem) :
    (promote p data).run.run fs =
      if p.hasZero then (.error .invalidArgument, fs)
      else match fs.locate p with
        | .error cause => (.error cause, fs)
        | .ok l =>
          match fs.lookup? l with
          | some .directory => (.error .isDirectory, fs)
          | _ => (.ok (), (fs.detach l).put l (.file data)) := by
  unfold promote
  by_cases hzero : p.hasZero
  · rw [if_pos hzero, if_pos hzero]
    rfl
  · rw [if_neg hzero, if_neg hzero, place]
    change StateT.run (ExceptT.run (do
      let location ← fs.locate p
      match fs.lookup? location with
      | some .directory => throw FileFault.isDirectory
      | _ => set ((fs.detach location).put location (.file data)) : FileAction Unit)) fs = _
    rcases fs.locate p with cause | l
    · rfl
    · change StateT.run (ExceptT.run (match fs.lookup? l with
        | some .directory => throw FileFault.isDirectory
        | _ => set ((fs.detach l).put l (.file data)) : FileAction Unit)) fs =
          match fs.lookup? l with
          | some .directory => (.error .isDirectory, fs)
          | _ => (.ok (), (fs.detach l).put l (.file data))
      rcases fs.lookup? l with _ | _ | _ <;> rfl

/-- Either a file is placed or nothing changes. -/
theorem promote_cases (p : Path) (data : Bytes) (fs : FileSystem) :
    (fs.HasRoom p ∧ (promote p data).run.run fs = (.ok (), fs.withFile p data)) ∨
      ∃ cause, (promote p data).run.run fs = (.error cause, fs) := by
  rw [run_promote]
  split
  · exact .inr ⟨_, rfl⟩
  · split
    · exact .inr ⟨_, rfl⟩
    case h_2 l hlocate =>
      obtain rfl := eq_destination hlocate
      split
      · exact .inr ⟨_, rfl⟩
      case h_2 hvacant => exact .inl ⟨⟨hlocate, hvacant⟩, rfl⟩

theorem HasRoom.lookup?_withFile (h : fs.HasRoom p) (data : Bytes) (l : Location) :
    (fs.withFile p data).lookup? l = if l = fs.destination p then some (.file data) else fs.lookup? l := by
  rw [withFile, lookup?_put (ne_nil_of_lookup? h.vacant)]
  rfl

theorem HasRoom.lookup?_remove (h : fs.HasRoom p) (l : Location) :
    (remove p fs).lookup? l = if l = fs.destination p then none else fs.lookup? l := by
  rw [remove, h.located]
  exact lookup?_erase (ne_nil_of_lookup? h.vacant) l

@[simp]
theorem current_remove (p : Path) (fs : FileSystem) : (remove p fs).current = fs.current := by
  unfold remove
  split <;> rfl

theorem HasRoom.remove {q : Path} (hp : fs.HasRoom p) (hq : fs.HasRoom q) : (remove p fs).HasRoom q := by
  have hdestination := destination_congr (current_remove p fs) q
  constructor
  · rw [hdestination]
    apply locate_of_directories (current_remove p fs) _ hq.located
    intro l hl
    rw [hp.lookup?_remove, if_neg]
    · exact hl
    · rintro rfl
      exact hp.vacant hl
  · rw [hdestination, hp.lookup?_remove]
    split
    · nofun
    · exact hq.vacant

/-- What is left after files were removed one after another. -/
theorem lookup?_foldl_remove (ps : List Path) (h : ∀ p ∈ ps, fs.HasRoom p) (l : Location) :
    (ps.foldl (fun fs p => remove p fs) fs).lookup? l =
      if l ∈ ps.map fs.destination then none else fs.lookup? l := by
  induction ps generalizing fs with
  | nil => simp
  | cons p ps ih =>
    obtain ⟨hp, hps⟩ := List.forall_mem_cons.1 h
    rw [List.foldl_cons, ih fun q hq => hp.remove (hps q hq), hp.lookup?_remove,
      List.map_congr_left fun q _ => destination_congr (current_remove p fs) q, List.map_cons]
    by_cases hl : l = fs.destination p
    · simp [hl]
    · simp [hl]

end FileSystem

end ModuleLinker
