import Mathlib.Data.List.Nodup
import ModuleLinker.Proofs.FileSystem.Locations

namespace ModuleLinker

/-! # Files beside temporary files

A file system that holds temporary files is compared with the one without them. Making directories, placing
files and removing them have the same answers in both, and leave the temporary files where they are.
-/

namespace FileSystem

variable {names : List String} {ts : List (Location × Bytes)} {fs fs' : FileSystem} {l : Location}
  {p : Path} {data : Bytes} {segments : List String} {s : String}

/-! ## Locations without temporary names -/

/-- Whether a location goes through one of some names. -/
def goesThrough (names : List String) (l : Location) : Bool := l.any names.contains

theorem goesThrough_eq_false : goesThrough names l = false ↔ ∀ s ∈ l, s ∉ names := by
  simp [goesThrough]

theorem goesThrough_append_singleton (h : s ∈ names) : goesThrough names (l ++ [s]) = true := by
  simp [goesThrough, h]

theorem goesThrough_step (hl : goesThrough names l = false) (hs : s ∉ names) :
    goesThrough names (step l s) = false := by
  rw [goesThrough_eq_false] at hl ⊢
  intro t ht
  unfold step at ht
  split at ht
  · exact hl t (List.dropLast_subset _ ht)
  case h_2 text hname =>
    rcases List.mem_append.1 ht with ht | ht
    · exact hl t ht
    · obtain rfl := List.mem_singleton.1 ht
      obtain rfl := Path.text_of_ofText? hname
      exact hs
  · exact hl t ht

theorem goesThrough_foldl_step (hl : goesThrough names l = false) (hsegments : ∀ s ∈ segments, s ∉ names) :
    goesThrough names (segments.foldl step l) = false := by
  induction segments generalizing l with
  | nil => exact hl
  | cons s rest ih =>
    obtain ⟨hs, hrest⟩ := List.forall_mem_cons.1 hsegments
    exact ih (goesThrough_step hl hs) hrest

/-- Neither a path nor the current directory has one of some names. -/
structure Avoids (names : List String) (fs : FileSystem) (p : Path) : Prop where
  empty : "" ∉ names
  current : ∀ s ∈ fs.current, s ∉ names
  segments : ∀ s ∈ p.segments, s ∉ names

namespace Avoids

theorem start (h : Avoids names fs p) :
    goesThrough names (if p.isAbsolute then [] else fs.current) = false := by
  split
  · rfl
  · exact goesThrough_eq_false.2 h.current

theorem destination (h : Avoids names fs p) : goesThrough names (fs.destination p) = false :=
  goesThrough_foldl_step h.start h.segments

theorem parent (h : Avoids names fs p) {parent : Path} (hparent : p.parent? = some parent) :
    Avoids names fs parent where
  empty := h.empty
  current := h.current
  segments := by
    intro s hs
    rcases Path.mem_segments_of_parent hparent hs with rfl | hmem
    · exact h.empty
    · exact h.segments s hmem

theorem of_current (h : Avoids names fs p) (hcurrent : fs'.current = fs.current) : Avoids names fs' p where
  empty := h.empty
  current := by rw [hcurrent]; exact h.current
  segments := h.segments

end Avoids

/-! ## Temporary files beside others -/

/-- The entries of `fs'` are those of `fs` and the temporary files `ts`, which alone are at locations with the
names of temporary files. -/
structure Beside (names : List String) (ts : List (Location × Bytes)) (fs fs' : FileSystem) : Prop where
  entries : fs.entries = fs'.entries.filter fun e => !goesThrough names e.1
  temporary : (fs'.entries.filter fun e => goesThrough names e.1) = ts.map fun t => (t.1, .file t.2)
  distinct : (ts.map Prod.fst).Nodup
  current : fs'.current = fs.current
  journal : fs'.journal = fs.journal

namespace Beside

/-- Where there are no temporary files, there are none beside the others. -/
theorem refl (h : ∀ e ∈ fs.entries, goesThrough names e.1 = false) : Beside names [] fs fs where
  entries := by
    symm
    rw [List.filter_eq_self]
    intro e he
    rw [h e he]
    rfl
  temporary := by
    rw [List.map_nil, List.filter_eq_nil_iff]
    intro e he
    rw [h e he]
    exact Bool.false_ne_true
  distinct := List.nodup_nil
  current := rfl
  journal := rfl

theorem eq_of_nil (h : Beside names [] fs fs') : fs' = fs := by
  have hall : fs.entries = fs'.entries := by
    rw [h.entries, List.filter_eq_self]
    intro e he
    rw [Bool.not_eq_true', ← Bool.not_eq_true]
    exact List.filter_eq_nil_iff.1 (by rw [h.temporary]; rfl) e he
  cases fs
  cases fs'
  have hcurrent := h.current
  have hjournal := h.journal
  dsimp only at hall hcurrent hjournal
  rw [hall, hcurrent, hjournal]

theorem lookup?_eq (h : Beside names ts fs fs') (hl : goesThrough names l = false) :
    fs'.lookup? l = fs.lookup? l := by
  unfold lookup?
  rw [h.entries, lookup_filter_fst fun l => !goesThrough names l, hl]
  rfl

/-- The first of the temporary files is there. -/
theorem lookup?_temporary (h : Beside names ((l, data) :: ts) fs fs') : fs'.lookup? l = some (.file data) := by
  have hmem : (l, FileEntry.file data) ∈ fs'.entries.filter fun e => goesThrough names e.1 := by
    rw [h.temporary]
    exact List.mem_cons_self
  have hl : goesThrough names l = true := (List.mem_filter.1 hmem).2
  have hne : l ≠ [] := by
    rintro rfl
    exact nomatch hl
  have hlookup := lookup_filter_fst (goesThrough names) fs'.entries l
  rw [if_pos hl, h.temporary, List.map_cons, List.lookup_cons_self] at hlookup
  rw [lookup?, if_neg hne, ← hlookup]

/-- Nothing else is where temporary files are. -/
theorem lookup?_eq_none (h : Beside names ts fs fs') (hl : goesThrough names l = true) : fs.lookup? l = none := by
  have hne : l ≠ [] := by
    rintro rfl
    exact nomatch hl
  rw [lookup?, if_neg hne, h.entries, lookup_filter_fst fun l => !goesThrough names l, hl]
  rfl

/-! ### Changes that see no temporary files -/

theorem erase (h : Beside names ts fs fs') (hl : goesThrough names l = false) :
    Beside names ts (fs.erase l) (fs'.erase l) where
  entries := by
    simp only [FileSystem.erase, h.entries, List.filter_filter, Bool.and_comm]
  temporary := by
    rw [← h.temporary, FileSystem.erase, List.filter_filter]
    apply List.filter_congr
    intro e _
    by_cases he : e.1 = l
    · rw [he, hl]
      rfl
    · simp [he]
  distinct := h.distinct
  current := h.current
  journal := h.journal

theorem put (h : Beside names ts fs fs') (hl : goesThrough names l = false) (e : FileEntry) :
    Beside names ts (fs.put l e) (fs'.put l e) where
  entries := by
    have herase := (h.erase hl).entries
    rw [FileSystem.put, FileSystem.put, List.filter_append, ← herase]
    simp [hl]
  temporary := by
    have herase := (h.erase hl).temporary
    rw [FileSystem.put, List.filter_append, herase]
    simp [hl]
  distinct := h.distinct
  current := h.current
  journal := h.journal

theorem detach (h : Beside names ts fs fs') (l : Location) : Beside names ts (fs.detach l) (fs'.detach l) where
  entries := h.entries
  temporary := h.temporary
  distinct := h.distinct
  current := h.current
  journal := by rw [FileSystem.detach, FileSystem.detach, h.journal]

/-! ### Temporary files that come and go -/

theorem put_temporary (h : Beside names ts fs fs') (hl : goesThrough names l = true)
    (hnew : l ∉ ts.map Prod.fst) (data : Bytes) :
    Beside names (ts ++ [(l, data)]) fs (fs'.put l (.file data)) := by
  have herase : fs'.erase l = fs' := by
    have hall : fs'.entries.filter (fun e => e.1 != l) = fs'.entries := by
      rw [List.filter_eq_self]
      intro e he
      rw [bne_iff_ne]
      rintro rfl
      -- an entry at the location would be one of the temporary files
      have hmem : e ∈ ts.map fun t => (t.1, FileEntry.file t.2) := by
        rw [← h.temporary]
        exact List.mem_filter.2 ⟨he, hl⟩
      obtain ⟨t, ht, rfl⟩ := List.mem_map.1 hmem
      exact hnew (List.mem_map_of_mem ht)
    rw [FileSystem.erase, hall]
  refine ⟨?_, ?_, ?_, h.current, h.journal⟩
  · rw [FileSystem.put, herase, List.filter_append, h.entries]
    simp [hl]
  · rw [FileSystem.put, herase, List.filter_append, h.temporary]
    simp [hl]
  · rw [List.map_append, List.map_singleton]
    exact List.nodup_append.2 ⟨h.distinct, List.nodup_singleton l, by
      rintro t ht l' hl' rfl
      obtain rfl := List.mem_singleton.1 hl'
      exact hnew ht⟩

theorem erase_temporary {before after : List (Location × Bytes)}
    (h : Beside names (before ++ (l, data) :: after) fs fs') : Beside names (before ++ after) fs (fs'.erase l) := by
  have hmem : (l, FileEntry.file data) ∈ fs'.entries.filter fun e => goesThrough names e.1 := by
    rw [h.temporary]
    exact List.mem_map_of_mem (List.mem_append_right _ List.mem_cons_self)
  have hl : goesThrough names l = true := (List.mem_filter.1 hmem).2
  have hdistinct := h.distinct
  rw [List.map_append, List.map_cons, List.nodup_middle, List.nodup_cons, ← List.map_append] at hdistinct
  have hothers : (before ++ after).filter (fun t => t.1 != l) = before ++ after := by
    rw [List.filter_eq_self]
    intro t ht
    rw [bne_iff_ne]
    rintro rfl
    exact hdistinct.1 (List.mem_map.2 ⟨t, ht, rfl⟩)
  refine ⟨?_, ?_, hdistinct.2, h.current, h.journal⟩
  · rw [h.entries, FileSystem.erase, List.filter_filter]
    apply List.filter_congr
    intro e _
    by_cases he : e.1 = l
    · rw [he, hl]
      rfl
    · simp [he]
  · have hcomm : ((fs'.erase l).entries.filter fun e => goesThrough names e.1) =
        (fs'.entries.filter fun e => goesThrough names e.1).filter fun e => e.1 != l := by
      simp only [FileSystem.erase, List.filter_filter, Bool.and_comm]
    rw [hcomm, h.temporary, List.filter_map, ← hothers, List.filter_append, List.filter_append,
      List.filter_cons_of_neg (by simp)]
    rfl

/-- When all temporary files went, the others are left. -/
theorem foldl_erase (h : Beside names ts fs fs') : (ts.map Prod.fst).foldl FileSystem.erase fs' = fs := by
  induction ts generalizing fs' with
  | nil => exact h.eq_of_nil
  | cons t ts ih =>
    have hfirst : Beside names ([] ++ t :: ts) fs fs' := h
    exact ih hfirst.erase_temporary

/-! ### Actions that see no temporary files -/

theorem follow (h : Beside names ts fs fs') (hl : goesThrough names l = false)
    (hsegments : ∀ s ∈ segments, s ∉ names) : fs'.follow l segments = fs.follow l segments := by
  induction segments generalizing l with
  | nil => rfl
  | cons s rest ih =>
    obtain ⟨hs, hrest⟩ := List.forall_mem_cons.1 hsegments
    rw [FileSystem.follow, FileSystem.follow, h.lookup?_eq hl, ih (goesThrough_step hl hs) hrest]

theorem locate (h : Beside names ts fs fs') (hp : Avoids names fs p) : fs'.locate p = fs.locate p := by
  rw [locate_eq, locate_eq, h.current, h.follow hp.start hp.segments]

theorem createFrom (h : Beside names ts fs fs') (hl : goesThrough names l = false)
    (hsegments : ∀ s ∈ segments, s ∉ names) :
    ((createFrom l segments).run.run fs').1 = ((createFrom l segments).run.run fs).1 ∧
      Beside names ts ((createFrom l segments).run.run fs).2 ((createFrom l segments).run.run fs').2 := by
  induction segments generalizing l fs fs' with
  | nil => exact ⟨rfl, h⟩
  | cons s rest ih =>
    obtain ⟨hs, hrest⟩ := List.forall_mem_cons.1 hsegments
    have hstep := goesThrough_step hl hs
    rw [run_createFrom, run_createFrom, h.lookup?_eq hstep]
    split
    · exact ⟨rfl, h⟩
    · split
      · exact ih h hstep hrest
      · exact ⟨rfl, h⟩
      · exact ih (h.put hstep _) hstep hrest

theorem createParent (h : Beside names ts fs fs') (hp : Avoids names fs p) :
    ((createParent p).run.run fs').1 = ((createParent p).run.run fs).1 ∧
      Beside names ts ((createParent p).run.run fs).2 ((createParent p).run.run fs').2 := by
  unfold FileSystem.createParent
  split
  case h_1 parent hparent =>
    have hparent := hp.parent hparent
    rw [run_createDirectories, run_createDirectories, h.current]
    split
    · exact ⟨rfl, h⟩
    · split
      · exact ⟨rfl, h⟩
      · exact h.createFrom hparent.start hparent.segments
  case h_2 => exact ⟨rfl, h⟩

theorem promote (h : Beside names ts fs fs') (hp : Avoids names fs p) (data : Bytes) :
    ((promote p data).run.run fs').1 = ((promote p data).run.run fs).1 ∧
      Beside names ts ((promote p data).run.run fs).2 ((promote p data).run.run fs').2 := by
  rw [run_promote, run_promote, h.locate hp]
  split
  · exact ⟨rfl, h⟩
  · split
    · exact ⟨rfl, h⟩
    case h_2 l hlocate =>
      obtain rfl := eq_destination hlocate
      rw [h.lookup?_eq hp.destination]
      split
      · exact ⟨rfl, h⟩
      · exact ⟨rfl, (h.detach _).put hp.destination _⟩

theorem remove (h : Beside names ts fs fs') (hp : Avoids names fs p) :
    Beside names ts (remove p fs) (remove p fs') := by
  unfold FileSystem.remove
  rw [h.locate hp]
  split
  case h_1 l hlocate =>
    obtain rfl := eq_destination hlocate
    exact h.erase hp.destination
  case h_2 => exact h

theorem foldl_remove {ps : List Path} (h : Beside names ts fs fs') (hps : ∀ p ∈ ps, Avoids names fs p) :
    Beside names ts (ps.foldl (fun fs p => FileSystem.remove p fs) fs)
      (ps.foldl (fun fs p => FileSystem.remove p fs) fs') := by
  induction ps generalizing fs fs' with
  | nil => exact h
  | cons p ps ih =>
    obtain ⟨hp, hps⟩ := List.forall_mem_cons.1 hps
    exact ih (h.remove hp) fun q hq => (hps q hq).of_current (current_remove p fs)

end Beside

end FileSystem

end ModuleLinker
