import ModuleLinker.Proofs.FileSystem.Temporaries

namespace ModuleLinker

/-! # Writing several files together

What is at every location after files were written through temporary files, wherever the writing failed. Until
all files are staged nothing but directories appears. Then the files that were placed are followed by
`Midway`, and a failure removes them again, with what they replaced.
-/

namespace FileSystem

/-! ## One step after another -/

theorem run_stageAll (p : Path) (data : Bytes) (rest : List (Path × Bytes)) (fs : FileSystem) :
    (stageAll ((p, data) :: rest)).run.run fs =
      match (createParent p).run.run fs with
      | (.ok (), fs) => (stageAll rest).run.run fs
      | (.error cause, fs) => (.error (.unwritable p.text cause), fs) := by
  rw [stageAll, run_attempt_bind]
  rcases (createParent p).run.run fs with ⟨_ | _, fs⟩ <;> rfl

theorem run_placeAll (done : List Path) (p : Path) (data : Bytes) (rest : List (Path × Bytes))
    (fs : FileSystem) :
    (placeAll done ((p, data) :: rest)).run.run fs =
      match (promote p data).run.run fs with
      | (.ok (), fs) => (placeAll (done ++ [p]) rest).run.run fs
      | (.error cause, fs) =>
        (.error (.unwritable p.text cause), done.foldl (fun fs p => remove p fs) fs) := by
  rw [placeAll, run_attempt_bind]
  rcases (promote p data).run.run fs with ⟨_ | _, fs⟩ <;> rfl

end FileSystem

namespace Disk

open FileSystem

theorem run_stage (disk : Disk) (i : Nat) (p : Path) (data : Bytes) (fs : FileSystem) :
    (disk.stage i p data).run.run fs =
      match disk.making i with
      | some cause => (.error cause, fs)
      | none =>
        match (createParent p).run.run fs with
        | (.error cause, fs) => (.error cause, fs)
        | (.ok (), fs) =>
          let l := fs.surroundings p ++ [disk.temporary i]
          match disk.staging i with
          | some cause => (.error cause, (fs.put l (.file data)).erase l)
          | none => (.ok l, fs.put l (.file data)) := by
  unfold stage
  rcases disk.making i with _ | cause
  · dsimp only
    rw [run_bind]
    rcases (createParent p).run.run fs with ⟨_ | _, fs⟩
    · rfl
    · rcases disk.staging i with _ | _ <;> rfl
  · rfl

theorem run_rename (disk : Disk) (i : Nat) (p : Path) (l : Location) (fs : FileSystem) :
    (disk.rename i p l).run.run fs =
      match disk.placing i with
      | some cause => (.error cause, fs)
      | none =>
        match fs.lookup? l with
        | some (.file data) =>
          match (promote p data).run.run fs with
          | (.error cause, fs) => (.error cause, fs)
          | (.ok (), fs) => (.ok (), fs.erase l)
        | _ => (.error .notFound, fs) := by
  unfold rename
  rcases disk.placing i with _ | cause
  · change StateT.run (ExceptT.run (match fs.lookup? l with
      | some (.file data) => (do promote p data; modify (·.erase l))
      | _ => throw .notFound : FileAction Unit)) fs = _
    rcases fs.lookup? l with _ | data | _
    · rfl
    · dsimp only
      rw [run_bind]
      rcases (promote p data).run.run fs with ⟨_ | _, fs⟩ <;> rfl
    · rfl
  · rfl

theorem run_stageAll (disk : Disk) (staged : List Location) (p : Path) (data : Bytes)
    (rest : List (Path × Bytes)) (fs : FileSystem) :
    (disk.stageAll staged ((p, data) :: rest)).run.run fs =
      match (disk.stage staged.length p data).run.run fs with
      | (.ok l, fs) => (disk.stageAll (staged ++ [l]) rest).run.run fs
      | (.error cause, fs) => (.error (.unwritable p.text cause), staged.foldl erase fs) := by
  rw [stageAll, run_attempt_bind]
  rcases (disk.stage staged.length p data).run.run fs with ⟨_ | _, fs⟩ <;> rfl

theorem run_placeAll (disk : Disk) (done : List Path) (p : Path) (l : Location)
    (rest : List (Path × Location)) (fs : FileSystem) :
    (disk.placeAll done ((p, l) :: rest)).run.run fs =
      match (disk.rename done.length p l).run.run fs with
      | (.ok (), fs) => (disk.placeAll (done ++ [p]) rest).run.run fs
      | (.error cause, fs) => (.error (.unwritable p.text cause),
          (l :: rest.map Prod.snd).foldl erase (done.foldl (fun fs p => remove p fs) fs)) := by
  rw [placeAll, run_attempt_bind]
  rcases (disk.rename done.length p l).run.run fs with ⟨_ | _, fs⟩ <;> rfl

/-! ## Staging -/

variable {disk : Disk} {i : Nat} {names : List String} {ts : List (Location × Bytes)} {fs fs' : FileSystem}
  {p : Path}

/-- Either a temporary file is added, or nothing but directories. The directories are those that are made where
the disk refuses nothing. -/
theorem stage_cases (h : Beside names ts fs fs') (hp : Avoids names fs p)
    (hname : disk.temporary i ∈ names) (hnew : fs.surroundings p ++ [disk.temporary i] ∉ ts.map Prod.fst)
    (data : Bytes) :
    ∃ s s', Grown fs s ∧
      (((disk.stage i p data).run.run fs' = (.ok (fs.surroundings p ++ [disk.temporary i]), s') ∧
          Beside names (ts ++ [(fs.surroundings p ++ [disk.temporary i], data)]) s s' ∧
          (createParent p).run.run fs = (.ok (), s)) ∨
        ∃ cause, (disk.stage i p data).run.run fs' = (.error cause, s') ∧ Beside names ts s s' ∧
          (disk.Quiet → (createParent p).run.run fs = (.error cause, s))) := by
  have hthrough := goesThrough_append_singleton (l := fs.surroundings p) hname
  obtain ⟨hanswer, hbeside⟩ := h.createParent hp
  have hgrown := grown_createParent p fs
  rw [run_stage]
  rcases hmaking : disk.making i with _ | cause
  case some =>
    refine ⟨fs, fs', .refl fs, .inr ⟨cause, rfl, h, ?_⟩⟩
    intro hquiet
    exact nomatch hmaking.symm.trans (hquiet i).1
  rcases hrun' : (createParent p).run.run fs' with ⟨r, s'⟩
  rcases hrun : (createParent p).run.run fs with ⟨r', s⟩
  rw [hrun, hrun'] at hanswer hbeside
  rw [hrun] at hgrown
  obtain rfl : r = r' := hanswer
  rcases r with cause | ⟨⟩
  · exact ⟨s, s', hgrown, .inr ⟨cause, rfl, hbeside, fun _ => rfl⟩⟩
  · have hplace : s'.surroundings p = fs.surroundings p := by
      have hcurrent : s'.current = fs.current := hbeside.current.trans hgrown.current
      simp only [surroundings, destination, hcurrent]
    have hput := hbeside.put_temporary hthrough hnew data
    dsimp only
    rw [hplace]
    rcases hstaging : disk.staging i with _ | cause
    · exact ⟨s, _, hgrown, .inl ⟨rfl, hput, rfl⟩⟩
    · have hgone := hput.erase_temporary
      rw [List.append_nil] at hgone
      refine ⟨s, _, hgrown, .inr ⟨cause, rfl, hgone, ?_⟩⟩
      intro hquiet
      exact nomatch hstaging.symm.trans (hquiet i).2.1

/-- Nothing but directories appears until all files are staged. -/
theorem stageAll_cases {n : Nat} (hnames : ∀ i < n, disk.temporary i ∈ names)
    (hinjective : ∀ i < n, ∀ j < i, disk.temporary j ≠ disk.temporary i) (files : List (Path × Bytes))
    (hn : ts.length + files.length = n) (h : Beside names ts fs fs')
    (hordered : ∀ t ∈ ts, ∃ i < ts.length, t.1.getLast? = some (disk.temporary i))
    (hfiles : ∀ f ∈ files, Avoids names fs f.1) :
    ∃ s, Grown fs s ∧ (∀ l, goesThrough names l = true → s.lookup? l = none) ∧
      ((∃ all s', (disk.stageAll (ts.map Prod.fst) files).run.run fs' = (.ok (all.map Prod.fst), s') ∧
          all.map Prod.snd = ts.map Prod.snd ++ files.map Prod.snd ∧ Beside names all s s' ∧
          (FileSystem.stageAll files).run.run fs = (.ok (), s)) ∨
        ∃ before f after cause, files = before ++ f :: after ∧
          (disk.stageAll (ts.map Prod.fst) files).run.run fs' = (.error (.unwritable f.1.text cause), s) ∧
          (disk.Quiet → (FileSystem.stageAll files).run.run fs = (.error (.unwritable f.1.text cause), s))) := by
  induction files generalizing ts fs fs' with
  | nil => exact ⟨fs, .refl fs, fun _ => h.lookup?_eq_none, .inl ⟨ts, fs', rfl, by simp, h, rfl⟩⟩
  | cons f rest ih =>
    obtain ⟨p, data⟩ := f
    obtain ⟨hp, hrest⟩ := List.forall_mem_cons.1 hfiles
    rw [List.length_cons] at hn
    have hnew : fs.surroundings p ++ [disk.temporary ts.length] ∉ ts.map Prod.fst := by
      intro hmem
      obtain ⟨t, ht, heq⟩ := List.mem_map.1 hmem
      obtain ⟨i, hi, hlast⟩ := hordered t ht
      rw [heq, List.getLast?_concat] at hlast
      exact hinjective ts.length (by omega) i hi (Option.some.inj hlast).symm
    rw [run_stageAll, FileSystem.run_stageAll, List.length_map]
    obtain ⟨s, s', hgrown, ⟨hstage, hbeside, hmake⟩ | ⟨cause, hstage, hbeside, hmake⟩⟩ :=
      stage_cases h hp (hnames _ (by omega)) hnew data
    · have hordered' : ∀ t ∈ ts ++ [(fs.surroundings p ++ [disk.temporary ts.length], data)],
          ∃ i < ts.length + 1, t.1.getLast? = some (disk.temporary i) := by
        intro t ht
        rcases List.mem_append.1 ht with ht | ht
        · obtain ⟨i, hi, hlast⟩ := hordered t ht
          exact ⟨i, by omega, hlast⟩
        · obtain rfl := List.mem_singleton.1 ht
          exact ⟨ts.length, by omega, List.getLast?_concat⟩
      obtain ⟨s₂, hgrown₂, hnone, hrun⟩ := ih (by simp; omega) hbeside (by simpa using hordered')
        fun f hf => (hrest f hf).of_current hgrown.current
      rw [hstage, hmake]
      rw [List.map_append, List.map_append, List.map_singleton, List.map_singleton, List.append_assoc] at hrun
      refine ⟨s₂, hgrown.trans hgrown₂, hnone, ?_⟩
      rcases hrun with hrun | ⟨before, f, after, cause, rfl, hrun⟩
      · exact .inl hrun
      · exact .inr ⟨(p, data) :: before, f, after, cause, rfl, hrun⟩
    · refine ⟨s, hgrown, fun _ => hbeside.lookup?_eq_none, .inr ⟨[], (p, data), rest, cause, rfl, ?_, ?_⟩⟩
      · rw [hstage]
        dsimp only
        rw [hbeside.foldl_erase]
      · intro hquiet
        rw [hmake hquiet]

end Disk

namespace FileSystem

/-! ## Placing -/

variable {fs base : FileSystem} {placed : List (Path × Bytes)} {p : Path}

/-- Between the files that are placed one after another: those that are placed have their data, and everything
else is as it was when the first one was to be placed. -/
structure Midway (base : FileSystem) (placed : List (Path × Bytes)) (fs : FileSystem) : Prop where
  current : fs.current = base.current
  room : ∀ f ∈ placed, base.HasRoom f.1
  there : ∀ f ∈ placed, fs.lookup? (base.destination f.1) = some (.file f.2)
  others : ∀ l ∉ placed.map (fun f => base.destination f.1), fs.lookup? l = base.lookup? l

namespace Midway

theorem refl (base : FileSystem) : Midway base [] base := ⟨rfl, nofun, nofun, fun _ _ => rfl⟩

theorem directory_iff (h : Midway base placed fs) (l : Location) :
    fs.lookup? l = some .directory ↔ base.lookup? l = some .directory := by
  by_cases hl : l ∈ placed.map fun f => base.destination f.1
  · obtain ⟨f, hf, rfl⟩ := List.mem_map.1 hl
    rw [h.there f hf]
    exact ⟨nofun, fun hdirectory => absurd hdirectory (h.room f hf).vacant⟩
  · rw [h.others l hl]

theorem hasRoom_iff (h : Midway base placed fs) : fs.HasRoom p ↔ base.HasRoom p := by
  have hdestination := destination_congr h.current p
  constructor
  · rintro ⟨hlocated, hvacant⟩
    rw [hdestination] at hlocated hvacant
    exact ⟨locate_of_directories h.current.symm (fun l => (h.directory_iff l).1) hlocated,
      fun hdirectory => hvacant ((h.directory_iff _).2 hdirectory)⟩
  · rintro ⟨hlocated, hvacant⟩
    constructor
    · rw [hdestination]
      exact locate_of_directories h.current (fun l => (h.directory_iff l).2) hlocated
    · rw [hdestination]
      exact fun hdirectory => hvacant ((h.directory_iff _).1 hdirectory)

theorem step (h : Midway base placed fs) (hroom : fs.HasRoom p)
    (hnew : base.destination p ∉ placed.map fun f => base.destination f.1) (data : Bytes) :
    Midway base (placed ++ [(p, data)]) (fs.withFile p data) where
  current := h.current
  room := by
    rw [List.forall_mem_append, List.forall_mem_singleton]
    exact ⟨h.room, h.hasRoom_iff.1 hroom⟩
  there := by
    rw [List.forall_mem_append, List.forall_mem_singleton]
    constructor
    · intro f hf
      rw [hroom.lookup?_withFile, destination_congr h.current, if_neg]
      · exact h.there f hf
      · intro heq
        exact hnew (heq ▸ List.mem_map.2 ⟨f, hf, rfl⟩)
    · rw [hroom.lookup?_withFile, destination_congr h.current, if_pos rfl]
  others := by
    intro l hl
    rw [List.map_append, List.mem_append, not_or, List.map_singleton, List.mem_singleton] at hl
    rw [hroom.lookup?_withFile, destination_congr h.current, if_neg hl.2]
    exact h.others l hl.1

/-- A file that was placed can be read. -/
theorem read_eq (h : Midway base placed fs) {f : Path × Bytes} (hf : f ∈ placed) : fs.read f.1 = .ok f.2 := by
  have hlocated := (h.hasRoom_iff.2 (h.room f hf)).located
  rw [destination_congr h.current] at hlocated
  exact read_eq_ok_iff.2 ⟨_, hlocated, h.there f hf⟩

/-- When the files that were placed are removed again, nothing is left of what was at their places. -/
theorem lookup?_rollback (h : Midway base placed fs) (l : Location) :
    ((placed.map Prod.fst).foldl (fun fs p => remove p fs) fs).lookup? l =
      if l ∈ placed.map (fun f => base.destination f.1) then none else base.lookup? l := by
  have hroom : ∀ p ∈ placed.map Prod.fst, fs.HasRoom p := by
    intro p hp
    obtain ⟨f, hf, rfl⟩ := List.mem_map.1 hp
    exact h.hasRoom_iff.2 (h.room f hf)
  have hdestinations : (placed.map Prod.fst).map fs.destination = placed.map fun f => base.destination f.1 := by
    rw [List.map_map]
    exact List.map_congr_left fun f _ => destination_congr h.current f.1
  rw [lookup?_foldl_remove _ hroom, hdestinations]
  split
  · rfl
  case isFalse hl => exact h.others l hl

end Midway

end FileSystem

namespace Disk

open FileSystem

variable {names : List String} {ts : List (Location × Bytes)} {fs fs' base : FileSystem}
  {placed : List (Path × Bytes)} {p : Path} {data : Bytes} {l : Location}

/-- Either the first of the temporary files is renamed or nothing changes. -/
theorem rename_cases (disk : Disk) (h : Beside names ((l, data) :: ts) fs fs') (hp : Avoids names fs p) (i : Nat) :
    (fs.HasRoom p ∧ (promote p data).run.run fs = (.ok (), fs.withFile p data) ∧
        ∃ s', (disk.rename i p l).run.run fs' = (.ok (), s') ∧ Beside names ts (fs.withFile p data) s') ∨
      ∃ cause, (disk.rename i p l).run.run fs' = (.error cause, fs') ∧
        (disk.Quiet → (promote p data).run.run fs = (.error cause, fs)) := by
  rw [run_rename]
  rcases hplacing : disk.placing i with _ | cause
  case some =>
    refine .inr ⟨cause, rfl, ?_⟩
    intro hquiet
    exact nomatch hplacing.symm.trans (hquiet i).2.2
  rw [h.lookup?_temporary]
  dsimp only
  obtain ⟨hanswer, hbeside⟩ := h.promote hp data
  rcases promote_cases p data fs with ⟨hroom, hrun⟩ | ⟨cause, hrun⟩
  · left
    refine ⟨hroom, hrun, ?_⟩
    rcases hrun' : (promote p data).run.run fs' with ⟨r, s'⟩
    rw [hrun, hrun'] at hanswer hbeside
    obtain rfl : r = .ok () := hanswer
    have hgone : Beside names ([] ++ (l, data) :: ts) (fs.withFile p data) s' := hbeside
    exact ⟨_, rfl, hgone.erase_temporary⟩
  · right
    -- a refusal leaves the files as they are, with the temporary ones beside them or without
    have hrun' : (promote p data).run.run fs' = (.error cause, fs') := by
      rcases promote_cases p data fs' with ⟨-, hrun'⟩ | ⟨cause', hrun'⟩
      · rw [hrun, hrun'] at hanswer
        exact nomatch hanswer
      · rw [hrun, hrun'] at hanswer
        obtain rfl : cause' = cause := Except.error.inj hanswer
        exact hrun'
    exact ⟨cause, by rw [hrun'], fun _ => hrun⟩

/-- Either all files are placed, or those before one of them were placed and are removed again. -/
theorem placeAll_cases (disk : Disk) (files : List (Path × Bytes)) (hdata : ts.map Prod.snd = files.map Prod.snd)
    (h : Beside names ts fs fs') (hmidway : Midway base placed fs)
    (hfiles : ∀ f ∈ placed ++ files, Avoids names fs f.1)
    (hdistinct : ((placed ++ files).map fun f => base.destination f.1).Nodup) :
    ∃ s,
      ((disk.placeAll (placed.map Prod.fst) ((files.map Prod.fst).zip (ts.map Prod.fst))).run.run fs' =
            (.ok (), s) ∧
          (FileSystem.placeAll (placed.map Prod.fst) files).run.run fs = (.ok (), s) ∧
          Midway base (placed ++ files) s) ∨
        ∃ before f after cause, files = before ++ f :: after ∧
          (disk.placeAll (placed.map Prod.fst) ((files.map Prod.fst).zip (ts.map Prod.fst))).run.run fs' =
            (.error (.unwritable f.1.text cause), s) ∧
          (disk.Quiet → (FileSystem.placeAll (placed.map Prod.fst) files).run.run fs =
            (.error (.unwritable f.1.text cause), s)) ∧
          ∀ l, s.lookup? l = if l ∈ (placed ++ before).map (fun f => base.destination f.1) then none
            else base.lookup? l := by
  induction files generalizing ts fs fs' placed with
  | nil =>
    obtain rfl : ts = [] := List.map_eq_nil_iff.1 hdata
    obtain rfl := h.eq_of_nil
    exact ⟨_, .inl ⟨rfl, rfl, by rwa [List.append_nil]⟩⟩
  | cons f rest ih =>
    obtain ⟨p, data⟩ := f
    obtain ⟨⟨l, data'⟩, ts, rfl, hfirst, hrest⟩ := List.map_eq_cons_iff.1 hdata
    obtain rfl : data' = data := hfirst
    have hp : Avoids names fs p := hfiles _ (List.mem_append_right _ List.mem_cons_self)
    have hnew : base.destination p ∉ placed.map fun f => base.destination f.1 := by
      rw [List.map_append, List.map_cons, List.nodup_middle, List.nodup_cons, List.mem_append, not_or]
        at hdistinct
      exact hdistinct.1.1
    rw [List.map_cons, List.map_cons, List.zip_cons_cons, run_placeAll, FileSystem.run_placeAll, List.length_map]
    rcases rename_cases disk h hp placed.length with
      ⟨hroom, hpromote, s', hrename, hbeside⟩ | ⟨cause, hrename, hquiet⟩
    · have hcurrent : (fs.withFile p data').current = fs.current := rfl
      have hmidway' := hmidway.step hroom hnew data'
      rw [List.append_cons] at hfiles hdistinct
      obtain ⟨s, hrun⟩ := ih hrest hbeside hmidway' (fun f hf => (hfiles f hf).of_current hcurrent) hdistinct
      rw [hrename, hpromote]
      rw [List.map_append, List.map_singleton, ← List.append_cons] at hrun
      refine ⟨s, ?_⟩
      rcases hrun with hrun | ⟨before, f, after, cause, rfl, hrun, hquiet, hfound⟩
      · exact .inl hrun
      · rw [← List.append_cons] at hfound
        exact .inr ⟨(p, data') :: before, f, after, cause, rfl, hrun, hquiet, hfound⟩
    · have hplaced : ∀ q ∈ placed.map Prod.fst, Avoids names fs q := by
        intro q hq
        obtain ⟨f, hf, rfl⟩ := List.mem_map.1 hq
        exact hfiles f (List.mem_append_left _ hf)
      have hlength : (ts.map Prod.fst).length = (rest.map Prod.fst).length := by
        simpa using congrArg List.length hrest
      refine ⟨(placed.map Prod.fst).foldl (fun fs p => remove p fs) fs, ?_⟩
      right
      refine ⟨[], (p, data'), rest, cause, rfl, ?_, ?_, ?_⟩
      · rw [hrename, List.map_snd_zip hlength.le]
        -- without the temporary files, what is left is what is left where there were none
        exact Prod.ext rfl (h.foldl_remove hplaced).foldl_erase
      · intro hquiet'
        rw [hquiet hquiet']
      · rw [List.append_nil]
        exact hmidway.lookup?_rollback

end Disk

/-! ## Writing -/

namespace FileSystem

/-- The contents of the file at a location, if there is one. -/
def content? (fs : FileSystem) (l : Location) : Option Bytes :=
  match fs.lookup? l with
  | some (.file data) => some data
  | _ => none

variable {fs fs' : FileSystem} {l : Location}

theorem content?_congr (h : fs'.lookup? l = fs.lookup? l) : fs'.content? l = fs.content? l := by
  rw [content?, content?, h]

theorem Grown.content?_eq (h : Grown fs fs') (l : Location) : fs'.content? l = fs.content? l := by
  rcases h.found l with hsame | ⟨hnone, hmade⟩
  · exact content?_congr hsame
  · rw [content?, content?, hnone, hmade]

end FileSystem

namespace Disk

open FileSystem

variable {disk : Disk} {files : List (Path × Bytes)} {fs : FileSystem}

/-- The names of the first `n` temporary files. -/
def names (disk : Disk) (n : Nat) : List String := (List.range n).map disk.temporary

/-- The names of temporary files are new ones: no two are the same, and neither the paths nor the entries nor
the current directory have any of them. -/
structure Fresh (disk : Disk) (files : List (Path × Bytes)) (fs : FileSystem) : Prop where
  distinct : (disk.names files.length).Nodup
  entries : ∀ e ∈ fs.entries, goesThrough (disk.names files.length) e.1 = false
  avoids : ∀ f ∈ files, Avoids (disk.names files.length) fs f.1

theorem temporary_mem_names {n i : Nat} (h : i < n) : disk.temporary i ∈ disk.names n :=
  List.mem_map_of_mem (List.mem_range.2 h)

theorem ne_of_nodup_names {n i j : Nat} (h : (disk.names n).Nodup) (hi : i < n) (hj : j < i) :
    disk.temporary j ≠ disk.temporary i := by
  intro heq
  have hsame := List.inj_on_of_nodup_map h (List.mem_range.2 (hj.trans hi)) (List.mem_range.2 hi) heq
  omega

/-- Staging all files before the first one is placed, so that a writing ends in one of three ways. -/
theorem writeAll_cases (hfresh : disk.Fresh files fs)
    (hdistinct : (files.map fun f => fs.destination f.1).Nodup) :
    ∃ base, Grown fs base ∧ (∀ l, goesThrough (disk.names files.length) l = true → base.lookup? l = none) ∧
      ∃ s, ((disk.writeAll files fs = (.ok (), s) ∧ FileSystem.writeAll files fs = (.ok (), s) ∧
          Midway base files s) ∨
        ∃ before f after cause placed, files = before ++ f :: after ∧ (placed = [] ∨ placed = before) ∧
          disk.writeAll files fs = (.error (.unwritable f.1.text cause), s) ∧
          (disk.Quiet → FileSystem.writeAll files fs = (.error (.unwritable f.1.text cause), s)) ∧
          ∀ l, s.lookup? l = if l ∈ placed.map (fun f => base.destination f.1) then none else base.lookup? l) := by
  have hstart : Beside (disk.names files.length) [] fs fs := .refl hfresh.entries
  obtain ⟨base, hgrown, hnone, hstage⟩ := stageAll_cases (fun i hi => temporary_mem_names hi)
    (fun i hi j hj => ne_of_nodup_names hfresh.distinct hi hj) files (Nat.zero_add _) hstart nofun hfresh.avoids
  refine ⟨base, hgrown, hnone, ?_⟩
  unfold writeAll FileSystem.writeAll
  rw [run_bind, run_bind]
  rcases hstage with ⟨all, s', hrun, hdata, hbeside, hmake⟩ | ⟨before, f, after, cause, rfl, hrun, hquiet⟩
  · have hdestinations : (files.map fun f => base.destination f.1) = files.map fun f => fs.destination f.1 :=
      List.map_congr_left fun f _ => destination_congr hgrown.current f.1
    have hplace := placeAll_cases disk files hdata hbeside (.refl base)
      (fun f hf => (hfresh.avoids f hf).of_current hgrown.current) (by rwa [List.nil_append, hdestinations])
    rw [List.map_nil] at hrun
    rw [hrun, hmake]
    obtain ⟨s, hplace⟩ := hplace
    refine ⟨s, ?_⟩
    rcases hplace with hplace | ⟨before, f, after, cause, rfl, hrun, hquiet, hfound⟩
    · exact .inl hplace
    · exact .inr ⟨before, f, after, cause, before, rfl, .inr rfl, hrun, hquiet, hfound⟩
  · rw [List.map_nil] at hrun
    rw [hrun]
    refine ⟨base, .inr ⟨before, f, after, cause, [], rfl, .inl rfl, rfl, ?_, fun l => rfl⟩⟩
    intro hq
    rw [hquiet hq]

section

variable {base s : FileSystem} {placed : List (Path × Bytes)}

/-- Where no file was placed and removed again, there is what there was before. -/
theorem content?_of_not_placed (hgrown : Grown fs base)
    (hfound : ∀ l, s.lookup? l = if l ∈ placed.map (fun f => fs.destination f.1) then none else base.lookup? l)
    (hdistinct : (files.map fun f => fs.destination f.1).Nodup) (hsubset : placed ⊆ files) {g : Path × Bytes}
    (hg : g ∈ files) (hnot : g ∉ placed) :
    s.content? (fs.destination g.1) = fs.content? (fs.destination g.1) := by
  have hother : fs.destination g.1 ∉ placed.map fun f => fs.destination f.1 := by
    intro hmem
    obtain ⟨g', hg', heq⟩ := List.mem_map.1 hmem
    obtain rfl := List.inj_on_of_nodup_map hdistinct (hsubset hg') hg heq
    exact hnot hg'
  have hsame : s.lookup? (fs.destination g.1) = base.lookup? (fs.destination g.1) := by
    rw [hfound, if_neg hother]
  rw [content?_congr hsame, hgrown.content?_eq]

/-- Files that were placed and removed again leave everything as it was if and only if they replaced nothing. -/
theorem content?_eq_iff (hgrown : Grown fs base)
    (hfound : ∀ l, s.lookup? l = if l ∈ placed.map (fun f => fs.destination f.1) then none else base.lookup? l)
    (hdistinct : (files.map fun f => fs.destination f.1).Nodup) (hsubset : placed ⊆ files) :
    (∀ g ∈ files, s.content? (fs.destination g.1) = fs.content? (fs.destination g.1)) ↔
      ∀ g ∈ placed, fs.content? (fs.destination g.1) = none := by
  have hgone (g : Path × Bytes) (hg : g ∈ placed) : s.content? (fs.destination g.1) = none := by
    rw [content?, hfound, if_pos (List.mem_map.2 ⟨g, hg, rfl⟩)]
  constructor
  · intro h g hg
    rw [← h g (hsubset hg), hgone g hg]
  · intro h g hg
    by_cases hin : g ∈ placed
    · rw [h g hin, hgone g hin]
    · exact content?_of_not_placed hgrown hfound hdistinct hsubset hg hin

end

/-- A writing whose names of temporary files are new: if it answers, all files are there. If it fails, it names
a file; all files before that one, or none, had been placed and are gone, with what they replaced, and every
other destination has what it had, so that nothing changed if and only if nothing was replaced. In either case
nothing else has changed but that directories were made, so that there are no temporary files left. -/
theorem writeAll_outcome (disk : Disk) (files : List (Path × Bytes)) (fs : FileSystem)
    (hfresh : disk.Fresh files fs) (hdistinct : (files.map fun f => fs.destination f.1).Nodup) :
    (match disk.writeAll files fs with
      | (.ok (), after) => ∀ f ∈ files, after.read f.1 = .ok f.2
      | (.error fault, after) => ∃ before f rest cause placed, files = before ++ f :: rest ∧
          fault = .unwritable f.1.text cause ∧ (placed = [] ∨ placed = before) ∧
          (∀ g ∈ placed, after.lookup? (fs.destination g.1) = none) ∧
          (∀ g ∈ files, g ∉ placed → after.content? (fs.destination g.1) = fs.content? (fs.destination g.1)) ∧
          ((∀ g ∈ files, after.content? (fs.destination g.1) = fs.content? (fs.destination g.1)) ↔
            ∀ g ∈ placed, fs.content? (fs.destination g.1) = none)) ∧
      (∀ l ∉ files.map (fun f => fs.destination f.1),
        (disk.writeAll files fs).2.lookup? l = fs.lookup? l ∨
          fs.lookup? l = none ∧ (disk.writeAll files fs).2.lookup? l = some .directory) ∧
      (∀ l, goesThrough (disk.names files.length) l = true → (disk.writeAll files fs).2.lookup? l = none) ∧
      (disk.Quiet → disk.writeAll files fs = FileSystem.writeAll files fs) := by
  obtain ⟨base, hgrown, hnone, s, hwrite⟩ := writeAll_cases hfresh hdistinct
  have hdestination (p : Path) : base.destination p = fs.destination p := destination_congr hgrown.current p
  simp only [hdestination] at hwrite
  have hapart (l : Location) (hl : goesThrough (disk.names files.length) l = true) :
      l ∉ files.map fun f => fs.destination f.1 := by
    intro hmem
    obtain ⟨f, hf, rfl⟩ := List.mem_map.1 hmem
    exact nomatch hl.symm.trans (hfresh.avoids f hf).destination
  rcases hwrite with ⟨hrun, hmodel, hmidway⟩ |
    ⟨before, f, rest, cause, placed, hfiles, hplaced, hrun, hquiet, hfound⟩
  · have hothers := hmidway.others
    simp only [hdestination] at hothers
    rw [hrun]
    refine ⟨fun f hf => hmidway.read_eq hf, ?_, ?_, fun _ => hmodel.symm⟩
    · intro l hl
      dsimp only
      rw [hothers l hl]
      exact hgrown.found l
    · intro l hl
      exact (hothers l (hapart l hl)).trans (hnone l hl)
  · have hsubset : placed ⊆ files := by
      rcases hplaced with rfl | rfl
      · nofun
      · rw [hfiles]
        exact List.subset_append_left _ _
    have hothers (l : Location) (hl : l ∉ files.map fun f => fs.destination f.1) : s.lookup? l = base.lookup? l := by
      rw [hfound, if_neg fun hmem => hl (List.map_subset _ hsubset hmem)]
    rw [hrun]
    refine ⟨⟨before, f, rest, cause, placed, hfiles, rfl, hplaced, ?_,
      fun g => content?_of_not_placed hgrown hfound hdistinct hsubset,
      content?_eq_iff hgrown hfound hdistinct hsubset⟩, ?_, ?_, fun hq => (hquiet hq).symm⟩
    · intro g hg
      rw [hfound, if_pos (List.mem_map.2 ⟨g, hg, rfl⟩)]
    · intro l hl
      dsimp only
      rw [hothers l hl]
      exact hgrown.found l
    · intro l hl
      exact (hothers l (hapart l hl)).trans (hnone l hl)

/-! ### An output over an older one -/

/-- A directory with an older output, where the place of its symbols is taken by a directory. -/
def older : FileSystem := { entries := [(["out.dll"], .file [1]), (["out.pdb"], .directory)], current := [] }

/-- An output with its symbols. -/
def output : List (Path × Bytes) := [(⟨"out.dll"⟩, [2]), (⟨"out.pdb"⟩, [3])]

/-- A disk that refuses nothing by itself. -/
def willing : Disk where
  temporary i := if i = 0 then ".tmpQ4f2aX" else ".tmpb81Lzo"
  making _ := none
  staging _ := none
  placing _ := none

theorem fresh_willing : willing.Fresh output older where
  distinct := by decide +kernel
  entries := by decide +kernel
  avoids := by
    intro f hf
    exact ⟨by decide +kernel, by decide +kernel, by revert f; decide +kernel⟩

theorem writeAll_outcome_older :
    willing.Fresh output older ∧ (output.map fun f => older.destination f.1).Nodup ∧
      (∀ l, goesThrough (willing.names 2) l = true → (willing.writeAll output older).2.lookup? l = none) ∧
      willing.writeAll output older = FileSystem.writeAll output older := by
  have hdistinct : (output.map fun f => older.destination f.1).Nodup := by decide +kernel
  obtain ⟨-, -, hgone, hquiet⟩ := writeAll_outcome willing output older fresh_willing hdistinct
  exact ⟨fresh_willing, hdistinct, hgone, hquiet fun _ => ⟨rfl, rfl, rfl⟩⟩

/-- The symbols cannot be placed, and the older output is lost. -/
theorem writeAll_loses_output :
    (output.map fun f => older.destination f.1).Nodup ∧ older.content? ["out.dll"] = some [1] ∧
      (willing.writeAll output older).1 = .error (.unwritable "out.pdb" .isDirectory) ∧
      (willing.writeAll output older).2.content? ["out.dll"] = none ∧
      (FileSystem.writeAll output older).1 = .error (.unwritable "out.pdb" .isDirectory) ∧
      (FileSystem.writeAll output older).2.content? ["out.dll"] = none := by
  decide +kernel

end Disk

end ModuleLinker
