import ModuleLinker.Proofs.Emission
import ModuleLinker.Proofs.Relocation.Readable
import ModuleLinker.Proofs.Relocation.TidyOutput
import ModuleLinker.Proofs.Reporting.Errors
import ModuleLinker.Proofs.ResourceNames

namespace ModuleLinker

/-! # Restoring places in source texts

An image has no places in source texts; the sidecar beside it holds those of its module. A merge that
answers is taken apart into its stages: what was loaded can be read again, and so can what is linked and
emitted, so that the files of a merge have between them all places that its module has. Methods are told
apart by their tokens for that, as they are in the output if the inputs are numbered well.
-/

/-! ## Modules from files -/

namespace Loading

variable {fs : FileSystem} {p : Policy} {set : ModuleSet} {log log' : Log}

theorem complete_readable {primary : LoadedModule} {others : List LoadedModule}
    (hinputs : ∀ l ∈ primary :: others, l.module.Readable)
    (h : (complete fs p primary others).run.run log = (.ok set, log')) :
    ∀ i m, set.source? i = some m → m.Readable := by
  obtain ⟨references, _, -, h⟩ := run_bind_eq_ok h
  rw [← List.forall_mem_map (P := Module.Readable)] at hinputs
  -- the module that has the attributes is an input, or is read like one
  suffices hsource : (primary :: others).map LoadedModule.module = set.inputs ∧
      ∀ l ∈ set.attributeSource, l.module.Readable by
    rintro i m hm
    rcases Option.or_eq_some_iff.1 hm with hinput | ⟨-, hsaid⟩
    · exact hinputs m (hsource.1 ▸ List.mem_of_getElem? hinput)
    · obtain ⟨l, hl, rfl⟩ := Option.map_eq_some_iff.1 hsaid
      exact hsource.2 l hl
  split at h
  case h_1 =>
    cases h
    exact ⟨rfl, nofun⟩
  case h_2 =>
    obtain ⟨path, _, -, h⟩ := run_bind_eq_ok h
    obtain ⟨now, _, -, h⟩ := run_bind_eq_ok h
    obtain ⟨source, _, hload, h⟩ := run_bind_eq_ok h
    obtain ⟨_, _, -, h⟩ := run_bind_eq_ok h
    cases h
    refine ⟨rfl, fun l hl => ?_⟩
    obtain rfl := Option.some.inj hl
    exact load_readable (Merging.ofExcept_ok hload).1

/-- All modules that a merge from files takes something of can be read again. -/
theorem resolve_readable (h : (resolve fs p).run.run log = (.ok set, log')) :
    ∀ i m, set.source? i = some m → m.Readable := by
  obtain ⟨files, _, -, h⟩ := run_bind_eq_ok h
  obtain ⟨now, _, -, h⟩ := run_bind_eq_ok h
  obtain ⟨inputs, _, hinputs, h⟩ := run_bind_eq_ok h
  obtain ⟨_, _, -, h⟩ := run_bind_eq_ok h
  have hreadable := forall_of_mapM_eq_ok (p := fun l => l.module.Readable)
    (fun _ _ hload => load_readable hload) (Merging.ofExcept_ok hinputs).1
  split at h
  case h_1 => exact nomatch h
  case h_2 => exact complete_readable hreadable h

end Loading

/-! ## Emitted files -/

namespace Emission

/-- Reading the files back gives the module `n`: the image is read as the module of the files in its
canonical form, the symbols are attached to what was read, and this changes nothing but places, so that each
method has those that it has in the module of the files. -/
structure Files.ReadBackAs (f : Files) (n : Module) : Prop where
  image : Module.ofImage f.image = .ok f.module.canonical
  symbols : ∃ path data, f.symbols = some (path, data) ∧
    Sidecar.attach f.module.canonical data = (n, none)
  canonical : n.withoutPoints = f.module.canonical
  points : n.methods.map (fun x => (x.token, x.points?)) = f.module.methods.map fun x => (x.token, x.points?)

variable {fs : FileSystem} {set : ModuleSet} {p : Policy} {plan : Plan} {m : Module}

/-- With symbols, finishing a module leaves its types, places included, and its rows for members. -/
theorem finish_keeps {signer : Option Signer} {out : Module} (hkeep : p.options.keepSymbols)
    (h : finish set p signer m = .ok out) : out.types = m.types ∧ out.memberRefs = m.memberRefs := by
  unfold finish at h
  rw [if_pos hkeep] at h
  split at h
  case isTrue =>
    cases h
    exact ⟨rfl, rfl⟩
  case isFalse =>
    obtain ⟨manifest, -, h⟩ := bind_eq_ok.1 h
    cases h
    exact ⟨rfl, rfl⟩

/-- The files that a module is emitted as which can be read again: the image reads back, and the symbols
are those of the module that comes with it. -/
theorem files_ok {f : Files} {log log' : Log} (hkeep : p.options.keepSymbols) (hm : m.Readable)
    (h : (files fs set p plan m).run.run log = (.ok f, log')) :
    f.module.types = m.types ∧ f.module.Readable ∧ Module.ofImage f.image = .ok f.module.canonical ∧
      ∃ path data, f.symbols = some (path, data) ∧ Sidecar.ofModule f.module = .ok data := by
  obtain ⟨signer, _, -, h⟩ := run_bind_eq_ok h
  obtain ⟨finished, _, hfinish, h⟩ := run_bind_eq_ok h
  obtain ⟨w, _, hencode, h⟩ := run_bind_eq_ok h
  dsimp only at h
  rw [if_pos hkeep] at h
  obtain ⟨data, _, hdata, h⟩ := run_bind_eq_ok h
  obtain ⟨symbols, _, hsymbols, h⟩ := run_bind_eq_ok h
  obtain rfl : some _ = symbols := Except.ok.inj (Prod.mk.inj hsymbols).1
  obtain ⟨docs, rfl⟩ :
      ∃ docs, f = ⟨w.module, w.image, p.resolve p.options.output, some (_, data), docs⟩ := by
    split at h
    all_goals
      obtain ⟨docs, _, -, h⟩ := run_bind_eq_ok h
      exact ⟨docs, (Except.ok.inj (Prod.mk.inj h).1).symm⟩
  obtain ⟨hfinish, -⟩ := Merging.ofExcept_ok hfinish
  obtain ⟨htypes, hrows⟩ := finish_keeps hkeep hfinish
  have hfinished : finished.Readable := hm.congr htypes hrows
  obtain ⟨hread, hmodule⟩ := ofImage_of_encode hfinish hfinished.nesting hfinished.hasNamedBases
    (congrArg Prod.fst hencode)
  have hwritten : w.module.types = finished.types ∧ w.module.memberRefs = finished.memberRefs := by
    rw [hmodule]
    exact ⟨rfl, rfl⟩
  exact ⟨hwritten.1.trans htypes, hfinished.congr hwritten.1 hwritten.2, hread, _, data, rfl,
    (Merging.ofExcept_ok hdata).1⟩

end Emission

/-! ## Merges -/

namespace Merge

namespace Running

variable {fs fs' : FileSystem} {log log' : Log}

/-- A sequence that answers has gone through an answer of its first part. -/
theorem bind_ok {x : Running α} {f : α → Running β} {b : β}
    (h : ((x >>= f).run.run fs).run log = ((.ok b, fs'), log')) : ∃ a fs₁ log₁,
      (x.run.run fs).run log = ((.ok a, fs₁), log₁) ∧
        ((f a).run.run fs₁).run log₁ = ((.ok b, fs'), log') := by
  rcases hx : (x.run.run fs).run log with ⟨⟨fault | a, fs₁⟩, log₁⟩
  all_goals
    have hbind : ((x >>= f).run.run fs).run log =
        ((ExceptT.bindCont f ((x.run.run fs).run log).1.1).run ((x.run.run fs).run log).1.2).run
          ((x.run.run fs).run log).2 := rfl
    rw [hbind, hx] at h
  case error => exact nomatch h
  case ok => exact ⟨a, fs₁, log₁, rfl, h⟩

/-- A part that changes no files has answered for itself. -/
theorem ofMerging_bind_ok {x : Merging α} {f : α → Running β} {b : β}
    (h : ((ofMerging x >>= f).run.run fs).run log = ((.ok b, fs'), log')) : ∃ a log₁,
      x.run.run log = (.ok a, log₁) ∧ ((f a).run.run fs).run log₁ = ((.ok b, fs'), log') := by
  obtain ⟨a, fs₁, log₁, hx, hf⟩ := bind_ok h
  have hrun : ((ofMerging x).run.run fs).run log = (((x.run.run log).1, fs), (x.run.run log).2) := rfl
  rw [hrun] at hx
  obtain ⟨hfirst, hlog⟩ := Prod.mk.inj hx
  obtain ⟨ha, rfl⟩ := Prod.mk.inj hfirst
  exact ⟨a, log₁, Prod.ext ha hlog, hf⟩

end Running

variable {o : Options} {elapsed : Nat} {fs : FileSystem} {outcome : Outcome}

/-- The stages that a merge from files has gone through when it answers. -/
structure Completed (o : Options) (fs : FileSystem) (outcome : Outcome) (p : Policy) (set : ModuleSet)
    (plan : Plan) (m : Module) : Prop where
  options : p.options = o
  resolved : ∃ log log', (Loading.resolve fs p).run.run log = (.ok set, log')
  linked : ∃ log, ((link set p).run.run log).1 = .ok (plan, m)
  emitted : ∃ log log', (Emission.files fs set p plan m).run.run log = (.ok outcome.files, log')

theorem validate_ok {p : Policy} {log log' : Log} (h : o.validate.run.run log = (.ok p, log')) :
    p.options = o := by
  unfold Options.validate at h
  split at h
  case h_1 => exact nomatch h
  case h_2 =>
    obtain ⟨patterns, _, -, h⟩ := run_bind_eq_ok h
    cases h
    rfl

theorem run_completes {fs' : FileSystem} {log log' : Log}
    (h : ((run o elapsed).run.run fs).run log = ((.ok outcome, fs'), log')) :
    ∃ p set plan m, Completed o fs outcome p set plan m := by
  obtain ⟨p, _, hvalidate, h⟩ := Running.ofMerging_bind_ok h
  obtain ⟨_, fs₁, _, hinfo, h⟩ := Running.bind_ok h
  obtain rfl : fs = fs₁ := (Prod.mk.inj (Prod.mk.inj hinfo).1).2
  obtain ⟨now, fs₁, _, hget, h⟩ := Running.bind_ok h
  obtain ⟨hnow, rfl⟩ := Prod.mk.inj (Prod.mk.inj hget).1
  obtain rfl := Except.ok.inj hnow
  obtain ⟨set, _, hresolve, h⟩ := Running.ofMerging_bind_ok h
  obtain ⟨⟨plan, m⟩, _, hlink, h⟩ := Running.ofMerging_bind_ok h
  obtain ⟨files, _, hfiles, h⟩ := Running.ofMerging_bind_ok h
  obtain ⟨_, _, _, -, h⟩ := Running.bind_ok h
  obtain ⟨_, _, _, -, h⟩ := Running.bind_ok h
  obtain ⟨_, _, _, -, h⟩ := Running.bind_ok h
  cases h
  exact ⟨p, set, plan, m, validate_ok hvalidate, ⟨_, _, hresolve⟩, ⟨_, congrArg Prod.fst hlink⟩, _, _, hfiles⟩

/-- A merge that answers has gone through all stages, with the files that there were once the log file was
created. -/
theorem repack_completes (h : (repack o elapsed fs).answer = .ok outcome) :
    ∃ fs₁ p set plan m, Completed o fs₁ outcome p set plan m := by
  have hlogged : ∀ fs₁, (logged o elapsed fs₁).answer = .ok outcome →
      ∃ p set plan m, Completed o fs₁ outcome p set plan m := by
    intro fs₁ h
    unfold logged at h
    rcases hrun : ((run o elapsed).run.run fs₁).run [] with ⟨⟨fault | outcome', fs'⟩, log⟩
    · rw [hrun] at h
      exact nomatch h
    · rw [hrun] at h
      cases h
      exact run_completes hrun
  unfold repack at h
  split at h
  case h_1 => exact ⟨_, hlogged _ h⟩
  case h_2 =>
    split at h
    case h_1 => exact nomatch h
    case h_2 => exact ⟨_, hlogged _ h⟩

namespace Completed

variable {p : Policy} {set : ModuleSet} {plan : Plan} {m : Module}
  (h : Completed o fs outcome p set plan m)

include h

/-- What is linked can be read again. -/
theorem readable : m.Readable := by
  obtain ⟨_, _, hresolve⟩ := h.resolved
  obtain ⟨_, hlink⟩ := h.linked
  obtain ⟨-, _, hrun⟩ := link_eq_ok hlink
  exact Relocation.run_readable (Loading.resolve_readable hresolve) hrun

/-- The files of a merge have between them all places in source texts. -/
theorem restores (hkeep : o.keepSymbols) (hnodup : (outcome.files.module.methods.map Method.token).Nodup) :
    ∃ n, outcome.files.ReadBackAs n := by
  obtain ⟨_, _, hfiles⟩ := h.emitted
  obtain ⟨-, hreadable, hread, path, data, hsymbols, hdata⟩ :=
    Emission.files_ok (h.options ▸ hkeep) h.readable hfiles
  obtain ⟨n, hattach, hcanonical, hpoints⟩ :=
    Sidecar.attach_canonical hnodup hreadable.pointsFit hdata
  exact ⟨n, hread, ⟨path, data, hsymbols, hattach⟩, hcanonical, hpoints⟩

/-- Methods of the output are told apart if the tokens of all inputs are numbered well. -/
theorem nodup_methods (hkeep : o.keepSymbols) (hset : set.WellNumbered) :
    (outcome.files.module.methods.map Method.token).Nodup := by
  obtain ⟨_, hlink⟩ := h.linked
  obtain ⟨-, _, hrun⟩ := link_eq_ok hlink
  obtain ⟨_, _, _, _, _, hwritten, -⟩ := Relocation.run_writes hset hrun
  obtain ⟨_, _, hfiles⟩ := h.emitted
  have htypes := (Emission.files_ok (h.options ▸ hkeep) h.readable hfiles).1
  have hwalk : m.methods.map Method.token =
      m.walk.flatMap fun entry => entry.1.tokensOfTable Table.method := by
    rw [Module.methods_eq, List.map_flatMap, ← Module.map_walk, List.flatMap_map]
    rfl
  rw [Module.methods, htypes, ← Module.methods, hwalk]
  exact (hwritten.inOrder_walk Table.method).nodup

end Completed

/-- A sidecar gives a module all places in source texts back, if no two of its methods have the same token.
So the files of a merge that keeps symbols have between them what the image has lost: with the sidecar, what
is read from the image has all places of the output. Its methods have different tokens whenever the tokens of
all inputs are numbered well. -/
theorem sidecar_restores :
    (∀ (m : Module) (data : Bytes), (m.methods.map Method.token).Nodup → m.PointsFit →
      Sidecar.ofModule m = .ok data → Sidecar.attach m.withoutPoints data = (m, none)) ∧
    ∀ (o : Options) (elapsed : Nat) (fs : FileSystem) (outcome : Outcome), o.keepSymbols →
      (repack o elapsed fs).answer = .ok outcome →
      ((outcome.files.module.methods.map Method.token).Nodup → ∃ n, outcome.files.ReadBackAs n) ∧
      ∃ fs₁ p set plan m, Completed o fs₁ outcome p set plan m ∧
        (set.WellNumbered → (outcome.files.module.methods.map Method.token).Nodup) := by
  refine ⟨fun m data hnodup hfit h => Sidecar.attach_withoutPoints hnodup hfit h, ?_⟩
  intro o elapsed fs outcome hkeep h
  obtain ⟨fs₁, p, set, plan, m, hcompleted⟩ := repack_completes h
  exact ⟨hcompleted.restores hkeep, fs₁, p, set, plan, m, hcompleted, hcompleted.nodup_methods hkeep⟩

/-- A module whose methods come from two texts, from no place, and from nowhere at all. -/
def scatteredModule : Module :=
  let method (row : UInt32) (name : String) (body : Option MethodBody) : Method :=
    ⟨⟨0x06000000 + row⟩, name, ⟨0x96⟩, ⟨false, 0, .primitive .void, []⟩, body, []⟩
  let body (points : List SequencePoint) : MethodBody :=
    { MethodBody.ofCode [(0x00, .none), (0x2A, .none)] with points }
  let inner : TypeDef := ⟨⟨0x02000002⟩, "", "Inner", ⟨2⟩, none, [], [], [],
    [method 3 "Run" (some (body [⟨0, "Inner.cs", 7, 1, 7, 9⟩]))], [], [], [], []⟩
  let outer : TypeDef := ⟨⟨0x02000001⟩, "A", "Outer", ⟨1⟩, none, [], [], [],
    [method 1 "Run" (some (body [⟨0, "Outer.cs", 1, 1, 1, 8⟩, ⟨1, "Outer.cs", 2, 1, 2, 2⟩])),
      method 2 "Do" none, method 4 "Skip" (some (body []))], [], [], [inner], []⟩
  { Module.ofIdentity (.ofName "A" ⟨1, 0, 0, 0⟩) .dll with types := [outer] }

/-- The sidecar of a module, or nothing if it has none. -/
def sidecarBytes (m : Module) : Bytes := (Sidecar.ofModule m).toOption.getD []

/-- Two files with the module and its places. -/
def scatteredFiles : FileSystem :=
  { entries := [(["A.dll"], .file (imageBytes scatteredModule)),
      (["A.pdb"], .file (sidecarBytes scatteredModule))], current := [] }

/-- Options that ask for an output with symbols. -/
def tracingOptions : Options := { rivalOptions with inputs := [⟨"/A.dll"⟩], keepSymbols := true }

/-- The methods of the output and their places. -/
def scatteredPlaces : List (Token × Option (List SequencePoint)) :=
  [(⟨0x06000001⟩, some [⟨0, "Outer.cs", 1, 1, 1, 8⟩, ⟨1, "Outer.cs", 2, 1, 2, 2⟩]),
    (⟨0x06000002⟩, none), (⟨0x06000003⟩, some []),
    (⟨0x06000004⟩, some [⟨0, "Inner.cs", 7, 1, 7, 9⟩])]

theorem sidecar_restores_scattered : ∃ data outcome n,
    Sidecar.ofModule scatteredModule = .ok data ∧
    Sidecar.attach scatteredModule.withoutPoints data = (scatteredModule, none) ∧
    (repack tracingOptions 0 scatteredFiles).answer = .ok outcome ∧ outcome.files.ReadBackAs n ∧
    n.methods.map (fun x => (x.token, x.points?)) = scatteredPlaces := by
  have hwritten : (Sidecar.ofModule scatteredModule).isOk := by decide +kernel
  obtain ⟨data, hdata⟩ := exists_eq_ok hwritten
  have hmerged : (repack tracingOptions 0 scatteredFiles).answer.toOption.map
      (fun outcome => outcome.files.module.methods.map fun x => (x.token, x.points?)) =
        some scatteredPlaces := by decide +kernel
  obtain ⟨outcome, houtcome, hplaces⟩ := exists_of_map_toOption hmerged
  have hnodup : (outcome.files.module.methods.map Method.token).Nodup := by
    have htokens : outcome.files.module.methods.map Method.token = scatteredPlaces.map Prod.fst := by
      rw [← hplaces, List.map_map]
      rfl
    rw [htokens]
    decide
  obtain ⟨hfirst, hsecond⟩ := sidecar_restores
  obtain ⟨hrestores, -⟩ := hsecond tracingOptions 0 scatteredFiles outcome rfl houtcome
  obtain ⟨n, hback⟩ := hrestores hnodup
  exact ⟨data, outcome, n, hdata, hfirst _ data (by decide) (by decide) hdata, houtcome, hback,
    hback.points.trans hplaces⟩

end Merge

end ModuleLinker
