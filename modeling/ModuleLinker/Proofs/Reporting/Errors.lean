import ModuleLinker.Merge
import ModuleLinker.Proofs.Plan.Notices
import ModuleLinker.Proofs.Relocation.Visibility
import ModuleLinker.Proofs.Reporting.Notices

namespace ModuleLinker

/-! # The errors of a merge

A merge that answers leaves no errors. A fault that stops it is the last notice and the only error, with
one exception: a conflict of two types was reported by the plan already, and is reported again.

Every stage of a merge is quiet, or reports the conflict that stops it. One theorem says so for each
function of a stage, from the functions that it is made of.
-/

open Logging

/-! ## Settings -/

namespace Options

theorem readPatterns_reports (o : Options) : o.readPatterns.Reports := by
  have h := Merging.Reports.stepwise
  unfold readPatterns
  split
  case isTrue =>
    refine h.bind (h.forIn (fun pattern _ => ?_) _ _) fun _ => .ofExcept (Pattern.parseAll_fails _)
    exact h.bind (.lift (.info _)) fun _ => h.pure _
  case isFalse =>
    split
    case isTrue => exact h.bind (.lift (.warn _)) fun _ => h.pure _
    case isFalse => exact h.pure _

theorem validate_reports (o : Options) : o.validate.Reports := by
  have h := Merging.Reports.stepwise
  unfold validate
  split
  case h_1 => exact .throw nofun
  case h_2 => exact h.bind o.readPatterns_reports fun _ => h.pure _

end Options

/-! ## Loading -/

namespace Loading

variable (fs : FileSystem) (p : Policy)

theorem filesOf_reports (path : Path) : (filesOf fs p path).Reports := by
  have h := Merging.Reports.stepwise
  unfold filesOf
  dsimp only
  split
  case isTrue =>
    refine h.bind (.ofExcept (fs.expand_fails _)) fun found => ?_
    split
    case isTrue => exact h.bind (.lift (.warn _)) fun _ => h.pure _
    case isFalse => exact h.pure _
  case isFalse => exact h.bind (.ofExcept (existing_fails fs p path)) fun _ => h.pure _

theorem keepFile_reports (kept : List Path) (path : Path) : (keepFile fs kept path).Reports := by
  have h := Merging.Reports.stepwise
  unfold keepFile
  split
  case h_1 => exact .throw nofun
  case h_2 =>
    split
    case isTrue => exact h.bind (.lift (.warn _)) fun _ => h.pure _
    case isFalse => exact h.pure _

theorem inputFiles_reports : (inputFiles fs p).Reports := by
  have h := Merging.Reports.stepwise
  refine h.bind (h.mapM (filesOf_reports fs p) _) fun found => ?_
  refine h.bind (h.foldlM (keepFile_reports fs) _ _) fun kept => ?_
  split
  case isTrue => exact .throw nofun
  case isFalse => exact h.pure _

theorem announce_reports (taken inputs : List LoadedModule) : (announce taken inputs).Reports := by
  have h := Merging.Reports.stepwise
  induction inputs generalizing taken with
  | nil => exact h.pure _
  | cons l rest ih =>
    unfold announce
    split
    case h_1 => exact .throw nofun
    case h_2 => exact h.bind (.lift (.info _)) fun _ => ih _

theorem follow_quiet {find? : String → Option Path} {read : Path → Logging (Except Fault Module)}
    (hread : ∀ path, Quiet (read path)) (n : Nat) (queue : List Identity) (d : Discovery) :
    Quiet (follow find? read n queue d) := by
  have h := Quiet.stepwise
  induction n generalizing queue d with
  | zero => exact h.pure _
  | succ n ih =>
    cases queue with
    | nil => exact h.pure _
    | cons identity queue =>
      unfold follow
      split
      case isTrue => exact ih _ _
      case isFalse =>
        dsimp only
        split
        case h_1 => exact ih _ _
        case h_2 path _ =>
          refine h.bind (hread path) fun result => ?_
          cases result with
          | error fault => exact h.bind (.warn _) fun _ => ih _ _
          | ok m => exact h.bind (.verbose _) fun _ => ih _ _

theorem discover_quiet (inputs : List Module) : Quiet (discover fs p inputs) := by
  have h := Quiet.stepwise
  refine h.bind (follow_quiet (fun path => ?_) _ _ _) fun d => ?_
  · exact h.bind (.files fs) fun _ => h.pure _
  · exact h.bind (h.forIn (fun name _ => h.bind (.warn _) fun _ => h.pure _) _ _) fun _ => h.pure _

theorem complete_reports (primary : LoadedModule) (others : List LoadedModule) :
    (complete fs p primary others).Reports := by
  have h := Merging.Reports.stepwise
  refine h.bind (.lift (discover_quiet fs p _)) fun references => ?_
  split
  case h_1 => exact h.pure _
  case h_2 path _ =>
    refine h.bind (.ofExcept (existing_fails fs p path)) fun path => ?_
    refine h.bind (.lift (.files fs)) fun now => ?_
    refine h.bind (.ofExcept (load_fails now p path)) fun source => ?_
    exact h.bind (.lift (.verbose _)) fun _ => h.pure _

theorem resolve_reports : (resolve fs p).Reports := by
  have h := Merging.Reports.stepwise
  refine h.bind (inputFiles_reports fs p) fun files => ?_
  refine h.bind (.lift (.files fs)) fun now => ?_
  refine h.bind (.ofExcept (FailsOnly.stepwise.mapM (load_fails now p) files)) fun inputs => ?_
  refine h.bind (announce_reports [] inputs) fun _ => ?_
  split
  case h_1 => exact .throw nofun
  case h_2 => exact complete_reports fs p _ _

end Loading

/-! ## Plans -/

theorem Notice.IsVerbose.level_ne {n : Notice} (h : n.IsVerbose) : n.level ≠ .error := by
  obtain ⟨text, rfl⟩ := h
  nofun

theorem Notice.OfAttributes.level_ne {n : Notice} (h : n.OfAttributes) : n.level ≠ .error := by
  obtain h | ⟨name, rfl⟩ := h
  · exact h.level_ne
  · nofun

theorem NamedAttribute.offer_quiet (s : ModuleSet) (p : Policy) (source : AttributeSource)
    (kept : List NamedAttribute) (a : NamedAttribute) : Quiet (offer s p source kept a) :=
  .of_tells (offer_tells s p source kept a) fun _ => Notice.OfAttributes.level_ne

namespace Internalization

variable (table : SymbolTable) (p : Policy) (merged : Merged)

theorem decideAll_quiet (ds : List Declaration) : QuietFrom (decideAll table p merged ds) :=
  fun names => .of_tells (decideAll_tells table p merged ds names) fun _ => Notice.IsVerbose.level_ne

end Internalization

namespace Plan

open Internalization

variable (s : ModuleSet) (table : SymbolTable) (p : Policy)

theorem mergeSymbols_quiet : Quiet (mergeSymbols p table) :=
  .of_tells (mergeSymbols_tells table p) fun _ => Notice.IsVerbose.level_ne

theorem placeType_quiet (decisions : Decisions) (winner : Option Origin) (d : Declaration) :
    QuietFrom (placeType decisions winner d) :=
  fun names => .of_tells (placeType_tells decisions winner d names) fun _ => Notice.IsVerbose.level_ne

/-- The conflict that stops the placing of a symbol's types is an error of the placing. -/
theorem placeSymbol_reports (decisions : Decisions) (merged : Merged) (symbol : Symbol) :
    ReportsFrom (placeSymbol decisions merged symbol) := by
  unfold placeSymbol
  dsimp only
  split
  case h_1 => exact fun _ _ => ⟨[.error _], rfl, rfl⟩
  case h_2 =>
    exact ReportsFrom.stepwise.mapM (fun d => .lift (placeType_quiet decisions _ d)) _

theorem placeTypes_reports (merged : Merged) : ReportsFrom (placeTypes s table p merged) := by
  have h := ReportsFrom.stepwise (σ := FreshNames)
  refine h.bind (.lift (decideAll_quiet table p merged _)) fun decisions => ?_
  refine h.bind (.lift (.lift (.verbose _))) fun _ => ?_
  exact h.bind (h.mapM (placeSymbol_reports decisions merged) _) fun _ => h.pure _

theorem mergeLinkerResource_quiet (first : Resource) (origins : List Origin) :
    Quiet (mergeLinkerResource s first origins) := by
  have h := Quiet.stepwise
  unfold mergeLinkerResource
  split
  case h_1 => exact h.bind (.verbose _) fun _ => h.pure _
  case h_2 => exact h.bind (.warn _) fun _ => h.pure _

theorem planResource_quiet (moduleName : String) (origin : Origin) (r : Resource) :
    QuietFrom (planResource s table p moduleName origin r) := by
  have h := QuietFrom.stepwise (σ := List String)
  unfold planResource
  dsimp only
  split
  case isTrue => exact h.pure _
  case isFalse =>
  split
  case isTrue =>
    split
    case isTrue => exact h.bind (.lift (mergeLinkerResource_quiet s _ _)) fun _ => h.pure _
    case isFalse => exact h.pure _
  case isFalse =>
  split
  case isTrue => exact h.pure _
  case isFalse =>
  split
  case isTrue =>
    have hname : QuietFrom (freshResourceName moduleName r.name) :=
      h.bind .get fun _ => h.bind (.set _) fun _ => h.pure _
    exact h.bind hname fun _ => h.bind (.lift (.verbose _)) fun _ => h.pure _
  case isFalse => exact h.bind (.lift (.duplicate _ _)) fun _ => h.pure _

theorem planResources_quiet : Quiet (planResources s table p) := by
  refine Quiet.stepwise.bind ?_ fun _ => Quiet.stepwise.pure _
  exact QuietFrom.stepwise.mapM (fun place => planResource_quiet s table p _ _ _) _ _

theorem planAttributes_quiet : Quiet (planAttributes s table p) :=
  .of_tells (planAttributes_tells s table p) fun _ => Notice.OfAttributes.level_ne

theorem build_reports : (build s table p).Reports := by
  have h := Merging.Reports.stepwise
  refine h.bind (.lift (mergeSymbols_quiet table p)) fun merged => ?_
  refine .bringBack (placeTypes_reports s table p merged _) (fun placed _ => ?_) fun _ _ => rfl
  refine h.bind (.ofExcept (.ok placed)) fun placed => ?_
  refine h.bind (.lift (planResources_quiet s table p)) fun _ => ?_
  exact h.bind (.lift (planAttributes_quiet s table p)) fun _ => h.pure _

end Plan

/-! ## Relocations -/

namespace Shape

variable (l : Linkage)

theorem redirect_quiet (dropped kept : SourceToken) : QuietFrom (redirect dropped kept) := .modifyGet _

theorem takeParts_quiet (source : Nat) (t : TypeDef) (s : Shape) :
    QuietFrom (takeParts l source t s) := by
  have h := QuietFrom.stepwise (σ := List Redirect)
  refine h.bind (h.foldlM (fun s member => ?_) _ s) fun s => h.foldlM (fun s a => .lift ?_) _ _
  · obtain ⟨key, token⟩ := member
    unfold takeMember
    dsimp only
    split
    case h_1 => exact h.bind (redirect_quiet _ _) fun _ => h.pure _
    case h_2 => exact h.pure _
  · have h := Quiet.stepwise
    unfold takeAttribute
    dsimp only
    split
    case isTrue => exact h.bind (.verbose _) fun _ => h.pure _
    case isFalse =>
      refine h.bind (NamedAttribute.offer_quiet l.set l.policy _ _ _) fun kept => ?_
      split
      case isTrue => exact h.pure _
      case isFalse => exact h.pure _

mutual

theorem absorb_quiet (source : Nat) (s : Shape) (t : TypeDef) : QuietFrom (absorb l source s t) := by
  obtain ⟨token, namespaceName, name, flags, base, interfaces, genericParams, fields, methods,
    properties, events, nested, attributes⟩ := t
  have h := QuietFrom.stepwise (σ := List Redirect)
  unfold absorb
  exact h.bind (takeParts_quiet l source _ s) fun s =>
    h.bind (absorbNested_quiet source s.nested nested) fun _ => h.pure _

theorem absorbNested_quiet (source : Nat) (shapes : List Shape) (ts : List TypeDef) :
    QuietFrom (absorbNested l source shapes ts) := by
  have h := QuietFrom.stepwise (σ := List Redirect)
  cases ts with
  | nil => unfold absorbNested; exact h.pure _
  | cons t rest =>
    unfold absorbNested
    split
    case h_1 =>
      exact h.bind (redirect_quiet _ _) fun _ => h.bind (absorb_quiet source _ t) fun _ =>
        absorbNested_quiet source _ rest
    case h_2 => exact h.bind (absorb_quiet source _ t) fun _ => absorbNested_quiet source _ rest

end

theorem buildAll_reports (plan : Plan) : ReportsFrom (buildAll l plan) := by
  have h := ReportsFrom.stepwise (σ := List Redirect)
  refine h.bind (h.foldlM (fun shapes d => ?_) _ _) fun _ => h.pure _
  unfold placeDeclaration
  dsimp only
  split
  case h_1 => exact .throw nofun
  case h_2 => exact h.bind (.lift (absorb_quiet l _ _ _)) fun _ => h.pure _
  case h_3 =>
    split
    case h_1 => exact .throw nofun
    case h_2 =>
      exact h.bind (.lift (redirect_quiet _ _)) fun _ =>
        h.bind (.lift (absorb_quiet l _ _ _)) fun _ => h.pure _

end Shape

namespace Relocation

theorem layOut_reports (l : Linkage) (plan : Plan) : (layOut l plan).Reports := by
  have h := Merging.Reports.stepwise
  refine .bringBack (Shape.buildAll_reports l plan []) (fun shapes redirects => ?_) fun _ _ => rfl
  refine h.bind (.ofExcept (.ok shapes)) fun shapes => ?_
  exact h.bind (.ofExcept (Shape.substitution_fails shapes redirects)) fun _ => h.pure _

theorem run_reports (set : ModuleSet) (plan : Plan) (policy : Policy) :
    (run set plan policy).Reports := by
  have h := Merging.Reports.stepwise
  refine h.bind (layOut_reports _ plan) fun laid => ?_
  refine h.bind (.ofExcept ((importAll_stops _ plan).failsOnly _)) fun attributes => ?_
  refine h.bind (.ofExcept (Shape.writeAll_fails _ _ _)) fun types => ?_
  refine h.bind (.ofExcept (FailsOnly.stepwise.optionMapM (Substitution.resolve_fails _ 0) _))
    fun entryPoint => ?_
  exact h.bind (.lift (.verbose _)) fun _ => h.pure _

end Relocation

/-! ## Emission -/

theorem Signer.load_reports (fs : FileSystem) (p : Policy) : (load fs p).Reports := by
  have h := Merging.Reports.stepwise
  refine h.bind (.lift (.files fs)) fun now => h.bind (.ofExcept (find_fails now p)) fun found => ?_
  split
  case h_1 =>
    split
    case isTrue => exact h.bind (.throw nofun) fun _ => h.pure _
    case isFalse => exact h.pure _
  case h_2 =>
    split
    case isTrue => exact h.bind (.lift (.warn _)) fun _ => h.pure _
    case isFalse => exact h.pure _

namespace Emission

variable (fs : FileSystem) (set : ModuleSet) (p : Policy) (plan : Plan) (m : Module)

theorem encode_reports (signer : Option Signer) : (encode p signer m).Reports := by
  have h := Merging.Reports.stepwise
  refine h.bind (.ofExcept (Image.ofModule_fails _)) fun image => ?_
  refine h.bind (.ofExcept (writeMvid_fails _ image)) fun written => ?_
  split
  case h_1 =>
    split
    case isTrue => exact h.bind (.lift (.info _)) fun _ => h.pure _
    case isFalse => exact .ofExcept (writeSignature_fails _ _ _ _)
  case h_2 => exact h.pure _

theorem documentation_reports (output : Path) : (documentation fs set plan m output).Reports := by
  have h := Merging.Reports.stepwise
  refine h.bind (.lift (.files fs)) fun now => ?_
  refine h.bind (.ofExcept (FailsOnly.stepwise.mapM (fun entry => ?_) _)) fun found => ?_
  · exact documentationOf_fails now plan _ _
  dsimp only
  split
  case isTrue => exact h.bind (.lift (.verbose _)) fun _ => h.pure _
  case isFalse =>
    exact h.bind (.ofExcept (Xml.mergeDocumentation_fails _ _)) fun _ =>
      h.bind (.lift (.verbose _)) fun _ => h.pure _

theorem files_reports : (files fs set p plan m).Reports := by
  have h := Merging.Reports.stepwise
  refine h.bind (Signer.load_reports fs p) fun signer => ?_
  refine h.bind (.ofExcept (finish_fails set p signer m)) fun m => ?_
  refine h.bind (encode_reports p m signer) fun w => ?_
  have hdocs (symbols : Option (Path × Bytes)) (output : Path) : Merging.Reports (do
      let docs ←
        if p.options.mergeDocumentation then documentation fs set plan w.module output else pure none
      return (⟨w.module, w.image, output, symbols, docs⟩ : Files)) := by
    split
    case isTrue => exact h.bind (documentation_reports fs set plan _ output) fun _ => h.pure _
    case isFalse => exact h.pure _
  dsimp only
  split
  case isTrue => exact h.bind (.ofExcept (Sidecar.ofModule_fails _)) fun _ => hdocs _ _
  case isFalse => exact hdocs _ _

theorem announce_quiet (f : Files) : Quiet (announce f) := by
  have h := Quiet.stepwise
  refine h.bind (.verbose _) fun _ => ?_
  split
  case h_1 => exact .verbose _
  case h_2 => exact h.pure _

end Emission

theorem Merge.link_reports (set : ModuleSet) (p : Policy) : (link set p).Reports := by
  have h := Merging.Reports.stepwise
  refine h.bind (.lift (.verbose _)) fun _ => ?_
  refine h.bind (Plan.build_reports set _ p) fun plan => ?_
  refine h.bind (Relocation.run_reports set plan p) fun m => ?_
  exact h.bind (.ofExcept m.checkClosed_fails) fun _ => h.pure _

/-! ## A whole merge -/

namespace Merge

variable (o : Options) (elapsed : Nat) (fs : FileSystem)

theorem Running.ofMerging_reports {α : Type} {x : Merging α} (hx : x.Reports) :
    ReportsFrom (Running.ofMerging x) := fun _ log => hx log

theorem Running.write_reports (files : List (Path × Bytes)) : ReportsFrom (Running.write files) := by
  have h := ReportsFrom.stepwise (σ := FileSystem)
  refine h.bind (.lift .get) fun fs => ?_
  refine h.bind (.lift (.set _)) fun _ => ?_
  have hfails := FileSystem.writeAll_fails files fs
  split
  case h_1 => exact h.pure _
  case h_2 fault hfault => exact .throw (hfails fault hfault)

theorem run_reports : ReportsFrom (run o elapsed) := by
  have h := ReportsFrom.stepwise (σ := FileSystem)
  refine h.bind (Running.ofMerging_reports o.validate_reports) fun p => ?_
  refine h.bind (.lift (.lift (.info _))) fun _ => ?_
  refine h.bind (.lift .get) fun fs => ?_
  refine h.bind (Running.ofMerging_reports (Loading.resolve_reports fs p)) fun set => ?_
  refine h.bind (Running.ofMerging_reports (link_reports set p)) fun linked => ?_
  refine h.bind (Running.ofMerging_reports (Emission.files_reports fs set p _ _)) fun files => ?_
  refine h.bind (Running.write_reports _) fun _ => ?_
  refine h.bind (.lift (.lift (Emission.announce_quiet files))) fun _ => ?_
  exact h.bind (.lift (.lift (.info _))) fun _ => h.pure _

/-- The errors of a merge are those of what stopped it: a conflict counts twice, any other fault once. The
last notice is the fault's. -/
theorem logged_errors :
    match (logged o elapsed fs).answer with
    | .ok _ => (logged o elapsed fs).log.texts .error = []
    | .error fault =>
      (logged o elapsed fs).log.getLast? = some (.error fault.message) ∧
        (logged o elapsed fs).log.texts .error =
          if fault.area = .conflict then [fault.message, fault.message] else [fault.message] := by
  obtain ⟨added, hadded, herrors⟩ := run_reports o elapsed fs []
  unfold logged
  rcases hrun : ((run o elapsed).run.run fs).run [] with ⟨⟨fault | outcome, files⟩, log⟩
  all_goals
    rw [hrun] at hadded herrors
    obtain rfl : log = added := hadded
  case ok => exact herrors
  case error =>
    refine ⟨List.getLast?_concat, ?_⟩
    have htexts : Log.texts [.error fault.message] .error = [fault.message] := rfl
    dsimp only at herrors ⊢
    rw [Log.texts_append, herrors, htexts, Fault.noticed]
    split
    case isTrue => rfl
    case isFalse => rfl

/-! ### Two public types of one name -/

open Relocation

/-- The image of a module, or nothing if it has none. -/
def imageBytes (m : Module) : Bytes := ((Image.ofModule m).map Image.bytes).toOption.getD []

/-- Two files with modules that declare a public class of the same name. -/
def rivals : FileSystem :=
  { entries := [(["A.dll"], .file (imageBytes (bareModule "A" [bareType ⟨0x1⟩]).module)),
      (["B.dll"], .file (imageBytes (bareModule "B" [bareType ⟨0x1⟩]).module))], current := [] }

/-- Options that ask for the two files and for nothing else. -/
def rivalOptions : Options :=
  { unionPolicy.options with unionMerge := false, inputs := [⟨"/A.dll"⟩, ⟨"/B.dll"⟩] }

/-- Both times with the words of the fault. -/
theorem logged_repeats_conflict :
    let result := logged rivalOptions 0 rivals
    result.answer.map (fun _ => ()) = .error (.conflict "N.T" "A" "B") ∧
      result.log.texts .error = ["Duplicate public type 'N.T' in 'A' and 'N.T' in 'B'",
        "Duplicate public type 'N.T' in 'A' and 'N.T' in 'B'"] := by
  decide +kernel

end Merge

end ModuleLinker
