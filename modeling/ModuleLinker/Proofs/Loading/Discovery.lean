import Mathlib.Algebra.Order.BigOperators.Group.List
import Mathlib.Data.String.Basic
import ModuleLinker.Proofs.FileSystem.Locations
import ModuleLinker.Proofs.Image.WriteBack
import ModuleLinker.Proofs.Loading.BreadthFirst

namespace ModuleLinker

/-! # Discovering references

Which modules are discovered, in which order, and what is told of the others. The log file may be one of the
files that are read, and it grows meanwhile; since what it has is never a module, what is found does not depend
on it.
-/

/-! ## Log files are no modules -/

/-- Where nothing is read unless the data begin with some bytes, they begin with them. -/
theorem Reader.take_eq_of_bytes_bind {n : Nat} {magic : Bytes} {f : Bytes → Reader α} {c c' : Cursor} {v : α}
    (hrefused : ∀ found ≠ magic, (f found).Takes fun _ _ => False)
    (h : (bytes n >>= f).runAt c = (.ok v, c')) : c.rest.take n = magic := by
  obtain ⟨found, c₁, hbytes, hrest⟩ := runAt_bind_eq_ok h
  by_contra hne
  rw [bytes_runAt_eq] at hbytes
  split at hbytes
  · cases hbytes
    obtain ⟨_, -, hfalse⟩ := hrefused _ hne _ _ _ hrest
    exact hfalse
  · exact nomatch hbytes

/-- The first byte of images and of sidecars. -/
def magicLead : UInt8 := 0x44

theorem head?_of_take_eq {data rest : Bytes} {n : Nat} (h : data.take n = magicLead :: rest) :
    data.head? = some magicLead := by
  cases data with
  | nil => exact nomatch List.take_nil.symm.trans h
  | cons b bs =>
    cases n with
    | zero => exact nomatch h
    | succ n => exact congrArg some (List.cons.inj h).1

theorem Module.head?_of_ofImage {data : Bytes} {m : Module} (h : ofImage data = .ok m) :
    data.head? = some magicLead := by
  obtain ⟨c, hrun⟩ := Reader.runAt_of_run h
  obtain ⟨_, c₁, hheader, -⟩ := Reader.runAt_bind_eq_ok hrun
  unfold Image.decodeHeader at hheader
  have htake : data.take 4 = Image.magic := Reader.take_eq_of_bytes_bind ?_ hheader
  · exact head?_of_take_eq htake
  intro found hne
  rw [if_pos (bne_iff_ne.2 hne)]
  exact .refused .refuse

theorem Sidecar.head?_of_attach {data : Bytes} {m : Module} (h : (attach m data).2 = none) :
    data.head? = some magicLead := by
  unfold attach at h
  split at h
  · exact nomatch h
  case h_2 entries hread =>
    obtain ⟨c, hrun⟩ := Reader.runAt_of_run hread
    unfold decode at hrun
    have htake : data.take 4 = magic := Reader.take_eq_of_bytes_bind ?_ hrun
    · exact head?_of_take_eq htake
    intro found hne
    rw [if_pos (bne_iff_ne.2 hne)]
    exact .refused .refuse

theorem Utf8.encode_append (s t : String) : encode (s ++ t) = encode s ++ encode t := by
  simp [encode, String.toByteArray_append]

/-- A line of a log file begins with the word of its level. -/
theorem Log.head?_encode_lineText (verbose : Bool) (log : Log) :
    (Utf8.encode (log.lineText verbose)).head? ≠ some magicLead := by
  unfold lineText joinLines
  cases hlines : log.filter (hasLine verbose) with
  | nil => decide
  | cons n rest =>
    have hline : hasLine verbose n := (List.mem_filter.1 (hlines ▸ List.mem_cons_self)).2
    have hword : ∃ b bs, Utf8.encode n.level.word = b :: bs ∧ b ≠ magicLead := by
      cases n with
      | error => exact ⟨_, _, rfl, by decide⟩
      | warning => exact ⟨_, _, rfl, by decide⟩
      | info => exact ⟨_, _, rfl, by decide⟩
      | verbose => exact ⟨_, _, rfl, by decide⟩
      | duplicate => exact nomatch hline
    obtain ⟨b, bs, hword, hb⟩ := hword
    rw [List.map_cons, List.map_cons, String.join_cons, Notice.line]
    simp only [toString, Utf8.encode_append, hword, List.cons_append, List.head?_cons]
    exact fun h => hb (Option.some.inj h)

/-- What has reached a log file does not begin as an image does. -/
theorem Journal.head?_visible (verbose : Bool) (log : Log) : (visible verbose log).head? ≠ some magicLead := by
  unfold visible
  dsimp only
  rw [List.head?_take]
  split
  · nofun
  · exact Log.head?_encode_lineText verbose log

/-! ## Reading while a log is written -/

namespace FileSystem

/-- The same is found in two file systems, but for files that begin in neither as an image does. -/
structure ApartFromLogs (fs fs' : FileSystem) : Prop where
  current : fs'.current = fs.current
  found : ∀ l, fs'.lookup? l = fs.lookup? l ∨
    ∃ data data', fs.lookup? l = some (.file data) ∧ fs'.lookup? l = some (.file data') ∧
      data.head? ≠ some magicLead ∧ data'.head? ≠ some magicLead

namespace ApartFromLogs

variable {fs fs' : FileSystem}

theorem refl (fs : FileSystem) : ApartFromLogs fs fs := ⟨rfl, fun _ => .inl rfl⟩

theorem symm (h : ApartFromLogs fs fs') : ApartFromLogs fs' fs where
  current := h.current.symm
  found := by
    intro l
    rcases h.found l with hsame | ⟨data, data', hdata, hdata', hhead, hhead'⟩
    · exact .inl hsame.symm
    · exact .inr ⟨data', data, hdata', hdata, hhead', hhead⟩

theorem directory_iff (h : ApartFromLogs fs fs') (l : Location) :
    fs'.lookup? l = some .directory ↔ fs.lookup? l = some .directory := by
  rcases h.found l with hsame | ⟨data, data', hdata, hdata', -, -⟩
  · rw [hsame]
  · rw [hdata, hdata']
    exact ⟨nofun, nofun⟩

theorem locate_eq_ok_iff (h : ApartFromLogs fs fs') {p : Path} {l : Location} :
    fs'.locate p = .ok l ↔ fs.locate p = .ok l :=
  ⟨locate_of_directories h.current.symm fun l => (h.directory_iff l).1,
    locate_of_directories h.current fun l => (h.directory_iff l).2⟩

/-- An image or a sidecar that is loaded is loaded from either. -/
theorem load_of_head? (h : ApartFromLogs fs fs') {p : Path} {data : Bytes} (hload : fs.load p = .ok data)
    (hhead : data.head? = some magicLead) : fs'.load p = .ok data := by
  obtain ⟨hne, l, hlocate, hfound⟩ := load_eq_ok_iff.1 hload
  refine load_eq_ok_iff.2 ⟨hne, l, h.locate_eq_ok_iff.2 hlocate, ?_⟩
  rcases h.found l with hsame | ⟨_, _, hdata, -, hnot, -⟩
  · rw [hsame, hfound]
  · obtain rfl := FileEntry.file.inj (Option.some.inj (hfound.symm.trans hdata))
    exact absurd hhead hnot

theorem isFile_eq (h : ApartFromLogs fs fs') (p : Path) : fs'.isFile p = fs.isFile p := by
  rw [Bool.eq_iff_iff, isFile_iff, isFile_iff]
  refine exists_congr fun l => ?_
  rw [exists_and_left, exists_and_left, h.locate_eq_ok_iff]
  refine and_congr_right fun _ => ?_
  rcases h.found l with hsame | ⟨data, data', hdata, hdata', -, -⟩
  · rw [hsame]
  · simp [hdata, hdata']

theorem readModule_of_ok (h : ApartFromLogs fs fs') {p : Path} {m : Module}
    (hread : Loading.readModule fs p = .ok m) : Loading.readModule fs' p = .ok m := by
  obtain ⟨data, hload, himage⟩ := bind_eq_ok.1 hread
  obtain ⟨image, himage, hsymbols⟩ := bind_eq_ok.1 himage
  refine bind_eq_ok.2 ⟨data, h.load_of_head? hload (Module.head?_of_ofImage himage), ?_⟩
  refine bind_eq_ok.2 ⟨image, himage, ?_⟩
  dsimp only at hsymbols ⊢
  rw [h.isFile_eq]
  split at hsymbols
  case isTrue hnone =>
    rw [if_pos hnone]
    exact hsymbols
  case isFalse hsome =>
    rw [if_neg hsome]
    obtain ⟨symbols, hload, hattach⟩ := bind_eq_ok.1 hsymbols
    split at hattach
    case h_1 m' heq =>
      refine bind_eq_ok.2 ⟨symbols, h.load_of_head? hload (Sidecar.head?_of_attach (by rw [heq])), ?_⟩
      rw [heq]
      exact hattach
    case h_2 => exact nomatch hattach

end ApartFromLogs

/-- However far the log was written, the same is found apart from its file. -/
theorem apartFromLogs_after (fs : FileSystem) (log log' : Log) : ApartFromLogs (fs.after log) (fs.after log') := by
  unfold after
  split
  case h_2 => exact .refl fs
  case h_1 j _ =>
    refine ⟨rfl, ?_⟩
    intro l
    by_cases hnil : j.location = []
    · rw [hnil, lookup?_put_nil, lookup?_put_nil]
      exact .inl rfl
    · rw [lookup?_put hnil, lookup?_put hnil]
      by_cases hl : l = j.location
      · rw [if_pos hl, if_pos hl]
        exact .inr ⟨_, _, rfl, rfl, Journal.head?_visible _ _, Journal.head?_visible _ _⟩
      · rw [if_neg hl, if_neg hl]
        exact .inl rfl

/-- What is found with an empty log file and is no empty file itself was there before. -/
theorem mem_entries_of_lookup?_after {fs : FileSystem} {l : Location} {data : Bytes}
    (h : (fs.after []).lookup? l = some (.file data)) (hne : data ≠ []) : (l, .file data) ∈ fs.entries := by
  have hfound : fs.lookup? l = some (.file data) := by
    unfold after at h
    split at h
    case h_2 => exact h
    case h_1 j _ =>
      by_cases hnil : j.location = []
      · rwa [hnil, lookup?_put_nil] at h
      · rw [lookup?_put hnil] at h
        split at h
        · obtain rfl := FileEntry.file.inj (Option.some.inj h)
          exact absurd rfl hne
        · exact h
  unfold lookup? at hfound
  split at hfound
  · exact nomatch hfound
  · obtain ⟨before, after, hentries, -⟩ := List.lookup_eq_some_iff.1 hfound
    rw [hentries]
    exact List.mem_append_right _ List.mem_cons_self

end FileSystem

/-! ## How many references there are -/

theorem Encoding.Within.left {a b : Encoding} {n : Nat} (h : (a ++ b).Within n) : a.Within n := by
  have hfault := fault_append.1 h.fault_eq
  have hlength := h.length_le
  rw [length_append hfault.1] at hlength
  exact ⟨hfault.1, by omega⟩

theorem Encoding.Within.right {a b : Encoding} {n : Nat} (h : (a ++ b).Within n) : b.Within n := by
  have hfault := fault_append.1 h.fault_eq
  have hlength := h.length_le
  rw [length_append hfault.1] at hlength
  exact ⟨hfault.2, by omega⟩

/-- Each reference of a module takes a byte of its image. -/
theorem Module.length_references_le {data : Bytes} {m : Module} (h : ofImage data = .ok m) :
    m.references.length ≤ data.length := by
  obtain ⟨n, hlength, -, hwithin, -⟩ := Image.decode_eq_ok h
  have htables := hwithin.left.right
  unfold Image.encodeTables at htables
  have hreferences := htables.left.left.left.left.left.left.left.right
  calc m.references.length
    _ ≤ (Encoding.each Image.encodeIdentity m.references).bytes.length :=
      Encoding.length_le_each (fun i _ => Image.identity_ne_nil i) hreferences.fault_eq
    _ ≤ n := hreferences.length_le
    _ ≤ data.length := by omega

theorem Sidecar.references_attach (m : Module) (data : Bytes) : (attach m data).1.references = m.references := by
  unfold attach
  split <;> rfl

namespace Loading

theorem references_of_readModule {fs : FileSystem} {path : Path} {m : Module} (h : readModule fs path = .ok m) :
    ∃ data image, fs.load path = .ok data ∧ Module.ofImage data = .ok image ∧ m.references = image.references := by
  obtain ⟨data, hload, h⟩ := bind_eq_ok.1 h
  obtain ⟨image, himage, h⟩ := bind_eq_ok.1 h
  refine ⟨data, image, hload, himage, ?_⟩
  dsimp only at h
  split at h
  case isTrue =>
    cases h
    rfl
  case isFalse =>
    obtain ⟨symbols, -, h⟩ := bind_eq_ok.1 h
    split at h
    case h_1 m' heq =>
      cases h
      have hattached := Sidecar.references_attach image symbols
      rwa [heq] at hattached
    case h_2 => exact nomatch h

/-- The number of bytes of an entry's file. -/
def sizeOf : Location × FileEntry → Nat
  | (_, .file data) => data.length
  | (_, .directory) => 0

/-- The names that the image in an entry's file refers to. -/
def namesIn : Location × FileEntry → List String
  | (_, .file data) =>
    match Module.ofImage data with
    | .ok m => m.references.map Identity.name
    | .error _ => []
  | (_, .directory) => []

theorem length_namesIn_le (e : Location × FileEntry) : (namesIn e).length ≤ sizeOf e := by
  unfold namesIn sizeOf
  split
  case h_1 data =>
    split
    case h_1 m himage =>
      rw [List.length_map]
      exact Module.length_references_le himage
    case h_2 => exact Nat.zero_le _
  case h_2 => exact Nat.zero_le _

theorem referenceBound_eq (fs : FileSystem) (first : Nat) :
    referenceBound fs first =
      first + (first + (fs.entries.map sizeOf).sum) * (fs.entries.map sizeOf).sum + 1 := by
  have hfold (f : Nat → Location × FileEntry → Nat) (hf : ∀ n e, f n e = n + sizeOf e)
      (entries : List (Location × FileEntry)) (n : Nat) :
      entries.foldl f n = n + (entries.map sizeOf).sum := by
    induction entries generalizing n with
    | nil => rfl
    | cons e rest ih => rw [List.foldl_cons, ih, hf, List.map_cons, List.sum_cons, Nat.add_assoc]
  unfold referenceBound
  dsimp only
  rw [hfold _ (by rintro n ⟨l, data | _⟩ <;> rfl), Nat.zero_add]

/-! ## Discovery -/

/-- What the search for a name is made of, once its path is known: the module at the path, whatever the log
says. -/
def moduleAt? (fs : FileSystem) (path : Path) : Option Module := (readModule (fs.after []) path).toOption

theorem steady_readModule (fs : FileSystem) :
    Steady (fun path => return readModule (← Logging.files fs) path) (moduleAt? fs) := by
  intro path log
  refine ⟨readModule (fs.after log) path, rfl, ?_⟩
  have hsame (m : Module) : readModule (fs.after log) path = .ok m ↔ readModule (fs.after []) path = .ok m :=
    ⟨(fs.apartFromLogs_after log []).readModule_of_ok, (fs.apartFromLogs_after [] log).readModule_of_ok⟩
  unfold moduleAt?
  cases hlater : readModule (fs.after log) path with
  | ok m => rw [(hsame m).1 hlater]
  | error fault =>
    cases hfirst : readModule (fs.after []) path with
    | ok m => exact nomatch hlater.symm.trans ((hsame m).2 hfirst)
    | error => rfl

/-- The references of a module that is found are those of an image in a file. -/
theorem exists_mem_entries_of_moduleAt? {fs : FileSystem} {path : Path} {m : Module}
    (h : moduleAt? fs path = some m) : ∃ e ∈ fs.entries, m.references.map Identity.name = namesIn e := by
  unfold moduleAt? at h
  cases hread : readModule (fs.after []) path with
  | error fault =>
    rw [hread] at h
    exact nomatch h
  | ok m' =>
    rw [hread] at h
    obtain rfl : m' = m := Option.some.inj h
    obtain ⟨data, image, hload, himage, hreferences⟩ := references_of_readModule hread
    obtain ⟨hne, l, -, hfound⟩ := FileSystem.load_eq_ok_iff.1 hload
    refine ⟨_, FileSystem.mem_entries_of_lookup?_after hfound hne, ?_⟩
    rw [hreferences, namesIn, himage]

/-- The names in a queue and in the images of all files. -/
def namesWithin (fs : FileSystem) (queue : List Identity) : List String :=
  queue.map Identity.name ++ fs.entries.flatMap namesIn

theorem length_namesWithin_le (fs : FileSystem) (queue : List Identity) :
    (namesWithin fs queue).length ≤ queue.length + (fs.entries.map sizeOf).sum := by
  rw [namesWithin, List.length_append, List.length_map, List.length_flatMap]
  exact Nat.add_le_add_left (List.sum_le_sum fun e _ => length_namesIn_le e) _

/-- Neither the references of a module that is found nor their names are more than there is room for. -/
theorem behind_bounded (fs : FileSystem) (find? : String → Option Path) (queue : List Identity) (name : String) :
    (behind find? (moduleAt? fs) name).length ≤ (fs.entries.map sizeOf).sum ∧
      ∀ r ∈ behind find? (moduleAt? fs) name, r.name ∈ namesWithin fs queue := by
  unfold behind
  split
  case h_1 => exact ⟨Nat.zero_le _, nofun⟩
  case h_2 l hl =>
    have hmodule : ∃ path, moduleAt? fs path = some l.module := by
      unfold provided? at hl
      split at hl
      case h_1 => exact nomatch hl
      case h_2 path _ =>
        obtain ⟨m, hm, rfl⟩ := Option.map_eq_some_iff.1 hl
        exact ⟨path, hm⟩
    obtain ⟨path, hmodule⟩ := hmodule
    obtain ⟨e, he, hnames⟩ := exists_mem_entries_of_moduleAt? hmodule
    constructor
    · calc l.module.references.length
        _ = (namesIn e).length := by rw [← hnames, List.length_map]
        _ ≤ sizeOf e := length_namesIn_le e
        _ ≤ (fs.entries.map sizeOf).sum := List.single_le_sum (fun _ _ => Nat.zero_le _) _ (List.mem_map_of_mem he)
    · intro r hr
      refine List.mem_append_right _ (List.mem_flatMap.2 ⟨e, he, ?_⟩)
      rw [← hnames]
      exact List.mem_map_of_mem hr

/-- One warning after another. -/
theorem run_forIn_warn (text : String → String) (xs : List String) (log : Log) :
    (forIn xs PUnit.unit fun x _ => do
      Logging.warn (text x)
      pure (ForInStep.yield PUnit.unit) : Logging PUnit).run log =
      (⟨⟩, log ++ xs.map fun x => .warning (text x)) := by
  induction xs generalizing log with
  | nil =>
    rw [List.map_nil, List.append_nil]
    rfl
  | cons x xs ih =>
    rw [List.forIn_cons, List.map_cons, List.append_cons, ← ih]
    rfl

theorem pairwise_lt_mergeSort {xs : List String} (hnodup : xs.Nodup) :
    (xs.mergeSort fun a b => decide (a ≤ b)).Pairwise (· < ·) := by
  have hsorted : (xs.mergeSort fun a b => decide (a ≤ b)).Pairwise fun a b => decide (a ≤ b) = true := by
    apply List.pairwise_mergeSort
    · intro a b c hab hbc
      simp only [decide_eq_true_eq] at hab hbc ⊢
      exact hab.trans hbc
    · intro a b
      simpa using le_total a b
  have hdistinct := (List.mergeSort_perm xs fun a b => decide (a ≤ b)).nodup_iff.2 hnodup
  refine (hsorted.and hdistinct).imp ?_
  rintro a b ⟨hle, hne⟩
  exact lt_of_le_of_ne (of_decide_eq_true hle) hne

/-- The module that the search directories have for a name, if it can be loaded. -/
def loadable? (fs : FileSystem) (p : Policy) : String → Option LoadedModule :=
  provided? (dependency? fs p) (moduleAt? fs)

/-- The references of the module that the search directories have for a name. -/
def referencesOf (fs : FileSystem) (p : Policy) : String → List Identity :=
  behind (dependency? fs p) (moduleAt? fs)

/-- A name is reached from inputs through `k` modules that are loaded for the names between them. -/
def ReachedFrom (fs : FileSystem) (p : Policy) (inputs : List Module) : Nat → String → Prop :=
  Reached (referencesOf fs p) (inputs.map Module.name) (inputs.flatMap Module.references)

/-- The notices that a reference may leave: that its module was loaded, or why that failed. -/
def Noted (fs : FileSystem) (p : Policy) : Identity → Notice → Prop :=
  Told (dependency? fs p) (fun path => return readModule (← Logging.files fs) path) (moduleAt? fs)

/-- A reference whose module cannot be loaded is warned about. -/
theorem Noted.exists_failed {fs : FileSystem} {p : Policy} {r : Identity} {n : Notice} {path : Path}
    (h : Noted fs p r n) (hfind : dependency? fs p r.name = some path) (hload : loadable? fs p r.name = none) :
    ∃ fault : Fault, n = .warning s!"Failed to load reference '{r.name}' from '{path.text}': {fault.message}" := by
  cases h with
  | resolved hfind' hmodule =>
    rw [loadable?, provided?, hfind'] at hload
    dsimp only at hload
    rw [hmodule] at hload
    exact absurd hload (Option.some_ne_none _)
  | @failed path' fault _ hfind' _ _ =>
    obtain rfl : path' = path := Option.some.inj (hfind'.symm.trans hfind)
    exact ⟨fault, rfl⟩

theorem lt_referenceBound (fs : FileSystem) (queue : List Identity) (tried : List String) :
    queue.length + ((namesWithin fs queue).filter fun name => name ∉ tried).length *
      (fs.entries.map sizeOf).sum < referenceBound fs queue.length := by
  have hfew : ((namesWithin fs queue).filter fun name => name ∉ tried).length ≤
      queue.length + (fs.entries.map sizeOf).sum :=
    (List.length_filter_le _ _).trans (length_namesWithin_le fs queue)
  rw [referenceBound_eq]
  exact Nat.lt_succ_of_le (Nat.add_le_add_left (Nat.mul_le_mul_right _ hfew) _)

/-- The names of an order for which there is no file, as they are warned about. -/
def missingOf (fs : FileSystem) (p : Policy) (order : List Identity) : List String :=
  ((order.map Identity.name).filter fun name => (dependency? fs p name).isNone).mergeSort
    fun a b => decide (a ≤ b)

theorem mem_missingOf {fs : FileSystem} {p : Policy} {order : List Identity} {name : String} :
    name ∈ missingOf fs p order ↔ name ∈ order.map Identity.name ∧ dependency? fs p name = none := by
  rw [missingOf, List.mem_mergeSort, List.mem_filter, Option.isNone_iff_eq_none]

/-- The bound is never met, so that the queue is followed to its end. -/
theorem exists_run_discover (fs : FileSystem) (p : Policy) (inputs : List Module) (log : Log) :
    ∃ order notices,
      BreadthFirst (referencesOf fs p) (inputs.map Module.name) (inputs.flatMap Module.references) order ∧
      List.Forall₂ (Noted fs p) (order.filter fun r => (dependency? fs p r.name).isSome) notices ∧
      (discover fs p inputs).run log = (order.filterMap fun r => loadable? fs p r.name,
        log ++ notices ++ (missingOf fs p order).map fun name =>
          .warning s!"Unable to resolve reference '{name}'") := by
  obtain ⟨order, notices, hbfs, htold, hrun⟩ := exists_follow_run (steady_readModule fs)
    (behind_bounded fs (dependency? fs p) (inputs.flatMap Module.references))
    (d := ⟨inputs.map Module.name, [], []⟩)
    (fun r hr => List.mem_append_left _ (List.mem_map_of_mem hr)) (lt_referenceBound fs _ _) log
  refine ⟨order, notices, hbfs, htold, ?_⟩
  unfold discover
  dsimp only
  rw [StateT.run_bind, hrun]
  change (StateT.run (do
    forIn (missingOf fs p order) PUnit.unit fun name _ => do
      Logging.warn s!"Unable to resolve reference '{name}'"
      pure (ForInStep.yield PUnit.unit)
    return order.filterMap fun r => loadable? fs p r.name : Logging (List LoadedModule)) (log ++ notices)) = _
  rw [StateT.run_bind, run_forIn_warn]
  rfl

/-- The references that are discovered are those of the inputs and of the modules that are found, breadth first,
and each name once unless an input has it. The modules that are found come in that order; a reference with a file
leaves one notice, and the names without a file are warned about in the end, in ascending order. -/
theorem discover_outcome (fs : FileSystem) (p : Policy) (inputs : List Module) (log : Log) :
    ∃ (order : List Identity) (notices : List Notice) (missing : List String),
      (discover fs p inputs).run log = (order.filterMap fun r => loadable? fs p r.name,
        log ++ notices ++ missing.map fun name => .warning s!"Unable to resolve reference '{name}'") ∧
      (order.map Identity.name).Nodup ∧
      (∀ name, name ∈ order.map Identity.name ↔
        name ∉ inputs.map Module.name ∧ ∃ k, ReachedFrom fs p inputs k name) ∧
      order = firsts Identity.name (inputs.map Module.name)
        (inputs.flatMap Module.references ++ order.flatMap fun r => referencesOf fs p r.name) ∧
      (order.Pairwise fun r s => ∀ k, ReachedFrom fs p inputs k s.name →
        ∃ j ≤ k, ReachedFrom fs p inputs j r.name) ∧
      List.Forall₂ (Noted fs p) (order.filter fun r => (dependency? fs p r.name).isSome) notices ∧
      missing.Pairwise (· < ·) ∧
      (∀ name, name ∈ missing ↔ name ∈ order.map Identity.name ∧ dependency? fs p name = none) ∧
      ∀ k name, ReachedFrom fs p inputs k name →
        name ∈ inputs.map Module.name ∨
        (∃ l ∈ ((discover fs p inputs).run log).1, loadable? fs p name = some l) ∨
        (∃ path, ∃ fault : Fault, dependency? fs p name = some path ∧
          .warning s!"Failed to load reference '{name}' from '{path.text}': {fault.message}" ∈ notices) ∨
        name ∈ missing := by
  obtain ⟨order, notices, hbfs, hnoted, hrun⟩ := exists_run_discover fs p inputs log
  refine ⟨order, notices, missingOf fs p order, hrun, hbfs.nodup, hbfs.mem_iff, hbfs.order_eq, hbfs.pairwise,
    hnoted, pairwise_lt_mergeSort (hbfs.nodup.filter _), fun _ => mem_missingOf, ?_⟩
  intro k name hreached
  by_cases hinput : name ∈ inputs.map Module.name
  · exact .inl hinput
  have hname := (hbfs.mem_iff name).2 ⟨hinput, k, hreached⟩
  obtain ⟨r, hr, rfl⟩ := List.mem_map.1 hname
  cases hfind : dependency? fs p r.name with
  | none => exact .inr (.inr (.inr (mem_missingOf.2 ⟨hname, hfind⟩)))
  | some path =>
    cases hload : loadable? fs p r.name with
    | some l =>
      right
      left
      rw [hrun]
      exact ⟨l, List.mem_filterMap.2 ⟨r, hr, hload⟩, rfl⟩
    | none =>
      -- the notice that `r` left can only be the one that its module was not loaded
      have hmem : r ∈ order.filter fun r => (dependency? fs p r.name).isSome :=
        List.mem_filter.2 ⟨hr, by rw [hfind]; rfl⟩
      obtain ⟨n, hn, hnote⟩ := exists_mem_of_forall₂ hnoted hmem
      obtain ⟨fault, rfl⟩ := hnote.exists_failed hfind hload
      exact .inr (.inr (.inl ⟨path, fault, rfl, hn⟩))

end Loading

end ModuleLinker
