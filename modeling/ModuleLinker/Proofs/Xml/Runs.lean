import ModuleLinker.Proofs.Text.Cutting
import ModuleLinker.Xml.Reader

namespace ModuleLinker.Xml

/-! # Runs of text

A document is a sequence of runs of text with markup between them. White space is trimmed off both ends
of a run before its references are read. Here runs are also read whole; then only the runs that are all
white space are left out. The two readings of a run are the same texts but for the white space at its
ends, and fail for the same runs.
-/

/-! ## References -/

section

variable {front back : List Char} {cs : List Char}

theorem ne_of_isSpace {c : Char} (h : Markup.isSpace c) : c ≠ '&' ∧ c ≠ ';' := by
  constructor <;>
  · rintro rfl
    exact nomatch h

/-- White space before a text that is not inside of a reference stays before what is read. -/
theorem unescapeFrom_append_left (hfront : ∀ c ∈ front, Markup.isSpace c) :
    unescapeFrom none (front ++ cs) = (unescapeFrom none cs).map (front ++ ·) := by
  induction front with
  | nil => exact Option.map_id'.symm
  | cons c front ih =>
    obtain ⟨hc, hfront⟩ := List.forall_mem_cons.1 hfront
    rw [List.cons_append, unescapeFrom, if_neg (ne_of_isSpace hc).1, ih hfront, Option.map_map]
    rfl

/-- White space does not complete a reference. -/
theorem unescapeFrom_some_of_isSpace {pending : List Char} (hback : ∀ c ∈ back, Markup.isSpace c) :
    unescapeFrom (some pending) back = none := by
  induction back generalizing pending with
  | nil => rw [unescapeFrom]
  | cons c back ih =>
    obtain ⟨hc, hback⟩ := List.forall_mem_cons.1 hback
    rw [unescapeFrom, if_neg (ne_of_isSpace hc).1, if_neg (ne_of_isSpace hc).2, ih hback]

theorem unescapeFrom_append_right (hback : ∀ c ∈ back, Markup.isSpace c) (pending : Option (List Char)) :
    unescapeFrom pending (cs ++ back) = (unescapeFrom pending cs).map (· ++ back) := by
  induction cs generalizing pending with
  | nil =>
    cases pending with
    | none =>
      have hall : unescapeFrom none (back ++ []) = (unescapeFrom none []).map (back ++ ·) :=
        unescapeFrom_append_left hback
      rwa [List.append_nil, unescapeFrom, Option.map_some, List.append_nil] at hall
    | some pending => rw [List.nil_append, unescapeFrom_some_of_isSpace hback, unescapeFrom, Option.map_none]
  | cons c cs ih =>
    cases pending with
    | none =>
      rw [List.cons_append, unescapeFrom, unescapeFrom]
      split
      · exact ih _
      · rw [ih, Option.map_map, Option.map_map]
        rfl
    | some pending =>
      rw [List.cons_append, unescapeFrom, unescapeFrom]
      split
      · rfl
      split
      · rw [ih]
        cases charOfReference? pending.reverse with
        | none => rfl
        | some r => cases unescapeFrom none cs <;> rfl
      · exact ih _

/-- White space around a text stays around what is read. -/
theorem unescape?_append (hfront : ∀ c ∈ front, Markup.isSpace c) (hback : ∀ c ∈ back, Markup.isSpace c) :
    unescape? (front ++ cs ++ back) = (unescape? cs).map fun value => front ++ value ++ back := by
  rw [unescape?, unescape?, unescapeFrom_append_right hback, unescapeFrom_append_left hfront,
    Option.map_map]
  rfl

theorem unescapeFrom_some_ne_nil (pending : List Char) : unescapeFrom (some pending) cs ≠ some [] := by
  induction cs generalizing pending with
  | nil => exact nofun
  | cons c cs ih =>
    rw [unescapeFrom]
    split
    · exact nofun
    split
    · cases charOfReference? pending.reverse with
      | none => exact nofun
      | some r => cases unescapeFrom none cs <;> exact nofun
    · exact ih _

/-- Something is read from every text. -/
theorem unescape?_ne_nil (hcs : cs ≠ []) : unescape? cs ≠ some [] := by
  cases cs with
  | nil => exact absurd rfl hcs
  | cons c cs =>
    rw [unescape?, unescapeFrom]
    split
    · exact unescapeFrom_some_ne_nil []
    · cases unescapeFrom none cs <;> exact nofun

end

/-! ## White space at the ends of a run -/

/-- Whether a run is all white space or has none at its ends. -/
def Tight (run : List Char) : Prop :=
  (∀ c ∈ run, Markup.isSpace c) ∨
    (∀ c ∈ run.head?, ¬Markup.isSpace c) ∧ ∀ c ∈ run.getLast?, ¬Markup.isSpace c

/-- How many characters of white space are at the ends of a run that is not all white space. -/
def endSpaces (run : List Char) : Nat :=
  if run.all Markup.isSpace then 0 else run.length - (Text.trimBy Markup.isSpace run).length

theorem endSpaces_eq_zero_iff {run : List Char} : endSpaces run = 0 ↔ Tight run := by
  rw [endSpaces, Tight, ← Text.trimBy_eq_self_iff, ← List.all_eq_true]
  by_cases hall : run.all Markup.isSpace
  · rw [if_pos hall]
    exact iff_of_true rfl (.inl hall)
  · rw [if_neg hall, or_iff_right hall]
    obtain ⟨front, back, -, -, hrun⟩ := Text.exists_trimBy Markup.isSpace run
    have hlength := congrArg List.length hrun
    rw [List.length_append, List.length_append] at hlength
    constructor
    · intro hzero
      have hfront : front = [] := List.eq_nil_of_length_eq_zero (by omega)
      have hback : back = [] := List.eq_nil_of_length_eq_zero (by omega)
      rw [hfront, hback, List.nil_append, List.append_nil] at hrun
      exact hrun.symm
    · intro hsame
      rw [hsame, Nat.sub_self]

/-! ## Two readings of a run -/

/-- The text of a run with all its white space, unless the run is nothing else. -/
def Markup.ofWholeRun (run : List Char) : List Markup :=
  if run.all isSpace then []
  else
    match unescape? run with
    | some value => [text (String.ofList value)]
    | none => [broken]

/-- What a run is read as when it is read whole and when it is trimmed, and how many characters the second
reading loses. -/
inductive Readings : Nat → List Markup → List Markup → Prop where
  | blank : Readings 0 [] []
  | broken (lost : Nat) : Readings lost [.broken] [.broken]
  | text {front value back : List Char} (hfront : ∀ c ∈ front, Markup.isSpace c)
    (hback : ∀ c ∈ back, Markup.isSpace c) (hvalue : value ≠ []) :
    Readings (front.length + back.length) [.text (String.ofList (front ++ value ++ back))]
      [.text (String.ofList value)]

theorem readings_run (run : List Char) :
    Readings (endSpaces run) (Markup.ofWholeRun run) (Markup.ofRun run) := by
  rw [Markup.ofWholeRun, Markup.ofRun, endSpaces]
  by_cases hall : run.all Markup.isSpace
  · rw [if_pos hall, if_pos hall, Text.trimBy_eq_nil_iff.2 (List.all_eq_true.1 hall)]
    exact .blank
  · have htrim : Text.trimBy Markup.isSpace run ≠ [] := by
      rwa [ne_eq, Text.trimBy_eq_nil_iff, ← List.all_eq_true]
    obtain ⟨front, back, hfront, hback, hrun⟩ := Text.exists_trimBy Markup.isSpace run
    generalize Text.trimBy Markup.isSpace run = trimmed at htrim hrun
    have hlost : run.length - trimmed.length = front.length + back.length := by
      rw [hrun, List.length_append, List.length_append]
      omega
    obtain ⟨c, rest, rfl⟩ := List.exists_cons_of_ne_nil htrim
    rw [if_neg hall, if_neg hall, hlost, hrun, unescape?_append hfront hback]
    cases hvalue : unescape? (c :: rest) with
    | none =>
      simp only [hvalue, Option.map_none]
      exact .broken _
    | some value =>
      simp only [hvalue, Option.map_some]
      refine .text hfront hback ?_
      rintro rfl
      exact unescape?_ne_nil htrim hvalue

/-! ## Documents in parts -/

/-- A run of text, or the markup after it. -/
inductive Part where
  | run (cs : List Char)
  | markup (m : Markup)

namespace Part

/-- At most `n` runs, each with the markup after it. -/
def cutWithin : (n : Nat) → List Char → List Part
  | 0, _ => []
  | n + 1, cs =>
    let (front, rest) := cs.span (· != '<')
    match rest with
    | [] => [run front]
    | _ :: rest =>
      let (m, rest) := Markup.ofMarkup rest
      run front :: markup m :: cutWithin n rest

/-- The parts of a document. -/
def cut (cs : List Char) : List Part := cutWithin (cs.length + 1) cs

/-- The pieces that a part is read as, given how runs are read. -/
def pieces (read : List Char → List Markup) : Part → List Markup
  | run cs => read cs
  | markup m => [m]

end Part

theorem scanWithin_eq (n : Nat) (cs : List Char) :
    Markup.scanWithin n cs = (Part.cutWithin n cs).flatMap (Part.pieces Markup.ofRun) := by
  induction n generalizing cs with
  | zero => rfl
  | succ n ih =>
    rw [Markup.scanWithin, Part.cutWithin]
    rcases cs.span (· != '<') with ⟨front, rest⟩
    cases rest with
    | nil => exact (List.append_nil _).symm
    | cons c rest =>
      dsimp only
      rw [ih]
      rfl

/-- The pieces of a document are those of its parts, with runs trimmed. -/
theorem scan_eq (cs : List Char) : Markup.scan cs = (Part.cut cs).flatMap (Part.pieces Markup.ofRun) :=
  scanWithin_eq _ cs

end ModuleLinker.Xml
