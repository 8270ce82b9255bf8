import Mathlib.Data.List.Induction
import ModuleLinker.AttributeChoice
import ModuleLinker.Proofs.Logging

namespace ModuleLinker

/-! # Which attributes are kept

Attributes are gone through in their order, and whether one is kept depends on those that are kept
already, and on nothing of them but the names of their types and their arguments. What is kept in the end
would all be kept if it were gone through again. Whatever the order of the steps, what is kept is always
chosen by the same rule: the first of every type, and what stands beside it for a reason.
-/

/-! ## Scans that look back -/

/-- The elements that fit those kept before them, each seen through `view`. -/
def accept (fits : List β → β → Bool) (view : α → β) (xs : List α) : List α :=
  xs.foldl (fun kept x => if fits (kept.map view) (view x) then kept ++ [x] else kept) []

/-- Every element fits those before it. -/
def AllFit (fits : List β → β → Bool) (view : α → β) (xs : List α) : Prop :=
  ∀ before x after, xs = before ++ x :: after → fits (before.map view) (view x)

section

variable {fits : List β → β → Bool} {view : α → β} {xs : List α}

theorem accept_append_singleton (fits : List β → β → Bool) (view : α → β) (xs : List α) (x : α) :
    accept fits view (xs ++ [x]) =
      if fits ((accept fits view xs).map view) (view x) then accept fits view xs ++ [x]
      else accept fits view xs := by
  rw [accept, List.foldl_append]
  rfl

theorem allFit_append_singleton {x : α} :
    AllFit fits view (xs ++ [x]) ↔ AllFit fits view xs ∧ fits (xs.map view) (view x) := by
  constructor
  · intro h
    refine ⟨?_, h xs x [] rfl⟩
    rintro before y after rfl
    exact h before y (after ++ [x]) (by simp)
  · rintro ⟨hxs, hx⟩ before y after heq
    rcases List.eq_nil_or_concat after with rfl | ⟨after, z, rfl⟩
    · obtain ⟨rfl, hlast⟩ := List.append_inj' heq rfl
      obtain rfl := List.singleton_inj.1 hlast
      exact hx
    · rw [List.concat_eq_append, ← List.cons_append, ← List.append_assoc] at heq
      exact hxs before y after (List.append_inj_left' heq rfl)

/-- What a scan keeps, it would keep again. -/
theorem allFit_accept (fits : List β → β → Bool) (view : α → β) (xs : List α) :
    AllFit fits view (accept fits view xs) := by
  induction xs using List.reverseRecOn with
  | nil =>
    intro before x after heq
    exact absurd heq (by simp [accept])
  | append_singleton xs x ih =>
    rw [accept_append_singleton]
    split
    case isTrue hx => exact allFit_append_singleton.2 ⟨ih, hx⟩
    case isFalse => exact ih

theorem accept_eq_self (h : AllFit fits view xs) : accept fits view xs = xs := by
  induction xs using List.reverseRecOn with
  | nil => rfl
  | append_singleton xs x ih =>
    obtain ⟨hxs, hx⟩ := allFit_append_singleton.1 h
    rw [accept_append_singleton, ih hxs, if_pos hx]

theorem accept_sublist (fits : List β → β → Bool) (view : α → β) (xs : List α) :
    (accept fits view xs).Sublist xs := by
  induction xs using List.reverseRecOn with
  | nil => exact List.Sublist.refl []
  | append_singleton xs x ih =>
    rw [accept_append_singleton]
    split
    · exact ih.append (List.Sublist.refl [x])
    · exact ih.trans (List.sublist_append_left xs [x])

/-- Elements may be replaced by others that are seen in the same way. -/
theorem accept_map {view' : γ → β} {f : α → γ} (h : ∀ x ∈ xs, view' (f x) = view x) :
    accept fits view' (xs.map f) = (accept fits view xs).map f := by
  induction xs using List.reverseRecOn with
  | nil => rfl
  | append_singleton xs x ih =>
    obtain ⟨hxs, hx⟩ := List.forall_mem_append.1 h
    have hview : ((accept fits view xs).map f).map view' = (accept fits view xs).map view := by
      rw [List.map_map]
      exact List.map_congr_left fun y hy => hxs y ((accept_sublist fits view xs).subset hy)
    rw [List.map_append, List.map_singleton, accept_append_singleton, accept_append_singleton, ih hxs,
      hview, List.forall_mem_singleton.1 hx]
    split
    · rw [List.map_append, List.map_singleton]
    · rfl

/-- Only how the elements are seen matters. -/
theorem allFit_iff : AllFit fits view xs ↔
    ∀ before x after, xs.map view = before ++ x :: after → fits before x := by
  constructor
  · intro h before x after hsplit
    obtain ⟨before, rest, rfl, rfl, hrest⟩ := List.map_eq_append_iff.1 hsplit
    obtain ⟨x, after, rfl, rfl, rfl⟩ := List.map_eq_cons_iff.1 hrest
    exact h before x after rfl
  · rintro h before x after rfl
    exact h (before.map view) (view x) (after.map view) (by rw [List.map_append, List.map_cons])

/-- What is found first among all elements is kept if it fits whatever stands before it. -/
theorem find?_accept {p : α → Bool} (hp : ∀ (before : List α) (x : α), p x → (∀ y ∈ before, ¬ p y) →
      fits (before.map view) (view x)) (xs : List α) : (accept fits view xs).find? p = xs.find? p := by
  induction xs using List.reverseRecOn with
  | nil => rfl
  | append_singleton xs x ih =>
    rw [accept_append_singleton, List.find?_append, ← ih]
    split
    case isTrue => rw [List.find?_append]
    case isFalse hfits =>
      rcases hfound : (accept fits view xs).find? p with _ | y
      · -- an element that is found first would have been kept
        have hnone : ¬ p x := fun hx => hfits (hp _ x hx (List.find?_eq_none.1 hfound))
        rw [Option.none_or, List.find?_cons_of_neg hnone, List.find?_nil]
      · rw [Option.some_or]

theorem AllFit.of_map {view' : γ → β} {f : α → γ} (h : AllFit fits view' (xs.map f)) :
    AllFit fits (fun x => view' (f x)) xs := by
  rintro before x after rfl
  rw [← Function.comp_def view' f, ← List.map_map]
  exact h (before.map f) (f x) (after.map f) (by rw [List.map_append, List.map_cons])

theorem AllFit.map {view' : γ → β} {f : α → γ} (h : AllFit fits view xs)
    (hview : ∀ x ∈ xs, view' (f x) = view x) : AllFit fits view' (xs.map f) := by
  have haccept : accept fits view' (xs.map f) = (accept fits view xs).map f := accept_map hview
  rw [accept_eq_self h] at haccept
  rw [← haccept]
  exact allFit_accept fits view' _

end

/-! ## Attributes -/

namespace NamedAttribute

/-- What attributes are compared by: the name of the type and the arguments. -/
def content (a : NamedAttribute) : String × List AttributeValue × List NamedArgument :=
  (a.name, a.value.fixed, a.value.named)

/-- Whether an attribute can stand beside others: none of them is of the same type, or its type permits
several applications and none of them has the same arguments. -/
def standsBeside (repeats : String → Bool) (kept : List (String × List AttributeValue × List NamedArgument))
    (a : String × List AttributeValue × List NamedArgument) : Bool :=
  let others := kept.filter (·.1 == a.1)
  !others.any (·.2 == a.2) && (others.isEmpty || repeats a.1)

/-- Whether a policy or the modules permit several applications of an attribute type. -/
def repeats (s : ModuleSet) (p : Policy) (name : String) : Bool :=
  p.options.allowMultipleAttributes || isRepeatable s name

variable {s : ModuleSet} {p : Policy} {kept : List NamedAttribute}

theorem filter_content (a : NamedAttribute) (kept : List NamedAttribute) :
    (kept.map content).filter (·.1 == a.content.1) = (kept.filter (·.name == a.name)).map content := by
  rw [List.filter_map]
  rfl

theorem any_content (a : NamedAttribute) (kept : List NamedAttribute) :
    (kept.map content).any (·.2 == a.content.2) =
      kept.any fun other => other.value.sameArguments a.value := by
  rw [List.any_map]
  rfl

/-- An attribute is kept if it can stand beside those that are kept. -/
theorem offer_answers (source : AttributeSource) (a : NamedAttribute) :
    (a.offer s p source kept).Answers (· = standsBeside (repeats s p) (kept.map content) a.content) := by
  unfold offer standsBeside
  dsimp only
  rw [filter_content, any_content, List.isEmpty_map]
  split
  case isTrue hsame =>
    refine .bind fun _ => .pure ?_
    rw [hsame]
    rfl
  case isFalse hdiffers =>
    rw [Bool.not_eq_true] at hdiffers
    rw [hdiffers, Bool.not_false, Bool.true_and]
    split
    case isTrue hpermitted =>
      rw [Bool.or_assoc] at hpermitted
      exact .pure hpermitted.symm
    case isFalse hrefused =>
      rw [Bool.not_eq_true, Bool.or_assoc] at hrefused
      exact .bind fun _ => .bind fun _ => .pure hrefused.symm

/-- The first attribute of a type can stand beside any others. -/
theorem standsBeside_of_not_mem {repeats : String → Bool}
    {kept : List (String × List AttributeValue × List NamedArgument)}
    {a : String × List AttributeValue × List NamedArgument} (h : a.1 ∉ kept.map Prod.fst) :
    standsBeside repeats kept a := by
  have hnone : kept.filter (·.1 == a.1) = [] := by
    rw [List.filter_eq_nil_iff]
    intro other hother heq
    exact h (List.mem_map.2 ⟨other, hother, beq_iff_eq.1 heq⟩)
  rw [standsBeside, hnone]
  rfl

theorem standsBeside_iff {repeats : String → Bool}
    {kept : List (String × List AttributeValue × List NamedArgument)}
    {a : String × List AttributeValue × List NamedArgument} : standsBeside repeats kept a ↔
      (∀ b ∈ kept, b.1 = a.1 → b.2 ≠ a.2) ∧ ((∀ b ∈ kept, b.1 ≠ a.1) ∨ repeats a.1) := by
  simp [standsBeside]

/-! ## The attribute types that may be applied several times -/

/-- The modules permit several applications of an attribute type: the first of them that says anything
about it says so, or none says anything and it is one that permits them wherever nothing is known. -/
inductive PermitsSeveral (s : ModuleSet) (name : String) : Prop
  | declared {before after : List Module} {m : Module} (all : s.all = before ++ m :: after)
      (silent : ∀ m' ∈ before, m'.attributeUsage? name = none)
      (permits : m.attributeUsage? name = some true)
  | known (silent : ∀ m ∈ s.all, m.attributeUsage? name = none) (mem : name ∈ repeatable)

theorem isRepeatable_iff {name : String} : isRepeatable s name ↔ PermitsSeveral s name := by
  rw [isRepeatable]
  rcases hfound : s.all.findSome? fun m => m.attributeUsage? name with _ | permits
  · have hsilent : ∀ m ∈ s.all, m.attributeUsage? name = none := List.findSome?_eq_none_iff.1 hfound
    rw [hfound, Option.getD_none, List.contains_iff_mem]
    constructor
    · intro hmem
      exact .known hsilent hmem
    · intro h
      cases h with
      | @declared before after m all _ permits =>
        have hmem : m ∈ s.all := by simp [all]
        exact nomatch (hsilent m hmem).symm.trans permits
      | known _ mem => exact mem
  · obtain ⟨before, m, after, hall, hpermits, hsilent⟩ := List.findSome?_eq_some_iff.1 hfound
    rw [hfound, Option.getD_some]
    constructor
    · rintro rfl
      exact .declared hall hsilent hpermits
    · intro h
      cases h with
      | @declared before' after' m' all' silent' permits' =>
        -- whichever way the modules are split, the first one that speaks is found
        have hfind : s.all.findSome? (fun m => m.attributeUsage? name) = some true :=
          List.findSome?_eq_some_iff.2 ⟨before', m', after', all', permits', silent'⟩
        exact Option.some.inj (hfound.symm.trans hfind)
      | known silent _ =>
        have hmem : m ∈ s.all := by simp [hall]
        exact nomatch (silent m hmem).symm.trans hpermits

/-- Whether an attribute type may be applied several times at one place of the output. -/
def MayRepeat (s : ModuleSet) (p : Policy) (name : String) : Prop :=
  p.options.allowMultipleAttributes = true ∨ PermitsSeveral s name

theorem repeats_iff {name : String} : repeats s p name ↔ MayRepeat s p name := by
  rw [repeats, Bool.or_eq_true, isRepeatable_iff]
  rfl

end NamedAttribute

/-! ## What is kept of all -/

/-- What is kept of the things that were offered, each of which is seen as an attribute: in their order,
no attribute twice, of a type that may not be repeated one at most, and of every type the first that was
offered. What is not kept has a reason for that beside it. -/
structure Chosen (mayRepeat : String → Prop)
    (view : α → String × List AttributeValue × List NamedArgument) (offered kept : List α) : Prop where
  order : kept.Sublist offered
  distinct : (kept.map view).Nodup
  once : ∀ name, ¬mayRepeat name → (kept.filter fun x => (view x).1 == name).length ≤ 1
  first : ∀ name, kept.find? (fun x => (view x).1 == name) = offered.find? fun x => (view x).1 == name
  reason : ∀ x ∈ offered, x ∈ kept ∨
    ∃ y ∈ kept, (view y).1 = (view x).1 ∧ ((view y).2 = (view x).2 ∨ ¬mayRepeat (view x).1)

namespace Chosen

variable {mayRepeat : String → Prop} {view : α → String × List AttributeValue × List NamedArgument}
  {offered kept : List α} {x : α}

/-- At first nothing is offered. -/
theorem nil : Chosen mayRepeat view ([] : List α) [] := by
  refine ⟨List.Sublist.refl [], List.nodup_nil, ?_, fun _ => rfl, nofun⟩
  intro name _
  exact Nat.zero_le 1

/-- One more attribute is kept: none of its type and arguments is there, and none of its type is unless
that may be repeated. -/
theorem keep (h : Chosen mayRepeat view offered kept)
    (hnew : ∀ y ∈ kept, (view y).1 = (view x).1 → (view y).2 ≠ (view x).2)
    (hmay : (∀ y ∈ kept, (view y).1 ≠ (view x).1) ∨ mayRepeat (view x).1) :
    Chosen mayRepeat view (offered ++ [x]) (kept ++ [x]) := by
  constructor
  case order => exact h.order.append (List.Sublist.refl [x])
  case distinct =>
    rw [List.map_append, List.map_singleton]
    refine h.distinct.append (List.nodup_singleton _) ?_
    rw [List.disjoint_singleton]
    intro hmem
    obtain ⟨y, hy, heq⟩ := List.mem_map.1 hmem
    exact hnew y hy (congrArg Prod.fst heq) (congrArg Prod.snd heq)
  case once =>
    intro name hname
    rw [List.filter_append, List.length_append]
    by_cases hx : (view x).1 = name
    · have hnone : ∀ y ∈ kept, (view y).1 ≠ name := by
        subst hx
        exact hmay.resolve_right hname
      have hkept : kept.filter (fun y => (view y).1 == name) = [] := by
        rw [List.filter_eq_nil_iff]
        exact fun y hy heq => hnone y hy (beq_iff_eq.1 heq)
      rw [hkept, List.length_nil, Nat.zero_add]
      exact List.length_filter_le _ [x]
    · have hlast : [x].filter (fun y => (view y).1 == name) = [] := by simp [hx]
      rw [hlast]
      exact h.once name hname
  case first =>
    intro name
    rw [List.find?_append, List.find?_append, h.first]
  case reason =>
    intro y hy
    rcases List.mem_append.1 hy with hold | hlast
    · refine (h.reason y hold).imp (List.mem_append_left [x]) ?_
      rintro ⟨z, hz, hsame⟩
      exact ⟨z, List.mem_append_left [x] hz, hsame⟩
    · exact .inl (List.mem_append_right kept hlast)

/-- One more attribute is left out: one of its type is there, with the same arguments or of a type that
may not be repeated. -/
theorem leave (h : Chosen mayRepeat view offered kept)
    (hold : ∃ y ∈ kept, (view y).1 = (view x).1 ∧ ((view y).2 = (view x).2 ∨ ¬mayRepeat (view x).1)) :
    Chosen mayRepeat view (offered ++ [x]) kept := by
  constructor
  case order => exact h.order.trans (List.sublist_append_left offered [x])
  case distinct => exact h.distinct
  case once => exact h.once
  case first =>
    intro name
    rw [List.find?_append, ← h.first]
    by_cases hx : (view x).1 = name
    · obtain ⟨y, hy, hname, -⟩ := hold
      have hsome : (kept.find? fun x => (view x).1 == name).isSome := by
        rw [List.find?_isSome]
        exact ⟨y, hy, beq_iff_eq.2 (hname.trans hx)⟩
      rw [Option.or_of_isSome hsome]
    · have hlast : [x].find? (fun y => (view y).1 == name) = none := by simp [hx]
      rw [hlast, Option.or_none]
  case reason =>
    intro y hy
    rcases List.mem_append.1 hy with hmem | hlast
    · exact h.reason y hmem
    · obtain rfl := List.mem_singleton.1 hlast
      exact .inr hold

end Chosen

/-- A scan that keeps what can stand beside the attributes kept before chooses among all. -/
theorem chosen_accept {repeats : String → Bool} {mayRepeat : String → Prop}
    (hrepeats : ∀ name, repeats name ↔ mayRepeat name)
    (view : α → String × List AttributeValue × List NamedArgument) (xs : List α) :
    Chosen mayRepeat view xs (accept (NamedAttribute.standsBeside repeats) view xs) := by
  induction xs using List.reverseRecOn with
  | nil => exact .nil
  | append_singleton xs x ih =>
    rw [accept_append_singleton]
    split
    case isTrue hfits =>
      rw [NamedAttribute.standsBeside_iff, List.forall_mem_map, List.forall_mem_map, hrepeats] at hfits
      exact ih.keep hfits.1 hfits.2
    case isFalse hfits =>
      rw [NamedAttribute.standsBeside_iff, List.forall_mem_map, List.forall_mem_map, hrepeats,
        not_and_or] at hfits
      apply ih.leave
      rcases hfits with hsame | hbarred
      · push Not at hsame
        obtain ⟨y, hy, hname, harguments⟩ := hsame
        exact ⟨y, hy, hname, .inl harguments⟩
      · push Not at hbarred
        obtain ⟨⟨y, hy, hname⟩, hnot⟩ := hbarred
        exact ⟨y, hy, hname, .inr hnot⟩

end ModuleLinker
