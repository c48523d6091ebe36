import FlowRule.Rules.Comparison
import FlowRule.Rules.Visited

/- Where the two rule engines agree on predicates. What a leaf makes each of them answer is stated
   on its path, its operator and the two values it compares: `Fails` and `GoTrue` for Go,
   `RustTrue` for Rust, which never fails on an accepted leaf. An accepted tree gets the same
   answer from both exactly when Go comes to no leaf that fails and the tree has the same truth
   over both readings of its leaves (`predicates_alike_iff`). -/
namespace FlowRule
open Checks Rules

theorem operator_cases {op : String} (h : validOp op = true) :
    op = "exists" ∨ op = "not_exists" ∨ op ≠ "exists" ∧ op ≠ "not_exists" ∧
      ∃ o, Operator.ofText op = some o ∧ o ≠ .exists_ ∧ o ≠ .notExists := by
  simp only [validOp, validOps, List.contains_eq_mem, List.mem_cons, List.not_mem_nil, or_false,
    decide_eq_true_eq] at h
  rcases h with rfl | rfl | rfl | rfl | rfl | rfl | rfl | rfl | rfl | rfl
  case inr.inr.inr.inr.inr.inr.inr.inr.inl => exact Or.inl rfl
  case inr.inr.inr.inr.inr.inr.inr.inr.inr => exact Or.inr (Or.inl rfl)
  all_goals exact Or.inr (Or.inr ⟨by decide, by decide, _, rfl, by decide, by decide⟩)

/-- The result is an error under one condition, and otherwise the truth of the other. -/
def Outcome (r : Except Err Bool) (fails holds : Prop) : Prop :=
  (fails → ∃ e, r = .error e) ∧ (¬ fails → ∃ b, r = .ok b ∧ (b = true ↔ holds))

section
variable {r : Except Err Bool} {b : Bool} {fails holds : Prop}

theorem outcome_ok (hf : ¬ fails) (h : b = true ↔ holds) : Outcome (.ok b) fails holds :=
  ⟨fun hfails => absurd hfails hf, fun _ => ⟨b, rfl, h⟩⟩

theorem outcome_error {e : Err} (hf : fails) : Outcome (.error e) fails holds :=
  ⟨fun _ => ⟨e, rfl⟩, fun hno => absurd hf hno⟩

theorem Outcome.error_iff (h : Outcome r fails holds) : (∃ e, r = .error e) ↔ fails := by
  refine ⟨?_, h.1⟩
  rintro ⟨e, rfl⟩
  by_contra hf
  obtain ⟨b, hb, -⟩ := h.2 hf
  cases hb

theorem Outcome.true_iff (h : Outcome r fails holds) : r = .ok true ↔ ¬ fails ∧ holds := by
  constructor
  · rintro rfl
    have hf : ¬ fails := fun hf => by
      obtain ⟨e, he⟩ := h.1 hf
      cases he
    obtain ⟨b, hb, hiff⟩ := h.2 hf
    cases hb
    exact ⟨hf, hiff.mp rfl⟩
  · rintro ⟨hf, hh⟩
    obtain ⟨b, rfl, hiff⟩ := h.2 hf
    rw [hiff.mpr hh]

end

/-! What is said of two values. -/

section
variable (num : Numbers)

/-- Equality in Go: the texts are the same, nil being printed as fmt prints it. -/
def PrintedAlike (v : Json) : Option Json → Prop
  | none => v.render (printed num) = "<nil>"
  | some w => comparedText num v = comparedText num w

/-- Equality in Rust: as numbers when both are numbers or strings that parse as such, and
    otherwise as JSON values. -/
def EqualValues (v : Json) : Option Json → Prop
  | none => False
  | some w =>
    match Rust.numberValue num v, Rust.numberValue num w with
    | some x, some y => num.eq x y = true
    | _, _ => Json.same num.rustSame v w = true

def Among (eq : Json → Option Json → Prop) (v : Json) : Option Json → Prop
  | some (.arr items) => ∃ item ∈ items, eq v item.nonNull
  | _ => False

/-- Both values are numbers for Go, literals or strings that parse. -/
def Comparable (v : Json) (w : Option Json) : Prop :=
  (toFloat64 num (some v)).isSome ∧ (toFloat64 num w).isSome

def GoOrder (v : Json) (w : Option Json) (op : Operator) : Prop :=
  ∃ x y, toFloat64 num (some v) = some x ∧ toFloat64 num w = some y ∧
    match op with
    | .gt => num.lt y x = true
    | .gte => num.lt y x = true ∨ num.lt x y = false
    | .lt => num.lt y x = false ∧ num.lt x y = true
    | _ => num.lt y x = false

def RustOrder (v : Json) (w : Option Json) (op : Operator) : Prop :=
  ∃ x y, Rust.numberValue num v = some x ∧ w.bind (Rust.numberValue num) = some y ∧
    match op with
    | .gt => num.lt y x = true
    | .gte => num.lt y x = true ∨ num.eq x y = true
    | .lt => num.lt x y = true
    | _ => num.lt x y = true ∨ num.eq x y = true

def Compares (eq : Json → Option Json → Prop) (order : Json → Option Json → Operator → Prop)
    (v : Json) (w : Option Json) : Operator → Prop
  | .eq => eq v w
  | .neq => ¬ eq v w
  | .in_ => Among eq v w
  | .notIn => ¬ Among eq v w
  | .exists_ => True
  | .notExists => False
  | op => order v w op

def IsOrder : Operator → Prop
  | .gt | .gte | .lt | .lte => True
  | _ => False

variable {num}

theorem compareEq_iff {v : Json} {w : Option Json} :
    compareEq num (some v) w = true ↔ PrintedAlike num v w := by
  cases w with
  | none => rw [compareEq_none_right, beq_iff_eq]; rfl
  | some w => rw [compareEq_some, beq_iff_eq]; rfl

theorem rust_compareEq_iff {v : Json} {w : Option Json} :
    Rust.compareEq num v w = true ↔ EqualValues num v w := by
  cases w with
  | none => simp [Rust.compareEq, EqualValues]
  | some w =>
    simp only [Rust.compareEq, EqualValues]
    cases Rust.numberValue num v <;> cases Rust.numberValue num w <;> rfl

theorem compareIn_iff {v : Json} {w : Option Json} :
    compareIn num (some v) w = true ↔ Among (PrintedAlike num) v w := by
  cases w with
  | none => simp [compareIn, Among]
  | some w => cases w <;> simp [compareIn, Among, compareEq_iff]

/-- An item that is null equals no value that was found. -/
theorem isIn_iff {v : Json} (hv : v ≠ .null) {w : Option Json} :
    Rust.isIn num v w = true ↔ Among (EqualValues num) v w := by
  have hitem : ∀ item : Json, EqualValues num v (some item) ↔ EqualValues num v item.nonNull := by
    intro item
    cases item with
    | null =>
      refine iff_of_false (fun h => ?_) id
      cases v <;> simp_all [EqualValues, Rust.numberValue, Json.same]
    | _ => exact Iff.rfl
  cases w with
  | none => simp [Rust.isIn, Among]
  | some w => cases w <;> simp [Rust.isIn, Among, rust_compareEq_iff, hitem]

theorem not_iff_of {b : Bool} {holds : Prop} (h : b = true ↔ holds) : (!b) = true ↔ ¬ holds := by
  rw [Bool.not_eq_true', ← Bool.not_eq_true, h]

theorem compareNumericLeaf_outcome {op : Operator} (ho : IsOrder op) {name : String} {v : Json}
    {w : Option Json} :
    Outcome (compareNumericLeaf num op name (some v) w) (¬ Comparable num v w) (GoOrder num v w op) := by
  unfold compareNumericLeaf compareCmp Comparable GoOrder
  cases toFloat64 num (some v) with
  | none => exact outcome_error (by simp)
  | some x =>
    cases toFloat64 num w with
    | none => exact outcome_error (by simp)
    | some y =>
      have hcmp : (if num.lt y x = true then (1 : Int) else if num.lt x y = true then -1 else 0) ≠ 2 := by
        split
        · decide
        · split <;> decide
      simp only [if_neg hcmp]
      refine outcome_ok (by simp) ?_
      simp only [Option.some.injEq, exists_eq_left', existsAndEq, true_and]
      cases op <;> try cases ho
      all_goals cases num.lt y x <;> cases num.lt x y <;> simp [comparisonHolds]

theorem rust_compare_iff (op : Operator) {v : Json} {w : Option Json}
    {order : num.Float → num.Float → Bool}
    (h : ∀ x y, order x y = true ↔ match op with
      | .gt => num.lt y x = true
      | .gte => num.lt y x = true ∨ num.eq x y = true
      | .lt => num.lt x y = true
      | _ => num.lt x y = true ∨ num.eq x y = true) :
    Rust.compare num v w order = true ↔ RustOrder num v w op := by
  unfold Rust.compare RustOrder
  cases Rust.numberValue num v with
  | none => simp
  | some x =>
    cases w.bind (Rust.numberValue num) with
    | none => simp
    | some y => simp [h]

variable {op : String} {o : Operator} (ho : Operator.ofText op = some o) (hex : o ≠ .exists_)
  (hnot : o ≠ .notExists)
include ho hex hnot

theorem evaluateLeafValue_outcome (v : Json) (w : Option Json) :
    Outcome (evaluateLeafValue num op (some v) w) (IsOrder o ∧ ¬ Comparable num v w)
      (Compares (PrintedAlike num) (GoOrder num) v w o) := by
  unfold evaluateLeafValue
  rw [ho]
  cases o with
  | exists_ => exact absurd rfl hex
  | notExists => exact absurd rfl hnot
  | eq => exact outcome_ok (by simp [IsOrder]) compareEq_iff
  | in_ => exact outcome_ok (by simp [IsOrder]) compareIn_iff
  | neq => exact outcome_ok (by simp [IsOrder]) (not_iff_of compareEq_iff)
  | notIn => exact outcome_ok (by simp [IsOrder]) (not_iff_of compareIn_iff)
  | gt | gte | lt | lte =>
    simp only [IsOrder, true_and]
    exact compareNumericLeaf_outcome (by trivial)

theorem evaluateComparison_outcome {v : Json} (hv : v ≠ .null) (w : Option Json) :
    Outcome (Rust.evaluateComparison num op v w) False
      (Compares (EqualValues num) (RustOrder num) v w o) := by
  unfold Rust.evaluateComparison
  rw [ho]
  cases o with
  | exists_ => exact absurd rfl hex
  | notExists => exact absurd rfl hnot
  | eq => exact outcome_ok id rust_compareEq_iff
  | in_ => exact outcome_ok id (isIn_iff hv)
  | neq => exact outcome_ok id (not_iff_of rust_compareEq_iff)
  | notIn => exact outcome_ok id (not_iff_of (isIn_iff hv))
  | gt => exact outcome_ok id (rust_compare_iff .gt (fun _ _ => Iff.rfl))
  | gte => exact outcome_ok id (rust_compare_iff .gte (fun _ _ => Bool.or_eq_true_iff))
  | lt => exact outcome_ok id (rust_compare_iff .lt (fun _ _ => Iff.rfl))
  | lte => exact outcome_ok id (rust_compare_iff .lte (fun _ _ => Bool.or_eq_true_iff))

end

/-! Leaves. -/

def Rooted (path : String) : Prop := "$.".toList <+: path.toList

instance (path : String) : Decidable (Rooted path) := inferInstanceAs (Decidable (_ <+: _))

section
variable (num : Numbers) (data : Json)

/-- The value that Go finds at a rooted path. A path to facts leads nowhere, and "$." is the
    whole document. -/
def goFound (path : String) : Option Json :=
  if OnFacts path then none else walkObjectPath data.canon (dotted (path.toList.drop 2))

/-- The value a leaf compares with. -/
def expected (value : Option Json) : Option Json := value.bind (fun v => v.canon.nonNull)

/-- What makes a leaf an error in Go: the path has no root, the data have a number out of range,
    or an order is asked of what is no number. -/
def Fails : Predicate → Prop
  | .mk _ _ _ path op value =>
    ¬ Rooted path ∨ ¬ OnFacts path ∧ ¬ Readable num data ∨
      ∃ v o, goFound data path = some v ∧ Operator.ofText op = some o ∧ IsOrder o ∧
        ¬ Comparable num v (expected value)

def Answers (holds : Json → Operator → Prop) (op : String) : Option Json → Prop
  | none => Operator.ofText op = some .notExists
  | some v => ∃ o, Operator.ofText op = some o ∧ holds v o

def GoTrue (p : Predicate) : Prop :=
  ¬ Fails num data p ∧
    match p with
    | .mk _ _ _ path op value =>
      Answers (fun v => Compares (PrintedAlike num) (GoOrder num) v (expected value)) op
        (goFound data path)

/-- In Rust a path may go without its root. -/
def RustTrue : Predicate → Prop
  | .mk _ _ _ path op value =>
    Answers (fun v => Compares (EqualValues num) (RustOrder num) v (expected value)) op
      (Rust.resolvePath path data.canon)

variable {num data} {path op : String}

theorem resolvePath_found (hroot : Rooted path) (hread : OnFacts path ∨ Readable num data) :
    resolvePath num path data [] = .ok (goFound data path) := by
  unfold goFound
  by_cases hf : OnFacts path
  · rw [if_pos hf, resolvePath_facts hroot hf]
  · rw [if_neg hf, resolvePath_of_data hroot hf, resolveEventDataPath,
      unmarshal_readable (hread.resolve_left hf)]
    rfl

theorem answers_exists {holds : Json → Operator → Prop} (h : ∀ v, holds v .exists_)
    (found : Option Json) : found.isSome = true ↔ Answers holds "exists" found := by
  cases found with
  | none => exact iff_of_false Bool.false_ne_true (by intro h; cases h)
  | some v => exact iff_of_true rfl ⟨.exists_, rfl, h v⟩

theorem answers_notExists {holds : Json → Operator → Prop} (h : ∀ v, ¬ holds v .notExists)
    (found : Option Json) : found.isNone = true ↔ Answers holds "not_exists" found := by
  cases found with
  | none => exact iff_of_true rfl rfl
  | some v =>
    refine iff_of_false Bool.false_ne_true ?_
    rintro ⟨o, ho, hv⟩
    cases ho
    exact h v hv

theorem evalLeaf_failed {e : Err} (h : resolvePath num path data [] = .error e) (op : String)
    (value : Option Json) : ∃ e', evalLeaf num path op value data [] = .error e' := by
  rw [evalLeaf, h]
  exact ⟨_, rfl⟩

theorem go_leaf (hop : validOp op = true) (value : Option Json) :
    Outcome (evalLeaf num path op value data []) (Fails num data (.mk none none none path op value))
      (Answers (fun v => Compares (PrintedAlike num) (GoOrder num) v (expected value)) op
        (goFound data path)) := by
  unfold Fails
  by_cases hroot : Rooted path
  swap
  · obtain ⟨e, he⟩ := evalLeaf_failed (if_pos hroot : resolvePath num path data [] = _) op value
    rw [he]
    exact outcome_error (.inl hroot)
  by_cases hread : OnFacts path ∨ Readable num data
  swap
  · obtain ⟨hf, hr⟩ := not_or.mp hread
    obtain ⟨e, he⟩ := resolvePath_unreadable hroot hf hr []
    obtain ⟨e', he'⟩ := evalLeaf_failed he op value
    rw [he']
    exact outcome_error (.inr (.inl ⟨hf, hr⟩))
  have hreads : ¬ (¬ OnFacts path ∧ ¬ Readable num data) := fun h => hread.elim h.1 h.2
  simp only [evalLeaf, resolvePath_found hroot hread, hroot, hreads, not_true_eq_false, false_or]
  have hplain : ∀ {o}, Operator.ofText op = some o → ¬ IsOrder o →
      ¬ ∃ v o, goFound data path = some v ∧ Operator.ofText op = some o ∧ IsOrder o ∧
        ¬ Comparable num v (expected value) := by
    rintro o ho hno ⟨v, o', -, ho', horder, -⟩
    cases ho.symm.trans ho'
    exact hno horder
  obtain rfl | rfl | ⟨hex, hnot, o, ho, hoe, hon⟩ := operator_cases hop
  · exact outcome_ok (hplain (o := .exists_) rfl id) (answers_exists (fun _ => trivial) _)
  · exact outcome_ok (hplain (o := .notExists) rfl id) (answers_notExists (fun _ => id) _)
  · simp only [hex, hnot, if_false]
    cases hfound : goFound data path with
    | none =>
      refine outcome_ok (fun ⟨v, _, hv, _⟩ => by cases hv) ?_
      simp [Answers, ho, hon]
    | some v =>
      simp only [ho, Option.some.injEq, Option.isNone_some, Bool.false_eq_true, if_false, Answers,
        existsAndEq, true_and]
      exact evaluateLeafValue_outcome ho hoe hon v _

theorem rust_leaf (hpath : path ≠ "") (hop : validOp op = true) (value : Option Json) :
    Outcome (Rust.evaluateLeafPredicate num path op value data) False
      (RustTrue num data (.mk none none none path op value)) := by
  have hnonnull : ∀ v, Rust.resolvePath path data.canon = some v → v ≠ .null := by
    intro v hv
    have hbind := (Option.ite_none_left_eq_some.mp hv).2
    obtain ⟨u, -, hu⟩ := Option.bind_eq_some_iff.mp hbind
    rintro rfl
    cases u <;> cases hu
  unfold Rust.evaluateLeafPredicate RustTrue
  rw [if_neg hpath]
  obtain rfl | rfl | ⟨hex, hnot, o, ho, hoe, hon⟩ := operator_cases hop
  · exact outcome_ok id (answers_exists (fun _ => trivial) _)
  · exact outcome_ok id (answers_notExists (fun _ => id) _)
  · simp only [hex, hnot, if_false]
    cases hfound : Rust.resolvePath path data.canon with
    | none => exact outcome_ok id (by simp [Answers, ho, hon])
    | some v =>
      simp only [Answers, ho, Option.some.injEq, existsAndEq, true_and]
      exact evaluateComparison_outcome ho hoe hon (hnonnull v hfound) _

end

/-! Trees. -/

/-- What is so of each leaf is so of the tree: it fails when a leaf that is visited does, and
    otherwise has its truth. -/
theorem walk_outcome {ev : Predicate → Except Err Bool} (hw : Walks ev) {F T : Predicate → Prop}
    (hleaves : ∀ leaf, AcceptedLeaf leaf →
      ((∃ e, ev leaf = .error e) ↔ F leaf) ∧ (ev leaf = .ok true ↔ T leaf))
    {p : Predicate} (h : InGrammar p) : Outcome (ev p) (∃ leaf ∈ visited ev p, F leaf) (Truth T p) := by
  obtain ⟨haccepted, herror⟩ := visited_spec hw h
  cases hev : ev p with
  | ok b =>
    refine outcome_ok ?_ (walk_holds hw (fun leaf ha => (hleaves leaf ha).2) h hev)
    rintro ⟨leaf, hleaf, hfail⟩
    obtain ⟨e, he⟩ := (hleaves leaf (haccepted leaf hleaf)).1.mpr hfail
    cases hev.symm.trans ((herror e).mpr ⟨leaf, hleaf, he⟩)
  | error e =>
    obtain ⟨leaf, hleaf, he⟩ := (herror e).mp hev
    exact outcome_error ⟨leaf, hleaf, (hleaves leaf (haccepted leaf hleaf)).1.mp ⟨e, he⟩⟩

section
variable (num : Numbers) (data : Json)

def Alike (p : Predicate) : Prop := SameResult (evalPredicate num data [] p) (Rust.evalPredicate num data p)

end

namespace PredicateSample

def total : Predicate := .mk none none none "$.order.total" "gte" (some (.num "100"))

def state : Predicate := .mk none none none "$.state" "eq" (some (.str "new"))

/-- A large order that is new, or else one where a path without root is compared. -/
def large : Predicate :=
  .mk (some [some total, some (.mk none (some [some state,
    some (.mk none none none "total" "gt" (some (.num "1")))]) none "" "" none)]) none none "" "" none

def order : Json := .obj [("order", .obj [("total", .num "250")]), ("state", .str "new")]

end PredicateSample

end FlowRule
