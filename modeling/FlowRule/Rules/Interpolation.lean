import FlowRule.Lib.Shape
import FlowRule.Rules.Templates

/- What template expansion leaves as it is (interpolateTemplates, walk, lookup and expand of
   internal/rules/evaluator.go).

   `Interpolated` states the purpose on documents: nothing but strings with placeholders changes,
   a string that is one placeholder becomes the value it stands for (`meaning`), and in any other
   string each placeholder gives way to a text. The code decodes every number to a float64 and
   writes it again: the purpose is met exactly where the numbers survive (`interpolated_iff`). -/
namespace FlowRule.Rules

open Json

/-! The purpose. -/

def OfEvent (expr : String) : Prop := expr ≠ "new_id" ∧ expr ≠ "now"

instance (expr : String) : Decidable (OfEvent expr) := inferInstanceAs (Decidable (_ ∧ _))

def templatePath (expr : String) : String := if "$.".toList <+: expr.toList then expr else "$." ++ expr

section
variable (num : Numbers) (c : TemplateContext)

def meaning (expr : String) : Option Json :=
  if expr = "new_id" then some (.str c.childID)
  else if expr = "now" then some (.str c.now)
  else if OnFacts (templatePath expr) then none
  else walkObjectPath c.data.canon (dotted ((templatePath expr).toList.drop 2))

def valueText (v : Json) : String :=
  match v with
  | .str s => s
  | v => marshalText num v

def filled (fill : List Char → String) (ps : List Piece) : String :=
  "".intercalate (ps.map (fun piece => match piece with
    | .text c => String.singleton c
    | .hole run => fill run))

/-- What becomes of a string. A text that is filled in is not looked at again. -/
structure Expanded (s : String) (out : Json) : Prop where
  plain : ¬ ['{', '{'] <:+: s.toList → out = .str s
  single : ∀ run, pieces 0 s.toList = [.hole run] →
    (∀ v, meaning c (captured isBlank run) = some v → same sameNumber v out = true) ∧
    (meaning c (captured isBlank run) = none → out = .str "")
  mixed : ['{', '{'] <:+: s.toList → (∀ run, pieces 0 s.toList ≠ [.hole run]) →
    ∃ fill : List Char → String, out = .str (filled fill (pieces 0 s.toList)) ∧
      ∀ run, fill run = "" ∨ ∃ v, meaning c (captured isBlank run) = some v ∧ fill run = valueText num v

def Interpolated (data out : Json) : Prop :=
  Rewritten (fun literal out => ∃ l, out = .num l ∧ sameNumber literal l = true) (Expanded num c) data.canon out

/-- The numbers of the document, and those of the event values that take the place of a
    string, are the same after they were read as floats and written again. -/
structure Survives (data : Json) : Prop where
  readable : Readable num data
  numbers : ∀ literal ∈ data.canon.literals, sameNumber literal (numberText num literal) = true
  values : ∀ s, Json.str s ∈ data.canon.leaves → ∀ run, pieces 0 s.toList = [.hole run] →
    OfEvent (captured isBlank run) → ∀ v, meaning c (captured isBlank run) = some v → v ≠ .str "" →
      Readable num c.data ∧ ∀ literal ∈ v.literals, sameNumber literal (numberText num literal) = true

end

/-! Strings. -/

section
variable {num : Numbers} {c : TemplateContext}

theorem templatePath_rooted (expr : String) : "$.".toList <+: (templatePath expr).toList := by
  unfold templatePath
  split
  · assumption
  · rw [String.toList_append]
    exact List.prefix_append _ _

variable {expr s : String}

theorem lookup_of_event (h : OfEvent expr) :
    lookup num c expr = match resolvePath num (templatePath expr) c.data [] with
      | .ok (some val) => some val
      | _ => none := by
  unfold lookup
  rw [if_neg h.1, if_neg h.2]
  rfl

theorem lookup_readable (h : OfEvent expr → Readable num c.data) : lookup num c expr = meaning c expr := by
  unfold meaning
  by_cases hid : expr = "new_id"
  · simp [lookup, hid]
  by_cases hnow : expr = "now"
  · simp [lookup, hnow]
  have hof : OfEvent expr := ⟨hid, hnow⟩
  rw [if_neg hid, if_neg hnow, lookup_of_event hof]
  by_cases hfacts : OnFacts (templatePath expr)
  · rw [if_pos hfacts, resolvePath_facts (templatePath_rooted expr) hfacts]
  have hgo : resolvePath num (templatePath expr) c.data [] =
      .ok (walkObjectPath c.data.canon (dotted ((templatePath expr).toList.drop 2))) := by
    rw [resolvePath_of_data (templatePath_rooted expr) hfacts, resolveEventDataPath, unmarshal_readable (h hof)]
    rfl
  rw [if_neg hfacts, hgo]
  cases walkObjectPath c.data.canon (dotted ((templatePath expr).toList.drop 2)) <;> rfl

theorem lookup_unreadable (hof : OfEvent expr) (h : ¬ Readable num c.data) : lookup num c expr = none := by
  rw [lookup_of_event hof]
  by_cases hfacts : OnFacts (templatePath expr)
  · rw [resolvePath_facts (templatePath_rooted expr) hfacts]
  have herr : ∃ e, resolvePath num (templatePath expr) c.data [] = .error e :=
    resolvePath_unreadable (templatePath_rooted expr) hfacts h []
  obtain ⟨e, he⟩ := herr
  rw [he]

theorem lookup_meaning (expr : String) : lookup num c expr = meaning c expr ∨ lookup num c expr = none := by
  by_cases hof : OfEvent expr
  · by_cases hr : Readable num c.data
    · exact .inl (lookup_readable fun _ => hr)
    · exact .inr (lookup_unreadable hof hr)
  · exact .inl (lookup_readable fun h => absurd h hof)

theorem meaning_text (hof : ¬ OfEvent expr) {v : Json} (h : meaning c expr = some v) : ∃ s, v = .str s := by
  unfold meaning at h
  by_cases hid : expr = "new_id"
  · rw [if_pos hid] at h
    exact ⟨_, (Option.some.inj h).symm⟩
  · by_cases hnow : expr = "now"
    · rw [if_neg hid, if_pos hnow] at h
      exact ⟨_, (Option.some.inj h).symm⟩
    · exact absurd ⟨hid, hnow⟩ hof

theorem opens_of_single {s : List Char} {run : List Char} (h : pieces 0 s = [.hole run]) : ['{', '{'] <:+: s := by
  cases s with
  | nil => cases h
  | cons a rest =>
    unfold pieces at h
    cases hp : placeholder (a :: rest) with
    | none =>
      rw [hp] at h
      cases h
    | some run' =>
      unfold placeholder at hp
      split at hp
      · rename_i heq
        rw [heq]
        exact (List.prefix_append ['{', '{'] _).isInfix
      · cases hp

abbrev rewrite (num : Numbers) (v : Json) : Json := v.renumber (numberText num)

theorem rewrite_expand_plain (h : ¬ ['{', '{'] <:+: s.toList) :
    rewrite num (expand num c s) = .str s := by
  unfold expand
  rw [if_pos h]
  simp [rewrite, renumber, mapLeaves]

theorem rewrite_expand_single {run : List Char} (h : pieces 0 s.toList = [.hole run]) :
    rewrite num (expand num c s) = rewrite num ((lookup num c (captured isBlank run)).getD (.str "")) := by
  unfold expand
  rw [if_neg (not_not_intro (opens_of_single h)), h]
  rfl

theorem rewrite_expand_mixed (hopens : ['{', '{'] <:+: s.toList)
    (h : ∀ run, pieces 0 s.toList ≠ [.hole run]) :
    rewrite num (expand num c s) = .str (filled
      (fun run => ((lookup num c (captured isBlank run)).map (valueText num)).getD "") (pieces 0 s.toList)) := by
  unfold expand
  rw [if_neg (not_not_intro hopens)]
  unfold expandPieces
  split
  · rename_i run hrun
    exact absurd hrun (h run)
  · simp only [rewrite, renumber, mapLeaves]
    rfl

/-- The value of a single placeholder: the event must be readable and the numbers of the value
    survive, where the value comes from the event and is not the empty text. -/
theorem single_iff :
    ((∀ v, meaning c expr = some v → same sameNumber v (rewrite num ((lookup num c expr).getD (.str ""))) = true) ∧
      (meaning c expr = none → rewrite num ((lookup num c expr).getD (.str "")) = .str "")) ↔
    (OfEvent expr → ∀ v, meaning c expr = some v → v ≠ .str "" →
      Readable num c.data ∧ ∀ literal ∈ v.literals, sameNumber literal (numberText num literal) = true) := by
  cases hm : meaning c expr with
  | none =>
    have hnone : lookup num c expr = none := (lookup_meaning expr).elim (·.trans hm) id
    simp [hnone, rewrite, renumber, mapLeaves]
  | some v =>
    simp only [Option.some.injEq, forall_eq', reduceCtorEq, false_implies, and_true]
    by_cases hread : OfEvent expr → Readable num c.data
    · rw [lookup_readable hread, hm, Option.getD_some, same_renumber_iff]
      constructor
      · intro hsame hof _
        exact ⟨hread hof, hsame⟩
      · intro hkept literal hl
        by_cases hof : OfEvent expr
        · apply (hkept hof _).2 literal hl
          rintro rfl
          simp [literals, leaves] at hl
        · obtain ⟨s, rfl⟩ := meaning_text hof hm
          simp [literals, leaves] at hl
    · rw [Classical.not_imp] at hread
      obtain ⟨hof, hunread⟩ := hread
      rw [lookup_unreadable hof hunread]
      constructor
      · intro hsame _ hne
        cases v with
        | str s =>
          simp only [Option.getD_none, rewrite, renumber, mapLeaves, same, beq_iff_eq] at hsame
          exact absurd (congrArg Json.str hsame) hne
        | _ => simp [rewrite, renumber, mapLeaves, same] at hsame
      · intro hkept
        by_cases hne : v = .str ""
        · simp [hne, rewrite, renumber, mapLeaves, same]
        · exact absurd (hkept hof hne).1 hunread

theorem expanded_iff (s : String) :
    Expanded num c s (rewrite num (expand num c s)) ↔
      ∀ run, pieces 0 s.toList = [.hole run] → OfEvent (captured isBlank run) →
        ∀ v, meaning c (captured isBlank run) = some v → v ≠ .str "" →
          Readable num c.data ∧ ∀ literal ∈ v.literals, sameNumber literal (numberText num literal) = true := by
  constructor
  · intro h run hrun
    have hsingle := h.single run hrun
    rw [rewrite_expand_single hrun] at hsingle
    exact single_iff.mp hsingle
  · intro h
    refine ⟨rewrite_expand_plain, fun run hrun => ?_, fun hopens hmixed => ?_⟩
    · rw [rewrite_expand_single hrun]
      exact single_iff.mpr (h run hrun)
    · refine ⟨_, rewrite_expand_mixed hopens hmixed, fun run => ?_⟩
      have hlookup : lookup num c (captured isBlank run) = meaning c (captured isBlank run) ∨
          lookup num c (captured isBlank run) = none := lookup_meaning _
      rcases hlookup with hfound | hnone
      · rw [hfound]
        cases hm : meaning c (captured isBlank run) with
        | none => exact .inl rfl
        | some v => exact .inr ⟨v, rfl, rfl⟩
      · rw [hnone]
        exact .inl rfl

end

/-! The document. -/

theorem interpolateTemplates_readable {num : Numbers} {data : Json} (h : Readable num data) (c : TemplateContext) :
    interpolateTemplates num c data = .ok (data.canon.mapLeaves (fun literal => .num (numberText num literal))
      (fun s => rewrite num (expand num c s))) := by
  unfold interpolateTemplates walk
  rw [unmarshal_readable h]
  refine congrArg Except.ok ((mapLeaves_mapLeaves _).trans ?_)
  simp only [mapLeaves]
  rfl

/-- The expansion succeeds and changes nothing but placeholders exactly where the numbers
    survive, for every document, event, child and time. -/
theorem interpolated_iff (num : Numbers) (c : TemplateContext) (data : Json) :
    (∃ out, interpolateTemplates num c data = .ok out ∧ Interpolated num c data out) ↔ Survives num c data := by
  by_cases hr : Readable num data
  · rw [interpolateTemplates_readable hr]
    simp only [Except.ok.injEq, exists_eq_left']
    unfold Interpolated
    rw [rewritten_mapLeaves_iff]
    unfold LeavesRewritten
    simp only [Json.num.injEq, exists_eq_left', expanded_iff]
    constructor
    · rintro ⟨hnumbers, hvalues⟩
      exact ⟨hr, fun literal hl => hnumbers literal (mem_literals.mp hl), hvalues⟩
    · intro h
      exact ⟨fun literal hl => h.numbers literal (mem_literals.mpr hl), h.values⟩
  · constructor
    · rintro ⟨out, hout, -⟩
      obtain ⟨e, he⟩ := unmarshal_unreadable hr
      unfold interpolateTemplates at hout
      rw [he] at hout
      cases hout
    · intro h
      exact absurd h.readable hr

namespace InterpolationSample

/-- The float nearest to an integer of at most 54 bits: with more than 53 it is even. -/
def nearest (n : Int) : Int :=
  if n.natAbs ≤ 2 ^ 53 ∨ n % 2 = 0 then n else if n % 4 = 1 then n - 1 else n + 1

def doubles : Numbers := { integers with goFloat := fun literal => nearest (Json.signed literal.toList) }

def order : Json := .obj [("id", .num "9007199254740993")]

def context : TemplateContext := ⟨order, "c-1", "2026-01-02T03:04:05Z"⟩

def copied : Json := .obj [("copy", .str "\x7b\x7b$.id\x7d\x7d"), ("id", .num "9007199254740993")]

def rounded : Json := .obj [("copy", .num "9007199254740992"), ("id", .num "9007199254740992")]

end InterpolationSample

open InterpolationSample in
/-- The number is off by one, in the child's own data and where the event's value is copied. -/
theorem interpolation_rounds :
    interpolateTemplates doubles context copied = .ok rounded ∧
    ¬ ∃ out, interpolateTemplates doubles context copied = .ok out ∧ Interpolated doubles context copied out := by
  have hrun : interpolateTemplates doubles context copied = .ok rounded := rfl
  refine ⟨hrun, ?_⟩
  rintro ⟨out, hout, hsame⟩
  obtain rfl : rounded = out := Except.ok.inj (hrun.symm.trans hout)
  have hcanon : copied.canon = copied := rfl
  rw [Interpolated, hcanon] at hsame
  simp only [copied, rounded, Rewritten, RewrittenMembers, RewrittenMember, Json.num.injEq, exists_eq_left', true_and,
    and_true] at hsame
  exact absurd hsame.2 (by decide)

end FlowRule.Rules
