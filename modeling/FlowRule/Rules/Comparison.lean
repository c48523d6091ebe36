import FlowRule.Lib.Canonical
import FlowRule.Rules.Predicates

/- Equality and order of the Go evaluator (compareEq, compareCmp and what they call in
   internal/rules/evaluator.go).

   Equality is equality of printed texts, order is order of numbers. A string takes part in both,
   as it is spelled in one and as the number it is parsed to in the other
   (`comparison_coherent_iff`). Arrays and objects are printed with nothing quoted; what is
   printed can be read back when strings cannot be taken for anything else (`printed_eq_iff`). -/
namespace FlowRule

open Rules Json

/-! Numbers. -/

/-- The text a number is compared by: an integer in full, any other as %v prints it. -/
def normalText (num : Numbers) (f : num.Float) : String :=
  match num.goInt f with
  | some n => toString n
  | none => num.goPrint f

def special (c : Char) : Prop := c = ' ' ∨ c = '[' ∨ c = ']' ∨ c = ':'

instance (c : Char) : Decidable (special c) := inferInstanceAs (Decidable (_ ∨ _))

/-- Floating point numbers as Go has them. A number that does not equal itself is not a
    number, and not less than anything. -/
structure LawfulNumbers extends Numbers where
  trichotomy : ∀ f g, eq f f = true → eq g g = true →
    (lt f g = true ∧ lt g f = false ∧ eq f g = false) ∨ (lt f g = false ∧ lt g f = true ∧ eq f g = false) ∨
      (lt f g = false ∧ lt g f = false ∧ eq f g = true)
  unordered : ∀ f g, eq f f = false → lt f g = false ∧ lt g f = false
  /-- A literal is a number. -/
  literal : ∀ l, eq (goFloat l) (goFloat l) = true
  /-- Numbers are equal exactly when they are compared by one text. -/
  normal_eq : ∀ f g, eq f f = true → eq g g = true →
    (normalText toNumbers f = normalText toNumbers g ↔ eq f g = true)
  /-- The text of a number parses to an equal one. -/
  normal_parse : ∀ f, eq f f = true →
    ∃ g, goParse (normalText toNumbers f) = some g ∧ eq g g = true ∧ eq f g = true
  print_parse : ∀ f, eq f f = true → (goParse (goPrint f)).isSome = true
  print_inj : ∀ f g, eq f f = true → eq g g = true → goPrint f = goPrint g → eq f g = true
  /-- Equal numbers are printed alike, but for a negative zero. -/
  print_eq : ∀ f g, eq f g = true → goPrint f ≠ "-0" → goPrint g ≠ "-0" → goPrint f = goPrint g
  parse_word : ∀ s f, goParse s = some f → s ≠ "" ∧ ∀ c ∈ s.toList, ¬ special c
  parse_name : goParse "<nil>" = none ∧ goParse "true" = none ∧ goParse "false" = none

instance : Coe LawfulNumbers Numbers := ⟨LawfulNumbers.toNumbers⟩

/-! Values that are printed so that they can be read back. -/

section
variable (num : Numbers)

/-- A string that is not taken for a number, for true, false or nil, or for several values. -/
def plainString (s : String) : Prop :=
  s ≠ "" ∧ (∀ c ∈ s.toList, ¬ special c) ∧ num.goParse s = none ∧ s ≠ "<nil>" ∧ s ≠ "true" ∧ s ≠ "false"

mutual

/-- Every string is plain, keys have no special characters, and no number is a negative
    zero. -/
def plain : Json → Prop
  | .null => True
  | .bool _ => True
  | .num literal => num.goPrint (num.goFloat literal) ≠ "-0"
  | .str s => plainString num s
  | .arr items => plainItems items
  | .obj members => plainMembers members

def plainItems : List Json → Prop
  | [] => True
  | v :: rest => plain v ∧ plainItems rest

def plainMembers : List (String × Json) → Prop
  | [] => True
  | m :: rest => ((∀ c ∈ m.1.toList, ¬ special c) ∧ plainMember m) ∧ plainMembers rest

def plainMember : String × Json → Prop
  | (_, v) => plain v

end

theorem plainItems_iff {items : List Json} : plainItems num items ↔ ∀ v ∈ items, plain num v := by
  induction items with
  | nil => simp [plainItems]
  | cons v rest ih => simp [plainItems, ih]

theorem plainMembers_iff {members : List (String × Json)} :
    plainMembers num members ↔ ∀ m ∈ members, (∀ c ∈ m.1.toList, ¬ special c) ∧ plain num m.2 := by
  induction members with
  | nil => simp [plainMembers]
  | cons m rest ih =>
    obtain ⟨k, v⟩ := m
    rw [plainMembers, ih, List.forall_mem_cons, plainMember]

def text (v : Json) : List Char := (v.render (printed num)).toList

def memberText (m : String × Json) : List Char := m.1.toList ++ ':' :: text num m.2

theorem renderItems_eq (l : Layout) (items : List Json) : renderItems l items = items.map (render l) := by
  induction items with
  | nil => rfl
  | cons v rest ih => simp [renderItems, ih]

theorem renderMembers_eq (l : Layout) (members : List (String × Json)) :
    renderMembers l members = members.map (fun m => (m.1, m.2.render l)) := by
  induction members with
  | nil => rfl
  | cons m rest ih =>
    obtain ⟨k, v⟩ := m
    simp [renderMembers, renderMember, ih]

theorem text_arr (items : List Json) :
    text num (.arr items) = '[' :: ([' '].intercalate (items.map (text num)) ++ [']']) := by
  simp only [text, render, printed, renderItems_eq, String.toList_append, String.toList_intercalate,
    List.map_map]
  rfl

theorem text_obj (members : List (String × Json)) :
    text num (.obj members) = "map[".toList ++ ([' '].intercalate (members.map (memberText num)) ++ [']']) := by
  have hmember : (fun m : String × Json => (m.1 ++ ":" ++ m.2.render (printed num)).toList) =
      memberText num := by
    funext m
    simp [memberText, text]
  simp only [text, render, printed, renderMembers_eq, String.toList_append, String.toList_intercalate,
    List.map_map, List.append_assoc]
  rw [← hmember]
  rfl

end

/-! Reading back. -/

section
variable {num : LawfulNumbers}

def sameValue (num : Numbers) (v w : Json) : Bool :=
  same (fun l m => num.eq (num.goFloat l) (num.goFloat m)) v w

theorem sameValue_num {l m : String} : sameValue num (.num l) (.num m) = num.eq (num.goFloat l) (num.goFloat m) := by
  simp [sameValue, same]

def scalarText (num : Numbers) : Json → String
  | .null => "<nil>"
  | .bool true => "true"
  | .bool false => "false"
  | .num literal => num.goPrint (num.goFloat literal)
  | .str s => s
  | .arr _ | .obj _ => ""

variable {v w : Json}

theorem text_scalar (hs : v.isScalar = true) : text num v = (scalarText num v).toList := by
  cases v with
  | bool b => cases b <;> rfl
  | arr _ | obj _ => cases hs
  | _ => rfl

theorem parse_printed (literal : String) : num.goParse (num.goPrint (num.goFloat literal)) ≠ none := by
  intro hnone
  have hsome := num.print_parse _ (num.literal literal)
  rw [hnone] at hsome
  cases hsome

theorem text_scalar_word (hs : v.isScalar = true) (hv : plain num v) :
    text num v ≠ [] ∧ ∀ c ∈ text num v, ¬ special c := by
  rw [text_scalar hs]
  cases v with
  | null => exact ⟨by simp [scalarText], by simp [scalarText, special]⟩
  | bool b => cases b <;> exact ⟨by simp [scalarText], by simp [scalarText, special]⟩
  | num literal =>
    obtain ⟨f, hf⟩ := Option.ne_none_iff_exists'.mp (parse_printed literal)
    obtain ⟨hne, hword⟩ := num.parse_word _ _ hf
    exact ⟨fun h => hne (String.toList_inj.mp h), hword⟩
  | str s => exact ⟨fun h => hv.1 (String.toList_inj.mp h), hv.2.1⟩
  | arr _ | obj _ => cases hs

theorem parse_scalar (hs : v.isScalar = true) (hv : plain num v) :
    (∃ l, v = .num l) ∨ num.goParse (scalarText num v) = none := by
  obtain ⟨hnil, htrue, hfalse⟩ := num.parse_name
  cases v with
  | null => exact Or.inr hnil
  | bool b =>
    cases b
    · exact Or.inr hfalse
    · exact Or.inr htrue
  | num l => exact Or.inl ⟨l, rfl⟩
  | str s => exact Or.inr hv.2.2.1
  | arr _ | obj _ => cases hs

/-- Scalars that print alike are the same: only values of one kind can. -/
theorem scalar_same (hs : v.isScalar = true) (hs' : w.isScalar = true) (hv : plain num v) (hw : plain num w)
    (h : scalarText num v = scalarText num w) : sameValue num v w = true := by
  rcases parse_scalar hs hv with ⟨l, rfl⟩ | hnone
  · rcases parse_scalar hs' hw with ⟨m, rfl⟩ | hnone
    · rw [sameValue_num]
      exact num.print_inj _ _ (num.literal l) (num.literal m) h
    · rw [← h] at hnone
      exact absurd hnone (parse_printed l)
  · rcases parse_scalar hs' hw with ⟨m, rfl⟩ | hnone'
    · rw [h] at hnone
      exact absurd hnone (parse_printed m)
    -- neither is a number: names are not plain strings, and differ
    · cases v with
      | num l => exact absurd hnone (parse_printed l)
      | null =>
        cases w with
        | null => simp [sameValue, same]
        | bool b => cases b <;> simp [scalarText] at h
        | str s => exact absurd h.symm hw.2.2.2.1
        | num m => exact absurd hnone' (parse_printed m)
        | arr _ | obj _ => cases hs'
      | bool b =>
        cases w with
        | null => cases b <;> simp [scalarText] at h
        | bool b' => cases b <;> cases b' <;> simp [scalarText, sameValue, same] at h ⊢
        | str s =>
          cases b
          · exact absurd h.symm hw.2.2.2.2.2
          · exact absurd h.symm hw.2.2.2.2.1
        | num m => exact absurd hnone' (parse_printed m)
        | arr _ | obj _ => cases hs'
      | str s =>
        cases w with
        | null => exact absurd h hv.2.2.2.1
        | bool b =>
          cases b
          · exact absurd h hv.2.2.2.2.2
          · exact absurd h hv.2.2.2.2.1
        | str s' =>
          have hst : s = s' := h
          simp [sameValue, same, hst]
        | num m => exact absurd hnone' (parse_printed m)
        | arr _ | obj _ => cases hs'
      | arr _ | obj _ => cases hs

/-! Trees. -/

theorem sameItems_iff {r : String → String → Bool} : ∀ {xs ys : List Json},
    sameItems r xs ys = true ↔ List.Forall₂ (fun v w => same r v w = true) xs ys
  | [], [] | [], _ :: _ | _ :: _, [] => by simp [sameItems]
  | v :: xs, w :: ys => by
    rw [sameItems, Bool.and_eq_true, List.forall₂_cons, sameItems_iff]

theorem sameMembers_iff {r : String → String → Bool} : ∀ {xs ys : List (String × Json)},
    sameMembers r xs ys = true ↔
      List.Forall₂ (fun m n => m.1 = n.1 ∧ same r m.2 n.2 = true) xs ys
  | [], [] | [], _ :: _ | _ :: _, [] => by simp [sameMembers]
  | (k, v) :: xs, (k', w) :: ys => by
    rw [sameMembers, sameMember, Bool.and_eq_true, Bool.and_eq_true, beq_iff_eq, List.forall₂_cons,
      sameMembers_iff]

theorem text_head (hv : plain num v) (s : List Char) :
    (text num v ++ s).head? ≠ some ']' := by
  cases hs : v.isScalar with
  | true =>
    obtain ⟨hne, hword⟩ := text_scalar_word hs hv
    obtain ⟨c, t, ht⟩ := List.exists_cons_of_ne_nil hne
    rw [ht] at hword ⊢
    intro h
    have hc : c = ']' := by simpa using h
    exact hword c List.mem_cons_self (by simp [special, hc])
  | false =>
    cases v with
    | arr items =>
      rw [text_arr]
      simp
    | obj members =>
      rw [text_obj]
      simp
    | _ => cases hs

theorem memberText_head {m : String × Json} (hm : ∀ c ∈ m.1.toList, ¬ special c) (s : List Char) :
    (memberText num m ++ s).head? ≠ some ']' := by
  unfold memberText
  cases hk : m.1.toList with
  | nil => simp
  | cons c t =>
    intro h
    have hc : c = ']' := by simpa using h
    rw [hk] at hm
    exact hm c List.mem_cons_self (by simp [special, hc])

theorem special_of_follows {s : List Char} (h : Text.Follows ' ' ']' s) : ∀ c ∈ s.head?, special c := by
  intro c hc
  rcases h c hc with rfl | rfl
  · exact Or.inl rfl
  · exact Or.inr (Or.inr (Or.inl rfl))

/-- A scalar is read back whatever follows it, and is not taken for an array or an object. -/
theorem scalar_read (hs : v.isScalar = true) (hv : plain num v) (hw : plain num w)
    {r r' : List Char} (hr : Text.Follows ' ' ']' r) (hr' : Text.Follows ' ' ']' r')
    (h : text num v ++ r = text num w ++ r') :
    sameValue num v w = true ∧ r = r' := by
  obtain ⟨hne, hword⟩ := text_scalar_word hs hv
  cases hs' : w.isScalar with
  | true =>
    obtain ⟨-, hword'⟩ := text_scalar_word hs' hw
    obtain ⟨htext, hrest⟩ := Text.word_append_inj hword hword' (special_of_follows hr) (special_of_follows hr') h
    rw [text_scalar hs, text_scalar hs', String.toList_inj] at htext
    exact ⟨scalar_same hs hs' hv hw htext, hrest⟩
  | false =>
    exfalso
    cases w with
    | arr others =>
      -- an array begins with a bracket, a word does not
      obtain ⟨c, t, ht⟩ := List.exists_cons_of_ne_nil hne
      rw [text_arr, ht, List.cons_append, List.cons_append] at h
      rw [ht] at hword
      obtain ⟨rfl, -⟩ := List.cons.inj h
      exact hword '[' List.mem_cons_self (by decide)
    | obj others =>
      -- an object is a word too, but a bracket follows it
      rw [text_obj] at h
      have hmap : ∀ c ∈ "map".toList, ¬ special c := by simp [special]
      have hopen : ∀ c ∈ ('[' :: ([' '].intercalate (others.map (memberText num)) ++ ']' :: r')).head?,
          special c := by
        intro c hc
        have hc : '[' = c := by simpa using hc
        exact hc ▸ Or.inr (Or.inl rfl)
      obtain ⟨-, hrest⟩ := Text.word_append_inj (b := '[' :: ([' '].intercalate (others.map (memberText num))
        ++ ']' :: r')) hword hmap (special_of_follows hr) hopen (by simpa using h)
      have hhead := hr '[' (by rw [hrest]; rfl)
      revert hhead
      decide
    | null | bool _ | num _ | str _ => cases hs'

/-- A value is read back from what it begins, whatever plain value is held against it. -/
def Reads (num : Numbers) (v : Json) : Prop :=
  ∀ w, plain num w → ∀ r r', Text.Follows ' ' ']' r → Text.Follows ' ' ']' r' →
    text num v ++ r = text num w ++ r' → sameValue num v w = true ∧ r = r'

theorem scalar_apart (hs : v.isScalar = true) (hs' : w.isScalar = false) (hv : plain num v)
    (hw : plain num w) {r r' : List Char} (hr : Text.Follows ' ' ']' r) (hr' : Text.Follows ' ' ']' r') :
    text num w ++ r' ≠ text num v ++ r := by
  intro h
  have hsame := (scalar_read hs hv hw hr hr' h.symm).1
  cases v <;> cases w <;> simp [sameValue, same, isScalar] at hs hs' hsame

mutual

theorem reads_plain : ∀ v : Json, plain num v → Reads num v
  | .null, hv | .bool _, hv | .num _, hv | .str _, hv => fun w hw r r' hr hr' h => scalar_read rfl hv hw hr hr' h
  | .arr items, hv => by
    intro w hw r r' hr hr' h
    cases w with
    | arr others =>
      have hitems := (plainItems_iff num).mp hv
      have hothers := (plainItems_iff num).mp hw
      have hread := reads_items items hv
      rw [text_arr, text_arr] at h
      simp only [List.cons_append, List.append_assoc, List.nil_append, List.cons.injEq, true_and] at h
      obtain ⟨hall, hrest⟩ := Text.joined_inj (by decide) (fun x hx y hy => hread x hx y (hothers y hy))
        (fun x hx => text_head (hitems x hx)) (fun y hy => text_head (hothers y hy)) h
      exact ⟨by rw [sameValue, same]; exact sameItems_iff.mpr hall, hrest⟩
    | obj others =>
      rw [text_arr, text_obj] at h
      simp at h
    | null | bool _ | num _ | str _ => exact absurd h (scalar_apart rfl rfl hw hv hr' hr)
  | .obj members, hv => by
    intro w hw r r' hr hr' h
    cases w with
    | obj others =>
      have hmembers := (plainMembers_iff num).mp hv
      have hothers := (plainMembers_iff num).mp hw
      have hread := reads_members members hv
      rw [text_obj, text_obj] at h
      simp only [List.append_assoc, List.cons_append, List.nil_append] at h
      have hmember : ∀ m ∈ members, ∀ n ∈ others, ∀ s s', Text.Follows ' ' ']' s → Text.Follows ' ' ']' s' →
          memberText num m ++ s = memberText num n ++ s' →
          (m.1 = n.1 ∧ sameValue num m.2 n.2 = true) ∧ s = s' := by
        intro m hm n hn s s' hs hs' h
        -- the key ends at its colon, and then the value is read
        simp only [memberText, List.append_assoc, List.cons_append] at h
        obtain ⟨hkey, hvalue⟩ := Text.split_at_inj (c := ':') (fun hc => (hmembers m hm).1 ':' hc (by decide))
          (fun hc => (hothers n hn).1 ':' hc (by decide)) h
        obtain ⟨hsame, hrest⟩ := hread m hm n.2 (hothers n hn).2 s s' hs hs' hvalue
        exact ⟨⟨String.toList_inj.mp hkey, hsame⟩, hrest⟩
      obtain ⟨hall, hrest⟩ := Text.joined_inj (by decide) hmember
        (fun m hm => memberText_head (hmembers m hm).1) (fun n hn => memberText_head (hothers n hn).1)
        (List.append_cancel_left h)
      exact ⟨by rw [sameValue, same]; exact sameMembers_iff.mpr hall, hrest⟩
    | arr others =>
      rw [text_arr, text_obj] at h
      simp at h
    | null | bool _ | num _ | str _ => exact absurd h (scalar_apart rfl rfl hw hv hr' hr)

theorem reads_items : ∀ items : List Json, plainItems num items → ∀ x ∈ items, Reads num x
  | [], _, _, hx => by cases hx
  | v :: rest, h, x, hx => by
    rcases List.mem_cons.mp hx with heq | hmem
    · exact heq ▸ reads_plain v h.1
    · exact reads_items rest h.2 x hmem

theorem reads_members : ∀ members : List (String × Json), plainMembers num members → ∀ m ∈ members,
    Reads num m.2
  | [], _, _, hm => by cases hm
  | (k, v) :: rest, h, m, hm => by
    rcases List.mem_cons.mp hm with heq | hmem
    · exact heq ▸ reads_plain v h.1.2
    · exact reads_members rest h.2 m hmem

end

theorem map_eq_of_forall₂ {α γ : Type} {f : α → γ} {R : α → α → Prop} {xs ys : List α} (h : List.Forall₂ R xs ys)
    (hf : ∀ x ∈ xs, ∀ y ∈ ys, R x y → f x = f y) : xs.map f = ys.map f := by
  induction h with
  | nil => rfl
  | cons hxy _ ih =>
    rw [List.map_cons, List.map_cons, hf _ List.mem_cons_self _ List.mem_cons_self hxy,
      ih (fun x hx y hy => hf x (List.mem_cons_of_mem _ hx) y (List.mem_cons_of_mem _ hy))]

def Prints (num : Numbers) (v : Json) : Prop :=
  ∀ w, plain num w → sameValue num v w = true → text num v = text num w

mutual

theorem prints_plain : ∀ v : Json, plain num v → Prints num v
  | .null, _ | .bool _, _ | .str _, _ => by
    intro w _ h
    cases w with
    | null | bool _ | str _ | num _ | arr _ | obj _ => simp_all [sameValue, same]
  | .num l, hv => by
    intro w hw h
    cases w with
    | num m =>
      rw [sameValue_num] at h
      exact congrArg String.toList (num.print_eq _ _ h hv hw)
    | _ => simp [sameValue, same] at h
  | .arr items, hv => by
    intro w hw h
    cases w with
    | arr others =>
      rw [sameValue, same, sameItems_iff] at h
      have hprint := prints_items items hv
      have hothers := (plainItems_iff num).mp hw
      rw [text_arr, text_arr, map_eq_of_forall₂ h (fun x hx y hy => hprint x hx y (hothers y hy))]
    | _ => simp [sameValue, same] at h
  | .obj members, hv => by
    intro w hw h
    cases w with
    | obj others =>
      rw [sameValue, same, sameMembers_iff] at h
      have hprint := prints_members members hv
      have hothers := (plainMembers_iff num).mp hw
      have hmember : ∀ m ∈ members, ∀ n ∈ others, (m.1 = n.1 ∧ sameValue num m.2 n.2 = true) →
          memberText num m = memberText num n := by
        intro m hm n hn hmn
        rw [memberText, memberText, hmn.1, hprint m hm n.2 (hothers n hn).2 hmn.2]
      rw [text_obj, text_obj, map_eq_of_forall₂ h hmember]
    | _ => simp [sameValue, same] at h

theorem prints_items : ∀ items : List Json, plainItems num items → ∀ x ∈ items, Prints num x
  | [], _, _, hx => by cases hx
  | v :: rest, h, x, hx => by
    rcases List.mem_cons.mp hx with heq | hmem
    · exact heq ▸ prints_plain v h.1
    · exact prints_items rest h.2 x hmem

theorem prints_members : ∀ members : List (String × Json), plainMembers num members → ∀ m ∈ members,
    Prints num m.2
  | [], _, _, hm => by cases hm
  | (k, v) :: rest, h, m, hm => by
    rcases List.mem_cons.mp hm with heq | hmem
    · exact heq ▸ prints_plain v h.1.2
    · exact prints_members rest h.2 m hmem

end

theorem printed_eq_iff (hv : plain num v) (hw : plain num w) :
    v.render (printed num) = w.render (printed num) ↔ sameValue num v w = true := by
  constructor
  · intro h
    refine (reads_plain v hv w hw [] [] (by simp [Text.Follows]) (by simp [Text.Follows]) ?_).1
    exact congrArg (fun s => s.toList ++ []) h
  · exact fun h => String.toList_inj.mp (prints_plain v hv w hw h)

/-! Equality of the evaluator. -/

def comparedText (num : Numbers) : Json → String
  | .num literal => normalText num (num.goFloat literal)
  | v => v.render (printed num)

theorem comparedText_other (h : ∀ l, v ≠ .num l) : comparedText num v = v.render (printed num) := by
  cases v with
  | num l => exact absurd rfl (h l)
  | null | bool _ | str _ | arr _ | obj _ => rfl

theorem normalizeNumber_some (num : Numbers) (v : Json) : ∃ n, normalizeNumber num (some v) = some n ∧
    sprintNormal num n = comparedText num v := by
  cases v with
  | num literal =>
    cases hg : num.goInt (num.goFloat literal) with
    | none =>
      refine ⟨.inr (.num literal), by simp only [normalizeNumber, hg], ?_⟩
      simp only [comparedText, normalText, hg]
      rfl
    | some i =>
      refine ⟨.inl i, by simp only [normalizeNumber, hg], ?_⟩
      simp only [comparedText, normalText, hg]
      rfl
  | null | bool _ | str _ | arr _ | obj _ => exact ⟨_, rfl, rfl⟩

theorem compareEq_some {num : Numbers} (v w : Json) : compareEq num (some v) (some w) =
    (comparedText num v == comparedText num w) := by
  obtain ⟨n, hn, hv⟩ := normalizeNumber_some num v
  obtain ⟨m, hm, hw⟩ := normalizeNumber_some num w
  simp only [compareEq, hn, hm, hv, hw]

theorem compareEq_none_left (w : Option Json) : compareEq num none w =
    (sprint num none == sprint num w) := rfl

theorem compareEq_none_right {num : Numbers} (v : Option Json) :
    compareEq num v none = (sprint num v == sprint num none) := by
  unfold compareEq
  cases normalizeNumber num v <;> rfl

/-- A number compared by its text is not taken for a plain value of another kind. -/
theorem normalText_apart {l : String} (hw : plain num w) (hnum : ∀ m, w ≠ .num m) :
    normalText num (num.goFloat l) ≠ w.render (printed num) := by
  obtain ⟨g, hparse, -⟩ := num.normal_parse _ (num.literal l)
  obtain ⟨-, hword⟩ := num.parse_word _ _ hparse
  intro h
  cases hs : w.isScalar with
  | true =>
    rcases parse_scalar hs hw with ⟨m, rfl⟩ | hnone
    · exact hnum m rfl
    have htext : text num w = (scalarText num w).toList := text_scalar hs
    rw [text, ← h, String.toList_inj] at htext
    rw [← htext, hparse] at hnone
    cases hnone
  | false =>
    -- arrays and objects have brackets in their text
    have hmem : '[' ∈ text num w := by
      cases w with
      | arr items => simp [text_arr]
      | obj members => simp [text_obj]
      | null | bool _ | num _ | str _ => cases hs
    rw [text, ← h] at hmem
    exact hword '[' hmem (by decide)

theorem comparedText_iff (hv : plain num v) (hw : plain num w) :
    comparedText num v = comparedText num w ↔ sameValue num v w = true := by
  have hapart : ∀ {l : String} {w : Json}, (∀ m, w ≠ .num m) → sameValue num (.num l) w = false ∧
      sameValue num w (.num l) = false := by
    intro l w hw
    cases w with
    | num m => exact absurd rfl (hw m)
    | null | bool _ | str _ | arr _ | obj _ => simp [sameValue, same]
  by_cases hnum : ∃ l, v = .num l
  · obtain ⟨l, rfl⟩ := hnum
    by_cases hnum' : ∃ m, w = .num m
    · obtain ⟨m, rfl⟩ := hnum'
      rw [sameValue_num]
      exact num.normal_eq _ _ (num.literal l) (num.literal m)
    · rw [not_exists] at hnum'
      rw [comparedText_other hnum', (hapart hnum').1]
      exact iff_of_false (normalText_apart hw hnum') (by decide)
  · rw [not_exists] at hnum
    rw [comparedText_other hnum]
    by_cases hnum' : ∃ m, w = .num m
    · obtain ⟨m, rfl⟩ := hnum'
      rw [(hapart hnum).2]
      exact iff_of_false (fun h => normalText_apart hv hnum h.symm) (by decide)
    · rw [not_exists] at hnum'
      rw [comparedText_other hnum']
      exact printed_eq_iff hv hw

/-- Equality of plain values is equality. A null is compared as it is printed. -/
theorem compareEq_plain (hv : plain num v) (hw : plain num w) :
    compareEq num v.nonNull w.nonNull = sameValue num v w := by
  have hprinted : (v.render (printed num) == w.render (printed num)) =
      sameValue num v w := by
    rw [Bool.eq_iff_iff, beq_iff_eq]
    exact printed_eq_iff hv hw
  have hsprint : ∀ u : Json, sprint num u.nonNull = u.render (printed num) := by
    intro u
    cases u <;> rfl
  have hsome : ∀ {u : Json}, u ≠ .null → u.nonNull = some u := by
    intro u hu
    cases u <;> first | rfl | exact absurd rfl hu
  by_cases hnull : v = .null ∨ w = .null
  · rw [← hprinted, ← hsprint, ← hsprint]
    rcases hnull with rfl | rfl
    · exact compareEq_none_left _
    · exact compareEq_none_right _
  · rw [not_or] at hnull
    rw [hsome hnull.1, hsome hnull.2, compareEq_some, Bool.eq_iff_iff, beq_iff_eq]
    exact comparedText_iff hv hw

variable (num)

def hasValue (num : Numbers) (v list : Json) : Bool :=
  match list with
  | .arr items => items.any (sameValue num v)
  | _ => false

theorem compareIn_plain (hv : plain num v) (hw : plain num w) :
    compareIn num v.nonNull w.nonNull = hasValue num v w := by
  cases w with
  | arr items =>
    have hitems := (plainItems_iff num).mp hw
    show items.any (fun item => compareEq num v.nonNull item.nonNull) = items.any _
    rw [Bool.eq_iff_iff, List.any_eq_true, List.any_eq_true]
    refine exists_congr (fun item => and_congr_right (fun hi => ?_))
    rw [compareEq_plain hv (hitems item hi)]
  | null | bool _ | num _ | str _ | obj _ => rfl

/-- On plain values, eq, neq and in go by equality of values, whatever arrays and objects
    they are. -/
theorem structured_eq {v w : Json} (hv : plain num v) (hw : plain num w) :
    evaluateLeafValue num "eq" v.nonNull w.nonNull = .ok (sameValue num v w) ∧
    evaluateLeafValue num "neq" v.nonNull w.nonNull = .ok (!sameValue num v w) ∧
    evaluateLeafValue num "in" v.nonNull w.nonNull = .ok (hasValue num v w) := by
  refine ⟨?_, ?_, ?_⟩
  · exact congrArg Except.ok (compareEq_plain hv hw)
  · exact congrArg (fun b => Except.ok (!b)) (compareEq_plain hv hw)
  · exact congrArg Except.ok (compareIn_plain num hv hw)

end

/-! Order and equality. -/

section
variable (num : Numbers)

/-- A number, or a string that is spelled as the number it is parsed to is compared. -/
def Canonical : Json → Prop
  | .num _ => True
  | .str s => ∃ f, num.goParse s = some f ∧ num.eq f f = true ∧ s = normalText num f
  | _ => False

def answer (op : String) (actual expected : Json) : Except Err Bool :=
  evaluateLeafValue num op (some actual) (some expected)

inductive ExactlyOne : Except Err Bool → Except Err Bool → Except Err Bool → Prop
  | first : ExactlyOne (.ok true) (.ok false) (.ok false)
  | second : ExactlyOne (.ok false) (.ok true) (.ok false)
  | third : ExactlyOne (.ok false) (.ok false) (.ok true)

def Trichotomous (actual expected : Json) : Prop :=
  ExactlyOne (answer num "lt" actual expected) (answer num "eq" actual expected) (answer num "gt" actual expected)

end

section
variable {num : LawfulNumbers} {a e : Json} {f g : num.Float}

theorem answer_lt (ha : toFloat64 num (some a) = some f) (he : toFloat64 num (some e) = some g) :
    answer num "lt" a e = .ok (!num.lt g f && num.lt f g) := by
  show compareNumericLeaf num .lt "lt" (some a) (some e) = _
  simp only [compareNumericLeaf, compareCmp, ha, he]
  cases num.lt g f <;> cases num.lt f g <;> rfl

theorem answer_gt (ha : toFloat64 num (some a) = some f)
    (he : toFloat64 num (some e) = some g) : answer num "gt" a e = .ok (num.lt g f) := by
  show compareNumericLeaf num .gt "gt" (some a) (some e) = _
  simp only [compareNumericLeaf, compareCmp, ha, he]
  cases num.lt g f <;> cases num.lt f g <;> rfl

theorem answer_eq : answer num "eq" a e = .ok (comparedText num a == comparedText num e) := by
  exact congrArg Except.ok (compareEq_some a e)

theorem answer_complements (ha : toFloat64 num (some a) = some f) (he : toFloat64 num (some e) = some g) :
    answer num "gte" a e = (answer num "lt" a e).map (! ·) ∧
    answer num "lte" a e = (answer num "gt" a e).map (! ·) ∧
    answer num "neq" a e = (answer num "eq" a e).map (! ·) := by
  refine ⟨?_, ?_, rfl⟩
  · rw [answer_lt ha he]
    show compareNumericLeaf num .gte "gte" (some a) (some e) = _
    simp only [compareNumericLeaf, compareCmp, ha, he]
    cases num.lt g f <;> cases num.lt f g <;> rfl
  · rw [answer_gt ha he]
    show compareNumericLeaf num .lte "lte" (some a) (some e) = _
    simp only [compareNumericLeaf, compareCmp, ha, he]
    cases num.lt g f <;> cases num.lt f g <;> rfl

theorem Canonical.float (h : Canonical num a) : ∃ f, toFloat64 num (some a) = some f ∧
    num.eq f f = true ∧ comparedText num a = normalText num f := by
  cases a with
  | num l => exact ⟨num.goFloat l, rfl, num.literal l, rfl⟩
  | str s =>
    obtain ⟨f, hf, hff, hs⟩ := h
    exact ⟨f, hf, hff, hs⟩
  | null | bool _ | arr _ | obj _ => cases h

/-- Numbers that are not less than each other either way, and not compared by one text. -/
theorem not_trichotomous (ha : toFloat64 num (some a) = some f)
    (he : toFloat64 num (some e) = some g) (hlt : num.lt f g = false ∧ num.lt g f = false)
    (htext : comparedText num a ≠ comparedText num e) : ¬ Trichotomous num a e := by
  unfold Trichotomous
  rw [answer_lt ha he, answer_gt ha he, answer_eq, hlt.1, hlt.2, beq_eq_false_iff_ne.mpr htext]
  intro h
  cases h

theorem trichotomous_canonical (ha : Canonical num a) (he : Canonical num e) : Trichotomous num a e := by
  obtain ⟨f, hf, hff, hta⟩ := ha.float
  obtain ⟨g, hg, hgg, hte⟩ := he.float
  have htext := num.normal_eq f g hff hgg
  unfold Trichotomous
  rw [answer_lt hf hg, answer_gt hf hg, answer_eq, hta, hte]
  rcases num.trichotomy f g hff hgg with ⟨h₁, h₂, h₃⟩ | ⟨h₁, h₂, h₃⟩ | ⟨h₁, h₂, h₃⟩
  · rw [h₁, h₂, beq_eq_false_iff_ne.mpr (fun h => by rw [htext.mp h] at h₃; cases h₃)]
    exact .first
  · rw [h₁, h₂, beq_eq_false_iff_ne.mpr (fun h => by rw [htext.mp h] at h₃; cases h₃)]
    exact .third
  · rw [h₁, h₂, beq_iff_eq.mpr (htext.mpr h₃)]
    exact .second

/-- A string that is not spelled as its number is told from the spelling of that number by
    equality, but not by order; one that is no number from zero. -/
theorem canonical_of_trichotomous {s : String} (hs : num.goParse s = some f)
    (h : ∀ e, Canonical num e → Trichotomous num (.str s) e) : Canonical num (.str s) := by
  have hfloat : toFloat64 num (some (.str s)) = some f := hs
  have hff : num.eq f f = true := by
    by_contra hnan
    rw [Bool.not_eq_true] at hnan
    have hzero : toFloat64 num (some (.num "0")) = some (num.goFloat "0") := rfl
    refine not_trichotomous hfloat hzero (num.unordered f _ hnan) ?_ (h (.num "0") trivial)
    intro (htext : s = normalText num (num.goFloat "0"))
    obtain ⟨g, hg, hgg, -⟩ := num.normal_parse _ (num.literal "0")
    rw [← htext, hs] at hg
    cases hg
    rw [hnan] at hgg
    cases hgg
  obtain ⟨g, hg, hgg, hfg⟩ := num.normal_parse f hff
  have hspelling : normalText num f = normalText num g := (num.normal_eq f g hff hgg).mpr hfg
  have hlt : num.lt f g = false ∧ num.lt g f = false := by
    rcases num.trichotomy f g hff hgg with ⟨-, -, h₃⟩ | ⟨-, -, h₃⟩ | ⟨h₁, h₂, -⟩
    · rw [hfg] at h₃
      cases h₃
    · rw [hfg] at h₃
      cases h₃
    · exact ⟨h₁, h₂⟩
  refine ⟨f, hs, hff, ?_⟩
  by_contra hne
  have hspelled : toFloat64 num (some (.str (normalText num f))) = some g := hg
  exact not_trichotomous hfloat hspelled hlt hne (h (.str (normalText num f)) ⟨g, hg, hgg, hspelling⟩)

variable (num)

/-- The operators are coherent on canonical values, and on no others: a value that can be
    compared is less than, equal to or greater than each canonical value, exactly one of the
    three, only if it is canonical itself. -/
theorem comparison_coherent_iff {a : Json} {f : num.Float} (ha : toFloat64 num (some a) = some f) :
    (∀ e g, toFloat64 num (some e) = some g →
      answer num "gte" a e = (answer num "lt" a e).map (! ·) ∧
      answer num "lte" a e = (answer num "gt" a e).map (! ·) ∧
      answer num "neq" a e = (answer num "eq" a e).map (! ·)) ∧
    ((∀ e, Canonical num e → Trichotomous num a e ∧ Trichotomous num e a) ↔
      Canonical num a) := by
  refine ⟨fun e g he => answer_complements ha he, ?_, ?_⟩
  · intro h
    cases a with
    | num l => trivial
    | str s => exact canonical_of_trichotomous ha (fun e he => (h e he).1)
    | null | bool _ | arr _ | obj _ => cases ha
  · exact fun hc e he => ⟨trichotomous_canonical hc he, trichotomous_canonical he hc⟩

end

/-! Whole numbers, and one more spelling of one. -/

namespace Whole

def parseWhole (s : String) : Option Int :=
  if toString (signed s.toList) = s then some (signed s.toList)
  else if s = "1.0" then some 1 else none

theorem parseWhole_toString (n : Int) : parseWhole (toString n) = some n := by
  simp only [parseWhole, signed_toString, ↓reduceIte]

theorem toString_word (n : Int) : ∀ c ∈ (toString n).toList, ¬ special c := by
  have hdigits : ∀ m : Nat, ∀ c ∈ (toString m).toList, ¬ special c := by
    rintro m c hc (rfl | rfl | rfl | rfl) <;> exact Text.not_mem_number (by decide) m hc
  cases n with
  | ofNat m => exact hdigits m
  | negSucc m =>
    intro c hc
    have hc : c ∈ ("-" ++ toString (m + 1)).toList := hc
    rw [String.toList_append] at hc
    rcases List.mem_append.mp hc with hc | hc
    · rw [List.mem_singleton.mp hc]
      decide
    · exact hdigits (m + 1) c hc

theorem parseWhole_word {s : String} {n : Int} (h : parseWhole s = some n) :
    s ≠ "" ∧ ∀ c ∈ s.toList, ¬ special c := by
  constructor
  · rintro rfl
    have hempty : parseWhole "" = none := by decide +kernel
    rw [hempty] at h
    cases h
  · unfold parseWhole at h
    split at h
    · next hs => exact hs ▸ toString_word _
    split at h
    · next hs =>
      subst hs
      simp [special]
    · cases h

def whole : Numbers where
  Float := Int
  lt := fun a b => decide (a < b)
  eq := fun a b => decide (a = b)
  goInRange := fun _ => true
  goFloat := fun literal => signed literal.toList
  goParse := parseWhole
  goInt := some
  goPrint := fun n => toString n
  goMarshal := fun n => toString n
  rustFloat := fun literal => signed literal.toList
  rustParse := parseWhole
  rustSame := sameNumber
  rustText := id

theorem toString_inj {f g : Int} : toString f = toString g ↔ f = g := by
  rw [Int.toString_eq_repr, Int.toString_eq_repr, Int.repr_inj]

def wholeNumbers : LawfulNumbers where
  toNumbers := whole
  trichotomy := by
    intro (f : Int) (g : Int) _ _
    show (decide (f < g) = true ∧ decide (g < f) = false ∧ decide (f = g) = false) ∨
      (decide (f < g) = false ∧ decide (g < f) = true ∧ decide (f = g) = false) ∨
      (decide (f < g) = false ∧ decide (g < f) = false ∧ decide (f = g) = true)
    simp only [decide_eq_true_eq, decide_eq_false_iff_not]
    omega
  unordered := fun (f : Int) _ h => absurd rfl (of_decide_eq_false (p := f = f) h)
  literal := fun l => decide_eq_true (p := signed l.toList = signed l.toList) rfl
  normal_eq := fun (f : Int) (g : Int) _ _ => toString_inj.trans (decide_eq_true_iff (p := f = g)).symm
  normal_parse := fun (f : Int) _ =>
    ⟨f, parseWhole_toString f, decide_eq_true (p := f = f) rfl, decide_eq_true (p := f = f) rfl⟩
  print_parse := fun (f : Int) _ => Option.isSome_iff_exists.mpr ⟨f, parseWhole_toString f⟩
  print_inj := fun (f : Int) (g : Int) _ _ h => decide_eq_true (p := f = g) (toString_inj.mp h)
  print_eq := fun (f : Int) (g : Int) h _ _ => toString_inj.mpr (of_decide_eq_true (p := f = g) h)
  parse_word := fun s f h => parseWhole_word h
  parse_name := by decide +kernel

def part : Json := .obj [("k", .num "1")]

def basket : Json := .arr [.str "x", part]

theorem basket_plain : plain whole part ∧ plain whole basket := by
  have hx : plainString whole "x" := ⟨by decide, by simp [special], by decide +kernel, by decide, by decide, by decide⟩
  have hone : toString (1 : Int) ≠ "-0" := by decide +kernel
  have hpart : plain whole part := ⟨⟨by simp [special], hone⟩, trivial⟩
  exact ⟨hpart, hx, hpart, trivial⟩

end Whole

open Whole

theorem structured_eq_basket :
    evaluateLeafValue whole "eq" basket.nonNull part.nonNull = .ok false ∧
    evaluateLeafValue whole "in" part.nonNull basket.nonNull = .ok true := by
  obtain ⟨hpart, hbasket⟩ := basket_plain
  refine ⟨(structured_eq wholeNumbers hbasket hpart).1.trans (congrArg Except.ok ?_),
    (structured_eq wholeNumbers hpart hbasket).2.2.trans (congrArg Except.ok ?_)⟩
  · simp [sameValue, basket, part, same]
  · simp [hasValue, sameValue, basket, part, same, sameMembers, sameMember, wholeNumbers, whole]

/-- One string with a blank in it and two strings are printed alike. -/
theorem blank_taken_apart :
    evaluateLeafValue whole "eq" (some (.arr [.str "a b"])) (some (.arr [.str "a", .str "b"])) = .ok true ∧
    sameValue whole (.arr [.str "a b"]) (.arr [.str "a", .str "b"]) = false := by
  refine ⟨congrArg Except.ok ?_, ?_⟩
  · decide +kernel
  · simp [sameValue, same, sameItems]

theorem comparison_coherent_seven :
    Trichotomous whole (.str "7") (.num "8") ∧ Trichotomous whole (.num "8") (.str "7") := by
  have hseven : parseWhole "7" = some 7 := by decide +kernel
  have hfloat : toFloat64 wholeNumbers.toNumbers (some (.str "7")) = some (7 : Int) := hseven
  have htext : "7" = toString (7 : Int) := by decide +kernel
  have hcanonical : Canonical wholeNumbers.toNumbers (.str "7") := ⟨(7 : Int), hseven, rfl, htext⟩
  exact (comparison_coherent_iff wholeNumbers hfloat).2.mpr hcanonical (.num "8") trivial

/-- The string 1.0 is neither less than, equal to nor greater than the number 1. -/
theorem decimal_spelling_apart :
    answer whole "lt" (.str "1.0") (.num "1") = .ok false ∧ answer whole "eq" (.str "1.0") (.num "1") = .ok false ∧
    answer whole "gt" (.str "1.0") (.num "1") = .ok false := by
  decide +kernel

end FlowRule
