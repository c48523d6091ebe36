import FlowRule.Lib.Text

/- Words written one after the other with nothing between them. Two pairs of texts that
   are the same together differ by a part that moves from one to the other
   (`append_eq_iff`). Words can be read back where none of them begins with another
   (`spell_inj`). Fields that are joined with a separator, which may stand in a field too, can be
   read back where each of them has as many words (`join_inj`). -/
namespace Text

def spell (words : List String) : String := words.foldr (· ++ ·) ""

@[simp] theorem spell_nil : spell [] = "" := rfl

@[simp] theorem spell_cons (w : String) (ws : List String) : spell (w :: ws) = w ++ spell ws := rfl

theorem spell_append (vs ws : List String) : spell (vs ++ ws) = spell vs ++ spell ws := by
  induction vs with
  | nil => simp
  | cons v vs ih => simp only [List.cons_append, spell_cons, ih, String.append_assoc]

theorem foldl_spell {α : Type} (f : α → String) (xs : List α) (start : String) :
    xs.foldl (fun text x => text ++ f x) start = start ++ spell (xs.map f) := by
  induction xs generalizing start with
  | nil => simp
  | cons x xs ih => simp only [List.foldl_cons, ih, List.map_cons, spell_cons, String.append_assoc]

theorem append_eq_iff {a b c d : String} :
    a ++ b = c ++ d ↔ (∃ s, c = a ++ s ∧ b = s ++ d) ∨ (∃ s, a = c ++ s ∧ d = s ++ b) := by
  constructor
  · intro h
    have hlist : a.toList ++ b.toList = c.toList ++ d.toList := by simpa using congrArg String.toList h
    rcases List.append_eq_append_iff.mp hlist with ⟨s, hc, hb⟩ | ⟨s, ha, hd⟩
    · refine .inl ⟨String.ofList s, ?_, ?_⟩ <;> apply String.toList_inj.mp <;> simpa
    · refine .inr ⟨String.ofList s, ?_, ?_⟩ <;> apply String.toList_inj.mp <;> simpa
  · rintro (⟨s, rfl, rfl⟩ | ⟨s, rfl, rfl⟩)
    · exact String.append_assoc.symm
    · exact String.append_assoc

structure Code (word : String → Prop) : Prop where
  nonempty : ¬ word ""
  free : ∀ {v w s : String}, word v → word w → w = v ++ s → s = ""

/-- The first words are the same, for one of them begins with the other. -/
theorem spell_inj {word : String → Prop} (hcode : Code word) {vs ws : List String} (hvs : ∀ v ∈ vs, word v)
    (hws : ∀ w ∈ ws, word w) (h : spell vs = spell ws) : vs = ws := by
  induction vs generalizing ws with
  | nil =>
    cases ws with
    | nil => rfl
    | cons w ws =>
      have hempty : w = "" := by
        have hspelt : w ++ spell ws = "" := h.symm
        exact (String.append_eq_empty_iff.mp hspelt).1
      exact absurd (hws w (by simp)) (hempty ▸ hcode.nonempty)
  | cons v vs ih =>
    cases ws with
    | nil =>
      have hempty : v = "" := (String.append_eq_empty_iff.mp (show v ++ spell vs = "" from h)).1
      exact absurd (hvs v (by simp)) (hempty ▸ hcode.nonempty)
    | cons w ws =>
      have hv := hvs v (by simp)
      have hw := hws w (by simp)
      have hrest : v = w ∧ spell vs = spell ws := by
        rw [spell_cons, spell_cons] at h
        rcases append_eq_iff.mp h with ⟨s, hs, hr⟩ | ⟨s, hs, hr⟩
        · obtain rfl := hcode.free hv hw hs
          exact ⟨by simpa using hs.symm, by simpa using hr⟩
        · obtain rfl := hcode.free hw hv hs
          exact ⟨by simpa using hs, by simpa using hr.symm⟩
      rw [hrest.1, ih (fun x hx => hvs x (by simp [hx])) (fun x hx => hws x (by simp [hx])) hrest.2]

/-! Fields joined with a separator that may stand in a field too. -/

/-- The words of a text between the separators. -/
def words (c : Char) (s : String) : List (List Char) := s.toList.splitOn c

theorem words_injective (c : Char) : Function.Injective (words c) := by
  intro s t h
  have hjoin := congrArg (List.intercalate [c]) h
  simp only [words, List.intercalate_splitOn] at hjoin
  exact String.toList_inj.mp hjoin

/-- The words of joined fields are those of the fields. -/
theorem words_join (c : Char) {fs : List String} (hne : fs ≠ []) :
    words c ((String.singleton c).intercalate fs) = fs.flatMap (words c) := by
  induction fs with
  | nil => exact absurd rfl hne
  | cons f fs ih =>
    cases fs with
    | nil => simp
    | cons g gs =>
      rw [String.intercalate_cons_cons, List.flatMap_cons, ← ih (by simp)]
      simp [words, List.splitOn, List.splitOnP_append_cons]

theorem flatMap_inj_of_length {α β : Type} {f : α → List β} (hf : Function.Injective f) {xs ys : List α}
    (hlen : xs.map (fun x => (f x).length) = ys.map (fun y => (f y).length)) (h : xs.flatMap f = ys.flatMap f) :
    xs = ys := by
  induction xs generalizing ys with
  | nil => simpa using hlen.symm
  | cons x xs ih =>
    cases ys with
    | nil => simp at hlen
    | cons y ys =>
      simp only [List.map_cons, List.cons.injEq] at hlen
      obtain ⟨hx, hxs⟩ := List.append_inj h hlen.1
      rw [hf hx, ih hlen.2 hxs]

/-- Joined fields can be read back where each has as many words in the one list as in the other. -/
theorem join_inj {c : Char} {fs gs : List String}
    (hlen : fs.map (fun f => (words c f).length) = gs.map (fun g => (words c g).length))
    (h : (String.singleton c).intercalate fs = (String.singleton c).intercalate gs) : fs = gs := by
  by_cases hf : fs = []
  · rw [hf] at hlen ⊢
    simpa using hlen.symm
  have hg : gs ≠ [] := by
    rintro rfl
    exact hf (by simpa using hlen)
  apply flatMap_inj_of_length (words_injective c) hlen
  rw [← words_join c hf, ← words_join c hg, h]

end Text
