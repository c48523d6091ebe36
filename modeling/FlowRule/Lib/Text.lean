import FlowRule.Lib.Assoc
import Mathlib

/- Texts that are built from fields and then hashed. A field with its byte length in front can be
   read back whatever follows it (`prefixed_append_inj`), one with only a separator behind it
   when it does not contain the separator (`separated_append_inj`), a number behind any
   character that is no digit from the end (`number_after_inj`), and a list when every member
   can be read back from what may follow it (`joined_inj`).

   `digest` is an injective stand-in for a hash function that gives listed texts their listed
   digests, so that a run on concrete texts can be evaluated. -/
namespace Text

def prefixed (s : String) : String := toString s.utf8ByteSize ++ ":" ++ s

variable {α : Type} {c : Char} {s t a b : String}

theorem word_append_inj {stop : α → Prop} : ∀ {l m a b : List α}, (∀ c ∈ l, ¬ stop c) →
    (∀ c ∈ m, ¬ stop c) → (∀ c ∈ a.head?, stop c) → (∀ c ∈ b.head?, stop c) → l ++ a = m ++ b → l = m ∧ a = b
  | [], [], a, b, _, _, _, _, h => ⟨rfl, h⟩
  | [], x :: m, a, b, _, hm, ha, _, h => by
    have hx : stop x := ha x (by rw [List.nil_append] at h; simp [h])
    exact absurd hx (hm x List.mem_cons_self)
  | x :: l, [], a, b, hl, _, _, hb, h => by
    have hx : stop x := hb x (by rw [List.nil_append] at h; simp [← h])
    exact absurd hx (hl x List.mem_cons_self)
  | x :: l, y :: m, a, b, hl, hm, ha, hb, h => by
    simp only [List.cons_append, List.cons.injEq] at h
    obtain ⟨rfl, h⟩ := h
    obtain ⟨rfl, rfl⟩ := word_append_inj (fun c hc => hl c (List.mem_cons_of_mem _ hc))
      (fun c hc => hm c (List.mem_cons_of_mem _ hc)) ha hb h
    exact ⟨rfl, rfl⟩

theorem split_at_inj {c : α} {l m a b : List α} (hl : c ∉ l) (hm : c ∉ m)
    (h : l ++ c :: a = m ++ c :: b) : l = m ∧ a = b := by
  have hword : ∀ {w : List α}, c ∉ w → ∀ x ∈ w, ¬ x = c := fun hw x hx hxc => hw (hxc ▸ hx)
  have hstop : ∀ {r : List α}, ∀ x ∈ (c :: r).head?, x = c := fun x hx => (Option.some.inj hx).symm
  obtain ⟨hsame, htail⟩ := word_append_inj (hword hl) (hword hm) hstop hstop h
  exact ⟨hsame, List.cons_inj_right c |>.mp htail⟩

theorem split_last_inj {c : α} {l m a b : List α} (ha : c ∉ a) (hb : c ∉ b)
    (h : l ++ c :: a = m ++ c :: b) : l = m ∧ a = b := by
  have hrev := congrArg List.reverse h
  simp only [List.reverse_append, List.reverse_cons, List.append_assoc, List.singleton_append] at hrev
  have hends := split_at_inj (fun hc => ha (List.mem_reverse.mp hc)) (fun hc => hb (List.mem_reverse.mp hc)) hrev
  exact ⟨List.reverse_inj.mp hends.2, List.reverse_inj.mp hends.1⟩

/-- Fields without the separator `c` are read back from what they begin. -/
theorem separated_append_inj (hs : c ∉ s.toList) (ht : c ∉ t.toList)
    (h : s ++ String.singleton c ++ a = t ++ String.singleton c ++ b) : s = t ∧ a = b := by
  have hl := congrArg String.toList h
  simp only [String.toList_append, String.toList_singleton, List.append_assoc,
    List.singleton_append] at hl
  obtain ⟨h₁, h₂⟩ := split_at_inj hs ht hl
  exact ⟨String.toList_inj.mp h₁, String.toList_inj.mp h₂⟩

/-- Two lists with a `c` somewhere in them are the same when they are cut at the same place,
    or when what stands between the two cuts is moved from the end of one to the other. -/
theorem cut_eq_iff {c : α} {l m a b : List α} :
    l ++ c :: a = m ++ c :: b ↔ (l = m ∧ a = b) ∨ (∃ u, m = l ++ c :: u ∧ a = u ++ c :: b) ∨
      ∃ u, l = m ++ c :: u ∧ b = u ++ c :: a := by
  constructor
  · intro h
    rcases List.append_eq_append_iff.mp h with ⟨u, hm, ha⟩ | ⟨u, hl, hb⟩
    · cases u with
      | nil => exact Or.inl ⟨by simpa using hm.symm, by simpa using ha⟩
      | cons x u =>
        obtain ⟨rfl, hrest⟩ := List.cons.inj ha
        exact Or.inr (Or.inl ⟨u, hm, hrest⟩)
    · cases u with
      | nil => exact Or.inl ⟨by simpa using hl, by simpa using hb.symm⟩
      | cons x u =>
        obtain ⟨rfl, hrest⟩ := List.cons.inj hb
        exact Or.inr (Or.inr ⟨u, hl, hrest⟩)
  · rintro (⟨rfl, rfl⟩ | ⟨u, rfl, rfl⟩ | ⟨u, rfl, rfl⟩)
    · rfl
    · simp
    · simp

/-- Two fields with a separator between them, and the first of them in another pair goes one
    or more separators further. -/
def Moved (c : Char) (s a t b : String) : Prop :=
  ∃ u, t = s ++ String.singleton c ++ u ∧ a = u ++ String.singleton c ++ b

/-- Pairs that are joined with a separator give the same text exactly when they are the same
    or a part of one field was moved to the other. -/
theorem joined_eq_iff :
    s ++ String.singleton c ++ a = t ++ String.singleton c ++ b ↔
      (s = t ∧ a = b) ∨ Moved c s a t b ∨ Moved c t b s a := by
  have hlift : ∀ {s a t b : String}, Moved c s a t b ↔
      ∃ u : List Char, t.toList = s.toList ++ c :: u ∧ a.toList = u ++ c :: b.toList := by
    intro s a t b
    constructor
    · rintro ⟨u, rfl, rfl⟩
      exact ⟨u.toList, by simp, by simp⟩
    · rintro ⟨u, ht, ha⟩
      exact ⟨String.ofList u, String.toList_inj.mp (by simp [ht]), String.toList_inj.mp (by simp [ha])⟩
  have hsame : (s = t ∧ a = b) ↔ (s.toList = t.toList ∧ a.toList = b.toList) := by
    rw [String.toList_inj, String.toList_inj]
  rw [← String.toList_inj, hlift, hlift, hsame, ← cut_eq_iff]
  simp

/-! Lists that are written with a separator between the members and a close behind them. -/

section
variable {α β : Type} {sep close : α} {f : β → List α} {R : β → β → Prop}

def Follows (sep close : α) (s : List α) : Prop := ∀ c ∈ s.head?, c = sep ∨ c = close

theorem follows_rest (xs : List β) (r : List α) :
    Follows sep close (xs.flatMap (fun x => sep :: f x) ++ close :: r) := by
  cases xs with
  | nil | cons x xs => simp [Follows]

theorem joined_cons (x : β) (xs : List β) :
    [sep].intercalate ((x :: xs).map f) = f x ++ xs.flatMap (fun y => sep :: f y) := by
  induction xs generalizing x with
  | nil => simp
  | cons y ys ih =>
    rw [List.map_cons, List.map_cons, List.intercalate_cons_cons, ← List.map_cons, ih y]
    simp

theorem rest_inj (hne : sep ≠ close) : ∀ {xs ys : List β} {r r' : List α},
    (∀ x ∈ xs, ∀ y ∈ ys, ∀ s s', Follows sep close s → Follows sep close s' → f x ++ s = f y ++ s' →
      R x y ∧ s = s') →
    xs.flatMap (fun x => sep :: f x) ++ close :: r = ys.flatMap (fun y => sep :: f y) ++ close :: r' →
    List.Forall₂ R xs ys ∧ r = r'
  | [], [], r, r', _, h => ⟨.nil, by simpa using h⟩
  | [], y :: ys, r, r', _, h => by simp [Ne.symm hne] at h
  | x :: xs, [], r, r', _, h => by simp [hne] at h
  | x :: xs, y :: ys, r, r', hread, h => by
    simp only [List.flatMap_cons, List.cons_append, List.append_assoc, List.cons.injEq, true_and] at h
    obtain ⟨hxy, hrest⟩ := hread x List.mem_cons_self y List.mem_cons_self _ _ (follows_rest xs r)
      (follows_rest ys r') h
    obtain ⟨hall, hr⟩ := rest_inj hne (fun x hx y hy => hread x (List.mem_cons_of_mem _ hx) y
      (List.mem_cons_of_mem _ hy)) hrest
    exact ⟨.cons hxy hall, hr⟩

/-- Two written lists agree member by member, when a member can also be told from the
    close. -/
theorem joined_inj (hne : sep ≠ close) {xs ys : List β} {r r' : List α}
    (hread : ∀ x ∈ xs, ∀ y ∈ ys, ∀ s s', Follows sep close s → Follows sep close s' → f x ++ s = f y ++ s' →
      R x y ∧ s = s')
    (hx : ∀ x ∈ xs, ∀ s, (f x ++ s).head? ≠ some close) (hy : ∀ y ∈ ys, ∀ s, (f y ++ s).head? ≠ some close)
    (h : [sep].intercalate (xs.map f) ++ close :: r = [sep].intercalate (ys.map f) ++ close :: r') :
    List.Forall₂ R xs ys ∧ r = r' := by
  cases xs with
  | nil =>
    cases ys with
    | nil => exact ⟨.nil, by simpa using h⟩
    | cons y ys =>
      rw [joined_cons, List.append_assoc] at h
      exact absurd (congrArg List.head? h.symm) (hy y List.mem_cons_self _)
  | cons x xs =>
    cases ys with
    | nil =>
      rw [joined_cons, List.append_assoc] at h
      exact absurd (congrArg List.head? h) (hx x List.mem_cons_self _)
    | cons y ys =>
      rw [joined_cons, joined_cons] at h
      exact rest_inj hne hread (congrArg (List.cons sep) h)

end

theorem not_mem_number (hc : c.isDigit = false) (n : Nat) : c ∉ (toString n).toList := by
  rw [Nat.toString_eq_repr, Nat.repr_eq_ofList_toDigits, String.toList_ofList]
  intro h
  have hd := Nat.isDigit_of_mem_toDigits (by decide) (by decide) h
  rw [hc] at hd
  cases hd

/-- A number behind a character that is no digit is read back from the end, whatever stands
    before it. -/
theorem number_after_inj (hc : c.isDigit = false) {n m : Nat}
    (h : s ++ String.singleton c ++ toString n = t ++ String.singleton c ++ toString m) : s = t ∧ n = m := by
  have hl := congrArg String.toList h
  simp only [String.toList_append, String.toList_singleton, List.append_assoc, List.singleton_append] at hl
  obtain ⟨hst, hnm⟩ := split_last_inj (not_mem_number hc n) (not_mem_number hc m) hl
  have htext : toString n = toString m := String.toList_inj.mp hnm
  rw [Nat.toString_eq_repr, Nat.toString_eq_repr, Nat.repr_inj] at htext
  exact ⟨String.toList_inj.mp hst, htext⟩

theorem eq_empty_of_size {u : String} (h : t = s ++ u) (hn : s.utf8ByteSize = t.utf8ByteSize) : u = "" := by
  rw [h, String.utf8ByteSize_append] at hn
  exact String.utf8ByteSize_eq_zero_iff.mp (by omega)

theorem append_inj_of_size (hn : s.utf8ByteSize = t.utf8ByteSize) (h : s ++ a = t ++ b) : s = t ∧ a = b := by
  have hl := congrArg String.toList h
  simp only [String.toList_append] at hl
  rcases List.append_eq_append_iff.mp hl with ⟨c, ht, ha⟩ | ⟨c, hs, hb⟩
  · have htc : t = s ++ String.ofList c := by
      rw [← String.toList_inj, ht]
      simp
    have hc := congrArg String.toList (eq_empty_of_size htc hn)
    simp only [String.toList_ofList, String.toList_empty] at hc
    subst hc
    exact ⟨String.toList_inj.mp (by simpa using ht.symm), String.toList_inj.mp (by simpa using ha)⟩
  · have hsc : s = t ++ String.ofList c := by
      rw [← String.toList_inj, hs]
      simp
    have hc := congrArg String.toList (eq_empty_of_size hsc hn.symm)
    simp only [String.toList_ofList, String.toList_empty] at hc
    subst hc
    exact ⟨String.toList_inj.mp (by simpa using hs), String.toList_inj.mp (by simpa using hb.symm)⟩

/-- A field with its length in front is read back from whatever it begins. -/
theorem prefixed_append_inj (h : prefixed s ++ a = prefixed t ++ b) : s = t ∧ a = b := by
  have h' : toString s.utf8ByteSize ++ String.singleton ':' ++ (s ++ a)
      = toString t.utf8ByteSize ++ String.singleton ':' ++ (t ++ b) := by
    simpa [prefixed, String.append_assoc] using h
  obtain ⟨hn, hr⟩ := separated_append_inj (not_mem_number (by decide) _) (not_mem_number (by decide) _) h'
  rw [Nat.toString_eq_repr, Nat.toString_eq_repr, Nat.repr_inj] at hn
  exact append_inj_of_size hn hr

/-! Bytes. -/

/-- The text in UTF-8. -/
def bytes (s : String) : List UInt8 := s.toList.flatMap String.utf8EncodeChar

theorem bytes_inj (h : bytes s = bytes t) : s = t := by
  have hb : s.toList.utf8Encode = t.toList.utf8Encode := congrArg List.toByteArray h
  rw [String.utf8Encode_toList, String.utf8Encode_toList] at hb
  exact String.toByteArray_inj.mp hb

theorem utf8EncodeChar_ascii {b : UInt8} (h : b ∈ String.utf8EncodeChar c) (hb : b.toNat < 128) :
    c.toNat = b.toNat ∧ String.utf8EncodeChar c = [b] := by
  -- every byte of a longer code is at least 128
  have hhigh : ∀ n, n < 128 → (UInt8.ofNat (n + 128)).toNat < 128 → False := by
    intro n hn hlt
    rw [UInt8.toNat_ofNat', Nat.mod_eq_of_lt (by omega)] at hlt
    omega
  unfold String.utf8EncodeChar at h ⊢
  simp only at h ⊢
  split_ifs at h ⊢ with h₁ h₂ h₃
  · obtain rfl := List.mem_singleton.mp h
    refine ⟨?_, rfl⟩
    rw [UInt8.toNat_ofNat', Nat.mod_eq_of_lt (by omega)]
    rfl
  all_goals
    exfalso
    simp only [List.mem_cons, List.not_mem_nil, or_false] at h
  · rcases h with rfl | rfl
    · exact hhigh (c.val.toNat / 64 % 32 + 64) (by omega) hb
    · exact hhigh (c.val.toNat % 64) (by omega) hb
  · rcases h with rfl | rfl | rfl
    · exact hhigh (c.val.toNat / 4096 % 16 + 96) (by omega) hb
    · exact hhigh (c.val.toNat / 64 % 64) (by omega) hb
    · exact hhigh (c.val.toNat % 64) (by omega) hb
  · rcases h with rfl | rfl | rfl | rfl
    · exact hhigh (c.val.toNat / 262144 % 8 + 112) (by omega) hb
    · exact hhigh (c.val.toNat / 4096 % 64) (by omega) hb
    · exact hhigh (c.val.toNat / 64 % 64) (by omega) hb
    · exact hhigh (c.val.toNat % 64) (by omega) hb

theorem bytes_map {f : Char → Char} {g : UInt8 → UInt8}
    (h : ∀ c, String.utf8EncodeChar (f c) = (String.utf8EncodeChar c).map g) (s : String) :
    bytes (s.map f) = (bytes s).map g := by
  unfold bytes
  rw [String.toList_map, List.flatMap_map, List.map_flatMap]
  simp only [h]

theorem dash_not_mem_number (n : Nat) : (45 : UInt8) ∉ bytes (toString n) := by
  rw [Nat.toString_eq_repr, Nat.repr_eq_ofList_toDigits]
  intro h
  obtain ⟨c, hc, hd⟩ := List.mem_flatMap.mp h
  rw [String.toList_ofList] at hc
  have hdigit := Nat.isDigit_of_mem_toDigits (by decide) (by decide) hc
  simp only [Char.isDigit, Bool.and_eq_true, decide_eq_true_eq] at hdigit
  have h₁ : 48 ≤ c.val.toNat := UInt32.le_iff_toNat_le.mp hdigit.1
  have h₂ : c.val.toNat ≤ 57 := UInt32.le_iff_toNat_le.mp hdigit.2
  have hsize : c.utf8Size = 1 := by
    have hle : c.val ≤ 127 := UInt32.le_iff_toNat_le.mpr (show c.val.toNat ≤ 127 by omega)
    simp [Char.utf8Size, hle]
  rw [String.utf8EncodeChar_eq_singleton hsize, List.mem_singleton] at hd
  have hval : (45 : UInt8).toNat = c.val.toNat % 256 := congrArg UInt8.toNat hd
  have h45 : (45 : UInt8).toNat = 45 := rfl
  omega

theorem numbered_inj {a b : List UInt8} {n m : Nat}
    (h : a ++ 45 :: bytes (toString n) = b ++ 45 :: bytes (toString m)) : n = m := by
  have hdigits := (split_last_inj (dash_not_mem_number n) (dash_not_mem_number m) h).2
  have htext : toString n = toString m := bytes_inj hdigits
  rwa [Nat.toString_eq_repr, Nat.toString_eq_repr, Nat.repr_inj] at htext

/-! Words between separators. -/

def isSpace (c : Char) : Bool :=
  let n := c.toNat
  (9 ≤ n && n ≤ 13) || n == 0x20 || n == 0x85 || n == 0xA0 || n == 0x1680 || (0x2000 ≤ n && n ≤ 0x200A) ||
    n == 0x2028 || n == 0x2029 || n == 0x202F || n == 0x205F || n == 0x3000

def trimSpace (s : String) : String :=
  String.ofList ((s.toList.dropWhile isSpace).reverse.dropWhile isSpace).reverse

theorem trimSpace_ne_empty (hc : c ∈ s.toList) (hs : isSpace c = false) : trimSpace s ≠ "" := by
  intro h
  have hnil : ((s.toList.dropWhile isSpace).reverse.dropWhile isSpace).reverse = [] := by
    have hlist := congrArg String.toList h
    rwa [trimSpace, String.toList_ofList] at hlist
  rw [List.reverse_eq_nil_iff, List.dropWhile_eq_nil_iff] at hnil
  rw [← List.takeWhile_append_dropWhile (p := isSpace) (l := s.toList)] at hc
  rcases List.mem_append.mp hc with htake | hdrop
  · rw [List.mem_takeWhile_imp htake] at hs
    cases hs
  · rw [hnil c (List.mem_reverse.mpr hdrop)] at hs
    cases hs

/-! Base64, with padding. -/

def base64Value (c : Char) : Option Nat :=
  if 'A' ≤ c ∧ c ≤ 'Z' then some (c.toNat - 'A'.toNat)
  else if 'a' ≤ c ∧ c ≤ 'z' then some (c.toNat - 'a'.toNat + 26)
  else if '0' ≤ c ∧ c ≤ '9' then some (c.toNat - '0'.toNat + 52)
  else if c = '+' then some 62
  else if c = '/' then some 63
  else none

/-- The bytes of four characters at a time; the bits that the padding leaves over are dropped. -/
def base64Quanta : List Char → Option (List UInt8)
  | [] => some []
  | [a, b, '=', '='] => do
    let x ← base64Value a
    let y ← base64Value b
    pure [UInt8.ofNat (x * 4 + y / 16)]
  | [a, b, c, '='] => do
    let x ← base64Value a
    let y ← base64Value b
    let z ← base64Value c
    pure [UInt8.ofNat (x * 4 + y / 16), UInt8.ofNat (y % 16 * 16 + z / 4)]
  | a :: b :: c :: d :: rest => do
    let x ← base64Value a
    let y ← base64Value b
    let z ← base64Value c
    let w ← base64Value d
    let bytes ← base64Quanta rest
    pure (UInt8.ofNat (x * 4 + y / 16) :: UInt8.ofNat (y % 16 * 16 + z / 4) :: UInt8.ofNat (z % 4 * 64 + w) :: bytes)
  | _ => none

def base64Decode (s : String) : Option (List UInt8) :=
  base64Quanta (s.toList.filter (fun c => c ≠ '\n' ∧ c ≠ '\r'))

example : base64Decode "eyJhIjox\nfQ==" = some (bytes "\x7b\"a\":1\x7d") := by decide

theorem base64Quanta_length {cs : List Char} {bytes : List UInt8} (h : base64Quanta cs = some bytes) :
    bytes.length ≤ cs.length := by
  induction cs using base64Quanta.induct generalizing bytes with
  | case1 =>
    cases h
    exact Nat.le_refl _
  | case2 a b =>
    simp only [base64Quanta, Option.bind_eq_bind, Option.bind_eq_some_iff, Option.pure_def] at h
    obtain ⟨x, -, y, -, h⟩ := h
    cases h
    simp
  | case3 a b c hpad =>
    simp only [base64Quanta, Option.bind_eq_bind, Option.bind_eq_some_iff, Option.pure_def] at h
    obtain ⟨x, -, y, -, z, -, h⟩ := h
    cases h
    simp
  | case4 a b c d rest hpad hpad' ih =>
    simp only [base64Quanta, Option.bind_eq_bind, Option.bind_eq_some_iff, Option.pure_def] at h
    obtain ⟨x, -, y, -, z, -, w, -, more, hmore, h⟩ := h
    cases h
    have hrest := ih hmore
    simp only [List.length_cons]
    omega
  | case5 cs hnil hpad hpad' hquad =>
    simp only [base64Quanta] at h
    cases h

/-- A text has more characters than bytes are encoded in it. -/
theorem base64Decode_length {bytes : List UInt8} (h : base64Decode s = some bytes) : bytes.length ≤ s.length := by
  calc bytes.length
      ≤ (s.toList.filter (fun c => c ≠ '\n' ∧ c ≠ '\r')).length := base64Quanta_length h
    _ ≤ s.toList.length := List.length_filter_le _ _
    _ = s.length := String.length_toList

/-! Texts that are put together in a loop. -/

theorem foldl_append_inj {f : α → String} : ∀ (xs : List α) {a b : String},
    xs.foldl (fun h x => h ++ f x) a = xs.foldl (fun h x => h ++ f x) b → a = b
  | [], _, _, h => h
  | _ :: rest, _, _, h => (String.append_left_inj _).mp (foldl_append_inj rest h)

/-! A hash function with known values. -/

/-- The listed digest of a listed text, and otherwise the text itself, marked. -/
def digest (known : List (String × String)) (s : String) : String :=
  match known.lookup s with
  | some d => d
  | none => "#" ++ s

/-- Different listed digests, none of them marked, make an injective function. -/
theorem digest_injective {known : List (String × String)} (hd : ∀ p ∈ known, ∀ q ∈ known, p.2 = q.2 → p.1 = q.1)
    (hm : ∀ p ∈ known, p.2.toList.head? ≠ some '#') : Function.Injective (digest known) := by
  have hmark : ∀ p ∈ known, ∀ s : String, p.2 ≠ "#" ++ s := by
    intro p hp s he
    exact hm p hp (by rw [he]; simp)
  intro s t h
  unfold digest at h
  cases hs : known.lookup s with
  | some d =>
    cases ht : known.lookup t with
    | some e =>
      rw [hs, ht] at h
      exact hd _ (Assoc.mem_of_lookup hs) _ (Assoc.mem_of_lookup ht) h
    | none =>
      rw [hs, ht] at h
      exact absurd h (hmark _ (Assoc.mem_of_lookup hs) t)
  | none =>
    cases ht : known.lookup t with
    | some e =>
      rw [hs, ht] at h
      exact absurd h.symm (hmark _ (Assoc.mem_of_lookup ht) s)
    | none =>
      rw [hs, ht] at h
      have hl := congrArg String.toList h
      simp only [String.toList_append] at hl
      exact String.toList_inj.mp (List.append_cancel_left hl)

end Text
