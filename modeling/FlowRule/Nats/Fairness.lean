import FlowRule.Lib.Cyclic
import FlowRule.Nats.Consumer
import Mathlib.Data.Prod.Lex
import Mathlib.Data.String.Basic

/- Fair fetching (selectFetchConsumers, matchingConsumerKeys and fetchSelectedConsumers of
   internal/adapters/nats/jetstream.go). The keys that a call may ask are sorted, so as long as
   they stay the same, the calls' windows are places of one list (`matchingConsumerKeys_eq`).
   Main result: `fetchShards_fair`, for calls between which the map may change in any way that
   leaves these keys what they are. -/
namespace FlowRule.Nats

/-! The order of keys. -/

def ConsumerKey.rank (key : ConsumerKey) : Nat ×ₗ String ×ₗ String :=
  toLex (key.shard, toLex (key.baseSubject, key.ruleSet))

theorem ConsumerKey.rank_injective : Function.Injective ConsumerKey.rank := by
  rintro ⟨base, ruleSet, shard⟩ ⟨base', ruleSet', shard'⟩ h
  simp only [ConsumerKey.rank, toLex_inj, Prod.mk.injEq] at h
  obtain ⟨rfl, rfl, rfl⟩ := h
  rfl

theorem keyLe_iff {a b : ConsumerKey} : Consumer.keyLe a b = true ↔ a.rank ≤ b.rank := by
  unfold Consumer.keyLe ConsumerKey.rank
  rw [Prod.Lex.toLex_le_toLex, Prod.Lex.toLex_le_toLex]
  dsimp only
  split_ifs with hshard hbase
  · simp [hshard]
  · push Not at hshard
    simp [hshard, hbase]
  · push Not at hshard hbase
    simp [hshard, hbase]

instance : Std.Total (fun a b : ConsumerKey => Consumer.keyLe a b = true) :=
  ⟨fun a b => by simpa only [keyLe_iff] using le_total a.rank b.rank⟩

instance : IsTrans ConsumerKey (fun a b => Consumer.keyLe a b = true) :=
  ⟨fun a b c => by simpa only [keyLe_iff] using le_trans⟩

theorem mem_matchingConsumerKeys {c : Consumer} {shards : List Nat} {key : ConsumerKey} :
    key ∈ matchingConsumerKeys c shards ↔ key ∈ c.keys ∧ key.shard ∈ shards := by
  simp [matchingConsumerKeys]

theorem matchingConsumerKeys_nodup {c : Consumer} (hc : c.keys.Nodup) (shards : List Nat) :
    (matchingConsumerKeys c shards).Nodup :=
  (List.perm_insertionSort _ _).nodup_iff.mpr (hc.filter _)

/-- The sorted list depends on the set of matching keys only. -/
theorem matchingConsumerKeys_eq {c c' : Consumer} {shards shards' : List Nat} (hc : c.keys.Nodup) (hc' : c'.keys.Nodup)
    (hsame : ∀ key, key ∈ matchingConsumerKeys c shards ↔ key ∈ matchingConsumerKeys c' shards') :
    matchingConsumerKeys c shards = matchingConsumerKeys c' shards' := by
  have hperm := (List.perm_ext_iff_of_nodup (matchingConsumerKeys_nodup hc shards)
    (matchingConsumerKeys_nodup hc' shards')).mpr hsame
  apply List.Perm.eq_of_pairwise _ (List.pairwise_insertionSort _ _) (List.pairwise_insertionSort _ _) hperm
  intro a b _ _ hab hba
  rw [keyLe_iff] at hab hba
  exact ConsumerKey.rank_injective (le_antisymm hab hba)

/-! One call. -/

/-- The keys that a call asks, with the number of messages it asks each for. -/
def asked (c : Consumer) (maxMessages : Nat) (shards : List Nat) : List (ConsumerKey × Nat) :=
  let selected := (selectFetchConsumers c maxMessages shards).2.map Prod.fst
  selected.zip (budgets maxMessages selected.length)

section
variable {c : Consumer} {maxMessages : Nat} {shards : List Nat}

/-- The selected keys are at the places of a window of the sorted list. -/
theorem selected_eq (hne : matchingConsumerKeys c shards ≠ []) :
    (selectFetchConsumers c maxMessages shards).2.map Prod.fst =
      (Cyclic.window (matchingConsumerKeys c shards).length
        (c.fetchCursor % (matchingConsumerKeys c shards).length)
        (min (matchingConsumerKeys c shards).length maxMessages)).filterMap
          (fun p => (matchingConsumerKeys c shards)[p]?) := by
  have hlen : ¬ (matchingConsumerKeys c shards).length = 0 := by simpa using hne
  unfold selectFetchConsumers Cyclic.window
  rw [List.filterMap_map]
  unfold matchingConsumerKeys at hlen ⊢
  simp only [if_neg hlen, List.map_map]
  exact List.map_id _

theorem cursor_select (hne : matchingConsumerKeys c shards ≠ []) :
    (selectFetchConsumers c maxMessages shards).1.fetchCursor =
      (c.fetchCursor % (matchingConsumerKeys c shards).length +
        min (matchingConsumerKeys c shards).length maxMessages) % (matchingConsumerKeys c shards).length := by
  have hlen : ¬ (matchingConsumerKeys c shards).length = 0 := by simpa using hne
  unfold selectFetchConsumers
  unfold matchingConsumerKeys at hlen ⊢
  simp only [if_neg hlen]

theorem mem_selected (hne : matchingConsumerKeys c shards ≠ []) {key : ConsumerKey} :
    key ∈ (selectFetchConsumers c maxMessages shards).2.map Prod.fst ↔
      ∃ p ∈ Cyclic.window (matchingConsumerKeys c shards).length
        (c.fetchCursor % (matchingConsumerKeys c shards).length)
        (min (matchingConsumerKeys c shards).length maxMessages), (matchingConsumerKeys c shards)[p]? = some key := by
  rw [selected_eq hne, List.mem_filterMap]

theorem selected_length (maxMessages : Nat) (hne : matchingConsumerKeys c shards ≠ []) :
    ((selectFetchConsumers c maxMessages shards).2.map Prod.fst).length =
      min (matchingConsumerKeys c shards).length maxMessages := by
  have hpos : 0 < (matchingConsumerKeys c shards).length := List.length_pos_iff.mpr hne
  rw [selected_eq hne, List.filterMap_length_eq_length.mpr]
  · simp [Cyclic.window]
  intro p hp
  obtain ⟨i, -, rfl⟩ := Cyclic.mem_window.mp hp
  simpa using Nat.mod_lt _ hpos

theorem selected_nodup (hc : c.keys.Nodup) (hne : matchingConsumerKeys c shards ≠ []) :
    ((selectFetchConsumers c maxMessages shards).2.map Prod.fst).Nodup := by
  rw [selected_eq hne]
  apply List.Nodup.filterMap _ (Cyclic.window_nodup (min_le_left _ _))
  intro p q key hp hq
  obtain ⟨hlt, -⟩ := List.getElem?_eq_some_iff.mp hp
  exact (List.getElem?_inj hlt (matchingConsumerKeys_nodup hc shards)).mp (hp.trans hq.symm)

end

/-! The shares of the consumers. -/

theorem budgets_length (maxMessages n : Nat) : (budgets maxMessages n).length = n := by
  simp [budgets]

theorem budgets_sum (maxMessages : Nat) {n : Nat} (hn : 0 < n) : (budgets maxMessages n).sum = maxMessages := by
  have hrest : maxMessages % n < n := Nat.mod_lt _ hn
  unfold budgets
  rw [Cyclic.sum_shares, min_eq_right (le_of_lt hrest)]
  exact Nat.div_add_mod maxMessages n

theorem budgets_pos {maxMessages n : Nat} (hn : 0 < n) (hle : n ≤ maxMessages) :
    ∀ b ∈ budgets maxMessages n, 1 ≤ b := by
  have hshare : 1 ≤ maxMessages / n := (Nat.one_le_div_iff hn).mpr hle
  intro b hb
  obtain ⟨i, -, rfl⟩ := List.mem_map.mp hb
  split <;> omega

section
variable {c : Consumer} {maxMessages : Nat} {shards : List Nat}

theorem asked_keys : (asked c maxMessages shards).map Prod.fst =
    (selectFetchConsumers c maxMessages shards).2.map Prod.fst :=
  List.map_fst_zip (budgets_length _ _).ge

theorem asked_budgets : (asked c maxMessages shards).map Prod.snd =
    budgets maxMessages ((selectFetchConsumers c maxMessages shards).2.map Prod.fst).length :=
  List.map_snd_zip (budgets_length _ _).le

theorem asked_shares (hc : c.keys.Nodup) (hne : matchingConsumerKeys c shards ≠ []) (hmax : 1 ≤ maxMessages) :
    ((asked c maxMessages shards).map Prod.fst).Nodup ∧ (∀ p ∈ asked c maxMessages shards, 1 ≤ p.2) ∧
      ((asked c maxMessages shards).map Prod.snd).sum = maxMessages := by
  have hpos : 0 < (matchingConsumerKeys c shards).length := List.length_pos_iff.mpr hne
  have hlen := selected_length maxMessages hne
  refine ⟨?_, ?_, ?_⟩
  · rw [asked_keys]
    exact selected_nodup hc hne
  · intro p hp
    have hshare := List.mem_map_of_mem (f := Prod.snd) hp
    rw [asked_budgets, hlen] at hshare
    exact budgets_pos (by omega) (min_le_right _ _) _ hshare
  · rw [asked_budgets, hlen]
    exact budgets_sum _ (by omega)

theorem selected_durables : (selectFetchConsumers c maxMessages shards).2 =
    ((selectFetchConsumers c maxMessages shards).2.map Prod.fst).map (fun key => (key, (c.find key).getD [])) := by
  unfold selectFetchConsumers
  dsimp only
  split
  · rfl
  · rw [List.map_map, List.map_map]
    rfl

theorem fetchSelectedConsumers_asked {Delivery : Type} (answers : ConsumerKey → Nat → Answer Delivery) :
    fetchSelectedConsumers answers maxMessages (selectFetchConsumers c maxMessages shards).2 =
      (asked c maxMessages shards).map (fun p =>
        fetchFromConsumer (durableText ((c.find p.1).getD [])) (answers p.1 p.2)) := by
  unfold fetchSelectedConsumers asked
  rw [selected_durables, List.length_map, List.zip_map_left, List.map_map, ← selected_durables]
  rfl

/-- A call that gets past the checks moves the cursor and collects what the asked answer. -/
theorem fetchShards_asked {Delivery : Type} {env : FetchEnv Delivery} (hctx : env.ctxErr = none)
    (hne : matchingConsumerKeys c shards ≠ []) (hmax : 1 ≤ maxMessages) :
    fetchShards env c maxMessages shards = ((selectFetchConsumers c maxMessages shards).1,
      collectFetchResults (env.arrive ((asked c maxMessages shards).map (fun p =>
        fetchFromConsumer (durableText ((c.find p.1).getD [])) (env.answers p.1 p.2)))) maxMessages) := by
  have hpos : 0 < (matchingConsumerKeys c shards).length := List.length_pos_iff.mpr hne
  have hshards : ¬ shards.length = 0 := by
    obtain ⟨key, hkey⟩ := List.exists_mem_of_ne_nil _ hne
    have hmem := (mem_matchingConsumerKeys.mp hkey).2
    exact (List.length_pos_of_mem hmem).ne'
  have hselected : ¬ (selectFetchConsumers c maxMessages shards).2.length = 0 := by
    have hlen := selected_length maxMessages hne
    rw [List.length_map] at hlen
    omega
  have hvalid : validateFetchRequest env.ctxErr maxMessages = .ok () := by
    unfold validateFetchRequest
    rw [if_neg (by omega), hctx]
  unfold fetchShards
  rw [hvalid]
  simp only [if_neg hshards, Int.toNat_natCast, if_neg hselected, fetchSelectedConsumers_asked]

end

/-! Calls in a row. -/

/-- The calls of a row have the same keys to ask, and each finds the cursor where the call
    before it has left it. -/
structure FetchRow (Delivery : Type) (keys : Finset ConsumerKey) (maxMessages k : Nat) where
  env : Nat → FetchEnv Delivery
  consumer : Nat → Consumer
  shards : Nat → List Nat
  live : ∀ j < k, (env j).ctxErr = none
  map : ∀ j < k, (consumer j).keys.Nodup
  same : ∀ j < k, ∀ key, key ∈ keys ↔ key ∈ (consumer j).keys ∧ key.shard ∈ shards j
  cursor : ∀ j, j + 1 < k →
    (consumer (j + 1)).fetchCursor = (fetchShards (env j) (consumer j) maxMessages (shards j)).1.fetchCursor

section
variable {Delivery : Type} {keys : Finset ConsumerKey} {maxMessages k : Nat}

theorem FetchRow.matching_eq (row : FetchRow Delivery keys maxMessages k) {j : Nat} (hj : j < k) :
    matchingConsumerKeys (row.consumer j) (row.shards j) = matchingConsumerKeys (row.consumer 0) (row.shards 0) := by
  have h0 : 0 < k := by omega
  apply matchingConsumerKeys_eq (row.map j hj) (row.map 0 h0)
  intro key
  rw [mem_matchingConsumerKeys, mem_matchingConsumerKeys, ← row.same j hj, ← row.same 0 h0]

theorem FetchRow.matching_card (row : FetchRow Delivery keys maxMessages k) {j : Nat} (hj : j < k) :
    (matchingConsumerKeys (row.consumer j) (row.shards j)).length = keys.card := by
  have hkeys : keys = (matchingConsumerKeys (row.consumer j) (row.shards j)).toFinset := by
    ext key
    rw [List.mem_toFinset, mem_matchingConsumerKeys, row.same j hj]
  calc (matchingConsumerKeys (row.consumer j) (row.shards j)).length
      = (matchingConsumerKeys (row.consumer j) (row.shards j)).toFinset.card :=
        (List.toFinset_card_of_nodup (matchingConsumerKeys_nodup (row.map j hj) _)).symm
    _ = keys.card := congrArg Finset.card hkeys.symm

theorem FetchRow.matching_ne (row : FetchRow Delivery keys maxMessages k) (hkeys : keys.Nonempty) {j : Nat}
    (hj : j < k) :
    matchingConsumerKeys (row.consumer j) (row.shards j) ≠ [] := by
  apply List.ne_nil_of_length_pos
  rw [row.matching_card hj]
  exact hkeys.card_pos

/-- From any cursor, `⌈n / min n m⌉` calls in a row with the limit `m` ask each of the `n` keys. A
    call asks distinct keys, for `m` messages in all, and returns what they answer. -/
theorem fetchShards_fair (hkeys : keys.Nonempty) (hmax : 1 ≤ maxMessages)
    (row : FetchRow Delivery keys maxMessages
      ((keys.card + min keys.card maxMessages - 1) / min keys.card maxMessages)) :
    (∀ key ∈ keys, ∃ j < (keys.card + min keys.card maxMessages - 1) / min keys.card maxMessages,
      key ∈ (asked (row.consumer j) maxMessages (row.shards j)).map Prod.fst) ∧
    ∀ j < (keys.card + min keys.card maxMessages - 1) / min keys.card maxMessages,
      ((asked (row.consumer j) maxMessages (row.shards j)).map Prod.fst).Nodup ∧
      (∀ p ∈ asked (row.consumer j) maxMessages (row.shards j), p.1 ∈ keys ∧ 1 ≤ p.2) ∧
      ((asked (row.consumer j) maxMessages (row.shards j)).map Prod.snd).sum = maxMessages ∧
      (fetchShards (row.env j) (row.consumer j) maxMessages (row.shards j)).2 =
        collectFetchResults ((row.env j).arrive ((asked (row.consumer j) maxMessages (row.shards j)).map (fun p =>
          fetchFromConsumer (durableText (((row.consumer j).find p.1).getD [])) ((row.env j).answers p.1 p.2))))
          maxMessages := by
  have hcard := hkeys.card_pos
  generalize hk : (keys.card + min keys.card maxMessages - 1) / min keys.card maxMessages = k at row ⊢
  have hcover : keys.card ≤ k * min keys.card maxMessages := by
    have hlt := Nat.lt_div_mul_add (a := keys.card + min keys.card maxMessages - 1)
        (b := min keys.card maxMessages) (by omega)
    rw [hk] at hlt
    omega
  refine ⟨fun key hkey => ?_, fun j hj => ?_⟩
  · have h0 : 0 < k := Nat.pos_of_mul_pos_right (by omega : 0 < k * min keys.card maxMessages)
    obtain ⟨p, hp⟩ := List.mem_iff_getElem?.mp (mem_matchingConsumerKeys.mpr ((row.same 0 h0 key).mp hkey))
    have hlt : p < keys.card := by
      obtain ⟨hlt, -⟩ := List.getElem?_eq_some_iff.mp hp
      rwa [row.matching_card h0] at hlt
    have hnext : ∀ j, j + 1 < k → (row.consumer (j + 1)).fetchCursor =
        ((row.consumer j).fetchCursor % keys.card + min keys.card maxMessages) % keys.card := by
      intro j hj
      have hj' : j < k := by omega
      have hne := row.matching_ne hkeys hj'
      rw [row.cursor j hj, fetchShards_asked (row.live j hj') hne hmax, cursor_select hne, row.matching_card hj']
    obtain ⟨j, hj, hwindow⟩ := Cyclic.window_covers (by omega) (fun j => (row.consumer j).fetchCursor) hcover
      hnext hlt
    refine ⟨j, hj, ?_⟩
    rw [asked_keys, mem_selected (row.matching_ne hkeys hj), row.matching_card hj, row.matching_eq hj]
    exact ⟨p, hwindow, hp⟩
  · have hne := row.matching_ne hkeys hj
    obtain ⟨hnodup, hpos, hsum⟩ := asked_shares (row.map j hj) hne hmax
    refine ⟨hnodup, fun q hq => ⟨?_, hpos q hq⟩, hsum, ?_⟩
    · have hsel := List.mem_map_of_mem (f := Prod.fst) hq
      rw [asked_keys, mem_selected hne] at hsel
      obtain ⟨p, -, hp⟩ := hsel
      exact (row.same j hj _).mpr (mem_matchingConsumerKeys.mp (List.mem_of_getElem? hp))
    · rw [fetchShards_asked (row.live j hj) hne hmax]

end

namespace FairSample

/-! Three consumers in two shards. -/

def plain : ConsumerKey := ⟨"events", "", 0⟩
def orders : ConsumerKey := ⟨"events", "orders", 0⟩
def other : ConsumerKey := ⟨"events", "", 1⟩

def consumer (cursor : Nat) : Consumer := ⟨[(other, []), (plain, []), (orders, [])], cursor⟩

def quiet : FetchEnv Unit := ⟨none, fun _ _ => ⟨none, none, [], none⟩, id, fun _ => List.Perm.refl _⟩

theorem keys_nodup (cursor : Nat) : (consumer cursor).keys.Nodup := by
  change [other, plain, orders].Nodup
  decide

theorem keys_same (cursor : Nat) (key : ConsumerKey) :
    key ∈ ({plain, orders, other} : Finset ConsumerKey) ↔ key ∈ (consumer cursor).keys ∧ key.shard ∈ [0, 1] := by
  change _ ↔ key ∈ [other, plain, orders] ∧ _
  simp only [Finset.mem_insert, Finset.mem_singleton, List.mem_cons, List.not_mem_nil, or_false]
  constructor
  · rintro (rfl | rfl | rfl) <;> decide
  · rintro ⟨rfl | rfl | rfl, -⟩ <;> decide

/-- Two calls for two messages; the cursor is left over from a larger map. -/
def visit (j : Nat) : Consumer := consumer (if j = 0 then 4 else 0)

theorem cursor_next (j : Nat) (hj : j + 1 < 2) :
    (visit (j + 1)).fetchCursor = (fetchShards quiet (visit j) 2 [0, 1]).1.fetchCursor := by
  obtain rfl : j = 0 := by omega
  decide

def row : FetchRow Unit {plain, orders, other} 2 2 where
  env _ := quiet
  consumer := visit
  shards _ := [0, 1]
  live _ _ := rfl
  map _ _ := keys_nodup _
  same _ _ := keys_same _
  cursor := cursor_next

end FairSample

open FairSample in
theorem fetchShards_fair_two :
    (∃ j < 2, plain ∈ (asked (row.consumer j) 2 (row.shards j)).map Prod.fst) ∧
    (∃ j < 2, orders ∈ (asked (row.consumer j) 2 (row.shards j)).map Prod.fst) ∧
    (∃ j < 2, other ∈ (asked (row.consumer j) 2 (row.shards j)).map Prod.fst) := by
  obtain ⟨hall, -⟩ := fetchShards_fair ⟨plain, by decide⟩ (by decide) row
  exact ⟨hall plain (by decide), hall orders (by decide), hall other (by decide)⟩

end FlowRule.Nats
