import FlowRule.Outbox.Passes

/- The life of an effect in the outbox, under any number of publishers of both kinds. Their
   statements interleave in any order and may fail, a publisher may be lost between any two of them,
   time goes on, and events put new effects in. `Moves` is all that a step does to a row.

   The Rust worker quarantines in a transaction, with the NOW() of its BEGIN. That the row is the
   same at the commit is due to its lock: claims skip it, and other settlements wait. -/
namespace FlowRule.Outbox

open Clients Machine Prog

inductive Publishing where
  | go (svc : Go.EffectsService) (batchSize : Int) (ticks : Nat)
  | rust (cfg : Rust.Publisher) (ticks : Nat)

def Publishing.loop : Publishing → Tx Unit
  | go svc batchSize ticks => Go.publishLoop svc batchSize ticks
  | rust cfg ticks => Rust.outboxLoop cfg ticks

inductive Outside where
  | pass (time : Nat)
  | insert (id : String) (row : OutboxRow)

def Op.isClaim : Op → Bool
  | claim .. => true
  | _ => false

/-- A claim is made outside the transaction of its publisher, which locks rows for it too. -/
def server : Server DB Session Publishing Outside Oracle Op Op.Res Err Unit where
  start d i := some (d, none, i.loop)
  exec d os s o w := exec d (if o.isClaim then s :: os else os) s o w
  env d _ v := match v with
    | .pass time => some { d with now := d.now + time }
    | .insert id row =>
      if d.outbox id = none ∧ row.status = .pending then
        some { d with outbox := Function.update d.outbox id (some row) }
      else none

abbrev Publishers := World DB Session Publishing Op Op.Res Err Unit

/-- What a step does to a row: the row stays, is claimed when it is due, or is settled with the
    claim it has, which ends after the NOW() of the settlement. -/
inductive Moves (now : Time) (r : OutboxRow) : OutboxRow → Prop
  | same : Moves now r r
  | claimed (owner : String) (ttl : Int) (atOnce : Bool) (hdue : r.due now atOnce = true) :
      Moves now r (r.claim owner now ttl)
  | settled (claimant : String) (t : Time) (how : Settlement) (hpast : t ≤ now)
      (hheld : r.heldBy claimant t = true) : Moves now r (r.settle t how)

/-- What the effect is, apart from how far it has come. -/
def content (r : OutboxRow) :=
  (r.executionID, r.tenantID, r.destination, r.name, r.payload, r.effectType, r.maxAttempts, r.createdAt)

section
variable {r r' : OutboxRow} {t now : Time}

theorem due_open {atOnce : Bool} (h : r.due now atOnce = true) :
    r.status = .pending ∨ r.status = .claimed ∧ ∃ x, r.claimExpiresAt = some x ∧ x ≤ now := by
  simp only [OutboxRow.due, Bool.or_eq_true, Bool.and_eq_true, beq_iff_eq, Option.any_eq_true] at h
  rcases h with ⟨hp, -⟩ | ⟨hc, x, hx, hle⟩
  · exact .inl hp
  · refine .inr ⟨hc, x, hx, ?_⟩
    split at hle
    · exact of_decide_eq_true hle
    · exact (of_decide_eq_true hle).le

theorem Moves.content_eq (h : Moves now r r') : content r' = content r := by
  cases h with
  | same => rfl
  | claimed => rfl
  | settled _ _ how => cases how <;> rfl

theorem Moves.final (h : Moves now r r') (hs : r.status = .delivered ∨ r.status = .quarantined) : r' = r := by
  have hopen : r.status ≠ .pending ∧ r.status ≠ .claimed := by
    rcases hs with hs | hs <;> simp [hs]
  cases h with
  | same => rfl
  | claimed owner ttl atOnce hdue =>
    rcases due_open hdue with hp | ⟨hc, -⟩
    · exact absurd hp hopen.1
    · exact absurd hc hopen.2
  | settled claimant t how _ hheld => simp [OutboxRow.heldBy, hopen.2] at hheld

theorem settle_not_held {how : Settlement} {claimant : String} : (r.settle t how).heldBy claimant now = false := by
  cases how <;> simp [OutboxRow.heldBy, OutboxRow.settle]

end

/-! Every statement moves rows. -/

/-- What a transaction has written settles rows as they are. -/
def TxOk (d : DB) (s : Session) : Prop :=
  ∀ t, s = some t → t.now ≤ d.now ∧ ∀ id r', t.outbox id = some r' →
    ∃ r claimant how, d.outbox id = some r ∧ r.heldBy claimant t.now = true ∧ r' = r.settle t.now how

def Apart (s s₂ : Session) : Prop :=
  ∀ t t₂, s = some t → s₂ = some t₂ → ∀ id, t.outbox id = none ∨ t₂.outbox id = none

/-- Rows move, and those that others have locked stay. -/
def Changes (os : List Session) (d d' : DB) : Prop :=
  ∀ id r, d.outbox id = some r → ∃ r', d'.outbox id = some r' ∧ Moves d.now r r' ∧ (r' = r ∨ locked os id = false)

section
variable {d d' : DB} {os : List Session} {s s' : Session} {t : OpenTx} {id : String}

theorem locked_false : locked os id = false ↔ ∀ s ∈ os, ∀ t, s = some t → t.outbox id = none := by
  simp only [locked, List.any_eq_false, Bool.not_eq_true]
  refine forall_congr' (fun s => imp_congr_right (fun _ => ?_))
  cases s <;> simp

theorem not_locked {ids : List String} (h : ¬ids.any (locked os) = true) (hid : id ∈ ids) : locked os id = false :=
  Bool.eq_false_of_not_eq_true (fun hl => h (List.any_eq_true.mpr ⟨id, hid, hl⟩))

theorem Changes.mono {os' : List Session} (h : Changes os d d') (hsub : ∀ s ∈ os', s ∈ os) : Changes os' d d' := by
  intro id r hr
  obtain ⟨r', hr', hm, hfree⟩ := h id r hr
  refine ⟨r', hr', hm, hfree.imp_right (fun hl => locked_false.mpr (fun s hs => ?_))⟩
  exact locked_false.mp hl s (hsub s hs)

/-- The transactions of others are as they were. -/
theorem TxOk.keep (h : TxOk d s) (hs : s ∈ os) (hc : Changes os d d') (hnow : d.now ≤ d'.now) : TxOk d' s := by
  intro t ht
  obtain ⟨hpast, hrows⟩ := h t ht
  refine ⟨hpast.trans hnow, ?_⟩
  intro id r' hr'
  obtain ⟨r, claimant, how, hr, hheld, rfl⟩ := hrows id r' hr'
  obtain ⟨r₂, hr₂, -, rfl | hfree⟩ := hc id r hr
  · exact ⟨r₂, claimant, how, hr₂, hheld, rfl⟩
  · rw [locked_false.mp hfree s hs t ht] at hr'
    cases hr'

theorem changes_same (h : d'.outbox = d.outbox) : Changes os d d' := fun _ r hr => ⟨r, h ▸ hr, .same, .inl rfl⟩

theorem changed_changes {ids : List String} {f : OutboxRow → OutboxRow}
    (h : ∀ id ∈ ids, locked os id = false ∧ ∃ r, d.outbox id = some r ∧ Moves d.now r (f r)) :
    Changes os d { d with outbox := changed d.outbox ids f } := by
  intro id r hr
  by_cases hid : id ∈ ids
  · obtain ⟨hfree, r₂, hr₂, hm⟩ := h id hid
    cases hr.symm.trans hr₂
    exact ⟨f r, by simp [changed, hid, hr], hm, .inr hfree⟩
  · exact ⟨r, (if_neg hid).trans hr, .same, .inl rfl⟩

theorem mem_held {table : String → Option OutboxRow} {ids : List String} {claimant : String} {now : Time}
    (h : id ∈ held table ids claimant now) : ∃ r, table id = some r ∧ r.heldBy claimant now = true :=
  (Option.any_eq_true _ _).mp (List.mem_filter.mp h).2

def OpenTx.settled (t : OpenTx) (d : DB) (rows : List String) (how : Settlement) : OpenTx :=
  { t with outbox := fun id => if id ∈ rows then ((t.sees d) id).map (fun r => r.settle t.now how) else t.outbox id }

/-- What a transaction settles is a row that it has not settled before. -/
theorem settle_tx {ids : List String} {claimant : String} {how : Settlement} (h : TxOk d (some t)) :
    TxOk d (some (t.settled d (held (t.sees d) ids claimant t.now) how)) := by
  intro t' ht'
  cases ht'
  obtain ⟨hpast, hrows⟩ := h t rfl
  refine ⟨hpast, ?_⟩
  intro id r' hr'
  simp only [OpenTx.settled] at hr'
  split at hr'
  · rename_i hid
    obtain ⟨r, hr, hheld⟩ := mem_held hid
    rw [hr] at hr'
    cases hr'
    cases hown : t.outbox id with
    | none =>
      refine ⟨r, claimant, how, ?_, hheld, rfl⟩
      simpa [OpenTx.sees, hown] using hr
    | some own =>
      obtain ⟨r₀, c₀, how₀, -, -, rfl⟩ := hrows id own hown
      have heq : r₀.settle t.now how₀ = r := by simpa [OpenTx.sees, hown] using hr
      rw [← heq, settle_not_held] at hheld
      cases hheld
  · exact hrows id r' hr'

theorem commit_changes (h : TxOk d (some t)) (hap : ∀ s ∈ os, Apart (some t) s)
    {quarantine : String → Option QuarantineRow} :
    Changes os d { d with outbox := t.sees d, quarantine := quarantine } := by
  intro id r hr
  cases hown : t.outbox id with
  | none => exact ⟨r, by simpa [OpenTx.sees, hown] using hr, .same, .inl rfl⟩
  | some r' =>
    obtain ⟨hpast, hrows⟩ := h t rfl
    obtain ⟨r₂, claimant, how, hr₂, hheld, rfl⟩ := hrows id r' hown
    cases hr.symm.trans hr₂
    refine ⟨r.settle t.now how, by simp [OpenTx.sees, hown], .settled claimant t.now how hpast hheld, .inr ?_⟩
    refine locked_false.mpr (fun s hs t₂ ht₂ => ?_)
    exact (hap s hs t t₂ rfl ht₂ id).resolve_left (by simp [hown])

theorem insertQuarantine_sound {row : QuarantineRow} {a : Except Err Unit} (h : TxOk d s)
    (hap : ∀ s₂ ∈ os, Apart s s₂) (he : insertQuarantine d os s id row = some (d', s', a)) :
    d'.now = d.now ∧ Changes os d d' ∧ TxOk d' s' ∧ ∀ s₂ ∈ os, Apart s' s₂ := by
  unfold insertQuarantine at he
  split at he
  all_goals repeat' split at he
  all_goals cases he
  all_goals try exact ⟨rfl, changes_same rfl, h, hap⟩
  -- what the transaction writes besides is none of the outbox
  rename_i t _ _
  refine ⟨rfl, changes_same rfl, ?_, ?_⟩
  · intro t' ht'
    cases ht'
    exact h t rfl
  · intro s₂ hs t' t₂ ht' ht₂
    cases ht'
    exact hap s₂ hs t t₂ rfl ht₂

/-- Every statement, whatever the publisher has done before. -/
theorem exec_sound {o : Op} {w : Oracle} {a : Except Err o.Res} (h : TxOk d s) (hap : ∀ s₂ ∈ os, Apart s s₂)
    (he : server.exec d os s o w = some (d', s', a)) :
    d'.now = d.now ∧ Changes os d d' ∧ TxOk d' s' ∧ ∀ s₂ ∈ os, Apart s' s₂ := by
  change exec d _ s o w = _ at he
  unfold exec at he
  split at he
  · cases he
    exact ⟨rfl, changes_same rfl, nofun, fun _ _ => nofun⟩
  cases o with
  | clock | newID | send _ _ _ | quarantineDelete _ _ =>
    simp only [perform] at he
    repeat' split at he
    all_goals cases he
    all_goals exact ⟨rfl, changes_same rfl, h, hap⟩
  | claim batch owner ttl atOnce =>
    simp only [perform, Op.isClaim, if_true] at he
    split at he <;> cases he
    rename_i hpick
    have hc : Changes (s :: os) d { d with outbox := changed d.outbox w.pick (fun r => r.claim owner d.now ttl) } := by
      refine changed_changes (fun id hid => ?_)
      obtain ⟨hdue, hfree⟩ := hpick.2.2 id hid
      obtain ⟨r, hr, hdue⟩ := (Option.any_eq_true _ _).mp hdue
      exact ⟨hfree, r, hr, .claimed owner ttl atOnce hdue⟩
    exact ⟨rfl, hc.mono (fun _ => List.mem_cons_of_mem s), h.keep List.mem_cons_self hc (Int.le_refl _), hap⟩
  | settle ids claimant how =>
    simp only [perform, Op.isClaim, Bool.false_eq_true, if_false] at he
    split at he
    · split at he <;> cases he
      rename_i hfree
      refine ⟨rfl, changed_changes (fun id hid => ⟨not_locked hfree hid, ?_⟩), nofun, fun _ _ => nofun⟩
      obtain ⟨r, hr, hheld⟩ := mem_held hid
      exact ⟨r, hr, .settled claimant d.now how (Int.le_refl _) hheld⟩
    · rename_i t
      split at he <;> cases he
      rename_i hfree
      refine ⟨rfl, changes_same rfl, settle_tx h, ?_⟩
      intro s₂ hs t' t₂ ht' ht₂ id
      cases ht'
      by_cases hid : id ∈ held (t.sees d) ids claimant t.now
      · exact .inr (locked_false.mp (not_locked hfree hid) s₂ hs t₂ ht₂)
      · exact (hap s₂ hs t t₂ rfl ht₂ id).imp_left (fun hnone => (if_neg hid).trans hnone)
  | quarantineSave _ _ | quarantineSaveNow _ _ => exact insertQuarantine_sound h hap he
  | begin =>
    cases he
    refine ⟨rfl, changes_same rfl, ?_, ?_⟩
    · intro t ht
      cases ht
      refine ⟨Int.le_refl _, ?_⟩
      intro id r' hr'
      cases hr'
    · intro s₂ _ t t₂ ht _ id
      cases ht
      exact .inl rfl
  | commit =>
    simp only [perform] at he
    split at he
    · cases he
      exact ⟨rfl, changes_same rfl, h, hap⟩
    · cases he
      exact ⟨rfl, commit_changes h hap, nofun, fun _ _ => nofun⟩

/-- The statement settles the row under the token of its claim. -/
def Op.SettlesOwn (o : Op) (id : String) (r : OutboxRow) : Prop :=
  ∃ ids claimant how, o = .settle ids claimant how ∧ id ∈ ids ∧ r.claimedBy = some claimant

/-- A row that is not due and that the transaction has not settled stays, and the transaction does
    not settle it, unless the statement names the claim. -/
theorem exec_keeps {o : Op} {w : Oracle} {a : Except Err o.Res} {r : OutboxRow} (hr : d.outbox id = some r)
    (hs : ∀ t, s = some t → t.outbox id = none) (hdue : ∀ atOnce, r.due d.now atOnce = false)
    (ho : ¬o.SettlesOwn id r) (he : server.exec d os s o w = some (d', s', a)) :
    d'.outbox id = some r ∧ ∀ t, s' = some t → t.outbox id = none := by
  change exec d _ s o w = _ at he
  unfold exec at he
  split at he
  · cases he
    exact ⟨hr, nofun⟩
  cases o with
  | clock | newID | send _ _ _ | quarantineDelete _ _ =>
    simp only [perform] at he
    repeat' split at he
    all_goals cases he
    all_goals exact ⟨hr, hs⟩
  | claim batch owner ttl atOnce =>
    simp only [perform, Op.isClaim, if_true] at he
    split at he <;> cases he
    rename_i hpick
    have hid : id ∉ w.pick := by
      intro hid
      have hrow := (hpick.2.2 id hid).1
      simp [hr, hdue] at hrow
    exact ⟨(if_neg hid).trans hr, hs⟩
  | settle ids claimant how =>
    have hother : ∀ {table : String → Option OutboxRow} {now : Time}, table id = some r →
        id ∉ held table ids claimant now := by
      intro table now ht hid
      obtain ⟨r', hr', hheld⟩ := mem_held hid
      cases ht.symm.trans hr'
      simp only [OutboxRow.heldBy, Bool.and_eq_true, beq_iff_eq] at hheld
      exact ho ⟨ids, claimant, how, rfl, List.mem_dedup.mp (List.mem_filter.mp hid).1, hheld.1.2⟩
    simp only [perform, Op.isClaim, Bool.false_eq_true, if_false] at he
    split at he
    · split at he <;> cases he
      exact ⟨(if_neg (hother hr)).trans hr, hs⟩
    · rename_i t
      split at he <;> cases he
      have hsees : t.sees d id = some r := by simp [OpenTx.sees, hs t rfl, hr]
      refine ⟨hr, fun t' ht' => ?_⟩
      cases ht'
      exact (if_neg (hother hsees)).trans (hs t rfl)
  | quarantineSave _ _ | quarantineSaveNow _ _ =>
    simp only [perform, Op.isClaim, Bool.false_eq_true, if_false, insertQuarantine] at he
    repeat' split at he
    all_goals cases he
    all_goals try exact ⟨hr, hs⟩
    have hown := hs _ rfl
    refine ⟨hr, fun t' ht' => ?_⟩
    cases ht'
    exact hown
  | begin =>
    cases he
    refine ⟨hr, fun t ht => ?_⟩
    cases ht
    rfl
  | commit =>
    simp only [perform] at he
    split at he <;> cases he
    · exact ⟨hr, hs⟩
    · rename_i t
      exact ⟨by simp [OpenTx.sees, hs t rfl, hr], nofun⟩

end

/-! The whole system. -/

/-- Nothing is asked of a publisher's program. -/
def anything : Proto Op Op.Res Err Unit := ⟨fun _ _ => True, fun _ _ _ _ => True⟩

def view : View DB Session Publishing Err Unit Unit where
  glob _ := True
  rep _ d s _ := TxOk d s
  excl := Apart
  post _ _ _ := True
  fin _ _ _ := True

theorem Apart.symm {s s₂ : Session} (h : Apart s s₂) : Apart s₂ s :=
  fun t₂ t ht₂ ht id => (h t t₂ ht ht₂ id).symm

theorem env_sound {d d' : DB} {os : List Session} {v : Outside} (he : server.env d os v = some d') :
    d.now ≤ d'.now ∧ Changes os d d' := by
  cases v with
  | pass time =>
    cases he
    exact ⟨by simp, changes_same rfl⟩
  | insert id row =>
    simp only [server] at he
    split at he <;> cases he
    rename_i hnew
    refine ⟨Int.le_refl _, fun id' r hr => ⟨r, ?_, .same, .inl rfl⟩⟩
    have hne : id' ≠ id := by
      intro heq
      simp [heq, hnew.1] at hr
    exact (Function.update_of_ne hne _ _).trans hr

theorem publishers_sound : Sound server (fun _ => anything) view where
  start := by
    intro d i d' s p os _ _ he
    cases he
    refine ⟨trivial, ⟨(), nofun, wp_trivial (fun _ _ => trivial) (fun _ _ => trivial)⟩, ?_, fun _ _ _ _ h => h,
      fun _ _ h => h⟩
    exact fun s' _ => ⟨nofun, Apart.symm nofun⟩
  exec := by
    intro i d os s st o x d' s' a _ hrep _ hex he
    obtain ⟨hnow, hc, htx, hap⟩ := exec_sound hrep (fun s₂ hs => (hex s₂ hs).1) he
    refine ⟨trivial, ⟨(), trivial, htx⟩, fun s₂ hs => ⟨hap s₂ hs, (hap s₂ hs).symm⟩, ?_, fun _ _ h => h⟩
    exact fun _ _ s₂ hs h => h.keep hs hc hnow.ge
  fin := fun _ _ _ => trivial
  env := by
    intro d os v d' _ he
    obtain ⟨hnow, hc⟩ := env_sound he
    exact ⟨trivial, fun _ _ s hs h => h.keep hs hc hnow, fun _ _ h => h⟩

section
variable {d₀ : DB} {u v : Publishers} {a : Act Publishing Outside Oracle} {ls : List (Act Publishing Outside Oracle)}
variable {id : String} {r : OutboxRow}

theorem step_moves (hu : Reachable (next server) (empty d₀) u) (hn : next server u a = some v) :
    u.db.now ≤ v.db.now ∧ Changes [] u.db v.db := by
  have hh := holds_reachable publishers_sound trivial hu
  have hsame : u.db.now ≤ u.db.now ∧ Changes [] u.db u.db := ⟨Int.le_refl _, changes_same rfl⟩
  cases next_step hn with
  | start hst =>
    cases hst
    exact hsame
  | @exec c x i s o k d s' res hc he =>
    obtain ⟨st, htx, -⟩ := hh.running c i s _ hc
    have hap : ∀ s₂ ∈ sessions (u.clients.eraseIdx c), Apart s s₂ := by
      intro s₂ hs
      obtain ⟨j, ⟨i', s₃, ph⟩, p', hj, hcl, rfl, rfl⟩ := mem_others.mp hs
      exact hh.excl c j i i' s s₃ _ p' (Ne.symm hj) hc hcl
    obtain ⟨hnow, hch, -⟩ := exec_sound htx hap he
    exact ⟨hnow.ge, hch.mono (List.forall_mem_nil _)⟩
  | stop => exact hsame
  | env hv =>
    obtain ⟨hnow, hch⟩ := env_sound hv
    exact ⟨hnow, hch.mono (List.forall_mem_nil _)⟩

/-- The step does not run a statement that settles the row under the token of its claim. -/
def NotSettled (id : String) (r : OutboxRow) (w : Publishers) (a : Act Publishing Outside Oracle) : Prop :=
  ∀ c x i s o k, a = .exec c x → w.clients[c]? = some ⟨i, s, .running (.stmt o k)⟩ → ¬o.SettlesOwn id r

/-- One step, whoever takes it, while the claim lasts. -/
theorem step_keeps (hn : next server u a = some v) (hr : u.db.outbox id = some r)
    (hdue : ∀ atOnce, r.due u.db.now atOnce = false) (hfree : locked (sessions u.clients) id = false)
    (ha : NotSettled id r u a) : v.db.outbox id = some r ∧ locked (sessions v.clients) id = false := by
  rw [locked_false] at hfree
  -- a session that is open after the step was open before, or is the one of the step
  have hset : ∀ {c : Nat} {cl : Client Session Publishing Op Op.Res Err Unit},
      (∀ p, cl.phase = .running p → ∀ t, cl.sess = some t → t.outbox id = none) →
      locked (sessions (u.clients.set c cl)) id = false := by
    intro c cl hcl
    refine locked_false.mpr (fun s hs => ?_)
    rcases mem_sessions_set hs with hs | ⟨⟨p, hp⟩, rfl⟩
    · exact hfree s hs
    · exact hcl p hp
  cases next_step hn with
  | start hst =>
    cases hst
    refine ⟨hr, locked_false.mpr (fun s hs => ?_)⟩
    obtain ⟨cl, hm, hp, rfl⟩ := mem_sessions.mp hs
    rcases List.mem_append.mp hm with hm | hm
    · exact hfree _ (mem_sessions.mpr ⟨cl, hm, hp, rfl⟩)
    · cases List.mem_singleton.mp hm
      exact nofun
  | @exec c x i s o k _ _ _ hc he =>
    obtain ⟨hrow, hown⟩ := exec_keeps hr (hfree s (mem_sessions_of hc)) hdue (ha c x i s o k rfl hc) he
    exact ⟨hrow, hset (fun _ _ => hown)⟩
  | stop hc hstop => exact ⟨hr, hset (fun p hp => absurd hp (hstop.not_running p))⟩
  | @env w _ hv =>
    refine ⟨?_, locked_false.mpr hfree⟩
    cases w with
    | pass time =>
      cases hv
      exact hr
    | insert id' row =>
      simp only [server] at hv
      split at hv <;> cases hv
      rename_i hnew
      exact (Function.update_of_ne (by rintro rfl; simp [hnew.1] at hr) _ _).trans hr

variable (hu : Reachable (next server) (empty d₀) u) (hrun : run (next server) u ls = some v)
include hu hrun

theorem now_run : u.db.now ≤ v.db.now :=
  run_mono (Reachable (next server) (empty d₀)) (fun a b => a.db.now ≤ b.db.now) (fun _ => Int.le_refl _)
    (fun _ _ _ => Int.le_trans) hu (fun _ _ _ => .step) (fun _ _ _ ha hb => (step_moves ha hb).1) hrun

variable (hr : u.db.outbox id = some r)
include hr

theorem row_run (I : OutboxRow → Prop) (h0 : I r) (hI : ∀ now r r', I r → Moves now r r' → I r') :
    ∃ r', v.db.outbox id = some r' ∧ I r' := by
  refine (run_invariant (fun x => Reachable (next server) (empty d₀) x ∧
    ∃ r', x.db.outbox id = some r' ∧ I r') ⟨hu, r, hr, h0⟩ ?_ hrun).2
  rintro x l y ⟨hx, r₁, hr₁, h₁⟩ hn
  obtain ⟨r₂, hr₂, hm, -⟩ := (step_moves hx hn).2 id r₁ hr₁
  exact ⟨hx.step hn, r₂, hr₂, hI _ r₁ r₂ h₁ hm⟩

/-- No row is ever lost, and what an effect is about stays as it was put in. -/
theorem rows_keep_content : ∃ r', v.db.outbox id = some r' ∧ content r' = content r :=
  row_run hu hrun hr (fun r' => content r' = content r) rfl (fun _ _ _ h hm => hm.content_eq.trans h)

/-- What is delivered or quarantined is never touched again. -/
theorem settled_rows_final (hs : r.status = .delivered ∨ r.status = .quarantined) : v.db.outbox id = some r := by
  obtain ⟨r', hr', rfl⟩ := row_run hu hrun hr (· = r) rfl (by
    rintro now _ r' rfl hm
    exact hm.final hs)
  exact hr'

/-- While a claim lasts and nobody settles the row under its token, the row is as it was claimed:
    whatever other publishers do, they neither take it over nor settle it. -/
theorem claim_excludes (hc : r.status = .claimed) {x : Time} (hx : r.claimExpiresAt = some x) (hlive : v.db.now < x)
    (hfree : locked (sessions u.clients) id = false) (hothers : Along (next server) (NotSettled id r) u ls) :
    v.db.outbox id = some r := by
  induction ls generalizing u with
  | nil =>
    cases hrun
    exact hr
  | cons l ls ih =>
    obtain ⟨w, hw, hrest⟩ := Option.bind_eq_some_iff.mp hrun
    have hdue : ∀ atOnce, r.due u.db.now atOnce = false := by
      intro atOnce
      by_contra hdue
      -- a claimed row is due when its claim has ended, which is after the end of this run
      rcases due_open (Bool.eq_true_of_not_eq_false hdue) with hp | ⟨-, y, hy, hend⟩
      · rw [hc] at hp
        cases hp
      · cases hx.symm.trans hy
        exact absurd (hend.trans (now_run hu hrun)) (Int.not_le.mpr hlive)
    obtain ⟨hr', hfree'⟩ := step_keeps hw hr hdue hfree hothers.1
    exact ih (hu.step hw) hrest hr' hfree' (hothers.2 w hw)

end

namespace Sample

def pending : OutboxRow :=
  { row with status := .pending, claimedBy := none, claimedAt := none, claimExpiresAt := none }

def choice : Oracle := ⟨none, 0, "00000000-0000-4000-8000-000000000001", ["first"], .stored⟩

def stored : DB := ⟨0, Function.update (fun _ => none) "first" (some pending), fun _ => none, [], [], []⟩

/-- A Go publisher has claimed the effect and sent it. -/
def sent : Publishers :=
  (run (next server) (empty stored) (.start (.go (Go.workerService "worker") 10 1) ::
    List.replicate 3 (.exec 0 choice))).get (by decide +kernel)

def delivered : Publishers := (run (next server) sent [.exec 0 choice]).get (by decide +kernel)

theorem sent_reachable : Reachable (next server) (empty stored) sent := ⟨_, (Option.some_get _).symm⟩

theorem sent_run : run (next server) sent [.exec 0 choice] = some delivered := (Option.some_get _).symm

def later : Publishers := ⟨{ delivered.db with now := delivered.db.now + 3600000000 }, delivered.clients⟩

def claimed : OutboxRow := pending.claim ("worker-" ++ choice.uuid) 0 claimTTL

/-- Another publisher polls a second before the claim ends, and finds nothing to claim. -/
def contest : List (Act Publishing Outside Oracle) :=
  [.start (.go (Go.workerService "other") 10 1), .env (.pass 119000000)] ++
    List.replicate 2 (.exec 1 ⟨none, 0, "00000000-0000-4000-8000-000000000002", [], .stored⟩)

def contested : Publishers := (run (next server) sent contest).get (by decide +kernel)

/-- The step runs no settlement at all. -/
def noSettle (w : Publishers) : Act Publishing Outside Oracle → Bool
  | .exec c _ =>
    match w.clients[c]? with
    | some ⟨_, _, .running (.stmt (.settle _ _ _) _)⟩ => false
    | _ => true
  | _ => true

theorem noSettle_sound (w : Publishers) (a : Act Publishing Outside Oracle) (h : noSettle w a = true) :
    NotSettled "first" claimed w a := by
  rintro c x i s o k rfl hc ⟨ids, claimant, how, rfl, -⟩
  simp [noSettle, hc] at h

end Sample

open Sample

theorem delivered_row_content : ∃ r', delivered.db.outbox "first" = some r' ∧ content r' = content claimed :=
  rows_keep_content sent_reachable sent_run (by decide +kernel)

theorem delivered_row_stays : later.db.outbox "first" = some (claimed.settle 0 .delivered) :=
  settled_rows_final (sent_reachable.trans ⟨_, sent_run⟩)
    (show run (next server) delivered [.env (.pass 3600000000)] = some later from rfl) (by decide +kernel) (.inl rfl)

theorem claim_excludes_other : contested.db.outbox "first" = some claimed := by
  have hrun : run (next server) sent contest = some contested := (Option.some_get _).symm
  refine claim_excludes sent_reachable hrun (by decide +kernel) rfl rfl (by decide +kernel) (by decide +kernel) ?_
  exact along_of_check noSettle_sound (by decide +kernel)

end FlowRule.Outbox
