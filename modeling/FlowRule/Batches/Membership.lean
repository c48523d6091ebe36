import FlowRule.Batches.Service

/- Events in executed batches.

   Process commits the batch event and the completion marks the members, in two transactions.
   A batch whose completion fails or is lost is executed, with its members still offered; a
   group with other members too has another ID, and executes the shared ones again.
   `executed_once_iff` says that nothing else goes wrong as long as the members of a group are
   still without a batch when it is handed to Process (`fresh_of_orderly`). -/
namespace FlowRule.Batches

open Machine Clients Prog

variable {eng : Engine} {collate : String → String → Bool} {s : Service} {w w' : World} {l : WorldAct}

abbrev worldNext (eng : Engine) (collate : String → String → Bool) (s : Service) : World → WorldAct → Option World :=
  Clients.next (service eng collate s)

def World.init (now : Time) (refs : Reference) : World := Clients.empty ⟨.empty now refs, []⟩

/-! The property and its condition. -/

def Batch.Apart (x y : Batch) : Prop :=
  x.batchID ≠ y.batchID → x.tenantID = y.tenantID → ∀ m ∈ x.members, m ∉ y.members

def Apart (st : State) : Prop := ∀ x ∈ st.executed, ∀ y ∈ st.executed, x.Apart y

def Completed (b : Database) (x : Batch) : Prop :=
  ∃ c ∈ b.completed, c.1.batchID = x.batchID ∧ c.1.tenantID = x.tenantID ∧ ∀ m ∈ x.members, m ∈ c.2

def Unbatched (b : Database) (k : Key) : Prop := ∃ row, b.inbox k = some row ∧ row.batchID = none

def asked (w : World) : WorldAct → Option (Ask × Outcome)
  | .exec c x =>
    match w.clients[c]? with
    | some ⟨_, _, .running (.stmt o _)⟩ => some (o, x)
    | _ => none
  | _ => none

def executedBy (eng : Engine) (b : Database) (o : Ask) (x : Outcome) : Option Batch :=
  match o with
  | .process env members token shard workerID =>
    match (callAlone eng b.db (.goProcess env token shard.toNat workerID) x.process).2 with
    | some (.ok (.execution _)) => some ⟨env.tenantID, env.id, members⟩
    | _ => none
  | _ => none

def executes (eng : Engine) (w : World) (l : WorldAct) : Option Batch :=
  (asked w l).bind (fun q => executedBy eng w.db.b q.1 q.2)

def Fresh (eng : Engine) (w : World) (l : WorldAct) : Prop :=
  ∀ x, executes eng w l = some x → ∀ m ∈ x.members, Unbatched w.db.b (x.tenantID, m)

/-- A batch that was executed but not completed has the ID of the group, or none of its members. -/
def Retries (eng : Engine) (w : World) (l : WorldAct) : Prop :=
  ∀ x, executes eng w l = some x → ∀ y ∈ w.db.executed, ¬ Completed w.db.b y → x.Apart y

/-! One step. -/

/-- What an answer does: nothing, or it is a call on the events, or a completion. -/
theorem answer_cases {st st' : State} {x : Outcome} {o : Ask} {a : Except Err o.Res}
    (h : answer eng collate st x o = some (st', a)) :
    st'.executed = (executedBy eng st.b o x).toList ++ st.executed ∧
    (st'.b = st.b ∨ (∃ env members token shard workerID, o = .process env members token shard workerID ∧
        next eng st.b (.turn (.call (.goProcess env token shard.toNat workerID) x.process)) = some st'.b) ∨
      ∃ tenantID run eventIDs, o = .completeBatch tenantID run eventIDs ∧
        Batches.completeBatch st.b x.completion (some run) eventIDs = .ok st'.b) := by
  cases o with
  | process env members token shard workerID =>
    simp only [answer] at h
    refine ⟨?_, .inr (.inl ⟨env, members, token, shard, workerID, rfl, ?_⟩)⟩
    all_goals
      split at h
      · rename_i e he
        cases h
        simp [executedBy, he, next, turn, eventOf, Call.key]
      · rename_i e he
        cases h
        simp [executedBy, he, next, turn, eventOf, Call.key]
      · cases h
  | completeBatch tenantID run eventIDs =>
    simp only [answer] at h
    split at h
    · rename_i b hb
      cases h
      exact ⟨rfl, .inr (.inr ⟨tenantID, run, eventIDs, rfl, hb⟩)⟩
    · cases h
      exact ⟨rfl, .inl rfl⟩
  | _ =>
    cases h
    exact ⟨rfl, .inl rfl⟩

theorem world_cases (hn : worldNext eng collate s w l = some w') :
    w'.db.executed = (executes eng w l).toList ++ w.db.executed ∧
      (w'.db.b = w.db.b ∨ ∃ step, next eng w.db.b step = some w'.db.b) := by
  cases next_step hn with
  | start hst =>
    cases hst
    exact ⟨rfl, .inl rfl⟩
  | @exec c x _ _ _ _ _ _ _ hc he =>
    obtain ⟨⟨st, a'⟩, ha, hr⟩ := Option.map_eq_some_iff.mp he
    cases hr
    obtain ⟨hex, hb⟩ := answer_cases ha
    refine ⟨by simpa [executes, asked, hc] using hex, ?_⟩
    rcases hb with hb | ⟨_, _, _, _, _, -, hb⟩ | ⟨_, run, ids, -, hb⟩
    · exact .inl hb
    · exact .inr ⟨_, hb⟩
    · exact .inr ⟨.complete x.completion (some run) ids, by simp [next, hb, Except.toOption]⟩
  | stop hc hstop => cases hstop <;> exact ⟨rfl, .inl rfl⟩
  | @env t _ ht =>
    obtain ⟨d', hd, rfl⟩ := Option.map_eq_some_iff.mp ht
    exact ⟨rfl, .inr ⟨.turn t, by simp [next, hd]⟩⟩

theorem ok_world (hsha : Function.Injective eng.sha256Hex) (h : Ok eng w.db.b)
    (hn : worldNext eng collate s w l = some w') : Ok eng w'.db.b := by
  rcases (world_cases hn).2 with hb | ⟨step, hb⟩
  · rwa [hb]
  · exact ok_next hsha h hb

/-- The members of a completed batch have a batch. -/
theorem apart_of_completed {x y : Batch} (h : Ok eng w.db.b) (hf : ∀ m ∈ x.members, Unbatched w.db.b (x.tenantID, m))
    (hc : Completed w.db.b y) : x.Apart y := by
  intro _ ht m hm hmy
  obtain ⟨c, hc, -, hct, hsub⟩ := hc
  obtain ⟨row, hrow, hb⟩ := (h.marked c hc).2 m (hsub m hmy)
  obtain ⟨row', hrow', hb'⟩ := hf m hm
  rw [ht, ← hct, hrow] at hrow'
  cases hrow'
  rw [hb] at hb'
  cases hb'

theorem Batch.Apart.symm {x y : Batch} (h : x.Apart y) : y.Apart x :=
  fun hid ht m hy hx => h hid.symm ht.symm m hx hy

theorem apart_step (h : Ok eng w.db.b) (hf : Fresh eng w l) (hn : worldNext eng collate s w l = some w') :
    Apart w'.db ↔ Apart w.db ∧ Retries eng w l := by
  rw [Apart, Apart, Retries, (world_cases hn).1]
  cases hx : executes eng w l with
  | none => simp
  | some x =>
    have hself : x.Apart x := fun hne => absurd rfl hne
    simp only [Option.toList_some, List.singleton_append, List.forall_mem_cons, Option.some.injEq, forall_eq']
    constructor
    · rintro ⟨⟨-, hxy⟩, hrest⟩
      exact ⟨fun y hy => (hrest y hy).2, fun y hy _ => hxy y hy⟩
    · rintro ⟨hrest, hxy⟩
      have hall : ∀ y ∈ w.db.executed, x.Apart y := by
        intro y hy
        by_cases hc : Completed w.db.b y
        · exact apart_of_completed h (hf x hx) hc
        · exact hxy y hy hc
      exact ⟨⟨hself, hall⟩, fun y hy => ⟨(hall y hy).symm, hrest y hy⟩⟩

/-! Groups are fresh when calls do not overlap. -/

def entryKey (e : Go.InboxEntry) : Key := (e.tenantID, e.eventID)

/-- `Z` are the events of the entries. -/
def Lists (es : List Go.InboxEntry) (Z : Key → Prop) : Prop :=
  (es.map entryKey).Nodup ∧ Z = (· ∈ es.map entryKey)

def OfTenant (tenantID : String) (es : List Go.InboxEntry) : Prop := ∀ e ∈ es, e.tenantID = tenantID

/-- `Z` are the events that a call has listed and not yet completed; it hands only such events to
    Process. -/
def Listed.allowed (Z : Key → Prop) : Ask → Prop
  | .process env members _ _ _ => ∀ m ∈ members, Z (env.tenantID, m)
  | _ => True

def Listed.trans (Z : Key → Prop) : (o : Ask) → Except Err o.Res → (Key → Prop) → Prop
  | .listUnbatched _, .ok es, Z' => Lists es Z'
  | .listUnbatchedByIDs tenantID _ _ _, .ok es, Z' => OfTenant tenantID es ∧ Lists es Z'
  | .completeBatch tenantID _ eventIDs, _, Z' => Z' = fun k => Z k ∧ ¬ (k.1 = tenantID ∧ k.2 ∈ eventIDs)
  | _, _, Z' => Z' = Z

def listed : Proto Ask Ask.Res Err (Key → Prop) := ⟨Listed.allowed, Listed.trans⟩

theorem query_entries {b : Database} {p : Key → InboxRow → Bool} {limit : Nat} {f c i : String}
    {fail : Option QueryFailure} {es : List Go.InboxEntry} (h : Ok eng b)
    (hq : query collate (b.select p) limit f c i fail = .ok es) :
    (es.map entryKey).Nodup ∧ ∀ e ∈ es, ∃ row, b.inbox (entryKey e) = some row ∧ p (entryKey e) row = true := by
  rcases fail with _ | _ | _
  · have hmap : es.map entryKey = _ := Checks.map_mapM (g := Prod.fst) (fun r e he => ?_) hq
    · have hsub := (List.take_sublist limit ((b.select p).insertionSort (fun x y => before collate x y = true))).map
        Prod.fst
      have hperm := (List.perm_insertionSort (fun x y => before collate x y = true) (b.select p)).map Prod.fst
      refine ⟨hmap ▸ (hperm.nodup_iff.mpr (nodup_select h)).sublist hsub, fun e he => ?_⟩
      have hk : entryKey e ∈ (b.select p).map Prod.fst :=
        hperm.mem_iff.mp (hsub.subset (hmap ▸ List.mem_map_of_mem he))
      obtain ⟨r, hr, hre⟩ := List.mem_map.mp hk
      exact ⟨r.2, hre ▸ (mem_select h).mp hr⟩
    · simp only [scanEntry] at he
      split at he <;> cases he
      rfl
  · cases hq
  · cases hq

def ownTenant : Ask → Bool
  | .completeBatch tenantID run _ => run.tenantID == tenantID
  | _ => true

theorem Unbatched.turn (hsha : Function.Injective eng.sha256Hex) {b b' : Database} {t : Turn} {k : Key}
    (h : Ok eng b) (hk : Unbatched b k) (hn : next eng b (.turn t) = some b') : Unbatched b' k := by
  obtain ⟨row, hrow, hb⟩ := hk
  refine ⟨row, ?_, hb⟩
  cases t with
  | env v => cases hn; cases v <;> exact hrow
  | call i ws =>
    cases hn
    rcases callAlone_adds hsha h.tables (i := i) k with he | ⟨-, hnone, -⟩
    · exact he.trans hrow
    · exact absurd (hrow.symm.trans hnone) (by simp)

/-- The listed events stay without a batch, up to those that the call completes. -/
theorem answer_listed (hsha : Function.Injective eng.sha256Hex) {st st' : State} {x : Outcome} {o : Ask}
    {a : Except Err o.Res} {Z : Key → Prop} (h : Ok eng st.b) (hZ : ∀ k, Z k → Unbatched st.b k)
    (ho : ownTenant o = true) (ha : answer eng collate st x o = some (st', a)) :
    ∃ Z', Listed.trans Z o a Z' ∧ ∀ k, Z' k → Unbatched st'.b k := by
  have hlists : ∀ {p : Key → InboxRow → Bool} {limit : Nat} {f c i : String} {es : List Go.InboxEntry},
      query collate (st.b.select (fun k row => p k row && unbatched row)) limit f c i x.query = .ok es →
      Lists es (· ∈ es.map entryKey) ∧ (∀ k ∈ es.map entryKey, Unbatched st.b k) ∧
        ∀ e ∈ es, ∃ row, p (entryKey e) row = true := by
    intro p limit f c i es hq
    obtain ⟨hnodup, hrows⟩ := query_entries h hq
    refine ⟨⟨hnodup, rfl⟩, ?_, ?_⟩
    · intro k hk
      obtain ⟨e, he, rfl⟩ := List.mem_map.mp hk
      obtain ⟨row, hrow, hp⟩ := hrows e he
      simp only [unbatched, Bool.and_eq_true, Option.isNone_iff_eq_none] at hp
      exact ⟨row, hrow, hp.2.2⟩
    · intro e he
      obtain ⟨row, -, hp⟩ := hrows e he
      exact ⟨row, (Bool.and_eq_true_iff.mp hp).1⟩
  cases o with
  | listUnbatched limit =>
    cases ha
    cases hq : listUnbatched collate st.b limit x.query with
    | error e => exact ⟨Z, rfl, hZ⟩
    | ok es =>
      obtain ⟨hl, hun, -⟩ := hlists (p := fun _ _ => true) (by simpa [listUnbatched] using hq)
      exact ⟨_, hl, hun⟩
  | listUnbatchedByIDs tenantID partitionKey ruleSet eventIDs =>
    cases ha
    cases hq : listUnbatchedByIDs collate st.b tenantID partitionKey ruleSet eventIDs x.query with
    | error e => exact ⟨Z, rfl, hZ⟩
    | ok es =>
      unfold listUnbatchedByIDs at hq
      split at hq
      · cases hq
        exact ⟨_, ⟨by simp [OfTenant], ⟨by simp, rfl⟩⟩, by simp⟩
      · obtain ⟨hl, hun, hp⟩ := hlists hq
        refine ⟨_, ⟨fun e he => ?_, hl⟩, hun⟩
        obtain ⟨row, hr⟩ := hp e he
        simp only [requested, Bool.and_eq_true, beq_iff_eq] at hr
        exact hr.1.1.1
  | process env members token shard workerID =>
    obtain ⟨-, hb | ⟨_, _, _, _, _, -, hb⟩ | ⟨_, _, _, ho, -⟩⟩ := answer_cases ha
    · exact ⟨Z, rfl, fun k hk => hb ▸ hZ k hk⟩
    · exact ⟨Z, rfl, fun k hk => (hZ k hk).turn hsha h hb⟩
    · cases ho
  | completeBatch tenantID run eventIDs =>
    refine ⟨_, rfl, fun k hk => ?_⟩
    obtain ⟨row, hrow, hb⟩ := hZ k hk.1
    simp only [answer] at ha
    split at ha
    · rename_i b' hc
      cases ha
      obtain ⟨_, hrun, -, -, -, -, -, -, hin⟩ := completeBatch_ok hc
      cases hrun
      refine ⟨row, ?_, hb⟩
      rw [hin, hrow, Option.map_some, if_neg]
      intro has
      simp only [associated, requested, Bool.and_eq_true, beq_iff_eq, List.contains_eq_mem, decide_eq_true_eq] at has
      exact hk.2 ⟨has.1.1.1.1.1.trans (beq_iff_eq.mp ho), has.1.1.2⟩
    · cases ha
      exact ⟨row, hrow, hb⟩
  | _ =>
    cases ha
    exact ⟨Z, rfl, hZ⟩

/-- What is known of the groups: entries of the list under their own keys, no key twice. -/
structure Grouped (es : List Go.InboxEntry) (g : (GroupKey → List Go.InboxEntry) × List GroupKey) : Prop where
  entries : ∀ key, ∀ e ∈ g.1 key, e ∈ es ∧ groupKey e = key
  nodup : g.2.Nodup
  order : ∀ key ∈ g.2, g.1 key ≠ []

theorem groupInboxEntries_grouped (es : List Go.InboxEntry) : Grouped es (groupInboxEntries es) := by
  have hfold : ∀ (xs : List Go.InboxEntry) (g), Grouped es g → xs ⊆ es → Grouped es (xs.foldl addEntry g) := by
    intro xs
    induction xs with
    | nil => exact fun _ hg _ => hg
    | cons e xs ih =>
      intro g hg hsub
      refine ih _ ?_ (fun x hx => hsub (List.mem_cons_of_mem e hx))
      unfold addEntry
      split
      · exact hg
      refine ⟨fun key x hx => ?_, ?_, fun key hkey => ?_⟩
      · simp only [Function.update_apply] at hx
        split at hx
        · rename_i hk
          rcases List.mem_append.mp hx with hx | hx
          · exact hk ▸ hg.entries _ x hx
          · cases List.mem_singleton.mp hx
            exact ⟨hsub List.mem_cons_self, hk.symm⟩
        · exact hg.entries key x hx
      · simp only [List.isEmpty_iff]
        split
        · rename_i hnil
          exact hg.nodup.append (List.nodup_singleton _) (by
            rw [List.disjoint_singleton]
            exact fun hm => hg.order _ hm hnil)
        · exact hg.nodup
      · simp only [Function.update_apply]
        split
        · simp
        rename_i hne
        refine hg.order key ?_
        simp only [List.isEmpty_iff] at hkey
        split at hkey
        · rcases List.mem_append.mp hkey with hk | hk
          · exact hk
          · exact absurd (List.mem_singleton.mp hk) hne
        · exact hkey
  exact hfold es _ ⟨by simp, List.nodup_nil, by simp⟩ (List.Subset.refl es)

section
variable {Z : Key → Prop}

theorem wp_ask {o : Ask} {Q : (Key → Prop) → Except Err o.Res → Prop} (ha : Listed.allowed Z o)
    (h : ∀ a Z', Listed.trans Z o a Z' → Q Z' a) : wp listed (ask o) Q Z :=
  wp_call.mpr ⟨ha, h⟩

theorem wp_processBatchEnvelope {env : EventEnvelope} {members : List String}
    {Q : (Key → Prop) → Except Err (Option Execution) → Prop} (hm : ∀ m ∈ members, Z (env.tenantID, m))
    (hQ : ∀ r, Q Z r) : wp listed (s.processBatchEnvelope env members) Q Z := by
  unfold Service.processBatchEnvelope
  split
  · exact hQ _
  refine wp_bind.mpr (wp_ask trivial ?_)
  rintro a _ rfl
  cases a with
  | error e => exact hQ _
  | ok owner =>
    dsimp only
    split
    · exact hQ _
    refine wp_bind.mpr (wp_ask trivial ?_)
    rintro a _ rfl
    rcases a with e | _ | token
    · exact hQ _
    · exact hQ _
    dsimp only
    split
    · exact hQ _
    refine wp_bind.mpr (wp_caught.mpr (wp_ask hm ?_))
    rintro a _ rfl
    cases a with
    | ok execution => exact hQ _
    | error e =>
      dsimp only
      split <;> exact hQ _

/-- The group is handed over as it was listed, and nothing else is completed. -/
theorem wp_processGroup (tenantID : String) {members : List Go.InboxEntry} {Q : (Key → Prop) → Except Err Nat → Prop}
    (hm : ∀ e ∈ members, e.tenantID = tenantID ∧ Z (entryKey e))
    (hQ : ∀ Z' r, (∀ k, Z k → k ∉ members.map entryKey → Z' k) → Q Z' r) :
    wp listed (s.processGroup members) Q Z := by
  unfold Service.processGroup
  split
  · exact hQ Z _ (fun k hk _ => hk)
  cases members with
  | nil => exact hQ Z _ (fun k hk _ => hk)
  | cons first rest =>
    have hsub : s.limitBatchMembers (first :: rest) ⊆ first :: rest := by
      unfold Service.limitBatchMembers
      split
      · exact List.take_subset _ _
      · exact List.Subset.refl _
    have hfirst : first.tenantID = tenantID := (hm first List.mem_cons_self).1
    have hof : ∀ id ∈ (s.limitBatchMembers (first :: rest)).map (·.eventID),
        Z (first.tenantID, id) ∧ (first.tenantID, id) ∈ (first :: rest).map entryKey := by
      intro id hid
      obtain ⟨e, he, rfl⟩ := List.mem_map.mp hid
      obtain ⟨ht, hz⟩ := hm e (hsub he)
      have hk : (first.tenantID, e.eventID) = entryKey e := by rw [entryKey, ht, hfirst]
      exact ⟨hk ▸ hz, hk ▸ List.mem_map_of_mem (hsub he)⟩
    have hdone : ∀ r, Q (fun k => Z k ∧ ¬ (k.1 = first.tenantID ∧
        k.2 ∈ (s.limitBatchMembers (first :: rest)).map (·.eventID))) r := by
      intro r
      refine hQ _ r (fun k hk hnot => ⟨hk, fun hin => hnot ?_⟩)
      have hk' : (first.tenantID, k.2) = k := Prod.ext hin.1.symm rfl
      exact hk' ▸ (hof k.2 hin.2).2
    have hkept : ∀ r, Q Z r := fun r => hQ Z r (fun k hk _ => hk)
    refine wp_bind.mpr (wp_wrap.mpr (wp_ask trivial ?_))
    rintro a _ rfl
    cases a with
    | error e => exact hkept _
    | ok existing =>
      dsimp only [Except.mapError]
      cases Option.filter (fun run : BatchRun => run.status == .completed) existing with
      | some run =>
        refine wp_bind.mpr (wp_wrap.mpr (wp_ask trivial ?_))
        rintro a _ rfl
        cases a with
        | error e | ok u => exact hdone _
      | none =>
        refine wp_bind.mpr (wp_ask trivial ?_)
        rintro a _ rfl
        cases a with
        | error e => exact hkept _
        | ok now =>
          refine wp_bind.mpr (wp_ofExcept.mpr ?_)
          cases henv : s.buildBatchEnvelope (s.buildBatchInput first (s.limitBatchMembers (first :: rest))) now with
          | error e => exact hkept _
          | ok env =>
            have htenant : env.tenantID = first.tenantID := by
              obtain ⟨data, -, he⟩ := Checks.bind_ok.mp henv
              cases he
              rfl
            refine wp_bind.mpr (wp_processBatchEnvelope (fun m hmem => htenant ▸ (hof m hmem).1) ?_)
            rintro (e | _ | execution)
            · exact hkept _
            · exact hkept _
            · refine wp_bind.mpr (wp_wrap.mpr (wp_ask trivial ?_))
              rintro a _ rfl
              cases a with
              | error e | ok u => exact hdone _

theorem wp_ready {members : List Go.InboxEntry} {Q : (Key → Prop) → Except Err Bool → Prop} (hQ : ∀ r, Q Z r) :
    wp listed (s.ready members) Q Z := by
  unfold Service.ready
  split
  · exact hQ _
  · refine wp_bind.mpr (wp_ask trivial ?_)
    rintro a _ rfl
    cases a <;> exact hQ _
  · exact hQ _

theorem wp_ownsPartition {tenantID partitionKey : String} {Q : (Key → Prop) → Except Err Bool → Prop}
    (hQ : ∀ r, Q Z r) : wp listed (s.ownsPartition tenantID partitionKey) Q Z := by
  unfold Service.ownsPartition
  split
  · exact hQ _
  refine wp_bind.mpr (wp_ask trivial ?_)
  rintro a _ rfl
  cases a <;> exact hQ _

end

/-- Group after group: no event of a group that is still to come is completed before. -/
theorem wp_processReadyGroups {es : List Go.InboxEntry} {groups : GroupKey → List Go.InboxEntry}
    (hnodup : (es.map entryKey).Nodup) (hes : ∀ key, ∀ e ∈ groups key, e ∈ es ∧ groupKey e = key) :
    ∀ {order : List GroupKey} {formed : Nat} {Z : Key → Prop}, order.Nodup →
      (∀ key ∈ order, ∀ e ∈ groups key, Z (entryKey e)) →
      wp listed (s.processReadyGroups groups order formed) (fun _ _ => True) Z := by
  intro order
  induction order with
  | nil => exact fun _ _ => trivial
  | cons key rest ih =>
    intro formed Z ho hZ
    have hrest : ∀ {formed}, wp listed (s.processReadyGroups groups rest formed) (fun _ _ => True) Z :=
      ih (List.nodup_cons.mp ho).2 (fun key' hk => hZ key' (List.mem_cons_of_mem key hk))
    refine wp_bind.mpr (wp_ready (fun r => ?_))
    rcases r with e | _ | _
    · trivial
    · exact hrest
    refine wp_bind.mpr (wp_ownsPartition (fun r => ?_))
    rcases r with e | _ | _
    · trivial
    · exact hrest
    refine wp_bind.mpr (wp_caught.mpr (wp_processGroup key.tenantID ?_ ?_))
    · intro e he
      have he' : e ∈ groups key := (List.mem_insertionSort _).mp he
      exact ⟨congrArg GroupKey.tenantID (hes key e he').2, hZ key List.mem_cons_self e he'⟩
    · intro Z' r hZ'
      cases r with
      | error e => trivial
      | ok count =>
        refine ih (List.nodup_cons.mp ho).2 (fun key' hk e he => hZ' _ ?_ ?_)
        · exact hZ key' (List.mem_cons_of_mem key hk) e he
        -- an event is in one group only
        intro hin
        obtain ⟨e', he', hkey⟩ := List.mem_map.mp hin
        have he'' := hes key e' ((List.mem_insertionSort _).mp he')
        have hsame : e' = e := List.inj_on_of_nodup_map hnodup he''.1 (hes key' e he).1 hkey
        have hkk : key = key' := by rw [← he''.2, hsame, (hes key' e he).2]
        exact (List.nodup_cons.mp ho).1 (hkk ▸ hk)

theorem program_listed (s : Service) (i : Request) : wp listed (i.program s) (fun _ _ => True) (fun _ => False) := by
  cases i with
  | tick =>
    refine wp_map.mpr ?_
    unfold Service.tick
    split
    · trivial
    refine wp_bind.mpr (wp_wrap.mpr (wp_ask trivial ?_))
    intro a Z' ht
    cases a with
    | error e => trivial
    | ok es =>
      obtain ⟨hnodup, rfl⟩ := ht
      obtain ⟨hes, horder, -⟩ := groupInboxEntries_grouped es
      exact wp_processReadyGroups hnodup hes horder (fun key _ e he => List.mem_map_of_mem (hes key e he).1)
  | createBatch tenantID partitionKey ruleSet eventIDs =>
    refine wp_map.mpr (wp_bind.mpr (wp_ofExcept.mpr ?_))
    cases s.validateManualBatchRequest tenantID partitionKey ruleSet eventIDs with
    | error e => trivial
    | ok _ =>
      refine wp_bind.mpr (wp_wrap.mpr (wp_ask trivial ?_))
      intro a Z' ht
      cases a with
      | error e => trivial
      | ok es =>
        obtain ⟨hten, -, rfl⟩ := ht
        refine wp_bind.mpr (wp_ofExcept.mpr ?_)
        cases Service.validateRequestedBatchMembers eventIDs es with
        | error e => trivial
        | ok _ =>
          refine wp_bind.mpr (wp_processGroup tenantID ?_ (fun Z' r _ => ?_))
          · intro e he
            have he' := (List.mem_insertionSort _).mp he
            exact ⟨hten e he', List.mem_map_of_mem he'⟩
          · cases r with
            | error e => trivial
            | ok n => exact wp_ask trivial (fun _ _ _ => trivial)

/-- A call starts when no other is in progress, and completes runs of the tenant of its group only. -/
def orderly (w : World) : WorldAct → Bool
  | .start _ => (sessions w.clients).isEmpty
  | l => (asked w l).all (fun q => ownTenant q.1)

/-- At most one call is in progress, and the events it has listed are without a batch. -/
structure OneCall (eng : Engine) (w : World) : Prop where
  ok : Ok eng w.db.b
  one : ∀ (c c' : Nat) i i' p p' u u', w.clients[c]? = some ⟨i, u, .running p⟩ →
    w.clients[c']? = some ⟨i', u', .running p'⟩ → c = c'
  call : ∀ (c : Nat) i p u, w.clients[c]? = some ⟨i, u, .running p⟩ →
    ∃ Z, (∀ k, Z k → Unbatched w.db.b k) ∧ wp listed p (fun _ _ => True) Z

theorem oneCall_step (hsha : Function.Injective eng.sha256Hex) (h : OneCall eng w) (ho : orderly w l = true)
    (hn : worldNext eng collate s w l = some w') : OneCall eng w' := by
  have hok : Ok eng w'.db.b := ok_world hsha h.ok hn
  have hstop : ∀ (c : Nat) (cl : Client Unit Request Ask Ask.Res Err Formed), (∀ p, cl.phase ≠ .running p) →
      w'.db = w.db → w'.clients = w.clients.set c cl → OneCall eng w' := by
    intro c cl hph hdb hcl
    have hold : ∀ (c' : Nat) i u p, w'.clients[c']? = some ⟨i, u, .running p⟩ →
        w.clients[c']? = some ⟨i, u, .running p⟩ := by
      intro c' i u p hc
      rcases Pool.get_step (hcl ▸ hc) with ⟨-, rfl⟩ | ⟨-, hc⟩
      · exact absurd rfl (hph p)
      · exact hc
    exact ⟨hok, fun c c' i i' p p' u u' h₁ h₂ => h.one c c' i i' p p' u u' (hold _ _ _ _ h₁) (hold _ _ _ _ h₂),
      fun c i p u hc => hdb ▸ h.call c i p u (hold _ _ _ _ hc)⟩
  cases next_step hn with
  | @start i _ _ _ hst =>
    cases hst
    have hnone : ∀ {c : Nat} {i' u' p'}, w.clients[c]? ≠ some ⟨i', u', .running p'⟩ := by
      intro c i' u' p' hc
      have hm := mem_sessions_of hc
      rw [List.isEmpty_iff.mp ho] at hm
      cases hm
    have hnew : ∀ {c : Nat} {i' u' p'}, (w.clients ++ [⟨i, (), .running (i.program s)⟩])[c]? =
        some ⟨i', u', .running p'⟩ → c = w.clients.length ∧ p' = i.program s := by
      intro c i' u' p' hc
      rcases Pool.get_concat hc with ⟨hlen, he⟩ | ⟨-, hc⟩
      · cases he
        exact ⟨hlen, rfl⟩
      · exact absurd hc hnone
    refine ⟨hok, fun c c' _ _ _ _ _ _ h₁ h₂ => (hnew h₁).1.trans (hnew h₂).1.symm, fun c i' p' u' hc => ?_⟩
    obtain ⟨-, rfl⟩ := hnew hc
    exact ⟨_, fun _ hk => hk.elim, program_listed s i⟩
  | @exec c x i u o k _ _ _ hc he =>
    obtain ⟨⟨st, a'⟩, ha, hr⟩ := Option.map_eq_some_iff.mp he
    cases hr
    obtain ⟨Z, hZ, hw⟩ := h.call c i _ u hc
    have hown : ownTenant o = true := by simpa [orderly, asked, hc] using ho
    obtain ⟨Z', ht, hZ'⟩ := answer_listed hsha h.ok hZ hown ha
    have hrun : ∀ {c' : Nat} {i' u' p'}, (w.clients.set c ⟨i, (), .running (k a')⟩)[c']? =
        some ⟨i', u', .running p'⟩ → c = c' ∧ p' = k a' := by
      intro c' i' u' p' hc'
      rcases Pool.get_step hc' with ⟨he, hcl⟩ | ⟨hne, hc'⟩
      · cases hcl
        exact ⟨he.symm, rfl⟩
      · exact absurd (h.one c' c _ _ _ _ _ _ hc' hc) hne
    refine ⟨hok, fun c c' _ _ _ _ _ _ h₁ h₂ => (hrun h₁).1.symm.trans (hrun h₂).1, fun c' i' p' u' hc' => ?_⟩
    obtain ⟨-, rfl⟩ := hrun hc'
    exact ⟨Z', hZ', hw.2 a' Z' ht⟩
  | stop hc hstopped => exact hstop _ _ hstopped.not_running rfl rfl
  | @env t _ ht =>
    refine ⟨hok, h.one, fun c i p u hc => ?_⟩
    obtain ⟨Z, hZ, hw⟩ := h.call c i p u hc
    obtain ⟨d', hd, rfl⟩ := Option.map_eq_some_iff.mp ht
    exact ⟨Z, fun k hk => (hZ k hk).turn (t := t) hsha h.ok (by simp [next, hd]), hw⟩

theorem oneCall_fresh (h : OneCall eng w) : Fresh eng w l := by
  intro x hx
  obtain ⟨⟨o, out⟩, hasked, hex⟩ := Option.bind_eq_some_iff.mp hx
  cases l with
  | exec c y =>
    simp only [asked] at hasked
    split at hasked
    · rename_i i u o' k hc
      cases hasked
      obtain ⟨Z, hZ, hw⟩ := h.call c i _ u hc
      cases o with
      | process env members token shard workerID =>
        simp only [executedBy] at hex
        split at hex <;> cases hex
        exact fun m hm => hZ _ (hw.1 m hm)
      | _ => cases hex
    · cases hasked
  | _ => cases hasked

/-- Calls that do not overlap hand fresh groups to Process. -/
theorem fresh_of_orderly (hsha : Function.Injective eng.sha256Hex) {now : Time} {refs : Reference}
    {ls : List WorldAct} (h : Along (worldNext eng collate s) (fun w l => orderly w l = true)
      (World.init now refs) ls) :
    Along (worldNext eng collate s) (Fresh eng) (World.init now refs) ls := by
  refine along_imp (OneCall eng) (fun _ _ hw _ => oneCall_fresh hw) (fun _ _ _ hw ho hn => oneCall_step hsha hw ho hn)
    ?_ h
  exact ⟨ok_empty now refs, fun c _ _ _ _ _ _ _ hc => by simp [World.init, Clients.empty] at hc,
    fun c _ _ _ hc => by simp [World.init, Clients.empty] at hc⟩

/-- In every run of calls of the service, with events committed, completions failing and calls lost
    at any time, no event is in two executed batches with different IDs exactly when no group shares
    a member with an interrupted batch of another ID, given that the groups are fresh; they are when
    calls do not overlap. -/
theorem executed_once_iff (hsha : Function.Injective eng.sha256Hex) {now : Time} {refs : Reference}
    {ls : List WorldAct} (h : run (worldNext eng collate s) (World.init now refs) ls = some w)
    (hf : Along (worldNext eng collate s) (Fresh eng) (World.init now refs) ls ∨
      Along (worldNext eng collate s) (fun w l => orderly w l = true) (World.init now refs) ls) :
    Apart w.db ↔ Along (worldNext eng collate s) (Retries eng) (World.init now refs) ls := by
  have hfresh : Along (worldNext eng collate s) (Fresh eng) (World.init now refs) ls :=
    hf.elim id (fresh_of_orderly hsha)
  have hstart : Apart (World.init now refs).db := fun x hx => by cases hx
  rw [run_iff_along (fun w => Ok eng w.db.b) (fun w => Apart w.db) (fun _ _ _ hs hn => ok_world hsha hs hn)
    (fun _ _ _ hs hF hn => apart_step hs hF hn) (ok_empty now refs) hfresh h]
  exact and_iff_right hstart

/-! A batch of one event is interrupted after Process has committed; the tick after it is the
    retry, or a second event has come. -/

namespace MemberSample

def sha256Hex : String → String := Text.digest
  [("execution|4:acme|1:a|12:order.placed|1",
    "808b9114a670be8ef4b48f785724a8f9ed75b3830cce16a9db2f21423e2a65df"),
   (Sample.revision.contentHash ++ "a",
    "bd1a83bfca4bd6d8bf1a0060db1bba5da2c22025317fc8038500667004732db0"),
   ("execution|4:acme|1:b|12:order.placed|1",
    "87d04f3cfc92324860df4216d1bd3ca3a4cd5a620328af6362a76a14cbe9e009"),
   (Sample.revision.contentHash ++ "b",
    "d687eeaf30693615c7b42005eb1768a91f64872a07a90da17f70d911daf36230"),
   ("acme|k|order.placed|a",
    "1b62087e5b9e186527ebbe6bbcc18fa209bfa48b82868ae249c8a0ee25f89d1e"),
   ("execution|4:acme|64:1b62087e5b9e186527ebbe6bbcc18fa209bfa48b82868ae249c8a0ee25f89d1e|18:order.placed.batch|1",
    "8c19428bdb0b9e64126885f508a713b66eddaa957a1b611ebb7f2870c406d1c0"),
   (Sample.revision.contentHash ++ "1b62087e5b9e186527ebbe6bbcc18fa209bfa48b82868ae249c8a0ee25f89d1e",
    "a2cb9a534c8be84df948c4805efe4d4b117bde47d0c153893c46770654aa4612"),
   ("acme|k|order.placed|a,b",
    "51d0bf3f5a57e1130b5dafa57412567b847ab83f31b74c75d993fce1e6163a45"),
   ("execution|4:acme|64:51d0bf3f5a57e1130b5dafa57412567b847ab83f31b74c75d993fce1e6163a45|18:order.placed.batch|1",
    "7f06ba1a0eca67004d0272820feaf706d51870f3176fd71083f90dc682815849"),
   (Sample.revision.contentHash ++ "51d0bf3f5a57e1130b5dafa57412567b847ab83f31b74c75d993fce1e6163a45",
    "38b6f93e3d377c02ae64964fa826ee7f37ec5dc7e37b0885d6a8f61c05e907ca"),
   ("acme|k|order.placed|b",
    "29437a50cb7d8dfba9b3552052ab2857cd29decc05970f0cfaeb51a67ba2d923"),
   ("execution|4:acme|64:29437a50cb7d8dfba9b3552052ab2857cd29decc05970f0cfaeb51a67ba2d923|18:order.placed.batch|1",
    "5b17f93b9728483e2ca0ac5bfce538db047f307bd74f925b87c1b9e8fda55133"),
   (Sample.revision.contentHash ++ "29437a50cb7d8dfba9b3552052ab2857cd29decc05970f0cfaeb51a67ba2d923",
    "a4491c25419c4caf2fcafe19e40c0c18cfea64faa76341152d4c70a2032629a0")]

theorem sha256Hex_injective : Function.Injective sha256Hex :=
  Text.digest_injective (by decide) (by decide)

def event (id : String) : EventEnvelope := { Sample.event with id := id }

def refs : Reference where
  activations := [⟨"acme", "order.placed", 1⟩, ⟨"acme", "order.placed.batch", 1⟩]
  revisions := [Sample.revision, { Sample.revision with ruleID := "order.placed.batch" }]
  domains := []
  services := []
  subscriptions := []

/-- The events of the runs occur at the start, the batch events two seconds later. -/
def marshal (e : EventEnvelope) : Except Err RawMessage :=
  .ok ("\x7b\"id\":\"" ++ e.id ++ "\",\"type\":\"" ++ e.type ++ "\",\"tenant_id\":\"acme\",\"partition_key\":\"k\"," ++
    "\"occurred_at\":\"2026-01-01T00:00:0" ++ (if e.type = "order.placed" then "0" else "2") ++ "Z\",\"data\":" ++
    e.data ++ "\x7d")

def marshalBatch (d : BatchData) : Except Err RawMessage :=
  .ok ("\x7b\"batch_id\":\"" ++ d.batchID ++ "\",\"tenant_id\":\"acme\",\"partition_key\":\"k\"," ++
    "\"rule_set\":\"order.placed\",\"window_from\":\"2026-01-01T00:00:00Z\",\"window_to\":\"2026-01-01T00:00:02Z\"," ++
    "\"events\":[" ++ ",".intercalate (d.events.map (fun m =>
      "\x7b\"id\":\"" ++ m.id ++ "\",\"type\":\"order.placed\",\"data\":" ++ m.data ++ "\x7d")) ++ "]\x7d")

def engine : Engine where
  sha256Hex := sha256Hex
  evaluate := Rules.evaluate sha256Hex { Sample.semantics with marshal := marshal }
  marshal := marshal
  rustEvaluate now revision env := (Rules.evaluate sha256Hex Sample.semantics now revision env).map
    (fun d => (d.matchedRules, d.effects))
  rustToValue := marshal

def windowed : Service where
  mode := .window
  maxBatch := 0
  window := 1000000
  events := true
  leases := true
  workerID := "w1"
  numShards := 16
  sha256Hex := sha256Hex
  marshal := marshalBatch

/-- A whole tick, call `c` of the service, whose completion may fail. -/
def ticked (c : Nat) (fail : Option Err) : List WorldAct :=
  [.start .tick] ++ List.replicate 9 (.exec c ⟨none, none, 63902822402000000, true, some 1,
    UnbatchedSample.oracles, ⟨none, none, none, fail⟩⟩) ++ [.finish c]

def turns (calls : List Call) : List WorldAct := calls.map (fun i => .env (.call i UnbatchedSample.oracles))

def commits (id : String) : Call := .rustProcess (event id) "w1" 1 16

/-- An event is committed and batched, and the completion of the batch fails. -/
def interrupted : List WorldAct :=
  turns [.goAcquire 12 "w1" 30000000, commits "a"] ++ ticked 0 (some (.msg "conn closed"))

def runs (ls : List WorldAct) : Option World :=
  run (worldNext engine UnbatchedSample.collate windowed) (World.init 63902822400000000 refs) ls

def members (w : World) : List (List String) := w.db.executed.map Batch.members

end MemberSample

open MemberSample

theorem executed_once_retry :
    ∃ w, runs (interrupted ++ ticked 1 none ++ turns [commits "b"] ++ ticked 2 none) = some w ∧
      members w = [["b"], ["a"], ["a"]] ∧ Apart w.db ∧ Along (worldNext engine UnbatchedSample.collate windowed)
        (Retries engine) (World.init 63902822400000000 refs)
        (interrupted ++ ticked 1 none ++ turns [commits "b"] ++ ticked 2 none) := by
  have hrun : (runs (interrupted ++ ticked 1 none ++ turns [commits "b"] ++ ticked 2 none)).map (·.db.executed) =
      some [⟨"acme", "29437a50cb7d8dfba9b3552052ab2857cd29decc05970f0cfaeb51a67ba2d923", ["b"]⟩,
        ⟨"acme", "1b62087e5b9e186527ebbe6bbcc18fa209bfa48b82868ae249c8a0ee25f89d1e", ["a"]⟩,
        ⟨"acme", "1b62087e5b9e186527ebbe6bbcc18fa209bfa48b82868ae249c8a0ee25f89d1e", ["a"]⟩] := by decide +kernel
  obtain ⟨w, hw, hex⟩ := Option.map_eq_some_iff.mp hrun
  have hapart : Apart w.db := by
    rw [Apart, hex]
    simp [Batch.Apart]
  refine ⟨w, hw, by rw [members, hex]; rfl, hapart, ?_⟩
  exact (executed_once_iff sha256Hex_injective hw (.inr (by decide +kernel))).mp hapart

/-- The second tick takes both events, under another ID, and a is executed twice. -/
theorem batch_executed_twice :
    ∃ w, runs (interrupted ++ turns [commits "b"] ++ ticked 1 none) = some w ∧
      members w = [["a", "b"], ["a"]] ∧ ¬ Apart w.db := by
  have hrun : (runs (interrupted ++ turns [commits "b"] ++ ticked 1 none)).map (·.db.executed) =
      some [⟨"acme", "51d0bf3f5a57e1130b5dafa57412567b847ab83f31b74c75d993fce1e6163a45", ["a", "b"]⟩,
        ⟨"acme", "1b62087e5b9e186527ebbe6bbcc18fa209bfa48b82868ae249c8a0ee25f89d1e", ["a"]⟩] := by decide +kernel
  obtain ⟨w, hw, hex⟩ := Option.map_eq_some_iff.mp hrun
  refine ⟨w, hw, by rw [members, hex]; rfl, ?_⟩
  rw [Apart, hex]
  simp [Batch.Apart]

end FlowRule.Batches
