import FlowRule.Batches.Repository
import FlowRule.Events.Fencing

/- Which events the batch repository offers.

   A call on the events alone adds at most the row of its event, with the batch of its worker:
   an empty text from the Go worker, NULL from the Rust worker (`callAlone_adds`). The queries
   and the completion take NULL for "in no batch", so what the Rust worker has committed is
   offered until it is completed (`Ok`), and what the Go worker has committed never is. -/
namespace FlowRule

open Machine Clients Prog

def Call.batchID : Call → Option String
  | .goProcess _ _ _ _ => some ""
  | _ => none

/-! What a call alone does to the inbox. -/

section
variable {eng : Engine} {i : Call} {d d' : DB} {s s' : Session} {st : Stage} {os : List Session}

theorem only_goProcess (env : EventEnvelope) (token : Int) (shard : Nat) (workerID : String) :
    (Go.process eng env token shard workerID).Only (Marked (some "")) := by
  refine (only_ofExcept _).bind (fun _ => ?_)
  split
  · trivial
  have hheld : (Go.assertHeld shard workerID token).Only (Marked (some "")) := by
    refine ((only_sql).wrap _).bind (fun row => ?_)
    rcases row with _ | ⟨_, _, _⟩
    · trivial
    dsimp only
    repeat' split
    all_goals trivial
  refine ((only_sql).wrap _).bind (fun _ => (hheld.wrap _).bind (fun _ => ?_))
  refine ((only_deduplicateEvent env).mono (fun _ h => h.2)).bind (fun found => ?_)
  cases found with
  | some e => trivial
  | none =>
    refine ((only_loadActiveRevision env).mono (fun _ h => h.2)).bind (fun revision => (only_sql).bind (fun now => ?_))
    refine (only_ofExcept _).bind (fun decision => ?_)
    refine ((only_persistExecutionAndOutbox env _ _).mono (fun _ h => h.2)).bind (fun _ => ?_)
    exact ((only_sql).wrap _).bind (fun _ => trivial)

theorem only_rustProcess (env : EventEnvelope) (workerID : String) (token : Int) (numShards : UInt32) :
    (Rust.processEvent eng env workerID token numShards).Only (Marked none) := by
  refine (only_ofExcept _).bind (fun _ => (only_ofExcept _).bind (fun _ => (only_ofExcept _).bind (fun shard => ?_)))
  have hheld : (Rust.assertLease shard.toNat workerID token).Only (Marked none) := by
    refine (only_ofExcept _).bind (fun _ => (only_sql).bind (fun row => ?_))
    rcases row with _ | ⟨_, _, _⟩
    · trivial
    · dsimp only
      split <;> trivial
  refine ((only_sql).wrap _).bind (fun now => hheld.bind (fun _ => ((only_sql).wrap _).bind (fun inserted => ?_)))
  cases inserted with
  | true =>
    refine ((only_persistNewEvent env now).mono (fun _ h => h.2)).bind (fun _ => ?_)
    exact ((only_sql).wrap _).bind (fun _ => trivial)
  | false =>
    refine ((only_loadDuplicateExecution env).mono (fun _ h => h.2)).bind (fun _ => ?_)
    exact ((only_sql).wrap _).bind (fun _ => trivial)

def issues (A : Op → Prop) : Proto Op Op.Res Err Unit := ⟨fun _ o => A o, fun _ _ _ _ => True⟩

def Call.Inserts (i : Call) (o : Op) : Prop := i.key ≠ none → Marked i.batchID o

theorem program_inserts (eng : Engine) (i : Call) : wp (issues i.Inserts) (i.program eng) (fun _ _ => True) () := by
  have honly : ∀ {p : Tx Reply}, p.Only (Marked i.batchID) → wp (issues i.Inserts) p (fun _ _ => True) () := by
    intro p hp
    exact wp_only (fun _ => True) hp (fun o _ ho _ => ⟨fun _ => ho, fun _ _ _ => trivial⟩)
      (fun _ _ => trivial) (fun _ _ _ => trivial) trivial
  cases i with
  | goProcess env token shard workerID => exact honly ((only_goProcess env token shard workerID).map _)
  | rustProcess env workerID token n => exact honly ((only_rustProcess env workerID token n).map _)
  | _ => exact wp_trivial (fun _ _ h => absurd rfl h) (fun _ _ => trivial)

/-- The inbox is as before, up to a new row for the event of the call. -/
def Adds (i : Call) (d d' : DB) : Prop :=
  ∀ k, d'.tables.inbox k = d.tables.inbox k ∨ (i.key = some k ∧ d.tables.inbox k = none ∧
    ∃ row, d'.tables.inbox k = some row ∧ row.batchID = i.batchID)

theorem Adds.refl (d : DB) : Adds i d d := fun _ => .inl rfl

theorem Adds.trans {d₁ d₂ d₃ : DB} (h₁ : Adds i d₁ d₂) (h₂ : Adds i d₂ d₃) : Adds i d₁ d₃ := by
  intro k
  rcases h₂ k with he | ⟨hk, hnone, hrow⟩
  · rw [he]
    exact h₁ k
  · rcases h₁ k with he | ⟨-, -, row, hrow', -⟩
    · exact .inr ⟨hk, he ▸ hnone, hrow⟩
    · rw [hnone] at hrow'
      cases hrow'

def Call.Wrote (i : Call) (s : Session) : Prop := ∀ k row, s.own.inbox k = some row → row.batchID = i.batchID

theorem perform_adds {o : Op} {a : Except Err o.Res} (hr : Rep eng i d s st) (ha : allowed eng i st o)
    (hm : i.Inserts o) (hs : i.Wrote s) (hp : perform d os s o = some (d', s', a)) : Adds i d d' ∧ i.Wrote s' := by
  have hput : ∀ {key : String × String} {row : InboxRow}, row.batchID = i.batchID →
      i.Wrote (s.putInbox key row) := by
    intro key row hrow k row' h
    simp only [Session.putInbox, Function.update_apply] at h
    split at h
    · cases h
      exact hrow
    · exact hs k row' h
  cases o with
  | clock | begin => cases hp
  | inboxInsert key row =>
    have hrow : row.batchID = i.batchID := hm (by rw [ha.1]; simp)
    simp only [perform] at hp
    repeat' split at hp
    all_goals cases hp
    · exact ⟨.refl d, hs⟩
    · exact ⟨.refl d, hput hrow⟩
  | inboxMarkCommitted key id t only =>
    -- the row that is marked is the one the session has inserted
    obtain ⟨hkey, r, rfl⟩ := ha
    obtain ⟨key', row, hclaim, -, -⟩ := hr
    obtain rfl : key = key' := Option.some.inj (hkey.symm.trans hclaim.isKey)
    have hown : s.own.inbox key = some row := by rw [hclaim.own, Function.update_self]
    simp only [perform, Session.sees, Tables.onto, hown, Option.some_or] at hp
    repeat' split at hp
    all_goals cases hp
    · exact ⟨.refl d, hs⟩
    · exact ⟨.refl d, hput (hs key row hown)⟩
  | commit =>
    cases hp
    refine ⟨?_, fun k row h => by cases h⟩
    obtain ⟨id, r, rfl | rfl⟩ := ha
    · obtain ⟨key, row, hclaim, -⟩ := hr
      intro k
      have hsees : (s.sees d).inbox k = if k = key then some row else d.tables.inbox k := by
        simp only [Session.sees, Tables.onto, hclaim.own, Function.update_apply]
        split <;> simp
      by_cases hk : k = key
      · subst hk
        rw [if_pos rfl] at hsees
        exact .inr ⟨hclaim.isKey, hclaim.free, row, hsees, hs k row (by rw [hclaim.own, Function.update_self])⟩
      · exact .inl (by rw [if_neg hk] at hsees; exact hsees)
    · intro k
      exact .inl (by rw [sees_empty hr.1])
  | _ =>
    simp only [perform] at hp
    repeat' split at hp
    all_goals cases hp
    all_goals first
      | exact ⟨fun _ => .inl rfl, hs⟩
      | exact ⟨fun _ => .inl rfl, fun k row h => by cases h⟩

theorem alone_adds (hsha : Function.Injective eng.sha256Hex) {p : Tx Reply} : ∀ {d d' : DB} {s : Session}
    {st : Stage} {xs : List Oracle} {r : Option (Except Err Reply)}, TablesOk eng d.tables →
    Rep eng i d s st → wp (proto eng i) p (Finishes i) st → wp (issues i.Inserts) p (fun _ _ => True) () →
    i.Wrote s → alone (store eng) p d s xs = (d', r) → Adds i d d' := by
  induction p with
  | ret r | throw e => intro d d' s st xs r' _ _ _ _ _ h; cases h; exact .refl d
  | stmt o k ih =>
    intro d d' s st xs r hd hr hw hi hs h
    cases xs with
    | nil => cases h; exact .refl d
    | cons x xs =>
      simp only [alone] at h
      split at h
      · rename_i d₁ s₁ a he
        have hx : ∀ s₂ ∈ ([] : List Session), Excl s s₂ ∧ Excl s₂ s := by simp
        obtain ⟨hd₁, ⟨st₁, ht, hr₁⟩, -, -⟩ := exec_sound hsha hd hr hw.1 hx he
        have hstep : Adds i d d₁ ∧ i.Wrote s₁ := by
          rcases exec_cases he with ⟨rfl, rfl, -⟩ | ⟨rfl, rfl, -⟩ | ⟨rfl, rfl, -⟩ | hp
          · exact ⟨.refl _, hs⟩
          · exact ⟨.refl _, hs⟩
          · exact ⟨.refl _, fun k row h => by cases h⟩
          · exact perform_adds hr hw.1 hi.1 hs hp
        exact hstep.1.trans (ih a hd₁ hr₁ (hw.2 a st₁ ht) (hi.2 a () trivial) hstep.2 h)
      · cases h; exact .refl d

/-- A call alone adds at most the row of its event, with its batch. -/
theorem callAlone_adds (hsha : Function.Injective eng.sha256Hex) {ws : List Oracle} (hd : TablesOk eng d.tables) :
    Adds i d (callAlone eng d i ws).1 := by
  have hidle : Rep eng i d .idle .idle := rfl
  exact alone_adds hsha hd hidle (program_wp eng i) (program_inserts eng i) (fun _ _ h => by cases h) rfl

end

namespace Batches

variable {eng : Engine} {b b' : Database}

/-! The database over a run. -/

/-- Calls on the events one after another, and completions between them. -/
inductive Step where
  | turn (t : Turn)
  | complete (w : Failures) (run : Option BatchRun) (eventIDs : List String)

def eventOf : Turn → Option Key
  | .call i _ => i.key
  | .env _ => none

def next (eng : Engine) (b : Database) : Step → Option Database
  | .turn t => (turn eng b.db t).map (b.after (eventOf t))
  | .complete w run eventIDs => some ((completeBatch b w run eventIDs).toOption.getD b)

def Database.member (b : Database) (k : Key) : Bool :=
  b.completed.any (fun c => c.1.tenantID == k.1 && c.2.contains k.2)

/-- What holds of the database in every run. A batch in the inbox is that of a completed run with
    the event among its members, or the empty one. -/
structure Ok (eng : Engine) (b : Database) : Prop where
  tables : TablesOk eng b.db.tables
  nodup : b.keys.Nodup
  keys : ∀ k, k ∈ b.keys ↔ b.inbox k ≠ none
  marked : ∀ c ∈ b.completed, c.1.batchID ≠ "" ∧
    ∀ id ∈ c.2, ∃ row, b.inbox (c.1.tenantID, id) = some row ∧ row.batchID = some c.1.batchID
  member : ∀ k row id, b.inbox k = some row → row.batchID = some id → id ≠ "" → b.member k = true

theorem ok_empty (now : Time) (refs : Reference) : Ok eng (.empty now refs) := by
  refine ⟨tablesOk_empty eng, List.nodup_nil, fun k => ?_, by simp [Database.empty], fun k row id h => by cases h⟩
  simp [Database.empty, Database.inbox, DB.empty, Tables.empty]

theorem Ok.after {i : Call} {d : DB} (h : Ok eng b) (ht : TablesOk eng d.tables) (ha : Adds i b.db d)
    {key : Option Key} (hkey : i.key = none ∨ key = i.key) : Ok eng (b.after key d) := by
  have hkept : ∀ {k row}, b.inbox k = some row → (b.after key d).inbox k = some row := by
    intro k row hrow
    rcases ha k with he | ⟨-, hnone, -⟩
    · exact he.trans hrow
    · exact absurd (hrow.symm.trans hnone) (by simp)
  refine ⟨ht, ?_, fun k => ?_, fun c hc => ?_, fun k row id hrow hid hne => ?_⟩
  · refine h.nodup.append (List.Nodup.filter _ (by cases key <;> simp)) ?_
    intro k hk hk'
    have hn := (List.mem_filter.mp hk').2
    simp [hk] at hn
  · simp only [Database.after, List.mem_append, List.mem_filter, Option.mem_toList, Bool.and_eq_true,
      Bool.not_eq_true', List.contains_eq_mem, decide_eq_false_iff_not, Option.isSome_iff_ne_none, h.keys]
    rcases ha k with he | ⟨hk, hnone, row, hrow, -⟩
    · simp only [Database.inbox, he]
      tauto
    · have hkey' : key = some k := by
        rcases hkey with hn | hk'
        · rw [hk] at hn
          cases hn
        · rw [hk', hk]
      simp [Database.inbox, hnone, hrow, hkey']
  · obtain ⟨hne, hrows⟩ := h.marked c hc
    refine ⟨hne, fun id hid => ?_⟩
    obtain ⟨row, hrow, hb⟩ := hrows id hid
    exact ⟨row, hkept hrow, hb⟩
  · rcases ha k with he | ⟨-, -, row', hrow', hb⟩
    · exact h.member k row id (he.symm.trans hrow) hid hne
    · obtain rfl : row' = row := Option.some.inj (hrow'.symm.trans hrow)
      rw [hid] at hb
      cases i <;> cases hb
      exact absurd rfl hne

variable {p : Key → InboxRow → Bool} {ids : List String}

theorem mem_select {r : Key × InboxRow} (h : Ok eng b) :
    r ∈ b.select p ↔ b.inbox r.1 = some r.2 ∧ p r.1 r.2 = true := by
  simp only [Database.select, List.mem_filterMap, Option.bind_eq_some_iff, Option.ite_none_right_eq_some,
    Option.some.injEq, h.keys]
  constructor
  · rintro ⟨k, -, row, hrow, hp, rfl⟩
    exact ⟨hrow, hp⟩
  · rintro ⟨hrow, hp⟩
    exact ⟨r.1, by rw [hrow]; simp, r.2, hrow, hp, rfl⟩

theorem nodup_select (h : Ok eng b) : ((b.select p).map Prod.fst).Nodup := by
  rw [Database.select, List.map_filterMap]
  refine h.nodup.filterMap ?_
  intro k k' x hx hx'
  simp only [Option.mem_def, Option.map_eq_some_iff, Option.bind_eq_some_iff, Option.ite_none_right_eq_some,
    Option.some.injEq] at hx hx'
  obtain ⟨_, ⟨_, -, -, rfl⟩, rfl⟩ := hx
  obtain ⟨_, ⟨_, -, -, rfl⟩, hk⟩ := hx'
  exact hk.symm

/-- A completion has found every member in no batch or in its own, and puts it there. -/
theorem completeBatch_ok {w : Failures} {run : Option BatchRun}
    (h : completeBatch b w run ids = .ok b') : ∃ run', run = some run' ∧ run'.batchID ≠ "" ∧
      (b.select (associated run' ids)).length = ids.length ∧ b'.keys = b.keys ∧
      b'.completed = (run', ids) :: b.completed ∧ b'.db.tables.executions = b.db.tables.executions ∧
      b'.db.tables.outbox = b.db.tables.outbox ∧ ∀ k, b'.inbox k = (b.inbox k).map (fun row =>
        if associated run' ids k row then { row with batchID := some run'.batchID } else row) := by
  obtain ⟨run', hv, h⟩ := Checks.bind_ok.mp h
  obtain ⟨-, -, h⟩ := Checks.bind_ok.mp h
  obtain ⟨-, -, h⟩ := Checks.bind_ok.mp h
  obtain ⟨runs, -, h⟩ := Checks.bind_ok.mp h
  obtain ⟨-, -, h⟩ := Checks.bind_ok.mp h
  obtain ⟨inbox, ha, h⟩ := Checks.bind_ok.mp h
  obtain ⟨-, -, h⟩ := Checks.bind_ok.mp h
  cases h
  obtain ⟨hlen, ha⟩ := Checks.ite_ok.mp ha
  cases ha
  cases run with
  | none => cases hv
  | some run =>
    simp only [validateBatchCompletion, Checks.ite_ok, Checks.map_ok] at hv
    obtain ⟨hid, -, _, -, rfl⟩ := hv
    exact ⟨run, rfl, fun h => hid (.inl h), not_not.mp hlen, rfl, rfl, rfl, rfl, fun k => rfl⟩

theorem completed_marked {run : BatchRun} (h : Ok eng b)
    (hlen : (b.select (associated run ids)).length = ids.length) {id : String} (hid : id ∈ ids) :
    ∃ row, b.inbox (run.tenantID, id) = some row ∧ associated run ids (run.tenantID, id) row = true := by
  have hof : ∀ r ∈ b.select (associated run ids), b.inbox r.1 = some r.2 ∧ associated run ids r.1 r.2 = true ∧
      r.1.1 = run.tenantID ∧ r.1.2 ∈ ids := by
    intro r hr
    obtain ⟨hrow, hp⟩ := (mem_select h).mp hr
    refine ⟨hrow, hp, ?_⟩
    simp only [associated, requested, Bool.and_eq_true, beq_iff_eq, List.contains_eq_mem, decide_eq_true_eq] at hp
    exact ⟨hp.1.1.1.1.1, hp.1.1.2⟩
  -- the selected events are as many as were asked for, all different and all asked for
  have hnodup : ((b.select (associated run ids)).map (fun r => r.1.2)).Nodup := by
    refine List.Nodup.map_on ?_ (List.Nodup.of_map _ (nodup_select h))
    intro r hr r' hr' he
    exact List.inj_on_of_nodup_map (nodup_select h) hr hr'
      (Prod.ext ((hof r hr).2.2.1.trans (hof r' hr').2.2.1.symm) he)
  have hsub : (b.select (associated run ids)).map (fun r => r.1.2) ⊆ ids := by
    intro x hx
    obtain ⟨r, hr, rfl⟩ := List.mem_map.mp hx
    exact (hof r hr).2.2.2
  have hperm := (hnodup.subperm hsub).perm_of_length_le (by simp [hlen])
  obtain ⟨r, hr, he⟩ := List.mem_map.mp (hperm.mem_iff.mpr hid)
  obtain ⟨hrow, hp, ht, -⟩ := hof r hr
  have hkey : r.1 = (run.tenantID, id) := Prod.ext ht he
  exact ⟨r.2, hkey ▸ hrow, hkey ▸ hp⟩

/-- A completion changes nothing but the batch of rows without one. -/
theorem Ok.complete {w : Failures} {run : Option BatchRun} (h : Ok eng b)
    (hc : completeBatch b w run ids = .ok b') : Ok eng b' := by
  obtain ⟨run, rfl, hne, hlen, hkeys, hcomp, hex, hout, hin⟩ := completeBatch_ok hc
  have hrow : ∀ {k row'}, b'.inbox k = some row' → ∃ row, b.inbox k = some row ∧
      row' = if associated run ids k row then { row with batchID := some run.batchID } else row := by
    intro k row' hr
    rw [hin] at hr
    obtain ⟨row, hrow, rfl⟩ := Option.map_eq_some_iff.mp hr
    exact ⟨row, hrow, rfl⟩
  have hback : ∀ {k row}, b.inbox k = some row → ∃ row', b'.inbox k = some row' ∧
      row'.status = row.status ∧ row'.executionID = row.executionID ∧
      (row.batchID = none ∨ row'.batchID = row.batchID) := by
    intro k row hr
    refine ⟨_, by rw [hin, hr]; rfl, ?_⟩
    dsimp only
    split
    · rename_i ha
      simp only [associated, Bool.and_eq_true, Bool.or_eq_true, Option.isNone_iff_eq_none, beq_iff_eq] at ha
      exact ⟨rfl, rfl, ha.2.imp id Eq.symm⟩
    · exact ⟨rfl, rfl, .inr rfl⟩
  refine ⟨⟨?_, ?_, ?_⟩, hkeys ▸ h.nodup, fun k => ?_, ?_, ?_⟩
  · intro id r hr
    obtain ⟨hid, row, hrow, he⟩ := h.tables.execution id r (hex ▸ hr)
    obtain ⟨row', hrow', -, he', -⟩ := hback hrow
    exact ⟨hid, row', hrow', he'.trans he⟩
  · intro k row' hr
    obtain ⟨row, hr₀, rfl⟩ := hrow hr
    obtain ⟨hst, id, r, hid, he, hk⟩ := h.tables.inbox k row hr₀
    obtain ⟨row₂, hr₂, hst₂, hid₂, -⟩ := hback hr₀
    obtain rfl := Option.some.inj (hr₂.symm.trans hr)
    exact ⟨hst₂.trans hst, id, r, hid₂.trans hid, hex ▸ he, hk⟩
  · intro id row hr
    obtain ⟨r, hr', hs⟩ := h.tables.outbox id row (hout ▸ hr)
    exact ⟨r, hex ▸ hr', hs⟩
  · rw [hkeys, h.keys, hin]
    simp
  · intro c hc
    rw [hcomp] at hc
    rcases List.mem_cons.mp hc with rfl | hc
    · refine ⟨hne, fun id hid => ?_⟩
      obtain ⟨row, hr, ha⟩ := completed_marked h hlen hid
      exact ⟨_, by rw [hin, hr, Option.map_some, if_pos ha], rfl⟩
    · obtain ⟨hne', hrows⟩ := h.marked c hc
      refine ⟨hne', fun id hid => ?_⟩
      obtain ⟨row, hr, hb⟩ := hrows id hid
      obtain ⟨row', hr', -, -, hn | hs⟩ := hback hr
      · rw [hb] at hn
        cases hn
      · exact ⟨row', hr', hs.trans hb⟩
  · intro k row' id hr hid hne'
    obtain ⟨row, hr₀, rfl⟩ := hrow hr
    rw [Database.member, hcomp, List.any_cons, Bool.or_eq_true]
    split at hid
    · rename_i ha
      simp only [associated, requested, Bool.and_eq_true, beq_iff_eq] at ha
      exact .inl (by rw [Bool.and_eq_true, beq_iff_eq]; exact ⟨ha.1.1.1.1.1.symm, ha.1.1.2⟩)
    · exact .inr (h.member k row id hr₀ hid hne')

theorem ok_next (hsha : Function.Injective eng.sha256Hex) {l : Step} (h : Ok eng b) (hn : next eng b l = some b') :
    Ok eng b' := by
  cases l with
  | turn t =>
    cases t with
    | call i ws =>
      cases hn
      exact h.after (callAlone_ok hsha h.tables rfl).1 (callAlone_adds hsha h.tables) (.inr rfl)
    | env v =>
      cases hn
      have hsame : (outside b.db v).tables = b.db.tables := by cases v <;> rfl
      have hadds : Adds (.goRelease 0 "") b.db (outside b.db v) := fun k => .inl (by rw [hsame])
      exact h.after (hsame ▸ h.tables) hadds (.inl rfl)
  | complete w run ids =>
    cases hn
    cases hc : completeBatch b w run ids with
    | error e => exact h
    | ok b₁ => exact h.complete hc

/-! What is offered. -/

/-- The entries of the committed events that are in no completed batch. -/
def Database.due (b : Database) : List Go.InboxEntry :=
  (b.select (fun k row => row.status == .committed && !b.member k)).map
    (fun r => entryOf r.1 r.2 (r.2.executionID.getD ""))

/-- The queries return exactly these entries, and exactly those of them that are asked for. -/
def Offered (collate : String → String → Bool) (b : Database) : Prop :=
  (∀ limit : Int, b.keys.length ≤ limit →
    ∃ es, listUnbatched collate b limit none = .ok es ∧ es.Perm b.due) ∧
  ∀ tenantID partitionKey ruleSet eventIDs,
    ∃ es, listUnbatchedByIDs collate b tenantID partitionKey ruleSet eventIDs none = .ok es ∧
      es.Perm (b.due.filter (fun e => e.tenantID == tenantID && e.partitionKey == partitionKey &&
        e.ruleSet == ruleSet && eventIDs.contains e.eventID))

def GoCommits (eng : Engine) (b : Database) : Step → Prop
  | .turn (.call (.goProcess env token shard workerID) ws) => b.inbox env.key = none ∧
      (callAlone eng b.db (.goProcess env token shard workerID) ws).1.tables.inbox env.key ≠ none
  | _ => False

def NoneBlank (b : Database) : Prop := ∀ k row, b.inbox k = some row → row.batchID ≠ some ""

theorem noneBlank_next (hsha : Function.Injective eng.sha256Hex) {l : Step} (h : Ok eng b)
    (hn : next eng b l = some b') : NoneBlank b' ↔ NoneBlank b ∧ ¬ GoCommits eng b l := by
  cases l with
  | turn t =>
    cases t with
    | env v =>
      cases hn
      have hsame : (outside b.db v).tables = b.db.tables := by cases v <;> rfl
      simp [NoneBlank, GoCommits, Database.inbox, Database.after, hsame]
    | call i ws =>
      cases hn
      have ha : Adds i b.db (callAlone eng b.db i ws).1 := callAlone_adds hsha h.tables
      constructor
      · intro hb'
        refine ⟨fun k row hrow => ?_, fun hgo => ?_⟩
        · rcases ha k with he | ⟨-, hnone, -⟩
          · exact hb' k row (he.trans hrow)
          · exact absurd (hrow.symm.trans hnone) (by simp)
        · cases i with
          | goProcess env token shard workerID =>
            obtain ⟨hnone, hsome⟩ := hgo
            rcases ha env.key with he | ⟨-, -, row, hrow, hb⟩
            · exact hsome (he.trans hnone)
            · exact hb' _ row hrow hb
          | _ => exact hgo
      · rintro ⟨hb, hgo⟩ k row hrow hblank
        rcases ha k with he | ⟨hk, hnone, row', hrow', hb'⟩
        · exact hb k row (he.symm.trans hrow) hblank
        obtain rfl : row' = row := Option.some.inj (hrow'.symm.trans hrow)
        rw [hblank] at hb'
        cases i <;> cases hb'
        cases hk
        exact hgo ⟨hnone, by rw [hrow']; simp⟩
  | complete w run ids =>
    cases hn
    cases hc : completeBatch b w run ids with
    | error e => simp [GoCommits, Except.toOption]
    | ok b₁ =>
      obtain ⟨run, rfl, hne, -, -, -, -, -, hin⟩ := completeBatch_ok hc
      show NoneBlank b₁ ↔ NoneBlank b ∧ ¬ False
      simp only [NoneBlank, hin, Option.map_eq_some_iff, not_false_eq_true, and_true]
      constructor
      · intro hb' k row hrow hblank
        refine hb' k _ ⟨row, hrow, if_neg ?_⟩ hblank
        simp [associated, hblank, hne.symm]
      · rintro hb k _ ⟨row, hrow, rfl⟩
        split
        · simpa using hne
        · exact hb k row hrow

theorem query_ok (collate : String → String → Bool) (h : Ok eng b) {limit : Nat}
    {failing scanning iterating : String} (hlimit : (b.select p).length ≤ limit) :
    ∃ es, query collate (b.select p) limit failing scanning iterating none = .ok es ∧
      es.Perm ((b.select p).map (fun r => entryOf r.1 r.2 (r.2.executionID.getD ""))) := by
  have hscan : (b.select p).mapM (scanEntry scanning) =
      .ok ((b.select p).map (fun r => entryOf r.1 r.2 (r.2.executionID.getD ""))) := by
    refine Checks.mapM_eq (fun r hr => ?_)
    obtain ⟨-, id, -, hid, -⟩ := h.tables.inbox r.1 r.2 ((mem_select h).mp hr).1
    simp only [scanEntry, hid, Option.getD_some]
  rw [query, List.take_of_length_le (by rwa [List.length_insertionSort])]
  have hsort := List.perm_insertionSort (fun x y => before collate x y = true) (b.select p)
  obtain ⟨es, hes, hperm⟩ := Checks.mapM_perm hsort.symm hscan
  exact ⟨es, hes, hperm.symm⟩

theorem Ok.batch_of_member (h : Ok eng b) {k : Key} {row : InboxRow} (hrow : b.inbox k = some row)
    (hm : b.member k = true) : ∃ id, row.batchID = some id ∧ id ≠ "" := by
  obtain ⟨c, hc, hk⟩ := List.any_eq_true.mp hm
  simp only [Bool.and_eq_true, beq_iff_eq, List.contains_eq_mem, decide_eq_true_eq] at hk
  obtain ⟨hne, hmarked⟩ := h.marked c hc
  obtain ⟨row', hrow', hid⟩ := hmarked k.2 hk.2
  rw [hk.1, hrow] at hrow'
  cases hrow'
  exact ⟨_, hid, hne⟩

/-- A row without a batch is of no completed batch; one with a batch of its own is. -/
theorem unbatched_iff (h : Ok eng b) (hb : NoneBlank b) {k : Key} {row : InboxRow} (hrow : b.inbox k = some row) :
    unbatched row = (row.status == .committed && !b.member k) := by
  rw [unbatched]
  congr 1
  cases hid : row.batchID with
  | some id =>
    have hm := h.member k row id hrow hid (fun he => hb k row hrow (he ▸ hid))
    simp [hm]
  | none =>
    have hm : b.member k = false := by
      refine Bool.eq_false_iff.mpr fun hm => ?_
      obtain ⟨id, hid', -⟩ := h.batch_of_member hrow hm
      exact absurd (hid.symm.trans hid') (by simp)
    simp [hm]

theorem select_congr {q : Key → InboxRow → Bool} (h : ∀ k row, b.inbox k = some row → p k row = q k row) :
    b.select p = b.select q := by
  refine List.filterMap_congr fun k _ => ?_
  cases hrow : b.inbox k with
  | none => rfl
  | some row => simp [h k row hrow]

theorem filter_select {q : Key → InboxRow → Bool} :
    (b.select p).filter (fun r => q r.1 r.2) = b.select (fun k row => q k row && p k row) := by
  rw [Database.select, List.filter_filterMap]
  refine List.filterMap_congr fun k _ => ?_
  cases b.inbox k with
  | none => rfl
  | some row => cases hp : p k row <;> cases hq : q k row <;> simp [hp, hq]

/-- With a limit that is not less than the inbox, every row without a batch is listed. -/
theorem listUnbatched_ok (collate : String → String → Bool) (h : Ok eng b) {limit : Int}
    (hlimit : b.keys.length ≤ limit) : ∃ es, listUnbatched collate b limit none = .ok es ∧
      es.Perm ((b.select (fun _ row => unbatched row)).map (fun r => entryOf r.1 r.2 (r.2.executionID.getD ""))) := by
  refine query_ok collate h ?_
  have hle : (b.select (fun _ row => unbatched row)).length ≤ b.keys.length := List.length_filterMap_le _ _
  split <;> omega

theorem offered_iff (collate : String → String → Bool) (h : Ok eng b) : Offered collate b ↔ NoneBlank b := by
  constructor
  · intro ho k row hrow hblank
    -- the row is due and in no answer of the query
    obtain ⟨es, hes, hperm⟩ := ho.1 b.keys.length le_rfl
    obtain ⟨es', hes', hperm'⟩ := listUnbatched_ok collate h le_rfl
    rw [hes] at hes'
    cases hes'
    have hm : b.member k = false := by
      refine Bool.eq_false_iff.mpr fun hm => ?_
      obtain ⟨id, hid, hne⟩ := h.batch_of_member hrow hm
      exact hne (Option.some.inj (hid.symm.trans hblank))
    have hdue : entryOf k row (row.executionID.getD "") ∈ b.due :=
      List.mem_map.mpr ⟨(k, row), (mem_select h).mpr ⟨hrow, by simp [hm, (h.tables.inbox k row hrow).1]⟩, rfl⟩
    obtain ⟨r, hr, he⟩ := List.mem_map.mp (hperm'.mem_iff.mp (hperm.mem_iff.mpr hdue))
    obtain ⟨hrow', hun⟩ := (mem_select h).mp hr
    simp only [entryOf, Go.InboxEntry.mk.injEq] at he
    obtain rfl : r.1 = k := Prod.ext he.1 he.2.1
    rw [hrow] at hrow'
    cases hrow'
    simp [unbatched, hblank] at hun
  · intro hb
    have hsame : ∀ k row, b.inbox k = some row → unbatched row = (row.status == .committed && !b.member k) :=
      fun k row hrow => unbatched_iff h hb hrow
    constructor
    · intro limit hlimit
      obtain ⟨es, hes, hperm⟩ := listUnbatched_ok collate h hlimit
      exact ⟨es, hes, by rwa [select_congr hsame] at hperm⟩
    · intro tenantID partitionKey ruleSet eventIDs
      rw [Database.due, List.filter_map, ← select_congr hsame]
      have hfilter := filter_select (b := b) (p := fun _ row => unbatched row)
        (q := requested tenantID partitionKey ruleSet eventIDs)
      unfold listUnbatchedByIDs
      split
      · rename_i hnil
        refine ⟨[], rfl, ?_⟩
        simp [hnil]
      · obtain ⟨es, hes, hperm⟩ := query_ok collate h
          (p := fun k row => requested tenantID partitionKey ruleSet eventIDs k row && unbatched row) le_rfl
        refine ⟨es, hes, ?_⟩
        rw [← hfilter] at hperm
        exact hperm

/-- After calls on the events and completions, in any order, the queries offer exactly the
    committed events that are in no completed batch, unless a call of the Go worker has committed
    an event. -/
theorem unbatched_offered_iff (hsha : Function.Injective eng.sha256Hex) (collate : String → String → Bool)
    {now : Time} {refs : Reference} {ls : List Step} (h : run (next eng) (.empty now refs) ls = some b) :
    Offered collate b ↔ Along (next eng) (fun s l => ¬ GoCommits eng s l) (.empty now refs) ls := by
  have hok : Ok eng b := run_invariant (Ok eng) (ok_empty now refs) (fun _ _ _ hs hn => ok_next hsha hs hn) h
  have hblank : NoneBlank (.empty now refs) := fun k row hrow => by cases hrow
  rw [offered_iff collate hok, run_iff_along (Ok eng) NoneBlank (fun _ _ _ hs hn => ok_next hsha hs hn)
    (fun _ _ _ hs _ hn => noneBlank_next hsha hs hn) (ok_empty now refs) (along_trivial (fun _ _ => trivial)) h]
  exact and_iff_right hblank

/-! An event that a worker of each kind commits, and that is then batched. -/

namespace UnbatchedSample

open Sample (event refs)

def oracles : List Oracle := List.replicate 20 ⟨none, 63902822401000000⟩

def run : BatchRun where
  batchID := "b-1"
  tenantID := "acme"
  partitionKey := "k"
  ruleSet := "order.placed"
  status := .completed
  memberCount := 1
  executionID := "x-1"
  decisionHash := "h"
  windowFrom := none
  windowTo := none
  createdAt := 0

/-- A worker takes the shard and makes the calls; then the first event is batched. -/
def steps (calls : List Call) : List Step :=
  (Call.goAcquire 12 "w1" 30000000 :: calls).map (fun call => .turn (.call call oracles)) ++
    [.complete .none (some run) ["o-1"]]

def twoEvents : List Step :=
  steps [.rustProcess event "w1" 1 16, .rustProcess { event with id := "o-2" } "w1" 1 16]

def start : Database := .empty 63902822400000000 refs

def collate (x y : String) : Bool := decide (x ≤ y)

/-- How many events there are, are listed and are due, and how many batches are completed. -/
def counts (b : Database) : Nat × Option Nat × Nat × Nat :=
  (b.keys.length, ((listUnbatched collate b 10 none).toOption.map List.length), b.due.length, b.completed.length)

end UnbatchedSample

open UnbatchedSample

/-- Of two events that the Rust worker has committed, the one that is not batched is offered. -/
theorem unbatched_offered_rust :
    ∃ b, Machine.run (next Sample.engine) start twoEvents = some b ∧ counts b = (2, some 1, 1, 1) ∧
      Offered collate b := by
  have hrun : (Machine.run (next Sample.engine) start twoEvents).map counts = some (2, some 1, 1, 1) := by
    decide +kernel
  obtain ⟨b, hb, hcounts⟩ := Option.map_eq_some_iff.mp hrun
  refine ⟨b, hb, hcounts, (unbatched_offered_iff Sample.sha256Hex_injective collate hb).mpr ?_⟩
  exact ⟨id, fun _ _ => ⟨id, fun _ _ => ⟨id, fun _ _ => ⟨id, fun _ _ => trivial⟩⟩⟩⟩

/-- What the Go worker has committed is due and not listed, and cannot be completed. -/
theorem go_event_not_offered :
    ∃ b, Machine.run (next Sample.engine) start (steps [.goProcess Sample.event 1 12 "w1"]) = some b ∧
      counts b = (1, some 0, 1, 0) ∧ ¬ Offered collate b := by
  have hrun : (Machine.run (next Sample.engine) start (steps [.goProcess Sample.event 1 12 "w1"])).map counts =
      some (1, some 0, 1, 0) := by decide +kernel
  obtain ⟨b, hb, hcounts⟩ := Option.map_eq_some_iff.mp hrun
  refine ⟨b, hb, hcounts, fun ho => ?_⟩
  simp only [counts, Prod.mk.injEq] at hcounts
  obtain ⟨hkeys, hlisted, hdue, -⟩ := hcounts
  obtain ⟨es, hes, hperm⟩ := ho.1 10 (by rw [hkeys]; decide)
  rw [hes] at hlisted
  have hnone : es.length = 0 := Option.some.inj hlisted
  rw [hperm.length_eq, hdue] at hnone
  cases hnone

end Batches

end FlowRule
