import FlowRule.Events.Calls

/- The protocol of event transactions, and that the database keeps to it.

   A transaction goes through the stages of `Stage`; `proto` says what each stage permits and
   what its statements can answer there. `TablesOk` is the state of the committed tables and
   `Rep` what a stage means for database and session. `store_sound` shows, statement by
   statement, that the tables stay `TablesOk`, that the statement answers as the protocol
   says, and that no other transaction is disturbed: two open transactions never have an inbox
   row of the same event (`Excl`), and committed rows are never lost (`Grows`). -/
namespace FlowRule

open Clients

/-! The protocol. -/

inductive Stage where
  | idle
  | clean
  | found (id : String) (r : ExecutionRow)
  | claimed
  | executed (id : String) (r : ExecutionRow)
  | settled (id : String) (r : ExecutionRow)
  | committed (id : String) (r : ExecutionRow)
  | confirmed (id : String) (r : ExecutionRow)
  | ended

def ExecutionRow.idOf (eng : Engine) (r : ExecutionRow) : String :=
  computeExecutionID eng.sha256Hex r.tenantID r.eventID r.ruleSet r.revision

/-- The Rust worker leaves the error of an execution and the last errors of its effects NULL:
    an effect of an execution without an error text has none either. -/
def SameWriter (r : ExecutionRow) (row : OutboxRow) : Prop := r.error = none → row.lastError = none

def allowed (eng : Engine) (i : Call) (st : Stage) : Op → Prop
  | .clock => ∀ id r, st ≠ .committed id r
  | .begin => st = .idle ∨ st = .ended
  | .assertHeld _ _ => st = .clean
  | .inboxGet key => i.key = some key ∧ (st = .clean ∨ ∃ id r, st = .found id r)
  | .inboxInsert key row => i.key = some key ∧ st = .clean ∧ row.status = .processing
  | .inboxMarkCommitted key id _ _ => i.key = some key ∧ ∃ r, st = .executed id r
  | .executionGet id => ∃ r, st = .found id r
  | .executionExists id => ∃ r, st = .found id r
  | .executionInsert id r _ => st = .claimed ∧ i.key = some r.key ∧ id = r.idOf eng
  | .outboxInsert _ row => ∃ r, st = .executed row.executionID r ∧ SameWriter r row
  | .activationGet _ _ => st = .claimed
  | .revisionGetActive _ _ => st = .claimed
  | .subscribersGet _ _ _ => st = .claimed ∨ ∃ id r, st = .executed id r
  | .commit => ∃ id r, st = .settled id r ∨ st = .found id r
  | .leaseUpsert _ _ _ => st = .clean
  | .leaseRenew _ _ _ => st = .clean
  | .leaseRelease _ _ => st = .clean
  | .leaseGet _ => st = .clean

def trans (st : Stage) : (o : Op) → Except Err o.Res → Stage → Prop
  | _, .error _, st' => st' = .ended
  | .clock, .ok _, st' => st' = st
  | .begin, .ok _, st' => st' = .clean
  | .assertHeld _ _, .ok _, st' => st' = st
  | .inboxGet _, .ok none, st' => st = .clean ∧ st' = st
  | .inboxGet _, .ok (some row), st' => ∃ id r, row.executionID = some id ∧ st' = .found id r
  | .inboxInsert _ _, .ok true, st' => st' = .claimed
  | .inboxInsert _ _, .ok false, st' => ∃ id r, st' = .found id r
  | .inboxMarkCommitted _ _ _ _, .ok n, st' =>
      n = (1 : Nat) ∧ ∃ id r, st = .executed id r ∧ st' = .settled id r
  | .executionGet id, .ok x, st' => ∃ r, x = some r ∧ st = .found id r ∧ st' = st
  | .executionExists _, .ok x, st' => x = true ∧ st' = st
  | .executionInsert id r _, .ok _, st' => st' = .executed id r
  | .outboxInsert _ _, .ok _, st' => st' = st
  | .activationGet _ _, .ok _, st' => st' = st
  | .revisionGetActive _ _, .ok _, st' => st' = st
  | .subscribersGet _ _ _, .ok _, st' => st' = st
  | .commit, .ok _, st' => ∃ id r, (st = .settled id r ∧ st' = .committed id r) ∨
      (st = .found id r ∧ st' = .confirmed id r)
  | .leaseUpsert _ _ _, .ok _, st' => st' = .ended
  | .leaseRenew _ _ _, .ok _, st' => st' = .ended
  | .leaseRelease _ _, .ok _, st' => st' = .ended
  | .leaseGet _, .ok _, st' => st' = st

def proto (eng : Engine) (i : Call) : Prog.Proto Op Op.Res Err Stage := ⟨allowed eng i, trans⟩

/-! What the stages mean. -/

section
variable (eng : Engine)

structure TablesOk (t : Tables) : Prop where
  execution : ∀ id r, t.executions id = some r →
    id = r.idOf eng ∧ ∃ row, t.inbox r.key = some row ∧ row.executionID = some id
  inbox : ∀ k row, t.inbox k = some row →
    row.status = .committed ∧ ∃ id r, row.executionID = some id ∧ t.executions id = some r ∧ r.key = k
  outbox : ∀ id row, t.outbox id = some row → ∃ r, t.executions row.executionID = some r ∧ SameWriter r row

structure Grows (t t' : Tables) : Prop where
  executions : ∀ id r, t.executions id = some r → t'.executions id = some r
  inbox : ∀ k row, t.inbox k = some row → t'.inbox k = some row

/-- The execution `id` of the call's event is on record. -/
def Recorded (i : Call) (d : DB) (id : String) (r : ExecutionRow) : Prop :=
  d.tables.executions id = some r ∧ i.key = some r.key ∧
    ∃ row, d.tables.inbox r.key = some row ∧ row.executionID = some id

/-- The session has written `row` into the inbox under its event, and nobody else has. -/
structure Claim (i : Call) (d : DB) (s : Session) (key : String × String) (row : InboxRow) : Prop where
  isKey : i.key = some key
  own : s.own.inbox = Function.update (fun _ => none) key (some row)
  free : d.tables.inbox key = none

/-- The session has written the execution `id` and effects of it. -/
structure Wrote (s : Session) (key : String × String) (id : String) (r : ExecutionRow) : Prop where
  own : s.own.executions = Function.update (fun _ => none) id (some r)
  isKey : r.key = key
  isID : id = r.idOf eng
  outbox : ∀ eid row, s.own.outbox eid = some row → row.executionID = id ∧ SameWriter r row

def Rep (i : Call) (d : DB) (s : Session) : Stage → Prop
  | .idle | .clean | .ended => s.own = .empty
  | .found id r | .committed id r | .confirmed id r => s.own = .empty ∧ Recorded i d id r
  | .claimed => ∃ key row, Claim i d s key row ∧ row.status = .processing ∧
      s.own.executions = (fun _ => none) ∧ s.own.outbox = (fun _ => none)
  | .executed id r => ∃ key row, Claim i d s key row ∧ row.status = .processing ∧ Wrote eng s key id r
  | .settled id r => ∃ key row, Claim i d s key row ∧ row.status = .committed ∧
      row.executionID = some id ∧ Wrote eng s key id r

def Excl (s s' : Session) : Prop := ∀ k, s.own.inbox k ≠ none → s'.own.inbox k = none

def Finishes (i : Call) (st : Stage) : Except Err Reply → Prop
  | .error _ => ∀ id r, st ≠ .committed id r
  | .ok (.execution e) => ∃ r, (st = .found e.id r ∨ st = .committed e.id r) ∧ Go.scanExecution e.id r = .ok e
  | .ok (.outcome (.processed id hash _)) => ∃ r, st = .committed id r ∧ r.decisionHash = hash ∧ r.error = none
  | .ok (.outcome (.duplicate id)) => ∃ r, st = .confirmed id r
  | .ok _ => i.key = none ∧ ∀ id r, st ≠ .committed id r

def Post (i : Call) (d : DB) : Except Err Reply → Prop
  | .ok (.execution e) => ∃ r, Recorded i d e.id r ∧ Go.scanExecution e.id r = .ok e
  | .ok (.outcome (.processed id hash _)) => ∃ r, Recorded i d id r ∧ r.decisionHash = hash ∧ r.error = none
  | .ok (.outcome (.duplicate id)) => ∃ r, Recorded i d id r
  | .ok _ => i.key = none
  | .error _ => True

def view : View DB Session Call Err Reply Stage where
  glob d := TablesOk eng d.tables
  rep := Rep eng
  excl := Excl
  post := Post
  fin := Finishes

end

/-! What a change of the committed data keeps. -/

section
variable {eng : Engine} {i : Call} {d d' : DB} {s : Session}

theorem Grows.refl (t : Tables) : Grows t t := ⟨fun _ _ h => h, fun _ _ h => h⟩

theorem Recorded.grows {id : String} {r : ExecutionRow} (h : Recorded i d id r)
    (hg : Grows d.tables d'.tables) : Recorded i d' id r := by
  obtain ⟨he, hk, row, hrow, hid⟩ := h
  exact ⟨hg.executions _ _ he, hk, row, hg.inbox _ _ hrow, hid⟩

theorem Post.grows {r : Except Err Reply} (h : Post i d r) (hg : Grows d.tables d'.tables) : Post i d' r := by
  match r with
  | .error _ => trivial
  | .ok (.execution e) | .ok (.outcome (.processed id hash _)) =>
    obtain ⟨r, hr, hs⟩ := h
    exact ⟨r, hr.grows hg, hs⟩
  | .ok (.outcome (.duplicate id)) =>
    obtain ⟨r, hr⟩ := h
    exact ⟨r, hr.grows hg⟩
  | .ok (.lease _) | .ok (.token _) | .ok (.leases _) | .ok (.renewed _) | .ok .released => exact h

/-- A stage outlives a change of the committed tables that keeps the rows and leaves the
    session's own event out of the inbox. -/
theorem Rep.mono {st : Stage} (h : Rep eng i d s st) (hg : Grows d.tables d'.tables)
    (hf : ∀ k, s.own.inbox k ≠ none → d.tables.inbox k = none → d'.tables.inbox k = none) : Rep eng i d' s st := by
  have claim : ∀ {key row}, Claim i d s key row → Claim i d' s key row := by
    intro key row hc
    exact ⟨hc.isKey, hc.own, hf key (by rw [hc.own]; simp) hc.free⟩
  cases st with
  | idle | clean | ended => exact h
  | found | committed | confirmed => exact ⟨h.1, h.2.grows hg⟩
  | claimed | executed | settled =>
    obtain ⟨key, row, hc, rest⟩ := h
    exact ⟨key, row, claim hc, rest⟩

end

/-! One statement. -/

section
variable {eng : Engine} {i : Call} {d d' : DB} {os : List Session} {s s' : Session} {st : Stage}

structure StepOk (eng : Engine) (i : Call) (d : DB) (os : List Session) (st : Stage) (o : Op)
    (d' : DB) (s' : Session) (a : Except Err o.Res) : Prop where
  tables : TablesOk eng d'.tables
  moves : ∃ st', trans st o a st' ∧ Rep eng i d' s' st'
  excl : ∀ s₂ ∈ os, Excl s' s₂ ∧ Excl s₂ s'
  keeps : Keeps (view eng) d d' os

theorem keeps_same : Keeps (view eng) d d os := ⟨fun _ _ _ _ h => h, fun _ _ h => h⟩

variable {o : Op} {key : String × String} {row : InboxRow} {id : String} {r : ExecutionRow} {w : Oracle}

/-- A statement that only reads, or that writes no inbox row of another event. -/
theorem StepOk.keep {a : Except Err o.Res} (hd : TablesOk eng d.tables) (hx : ∀ s₂ ∈ os, Excl s s₂ ∧ Excl s₂ s)
    (hi : ∀ k, s'.own.inbox k = none ↔ s.own.inbox k = none) (hm : ∃ st', trans st o a st' ∧ Rep eng i d s' st') :
    StepOk eng i d os st o d s' a := by
  refine ⟨hd, hm, ?_, keeps_same⟩
  intro s₂ hs₂
  obtain ⟨h₁, h₂⟩ := hx s₂ hs₂
  refine ⟨fun k hk => h₁ k (fun h => hk ((hi k).mpr h)), fun k hk => (hi k).mpr (h₂ k hk)⟩

theorem excl_empty (h : s.own = .empty) (s₂ : Session) : Excl s s₂ ∧ Excl s₂ s := by
  refine ⟨fun k hk => ?_, fun k _ => by rw [h]; rfl⟩
  rw [h] at hk
  exact absurd rfl hk

theorem StepOk.fail {e : Err} (hd : TablesOk eng d.tables) (hs : s'.own = .empty) :
    StepOk eng i d os st o d s' (.error e) :=
  ⟨hd, ⟨.ended, by cases o <;> rfl, hs⟩,
    fun s₂ _ => excl_empty hs s₂, keeps_same⟩

theorem sees_empty (h : s.own = .empty) : s.sees d = d.tables := by
  rw [Session.sees, h, Tables.empty_onto]

theorem TablesOk.recorded (hd : TablesOk eng d.tables) (hk : i.key = some key) (h : d.tables.inbox key = some row) :
    ∃ id r, row.executionID = some id ∧ Recorded i d id r := by
  obtain ⟨-, id, r, hid, he, hr⟩ := hd.inbox key row h
  exact ⟨id, r, hid, he, hr ▸ hk, row, hr ▸ h, hid⟩

theorem TablesOk.no_execution (hd : TablesOk eng d.tables) (h : d.tables.inbox key = none)
    (he : d.tables.executions id = some r) : r.key ≠ key := by
  intro hk
  obtain ⟨-, row, hrow, -⟩ := hd.execution id r he
  rw [hk, h] at hrow
  cases hrow

theorem TablesOk.id_free (hsha : Function.Injective eng.sha256Hex) (hd : TablesOk eng d.tables)
    (h : d.tables.inbox r.key = none) : d.tables.executions (r.idOf eng) = none := by
  cases he : d.tables.executions (r.idOf eng) with
  | none => rfl
  | some r' =>
    obtain ⟨hid, -⟩ := hd.execution _ r' he
    obtain ⟨ht, hev, -, -⟩ := computeExecutionID_inj hsha hid
    exact absurd (by simp [ExecutionRow.key, ht, hev]) (hd.no_execution h he)

/-! The commit. -/

/-- Publishing a settled transaction keeps every committed row and the tables in order. -/
theorem settled_commit (hsha : Function.Injective eng.sha256Hex) (hd : TablesOk eng d.tables)
    (hc : Claim i d s key row) (hst : row.status = .committed) (hid : row.executionID = some id)
    (hw : Wrote eng s key id r) : TablesOk eng (s.sees d) ∧ Grows d.tables (s.sees d) ∧
      (s.sees d).inbox key = some row ∧ (s.sees d).executions id = some r := by
  have hfree : d.tables.executions id = none := by
    rw [hw.isID]
    exact hd.id_free hsha (hw.isKey ▸ hc.free)
  have hin : ∀ k, (s.sees d).inbox k = if k = key then some row else d.tables.inbox k := by
    intro k
    simp only [Session.sees, Tables.onto, hc.own, Function.update_apply]
    split <;> simp
  have hex : ∀ k, (s.sees d).executions k = if k = id then some r else d.tables.executions k := by
    intro k
    simp only [Session.sees, Tables.onto, hw.own, Function.update_apply]
    split <;> simp
  have hgrow : Grows d.tables (s.sees d) := by
    refine ⟨fun k x hk => ?_, fun k x hk => ?_⟩
    · rw [hex, if_neg (by rintro rfl; rw [hfree] at hk; cases hk), hk]
    · rw [hin, if_neg (by rintro rfl; rw [hc.free] at hk; cases hk), hk]
  refine ⟨⟨?_, ?_, ?_⟩, hgrow, by rw [hin, if_pos rfl], by rw [hex, if_pos rfl]⟩
  · intro k x hk
    rw [hex] at hk
    split at hk
    · rename_i hki
      cases hk
      exact ⟨hki ▸ hw.isID, row, by rw [hin, if_pos hw.isKey], hki ▸ hid⟩
    · obtain ⟨h₁, row', h₂, h₃⟩ := hd.execution k x hk
      exact ⟨h₁, row', hgrow.inbox _ _ h₂, h₃⟩
  · intro k x hk
    rw [hin] at hk
    split at hk
    · rename_i hkk
      cases hk
      exact ⟨hst, id, r, hid, by rw [hex, if_pos rfl], hkk ▸ hw.isKey⟩
    · obtain ⟨h₁, id', r', h₂, h₃, h₄⟩ := hd.inbox k x hk
      exact ⟨h₁, id', r', h₂, hgrow.executions _ _ h₃, h₄⟩
  · intro k x hk
    simp only [Session.sees, Tables.onto, Option.or_eq_some_iff] at hk
    rcases hk with hk | ⟨-, hk⟩
    · obtain ⟨hid', hsame⟩ := hw.outbox k x hk
      exact ⟨r, by rw [hid', hex, if_pos rfl], hsame⟩
    · obtain ⟨r', hr', hsame⟩ := hd.outbox k x hk
      exact ⟨r', hgrow.executions _ _ hr', hsame⟩

/-- Other transactions are not disturbed by a change of the tables that keeps committed
    rows and adds only inbox rows of `s`. -/
theorem keeps_tables (hx : ∀ s₂ ∈ os, Excl s s₂ ∧ Excl s₂ s) (hg : Grows d.tables (s.sees d)) :
    Keeps (view eng) d { d with tables := s.sees d } os := by
  refine ⟨fun i₂ st₂ s₂ hs₂ hr => hr.mono hg ?_, fun i₂ r hp => hp.grows hg⟩
  intro k hk hnone
  simp only [Session.sees, Tables.onto, (hx s₂ hs₂).2 k hk, hnone, Option.or_none]

/-! The statements that do more than read their own tables. -/

section
variable (hd : TablesOk eng d.tables) (hx : ∀ s₂ ∈ os, Excl s s₂ ∧ Excl s₂ s)
include hd

/-- Claiming an event: it is in nobody's inbox rows afterwards but in the session's own. -/
theorem inboxInsert_sound (hown : s.own = .empty) (hk : i.key = some key) (hrow : row.status = .processing)
    (hnone : ¬((s.sees d).inbox key).isSome) (hfree : ¬os.any (fun x => (x.own.inbox key).isSome)) :
    StepOk eng i d os st (.inboxInsert key row) d (s.putInbox key row) (.ok true) := by
  rw [sees_empty hown] at hnone
  have hothers : ∀ s₂ ∈ os, s₂.own.inbox key = none := by
    simpa using hfree
  have hput : ∀ k, (s.putInbox key row).own.inbox k ≠ none → k = key := by
    intro k hne
    by_contra hkk
    apply hne
    simp [Session.putInbox, hown, Tables.empty, hkk]
  refine ⟨hd, ⟨_, rfl, key, row, ⟨hk, ?_, by simpa using hnone⟩, hrow, ?_, ?_⟩, ?_, keeps_same⟩
  · simp [Session.putInbox, hown, Tables.empty]
  · simp [Session.putInbox, hown, Tables.empty]
  · simp [Session.putInbox, hown, Tables.empty]
  · intro s₂ hs₂
    refine ⟨fun k hne => hput k hne ▸ hothers s₂ hs₂, fun k hne => ?_⟩
    by_contra hkk
    exact hne (hput k hkk ▸ hothers s₂ hs₂)

include hx

theorem commit_sound (hsha : Function.Injective eng.sha256Hex) (hr : Rep eng i d s st) (ha : allowed eng i st .commit) :
    StepOk eng i d os st .commit { d with tables := s.sees d } s.close (.ok ()) := by
  obtain ⟨id, r, hp⟩ := ha
  rcases hp with rfl | rfl
  · obtain ⟨key, row, hc, hst, hid, hw⟩ := hr
    obtain ⟨hok, hgrow, hrow, hexec⟩ := settled_commit hsha hd hc hst hid hw
    refine ⟨hok, ⟨_, ⟨id, r, .inl ⟨rfl, rfl⟩⟩, ⟨rfl, hexec, ?_⟩⟩,
      fun s₂ _ => excl_empty rfl s₂, keeps_tables hx hgrow⟩
    exact ⟨hw.isKey ▸ hc.isKey, row, hw.isKey ▸ hrow, hid⟩
  · obtain ⟨ho, hrec⟩ := hr
    rw [sees_empty ho]
    exact ⟨hd, ⟨_, ⟨id, r, .inr ⟨rfl, rfl⟩⟩, ⟨rfl, hrec⟩⟩,
      fun s₂ _ => excl_empty rfl s₂, keeps_same⟩

theorem inboxGet_sound (hr : Rep eng i d s st) (ha : allowed eng i st (.inboxGet key)) :
    StepOk eng i d os st (.inboxGet key) d s (.ok ((s.sees d).inbox key)) := by
  obtain ⟨hk, hst⟩ := ha
  refine .keep hd hx (fun k => Iff.rfl) ?_
  have hown : s.own = .empty := by
    rcases hst with rfl | ⟨id, r, rfl⟩
    · exact hr
    · exact hr.1
  rw [sees_empty hown]
  cases hrow : d.tables.inbox key with
  | some row =>
    obtain ⟨id, r, hid, hrec⟩ := hd.recorded hk hrow
    exact ⟨_, ⟨id, r, hid, rfl⟩, hown, hrec⟩
  | none =>
    rcases hst with rfl | ⟨id, r, rfl⟩
    · exact ⟨_, ⟨rfl, rfl⟩, hr⟩
    -- the event of a found execution is in the inbox
    obtain ⟨-, -, hkey, row, hin, -⟩ := hr
    rw [hk, Option.some.injEq] at hkey
    rw [← hkey, hrow] at hin
    cases hin

theorem inboxMarkCommitted_sound {at_ : Time} {only : Bool} (hc : Claim i d s key row) (hw : Wrote eng s key id r) :
    StepOk eng i d os (.executed id r) (.inboxMarkCommitted key id at_ only) d (s.putInbox key (row.commit id at_))
      (.ok (1 : Nat)) := by
  have hput : (s.putInbox key (row.commit id at_)).own.inbox
      = Function.update (fun _ => none) key (some (row.commit id at_)) := by
    simp [Session.putInbox, hc.own]
  refine .keep hd hx ?_ ⟨_, ⟨rfl, id, r, rfl, rfl⟩, key, row.commit id at_,
    ⟨hc.isKey, hput, hc.free⟩, rfl, rfl, ⟨hw.own, hw.isKey, hw.isID, hw.outbox⟩⟩
  intro k
  rw [hput, hc.own]
  by_cases hkk : k = key <;> simp [hkk]

theorem outboxInsert_sound {row : OutboxRow} (hr : Rep eng i d s (.executed row.executionID r))
    (hsame : SameWriter r row) :
    StepOk eng i d os (.executed row.executionID r) (.outboxInsert id row) d (s.putOutbox id row) (.ok ()) := by
  obtain ⟨key, irow, hc, hproc, hw⟩ := hr
  refine .keep hd hx (fun k => Iff.rfl) ⟨_, rfl, key, irow, ⟨hc.isKey, hc.own, hc.free⟩, hproc,
    ⟨hw.own, hw.isKey, hw.isID, ?_⟩⟩
  intro eid o ho
  simp only [Session.putOutbox, Function.update_apply] at ho
  split at ho
  · cases ho
    exact ⟨rfl, hsame⟩
  · exact hw.outbox eid o ho

end

theorem StepOk.leases {a : Except Err o.Res} {f : Nat → Option ShardLease} (hd : TablesOk eng d.tables)
    (hs : s'.own = .empty) (ht : trans st o a .ended) : StepOk eng i d os st o { d with leases := f } s' a :=
  ⟨hd, ⟨.ended, ht, hs⟩, fun s₂ _ => excl_empty hs s₂,
    fun _ _ _ _ hr => hr.mono (.refl _) (fun _ _ h => h), fun _ _ hp => hp.grows (.refl _)⟩

/-! Every statement. -/

theorem perform_sound (hsha : Function.Injective eng.sha256Hex) {a : Except Err o.Res} (hd : TablesOk eng d.tables)
    (hr : Rep eng i d s st) (ha : allowed eng i st o) (hx : ∀ s₂ ∈ os, Excl s s₂ ∧ Excl s₂ s)
    (hp : perform d os s o = some (d', s', a)) : StepOk eng i d os st o d' s' a := by
  cases o with
  | clock | begin => cases hp
  | assertHeld shard owner =>
    obtain rfl : st = .clean := ha
    simp only [perform] at hp
    repeat' split at hp
    all_goals
      cases hp
      exact .keep hd hx (fun k => Iff.rfl) ⟨.clean, rfl, hr⟩
  | inboxGet key =>
    cases hp
    exact inboxGet_sound hd hx hr ha
  | inboxInsert key row =>
    obtain ⟨hk, rfl, hrow⟩ := ha
    have hown : s.own = .empty := hr
    simp only [perform] at hp
    split at hp
    · rename_i hsome
      cases hp
      rw [sees_empty hown] at hsome
      obtain ⟨row', hrow'⟩ := Option.isSome_iff_exists.mp hsome
      obtain ⟨id, r, -, hrec⟩ := hd.recorded hk hrow'
      exact .keep hd hx (fun k => Iff.rfl) ⟨_, ⟨id, r, rfl⟩, hown, hrec⟩
    · split at hp <;> cases hp
      exact inboxInsert_sound hd hown hk hrow ‹_› ‹_›
  | inboxMarkCommitted key id at_ only =>
    obtain ⟨hk, r, rfl⟩ := ha
    obtain ⟨key', row, hc, hproc, hw⟩ := hr
    obtain rfl : key' = key := Option.some.inj (hc.isKey.symm.trans hk)
    have hsee : (s.sees d).inbox key' = some row := by
      simp [Session.sees, Tables.onto, hc.own]
    simp only [perform, hsee] at hp
    split at hp
    · cases hp
    rw [if_neg (by simp [hproc])] at hp
    cases hp
    exact inboxMarkCommitted_sound hd hx hc hw
  | executionGet id =>
    cases hp
    obtain ⟨r, rfl⟩ := ha
    refine .keep hd hx (fun k => Iff.rfl) ⟨_, ⟨r, ?_, rfl, rfl⟩, hr⟩
    rw [sees_empty hr.1]
    exact hr.2.1
  | executionExists id =>
    cases hp
    obtain ⟨r, rfl⟩ := ha
    refine .keep hd hx (fun k => Iff.rfl) ⟨_, ⟨?_, rfl⟩, hr⟩
    rw [sees_empty hr.1, hr.2.1]
    rfl
  | executionInsert id r orNothing =>
    obtain ⟨rfl, hk, hid⟩ := ha
    obtain ⟨key, row, hc, hproc, hex, hout⟩ := hr
    obtain rfl : r.key = key := Option.some.inj (hk.symm.trans hc.isKey)
    -- a claimed event has no execution, so the identity is free
    have hsee : (s.sees d).executions id = none := by
      simp only [Session.sees, Tables.onto, hex, Option.none_or]
      rw [hid]
      exact hd.id_free hsha hc.free
    simp only [perform, hsee, Option.isSome_none, Bool.false_eq_true, if_false] at hp
    split at hp <;> cases hp
    refine .keep hd hx (fun k => Iff.rfl) ⟨_, rfl, r.key, row, ⟨hc.isKey, hc.own, hc.free⟩, hproc, ?_⟩
    refine ⟨by simp [Session.putExecution, hex], rfl, hid, ?_⟩
    intro eid o ho
    simp [Session.putExecution, hout] at ho
  | outboxInsert id row =>
    obtain ⟨r, rfl, hsame⟩ := ha
    simp only [perform] at hp
    split at hp
    · cases hp
      exact .keep hd hx (fun k => Iff.rfl) ⟨_, rfl, hr⟩
    · split at hp <;> cases hp
      exact outboxInsert_sound hd hx hr hsame
  | activationGet | revisionGetActive | subscribersGet | leaseGet =>
    cases hp
    exact .keep hd hx (fun k => Iff.rfl) ⟨st, rfl, hr⟩
  | commit =>
    cases hp
    exact commit_sound hd hx hsha hr ha
  | leaseUpsert | leaseRenew | leaseRelease =>
    simp only [perform] at hp
    repeat' split at hp
    all_goals cases hp
    all_goals exact .leases hd rfl rfl

theorem exec_other {a : Except Err o.Res} (hclock : o ≠ .clock) (hbegin : o ≠ .begin)
    (h : exec d os s o w = some (d', s', a)) :
    (∃ e, w.fail = some e ∧ d' = d ∧ s' = s.close ∧ a = .error e) ∨
      (w.fail = none ∧ ((s.state ≠ .active ∧ d' = d ∧ s' = s.close ∧ a = .error (.msg "no transaction")) ∨
        perform d os s o = some (d', s', a))) := by
  cases o with
  | clock => exact absurd rfl hclock
  | begin => exact absurd rfl hbegin
  | _ =>
    simp only [exec] at h
    split at h
    · rename_i e hfail
      cases h
      exact .inl ⟨e, hfail, rfl, rfl, rfl⟩
    · rename_i hfail
      split at h
      · exact .inr ⟨hfail, .inr h⟩
      rename_i hstate
      cases h
      exact .inr ⟨hfail, .inl ⟨hstate, rfl, rfl, rfl⟩⟩

theorem exec_cases {a : Except Err o.Res} (h : exec d os s o w = some (d', s', a)) :
    (d' = d ∧ s' = s ∧ ((∃ e, a = .error e ∧ o = .begin) ∨ o = .clock)) ∨
    (d' = d ∧ s' = { s with state := .active, now := d.now } ∧ o = .begin ∧ ∃ t, a = .ok t) ∨
    (d' = d ∧ s' = s.close ∧ ∃ e, a = .error e) ∨
    perform d os s o = some (d', s', a) := by
  cases o with
  | clock =>
    cases h
    exact .inl ⟨rfl, rfl, .inr rfl⟩
  | begin =>
    simp only [exec] at h
    split at h <;> cases h
    · exact .inl ⟨rfl, rfl, .inl ⟨_, rfl, rfl⟩⟩
    · exact .inr (.inl ⟨rfl, rfl, rfl, _, rfl⟩)
  | _ =>
    rcases exec_other (by simp) (by simp) h with ⟨e, -, hd, hs, ha⟩ | ⟨-, ⟨-, hd, hs, ha⟩ | hp⟩
    · exact .inr (.inr (.inl ⟨hd, hs, e, ha⟩))
    · exact .inr (.inr (.inl ⟨hd, hs, _, ha⟩))
    · exact .inr (.inr (.inr hp))

theorem begin_own (hr : Rep eng i d s st) (ha : allowed eng i st .begin) : s.own = .empty := by
  rcases ha with rfl | rfl <;> exact hr

theorem fin_post {r : Except Err Reply} (hr : Rep eng i d s st) (hf : Finishes i st r) : Post i d r := by
  match r with
  | .error _ => trivial
  | .ok (.execution e) =>
    obtain ⟨r, rfl | rfl, hs⟩ := hf <;> exact ⟨r, hr.2, hs⟩
  | .ok (.outcome (.processed id hash _)) =>
    obtain ⟨r, rfl, hh⟩ := hf
    exact ⟨r, hr.2, hh⟩
  | .ok (.outcome (.duplicate id)) =>
    obtain ⟨r, rfl⟩ := hf
    exact ⟨r, hr.2⟩
  | .ok (.lease _) | .ok (.token _) | .ok (.leases _) | .ok (.renewed _) | .ok .released => exact hf.1

/-- Every statement of every session keeps to the protocol. -/
theorem exec_sound (hsha : Function.Injective eng.sha256Hex) {a : Except Err o.Res} (hd : TablesOk eng d.tables)
    (hr : Rep eng i d s st) (ha : allowed eng i st o) (hx : ∀ s₂ ∈ os, Excl s s₂ ∧ Excl s₂ s)
    (he : exec d os s o w = some (d', s', a)) : StepOk eng i d os st o d' s' a := by
  rcases exec_cases he with ⟨rfl, rfl, hcase⟩ | ⟨rfl, rfl, rfl, t, rfl⟩ | ⟨rfl, rfl, e, rfl⟩ | hp
  · rcases hcase with ⟨e, rfl, rfl⟩ | rfl
    · exact .fail hd (begin_own hr ha)
    · cases a with
      | ok t => exact .keep hd hx (fun k => Iff.rfl) ⟨st, rfl, hr⟩
      | error e => cases he
  · have hown : s.own = .empty := begin_own hr ha
    exact .keep hd hx (fun k => Iff.rfl) ⟨_, rfl, hown⟩
  · exact .fail hd rfl
  · exact perform_sound hsha hd hr ha hx hp

end

theorem store_sound {eng : Engine} (hsha : Function.Injective eng.sha256Hex)
    (hprog : ∀ i : Call, Prog.wp (proto eng i) (i.program eng) (Finishes i) .idle) :
    Sound (store eng) (proto eng) (view eng) where
  start := by
    intro d i d' s p os hd _ h
    simp only [store, Option.some.injEq, Prod.mk.injEq] at h
    obtain ⟨rfl, rfl, rfl⟩ := h
    exact ⟨hd, ⟨.idle, rfl, hprog i⟩, fun s' _ => excl_empty rfl s', keeps_same⟩
  exec := by
    intro i d os s st o x d' s' a hd hr ha hx he
    obtain ⟨h₁, h₂, h₃, h₄⟩ := exec_sound hsha hd hr ha hx he
    exact ⟨h₁, h₂, h₃, h₄⟩
  fin := fun _ hr hf => fin_post hr hf
  env := by
    intro d os v d' hd h
    simp only [store, Option.some.injEq] at h
    subst h
    have hsame : (outside d v).tables = d.tables := by cases v <;> rfl
    refine ⟨?_, fun i st s _ hr => ?_, fun i r hp => ?_⟩
    · change TablesOk eng (outside d v).tables
      rw [hsame]
      exact hd
    · exact hr.mono (by rw [hsame]; exact .refl _) (fun k _ h => by rw [hsame]; exact h)
    · exact hp.grows (by rw [hsame]; exact .refl _)

end FlowRule
