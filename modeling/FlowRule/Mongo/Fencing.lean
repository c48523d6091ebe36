import FlowRule.Events.Postgres
import FlowRule.Lib.Snapshot

/- Fencing on MongoDB (internal/adapters/mongo/shard.go, transaction.go and the event
   service over them).

   An event transaction reads the lease document and writes event documents; Acquire, Renew
   and Release write the lease document. So a takeover and a transaction that has asserted the
   old token never write the same document, and both go through (`old_token_commits`), unless
   every lease is granted with no such transaction open (`mongo_fencing`).

   What the service does between the assertion and the commit is any program that reads and
   writes event documents (`EventWork`). The result false stands for a duplicate. -/
namespace FlowRule

open Machine Clients

namespace Mongo

inductive Key where
  | lease (shard : Nat)
  | event (id : String)
  deriving DecidableEq, Repr

inductive Doc where
  | lease (l : ShardLease)
  | event (content : String)

/-- What fencing is about: a lease was granted, an event transaction committed. -/
inductive FenceEvent where
  | granted (shard : Nat) (token : Int)
  | committed (shard : Nat) (token : Int)
  deriving DecidableEq, Repr

/-- The database, with the clock all workers read and the record of what happened. -/
structure DB where
  now : Time
  store : Snapshot.Store Key Doc
  log : List FenceEvent

def Doc.lease? : Option Doc → Option ShardLease
  | some (.lease l) => some l
  | _ => none

def DB.lease (d : DB) (shard : Nat) : Option ShardLease := Doc.lease? (d.store.docs (.lease shard))

def DB.putLease (d : DB) (shard : Nat) (l : ShardLease) : DB :=
  { d with store := d.store.put (.lease shard) (.lease l) }

/-- The server's side of a worker: its transaction, and the shard and token it asserted
    there. -/
structure Session where
  tx : Option (Snapshot.Tx Key Doc)
  asserted : Option (Nat × Int)

def Session.closed : Session := ⟨none, none⟩

inductive Op where
  | clock
  | assertHeld (shard : Nat) (owner : String) (fencingToken : Int) (now : Time)
  | get (id : String)
  | put (id content : String)
  | commit
  | acquire (shard : Nat) (owner : String) (now expiresAt : Time)
  | renew (shard : Nat) (owner : String) (fencingToken : Int) (now expiresAt : Time)
  | release (shard : Nat) (owner : String) (now : Time)
  | getOwner (shard : Nat)

def Op.Res : Op → Type
  | clock => Time
  | assertHeld _ _ _ _ => Bool
  | get _ => Option Doc
  | put _ _ => Unit
  | commit => Unit
  | acquire _ _ _ _ => Option ShardLease
  | renew _ _ _ _ _ => Bool
  | release _ _ _ => Unit
  | getOwner _ => Option ShardLease

/-- FindOneAndUpdate with upsert: a document that matches is taken over with the next
    token, a missing one is created with the first; none is the duplicate key of a document
    that is there and does not match. -/
def acquireDoc (owner : String) (now expiresAt : Time) : Option ShardLease → Option ShardLease
  | none => some ⟨owner, 1, expiresAt, 0⟩
  | some l =>
    if l.expiresAt < now ∨ l.owner = owner then some ⟨owner, l.fencingToken + 1, expiresAt, l.routingEpoch⟩ else none

def holds (owner : String) (fencingToken : Int) (now : Time) : Option ShardLease → Bool
  | none => false
  | some l => l.owner = owner && l.fencingToken = fencingToken && now < l.expiresAt

def perform (d : DB) (s : Session) : (o : Op) → DB × Session × Except Err o.Res
  | .clock => (d, s, .ok d.now)
  | .assertHeld shard owner fencingToken now =>
    let t := d.store.begin
    let found := holds owner fencingToken now (Doc.lease? (t.get (.lease shard)))
    (d, ⟨some t, if found then some (shard, fencingToken) else none⟩, .ok found)
  | .get id =>
    match s.tx with
    | none => (d, s, .error (.msg "no transaction"))
    | some t => (d, s, .ok (t.get (.event id)))
  | .put id content =>
    match s.tx with
    | none => (d, s, .error (.msg "no transaction"))
    | some t => (d, { s with tx := some (t.put (.event id) (.event content)) }, .ok ())
  | .commit =>
    match s.tx with
    | none => (d, s, .error (.msg "no transaction"))
    | some t =>
      match d.store.commit t with
      | none => (d, .closed, .error (.msg "WriteConflict"))
      | some store => ({ d with store := store, log := d.log ++ (s.asserted.map (fun p =>
          FenceEvent.committed p.1 p.2)).toList }, .closed, .ok ())
  | .acquire shard owner now expiresAt =>
    match acquireDoc owner now expiresAt (d.lease shard) with
    | none => (d, s, .ok none)
    | some l =>
      if maxInt64 < l.fencingToken then (d, s, .error (.msg "overflow"))
      else ({ d.putLease shard l with log := d.log ++ [.granted shard l.fencingToken] }, s, .ok (some l))
  | .renew shard owner fencingToken now expiresAt =>
    match d.lease shard with
    | none => (d, s, .ok false)
    | some l =>
      if holds owner fencingToken now (some l) then (d.putLease shard { l with expiresAt := expiresAt }, s, .ok true)
      else (d, s, .ok false)
  | .release shard owner now =>
    match d.lease shard with
    | none => (d, s, .ok ())
    | some l =>
      if l.owner = owner then (d.putLease shard { l with owner := "", expiresAt := now }, s, .ok ())
      else (d, s, .ok ())
  | .getOwner shard => (d, s, .ok (d.lease shard))

def exec (d : DB) (_ : List Session) (s : Session) (o : Op) (fail : Option Err) :
    Option (DB × Session × Except Err o.Res) :=
  match fail with
  | some e => some (d, .closed, .error e)
  | none => some (perform d s o)

/-! The calls. -/

abbrev Tx := Prog Op Op.Res Err

def call (o : Op) : Tx o.Res := Prog.call o

def EventAccess : Op → Prop
  | .clock | .get _ | .put _ _ => True
  | _ => False

structure EventWork where
  work : Tx Bool
  only : work.Only EventAccess

def assertHeld (shard : Nat) (owner : String) (fencingToken : Int) : Tx Unit := do
  let now : Time ← call .clock
  let found : Bool ← (call (.assertHeld shard owner fencingToken now)).wrap (Err.wrap "assert held")
  if !found then Prog.throw (.sentinel .fencingTokenMismatch)
  else if fencingToken ≤ 0 then Prog.throw (.sentinel .fencingTokenMismatch)
  else pure ()

def process (shard : Nat) (workerID : String) (fencingToken : Int) (event : EventWork) : Tx Unit := do
  if fencingToken ≤ 0 then Prog.throw (.sentinel .fencingTokenMismatch)
  else
    (assertHeld shard workerID fencingToken).wrap (Err.wrap "fencing token validation failed")
    let new ← event.work
    if new then (call .commit).wrap (Err.wrap "commit tx") else pure ()

def acquire (shard : Nat) (owner : String) (ttl : Int) : Tx ShardLease := do
  let now : Time ← call .clock
  let doc : Option ShardLease ← (call (.acquire shard owner now (now + ttl))).wrap (Err.wrap "acquire lease")
  match doc with
  | none => Prog.throw (.sentinel .leaseOwnedByOther)
  | some l => if l.owner ≠ owner then Prog.throw (.sentinel .leaseOwnedByOther) else pure l

def getOwner (shard : Nat) : Tx (Option ShardLease) :=
  (call (.getOwner shard)).wrap (Err.wrap "get owner")

def renew (shard : Nat) (owner : String) (fencingToken : Int) (ttl : Int) : Tx (Option ShardLease) := do
  let now : Time ← call .clock
  let found : Bool ← (call (.renew shard owner fencingToken now (now + ttl))).wrap (Err.wrap "renew lease")
  if !found then Prog.throw (.sentinel .leaseExpired) else getOwner shard

def release (shard : Nat) (owner : String) : Tx Unit := do
  let now : Time ← call .clock
  (call (.release shard owner now)).wrap (Err.wrap "release lease")

inductive Call where
  | process (shard : Nat) (workerID : String) (fencingToken : Int) (event : EventWork)
  | acquire (shard : Nat) (owner : String) (ttl : Int)
  | renew (shard : Nat) (owner : String) (fencingToken : Int) (ttl : Int)
  | release (shard : Nat) (owner : String)

inductive Reply where
  | processed
  | lease (l : Option ShardLease)
  | released

def Call.program : Call → Tx Reply
  | .process shard workerID fencingToken event =>
      (fun _ => .processed) <$> Mongo.process shard workerID fencingToken event
  | .acquire shard owner ttl => (fun l => .lease (some l)) <$> Mongo.acquire shard owner ttl
  | .renew shard owner fencingToken ttl => .lease <$> Mongo.renew shard owner fencingToken ttl
  | .release shard owner => (fun _ => .released) <$> Mongo.release shard owner

def server : Server DB Session Call Nat (Option Err) Op Op.Res Err Reply where
  start d c := some (d, .closed, c.program)
  exec := exec
  env d _ dt := some { d with now := d.now + dt }

abbrev World := Clients.World DB Session Call Op Op.Res Err Reply
abbrev Act := Clients.Act Call Nat (Option Err)

/-- A step: a call starts, runs a statement, returns or is lost, or time passes. -/
abbrev next : World → Act → Option World := Clients.next server

def World.init (now : Time) : World := Clients.empty ⟨now, .empty, []⟩

/-! What fencing asks, and what it rests on. -/

/-- A commit that comes after a grant on its shard has asserted that token or a later one. -/
def FenceEvent.fenced : FenceEvent → FenceEvent → Bool
  | .granted shard token, .committed shard' token' => shard != shard' || decide (token ≤ token')
  | _, _ => true

/-- No event transaction that asserted a smaller token commits after a grant. -/
def Fenced (log : List FenceEvent) : Prop := log.Pairwise (fun e e' => e.fenced e' = true)

instance (log : List FenceEvent) : Decidable (Fenced log) := inferInstanceAs (Decidable (List.Pairwise _ _))

/-- The statement is an Acquire that updates the document of the shard. -/
def Grants (d : DB) (o : Op) (shard : Nat) : Prop :=
  ∃ owner now expiresAt l, o = .acquire shard owner now expiresAt ∧
    acquireDoc owner now expiresAt (d.lease shard) = some l ∧ l.fencingToken ≤ maxInt64

/-- The step does not grant a lease while another worker has a transaction open that has
    asserted a token of the shard. -/
def GrantedAlone (w : World) (a : Act) : Prop :=
  ∀ c i s o k shard, a = .exec c none → w.clients[c]? = some ⟨i, s, .running (.stmt o k)⟩ →
    Grants w.db o shard → ∀ s' ∈ sessions w.clients, ∀ token, s'.asserted ≠ some (shard, token)

/-- The grants on record are not ahead of the lease documents, and are in order with the
    commits. -/
structure LogOk (d : DB) : Prop where
  granted : ∀ shard token, .granted shard token ∈ d.log → ∃ l, d.lease shard = some l ∧ token ≤ l.fencingToken
  fenced : Fenced d.log

/-- The transaction writes no lease, and its token is not behind a grant on record. -/
structure SessionOk (d : DB) (s : Session) : Prop where
  writes : ∀ t, s.tx = some t → ∀ p ∈ t.own, ∃ id, p.1 = .event id
  token : ∀ shard token, s.asserted = some (shard, token) → ∀ k, .granted shard k ∈ d.log → k ≤ token

structure Inv (w : World) : Prop where
  log : LogOk w.db
  session : ∀ s ∈ sessions w.clients, SessionOk w.db s

section
variable {d d' : DB} {s s' : Session}

theorem sessionOk_closed : SessionOk d .closed := ⟨nofun, nofun⟩

theorem lease_putLease (d : DB) (shard shard' : Nat) (l : ShardLease) :
    (d.putLease shard l).lease shard' = if shard' = shard then some l else d.lease shard' := by
  by_cases h : shard' = shard
  · subst h
    simp [DB.lease, DB.putLease, Snapshot.Store.put, Doc.lease?]
  · simp [DB.lease, DB.putLease, Snapshot.Store.put, h]

theorem logOk_putLease {shard : Nat} {l : ShardLease} (h : LogOk d)
    (hle : ∀ l₀, d.lease shard = some l₀ → l₀.fencingToken ≤ l.fencingToken) : LogOk (d.putLease shard l) := by
  refine ⟨?_, h.fenced⟩
  intro k token hk
  obtain ⟨l₀, hl₀, hle₀⟩ := h.granted k token hk
  rw [lease_putLease]
  split
  · rename_i heq
    subst heq
    exact ⟨l, rfl, le_trans hle₀ (hle l₀ hl₀)⟩
  · exact ⟨l₀, hl₀, hle₀⟩

theorem SessionOk.mono (h : SessionOk d s) (hlog : ∀ shard k, .granted shard k ∈ d'.log → .granted shard k ∈ d.log) :
    SessionOk d' s :=
  ⟨h.writes, fun shard token ha k hk => h.token shard token ha k (hlog shard k hk)⟩

/-- A session that has asserted nothing of the shard does not mind a grant on it. -/
theorem SessionOk.grant {shard : Nat} {token : Int} (h : SessionOk d s)
    (hlog : d'.log = d.log ++ [.granted shard token]) (hs : ∀ token', s.asserted ≠ some (shard, token')) :
    SessionOk d' s := by
  refine ⟨h.writes, fun shard' token' ha k hk => ?_⟩
  rw [hlog, List.mem_append, List.mem_singleton] at hk
  rcases hk with hk | hk
  · exact h.token shard' token' ha k hk
  · cases hk
    exact absurd ha (hs token')

theorem lease_commit {t : Snapshot.Tx Key Doc} {store : Snapshot.Store Key Doc} (h : d.store.commit t = some store)
    (hown : ∀ p ∈ t.own, ∃ id, p.1 = .event id) (shard : Nat) :
    Doc.lease? (store.docs (.lease shard)) = d.lease shard := by
  unfold DB.lease
  rw [Snapshot.docs_commit h]
  intro p hp
  obtain ⟨id, hid⟩ := hown p hp
  simp [hid]

/-- The record stays in order when a transaction commits whose token is not behind it. -/
theorem fenced_commit {log : List FenceEvent} {p : Nat × Int} (h : Fenced log)
    (hp : ∀ k, .granted p.1 k ∈ log → k ≤ p.2) : Fenced (log ++ [.committed p.1 p.2]) := by
  refine List.pairwise_append.mpr ⟨h, List.pairwise_singleton _ _, ?_⟩
  intro e he e' he'
  rw [List.mem_singleton] at he'
  subst he'
  cases e with
  | committed shard token => rfl
  | granted shard token =>
    by_cases hshard : shard = p.1
    · subst hshard
      simp [FenceEvent.fenced, hp token he]
    · simp [FenceEvent.fenced, hshard]

theorem fenced_grant {log : List FenceEvent} {shard : Nat} {token : Int} (h : Fenced log) :
    Fenced (log ++ [.granted shard token]) := by
  refine List.pairwise_append.mpr ⟨h, List.pairwise_singleton _ _, ?_⟩
  intro e _ e' he'
  rw [List.mem_singleton] at he'
  subst he'
  cases e <;> rfl

/-- A grant is recorded with the lease it leaves, whose token is not behind any. -/
theorem logOk_grant {shard : Nat} {l : ShardLease} (h : LogOk d)
    (hle : ∀ l₀, d.lease shard = some l₀ → l₀.fencingToken ≤ l.fencingToken) :
    LogOk { d.putLease shard l with log := d.log ++ [.granted shard l.fencingToken] } := by
  refine ⟨?_, fenced_grant h.fenced⟩
  intro shard' token htoken
  rcases List.mem_append.mp htoken with hold | hnew
  · exact (logOk_putLease h hle).granted shard' token hold
  · cases List.mem_singleton.mp hnew
    exact ⟨l, (lease_putLease d shard shard l).trans (if_pos rfl), le_refl _⟩

theorem acquireDoc_token {owner : String} {now expiresAt : Time} {l l' : ShardLease}
    (h : acquireDoc owner now expiresAt (some l) = some l') : l.fencingToken < l'.fencingToken := by
  simp only [acquireDoc] at h
  split at h <;> cases h
  simp

/-- One statement: the record stays right, the session that issued it too, and so does every
    session that has asserted nothing of a shard a lease is granted on. -/
theorem perform_ok {o : Op} {a : Except Err o.Res} (hlog : LogOk d) (hs : SessionOk d s)
    (hp : perform d s o = (d', s', a)) :
    LogOk d' ∧
      ((∀ shard, Grants d o shard → ∀ token, s.asserted ≠ some (shard, token)) → SessionOk d' s') ∧
      ∀ s₂, SessionOk d s₂ → (∀ shard, Grants d o shard → ∀ token, s₂.asserted ≠ some (shard, token)) →
        SessionOk d' s₂ := by
  cases o with
  | clock | getOwner =>
    cases hp
    exact ⟨hlog, fun _ => hs, fun _ h _ => h⟩
  | get id =>
    simp only [perform] at hp
    split at hp <;> cases hp <;> exact ⟨hlog, fun _ => hs, fun _ h _ => h⟩
  | assertHeld shard owner token now =>
    simp only [perform, Prod.mk.injEq] at hp
    obtain ⟨rfl, rfl, -⟩ := hp
    refine ⟨hlog, fun _ => ⟨?_, ?_⟩, fun _ h _ => h⟩
    · intro t ht p hm
      cases ht
      cases hm
    · -- the snapshot is the present state, whose token no grant is ahead of
      intro shard' token' ha k hk
      split at ha
      · rename_i hfound
        cases ha
        obtain ⟨l, hl, hle⟩ := hlog.granted shard k hk
        have hsnap : Doc.lease? (d.store.begin.get (.lease shard)) = some l := by
          rw [← hl]
          simp [Snapshot.Tx.get, Snapshot.Store.begin, DB.lease]
        rw [hsnap] at hfound
        simp only [holds, Bool.and_eq_true, decide_eq_true_eq] at hfound
        omega
      · cases ha
  | put id content =>
    simp only [perform] at hp
    split at hp
    · cases hp
      exact ⟨hlog, fun _ => hs, fun _ h _ => h⟩
    · rename_i t ht
      cases hp
      refine ⟨hlog, fun _ => ⟨?_, hs.token⟩, fun _ h _ => h⟩
      intro t' ht' p hm
      cases ht'
      rcases List.mem_cons.mp hm with rfl | hm
      · exact ⟨id, rfl⟩
      · exact hs.writes t ht p hm
  | commit =>
    simp only [perform] at hp
    split at hp
    · cases hp
      exact ⟨hlog, fun _ => hs, fun _ h _ => h⟩
    · rename_i t ht
      split at hp
      · cases hp
        exact ⟨hlog, fun _ => sessionOk_closed, fun _ h _ => h⟩
      · rename_i store hcommit
        cases hp
        have hgrants : ∀ shard k, .granted shard k ∈ d.log ++ (s.asserted.map (fun p =>
            FenceEvent.committed p.1 p.2)).toList → .granted shard k ∈ d.log := by
          intro shard k hk
          cases hasserted : s.asserted <;> simpa [hasserted] using hk
        refine ⟨⟨?_, ?_⟩, fun _ => sessionOk_closed, fun s₂ h _ => h.mono hgrants⟩
        · intro shard k hk
          obtain ⟨l, hl, hle⟩ := hlog.granted shard k (hgrants shard k hk)
          exact ⟨l, (lease_commit hcommit (hs.writes t ht) shard).trans hl, hle⟩
        · cases hasserted : s.asserted with
          | none => simpa [hasserted] using hlog.fenced
          | some p =>
            simp only [Option.map_some, Option.toList_some]
            exact fenced_commit hlog.fenced (fun k hk => hs.token p.1 p.2 hasserted k hk)
  | acquire shard owner now expiresAt =>
    simp only [perform] at hp
    split at hp
    · cases hp
      exact ⟨hlog, fun _ => hs, fun _ h _ => h⟩
    · rename_i l hl
      split at hp
      · cases hp
        exact ⟨hlog, fun _ => hs, fun _ h _ => h⟩
      · rename_i hmax
        have hgrants : Grants d (.acquire shard owner now expiresAt) shard :=
          ⟨owner, now, expiresAt, l, rfl, hl, not_lt.mp hmax⟩
        cases hp
        refine ⟨logOk_grant hlog ?_, fun h => hs.grant rfl (h shard hgrants),
          fun s₂ h₂ h => h₂.grant rfl (h shard hgrants)⟩
        intro l₀ hl₀
        rw [hl₀] at hl
        exact le_of_lt (acquireDoc_token hl)
  | renew shard owner token now expiresAt | release shard owner now =>
    simp only [perform] at hp
    split at hp
    · cases hp
      exact ⟨hlog, fun _ => hs, fun _ h _ => h⟩
    · rename_i l hl
      split at hp <;> cases hp
      · refine ⟨logOk_putLease hlog ?_, fun _ => hs.mono (fun _ _ h => h), fun _ h _ => h.mono (fun _ _ h => h)⟩
        intro l₀ hl₀
        cases hl.symm.trans hl₀
        exact le_refl _
      · exact ⟨hlog, fun _ => hs, fun _ h _ => h⟩

end

/-- A step that grants no lease next to an open transaction keeps the invariant. -/
theorem inv_step {w w' : World} {a : Act} (h : Inv w) (ha : GrantedAlone w a) (hn : next w a = some w') : Inv w' := by
  cases next_step hn with
  | start hst =>
    -- a session of its own
    cases hst
    refine ⟨h.log, ?_⟩
    intro s' hs'
    obtain ⟨cl, hmem, hrun, rfl⟩ := mem_sessions.mp hs'
    rcases List.mem_append.mp hmem with hold | hnew
    · exact h.session _ (mem_sessions.mpr ⟨cl, hold, hrun, rfl⟩)
    · rw [List.mem_singleton.mp hnew]
      exact sessionOk_closed
  | @exec c x i s o k d s' r hc he =>
    have hs : SessionOk w.db s := h.session s (mem_sessions_of hc)
    have hstep : LogOk d ∧ SessionOk d s' ∧ ∀ s₂ ∈ sessions w.clients, SessionOk d s₂ := by
      cases x with
      | some e =>
        cases he
        exact ⟨h.log, sessionOk_closed, h.session⟩
      | none =>
        obtain ⟨hlog, hself, hothers⟩ := perform_ok h.log hs (Option.some.inj he)
        have hquiet : ∀ s₂ ∈ sessions w.clients, ∀ shard, Grants w.db o shard →
            ∀ token, s₂.asserted ≠ some (shard, token) :=
          fun s₂ hs₂ shard hgrants => ha c i s o k shard rfl hc hgrants s₂ hs₂
        exact ⟨hlog, hself (hquiet s (mem_sessions_of hc)),
          fun s₂ hs₂ => hothers s₂ (h.session s₂ hs₂) (hquiet s₂ hs₂)⟩
    refine ⟨hstep.1, ?_⟩
    intro s₂ hs₂
    rcases mem_sessions_set hs₂ with hold | ⟨-, rfl⟩
    · exact hstep.2.2 s₂ hold
    · exact hstep.2.1
  | stop hc hstop =>
    refine ⟨h.log, fun s₂ hs₂ => ?_⟩
    rcases mem_sessions_set hs₂ with hold | ⟨⟨p', hp'⟩, -⟩
    · exact h.session s₂ hold
    · exact absurd hp' (hstop.not_running p')
  | env hv =>
    cases hv
    exact ⟨⟨h.log.granted, h.log.fenced⟩, fun s hs => ⟨(h.session s hs).writes, (h.session s hs).token⟩⟩

theorem inv_init (now : Time) : Inv (World.init now) := by
  refine ⟨⟨?_, List.Pairwise.nil⟩, ?_⟩
  · intro _ _ h
    cases h
  · intro _ h
    cases h

/-- In every run in which no lease is granted while a transaction is open that has asserted
    a token of the same shard, a transaction that asserted a smaller token than one granted
    before does not commit. An Acquire that is refused may come at any time. -/
theorem mongo_fencing {now : Time} {ls : List Act} {w : World} (hG : Along next GrantedAlone (World.init now) ls)
    (h : run next (World.init now) ls = some w) : Fenced w.db.log :=
  (run_along Inv (fun _ _ _ ha hg hn => inv_step ha hg hn) (inv_init now) hG h).log.fenced

/-! A takeover. -/

namespace Sample

def work : EventWork where
  work := do
    let _ ← call (.get "inbox/acme/o-1")
    let _ ← call (.put "inbox/acme/o-1" "processing")
    let _ ← call (.put "executions/daadf629" "completed")
    let _ ← call (.put "outbox_effects/f399e3cf" "pending")
    let _ ← call (.put "inbox/acme/o-1" "committed")
    pure true
  only :=
    (Prog.only_call trivial).bind fun _ => (Prog.only_call trivial).bind fun _ => (Prog.only_call trivial).bind fun _ =>
      (Prog.only_call trivial).bind fun _ => (Prog.only_call trivial).bind fun _ => trivial

def steps (c n : Nat) : List Act := List.replicate n (.exec c none)

def acquired : List Act := .start (.acquire 12 "w1" 30000000) :: steps 0 2 ++ [.finish 0]

def asserted : List Act := acquired ++ .start (.process 12 "w1" 1 work) :: steps 1 2

def takeover (c : Nat) : List Act := [.env 31000000, .start (.acquire 12 "w2" 30000000)] ++ steps c 2

def rest : List Act := steps 1 6

/-- `GrantedAlone`, evaluated. -/
def grantedAlone (w : World) : Act → Bool
  | .exec c _ =>
    match w.clients[c]? with
    | some ⟨_, _, .running (.stmt (.acquire shard owner now expiresAt) _)⟩ =>
      (acquireDoc owner now expiresAt (w.db.lease shard)).isNone ||
        (sessions w.clients).all (fun s => s.asserted.all (fun p => p.1 != shard))
    | _ => true
  | _ => true

theorem grantedAlone_sound (w : World) (a : Act) (h : grantedAlone w a = true) : GrantedAlone w a := by
  intro c i s o k shard ha hc hgrants s' hs' token hasserted
  obtain ⟨owner, now, expiresAt, l, rfl, hl, -⟩ := hgrants
  subst ha
  simp only [grantedAlone, hc, hl, Option.isNone_some, Bool.false_or, List.all_eq_true] at h
  have hs := h s' hs'
  simp [hasserted] at hs

end Sample

/-- The first worker commits before the second takes over, which has tried in vain while the
    token of the first was asserted. -/
theorem mongo_fencing_in_order :
    ∃ w, run next (World.init 63902822400000000) (Sample.asserted ++
        .start (.acquire 12 "w2" 30000000) :: Sample.steps 2 2 ++ Sample.rest ++ Sample.takeover 3) = some w ∧
      w.db.log = [.granted 12 1, .committed 12 1, .granted 12 2] ∧ Fenced w.db.log := by
  have hrun : (run next (World.init 63902822400000000) (Sample.asserted ++
      .start (.acquire 12 "w2" 30000000) :: Sample.steps 2 2 ++ Sample.rest ++ Sample.takeover 3)).map
      (fun w => w.db.log) = some [.granted 12 1, .committed 12 1, .granted 12 2] := by decide
  obtain ⟨w, hw, hlog⟩ := Option.map_eq_some_iff.mp hrun
  refine ⟨w, hw, hlog, mongo_fencing (along_of_check Sample.grantedAlone_sound ?_) hw⟩
  decide

/-- The second worker takes over while the first has asserted its token and not committed:
    both go through. -/
theorem old_token_commits :
    ∃ w, run next (World.init 63902822400000000) (Sample.asserted ++ Sample.takeover 2 ++ Sample.rest) = some w ∧
      w.db.log = [.granted 12 1, .granted 12 2, .committed 12 1] ∧ ¬ Fenced w.db.log := by
  have hrun : (run next (World.init 63902822400000000) (Sample.asserted ++ Sample.takeover 2 ++ Sample.rest)).map
      (fun w => w.db.log) = some [.granted 12 1, .granted 12 2, .committed 12 1] := by decide
  obtain ⟨w, hw, hlog⟩ := Option.map_eq_some_iff.mp hrun
  refine ⟨w, hw, hlog, ?_⟩
  rw [hlog]
  decide

end Mongo

end FlowRule
