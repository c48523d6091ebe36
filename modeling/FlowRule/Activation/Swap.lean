import FlowRule.Activation.Posted
import FlowRule.Lib.Clients

/- Concurrent Activate and Deactivate calls on PostgreSQL at READ COMMITTED, and whether an
   activation is a compare-and-swap.

   What has been committed for a rule set is written down in a log, which no statement
   reads. The upsert compares versions only when it finds a row, and a deactivation deletes
   the row with its version (`deactivated_in_between`). An activation is a compare-and-swap
   exactly as long as none is committed over such a deactivation (`swaps_iff_undisturbed`). -/
namespace FlowRule.Activation

open Function

namespace Swap

open Clients Postgres

inductive Event where
  | activated (version : Int)
  | deactivated
  deriving DecidableEq, Repr

def Event.version : Event → Option Int
  | .activated version => some version
  | .deactivated => none

def versions (log : List Event) : List Int := log.filterMap Event.version

/-- The tables, and for each rule set what was committed, oldest first. -/
structure Ledger where
  tables : Postgres.Tables
  log : Key → List Event

/-- The row a transaction has read and the length of the log at that moment. -/
structure Snapshot where
  key : Key
  row : Option ActivationRow
  position : Nat
  deriving DecidableEq, Repr

/-- A session, whether it has begun a transaction, and what that has read. -/
structure Sess where
  sess : Postgres.Session
  begun : Bool
  read : Option Snapshot

def record (d : Ledger) (s : Sess) : Op → Key → List Event
  | .commit => fun key =>
    match s.sess.own.activations key with
    | some row => d.log key ++ [.activated row.version]
    | none => d.log key
  | .delete key => update d.log key (d.log key ++ [.deactivated])
  | _ => d.log

def remember (d : Ledger) (s : Sess) (sess : Postgres.Session) : (o : Op) → o.Res → Sess
  | .begin, _ => ⟨sess, true, none⟩
  | .get key, row => if s.begun then ⟨sess, true, some ⟨key, row, (d.log key).length⟩⟩ else ⟨sess, false, none⟩
  | .commit, _ => ⟨sess, false, none⟩
  | _, _ => ⟨sess, s.begun, s.read⟩

def exec (columns : Columns) (d : Ledger) (os : List Sess) (s : Sess) (o : Op) (fail : Option Err) :
    Option (Ledger × Sess × Except Err o.Res) :=
  match Postgres.exec columns d.tables (os.map Sess.sess) s.sess o fail with
  | some (t, sess, .ok a) => some (⟨t, record d s o⟩, remember d s sess o a, .ok a)
  | some (t, sess, .error e) => some (⟨t, d.log⟩, ⟨sess, s.begun, s.read⟩, .error e)
  | none => none

def server (columns : Columns) (compile : RawMessage → Except Err RuleRevision) :
    Server Ledger Sess Call Empty (Option Err) Op Op.Res Err Unit where
  start d c := some (d, ⟨.idle, false, none⟩, c.program compile)
  exec := exec columns
  env _ _ v := nomatch v

abbrev Calls := World Ledger Sess Call Op Op.Res Err Unit

abbrev Turn := Act Call Empty (Option Err)

/-! Undisturbed activations. -/

def restarted : List Event → Bool
  | [] => false
  | .deactivated :: log => restarted log
  | .activated _ :: log => log.contains .deactivated

/-- No deactivation was committed from `position` on, nor after an activation. -/
def Quiet (log : List Event) (position : Nat) : Prop :=
  .deactivated ∉ log.drop position ∧ restarted log = false

/-- The transaction has read the row and writes the version after every one committed, and
    nothing was committed since it has read. -/
def Swapped (d : Ledger) (s : Sess) : Prop :=
  ∃ r ∈ s.read, (d.log r.key).length = r.position ∧
    ∃ row ∈ s.sess.own.activations r.key, ∀ v ∈ versions (d.log r.key), v < row.version

def Undisturbed (d : Ledger) (s : Sess) : Prop := ∀ r ∈ s.read, Quiet (d.log r.key) r.position

instance (log : List Event) (position : Nat) : Decidable (Quiet log position) := inferInstanceAs (Decidable (_ ∧ _))

instance (d : Ledger) (s : Sess) : Decidable (Swapped d s) :=
  inferInstanceAs (Decidable (∃ r ∈ s.read, _ ∧ ∃ row ∈ s.sess.own.activations r.key, _))

instance (d : Ledger) (s : Sess) : Decidable (Undisturbed d s) :=
  inferInstanceAs (Decidable (∀ r ∈ s.read, _))

def committing (w : Calls) : Turn → Option Sess
  | .exec c none =>
    match w.clients[c]? with
    | some ⟨_, s, .running (.stmt .commit _)⟩ => some s
    | _ => none
  | _ => none

/-- A commit of this step is met in a state of `G`. -/
def AtCommit (G : Ledger → Sess → Prop) (w : Calls) (a : Turn) : Prop := ∀ s ∈ committing w a, G w.db s

instance (G : Ledger → Sess → Prop) [∀ d s, Decidable (G d s)] (w : Calls) (a : Turn) : Decidable (AtCommit G w a) :=
  inferInstanceAs (Decidable (∀ s ∈ committing w a, _))

def gated (columns : Columns) (compile : RawMessage → Except Err RuleRevision) :
    Server Ledger Sess Call Empty (Option Err) Op Op.Res Err Unit :=
  { server columns compile with
    exec := fun d os s o fail =>
      match o, fail with
      | .commit, none => if Undisturbed d s then exec columns d os s .commit none else none
      | o, fail => exec columns d os s o fail }

variable {compile : RawMessage → Except Err RuleRevision} {w : Calls} {i : Call} {log : List Event} {s : Sess}

theorem gated_next {columns : Columns} {a : Turn}
    (h : AtCommit Undisturbed w a) : next (gated columns compile) w a = next (server columns compile) w a := by
  cases a with
  | exec c x =>
    simp only [next]
    split
    · rename_i i s o k hc
      cases o with
      | commit =>
        cases x with
        | some e => rfl
        | none =>
          have hu : Undisturbed w.db s := h s (by simp [committing, hc])
          have hsame : (gated columns compile).exec w.db (sessions (w.clients.eraseIdx c)) s .commit none =
              (server columns compile).exec w.db (sessions (w.clients.eraseIdx c)) s .commit none := if_pos hu
          rw [hsame]
      | begin | save | get | setWithVersion | delete => rfl
    · rfl
  | start | finish | crash | env => rfl

/-! The stages of a call. -/

inductive Stage where
  | idle
  | begun
  | reading (r : Snapshot)
  | wrote (r : Snapshot)
  | lost
  deriving DecidableEq, Repr

/-- A deactivation reads and deletes outside a transaction; an activation saves, reads, and
    writes the version after the one it has read. -/
def proto (_ : Call) : Prog.Proto Op Op.Res Err Stage where
  allowed st o := match st, o with
    | .idle, .begin => True
    | .idle, .get _ => True
    | .idle, .delete _ => True
    | .begun, .save _ _ => True
    | .begun, .get _ => True
    | .reading r, .setWithVersion key row expectedVersion =>
      key = r.key ∧ expectedVersion = versionOf r.row ∧ row.version = expectedVersion + 1
    | .wrote _, .commit => True
    | _, _ => False
  trans st o a st' := match st, o, a with
    | .idle, .begin, .ok _ => st' = .begun
    | .idle, .get _, .ok _ => st' = .idle
    | .idle, .delete _, .ok _ => st' = .idle
    | .begun, .save _ _, .ok _ => st' = .begun
    | .begun, .get key, .ok row => ∃ n, st' = .reading ⟨key, row, n⟩
    | .reading r, .setWithVersion _ _ _, .ok _ => st' = .wrote r
    | .wrote _, .commit, .ok _ => st' = .idle
    | _, _, _ => st' = .lost

/-- A statement, and what follows when it answers. -/
theorem wp_answered {action : String} {o : Op} {R : Type} {f : o.Res → Prog Op Op.Res Err R} {st : Stage}
    (hall : (proto i).allowed st o)
    (hok : ∀ r st', (proto i).trans st o (.ok r) st' → Prog.wp (proto i) (f r) (fun _ _ => True) st') :
    Prog.wp (proto i) (call action o >>= f) (fun _ _ => True) st := by
  rw [call, Prog.wp_bind, Prog.wp_wrap, Prog.wp_call]
  refine ⟨hall, ?_⟩
  rintro (e | r) st' hst
  · trivial
  · exact hok r st' hst

theorem activate_wp {key : Key} {source : RawMessage} {actor : String} {now : Time} :
    Prog.wp (proto i) (Activation.activate compile key source actor now) (fun _ _ => True) .idle := by
  unfold Activation.activate
  rw [Prog.wp_bind, Prog.wp_ofExcept]
  cases compile source with
  | error e => trivial
  | ok revision =>
    show Prog.wp _ (activateWithCAS _ _ _ _ _) _ _
    unfold activateWithCAS
    refine wp_answered trivial ?_
    rintro _ _ ⟨⟩
    refine wp_answered trivial ?_
    rintro _ _ ⟨⟩
    refine wp_answered trivial ?_
    rintro row _ ⟨n, rfl⟩
    refine wp_answered ⟨rfl, rfl, rfl⟩ ?_
    rintro _ _ ⟨⟩
    refine wp_answered trivial ?_
    rintro _ _ ⟨⟩
    trivial

theorem deactivate_wp {key : Key} : Prog.wp (proto i) (Activation.deactivate key) (fun _ _ => True) .idle := by
  refine wp_answered trivial ?_
  rintro row _ ⟨⟩
  exact Prog.wp_call.mpr ⟨trivial, fun _ _ _ => trivial⟩

/-! Logs. -/

@[simp] theorem versions_activated (log : List Event) (v : Int) :
    versions (log ++ [.activated v]) = versions log ++ [v] := by
  simp [versions, Event.version]

@[simp] theorem versions_deactivated (log : List Event) : versions (log ++ [.deactivated]) = versions log := by
  simp [versions, Event.version]

theorem restarted_activated (log : List Event) (v : Int) : restarted (log ++ [.activated v]) = restarted log := by
  induction log with
  | nil => rfl
  | cons e log ih =>
    cases e with
    | deactivated => exact ih
    | activated u => simp [restarted]

theorem restarted_deactivated (h : restarted (log ++ [.deactivated]) = false) : versions log = [] := by
  induction log with
  | nil => rfl
  | cons e log ih =>
    cases e with
    | deactivated => exact ih h
    | activated u => simp [restarted] at h

theorem exists_version_of_restarted (h : restarted log = true) : ∃ v, v ∈ versions log := by
  induction log with
  | nil => cases h
  | cons e log ih =>
    cases e with
    | deactivated => exact ih h
    | activated u => exact ⟨u, List.mem_cons_self⟩

theorem quiet_of_activated {v : Int} {n : Nat} (hn : n ≤ log.length)
    (h : Quiet (log ++ [.activated v]) n) : Quiet log n := by
  obtain ⟨hdrop, hres⟩ := h
  rw [List.drop_append_of_le_length hn] at hdrop
  rw [restarted_activated] at hres
  exact ⟨fun hm => hdrop (List.mem_append_left _ hm), hres⟩

theorem not_quiet_deactivated {n : Nat} (hn : n ≤ log.length) : ¬ Quiet (log ++ [.deactivated]) n := by
  rintro ⟨hdrop, -⟩
  rw [List.drop_append_of_le_length hn] at hdrop
  exact hdrop (by simp)

/-- The versions of a log rise from 1 on, and the row has the last of them until a
    deactivation takes it away. -/
structure Orderly (log : List Event) (row : Option ActivationRow) : Prop where
  rising : (versions log).Pairwise (· < ·)
  positive : ∀ v ∈ versions log, 0 < v
  version : 0 ≤ versionOf row
  last : restarted log = false → ∀ v ∈ versions log, v ≤ versionOf row
  gone : restarted log = true → row = none

theorem orderly_deactivated {row : Option ActivationRow} (h : Orderly log row) :
    Orderly (log ++ [.deactivated]) none where
  rising := by
    rw [versions_deactivated]
    exact h.rising
  positive := by
    rw [versions_deactivated]
    exact h.positive
  version := le_rfl
  last hres v hv := by
    rw [versions_deactivated, restarted_deactivated hres] at hv
    cases hv
  gone _ := rfl

theorem orderly_activated {old : Option ActivationRow} {row : ActivationRow} (h : Orderly log old)
    (hres : restarted log = false) (hrow : row.version = versionOf old + 1) :
    Orderly (log ++ [.activated row.version]) (some row) := by
  have hless : ∀ v ∈ versions log, v < row.version := by
    intro v hv
    have := h.last hres v hv
    omega
  have hpos : 0 < row.version := by
    have := h.version
    omega
  constructor
  · rw [versions_activated, List.pairwise_append]
    refine ⟨h.rising, List.pairwise_singleton _ _, ?_⟩
    intro v hv x hx
    rw [List.mem_singleton.mp hx]
    exact hless v hv
  · intro v hv
    rw [versions_activated, List.mem_append, List.mem_singleton] at hv
    rcases hv with hv | rfl
    · exact h.positive v hv
    · exact hpos
  · exact hpos.le
  · intro _ v hv
    rw [versions_activated, List.mem_append, List.mem_singleton] at hv
    rcases hv with hv | rfl
    · exact (hless v hv).le
    · exact le_rfl
  · intro h'
    rw [restarted_activated, hres] at h'
    cases h'

/-! What every transaction keeps. -/

/-- The log has not become shorter since the transaction has read, and as long as nothing
    was added the row is as it was read. -/
def Tracked (d : Ledger) (r : Snapshot) : Prop :=
  r.position ≤ (d.log r.key).length ∧ ((d.log r.key).length = r.position → d.tables.activations r.key = r.row)

def Fresh (d : Ledger) (r : Snapshot) : Prop :=
  (d.log r.key).length = r.position ∨ ∃ row, d.tables.activations r.key = some row ∧ versionOf r.row < row.version

def rep (_ : Call) (d : Ledger) (s : Sess) : Stage → Prop
  | .idle => s.sess.own.activations = (fun _ => none) ∧ s.begun = false ∧ s.read = none
  | .begun => s.sess.own.activations = (fun _ => none) ∧ s.begun = true ∧ s.read = none
  | .reading r => s.sess.own.activations = (fun _ => none) ∧ s.read = some r ∧ Tracked d r ∧
      (Quiet (d.log r.key) r.position → Fresh d r)
  | .wrote r => s.read = some r ∧ Tracked d r ∧
      (Quiet (d.log r.key) r.position → (d.log r.key).length = r.position) ∧
      ∃ row, row.version = versionOf r.row + 1 ∧
        s.sess.own.activations = update (fun _ => none) r.key (some row)
  | .lost => s.sess.own.activations = (fun _ => none)

def Apart (s s' : Sess) : Prop := ∀ key, (s.sess.own.activations key).isSome = true → s'.sess.own.activations key = none

def view : View Ledger Sess Call Err Unit Stage where
  glob d := ∀ key, Orderly (d.log key) (d.tables.activations key)
  rep := rep
  excl := Apart
  post _ _ _ := True
  fin _ _ _ := True

theorem rep_frame {d d' : Ledger} {st : Stage} {r : Snapshot} (hread : s.read = some r)
    (h : d'.tables.activations r.key = d.tables.activations r.key ∧ d'.log r.key = d.log r.key)
    (hr : rep i d s st) : rep i d' s st := by
  cases st with
  | idle | begun | lost => exact hr
  | reading r' =>
    obtain ⟨hown, hread', hfresh⟩ := hr
    cases hread.symm.trans hread'
    refine ⟨hown, hread, ?_⟩
    unfold Fresh Tracked
    rw [h.1, h.2]
    exact hfresh
  | wrote r' =>
    obtain ⟨hread', htr, hrow⟩ := hr
    cases hread.symm.trans hread'
    refine ⟨hread, ?_⟩
    unfold Tracked
    rw [h.1, h.2]
    exact ⟨htr, hrow⟩

/-! What each statement does. -/

section
variable {columns : Columns} {d d' : Ledger} {os : List Sess} {s s' : Sess}

theorem exec_fail {o : Op} {e : Err} {a : Except Err o.Res} (h : exec columns d os s o (some e) = some (d', s', a)) :
    d' = d ∧ s'.sess = .idle ∧ ∃ e', a = .error e' := by
  cases h
  exact ⟨rfl, rfl, _, rfl⟩

theorem exec_performed {o : Op} {a : Except Err o.Res} (h : exec columns d os s o none = some (d', s', a)) :
    ∃ t sess, Postgres.perform columns d.tables (os.map Sess.sess) s.sess o = some (t, sess, a) ∧
      ((∃ x, a = .ok x ∧ d' = ⟨t, record d s o⟩ ∧ s' = remember d s sess o x) ∨
        (∃ e, a = .error e ∧ d' = ⟨t, d.log⟩ ∧ s' = ⟨sess, s.begun, s.read⟩)) := by
  simp only [exec, Postgres.exec] at h
  split at h
  · rename_i t sess x hp
    cases h
    exact ⟨t, sess, hp, .inl ⟨x, rfl, rfl, rfl⟩⟩
  · rename_i t sess e hp
    cases h
    exact ⟨t, sess, hp, .inr ⟨e, rfl, rfl, rfl⟩⟩
  · cases h

variable {a : Except Err Unit} {row : ActivationRow} {r : Snapshot} {key : Key}

theorem exec_save {source : RawMessage} {revision : RuleRevision} (hown : s.sess.own.activations = fun _ => none)
    (h : exec columns d os s (.save source revision) none = some (d', s', a)) :
    d' = d ∧ s'.sess.own.activations = (fun _ => none) ∧ s'.begun = s.begun ∧ s'.read = s.read := by
  obtain ⟨t, sess, hp, hcases⟩ := exec_performed h
  obtain ⟨rfl, hsess⟩ := perform_save_own hp
  have hnone : sess.own.activations = fun _ => none := by
    rcases hsess with rfl | hsame
    · rfl
    · exact hsame.trans hown
  rcases hcases with ⟨x, -, rfl, rfl⟩ | ⟨e, -, rfl, rfl⟩ <;> exact ⟨rfl, hnone, rfl, rfl⟩

/-- The upsert of a transaction that has written no activation goes through only on the row
    that it has read. -/
theorem exec_set (hversion : row.version = versionOf r.row + 1) (hown : s.sess.own.activations = fun _ => none)
    (hread : s.read = some r) (hfresh : Quiet (d.log r.key) r.position → Fresh d r)
    (h : exec columns d os s (.setWithVersion r.key row (versionOf r.row)) none = some (d', s', a)) :
    d' = d ∧ s'.read = some r ∧ (∀ s₂ ∈ os, s₂.sess.own.activations r.key = none) ∧
      ((∃ e, a = .error e ∧ s'.sess.own.activations = fun _ => none) ∨
        (a = .ok () ∧ (Quiet (d.log r.key) r.position → (d.log r.key).length = r.position) ∧
          ∃ row', row'.version = versionOf r.row + 1 ∧
          s'.sess.own.activations = update (fun _ => none) r.key (some row'))) := by
  have hsees : (s.sess.sees d.tables).activations r.key = d.tables.activations r.key := by
    simp [Postgres.Session.sees, Postgres.Tables.onto, hown]
  obtain ⟨t, sess, hp, hcases⟩ := exec_performed h
  obtain ⟨rfl, hfree, hdid⟩ := perform_set hp
  have hfree' : ∀ s₂ ∈ os, s₂.sess.own.activations r.key = none :=
    fun s₂ hs₂ => hfree s₂.sess (List.mem_map_of_mem hs₂)
  rcases hdid with ⟨e, rfl, hsess⟩ | ⟨rfl, row', rfl, hrow', hfound⟩
  · rcases hcases with ⟨x, hx, -⟩ | ⟨e', -, rfl, rfl⟩
    · cases hx
    · refine ⟨rfl, hread, hfree', .inl ⟨e, rfl, ?_⟩⟩
      rcases hsess with rfl | rfl | hne
      · rfl
      · exact hown
      · exact absurd hversion hne
  · rcases hcases with ⟨x, -, rfl, rfl⟩ | ⟨e', he, -⟩
    · refine ⟨rfl, hread, hfree', .inr ⟨rfl, ?_, row', hrow', ?_⟩⟩
      · -- had the row moved on, its version would be a later one
        intro hquiet
        rcases hfresh hquiet with hcur | ⟨cur, hcur, hlt⟩
        · exact hcur
        rw [hsees, hcur] at hfound
        rcases hfound with hnone | ⟨current, hsome, hv⟩
        · cases hnone
        · cases hsome
          omega
      · show update s.sess.own.activations r.key (some row') = _
        rw [hown]
    · cases he

theorem apart_of_none (h : s'.sess.own.activations = fun _ => none) (s₂ : Sess) : Apart s' s₂ ∧ Apart s₂ s' := by
  constructor
  · intro key hsome
    rw [h] at hsome
    cases hsome
  · intro key _
    rw [h]

section
variable (hown : s.sess.own.activations = update (fun _ => none) r.key (some row))
include hown

theorem commit_self : (s.sess.sees d.tables).activations r.key = some row ∧
    record d s .commit r.key = d.log r.key ++ [.activated row.version] := by
  simp [Postgres.Session.sees, Postgres.Tables.onto, record, hown]

theorem commit_other (hkey : key ≠ r.key) :
    (s.sess.sees d.tables).activations key = d.tables.activations key ∧ record d s .commit key = d.log key := by
  simp [Postgres.Session.sees, Postgres.Tables.onto, record, hown, hkey]

variable (htr : d.tables.activations r.key = r.row) (hrow : row.version = versionOf r.row + 1)
include htr hrow

/-- A commit on a rule set moves its readers on, and nobody else has written there. -/
theorem commit_keeps {s₂ : Sess} (hapart : Apart s s₂) {i : Call} {st : Stage} (hr : rep i d s₂ st) :
    rep i ⟨s.sess.sees d.tables, record d s .commit⟩ s₂ st := by
  cases st with
  | idle | begun | lost => exact hr
  | wrote r₂ =>
    -- a second writer of the rule set is excluded
    have hne : r₂.key ≠ r.key := by
      intro heq
      obtain ⟨-, -, -, row₂, -, hown₂⟩ := hr
      have := hapart r.key (by rw [hown]; simp)
      rw [hown₂, heq] at this
      simp at this
    exact rep_frame hr.1 (commit_other hown hne) hr
  | reading r₂ =>
    by_cases hkey : r₂.key = r.key
    · obtain ⟨hown₂, hread₂, ⟨hle, hsame⟩, hfresh⟩ := hr
      obtain ⟨hself, hlog⟩ := commit_self (d := d) hown
      refine ⟨hown₂, hread₂, ?_⟩
      unfold Tracked Fresh
      simp only [hkey, hlog, hself, List.length_append, List.length_singleton]
      rw [hkey] at hle hsame hfresh
      refine ⟨⟨by omega, fun h => absurd h (by omega)⟩, fun hquiet => .inr ⟨row, rfl, ?_⟩⟩
      -- the committed version follows the one that was there
      rcases hfresh (quiet_of_activated hle hquiet) with hlen | ⟨row₂, hrow₂, hlt⟩
      · rw [hkey] at hlen
        rw [hrow, ← htr, hsame hlen]
        omega
      · rw [hkey, htr] at hrow₂
        rw [hrow, hrow₂]
        show _ < row₂.version + 1
        omega
    · exact rep_frame hr.2.1 (commit_other hown hkey) hr

theorem commit_orderly (hg : ∀ key, Orderly (d.log key) (d.tables.activations key))
    (hres : restarted (d.log r.key) = false) (key : Key) :
    Orderly (record d s .commit key) ((s.sess.sees d.tables).activations key) := by
  by_cases hkey : key = r.key
  · subst hkey
    rw [(commit_self hown).1, (commit_self hown).2]
    refine orderly_activated (hg r.key) hres ?_
    rw [htr]
    exact hrow
  · rw [(commit_other hown hkey).1, (commit_other hown hkey).2]
    exact hg key

end

theorem exec_delete (h : exec columns d os s (.delete key) none = some (d', s', a)) :
    a = .ok () ∧ s' = s ∧ d'.tables.activations = update d.tables.activations key none ∧
      d'.log = update d.log key (d.log key ++ [.deactivated]) := by
  obtain ⟨t, sess, hp, hcases⟩ := exec_performed h
  simp only [Postgres.perform] at hp
  split at hp
  · cases hp
  cases hp
  rcases hcases with ⟨x, -, rfl, rfl⟩ | ⟨e, he, -⟩
  · exact ⟨rfl, rfl, rfl, rfl⟩
  · cases he

theorem delete_orderly (hg : ∀ key, Orderly (d.log key) (d.tables.activations key))
    (ht : d'.tables.activations = update d.tables.activations key none)
    (hl : d'.log = update d.log key (d.log key ++ [.deactivated])) (k : Key) :
    Orderly (d'.log k) (d'.tables.activations k) := by
  rw [ht, hl]
  by_cases hk : k = key
  · subst hk
    rw [update_self, update_self]
    exact orderly_deactivated (hg k)
  · rw [update_of_ne hk, update_of_ne hk]
    exact hg k

theorem delete_keeps (ht : d'.tables.activations = update d.tables.activations key none)
    (hl : d'.log = update d.log key (d.log key ++ [.deactivated])) {i : Call} {st : Stage}
    (hr : rep i d s st) : rep i d' s st := by
  have hother : ∀ k, k ≠ key → d'.tables.activations k = d.tables.activations k ∧ d'.log k = d.log k := by
    intro k hne
    rw [ht, hl]
    exact ⟨update_of_ne hne _ _, update_of_ne hne _ _⟩
  have hdead : ∀ r : Snapshot, r.key = key → Tracked d r →
      Tracked d' r ∧ ¬ Quiet (d'.log r.key) r.position := by
    rintro r rfl ⟨hle, -⟩
    have hlog : d'.log r.key = d.log r.key ++ [.deactivated] := by
      rw [hl, update_self]
    unfold Tracked
    rw [hlog, List.length_append, List.length_singleton]
    exact ⟨⟨by omega, fun h => absurd h (by omega)⟩, not_quiet_deactivated hle⟩
  cases st with
  | idle | begun | lost => exact hr
  | reading r =>
    by_cases hkey : r.key = key
    · obtain ⟨hown, hread, htr, -⟩ := hr
      obtain ⟨htr', hnot⟩ := hdead r hkey htr
      exact ⟨hown, hread, htr', fun h => absurd h hnot⟩
    · exact rep_frame hr.2.1 (hother r.key hkey) hr
  | wrote r =>
    by_cases hkey : r.key = key
    · obtain ⟨hread, htr, -, hrow⟩ := hr
      obtain ⟨htr', hnot⟩ := hdead r hkey htr
      exact ⟨hread, htr', fun h => absurd h hnot, hrow⟩
    · exact rep_frame hr.1 (hother r.key hkey) hr

end

theorem gated_exec {columns : Columns} {d : Ledger} {os : List Sess} {o : Op} {x : Option Err}
    {r : Ledger × Sess × Except Err o.Res} (h : (gated columns compile).exec d os s o x = some r) :
    exec columns d os s o x = some r ∧ (o = .commit → x = none → Undisturbed d s) := by
  cases o with
  | commit =>
    cases x with
    | some e => exact ⟨h, fun _ hx => nomatch hx⟩
    | none =>
      have h' : (if Undisturbed d s then exec columns d os s .commit none else none) = some r := h
      by_cases hu : Undisturbed d s
      · rw [if_pos hu] at h'
        exact ⟨h', fun _ _ => hu⟩
      · rw [if_neg hu] at h'
        cases h'
  | begin | save | get | setWithVersion | delete => exact ⟨h, fun hk _ => nomatch hk⟩

theorem gated_sound (columns : Columns) (compile : RawMessage → Except Err RuleRevision) :
    Sound (gated columns compile) proto view where
  start := by
    rintro d i d' s p os hg - h
    cases h
    refine ⟨hg, ⟨.idle, ⟨rfl, rfl, rfl⟩, ?_⟩, fun s₂ _ => apart_of_none rfl s₂, fun _ _ _ _ hr => hr, fun _ _ hp => hp⟩
    cases i with
    | activate key source actor now =>
      show Prog.wp _ (_ <$> _) _ _
      rw [Prog.wp_map]
      exact activate_wp
    | deactivate key => exact deactivate_wp
  exec := by
    rintro i d os s st o x d' s' a hg hrep hall hex he
    obtain ⟨he, hgate⟩ := gated_exec he
    -- a statement that leaves the data and has no activation of its own
    have hstill : ∀ st' : Stage, d' = d → s'.sess.own.activations = (fun _ => none) → (proto i).trans st o a st' →
        rep i d s' st' → view.glob d' ∧ (∃ st', (proto i).trans st o a st' ∧ view.rep i d' s' st') ∧
          (∀ s₂ ∈ os, view.excl s' s₂ ∧ view.excl s₂ s') ∧ Keeps view d d' os := by
      rintro st' rfl hown htr hr
      exact ⟨hg, ⟨st', htr, hr⟩, fun s₂ _ => apart_of_none hown s₂, fun _ _ _ _ hr => hr, fun _ _ hp => hp⟩
    cases x with
    | some e =>
      obtain ⟨hd, hs', e', rfl⟩ := exec_fail he
      have hown : s'.sess.own.activations = fun _ => none := by
        rw [hs']
        rfl
      refine hstill .lost hd hown ?_ hown
      match st, o, hall with
      | .idle, .begin, _ => rfl
      | .idle, .get _, _ => rfl
      | .idle, .delete _, _ => rfl
      | .begun, .save _ _, _ | .begun, .get _, _ | .reading _, .setWithVersion _ _ _, _ | .wrote _, .commit, _ => rfl
    | none =>
      match st, o, hall with
      | .idle, .begin, _ =>
        cases he
        exact hstill .begun rfl rfl rfl ⟨rfl, rfl, rfl⟩
      | .idle, .get key, _ =>
        obtain ⟨hown, hbegun, hread⟩ := hrep
        cases he
        have hr : ∀ x, remember d s s.sess (.get key) x = ⟨s.sess, false, none⟩ := by simp [remember, hbegun]
        rw [hr] at hstill ⊢
        exact hstill .idle rfl hown rfl ⟨hown, rfl, rfl⟩
      | .idle, .delete key, _ =>
        obtain ⟨hown, hbegun, hread⟩ := hrep
        obtain ⟨rfl, rfl, ht, hl⟩ := exec_delete he
        exact ⟨delete_orderly hg ht hl, ⟨.idle, rfl, hown, hbegun, hread⟩, fun s₂ _ => apart_of_none hown s₂,
          fun i' _ _ _ hr => delete_keeps (i := i') ht hl hr, fun _ _ hp => hp⟩
      | .begun, .save source revision, _ =>
        obtain ⟨hown, hbegun, hread⟩ := hrep
        obtain ⟨rfl, hown', hbegun', hread'⟩ := exec_save hown he
        cases a with
        | error e => exact hstill .lost rfl hown' rfl hown'
        | ok u => exact hstill .begun rfl hown' rfl ⟨hown', hbegun'.trans hbegun, hread'.trans hread⟩
      | .begun, .get key, _ =>
        obtain ⟨hown, hbegun, hread⟩ := hrep
        have hsees : (s.sess.sees d.tables).activations key = d.tables.activations key := by
          simp [Postgres.Session.sees, Postgres.Tables.onto, hown]
        cases he
        have hr : ∀ row, remember d s s.sess (.get key) row = ⟨s.sess, true, some ⟨key, row, (d.log key).length⟩⟩ := by
          simp [remember, hbegun]
        rw [hr] at hstill ⊢
        exact hstill (.reading _) rfl hown ⟨_, rfl⟩ ⟨hown, rfl, ⟨le_rfl, fun _ => hsees.symm⟩, fun _ => .inl rfl⟩
      | .reading r, .setWithVersion key row expectedVersion, hall =>
        obtain ⟨rfl, rfl, hversion⟩ := hall
        obtain ⟨hown, hread, htr, hfresh⟩ := hrep
        obtain ⟨rfl, hread', hfree, ⟨e, rfl, hown'⟩ | ⟨rfl, hcur, row', hrow', hown'⟩⟩ :=
          exec_set hversion hown hread hfresh he
        · exact hstill .lost rfl hown' rfl hown'
        refine ⟨hg, ⟨.wrote r, rfl, hread', htr, hcur, row', hrow', hown'⟩, ?_, fun _ _ _ _ hr => hr, fun _ _ hp => hp⟩
        intro s₂ hs₂
        constructor
        · intro k hk
          by_cases hkey : k = r.key
          · rw [hkey]
            exact hfree s₂ hs₂
          · rw [hown'] at hk
            simp [hkey] at hk
        · intro k hk
          by_cases hkey : k = r.key
          · rw [hkey, hfree s₂ hs₂] at hk
            cases hk
          · rw [hown']
            simp [hkey]
      | .wrote r, .commit, _ =>
        obtain ⟨hread, htr, hcur, row, hrow, hown⟩ := hrep
        have hquiet : Quiet (d.log r.key) r.position := hgate rfl rfl r hread
        have hsame : d.tables.activations r.key = r.row := htr.2 (hcur hquiet)
        cases he
        exact ⟨commit_orderly hown hsame hrow hg hquiet.2, ⟨.idle, rfl, rfl, rfl, rfl⟩,
          fun s₂ _ => apart_of_none rfl s₂,
          fun i' _ s₂ hs₂ hr => commit_keeps (i := i') hown hsame hrow (hex s₂ hs₂).1 hr, fun _ _ hp => hp⟩
  fin _ _ _ := trivial
  env {_ _ v _} _ _ := nomatch v

theorem committing_some {a : Turn} (h : committing w a = some s) :
    ∃ (c : Nat) (i : Call) (k : _), w.clients[c]? = some ⟨i, s, .running (.stmt .commit k)⟩ := by
  unfold committing at h
  split at h
  · split at h
    · rename_i hc
      cases h
      exact ⟨_, _, _, hc⟩
    · cases h
  · cases h

/-- In a state of the invariant a commit swaps exactly when it is undisturbed. -/
theorem swapped_iff_undisturbed (h : Holds proto view w) (a : Turn) :
    AtCommit Undisturbed w a ↔ AtCommit Swapped w a := by
  refine forall₂_congr ?_
  intro s hs
  obtain ⟨c, i, k, hc⟩ := committing_some hs
  obtain ⟨st, hrep, hall, -⟩ := h.running c i s _ hc
  match st, hall with
  | .wrote r, _ =>
    obtain ⟨hread, htr, hcur, row, hrow, hown⟩ := hrep
    have horder := h.glob r.key
    constructor
    · intro hquiet
      have hlen := hcur (hquiet r hread)
      refine ⟨r, hread, hlen, row, by rw [hown, update_self]; rfl, ?_⟩
      intro v hv
      have hle := horder.last (hquiet r hread).2 v hv
      rw [htr.2 hlen] at hle
      omega
    · rintro ⟨r', hread', hlen, row', hrow', hless⟩ r'' hread''
      cases hread.symm.trans hread'
      cases hread.symm.trans hread''
      rw [hown, update_self] at hrow'
      cases hrow'
      refine ⟨by rw [List.drop_eq_nil_of_le hlen.le]; simp, ?_⟩
      -- had the rule set been switched off, its version would be 1 again
      by_contra hres
      rw [Bool.not_eq_false] at hres
      obtain ⟨v, hv⟩ := exists_version_of_restarted hres
      have hpos := horder.positive v hv
      have hlt := hless v hv
      have hnone : r.row = none := (htr.2 hlen).symm.trans (horder.gone hres)
      rw [hrow, hnone] at hlt
      change v < 0 + 1 at hlt
      omega

/-- In a run from empty tables every activation that commits is a compare-and-swap, and the
    versions rise from one to the next, exactly when none commits over a deactivation that
    followed its read or an earlier activation. -/
theorem swaps_iff_undisturbed (columns : Columns) (compile : RawMessage → Except Err RuleRevision) (as : List Turn) :
    Machine.Along (next (server columns compile)) (AtCommit Swapped) ⟨⟨.empty, fun _ => []⟩, []⟩ as ↔
      Machine.Along (next (server columns compile)) (AtCommit Undisturbed) ⟨⟨.empty, fun _ => []⟩, []⟩ as := by
  refine (Machine.along_congr (Holds proto view) (fun w a h => swapped_iff_undisturbed h a) ?_ ?_).symm
  · intro w a w' h hu hn
    rw [← gated_next hu] at hn
    exact holds_step (gated_sound columns compile) h hn
  · refine holds_empty ?_
    intro key
    exact ⟨List.Pairwise.nil, nofun, le_rfl, fun _ => nofun, nofun⟩

/-- An activation of the sample rule set from its begin to before its upsert, as the client
    `c`. -/
def upToRead (c : Nat) : List Turn :=
  [.start (.activate TwoSources.key (TwoSources.source "100") "api" 5), .exec c none, .exec c none, .exec c none]

/-- A deactivation of the sample rule set, as the client `c`. -/
def switchOff (c : Nat) : List Turn := [.start (.deactivate TwoSources.key), .exec c none, .exec c none]

/-- The upsert and the commit of the client `c`. -/
def writeAndCommit (c : Nat) : List Turn := [.exec c none, .exec c none]

/-- A deactivation between the read and the commit of an activation goes unnoticed, and after
    one the versions start again. -/
theorem deactivated_in_between :
    let step := next (server TwoSources.columns TwoSources.compile)
    let init : Calls := ⟨⟨.empty, fun _ => []⟩, []⟩
    let unnoticed := upToRead 0 ++ writeAndCommit 0 ++ upToRead 1 ++ switchOff 2 ++ writeAndCommit 1
    let again := upToRead 0 ++ writeAndCommit 0 ++ switchOff 1 ++ upToRead 2 ++ writeAndCommit 2
    (¬ Machine.Along step (AtCommit Swapped) init unnoticed ∧
      (Machine.run step init unnoticed).map (fun w => w.db.log TwoSources.key) =
        some [.activated 1, .deactivated, .activated 2]) ∧
    ¬ Machine.Along step (AtCommit Swapped) init again ∧
      (Machine.run step init again).map (fun w => w.db.log TwoSources.key) =
        some [.activated 1, .deactivated, .activated 1] := by
  decide +kernel

end Swap

end FlowRule.Activation
