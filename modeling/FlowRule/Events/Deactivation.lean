import FlowRule.Activation.Linked
import FlowRule.Events.Verdict

/- Event transactions of the Go worker among calls that activate and deactivate rule sets.

   Process reads the activation of the event's rule set and then, in a statement of its own,
   the revision joined to it. When a deactivation commits in between, Process returns the
   error of a missing rule, which is permanent (`deactivated_between_reads`); it returns no
   other permanent error of its own making (`never_permanent_iff`). No statement deletes a
   revision, and an error of the driver has no sentinel of the code. -/
namespace FlowRule.Deactivation

open Prog Activation.Postgres

/-! The error a transaction ends with. -/

inductive Stage where
  | before | missing
  deriving DecidableEq, Repr

/-- A statement is answered with a result or with an error of the driver. After an empty
    join there is none. -/
def proto : Proto Op Op.Res Err Stage where
  allowed st _ := st = .before
  trans _ o a st' := (∀ e, a = .error e → e.sentinels = []) ∧
    match o, a with
    | .revisionGetActive _ _, .ok none => st' = .missing
    | _, _ => st' = .before

/-- The program does not find the join empty, and it fails with errors of `B`. -/
def Fails (B : Err → Prop) {R : Type} (p : Tx R) : Prop :=
  wp proto p (fun st r => st = .before ∧ ∀ e, r = .error e → B e) .before

section
variable {B B' : Err → Prop} {R T : Type}

theorem Fails.mono {p : Tx R} (h : Fails B p) (hB : ∀ e, B e → B' e) : Fails B' p :=
  wp_mono (fun _ _ hr => ⟨hr.1, fun e he => hB e (hr.2 e he)⟩) h

theorem Fails.bind {p : Tx R} {f : R → Tx T} (hp : Fails B p) (hf : ∀ r, Fails B (f r)) : Fails B (p >>= f) := by
  unfold Fails
  rw [wp_bind]
  refine wp_mono ?_ hp
  rintro st (e | r) ⟨rfl, herr⟩
  · exact ⟨rfl, fun e' he' => by cases he'; exact herr e rfl⟩
  · exact hf r

theorem Fails.map {p : Tx R} (hp : Fails B p) (g : R → T) : Fails B (g <$> p) :=
  hp.bind (fun _ => ⟨rfl, nofun⟩)

theorem fails_pure (r : R) : Fails B (pure r) := ⟨rfl, nofun⟩

theorem fails_throw {e : Err} (h : B e) : Fails B (Prog.throw e : Tx R) :=
  ⟨rfl, fun e' he' => by cases he'; exact h⟩

theorem fails_ofExcept {x : Except Err R} (h : ∀ e, x = .error e → B e) : Fails B (ofExcept x) := by
  unfold Fails
  rw [wp_ofExcept]
  exact ⟨rfl, h⟩

end

abbrev Retried {R : Type} (p : Tx R) : Prop := Fails (fun e => isPermanent e = false) p

section
variable {R : Type}

/-- Text in front of an error does not make it permanent. -/
theorem Fails.mapError {p : Tx R} {g : Err → Err} (hg : ∀ e, isPermanent (g e) = isPermanent e) (hp : Retried p) :
    Retried (p.wrap g) := by
  unfold Retried Fails
  rw [wp_wrap]
  refine wp_mono ?_ hp
  rintro st (e | r) ⟨rfl, herr⟩
  · exact ⟨rfl, fun e' he' => by cases he'; exact (hg e).trans (herr e rfl)⟩
  · exact ⟨rfl, nofun⟩

theorem Fails.wrap {p : Tx R} (hp : Retried p) (context : String) : Retried (p.wrap (Err.wrap context)) :=
  hp.mapError (fun _ => rfl)

theorem retried_sql {o : Op} (ho : ∀ tenantScope ruleSet, o ≠ .revisionGetActive tenantScope ruleSet) :
    Retried (sql o) := by
  unfold Retried Fails sql
  rw [wp_call]
  refine ⟨rfl, ?_⟩
  rintro a st ⟨herr, hst⟩
  refine ⟨?_, fun e he => not_permanent_of_sentinels (herr e he)⟩
  cases o with
  | revisionGetActive tenantScope ruleSet => exact absurd rfl (ho tenantScope ruleSet)
  | _ => exact hst

theorem retried_msg (text : String) : Retried (Prog.throw (.msg text) : Tx R) :=
  fails_throw (not_permanent_of_sentinels rfl)

end

/-! The Go worker. -/

theorem retried_clock : Retried clockNow := retried_sql (by nofun)

theorem retried_assertHeld (shard : Nat) (owner : String) (token : Int) :
    Retried (Go.assertHeld shard owner token) := by
  refine ((retried_sql (by nofun)).wrap _).bind ?_
  rintro (_ | ⟨current, expires, active⟩)
  · exact fails_throw (not_permanent_of_sentinels rfl)
  show Retried (if _ then _ else _)
  split
  · exact fails_throw rfl
  split
  · exact fails_throw rfl
  split
  · exact fails_throw rfl
  · exact fails_pure ()

theorem retried_inboxGet (tenantID eventID : String) : Retried (Go.inboxGet tenantID eventID) := by
  refine ((retried_sql (by nofun)).wrap _).bind ?_
  rintro (_ | row)
  · exact fails_pure none
  refine Fails.map (fails_ofExcept ?_) some
  intro e he
  unfold Go.scanInbox at he
  split at he <;> cases he
  exact not_permanent_of_sentinels rfl

theorem retried_executionGet (id : String) : Retried (Go.executionGet id) := by
  refine ((retried_sql (by nofun)).wrap _).bind ?_
  rintro (_ | row)
  · exact fails_pure none
  refine Fails.map (fails_ofExcept ?_) some
  intro e he
  unfold Go.scanExecution at he
  split at he
  · cases he
    exact not_permanent_of_sentinels rfl
  · cases he
    exact not_permanent_of_sentinels rfl
  · cases he

theorem retried_found {entry : Option Go.InboxEntry} {context : String} {k : Option Execution → Tx (Option Execution)}
    (hk : ∀ found, Retried (k found)) :
    Retried (match entry with
      | some e => (Go.executionGet e.executionID).wrap (Err.wrap context) >>= k
      | none => pure none >>= k) := by
  cases entry with
  | none => exact hk none
  | some e => exact ((retried_executionGet _).wrap _).bind hk

theorem retried_deduplicateEvent (env : EventEnvelope) : Retried (Go.deduplicateEvent env) := by
  refine ((retried_inboxGet _ _).wrap _).bind ?_
  intro entry
  refine retried_found ?_
  rintro (_ | execution)
  · refine retried_clock.bind ?_
    intro now
    refine (((retried_sql (by nofun)).wrap _).wrap _).bind ?_
    intro (inserted : Bool)
    show Retried (if inserted = true then _ else _)
    split
    · exact fails_pure none
    refine ((retried_inboxGet _ _).wrap _).bind ?_
    intro entry
    refine retried_found ?_
    rintro (_ | execution)
    · exact fails_throw rfl
    · exact fails_pure _
  · exact fails_pure _

theorem retried_outboxInsert (effects : List Go.OutboxEffect) : Retried (Go.outboxInsert effects) := by
  induction effects with
  | nil => exact fails_pure ()
  | cons ef rest ih =>
    unfold Go.outboxInsert
    split
    · exact retried_msg _
    · exact ((retried_sql (fun _ _ h => by cases h)).wrap _).bind (fun _ => ih)

theorem retried_inboxMarkCommitted (tenantID eventID executionID : String) :
    Retried (Go.inboxMarkCommitted tenantID eventID executionID) :=
  retried_clock.bind (fun _ => ((retried_sql (by nofun)).wrap _).bind (fun _ => fails_pure ()))

theorem retried_listSubscribers (tenantID eventType : String) :
    Retried (Go.listSubscribersForEvent tenantID eventType) := by
  refine ((retried_sql (by nofun)).wrap _).bind ?_
  intro items
  show Retried (if _ then _ else _)
  split
  · exact retried_msg _
  · exact fails_pure _

section
variable (eng : Engine) (env : EventEnvelope)

/-- An error the worker retries, or one of the event's rules or of its encoding. -/
def Blameless (e : Err) : Prop :=
  isPermanent e = false ∨ (∃ now revision e', eng.evaluate now revision env = .error e' ∧ e = e'.wrap "evaluate") ∨
    ∃ e', eng.marshal env = .error e' ∧ e = e'.wrap "marshal subscribed event"

/-- How a Process ends: an empty join is the only other permanent error. -/
def Ends {R : Type} : Stage → Except Err R → Prop
  | .before, r => ∀ e, r = .error e → Blameless eng env e
  | .missing, r => r = .error (.sentinel .ruleNotFound)

variable {eng env}

theorem Fails.blameless {R : Type} {p : Tx R} (h : Retried p) : Fails (Blameless eng env) p :=
  h.mono (fun _ he => .inl he)

theorem fails_persist (revision : RuleRevision) (decision : Decision) :
    Fails (Blameless eng env) (Go.persistExecutionAndOutbox eng env revision decision) := by
  refine retried_clock.blameless.bind ?_
  intro now
  refine (((retried_sql (by nofun)).wrap _).wrap _).blameless.bind ?_
  intro _
  refine ((retried_listSubscribers _ _).wrap _).blameless.bind ?_
  intro subscribers
  show Fails _ (if _ then _ else _)
  split
  · exact (retried_msg _).blameless
  refine Fails.bind (fails_ofExcept ?_) ?_
  · intro e he
    cases hm : eng.marshal env with
    | ok payload =>
      rw [hm] at he
      cases he
    | error e' =>
      rw [hm] at he
      cases he
      exact .inr (.inr ⟨e', hm, rfl⟩)
  · intro payload
    refine ((retried_outboxInsert _).wrap _).blameless.bind ?_
    intro _
    exact ((retried_inboxMarkCommitted _ _ _).wrap _).blameless.bind (fun _ => fails_pure _)

theorem loadActiveRevision_wp : wp proto (Go.loadActiveRevision env) (fun st r => match st with
    | .before => ∀ e, r = .error e → isPermanent e = false
    | .missing => r = .error (.sentinel .ruleNotFound)) .before := by
  unfold Go.loadActiveRevision
  rw [wp_bind]
  refine wp_wrap.mpr (wp_call.mpr ⟨rfl, ?_⟩)
  rintro (e | activation) st ⟨herr, hst⟩
  · cases hst
    intro e' he'
    cases he'
    exact not_permanent_of_sentinels (herr e rfl)
  · cases hst
    cases activation with
    | none =>
      intro e he
      cases he
      rfl
    | some activation =>
      show wp _ (_ >>= _) _ _
      rw [wp_bind]
      refine wp_wrap.mpr (wp_call.mpr ⟨rfl, ?_⟩)
      rintro (e | _ | revision) st ⟨herr, hst⟩
      · cases hst
        intro e' he'
        cases he'
        exact not_permanent_of_sentinels (herr e rfl)
      · cases hst
        rfl
      · cases hst
        exact nofun

theorem process_wp (hvalid : env.validate = .ok ()) (token : Int) (shard : Nat) (workerID : String) :
    wp proto (Go.process eng env token shard workerID) (Ends eng env) .before := by
  -- up to the rules and after them the join is not looked at
  have before : ∀ {R T : Type} {p : Tx R} {f : R → Tx T}, Retried p → (∀ r, wp proto (f r) (Ends eng env) .before) →
      wp proto (p >>= f) (Ends eng env) .before := by
    intro R T p f hp hf
    rw [wp_bind]
    refine wp_mono ?_ hp
    rintro st (e | r) ⟨rfl, herr⟩
    · intro e' he'
      cases he'
      exact .inl (herr e rfl)
    · exact hf r
  have after : ∀ {R : Type} {p : Tx R}, Fails (Blameless eng env) p → wp proto p (Ends eng env) .before := by
    intro R p hp
    refine wp_mono ?_ hp
    rintro st r ⟨rfl, herr⟩
    exact herr
  unfold Go.process
  rw [hvalid]
  show wp _ (if _ then _ else _) _ _
  split
  · exact after (fails_throw (.inl rfl))
  unfold Go.processInTransaction
  refine before (Fails.mapError (fun _ => rfl) (retried_sql (by nofun))) ?_
  intro _
  refine before ((retried_assertHeld _ _ _).wrap _) ?_
  intro _
  refine before (retried_deduplicateEvent env) ?_
  rintro (_ | existing)
  · show wp _ (_ >>= _) _ _
    rw [wp_bind]
    refine wp_mono ?_ loadActiveRevision_wp
    rintro (_ | _) (e | revision) hr
    · intro e' he'
      cases he'
      exact .inl (hr e rfl)
    · refine after ?_
      refine retried_clock.blameless.bind ?_
      intro now
      refine Fails.bind (fails_ofExcept ?_) ?_
      · intro e he
        cases hev : eng.evaluate now revision env with
        | ok decision =>
          rw [hev] at he
          cases he
        | error e' =>
          rw [hev] at he
          cases he
          exact .inr (.inl ⟨now, revision, e', hev, rfl⟩)
      · intro decision
        refine (fails_persist revision decision).bind ?_
        intro execution
        exact ((retried_sql (by nofun)).wrap _).blameless.bind (fun _ => fails_pure _)
    · cases hr
      rfl
    · cases hr
  · exact after (fails_pure existing)

end

/-! The rules next to the events. -/

def rulesOf (rules : Activation.Postgres.Tables) (refs : Reference) (tenantScope ruleSet : String) : Reference :=
  { refs with
    activations := ((rules.activations (tenantScope, ruleSet)).map (fun a => ⟨tenantScope, ruleSet, a.revision⟩)).toList
    revisions := (getActive rules (tenantScope, ruleSet)).toList }

def refsFor (rules : Activation.Postgres.Tables) (refs : Reference) : Op → Reference
  | .activationGet tenantScope ruleSet => rulesOf rules refs tenantScope ruleSet
  | .revisionGetActive tenantScope ruleSet => rulesOf rules refs tenantScope ruleSet
  | _ => refs

theorem rulesOf_activeRevision (rules : Activation.Postgres.Tables) (refs : Reference) (tenantScope ruleSet : String) :
    (rulesOf rules refs tenantScope ruleSet).activeRevision tenantScope ruleSet =
      getActive rules (tenantScope, ruleSet) := by
  unfold Reference.activeRevision Reference.activation rulesOf getActive
  cases rules.activations (tenantScope, ruleSet) with
  | none => rfl
  | some a =>
    cases hrev : rules.revisions ((tenantScope, ruleSet), a.revision) with
    | none => simp [hrev]
    | some row => simp [hrev]

/-- A statement of an event call, with the rules as they are at that moment. -/
def exec (rules : Activation.Postgres.Tables) (d : DB) (os : List Session) (s : Session) (o : Op) (w : Oracle) :
    Option (DB × Session × Except Err o.Res) :=
  if w.fail.all (fun e => e.sentinels.isEmpty) then
    (FlowRule.exec { d with refs := refsFor rules d.refs o } os s o w).map
      (fun r => ({ r.1 with refs := d.refs }, r.2))
  else none

def events (eng : Engine) (rules : Activation.Postgres.Tables) :
    Server DB Session Call Outside Oracle Op Op.Res Err Reply :=
  { store eng with exec := exec rules }

structure System where
  events : Store
  rules : Activation.Swap.Calls

inductive Act where
  | event (a : StoreAct)
  | rule (a : Activation.Swap.Turn)

def next (eng : Engine) (columns : Columns) (compile : RawMessage → Except Err RuleRevision)
    (x : System) : Act → Option System
  | .event a => (Clients.next (events eng x.rules.db.tables) x.events a).map (fun w => { x with events := w })
  | .rule a => (Clients.next (Activation.Swap.server columns compile) x.rules a).map (fun w => { x with rules := w })

/-! What a statement is answered. -/

section
variable {rules : Activation.Postgres.Tables} {d d' : DB} {os : List Session} {s s' : Session} {o : Op} {w : Oracle}

theorem perform_plain {a : Except Err o.Res} {e : Err} (h : perform d os s o = some (d', s', a)) (he : a = .error e) :
    e.sentinels = [] := by
  subst he
  cases o with
  | clock | begin => cases h
  | _ =>
    simp only [perform] at h
    repeat' split at h
    all_goals
      cases h
      try rfl

theorem exec_plain {a : Except Err o.Res} {e : Err} (h : exec rules d os s o w = some (d', s', a)) (he : a = .error e) :
    e.sentinels = [] := by
  unfold exec at h
  split at h
  · rename_i hplain
    obtain ⟨⟨d₁, s₁, a₁⟩, hexec, hr⟩ := Option.map_eq_some_iff.mp h
    cases hr
    subst he
    have hfail : ∀ e', w.fail = some e' → e'.sentinels = [] := by
      intro e' he'
      rw [he'] at hplain
      exact List.isEmpty_iff.mp hplain
    cases o with
    | clock => cases hexec
    | begin =>
      simp only [FlowRule.exec] at hexec
      split at hexec
      · rename_i e' he'
        cases hexec
        exact hfail e he'
      · cases hexec
    | _ =>
      rcases exec_other (by simp) (by simp) hexec with ⟨e', he', -, -, ha⟩ | ⟨-, ⟨-, -, -, ha⟩ | hp⟩
      · cases ha
        exact hfail e he'
      · cases ha
        rfl
      · exact perform_plain hp rfl
  · cases h

theorem exec_join {tenantScope ruleSet : String} {a : Option RuleRevision}
    (h : exec rules d os s (.revisionGetActive tenantScope ruleSet) w = some (d', s', .ok a)) :
    w.fail = none ∧ s.state = .active ∧ a = getActive rules (tenantScope, ruleSet) := by
  unfold exec at h
  split at h
  · obtain ⟨⟨d₁, s₁, a₁⟩, hexec, hr⟩ := Option.map_eq_some_iff.mp h
    cases hr
    simp only [FlowRule.exec] at hexec
    split at hexec
    · cases hexec
    rename_i hfail
    split at hexec
    · rename_i hact
      cases hexec
      exact ⟨hfail, hact, rulesOf_activeRevision _ _ _ _⟩
    · cases hexec
  · cases h

theorem exec_join_of (tenantScope ruleSet : String) (hw : w.fail = none) (hs : s.state = .active) :
    exec rules d os s (.revisionGetActive tenantScope ruleSet) w =
      some (d, s, .ok (getActive rules (tenantScope, ruleSet))) := by
  unfold exec
  rw [if_pos (by rw [hw]; rfl)]
  simp only [FlowRule.exec, hw, hs, if_true, perform, Option.map_some, refsFor, rulesOf_activeRevision]

end

/-! Runs. -/

section
variable (eng : Engine)

/-- No Process of a valid event is about to return, or has returned, a permanent error that
    is not one of its rules or of its encoding. -/
def NeverPermanent (w : Store) : Prop :=
  ∀ (c : Nat) env token shard workerID s phase e,
    w.clients[c]? = some ⟨.goProcess env token shard workerID, s, phase⟩ → env.validate = .ok () →
    phase = .running (.throw e) ∨ phase = .returned (.error e) → Blameless eng env e

/-- The activation is there when a Process of a valid event joins its revision to it. -/
def StillActive (x : System) : Act → Prop
  | .event (.exec c w) => ∀ env token shard workerID s tenantScope ruleSet k,
    x.events.clients[c]? = some ⟨.goProcess env token shard workerID, s,
      .running (.stmt (.revisionGetActive tenantScope ruleSet) k)⟩ → env.validate = .ok () →
    w.fail = none → s.state = .active → (x.rules.db.tables.activations (tenantScope, ruleSet)).isSome
  | _ => True

def Good (cl : Clients.Client Session Call Op Op.Res Err Reply) : Prop :=
  ∀ env token shard workerID, cl.input = .goProcess env token shard workerID → env.validate = .ok () →
    match cl.phase with
    | .running p => wp proto p (Ends eng env) .before
    | .returned r => ∀ e, r = .error e → Blameless eng env e
    | .crashed => True

/-- Every Process is good, and every activation names a stored revision. -/
def Inv (x : System) : Prop :=
  (∀ (c : Nat) cl, x.events.clients[c]? = some cl → Good eng cl) ∧
    Clients.Holds Activation.Swap.anyProto Activation.Swap.linkedView x.rules

variable {eng} {columns : Columns} {compile : RawMessage → Except Err RuleRevision} {x x' : System}

theorem good_start (i : Call) : Good eng ⟨i, .idle, .running (i.program eng)⟩ := by
  rintro env token shard workerID rfl hvalid
  show wp proto (Reply.execution <$> Go.process eng env token shard workerID) _ _
  refine wp_map.mpr (wp_mono ?_ (process_wp hvalid token shard workerID))
  rintro (_ | _) (e | execution) hr
  · intro e' he'
    cases he'
    exact hr e rfl
  · exact nofun
  · cases hr
    rfl
  · cases hr

theorem good_exec {i : Call} {rules : Activation.Postgres.Tables} {d d' : DB} {os : List Session} {s s' : Session}
    {o : Op} {k : Except Err o.Res → Tx Reply} {w : Oracle} {a : Except Err o.Res}
    (h : Good eng ⟨i, s, .running (.stmt o k)⟩) (hexec : exec rules d os s o w = some (d', s', a))
    (hjoin : ∀ env token shard workerID tenantScope ruleSet, i = .goProcess env token shard workerID →
      env.validate = .ok () → o = .revisionGetActive tenantScope ruleSet → w.fail = none → s.state = .active →
      (getActive rules (tenantScope, ruleSet)).isSome) :
    Good eng ⟨i, s', .running (k a)⟩ := by
  intro env token shard workerID hi hvalid
  obtain ⟨-, hk⟩ := h env token shard workerID hi hvalid
  refine hk a .before ⟨fun e he => exec_plain hexec he, ?_⟩
  cases o with
  | revisionGetActive tenantScope ruleSet =>
    match a, hexec with
    | .error e, _ => rfl
    | .ok (some revision), _ => rfl
    | .ok none, hexec =>
      obtain ⟨hfail, hact, hnone⟩ := exec_join hexec
      have hsome := hjoin env token shard workerID tenantScope ruleSet hi hvalid rfl hfail hact
      rw [← hnone] at hsome
      cases hsome
  | _ => rfl

theorem inv_step {a : Act} (h : Inv eng x) (hactive : StillActive x a)
    (hn : next eng columns compile x a = some x') : Inv eng x' := by
  obtain ⟨hgood, hlinked⟩ := h
  cases a with
  | rule a =>
    obtain ⟨w, hw, rfl⟩ := Option.map_eq_some_iff.mp hn
    exact ⟨hgood, Clients.holds_step (Activation.Swap.linked_sound columns compile) hlinked hw⟩
  | event a =>
    obtain ⟨w, hw, rfl⟩ := Option.map_eq_some_iff.mp hn
    refine ⟨?_, hlinked⟩
    intro j cl hj
    cases Clients.next_step hw with
    | @start i _ _ _ hst =>
      rcases Pool.get_append hj with hold | hnew
      · exact hgood j cl hold
      · cases hst
        rw [List.mem_singleton.mp hnew]
        exact good_start i
    | exec hc he =>
      rcases Pool.get_step hj with ⟨rfl, rfl⟩ | ⟨-, hold⟩
      · refine good_exec (hgood j _ hc) he ?_
        rintro env token shard workerID tenantScope ruleSet rfl hvalid rfl hfail hact
        exact Activation.Swap.getActive_isSome hlinked.glob (hactive _ _ _ _ _ _ _ _ hc hvalid hfail hact)
      · exact hgood j cl hold
    | stop hc hstop =>
      rcases Pool.get_step hj with ⟨rfl, rfl⟩ | ⟨-, hold⟩
      · intro env token shard workerID hi hvalid
        cases hstop with
        | ret => exact nofun
        | throw e =>
          rintro e' ⟨⟩
          exact hgood j _ hc env token shard workerID hi hvalid e rfl
        | crash => trivial
      · exact hgood j cl hold
    | env hv => exact hgood j cl hj

theorem Inv.neverPermanent (h : Inv eng x) : NeverPermanent eng x.events := by
  rintro c env token shard workerID s phase e hc hvalid hphase
  have hg := h.1 c _ hc env token shard workerID rfl hvalid
  rcases hphase with rfl | rfl <;> exact hg e rfl

/-- An empty join makes a good Process return the error of a missing rule. -/
theorem missing_rule {env : EventEnvelope} {token : Int} {shard : Nat} {workerID : String} {s : Session}
    {tenantScope ruleSet : String} {k : Except Err (Op.Res (.revisionGetActive tenantScope ruleSet)) → Tx Reply}
    (h : Good eng ⟨.goProcess env token shard workerID, s, .running (.stmt (.revisionGetActive tenantScope ruleSet) k)⟩)
    (hvalid : env.validate = .ok ()) : k (.ok none) = .throw (.sentinel .ruleNotFound) := by
  obtain ⟨-, hk⟩ := h env token shard workerID rfl hvalid
  have hwp := hk (.ok none) .missing ⟨nofun, rfl⟩
  cases hp : k (.ok none) with
  | ret r =>
    rw [hp] at hwp
    cases hwp
  | throw e =>
    rw [hp] at hwp
    cases hwp
    rfl
  | stmt o k' =>
    rw [hp] at hwp
    cases hwp.1

theorem missing_not_blameless (env : EventEnvelope) : ¬ Blameless eng env (.sentinel .ruleNotFound) := by
  rintro (hperm | ⟨-, -, e', -, he⟩ | ⟨e', -, he⟩)
  · cases hperm
  · have hdisplay : "rule not found" = "evaluate" := congrArg Err.display he
    exact absurd hdisplay (by decide)
  · have hdisplay : "rule not found" = "marshal subscribed event" := congrArg Err.display he
    exact absurd hdisplay (by decide)

/-- The step leads to a state in which no Process has a permanent error. -/
def Spares (eng : Engine) (columns : Columns) (compile : RawMessage → Except Err RuleRevision)
    (x : System) (a : Act) : Prop :=
  ∀ x', next eng columns compile x a = some x' → NeverPermanent eng x'.events

theorem spares_iff (h : Inv eng x) (a : Act) : StillActive x a ↔ Spares eng columns compile x a := by
  constructor
  · intro hactive x' hn
    exact (inv_step h hactive hn).neverPermanent
  · intro hspares
    unfold StillActive
    split
    · rename_i c w
      intro env token shard workerID s tenantScope ruleSet k hc hvalid hfail hact
      by_contra hnone
      rw [Bool.not_eq_true, Option.isSome_eq_false_iff, Option.isNone_iff_eq_none] at hnone
      have hempty : getActive x.rules.db.tables (tenantScope, ruleSet) = none := by
        simp [getActive, hnone]
      have hstep : Clients.next (events eng x.rules.db.tables) x.events (.exec c w) = some ⟨x.events.db,
          x.events.clients.set c ⟨.goProcess env token shard workerID, s, .running (k (.ok none))⟩⟩ := by
        have he : exec x.rules.db.tables x.events.db (Clients.sessions (x.events.clients.eraseIdx c)) s
            (.revisionGetActive tenantScope ruleSet) w = some (x.events.db, s, .ok none) := by
          rw [exec_join_of tenantScope ruleSet hfail hact, hempty]
        exact Clients.next_exec hc he
      have hbad := hspares ⟨_, x.rules⟩ (Option.map_eq_some_iff.mpr ⟨_, hstep, rfl⟩) c env token shard workerID s _
        (.sentinel .ruleNotFound) (Pool.get_self hc) hvalid
      rw [missing_rule (h.1 c _ hc) hvalid] at hbad
      exact missing_not_blameless env (hbad (.inl rfl))
    · trivial

/-- In a run from any event database and empty rule tables, no Process of a valid event comes
    to return a permanent error that is not one of its rules or of its encoding, exactly
    when the activation is still there at every second read. -/
theorem never_permanent_iff (eng : Engine) (columns : Columns)
    (compile : RawMessage → Except Err RuleRevision) (d : DB) (as : List Act) :
    Machine.Along (next eng columns compile) (Spares eng columns compile) ⟨⟨d, []⟩, ⟨⟨.empty, fun _ => []⟩, []⟩⟩ as ↔
      Machine.Along (next eng columns compile) StillActive ⟨⟨d, []⟩, ⟨⟨.empty, fun _ => []⟩, []⟩⟩ as := by
  refine (Machine.along_congr (Inv eng) (fun x a h => spares_iff h a) (fun x a x' h hc hn => inv_step h hc hn) ?_).symm
  refine ⟨?_, Clients.holds_empty ?_⟩
  · intro c cl hc
    simp at hc
  · intro key row hrow
    cases hrow

end

namespace SwitchedOff

def orders : Activation.Key := ("acme", "order.placed")

def prepared : List Act :=
  .rule (.start (.activate orders (Activation.TwoSources.source "100") "api" 5)) ::
    List.replicate 5 (.rule (.exec 0 none)) ++
    (.start (.goAcquire 12 "w1" 30000000) :: Sample.steps 0 4).map .event

def firstRead : List Act := (.start (.goProcess Sample.event 1 12 "w1") :: Sample.steps 1 6).map .event

def switchOff : List Act := [.rule (.start (.deactivate orders)), .rule (.exec 1 none), .rule (.exec 1 none)]

def secondRead : List Act := (Sample.steps 1 1).map .event ++ [.event (.finish 1)]

def returned (x : System) (c : Nat) : Option Err :=
  match x.events.clients[c]? with
  | some ⟨_, _, .returned (.error e)⟩ => some e
  | _ => none

end SwitchedOff

/-- A valid event whose rule set is switched off between the two reads fails for good. -/
theorem deactivated_between_reads :
    Sample.event.validate = .ok () ∧
      (Machine.run (next Sample.engine Activation.TwoSources.columns Activation.TwoSources.compile)
        ⟨⟨.empty 63902822400000000 Sample.refs, []⟩, ⟨⟨.empty, fun _ => []⟩, []⟩⟩
        (SwitchedOff.prepared ++ SwitchedOff.firstRead ++ SwitchedOff.switchOff ++ SwitchedOff.secondRead)).bind
          (fun x => SwitchedOff.returned x 1) = some (.sentinel .ruleNotFound) ∧
      isPermanent (.sentinel .ruleNotFound) = true := by
  decide +kernel

end FlowRule.Deactivation
