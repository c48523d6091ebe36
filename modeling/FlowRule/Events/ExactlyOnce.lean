import FlowRule.Events.Programs

/- Every event is processed exactly once, in every run of the store: any number of Go and Rust
   calls, their statements interleaved in any order, each of them failing or being lost at any
   point. `change_creates` is the one way the committed tables change: a call commits the
   first execution of its event. sha256 is assumed injective. -/
namespace FlowRule

open Machine Clients

def Reply.executionID : Reply → Option String
  | .execution e => some e.id
  | .outcome (.processed id _ _) => some id
  | .outcome (.duplicate id) => some id
  | _ => none

def Store.init (now : Time) (refs : Reference) : Store := Clients.empty (DB.empty now refs)

theorem tablesOk_empty (eng : Engine) : TablesOk eng .empty := by
  refine ⟨?_, ?_, ?_⟩ <;> intro _ _ h <;> cases h

section
variable {eng : Engine} (hsha : Function.Injective eng.sha256Hex)
include hsha

theorem sound : Sound (store eng) (proto eng) (view eng) := store_sound hsha (program_wp eng)

theorem holds_run {now : Time} {refs : Reference} {ls : List StoreAct} {w : Store}
    (h : run (storeNext eng) (Store.init now refs) ls = some w) : Holds (proto eng) (view eng) w := by
  have h0 : (view eng).glob (DB.empty now refs) := tablesOk_empty eng
  exact holds_reachable (sound hsha) h0 ⟨ls, h⟩

end

/-! What changes the committed tables. -/

variable {s : Session} {eng : Engine} {i : Call} {w : Store}

/-- Only a commit changes the tables. -/
theorem perform_tables {d d' : DB} {os : List Session} {s' : Session} {o : Op} {a : Except Err o.Res}
    (h : perform d os s o = some (d', s', a)) (hne : d'.tables ≠ d.tables) : o = .commit := by
  cases o with
  | commit => rfl
  | clock => cases h
  | begin => cases h
  | _ =>
    refine absurd ?_ hne
    simp only [perform] at h
    repeat' split at h
    all_goals
      cases h
      try rfl

/-- After its commit a call asks nothing more and can only return what it created. -/
theorem committed_ret {p : Tx Reply} {id : String}
    {r : ExecutionRow} (h : Prog.wp (proto eng i) p (Finishes i) (.committed id r)) :
    ∃ reply, p = .ret reply ∧ reply.executionID = some id ∧ ∀ id', reply ≠ .outcome (.duplicate id') := by
  cases p with
  | throw e => exact absurd rfl (h id r)
  | stmt o k =>
    have ha := h.1
    cases o <;> simp [proto, allowed] at ha
  | ret reply =>
    refine ⟨reply, rfl, ?_⟩
    match reply with
    | .execution e =>
      obtain ⟨r', hst | hst, -⟩ := h
      · cases hst
      · cases hst
        exact ⟨rfl, by simp⟩
    | .outcome (.processed id' _ _) =>
      obtain ⟨r', hst, -⟩ := h
      cases hst
      exact ⟨rfl, by simp⟩
    | .outcome (.duplicate id') =>
      obtain ⟨r', hst⟩ := h
      cases hst
    | .lease _ | .token _ | .leases _ | .renewed _ | .released => exact absurd rfl (h.2 id r)

/-- A step that changes the committed tables is the commit of a call that creates the
    first execution of its event; the call then has only its result left. -/
theorem change_creates (hsha : Function.Injective eng.sha256Hex) {w' : Store} {l : StoreAct}
    (hw : Holds (proto eng) (view eng) w) (hn : storeNext eng w l = some w') (hne : w'.db.tables ≠ w.db.tables) :
    ∃ c x i s p s' reply id r, l = .exec c x ∧ w.clients[c]? = some ⟨i, s, .running p⟩ ∧
      i.key = some r.key ∧ (∀ id' r', w.db.tables.executions id' = some r' → r'.key ≠ r.key) ∧
      w'.db.tables.executions id = some r ∧ w'.clients[c]? = some ⟨i, s', .running (.ret reply)⟩ ∧
      reply.executionID = some id ∧ ∀ id', reply ≠ .outcome (.duplicate id') := by
  cases next_step hn with
  | start hst =>
    simp only [store, Option.some.injEq, Prod.mk.injEq] at hst
    exact absurd (by rw [← hst.1]) hne
  | @exec c x i s o k d s' a hc he =>
    -- it has to be a commit, in the stage where everything is written
    have hperf : perform w.db (sessions (w.clients.eraseIdx c)) s o = some (d, s', a) := by
      rcases exec_cases he with ⟨rfl, -⟩ | ⟨rfl, -⟩ | ⟨rfl, -⟩ | hp
      · exact absurd rfl hne
      · exact absurd rfl hne
      · exact absurd rfl hne
      · exact hp
    obtain rfl := perform_tables hperf hne
    simp only [perform, Option.some.injEq, Prod.mk.injEq] at hperf
    obtain ⟨rfl, rfl, rfl⟩ := hperf
    obtain ⟨st, hrep, hwp⟩ := hw.running c i s _ hc
    obtain ⟨id, r, hst⟩ := hwp.1
    rcases hst with rfl | rfl
    · obtain ⟨key, row, hclaim, hcomm, hid, hwrote⟩ := hrep
      obtain ⟨-, -, -, hexec⟩ := settled_commit hsha hw.glob hclaim hcomm hid hwrote
      obtain ⟨reply, hret, hrid, hnd⟩ := committed_ret (hwp.2 (.ok ()) _ ⟨id, r, .inl ⟨rfl, rfl⟩⟩)
      have hlt : c < w.clients.length := (List.getElem?_eq_some_iff.mp hc).1
      refine ⟨c, x, i, s, _, s.close, reply, id, r, rfl, hc, hwrote.isKey ▸ hclaim.isKey, ?_, hexec, ?_, hrid, hnd⟩
      · intro id' r' he'
        exact hwrote.isKey ▸ TablesOk.no_execution hw.glob hclaim.free he'
      · rw [List.getElem?_set_self hlt, hret]
    · exact absurd (sees_empty hrep.1) hne
  | stop => exact absurd rfl hne
  | @env v _ hv =>
    simp only [store, Option.some.injEq] at hv
    refine absurd ?_ hne
    rw [← hv]
    cases v <;> rfl

/-! Exactly once. -/

/-- No statement of the call `c` changes the committed tables in the run `ls`. -/
def Spares (eng : Engine) (init : Store) (ls : List StoreAct) (c : Nat) : Prop :=
  ∀ ls₁ x ls₂ w₁ w₂, ls = ls₁ ++ .exec c x :: ls₂ → run (storeNext eng) init ls₁ = some w₁ →
    storeNext eng w₁ (.exec c x) = some w₂ → w₂.db.tables = w₁.db.tables

/-- A call whose result is neither a success nor a new execution has changed nothing. -/
theorem spares_of_result (hsha : Function.Injective eng.sha256Hex) {now : Time} {refs : Reference}
    {ls : List StoreAct} (h : run (storeNext eng) (Store.init now refs) ls = some w) {c : Nat}
    {res : Except Err Reply} (hc : w.clients[c]? = some ⟨i, s, .returned res⟩)
    (hres : ∀ reply, res = .ok reply → ∃ id, reply = .outcome (.duplicate id)) :
    Spares eng (Store.init now refs) ls c := by
  intro ls₁ x ls₂ w₁ w₂ hls h₁ hn
  by_contra hne
  obtain ⟨c', x', i', s₁, p, s₂, reply, id, r, hl, -, -, -, -, hc', -, hnd⟩ :=
    change_creates hsha (holds_run hsha h₁) hn hne
  simp only [Act.exec.injEq] at hl
  obtain ⟨rfl, -⟩ := hl
  -- the rest of the run leaves the call with that reply or without a result
  rw [hls] at h
  obtain ⟨w₁', hw₁, hrest⟩ := run_split h
  obtain rfl : w₁ = w₁' := Option.some.inj (h₁.symm.trans hw₁)
  simp only [run, hn, Option.bind_some] at hrest
  obtain ⟨s', ph, hfin, hlater⟩ := client_run hrest hc'
  rw [hc] at hfin
  simp only [Option.some.injEq, Client.mk.injEq] at hfin
  obtain ⟨-, -, rfl⟩ := hfin
  rcases hlater with hl | hl | hl
  · cases hl
  · simp only [Phase.returned.injEq] at hl
    obtain ⟨id', hid'⟩ := hres reply hl
    exact hnd id' hid'
  · cases hl

theorem returned_execution (hw : Holds (proto eng) (view eng) w) {c : Nat} {reply : Reply} {key : String × String}
    (hc : w.clients[c]? = some ⟨i, s, .returned (.ok reply)⟩) (hk : i.key = some key) :
    ∃ id r, reply.executionID = some id ∧ w.db.tables.executions id = some r ∧ r.key = key ∧
      ∀ e, reply = .execution e → Go.scanExecution id r = .ok e := by
  have hp : Post i w.db (.ok reply) := hw.returned c i s _ hc
  have hkey : ∀ {id r}, Recorded i w.db id r → r.key = key := by
    intro id r hr
    exact Option.some.inj (hr.2.1.symm.trans hk)
  match reply with
  | .execution e =>
    obtain ⟨r, hr, hs⟩ := hp
    refine ⟨e.id, r, rfl, hr.1, hkey hr, ?_⟩
    intro e' he
    cases he
    exact hs
  | .outcome (.processed id hash _) =>
    obtain ⟨r, hr, -⟩ := hp
    exact ⟨id, r, rfl, hr.1, hkey hr, fun e he => nomatch he⟩
  | .outcome (.duplicate id) =>
    obtain ⟨r, hr⟩ := hp
    exact ⟨id, r, rfl, hr.1, hkey hr, fun e he => nomatch he⟩
  | .lease _ | .token _ | .leases _ | .renewed _ | .released => exact absurd (hk.symm.trans hp) (by simp)

/-- In every reachable state an event has at most one execution, which its inbox row
    names under the identity computed for it, and effects belong to executions. A call
    that succeeds for an event returns that execution; a call that returns an error or a
    duplicate, or whose event already has an execution, leaves the tables as they are. -/
theorem event_exactly_once {eng : Engine} (hsha : Function.Injective eng.sha256Hex) {now : Time}
    {refs : Reference} {ls : List StoreAct} {w : Store}
    (h : run (storeNext eng) (Store.init now refs) ls = some w) :
    (∀ id r id' r', w.db.tables.executions id = some r → w.db.tables.executions id' = some r' →
      r.key = r'.key → id = id') ∧
    (∀ k row, w.db.tables.inbox k = some row → row.status = .committed ∧
      ∃ id r, row.executionID = some id ∧ w.db.tables.executions id = some r ∧ r.key = k ∧
        id = computeExecutionID eng.sha256Hex r.tenantID r.eventID r.ruleSet r.revision) ∧
    (∀ id row, w.db.tables.outbox id = some row → ∃ r, w.db.tables.executions row.executionID = some r) ∧
    (∀ (c : Nat) i s reply key, w.clients[c]? = some ⟨i, s, .returned (.ok reply)⟩ → i.key = some key →
      ∃ id r, reply.executionID = some id ∧ w.db.tables.executions id = some r ∧ r.key = key ∧
        ∀ e, reply = .execution e → Go.scanExecution id r = .ok e) ∧
    (∀ (c : Nat) i s e, w.clients[c]? = some ⟨i, s, .returned (.error e)⟩ →
      Spares eng (Store.init now refs) ls c) ∧
    (∀ (c : Nat) i s id, w.clients[c]? = some ⟨i, s, .returned (.ok (.outcome (.duplicate id)))⟩ →
      Spares eng (Store.init now refs) ls c) ∧
    (∀ ls₁ c x ls₂ w₁ w₂ i s p id r, ls = ls₁ ++ .exec c x :: ls₂ →
      run (storeNext eng) (Store.init now refs) ls₁ = some w₁ → storeNext eng w₁ (.exec c x) = some w₂ →
      w₁.clients[c]? = some ⟨i, s, .running p⟩ → w₁.db.tables.executions id = some r →
      i.key = some r.key → w₂.db.tables = w₁.db.tables) := by
  have hw := holds_run hsha h
  have hok : TablesOk eng w.db.tables := hw.glob
  refine ⟨?_, ?_, ?_, ?_, ?_, ?_, ?_⟩
  · intro id r id' r' he he' hk
    obtain ⟨-, row, hrow, hid⟩ := hok.execution id r he
    obtain ⟨-, row', hrow', hid'⟩ := hok.execution id' r' he'
    rw [hk, hrow'] at hrow
    cases hrow
    exact Option.some.inj (hid.symm.trans hid')
  · intro k row hrow
    obtain ⟨hst, id, r, hid, he, hk⟩ := hok.inbox k row hrow
    exact ⟨hst, id, r, hid, he, hk, (hok.execution id r he).1⟩
  · intro id row hrow
    obtain ⟨r, hr, -⟩ := hok.outbox id row hrow
    exact ⟨r, hr⟩
  · intro c i s reply key hc hk
    exact returned_execution hw hc hk
  · intro c i s e hc
    exact spares_of_result hsha h hc (fun reply hr => nomatch hr)
  · intro c i s id hc
    refine spares_of_result hsha h hc (fun reply hr => ?_)
    cases hr
    exact ⟨id, rfl⟩
  · intro ls₁ c x ls₂ w₁ w₂ i s p id r hls h₁ hn hc he hk
    by_contra hne
    obtain ⟨c', x', i', s', p', s₂, reply, id', r', hl, hc', hk', hfree, -⟩ :=
      change_creates hsha (holds_run hsha h₁) hn hne
    simp only [Act.exec.injEq] at hl
    obtain ⟨rfl, -⟩ := hl
    rw [hc] at hc'
    simp only [Option.some.injEq, Client.mk.injEq] at hc'
    obtain ⟨rfl, -, -⟩ := hc'
    exact hfree id r he (Option.some.inj (hk.symm.trans hk'))

/-! An event that reaches a Go and a Rust worker at once: the Go worker claims it, the
    Rust worker's insert waits for that commit and then finds the execution. -/

namespace Sample

def rule : CompiledRule where
  id := "big"
  name := ""
  priority := 1
  when := .mk none none none "$.amount" "gt" (some (.num "100"))
  then_ := [⟨some ⟨"big-orders", "\x7b\x7d"⟩, none, none⟩]
  otherwise := []

def revision : RuleRevision where
  tenantScope := "acme"
  ruleID := "order.placed"
  revision := 1
  contentHash := "cdf6b142f1a22fd165f3faf0e43a48e73e48f28d75cd73ee76fd1a3c4c3be8b6"
  matchMode := .allMatches
  compiled := [rule]

def refs : Reference where
  activations := [⟨"acme", "order.placed", 1⟩]
  revisions := [revision]
  domains := []
  services := []
  subscriptions := []

def event : EventEnvelope where
  id := "o-1"
  type := "order.placed"
  tenantID := "acme"
  partitionKey := "k"
  workflowID := ""
  occurredAt := 63902822400000000
  data := "\x7b\"amount\":5\x7d"
  headers := []

def digests : List (String × String) :=
  [("execution|4:acme|3:o-1|12:order.placed|1",
    "daadf629e1d919d7c22b64935efdc9b01ede5b202f660a3907c8dd8a5ddb5146"),
   (revision.contentHash ++ "o-1",
    "9df0b13fc6681f52f5880ca3d2d85d9d2dbb564ff53dcbc3a0978c27cc7db2af")]

def sha256Hex : String → String := Text.digest digests

theorem sha256Hex_injective : Function.Injective sha256Hex :=
  Text.digest_injective (by decide) (by decide)

/-- An amount of 5 is not over 100; nothing else is asked of JSON in the run. -/
def semantics : Rules.Semantics where
  evalPredicate _ _ := .ok false
  resolvePath _ _ := .ok none
  interpolateTemplates data _ _ _ := .ok data
  marshal _ := .ok ("\x7b\"id\":\"o-1\",\"type\":\"order.placed\",\"tenant_id\":\"acme\"," ++
    "\"partition_key\":\"k\",\"occurred_at\":\"2026-01-01T00:00:00Z\",\"data\":\x7b\"amount\":5\x7d\x7d")

/-- Rules are evaluated alike in both workers. -/
def engineOf (sha256Hex : String → String) (semantics : Rules.Semantics) : Engine where
  sha256Hex := sha256Hex
  evaluate := Rules.evaluate sha256Hex semantics
  marshal := semantics.marshal
  rustEvaluate now revision env := (Rules.evaluate sha256Hex semantics now revision env).map
    (fun d => (d.matchedRules, d.effects))
  rustToValue := semantics.marshal

def engine : Engine := engineOf sha256Hex semantics

def steps (c n : Nat) : List StoreAct := List.replicate n (.exec c ⟨none, 63902822401000000⟩)

def redelivery : List StoreAct :=
  [.start (.goAcquire 12 "w1" 30000000)] ++ steps 0 4 ++ [.finish 0,
    .start (.goProcess event 1 12 "w1"), .start (.rustProcess event "w1" 1 16)] ++
  steps 1 5 ++ steps 2 2 ++ steps 1 9 ++ [.finish 1] ++ steps 2 4 ++ [.finish 2]

end Sample

theorem event_exactly_once_redelivery :
    ∃ w id r, run (storeNext Sample.engine) (Store.init 63902822400000000 Sample.refs) Sample.redelivery = some w ∧
      w.db.tables.executions id = some r ∧ r.key = ("acme", "o-1") ∧
      ∀ id' r', w.db.tables.executions id' = some r' → r'.key = ("acme", "o-1") → id' = id := by
  have hrun : ((run (storeNext Sample.engine) (Store.init 63902822400000000 Sample.refs) Sample.redelivery).bind
      (fun w => w.db.tables.executions "daadf629e1d919d7c22b64935efdc9b01ede5b202f660a3907c8dd8a5ddb5146")).map
      ExecutionRow.key = some ("acme", "o-1") := by decide +kernel
  obtain ⟨r, hr, hk⟩ := Option.map_eq_some_iff.mp hrun
  obtain ⟨w, hw, he⟩ := Option.bind_eq_some_iff.mp hr
  refine ⟨w, _, r, hw, he, hk, ?_⟩
  intro id' r' he' hk'
  exact (event_exactly_once Sample.sha256Hex_injective hw).1 id' r' _ r he' he (hk'.trans hk.symm)

end FlowRule
