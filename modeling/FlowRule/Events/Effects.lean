import FlowRule.Events.ExactlyOnce
import FlowRule.Lib.Checks
import FlowRule.Lib.Keyed

/- What reaches the outbox when calls are made one after another. An insert does nothing when
   the identity is taken, so an execution has all its effects exactly when the identities are
   distinct and were free (`new_execution_stored`). Identities that join free-form names with
   a bar are not always free: the event b|c of the tenant a and the event c of the tenant a|b
   have the same (`Clash`). -/
namespace FlowRule

open Machine Clients Prog Keyed

/-! Calls one after another. -/

/-- A call made alone, with the outside choices of its statements, or what happens between
    calls. -/
inductive Turn where
  | call (i : Call) (ws : List Oracle)
  | env (v : Outside)

def callAlone (eng : Engine) (d : DB) (i : Call) (ws : List Oracle) : DB × Option (Except Err Reply) :=
  alone (store eng) (i.program eng) d .idle ws

def turn (eng : Engine) (d : DB) : Turn → Option DB
  | .call i ws => some (callAlone eng d i ws).1
  | .env v => some (outside d v)

/-- The entries of an event in the outbox: its effects, then its subscribers. -/
def eventEffects (eng : Engine) (env : EventEnvelope) (executionID : String) (now : Time) (decision : Decision)
    (subscribers : List DomainService) (payload : RawMessage) : List Go.OutboxEffect :=
  decision.effects.map (Go.decisionEffect env executionID now) ++
    subscribers.map (Go.subscriberEffect eng env executionID now payload)

def Fits (executionID : String) (ef : Go.OutboxEffect) (row : OutboxRow) : Prop :=
  row.executionID = executionID ∧ row.effectType = ef.row.effectType ∧ row.destination = ef.row.destination ∧
    row.name = ef.row.name ∧ row.payload = ef.row.payload

def Stored (t : Tables) (executionID : String) (effects : List Go.OutboxEffect) : Prop :=
  Has t.outbox (Fits executionID) effects

/-! What a statement of a call alone does to the outbox it sees. -/

/-- The database is still `d`, and the transaction sees the outbox `t`. -/
def Sees (d : DB) (t : String → Option OutboxRow) (st : DB × Session) : Prop :=
  st.1 = d ∧ (st.2.sees d).outbox = t

/-- What a program of a call alone does, where it does not fail. -/
abbrev Alone (eng : Engine) (ws : List Oracle) {R : Type} (st : DB × Session) (p : Tx R)
    (Q : DB × Session → R → Prop) : Prop :=
  Triple (aloneProto (store eng) ws) (fun _ _ => True) st p Q

section
variable {eng : Engine} {ws : List Oracle} {d : DB} {t : String → Option OutboxRow} {st st' : DB × Session}

/-- A statement that answers has been performed, unless it only begins a transaction or
    reads a clock. -/
theorem alone_ok {o : Op} {x : o.Res} (h : (aloneProto (store eng) ws).trans st o (.ok x) st') :
    (st' = st ∧ o = .clock) ∨ (st'.1 = st.1 ∧ st'.2 = { st.2 with state := .active, now := st.1.now } ∧ o = .begin) ∨
      perform st.1 [] st.2 o = some (st'.1, st'.2, .ok x) := by
  obtain ⟨w, -, he⟩ := h
  rcases exec_cases he with ⟨h₁, h₂, ⟨e, he', -⟩ | ho⟩ | ⟨h₁, h₂, ho, -⟩ | ⟨-, -, e, he'⟩ | hp
  · cases he'
  · exact .inl ⟨Prod.ext h₁ h₂, ho⟩
  · exact .inr (.inl ⟨h₁, h₂, ho⟩)
  · cases he'
  · exact .inr (.inr hp)

theorem perform_quiet {d' : DB} {os : List Session} {s s' : Session} {o : Op} {x : o.Res} (ho : Quiet o)
    (hp : perform d os s o = some (d', s', .ok x)) : d' = d ∧ s'.own.outbox = s.own.outbox := by
  cases o with
  | begin | assertHeld | commit | leaseUpsert | leaseRenew | leaseRelease | leaseGet | outboxInsert => cases ho
  | clock => cases hp
  | _ =>
    simp only [perform] at hp
    repeat' split at hp
    all_goals
      cases hp
      try exact ⟨rfl, rfl⟩

theorem quiet_sees {o : Op} {x : o.Res} (hs : Sees d t st)
    (h : (aloneProto (store eng) ws).trans st o (.ok x) st') (ho : Quiet o) : Sees d t st' := by
  rcases alone_ok h with ⟨rfl, -⟩ | ⟨-, -, rfl⟩ | hp
  · exact hs
  · cases ho
  · obtain ⟨hd, ht⟩ := hs
    obtain ⟨hd', hout⟩ := perform_quiet ho hp
    refine ⟨hd'.trans hd, ?_⟩
    rw [← ht]
    funext k
    simp only [Session.sees, Tables.onto, hout]

theorem outboxInsert_sees {id : String} {row : OutboxRow} {x : Unit} (hs : Sees d t st)
    (h : (aloneProto (store eng) ws).trans st (.outboxInsert id row) (.ok x) st') :
      Sees d (insertNew t id row) st' := by
  obtain ⟨d₁, s₁⟩ := st
  obtain ⟨d₂, s₂⟩ := st'
  obtain ⟨hd, ht⟩ := hs
  simp only at hd ht
  subst hd
  rcases alone_ok h with ⟨-, ho⟩ | ⟨-, -, ho⟩ | hp
  · cases ho
  · cases ho
  · simp only [perform, ht, List.any_nil, Bool.false_eq_true, if_false] at hp
    unfold insertNew
    split at hp
    · rename_i hthere
      cases hp
      rw [if_pos hthere]
      exact ⟨rfl, ht⟩
    · rename_i hfree
      cases hp
      rw [if_neg hfree]
      refine ⟨rfl, ?_⟩
      rw [← ht]
      funext k
      by_cases hk : k = id
      · subst hk
        simp [Session.sees, Session.putOutbox, Tables.onto]
      · simp [Session.sees, Session.putOutbox, Tables.onto, hk]

theorem alone_sql {o : Op} : Alone eng ws st (sql o) (fun st' x =>
    (aloneProto (store eng) ws).trans st o (.ok x) st') :=
  triple_call trivial (fun _ _ _ => trivial)

theorem alone_quiet {R : Type} {p : Tx R} (hs : Sees d t st) (hp : p.Only Quiet) :
    Alone eng ws st p (fun st' _ => Sees d t st') :=
  Only.triple hp hs (fun _ _ ho hst => ⟨trivial, fun _ _ ht => quiet_sees hst ht ho⟩) (fun _ _ => trivial)

theorem alone_clock : Alone eng ws st clockNow (fun st' now => st' = st ∧ ∃ w ∈ ws, w.clock = now) := by
  refine .mono alone_sql (fun _ _ h => h) ?_
  rintro st' now ⟨w, hw, he⟩
  simp only [store, exec, Option.some.injEq, Prod.mk.injEq] at he
  obtain ⟨hd, hs, ⟨⟩⟩ := he
  exact ⟨(Prod.ext hd hs).symm, w, hw, rfl⟩

/-- The loop of inserts: every entry goes in unless its identity is taken. -/
theorem alone_outboxInsert {effects : List Go.OutboxEffect} :
    ∀ {t : String → Option OutboxRow} {st : DB × Session}, Sees d t st →
      Alone eng ws st (Go.outboxInsert effects)
        (fun st' _ => Sees d (insertAll Go.OutboxEffect.id Go.OutboxEffect.row t effects) st') := by
  induction effects with
  | nil => exact fun hs => hs
  | cons ef rest ih =>
    intro t st hs
    unfold Go.outboxInsert
    split
    · trivial
    · exact .bind (.under alone_sql) (fun _ _ ht => ih (outboxInsert_sees hs ht))

theorem begin_sees {x : Time} (hs : Sees d t st) (h : (aloneProto (store eng) ws).trans st .begin (.ok x) st') :
    Sees d t st' := by
  rcases alone_ok h with ⟨-, ho⟩ | ⟨hd, hst, -⟩ | hp
  · cases ho
  · refine ⟨hd.trans hs.1, ?_⟩
    rw [hst]
    exact hs.2
  · cases hp

theorem assertHeld_sees {shard : Nat} {owner : String} {x : Option (Int × Time × Bool)} (hs : Sees d t st)
    (h : (aloneProto (store eng) ws).trans st (.assertHeld shard owner) (.ok x) st') : Sees d t st' := by
  obtain ⟨d₁, s₁⟩ := st
  obtain ⟨d₂, s₂⟩ := st'
  rcases alone_ok h with ⟨-, ho⟩ | ⟨-, -, ho⟩ | hp
  · cases ho
  · cases ho
  · simp only [perform] at hp
    repeat' split at hp
    all_goals
      cases hp
      exact hs

/-- A read answers from the table. -/
theorem alone_value {o : Op} {x y : o.Res} (hs : Sees d t st)
    (h : (aloneProto (store eng) ws).trans st o (.ok x) st')
    (hread : perform d [] st.2 o = some (d, st.2, .ok y)) : x = y := by
  rw [← hs.1] at hread
  rcases alone_ok h with ⟨-, rfl⟩ | ⟨-, -, rfl⟩ | hp
  · cases hread
  · cases hread
  · simp only [hp, Option.some.injEq, Prod.mk.injEq, Except.ok.injEq] at hread
    exact hread.2.2

theorem commit_outbox {x : Unit} (hs : Sees d t st) (h : (aloneProto (store eng) ws).trans st .commit (.ok x) st') :
    st'.1.tables.outbox = t := by
  obtain ⟨d₁, s₁⟩ := st
  obtain ⟨d₂, s₂⟩ := st'
  rcases alone_ok h with ⟨-, ho⟩ | ⟨-, -, ho⟩ | hp
  · cases ho
  · cases ho
  · obtain ⟨hd, ht⟩ := hs
    simp only at hd ht
    subst hd
    cases hp
    exact ht

/-- The second half of a transaction: what it leaves to be committed. -/
theorem alone_persist {env : EventEnvelope} {revision : RuleRevision} {decision : Decision} (hs : Sees d t st) :
    Alone eng ws st (Go.persistExecutionAndOutbox eng env revision decision) (fun st' e =>
      ∃ w ∈ ws, ∃ payload, eng.marshal env = .ok payload ∧ e = Go.newExecution eng env revision decision w.clock ∧
        Sees d (insertAll Go.OutboxEffect.id Go.OutboxEffect.row t
          (eventEffects eng env e.id w.clock decision (d.refs.subscribers env.tenantID env.type true) payload))
            st') := by
  refine .bind alone_clock ?_
  rintro _ _ ⟨rfl, w, hw, rfl⟩
  refine .bind (alone_quiet hs (((only_sql).wrap _).wrap _)) ?_
  intro st₂ _ hs₂
  refine .bind (Q := fun st' items => Sees d t st' ∧ items = d.refs.subscribers env.tenantID env.type true)
    (.under (.bind (.under alone_sql) ?_)) ?_
  · intro st₃ items ht
    obtain rfl := alone_value hs₂ ht rfl
    split
    · trivial
    · exact ⟨quiet_sees hs₂ ht trivial, rfl⟩
  rintro st₃ _ ⟨hs₃, rfl⟩
  split
  · trivial
  refine .bind (triple_ofExcept (fun _ _ => trivial)) ?_
  rintro _ payload ⟨rfl, hpayload⟩
  refine .bind (.under (alone_outboxInsert hs₃)) ?_
  intro st₄ _ hs₄
  refine .bind (.under (alone_quiet hs₄ ?_)) ?_
  · exact (only_sql).bind (fun _ => ((only_sql).wrap _).bind (fun _ => trivial))
  intro st₅ _ hs₅
  exact ⟨w, hw, payload, Checks.mapError_ok.mp hpayload, rfl, hs₅⟩

/-- The call has decided the event, and its entries are added to the outbox. -/
def Decides (eng : Engine) (ws : List Oracle) (d : DB) (env : EventEnvelope) (d' : DB) (e : Execution) : Prop :=
  ∃ w ∈ ws, ∃ w' ∈ ws, ∃ revision decision payload,
    d.refs.activeRevision env.tenantID env.type = some revision ∧
    eng.evaluate w.clock revision env = .ok decision ∧ eng.marshal env = .ok payload ∧
    e = Go.newExecution eng env revision decision w'.clock ∧
    d'.tables.outbox = insertAll Go.OutboxEffect.id Go.OutboxEffect.row d.tables.outbox
      (eventEffects eng env e.id w'.clock decision (d.refs.subscribers env.tenantID env.type true) payload)

/-- A call that succeeds has found an execution and left the database as it was, or has
    added its entries to the outbox. -/
theorem alone_process {env : EventEnvelope} {token : Int} {shard : Nat} {workerID : String} {s : Session}
    (hs : s.own = .empty) : Alone eng ws (d, s) (Go.process eng env token shard workerID)
      (fun st' e => st'.1 = d ∨ Decides eng ws d env st'.1 e) := by
  have hs₀ : Sees d d.tables.outbox (d, s) := ⟨rfl, by simp [Session.sees, hs]⟩
  refine .bind (triple_ofExcept (fun _ _ => trivial)) ?_
  rintro _ _ ⟨rfl, -⟩
  split
  · trivial
  refine .bind (.under alone_sql) ?_
  intro st₁ _ ht
  have hs₁ := begin_sees hs₀ ht
  refine .bind (Q := fun st' _ => Sees d d.tables.outbox st') (.under (.bind (.under alone_sql) ?_)) ?_
  · rintro st₂ (_ | ⟨current, expiresAt, active⟩) ht
    · trivial
    have hs₂ := assertHeld_sees hs₁ ht
    dsimp only
    split
    · trivial
    split
    · trivial
    split
    · trivial
    · exact hs₂
  intro st₂ _ hs₂
  refine .bind (alone_quiet hs₂ ((only_deduplicateEvent env).mono (fun _ h => h.1))) ?_
  rintro st₃ (_ | existing) hs₃
  · refine .bind (Q := fun st' revision => Sees d d.tables.outbox st' ∧
      d.refs.activeRevision env.tenantID env.type = some revision)
      (.bind (alone_quiet hs₃ ((only_sql).wrap _)) ?_) ?_
    · rintro st₄ (_ | activation) hs₄
      · trivial
      refine .bind (.under alone_sql) ?_
      rintro st₅ (_ | revision) ht
      · trivial
      · exact ⟨quiet_sees hs₄ ht trivial, (alone_value hs₄ ht rfl).symm⟩
    rintro st₅ revision ⟨hs₅, hrev⟩
    refine .bind alone_clock ?_
    rintro _ _ ⟨rfl, w, hw, rfl⟩
    refine .bind (triple_ofExcept (fun _ _ => trivial)) ?_
    rintro _ decision ⟨rfl, hdec⟩
    refine .bind (alone_persist hs₅) ?_
    rintro st₆ e ⟨w', hw', payload, hm, he, hs₆⟩
    refine .bind (.under alone_sql) ?_
    intro st₇ _ ht
    exact .inr ⟨w, hw, w', hw', revision, decision, payload, hrev, Checks.mapError_ok.mp hdec, hm, he,
      commit_outbox hs₆ ht⟩
  · exact .inl hs₃.1

end

/-! Effects of a new execution. -/

theorem callAlone_ok {eng : Engine} (hsha : Function.Injective eng.sha256Hex) {d d' : DB} {i : Call}
    {ws : List Oracle} {r : Option (Except Err Reply)} (hd : TablesOk eng d.tables)
    (h : callAlone eng d i ws = (d', r)) : TablesOk eng d'.tables ∧ ∀ res, r = some res → Post i d' res := by
  have hrep : (view eng).rep i d .idle .idle := rfl
  exact alone_sound (sound hsha) hd hrep (program_wp eng i) h

theorem turns_ok {eng : Engine} (hsha : Function.Injective eng.sha256Hex) {now : Time} {refs : Reference}
    {ts : List Turn} {d : DB} (h : run (turn eng) (DB.empty now refs) ts = some d) : TablesOk eng d.tables := by
  refine run_invariant (fun d => TablesOk eng d.tables) (tablesOk_empty eng) ?_ h
  intro d l d' hd hn
  cases l with
  | call i ws =>
    simp only [turn, Option.some.injEq] at hn
    subst hn
    exact (callAlone_ok hsha hd rfl).1
  | env v =>
    simp only [turn, Option.some.injEq] at hn
    subst hn
    cases v <;> exact hd

theorem eventEffects_fits {eng : Engine} {env : EventEnvelope} {id : String} {now : Time} {decision : Decision}
    {subscribers : List DomainService} {payload : RawMessage} :
    ∀ ef ∈ eventEffects eng env id now decision subscribers payload, Fits id ef ef.row := by
  intro ef hef
  refine ⟨?_, rfl, rfl, rfl, rfl⟩
  rcases List.mem_append.mp hef with hm | hm
  all_goals
    obtain ⟨x, -, rfl⟩ := List.mem_map.mp hm
    rfl

section
variable {eng : Engine} {d d' : DB} (hd : TablesOk eng d.tables) {e : Execution}
  (hnew : d.tables.executions e.id = none)
include hd hnew

theorem new_execution_decides (hsha : Function.Injective eng.sha256Hex) {env : EventEnvelope} {token : Int}
    {shard : Nat} {workerID : String} {ws : List Oracle}
    (hcall : callAlone eng d (.goProcess env token shard workerID) ws = (d', some (.ok (.execution e)))) :
    Decides eng ws d env d' e := by
  have hwp : wp (aloneProto (store eng) ws) ((Call.goProcess env token shard workerID).program eng)
      (fun st r => r = .ok (.execution e) → st.1 = d ∨ Decides eng ws d env st.1 e) (d, .idle) := by
    refine wp_map.mpr (wp_mono ?_ (alone_process rfl))
    rintro st (e' | e') hr h
    · cases h
    · cases h
      exact hr
  obtain ⟨s', hQ⟩ := alone_wp (List.Subset.refl ws) hwp hcall
  rcases hQ rfl with rfl | hdecides
  · -- an execution that was found is not new
    obtain ⟨-, hpost⟩ := callAlone_ok hsha hd hcall
    obtain ⟨r, hr, -⟩ := hpost _ rfl
    exact absurd (hr.1.symm.trans hnew) (by simp)
  · exact hdecides

/-- The entries of a new execution have their rows exactly when their identities are distinct
    and were not in the outbox. -/
theorem new_execution_stored {effects : List Go.OutboxEffect} (hfits : ∀ ef ∈ effects, Fits e.id ef ef.row)
    (hout : d'.tables.outbox = insertAll Go.OutboxEffect.id Go.OutboxEffect.row d.tables.outbox effects) :
    Stored d'.tables e.id effects ↔
      (effects.map Go.OutboxEffect.id).Nodup ∧ ∀ ef ∈ effects, d.tables.outbox ef.id = none := by
  show Has d'.tables.outbox _ _ ↔ _
  rw [hout]
  refine has_insertAll_iff hfits ?_
  -- rows that were there belong to executions that were there
  intro id row hrow ef _ hfit
  obtain ⟨r, hr, -⟩ := hd.outbox id row hrow
  rw [hfit.1, hnew] at hr
  cases hr

end

/-- After any calls, a call that succeeds with a new execution has one row in the outbox for
    every effect of its decision and every subscriber exactly when the identities it computed
    for them are distinct and none was taken before. -/
theorem effects_stored_iff {eng : Engine} (hsha : Function.Injective eng.sha256Hex) {now : Time}
    {refs : Reference} {ts : List Turn} {d d' : DB} (h : run (turn eng) (DB.empty now refs) ts = some d)
    {env : EventEnvelope} {token : Int} {shard : Nat} {workerID : String} {ws : List Oracle} {e : Execution}
    (hcall : callAlone eng d (.goProcess env token shard workerID) ws = (d', some (.ok (.execution e))))
    (hnew : d.tables.executions e.id = none) :
    ∃ w ∈ ws, ∃ w' ∈ ws, ∃ revision decision payload,
      d.refs.activeRevision env.tenantID env.type = some revision ∧
      eng.evaluate w.clock revision env = .ok decision ∧ eng.marshal env = .ok payload ∧
      e = Go.newExecution eng env revision decision w'.clock ∧
      let effects := eventEffects eng env e.id w'.clock decision (d.refs.subscribers env.tenantID env.type true) payload
      (Stored d'.tables e.id effects ↔
        (effects.map Go.OutboxEffect.id).Nodup ∧ ∀ ef ∈ effects, d.tables.outbox ef.id = none) := by
  have hd := turns_ok hsha h
  obtain ⟨w, hw, w', hw', revision, decision, payload, hrev, hdec, hm, he, hout⟩ :=
    new_execution_decides hd hnew hsha hcall
  exact ⟨w, hw, w', hw', revision, decision, payload, hrev, hdec, hm, he,
    new_execution_stored hd hnew eventEffects_fits hout⟩

/-! Two events of two tenants whose effects have the same identity. -/

namespace Clash

/-- An order of 500, which the rule of `Sample.rule` matches. -/
def event (tenantID id : String) : EventEnvelope where
  id := id
  type := "order.placed"
  tenantID := tenantID
  partitionKey := "k"
  workflowID := ""
  occurredAt := 63902822400000000
  data := "\x7b\"amount\":500\x7d"
  headers := []

def revision (tenantID : String) : RuleRevision := { Sample.revision with tenantScope := tenantID }

def refs : Reference where
  activations := [⟨"a", "order.placed", 1⟩, ⟨"a|b", "order.placed", 1⟩]
  revisions := [revision "a", revision "a|b"]
  domains := []
  services := []
  subscriptions := []

def effectID : String := "f399e3cffe3fe7b20cf99258e47a9b2d5a901542da55d6265eb4ea1db77f1fef"

def sha256Hex : String → String := Text.digest
  [("a|b|c|order.placed|1|big|0", effectID),
   ("execution|1:a|3:b|c|12:order.placed|1", "86a9a512ceb58c84bb9b8b2af1393bc937bae61663852655136ef05264234f1c"),
   ("execution|3:a|b|1:c|12:order.placed|1", "e29e24ef1cdbf179531a59ea38786a386533491e70ef6ac6bdb3c880f5a0f151"),
   (Sample.revision.contentHash ++ "big" ++ effectID ++ "b|c",
    "283f68ec419311e4c88d965c3bc6a8a796781b0de3977046681a9e516e962e9e"),
   (Sample.revision.contentHash ++ "big" ++ effectID ++ "c",
    "c29dd611bcf1abd6708718cce13ca4361c0a2f3d8cba7cf87a06686f622628dd")]

theorem sha256Hex_injective : Function.Injective sha256Hex :=
  Text.digest_injective (by decide) (by decide)

/-- 500 is over 100; the names need no escapes in JSON. -/
def semantics : Rules.Semantics where
  evalPredicate _ _ := .ok true
  resolvePath _ _ := .ok none
  interpolateTemplates data _ _ _ := .ok data
  marshal env := .ok ("\x7b\"id\":\"" ++ env.id ++ "\",\"type\":\"order.placed\",\"tenant_id\":\"" ++ env.tenantID ++
    "\",\"partition_key\":\"k\",\"occurred_at\":\"2026-01-01T00:00:00Z\",\"data\":\x7b\"amount\":500\x7d\x7d")

def engine : Engine := Sample.engineOf sha256Hex semantics

def oracles : List Oracle := List.replicate 20 ⟨none, 63902822401000000⟩

def process (env : EventEnvelope) : Call := .goProcess env 1 12 "w1"

def acquired : List Turn := [.call (.goAcquire 12 "w1" 30000000) oracles]

def first : List Turn := acquired ++ [.call (process (event "a" "b|c")) oracles]

/-- What a call for the event finds after the turns, when it succeeds with a new execution:
    whether the identity of both effects is taken, and the identities of its own effects. -/
def found (ts : List Turn) (env : EventEnvelope) : Option (Bool × List String) :=
  (run (turn engine) (DB.empty 63902822400000000 refs) ts).bind (fun d =>
    match callAlone engine d (process env) oracles with
    | (_, some (.ok (.execution e))) =>
      if (d.tables.executions e.id).isNone ∧ (d.refs.subscribers env.tenantID env.type true).isEmpty then
        (d.refs.activeRevision env.tenantID env.type).bind (fun revision =>
          (engine.evaluate 63902822401000000 revision env).toOption.map (fun decision =>
            ((d.tables.outbox effectID).isSome, decision.effects.map Effect.id)))
      else none
    | _ => none)

theorem found_some {ts : List Turn} {env : EventEnvelope} {taken : Bool} {ids : List String}
    (h : found ts env = some (taken, ids)) :
    ∃ d d' e revision decision, run (turn engine) (DB.empty 63902822400000000 refs) ts = some d ∧
      callAlone engine d (process env) oracles = (d', some (.ok (.execution e))) ∧
      d.tables.executions e.id = none ∧ d.refs.subscribers env.tenantID env.type true = [] ∧
      d.refs.activeRevision env.tenantID env.type = some revision ∧
      engine.evaluate 63902822401000000 revision env = .ok decision ∧
      (d.tables.outbox effectID).isSome = taken ∧ decision.effects.map Effect.id = ids := by
  obtain ⟨d, hd, h⟩ := Option.bind_eq_some_iff.mp h
  split at h
  · rename_i d' e hcall
    split at h
    · rename_i hnew
      obtain ⟨revision, hrev, h⟩ := Option.bind_eq_some_iff.mp h
      obtain ⟨decision, hdec, h⟩ := Option.map_eq_some_iff.mp h
      cases h
      refine ⟨d, d', e, revision, decision, hd, hcall, ?_, ?_, hrev, ?_, rfl, rfl⟩
      · simpa using hnew.1
      · simpa using hnew.2
      · cases heval : engine.evaluate 63902822401000000 revision env with
        | error e => rw [heval] at hdec; cases hdec
        | ok x => rw [heval] at hdec; cases hdec; rfl
    · cases h
  · cases h

theorem clock_of_mem {w : Oracle} (h : w ∈ oracles) : w.clock = 63902822401000000 := by
  rw [List.eq_of_mem_replicate h]

end Clash

open Clash

/-- The first of the two events has its row. -/
theorem effects_stored_iff_first :
    ∃ d d' e, run (turn engine) (DB.empty 63902822400000000 refs) acquired = some d ∧
      callAlone engine d (process (event "a" "b|c")) oracles =
        (d', some (.ok (.execution e))) ∧ d.tables.executions e.id = none ∧
      ∃ effects : List Go.OutboxEffect, effects.map Go.OutboxEffect.id = [effectID] ∧
        Stored d'.tables e.id effects := by
  have hfound : found acquired (event "a" "b|c") = some (false, [effectID]) := by
    decide +kernel
  obtain ⟨d, d', e, revision, decision, hd, hcall, hnew, hsub, hrev, hdec, hfree, hids⟩ := found_some hfound
  refine ⟨d, d', e, hd, hcall, hnew, ?_⟩
  obtain ⟨w, hw, w', hw', revision', decision', payload, hrev', hdec', -, -, hiff⟩ :=
    effects_stored_iff sha256Hex_injective hd hcall hnew
  rw [hrev] at hrev'
  cases hrev'
  rw [clock_of_mem hw, hdec] at hdec'
  cases hdec'
  rw [hsub] at hiff
  have hmap : (eventEffects engine (event "a" "b|c") e.id w'.clock decision [] payload).map
      Go.OutboxEffect.id = [effectID] := by
    simpa [eventEffects, Go.decisionEffect, Function.comp_def] using hids
  refine ⟨_, hmap, hiff.mpr ⟨?_, ?_⟩⟩
  · rw [hmap]
    exact List.nodup_singleton _
  · intro ef hef
    have hid : ef.id = effectID := by
      have hmem := List.mem_map_of_mem (f := Go.OutboxEffect.id) hef
      rw [hmap] at hmem
      simpa using hmem
    rw [hid]
    simpa using hfree

/-- The second is processed with success and has none: its effect's identity is taken. -/
theorem effects_stored_clash :
    ∃ d d' e revision decision payload,
      run (turn engine) (DB.empty 63902822400000000 refs) first = some d ∧
      callAlone engine d (process (event "a|b" "c")) oracles =
        (d', some (.ok (.execution e))) ∧ d.tables.executions e.id = none ∧
      d.refs.subscribers "a|b" "order.placed" true = [] ∧
      d.refs.activeRevision "a|b" "order.placed" = some revision ∧
      engine.evaluate 63902822401000000 revision (event "a|b" "c") = .ok decision ∧
      decision.effects.map Effect.id = [effectID] ∧
      engine.marshal (event "a|b" "c") = .ok payload ∧
      ¬ Stored d'.tables e.id
        (eventEffects engine (event "a|b" "c") e.id 63902822401000000 decision [] payload) := by
  have hfound : found first (event "a|b" "c") = some (true, [effectID]) := by
    decide +kernel
  obtain ⟨d, d', e, revision, decision, hd, hcall, hnew, hsub, hrev, hdec, htaken, hids⟩ := found_some hfound
  have hok := turns_ok sha256Hex_injective hd
  obtain ⟨w, hw, w', hw', revision', decision', payload, hrev', hdec', hm, -, hout⟩ :=
    new_execution_decides hok hnew sha256Hex_injective hcall
  have hiff := new_execution_stored hok hnew eventEffects_fits hout
  rw [hrev] at hrev'
  cases hrev'
  rw [clock_of_mem hw, hdec] at hdec'
  cases hdec'
  rw [hsub, clock_of_mem hw'] at hiff
  refine ⟨d, d', e, revision, decision, payload, hd, hcall, hnew, hsub, hrev, hdec, hids, hm, ?_⟩
  intro hstored
  obtain ⟨ef, hef, hid⟩ := List.mem_map.mp (hids.symm ▸ List.mem_singleton_self effectID)
  have hentry : Go.decisionEffect (event "a|b" "c") e.id 63902822401000000 ef ∈
      eventEffects engine (event "a|b" "c") e.id 63902822401000000 decision [] payload :=
    List.mem_append_left _ (List.mem_map_of_mem hef)
  have hfree := (hiff.mp hstored).2 _ hentry
  rw [show (Go.decisionEffect (event "a|b" "c") e.id 63902822401000000 ef).id = effectID from hid] at hfree
  rw [hfree] at htaken
  cases htaken

end FlowRule
