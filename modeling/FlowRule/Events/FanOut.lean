import FlowRule.Events.Statement
import FlowRule.Events.ExactlyOnce

/- The fan-out of an event to the services subscribed to its type, in both workers. The Go query
   selects distinct services and the Rust query the rows of the join; both stop after 101 rows
   and refuse more than 100. So they do the same as long as the join has at most 100 rows, and
   when the services themselves are more than 100 (`fan_out_agrees_iff`). -/
namespace FlowRule

open Prog Keyed

namespace Reference

/-- The active services of the tenant with a subscription to a domain that lists the type. -/
def subscribed (r : Reference) (tenantID eventType : String) : List ServiceRow :=
  r.services.filter (fun s => s.tenantID == tenantID && s.active && !(r.matching s eventType).isEmpty)

/-- The join of the services with their subscriptions and domains, without a limit. -/
def joined (r : Reference) (tenantID eventType : String) : List DomainService :=
  (r.subscribed tenantID eventType).flatMap (fun s =>
    List.replicate (r.matching s eventType).length (⟨s.serviceID⟩ : DomainService))

def ServiceKey (r : Reference) : Prop :=
  (r.services.map (fun s => (s.tenantID, s.serviceID))).Nodup

instance (r : Reference) : Decidable r.ServiceKey :=
  inferInstanceAs (Decidable (List.Nodup _))

variable {r : Reference} {tenantID eventType : String}

theorem flatMap_filter_of_nil {α β : Type} {p : α → Bool} {f : α → List β} {l : List α}
    (h : ∀ a ∈ l, p a = false → f a = []) : l.flatMap f = (l.filter p).flatMap f := by
  induction l with
  | nil => rfl
  | cons a l ih =>
    have hl := ih (fun b hb => h b (List.mem_cons_of_mem a hb))
    cases hp : p a with
    | true => rw [List.filter_cons_of_pos hp, List.flatMap_cons, List.flatMap_cons, hl]
    | false =>
      rw [List.filter_cons_of_neg (by simp [hp]), List.flatMap_cons, h a List.mem_cons_self hp, hl]
      rfl

theorem not_subscribed (distinct : Bool) (s : ServiceRow) (_ : s ∈ r.services)
    (hs : (s.tenantID == tenantID && s.active && !(r.matching s eventType).isEmpty) = false) :
    (if s.tenantID == tenantID && s.active then
      let rows := (r.matching s eventType).map (fun _ => (⟨s.serviceID⟩ : DomainService))
      if distinct then rows.take 1 else rows
    else []) = [] := by
  split
  · rename_i h
    simp only [h, Bool.true_and, Bool.not_eq_false', List.isEmpty_iff] at hs
    rw [hs]
    cases distinct <;> rfl
  · rfl

theorem subscribers_rows : r.subscribers tenantID eventType false = (r.joined tenantID eventType).take 101 := by
  unfold subscribers joined subscribed
  congr 1
  rw [flatMap_filter_of_nil (p := fun s => s.tenantID == tenantID && s.active && !(r.matching s eventType).isEmpty)]
  · refine List.flatMap_congr fun s hs => ?_
    have hp := (List.mem_filter.mp hs).2
    simp only [Bool.and_eq_true] at hp
    simp [hp.1.1, hp.1.2, List.map_const']
  · exact not_subscribed false

theorem subscribers_distinct :
    r.subscribers tenantID eventType true =
      ((r.subscribed tenantID eventType).map (fun s => (⟨s.serviceID⟩ : DomainService))).take 101 := by
  unfold subscribers subscribed
  congr 1
  rw [flatMap_filter_of_nil (p := fun s => s.tenantID == tenantID && s.active && !(r.matching s eventType).isEmpty),
    List.map_eq_flatMap]
  · refine List.flatMap_congr fun s hs => ?_
    have hp := (List.mem_filter.mp hs).2
    simp only [Bool.and_eq_true] at hp
    obtain ⟨x, rest, hx⟩ := List.exists_cons_of_ne_nil (l := r.matching s eventType) (by simpa using hp.2)
    simp [hp.1.1, hp.1.2, hx]
  · exact not_subscribed true

def serviceIDs (r : Reference) (tenantID eventType : String) : Finset String :=
  ((r.subscribed tenantID eventType).map ServiceRow.serviceID).toFinset

theorem matching_pos {s : ServiceRow} (hs : s ∈ r.subscribed tenantID eventType) :
    0 < (r.matching s eventType).length := by
  have hp := (List.mem_filter.mp hs).2
  simp only [Bool.and_eq_true] at hp
  exact List.length_pos_of_ne_nil (by simpa using hp.2)

theorem subscribed_le_joined (r : Reference) (tenantID eventType : String) :
    (r.subscribed tenantID eventType).length ≤ (r.joined tenantID eventType).length := by
  have hrows : (r.joined tenantID eventType).length =
      ((r.subscribed tenantID eventType).map (fun s => (r.matching s eventType).length)).sum := by
    simp [joined, List.length_flatMap]
  rw [hrows]
  rw [← List.length_map (fun s => (r.matching s eventType).length)]
  apply List.length_le_sum_of_one_le
  intro n hn
  obtain ⟨s, hs, rfl⟩ := List.mem_map.mp hn
  exact matching_pos hs

/-- With the primary key, the services among the rows of the Go query are distinct. -/
theorem card_serviceIDs (hkey : r.ServiceKey) :
    (r.serviceIDs tenantID eventType).card = (r.subscribed tenantID eventType).length := by
  unfold serviceIDs
  rw [List.toFinset_card_of_nodup, List.length_map]
  -- all these services belong to the tenant, so the key without the tenant is distinct too
  have hpairs : ((r.subscribed tenantID eventType).map (fun s => (s.tenantID, s.serviceID))).Nodup :=
    hkey.sublist (List.filter_sublist.map _)
  rw [List.Nodup, List.pairwise_map] at hpairs ⊢
  refine hpairs.imp_of_mem fun {a b} ha hb hne he => hne ?_
  have htenant : ∀ s ∈ r.subscribed tenantID eventType, s.tenantID = tenantID := by
    intro s hs
    have hp := (List.mem_filter.mp hs).2
    simp only [Bool.and_eq_true, beq_iff_eq] at hp
    exact hp.1.1
  rw [htenant a ha, htenant b hb, he]

end Reference

/-! The end of the two transactions. -/

def Go.tooMany (eventType : String) : Err :=
  .wrap "get tenant domain subscribers"
    (.msg ("event " ++ quoted eventType ++ " exceeds maximum of 100 tenant subscribers"))

def Rust.tooMany (eventType : String) : Err :=
  .msg ("event type " ++ eventType ++ " exceeds the 100-service fan-out limit")

/-- The outbox rows of service events that the transaction sees: identity, destination and
    name. -/
def serviceRows (st : DB × Session) : Set (String × String × String) :=
  { x | ∃ row, (st.2.sees st.1).outbox x.1 = some row ∧ row.effectType = .serviceEvent ∧
    row.destination = x.2.1 ∧ row.name = x.2.2 }

def addressed (row : OutboxRow) : EffectType × String × String := (row.effectType, row.destination, row.name)

/-- The keys and addresses of the entries that the effects of a decision and the services
    get. -/
def entries (eng : Engine) (env : EventEnvelope) (effects : List Effect) (services : List DomainService) :
    List (String × EffectType × String × String) :=
  effects.map (fun ef => (ef.id, ef.effectType, ef.destination, ef.name)) ++
    services.map (fun s => (computeEffectID eng.sha256Hex env.tenantID env.id "service-subscription" 1 s.id 0,
      .serviceEvent, s.id, env.type))

def Shows (st : DB × Session) (t : String → Option (EffectType × String × String)) : Prop :=
  (fun k => ((st.2.sees st.1).outbox k).map addressed) = t

theorem serviceRows_eq {st st' : DB × Session} {t : String → Option (EffectType × String × String)}
    (h : Shows st t) (h' : Shows st' t) : serviceRows st = serviceRows st' := by
  have hmem : ∀ {st : DB × Session}, Shows st t → ∀ x, x ∈ serviceRows st ↔ t x.1 = some (.serviceEvent, x.2) := by
    intro st hst x
    rw [← hst]
    simp only [serviceRows, Set.mem_ofPred_eq, Option.map_eq_some_iff, addressed, Prod.ext_iff]
  ext x
  rw [hmem h, hmem h']

section
variable {eng : Engine} {w : Op → Oracle} {c : Time} {d : DB} {s : Session} {env : EventEnvelope}
  {revision : RuleRevision}
  {decision : Decision} {payload : RawMessage}

theorem executionInsert_wrote (hs : s.state = .active) (id : String) (row : ExecutionRow) (orNothing : Bool)
    (g : Err → Err) (hw : (w (.executionInsert id row orNothing)).fail = none)
    (h : ((s.sees d).executions id).isSome → orNothing = true) :
    ∃ s', handle (statement w) ((sql (.executionInsert id row orNothing)).wrap g) (d, s) = (.ok (), (d, s')) ∧
      OutboxWrote d s s' (s.sees d).outbox := by
  by_cases hthere : ((s.sees d).executions id).isSome
  · refine ⟨s, handle_sql_wrap hw hs ?_, rfl, rfl, rfl, rfl⟩
    simp only [perform, hthere, h hthere, if_true]
  · refine ⟨s.putExecution id row, handle_sql_wrap hw hs ?_, rfl, rfl, rfl, rfl⟩
    simp [perform, hthere]

theorem go_markCommitted (hs : s.state = .active) (tenantID eventID executionID : String)
    (hw : ∀ t, (w (.inboxMarkCommitted (tenantID, eventID) executionID t false)).fail = none) :
    ∃ s', handle (statement w) (Go.inboxMarkCommitted tenantID eventID executionID) (d, s) =
        (.ok (), (d, s')) ∧ s'.state = .active ∧ (s'.sees d).outbox = (s.sees d).outbox := by
  have hmark : ∃ n s', perform d [] s (.inboxMarkCommitted (tenantID, eventID) executionID (w .clock).clock false) =
      some (d, s', .ok n) ∧ s'.state = .active ∧ (s'.sees d).outbox = (s.sees d).outbox := by
    cases hrow : (s.sees d).inbox (tenantID, eventID) with
    | none => exact ⟨(0 : Nat), s, by simp only [perform, hrow], hs, rfl⟩
    | some row =>
      exact ⟨(1 : Nat), s.putInbox (tenantID, eventID) (row.commit executionID (w .clock).clock),
        by simp [perform, hrow], hs, rfl⟩
  obtain ⟨n, s', hp, hsame⟩ := hmark
  refine ⟨s', ?_, hsame⟩
  refine (handle_bind_ok handle_clockNow).trans ?_
  exact (handle_bind_ok (handle_sql_wrap (hw _) hs hp)).trans rfl

theorem handle_listSubscribers (hs : s.state = .active) (tenantID eventType : String)
    (hw : (w (.subscribersGet tenantID eventType true)).fail = none) :
    handle (statement w) (Go.listSubscribersForEvent tenantID eventType) (d, s) =
      (if 100 < (d.refs.subscribed tenantID eventType).length then
        .error (.msg ("event " ++ quoted eventType ++ " exceeds maximum of 100 tenant subscribers"))
      else .ok ((d.refs.subscribed tenantID eventType).map (fun s => (⟨s.serviceID⟩ : DomainService))), (d, s)) := by
  have hquery := handle_sql_wrap (d := d) (g := Err.wrap "list services subscribed to event") hw hs rfl
  refine (handle_bind_ok hquery).trans ?_
  rw [Reference.subscribers_distinct]
  generalize d.refs.subscribed tenantID eventType = l
  by_cases hl : 100 < l.length
  · have htake : 100 < ((l.map (fun s => (⟨s.serviceID⟩ : DomainService))).take 101).length := by
      simp only [List.length_take, List.length_map]
      omega
    rw [if_pos htake, if_pos hl]
    rfl
  · have htake : (l.map (fun s => (⟨s.serviceID⟩ : DomainService))).take 101 =
        l.map (fun s => (⟨s.serviceID⟩ : DomainService)) := by
      apply List.take_of_length_le
      simp only [List.length_map]
      omega
    rw [htake, if_neg (by simpa using hl), if_neg hl]
    rfl

/-- The Go worker refuses the event when the distinct services are more than 100, and else
    leaves an entry for each. -/
theorem go_persist (c : Time) (d : DB) (revision : RuleRevision) (decision : Decision) (hs : s.state = .active)
    (htenant : env.tenantID ≠ "") (hm : eng.marshal env = .ok payload) :
    let out := handle (statement (calm c)) (Go.persistExecutionAndOutbox eng env revision decision) (d, s)
    (100 < (d.refs.subscribed env.tenantID env.type).length → out.1 = .error (Go.tooMany env.type)) ∧
    (¬ 100 < (d.refs.subscribed env.tenantID env.type).length → (∃ e, out.1 = .ok e) ∧
      Shows out.2 (insertAll Prod.fst Prod.snd (fun k => ((s.sees d).outbox k).map addressed)
        (entries eng env decision.effects
          ((d.refs.subscribed env.tenantID env.type).map (fun s => (⟨s.serviceID⟩ : DomainService)))))) := by
  intro out
  obtain ⟨s₁, h₁, w₁⟩ := executionInsert_wrote (w := calm c) (d := d) hs
    (Go.newExecution eng env revision decision c).id
      (Go.executionRow (Go.newExecution eng env revision decision c)) true
    (Err.wrap "save execution") rfl (fun _ => rfl)
  have hsave : handle (statement (calm c)) ((Go.executionSave (Go.newExecution eng env revision decision c)).wrap
      (Err.wrap "save execution")) (d, s) = (.ok (), (d, s₁)) :=
    handle_wrap_ok h₁
  have hlist := handle_listSubscribers (w := calm c) (d := d) (w₁.state.trans hs) env.tenantID env.type rfl
  have hout : out = _ := (handle_bind_ok (r := c) handle_clockNow).trans (handle_bind_ok hsave)
  refine ⟨fun hmany => ?_, fun hmany => ?_⟩
  · rw [if_pos hmany] at hlist
    rw [hout, handle_bind, handle_wrap, hlist]
    rfl
  · rw [if_neg hmany] at hlist
    rw [hout, handle_bind, handle_wrap, hlist]
    simp only [Except.mapError, List.length_map, if_neg hmany, hm]
    obtain ⟨s₂, h₂, w₂⟩ := goOutboxInsert_wrote (w := calm c) (d := d) (s := s₁) (fun _ _ => rfl)
      (decision.effects.map (Go.decisionEffect env (Go.newExecution eng env revision decision c).id c) ++
        ((d.refs.subscribed env.tenantID env.type).map (fun s => (⟨s.serviceID⟩ : DomainService))).map
          (Go.subscriberEffect eng env (Go.newExecution eng env revision decision c).id c payload))
      (by
        intro ef hef
        simp only [List.mem_append, List.mem_map] at hef
        rcases hef with ⟨_, -, rfl⟩ | ⟨_, -, rfl⟩ <;> exact htenant)
      (w₁.state.trans hs)
    obtain ⟨s₃, h₃, -, hsame⟩ := go_markCommitted (w := calm c) (d := d) (w₂.state.trans (w₁.state.trans hs))
      env.tenantID env.id (Go.newExecution eng env revision decision c).id (fun _ => rfl)
    rw [handle_bind_ok handle_ofExcept, handle_bind, handle_wrap, h₂]
    simp only [Except.mapError]
    rw [handle_bind, handle_wrap, h₃]
    refine ⟨⟨_, rfl⟩, ?_⟩
    show (fun k => ((s₃.sees d).outbox k).map addressed) = _
    rw [hsame, w₂.outbox, w₁.outbox]
    funext k
    rw [insertAll_map, insertAll_pairs]
    congr 1
    simp [entries, Function.comp_def, addressed, Go.decisionEffect, Go.subscriberEffect, pendingRow]

theorem handle_loadSubscribers (eng : Engine) (env : EventEnvelope) (hs : s.state = .active)
    (hw : (w (.subscribersGet env.tenantID env.type false)).fail = none) :
    handle (statement w) (Rust.loadServiceSubscriberEffects eng env) (d, s) =
      (if 100 < (d.refs.joined env.tenantID env.type).length then .error (Rust.tooMany env.type)
      else ((eng.rustToValue env).mapError (Err.wrap "serialize subscribed event envelope")).map (fun payload =>
        (d.refs.joined env.tenantID env.type).map (fun s =>
          ⟨computeEffectID eng.sha256Hex env.tenantID env.id "service-subscription" 1 s.id 0, s.id, env.type, payload,
            .serviceEvent, 0⟩)), (d, s)) := by
  have hquery := handle_sql_wrap (d := d) (g := Err.wrap "load tenant domain-service subscribers") hw hs rfl
  refine (handle_bind_ok hquery).trans ?_
  rw [Reference.subscribers_rows]
  generalize d.refs.joined env.tenantID env.type = l
  by_cases hl : 100 < l.length
  · have htake : 100 < (l.take 101).length := by
      rw [List.length_take]
      omega
    rw [if_pos htake, if_pos hl]
    rfl
  · rw [List.take_of_length_le (by omega), if_neg hl, if_neg hl]
    cases eng.rustToValue env with
    | error e => rfl
    | ok payload => rfl

theorem rust_markCommitted (hs : s.state = .active) (executionID : String) (now : Time) {row : InboxRow}
    (hinbox : (s.sees d).inbox env.key = some row) (hrow : row.status = .processing)
    (hw : (w (.inboxMarkCommitted env.key executionID now true)).fail = none) :
    ∃ s', handle (statement w) (Rust.markInboxCommitted env executionID now) (d, s) = (.ok (), (d, s')) ∧
      s'.state = .active ∧ (s'.sees d).outbox = (s.sees d).outbox := by
  have hp : perform d [] s (.inboxMarkCommitted env.key executionID now true) =
      some (d, s.putInbox env.key (row.commit executionID now), .ok (1 : Nat)) := by
    simp [perform, hinbox, hrow]
  exact ⟨_, (handle_bind_ok (handle_sql_wrap hw hs hp)).trans rfl, hs, rfl⟩

/-- The Rust worker refuses the event when the join has more than 100 rows, and else leaves
    an entry for each. -/
theorem rust_persist (c now : Time) (d : DB) {matchedRules : List String} {effects : List Effect}
    (hs : s.state = .active)
    (hrev : d.refs.activeRevision env.tenantID env.type = some revision)
    (heval : eng.rustEvaluate c revision env = .ok (matchedRules, effects)) (hv : eng.rustToValue env = .ok payload)
    (hexec : (s.sees d).executions
      (computeExecutionID eng.sha256Hex env.tenantID env.id env.type revision.revision) = none)
    {row : InboxRow} (hinbox : (s.sees d).inbox env.key = some row) (hrow : row.status = .processing) :
    let out := handle (statement (calm c)) (Rust.persistNewEvent eng env now) (d, s)
    (100 < (d.refs.joined env.tenantID env.type).length → out.1 = .error (Rust.tooMany env.type)) ∧
    (¬ 100 < (d.refs.joined env.tenantID env.type).length → (∃ e, out.1 = .ok e) ∧
      Shows out.2 (insertAll Prod.fst Prod.snd (fun k => ((s.sees d).outbox k).map addressed)
        (entries eng env effects (d.refs.joined env.tenantID env.type)))) := by
  intro out
  have hload : handle (statement (calm c)) (Rust.loadActiveRevision env) (d, s) = (.ok revision, (d, s)) := by
    refine (handle_bind_ok (handle_sql_wrap rfl hs (o := .revisionGetActive env.tenantID env.type) rfl)).trans ?_
    rw [hrev]
    rfl
  have hvalue : handle (statement (calm c)) (ofExcept (eng.rustEvaluate c revision env)) (d, s) =
      (.ok (matchedRules, effects), (d, s)) := by
    rw [heval]
    rfl
  have hlist := handle_loadSubscribers (w := calm c) (d := d) eng env hs rfl
  have hout : out = _ := (handle_bind_ok hload).trans
      ((handle_bind_ok (r := c) handle_clockNow).trans (handle_bind_ok hvalue))
  refine ⟨fun hmany => ?_, fun hmany => ?_⟩
  · rw [if_pos hmany] at hlist
    rw [hout]
    exact congrArg Prod.fst (handle_bind_error hlist)
  · rw [if_neg hmany, hv] at hlist
    -- the execution is new
    obtain ⟨s₁, h₁, w₁⟩ := executionInsert_wrote (w := calm c) (d := d) hs
      (computeExecutionID eng.sha256Hex env.tenantID env.id env.type revision.revision)
      (⟨env.id, env.tenantID, env.type, revision.revision,
        computeDecisionHash eng.sha256Hex revision.contentHash env.id "" matchedRules effects, .completed, none, none,
        now, some now⟩) false (Err.wrap "persist execution") rfl (by simp [hexec])
    obtain ⟨s₂, h₂, w₂⟩ := rustOutboxInsert_wrote (w := calm c) (d := d) (s := s₁) (fun _ _ => rfl)
      (computeExecutionID eng.sha256Hex env.tenantID env.id env.type revision.revision) env.tenantID now
      (effects ++ (d.refs.joined env.tenantID env.type).map (fun s =>
        ⟨computeEffectID eng.sha256Hex env.tenantID env.id "service-subscription" 1 s.id 0, s.id, env.type, payload,
          .serviceEvent, 0⟩)) (w₁.state.trans hs)
    -- and its row in the inbox is still being processed
    have hinbox₂ : (s₂.sees d).inbox env.key = some row := by
      rw [← hinbox]
      simp only [Session.sees, Tables.onto, w₂.inbox, w₁.inbox]
    obtain ⟨s₃, h₃, -, hsame⟩ := rust_markCommitted (w := calm c) (w₂.state.trans (w₁.state.trans hs))
      (computeExecutionID eng.sha256Hex env.tenantID env.id env.type revision.revision) now hinbox₂ hrow rfl
    rw [hout.trans ((handle_bind_ok hlist).trans ((handle_bind_ok h₁).trans ((handle_bind_ok h₂).trans
      (handle_bind_ok h₃))))]
    refine ⟨⟨_, rfl⟩, ?_⟩
    show (fun k => ((s₃.sees d).outbox k).map addressed) = _
    rw [hsame, w₂.outbox, w₁.outbox]
    funext k
    rw [insertAll_map, insertAll_pairs]
    congr 1
    simp [entries, Function.comp_def, addressed, pendingRow]

end

/-- The two workers do the same with the subscribers of the event: both refuse it, or both
    leave the same rows; and they refuse it exactly when the services are more than 100. -/
def FansOutAlike (d : DB) (env : EventEnvelope) (go : Except Err Execution × (DB × Session))
    (rust : Except Err Rust.ProcessOutcome × (DB × Session)) : Prop :=
  ((go.1 = .error (Go.tooMany env.type) ∧ rust.1 = .error (Rust.tooMany env.type)) ∨
    ((∃ e, go.1 = .ok e) ∧ (∃ e, rust.1 = .ok e) ∧ serviceRows go.2 = serviceRows rust.2)) ∧
  (go.1 = .error (Go.tooMany env.type) ↔ 100 < (d.refs.serviceIDs env.tenantID env.type).card) ∧
  (rust.1 = .error (Rust.tooMany env.type) ↔ 100 < (d.refs.serviceIDs env.tenantID env.type).card)

theorem not_alike {d : DB} {env : EventEnvelope} {go : Except Err Execution × (DB × Session)}
    {rust : Except Err Rust.ProcessOutcome × (DB × Session)} (hgo : ∃ e, go.1 = .ok e)
    (hrust : rust.1 = .error (Rust.tooMany env.type)) : ¬ FansOutAlike d env go rust := by
  obtain ⟨e, he⟩ := hgo
  rintro ⟨⟨hgo', -⟩ | ⟨-, ⟨e', he'⟩, -⟩, -⟩
  · rw [he] at hgo'
    cases hgo'
  · rw [hrust] at he'
    cases he'

namespace Subscribed

/-- `m` services, each subscribed through `n` domains that list the event of `Sample`. -/
def refs (m n : Nat) : Reference where
  activations := Sample.refs.activations
  revisions := Sample.refs.revisions
  domains := (List.range n).map (fun i => ⟨"acme", toString i, ["order.placed"]⟩)
  services := (List.range m).map (fun j => ⟨"acme", toString j, true⟩)
  subscriptions := (List.range m).flatMap (fun j => (List.range n).map (fun i => ⟨"acme", toString j, toString i⟩))

def sha256Hex : String → String := Text.digest (Sample.digests ++
  [("acme|o-1|service-subscription|1|0|0",
    "3b3743e1521258897f26e3045b9d5d2c192ca8ed0a8211f7433d6eb8cd09e509"),
   ("acme|o-1|service-subscription|1|1|0",
    "2385731311d662250bca94c3f5dc59bf4191bdaac153c5c644e8d9e2d285e65a"),
   ("acme|o-1|service-subscription|1|2|0",
    "d639df0649c6aa6b671d5d4376e587fe8a7ec56b92529ca5ed961a5a597b3491"),
   ("acme|o-1|service-subscription|1|3|0",
    "43f53d9b3f2d31147949199925759ebe2f39454d785a802bb6704ea0acc108c4"),
   ("acme|o-1|service-subscription|1|4|0",
    "bfebd48bdc4d01281052c7b258e7e3686ca99c9588b44d38e82357dc72a1881a"),
   ("acme|o-1|service-subscription|1|5|0",
    "a98c58cb68e42afbdab1736c050d249dc35733532ce17e0e98fe391e8dbc07bd"),
   ("acme|o-1|service-subscription|1|6|0",
    "e15b1445acccc0473918ee9537c6edd68d80ef50c194e2b992879249103fed77"),
   ("acme|o-1|service-subscription|1|7|0",
    "02dd6d6f9421af6cb51269391f7c8d5443804eec99924eba3456b596d30a5776"),
   ("acme|o-1|service-subscription|1|8|0",
    "4deaa340d34cd80ddc3e8a4291fe907cf7fc14934d7ee7692af85fbf38382fc7"),
   ("acme|o-1|service-subscription|1|9|0",
    "5f31855f63e0b5a42aa37eaffc73d7415e2e80c2264eeb79e3fb5cb737cffd4f"),
   ("acme|o-1|service-subscription|1|10|0",
    "9fa7dc685f22162df3e9054b2525fd28f035c0023f92344ea761346f0d635f68")])

def engine : Engine := { Sample.engine with sha256Hex := sha256Hex }

def database (m n : Nat) : DB := DB.empty 63902822400000000 (refs m n)

def session : Session :=
  { Session.idle with state := .active, now := 63902822400000000 }.putInbox Sample.event.key
    ⟨.processing, none, 63902822400000000, none, "k", "order.placed", Sample.event.data, none⟩

def decision : Decision := ⟨[], [], "9df0b13fc6681f52f5880ca3d2d85d9d2dbb564ff53dcbc3a0978c27cc7db2af", []⟩

def go (m n : Nat) : Except Err Execution × (DB × Session) :=
  handle (statement (calm 63902822401000000))
    (Go.persistExecutionAndOutbox engine Sample.event Sample.revision decision) (database m n, session)

def rust (m n : Nat) : Except Err Rust.ProcessOutcome × (DB × Session) :=
  handle (statement (calm 63902822401000000)) (Rust.persistNewEvent engine Sample.event 63902822400000000)
    (database m n, session)

end Subscribed

open Subscribed

end FlowRule
