import FlowRule.Activation.Posted
import FlowRule.Rules.Acting
import FlowRule.Rules.EmitEvent
import FlowRule.Rules.Stored

/- Decisions of a revision that was stored (Save, Get and GetActive in
   internal/adapters/postgres/rules.go, Evaluate in internal/rules/evaluator.go): the effects
   of actions that came back (`buildEffect_stored`), decisions of rules that came back
   (`evaluate_stored`), and what is read under the number of a revision
   (`stored_decides_alike`).

   One thing is lost on the way: a number out of the range of a float64 makes an emit_event
   action fail even where a later member with the same key hides it, and the column drops
   hidden members. It shows where such an action acts on an event that the stored revision
   decides (`decides_alike_iff`). -/
namespace FlowRule

open Checks Json

namespace Rules

/-! What is the same. -/

theorem sameNumber_refl (literal : String) : sameNumber literal literal = true := by
  simp [sameNumber]

theorem same_refl (v : Json) : same sameNumber v v = true := by
  have h := same_renumber (r := sameNumber) (f := id) sameNumber_refl v
  rwa [renumber, show (fun literal => num (id literal)) = num from rfl, mapLeaves_id] at h

/-- The same effect, with payloads that are equal as JSON; one that is nil counts as null,
    which is how it is written. -/
structure AlikeEffect (texts : Texts) (e e' : Effect) : Prop where
  id : e.id = e'.id
  effectType : e.effectType = e'.effectType
  destination : e.destination = e'.destination
  name : e.name = e'.name
  payload : same sameNumber (rawDocument texts e.payload).canon (rawDocument texts e'.payload).canon = true

theorem AlikeEffect.refl (texts : Texts) (e : Effect) : AlikeEffect texts e e := ⟨rfl, rfl, rfl, rfl, same_refl _⟩

structure AlikeDecision (texts : Texts) (d d' : Decision) : Prop where
  matchedRules : d.matchedRules = d'.matchedRules
  effects : List.Forall₂ (AlikeEffect texts) d.effects d'.effects
  hash : d.hash = d'.hash

/-- No number out of range is hidden by a later member with the same key. -/
def HidesNone (num : Numbers) (document : Json) : Prop := Readable num document.canon → Readable num document

/-- Nothing is hidden in the data of the emit_event actions that act on the event. -/
def ActsOpenly (num : Numbers) (texts : Texts) (facts : Facts) (revision : RuleRevision)
    (event : EventEnvelope) : Prop :=
  ∀ x ∈ acting (factSemantics num texts facts) revision event revision.compiled,
    ∀ e, x.action.emitEvent = some e → HidesNone num (texts.read e.data)

section
variable {num : Numbers} {texts : Texts} (jsonb : Jsonb num texts)

/-! Effects. -/

theorem storedData_canon (data : RawMessage) : (texts.read (storedData jsonb data)).canon =
    (rawDocument texts data).canon.renumber jsonb.number := jsonb.text_canon data

theorem storedData_same (data : RawMessage) : same sameNumber (rawDocument texts data).canon
    (rawDocument texts (storedData jsonb data)).canon = true := by
  have hne : storedData jsonb data ≠ "" := jsonb.text_ne _
  rw [show rawDocument texts (storedData jsonb data) = texts.read (storedData jsonb data) from if_neg hne,
    storedData_canon]
  exact same_renumber jsonb.number_same _

variable {data : RawMessage} {a : EmitEventAction}

theorem readable_storedData (hne : data ≠ "") :
    Readable num (texts.read (storedData jsonb data)) ↔ Readable num (texts.read data).canon := by
  have hdocument : rawDocument texts data = texts.read data := if_neg hne
  constructor
  · intro h literal hl
    have hmem : jsonb.number literal ∈ (texts.read (storedData jsonb data)).literals := by
      apply literals_canon
      rw [storedData_canon, hdocument]
      exact mem_literals_renumber.mpr ⟨literal, hl, rfl⟩
    rw [← jsonb.number_range]
    exact h _ hmem
  · intro h literal hl
    obtain ⟨l, hmem, rfl⟩ := mem_literals_renumber.mp (jsonb.text_literals data literal hl)
    rw [hdocument] at hmem
    rw [jsonb.number_range]
    exact h l hmem

/-- Templates are filled in alike, into a document whose numbers are written anew. -/
theorem interpolateTemplates_stored (hne : data ≠ "") (hhides : HidesNone num (texts.read data))
    (c : TemplateContext) : Both (· = ·) (interpolateTemplates num c (texts.read data))
      (interpolateTemplates num c (texts.read (storedData jsonb data))) := by
  have hdocument : rawDocument texts data = texts.read data := if_neg hne
  by_cases hread : Readable num (texts.read data)
  · have hback : Readable num (texts.read (storedData jsonb data)) :=
      (readable_storedData jsonb hne).mpr (fun literal hl => hread literal (literals_canon hl))
    have hcanon : (texts.read (storedData jsonb data)).canon = (texts.read data).canon.renumber jsonb.number := by
      rw [storedData_canon, hdocument]
    unfold interpolateTemplates
    rw [unmarshal_readable hread, unmarshal_readable hback, hcanon]
    refine .ok ?_
    unfold walk renumber
    simp only [mapLeaves_mapLeaves]
    refine mapLeaves_congr _ (fun leaf hleaf => ?_)
    have hscalar := leaves_scalar _ leaf hleaf
    cases leaf with
    | num literal => simp [mapLeaves, numberText, jsonb.number_float]
    | arr _ | obj _ => cases hscalar
    | _ => rfl
  · have hback : ¬ Readable num (texts.read (storedData jsonb data)) :=
      fun h => hread (hhides ((readable_storedData jsonb hne).mp h))
    obtain ⟨e, he⟩ := unmarshal_unreadable hread
    obtain ⟨e', he'⟩ := unmarshal_unreadable hback
    unfold interpolateTemplates
    rw [he, he']
    exact .error e e'

theorem storedEmitEvent_policy (h : AcceptedKey a) : (storedEmitEvent jsonb a).policy = a.policy := by
  have hstored : (storedEmitEvent jsonb a).policy =
      if (policyOf a.partitionKeyPolicy.text).text = "" then .explicit else policyOf a.partitionKeyPolicy.text := rfl
  rw [hstored]
  unfold EmitEventAction.policy
  by_cases hempty : a.partitionKeyPolicy.text = ""
  · rw [hempty, if_pos rfl]
    rfl
  · have hpolicy : a.policy = a.partitionKeyPolicy := if_neg hempty
    rw [if_neg hempty]
    rcases h with ⟨hp, -⟩ | hp | ⟨hp, -, -⟩ <;> rw [hpolicy] at hp <;> rw [hp] <;> rfl

variable (sha256Hex : String → String) (facts : Facts) (now : Time) (event : EventEnvelope) (ruleID : String)

theorem resolveEmitEventPartitionKey_stored (h : AcceptedKey a) :
    resolveEmitEventPartitionKey (factSemantics num texts facts) (storedEmitEvent jsonb a) event =
      resolveEmitEventPartitionKey (factSemantics num texts facts) a event := by
  have hpolicy := storedEmitEvent_policy jsonb h
  unfold EmitEventAction.policy at hpolicy
  unfold resolveEmitEventPartitionKey
  rw [hpolicy]
  rfl

theorem buildEmitEventEffect_stored (hkey : AcceptedKey a) (hne : a.data ≠ "")
    (hhides : HidesNone num (texts.read a.data)) (effect : Effect) (n : Nat) :
    Both (AlikeEffect texts)
      (buildEmitEventEffect sha256Hex (factSemantics num texts facts) now effect event ruleID n a)
      (buildEmitEventEffect sha256Hex (factSemantics num texts facts) now effect event ruleID n
        (storedEmitEvent jsonb a)) := by
  unfold buildEmitEventEffect
  rw [resolveEmitEventPartitionKey_stored jsonb facts event hkey]
  cases resolveEmitEventPartitionKey (factSemantics num texts facts) a event with
  | error e => exact .error e e
  | ok partitionKey =>
    have hdata := interpolateTemplates_stored jsonb hne hhides
      ⟨texts.read event.data, computeChildEventID sha256Hex event.id ruleID n, texts.rfc3339 now⟩
    simp only [factSemantics, documentSemantics, storedEmitEvent]
    generalize interpolateTemplates num _ (texts.read a.data) = fresh at hdata
    generalize interpolateTemplates num _ (texts.read (storedData jsonb a.data)) = stored at hdata
    cases hdata with
    | error e e' => exact .error _ _
    | @ok childData _ h =>
      subst h
      -- the envelope only takes the type from the action
      exact Both.refl (AlikeEffect.refl texts) _

theorem buildEffect_stored {codec : Codec} {limits : Limits} (hnil : codec.valid "" = false) {a : Action}
    (ha : validateAction codec limits a = .ok ())
    (hhides : ∀ e, a.emitEvent = some e → HidesNone num (texts.read e.data)) {rev rev' : RuleRevision}
    (hid : rev'.ruleID = rev.ruleID) (hnumber : rev'.revision = rev.revision) (n : Nat) :
    Both (AlikeEffect texts) (buildEffect sha256Hex (factSemantics num texts facts) now rev event ruleID n a)
      (buildEffect sha256Hex (factSemantics num texts facts) now rev' event ruleID n (storedAction jsonb a)) := by
  obtain ⟨emit, emitEvent, command⟩ := a
  unfold buildEffect
  rw [hid, hnumber]
  unfold validateAction at ha
  cases emit with
  | some a => exact .ok ⟨rfl, rfl, rfl, rfl, storedData_same jsonb a.data⟩
  | none =>
    cases emitEvent with
    | some a =>
      cases command with
      | some c => cases ha
      | none =>
        obtain ⟨-, -, -, hvalid⟩ := validateEmitEventAction_ok ha
        have hne : a.data ≠ "" := by
          intro hempty
          rw [hempty, hnil] at hvalid
          cases hvalid
        exact buildEmitEventEffect_stored jsonb sha256Hex facts now event ruleID (acceptedKey ha) hne (hhides a rfl) _ n
    | none =>
      cases command with
      | some a => exact .ok ⟨rfl, rfl, rfl, rfl, storedData_same jsonb a.data⟩
      | none => cases ha

/-! Decisions. -/

/-- The action passes the compiler's checks, and its data hide nothing. -/
def Actionable (codec : Codec) (limits : Limits) (num : Numbers) (texts : Texts) (a : Action) : Prop :=
  validateAction codec limits a = .ok () ∧ ∀ e, a.emitEvent = some e → HidesNone num (texts.read e.data)

variable {codec : Codec} {limits : Limits} (hnil : codec.valid "" = false) {rev rev' : RuleRevision}
  (hid : rev'.ruleID = rev.ruleID) (hnumber : rev'.revision = rev.revision)
include hnil hid hnumber

theorem buildEffects_stored {actions : List Action} (ha : ∀ a ∈ actions, Actionable codec limits num texts a)
    (context : String) (n : Nat) :
    Both (List.Forall₂ (AlikeEffect texts))
      (buildEffects sha256Hex (factSemantics num texts facts) now rev event ruleID context n actions)
      (buildEffects sha256Hex (factSemantics num texts facts) now rev' event ruleID context n
        (actions.map (storedAction jsonb))) := by
  induction actions generalizing n with
  | nil => exact .ok .nil
  | cons a rest ih =>
    obtain ⟨hfirst, hrest⟩ := List.forall_mem_cons.mp ha
    have heffect := buildEffect_stored jsonb sha256Hex facts now event ruleID hnil hfirst.1 hfirst.2 hid hnumber n
    rw [List.map_cons]
    unfold buildEffects
    generalize buildEffect sha256Hex (factSemantics num texts facts) now rev event ruleID n a = fresh at heffect
    generalize buildEffect sha256Hex (factSemantics num texts facts) now rev' event ruleID n (storedAction jsonb a) =
      stored at heffect
    cases heffect with
    | error e e' => exact .error _ _
    | ok h => exact (ih hrest (n + 1)).map (fun effects effects' hs => .cons h hs)

structure SameCollected (texts : Texts) (c c' : Collected) : Prop where
  matched : c.matched = c'.matched
  effects : List.Forall₂ (AlikeEffect texts) c.effects c'.effects

theorem processRuleResult_stored {r r' : CompiledRule} (hr : StoredAs jsonb r r')
    (ok : Bool) (ha : ∀ a ∈ if ok then r.then_ else r.otherwise, Actionable codec limits num texts a)
    {acc acc' : Collected} (hacc : SameCollected texts acc acc') :
    Both (SameCollected texts) (processRuleResult sha256Hex (factSemantics num texts facts) now rev event r ok acc)
      (processRuleResult sha256Hex (factSemantics num texts facts) now rev' event r' ok acc') := by
  have hactions : (if ok then r'.then_ else r'.otherwise) =
      (if ok then r.then_ else r.otherwise).map (storedAction jsonb) := by
    cases ok
    · exact hr.otherwise
    · exact hr.then_
  unfold processRuleResult
  rw [hactions, hr.id]
  refine (buildEffects_stored jsonb sha256Hex facts now event r.id hnil hid hnumber ha _ 0).map ?_
  intro effects effects' heffects
  refine ⟨?_, List.rel_append hacc.effects heffects⟩
  show (if ok then acc.matched ++ [r.id] else acc.matched) = if ok then acc'.matched ++ [r.id] else acc'.matched
  rw [hacc.matched]

theorem evaluateRules_stored (hmode : rev'.matchMode = rev.matchMode) {rules rules' : List CompiledRule}
    (hrules : List.Forall₂ (StoredAs jsonb) rules rules')
    (ha : ∀ x ∈ acting (factSemantics num texts facts) rev event rules, Actionable codec limits num texts x.action)
    {acc acc' : Collected} (hacc : SameCollected texts acc acc') :
    Both (SameCollected texts) (evaluateRules sha256Hex (factSemantics num texts facts) now rev event rules acc)
      (evaluateRules sha256Hex (factSemantics num texts facts) now rev' event rules' acc') := by
  induction hrules generalizing acc acc' with
  | nil => exact .ok hacc
  | @cons r r' rest rest' hr _ ih =>
    rw [acting_cons, List.forall_mem_append] at ha
    obtain ⟨hfirst, hrest⟩ := ha
    have hwhen : (factSemantics num texts facts).evalPredicate r'.when event.data =
        (factSemantics num texts facts).evalPredicate r.when event.data := hr.when _ _
    unfold evaluateRules
    rw [hwhen, hmode]
    cases hans : (factSemantics num texts facts).evalPredicate r.when event.data with
    | error e => exact .error _ _
    | ok ok =>
      have hholds : holds (factSemantics num texts facts) event r = ok := by simp only [holds, hans]
      rw [hholds] at hrest
      have hactions : ∀ a ∈ if ok then r.then_ else r.otherwise, Actionable codec limits num texts a := by
        intro a hmem
        rw [← hholds] at hmem
        obtain ⟨x, hx, rfl⟩ := mem_numbered r.id 0 hmem
        exact hfirst x hx
      have hstep := processRuleResult_stored jsonb sha256Hex facts now event hnil hid hnumber hr ok hactions hacc
      dsimp only
      generalize processRuleResult sha256Hex (factSemantics num texts facts) now rev event r ok acc = fresh at hstep
      generalize processRuleResult sha256Hex (factSemantics num texts facts) now rev' event r' ok acc' = stored at hstep
      cases hstep with
      | error e e' => exact .error _ _
      | ok hacc' =>
        dsimp only
        split
        · exact .ok hacc'
        · rename_i hgoes
          rw [if_neg hgoes] at hrest
          exact ih hrest hacc'

omit hnil hid hnumber in
theorem decisionText_same {effects effects' : List Effect} (h : List.Forall₂ (AlikeEffect texts) effects effects')
    (text : String) : effects.foldl (fun h ef => h ++ ef.id) text = effects'.foldl (fun h ef => h ++ ef.id) text := by
  induction h generalizing text with
  | nil => rfl
  | cons hfirst _ ih =>
    rw [List.foldl_cons, List.foldl_cons, hfirst.id]
    exact ih _

/-- A revision whose rules came back decides an event as the revision when nothing is hidden in
    the data of the actions that act on it. -/
theorem evaluate_stored (hmode : rev'.matchMode = rev.matchMode) (hhash : rev'.contentHash = rev.contentHash)
    (hrules : List.Forall₂ (StoredAs jsonb) rev.compiled rev'.compiled)
    (ha : ∀ x ∈ acting (factSemantics num texts facts) rev event rev.compiled,
      Actionable codec limits num texts x.action) :
    Both (AlikeDecision texts) (evaluate sha256Hex (factSemantics num texts facts) now rev event)
      (evaluate sha256Hex (factSemantics num texts facts) now rev' event) := by
  refine (evaluateRules_stored jsonb sha256Hex facts now event hnil hid hnumber hmode hrules ha ⟨rfl, .nil⟩).map ?_
  intro c c' hc
  refine ⟨hc.matched, hc.effects, ?_⟩
  show computeDecisionHash _ _ _ _ _ _ = computeDecisionHash _ _ _ _ _ _
  unfold computeDecisionHash
  rw [hhash, hc.matched, decisionText_same hc.effects]

omit hnil hid hnumber in
/-- The data of an emit_event action that was built have no number out of range. -/
theorem built_readable {x : Acting} {effect : Effect} (ha : validateAction codec limits x.action = .ok ())
    (hbuild : BuildsTo sha256Hex (factSemantics num texts facts) now rev event x effect) {e : EmitEventAction}
    (he : x.action.emitEvent = some e) : Readable num (texts.read e.data) := by
  obtain ⟨id, n, ⟨emit, emitEvent, command⟩⟩ := x
  obtain rfl : emitEvent = some e := he
  cases emit with
  | some a => cases command <;> cases ha
  | none =>
    obtain ⟨_, -, hbuild⟩ := bind_ok.mp hbuild
    obtain ⟨_, hdata, -⟩ := bind_ok.mp hbuild
    obtain ⟨v, hv, -⟩ := map_ok.mp (mapError_ok.mp hdata)
    obtain ⟨_, hread, -⟩ := bind_ok.mp hv
    by_contra hno
    obtain ⟨err, herr⟩ := unmarshal_unreadable hno
    cases herr.symm.trans hread

/-- The two decide an event alike exactly when, if the stored one decides it, nothing is hidden
    in the data of the actions that act on it. -/
theorem decides_alike_iff (hmode : rev'.matchMode = rev.matchMode) (hhash : rev'.contentHash = rev.contentHash)
    (hrules : List.Forall₂ (StoredAs jsonb) rev.compiled rev'.compiled)
    (haccepted : ∀ r ∈ rev.compiled, ∀ a ∈ r.then_ ++ r.otherwise, validateAction codec limits a = .ok ()) :
    Both (AlikeDecision texts) (evaluate sha256Hex (factSemantics num texts facts) now rev event)
        (evaluate sha256Hex (factSemantics num texts facts) now rev' event) ↔
      ∀ d, evaluate sha256Hex (factSemantics num texts facts) now rev' event = .ok d →
        ActsOpenly num texts facts rev event := by
  have hvalid : ∀ x ∈ acting (factSemantics num texts facts) rev event rev.compiled,
      validateAction codec limits x.action = .ok () := by
    intro x hx
    obtain ⟨r, hr, -, actions, hactions, hi⟩ := mem_acting hx
    exact haccepted r hr _ (mem_actions hactions hi)
  -- what a decision was made of was built, and so hides nothing
  have hbuilt : ∀ {d}, evaluate sha256Hex (factSemantics num texts facts) now rev event = .ok d →
      ActsOpenly num texts facts rev event := by
    intro d hd x hx e he _
    obtain ⟨effect, -, hbuild⟩ := Keyed.forall₂_mem (evaluate_acting hd).2.1 x hx
    exact built_readable sha256Hex facts now event (hvalid x hx) hbuild he
  have halike := fun hopen : ActsOpenly num texts facts rev event =>
    evaluate_stored jsonb sha256Hex facts now event hnil hid hnumber hmode hhash hrules
      (fun x hx => ⟨hvalid x hx, hopen x hx⟩)
  constructor
  · intro hboth d' hd'
    rw [hd'] at hboth
    generalize hd : evaluate sha256Hex (factSemantics num texts facts) now rev event = fresh at hboth
    cases hboth with
    | ok => exact hbuilt hd
  · intro h
    cases hd' : evaluate sha256Hex (factSemantics num texts facts) now rev' event with
    | ok d' => exact hd' ▸ halike (h d' hd')
    | error e' =>
      cases hd : evaluate sha256Hex (factSemantics num texts facts) now rev event with
      | error e => exact .error e e'
      | ok d =>
        have hboth := halike (hbuilt hd)
        rwa [hd, hd'] at hboth

end

end Rules

open Rules

/-! Saved and read. -/

namespace Activation

namespace Postgres

section
variable {num : Numbers} {texts : Texts}

/-- What the columns make of a source and its rules. That the rules are decoded is part of
    reading them; it does not fail for rules that were encoded (`decodeRules_hold`). -/
def jsonbColumns (jsonb : Jsonb num texts) : Columns := fun source revision => do
  let document ← marshalRules num texts revision.compiled
  jsonb.takes (texts.read source)
  jsonb.takes document
  decodeRules jsonb.text num (jsonb.hold document)

/-- Get and GetActive return the revision, the latter under any activation that names it. -/
def ReadBack (t : Tables) (key : Key) (number : Int) (stored : RuleRevision) : Prop :=
  get t key number = some stored ∧
    ∀ activations row, activations key = some row → row.revision = number →
      getActive ⟨t.revisions, activations⟩ key = some stored

/-- The two decide every event alike, under any facts and at any time. -/
def DecideAlike (sha256Hex : String → String) (num : Numbers) (texts : Texts) (fresh stored : RuleRevision) : Prop :=
  ∀ now event facts, Checks.Both (AlikeDecision texts)
    (evaluate sha256Hex (factSemantics num texts facts) now fresh event)
    (evaluate sha256Hex (factSemantics num texts facts) now stored event)

theorem readBack_iff {t : Tables} {key : Key} {number : Int} {stored : RuleRevision} :
    ReadBack t key number stored ↔ ∃ row, t.revisions (key, number) = some row ∧
      stored = ⟨key.1, key.2, number, row.contentHash, row.matchMode, row.compiled⟩ := by
  unfold ReadBack get
  constructor
  · rintro ⟨h, -⟩
    obtain ⟨row, hrow, rfl⟩ := Option.map_eq_some_iff.mp h
    exact ⟨row, hrow, rfl⟩
  · rintro ⟨row, hrow, rfl⟩
    refine ⟨by rw [hrow]; rfl, ?_⟩
    rintro activations a ha rfl
    simp [getActive, ha, hrow]

variable {source : RawMessage} {revision : RuleRevision}

/-- A Save that succeeds leaves a row under the number: the one that was there, or the one it
    has written. -/
theorem perform_save_row {columns : Columns} {t t' : Tables} {os : List Session} {s s' : Session}
    (h : perform columns t os s (.save source revision) = some (t', s', .ok ())) :
    ∃ compiled, columns source revision = .ok compiled ∧
      (s'.sees t').revisions (revisionKey revision) = some (((s.sees t).revisions (revisionKey revision)).getD
        ⟨revision.contentHash, revision.matchMode, compiled⟩) := by
  simp only [perform] at h
  split at h
  · cases h
  rename_i compiled hcolumns
  refine ⟨compiled, hcolumns, ?_⟩
  split at h
  · rename_i hthere
    cases h
    obtain ⟨row, hrow⟩ := Option.isSome_iff_exists.mp hthere
    rw [hrow]
    rfl
  · rename_i hfree
    split at h
    · cases h
    cases h
    rw [Option.not_isSome_iff_eq_none.mp hfree]
    simp [Session.sees, Session.putRevision, Tables.onto]

theorem jsonbColumns_stored (jsonb : Jsonb num texts) (hnum : RoundTrips num)
    (hg : ∀ r ∈ revision.compiled, InGrammar r.when) {compiled : List CompiledRule}
    (h : jsonbColumns jsonb source revision = .ok compiled) :
    List.Forall₂ (StoredAs jsonb) revision.compiled compiled := by
  obtain ⟨document, hmarshal, h⟩ := bind_ok.mp h
  obtain ⟨_, -, h⟩ := bind_ok.mp h
  obtain ⟨_, -, h⟩ := bind_ok.mp h
  obtain ⟨rules, hrules, hall⟩ := decodeRules_hold jsonb hnum hg hmarshal
  cases hrules.symm.trans h
  exact hall

/-- The hash of a decision determines the content hash, when the decisions have the same rules
    and effects. -/
theorem contentHash_of_same {sha256Hex : String → String} (hsha : Function.Injective sha256Hex) {sem : Semantics}
    {now : Time} {event : EventEnvelope} {rev rev' : RuleRevision} {d d' : Decision}
    (hd : evaluate sha256Hex sem now rev event = .ok d) (hd' : evaluate sha256Hex sem now rev' event = .ok d')
    (hsame : AlikeDecision texts d d') : rev'.contentHash = rev.contentHash := by
  obtain ⟨c, -, rfl⟩ := map_ok.mp hd
  obtain ⟨c', -, rfl⟩ := map_ok.mp hd'
  have htext : _ ++ event.id ++ "" = _ ++ event.id ++ "" := hsha hsame.hash
  have hmatches : c.matched = c'.matched := hsame.matchedRules
  rw [hmatches, decisionText_same hsame.effects] at htext
  have heffects := (String.append_left_inj _).mp ((String.append_left_inj _).mp htext)
  exact (Text.foldl_append_inj c'.matched (Text.foldl_append_inj c'.effects heffects)).symm

theorem jsonbColumns_ok (jsonb : Jsonb num texts) (hnum : RoundTrips num)
    (hg : ∀ r ∈ revision.compiled, InGrammar r.when) {document : Json}
    (hmarshal : marshalRules num texts revision.compiled = .ok document)
    (hsource : jsonb.takes (texts.read source) = .ok ()) (hdocument : jsonb.takes document = .ok ()) :
    ∃ compiled, jsonbColumns jsonb source revision = .ok compiled := by
  obtain ⟨rules, hrules, -⟩ := decodeRules_hold jsonb hnum hg hmarshal
  refine ⟨rules, ?_⟩
  exact bind_ok.mpr ⟨document, hmarshal, bind_ok.mpr ⟨(), hsource, bind_ok.mpr ⟨(), hdocument, hrules⟩⟩⟩

end

end Postgres

/-! Two sources with the same number, saved one after the other. -/

namespace Resaved

def rulesText (limit : String) : RawMessage :=
  "[\x7b\"id\":\"big\",\"priority\":1,\"when\":\x7b\"path\":\"$.total\",\"op\":\"gt\",\"value\":" ++ limit ++
    "\x7d,\"then\":[\x7b\"emit\":\x7b\"topic\":\"alerts\",\"data\":\x7b\"order\": 5\x7d\x7d\x7d]\x7d]"

def source (limit : String) : RawMessage :=
  "\x7b\"rule_set\":\"orders\",\"revision\":1,\"mode\":\"first_match\",\"rules\":" ++ rulesText limit ++ "\x7d"

def orderText : RawMessage := "\x7b\"order\": 5\x7d"

def order : Json := .obj [("order", .num "5")]

def eventText : RawMessage := "\x7b\"total\": 150\x7d"

def total : Json := .obj [("total", .num "150")]

def rule (limit : String) : RawRule where
  id := "big"
  name := ""
  priority := 1
  when := .mk none none none "$.total" "gt" (some (.num limit))
  then_ := [⟨some ⟨"alerts", orderText⟩, none, none⟩]
  otherwise := []

def codec : Codec := TwoSources.codecOf source rulesText rule (fun text => text ≠ "")

def revision (limit : String) : RuleRevision :=
  ⟨"", "orders", 1, Text.digest [] (source limit), .firstMatch, [(rule limit).compiled]⟩

def texts : Texts where
  read text := if text = orderText then order else if text = eventText then total else .null
  goWrite _ := "null"
  goMarshal _ := .error (.msg "no event is written")
  rfc3339 _ := "2026-01-01T00:00:00Z"

/-- The text of the data that are stored; numbers come back as they are written. -/
def columnText : Json → RawMessage
  | .obj [("order", _)] => orderText
  | .obj [("total", _)] => eventText
  | _ => "null"

theorem documents (data : RawMessage) : rawDocument texts data = order ∨ rawDocument texts data = total ∨
    rawDocument texts data = .null := by
  unfold rawDocument texts
  dsimp only
  split
  · exact Or.inr (Or.inr rfl)
  split
  · exact Or.inl rfl
  split
  · exact Or.inr (Or.inl rfl)
  · exact Or.inr (Or.inr rfl)

theorem text_ne (v : Json) : columnText v ≠ "" := by
  unfold columnText
  split <;> decide

def jsonb : Jsonb integers texts where
  takes _ := .ok ()
  number := id
  text := columnText
  number_same := sameNumber_refl
  number_float _ := rfl
  number_range _ := rfl
  number_whole _ := rfl
  text_canon data := by
    rcases documents data with h | h | h <;> rw [h] <;> rfl
  text_literals data := by
    rcases documents data with h | h | h <;> rw [h] <;> decide +kernel
  text_ne := text_ne

theorem roundTrips : RoundTrips integers where
  float literal _ := signed_toString (signed literal.toList)
  range _ _ := rfl

set_option maxRecDepth 4000 in
theorem compile_first :
    compile codec defaultLimits (Text.digest []) (source "100") = .ok (revision "100") := rfl

set_option maxRecDepth 4000 in
theorem compile_second :
    compile codec defaultLimits (Text.digest []) (source "200") = .ok (revision "200") := rfl

def key : Key := ("acme", "orders")

def columns : Postgres.Columns := Postgres.jsonbColumns jsonb

theorem columns_ok (limit : String) :
    ∃ compiled, columns (source limit) (posted key (revision limit)) = .ok compiled := by
  refine Postgres.jsonbColumns_ok jsonb roundTrips ?_ rfl rfl rfl
  intro r hr
  cases List.mem_singleton.mp hr
  exact .leaf "$.total" "gt" _ (by decide) (by decide)

def saved (compiled : List CompiledRule) : Postgres.Tables :=
  (Postgres.Session.idle.putRevision (key, 1) ⟨Text.digest [] (source "100"), .firstMatch, compiled⟩).sees .empty

def event : EventEnvelope := ⟨"e1", "order.placed", "acme", "k1", "", 1, eventText, []⟩

def matched (revision : RuleRevision) : Except Err (List String) :=
  (evaluate (Text.digest []) (factSemantics integers texts []) 7 revision event).map Decision.matchedRules

def first (compiled : List CompiledRule) : RuleRevision :=
  ⟨"acme", "orders", 1, Text.digest [] (source "100"), .firstMatch, compiled⟩

/-- Every number is in range. -/
theorem openly (facts : Facts) (revision : RuleRevision) (event : EventEnvelope) :
    ActsOpenly integers texts facts revision event :=
  fun _ _ _ _ _ _ _ => rfl

theorem matched_first {compiled : List CompiledRule}
    (hcol : columns (source "100") (posted key (revision "100")) = .ok compiled) :
    matched (first compiled) = .ok ["big"] := by
  have hrules := Postgres.jsonbColumns_stored jsonb roundTrips
    (fun r hr => (compiled_accepted compile_first hr).1) hcol
  have hboth : Checks.Both (AlikeDecision texts)
      (evaluate (Text.digest []) (factSemantics integers texts []) 7 (posted key (revision "100")) event)
      (evaluate (Text.digest []) (factSemantics integers texts []) 7 (first compiled) event) :=
    Iff.mpr (decides_alike_iff jsonb (Text.digest []) [] 7 event (show codec.valid "" = false by decide) rfl rfl
      rfl rfl hrules (fun r hr => (compiled_accepted compile_first hr).2)) (fun _ _ => openly _ _ _)
  have hfresh : matched (posted key (revision "100")) = .ok ["big"] := by decide +kernel
  unfold matched at hfresh ⊢
  generalize evaluate (Text.digest []) (factSemantics integers texts []) 7 (posted key (revision "100"))
    event = fresh at hboth hfresh
  generalize evaluate (Text.digest []) (factSemantics integers texts []) 7 (first compiled) event =
    stored at hboth
  cases hboth with
  | error e e' => cases hfresh
  | ok h => exact (congrArg Except.ok h.matchedRules.symm).trans hfresh

end Resaved

open Resaved

namespace Postgres

end Postgres

end Activation

end FlowRule
