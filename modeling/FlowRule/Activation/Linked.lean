import FlowRule.Activation.Swap

/- In every state that Activate and Deactivate calls lead to, an activation names a revision
   that is stored: the upsert checks the foreign key against what its transaction sees, and
   no statement deletes a revision. -/
namespace FlowRule.Activation

namespace Postgres

def Linked (t : Tables) : Prop :=
  ∀ key row, t.activations key = some row → (t.revisions (key, row.revision)).isSome

def OwnLinked (t : Tables) (s : Session) : Prop :=
  ∀ key row, s.own.activations key = some row → ((s.sees t).revisions (key, row.revision)).isSome

def Keeps (t t' : Tables) : Prop := ∀ k, (t.revisions k).isSome → (t'.revisions k).isSome

section
variable {columns : Columns} {t t' : Tables} {os : List Session} {s s' : Session}

theorem ownLinked_idle : OwnLinked t .idle := nofun

theorem OwnLinked.mono (h : OwnLinked t s) (ht : Keeps t t') : OwnLinked t' s := by
  intro key row hrow
  have hsee := h key row hrow
  simp only [Session.sees, Tables.onto, Option.isSome_or, Bool.or_eq_true] at hsee ⊢
  exact hsee.imp_right (ht _)

theorem OwnLinked.sees (h : OwnLinked t s) (ht : Linked t) : Linked (s.sees t) := by
  intro key row hrow
  simp only [Session.sees, Tables.onto] at hrow
  cases hown : s.own.activations key with
  | some own =>
    rw [hown] at hrow
    cases hrow
    exact h key row hown
  | none =>
    rw [hown] at hrow
    have hthere := ht key row hrow
    simp only [Session.sees, Tables.onto, Option.isSome_or, Bool.or_eq_true]
    exact .inr hthere

theorem OwnLinked.putRevision (h : OwnLinked t s) (k : Key × Int) (row : RevisionRow) :
    OwnLinked t (s.putRevision k row) := by
  intro key a ha
  have hsee := h key a ha
  by_cases hk : (key, a.revision) = k
  · subst hk
    simp [Session.sees, Tables.onto, Session.putRevision]
  · simpa [Session.sees, Tables.onto, Session.putRevision, hk] using hsee

theorem OwnLinked.putActivation (h : OwnLinked t s) {key : Key} {row : ActivationRow}
    (hrow : ((s.sees t).revisions (key, row.revision)).isNone ≠ true) : OwnLinked t (s.putActivation key row) := by
  intro k a ha
  by_cases hk : k = key
  · subst hk
    simp only [Session.putActivation, Function.update_self, Option.some.injEq] at ha
    subst ha
    rw [ne_eq, Bool.not_eq_true, Option.isNone_eq_false_iff] at hrow
    exact hrow
  · simp only [Session.putActivation, Function.update_of_ne hk] at ha
    exact h k a ha

theorem perform_linked {o : Op} {a : Except Err o.Res} (ht : Linked t) (hs : OwnLinked t s)
    (h : perform columns t os s o = some (t', s', a)) : Linked t' ∧ OwnLinked t' s' ∧ Keeps t t' := by
  have same : ∀ {x : Session}, OwnLinked t x → Linked t ∧ OwnLinked t x ∧ Keeps t t :=
    fun hx => ⟨ht, hx, fun _ hk => hk⟩
  cases o with
  | begin =>
    cases h
    exact same ownLinked_idle
  | get key =>
    cases h
    exact same hs
  | save source revision =>
    simp only [perform] at h
    split at h
    · cases h
      exact same ownLinked_idle
    · split at h
      · cases h
        exact same hs
      · split at h <;> cases h
        exact same (hs.putRevision _ _)
  | setWithVersion key row expectedVersion =>
    simp only [perform] at h
    split at h
    · cases h
    split at h
    · split at h
      · cases h
        exact same ownLinked_idle
      · rename_i hrev
        cases h
        exact same (hs.putActivation hrev)
    · split at h
      · cases h
        exact same hs
      · split at h
        · cases h
          exact same ownLinked_idle
        · rename_i hrev
          cases h
          exact same (hs.putActivation hrev)
  | commit =>
    cases h
    refine ⟨hs.sees ht, ownLinked_idle, ?_⟩
    intro k hk
    simp only [Session.sees, Tables.onto, Option.isSome_or, Bool.or_eq_true]
    exact .inr hk
  | delete key =>
    simp only [perform] at h
    split at h
    · cases h
    cases h
    refine ⟨?_, hs.mono (fun _ hk => hk), fun _ hk => hk⟩
    intro k row hrow
    by_cases hk : k = key
    · subst hk
      simp at hrow
    · simp only [Function.update_of_ne hk] at hrow
      exact ht k row hrow

end

end Postgres

namespace Swap

open Clients Postgres

def anyProto (_ : Call) : Prog.Proto Op Op.Res Err Unit := ⟨fun _ _ => True, fun _ _ _ _ => True⟩

def linkedView : View Ledger Sess Call Err Unit Unit where
  glob d := Linked d.tables
  rep _ d s _ := OwnLinked d.tables s.sess
  excl _ _ := True
  post _ _ _ := True
  fin _ _ _ := True

theorem remember_sess (d : Ledger) (s : Sess) (sess : Postgres.Session) (o : Op) (x : o.Res) :
    (remember d s sess o x).sess = sess := by
  cases o with
  | get key =>
    simp only [remember]
    split <;> rfl
  | begin | save | setWithVersion | commit | delete => rfl

theorem linked_sound (columns : Columns) (compile : RawMessage → Except Err RuleRevision) :
    Sound (server columns compile) anyProto linkedView where
  start := by
    rintro d i d' s p os hg - h
    cases h
    exact ⟨hg, ⟨(), ownLinked_idle, Prog.wp_trivial (fun _ _ => trivial) (fun _ _ => trivial)⟩,
      fun _ _ => ⟨trivial, trivial⟩, fun _ _ _ _ hr => hr, fun _ _ hp => hp⟩
  exec := by
    rintro i d os s st o x d' s' a hg hrep - - he
    change exec columns d os s o x = some (d', s', a) at he
    cases x with
    | some e =>
      obtain ⟨rfl, hs', -⟩ := exec_fail he
      refine ⟨hg, ⟨(), trivial, ?_⟩, fun _ _ => ⟨trivial, trivial⟩, fun _ _ _ _ hr => hr, fun _ _ hp => hp⟩
      show OwnLinked _ s'.sess
      rw [hs']
      exact ownLinked_idle
    | none =>
      obtain ⟨t, sess, hp, hcases⟩ := exec_performed he
      obtain ⟨hlinked, hown, hkeeps⟩ := perform_linked hg hrep hp
      obtain ⟨ht, hsess⟩ : d'.tables = t ∧ s'.sess = sess := by
        rcases hcases with ⟨x, -, rfl, rfl⟩ | ⟨e, -, rfl, rfl⟩
        · exact ⟨rfl, remember_sess d s sess o x⟩
        · exact ⟨rfl, rfl⟩
      subst ht hsess
      exact ⟨hlinked, ⟨(), trivial, hown⟩, fun _ _ => ⟨trivial, trivial⟩, fun _ _ _ _ hr => hr.mono hkeeps,
        fun _ _ hp => hp⟩
  fin _ _ _ := trivial
  env {_ _ v _} _ _ := nomatch v

theorem getActive_isSome {t : Postgres.Tables} (h : Linked t) {key : Key} (hact : (t.activations key).isSome) :
    (getActive t key).isSome := by
  obtain ⟨row, hrow⟩ := Option.isSome_iff_exists.mp hact
  obtain ⟨revision, hrev⟩ := Option.isSome_iff_exists.mp (h key row hrow)
  simp [getActive, hrow, hrev]

end Swap

end FlowRule.Activation
