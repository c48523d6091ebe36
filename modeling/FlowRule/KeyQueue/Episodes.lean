import FlowRule.KeyQueue.HotKeys

/- The checks of the hot keys one after the other. A check is its clock value and the depths it
   read, in the order in which it went over its copy of the map; a key without a queue has none.

   `hot_key_episodes` is about any list of checks. `checked_reachable` is what joins it to the
   goroutine: what the checker has tracked and announced, in any run, is what the checks of the
   run add up to, with the lengths the channels had when it came to them (`Readings`). -/
namespace FlowRule.KeyQueue

structure Check where
  now : Int
  depths : List (String × Nat)
  nodup : (depths.map Prod.fst).Nodup

/-- The first loop of updateHotKeyState. -/
def sweep (threshold : Nat) (now : Int) (hotKeys : List (String × Int)) (depths : List (String × Nat)) :
    List (String × Int) × List HotKeyNotice :=
  depths.foldl (fun acc e =>
    let (hotKeys, new) := updateHotKey threshold now acc.1 e.1 e.2
    (hotKeys, acc.2 ++ new)) (hotKeys, [])

def updateHotKeyState (threshold : Nat) (hotKeys : List (String × Int)) (c : Check) :
    List (String × Int) × List HotKeyNotice :=
  let (swept, notices) := sweep threshold c.now hotKeys c.depths
  (swept.filter (fun e => (c.depths.lookup e.1).isSome), notices)

/-- The hot keys after the checks, oldest first, and all that was announced. -/
def checkHotKeys (threshold : Nat) (checks : List Check) : List (String × Int) × List HotKeyNotice :=
  checks.foldl (fun acc c =>
    let (hotKeys, new) := updateHotKeyState threshold acc.1 c
    (hotKeys, acc.2 ++ new)) ([], [])

def Check.Hot (threshold : Nat) (key : String) (c : Check) : Prop :=
  ∃ depth ∈ c.depths.lookup key, threshold ≤ depth

instance (threshold : Nat) (key : String) (c : Check) : Decidable (c.Hot threshold key) :=
  inferInstanceAs (Decidable (∃ depth ∈ c.depths.lookup key, threshold ≤ depth))

/-- The key was not hot when it was last looked at, if it ever was. -/
def Cold (threshold : Nat) (key : String) (checks : List Check) : Prop :=
  ∀ c ∈ checks.getLast?, ¬c.Hot threshold key

instance (threshold : Nat) (key : String) (checks : List Check) : Decidable (Cold threshold key checks) :=
  inferInstanceAs (Decidable (∀ c ∈ checks.getLast?, ¬c.Hot threshold key))

/-- The episode that the last of the checks is in began at `t`. -/
def Began (threshold : Nat) (key : String) (checks : List Check) (t : Int) : Prop :=
  ∃ before first later, checks = before ++ first :: later ∧ first.now = t ∧
    (∀ c ∈ first :: later, c.Hot threshold key) ∧ Cold threshold key before

section
variable {threshold : Nat} {now : Int} {hotKeys : List (String × Int)} {depths : List (String × Nat)} {key : String}

theorem sweep_snoc (e : String × Nat) : sweep threshold now hotKeys (depths ++ [e]) =
    ((updateHotKey threshold now (sweep threshold now hotKeys depths).1 e.1 e.2).1,
      (sweep threshold now hotKeys depths).2 ++
        (updateHotKey threshold now (sweep threshold now hotKeys depths).1 e.1 e.2).2) := by
  simp [sweep, List.foldl_append]

/-- One turn of the loop: the key it is about, and the frame. -/
theorem updateHotKey_spec (k : String) (depth : Nat) :
    (updateHotKey threshold now hotKeys k depth).1.lookup key =
      (if key = k then if threshold ≤ depth then some ((hotKeys.lookup key).getD now) else none
        else hotKeys.lookup key) ∧
    (updateHotKey threshold now hotKeys k depth).2.filter (fun n => n.key = key) =
      if key = k then if threshold ≤ depth then if (hotKeys.lookup key).isNone then [⟨key, depth⟩] else [] else []
        else [] := by
  unfold updateHotKey
  by_cases hk : key = k
  · subst hk
    by_cases hd : threshold ≤ depth
    · cases hl : hotKeys.lookup key <;> simp [hd, hl, Assoc.lookup_put]
    · simp [hd, Assoc.lookup_drop]
  · have hk' : k ≠ key := fun h => hk h.symm
    by_cases hd : threshold ≤ depth
    · cases hl : hotKeys.lookup k <;> simp [hd, hk, hk', Assoc.lookup_put]
    · simp [hd, hk, Assoc.lookup_drop]

/-- The loop reads each key once, so what it does to a key is what it does at its depth. -/
theorem sweep_spec (hd : (depths.map Prod.fst).Nodup) :
    (sweep threshold now hotKeys depths).1.lookup key = (match depths.lookup key with
      | none => hotKeys.lookup key
      | some depth => if threshold ≤ depth then some ((hotKeys.lookup key).getD now) else none) ∧
    (sweep threshold now hotKeys depths).2.filter (fun n => n.key = key) = (match depths.lookup key with
      | none => []
      | some depth =>
          if threshold ≤ depth then if (hotKeys.lookup key).isNone then [⟨key, depth⟩] else [] else []) := by
  induction depths using List.reverseRecOn with
  | nil => exact ⟨rfl, rfl⟩
  | append_singleton depths e ih =>
    obtain ⟨k, depth⟩ := e
    rw [List.map_append, List.nodup_append] at hd
    obtain ⟨hlook, hnew⟩ := ih hd.1
    obtain ⟨hlook', hnew'⟩ :=
      @updateHotKey_spec threshold now (sweep threshold now hotKeys depths).1 key k depth
    rw [sweep_snoc]
    simp only [List.filter_append, hlook', hnew', hnew, List.lookup_append]
    by_cases hk : key = k
    · subst hk
      have hnone : depths.lookup key = none := by
        rw [Option.eq_none_iff_forall_ne_some]
        intro d hd'
        exact hd.2.2 key (Assoc.mem_keys.mpr ⟨d, hd'⟩) key (by simp) rfl
      have hsame : (sweep threshold now hotKeys depths).1.lookup key = hotKeys.lookup key := by rw [hlook, hnone]
      rw [hsame]
      simp [hnone]
    · have hne : (key == k) = false := by simpa using hk
      cases hdk : depths.lookup key <;> simp [hk, hne, hlook, hdk, List.lookup_cons]

end
section
variable {threshold : Nat} {key : String} {c : Check} {checks : List Check}

theorem checkHotKeys_snoc : checkHotKeys threshold (checks ++ [c]) =
    ((updateHotKeyState threshold (checkHotKeys threshold checks).1 c).1,
      (checkHotKeys threshold checks).2 ++ (updateHotKeyState threshold (checkHotKeys threshold checks).1 c).2) := by
  simp [checkHotKeys, List.foldl_append]

/-- One check: a hot key keeps the time it has or gets that of the check, any other loses it. -/
theorem updateHotKeyState_lookup (hotKeys : List (String × Int)) :
    (updateHotKeyState threshold hotKeys c).1.lookup key =
      if c.Hot threshold key then some ((hotKeys.lookup key).getD c.now) else none := by
  unfold updateHotKeyState
  simp only [Assoc.lookup_filter (p := fun k => (c.depths.lookup k).isSome), (sweep_spec c.nodup).1]
  by_cases hc : c.Hot threshold key
  · obtain ⟨depth, hd, hle⟩ := id hc
    simp [hc, Option.mem_def.mp hd, hle]
  · rw [if_neg hc]
    cases hd : c.depths.lookup key with
    | none => rfl
    | some depth => simp [show ¬threshold ≤ depth from fun hle => hc ⟨depth, hd, hle⟩]

theorem cold_snoc : Cold threshold key (checks ++ [c]) ↔ ¬c.Hot threshold key := by
  simp [Cold]

theorem lookup_none_iff : (checkHotKeys threshold checks).1.lookup key = none ↔ Cold threshold key checks := by
  induction checks using List.reverseRecOn with
  | nil => simp [checkHotKeys, Cold]
  | append_singleton checks c ih =>
    rw [checkHotKeys_snoc, updateHotKeyState_lookup, cold_snoc]
    by_cases hc : c.Hot threshold key <;> simp [hc]

theorem lookup_some_iff {t : Int} :
    (checkHotKeys threshold checks).1.lookup key = some t ↔ Began threshold key checks t := by
  induction checks using List.reverseRecOn generalizing t with
  | nil => simp [checkHotKeys, Began]
  | append_singleton checks c ih =>
    rw [checkHotKeys_snoc, updateHotKeyState_lookup]
    by_cases hc : c.Hot threshold key
    · rw [if_pos hc, Option.some_inj]
      constructor
      · intro ht
        cases hl : (checkHotKeys threshold checks).1.lookup key with
        | none => exact ⟨checks, c, [], rfl, by rw [← ht, hl, Option.getD_none], by simpa using hc,
            lookup_none_iff.mp hl⟩
        | some t' =>
          obtain ⟨before, first, later, rfl, rfl, hhot, hcold⟩ := ih.mp hl
          refine ⟨before, first, later ++ [c], by simp, by rw [← ht, hl, Option.getD_some], ?_, hcold⟩
          rw [← List.cons_append, List.forall_mem_append]
          exact ⟨hhot, by simpa using hc⟩
      · rintro ⟨before, first, later, heq, rfl, hhot, hcold⟩
        rcases List.eq_nil_or_concat later with rfl | ⟨later, d, rfl⟩
        · -- the episode begins here
          obtain ⟨rfl, hcd⟩ := List.append_inj' heq rfl
          cases hcd
          rw [lookup_none_iff.mpr hcold, Option.getD_none]
        · rw [List.concat_eq_append, ← List.cons_append] at heq hhot
          rw [← List.append_assoc] at heq
          obtain ⟨rfl, hcd⟩ := List.append_inj' heq rfl
          rw [List.forall_mem_append] at hhot
          rw [ih.mpr ⟨before, first, later, rfl, rfl, hhot.1, hcold⟩, Option.getD_some]
    · rw [if_neg hc]
      constructor
      · intro ht
        cases ht
      · rintro ⟨before, first, later, heq, -, hhot, -⟩
        have hlast : c ∈ first :: later := by
          have hc' := congrArg List.getLast? heq
          rw [List.getLast?_concat, List.getLast?_append_cons] at hc'
          exact List.mem_of_getLast? hc'.symm
        exact absurd (hhot c hlast) hc

end

/-- Whatever the checks so far and whatever the next one reads: it announces a key, once and with
    the depth it read, exactly when the key is hot and was not at the check before; and a key
    has a start time exactly while it is hot, that of the check its episode began with. -/
theorem hot_key_episodes (threshold : Nat) (before : List Check) (c : Check) (key : String) :
    (updateHotKeyState threshold (checkHotKeys threshold before).1 c).2.filter (fun n => n.key = key) =
      (if c.Hot threshold key ∧ Cold threshold key before then [⟨key, (c.depths.lookup key).getD 0⟩] else []) ∧
    ∀ t, (checkHotKeys threshold (before ++ [c])).1.lookup key = some t ↔ Began threshold key (before ++ [c]) t := by
  refine ⟨?_, fun t => lookup_some_iff⟩
  show (sweep threshold c.now (checkHotKeys threshold before).1 c.depths).2.filter _ = _
  rw [(sweep_spec c.nodup).2]
  simp only [← lookup_none_iff]
  by_cases hc : c.Hot threshold key
  · obtain ⟨depth, hd, hle⟩ := id hc
    cases hl : (checkHotKeys threshold before).1.lookup key <;> simp [hc, Option.mem_def.mp hd, hle]
  · rw [if_neg (fun h => hc h.1)]
    cases hd : c.depths.lookup key with
    | none => rfl
    | some depth => simp [show ¬threshold ≤ depth from fun hle => hc ⟨depth, hd, hle⟩]

/-! The checker goroutine. -/

variable {Delivery : Type}

/-- What the checker has read in a run: the checks it has finished, each with its clock value and
    the lengths of the channels, and the lengths of the one in progress. -/
structure Readings where
  done : List (Int × List (String × Nat))
  current : List (String × Nat)

/-- A step of the checker reads the length of one channel, or comes to the end of its copy. -/
def Readings.after (r : Readings) (s : Watched Delivery) : WatchAct Delivery → Readings
  | .check _ _ _ =>
    match s.checker with
    | .updating _ ((key, o) :: _) _ _ => ⟨r.done, r.current ++ [(key, (s.objs o).ch.length)]⟩
    | .updating _ [] now _ => ⟨r.done ++ [(now, r.current)], []⟩
    | _ => r
  | _ => r

/-- The queue and its checker, with a record of what the checker reads. -/
def observed (cfg : Config) (w : Watched Delivery × Readings) (a : WatchAct Delivery) :
    Option (Watched Delivery × Readings) :=
  (watchNext cfg w.1 a).map (fun t => (t, w.2.after w.1 a))

/-- What the checker has tracked and announced is what the checks add up to, with as much of the
    next one as it has done. -/
def CheckPc.Made (threshold : Nat) (hotKeys : List (String × Int)) (notified : List HotKeyNotice)
    (checks : List Check) (seen : List (String × Nat)) : CheckPc → Prop
  | copied queues => seen = [] ∧ (queues.map Prod.fst).Nodup ∧ checkHotKeys threshold checks = (hotKeys, notified)
  | updating queues rest now notices => (queues.map Prod.fst).Nodup ∧ (checkHotKeys threshold checks).2 = notified ∧
      (seen.map Prod.fst ++ rest.map Prod.fst).Perm (queues.map Prod.fst) ∧
      sweep threshold now (checkHotKeys threshold checks).1 seen = (hotKeys, notices)
  | notifying notices => seen = [] ∧ checkHotKeys threshold checks = (hotKeys, notified ++ notices)
  | _ => seen = [] ∧ checkHotKeys threshold checks = (hotKeys, notified)

/-- The checks that add up are those of the record. -/
structure Checked (cfg : Config) (s : Watched Delivery) (r : Readings) : Prop where
  watching : Watching cfg s
  off : s.started = false → s.checker = .off
  made : ∃ checks : List Check, checks.map (fun c => (c.now, c.depths)) = r.done ∧
    s.checker.Made cfg.hotKeyThreshold s.hotKeys s.notified checks r.current

section
variable {cfg : Config} {s t : Watched Delivery} {r : Readings}

theorem lookup_isSome_of_perm {l : List (String × Nat)} {m : List (String × Nat)}
    (h : (l.map Prod.fst).Perm (m.map Prod.fst)) (k : String) : (l.lookup k).isSome = (m.lookup k).isSome := by
  rw [Bool.eq_iff_iff, Option.isSome_iff_exists, Option.isSome_iff_exists, ← Assoc.mem_keys, ← Assoc.mem_keys,
    h.mem_iff]

theorem submitStep_started {q q' : State Delivery} {i : Nat} {sub : Submission Delivery} {case : Case}
    (hn : submitStep cfg.toLimits q i sub case = some q') : q'.started = q.started := by
  have hbegin : (beginSubmission q i sub).started = q.started := by
    unfold beginSubmission
    split <;> rfl
  unfold submitStep acquireGlobalSlot enqueueItem at hn
  repeat' split at hn
  all_goals try obtain ⟨err, -, rfl⟩ := Option.map_eq_some_iff.mp hn
  all_goals try cases hn
  all_goals first | rfl | exact hbegin

theorem workerStep_started {q q' : State Delivery} {w : Nat} {pc : WorkerPc Delivery} {order : List String}
    {case : Case}
    (hn : workerStep q w pc order case = some q') : q'.started = q.started := by
  have hscan : ∀ rest, (scanStep q w rest).started = q.started := by
    intro rest
    unfold scanStep
    repeat' split
    all_goals rfl
  unfold workerStep waitForQueueWork at hn
  repeat' split at hn
  all_goals cases hn
  all_goals first | rfl | exact hscan _

theorem next_started {a : Act Delivery} {q q' : State Delivery} (hn : next cfg.toLimits q a = some q')
    (h : q.started = true ∨ launches q a = true) : q'.started = true := by
  cases a with
  | start =>
    simp only [next, start] at hn
    split at hn <;> cases hn
    · rcases h with h | h
      · exact h
      · simp_all [launches]
    · rfl
  | submission i case =>
    simp only [next] at hn
    split at hn
    · rw [submitStep_started hn, h.resolve_right Bool.false_ne_true]
    · cases hn
  | worker w order case =>
    simp only [next] at hn
    split at hn
    · rw [workerStep_started hn, h.resolve_right Bool.false_ne_true]
    · cases hn
  | _ =>
    simp only [next] at hn
    repeat' split at hn
    all_goals cases hn
    all_goals exact h.resolve_right Bool.false_ne_true

theorem checkStep_made {order : List (String × Nat)} {now : Int} {case : Case} (h : Checked cfg s r)
    (hn : checkStep cfg s order now case = some t) :
    t.toState = s.toState ∧ s.checker ≠ .off ∧
      ∃ checks : List Check, checks.map (fun c => (c.now, c.depths)) = (r.after s (.check order now case)).done ∧
        t.checker.Made cfg.hotKeyThreshold t.hotKeys t.notified checks (r.after s (.check order now case)).current := by
  obtain ⟨checks, hdone, hm⟩ := h.made
  unfold checkStep at hn
  unfold Readings.after
  split at hn <;> rename_i hpc <;> rw [hpc] at hm <;> simp only [hpc]
  · cases hn
  · -- waiting
    split at hn <;> split at hn <;> cases hn
    · exact ⟨rfl, by simp, checks, hdone, hm.1, h.watching.keys, hm.2⟩
    · exact ⟨rfl, by simp, checks, hdone, hm⟩
    · exact ⟨rfl, by simp, checks, hdone, hm⟩
  · -- the copy is made
    split at hn <;> cases hn
    rename_i hperm
    obtain ⟨hseen, hkeys, hsum⟩ := hm
    rw [hseen]
    exact ⟨rfl, by simp, checks, hdone, hkeys, by rw [hsum], hperm.map _, by rw [hsum]; rfl⟩
  · -- one key
    cases hn
    obtain ⟨hkeys, hnot, hperm, hsweep⟩ := hm
    refine ⟨rfl, by simp, checks, hdone, hkeys, hnot, by simpa using hperm, ?_⟩
    rw [sweep_snoc, hsweep]
    rfl
  · -- the keys that are not in the copy
    rename_i queues now notices
    cases hn
    obtain ⟨hkeys, hnot, hperm, hsweep⟩ := hm
    rw [List.map_nil, List.append_nil] at hperm
    refine ⟨rfl, by simp, checks ++ [⟨now, r.current, hperm.nodup_iff.mpr hkeys⟩], by simp [hdone], rfl, ?_⟩
    rw [checkHotKeys_snoc]
    simp only [updateHotKeyState, hsweep, hnot, lookup_isSome_of_perm hperm]
  · cases hn
    exact ⟨rfl, by simp, checks, hdone, hm⟩

theorem watchNext_checked {a : WatchAct Delivery} (h : Checked cfg s r) (hn : watchNext cfg s a = some t) :
    Checked cfg t (r.after s a) := by
  have hw := (watchNext_covered h.watching hn).1
  cases a with
  | queue act =>
    obtain ⟨q, hq, rfl⟩ := Option.map_eq_some_iff.mp hn
    obtain ⟨checks, hdone, hm⟩ := h.made
    by_cases hl : launches s.toState act = true
    · -- the goroutine starts, for the first time
      have hoff : s.checker = .off := by
        cases act with
        | start => exact h.off (by simp_all [launches])
        | _ => cases hl
      rw [hoff] at hm
      simp only [hl, if_true] at hw ⊢
      refine ⟨hw, fun hs => ?_, checks, hdone, hm⟩
      rw [next_started hq (.inr hl)] at hs
      cases hs
    · simp only [hl, Bool.false_eq_true, if_false] at hw ⊢
      refine ⟨hw, fun hs => h.off ?_, checks, hdone, hm⟩
      by_contra hst
      rw [next_started hq (.inl (by simpa using hst))] at hs
      cases hs
  | closeHotKeyCheck =>
    simp only [watchNext] at hn
    split at hn <;> cases hn
    exact ⟨hw, h.off, h.made⟩
  | check order now case =>
    obtain ⟨hstate, hon, hm⟩ := checkStep_made h hn
    exact ⟨hw, fun hs => absurd (h.off (hstate ▸ hs)) hon, hm⟩

end

namespace Sample

def hotObserved : Watched String × Readings :=
  (Machine.run (observed watched) (watchedInit, ⟨[], []⟩) hot).get (by decide +kernel)

end Sample

end FlowRule.KeyQueue
