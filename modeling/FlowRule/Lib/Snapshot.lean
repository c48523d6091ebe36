import Mathlib.Logic.Function.Basic

/- Snapshot isolation. A transaction reads the documents as they were when it began, and
   what it has written itself; it commits unless a document it has written was written by
   somebody else since. What it has only read is not looked at again, which is why two
   transactions that each read what the other writes may both commit. -/
namespace Snapshot

variable {K V : Type} [DecidableEq K]

structure Store (K V : Type) where
  docs : K → Option V
  version : K → Nat

/-- An open transaction: the documents it began with and its own writes, newest first. -/
structure Tx (K V : Type) where
  base : Store K V
  own : List (K × V)

def Store.empty : Store K V := ⟨fun _ => none, fun _ => 0⟩

def Store.put (s : Store K V) (k : K) (v : V) : Store K V :=
  ⟨Function.update s.docs k (some v), Function.update s.version k (s.version k + 1)⟩

def Store.begin (s : Store K V) : Tx K V := ⟨s, []⟩

def Tx.get (t : Tx K V) (k : K) : Option V := (t.own.lookup k).or (t.base.docs k)

def Tx.put (t : Tx K V) (k : K) (v : V) : Tx K V := ⟨t.base, (k, v) :: t.own⟩

def Store.commit (s : Store K V) (t : Tx K V) : Option (Store K V) :=
  if ∀ p ∈ t.own, s.version p.1 = t.base.version p.1 then some (t.own.foldr (fun p s => s.put p.1 p.2) s) else none

theorem docs_put_of_ne {s : Store K V} {k k' : K} {v : V} (h : k ≠ k') : (s.put k' v).docs k = s.docs k := by
  simp [Store.put, h]

theorem docs_commit {s s' : Store K V} {t : Tx K V} {k : K} (h : s.commit t = some s')
    (hk : ∀ p ∈ t.own, p.1 ≠ k) : s'.docs k = s.docs k := by
  have hfold : ∀ {own : List (K × V)}, (∀ p ∈ own, p.1 ≠ k) →
      (own.foldr (fun p s => s.put p.1 p.2) s).docs k = s.docs k := by
    intro own
    induction own with
    | nil => exact fun _ => rfl
    | cons p own ih =>
      intro hown
      rw [List.foldr_cons, docs_put_of_ne (Ne.symm (hown p List.mem_cons_self))]
      exact ih (fun q hq => hown q (List.mem_cons_of_mem p hq))
  unfold Store.commit at h
  split at h <;> cases h
  exact hfold hk

end Snapshot
