import Signari.StatementPrograms

/-!
# Transactions that lock rows

The sessions of a database are the transactions that are open, numbered in the order in which they
begin. What a transaction knows of itself is a parameter, and so is which keys it holds locked. A
statement that needs a key goes on when no other transaction holds it, so that no key is ever
held twice (`Exclusive`).

What a transaction has come to satisfy it satisfies for as long as it is open (`Retains`), however
its statements are interleaved with those of others.
-/
namespace Signari.RowLocks
open LabelledRuns StatementPrograms Function

/-- How a commit ends. Its acknowledgement may be lost, whether it has happened or not. -/
inductive Commit where
  | confirmed
  | refused
  | lost (happened : Bool)

def Commit.happened : Commit → Bool
  | .confirmed => true
  | .refused => false
  | .lost happened => happened

section

variable {T K : Type}

structure Sessions (T : Type) where
  txs : ℕ → Option T := fun _ => none
  next : ℕ := 0

namespace Sessions

variable {s : Sessions T} {tx tx' : ℕ} {t t' : T}

def start (s : Sessions T) (t : T) : Sessions T where
  txs := update s.txs s.next (some t)
  next := s.next + 1

def put (s : Sessions T) (tx : ℕ) (t : T) : Sessions T := { s with txs := update s.txs tx (some t) }

def close (s : Sessions T) (tx : ℕ) : Sessions T := { s with txs := update s.txs tx none }

@[simp] theorem next_start : (s.start t).next = s.next + 1 := rfl

@[simp] theorem next_put : (s.put tx t).next = s.next := rfl

@[simp] theorem next_close : (s.close tx).next = s.next := rfl

@[simp] theorem txs_put_self : (s.put tx t).txs tx = some t := update_self _ _ _

theorem txs_start (h : (s.start t).txs tx = some t') :
    (tx = s.next ∧ t' = t) ∨ (tx ≠ s.next ∧ s.txs tx = some t') := by
  change update s.txs s.next (some t) tx = some t' at h
  by_cases htx : tx = s.next
  · subst htx
    rw [update_self] at h
    exact .inl ⟨rfl, (Option.some.inj h).symm⟩
  · rw [update_of_ne htx] at h
    exact .inr ⟨htx, h⟩

theorem txs_put (h : (s.put tx t).txs tx' = some t') :
    (tx' = tx ∧ t' = t) ∨ (tx' ≠ tx ∧ s.txs tx' = some t') := by
  change update s.txs tx (some t) tx' = some t' at h
  by_cases htx : tx' = tx
  · subst htx
    rw [update_self] at h
    exact .inl ⟨rfl, (Option.some.inj h).symm⟩
  · rw [update_of_ne htx] at h
    exact .inr ⟨htx, h⟩

theorem txs_close (h : (s.close tx).txs tx' = some t') : tx' ≠ tx ∧ s.txs tx' = some t' := by
  change update s.txs tx none tx' = some t' at h
  by_cases htx : tx' = tx
  · subst htx
    rw [update_self] at h
    cases h
  · rw [update_of_ne htx] at h
    exact ⟨htx, h⟩

variable (holds : T → K → Prop)

def Free (s : Sessions T) (tx : ℕ) (key : K) : Prop :=
  ∀ tx' t, tx' ≠ tx → s.txs tx' = some t → ¬ holds t key

def Exclusive (s : Sessions T) : Prop :=
  ∀ tx tx' t t' key, s.txs tx = some t → s.txs tx' = some t' → holds t key → holds t' key → tx = tx'

variable {holds}

theorem exclusive_empty : Exclusive holds {} := fun _ _ _ _ _ h => nomatch h

theorem Exclusive.free (h : s.Exclusive holds) {key : K} (ht : s.txs tx = some t)
    (hkey : holds t key) : s.Free holds tx key :=
  fun tx' t' hne ht' hkey' => hne (h tx' tx t' t key ht' ht hkey' hkey)

/-- A transaction may come to hold what nobody else holds. -/
theorem Exclusive.put (h : s.Exclusive holds) (hkeys : ∀ key, holds t key → s.Free holds tx key) :
    (s.put tx t).Exclusive holds := by
  intro tx₁ tx₂ t₁ t₂ key ht₁ ht₂ hold₁ hold₂
  rcases txs_put ht₁ with ⟨rfl, rfl⟩ | ⟨hne₁, hs₁⟩
  · rcases txs_put ht₂ with ⟨rfl, -⟩ | ⟨hne₂, hs₂⟩
    · rfl
    · exact absurd hold₂ (hkeys key hold₁ tx₂ t₂ hne₂ hs₂)
  · rcases txs_put ht₂ with ⟨rfl, rfl⟩ | ⟨-, hs₂⟩
    · exact absurd hold₁ (hkeys key hold₂ tx₁ t₁ hne₁ hs₁)
    · exact h tx₁ tx₂ t₁ t₂ key hs₁ hs₂ hold₁ hold₂

theorem Exclusive.start (h : s.Exclusive holds) (hkeys : ∀ key, ¬ holds t key) :
    (s.start t).Exclusive holds :=
  h.put fun key hkey => absurd hkey (hkeys key)

theorem Exclusive.close (h : s.Exclusive holds) : (s.close tx).Exclusive holds :=
  fun tx₁ tx₂ t₁ t₂ key ht₁ ht₂ => h tx₁ tx₂ t₁ t₂ key (txs_close ht₁).2 (txs_close ht₂).2

/-- The transaction has been open, and while it is it has the property. -/
structure Retains (P : T → Prop) (tx : ℕ) (s : Sessions T) : Prop where
  numbered : tx < s.next
  kept : ∀ t, s.txs tx = some t → P t

variable {P : T → Prop}

theorem Retains.put (h : s.Retains P tx) (ht : tx = tx' → P t) : (s.put tx' t).Retains P tx := by
  refine ⟨h.numbered, fun t' ht' => ?_⟩
  rcases txs_put ht' with ⟨rfl, rfl⟩ | ⟨-, ht'⟩
  · exact ht rfl
  · exact h.kept t' ht'

theorem Retains.start (h : s.Retains P tx) : (s.start t).Retains P tx := by
  refine ⟨Nat.lt_succ_of_lt h.numbered, fun t' ht' => ?_⟩
  rcases txs_start ht' with ⟨rfl, rfl⟩ | ⟨-, ht'⟩
  · exact absurd h.numbered (Nat.lt_irrefl _)
  · exact h.kept t' ht'

theorem Retains.close (h : s.Retains P tx) : (s.close tx').Retains P tx :=
  ⟨h.numbered, fun t ht => h.kept t (txs_close ht).2⟩

theorem retains_put (htx : tx < s.next) (ht : P t) : (s.put tx t).Retains P tx := by
  refine ⟨htx, fun t' ht' => ?_⟩
  rcases txs_put ht' with ⟨-, rfl⟩ | ⟨hne, -⟩
  · exact ht
  · exact absurd rfl hne

end Sessions

end

section

variable {Op : Type} {Res : Op → Type} {Req Ans Env σ : Type}
  {handler : Req → Prog Op Res Ans} {exec : σ → (o : Op) → Res o → σ → Prop}
  {change : σ → Env → σ → Prop} {p : Pool Op Res Ans σ} {es : List (Event Op Res Req Ans Env)}

/-- The numbers that the statements of a history have opened transactions with. -/
structure Numbered (opens : (o : Op) → Res o → Option ℕ) (h : List (Event Op Res Req Ans Env))
    (n : ℕ) : Prop where
  below : ∀ k o r tx, .ran k o r ∈ h → opens o r = some tx → tx < n
  once : ∀ j k o r o' r' tx, .ran j o r ∈ h → .ran k o' r' ∈ h → opens o r = some tx →
    opens o' r' = some tx → j = k

variable {opens : (o : Op) → Res o → Option ℕ} {h : List (Event Op Res Req Ans Env)} {m n : ℕ}

theorem Numbered.snoc (hnum : Numbered opens h m) {e : Event Op Res Req Ans Env} (hle : m ≤ n)
    (he : ∀ k o r tx, e = .ran k o r → opens o r = some tx → tx = m ∧ m < n) :
    Numbered opens (h ++ [e]) n := by
  have hmem : ∀ {k o r}, .ran k o r ∈ h ++ [e] → .ran k o r ∈ h ∨ e = .ran k o r := by
    intro k o r hran
    rcases List.mem_append.1 hran with hran | hran
    · exact .inl hran
    · exact .inr (List.mem_singleton.1 hran).symm
  refine ⟨fun k o r tx hran htx => ?_, fun j k o r o' r' tx hj hk htx htx' => ?_⟩
  · rcases hmem hran with hran | heq
    · exact Nat.lt_of_lt_of_le (hnum.below k o r tx hran htx) hle
    · obtain ⟨rfl, hlt⟩ := he k o r tx heq htx
      exact hlt
  · rcases hmem hj with hj | hj <;> rcases hmem hk with hk | hk
    · exact hnum.once j k o r o' r' tx hj hk htx htx'
    · obtain ⟨rfl, -⟩ := he k o' r' tx hk htx'
      exact absurd (hnum.below j o r tx hj htx) (Nat.lt_irrefl _)
    · obtain ⟨rfl, -⟩ := he j o r tx hj htx
      exact absurd (hnum.below k o' r' tx hk htx') (Nat.lt_irrefl _)
    · cases hj.symm.trans hk
      rfl

end

end Signari.RowLocks
