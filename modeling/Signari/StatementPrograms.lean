import Signari.LabelledRuns

/-!
# Handlers that share a database

A handler is a tree of statements: it issues one, waits for the response and goes on from there.
A pool runs any number of handlers at once, one statement of one of them at a time, while the
environment may change the state in between. What happens is recorded, so that a run of the pool
is a run of a labelled transition system.

What one handler has done so far is a path through its tree, whatever the others did
(`Run.reaches`). A fact about a handler is therefore proved over its tree alone, from what is known
of each response (`Prog.Holds`), and an invariant of the state from the statements that the
handlers can issue (`Run.tables`).
-/
namespace Signari.StatementPrograms
open LabelledRuns List Function

section

variable {Op : Type} {Res : Op → Type} {α β : Type}

inductive Prog (Op : Type) (Res : Op → Type) (α : Type) : Type
  | ret (a : α)
  | stmt (o : Op) (next : Res o → Prog Op Res α)

/-- The statements of one handler, each with its response. -/
abbrev Trace (Op : Type) (Res : Op → Type) := List ((o : Op) × Res o)

namespace Prog

def bind : Prog Op Res α → (α → Prog Op Res β) → Prog Op Res β
  | ret a, f => f a
  | stmt o next, f => stmt o fun r => (next r).bind f

instance : Monad (Prog Op Res) where
  pure := ret
  bind := bind

def call (o : Op) : Prog Op Res (Res o) := stmt o ret

/-- The responses of a trace lead from one program to what is left of it. -/
inductive Reaches : Prog Op Res α → Trace Op Res → Prog Op Res α → Prop
  | nil {p : Prog Op Res α} : Reaches p [] p
  | snoc {p : Prog Op Res α} {xs : Trace Op Res} {o : Op} {next : Res o → Prog Op Res α}
      (r : Res o) : Reaches p xs (.stmt o next) → Reaches p (xs ++ [⟨o, r⟩]) (next r)

/-- Whenever the responses are as expected, every statement the program comes to satisfies
`before` and every result satisfies `post`, each together with the trace up to it. -/
def Holds (expect : (o : Op) → Res o → Prop) (before : Trace Op Res → Op → Prop)
    (post : Trace Op Res → α → Prop) : Trace Op Res → Prog Op Res α → Prop
  | xs, ret a => post xs a
  | xs, stmt o next => before xs o ∧
      ∀ r, expect o r → Holds expect before post (xs ++ [⟨o, r⟩]) (next r)

variable {expect : (o : Op) → Res o → Prop} {before : Trace Op Res → Op → Prop}
  {post : Trace Op Res → α → Prop}

@[simp] theorem holds_pure {xs : Trace Op Res} {a : α} :
    Holds expect before post xs (pure a : Prog Op Res α) ↔ post xs a := Iff.rfl

theorem holds_bind {p : Prog Op Res β} {f : β → Prog Op Res α} {xs : Trace Op Res} :
    Holds expect before post xs (p >>= f) ↔
      Holds expect before (fun ys b => Holds expect before post ys (f b)) xs p := by
  change Holds expect before post xs (p.bind f) ↔ _
  induction p generalizing xs with
  | ret a => rfl
  | stmt o next ih =>
    refine and_congr_right fun _ => forall_congr' fun r => ?_
    exact imp_congr_right fun _ => ih r

@[simp] theorem holds_call {o : Op} {f : Res o → Prog Op Res α} {xs : Trace Op Res} :
    Holds expect before post xs (call o >>= f) ↔ before xs o ∧
      ∀ r, expect o r → Holds expect before post (xs ++ [⟨o, r⟩]) (f r) := Iff.rfl

theorem Holds.mono {post' : Trace Op Res → α → Prop} {p : Prog Op Res α} {xs : Trace Op Res}
    (h : Holds expect before post xs p) (hpost : ∀ ys a, post ys a → post' ys a) :
    Holds expect before post' xs p := by
  induction p generalizing xs with
  | ret a => exact hpost xs a h
  | stmt o next ih => exact ⟨h.1, fun r hr => ih r (h.2 r hr)⟩

theorem Holds.weaken {before' : Trace Op Res → Op → Prop} {p : Prog Op Res α} {xs : Trace Op Res}
    (h : Holds expect before post xs p) (hbefore : ∀ ys o, before ys o → before' ys o) :
    Holds expect before' post xs p := by
  induction p generalizing xs with
  | ret a => exact h
  | stmt o next ih => exact ⟨hbefore xs o h.1, fun r hr => ih r (h.2 r hr)⟩

theorem Holds.and {before' : Trace Op Res → Op → Prop} {post' : Trace Op Res → α → Prop}
    {p : Prog Op Res α} {xs : Trace Op Res} (h : Holds expect before post xs p)
    (h' : Holds expect before' post' xs p) :
    Holds expect before (fun ys a => post ys a ∧ post' ys a) xs p := by
  induction p generalizing xs with
  | ret a => exact ⟨h, h'⟩
  | stmt o next ih => exact ⟨h.1, fun r hr => ih r (h.2 r hr) (h'.2 r hr)⟩

theorem Holds.reaches {p q : Prog Op Res α} {xs : Trace Op Res}
    (h : Holds expect before post [] p) (hq : Reaches p xs q)
    (hxs : ∀ x ∈ xs, expect x.1 x.2) : Holds expect before post xs q := by
  induction hq with
  | nil => exact h
  | snoc r _ ih =>
    have hbefore := ih fun x hx => hxs x (mem_append_left _ hx)
    exact hbefore.2 r (hxs ⟨_, r⟩ (mem_append_right _ (mem_singleton_self _)))

end Prog

end

section

variable {Op : Type} {Res : Op → Type} {Req Ans Env σ : Type}

/-- What is observed of a pool. Handlers are numbered in the order in which they begin. -/
inductive Event (Op : Type) (Res : Op → Type) (Req Ans Env : Type) : Type
  | began (k : ℕ) (c : Req)
  | ran (k : ℕ) (o : Op) (r : Res o)
  | answered (k : ℕ) (a : Ans)
  | env (e : Env)

structure Pool (Op : Type) (Res : Op → Type) (Ans σ : Type) where
  state : σ
  next : ℕ := 0
  flights : ℕ → Option (Prog Op Res Ans) := fun _ => none

inductive Step (handler : Req → Prog Op Res Ans) (exec : σ → (o : Op) → Res o → σ → Prop)
    (change : σ → Env → σ → Prop) :
    Pool Op Res Ans σ → Event Op Res Req Ans Env → Pool Op Res Ans σ → Prop
  | began {p : Pool Op Res Ans σ} (c : Req) : Step handler exec change p (.began p.next c)
      ⟨p.state, p.next + 1, update p.flights p.next (some (handler c))⟩
  | ran {p : Pool Op Res Ans σ} {k : ℕ} {o : Op} {next : Res o → Prog Op Res Ans} {r : Res o}
      {s : σ} : p.flights k = some (.stmt o next) → exec p.state o r s →
      Step handler exec change p (.ran k o r) ⟨s, p.next, update p.flights k (some (next r))⟩
  | answered {p : Pool Op Res Ans σ} {k : ℕ} {a : Ans} : p.flights k = some (.ret a) →
      Step handler exec change p (.answered k a) ⟨p.state, p.next, update p.flights k none⟩
  | env {p : Pool Op Res Ans σ} {e : Env} {s : σ} : change p.state e s →
      Step handler exec change p (.env e) ⟨s, p.next, p.flights⟩

/-- What the handler with this number has done. -/
def own (k : ℕ) (es : List (Event Op Res Req Ans Env)) : Trace Op Res :=
  es.filterMap fun
    | .ran j o r => if j = k then some ⟨o, r⟩ else none
    | _ => none

variable {es es' : List (Event Op Res Req Ans Env)} {k j : ℕ} {c : Req} {o : Op} {r : Res o}

theorem mem_before {α : Type} {xs : List α} {x last : α} (h : x ∈ xs ++ [last])
    (hne : x ≠ last) : x ∈ xs :=
  (mem_append.1 h).resolve_right fun hx => hne (mem_singleton.1 hx)

theorem mem_own : (⟨o, r⟩ : (o : Op) × Res o) ∈ own k es ↔ .ran k o r ∈ es := by
  unfold own
  rw [mem_filterMap]
  constructor
  · rintro ⟨e, he, hown⟩
    cases e with
    | ran j o' r' =>
      obtain ⟨rfl, heq⟩ := Option.ite_none_right_eq_some.1 hown
      cases heq
      exact he
    | began | answered | env => cases hown
  · intro he
    exact ⟨.ran k o r, he, if_pos rfl⟩

@[simp] theorem own_append : own k (es ++ es') = own k es ++ own k es' := filterMap_append

@[simp] theorem own_began {a : ℕ} : own k [(.began a c : Event Op Res Req Ans Env)] = [] := rfl

@[simp] theorem own_answered {j : ℕ} {a : Ans} :
    own k [(.answered j a : Event Op Res Req Ans Env)] = [] := rfl

@[simp] theorem own_env {e : Env} : own k [(.env e : Event Op Res Req Ans Env)] = [] := rfl

@[simp] theorem own_ran_self : own k [(.ran k o r : Event Op Res Req Ans Env)] = [⟨o, r⟩] := by
  simp [own]

theorem own_ran_ne (h : j ≠ k) : own k [(.ran j o r : Event Op Res Req Ans Env)] = [] := by
  simp [own, h]

variable {handler : Req → Prog Op Res Ans} {exec : σ → (o : Op) → Res o → σ → Prop}
  {change : σ → Env → σ → Prop} {p q : Pool Op Res Ans σ}

def Begun (handler : Req → Prog Op Res Ans) (es : List (Event Op Res Req Ans Env)) (k : ℕ)
    (prog : Prog Op Res Ans) : Prop :=
  ∃ c, .began k c ∈ es ∧ (handler c).Reaches (own k es) prog

theorem Begun.append {prog : Prog Op Res Ans} (h : Begun handler es k prog)
    (hown : own k es' = []) : Begun handler (es ++ es') k prog := by
  obtain ⟨c, hc, hreach⟩ := h
  refine ⟨c, mem_append_left _ hc, ?_⟩
  rwa [own_append, hown, append_nil]

/-- A number that has not been given out has no history. A handler stands where its own trace has
led it, also when it has answered. -/
structure Booked (handler : Req → Prog Op Res Ans) (es : List (Event Op Res Req Ans Env))
    (p : Pool Op Res Ans σ) : Prop where
  unused : ∀ k, p.next ≤ k → own k es = [] ∧ p.flights k = none ∧
    (∀ c, .began k c ∉ es) ∧ ∀ a, .answered k a ∉ es
  begun : ∀ k prog, p.flights k = some prog → Begun handler es k prog
  answered : ∀ k a, .answered k a ∈ es → p.flights k = none ∧ Begun handler es k (.ret a)
  once : ∀ k c c', .began k c ∈ es → .began k c' ∈ es → c = c'

/-- A pool in which nothing is under way. -/
def Pool.start (s : σ) : Pool Op Res Ans σ := { state := s }

theorem booked_start (s : σ) :
    Booked handler ([] : List (Event Op Res Req Ans Env)) (Pool.start s) where
  unused _ _ := ⟨rfl, rfl, fun _ => not_mem_nil, fun _ => not_mem_nil⟩
  begun _ _ h := nomatch h
  answered _ _ h := absurd h not_mem_nil
  once _ _ _ h := absurd h not_mem_nil

theorem Booked.began (h : Booked handler es p) (c : Req) : Booked handler
    (es ++ [Event.began p.next c] : List (Event Op Res Req Ans Env))
    ⟨p.state, p.next + 1, update p.flights p.next (some (handler c))⟩ := by
  obtain ⟨hown, -, hbegan, hanswered⟩ := h.unused p.next (Nat.le_refl _)
  refine ⟨fun k hk => ?_, fun k prog hprog => ?_, fun k a hk => ?_, fun k c₁ c₂ h₁ h₂ => ?_⟩
  · have hne : k ≠ p.next := by
      change p.next + 1 ≤ k at hk
      omega
    obtain ⟨hown, hflight, hbegan, hanswered⟩ := h.unused k (by change p.next + 1 ≤ k at hk; omega)
    simp [hown, hflight, hbegan, hanswered, hne]
  · dsimp only at hprog
    by_cases hk : k = p.next
    · subst hk
      rw [update_self] at hprog
      cases hprog
      refine ⟨c, mem_append_right _ (mem_singleton_self _), ?_⟩
      rw [own_append, hown]
      exact .nil
    · rw [update_of_ne hk] at hprog
      exact (h.begun k prog hprog).append rfl
  · have hes : (.answered k a : Event Op Res Req Ans Env) ∈ es := by simpa using hk
    obtain ⟨hflight, hbegun⟩ := h.answered k a hes
    have hne : k ≠ p.next := fun heq => hanswered a (heq ▸ hes)
    exact ⟨by rw [← hflight]; exact update_of_ne hne _ _, hbegun.append rfl⟩
  · simp only [mem_append, mem_singleton, Event.began.injEq] at h₁ h₂
    rcases h₁ with h₁ | ⟨rfl, rfl⟩ <;> rcases h₂ with h₂ | ⟨h₂, rfl⟩
    · exact h.once k c₁ c₂ h₁ h₂
    · exact absurd (h₂ ▸ h₁) (hbegan c₁)
    · exact absurd h₂ (hbegan c₂)
    · rfl

theorem Booked.ran {next : Res o → Prog Op Res Ans} (h : Booked handler es p)
    (hk : p.flights k = some (.stmt o next)) (s : σ) : Booked handler
    (es ++ [Event.ran k o r] : List (Event Op Res Req Ans Env))
    ⟨s, p.next, update p.flights k (some (next r))⟩ := by
  have hused : ∀ j, p.next ≤ j → k ≠ j := by
    rintro j hj rfl
    exact Option.some_ne_none _ (hk.symm.trans (h.unused k hj).2.1)
  refine ⟨fun j hj => ?_, fun j prog hprog => ?_, fun j a hj => ?_, fun j c₁ c₂ h₁ h₂ => ?_⟩
  · obtain ⟨hown, hflight, hbegan, hanswered⟩ := h.unused j hj
    simp [hown, hflight, hbegan, hanswered, own_ran_ne (hused j hj), (hused j hj).symm]
  · dsimp only at hprog
    by_cases hjk : j = k
    · subst hjk
      rw [update_self] at hprog
      cases hprog
      obtain ⟨c, hc, hreach⟩ := h.begun j _ hk
      refine ⟨c, mem_append_left _ hc, ?_⟩
      rw [own_append, own_ran_self]
      exact hreach.snoc r
    · rw [update_of_ne hjk] at hprog
      exact (h.begun j prog hprog).append (own_ran_ne (Ne.symm hjk))
  · have hes : (.answered j a : Event Op Res Req Ans Env) ∈ es := by simpa using hj
    obtain ⟨hflight, hbegun⟩ := h.answered j a hes
    have hjk : j ≠ k := by
      rintro rfl
      exact Option.some_ne_none _ (hk.symm.trans hflight)
    refine ⟨?_, hbegun.append (own_ran_ne (Ne.symm hjk))⟩
    rw [← hflight]
    exact update_of_ne hjk _ _
  · simp only [mem_append, mem_singleton, reduceCtorEq, or_false] at h₁ h₂
    exact h.once j c₁ c₂ h₁ h₂

theorem Booked.answer {a : Ans} (h : Booked handler es p) (hk : p.flights k = some (.ret a)) :
    Booked handler (es ++ [Event.answered k a] : List (Event Op Res Req Ans Env))
      ⟨p.state, p.next, update p.flights k none⟩ := by
  have hused : ∀ j, p.next ≤ j → k ≠ j := by
    rintro j hj rfl
    exact Option.some_ne_none _ (hk.symm.trans (h.unused k hj).2.1)
  refine ⟨fun j hj => ?_, fun j prog hprog => ?_, fun j b hj => ?_, fun j c₁ c₂ h₁ h₂ => ?_⟩
  · obtain ⟨hown, hflight, hbegan, hanswered⟩ := h.unused j hj
    simp [hown, hflight, hbegan, hanswered, (hused j hj).symm]
  · dsimp only at hprog
    by_cases hjk : j = k
    · subst hjk
      rw [update_self] at hprog
      cases hprog
    · rw [update_of_ne hjk] at hprog
      exact (h.begun j prog hprog).append rfl
  · by_cases hjk : j = k
    · subst hjk
      refine ⟨update_self _ _ _, ?_⟩
      rcases mem_append.1 hj with hj | hj
      · exact absurd (hk.symm.trans (h.answered j b hj).1) (Option.some_ne_none _)
      · obtain ⟨-, rfl⟩ := Event.answered.inj (mem_singleton.1 hj)
        exact (h.begun j _ hk).append rfl
    · have hes : (.answered j b : Event Op Res Req Ans Env) ∈ es := by simpa [hjk] using hj
      obtain ⟨hflight, hbegun⟩ := h.answered j b hes
      refine ⟨?_, hbegun.append rfl⟩
      rw [← hflight]
      exact update_of_ne hjk _ _
  · simp only [mem_append, mem_singleton, reduceCtorEq, or_false] at h₁ h₂
    exact h.once j c₁ c₂ h₁ h₂

theorem Booked.env {e : Env} (h : Booked handler es p) (s : σ) :
    Booked handler (es ++ [Event.env e] : List (Event Op Res Req Ans Env))
      ⟨s, p.next, p.flights⟩ := by
  refine ⟨fun j hj => ?_, fun j prog hprog => (h.begun j prog hprog).append rfl,
    fun j a hj => ?_, fun j c₁ c₂ h₁ h₂ => ?_⟩
  · simpa using h.unused j hj
  · have hes : (.answered j a : Event Op Res Req Ans Env) ∈ es := by simpa using hj
    obtain ⟨hflight, hbegun⟩ := h.answered j a hes
    exact ⟨hflight, hbegun.append rfl⟩
  · simp only [mem_append, mem_singleton, reduceCtorEq, or_false] at h₁ h₂
    exact h.once j c₁ c₂ h₁ h₂

theorem Booked.step {e : Event Op Res Req Ans Env} (h : Booked handler es p)
    (hstep : Step handler exec change p e q) : Booked handler (es ++ [e]) q := by
  cases hstep with
  | began c => exact h.began c
  | ran hk _ => exact h.ran hk _
  | answered hk => exact h.answer hk
  | env _ => exact h.env _

theorem Run.booked {s : σ} (hrun : Run (Step handler exec change) (Pool.start s) es p) :
    Booked handler es p :=
  hrun.invariant (booked_start s) fun h hstep => h.step hstep

/-- An invariant of the history and the state, from what a handler may have done when it comes to
a statement. -/
theorem Run.tables {Inv : List (Event Op Res Req Ans Env) → σ → Prop} {s : σ}
    (hrun : Run (Step handler exec change) (Pool.start s) es p) (hnil : Inv [] s)
    (hbegan : ∀ {hs t k c}, Inv hs t → Inv (hs ++ [Event.began k c]) t)
    (hran : ∀ {hs t t' k o r next}, Inv hs t → Begun handler hs k (.stmt o next) →
      exec t o r t' → Inv (hs ++ [Event.ran k o r]) t')
    (hanswered : ∀ {hs t k a}, Inv hs t → Inv (hs ++ [Event.answered k a]) t)
    (henv : ∀ {hs t t' e}, Inv hs t → change t e t' → Inv (hs ++ [Event.env e]) t') :
    Inv es p.state := by
  refine (hrun.invariant (I := fun hs q => Booked handler hs q ∧ Inv hs q.state)
    ⟨booked_start s, hnil⟩ ?_).2
  rintro hs a b e ⟨hbook, hinv⟩ hstep
  refine ⟨hbook.step hstep, ?_⟩
  cases hstep with
  | began c => exact hbegan hinv
  | ran hk hexec => exact hran hinv (hbook.begun _ _ hk) hexec
  | answered _ => exact hanswered hinv
  | env hchange => exact henv hinv hchange

theorem Run.keeps {P : σ → Prop} (hrun : Run (Step handler exec change) p es q) (h : P p.state)
    (hran : ∀ {s o r s'}, exec s o r s' → P s → P s')
    (henv : ∀ {s e s'}, change s e s' → P s → P s') : P q.state := by
  refine hrun.invariant (I := fun _ a => P a.state) h fun h hstep => ?_
  cases hstep with
  | began _ => exact h
  | ran _ hexec => exact hran hexec h
  | answered _ => exact h
  | env hchange => exact henv hchange h

theorem Run.answered {s : σ} {a : Ans}
    (hrun : Run (Step handler exec change) (Pool.start s) es p) (ha : .answered k a ∈ es) :
    Begun handler es k (.ret a) :=
  ((Run.booked hrun).answered k a ha).2

theorem Run.executed {s : σ} (hrun : Run (Step handler exec change) (Pool.start s) es p)
    (hran : .ran k o r ∈ es) : ∃ hs ts a b, es = hs ++ Event.ran k o r :: ts ∧
      Run (Step handler exec change) (Pool.start s) hs a ∧
      Step handler exec change a (.ran k o r) b ∧ exec a.state o r b.state := by
  obtain ⟨hs, ts, rfl⟩ := append_of_mem hran
  obtain ⟨a, b, hpre, hstep, -⟩ := hrun.split
  refine ⟨hs, ts, a, b, rfl, hpre, hstep, ?_⟩
  cases hstep with
  | ran _ hexec => exact hexec

theorem Run.stated {s : σ} (hrun : Run (Step handler exec change) (Pool.start s) es p)
    (hran : .ran k o r ∈ es) : ∃ hs next, hs ⊆ es ∧ Begun handler hs k (.stmt o next) := by
  obtain ⟨hs, ts, a, b, rfl, hpre, hstep, -⟩ := Run.executed hrun hran
  cases hstep with
  | ran hk _ => exact ⟨hs, _, subset_append_left _ _, (Run.booked hpre).begun k _ hk⟩

/-- Before it begins, a handler has issued no statement. -/
theorem Run.unstarted {s : σ} {post : List (Event Op Res Req Ans Env)}
    (hrun : Run (Step handler exec change) (Pool.start s) (es ++ post) p)
    (hbegan : .began k c ∈ post) : .ran k o r ∉ es := by
  obtain ⟨xs, ys, rfl⟩ := append_of_mem hbegan
  rw [← List.append_assoc] at hrun
  obtain ⟨a, b, hpre, hstep, -⟩ := hrun.split
  cases hstep
  obtain ⟨hown, -⟩ := (Run.booked hpre).unused a.next (Nat.le_refl _)
  exact fun hmem => absurd (hown ▸ mem_own.2 (mem_append_left _ hmem)) not_mem_nil

theorem Run.silent {s : σ} {a : Ans} {post : List (Event Op Res Req Ans Env)}
    (hrun : Run (Step handler exec change) (Pool.start s) (es ++ Event.answered k a :: post) p) :
    .ran k o r ∉ post := by
  intro hmem
  obtain ⟨xs, ys, rfl⟩ := append_of_mem hmem
  rw [← cons_append, ← List.append_assoc] at hrun
  obtain ⟨b, c, hpre, hstep, -⟩ := hrun.split
  cases hstep with
  | ran hk _ =>
    have hdone : .answered k a ∈ es ++ Event.answered k a :: xs := mem_append_right _ mem_cons_self
    exact Option.some_ne_none _ (hk.symm.trans ((Run.booked hpre).answered k a hdone).1)

theorem Run.later {s : σ} {hs ts post : List (Event Op Res Req Ans Env)}
    (hrun : Run (Step handler exec change) (Pool.start s) (es ++ post) p)
    (hbegan : .began k c ∈ post) (heq : es ++ post = hs ++ Event.ran k o r :: ts) :
    ∃ mid, hs = es ++ mid ∧ mid ⊆ post := by
  rcases append_eq_append_iff.1 heq with ⟨zs, rfl, hzs⟩ | ⟨zs, hzs, hrest⟩
  · exact ⟨zs, rfl, fun e he => hzs ▸ mem_append_left _ he⟩
  · cases zs with
    | nil => exact ⟨[], by simpa using hzs.symm, nil_subset _⟩
    | cons z zs =>
      cases hrest
      exact absurd (hzs ▸ mem_append_right hs mem_cons_self) (Run.unstarted hrun hbegan)

/-- A handler that runs alone, from one state to another. -/
inductive Plays (exec : σ → (o : Op) → Res o → σ → Prop) :
    σ → Prog Op Res Ans → Trace Op Res → σ → Ans → Prop
  | ret {s : σ} {a : Ans} : Plays exec s (.ret a) [] s a
  | stmt {s t u : σ} {o : Op} {next : Res o → Prog Op Res Ans} {r : Res o}
      {xs : Trace Op Res} {a : Ans} : exec s o r t → Plays exec t (next r) xs u a →
      Plays exec s (.stmt o next) (⟨o, r⟩ :: xs) u a

def alone (k : ℕ) (c : Req) (xs : Trace Op Res) (a : Ans) : List (Event Op Res Req Ans Env) :=
  .began k c :: (xs.map fun x => .ran k x.1 x.2) ++ [.answered k a]

theorem mem_alone {xs : Trace Op Res} {a : Ans} :
    (.answered k a : Event Op Res Req Ans Env) ∈ es ++ alone k c xs a :=
  mem_append_right _ (mem_append_right _ (mem_singleton_self _))

theorem Plays.run {s t : σ} {prog : Prog Op Res Ans} {xs : Trace Op Res} {a : Ans}
    (h : Plays exec s prog xs t a) {n : ℕ} {fl : ℕ → Option (Prog Op Res Ans)}
    (hfl : fl k = some prog) : ∃ fl', fl' k = none ∧
      Run (Step handler exec change) ⟨s, n, fl⟩
        ((xs.map fun x => .ran k x.1 x.2) ++ [Event.answered k a]) ⟨t, n, fl'⟩ := by
  induction h generalizing fl with
  | ret => exact ⟨_, update_self _ _ _, (Run.nil).snoc (.answered hfl)⟩
  | stmt hexec _ ih =>
    obtain ⟨fl', hnone, hrun⟩ := ih (update_self k _ fl)
    exact ⟨fl', hnone, hrun.cons (.ran hfl hexec)⟩

theorem Plays.serve {s t : σ} {xs : Trace Op Res} {a : Ans}
    (hrun : Run (Step handler exec change) (Pool.start s) es p)
    (h : Plays exec p.state (handler c) xs t a) :
    ∃ fl, Run (Step handler exec change) (Pool.start s) (es ++ alone p.next c xs a)
      ⟨t, p.next + 1, fl⟩ := by
  have hmore : ∃ fl, fl p.next = none ∧ Run (Step handler exec change)
      ⟨p.state, p.next + 1, update p.flights p.next (some (handler c))⟩
      ((xs.map fun x => .ran p.next x.1 x.2) ++ [Event.answered p.next a]) ⟨t, p.next + 1, fl⟩ :=
    h.run (update_self _ _ _)
  obtain ⟨fl, -, hmore⟩ := hmore
  exact ⟨fl, hrun.append (hmore.cons (.began c))⟩

/-- Some statements of a handler, with nothing else in between. -/
inductive Advances (exec : σ → (o : Op) → Res o → σ → Prop) :
    σ → Prog Op Res Ans → Trace Op Res → σ → Prog Op Res Ans → Prop
  | nil {s : σ} {prog : Prog Op Res Ans} : Advances exec s prog [] s prog
  | stmt {s t u : σ} {o : Op} {next : Res o → Prog Op Res Ans} {r : Res o} {xs : Trace Op Res}
      {rest : Prog Op Res Ans} : exec s o r t → Advances exec t (next r) xs u rest →
      Advances exec s (.stmt o next) (⟨o, r⟩ :: xs) u rest

/-- The other handlers stand where they stood. -/
theorem Advances.run {s t : σ} {prog rest : Prog Op Res Ans} {xs : Trace Op Res}
    (h : Advances exec s prog xs t rest) {n : ℕ} {fl : ℕ → Option (Prog Op Res Ans)}
    (hfl : fl k = some prog) : Run (Step handler exec change) ⟨s, n, fl⟩
      (xs.map fun x => .ran k x.1 x.2) ⟨t, n, update fl k (some rest)⟩ := by
  induction h generalizing fl with
  | nil =>
    rw [← hfl, update_eq_self]
    exact .nil
  | stmt hexec _ ih =>
    have hrest := ih (update_self k _ fl)
    rw [update_idem] at hrest
    exact hrest.cons (.ran hfl hexec)

end

end Signari.StatementPrograms
