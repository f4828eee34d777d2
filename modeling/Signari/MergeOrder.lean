import Signari.IndexedChecks
import Signari.KeyedMaps

/-!
# Merges in any order

A merge that may fail, and a relation that says when two values count as the same.

Three constructions keep it. A merge that reads its values as elements of a commutative
semigroup commutes (`Reading.commutes`), with failures where the result is not good any more; so
does the merge of two maps key by key (`Commutes.mergeInto`); and so does a merge followed by a
check that holds of a value whenever it holds of what the value is merged to
(`Commutes.checked`).
-/
namespace Signari.MergeOrder
open IndexedChecks KeyedMaps List

section
variable {ε α β : Type} {R : α → α → Prop} {x y z : Except ε α}

/-- Both fail, or both return, with related values. -/
def Agree (R : α → α → Prop) : Except ε α → Except ε α → Prop
  | .ok a, .ok b => R a b
  | .error _, .error _ => True
  | _, _ => False

theorem agree_iff : Agree R x y ↔
    (∀ a, x = .ok a → ∃ b, y = .ok b ∧ R a b) ∧ ∀ b, y = .ok b → ∃ a, x = .ok a ∧ R a b := by
  cases x with
  | error e => cases y <;> simp [Agree]
  | ok a => cases y <;> simp [Agree]

theorem Agree.refl (h : Equivalence R) (x : Except ε α) : Agree R x x := by
  cases x with
  | error e => trivial
  | ok a => exact h.refl a

theorem Agree.trans (h : Equivalence R) (hxy : Agree R x y) (hyz : Agree R y z) : Agree R x z := by
  rw [agree_iff] at hxy hyz ⊢
  constructor
  · intro a ha
    obtain ⟨b, hb, hab⟩ := hxy.1 a ha
    obtain ⟨c, hc, hbc⟩ := hyz.1 b hb
    exact ⟨c, hc, h.trans hab hbc⟩
  · intro c hc
    obtain ⟨b, hb, hbc⟩ := hyz.2 c hc
    obtain ⟨a, ha, hab⟩ := hxy.2 b hb
    exact ⟨a, ha, h.trans hab hbc⟩

/-- It is enough that each success has its counterpart, both ways round. -/
theorem Agree.of_imp (h : Equivalence R) (hxy : ∀ a, x = .ok a → ∃ b, y = .ok b ∧ R a b)
    (hyx : ∀ b, y = .ok b → ∃ a, x = .ok a ∧ R b a) : Agree R x y := by
  refine agree_iff.mpr ⟨hxy, ?_⟩
  intro b hb
  obtain ⟨a, ha, hba⟩ := hyx b hb
  exact ⟨a, ha, h.symm hba⟩

theorem Agree.bind {S : β → β → Prop} {f g : α → Except ε β} (h : Agree R x y)
    (hfg : ∀ a b, R a b → Agree S (f a) (g b)) : Agree S (x >>= f) (y >>= g) := by
  cases x with
  | error e =>
    cases y with
    | error e' => trivial
    | ok b => exact h.elim
  | ok a =>
    cases y with
    | error e => exact h.elim
    | ok b => exact hfg a b h

end

section
variable {ε σ α : Type} {R : σ → σ → Prop} {step : σ → α → Except ε σ}

theorem foldlM_congr (hcongr : ∀ s s' a, R s s' → Agree R (step s a) (step s' a)) (l : List α)
    {s s' : σ} (hs : R s s') : Agree R (l.foldlM step s) (l.foldlM step s') := by
  induction l generalizing s s' with
  | nil => exact hs
  | cons a l ih =>
    rw [foldlM_cons, foldlM_cons]
    exact (hcongr s s' a hs).bind fun t t' ht => ih ht

theorem foldlM_perm (h : Equivalence R) (hcongr : ∀ s s' a, R s s' → Agree R (step s a) (step s' a))
    (hswap : ∀ s a b, Agree R (step s a >>= fun t => step t b) (step s b >>= fun t => step t a))
    {l l' : List α} (hp : l.Perm l') (s : σ) : Agree R (l.foldlM step s) (l'.foldlM step s) := by
  induction hp generalizing s with
  | nil => exact Agree.refl h _
  | cons a _ ih =>
    rw [foldlM_cons, foldlM_cons]
    exact (Agree.refl h _).bind fun t t' ht =>
      (foldlM_congr hcongr _ ht).trans h (ih t')
  | swap a b l =>
    simp only [foldlM_cons, ← bind_assoc]
    exact (hswap s b a).bind fun t t' ht => foldlM_congr hcongr l ht
  | trans _ _ ih₁ ih₂ => exact (ih₁ s).trans h (ih₂ s)

end

section
variable {ε α β : Type} {R : α → α → Prop} {merge : α → α → Except ε α}

/-- A merge that is indifferent to order, up to a relation. -/
structure Commutes (R : α → α → Prop) (merge : α → α → Except ε α) : Prop where
  equiv : Equivalence R
  congr : ∀ {a a' b b'}, R a a' → R b b' → Agree R (merge a b) (merge a' b')
  comm : ∀ a b, Agree R (merge a b) (merge b a)
  swap : ∀ s a b, Agree R (merge s a >>= fun t => merge t b) (merge s b >>= fun t => merge t a)

/-- How a merge reads its values: as elements of a commutative semigroup, some of which are good.
It succeeds on values that can be read and whose product is good. -/
structure Reading (R : α → α → Prop) (merge : α → α → Except ε α) (view : α → Option β)
    (op : β → β → β) (good : β → Prop) : Prop where
  equiv : Equivalence R
  related : ∀ {a b}, R a b → view a = view b
  relates : ∀ {a b x}, view a = some x → view b = some x → R a b
  comm : ∀ x y, op x y = op y x
  assoc : ∀ x y z, op (op x y) z = op x (op y z)
  good_left : ∀ {x y}, good (op x y) → good x
  merged : ∀ {a b v}, merge a b = .ok v →
    ∃ x y, view a = some x ∧ view b = some y ∧ good (op x y) ∧ view v = some (op x y)
  merges : ∀ {a b x y}, view a = some x → view b = some y → good (op x y) → ∃ v, merge a b = .ok v

section
variable {view : α → Option β} {op : β → β → β} {good : β → Prop}

theorem Reading.merges_eq (h : Reading R merge view op good) {a b : α} {x y : β}
    (ha : view a = some x) (hb : view b = some y) (hgood : good (op x y)) :
    ∃ v, merge a b = .ok v ∧ view v = some (op x y) := by
  obtain ⟨v, hv⟩ := h.merges ha hb hgood
  obtain ⟨x', y', ha', hb', -, hview⟩ := h.merged hv
  obtain rfl : x = x' := by simpa [ha] using ha'
  obtain rfl : y = y' := by simpa [hb] using hb'
  exact ⟨v, hv, hview⟩

theorem Reading.swap_ok (h : Reading R merge view op good) {s a b v : α}
    (hv : (merge s a >>= fun t => merge t b) = .ok v) :
    ∃ w, (merge s b >>= fun t => merge t a) = .ok w ∧ R v w := by
  rw [bind_ok] at hv
  obtain ⟨t, ht, hv⟩ := hv
  obtain ⟨x, y, hs, ha, -, ht'⟩ := h.merged ht
  obtain ⟨xy, z, hxy, hb, hgood, hv'⟩ := h.merged hv
  obtain rfl : op x y = xy := by simpa [ht'] using hxy
  have hprod : op (op x y) z = op (op x z) y := by
    rw [h.assoc, h.comm y z, ← h.assoc]
  rw [hprod] at hgood hv'
  obtain ⟨u, hu, hu'⟩ := h.merges_eq hs hb (h.good_left hgood)
  obtain ⟨w, hw, hw'⟩ := h.merges_eq hu' ha hgood
  exact ⟨w, bind_ok.mpr ⟨u, hu, hw⟩, h.relates hv' hw'⟩

theorem Reading.commutes (h : Reading R merge view op good) : Commutes R merge where
  equiv := h.equiv
  congr := by
    have himp : ∀ {a a' b b'}, R a a' → R b b' → ∀ v, merge a b = .ok v →
        ∃ w, merge a' b' = .ok w ∧ R v w := by
      intro a a' b b' ha hb v hv
      obtain ⟨x, y, hx, hy, hgood, hv'⟩ := h.merged hv
      obtain ⟨w, hw, hw'⟩ := h.merges_eq ((h.related ha).symm.trans hx)
        ((h.related hb).symm.trans hy) hgood
      exact ⟨w, hw, h.relates hv' hw'⟩
    intro a a' b b' ha hb
    exact .of_imp h.equiv (himp ha hb) (himp (h.equiv.symm ha) (h.equiv.symm hb))
  comm := by
    have himp : ∀ a b v, merge a b = .ok v → ∃ w, merge b a = .ok w ∧ R v w := by
      intro a b v hv
      obtain ⟨x, y, hx, hy, hgood, hv'⟩ := h.merged hv
      rw [h.comm] at hgood hv'
      obtain ⟨w, hw, hw'⟩ := h.merges_eq hy hx hgood
      exact ⟨w, hw, h.relates hv' hw'⟩
    intro a b
    exact .of_imp h.equiv (himp a b) (himp b a)
  swap := fun s a b => .of_imp h.equiv (fun _ => h.swap_ok) (fun _ => h.swap_ok)

end

def checkedMerge (merge : α → α → Except ε α) (check : α → Except ε Unit) (a b : α) :
    Except ε α := do
  let v ← merge a b
  check v
  .ok v

theorem checkedMerge_ok {check : α → Except ε Unit} {a b v : α} :
    checkedMerge merge check a b = .ok v ↔ merge a b = .ok v ∧ check v = .ok () := by
  simp only [checkedMerge, bind_ok, Except.ok.injEq]
  constructor
  · rintro ⟨w, hw, _, hc, rfl⟩
    exact ⟨hw, hc⟩
  · rintro ⟨hv, hc⟩
    exact ⟨v, hv, (), hc, rfl⟩

theorem Commutes.checked {check : α → Except ε Unit} (h : Commutes R merge)
    (hrel : ∀ {a b}, R a b → check a = .ok () → check b = .ok ())
    (hmono : ∀ {a b v}, merge a b = .ok v → check v = .ok () → check a = .ok ()) :
    Commutes R (checkedMerge merge check) where
  equiv := h.equiv
  congr := by
    have himp : ∀ {a a' b b'}, R a a' → R b b' → ∀ v, checkedMerge merge check a b = .ok v →
        ∃ w, checkedMerge merge check a' b' = .ok w ∧ R v w := by
      intro a a' b b' ha hb v hv
      obtain ⟨hv, hc⟩ := checkedMerge_ok.mp hv
      obtain ⟨w, hw, hvw⟩ := (agree_iff.mp (h.congr ha hb)).1 v hv
      exact ⟨w, checkedMerge_ok.mpr ⟨hw, hrel hvw hc⟩, hvw⟩
    intro a a' b b' ha hb
    exact .of_imp h.equiv (himp ha hb) (himp (h.equiv.symm ha) (h.equiv.symm hb))
  comm := by
    have himp : ∀ a b v, checkedMerge merge check a b = .ok v →
        ∃ w, checkedMerge merge check b a = .ok w ∧ R v w := by
      intro a b v hv
      obtain ⟨hv, hc⟩ := checkedMerge_ok.mp hv
      obtain ⟨w, hw, hvw⟩ := (agree_iff.mp (h.comm a b)).1 v hv
      exact ⟨w, checkedMerge_ok.mpr ⟨hw, hrel hvw hc⟩, hvw⟩
    intro a b
    exact .of_imp h.equiv (himp a b) (himp b a)
  swap := by
    have himp : ∀ s a b v,
        (checkedMerge merge check s a >>= fun t => checkedMerge merge check t b) = .ok v →
        ∃ w, (checkedMerge merge check s b >>= fun t => checkedMerge merge check t a) =
          .ok w ∧ R v w := by
      intro s a b v hv
      simp only [bind_ok, checkedMerge_ok] at hv ⊢
      obtain ⟨t, ⟨ht, -⟩, hv, hc⟩ := hv
      obtain ⟨w, hw, hvw⟩ := (agree_iff.mp (h.swap s a b)).1 v (bind_ok.mpr ⟨t, ht, hv⟩)
      obtain ⟨u, hu, hw⟩ := bind_ok.mp hw
      have hcw := hrel hvw hc
      exact ⟨w, ⟨u, ⟨hu, hmono hw hcw⟩, hw, hcw⟩, hvw⟩
    intro s a b
    exact .of_imp h.equiv (himp s a b) (himp s b a)

def mergeAt (merge : α → α → Except ε α) : Option α → Option α → Except ε (Option α)
  | cur, none => .ok cur
  | none, some n => .ok (some n)
  | some c, some n => (merge c n).map some

theorem mergeAt_none (cur : Option α) : mergeAt merge cur none = .ok cur := by
  cases cur <;> rfl

theorem mergeAt_bind_none (x : Except ε (Option α)) :
    (x >>= fun t => mergeAt merge t none) = x := by
  simp only [mergeAt_none]
  cases x <;> rfl

theorem equivalence_rel (h : Equivalence R) : Equivalence (Option.Rel R) where
  refl o := by
    cases o with
    | none => exact .none
    | some a => exact .some (h.refl a)
  symm hab := by
    cases hab with
    | none => exact .none
    | some hab => exact .some (h.symm hab)
  trans hab hbc := by
    cases hab with
    | none => exact hbc
    | some hab =>
      cases hbc with
      | some hbc => exact .some (h.trans hab hbc)

theorem Agree.map_some {x y : Except ε α} (h : Agree R x y) :
    Agree (Option.Rel R) (x.map some) (y.map some) := by
  cases x with
  | error e =>
    cases y with
    | error e' => trivial
    | ok b => exact h.elim
  | ok a =>
    cases y with
    | error e => exact h.elim
    | ok b => exact .some h

theorem map_bind_mergeAt (x : Except ε α) (b : α) :
    (x.map some >>= fun t => mergeAt merge t (some b)) = (x >>= fun t => merge t b).map some := by
  cases x <;> rfl

theorem Commutes.mergeAt (h : Commutes R merge) : Commutes (Option.Rel R) (mergeAt merge) where
  equiv := equivalence_rel h.equiv
  congr := by
    intro a a' b b' ha hb
    cases hb with
    | none => exact ha
    | some hb =>
      cases ha with
      | none => exact .some hb
      | some ha => exact (h.congr ha hb).map_some
  comm a b := by
    cases a with
    | none =>
      cases b with
      | none => exact .none
      | some b => exact .some (h.equiv.refl b)
    | some a =>
      cases b with
      | none => exact .some (h.equiv.refl a)
      | some b => exact (h.comm a b).map_some
  swap s a b := by
    have hrefl : ∀ x : Except ε (Option α), Agree (Option.Rel R) x x :=
      Agree.refl (equivalence_rel h.equiv)
    cases a with
    | none =>
      rw [mergeAt_bind_none, mergeAt_none]
      exact hrefl _
    | some a =>
      cases b with
      | none =>
        rw [mergeAt_bind_none, mergeAt_none]
        exact hrefl _
      | some b =>
        cases s with
        | none => exact (h.comm a b).map_some
        | some s =>
          change Agree _ ((merge s a).map some >>= _) ((merge s b).map some >>= _)
          rw [map_bind_mergeAt, map_bind_mergeAt]
          exact (h.swap s a b).map_some

end

section
variable {κ α ε : Type} [DecidableEq κ] {R : κ → α → α → Prop} {name : κ → String}
  {merge : κ → α → α → Except ε α}

/-- The same keys, with related values. -/
def MapRel (R : κ → α → α → Prop) (m m' : Map κ α) : Prop :=
  ∀ k, Option.Rel (R k) (m.lookup k) (m'.lookup k)

theorem equivalence_mapRel (h : ∀ k, Equivalence (R k)) : Equivalence (MapRel R) where
  refl _ k := (equivalence_rel (h k)).refl _
  symm hm k := (equivalence_rel (h k)).symm (hm k)
  trans hm hn k := (equivalence_rel (h k)).trans (hm k) (hn k)

/-- What computes a map is given by what it computes under each key. -/
structure KeyByKey (x : Except ε (Map κ α)) (f : κ → Except ε (Option α)) : Prop where
  lookup : ∀ {m}, x = .ok m → ∀ k, f k = .ok (m.lookup k)
  exists_ok : (∀ k, ∃ o, f k = .ok o) → ∃ m, x = .ok m

theorem keyByKey_mergeInto (current next : Map κ α) :
    KeyByKey (mergeInto name merge current next) fun k =>
      mergeAt (merge k) (current.lookup k) (next.lookup k) where
  lookup := by
    intro m hm k
    have hk := mergeInto_merged hm k
    generalize current.lookup k = c, next.lookup k = n, m.lookup k = o at hk ⊢
    cases hk with
    | kept => exact mergeAt_none _
    | copied nv => rfl
    | combined cv nv v h => simp [mergeAt, h, Except.map]
  exists_ok := by
    intro h
    apply mergeInto_exists
    intro k cv nv hc hn
    obtain ⟨o, ho⟩ := h k
    rw [hc, hn] at ho
    cases hm : merge k cv nv with
    | error e => simp [mergeAt, hm, Except.map] at ho
    | ok v => exact ⟨v, rfl⟩

theorem KeyByKey.mergeInto {x : Except ε (Map κ α)} {f : κ → Except ε (Option α)}
    (h : KeyByKey x f) (next : Map κ α) :
    KeyByKey (x >>= fun m => mergeInto name merge m next) fun k =>
      f k >>= fun o => mergeAt (merge k) o (next.lookup k) where
  lookup := by
    intro m hm k
    obtain ⟨m₁, hx, hm⟩ := bind_ok.mp hm
    exact bind_ok.mpr ⟨_, h.lookup hx k, (keyByKey_mergeInto m₁ next).lookup hm k⟩
  exists_ok := by
    intro hall
    have hf : ∀ k, ∃ o, f k = .ok o := by
      intro k
      obtain ⟨_, ho⟩ := hall k
      obtain ⟨o, ho, -⟩ := bind_ok.mp ho
      exact ⟨o, ho⟩
    obtain ⟨m₁, hx⟩ := h.exists_ok hf
    have hnext : ∀ k, ∃ o, mergeAt (merge k) (m₁.lookup k) (next.lookup k) = .ok o := by
      intro k
      obtain ⟨o, ho⟩ := hall k
      obtain ⟨o₁, ho₁, ho⟩ := bind_ok.mp ho
      obtain rfl : m₁.lookup k = o₁ := by simpa [h.lookup hx k] using ho₁
      exact ⟨o, ho⟩
    obtain ⟨m, hm⟩ := (keyByKey_mergeInto m₁ next).exists_ok hnext
    exact ⟨m, bind_ok.mpr ⟨m₁, hx, hm⟩⟩

theorem KeyByKey.agree {x y : Except ε (Map κ α)} {f g : κ → Except ε (Option α)}
    (hx : KeyByKey x f) (hy : KeyByKey y g) (h : ∀ k, Agree (Option.Rel (R k)) (f k) (g k)) :
    Agree (MapRel R) x y := by
  refine agree_iff.mpr ⟨?_, ?_⟩
  · intro m hm
    have hg : ∀ k, ∃ o, g k = .ok o ∧ Option.Rel (R k) (m.lookup k) o :=
      fun k => (agree_iff.mp (h k)).1 _ (hx.lookup hm k)
    obtain ⟨m', hm'⟩ := hy.exists_ok fun k => ⟨_, (hg k).choose_spec.1⟩
    refine ⟨m', hm', ?_⟩
    intro k
    obtain ⟨o, ho, hrel⟩ := hg k
    obtain rfl : m'.lookup k = o := by simpa [hy.lookup hm' k] using ho
    exact hrel
  · intro m hm
    have hf : ∀ k, ∃ o, f k = .ok o ∧ Option.Rel (R k) o (m.lookup k) :=
      fun k => (agree_iff.mp (h k)).2 _ (hy.lookup hm k)
    obtain ⟨m', hm'⟩ := hx.exists_ok fun k => ⟨_, (hf k).choose_spec.1⟩
    refine ⟨m', hm', ?_⟩
    intro k
    obtain ⟨o, ho, hrel⟩ := hf k
    obtain rfl : m'.lookup k = o := by simpa [hx.lookup hm' k] using ho
    exact hrel

theorem Commutes.mergeInto (h : ∀ k, Commutes (R k) (merge k)) :
    Commutes (MapRel R) (mergeInto name merge) where
  equiv := equivalence_mapRel fun k => (h k).equiv
  congr := by
    intro a a' b b' ha hb
    exact (keyByKey_mergeInto a b).agree (keyByKey_mergeInto a' b') fun k =>
      (h k).mergeAt.congr (ha k) (hb k)
  comm a b := (keyByKey_mergeInto a b).agree (keyByKey_mergeInto b a) fun k =>
    (h k).mergeAt.comm _ _
  swap s a b := ((keyByKey_mergeInto s a).mergeInto b).agree
    ((keyByKey_mergeInto s b).mergeInto a) fun k => (h k).mergeAt.swap _ _ _

end

section
variable {ε α : Type} {R : α → α → Prop} {merge : α → α → Except ε α}

def mergeAll (merge : α → α → Except ε α) (l : List α) : Except ε (Option α) :=
  l.foldlM (fun cur a => mergeAt merge cur (some a)) none

theorem Commutes.mergeAll_perm (h : Commutes R merge) {l l' : List α} (hp : l.Perm l') :
    Agree (Option.Rel R) (mergeAll merge l) (mergeAll merge l') :=
  foldlM_perm h.mergeAt.equiv (fun _ _ a hs => h.mergeAt.congr hs (.some (h.equiv.refl a)))
    (fun s a b => h.mergeAt.swap s (some a) (some b)) hp none

end

end Signari.MergeOrder
