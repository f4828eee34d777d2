import Signari.GoStrings

/-!
# The token walk over an undecoded document

`NoDuplicateKeys` reads a document token by token, before anything has decoded it, and
leaves a malformed one to the caller's decode. `json.Decoder` is an argument: a state, the
bytes not read yet, and `Token`; `Documented` is what the walk relies on. `More` looks at
the next byte that is not white space.

The object loop ends when `Token` fails. The array loop asks `More` alone, and the element it walks
returns nil on a failing `Token` without reading anything, so the loop comes back to the byte it
started from. The walk therefore returns on a document exactly when no array is open where `Token`
fails in front of a byte other than a closing bracket.
-/
namespace Signari.JsonTokenWalk
open GoStrings

/-- `json.Token`: a delimiter, a string, or another scalar, of which nothing is read. -/
inductive Token where
  | openArray
  | closeArray
  | openObject
  | closeObject
  | str (s : String)
  | scalar

/-- `tok.(string)`, which is empty for a token that is not a string. -/
def Token.name : Token → String
  | .str s => s
  | _ => ""

def Token.closes : Token → Bool
  | .closeArray => true
  | .closeObject => true
  | _ => false

/-- A `json.Decoder` over a document: `NewDecoder`, what it has not read, and `Token`, whose
error is not looked at. -/
structure Decoder (S : Type) where
  start : List UInt8 → S
  rest : S → List UInt8
  token : S → Option Token × S

variable {S : Type} {d : Decoder S}

/-- White space between tokens: space, tab, newline and carriage return. -/
def isSpace (b : UInt8) : Bool := b == 32 || b == 9 || b == 10 || b == 13

/-- The next byte that is not white space exists and is neither `]` nor `}`. -/
def goesOn (rest : List UInt8) : Bool := match rest.dropWhile isSpace with
  | [] => false
  | b :: _ => b != 93 && b != 125

/-- `dec.More()`. -/
def Decoder.more (d : Decoder S) (s : S) : Bool := goesOn (d.rest s)

/-- What is documented of `Token`: it reads at least a byte of what it returns, it returns a
closing delimiter exactly where `More` says no, and failing it fails again at the place it
stopped at. A failing `Token` that reads nothing at all is a case of this. -/
structure Documented (d : Decoder S) : Prop where
  start_rest : ∀ body, d.rest (d.start body) = body
  reads : ∀ {s t s'}, d.token s = (some t, s') → (d.rest s').length < (d.rest s).length
  closing : ∀ {s t s'}, d.token s = (some t, s') → (t.closes = true ↔ d.more s = false)
  stops : ∀ {s s'}, d.token s = (none, s') → d.token s' = (none, s')
  stays : ∀ {s s'}, d.token s = (none, s') →
    (d.rest s').length ≤ (d.rest s).length ∧ (d.more s' = true → d.more s = true)

def repeatedName (path : List String) (key : String) : String :=
  (if path = [] then "the document" else String.intercalate "." path) ++ " names " ++
    quote key ++ " more than once; which one applies depends on the parser, so this has " ++
    "no single meaning"

mutual

/-- `walk`; the result is the error and the decoder as it is left, none when the fuel runs
out. -/
def walk (d : Decoder S) : ℕ → List String → S → Option (Option String × S)
  | 0, _, _ => none
  | n + 1, path, s =>
    match d.token s with
    | (none, s') => some (none, s')
    | (some .openObject, s') => members d n path [] s'
    | (some .openArray, s') => elements d n path s'
    | (some _, s') => some (none, s')

/-- The loop of the object case, with the names seen so far. -/
def members (d : Decoder S) : ℕ → List String → List String → S → Option (Option String × S)
  | 0, _, _, _ => none
  | n + 1, path, seen, s =>
    if d.more s then
      match d.token s with
      | (none, s') => some (none, s')
      | (some t, s') =>
        if t.name ∈ seen then some (some (repeatedName path t.name), s')
        else match walk d n (path ++ [t.name]) s' with
          | none => none
          | some (some e, s'') => some (some e, s'')
          | some (none, s'') => members d n path (t.name :: seen) s''
    else some (none, (d.token s).2)

/-- The loop of the array case. -/
def elements (d : Decoder S) : ℕ → List String → S → Option (Option String × S)
  | 0, _, _ => none
  | n + 1, path, s =>
    if d.more s then
      match walk d n path s with
      | none => none
      | some (some e, s') => some (some e, s')
      | some (none, s') => elements d n path s'
    else some (none, (d.token s).2)

end

/-- `NoDuplicateKeys`, the error being nil when every name of an object is given once. -/
def noDuplicateKeys (d : Decoder S) (fuel : ℕ) (body : List UInt8) : Option (Option String) :=
  (walk d fuel [] (d.start body)).map Prod.fst

/-- What is open around a place in a document: the document itself until its value has been
read, an array, an object with the names it has given, or a member whose value is due. -/
inductive Frame where
  | document
  | array
  | object (seen : List String)
  | member (seen : List String)

/-- The brackets open after a token that starts a value. -/
def begun (t : Token) (fs : List Frame) : List Frame := match t with
  | .openArray => .array :: fs
  | .openObject => .object [] :: fs
  | _ => fs

/-- The brackets open after one more token; none after the document's value and at a name
given twice. -/
def feed : List Frame → Token → Option (List Frame)
  | [], _ => none
  | .document :: fs, t => some (begun t fs)
  | .array :: fs, t => if t.closes then some fs else some (begun t (.array :: fs))
  | .object seen :: fs, t =>
    if t.closes then some fs
    else if t.name ∈ seen then none
    else some (.member (t.name :: seen) :: fs)
  | .member seen :: fs, t => some (begun t (.object seen :: fs))

/-- Reading token after token from one place in a document to a later one. -/
inductive Reads (d : Decoder S) : List Frame → S → List Frame → S → Prop
  | refl (fs : List Frame) (s : S) : Reads d fs s fs s
  | step {fs fs₁ fs' : List Frame} {s s₁ s' : S} {t : Token} :
      d.token s = (some t, s₁) → feed fs t = some fs₁ → Reads d fs₁ s₁ fs' s' →
      Reads d fs s fs' s'

/-- The tokens that can be read from here on end in front of a byte that closes nothing,
inside an array. -/
def JamsFrom (d : Decoder S) (fs : List Frame) (s : S) : Prop :=
  ∃ fs' s' s'', Reads d fs s fs' s' ∧ .array ∈ fs' ∧ d.token s' = (none, s'') ∧ d.more s'' = true

/-- The document's tokens end in front of a byte that closes nothing, inside an array. -/
def Jams (d : Decoder S) (body : List UInt8) : Prop := JamsFrom d [.document] (d.start body)

/-- A value is due, and the brackets open once it has been read. -/
inductive Due (d : Decoder S) (s : S) : List Frame → List Frame → Prop
  | document (fs : List Frame) : Due d s (.document :: fs) fs
  | array (fs : List Frame) : d.more s = true → Due d s (.array :: fs) (.array :: fs)
  | member (seen : List String) (fs : List Frame) :
      Due d s (.member seen :: fs) (.object seen :: fs)

theorem Due.array_mem {s : S} {fs gs : List Frame} (hd : Due d s fs gs) :
    .array ∈ fs ↔ .array ∈ gs := by
  cases hd <;> simp

theorem Due.feed (law : Documented d) {s s' : S} {fs gs : List Frame} {t : Token}
    (hd : Due d s fs gs) (ht : d.token s = (some t, s')) :
    feed fs t = some (begun t gs) := by
  cases hd with
  | document => rfl
  | member => rfl
  | array fs hmore =>
    have hopen : ¬t.closes = true := by
      intro hc
      rw [(law.closing ht).mp hc] at hmore
      cases hmore
    simp [JsonTokenWalk.feed, hopen]

theorem jamsFrom_fail {fs : List Frame} {s s' : S} (ht : d.token s = (none, s')) :
    JamsFrom d fs s ↔ .array ∈ fs ∧ d.more s' = true := by
  constructor
  · intro hj
    obtain ⟨fs', s₁, s₂, hr, ha, hf, hm⟩ := hj
    cases hr with
    | refl =>
      rw [ht] at hf
      obtain rfl := congrArg Prod.snd hf
      exact ⟨ha, hm⟩
    | step hs => exact absurd (ht.symm.trans hs) (by simp)
  · intro h
    exact ⟨fs, s, s', .refl fs s, h.1, ht, h.2⟩

theorem jamsFrom_step {fs : List Frame} {s s₁ : S} {t : Token} (ht : d.token s = (some t, s₁)) :
    JamsFrom d fs s ↔ ∃ fs₁, feed fs t = some fs₁ ∧ JamsFrom d fs₁ s₁ := by
  constructor
  · intro hj
    obtain ⟨fs', s', s'', hr, ha, hf, hm⟩ := hj
    cases hr with
    | refl => exact absurd (ht.symm.trans hf) (by simp)
    | step hs hfeed hr =>
      rw [ht] at hs
      cases hs
      exact ⟨_, hfeed, _, _, _, hr, ha, hf, hm⟩
  · intro h
    obtain ⟨fs₁, hfeed, fs', s', s'', hr, ha, hf, hm⟩ := h
    exact ⟨fs', s', s'', .step ht hfeed hr, ha, hf, hm⟩

/-- Past a failing token only the brackets that stay open matter. -/
theorem jamsFrom_stopped (law : Documented d) {fs gs : List Frame} {s s' : S}
    (ht : d.token s = (none, s')) (hfs : .array ∈ fs ↔ .array ∈ gs) :
    JamsFrom d fs s ↔ JamsFrom d gs s' := by
  rw [jamsFrom_fail ht, jamsFrom_fail (law.stops ht), hfs]

/-- At the end of an array or an object, whatever `Token` then says. -/
theorem jamsFrom_closed (law : Documented d) {f : Frame} {fs : List Frame} {s : S}
    (hf : f = .array ∨ ∃ seen, f = .object seen) (hmore : d.more s = false) :
    JamsFrom d (f :: fs) s ↔ JamsFrom d fs (d.token s).2 := by
  obtain ⟨t, s', ht⟩ : ∃ t s', d.token s = (t, s') := ⟨_, _, rfl⟩
  rw [ht]
  cases t with
  | none =>
    have hstill : ¬d.more s' = true := by
      intro h
      rw [(law.stays ht).2 h] at hmore
      cases hmore
    rw [jamsFrom_fail ht, jamsFrom_fail (law.stops ht)]
    simp [hstill]
  | some t =>
    have hcloses := (law.closing ht).mpr hmore
    rw [jamsFrom_step ht]
    obtain rfl | ⟨seen, rfl⟩ := hf <;> simp [feed, hcloses]

/-- What is known of a call that has come back: the document jams from where the call began
exactly when no error was found and it jams from where the call left the decoder. -/
structure Follows (d : Decoder S) (n : ℕ) : Prop where
  walk : ∀ {path s r s' fs gs}, Due d s fs gs → walk d n path s = some (r, s') →
    (JamsFrom d fs s ↔ r = none ∧ JamsFrom d gs s')
  members : ∀ {path seen s r s' fs}, members d n path seen s = some (r, s') →
    (JamsFrom d (.object seen :: fs) s ↔ r = none ∧ JamsFrom d fs s')
  elements : ∀ {path s r s' fs}, elements d n path s = some (r, s') →
    (JamsFrom d (.array :: fs) s ↔ r = none ∧ JamsFrom d fs s')

theorem Follows.walk_succ (law : Documented d) {n : ℕ} (ih : Follows d n) {path : List String}
    {s s' : S} {r : Option String} {fs gs : List Frame} (hd : Due d s fs gs)
    (h : JsonTokenWalk.walk d (n + 1) path s = some (r, s')) :
    JamsFrom d fs s ↔ r = none ∧ JamsFrom d gs s' := by
  obtain ⟨t, s₁, ht⟩ : ∃ t s₁, d.token s = (t, s₁) := ⟨_, _, rfl⟩
  cases t with
  | none =>
    simp only [JsonTokenWalk.walk, ht] at h
    cases h
    simpa using jamsFrom_stopped law ht hd.array_mem
  | some t =>
    have hbegun : JamsFrom d fs s ↔ JamsFrom d (begun t gs) s₁ := by
      rw [jamsFrom_step ht, hd.feed law ht]
      simp
    rw [hbegun]
    cases t with
    | openArray =>
      simp only [JsonTokenWalk.walk, ht] at h
      exact ih.elements h
    | openObject =>
      simp only [JsonTokenWalk.walk, ht] at h
      exact ih.members h
    | _ =>
      simp only [JsonTokenWalk.walk, ht] at h
      cases h
      simp [begun]

theorem Follows.members_succ (law : Documented d) {n : ℕ} (ih : Follows d n)
    {path seen : List String} {s s' : S} {r : Option String} {fs : List Frame}
    (h : JsonTokenWalk.members d (n + 1) path seen s = some (r, s')) :
    JamsFrom d (.object seen :: fs) s ↔ r = none ∧ JamsFrom d fs s' := by
  simp only [JsonTokenWalk.members] at h
  split_ifs at h with hmore
  · obtain ⟨t, s₁, ht⟩ : ∃ t s₁, d.token s = (t, s₁) := ⟨_, _, rfl⟩
    simp only [ht] at h
    cases t with
    | none =>
      cases h
      simpa using jamsFrom_stopped law ht (by simp)
    | some t =>
      have hopen : ¬t.closes = true := by
        intro hc
        rw [(law.closing ht).mp hc] at hmore
        cases hmore
      rw [jamsFrom_step ht]
      simp only [feed, hopen, Bool.false_eq_true, if_false] at h ⊢
      split_ifs at h ⊢ with hseen
      · cases h
        simp
      · cases hw : JsonTokenWalk.walk d n (path ++ [t.name]) s₁ with
        | none => simp [hw] at h
        | some x =>
          obtain ⟨r₁, s₂⟩ := x
          have hvalue := ih.walk (.member (t.name :: seen) fs) hw
          cases r₁ with
          | some e =>
            simp only [hw] at h
            cases h
            simpa using hvalue
          | none =>
            simp only [hw] at h
            simpa [ih.members h] using hvalue
  · cases h
    simpa using jamsFrom_closed law (.inr ⟨seen, rfl⟩) (by simpa using hmore)

theorem Follows.elements_succ (law : Documented d) {n : ℕ} (ih : Follows d n)
    {path : List String} {s s' : S} {r : Option String} {fs : List Frame}
    (h : JsonTokenWalk.elements d (n + 1) path s = some (r, s')) :
    JamsFrom d (.array :: fs) s ↔ r = none ∧ JamsFrom d fs s' := by
  simp only [JsonTokenWalk.elements] at h
  split_ifs at h with hmore
  · cases hw : JsonTokenWalk.walk d n path s with
    | none => simp [hw] at h
    | some x =>
      obtain ⟨r₁, s₁⟩ := x
      have hvalue := ih.walk (.array fs hmore) hw
      cases r₁ with
      | some e =>
        simp only [hw] at h
        cases h
        simpa using hvalue
      | none =>
        simp only [hw] at h
        simpa [ih.elements h] using hvalue
  · cases h
    simpa using jamsFrom_closed law (.inl rfl) (by simpa using hmore)

/-- Every call that comes back leaves the decoder where the document still jams, if it did. -/
theorem follows (law : Documented d) (n : ℕ) : Follows d n := by
  induction n with
  | zero =>
    constructor
    · intro path s r s' fs gs hd h
      simp [JsonTokenWalk.walk] at h
    · intro path seen s r s' fs h
      simp [JsonTokenWalk.members] at h
    · intro path s r s' fs h
      simp [JsonTokenWalk.elements] at h
  | succ n ih =>
    exact ⟨ih.walk_succ law, ih.members_succ law, ih.elements_succ law⟩

theorem not_jamsFrom_nil (s : S) : ¬JamsFrom d [] s := by
  intro hj
  obtain ⟨fs', s', s'', hr, ha, hf, hm⟩ := hj
  cases hr with
  | refl => cases ha
  | step hs hfeed => cases hfeed

/-- Fuel a call needs from here, at most. -/
def unread (d : Decoder S) (s : S) : ℕ := (d.rest s).length

/-- With fuel for what is left to read, a call comes back unless the document jams, and it
has read something unless `Token` failed where it began. -/
structure ComesBack (d : Decoder S) (n : ℕ) : Prop where
  walk : ∀ path {s fs gs}, Due d s fs gs → 2 * unread d s + 1 ≤ n → ¬JamsFrom d fs s →
    ∃ r s', walk d n path s = some (r, s') ∧ (unread d s' < unread d s ∨ d.token s = (none, s'))
  members : ∀ path seen {s fs}, 2 * unread d s + 2 ≤ n → ¬JamsFrom d (.object seen :: fs) s →
    ∃ r s', members d n path seen s = some (r, s') ∧ unread d s' ≤ unread d s
  elements : ∀ path {s fs}, 2 * unread d s + 2 ≤ n → ¬JamsFrom d (.array :: fs) s →
    ∃ r s', elements d n path s = some (r, s') ∧ unread d s' ≤ unread d s

theorem unread_token (law : Documented d) {s s' : S} {t : Option Token}
    (ht : d.token s = (t, s')) : unread d s' ≤ unread d s := by
  cases t with
  | none => exact (law.stays ht).1
  | some t => exact (law.reads ht).le

theorem ComesBack.walk_succ (law : Documented d) {n : ℕ} (ih : ComesBack d n)
    (path : List String) {s : S} {fs gs : List Frame} (hd : Due d s fs gs)
    (hn : 2 * unread d s + 1 ≤ n + 1) (hj : ¬JamsFrom d fs s) :
    ∃ r s', JsonTokenWalk.walk d (n + 1) path s = some (r, s') ∧
      (unread d s' < unread d s ∨ d.token s = (none, s')) := by
  obtain ⟨t, s₁, ht⟩ : ∃ t s₁, d.token s = (t, s₁) := ⟨_, _, rfl⟩
  cases t with
  | none => exact ⟨none, s₁, by simp [JsonTokenWalk.walk, ht], .inr ht⟩
  | some t =>
    have hread : unread d s₁ < unread d s := law.reads ht
    have hbegun : ¬JamsFrom d (begun t gs) s₁ := by
      intro h
      exact hj ((jamsFrom_step ht).mpr ⟨_, hd.feed law ht, h⟩)
    cases t with
    | openArray =>
      obtain ⟨r, s', h, hle⟩ := ih.elements path (by omega) hbegun
      exact ⟨r, s', by simpa [JsonTokenWalk.walk, ht] using h, .inl (by omega)⟩
    | openObject =>
      obtain ⟨r, s', h, hle⟩ := ih.members path [] (by omega) hbegun
      exact ⟨r, s', by simpa [JsonTokenWalk.walk, ht] using h, .inl (by omega)⟩
    | _ => exact ⟨none, s₁, by simp [JsonTokenWalk.walk, ht], .inl hread⟩

theorem ComesBack.members_succ (law : Documented d) {n : ℕ} (ih : ComesBack d n)
    (path seen : List String) {s : S} {fs : List Frame} (hn : 2 * unread d s + 2 ≤ n + 1)
    (hj : ¬JamsFrom d (.object seen :: fs) s) :
    ∃ r s', JsonTokenWalk.members d (n + 1) path seen s = some (r, s') ∧
      unread d s' ≤ unread d s := by
  obtain ⟨t, s₁, ht⟩ : ∃ t s₁, d.token s = (t, s₁) := ⟨_, _, rfl⟩
  have hle := unread_token law ht
  by_cases hmore : d.more s = true
  · cases t with
    | none => exact ⟨none, s₁, by simp [JsonTokenWalk.members, hmore, ht], hle⟩
    | some t =>
      by_cases hseen : t.name ∈ seen
      · exact ⟨some (repeatedName path t.name), s₁,
          by simp [JsonTokenWalk.members, hmore, ht, hseen], hle⟩
      · have hread : unread d s₁ < unread d s := law.reads ht
        have hopen : ¬t.closes = true := by
          intro hc
          rw [(law.closing ht).mp hc] at hmore
          cases hmore
        have hnamed : ¬JamsFrom d (.member (t.name :: seen) :: fs) s₁ := by
          intro h
          exact hj ((jamsFrom_step ht).mpr ⟨_, by simp [feed, hopen, hseen], h⟩)
        obtain ⟨r, s₂, hw, hs₂⟩ :=
          ih.walk (path ++ [t.name]) (.member (t.name :: seen) fs) (by omega) hnamed
        have hle₂ : unread d s₂ ≤ unread d s₁ := by
          cases hs₂ with
          | inl h => exact h.le
          | inr h => exact unread_token law h
        cases r with
        | some e =>
          exact ⟨some e, s₂, by simp [JsonTokenWalk.members, hmore, ht, hseen, hw], by omega⟩
        | none =>
          have hafter : ¬JamsFrom d (.object (t.name :: seen) :: fs) s₂ := by
            intro h
            exact hnamed (((follows law n).walk (.member (t.name :: seen) fs) hw).mpr ⟨rfl, h⟩)
          obtain ⟨r, s', hm, hs'⟩ := ih.members path (t.name :: seen) (by omega) hafter
          exact ⟨r, s', by simpa [JsonTokenWalk.members, hmore, ht, hseen, hw] using hm, by omega⟩
  · exact ⟨none, s₁, by simp [JsonTokenWalk.members, hmore, ht], hle⟩

/-- An element `Token` fails on leaves a closing bracket, or nothing, in front of the loop,
the document not jamming there. -/
theorem elements_stopped (law : Documented d) {n : ℕ} {path : List String} {s s' : S}
    {fs : List Frame} (ht : d.token s = (none, s')) (hj : ¬JamsFrom d (.array :: fs) s) :
    JsonTokenWalk.elements d (n + 1) path s' = some (none, s') := by
  have hmore : ¬d.more s' = true := by
    intro hm
    exact hj ((jamsFrom_fail ht).mpr ⟨by simp, hm⟩)
  simp [JsonTokenWalk.elements, hmore, law.stops ht]

theorem ComesBack.elements_succ (law : Documented d) {n : ℕ} (ih : ComesBack d n)
    (path : List String) {s : S} {fs : List Frame} (hn : 2 * unread d s + 2 ≤ n + 1)
    (hj : ¬JamsFrom d (.array :: fs) s) :
    ∃ r s', JsonTokenWalk.elements d (n + 1) path s = some (r, s') ∧ unread d s' ≤ unread d s := by
  by_cases hmore : d.more s = true
  · obtain ⟨r, s₁, hw, hs₁⟩ := ih.walk path (.array fs hmore) (by omega) hj
    cases r with
    | some e =>
      refine ⟨some e, s₁, by simp [JsonTokenWalk.elements, hmore, hw], ?_⟩
      cases hs₁ with
      | inl h => exact h.le
      | inr h => exact unread_token law h
    | none =>
      cases hs₁ with
      | inl hread =>
        have hafter : ¬JamsFrom d (.array :: fs) s₁ := by
          intro h
          exact hj (((follows law n).walk (.array fs hmore) hw).mpr ⟨rfl, h⟩)
        obtain ⟨r, s', he, hs'⟩ := ih.elements path (by omega) hafter
        exact ⟨r, s', by simpa [JsonTokenWalk.elements, hmore, hw] using he, by omega⟩
      | inr ht =>
        obtain ⟨m, rfl⟩ : ∃ m, n = m + 1 := ⟨n - 1, by omega⟩
        exact ⟨none, s₁, by
          rw [JsonTokenWalk.elements]
          simpa [hmore, hw] using elements_stopped law ht hj, unread_token law ht⟩
  · obtain ⟨t, s₁, ht⟩ : ∃ t s₁, d.token s = (t, s₁) := ⟨_, _, rfl⟩
    exact ⟨none, s₁, by simp [JsonTokenWalk.elements, hmore, ht], unread_token law ht⟩

theorem comesBack (law : Documented d) (n : ℕ) : ComesBack d n := by
  induction n with
  | zero =>
    constructor
    · intro path s fs gs hd hn
      omega
    · intro path seen s fs hn
      omega
    · intro path s fs hn
      omega
  | succ n ih =>
    exact ⟨ih.walk_succ law, ih.members_succ law, ih.elements_succ law⟩

theorem noDuplicateKeys_fuel (law : Documented d) {body : List UInt8} (hj : ¬Jams d body) :
    (noDuplicateKeys d (2 * body.length + 1) body).isSome := by
  have hlen : 2 * unread d (d.start body) + 1 ≤ 2 * body.length + 1 := by
    rw [unread, law.start_rest]
  obtain ⟨r, s', h, _⟩ := (comesBack law _).walk [] (.document []) hlen hj
  simp [noDuplicateKeys, h]

theorem noDuplicateKeys_of_jams (law : Documented d) {body : List UInt8} (hj : Jams d body)
    (fuel : ℕ) : noDuplicateKeys d fuel body = none := by
  cases h : JsonTokenWalk.walk d fuel [] (d.start body) with
  | none => simp [noDuplicateKeys, h]
  | some x =>
    have hend := ((follows law fuel).walk (.document []) h).mp hj
    exact absurd hend.2 (not_jamsFrom_nil x.2)

/-- The walk comes back from a document exactly when the document does not jam. -/
theorem noDuplicateKeys_returns_iff (law : Documented d) (body : List UInt8) :
    (∃ fuel, (noDuplicateKeys d fuel body).isSome) ↔ ¬Jams d body := by
  constructor
  · intro h hj
    obtain ⟨fuel, h⟩ := h
    rw [noDuplicateKeys_of_jams law hj] at h
    cases h
  · intro hj
    exact ⟨_, noDuplicateKeys_fuel law hj⟩

/-- A decoder of documents that have brackets alone; anything else is a syntax error, which
leaves the input where it is. -/
def brackets : Decoder (List UInt8) where
  start body := body
  rest s := s
  token s := match s.dropWhile isSpace with
    | 91 :: r => (some .openArray, r)
    | 93 :: r => (some .closeArray, r)
    | _ => (none, s)

theorem brackets_token {s s' : List UInt8} {t : Option Token} (h : brackets.token s = (t, s')) :
    (∃ r, s.dropWhile isSpace = 91 :: r ∧ t = some .openArray ∧ s' = r) ∨
      (∃ r, s.dropWhile isSpace = 93 :: r ∧ t = some .closeArray ∧ s' = r) ∨
      t = none ∧ s' = s := by
  simp only [brackets] at h
  split at h
  · cases h
    exact .inl ⟨_, by assumption, rfl, rfl⟩
  · cases h
    exact .inr (.inl ⟨_, by assumption, rfl, rfl⟩)
  · cases h
    exact .inr (.inr ⟨rfl, rfl⟩)

theorem brackets_documented : Documented brackets where
  start_rest body := rfl
  reads := by
    intro s t s' h
    have hle : (s.dropWhile isSpace).length ≤ s.length := List.length_dropWhile_le _ _
    obtain ⟨r, hr, _, rfl⟩ | ⟨r, hr, _, rfl⟩ | ⟨ht, _⟩ := brackets_token h
    · rw [hr, List.length_cons] at hle
      exact Nat.lt_of_succ_le hle
    · rw [hr, List.length_cons] at hle
      exact Nat.lt_of_succ_le hle
    · cases ht
  closing := by
    intro s t s' h
    obtain ⟨r, hr, ht, _⟩ | ⟨r, hr, ht, _⟩ | ⟨ht, _⟩ := brackets_token h
    · cases ht
      simp [Decoder.more, brackets, goesOn, hr, Token.closes]
    · cases ht
      simp [Decoder.more, brackets, goesOn, hr, Token.closes]
    · cases ht
  stops := by
    intro s s' h
    obtain ⟨r, _, ht, _⟩ | ⟨r, _, ht, _⟩ | ⟨_, rfl⟩ := brackets_token h
    · cases ht
    · cases ht
    · exact h
  stays := by
    intro s s' h
    obtain ⟨r, _, ht, _⟩ | ⟨r, _, ht, _⟩ | ⟨_, rfl⟩ := brackets_token h
    · cases ht
    · cases ht
    · exact ⟨le_rfl, id⟩

/-- `[[]`, which is cut off, does not jam: its walk comes back. -/
theorem noDuplicateKeys_returns_iff_brackets : ¬Jams brackets [91, 91, 93] :=
  (noDuplicateKeys_returns_iff brackets_documented [91, 91, 93]).mp ⟨7, by decide⟩

/-- `[x` jams: the second byte starts no value, and the array is still open. -/
theorem jams_brackets : Jams brackets [91, 120] :=
  ⟨[.array], [120], [120], .step rfl rfl (.refl _ _), by simp, rfl, rfl⟩

/-- On `[x` the walk never comes back, whatever the fuel. -/
theorem noDuplicateKeys_diverges :
    Documented brackets ∧ ∀ fuel, noDuplicateKeys brackets fuel [91, 120] = none :=
  ⟨brackets_documented, noDuplicateKeys_of_jams brackets_documented jams_brackets⟩

end Signari.JsonTokenWalk
