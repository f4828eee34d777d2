import Signari.ByteCodecs
import Signari.HashChains
import Signari.JsonBrackets

/-!
# Security events for receivers that poll

`handleSSFPoll` and `pollDeliver` of `internal/httpapi/ssfpoll.go` with the queue of
`internal/store/ssfpoll.go`. A receiver acknowledges the events that it was given and takes the next
ones in one request.

The body is cut at `maxPollBody` bytes before it is decoded, while a response may name
`hardPollMaxEvents` events. `makes_progress_iff` compares the two: an acknowledgement that is cut
short is no JSON, so it is refused and nothing leaves the queue.
-/
namespace Signari.PollDelivery
open ByteCodecs GoStrings HashChains JsonBrackets JsonExtents List

attribute [local instance] decidableAlong

section

/-- A queued event. -/
structure Row where
  id : ℕ
  streamID : String
  jti : String
  eventType : String
  subject : String
  sid : String := ""
  reason : String := ""
  queuedAt : ℤ

def IsUuid (s : String) : Prop :=
  s.toList.length = 36 ∧ ∀ c ∈ s.toList, c ∈ "0123456789abcdef-".toList

instance (s : String) : Decidable (IsUuid s) := inferInstanceAs (Decidable (_ ∧ _))

/-- The table of queued events in the order of its key. A jti is unique within its stream. -/
structure Queue where
  rows : List Row
  ordered : rows.Pairwise fun a b => a.id < b.id
  unique : (rows.map fun r => (r.streamID, r.jti)).Nodup
  uuids : ∀ r ∈ rows, IsUuid r.jti

/-- A DELETE: what the condition holds of stays. -/
def Queue.keep (q : Queue) (p : Row → Bool) : Queue where
  rows := q.rows.filter p
  ordered := q.ordered.sublist filter_sublist
  unique := q.unique.sublist (filter_sublist.map _)
  uuids r hr := q.uuids r (mem_of_mem_filter hr)

structure Stream where
  id : String
  clientID : String
  poll : Bool
  enabled : Bool

structure PollRequest where
  maxEvents : Option ℤ := none
  returnImmediately : Option Bool := none
  ack : List String := []

inductive Response where
  | refused (status : ℕ) (error description : String)
  | delivered (sets : List (String × String)) (moreAvailable : Bool)

structure Library where
  /-- `json.Unmarshal` into a request. -/
  unmarshal : List UInt8 → Option PollRequest
  /-- The signed token for an audience and a queued event. -/
  mint : String → Row → Except String String

def maxPollBody : ℕ := 16384

def defaultPollMaxEvents : ℤ := 100

def hardPollMaxEvents : ℤ := 500

def pollStreamForClient (streams : List Stream) (clientID : String) : Option String :=
  (streams.find? fun st => st.clientID == clientID && st.poll && st.enabled).map Stream.id

def pollAck (q : Queue) (streamID : String) (jtis : List String) : Queue :=
  if jtis = [] then q
  else q.keep fun r => !(r.streamID == streamID && jtis.contains r.jti)

/-- The events of a stream, oldest first. -/
def Queue.ofStream (q : Queue) (streamID : String) : List Row :=
  q.rows.filter fun r => r.streamID == streamID

/-- One row more than asked for is read, to see whether there is more. -/
def pollFetch (q : Queue) (streamID : String) (max : ℤ) : List Row × Bool :=
  let max := (if max < 1 then 1 else max).toNat
  let events := (q.ofStream streamID).take (max + 1)
  if max < events.length then (events.take max, true) else (events, false)

variable (L : Library)

def mintAll (audience : String) : List Row → Except String (List (String × String))
  | [] => .ok []
  | e :: es => do
      let jws ← L.mint audience e
      let out ← mintAll audience es
      .ok ((e.jti, jws) :: out)

def pollFetchAndMint (q : Queue) (streamID audience : String) (maxEvents : ℤ) :
    Except String (List (String × String) × Bool) := do
  let (events, more) := pollFetch q streamID maxEvents
  if events = [] then .ok ([], false)
  else do
    let out ← mintAll L audience events
    .ok (out, more)

def holdPoll (streamID audience : String) (maxEvents : ℤ) :
    List Queue → Except String (List (String × String) × Bool)
  | [] => .ok ([], false)
  | q :: ticks => do
      let (sets, more) ← pollFetchAndMint L q streamID audience maxEvents
      if sets ≠ [] then .ok (sets, more) else holdPoll streamID audience maxEvents ticks

/-- Acknowledging comes first and is committed on its own. -/
def pollDeliver (q : Queue) (streamID audience : String) (ack : List String) (maxEvents : ℤ)
    (returnImmediately : Bool) (ticks : List Queue) :
    Except String (List (String × String) × Bool) × Queue :=
  let q := pollAck q streamID ack
  (do
    let (sets, more) ← pollFetchAndMint L q streamID audience maxEvents
    if sets ≠ [] ∨ returnImmediately = true then .ok (sets, more)
    else holdPoll L streamID audience maxEvents ticks, q)

/-- A body without anything in it asks for what there is. -/
def readBody (body : List UInt8) : Except Response PollRequest :=
  let body := body.take maxPollBody
  if (bytesText body).any (fun t => trimSpace t = "") then .ok {}
  else match L.unmarshal body with
    | some req => .ok req
    | none => .error (.refused 400 "invalid_request" "the poll request body is not valid JSON")

def clampMaxEvents (req : PollRequest) : ℤ :=
  let n := req.maxEvents.getD defaultPollMaxEvents
  if n < 1 then 1 else if hardPollMaxEvents < n then hardPollMaxEvents else n

def handleSSFPoll (streams : List Stream) (caller : Except Response String) (q : Queue)
    (body : List UInt8) (ticks : List Queue) : Response × Queue :=
  match caller with
  | .error refusal => (refusal, q)
  | .ok clientID =>
    match readBody L body with
    | .error refusal => (refusal, q)
    | .ok req =>
      match pollStreamForClient streams clientID with
      | none => (.refused 404 "invalid_request" "this client has no enabled poll stream", q)
      | some streamID =>
        let (result, q') := pollDeliver L q streamID clientID req.ack (clampMaxEvents req)
          (req.returnImmediately.getD true) ticks
        match result with
        | .error _ => (.refused 500 "server_error" "unavailable", q')
        | .ok (sets, more) => (.delivered sets more, q')

end

/-- The member of a request that says how many events are wanted. -/
def maxMember : Option ℕ → String
  | none => ""
  | some n => ",\"maxEvents\":" ++ toString n

/-- The request that acknowledges events, and asks for the next ones. -/
def requestText (jtis : List String) (maxEvents : Option ℕ) : String :=
  "\x7b\"ack\":[" ++ join (jtis.map fun j => "\"" ++ j ++ "\"") "," ++ "]" ++
    maxMember maxEvents ++ "\x7d"

def Honoured (maxEvents : Option ℕ) : Prop := ∀ n ∈ maxEvents, 1 ≤ n ∧ n ≤ 500

def limitOf (maxEvents : Option ℕ) : ℕ := maxEvents.getD 100

/-- What the server relies on: a request is decoded into what it says, a text that is decoded is a
whole JSON value, and tokens can be signed. -/
structure Library.Works (L : Library) : Prop where
  reads : ∀ jtis n, (∀ j ∈ jtis, IsUuid j) → Honoured n →
    L.unmarshal (textBytes (requestText jtis n)) = some ⟨n.map Int.ofNat, none, jtis⟩
  whole : ∀ t req, L.unmarshal (textBytes t) = some req → Closed t.toList
  signs : ∀ audience e, ∃ jws, L.mint audience e = .ok jws

def poll (L : Library) (streams : List Stream) (clientID : String) (q : Queue)
    (jtis : List String) (maxEvents : Option ℕ) : Response × Queue :=
  handleSSFPoll L streams (.ok clientID) q (textBytes (requestText jtis maxEvents)) []

/-- A receiver that acknowledges everything it was given, over a number of polls: what each of them
gave it, and the queue after the last. -/
def polls (serve : Queue → List String → Response × Queue) :
    ℕ → Queue → List String → List (List String) × Queue
  | 0, q, _ => ([], q)
  | k + 1, q, jtis =>
    match serve q jtis with
    | (.delivered sets _, q') =>
      let rest := polls serve k q' (sets.map Prod.fst)
      (sets.map Prod.fst :: rest.1, rest.2)
    | (.refused .., q') => ([], q')

/-- Whatever a poll has returned can be acknowledged, at any later queue, and exactly those
events of the stream are removed then; and polling on empties the stream, after every event was
given out in the order of the queue. -/
structure MakesProgress (L : Library) (streams : List Stream) (clientID streamID : String)
    (q : Queue) (maxEvents : Option ℕ) : Prop where
  acknowledged : ∀ jtis sets more q₁, (∀ j ∈ jtis, IsUuid j) →
    poll L streams clientID q jtis maxEvents = (.delivered sets more, q₁) →
    ∀ q₂ n, Honoured n → ∃ sets' more' q₃,
      poll L streams clientID q₂ (sets.map Prod.fst) n = (.delivered sets' more', q₃) ∧
        q₃.rows = q₂.rows.filter fun r =>
          !(r.streamID == streamID && (sets.map Prod.fst).contains r.jti)
  emptied : ∃ k, (polls (poll L streams clientID · · maxEvents) k q []).1.flatten =
      (q.ofStream streamID).map Row.jti ∧
    (polls (poll L streams clientID · · maxEvents) k q []).2.rows =
      q.rows.filter fun r => !(r.streamID == streamID)

section
variable {jtis : List String} {n : Option ℕ} {s : String}

def Ascii (w : List Char) : Prop := ∀ c ∈ w, c.toNat < 128

theorem take_textBytes (h : Ascii s.toList) (k : ℕ) :
    (textBytes s).take k = textBytes (String.ofList (s.toList.take k)) := by
  have htake : Ascii (String.ofList (s.toList.take k)).toList := by
    rw [String.toList_ofList]
    exact fun c hc => h c (mem_of_mem_take hc)
  rw [textBytes_ascii h, textBytes_ascii htake, String.toList_ofList, map_take]

theorem hexDigits_plain {c : Char} (h : c ∈ "0123456789abcdef-".toList) :
    c.toNat < 128 ∧ Plain c := by
  have hall : ∀ d ∈ "0123456789abcdef-".toList, d.toNat < 128 ∧ d ≠ '"' ∧ d ≠ '\\' := by decide
  exact hall c h

theorem digits_plain {m : ℕ} {c : Char} (h : c ∈ (toString m).toList) : c.isDigit = true := by
  rw [Nat.toString_eq_ofList_toDigits, String.toList_ofList] at h
  exact Nat.isDigit_of_mem_toDigits (by decide) (by decide) h

theorem digit_plain {c : Char} (h : c.isDigit = true) :
    c.toNat < 128 ∧ c ≠ '"' ∧ opens c = false ∧ closes c = false := by
  have hrange : 48 ≤ c.toNat ∧ c.toNat ≤ 57 := by
    simpa [Char.isDigit, UInt32.le_iff_toNat_le] using h
  have hne : ∀ d : Char, d.toNat < 48 ∨ 57 < d.toNat → c ≠ d := by
    rintro d hd rfl
    omega
  refine ⟨by omega, hne '"' (by decide), ?_, ?_⟩
  · simp [opens, hne '[' (by decide), hne '\x7b' (by decide)]
  · simp [closes, hne ']' (by decide), hne '\x7d' (by decide)]

theorem digits_length {m : ℕ} (h : m ≤ 500) : (toString m).toList.length ≤ 3 := by
  rw [Nat.toString_eq_ofList_toDigits, String.toList_ofList,
    Nat.length_toDigits_le_iff (by decide) (by decide)]
  omega

/-- The name of the first member. -/
def ackKey : List Char := ['"', 'a', 'c', 'k', '"', ':']

/-- What stands between the braces of a request. -/
def inner (jtis : List String) (n : Option ℕ) : List Char :=
  ackKey ++ ('[' :: (join (jtis.map fun j => "\"" ++ j ++ "\"") ",").toList ++ [']']) ++
    (maxMember n).toList

theorem requestText_toList :
    (requestText jtis n).toList = '\x7b' :: inner jtis n ++ ['\x7d'] := by
  have hopen : "\x7b\"ack\":[".toList = '\x7b' :: (ackKey ++ ['[']) := by decide
  unfold requestText inner
  generalize join (jtis.map fun j => "\"" ++ j ++ "\"") "," = acks
  rw [String.toList_append, String.toList_append, String.toList_append, String.toList_append, hopen]
  simp only [cons_append, List.append_assoc, nil_append]
  rfl

theorem part_toList (j : String) : ("\"" ++ j ++ "\"").toList = '"' :: j.toList ++ ['"'] := by
  rw [String.toList_append, String.toList_append]
  rfl

theorem join_length {parts : List String} (h : ∀ t ∈ parts, t.toList.length = 38) :
    (join parts ",").toList.length = 39 * parts.length - 1 := by
  induction parts with
  | nil => rfl
  | cons t ts ih =>
    have ht := h t mem_cons_self
    cases ts with
    | nil => exact ht
    | cons t' ts =>
      have hrest := ih fun s hs => h s (mem_cons_of_mem t hs)
      have hcomma : ",".toList.length = 1 := by decide
      rw [join_cons_cons, length_append, length_append, ht, hcomma, hrest]
      simp only [length_cons]
      omega

theorem join_forall {P : Char → Prop} {parts : List String} (hcomma : P ',')
    (h : ∀ t ∈ parts, ∀ c ∈ t.toList, P c) : ∀ c ∈ (join parts ",").toList, P c := by
  induction parts with
  | nil => simp [join]
  | cons t ts ih =>
    have ht := h t mem_cons_self
    cases ts with
    | nil => exact ht
    | cons t' ts =>
      have hrest := ih fun s hs => h s (mem_cons_of_mem t hs)
      intro c hc
      rw [join_cons_cons, mem_append, mem_append] at hc
      obtain (hc | hc) | hc := hc
      · exact ht c hc
      · obtain rfl : c = ',' := by simpa using hc
        exact hcomma
      · exact hrest c hc

theorem ackParts {t : String} (hjtis : ∀ j ∈ jtis, IsUuid j)
    (h : t ∈ jtis.map fun j => "\"" ++ j ++ "\"") :
    t.toList.length = 38 ∧ Ascii t.toList ∧ Stays t.toList := by
  obtain ⟨j, hj, rfl⟩ := mem_map.mp h
  obtain ⟨hlength, hchars⟩ := hjtis j hj
  rw [part_toList]
  refine ⟨by simp [hlength], fun c hc => ?_, stays_string fun c hc =>
    (hexDigits_plain (hchars c hc)).2⟩
  simp only [cons_append, mem_cons, mem_append, not_mem_nil, or_false] at hc
  obtain rfl | hc | rfl := hc
  · decide
  · exact (hexDigits_plain (hchars c hc)).1
  · decide

theorem maxMember_spec (hn : Honoured n) : (maxMember n).toList.length ≤ 16 ∧
    Ascii (maxMember n).toList ∧ Stays (maxMember n).toList := by
  cases n with
  | none => exact ⟨by decide, ⟨fun c hc => (not_mem_nil hc).elim, stays_nil⟩⟩
  | some m =>
    have hkey : ",\"maxEvents\":".toList.length = 13 ∧ Ascii ",\"maxEvents\":".toList := by
      unfold Ascii
      decide
    have hstays : Stays ",\"maxEvents\":".toList :=
      ((stays_char (by decide) (by decide) (by decide) : Stays [',']).append
        (stays_string (w := "maxEvents".toList) (by unfold Plain; decide))).append
          (stays_char (by decide) (by decide) (by decide) : Stays [':'])
    rw [maxMember, String.toList_append]
    refine ⟨?_, fun c hc => ?_, hstays.append (stays_plain fun c hc => ?_)⟩
    · have hdigits := digits_length (hn m rfl).2
      rw [length_append, hkey.1]
      omega
    · obtain hc | hc := mem_append.mp hc
      · exact hkey.2 c hc
      · exact (digit_plain (digits_plain hc)).1
    · exact (digit_plain (digits_plain hc)).2

theorem requestText_spec (hjtis : ∀ j ∈ jtis, IsUuid j) (hn : Honoured n) :
    Ascii (requestText jtis n).toList ∧ Stays (inner jtis n) ∧
      (requestText jtis n).toList.length =
        10 + (39 * jtis.length - 1) + (maxMember n).toList.length := by
  obtain ⟨-, hascii, hstays⟩ := maxMember_spec hn
  have hparts := fun t ht => ackParts (t := t) hjtis ht
  have hkey : Ascii ackKey := by
    unfold Ascii
    decide
  have hkeyStays : Stays ackKey :=
    (stays_string (w := ['a', 'c', 'k']) (by unfold Plain; decide)).append
      (stays_char (by decide) (by decide) (by decide) : Stays [':'])
  have hlength : ackKey.length = 6 := rfl
  have hjoin := join_forall (P := fun c => c.toNat < 128) (by decide)
    fun t ht => (hparts t ht).2.1
  refine ⟨?_, ?_, ?_⟩
  · intro c hc
    rw [requestText_toList] at hc
    simp only [inner, cons_append, mem_cons, mem_append, not_mem_nil,
      or_false] at hc
    obtain rfl | ((hc | rfl | hc | rfl) | hc) | rfl := hc
    · decide
    · exact hkey c hc
    · decide
    · exact hjoin c hc
    · decide
    · exact hascii c hc
    · decide
  · exact (hkeyStays.append ((stays_join fun t ht => (hparts t ht).2.2).enclosed rfl rfl)).append
      hstays
  · have hjoinLength := join_length fun t ht => (hparts t ht).1
    rw [requestText_toList, inner]
    simp only [cons_append, length_cons, length_append, length_nil, hlength,
      hjoinLength, length_map]
    omega

theorem trimSpace_cons_ne {c : Char} {cs : List Char} (hc : isSpace c = false) :
    trimSpace (String.ofList (c :: cs)) ≠ "" := by
  have hleft : trimLeft (c :: cs) = c :: cs := dropWhile_cons_of_neg (by simp [hc])
  have hright : trimLeft (c :: cs).reverse ≠ [] := by
    intro hnil
    have hspace := dropWhile_eq_nil_iff.mp hnil c (by simp)
    rw [hc] at hspace
    cases hspace
  intro hempty
  have hnil : trimChars (c :: cs) = [] := by
    rw [trimSpace, String.toList_ofList] at hempty
    exact String.ofList_eq_empty_iff.mp hempty
  rw [trimChars, hleft, reverse_eq_nil_iff] at hnil
  exact hright hnil

theorem trimSpace_take_ne {k : ℕ} (hk : 0 < k) :
    trimSpace (String.ofList ((requestText jtis n).toList.take k)) ≠ "" := by
  obtain ⟨j, rfl⟩ := Nat.exists_eq_add_one.mpr hk
  rw [requestText_toList, cons_append, take_succ_cons]
  exact trimSpace_cons_ne (by decide)

end

section
variable {L : Library} {jtis : List String} {n : Option ℕ}

theorem readBody_fits (hL : L.Works) (hjtis : ∀ j ∈ jtis, IsUuid j) (hn : Honoured n)
    (hlength : jtis.length ≤ 419) :
    readBody L (textBytes (requestText jtis n)) = .ok ⟨n.map Int.ofNat, none, jtis⟩ := by
  obtain ⟨hascii, -, htext⟩ := requestText_spec hjtis hn
  have hmember := (maxMember_spec hn).1
  have hfits : (textBytes (requestText jtis n)).take maxPollBody =
      textBytes (requestText jtis n) := by
    refine take_of_length_le ?_
    rw [textBytes_ascii hascii, length_map, htext, maxPollBody]
    omega
  have hstart : requestText jtis n = String.ofList ('\x7b' :: (inner jtis n ++ ['\x7d'])) := by
    rw [← cons_append, ← requestText_toList, String.ofList_toList]
  have hblank : trimSpace (requestText jtis n) ≠ "" := by
    rw [hstart]
    exact trimSpace_cons_ne (by decide)
  simp only [readBody, hfits, bytesText_textBytes, Option.any_some, hblank, decide_false,
    Bool.false_eq_true, if_false, hL.reads jtis n hjtis hn]

theorem readBody_cut (hL : L.Works) (hjtis : ∀ j ∈ jtis, IsUuid j) (hn : Honoured n)
    (hlength : 420 ≤ jtis.length) : readBody L (textBytes (requestText jtis n)) =
      .error (.refused 400 "invalid_request" "the poll request body is not valid JSON") := by
  obtain ⟨hascii, hstays, htext⟩ := requestText_spec hjtis hn
  have hlong : maxPollBody < ('\x7b' :: inner jtis n ++ ['\x7d']).length := by
    rw [← requestText_toList, htext, maxPollBody]
    omega
  have hpos : 0 < maxPollBody := by decide
  have hcut := not_closed_take hstays rfl hpos hlong
  have hnone : L.unmarshal ((textBytes (requestText jtis n)).take maxPollBody) = none := by
    rw [take_textBytes hascii, requestText_toList]
    cases hread : L.unmarshal (textBytes _) with
    | none => rfl
    | some req =>
      have hclosed := hL.whole _ req hread
      rw [String.toList_ofList] at hclosed
      exact absurd hclosed hcut
  have hblank : ((bytesText ((textBytes (requestText jtis n)).take maxPollBody)).any
      fun t => trimSpace t = "") = false := by
    rw [take_textBytes hascii, bytesText_textBytes, Option.any_some, decide_eq_false_iff_not]
    exact trimSpace_take_ne hpos
  simp only [readBody, hblank, Bool.false_eq_true, if_false, hnone]

end

variable {L : Library} {streams : List Stream} {clientID streamID : String} {q q' : Queue}
  {jtis : List String} {n : Option ℕ}

theorem pollFetch_fst {limit : ℕ} (hlimit : 1 ≤ limit) :
    (pollFetch q streamID limit).1 = (q.ofStream streamID).take limit := by
  have hmax : (if (limit : ℤ) < 1 then 1 else (limit : ℤ)).toNat = limit := by
    rw [if_neg (by omega), Int.toNat_natCast]
  simp only [pollFetch, hmax]
  split_ifs with hmore
  · rw [take_take, Nat.min_eq_left (Nat.le_succ limit)]
  · have hall : (q.ofStream streamID).length ≤ limit := by
      rw [length_take] at hmore
      omega
    rw [take_of_length_le (hall.trans (Nat.le_succ limit)), take_of_length_le hall]

theorem mintAll_ok (hL : L.Works) (audience : String) (events : List Row) :
    ∃ sets, mintAll L audience events = .ok sets ∧ sets.map Prod.fst = events.map Row.jti := by
  induction events with
  | nil => exact ⟨[], rfl, rfl⟩
  | cons e es ih =>
    obtain ⟨jws, hjws⟩ := hL.signs audience e
    obtain ⟨sets, hsets, hjtis⟩ := ih
    exact ⟨(e.jti, jws) :: sets, by simp [mintAll, hjws, hsets, bind, Except.bind],
      by rw [map_cons, map_cons, hjtis]⟩

theorem pollFetchAndMint_ok (hL : L.Works) (q : Queue) (streamID audience : String) {limit : ℕ}
    (hlimit : 1 ≤ limit) : ∃ sets more, pollFetchAndMint L q streamID audience limit = .ok (sets, more) ∧
      sets.map Prod.fst = ((q.ofStream streamID).take limit).map Row.jti := by
  rw [← pollFetch_fst hlimit]
  unfold pollFetchAndMint
  by_cases hnone : (pollFetch q streamID limit).1 = []
  · exact ⟨[], false, by simp only [hnone, if_true], by rw [hnone]; rfl⟩
  · obtain ⟨sets, hsets, hjtis⟩ := mintAll_ok hL audience (pollFetch q streamID limit).1
    exact ⟨sets, (pollFetch q streamID limit).2, by
      simp only [hnone, if_false, hsets]
      rfl, hjtis⟩

theorem limitOf_pos (hn : Honoured n) : 1 ≤ limitOf n := by
  cases n with
  | none => decide
  | some m => exact (hn m rfl).1

theorem clampMaxEvents_honoured (hn : Honoured n) :
    clampMaxEvents ⟨n.map Int.ofNat, none, jtis⟩ = limitOf n := by
  cases n with
  | none => rfl
  | some m =>
    obtain ⟨hlow, hhigh⟩ := hn m rfl
    have hclamp : clampMaxEvents ⟨(some m).map Int.ofNat, none, jtis⟩ =
        if (m : ℤ) < 1 then 1 else if (500 : ℤ) < m then 500 else (m : ℤ) := rfl
    rw [hclamp, if_neg (by omega), if_neg (by omega), limitOf, Option.getD_some]

/-- A poll that acknowledges up to 419 events takes them away and gives out the next ones. -/
theorem poll_fits (hL : L.Works) (hstream : pollStreamForClient streams clientID = some streamID)
    (hjtis : ∀ j ∈ jtis, IsUuid j) (hn : Honoured n) (hlength : jtis.length ≤ 419) :
    ∃ sets more, poll L streams clientID q jtis n =
        (.delivered sets more, pollAck q streamID jtis) ∧
      sets.map Prod.fst =
        (((pollAck q streamID jtis).ofStream streamID).take (limitOf n)).map Row.jti := by
  obtain ⟨sets, more, hfetch, hsets⟩ := pollFetchAndMint_ok hL (pollAck q streamID jtis) streamID
    clientID (limitOf_pos hn)
  refine ⟨sets, more, ?_, hsets⟩
  simp only [poll, handleSSFPoll, readBody_fits hL hjtis hn hlength, hstream, pollDeliver,
    clampMaxEvents_honoured hn, hfetch]
  have hnow : sets ≠ [] ∨ (none : Option Bool).getD true = true := .inr rfl
  simp only [bind, Except.bind, if_pos hnow]

theorem poll_cut (hL : L.Works) (hjtis : ∀ j ∈ jtis, IsUuid j) (hn : Honoured n)
    (hlength : 420 ≤ jtis.length) : poll L streams clientID q jtis n =
      (.refused 400 "invalid_request" "the poll request body is not valid JSON", q) := by
  simp only [poll, handleSSFPoll, readBody_cut hL hjtis hn hlength]

theorem pollAck_rows : (pollAck q streamID jtis).rows =
    q.rows.filter fun r => !(r.streamID == streamID && jtis.contains r.jti) := by
  unfold pollAck
  split_ifs with hnil
  · subst hnil
    simp
  · rfl

theorem ofStream_pollAck : (pollAck q streamID jtis).ofStream streamID =
    (q.ofStream streamID).filter fun r => !jtis.contains r.jti := by
  simp only [Queue.ofStream, pollAck_rows, filter_filter]
  refine filter_congr fun r _ => ?_
  cases r.streamID == streamID <;> simp

theorem others_pollAck : ((pollAck q streamID jtis).rows.filter fun r => !(r.streamID == streamID)) =
    q.rows.filter fun r => !(r.streamID == streamID) := by
  rw [pollAck_rows, filter_filter]
  refine filter_congr fun r _ => ?_
  cases r.streamID == streamID <;> simp

theorem nodup_jtis (q : Queue) (streamID : String) : ((q.ofStream streamID).map Row.jti).Nodup := by
  have hpairs : ((q.ofStream streamID).map fun r => (r.streamID, r.jti)).Nodup :=
    q.unique.sublist (filter_sublist.map _)
  have hsame : ((q.ofStream streamID).map fun r => (r.streamID, r.jti)) =
      ((q.ofStream streamID).map Row.jti).map fun j => (streamID, j) := by
    rw [map_map]
    refine map_congr_left fun r hr => ?_
    simpa using (mem_filter.mp hr).2
  rw [hsame] at hpairs
  exact hpairs.of_map _

theorem uuids_take (q : Queue) (streamID : String) (k : ℕ) :
    ∀ j ∈ ((q.ofStream streamID).take k).map Row.jti, IsUuid j := by
  intro j hj
  obtain ⟨r, hr, rfl⟩ := mem_map.mp hj
  exact q.uuids r (mem_of_mem_filter (mem_of_mem_take hr))

theorem others_of_empty (h : q.ofStream streamID = []) :
    (q.rows.filter fun r => !(r.streamID == streamID)) = q.rows := by
  rw [filter_eq_self]
  intro r hr
  rw [Bool.not_eq_true', ← Bool.not_eq_true]
  exact filter_eq_nil_iff.mp h r hr

theorem filter_not_take {rows : List Row} (h : (rows.map Row.jti).Nodup) (k : ℕ) :
    (rows.filter fun r => !((rows.take k).map Row.jti).contains r.jti) = rows.drop k := by
  have hsplit : ((rows.take k).map Row.jti ++ (rows.drop k).map Row.jti).Nodup := by
    rw [← map_append, take_append_drop]
    exact h
  have hapart := (List.nodup_append.mp hsplit).2.2
  have hfirst : ((rows.take k).filter fun r => !((rows.take k).map Row.jti).contains r.jti) = [] := by
    rw [filter_eq_nil_iff]
    intro r hr
    have hmem : r.jti ∈ (rows.take k).map Row.jti := mem_map_of_mem hr
    simp only [contains_eq_mem, hmem, decide_true, Bool.not_true, Bool.false_eq_true,
      not_false_eq_true]
  have hrest : ((rows.drop k).filter fun r => !((rows.take k).map Row.jti).contains r.jti) =
      rows.drop k := by
    rw [filter_eq_self]
    intro r hr
    rw [Bool.not_eq_true', contains_eq_mem, decide_eq_false_iff_not]
    exact fun hmem => hapart _ hmem _ (mem_map_of_mem hr) rfl
  generalize hfirsts : (rows.take k).map Row.jti = firsts at hfirst hrest ⊢
  rw [← take_append_drop k rows, filter_append, take_append_drop, hfirst, hrest,
    nil_append]

variable (q streamID) in
theorem ofStream_pollAck_take (k : ℕ) :
    (pollAck q streamID (((q.ofStream streamID).take k).map Row.jti)).ofStream streamID =
      (q.ofStream streamID).drop k := by
  rw [ofStream_pollAck]
  exact filter_not_take (nodup_jtis q streamID) k

/-- The endpoint takes away what is acknowledged and gives out what comes next. -/
def Serves (serve : Queue → List String → Response × Queue) (streamID : String) (limit : ℕ) :
    Prop :=
  ∀ q jtis, (∀ j ∈ jtis, IsUuid j) → jtis.length ≤ 419 → ∃ sets more,
    serve q jtis = (.delivered sets more, pollAck q streamID jtis) ∧
      sets.map Prod.fst = (((pollAck q streamID jtis).ofStream streamID).take limit).map Row.jti

section
variable {serve : Queue → List String → Response × Queue} {limit : ℕ}

theorem polls_succ {sets : List (String × String)} {more : Bool}
    (h : serve q jtis = (.delivered sets more, q')) (k : ℕ) :
    polls serve (k + 1) q jtis =
      (sets.map Prod.fst :: (polls serve k q' (sets.map Prod.fst)).1,
        (polls serve k q' (sets.map Prod.fst)).2) := by
  rw [polls, h]

theorem polls_empty_stream (hserve : Serves serve streamID limit) (hlimit : 1 ≤ limit) (m : ℕ) :
    ∀ q jtis, (∀ j ∈ jtis, IsUuid j) → jtis.length ≤ 419 →
      ((pollAck q streamID jtis).ofStream streamID).length ≤ m →
      min ((pollAck q streamID jtis).ofStream streamID).length limit ≤ 419 →
      ∃ k, (polls serve k q jtis).1.flatten =
          ((pollAck q streamID jtis).ofStream streamID).map Row.jti ∧
        (polls serve k q jtis).2.rows = q.rows.filter fun r => !(r.streamID == streamID) := by
  induction m with
  | zero =>
    intro q jtis hjtis hlength hm _
    have hempty := length_eq_zero_iff.mp (Nat.le_zero.mp hm)
    obtain ⟨sets, more, hpoll, hsets⟩ := hserve q jtis hjtis hlength
    rw [hempty, take_nil, map_nil] at hsets
    refine ⟨0 + 1, ?_, ?_⟩
    · rw [polls_succ hpoll, hempty, hsets]
      rfl
    · rw [polls_succ hpoll]
      exact (others_of_empty hempty).symm.trans others_pollAck
  | succ m ih =>
    intro q jtis hjtis hlength hm hmin
    obtain ⟨sets, more, hpoll, hsets⟩ := hserve q jtis hjtis hlength
    generalize hq' : pollAck q streamID jtis = q' at hm hmin hpoll hsets ⊢
    have hrest := ofStream_pollAck_take streamID q' limit
    have hbatch : (sets.map Prod.fst).length ≤ 419 := by
      rw [hsets, length_map, length_take, Nat.min_comm]
      exact hmin
    rw [← hsets] at hrest
    have hfewer : ((pollAck q' streamID (sets.map Prod.fst)).ofStream streamID).length ≤ m := by
      rw [hrest, length_drop]
      omega
    have hmin' : min ((pollAck q' streamID (sets.map Prod.fst)).ofStream streamID).length limit ≤
        419 := by
      rw [hrest, length_drop]
      omega
    obtain ⟨k, hflatten, hrows⟩ := ih q' (sets.map Prod.fst)
      (hsets ▸ uuids_take q' streamID limit) hbatch hfewer hmin'
    refine ⟨k + 1, ?_, ?_⟩
    · rw [polls_succ hpoll, flatten_cons, hflatten, hrest, hsets, ← map_append,
        take_append_drop]
    · rw [polls_succ hpoll, hrows, ← hq', others_pollAck]

end

/-- A response that names more than 419 events cannot be acknowledged. -/
theorem not_progress (hL : L.Works)
    (hstream : pollStreamForClient streams clientID = some streamID) (hn : Honoured n)
    (hlong : 420 ≤ min (q.ofStream streamID).length (limitOf n)) :
    ¬MakesProgress L streams clientID streamID q n := by
  intro h
  have hnothing : ∀ j ∈ ([] : List String), IsUuid j := by simp
  obtain ⟨sets, more, hpoll, hsets⟩ := poll_fits (q := q) hL hstream hnothing hn (by simp)
  obtain ⟨sets', more', q₃, hack, -⟩ := h.acknowledged [] sets more _ (by simp) hpoll q none
    (by simp [Honoured])
  have hq : pollAck q streamID [] = q := by simp [pollAck]
  rw [hq] at hsets
  have huuids : ∀ j ∈ sets.map Prod.fst, IsUuid j := by
    rw [hsets]
    exact uuids_take q streamID _
  rw [poll_cut hL huuids (by simp [Honoured])] at hack
  · simp at hack
  · rw [hsets, length_map, length_take, Nat.min_comm]
    exact hlong

/-- Polling makes progress exactly when no response names more events than an acknowledgement
that is read to its end can: 419. -/
theorem makes_progress_iff (hL : L.Works)
    (hstream : pollStreamForClient streams clientID = some streamID) (hn : Honoured n) :
    MakesProgress L streams clientID streamID q n ↔
      min (q.ofStream streamID).length (limitOf n) ≤ 419 := by
  constructor
  · intro h
    by_contra hlong
    exact not_progress hL hstream hn (by omega) h
  · intro hmin
    have hq : pollAck q streamID [] = q := by simp [pollAck]
    refine ⟨fun jtis sets more q₁ hjtis hpoll q₂ n' hn' => ?_, ?_⟩
    · by_cases hlength : jtis.length ≤ 419
      · obtain ⟨sets', more', hpoll', hsets⟩ := poll_fits (q := q) hL hstream hjtis hn hlength
        obtain ⟨rfl, -⟩ : sets' = sets ∧ more' = more := by
          simpa using (Prod.ext_iff.mp (hpoll'.symm.trans hpoll)).1
        have hbatch : (sets'.map Prod.fst).length ≤ 419 := by
          have hshort : ((pollAck q streamID jtis).ofStream streamID).length ≤
              (q.ofStream streamID).length := by
            rw [ofStream_pollAck]
            exact length_filter_le _ _
          rw [hsets, length_map, length_take]
          omega
        obtain ⟨sets'', more'', hack, -⟩ := poll_fits (q := q₂) hL hstream
          (hsets ▸ uuids_take (pollAck q streamID jtis) streamID _) hn' hbatch
        exact ⟨sets'', more'', _, hack, pollAck_rows⟩
      · rw [poll_cut hL hjtis hn (by omega)] at hpoll
        simp at hpoll
    · have hserve : Serves (poll L streams clientID · · n) streamID (limitOf n) :=
        fun q jtis hjtis hlength => poll_fits hL hstream hjtis hn hlength
      have hrun := polls_empty_stream hserve (limitOf_pos hn) (q.ofStream streamID).length q []
        (by simp) (by simp) (by rw [hq]) (by rwa [hq])
      rwa [hq] at hrun

theorem join_fixed_inj {ts us : List String} (hts : ∀ t ∈ ts, t.toList.length = 38)
    (hus : ∀ u ∈ us, u.toList.length = 38) (h : (join ts ",").toList = (join us ",").toList) :
    ts = us := by
  have hlength : ts.length = us.length := by
    have hlengths := congrArg List.length h
    rw [join_length hts, join_length hus] at hlengths
    omega
  induction ts generalizing us with
  | nil => exact (length_eq_zero_iff.mp hlength.symm).symm
  | cons t ts ih =>
    cases us with
    | nil => simp at hlength
    | cons u us =>
      have ht := hts t mem_cons_self
      have hu := hus u mem_cons_self
      cases ts with
      | nil =>
        obtain rfl := length_eq_zero_iff.mp (Nat.succ.inj hlength).symm
        have htu : t = u := String.toList_inj.mp h
        rw [htu]
      | cons t' ts =>
        cases us with
        | nil => simp at hlength
        | cons u' us =>
          rw [join_cons_cons, join_cons_cons, List.append_assoc, List.append_assoc] at h
          obtain ⟨htu, hrest⟩ := append_inj h (ht.trans hu.symm)
          rw [String.toList_inj.mp htu, ih (fun s hs => hts s (mem_cons_of_mem t hs))
            (fun s hs => hus s (mem_cons_of_mem u hs))
            (append_cancel_left hrest) (Nat.succ.inj hlength)]

theorem toString_nat_inj {m k : ℕ} (h : toString m = toString k) : m = k := by
  rw [Nat.toString_eq_ofList_toDigits, Nat.toString_eq_ofList_toDigits,
    String.ofList_inj] at h
  rw [← Nat.ofDigitChars_ten_toDigits (n := m), h, Nat.ofDigitChars_ten_toDigits]

theorem maxMember_inj {n n' : Option ℕ} (h : maxMember n = maxMember n') : n = n' := by
  cases n with
  | none =>
    cases n' with
    | none => rfl
    | some k => simp [maxMember] at h
  | some m =>
    cases n' with
    | none => simp [maxMember] at h
    | some k => rw [toString_nat_inj (String.append_right_inj _ |>.mp h)]

theorem requestText_inj {jtis' : List String} {n' : Option ℕ} (hjtis : ∀ j ∈ jtis, IsUuid j)
    (hjtis' : ∀ j ∈ jtis', IsUuid j) (h : requestText jtis n = requestText jtis' n') :
    jtis = jtis' ∧ n = n' := by
  have hlist := congrArg String.toList h
  rw [requestText_toList, requestText_toList] at hlist
  have hinner := append_cancel_right (List.cons.inj hlist).2
  unfold inner at hinner
  simp only [cons_append, List.append_assoc, nil_append] at hinner
  have hacks := (List.cons.inj (append_cancel_left hinner)).2
  have hclose : ∀ xs : List String, (∀ j ∈ xs, IsUuid j) →
      ']' ∉ (join (xs.map fun j => "\"" ++ j ++ "\"") ",").toList := by
    intro xs hxs hmem
    refine join_forall (P := fun c => c ≠ ']') (by decide) (fun t ht c hc => ?_) ']' hmem rfl
    obtain ⟨j, hj, rfl⟩ := mem_map.mp ht
    rw [part_toList] at hc
    simp only [cons_append, mem_cons, mem_append, not_mem_nil, or_false] at hc
    obtain rfl | hc | rfl := hc
    · decide
    · rintro rfl
      exact absurd ((hxs j hj).2 _ hc) (by decide)
    · decide
  obtain ⟨hjoin, hmember⟩ := append_sep_inj (hclose jtis hjtis) (hclose jtis' hjtis') hacks
  have hparts := join_fixed_inj (fun t ht => (ackParts hjtis ht).1)
    (fun t ht => (ackParts hjtis' ht).1) hjoin
  refine ⟨map_injective_iff.mpr (fun j j' hj => ?_) hparts,
    maxMember_inj (String.toList_inj.mp hmember)⟩
  have hquoted := congrArg String.toList hj
  rw [part_toList, part_toList] at hquoted
  exact String.toList_inj.mp (append_cancel_right (List.cons.inj hquoted).2)

open Classical in
/-- A library that reads the texts of requests and nothing else; its tokens are names. -/
noncomputable def sampleLibrary : Library where
  unmarshal b :=
    if h : ∃ r : List String × Option ℕ, (∀ j ∈ r.1, IsUuid j) ∧ Honoured r.2 ∧
        b = textBytes (requestText r.1 r.2) then
      some ⟨h.choose.2.map Int.ofNat, none, h.choose.1⟩
    else none
  mint _ e := .ok e.jti

theorem sampleLibrary_works : sampleLibrary.Works where
  reads jtis n hjtis hn := by
    have h : ∃ r : List String × Option ℕ, (∀ j ∈ r.1, IsUuid j) ∧ Honoured r.2 ∧
        textBytes (requestText jtis n) = textBytes (requestText r.1 r.2) :=
      ⟨(jtis, n), hjtis, hn, rfl⟩
    obtain ⟨hj, hm⟩ := requestText_inj h.choose_spec.1 hjtis
      (textBytes_injective h.choose_spec.2.2).symm
    simp only [sampleLibrary, dif_pos h, hj, hm]
  whole t req h := by
    simp only [sampleLibrary] at h
    split_ifs at h with hexists
    obtain ⟨hjtis, hn, htext⟩ := hexists.choose_spec
    rw [textBytes_injective htext, requestText_toList, Closed]
    exact ((requestText_spec hjtis hn).2.1.enclosed rfl rfl).back 0
  signs _ e := ⟨e.jti, rfl⟩

def bitsJti (i : ℕ) : String :=
  String.ofList ((List.range 36).map fun k => if i.testBit k then '1' else '0')

theorem bitsJti_uuid (i : ℕ) : IsUuid (bitsJti i) := by
  refine ⟨by simp [bitsJti], fun c hc => ?_⟩
  rw [bitsJti, String.toList_ofList] at hc
  obtain ⟨k, -, rfl⟩ := mem_map.mp hc
  split_ifs <;> decide

theorem bitsJti_inj {i j : ℕ} (hi : i < 2 ^ 36) (hj : j < 2 ^ 36) (h : bitsJti i = bitsJti j) :
    i = j := by
  rw [bitsJti, bitsJti, String.ofList_inj] at h
  refine Nat.eq_of_testBit_eq fun k => ?_
  by_cases hk : k < 36
  · have hbit := map_inj_left.mp h k (mem_range.mpr hk)
    cases hbi : i.testBit k <;> cases hbj : j.testBit k <;> simp [hbi, hbj] at hbit ⊢
  · have hpow : 2 ^ 36 ≤ 2 ^ k := Nat.pow_le_pow_right (by decide) (not_lt.mp hk)
    rw [Nat.testBit_lt_two_pow (hi.trans_le hpow), Nat.testBit_lt_two_pow (hj.trans_le hpow)]

def sampleRow (i : ℕ) : Row where
  id := i
  streamID := "st"
  jti := bitsJti i
  eventType := "session-revoked"
  subject := "ana"
  queuedAt := 0

def sampleQueue (k : ℕ) (hk : k ≤ 2 ^ 36) : Queue where
  rows := (List.range k).map sampleRow
  ordered := pairwise_map.mpr (pairwise_lt_range)
  unique := by
    rw [map_map]
    refine Nodup.map_on (fun i hi j hj h => ?_) nodup_range
    rw [mem_range] at hi hj
    exact bitsJti_inj (hi.trans_le hk) (hj.trans_le hk) (Prod.ext_iff.mp h).2
  uuids r hr := by
    obtain ⟨i, -, rfl⟩ := mem_map.mp hr
    exact bitsJti_uuid i

theorem sampleQueue_length {k : ℕ} (hk : k ≤ 2 ^ 36) :
    ((sampleQueue k hk).ofStream "st").length = k := by
  have hall : (sampleQueue k hk).ofStream "st" = (List.range k).map sampleRow := by
    refine filter_eq_self.mpr fun r hr => ?_
    obtain ⟨i, -, rfl⟩ := mem_map.mp hr
    rfl
  rw [hall, length_map, length_range]

def sampleStreams : List Stream := [⟨"st", "rp", true, true⟩]

theorem makes_progress_two :
    MakesProgress sampleLibrary sampleStreams "rp" "st" (sampleQueue 2 (by decide)) none :=
  (makes_progress_iff sampleLibrary_works (by decide) (by simp [Honoured])).mpr
    (by rw [sampleQueue_length]; decide)

/-- A receiver that asks for 500 events, of which there are 420, cannot acknowledge what it gets. -/
theorem many_events_stuck : ¬MakesProgress sampleLibrary sampleStreams "rp" "st"
    (sampleQueue 420 (by decide)) (some 500) := by
  refine not_progress sampleLibrary_works (by decide) ?_ ?_
  · rintro m ⟨⟩
    decide
  · rw [sampleQueue_length]
    decide

end Signari.PollDelivery
