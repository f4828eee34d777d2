import Signari.EapFrames
import Signari.KeyedMaps

/-!
# EAP-TLS conversations

One session of `eaptls.go` and what a response does to it: `continueEAPTLS` takes the supplicant's
fragments in, `nextFragment` sends the server's own flight out, and `handleEAP` drops the session
once there is a verdict.

Incoming: nothing looks at the EAP identifier of a response, so a re-delivered fragment is taken
again; a length is compared only while more fragments are announced, and only when one is declared.

Outgoing: the acknowledgement of a fragment resets `expecting`, the field by which
`nextFragment` knows the first fragment of a set. So every fragment but the last declares
the length that remains.
-/
namespace Signari.EapTls
open EapFrames KeyedMaps List

def eapTLSMaxFragment : ℕ := 1024

/-- `1<<20`, the longest message a supplicant may declare. -/
def maxDeclared : ℕ := 1048576

inductive Handshake (Cert : Type) where
  | running
  | failed
  | done (peerCertificates : List Cert)

/-- The TLS engine while one response is handled: what `waitOut` returns, and the handshake. -/
structure Engine (Cert : Type) where
  out : List UInt8
  handshake : Handshake Cert

structure EapSession where
  identifier : UInt8
  outbound : List UInt8
  inbound : List UInt8
  expecting : UInt32
  fed : List UInt8
  username : String

/-- The next request, or the verdict that ends the conversation. -/
inductive Answer where
  | request (next : EAPPacket)
  | done (ok : Bool)

def Answer.refused : Answer := .done false

def tlsRequest (identifier : UInt8) (frame : EAPTLSFrame) : EAPPacket :=
  ⟨EAPRequest, identifier, EAPTypeTLS, frame.encode⟩

/-- An EAP-TLS frame with no flag and no data: the acknowledgement of a fragment. -/
def emptyFrame : EAPTLSFrame := ⟨false, false, false, 0, []⟩

def startEAPTLS (id : UInt8) : EapSession × EAPPacket :=
  (⟨id, [], [], 0, [], ""⟩, tlsRequest id { emptyFrame with start := true })

def nextFrame (outbound : List UInt8) (expecting : UInt32) :
    EAPTLSFrame × List UInt8 × UInt32 :=
  if outbound.length > eapTLSMaxFragment then
    let total := UInt32.ofNat outbound.length
    let data := outbound.take eapTLSMaxFragment
    if expecting = 0 then
      (⟨false, true, true, total, data⟩, outbound.drop eapTLSMaxFragment, total)
    else (⟨false, true, false, 0, data⟩, outbound.drop eapTLSMaxFragment, expecting)
  else (⟨false, false, false, 0, outbound⟩, [], 0)

def nextFragment (sess : EapSession) : EAPPacket × EapSession :=
  let sent := nextFrame sess.outbound sess.expecting
  let id := sess.identifier + 1
  (tlsRequest id sent.1,
    { sess with identifier := id, outbound := sent.2.1, expecting := sent.2.2 })

section

variable {Cert : Type} (auth : Cert → Except String String)

def finishEAPTLS (peerCertificates : List Cert) : Option String :=
  match peerCertificates with
  | [] => none
  | cert :: _ => (auth cert).toOption

/-- The length that bounds the set after this fragment. -/
def expected (sess : EapSession) (frame : EAPTLSFrame) : UInt32 :=
  if frame.lengthIncluded then frame.totalLength else sess.expecting

/-- `continueEAPTLS` on a fragment that announces more. -/
def moreFragment (sess : EapSession) (frame : EAPTLSFrame) : Answer × EapSession :=
  if frame.lengthIncluded ∧ frame.totalLength.toNat > maxDeclared then (.refused, sess)
  else
    let expecting := expected sess frame
    let inbound := sess.inbound ++ frame.data
    let sess := { sess with expecting := expecting, inbound := inbound }
    if expecting.toNat > 0 ∧ inbound.length > expecting.toNat then (.refused, sess)
    else
      let id := sess.identifier + 1
      (.request (tlsRequest id emptyFrame), { sess with identifier := id })

/-- The user a handshake stands for, once it is over. -/
def handshakeUser : Handshake Cert → Option String
  | .running => none
  | .failed => none
  | .done peers => finishEAPTLS auth peers

/-- The verdict when the engine has nothing more to send. -/
def verdict (handshake : Handshake Cert) (sess : EapSession) : Answer × EapSession :=
  match handshakeUser auth handshake with
  | none => (.refused, sess)
  | some username => (.done true, { sess with username := username })

def respond (engine : Engine Cert) (sess : EapSession) : Answer × EapSession :=
  let sess := if sess.outbound = [] then { sess with outbound := engine.out } else sess
  if sess.outbound = [] then verdict auth engine.handshake sess
  else (.request (nextFragment sess).1, (nextFragment sess).2)

/-- `continueEAPTLS` on a final fragment: the message is handed to the engine whole. -/
def finalFragment (engine : Engine Cert) (sess : EapSession) (frame : EAPTLSFrame) :
    Answer × EapSession :=
  let payload := sess.inbound ++ frame.data
  respond auth engine
    { sess with inbound := [], expecting := 0, fed := sess.fed ++ payload }

def continueEAPTLS (engine : Engine Cert) (sess : EapSession) (resp : EAPPacket) :
    Answer × EapSession :=
  match decodeEAPTLS resp.data with
  | .error _ => (.refused, sess)
  | .ok frame =>
    if frame.more then moreFragment sess frame else finalFragment auth engine sess frame

inductive Reply where
  | challenge (p : EAPPacket)
  | accept (identifier : UInt8) (username : String)
  | reject (identifier : UInt8)

def Reply.rejects : Reply → Bool
  | .reject _ => true
  | _ => false

def settle (identifier : UInt8) : Answer × EapSession → Reply × EapSession × Bool
  | (.request next, sess) => (.challenge next, sess, true)
  | (.done true, sess) => (.accept identifier sess.username, sess, false)
  | (.done false, sess) => (.reject identifier, sess, false)

/-- A response that names this session: the reply, the session, and whether it stays in the
table. A new identity begins another session. -/
def handleEAP (engine : Engine Cert) (sess : EapSession) (eap : EAPPacket) :
    Reply × EapSession × Bool :=
  if eap.code ≠ EAPResponse then (.reject eap.identifier, sess, true)
  else if eap.type = EAPTypeIdentity then
    (.challenge (startEAPTLS (eap.identifier + 1)).2, sess, true)
  else if eap.type = EAPTypeTLS then
    settle eap.identifier (continueEAPTLS auth engine sess eap)
  else (.reject eap.identifier, sess, true)

end

section

/-- One delivery on the session. -/
structure Delivery (Cert : Type) where
  resp : EAPPacket
  again : Bool
  engine : Engine Cert
  expired : Bool

/-- The session over its deliveries, with what the supplicant has sent: the data of its
fragments, each once, the fragments of the set not yet complete, and whether a set was let
through whose total is not a length it declares. -/
structure Conversation where
  sess : EapSession
  live : Bool
  taken : List UInt8
  pending : List EAPTLSFrame
  mismatched : Bool

def Conversation.start (id : UInt8) : Conversation := ⟨(startEAPTLS id).1, true, [], [], false⟩

def fragmentOf (eap : EAPPacket) : Option EAPTLSFrame :=
  if eap.code = EAPResponse ∧ eap.type = EAPTypeTLS then (decodeEAPTLS eap.data).toOption
  else none

def Matches (fragments : List EAPTLSFrame) : Prop :=
  ∀ f ∈ fragments, f.lengthIncluded = true →
    f.totalLength.toNat = (fragments.flatMap EAPTLSFrame.data).length

instance (fragments : List EAPTLSFrame) : Decidable (Matches fragments) :=
  inferInstanceAs (Decidable (∀ _ ∈ _, _))

/-- The supplicant's side of a delivery; a repetition adds nothing to it. -/
def Conversation.note (c : Conversation) (again : Bool) (reply : Reply) (f : EAPTLSFrame) :
    Conversation :=
  if again then c
  else if f.more then { c with taken := c.taken ++ f.data, pending := c.pending ++ [f] }
  else
    { c with
      taken := c.taken ++ f.data
      pending := []
      mismatched := c.mismatched || !(decide (Matches (c.pending ++ [f])) || reply.rejects) }

variable {Cert : Type} (auth : Cert → Except String String)

def deliver (c : Conversation) (d : Delivery Cert) : Conversation :=
  if c.live = false then c
  else if d.expired then { c with live := false }
  else
    let handled := handleEAP auth d.engine c.sess d.resp
    let c := { c with sess := handled.2.1, live := handled.2.2 }
    match fragmentOf d.resp with
    | none => c
    | some f => c.note d.again handled.1 f

/-- What the engine was handed is what the supplicant sent, each fragment once and in order,
up to what waits in the buffer; the buffer is bounded; no set was let through whose total
differs from a length it declares. -/
structure Exact (c : Conversation) : Prop where
  handed : c.sess.fed <+: c.taken
  buffered : c.live = true → c.sess.fed ++ c.sess.inbound = c.taken
  bounded : c.live = true → c.sess.inbound.length ≤ maxDeclared
  matched : c.mismatched = false

/-- The two length checks of the source refuse a fragment that announces more. -/
def Overlong (sess : EapSession) (f : EAPTLSFrame) : Prop :=
  (f.lengthIncluded = true ∧ f.totalLength.toNat > maxDeclared) ∨
    ((expected sess f).toNat > 0 ∧
      (sess.inbound ++ f.data).length > (expected sess f).toNat)

/-- The engine ends the conversation by itself: nothing to send and nobody authenticated. -/
def EngineRefuses (engine : Engine Cert) (sess : EapSession) : Prop :=
  sess.outbound = [] ∧ engine.out = [] ∧ handshakeUser auth engine.handshake = none

/-- What a delivery has to be for the reassembly to stay exact. -/
def Harmless (c : Conversation) (d : Delivery Cert) : Prop :=
  c.live = true → d.expired = false → ∀ f, fragmentOf d.resp = some f →
    if f.more then
      ¬Overlong c.sess f →
        (d.again = true → f.data = []) ∧
          (expected c.sess f = 0 ∨ (expected c.sess f).toNat > maxDeclared →
            c.sess.inbound.length + f.data.length ≤ maxDeclared)
    else
      (d.again = true → f.data = []) ∧
        (d.again = false → Matches (c.pending ++ [f]) ∨ EngineRefuses auth d.engine c.sess)

theorem moreFragment_overlong {sess : EapSession} {f : EAPTLSFrame} (h : Overlong sess f) :
    (moreFragment sess f).1 = .refused ∧ (moreFragment sess f).2.fed = sess.fed := by
  unfold moreFragment
  split
  · exact ⟨rfl, rfl⟩
  · rename_i hdeclared
    dsimp only
    rw [if_pos (h.resolve_left hdeclared)]
    exact ⟨rfl, rfl⟩

theorem moreFragment_taken {sess : EapSession} {f : EAPTLSFrame} (h : ¬Overlong sess f) :
    moreFragment sess f =
      (.request (tlsRequest (sess.identifier + 1) emptyFrame),
        { sess with
          identifier := sess.identifier + 1
          expecting := expected sess f
          inbound := sess.inbound ++ f.data }) := by
  unfold Overlong at h
  rw [not_or] at h
  rw [moreFragment, if_neg h.1]
  dsimp only
  rw [if_neg h.2]

theorem verdict_frame (handshake : Handshake Cert) (sess : EapSession) :
    (verdict auth handshake sess).2.fed = sess.fed ∧
      (verdict auth handshake sess).2.inbound = sess.inbound := by
  unfold verdict
  cases handshakeUser auth handshake with
  | none => exact ⟨rfl, rfl⟩
  | some username => exact ⟨rfl, rfl⟩

theorem respond_frame (engine : Engine Cert) (sess : EapSession) :
    (respond auth engine sess).2.fed = sess.fed ∧
      (respond auth engine sess).2.inbound = sess.inbound := by
  by_cases hout : sess.outbound = []
  · by_cases heng : engine.out = []
    · simp only [respond, if_pos hout, if_pos heng]
      exact verdict_frame auth engine.handshake _
    · simp only [respond, if_pos hout, if_neg heng]
      exact ⟨rfl, rfl⟩
  · simp only [respond, if_neg hout]
    exact ⟨rfl, rfl⟩

theorem respond_refused_iff (engine : Engine Cert) (sess : EapSession) :
    (respond auth engine sess).1 = .refused ↔ EngineRefuses auth engine sess := by
  unfold EngineRefuses
  by_cases hout : sess.outbound = []
  · by_cases heng : engine.out = []
    · simp only [respond, verdict, hout, heng, if_true, true_and]
      cases handshakeUser auth engine.handshake <;> simp [Answer.refused]
    · simp [respond, hout, heng, Answer.refused]
  · simp [respond, hout, Answer.refused]

theorem finalFragment_handed (engine : Engine Cert) (sess : EapSession) (f : EAPTLSFrame) :
    (finalFragment auth engine sess f).2.fed = sess.fed ++ (sess.inbound ++ f.data) ∧
      (finalFragment auth engine sess f).2.inbound = [] :=
  respond_frame auth engine _

theorem finalFragment_refused_iff (engine : Engine Cert) (sess : EapSession) (f : EAPTLSFrame) :
    (finalFragment auth engine sess f).1 = .refused ↔ EngineRefuses auth engine sess :=
  respond_refused_iff auth engine _

theorem settle_rejects_iff (id : UInt8) (r : Answer × EapSession) :
    (settle id r).1.rejects = true ↔ r.1 = .refused := by
  obtain ⟨answer, sess⟩ := r
  cases answer with
  | request next => simp [settle, Reply.rejects, Answer.refused]
  | done ok => cases ok <;> simp [settle, Reply.rejects, Answer.refused]

theorem settle_refused (id : UInt8) {r : Answer × EapSession} (h : r.1 = .refused) :
    (settle id r).2.2 = false := by
  obtain ⟨answer, sess⟩ := r
  obtain rfl : answer = .refused := h
  rfl

@[simp] theorem settle_sess (id : UInt8) (r : Answer × EapSession) : (settle id r).2.1 = r.2 := by
  obtain ⟨answer, sess⟩ := r
  cases answer with
  | request next => rfl
  | done ok => cases ok <;> rfl

theorem handleEAP_fragment {engine : Engine Cert} {sess : EapSession} {eap : EAPPacket}
    {f : EAPTLSFrame} (h : fragmentOf eap = some f) :
    handleEAP auth engine sess eap = settle eap.identifier
      (if f.more then moreFragment sess f else finalFragment auth engine sess f) := by
  unfold fragmentOf at h
  split at h
  · rename_i hresp
    have hdecode : decodeEAPTLS eap.data = .ok f := by
      cases hd : decodeEAPTLS eap.data with
      | error e => simp [hd, Except.toOption] at h
      | ok g => simpa [hd, Except.toOption] using h
    have hid : eap.type ≠ EAPTypeIdentity := by rw [hresp.2]; decide
    rw [handleEAP, if_neg (not_not.mpr hresp.1), if_neg hid, if_pos hresp.2, continueEAPTLS,
      hdecode]
  · cases h

theorem handleEAP_other {engine : Engine Cert} {sess : EapSession} {eap : EAPPacket}
    (h : fragmentOf eap = none) : (handleEAP auth engine sess eap).2.1 = sess := by
  unfold handleEAP
  split_ifs with hcode hid htls
  · rfl
  · rfl
  · unfold fragmentOf at h
    rw [if_pos ⟨not_not.mp hcode, htls⟩] at h
    cases hd : decodeEAPTLS eap.data with
    | error e => simp [continueEAPTLS, hd]
    | ok g => simp [hd, Except.toOption] at h
  · rfl

/-- What the supplicant has sent after the fragment. -/
def Conversation.sent (c : Conversation) (again : Bool) (f : EAPTLSFrame) : List UInt8 :=
  if again then c.taken else c.taken ++ f.data

theorem sent_eq_iff (c : Conversation) (again : Bool) (f : EAPTLSFrame) :
    c.taken ++ f.data = c.sent again f ↔ (again = true → f.data = []) := by
  cases again <;> simp [Conversation.sent]

theorem taken_prefix_sent (c : Conversation) (again : Bool) (f : EAPTLSFrame) :
    c.taken <+: c.sent again f := by
  cases again <;> simp [Conversation.sent]

theorem note_exact_iff (c : Conversation) (hc : c.mismatched = false) (again : Bool)
    (reply : Reply) (f : EAPTLSFrame) :
    Exact (c.note again reply f) ↔
      c.sess.fed <+: c.sent again f ∧
        (c.live = true → c.sess.fed ++ c.sess.inbound = c.sent again f) ∧
        (c.live = true → c.sess.inbound.length ≤ maxDeclared) ∧
        (again = false → f.more = false → Matches (c.pending ++ [f]) ∨ reply.rejects = true) := by
  have hfields : (c.note again reply f).sess = c.sess ∧ (c.note again reply f).live = c.live ∧
      (c.note again reply f).taken = c.sent again f ∧
      ((c.note again reply f).mismatched = false ↔ (again = false → f.more = false →
        Matches (c.pending ++ [f]) ∨ reply.rejects = true)) := by
    cases again with
    | true => simp [Conversation.note, Conversation.sent, hc]
    | false =>
      cases hm : f.more with
      | true => simp [Conversation.note, Conversation.sent, hc, hm]
      | false => simp [Conversation.note, Conversation.sent, hc, hm, or_iff_not_imp_left]
  obtain ⟨hsess, hlive, htaken, hmis⟩ := hfields
  constructor
  · intro h
    have h₁ := h.handed
    have h₂ := h.buffered
    have h₃ := h.bounded
    rw [hsess, htaken] at h₁
    rw [hsess, htaken, hlive] at h₂
    rw [hsess, hlive] at h₃
    exact ⟨h₁, h₂, h₃, hmis.mp h.matched⟩
  · rintro ⟨h₁, h₂, h₃, h₄⟩
    refine ⟨?_, ?_, ?_, hmis.mpr h₄⟩
    · rwa [hsess, htaken]
    · rwa [hsess, htaken, hlive]
    · rwa [hsess, hlive]

theorem deliver_fragment {c : Conversation} {d : Delivery Cert} {f : EAPTLSFrame}
    (hl : c.live = true) (he : d.expired = false) (hf : fragmentOf d.resp = some f)
    (r : Answer × EapSession)
    (hr : r = if f.more then moreFragment c.sess f else finalFragment auth d.engine c.sess f) :
    deliver auth c d =
      ({ c with
        sess := r.2
        live := (settle d.resp.identifier r).2.2 } : Conversation).note d.again
          (settle d.resp.identifier r).1 f := by
  simp [deliver, hl, he, hf, handleEAP_fragment auth hf, hr]

theorem deliver_fragment_exact {c : Conversation} {d : Delivery Cert} {f : EAPTLSFrame}
    (h : Exact c) (hl : c.live = true) (he : d.expired = false)
    (hf : fragmentOf d.resp = some f) (r : Answer × EapSession)
    (hr : r = if f.more then moreFragment c.sess f else finalFragment auth d.engine c.sess f) :
    Exact (deliver auth c d) ↔
      r.2.fed <+: c.sent d.again f ∧
        ((settle d.resp.identifier r).2.2 = true →
          r.2.fed ++ r.2.inbound = c.sent d.again f) ∧
        ((settle d.resp.identifier r).2.2 = true → r.2.inbound.length ≤ maxDeclared) ∧
        (d.again = false → f.more = false → Matches (c.pending ++ [f]) ∨
          (settle d.resp.identifier r).1.rejects = true) := by
  rw [deliver_fragment auth hl he hf r hr]
  exact note_exact_iff { c with sess := r.2, live := (settle d.resp.identifier r).2.2 }
    h.matched d.again _ f

theorem inbound_bounded_iff {sess : EapSession} {f : EAPTLSFrame} (h : ¬Overlong sess f) :
    (sess.inbound ++ f.data).length ≤ maxDeclared ↔
      (expected sess f = 0 ∨ (expected sess f).toNat > maxDeclared →
        sess.inbound.length + f.data.length ≤ maxDeclared) := by
  rw [Overlong, not_or, not_and_or, not_and_or] at h
  rw [length_append]
  constructor
  · intro hle _
    exact hle
  · intro himp
    by_cases hin : expected sess f = 0 ∨ (expected sess f).toNat > maxDeclared
    · exact himp hin
    · rw [not_or] at hin
      have hpos : (expected sess f).toNat > 0 := by
        apply Nat.pos_of_ne_zero
        intro hzero
        exact hin.1 (UInt32.toNat_inj.mp (by simpa using hzero))
      have hle := h.2.resolve_left (not_not.mpr hpos)
      rw [length_append] at hle
      omega

theorem deliver_more_exact {c : Conversation} {d : Delivery Cert} {f : EAPTLSFrame} (h : Exact c)
    (hl : c.live = true) (he : d.expired = false) (hf : fragmentOf d.resp = some f)
    (hmore : f.more = true) :
    Exact (deliver auth c d) ↔
      (¬Overlong c.sess f →
        (d.again = true → f.data = []) ∧
          (expected c.sess f = 0 ∨ (expected c.sess f).toNat > maxDeclared →
            c.sess.inbound.length + f.data.length ≤ maxDeclared)) := by
  have hr : moreFragment c.sess f =
      if f.more then moreFragment c.sess f else finalFragment auth d.engine c.sess f := by
    rw [if_pos hmore]
  rw [deliver_fragment_exact auth h hl he hf _ hr]
  by_cases hlong : Overlong c.sess f
  · obtain ⟨hrefused, hfed⟩ := moreFragment_overlong hlong
    have hlive := settle_refused d.resp.identifier hrefused
    simp only [hlive, hfed, hlong, hmore, Bool.false_eq_true, not_true_eq_false,
      Bool.true_eq_false, false_implies, implies_true, and_true, iff_true]
    exact h.handed.trans (taken_prefix_sent c d.again f)
  · rw [moreFragment_taken hlong]
    simp only [settle, forall_const, hmore, Bool.true_eq_false, false_implies, implies_true,
      and_true, hlong, not_false_eq_true]
    rw [← inbound_bounded_iff hlong, ← List.append_assoc, h.buffered hl]
    have hsent := sent_eq_iff c d.again f
    constructor
    · rintro ⟨-, heq, hle⟩
      exact ⟨hsent.mp heq, hle⟩
    · rintro ⟨hagain, hle⟩
      exact ⟨h.handed.trans (taken_prefix_sent c d.again f), hsent.mpr hagain, hle⟩

theorem deliver_final_exact {c : Conversation} {d : Delivery Cert} {f : EAPTLSFrame} (h : Exact c)
    (hl : c.live = true) (he : d.expired = false) (hf : fragmentOf d.resp = some f)
    (hmore : f.more = false) :
    Exact (deliver auth c d) ↔
      (d.again = true → f.data = []) ∧
        (d.again = false → Matches (c.pending ++ [f]) ∨ EngineRefuses auth d.engine c.sess) := by
  have hr : finalFragment auth d.engine c.sess f =
      if f.more then moreFragment c.sess f else finalFragment auth d.engine c.sess f := by
    rw [hmore]
    rfl
  obtain ⟨hfed, hin⟩ := finalFragment_handed auth d.engine c.sess f
  rw [deliver_fragment_exact auth h hl he hf _ hr]
  simp only [hfed, hin, hmore, settle_rejects_iff, finalFragment_refused_iff, append_nil,
    length_nil, Nat.zero_le, implies_true, true_and, forall_const]
  rw [← List.append_assoc, h.buffered hl]
  have hsent := sent_eq_iff c d.again f
  constructor
  · rintro ⟨hpre, -, hmatch⟩
    refine ⟨?_, hmatch⟩
    intro hagain
    rw [Conversation.sent, if_pos hagain] at hpre
    have hlen := hpre.length_le
    rw [length_append] at hlen
    exact eq_nil_of_length_eq_zero (by omega)
  · rintro ⟨hagain, hmatch⟩
    have heq := hsent.mpr hagain
    exact ⟨heq ▸ prefix_rfl, fun _ => heq, hmatch⟩

theorem deliver_exact {c : Conversation} {d : Delivery Cert} (h : Exact c) :
    Exact (deliver auth c d) ↔ Harmless auth c d := by
  unfold Harmless
  cases hl : c.live with
  | false => simpa [deliver, hl] using h
  | true =>
    cases he : d.expired with
    | true =>
      simp only [deliver, hl, he, Bool.true_eq_false, if_false, if_true, false_implies,
        implies_true, iff_true]
      exact ⟨h.handed, by simp, by simp, h.matched⟩
    | false =>
      cases hf : fragmentOf d.resp with
      | none =>
        simp only [reduceCtorEq, false_implies, implies_true, iff_true]
        simp only [deliver, hl, he, hf, Bool.true_eq_false, Bool.false_eq_true, if_false,
          handleEAP_other auth hf]
        exact ⟨h.handed, fun _ => h.buffered hl, fun _ => h.bounded hl, h.matched⟩
      | some f =>
        simp only [forall_const, Option.some.injEq, forall_eq']
        cases hmore : f.more with
        | true => simpa using deliver_more_exact auth h hl he hf hmore
        | false => simpa using deliver_final_exact auth h hl he hf hmore

theorem start_exact (id : UInt8) : Exact (Conversation.start id) :=
  ⟨List.nil_prefix, fun _ => rfl, fun _ => Nat.zero_le _, rfl⟩

/-- Over any sequence of deliveries, repetitions included. -/
theorem reassembly_exact_iff (id : UInt8) (ds : List (Delivery Cert)) :
    (∀ pre rest, ds = pre ++ rest → Exact (pre.foldl (deliver auth) (.start id))) ↔
      ∀ pre d rest, ds = pre ++ d :: rest →
        Harmless auth (pre.foldl (deliver auth) (.start id)) d :=
  foldl_throughout_iff (deliver_exact auth) ds (start_exact id)

def redelivered (seen : List EAPPacket) : List (Delivery Cert) → Bool
  | [] => true
  | d :: ds => (!d.again || decide (d.resp ∈ seen)) && redelivered (d.resp :: seen) ds

def tlsResponse (identifier : UInt8) (frame : EAPTLSFrame) : EAPPacket :=
  ⟨EAPResponse, identifier, EAPTypeTLS, frame.encode⟩

def retransmission : List (Delivery Unit) :=
  let engine : Engine Unit := ⟨[2], .running⟩
  let first := tlsResponse 2 ⟨false, true, false, 0, [22]⟩
  let last := tlsResponse 3 ⟨false, false, false, 0, [3]⟩
  [⟨first, false, engine, false⟩, ⟨first, true, engine, false⟩, ⟨last, false, engine, false⟩]

def shortMessage : List (Delivery Unit) :=
  [⟨tlsResponse 2 ⟨false, false, true, 5, [22, 3]⟩, false, ⟨[2], .running⟩, false⟩]

theorem retransmitted_fragment_handed_twice :
    redelivered [] retransmission = true ∧
      ((retransmission.foldl (deliver fun _ => .error "") (.start 2)).sess.fed = [22, 22, 3] ∧
        (retransmission.foldl (deliver fun _ => .error "") (.start 2)).taken = [22, 3]) ∧
      ¬(∀ pre rest, retransmission = pre ++ rest →
        Exact (pre.foldl (deliver fun _ => .error "") (.start 2))) ∧
      ¬(∀ pre rest, shortMessage = pre ++ rest →
        Exact (pre.foldl (deliver fun _ => .error "") (.start 2))) := by
  refine ⟨by decide, by decide, ?_, ?_⟩
  · intro h
    have hlong := (h retransmission [] (append_nil _).symm).handed.length_le
    revert hlong
    decide
  · intro h
    have hmis := (h shortMessage [] (append_nil _).symm).matched
    revert hmis
    decide

end

section

variable {Cert : Type} (auth : Cert → Except String String)

/-- The frames sent from a response on, with a supplicant that acknowledges every fragment
that announces more. The engine may change with each response; `none` is out of fuel. -/
def sendFlight : ℕ → (ℕ → Engine Cert) → EapSession → EAPPacket → Option (List EAPTLSFrame)
  | 0, _, _, _ => none
  | fuel + 1, engines, sess, resp =>
    match continueEAPTLS auth (engines 0) sess resp with
    | (.done _, _) => some []
    | (.request p, sess) =>
      match decodeEAPTLS p.data with
      | .error _ => none
      | .ok f =>
        if f.more then
          (sendFlight fuel (fun n => engines (n + 1)) sess
            (tlsResponse p.identifier emptyFrame)).map (f :: ·)
        else some [f]

/-- The frames of a flight as they should be. -/
structure Fragmented (b : List UInt8) (frames : List EAPTLSFrame) : Prop where
  data : frames.flatMap EAPTLSFrame.data = b
  more : ∀ init last, frames = init ++ [last] → (∀ f ∈ init, f.more = true) ∧ last.more = false
  bounded : ∀ f ∈ frames, f.data.length ≤ eapTLSMaxFragment
  declared : frames.length > 1 → ∃ first rest, frames = first :: rest ∧
    first.lengthIncluded = true ∧ first.totalLength.toNat = b.length ∧
      ∀ f ∈ rest, f.lengthIncluded = false

/-- The frames of a flight as they are: each but the last declares what remains. -/
def fragments (b : List UInt8) : List EAPTLSFrame :=
  if b.length > eapTLSMaxFragment then
    ⟨false, true, true, UInt32.ofNat b.length, b.take eapTLSMaxFragment⟩ ::
      fragments (b.drop eapTLSMaxFragment)
  else [⟨false, false, false, 0, b⟩]
termination_by b.length
decreasing_by
  rw [length_drop, eapTLSMaxFragment] at *
  omega

theorem fragments_long {b : List UInt8} (h : b.length > eapTLSMaxFragment) :
    fragments b = ⟨false, true, true, UInt32.ofNat b.length, b.take eapTLSMaxFragment⟩ ::
      fragments (b.drop eapTLSMaxFragment) := by
  rw [fragments, if_pos h]

theorem fragments_short {b : List UInt8} (h : ¬b.length > eapTLSMaxFragment) :
    fragments b = [⟨false, false, false, 0, b⟩] := by
  rw [fragments, if_neg h]

theorem respond_queued (engine : Engine Cert) (sess : EapSession) {b : List UInt8} (hb : b ≠ [])
    (hq : (if sess.outbound = [] then engine.out else sess.outbound) = b) :
    respond auth engine sess =
      (.request (nextFragment { sess with outbound := b }).1,
        (nextFragment { sess with outbound := b }).2) := by
  have hsess : (if sess.outbound = [] then { sess with outbound := engine.out } else sess) =
      { sess with outbound := b } := by
    rw [← hq]
    split <;> rfl
  simp only [respond, hsess, if_neg hb]

theorem sendFlight_queued (fuel : ℕ) : ∀ (engines : ℕ → Engine Cert) (sess : EapSession)
    (resp : EAPPacket) (f : EAPTLSFrame) (b : List UInt8), b ≠ [] → b.length < fuel →
    decodeEAPTLS resp.data = .ok f → f.more = false →
    (if sess.outbound = [] then (engines 0).out else sess.outbound) = b →
    sendFlight auth fuel engines sess resp = some (fragments b) := by
  induction fuel with
  | zero =>
    intro engines sess resp f b _ hfuel
    omega
  | succ fuel ih =>
    intro engines sess resp f b hb hfuel hf hmore hq
    rw [sendFlight, continueEAPTLS, hf]
    simp only [hmore, Bool.false_eq_true, if_false, finalFragment]
    rw [respond_queued auth (engines 0) ⟨sess.identifier, sess.outbound, [], 0, _, _⟩ hb hq]
    by_cases hlong : b.length > eapTLSMaxFragment
    · have hdrop : (b.drop eapTLSMaxFragment).length = b.length - eapTLSMaxFragment :=
        length_drop
      have hrest : b.drop eapTLSMaxFragment ≠ [] := by
        intro hnil
        rw [hnil, length_nil] at hdrop
        omega
      simp only [nextFragment, nextFrame, if_pos hlong, if_true, tlsRequest]
      rw [decodeEAPTLS_encode (by simp)]
      simp only [if_true]
      rw [ih _ _ _ emptyFrame _ hrest (by rw [hdrop, eapTLSMaxFragment]; omega) rfl rfl
        (by simp only [if_neg hrest]), fragments_long hlong]
      rfl
    · simp only [nextFragment, nextFrame, if_neg hlong, tlsRequest]
      rw [decodeEAPTLS_encode (by simp), fragments_short hlong]
      simp

theorem fragments_data (b : List UInt8) : (fragments b).flatMap EAPTLSFrame.data = b := by
  fun_induction fragments b with
  | case1 b hlong ih => rw [flatMap_cons, ih, take_append_drop]
  | case2 b hshort => simp

theorem fragments_bounded (b : List UInt8) :
    ∀ f ∈ fragments b, f.data.length ≤ eapTLSMaxFragment := by
  fun_induction fragments b with
  | case1 b hlong ih =>
    intro f hf
    rcases mem_cons.mp hf with rfl | hf
    · simp
    · exact ih f hf
  | case2 b hshort =>
    intro f hf
    rw [mem_singleton.mp hf]
    exact Nat.le_of_not_lt hshort

theorem fragments_more (b : List UInt8) : ∀ init last, fragments b = init ++ [last] →
    (∀ f ∈ init, f.more = true) ∧ last.more = false := by
  fun_induction fragments b with
  | case1 b hlong ih =>
    intro init last heq
    cases init with
    | nil =>
      have hnil : fragments (b.drop eapTLSMaxFragment) = [] := (List.cons.inj heq).2
      have := fragments_data (b.drop eapTLSMaxFragment)
      rw [hnil, flatMap_nil] at this
      have hlen := congrArg List.length this
      rw [length_drop, length_nil] at hlen
      omega
    | cons f init =>
      obtain ⟨rfl, htail⟩ := List.cons.inj heq
      obtain ⟨hinit, hlast⟩ := ih init last htail
      refine ⟨?_, hlast⟩
      intro f hf
      rcases mem_cons.mp hf with rfl | hf
      · rfl
      · exact hinit f hf
  | case2 b hshort =>
    intro init last heq
    cases init with
    | nil =>
      obtain rfl := (List.cons.inj heq).1
      simp
    | cons f init => simp at heq

theorem fragments_declared_iff (b : List UInt8) :
    ((fragments b).length > 1 → ∃ first rest, fragments b = first :: rest ∧
      first.lengthIncluded = true ∧ first.totalLength.toNat = b.length ∧
        ∀ f ∈ rest, f.lengthIncluded = false) ↔ b.length ≤ 2 * eapTLSMaxFragment := by
  by_cases hlong : b.length > eapTLSMaxFragment
  · have hdrop : (b.drop eapTLSMaxFragment).length = b.length - eapTLSMaxFragment :=
      length_drop
    rw [fragments_long hlong]
    by_cases htwo : (b.drop eapTLSMaxFragment).length > eapTLSMaxFragment
    · rw [fragments_long htwo]
      constructor
      · intro h
        obtain ⟨first, rest, heq, -, -, hrest⟩ := h (by simp)
        have := hrest _ ((List.cons.inj heq).2 ▸ mem_cons_self)
        simp at this
      · intro hle
        omega
    · rw [fragments_short htwo]
      refine iff_of_true ?_ (by omega)
      intro _
      refine ⟨_, _, rfl, rfl, ?_, by simp⟩
      rw [UInt32.toNat_ofNat']
      exact Nat.mod_eq_of_lt (by rw [eapTLSMaxFragment] at *; omega)
  · rw [fragments_short hlong]
    refine iff_of_true ?_ (by omega)
    simp

theorem fragments_fragmented_iff (b : List UInt8) :
    Fragmented b (fragments b) ↔ b.length ≤ 2 * eapTLSMaxFragment := by
  rw [← fragments_declared_iff]
  constructor
  · exact fun h => h.declared
  · exact fun h => ⟨fragments_data b, fragments_more b, fragments_bounded b, h⟩

/-- Every flight is sent to its end; its frames are as they should be up to two fragments. -/
theorem flight_fragmented_iff (fuel : ℕ) (engines : ℕ → Engine Cert) (sess : EapSession)
    (resp : EAPPacket) (f : EAPTLSFrame) (hfuel : (engines 0).out.length < fuel)
    (hresp : decodeEAPTLS resp.data = .ok f) (hfinal : f.more = false)
    (hout : sess.outbound = []) :
    (∃ frames, sendFlight auth fuel engines sess resp = some frames ∧
      Fragmented (engines 0).out frames) ↔ (engines 0).out.length ≤ 2 * eapTLSMaxFragment := by
  by_cases hb : (engines 0).out = []
  · obtain ⟨fuel, rfl⟩ : ∃ n, fuel = n + 1 := ⟨fuel - 1, by omega⟩
    refine iff_of_true ⟨[], ?_, ⟨hb.symm, by simp, by simp, by simp⟩⟩ (by simp [hb])
    rw [sendFlight, continueEAPTLS, hresp]
    simp only [hfinal, Bool.false_eq_true, if_false, finalFragment, respond, hout, hb, if_true,
      verdict]
    cases handshakeUser auth (engines 0).handshake <;> rfl
  · have hsend := sendFlight_queued auth fuel engines sess resp f _ hb hfuel hresp hfinal
      (by rw [if_pos hout])
    rw [← fragments_fragmented_iff, hsend]
    simp

theorem flight_of_two_fragments :
    ∃ frames, sendFlight (fun _ : Unit => .error "") 1501
      (fun _ => ⟨List.replicate 1500 7, .running⟩) (startEAPTLS 2).1
        (tlsResponse 2 ⟨false, false, false, 0, [22]⟩) = some frames ∧
        Fragmented (List.replicate 1500 7) frames := by
  have hlen : (List.replicate 1500 (7 : UInt8)).length = 1500 := length_replicate
  exact (flight_fragmented_iff _ 1501 (fun _ => ⟨List.replicate 1500 7, .running⟩) _ _
    ⟨false, false, false, 0, [22]⟩ (hlen.trans_lt (by decide)) (by decide) rfl rfl).mpr
      (hlen.trans_le (by decide))

theorem fragments_second {b : List UInt8} (h : b.length = 2049) :
    ∃ first second last, fragments b = [first, second, last] ∧
      second.lengthIncluded = true ∧ second.totalLength = 1025 := by
  have h₁ : (b.drop eapTLSMaxFragment).length = 1025 := by rw [length_drop, h]; rfl
  have h₂ : ((b.drop eapTLSMaxFragment).drop eapTLSMaxFragment).length = 1 := by
    rw [length_drop, h₁]
    rfl
  rw [fragments_long (by rw [h]; decide), fragments_long (by rw [h₁]; decide),
    fragments_short (by rw [h₂]; decide)]
  exact ⟨_, _, _, rfl, rfl, by rw [h₁]; rfl⟩

def longFlight : List UInt8 := List.replicate 2049 7

theorem longFlight_length : longFlight.length = 2049 := length_replicate

/-- The second of three fragments declares a length too, and not that of the message. -/
theorem second_fragment_declares_length :
    ∃ first second last, sendFlight (fun _ : Unit => .error "") 2050
      (fun _ => ⟨longFlight, .running⟩) (startEAPTLS 2).1
        (tlsResponse 2 ⟨false, false, false, 0, [22]⟩) = some [first, second, last] ∧
      second.lengthIncluded = true ∧ second.totalLength = 1025 ∧
      ¬Fragmented longFlight [first, second, last] := by
  have hlen := longFlight_length
  have hsend := sendFlight_queued (fun _ : Unit => .error "") 2050
    (fun _ => ⟨longFlight, .running⟩) (startEAPTLS 2).1
    (tlsResponse 2 ⟨false, false, false, 0, [22]⟩) ⟨false, false, false, 0, [22]⟩
    longFlight (ne_nil_of_length_pos (by omega)) (by omega) rfl rfl rfl
  obtain ⟨first, second, last, heq, hincluded, htotal⟩ := fragments_second hlen
  refine ⟨first, second, last, hsend.trans (congrArg some heq), hincluded, htotal, ?_⟩
  rw [← heq, fragments_fragmented_iff, hlen]
  decide

end

end Signari.EapTls
