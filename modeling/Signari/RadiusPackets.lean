import Signari.EapFrames

/-!
# RADIUS packets

The outer encoding of `packet.go`: a header of twenty bytes and attributes with a one-byte length.
`response` assembles a reply whose Message-Authenticator is computed over the packet with its own
value zeroed and the authenticator of the request in the header; the Response Authenticator then
takes that place. MD5 and HMAC-MD5 are parameters with sixteen bytes of output.

An EAP packet travels in as many EAP-Message attributes as it needs (`eapAttributes`, `eapMessage`).
-/
namespace Signari.RadiusPackets
open EapFrames List

def attrEAPMessage : UInt8 := 79
def attrMessageAuthenticator : UInt8 := 80

def headerLen : ℕ := 20
def authLen : ℕ := 16
def maxPacket : ℕ := 4096
def maxEAPMessageChunk : ℕ := 253

def Digest : Type := { bytes : List UInt8 // bytes.length = authLen }

structure Attribute where
  type : UInt8
  value : List UInt8

structure Packet where
  code : UInt8
  identifier : UInt8
  authenticator : Digest
  attributes : List Attribute
  raw : List UInt8

/-- `copy(b[i:], src)` inside the bounds of `b`. -/
def copyAt (b : List UInt8) (i : ℕ) (src : List UInt8) : List UInt8 :=
  b.take i ++ src ++ b.drop (i + src.length)

/-- The loop of `Decode`, from the cursor to the end of the packet. -/
def decodeAttributes : List UInt8 → Except String (List Attribute)
  | [] => .ok []
  | [_] => .error "truncated attribute header"
  | t :: l :: rest =>
    if l.toNat < 2 then
      .error ("attribute " ++ toString t.toNat ++ " declares length " ++ toString l.toNat)
    else if l.toNat > rest.length + 2 then
      .error ("attribute " ++ toString t.toNat ++ " runs past the end of the packet")
    else
      match decodeAttributes (rest.drop (l.toNat - 2)) with
      | .error e => .error e
      | .ok attrs => .ok (⟨t, rest.take (l.toNat - 2)⟩ :: attrs)
termination_by b => b.length
decreasing_by
  simp only [length_drop, length_cons]
  omega

def decode (b : List UInt8) : Except String Packet :=
  if b.length < headerLen then
    .error ("packet is " ++ toString b.length ++ " bytes, shorter than a header")
  else
    let length := uint16 (b.getD 2 0) (b.getD 3 0)
    if hlen : length < headerLen ∨ length > maxPacket then
      .error ("declared length " ++ toString length ++ " is out of range")
    else if harrived : b.length < length then
      .error ("packet declares " ++ toString length ++ " bytes, " ++ toString b.length ++
        " arrived")
    else
      match decodeAttributes ((b.take length).drop headerLen) with
      | .error e => .error e
      | .ok attrs => .ok
          { code := b.getD 0 0
            identifier := b.getD 1 0
            authenticator := ⟨((b.take length).drop 4).take authLen, by
              simp only [headerLen, authLen, length_take, length_drop] at *
              omega⟩
            attributes := attrs
            raw := b.take length }

def Packet.attr (p : Packet) (t : UInt8) : Option (List UInt8) :=
  (p.attributes.find? (·.type == t)).map (·.value)

def Packet.count (p : Packet) (t : UInt8) : ℕ := p.attributes.countP (·.type == t)

/-- The loop of `withZeroedMessageAuthenticator`; it stops at an attribute it cannot read. -/
def zeroAttributes : List UInt8 → List UInt8
  | t :: l :: rest =>
    if l.toNat < 2 ∨ l.toNat > rest.length + 2 then t :: l :: rest
    else
      let value := rest.take (l.toNat - 2)
      let zeroed := if t = attrMessageAuthenticator then List.replicate value.length 0 else value
      t :: l :: zeroed ++ zeroAttributes (rest.drop (l.toNat - 2))
  | short => short
termination_by b => b.length
decreasing_by
  simp only [length_drop, length_cons]
  omega

def Packet.withZeroedMessageAuthenticator (p : Packet) : List UInt8 :=
  p.raw.take headerLen ++ zeroAttributes (p.raw.drop headerLen)

section

variable (md5 : List UInt8 → Digest) (hmac : List UInt8 → List UInt8 → Digest)

def Packet.verifyMessageAuthenticatorWith (p : Packet)
    (secret requestAuthenticator : List UInt8) : Except String Unit :=
  if p.count attrMessageAuthenticator = 0 then
    .error ("the request carries no Message-Authenticator, so it cannot " ++
      "be authenticated (CVE-2024-3596); configure the device to send one")
  else if p.count attrMessageAuthenticator > 1 then
    .error "the request carries more than one Message-Authenticator"
  else
    let got := (p.attr attrMessageAuthenticator).getD []
    if got.length ≠ 16 then
      .error ("Message-Authenticator is " ++ toString got.length ++ " bytes, expected 16")
    else
      let zeroed := p.withZeroedMessageAuthenticator
      let zeroed := if requestAuthenticator.length = authLen
        then copyAt zeroed 4 requestAuthenticator else zeroed
      if got ≠ (hmac secret zeroed).val then .error "Message-Authenticator did not verify"
      else .ok ()

/-- The loop of `Response` over the attributes. -/
def encodeAttributes : List Attribute → Except String (List UInt8)
  | [] => .ok []
  | a :: attrs =>
    if a.value.length > 253 then
      .error ("attribute " ++ toString a.type.toNat ++ " is " ++ toString a.value.length ++
        " bytes, over the limit")
    else
      match encodeAttributes attrs with
      | .error e => .error e
      | .ok body => .ok (a.type :: UInt8.ofNat (a.value.length + 2) :: a.value ++ body)

def response (req : Packet) (code : UInt8) (secret : List UInt8) (extra : List Attribute) :
    Except String (List UInt8) :=
  match encodeAttributes (⟨attrMessageAuthenticator, List.replicate 16 0⟩ :: extra) with
  | .error e => .error e
  | .ok body =>
    let length := headerLen + body.length
    if length > maxPacket then .error ("response would be " ++ toString length ++ " bytes")
    else
      let pkt := code :: req.identifier :: putUint16 length ++ req.authenticator.val ++ body
      let pkt := copyAt pkt (headerLen + 2) (hmac secret pkt).val
      .ok (copyAt pkt 4 (md5 (pkt ++ secret)).val)

end

def Packet.eapMessage (p : Packet) : Option (List UInt8) :=
  let chunks := p.attributes.filter (·.type == attrEAPMessage)
  if chunks = [] then none else some (chunks.flatMap Attribute.value)

def eapAttributes (eap : List UInt8) : List Attribute :=
  if eap.length > maxEAPMessageChunk then
    ⟨attrEAPMessage, eap.take maxEAPMessageChunk⟩ :: eapAttributes (eap.drop maxEAPMessageChunk)
  else [⟨attrEAPMessage, eap⟩]
termination_by eap.length
decreasing_by
  rw [length_drop, maxEAPMessageChunk] at *
  omega

section

def Attribute.bytes (a : Attribute) : List UInt8 :=
  a.type :: UInt8.ofNat (a.value.length + 2) :: a.value

def Attribute.Fits (a : Attribute) : Prop := a.value.length ≤ 253

def Attribute.zeroed (a : Attribute) : Attribute :=
  ⟨a.type, if a.type = attrMessageAuthenticator then List.replicate a.value.length 0
    else a.value⟩

theorem Attribute.Fits.length_toNat {a : Attribute} (h : a.Fits) :
    (UInt8.ofNat (a.value.length + 2)).toNat = a.value.length + 2 := by
  rw [UInt8.toNat_ofNat']
  exact Nat.mod_eq_of_lt (by rw [Attribute.Fits] at h; omega)

theorem encodeAttributes_ok {attrs : List Attribute} {body : List UInt8}
    (h : encodeAttributes attrs = .ok body) :
    (∀ a ∈ attrs, a.Fits) ∧ body = attrs.flatMap Attribute.bytes := by
  induction attrs generalizing body with
  | nil =>
    rw [encodeAttributes, Except.ok.injEq] at h
    exact ⟨by simp, h.symm⟩
  | cons a attrs ih =>
    rw [encodeAttributes] at h
    split at h
    · cases h
    · rename_i hfits
      split at h
      · cases h
      · rename_i tail htail
        obtain ⟨hattrs, rfl⟩ := ih htail
        obtain rfl := Except.ok.inj h
        refine ⟨?_, by simp [Attribute.bytes]⟩
        intro b hb
        rcases mem_cons.mp hb with rfl | hb
        · exact Nat.le_of_not_lt hfits
        · exact hattrs b hb

theorem decodeAttributes_bytes {attrs : List Attribute} (h : ∀ a ∈ attrs, a.Fits) :
    decodeAttributes (attrs.flatMap Attribute.bytes) = .ok attrs := by
  induction attrs with
  | nil => simp [decodeAttributes]
  | cons a attrs ih =>
    have ha := (h a mem_cons_self).length_toNat
    have ih := ih fun b hb => h b (mem_cons_of_mem a hb)
    rw [flatMap_cons, Attribute.bytes, cons_append, cons_append,
      decodeAttributes, ha, if_neg (by omega), if_neg (by simp), Nat.add_sub_cancel,
      drop_left, take_left, ih]

theorem zeroAttributes_bytes {attrs : List Attribute} (h : ∀ a ∈ attrs, a.Fits) :
    zeroAttributes (attrs.flatMap Attribute.bytes) =
      (attrs.map Attribute.zeroed).flatMap Attribute.bytes := by
  induction attrs with
  | nil => simp [zeroAttributes]
  | cons a attrs ih =>
    have ha := (h a mem_cons_self).length_toNat
    have ih := ih fun b hb => h b (mem_cons_of_mem a hb)
    have hlen : a.zeroed.value.length = a.value.length := by
      unfold Attribute.zeroed
      split <;> simp
    rw [flatMap_cons, Attribute.bytes, cons_append, cons_append,
      zeroAttributes, ha, if_neg (by simp), Nat.add_sub_cancel, drop_left,
      take_left, ih, map_cons, flatMap_cons, Attribute.bytes, hlen]
    rfl

theorem zeroed_other {a : Attribute} (h : a.type ≠ attrMessageAuthenticator) : a.zeroed = a := by
  rw [Attribute.zeroed, if_neg h]

def wire (code identifier : UInt8) (auth : Digest) (attrs : List Attribute) : List UInt8 :=
  code :: identifier :: putUint16 (headerLen + (attrs.flatMap Attribute.bytes).length) ++
    auth.val ++ attrs.flatMap Attribute.bytes

theorem copyAt_middle {pre old new post : List UInt8} {i : ℕ} (hi : pre.length = i)
    (hlen : old.length = new.length) : copyAt (pre ++ old ++ post) i new = pre ++ new ++ post := by
  rw [copyAt, ← hi, ← hlen, List.append_assoc pre old post, take_left, ← drop_drop,
    drop_left, drop_left]

theorem copyAt_authenticator (code identifier : UInt8) (auth auth' : Digest)
    (attrs : List Attribute) :
    copyAt (wire code identifier auth attrs) 4 auth'.val = wire code identifier auth' attrs :=
  copyAt_middle rfl (auth.property.trans auth'.property.symm)

theorem copyAt_first (code identifier : UInt8) (auth : Digest) (t : UInt8) (old new : Digest)
    (attrs : List Attribute) :
    copyAt (wire code identifier auth (⟨t, old.val⟩ :: attrs)) (headerLen + 2) new.val =
      wire code identifier auth (⟨t, new.val⟩ :: attrs) := by
  have hauth : auth.val.length = 16 := auth.property
  have hlen : old.val.length = new.val.length := old.property.trans new.property.symm
  have hsplit : ∀ d : Digest, d.val.length = old.val.length →
      wire code identifier auth (⟨t, d.val⟩ :: attrs) =
        (code :: identifier :: putUint16 (headerLen +
          (List.flatMap Attribute.bytes (⟨t, old.val⟩ :: attrs)).length) ++ auth.val ++
            [t, UInt8.ofNat (old.val.length + 2)]) ++ d.val ++ attrs.flatMap Attribute.bytes := by
    intro d hd
    simp [wire, Attribute.bytes, hd]
  rw [hsplit old rfl, hsplit new hlen.symm]
  exact copyAt_middle (by simp [putUint16, hauth, headerLen]) hlen

theorem wire_length (code identifier : UInt8) (auth : Digest) (attrs : List Attribute) :
    (wire code identifier auth attrs).length =
      headerLen + (attrs.flatMap Attribute.bytes).length := by
  have hauth : auth.val.length = 16 := auth.property
  simp only [wire, putUint16, length_append, length_cons, length_nil, hauth,
    headerLen]

theorem wire_drop (code identifier : UInt8) (auth : Digest) (attrs : List Attribute) :
    (wire code identifier auth attrs).drop headerLen = attrs.flatMap Attribute.bytes := by
  have hauth : auth.val.length = 16 := auth.property
  exact drop_left' (by simp [putUint16, hauth, headerLen])

theorem wire_take (code identifier : UInt8) (auth : Digest) (attrs : List Attribute) :
    (wire code identifier auth attrs).take headerLen =
      code :: identifier :: putUint16 (headerLen + (attrs.flatMap Attribute.bytes).length) ++
        auth.val := by
  have hauth : auth.val.length = 16 := auth.property
  exact take_left' (by simp [putUint16, hauth, headerLen])

theorem decode_wire (code identifier : UInt8) (auth : Digest) {attrs : List Attribute}
    (hfits : ∀ a ∈ attrs, a.Fits)
    (hlen : headerLen + (attrs.flatMap Attribute.bytes).length ≤ maxPacket) :
    decode (wire code identifier auth attrs) =
      .ok ⟨code, identifier, auth, attrs, wire code identifier auth attrs⟩ := by
  have hdeclared : uint16 ((wire code identifier auth attrs).getD 2 0)
      ((wire code identifier auth attrs).getD 3 0) = (wire code identifier auth attrs).length := by
    rw [wire_length]
    exact uint16_put (by rw [maxPacket] at hlen; omega)
  have hwire := wire_length code identifier auth attrs
  have hauth : auth.val.length = 16 := auth.property
  have hauth4 : ((wire code identifier auth attrs).drop 4).take authLen = auth.val := by
    change (auth.val ++ attrs.flatMap Attribute.bytes).take authLen = auth.val
    exact take_left' hauth
  rw [decode, if_neg (by rw [hwire, headerLen]; omega)]
  simp only [hdeclared, take_length]
  rw [dif_neg (by rw [hwire]; omega), dif_neg (by omega), wire_drop,
    decodeAttributes_bytes hfits]
  simp only [hauth4]
  rfl

variable (md5 : List UInt8 → Digest) (hmac : List UInt8 → List UInt8 → Digest)

def replyMac (req : Packet) (code : UInt8) (secret : List UInt8) (extra : List Attribute) :
    Digest :=
  hmac secret (wire code req.identifier req.authenticator
    (⟨attrMessageAuthenticator, List.replicate 16 0⟩ :: extra))

theorem response_ok {req : Packet} {code : UInt8} {secret bytes : List UInt8}
    {extra : List Attribute} (h : response md5 hmac req code secret extra = .ok bytes) :
    (∃ auth : Digest, bytes = wire code req.identifier auth
        (⟨attrMessageAuthenticator, (replyMac hmac req code secret extra).val⟩ :: extra)) ∧
      headerLen + 18 + (extra.flatMap Attribute.bytes).length ≤ maxPacket ∧
      ∀ a ∈ extra, a.Fits := by
  unfold response at h
  split at h
  · cases h
  · rename_i body hbody
    obtain ⟨hfits, rfl⟩ := encodeAttributes_ok hbody
    dsimp only at h
    split at h
    · cases h
    · rename_i hlen
      have hfirst := copyAt_first code req.identifier req.authenticator attrMessageAuthenticator
        ⟨List.replicate 16 0, rfl⟩ (replyMac hmac req code secret extra) extra
      unfold replyMac wire at hfirst
      rw [hfirst] at h
      obtain rfl := Except.ok.inj h
      refine ⟨⟨_, copyAt_authenticator code req.identifier req.authenticator _ _⟩, ?_,
        fun a ha => hfits a (mem_cons_of_mem _ ha)⟩
      simp only [flatMap_cons, Attribute.bytes, length_append, length_cons,
        length_replicate] at hlen
      omega

theorem zeroed_wire (code identifier : UInt8) (auth requestAuth mac : Digest)
    {extra : List Attribute} (hfits : ∀ a ∈ extra, a.Fits)
    (hextra : ∀ a ∈ extra, a.type ≠ attrMessageAuthenticator) {p : Packet}
    (hraw : p.raw = wire code identifier auth (⟨attrMessageAuthenticator, mac.val⟩ :: extra)) :
    copyAt p.withZeroedMessageAuthenticator 4 requestAuth.val =
      wire code identifier requestAuth
        (⟨attrMessageAuthenticator, List.replicate 16 0⟩ :: extra) := by
  have hmac : mac.val.length = 16 := mac.property
  have hfits' : ∀ a ∈ (⟨attrMessageAuthenticator, mac.val⟩ :: extra : List Attribute), a.Fits := by
    intro a ha
    rcases mem_cons.mp ha with rfl | ha
    · simp [Attribute.Fits, hmac]
    · exact hfits a ha
  have hzeroed : (⟨attrMessageAuthenticator, mac.val⟩ :: extra : List Attribute).map
      Attribute.zeroed = ⟨attrMessageAuthenticator, List.replicate 16 0⟩ :: extra := by
    rw [map_cons, map_congr_left fun a ha => zeroed_other (hextra a ha), map_id']
    simp [Attribute.zeroed, hmac]
  have hlen : (List.flatMap Attribute.bytes
      (⟨attrMessageAuthenticator, mac.val⟩ :: extra)).length =
      (List.flatMap Attribute.bytes
        (⟨attrMessageAuthenticator, List.replicate 16 0⟩ :: extra)).length := by
    simp only [flatMap_cons, Attribute.bytes, length_append, length_cons, hmac,
      length_replicate]
  have hwire : p.withZeroedMessageAuthenticator =
      wire code identifier auth (⟨attrMessageAuthenticator, List.replicate 16 0⟩ :: extra) := by
    rw [Packet.withZeroedMessageAuthenticator, hraw, wire_take, wire_drop,
      zeroAttributes_bytes hfits', hzeroed, hlen]
    rfl
  rw [hwire, copyAt_authenticator]

theorem verify_reply {p : Packet} {secret : List UInt8} {requestAuth mac : Digest}
    {extra : List Attribute} (hattrs : p.attributes = ⟨attrMessageAuthenticator, mac.val⟩ :: extra)
    (hextra : ∀ a ∈ extra, a.type ≠ attrMessageAuthenticator)
    (hval : mac = hmac secret (copyAt p.withZeroedMessageAuthenticator 4 requestAuth.val)) :
    p.verifyMessageAuthenticatorWith hmac secret requestAuth.val = .ok () := by
  have hcount : p.count attrMessageAuthenticator = 1 := by
    rw [Packet.count, hattrs, countP_cons_of_pos (by simp),
      countP_eq_zero.mpr (by simpa using hextra)]
  have hattr : p.attr attrMessageAuthenticator = some mac.val := by
    rw [Packet.attr, hattrs, find?_cons_of_pos (by simp)]
    rfl
  have hlen : mac.val.length = 16 := mac.property
  rw [Packet.verifyMessageAuthenticatorWith, hcount, if_neg (by omega), if_neg (by omega), hattr]
  simp only [Option.getD_some, hlen, ne_eq, not_true_eq_false, if_false,
    requestAuth.property, if_true, ← hval]

theorem eapAttributes_type (eap : List UInt8) :
    ∀ a ∈ eapAttributes eap, a.type = attrEAPMessage := by
  fun_induction eapAttributes eap with
  | case1 eap hlong ih =>
    intro a ha
    rcases mem_cons.mp ha with rfl | ha
    · rfl
    · exact ih a ha
  | case2 eap hshort =>
    intro a ha
    rw [mem_singleton.mp ha]

theorem eapAttributes_value (eap : List UInt8) :
    (eapAttributes eap).flatMap Attribute.value = eap := by
  fun_induction eapAttributes eap with
  | case1 eap hlong ih => rw [flatMap_cons, ih, take_append_drop]
  | case2 eap hshort => simp

theorem eapAttributes_ne_nil (eap : List UInt8) : eapAttributes eap ≠ [] := by
  rw [eapAttributes]
  split <;> simp

theorem value_length_le_bytes (attrs : List Attribute) :
    (attrs.flatMap Attribute.value).length ≤ (attrs.flatMap Attribute.bytes).length := by
  induction attrs with
  | nil => simp
  | cons a attrs ih =>
    simp only [flatMap_cons, Attribute.bytes, length_append, length_cons]
    omega

theorem eapMessage_chunks {p : Packet} {first : Attribute} {before after : List Attribute}
    {eap : List UInt8} (hattrs : p.attributes = first :: (before ++ eapAttributes eap ++ after))
    (hfirst : first.type ≠ attrEAPMessage) (hbefore : ∀ a ∈ before, a.type ≠ attrEAPMessage)
    (hafter : ∀ a ∈ after, a.type ≠ attrEAPMessage) : p.eapMessage = some eap := by
  have hchunks : p.attributes.filter (·.type == attrEAPMessage) = eapAttributes eap := by
    rw [hattrs, filter_cons_of_neg (by simpa using hfirst), filter_append,
      filter_append, filter_eq_nil_iff.mpr (by simpa using hbefore),
      filter_eq_self.mpr (by simpa using eapAttributes_type eap),
      filter_eq_nil_iff.mpr (by simpa using hafter), nil_append, append_nil]
  rw [Packet.eapMessage, hchunks, if_neg (eapAttributes_ne_nil eap), eapAttributes_value]

theorem data_length_of_encode {p : EAPPacket} (h : p.encode.length ≤ maxPacket)
    (hp : p.WellFormed) : p.data.length ≤ 65530 := by
  by_cases hc : p.code = EAPSuccess ∨ p.code = EAPFailure
  · rcases hp with hreq | hresp | hverdict
    · rcases hc with hc | hc <;> simp [hreq, EAPRequest, EAPSuccess, EAPFailure] at hc
    · rcases hc with hc | hc <;> simp [hresp, EAPResponse, EAPSuccess, EAPFailure] at hc
    · simp [hverdict.2.2]
  · by_contra hlong
    simp only [EAPPacket.encode, if_neg hc, putUint16, length_append, length_cons] at h
    rw [if_pos (by omega), length_take, maxPacket] at h
    omega

/-- A reply is read back as it was sent, and so is an EAP packet inside it. -/
theorem response_decodes (req : Packet) (code : UInt8) (secret : List UInt8)
    (extra : List Attribute) {bytes : List UInt8}
    (h : response md5 hmac req code secret extra = .ok bytes)
    (hextra : ∀ a ∈ extra, a.type ≠ attrMessageAuthenticator) :
    ∃ p mac, decode bytes = .ok p ∧ p.code = code ∧ p.identifier = req.identifier ∧
      p.attributes = ⟨attrMessageAuthenticator, mac⟩ :: extra ∧
      p.verifyMessageAuthenticatorWith hmac secret req.authenticator.val = .ok () ∧
      ∀ (eap : EAPPacket) (before after : List Attribute), eap.WellFormed →
        extra = before ++ eapAttributes eap.encode ++ after →
        (∀ a ∈ before ++ after, a.type ≠ attrEAPMessage) →
          ∃ raw, p.eapMessage = some raw ∧ decodeEAP raw = .ok eap := by
  obtain ⟨⟨auth, rfl⟩, hlen, hfits⟩ := response_ok md5 hmac h
  have hmac16 : (replyMac hmac req code secret extra).val.length = 16 :=
    (replyMac hmac req code secret extra).property
  have hall : ∀ a ∈ (⟨attrMessageAuthenticator, (replyMac hmac req code secret extra).val⟩ ::
      extra : List Attribute), a.Fits := by
    intro a ha
    rcases mem_cons.mp ha with rfl | ha
    · simp [Attribute.Fits, hmac16]
    · exact hfits a ha
  have hwhole : headerLen + (List.flatMap Attribute.bytes
      (⟨attrMessageAuthenticator, (replyMac hmac req code secret extra).val⟩ ::
        extra)).length ≤ maxPacket := by
    simp only [flatMap_cons, Attribute.bytes, length_append, length_cons, hmac16]
    omega
  refine ⟨_, _, decode_wire code req.identifier auth hall hwhole, rfl, rfl, rfl, ?_, ?_⟩
  · refine verify_reply hmac rfl hextra ?_
    rw [zeroed_wire code req.identifier auth req.authenticator _ hfits hextra rfl]
    rfl
  · intro eap before after hp hsplit hother
    have hencode : eap.encode.length ≤ maxPacket := by
      have hle := value_length_le_bytes extra
      rw [hsplit, flatMap_append, flatMap_append, eapAttributes_value, ← hsplit,
        length_append, length_append] at hle
      omega
    refine ⟨eap.encode, ?_, decodeEAP_encode hp (data_length_of_encode hencode hp)⟩
    refine eapMessage_chunks (congrArg _ hsplit)
      (show attrMessageAuthenticator ≠ attrEAPMessage by decide) ?_ ?_
    · exact fun a ha => hother a (mem_append_left after ha)
    · exact fun a ha => hother a (mem_append_right before ha)

def zeroDigest : Digest := ⟨List.replicate 16 0, rfl⟩

/-- An Access-Accept that carries EAP-Success. -/
theorem response_decodes_success :
    ∃ bytes p, response (fun _ => zeroDigest) (fun _ _ => zeroDigest)
        ⟨1, 9, zeroDigest, [], []⟩ 2 [115] [⟨attrEAPMessage, [3, 7, 0, 4]⟩] = .ok bytes ∧
      decode bytes = .ok p ∧ p.identifier = 9 ∧
      ∃ raw, p.eapMessage = some raw ∧ decodeEAP raw = .ok ⟨EAPSuccess, 7, 0, []⟩ := by
  obtain ⟨p, mac, hdecode, -, hid, -, -, heap⟩ :=
    response_decodes (fun _ => zeroDigest) (fun _ _ => zeroDigest)
      ⟨1, 9, zeroDigest, [], []⟩ 2 [115] [⟨attrEAPMessage, [3, 7, 0, 4]⟩] rfl (by decide)
  refine ⟨_, p, rfl, hdecode, hid, ?_⟩
  refine heap ⟨EAPSuccess, 7, 0, []⟩ [] [] (.inr (.inr ⟨.inl rfl, rfl, rfl⟩)) ?_ (by simp)
  rw [eapAttributes]
  rfl

end

end Signari.RadiusPackets
