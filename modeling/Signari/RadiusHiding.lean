import Signari.CipherFeedback
import Signari.RadiusPackets

/-!
# Hidden attributes

The two attributes that RADIUS hides with MD5. A device hides the User-Password (RFC 2865
section 5.2) and `DecodePassword` reveals it; `encodeMPPEKey` hides a session key and the
access point reveals it (RFC 2548 section 2.4.2). Both combine each block of sixteen bytes
with the digest of the secret and the hidden block before, the password starting from the
request's authenticator and the key from the authenticator and a salt.

The specification's side is `hiddenPassword` and `decodeMPPEKey`.
-/
namespace Signari.RadiusHiding
open CipherFeedback EapFrames RadiusPackets List

def attrUserPassword : UInt8 := 2
def attrVendorSpecific : UInt8 := 26

def vendorMicrosoft : UInt32 := 311
def vendorTypeSendKey : UInt8 := 16
def vendorTypeRecvKey : UInt8 := 17

section
variable (md5 : List UInt8 → Digest) (secret : List UInt8)

/-- The digest a block is combined with. -/
def blockKey (prev : List UInt8) : List UInt8 := (md5 (secret ++ prev)).val

/-- RFC 2865 section 5.2: filled up with NULs, and hidden from the authenticator on. -/
def hiddenPassword (authenticator : Digest) (password : List UInt8) : List UInt8 :=
  let plain := padded 0 16 password
  hide (· ^^^ ·) (blockKey md5 secret) 16 (plain.length / 16) authenticator.val plain

def decodePassword (p : Packet) : Except String (List UInt8) :=
  match p.attr attrUserPassword with
  | none => .error "no User-Password attribute"
  | some ct =>
    if ct.length = 0 ∨ ct.length % 16 ≠ 0 ∨ ct.length > 128 then
      .error ("User-Password is " ++ toString ct.length ++ " bytes, which is not a valid length")
    else
      let out := reveal (· ^^^ ·) (blockKey md5 secret) 16 (ct.length / 16) p.authenticator.val ct
      .ok (out.rdropWhile (· = 0))

def encodeMPPEKey (random : Except String (UInt8 × UInt8)) (vendorType : UInt8)
    (key requestAuthenticator : List UInt8) : Except String Attribute :=
  match random with
  | .error e => .error e
  | .ok (r₀, r₁) =>
    let salt := [r₀ ||| 0x80, r₁]
    if key.length > 255 then
      .error ("MPPE key is " ++ toString key.length ++ " bytes, maximum is 255")
    else
      let plain := padded 0 16 (UInt8.ofNat key.length :: key)
      let cipher := hide (· ^^^ ·) (blockKey md5 secret) 16 (plain.length / 16)
        (requestAuthenticator ++ salt) plain
      if 6 + 2 + cipher.length > 253 then
        .error ("MPPE attribute would be " ++ toString (6 + 2 + cipher.length) ++
          " bytes, over the 253 a RADIUS attribute can carry")
      else
        .ok ⟨attrVendorSpecific, putUint32 vendorMicrosoft ++
          vendorType :: UInt8.ofNat (2 + 2 + cipher.length) :: (salt ++ cipher)⟩

def errNotEnoughKeyMaterial : String := "EAP keying material is shorter than 64 bytes"

/-- The two halves of the master key, each under its own salt. -/
def mppeKeyAttributes (sendRandom recvRandom : Except String (UInt8 × UInt8))
    (msk requestAuthenticator : List UInt8) : Except String (List Attribute) :=
  if msk.length < 64 then .error errNotEnoughKeyMaterial
  else
    let recvKey := msk.take 32
    let sendKey := (msk.take 64).drop 32
    match encodeMPPEKey md5 secret sendRandom vendorTypeSendKey sendKey requestAuthenticator,
        encodeMPPEKey md5 secret recvRandom vendorTypeRecvKey recvKey requestAuthenticator with
    | .error e, _ => .error e
    | .ok _, .error e => .error e
    | .ok send, .ok recv => .ok [send, recv]

def decodeMPPEKey (requestAuthenticator : List UInt8) (a : Attribute) :
    Option (UInt8 × List UInt8) :=
  match a.value with
  | v₀ :: v₁ :: v₂ :: v₃ :: vendorType :: vendorLength :: s₀ :: s₁ :: cipher =>
    if a.type = attrVendorSpecific ∧ uint32 v₀ v₁ v₂ v₃ = vendorMicrosoft ∧
        vendorLength.toNat = 4 + cipher.length ∧ 0x80 ≤ s₀ ∧ cipher.length % 16 = 0 then
      match reveal (· ^^^ ·) (blockKey md5 secret) 16 (cipher.length / 16)
          (requestAuthenticator ++ [s₀, s₁]) cipher with
      | [] => none
      | n :: text => if n.toNat ≤ text.length then some (vendorType, text.take n.toNat) else none
    else none
  | _ => none

variable {md5 secret}

theorem xor_xor_cancel (x k : UInt8) : x ^^^ k ^^^ k = x := by
  rw [UInt8.xor_assoc, UInt8.xor_self, UInt8.xor_zero]

theorem blockKey_length (prev : List UInt8) : (blockKey md5 secret prev).length = 16 :=
  (md5 (secret ++ prev)).property

theorem reveal_hide_padded (md5 : List UInt8 → Digest) (secret start text : List UInt8) :
    let plain := padded 0 16 text
    let hidden := hide (· ^^^ ·) (blockKey md5 secret) 16 (plain.length / 16) start plain
    hidden.length = (text.length + 15) / 16 * 16 ∧
      reveal (· ^^^ ·) (blockKey md5 secret) 16 (hidden.length / 16) start hidden = plain := by
  intro plain hidden
  have hplain : plain.length = (text.length + 15) / 16 * 16 := padded_length (by decide) text
  have hwhole : plain.length = plain.length / 16 * 16 := by
    rw [hplain, Nat.mul_div_cancel _ (by decide)]
  have hlen : hidden.length = plain.length := by
    rw [hide_length blockKey_length hwhole, ← hwhole]
  exact ⟨hlen.trans hplain, by rw [hlen]; exact reveal_hide xor_xor_cancel blockKey_length hwhole⟩

theorem decodePassword_hidden {p : Packet} {password : List UInt8} (hne : 1 ≤ password.length)
    (hlen : password.length ≤ 128) (hlast : password.getLast? ≠ some 0)
    (hp : p.attr attrUserPassword = some (hiddenPassword md5 secret p.authenticator password)) :
    decodePassword md5 secret p = .ok password := by
  obtain ⟨hhidden, hreveal⟩ := reveal_hide_padded md5 secret p.authenticator.val password
  change (hiddenPassword md5 secret p.authenticator password).length = _ at hhidden
  have hvalid : ¬((hiddenPassword md5 secret p.authenticator password).length = 0 ∨
      (hiddenPassword md5 secret p.authenticator password).length % 16 ≠ 0 ∨
      (hiddenPassword md5 secret p.authenticator password).length > 128) := by
    rw [hhidden]
    omega
  have htrim : (padded 0 16 password).rdropWhile (· = 0) = password :=
    rdropWhile_padded fun c hc h => hlast (h ▸ hc)
  simp only [decodePassword, hp, if_neg hvalid]
  exact congrArg Except.ok ((congrArg (List.rdropWhile _) hreveal).trans htrim)

theorem salt_marked (r : UInt8) : 0x80 ≤ r ||| 0x80 := by
  rw [UInt8.le_iff_toNat_le, UInt8.toNat_or]
  exact Nat.right_le_or

theorem encodeMPPEKey_decodes (md5 : List UInt8 → Digest) (secret : List UInt8)
    (vendorType : UInt8) (r : UInt8 × UInt8) (requestAuthenticator : List UInt8)
    {key : List UInt8} (hkey : key.length ≤ 239) :
    ∃ a, encodeMPPEKey md5 secret (.ok r) vendorType key requestAuthenticator = .ok a ∧
      decodeMPPEKey md5 secret requestAuthenticator a = some (vendorType, key) := by
  obtain ⟨r₀, r₁⟩ := r
  obtain ⟨hhidden, hreveal⟩ := reveal_hide_padded md5 secret
    (requestAuthenticator ++ [r₀ ||| 0x80, r₁]) (UInt8.ofNat key.length :: key)
  generalize hcipher : hide (· ^^^ ·) (blockKey md5 secret) 16
    ((padded 0 16 (UInt8.ofNat key.length :: key)).length / 16)
    (requestAuthenticator ++ [r₀ ||| 0x80, r₁]) (padded 0 16 (UInt8.ofNat key.length :: key)) =
      cipher at hhidden hreveal
  rw [length_cons] at hhidden
  refine ⟨⟨attrVendorSpecific, putUint32 vendorMicrosoft ++ vendorType ::
    UInt8.ofNat (2 + 2 + cipher.length) :: ([r₀ ||| 0x80, r₁] ++ cipher)⟩, ?_, ?_⟩
  · have hshort : ¬key.length > 255 := by omega
    have hfits : ¬6 + 2 + cipher.length > 253 := by omega
    simp only [encodeMPPEKey, hcipher, if_neg hshort, if_neg hfits]
  · have hvendor : (UInt8.ofNat (2 + 2 + cipher.length)).toNat = 4 + cipher.length := by
      rw [UInt8.toNat_ofNat', Nat.mod_eq_of_lt (by omega)]
    have hcount : (UInt8.ofNat key.length).toNat = key.length := by
      rw [UInt8.toNat_ofNat', Nat.mod_eq_of_lt (by omega)]
    have hwhole : cipher.length % 16 = 0 := by
      rw [hhidden, Nat.mul_mod_left]
    simp only [decodeMPPEKey, putUint32, cons_append, nil_append]
    rw [if_pos ⟨trivial, uint32_put vendorMicrosoft, hvendor, salt_marked r₀, hwhole⟩, hreveal]
    simp only [padded, cons_append, hcount]
    rw [if_pos (by simp), take_left]

/-- Hiding inverts: a password of 1 to 128 bytes that does not end in NUL is what
`DecodePassword` makes of its encoding, and a key of at most 239 bytes is what the receiver
makes of its attribute, whatever the digest, the secret, the authenticator and the salt. -/
theorem hiding_inverts (md5 : List UInt8 → Digest) (secret : List UInt8) :
    (∀ (p : Packet) (password : List UInt8), 1 ≤ password.length → password.length ≤ 128 →
      password.getLast? ≠ some 0 →
      p.attr attrUserPassword = some (hiddenPassword md5 secret p.authenticator password) →
      decodePassword md5 secret p = .ok password) ∧
    ∀ (vendorType : UInt8) (r : UInt8 × UInt8) (requestAuthenticator key : List UInt8),
      key.length ≤ 239 →
      ∃ a, encodeMPPEKey md5 secret (.ok r) vendorType key requestAuthenticator = .ok a ∧
        decodeMPPEKey md5 secret requestAuthenticator a = some (vendorType, key) :=
  ⟨fun _ _ hne hlen hlast hp => decodePassword_hidden hne hlen hlast hp,
    fun vendorType r requestAuthenticator _ hkey =>
      encodeMPPEKey_decodes md5 secret vendorType r requestAuthenticator hkey⟩

/-- The receiver gets the second half of a master key as the send key, the first as the
receive key. -/
theorem mppeKeyAttributes_decode (r₀ r₁ : UInt8 × UInt8) (requestAuthenticator : List UInt8)
    {msk : List UInt8} (hmsk : 64 ≤ msk.length) :
    ∃ send recv, mppeKeyAttributes md5 secret (.ok r₀) (.ok r₁) msk requestAuthenticator =
        .ok [send, recv] ∧
      decodeMPPEKey md5 secret requestAuthenticator send =
        some (vendorTypeSendKey, (msk.take 64).drop 32) ∧
      decodeMPPEKey md5 secret requestAuthenticator recv =
        some (vendorTypeRecvKey, msk.take 32) := by
  have hsendKey : ((msk.take 64).drop 32).length ≤ 239 := by
    simp only [length_drop, length_take]
    omega
  have hrecvKey : (msk.take 32).length ≤ 239 := by
    rw [length_take]
    omega
  obtain ⟨send, hsend, hsent⟩ := encodeMPPEKey_decodes md5 secret vendorTypeSendKey r₀
    requestAuthenticator hsendKey
  obtain ⟨recv, hrecv, hreceived⟩ := encodeMPPEKey_decodes md5 secret vendorTypeRecvKey r₁
    requestAuthenticator hrecvKey
  refine ⟨send, recv, ?_, hsent, hreceived⟩
  simp only [mppeKeyAttributes, if_neg (Nat.not_lt.mpr hmsk), hsend, hrecv]

/-- A digest of every byte. -/
def sumDigest (bytes : List UInt8) : Digest :=
  ⟨List.replicate 16 (bytes.foldl UInt8.add 0), length_replicate⟩

theorem mppeKeyAttributes_decode_range : ∃ send recv,
    mppeKeyAttributes sumDigest [1, 2] (.ok (0x80, 1)) (.ok (0x80, 2))
        ((List.range 64).map Nat.toUInt8) [3, 4] = .ok [send, recv] ∧
      decodeMPPEKey sumDigest [1, 2] [3, 4] send =
        some (vendorTypeSendKey, (List.range' 32 32).map Nat.toUInt8) ∧
      decodeMPPEKey sumDigest [1, 2] [3, 4] recv =
        some (vendorTypeRecvKey, (List.range 32).map Nat.toUInt8) :=
  mppeKeyAttributes_decode (0x80, 1) (0x80, 2) [3, 4] (by decide)

/-- A password of two blocks and a key, each hidden and read back. -/
theorem hiding_inverts_sample :
    (∃ p, decodePassword sumDigest [1, 2] p = .ok (List.replicate 20 112)) ∧
    ∃ a, encodeMPPEKey sumDigest [1, 2] (.ok (0x80, 1)) vendorTypeSendKey [5, 6, 7] [3, 4] = .ok a ∧
      decodeMPPEKey sumDigest [1, 2] [3, 4] a = some (vendorTypeSendKey, [5, 6, 7]) := by
  obtain ⟨hpassword, hkey⟩ := hiding_inverts sumDigest [1, 2]
  refine ⟨⟨⟨1, 7, sumDigest [8], [⟨attrUserPassword, hiddenPassword sumDigest [1, 2] (sumDigest [8])
    (List.replicate 20 112)⟩], []⟩, hpassword _ _ (by decide) (by decide) (by decide) rfl⟩,
    hkey vendorTypeSendKey (0x80, 1) [3, 4] [5, 6, 7] (by decide)⟩

end

end Signari.RadiusHiding
