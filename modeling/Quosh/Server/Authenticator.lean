/-
# A passkey that is genuine

`FakeAuthenticator` of `crates/quosh-server/src/webauthn.rs`, in the module `sim` of the tests:
a software authenticator with the CBOR writer it needs.  What it writes is in the formats of
`Quosh.Server.Webauthn`, so for every key, credential id, challenge and counter a registration
of it is accepted (`registration_round_trip`), and an assertion of it under the key that the
registration returned (`assertion_round_trip`).

Of JSON it takes that the client data in `client_json` are read back, and of ES256 that a
signature verifies under the key it was made with.
-/

import Quosh.Server.Webauthn

namespace Quosh

open Bytes Webauthn

/-! ### The CBOR writer -/

/-- `cbor_head`. -/
def cborHead (major val : ℕ) : Bytes :=
  let m := UInt8.ofNat major <<< 5
  if val < 24 then [m ||| UInt8.ofNat val]
  else if val < 256 then [m ||| 24, UInt8.ofNat val]
  else if val < 65536 then (m ||| 25) :: toBe 2 val
  else (m ||| 26) :: toBe 4 val

/-- `cbor_uint`. -/
def cborUint (v : ℕ) : Bytes := cborHead 0 v

/-- `cbor_nint`. -/
def cborNint (v : ℤ) : Bytes := cborHead 1 (-1 - v).toNat

/-- `cbor_bytes`. -/
def cborBytes (b : Bytes) : Bytes := cborHead 2 b.length ++ b

/-- `cbor_text`. -/
def cborText (s : String) : Bytes := cborHead 3 (asBytes s).length ++ asBytes s

/-- `cbor_map`. -/
def cborMap (pairs : List (Bytes × Bytes)) : Bytes :=
  cborHead 5 pairs.length ++ pairs.flatMap fun p => p.1 ++ p.2

/-- The width that the writer takes for an argument. -/
def widthOf (val : ℕ) : Width :=
  if val < 24 then .short else if val < 256 then .one else if val < 65536 then .two else .four

/-- A number fits the width that is taken for it. -/
theorem widthOf_fits {val : ℕ} (h : val < 256 ^ 4) : (widthOf val).Fits val := by
  unfold widthOf
  split_ifs with h24 h256 h65536
  · exact h24
  · exact h256
  · exact h65536
  · exact h

/-- The first byte of a head, as the authenticator puts it together. -/
theorem initial_or {major info : ℕ} (hmajor : major < 8) (hinfo : info < 32) :
    UInt8.ofNat major <<< 5 ||| UInt8.ofNat info = UInt8.ofNat (32 * major + info) := by
  have hall : ∀ (major : Fin 8) (info : Fin 32),
      UInt8.ofNat major.1 <<< 5 ||| UInt8.ofNat info.1 = UInt8.ofNat (32 * major.1 + info.1) := by
    decide +kernel
  exact hall ⟨major, hmajor⟩ ⟨info, hinfo⟩

/-- **The writer writes heads**, in the least width. -/
theorem cborHead_eq {major : ℕ} (hmajor : major < 8) (val : ℕ) :
    cborHead major val = head major (widthOf val) val := by
  have hor {info : ℕ} (hinfo : info < 32) := initial_or hmajor hinfo
  unfold cborHead widthOf head
  dsimp only
  split_ifs with h24 h256 h65536
  · rw [hor (by omega)]
    rfl
  · rw [show (24 : UInt8) = UInt8.ofNat 24 from rfl, hor (by omega)]
    simp [Width.info, Width.size, toBe, toLe]
  · rw [show (25 : UInt8) = UInt8.ofNat 25 from rfl, hor (by omega)]
    rfl
  · rw [show (26 : UInt8) = UInt8.ofNat 26 from rfl, hor (by omega)]
    rfl

/-! ### The authenticator -/

/-- `RP`. -/
def simRp : String := "quosh.jtcs.dev"

/-- `ORIGIN`. -/
def simOrigin : String := "https://quosh.jtcs.dev"

/-- `FakeAuthenticator`: the two halves of its public key, what it signs with, and the id of
its credential. -/
structure FakeAuthenticator where
  x : FixedBytes 32
  y : FixedBytes 32
  sign : Bytes → Bytes
  credentialId : Bytes

/-- `client_json`. -/
def clientJson (typ : String) (challenge : FixedBytes 32) : Bytes :=
  asBytes ("\x7b\"type\":\"" ++ typ ++ "\",\"challenge\":\"" ++ challengeText challenge ++
    "\",\"origin\":\"" ++ simOrigin ++ "\"\x7d")

/-- The authenticator data of `assertion`. -/
def simAuthData (W : Webauthn) (signCount : ℕ) : Bytes :=
  (W.sha256 (asBytes simRp)).1 ++ ((flagUp ||| flagUv) :: toBe 4 signCount)

namespace FakeAuthenticator

variable (f : FakeAuthenticator)

/-- `point`. -/
def point : Bytes := sec1Point f.x f.y

/-- `cose`. -/
def cose : Bytes :=
  cborMap [(cborUint 1, cborUint coseKtyEc2), (cborUint 3, cborNint coseAlgEs256),
    (cborNint (-1), cborUint 1), (cborNint (-2), cborBytes ((f.point.drop 1).take 32)),
    (cborNint (-3), cborBytes (f.point.drop 33))]

/-- `reg_auth_data`. -/
def regAuthData (W : Webauthn) (signCount : ℕ) : Bytes :=
  (W.sha256 (asBytes simRp)).1 ++ ((flagUp ||| flagUv ||| flagAt) :: (toBe 4 signCount ++
    (List.replicate 16 0 ++ (toBe 2 f.credentialId.length ++ (f.credentialId ++ f.cose)))))

/-- `registration`: the client data and the attestation object. -/
def registration (W : Webauthn) (challenge : FixedBytes 32) (signCount : ℕ) : Bytes × Bytes :=
  (clientJson "webauthn.create" challenge,
    cborMap [(cborText "fmt", cborText "none"), (cborText "attStmt", cborMap []),
      (cborText "authData", cborBytes (f.regAuthData W signCount))])

/-- `assertion`: the client data, the authenticator data and the signature. -/
def assertion (W : Webauthn) (challenge : FixedBytes 32) (signCount : ℕ) :
    Bytes × Bytes × Bytes :=
  let client := clientJson "webauthn.get" challenge
  let authData := simAuthData W signCount
  (client, authData, f.sign (authData ++ (W.sha256 client).1))

/-! ### What it writes -/

/-- The COSE key as an item. -/
def coseItem : Item :=
  .map .short [(.uint .short 1, .uint .short 2), (.uint .short 3, .nint .short 6),
    (.nint .short 0, .uint .short 1), (.nint .short 1, .bytes .one f.x.1),
    (.nint .short 2, .bytes .one f.y.1)]

/-- The attestation object as an item. -/
def attestationItem (data : Bytes) : Item :=
  .map .short [(.text .short (asBytes "fmt"), .text .short (asBytes "none")),
    (.text .short (asBytes "attStmt"), .map .short []),
    (.text .short (asBytes "authData"), .bytes (widthOf data.length) data)]

/-- The key is written as the item. -/
theorem encode_coseItem : f.coseItem.encode = f.cose := by
  have hx : (f.point.drop 1).take 32 = f.x.1 := List.take_left' f.x.2
  have hy : f.point.drop 33 = f.y.1 := List.drop_left' f.x.2
  unfold cose
  rw [hx, hy]
  have hhead (val : ℕ) := @cborHead_eq 0 (by decide) val
  have hhead' (val : ℕ) := @cborHead_eq 1 (by decide) val
  simp only [cborMap, cborUint, cborNint, cborBytes, coseItem, Item.encode, Item.encodeEntries,
    f.x.2, f.y.2, List.flatMap_cons, List.flatMap_nil, hhead, hhead',
    @cborHead_eq 2 (by decide), @cborHead_eq 5 (by decide)]
  rfl

/-- The numbers of the key fit their widths. -/
theorem laid_coseItem : f.coseItem.Laid := by
  simp [coseItem, Item.Laid, Item.width, Item.argument, Width.Fits, Width.size, f.x.2, f.y.2]

/-- The key has no text. -/
theorem texts_coseItem : f.coseItem.Every true TextOk := by
  simp [coseItem, TextOk]

/-- **The key that is written is a key of P-256.** -/
theorem isKey_coseItem : IsP256Key (readAs f.coseItem) f.x f.y :=
  ⟨_, rfl, rfl, rfl, rfl, rfl, rfl⟩

/-- The credential in the authenticator data of a registration. -/
def attested (hid : f.credentialId.length < 256 ^ 2) : Attested where
  aaguid := constBytes 16 0
  credentialId := f.credentialId
  key := f.coseItem
  x := f.x
  y := f.y
  short := hid
  laid := f.laid_coseItem
  texts := f.texts_coseItem
  isKey := f.isKey_coseItem

/-- The authenticator data of a registration. -/
def registered (W : Webauthn) {signCount : ℕ} (hid : f.credentialId.length < 256 ^ 2)
    (hcount : signCount < 256 ^ 4) : AuthenticatorData where
  rpIdHash := W.sha256 (asBytes simRp)
  flags := flagUp ||| flagUv ||| flagAt
  signCount
  attested := some (f.attested hid)
  extensions := []
  small := hcount
  flagged := iff_of_false (Option.some_ne_none _) (by decide)

/-- **The data of a registration is what is parsed for one.** -/
theorem encode_registered (W : Webauthn) {signCount : ℕ} (hid : f.credentialId.length < 256 ^ 2)
    (hcount : signCount < 256 ^ 4) :
    (f.registered W hid hcount).encode = f.regAuthData W signCount := by
  simp only [AuthenticatorData.encode, registered, Option.map_some, Option.getD_some,
    Attested.encode, attested, encode_coseItem, List.append_nil]
  rfl

/-- The authenticator data of an assertion. -/
def asserted (W : Webauthn) {signCount : ℕ} (hcount : signCount < 256 ^ 4) :
    AuthenticatorData where
  rpIdHash := W.sha256 (asBytes simRp)
  flags := flagUp ||| flagUv
  signCount
  attested := none
  extensions := []
  small := hcount
  flagged := iff_of_true rfl (by decide)

/-- The data of an assertion is what is parsed for one. -/
theorem encode_asserted (W : Webauthn) {signCount : ℕ} (hcount : signCount < 256 ^ 4) :
    (asserted W hcount).encode = simAuthData W signCount := by
  simp only [AuthenticatorData.encode, asserted, Option.map_none, Option.getD_none,
    List.append_nil]
  rfl

/-- The attestation is written as the item. -/
theorem encode_attestationItem (data : Bytes) : (attestationItem data).encode =
    cborMap [(cborText "fmt", cborText "none"), (cborText "attStmt", cborMap []),
      (cborText "authData", cborBytes data)] := by
  have hshort (s : String) (hs : (asBytes s).length < 24) :
      cborText s = head 3 .short (asBytes s).length ++ asBytes s := by
    rw [cborText, cborHead_eq (by decide), widthOf, if_pos hs]
  have hempty : cborMap [] = head 5 .short 0 := by
    rw [cborMap, List.flatMap_nil, List.append_nil, List.length_nil, cborHead_eq (by decide)]
    rfl
  rw [cborMap, hempty, hshort "fmt" (by decide +kernel), hshort "none" (by decide +kernel),
    hshort "attStmt" (by decide +kernel), hshort "authData" (by decide +kernel), cborBytes,
    cborHead_eq (by decide), cborHead_eq (by decide)]
  simp only [attestationItem, Item.encode, Item.encodeEntries, List.flatMap_cons,
    List.flatMap_nil, List.length_nil, List.append_nil]
  rfl

/-- **The attestation object has the authenticator data.** -/
theorem attests_attestationItem {data : Bytes} (hdata : data.length < 256 ^ 4) :
    Attests (attestationItem data).encode data := by
  have hshort (s : String) (hs : (asBytes s).length < 24) :
      Width.short.Fits (asBytes s).length := hs
  have htext (s : String) : fromUtf8Lossy (asBytes s) = s := fromUtf8Lossy_asBytes s
  refine ⟨attestationItem data, [], _, ?_, ?_, (List.append_nil _).symm, rfl, ?_, ?_⟩
  · have hempty : Width.short.Fits 0 := by decide
    have hthree : Width.short.Fits 3 := by decide
    simp only [attestationItem, Item.Laid, Item.every_map, Item.every_text, Item.every_bytes,
      Item.width, Item.argument, List.forall_mem_cons, List.length_cons, List.length_nil]
    exact ⟨hthree, ⟨hshort _ (by decide +kernel), hshort _ (by decide +kernel)⟩,
      ⟨hshort _ (by decide +kernel), hempty, fun _ h => absurd h List.not_mem_nil⟩,
      ⟨hshort _ (by decide +kernel), widthOf_fits hdata⟩, fun _ h => absurd h List.not_mem_nil⟩
  · simp [attestationItem, TextOk]
  · simp [readEntriesAs, readAs, mapGet, Cbor.asText, htext]
  · simp [readEntriesAs, readAs, mapGet, Cbor.asText, Cbor.asBytes, htext]

/-- The data of a registration has the key behind the credential. -/
theorem length_regAuthData (W : Webauthn) (signCount : ℕ) :
    (f.regAuthData W signCount).length = 132 + f.credentialId.length := by
  have hcose : f.cose.length = 77 := by
    rw [← encode_coseItem]
    simp only [coseItem, Item.encode, Item.encodeEntries, head, List.length_append,
      List.length_cons, List.length_nil, length_toBe, Width.size, f.x.2, f.y.2]
  simp only [regAuthData, List.length_append, List.length_cons, length_toBe,
    List.length_replicate, hcose, (W.sha256 (asBytes simRp)).2]
  omega

/-- What the daemon makes of a registration. -/
def credential (signCount : ℕ) : Registered where
  credentialId := f.credentialId
  publicKey := f.point
  signCount

/-- **A registration is accepted**, whatever the key, the id, the challenge and the counter,
and what is returned is the passkey. -/
theorem registration_round_trip (W : Webauthn) (challenge : FixedBytes 32) {signCount : ℕ}
    (hparse : W.parse (clientJson "webauthn.create" challenge) =
      .ok (asked "webauthn.create" simOrigin challenge))
    (hid : f.credentialId.length < 256 ^ 2) (hcount : signCount < 256 ^ 4) :
    W.verifyRegistration simRp simOrigin challenge (f.registration W challenge signCount).1
      (f.registration W challenge signCount).2 = .ok (f.credential signCount) := by
  have hverified : Verified (flagUp ||| flagUv ||| flagAt) := ⟨by decide, by decide⟩
  refine W.verifyRegistration_iff.2 ⟨hparse, f.registered W hid hcount, f.attested hid, rfl, ?_,
    ⟨hverified, rfl⟩, rfl⟩
  have hlen : (f.regAuthData W signCount).length < 256 ^ 4 := by
    rw [length_regAuthData]
    omega
  have hobject : (f.registration W challenge signCount).2 =
      (attestationItem (f.regAuthData W signCount)).encode :=
    (encode_attestationItem _).symm
  rw [hobject, encode_registered]
  exact attests_attestationItem hlen

/-- **An assertion is accepted** under the key that a registration returned. -/
theorem assertion_round_trip (W : Webauthn) (challenge : FixedBytes 32) {signCount : ℕ}
    (hparse : W.parse (clientJson "webauthn.get" challenge) =
      .ok (asked "webauthn.get" simOrigin challenge))
    (hsign : ∀ message, message = simAuthData W signCount ++
      (W.sha256 (clientJson "webauthn.get" challenge)).1 →
        W.verify f.point message (f.sign message) = true)
    (hcount : signCount < 256 ^ 4) :
    W.verifyAssertion simRp simOrigin challenge (f.assertion W challenge signCount).1
      (f.assertion W challenge signCount).2.1 (f.assertion W challenge signCount).2.2 f.point =
      .ok signCount := by
  have hverified : Verified (flagUp ||| flagUv) := ⟨by decide, by decide⟩
  refine W.verifyAssertion_iff.2 ⟨hparse, asserted W hcount, ?_, ⟨hverified, rfl⟩, hsign _ rfl,
    rfl⟩
  exact (encode_asserted W hcount).symm

end FakeAuthenticator
end Quosh
