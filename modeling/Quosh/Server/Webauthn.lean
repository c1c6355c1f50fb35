/-
# The checks of WebAuthn

`crates/quosh-server/src/webauthn.rs`: what a browser hands over for a passkey is checked
against the challenge the daemon has drawn, its origin and its relying party id.  `ClientData`
is what JSON has of the ceremony, and authenticator data are in a format of their own, with a
COSE key inside when a passkey is registered.  JSON, SHA-256 and ES256 are not in the
repository; they are the fields of `Webauthn`.

`AuthenticatorData` is that format, as its standard has it: nothing that is not of this form is
accepted, and all that is of this form is parsed (`parseAuthData_eq_ok_iff`).  From that come
the conditions for a registration and for an assertion (`verifyRegistration_iff`,
`verifyAssertion_iff`), which are exact.
-/

import Quosh.Bytes.Base64
import Quosh.Server.Auth
import Quosh.Server.CborDepth

namespace Quosh

open Bytes

/-! ### The checks -/

/-- `ClientData`. -/
structure ClientData where
  typ : String
  challenge : String
  origin : String
  crossOrigin : Bool
  deriving DecidableEq

/-- What the checks call: `serde_json` for client data, SHA-256, whether a signature of ES256
verifies (key, message, signature), and the characters that `{:?}` shows as they are. -/
structure Webauthn where
  parse : Bytes → Except String ClientData
  sha256 : Bytes → FixedBytes 32
  verify : Bytes → Bytes → Bytes → Bool
  printable : Char → Bool

/-- `FLAG_UP`. -/
def flagUp : UInt8 := 0x01

/-- `FLAG_UV`. -/
def flagUv : UInt8 := 0x04

/-- `URL_SAFE_NO_PAD.encode` of a challenge. -/
def challengeText (challenge : FixedBytes 32) : String :=
  String.ofList (urlSafe.encode challenge.1)

/-- How `{:?}` shows a character of a string. -/
def debugChar (printable : Char → Bool) (c : Char) : String :=
  match c.toNat with
  | 0 => "\\0"
  | 9 => "\\t"
  | 10 => "\\n"
  | 13 => "\\r"
  | 34 => "\\\""
  | 92 => "\\\\"
  | n => if printable c then c.toString else
      "\\u\x7b" ++ String.ofList (Nat.toDigits 16 n) ++ "\x7d"

/-- `{:?}` of a string. -/
def debugString (printable : Char → Bool) (s : String) : String :=
  "\"" ++ String.join (s.toList.map (debugChar printable)) ++ "\""

/-- `AuthData`. -/
structure AuthData where
  rpIdHash : Bytes
  flags : UInt8
  signCount : ℕ
  credential : Option (Bytes × Bytes)

/-- The part of `parse_auth_data` for a credential: its id and its public key. -/
def parseAttested (p : Bytes) : Except String (Bytes × Bytes) :=
  if p.length < 18 then .error "attested credential data truncated"
  else
    let credLen := fromBe ((p.drop 16).take 2)
    let p := p.drop 18
    if p.length < credLen then .error "credential id truncated"
    else
      match readCbor (p.drop credLen) with
      | .error e => .error ("COSE public key: " ++ e)
      | .ok (cose, _) => (coseP256 cose).map fun publicKey => (p.take credLen, publicKey)

/-- `parse_auth_data`. -/
def parseAuthData (data : Bytes) : Except String AuthData :=
  if data.length < 37 then .error "authenticator data too short"
  else
    let ad : AuthData :=
      { rpIdHash := data.take 32
        flags := data.getD 32 0
        signCount := fromBe ((data.drop 33).take 4)
        credential := none }
    if ad.flags &&& flagAt = 0 then .ok ad
    else (parseAttested (data.drop 37)).map fun credential =>
      { ad with credential := some credential }

/-- `check_auth_data_flags`. -/
def checkAuthDataFlags (flags : UInt8) : Except String Unit :=
  if flags &&& flagUp = 0 then .error "user presence flag not set"
  else if flags &&& flagUv = 0 then .error "user verification flag not set"
  else .ok ()

/-- What `verify_registration` takes the authenticator data out of, up to there. -/
def attestedAuthData (printable : Char → Bool) (attestationObject : Bytes) :
    Except String Bytes :=
  match readCbor attestationObject with
  | .error e => .error ("attestationObject: " ++ e)
  | .ok (.map entries, _) =>
    let fmt := (mapGet entries "fmt").bind Cbor.asText
    if fmt ≠ some "none" then
      .error ("unsupported attestation format " ++ debugOption (fmt.map (debugString printable)))
    else
      match (mapGet entries "authData").bind Cbor.asBytes with
      | some authData => .ok authData
      | none => .error "attestationObject.authData"
  | .ok _ => .error "attestationObject is not a CBOR map"

namespace Webauthn

/-- `check_client_data`. -/
def checkClientData (W : Webauthn) (raw : Bytes) (expectedType origin : String)
    (challenge : FixedBytes 32) : Except String Unit :=
  match W.parse raw with
  | .error e => .error ("clientDataJSON: " ++ e)
  | .ok data =>
    if data.typ ≠ expectedType then
      .error ("clientDataJSON type " ++ debugString W.printable data.typ ++ " != " ++ expectedType)
    else if data.origin ≠ origin then
      .error ("origin " ++ debugString W.printable data.origin ++ " != " ++ origin)
    else if data.crossOrigin then .error "crossOrigin must not be set"
    else if data.challenge ≠ challengeText challenge then .error "challenge mismatch"
    else .ok ()

/-- What both ceremonies check of authenticator data. -/
def checkAuthData (W : Webauthn) (rpId : String) (data : Bytes) : Except String AuthData := do
  let ad ← parseAuthData data
  checkAuthDataFlags ad.flags
  if ad.rpIdHash ≠ (W.sha256 (asBytes rpId)).1 then throw "rpIdHash does not match rp_id"
  else return ad

/-- `verify_registration`. -/
def verifyRegistration (W : Webauthn) (rpId origin : String) (challenge : FixedBytes 32)
    (clientDataJson attestationObject : Bytes) : Except String Registered := do
  W.checkClientData clientDataJson "webauthn.create" origin challenge
  let authData ← attestedAuthData W.printable attestationObject
  let ad ← W.checkAuthData rpId authData
  match ad.credential with
  | none => throw "registration without credential data"
  | some (credentialId, publicKey) =>
    verifyP256Point publicKey
    return { credentialId, publicKey, signCount := ad.signCount }

/-- `verify_assertion`. -/
def verifyAssertion (W : Webauthn) (rpId origin : String) (challenge : FixedBytes 32)
    (clientDataJson authenticatorData signature publicKey : Bytes) : Except String ℕ := do
  W.checkClientData clientDataJson "webauthn.get" origin challenge
  let ad ← W.checkAuthData rpId authenticatorData
  let signed := authenticatorData ++ (W.sha256 clientDataJson).1
  if W.verify publicKey signed signature then return ad.signCount
  else throw "assertion signature"

/-- The configuration of a daemon that makes these checks. -/
def relying (W : Webauthn) (rpId origin : String) (unixName : ℕ → Option String) : Relying where
  rpId
  origin
  unixName
  verifyRegistration := W.verifyRegistration
  verifyAssertion := W.verifyAssertion

end Webauthn

/-! ### The format of authenticator data -/

/-- A COSE key of P-256 for ES256, with the two coordinates of its point. -/
structure IsP256Key (cose : Cbor) (x y : FixedBytes 32) : Prop where
  exists_entries : ∃ entries, cose = .map entries ∧
    (mapGetInt entries 1).bind Cbor.asUint = some coseKtyEc2 ∧
    (mapGetInt entries 3).bind Cbor.asI64 = some coseAlgEs256 ∧
    (mapGetInt entries (-1)).bind Cbor.asI64 = some coseCrvP256 ∧
    (mapGetInt entries (-2)).bind Cbor.asBytes = some x.1 ∧
    (mapGetInt entries (-3)).bind Cbor.asBytes = some y.1

/-- The uncompressed point of two coordinates. -/
def sec1Point (x y : FixedBytes 32) : Bytes := 0x04 :: (x.1 ++ y.1)

/-- A credential in authenticator data: its id, and its key in CBOR. -/
structure Attested where
  aaguid : FixedBytes 16
  credentialId : Bytes
  key : Item
  x : FixedBytes 32
  y : FixedBytes 32
  short : credentialId.length < 256 ^ 2
  laid : key.Laid
  texts : key.Every true TextOk
  isKey : IsP256Key (readAs key) x y

/-- Authenticator data, with a credential if their flags say so. -/
structure AuthenticatorData where
  rpIdHash : FixedBytes 32
  flags : UInt8
  signCount : ℕ
  attested : Option Attested
  extensions : Bytes
  small : signCount < 256 ^ 4
  flagged : attested = none ↔ flags &&& flagAt = 0

/-- The bytes of a credential. -/
def Attested.encode (c : Attested) : Bytes :=
  c.aaguid.1 ++ (toBe 2 c.credentialId.length ++ (c.credentialId ++ c.key.encode))

namespace AuthenticatorData

/-- The bytes of authenticator data. -/
def encode (a : AuthenticatorData) : Bytes :=
  a.rpIdHash.1 ++ (a.flags :: (toBe 4 a.signCount ++
    ((a.attested.map Attested.encode).getD [] ++ a.extensions)))

/-- What the daemon takes out of them. -/
def parsed (a : AuthenticatorData) : AuthData where
  rpIdHash := a.rpIdHash.1
  flags := a.flags
  signCount := a.signCount
  credential := a.attested.map fun c => (c.credentialId, sec1Point c.x c.y)

end AuthenticatorData

variable {data p : Bytes} {ad : AuthData} {cose : Cbor}

/-- **A key is accepted** that is a P-256 key of two coordinates. -/
theorem coseP256_eq_ok_iff {point : Bytes} :
    coseP256 cose = .ok point ↔ ∃ x y, IsP256Key cose x y ∧ point = sec1Point x y := by
  unfold coseP256
  constructor
  · intro h
    split at h
    · rename_i entries
      simp only [bind, Except.bind, pure, Except.pure, throw, throwThe, MonadExceptOf.throw] at h
      split_ifs at h with hkty halg hcrv
      split at h
      · rename_i x y hx hy
        split_ifs at h with hlen
        cases h
        refine ⟨⟨x, hlen.1⟩, ⟨y, hlen.2⟩, ⟨entries, rfl, ?_, ?_, ?_, hx, hy⟩, rfl⟩
        · exact of_not_not hkty
        · exact of_not_not halg
        · exact of_not_not hcrv
      · cases h
    · cases h
  · rintro ⟨x, y, ⟨entries, rfl, hkty, halg, hcrv, hx, hy⟩, rfl⟩
    have hlen : x.1.length = 32 ∧ y.1.length = 32 := ⟨x.2, y.2⟩
    simp [hkty, halg, hcrv, hx, hy, hlen, sec1Point, pure, Except.pure]

/-- Bytes in front of others, of a known length. -/
theorem exists_append (data : Bytes) {n : ℕ} (h : n ≤ data.length) :
    ∃ (front : FixedBytes n) (back : Bytes), data = front.1 ++ back :=
  ⟨⟨data.take n, List.length_take_of_le h⟩, data.drop n, (List.take_append_drop n data).symm⟩

/-- A number in front of other bytes. -/
theorem exists_toBe (data : Bytes) {w : ℕ} (h : w ≤ data.length) :
    ∃ n < 256 ^ w, ∃ back : Bytes, data = toBe w n ++ back := by
  obtain ⟨front, back, rfl⟩ := exists_append data h
  have hlt := fromBe_lt front.1
  have heq := toBe_fromBe front.1
  rw [front.2] at hlt heq
  exact ⟨_, hlt, back, by rw [heq]⟩

/-- The parts of a credential, whatever the bytes for its key are. -/
theorem parseAttested_append (aaguid : FixedBytes 16) {n : ℕ} (hn : n < 256 ^ 2) (rest : Bytes) :
    parseAttested (aaguid.1 ++ (toBe 2 n ++ rest)) =
      if rest.length < n then .error "credential id truncated"
      else
        match readCbor (rest.drop n) with
        | .error e => .error ("COSE public key: " ++ e)
        | .ok (cose, _) => (coseP256 cose).map fun publicKey => (rest.take n, publicKey) := by
  have hlen : 18 ≤ (aaguid.1 ++ (toBe 2 n ++ rest)).length := by
    rw [List.length_append, List.length_append, length_toBe, aaguid.2]
    omega
  have hnumber : fromBe (((aaguid.1 ++ (toBe 2 n ++ rest)).drop 16).take 2) = n := by
    rw [List.drop_left' aaguid.2, List.take_left' (length_toBe 2 n), fromBe_toBe hn]
  have hrest : (aaguid.1 ++ (toBe 2 n ++ rest)).drop 18 = rest := by
    rw [← List.append_assoc]
    exact List.drop_left' (by rw [List.length_append, length_toBe, aaguid.2])
  unfold parseAttested
  rw [if_neg (by omega), hnumber, hrest]

/-- **What is parsed as a credential**: the bytes of one, with anything behind it.  Going
forward the checks of lengths give the parts in turn, and the key is what `read_cbor`
accepts; going back each part is read as it was written. -/
theorem parseAttested_eq_ok_iff {credential : Bytes × Bytes} :
    parseAttested p = .ok credential ↔ ∃ (c : Attested) (rest : Bytes), p = c.encode ++ rest ∧
      credential = (c.credentialId, sec1Point c.x c.y) := by
  constructor
  · intro h
    have hlen : 18 ≤ p.length := by
      by_contra hshort
      rw [parseAttested, if_pos (by omega)] at h
      cases h
    obtain ⟨aaguid, p, rfl⟩ := exists_append p (n := 16) (by omega)
    rw [List.length_append, aaguid.2] at hlen
    obtain ⟨n, hn, p, rfl⟩ := exists_toBe p (w := 2) (by omega)
    rw [parseAttested_append aaguid hn] at h
    split_ifs at h with hid
    obtain ⟨id, p, rfl⟩ := exists_append p (not_lt.1 hid)
    rw [List.drop_left' id.2, List.take_left' id.2] at h
    split at h
    · cases h
    · rename_i cose rest hread
      obtain ⟨key, hlaid, htexts, rfl, rfl⟩ := readCbor_eq_ok_iff.1 hread
      cases hcose : coseP256 (readAs key) with
      | error e =>
        rw [hcose] at h
        cases h
      | ok point =>
        rw [hcose] at h
        cases h
        obtain ⟨x, y, hkey, rfl⟩ := coseP256_eq_ok_iff.1 hcose
        have hshort : id.1.length < 256 ^ 2 := id.2.symm ▸ hn
        refine ⟨⟨aaguid, id.1, key, x, y, hshort, hlaid, htexts, hkey⟩, rest, ?_, rfl⟩
        simp only [Attested.encode, id.2, List.append_assoc]
  · rintro ⟨c, rest, rfl, rfl⟩
    have hread : readCbor (c.key.encode ++ rest) = .ok (readAs c.key, rest) :=
      readCbor_eq_ok_iff.2 ⟨c.key, c.laid, c.texts, rfl, rfl⟩
    have hcose : coseP256 (readAs c.key) = .ok (sec1Point c.x c.y) :=
      coseP256_eq_ok_iff.2 ⟨c.x, c.y, c.isKey, rfl⟩
    have hlen : ¬(c.credentialId ++ (c.key.encode ++ rest)).length < c.credentialId.length := by
      rw [List.length_append]
      omega
    simp only [Attested.encode, List.append_assoc]
    rw [parseAttested_append c.aaguid c.short, if_neg hlen, List.drop_left' rfl,
      List.take_left' rfl, hread]
    dsimp only
    rw [hcose]
    rfl

/-- The parts of authenticator data, whatever the bytes for a credential are. -/
theorem parseAuthData_append (rpIdHash : FixedBytes 32) (flags : UInt8) {n : ℕ}
    (hn : n < 256 ^ 4) (rest : Bytes) :
    parseAuthData (rpIdHash.1 ++ (flags :: (toBe 4 n ++ rest))) =
      if flags &&& flagAt = 0 then
        .ok { rpIdHash := rpIdHash.1, flags, signCount := n, credential := none }
      else (parseAttested rest).map fun credential =>
        { rpIdHash := rpIdHash.1, flags, signCount := n, credential := some credential } := by
  have hlen : 37 ≤ (rpIdHash.1 ++ (flags :: (toBe 4 n ++ rest))).length := by
    rw [List.length_append, List.length_cons, List.length_append, length_toBe, rpIdHash.2]
    omega
  have hflags : (rpIdHash.1 ++ (flags :: (toBe 4 n ++ rest))).getD 32 0 = flags := by
    rw [List.getD_eq_getElem?_getD, List.getElem?_append_right rpIdHash.2.le, rpIdHash.2]
    rfl
  have hback : (rpIdHash.1 ++ (flags :: (toBe 4 n ++ rest))).drop 33 = toBe 4 n ++ rest := by
    rw [← List.singleton_append, ← List.append_assoc]
    exact List.drop_left' (by rw [List.length_append, rpIdHash.2]; rfl)
  have hrest : (rpIdHash.1 ++ (flags :: (toBe 4 n ++ rest))).drop 37 = rest := by
    rw [← List.drop_drop (i := 4) (j := 33), hback, List.drop_left' (length_toBe 4 n)]
  unfold parseAuthData
  rw [if_neg (by omega), hflags, hback, hrest, List.take_left' rpIdHash.2,
    List.take_left' (length_toBe 4 n), fromBe_toBe hn]

/-- **What is parsed as authenticator data**: the bytes of some, with a credential if and
only if the flag says so, and otherwise with anything at all behind the counter. -/
theorem parseAuthData_eq_ok_iff : parseAuthData data = .ok ad ↔
    ∃ a : AuthenticatorData, data = a.encode ∧ ad = a.parsed := by
  constructor
  · intro h
    have hlen : 37 ≤ data.length := by
      by_contra hshort
      rw [parseAuthData, if_pos (by omega)] at h
      cases h
    obtain ⟨rpIdHash, back, rfl⟩ := exists_append data (n := 32) (by omega)
    rw [List.length_append, rpIdHash.2] at hlen
    obtain ⟨flags, back, rfl⟩ := List.exists_cons_of_length_pos (l := back) (by omega)
    rw [List.length_cons] at hlen
    obtain ⟨n, hn, rest, rfl⟩ := exists_toBe back (w := 4) (by omega)
    rw [parseAuthData_append rpIdHash flags hn] at h
    split_ifs at h with hflag
    · cases h
      exact ⟨⟨rpIdHash, flags, n, none, rest, hn, iff_of_true rfl hflag⟩, rfl, rfl⟩
    · cases hparse : parseAttested rest with
      | error e =>
        rw [hparse] at h
        cases h
      | ok credential =>
        rw [hparse] at h
        cases h
        obtain ⟨c, extensions, rfl, rfl⟩ := parseAttested_eq_ok_iff.1 hparse
        exact ⟨⟨rpIdHash, flags, n, some c, extensions, hn,
          iff_of_false (Option.some_ne_none c) hflag⟩, rfl, rfl⟩
  · rintro ⟨⟨rpIdHash, flags, n, attested, extensions, hn, hflagged⟩, rfl, rfl⟩
    unfold AuthenticatorData.encode
    rw [parseAuthData_append rpIdHash flags hn]
    cases attested with
    | none =>
      rw [if_pos (hflagged.1 rfl)]
      rfl
    | some c =>
      have hparse : parseAttested (c.encode ++ extensions) =
          .ok (c.credentialId, sec1Point c.x c.y) :=
        parseAttested_eq_ok_iff.2 ⟨c, extensions, rfl, rfl⟩
      rw [if_neg fun hflag => Option.some_ne_none c (hflagged.2 hflag)]
      simp only [Option.map_some, Option.getD_some, hparse]
      rfl

/-! ### The checks are exact -/

namespace Webauthn

variable (W : Webauthn) {rpId origin typ : String} {challenge : FixedBytes 32}
  {json object signature publicKey : Bytes}

/-- The client data that a ceremony asks for. -/
def asked (typ origin : String) (challenge : FixedBytes 32) : ClientData where
  typ
  challenge := challengeText challenge
  origin
  crossOrigin := false

/-- **Client data are accepted** if and only if they are the ones asked for. -/
theorem checkClientData_eq_ok_iff :
    W.checkClientData json typ origin challenge = .ok () ↔
      W.parse json = .ok (asked typ origin challenge) := by
  unfold checkClientData
  cases W.parse json with
  | error e =>
    constructor
    · intro h
      cases h
    · intro h
      cases h
  | ok data =>
    obtain ⟨typ', challenge', origin', crossOrigin⟩ := data
    rw [Except.ok.injEq, asked, ClientData.mk.injEq]
    dsimp only
    split_ifs with htyp horigin hcross hchallenge
    · simp [htyp]
    · simp [horigin]
    · simp [hcross]
    · simp [hchallenge]
    · simp_all

/-- The flags say that a user was there and was verified. -/
def Verified (flags : UInt8) : Prop := flags &&& flagUp ≠ 0 ∧ flags &&& flagUv ≠ 0

/-- The flags say that the user was there and verified. -/
theorem checkAuthDataFlags_eq_ok_iff {flags : UInt8} :
    checkAuthDataFlags flags = .ok () ↔ Verified flags := by
  unfold checkAuthDataFlags Verified
  split_ifs with hup huv <;> simp [*]

/-- What is asked of authenticator data in both ceremonies. -/
structure Accepts (rpId : String) (a : AuthenticatorData) : Prop where
  verified : Verified a.flags
  rpIdHash : a.rpIdHash = W.sha256 (asBytes rpId)

/-- **The data of an authenticator is accepted** that parses and is for the domain. -/
theorem checkAuthData_eq_ok_iff : W.checkAuthData rpId data = .ok ad ↔
    ∃ a : AuthenticatorData, data = a.encode ∧ W.Accepts rpId a ∧ ad = a.parsed := by
  unfold checkAuthData
  simp only [except_bind_eq_ok]
  constructor
  · rintro ⟨ad', hparse, u, hflags, h⟩
    obtain ⟨a, rfl, rfl⟩ := parseAuthData_eq_ok_iff.1 hparse
    split_ifs at h with hhash
    cases h
    exact ⟨a, rfl, ⟨checkAuthDataFlags_eq_ok_iff.1 hflags, Subtype.ext (of_not_not hhash)⟩, rfl⟩
  · rintro ⟨a, rfl, haccepts, rfl⟩
    refine ⟨a.parsed, parseAuthData_eq_ok_iff.2 ⟨a, rfl, rfl⟩, (),
      checkAuthDataFlags_eq_ok_iff.2 haccepts.verified, ?_⟩
    have hhash : a.parsed.rpIdHash = (W.sha256 (asBytes rpId)).1 :=
      congrArg Subtype.val haccepts.rpIdHash
    rw [if_neg (not_not_intro hhash)]
    rfl

/-- An attestation object without an attestation statement, and its authenticator data: in a
map, under a first key of that name. -/
def Attests (object data : Bytes) : Prop :=
  ∃ (item : Item) (rest : Bytes) (entries : List (Cbor × Cbor)), item.Laid ∧
    item.Every true TextOk ∧ object = item.encode ++ rest ∧ readAs item = .map entries ∧
      (mapGet entries "fmt").bind Cbor.asText = some "none" ∧
        (mapGet entries "authData").bind Cbor.asBytes = some data

/-- The data is taken from an attestation object. -/
theorem attestedAuthData_eq_ok_iff {printable : Char → Bool} :
    attestedAuthData printable object = .ok data ↔ Attests object data := by
  unfold attestedAuthData
  constructor
  · intro h
    split at h
    · cases h
    · rename_i entries rest hread
      obtain ⟨item, hlaid, htexts, hobject, hitem⟩ := readCbor_eq_ok_iff.1 hread
      dsimp only at h
      split_ifs at h with hfmt
      split at h
      · rename_i authData hdata
        cases h
        exact ⟨item, rest, entries, hlaid, htexts, hobject, hitem, of_not_not hfmt, hdata⟩
      · cases h
    · cases h
  · rintro ⟨item, rest, entries, hlaid, htexts, hobject, hitem, hfmt, hdata⟩
    have hread : readCbor object = .ok (.map entries, rest) :=
      readCbor_eq_ok_iff.2 ⟨item, hlaid, htexts, hobject, hitem⟩
    simp only [hread, hfmt, hdata, not_true_eq_false, ne_eq, if_false]

/-- **A registration is accepted** if and only if its client data are the ones asked for and
its attestation object has authenticator data with a credential, of a user who was there and
verified, for this relying party.  What is returned is that credential, with its point
uncompressed, and the counter. -/
theorem verifyRegistration_iff {r : Registered} :
    W.verifyRegistration rpId origin challenge json object = .ok r ↔
      W.parse json = .ok (asked "webauthn.create" origin challenge) ∧
        ∃ (a : AuthenticatorData) (c : Attested), a.attested = some c ∧
          Attests object a.encode ∧ W.Accepts rpId a ∧
            r = { credentialId := c.credentialId, publicKey := sec1Point c.x c.y
                  signCount := a.signCount } := by
  have hpoint (c : Attested) : verifyP256Point (sec1Point c.x c.y) = .ok () :=
    verifyP256Point_coseP256 (coseP256_eq_ok_iff.2 ⟨c.x, c.y, c.isKey, rfl⟩)
  unfold verifyRegistration
  simp only [except_bind_eq_ok]
  constructor
  · rintro ⟨u, hclient, data, hdata, ad, had, h⟩
    refine ⟨W.checkClientData_eq_ok_iff.1 hclient, ?_⟩
    obtain ⟨a, rfl, haccepts, rfl⟩ := W.checkAuthData_eq_ok_iff.1 had
    cases hattested : a.attested with
    | none =>
      rw [AuthenticatorData.parsed, hattested] at h
      cases h
    | some c =>
      simp only [AuthenticatorData.parsed, hattested, Option.map_some, except_bind_eq_ok] at h
      obtain ⟨u, -, h⟩ := h
      cases h
      exact ⟨a, c, hattested, attestedAuthData_eq_ok_iff.1 hdata, haccepts, rfl⟩
  · rintro ⟨hclient, a, c, hattested, hobject, haccepts, rfl⟩
    refine ⟨(), W.checkClientData_eq_ok_iff.2 hclient, a.encode,
      attestedAuthData_eq_ok_iff.2 hobject, a.parsed,
      W.checkAuthData_eq_ok_iff.2 ⟨a, rfl, haccepts, rfl⟩, ?_⟩
    simp only [AuthenticatorData.parsed, hattested, Option.map_some, except_bind_eq_ok]
    exact ⟨(), hpoint c, rfl⟩

/-- **An assertion is accepted** if and only if its client data are the ones asked for, its
authenticator data are of a user who was there and verified, for this relying party, and the
signature is over both. -/
theorem verifyAssertion_iff {n : ℕ} :
    W.verifyAssertion rpId origin challenge json data signature publicKey = .ok n ↔
      W.parse json = .ok (asked "webauthn.get" origin challenge) ∧
        ∃ a : AuthenticatorData, data = a.encode ∧ W.Accepts rpId a ∧
          W.verify publicKey (data ++ (W.sha256 json).1) signature = true ∧ n = a.signCount := by
  unfold verifyAssertion
  simp only [except_bind_eq_ok]
  constructor
  · rintro ⟨u, hclient, ad, had, h⟩
    obtain ⟨a, rfl, haccepts, rfl⟩ := W.checkAuthData_eq_ok_iff.1 had
    refine ⟨W.checkClientData_eq_ok_iff.1 hclient, a, rfl, haccepts, ?_⟩
    split_ifs at h with hsigned
    cases h
    exact ⟨hsigned, rfl⟩
  · rintro ⟨hclient, a, rfl, haccepts, hsigned, rfl⟩
    refine ⟨(), W.checkClientData_eq_ok_iff.2 hclient, a.parsed,
      W.checkAuthData_eq_ok_iff.2 ⟨a, rfl, haccepts, rfl⟩, ?_⟩
    rw [if_pos hsigned]
    rfl

/-- A challenge has one text. -/
theorem challengeText_inj {challenge challenge' : FixedBytes 32}
    (h : challengeText challenge = challengeText challenge') : challenge = challenge' :=
  Subtype.ext (urlSafe.encode_inj (String.ofList_injective h))

/-- **Client data are for one ceremony**: of a type, on an origin, for a challenge. -/
theorem asked_inj {typ' origin' : String} {challenge' : FixedBytes 32}
    (h : W.parse json = .ok (asked typ origin challenge))
    (h' : W.parse json = .ok (asked typ' origin' challenge')) :
    typ = typ' ∧ origin = origin' ∧ challenge = challenge' := by
  have heq := Except.ok.inj (h.symm.trans h')
  exact ⟨congrArg ClientData.typ heq, congrArg ClientData.origin heq,
    challengeText_inj (congrArg ClientData.challenge heq)⟩

end Webauthn
end Quosh
