/-
# Messages of the handshake

`crates/quosh-proto/src/lib.rs`: `AuthHello`, `Challenge`, `Enroll`, `Assert`, `AuthOk`
and `AuthFail`, with the helpers `put_n`, `put_hashes` and `take_hashes`.  An encoder
fails when a field is longer than its count allows; a decoder must consume its
payload.

Every decoder accepts exactly the payloads of the encoder, so that a message has one
payload and a payload one message.  `Codec` says so for one message, and
`handshake_codecs` for all eight that open a connection, `Hello` and `HelloOk`
among them.
-/

import Quosh.Proto.Message
import Quosh.Bytes.Layout

namespace Quosh

open Bytes

def msgAuthHello : UInt8 := 13
def msgChallenge : UInt8 := 14
def msgEnroll : UInt8 := 15
def msgAssert : UInt8 := 16
def msgAuthOk : UInt8 := 17
def msgAuthFail : UInt8 := 18

/-- `MAX_CHAIN_HASHES`. -/
def maxChainHashes : ℕ := 64

/-- `put_n`: bytes behind their `u16` length. -/
def putN (b : Bytes) : Except ProtoError Bytes :=
  if b.length > 65535 then .error .tooLarge else .ok (toLe 2 b.length ++ b)

/-- `Reader::n`. -/
def takeN : Reader ProtoError Bytes := do
  let n ← readLe .truncated 2
  readExact .truncated n

/-- `put_hashes`. -/
def putHashes (hashes : List (FixedBytes 32)) : Except ProtoError Bytes :=
  if hashes.length > maxChainHashes then .error .tooLarge
  else .ok (toLe 1 hashes.length ++ hashes.flatMap fun h => h.1)

/-- `take_hashes`. -/
def takeHashes : Reader ProtoError (List (FixedBytes 32)) := do
  let n ← readLe .truncated 1
  require .tooLarge (n ≤ maxChainHashes)
  readMany (readArray .truncated 32) n

/-- `AuthHello`. -/
structure AuthHello where
  authToken : FixedBytes 32
  sessionId : FixedBytes 16
  sessionToken : FixedBytes 32
  cols : ℕ
  rows : ℕ
  deriving DecidableEq

/-- The payload of `AuthHello::encode`. -/
def AuthHello.payload (h : AuthHello) : Bytes :=
  h.authToken.1 ++ h.sessionId.1 ++ h.sessionToken.1 ++ toLe 2 h.cols ++ toLe 2 h.rows

/-- `AuthHello::encode`. -/
def AuthHello.encode (h : AuthHello) : Bytes := encodeFrame msgAuthHello h.payload

/-- `AuthHello::decode`. -/
def AuthHello.decode (p : Bytes) : Except ProtoError AuthHello :=
  if h : p.length = 84 then
    .ok
      { authToken := .slice p 0 32 (by omega)
        sessionId := .slice p 32 16 (by omega)
        sessionToken := .slice p 48 32 (by omega)
        cols := leAt p 80 2
        rows := leAt p 82 2 }
  else .error .frame

/-- `Challenge`. -/
structure Challenge where
  challenge : FixedBytes 32
  rpId : String
  hashes : List (FixedBytes 32)
  deriving DecidableEq

/-- `Challenge::encode`. -/
def Challenge.encode (c : Challenge) : Except ProtoError Bytes := do
  if (asBytes c.rpId).length > 255 then throw .tooLarge
  let hashes ← putHashes c.hashes
  return encodeFrame msgChallenge
    (c.challenge.1 ++ toLe 1 (asBytes c.rpId).length ++ asBytes c.rpId ++ hashes)

/-- `Challenge::decode` before it is done. -/
def Challenge.read : Reader ProtoError Challenge := do
  let challenge ← readArray .truncated 32
  let rpId ← readUtf8 .frame do
    let n ← readLe .truncated 1
    readExact .truncated n
  let hashes ← takeHashes
  return { challenge, rpId, hashes }

/-- `Challenge::decode`. -/
def Challenge.decode (p : Bytes) : Except ProtoError Challenge := complete .frame Challenge.read p

/-- `Enroll`. -/
structure Enroll where
  nonce : FixedBytes 16
  clientDataJson : Bytes
  attestationObject : Bytes
  deriving DecidableEq

/-- `Enroll::encode`. -/
def Enroll.encode (e : Enroll) : Except ProtoError Bytes := do
  let clientDataJson ← putN e.clientDataJson
  let attestationObject ← putN e.attestationObject
  return encodeFrame msgEnroll (e.nonce.1 ++ clientDataJson ++ attestationObject)

/-- `Enroll::decode` before it is done. -/
def Enroll.read : Reader ProtoError Enroll := do
  let nonce ← readArray .truncated 16
  let clientDataJson ← takeN
  let attestationObject ← takeN
  return { nonce, clientDataJson, attestationObject }

/-- `Enroll::decode`. -/
def Enroll.decode (p : Bytes) : Except ProtoError Enroll := complete .frame Enroll.read p

/-- `Assert`. -/
structure Assert where
  credentialId : Bytes
  authenticatorData : Bytes
  clientDataJson : Bytes
  signature : Bytes
  deriving DecidableEq

/-- `Assert::encode`. -/
def Assert.encode (a : Assert) : Except ProtoError Bytes := do
  let credentialId ← putN a.credentialId
  let authenticatorData ← putN a.authenticatorData
  let clientDataJson ← putN a.clientDataJson
  let signature ← putN a.signature
  return encodeFrame msgAssert (credentialId ++ authenticatorData ++ clientDataJson ++ signature)

/-- `Assert::decode` before it is done. -/
def Assert.read : Reader ProtoError Assert := do
  let credentialId ← takeN
  let authenticatorData ← takeN
  let clientDataJson ← takeN
  let signature ← takeN
  return { credentialId, authenticatorData, clientDataJson, signature }

/-- `Assert::decode`. -/
def Assert.decode (p : Bytes) : Except ProtoError Assert := complete .frame Assert.read p

/-- `AuthOk`. -/
structure AuthOk where
  authToken : FixedBytes 32
  uid : ℕ
  sessionId : FixedBytes 16
  sessionToken : FixedBytes 32
  hashes : List (FixedBytes 32)
  deriving DecidableEq

/-- `AuthOk::encode`. -/
def AuthOk.encode (a : AuthOk) : Except ProtoError Bytes := do
  let hashes ← putHashes a.hashes
  return encodeFrame msgAuthOk
    (a.authToken.1 ++ toLe 4 a.uid ++ a.sessionId.1 ++ a.sessionToken.1 ++ hashes)

/-- `AuthOk::decode` before it is done. -/
def AuthOk.read : Reader ProtoError AuthOk := do
  let authToken ← readArray .truncated 32
  let uid ← readLe .truncated 4
  let sessionId ← readArray .truncated 16
  let sessionToken ← readArray .truncated 32
  let hashes ← takeHashes
  return { authToken, uid, sessionId, sessionToken, hashes }

/-- `AuthOk::decode`. -/
def AuthOk.decode (p : Bytes) : Except ProtoError AuthOk := complete .frame AuthOk.read p

/-- `AuthFail`. -/
structure AuthFail where
  reason : String
  deriving DecidableEq

/-- `AuthFail::encode`. -/
def AuthFail.encode (a : AuthFail) : Except ProtoError Bytes := do
  let reason ← putN (asBytes a.reason)
  return encodeFrame msgAuthFail reason

/-- `AuthFail::decode` before it is done. -/
def AuthFail.read : Reader ProtoError AuthFail := do
  let reason ← readUtf8 .frame takeN
  return { reason }

/-- `AuthFail::decode`. -/
def AuthFail.decode (p : Bytes) : Except ProtoError AuthFail := complete .frame AuthFail.read p

/-! ### Codecs -/

/-- **Encoder and decoder of a message are inverse to each other.**  Of the values of
its type (`Typed`: numbers are in the range of their Rust types), the encoder writes
those whose fields keep to their limits (`Fits`). -/
structure Codec {μ : Type} (typ : UInt8) (Typed Fits : μ → Prop)
    (encode : μ → Except ProtoError Bytes) (decode : Bytes → Except ProtoError μ) : Prop where
  encodes : ∀ m, (∃ frame, encode m = .ok frame) ↔ Fits m
  round_trip : ∀ m frame, Typed m → encode m = .ok frame →
    ∃ p, splitFrame frame = (.ok (some (typ, p)), []) ∧ decode p = .ok m
  canonical : ∀ p m, decode p = .ok m → Typed m ∧ encode m = .ok (encodeFrame typ p)
  unique : ∀ p p' m, decode p = .ok m → decode p' = .ok m → p = p'

/-- A decoder that accepts exactly the payloads of the values that may be encoded. -/
theorem Codec.of_decode {μ : Type} {typ : UInt8} {Typed Fits : μ → Prop}
    {encode : μ → Except ProtoError Bytes} {decode : Bytes → Except ProtoError μ}
    {payload : μ → Bytes}
    (hencode : ∀ m frame, encode m = .ok frame ↔ Fits m ∧ frame = encodeFrame typ (payload m))
    (hdecode : ∀ p m, decode p = .ok m ↔ (Typed m ∧ Fits m) ∧ p = payload m)
    (hlen : ∀ m, Fits m → (payload m).length < maxFrame) : Codec typ Typed Fits encode decode where
  encodes m :=
    ⟨fun ⟨_, h⟩ => ((hencode m _).1 h).1, fun h => ⟨_, (hencode m _).2 ⟨h, rfl⟩⟩⟩
  round_trip m frame htyped h := by
    obtain ⟨hfits, rfl⟩ := (hencode m frame).1 h
    have hsplit := (@splitFrame_encode typ) (hlen m hfits) []
    rw [List.append_nil] at hsplit
    exact ⟨payload m, hsplit, (hdecode _ m).2 ⟨⟨htyped, hfits⟩, rfl⟩⟩
  canonical p m h := by
    obtain ⟨⟨htyped, hfits⟩, rfl⟩ := (hdecode p m).1 h
    exact ⟨htyped, (hencode m _).2 ⟨hfits, rfl⟩⟩
  unique p p' m h h' := ((hdecode p m).1 h).2.trans ((hdecode p' m).1 h').2.symm

/-! ### Counted fields -/

/-- A check in front of an encoder. -/
theorem tooLarge_eq_ok {c : Prop} [Decidable c] {bytes frame : Bytes} :
    (if c then .error .tooLarge else .ok bytes : Except ProtoError Bytes) = .ok frame ↔
      ¬c ∧ frame = bytes := by
  split
  · rename_i h
    exact ⟨fun h' => (by cases h'), fun h' => absurd h h'.1⟩
  · rename_i h
    exact ⟨fun h' => ⟨h, (Except.ok.inj h').symm⟩, fun h' => congrArg _ h'.2.symm⟩

/-- A byte string is written if its length fits two bytes. -/
theorem putN_eq_ok {b frame : Bytes} :
    putN b = .ok frame ↔ b.length ≤ 65535 ∧ frame = toLe 2 b.length ++ b :=
  tooLarge_eq_ok.trans (and_congr_left fun _ => Nat.not_lt)

/-- Hashes are written if there are not too many. -/
theorem putHashes_eq_ok {hashes : List (FixedBytes 32)} {frame : Bytes} :
    putHashes hashes = .ok frame ↔ hashes.length ≤ maxChainHashes ∧
      frame = toLe 1 hashes.length ++ hashes.flatMap fun h => h.1 :=
  tooLarge_eq_ok.trans (and_congr_left fun _ => Nat.not_lt)

/-- Bytes behind a length of `w` bytes. -/
theorem inverts_counted (w : ℕ) :
    Inverts (do readExact ProtoError.truncated (← readLe .truncated w))
      (fun b => toLe w b.length ++ b) fun b => b.length < 256 ^ w := by
  refine ((inverts_readLe ProtoError.truncated w).bind List.length (fun _ => True)
    fun n _ => ?_).congr fun b => and_iff_left trivial
  exact (inverts_readExact ProtoError.truncated n).congr fun b => (and_iff_right trivial).symm

/-- A byte string is read back. -/
theorem inverts_takeN : Inverts takeN (fun b => toLe 2 b.length ++ b) fun b => b.length ≤ 65535 :=
  (inverts_counted 2).congr fun _ => Nat.lt_succ_iff

/-- Hashes are read back. -/
theorem inverts_takeHashes : Inverts takeHashes
    (fun hashes => toLe 1 hashes.length ++ hashes.flatMap fun h => h.1)
    fun hashes => hashes.length ≤ maxChainHashes := by
  refine ((inverts_readLe ProtoError.truncated 1).bind List.length
    (fun hashes => hashes.length ≤ maxChainHashes) fun n _ => ?_).congr fun hashes =>
      and_iff_right_of_imp fun h => lt_of_le_of_lt h (by decide)
  have hmany := (inverts_readArray ProtoError.truncated 32).many n
  constructor
  · rintro hashes ⟨hle, rfl⟩
    exact (hmany.reads hashes ⟨rfl, fun _ _ => trivial⟩).require_bind (decide_eq_true hle)
  · intro bs hashes rest h
    obtain ⟨_, mid, hreq, h⟩ := bind_eq_ok.1 h
    unfold require at hreq
    split at hreq
    · rename_i hle
      cases hreq
      obtain ⟨⟨rfl, -⟩, hbytes⟩ := hmany.sound bs hashes rest h
      exact ⟨⟨of_decide_eq_true hle, rfl⟩, hbytes⟩
    · cases hreq

/-! ### Messages of one length

`Hello`, `HelloOk` and `AuthHello` are cut into slices, and the slices put the
payload together again. -/

/-- A number that is read in place is written the same again. -/
theorem toLe_leAt {bs : Bytes} {i n : ℕ} (h : i + n ≤ bs.length) :
    toLe n (leAt bs i n) = (bs.drop i).take n := by
  have hlen : ((bs.drop i).take n).length = n := by
    rw [List.length_take, List.length_drop]
    omega
  have := toLe_fromLe ((bs.drop i).take n)
  rwa [hlen] at this

/-- A number that is read in place fits its bytes. -/
theorem leAt_lt (bs : Bytes) (i n : ℕ) : leAt bs i n < 256 ^ n :=
  (fromLe_lt _).trans_le (Nat.pow_le_pow_right (by decide)
    ((List.length_take_le ..).trans (Nat.le_refl n)))

/-- The next slice. -/
theorem take_append_slice (bs : Bytes) (i n : ℕ) :
    bs.take i ++ (bs.drop i).take n = bs.take (i + n) := by
  rw [List.take_add]

/-- A decoder whose result has the payload that was decoded returns what was
encoded, when two values of one payload are equal. -/
theorem decode_eq_ok {μ : Type} {Typed : μ → Prop} (decode : Bytes → Except ProtoError μ)
    {payload : μ → Bytes} {n : ℕ}
    (hsound : ∀ p m, decode p = .ok m → Typed m ∧ p = payload m)
    (haccepts : ∀ p, p.length = n → ∃ m, decode p = .ok m)
    (hlen : ∀ m, (payload m).length = n)
    (hinj : ∀ m m', Typed m → Typed m' → payload m = payload m' → m = m') (p : Bytes) (m : μ) :
    decode p = .ok m ↔ Typed m ∧ p = payload m := by
  refine ⟨hsound p m, ?_⟩
  rintro ⟨htyped, rfl⟩
  obtain ⟨m', hm'⟩ := haccepts (payload m) (hlen m)
  obtain ⟨htyped', heq⟩ := hsound _ _ hm'
  rw [hm', hinj m m' htyped htyped' heq]

/-- The numbers of a `Hello` are in range. -/
def Hello.Typed (h : Hello) : Prop :=
  h.protocol < 2 ^ 16 ∧ h.cols < 2 ^ 16 ∧ h.rows < 2 ^ 16

/-- **A hello is decoded from its payload alone.** -/
theorem Hello.decode_iff (p : Bytes) (m : Hello) :
    Hello.decode p = .ok m ↔ Hello.Typed m ∧ p = m.payload := by
  refine decode_eq_ok Hello.decode (n := 54) (fun p m h => ?_)
    (fun p h => ⟨_, dif_pos h⟩) Hello.length_payload (fun m m' h h' heq => ?_) p m
  · unfold Hello.decode at h
    split at h
    · rename_i hlen
      cases h
      refine ⟨⟨leAt_lt p 0 2, leAt_lt p 50 2, leAt_lt p 52 2⟩, ?_⟩
      simp only [Hello.payload, FixedBytes.slice]
      rw [toLe_leAt (by omega), toLe_leAt (by omega), toLe_leAt (by omega), List.drop_zero,
        take_append_slice, take_append_slice, take_append_slice, take_append_slice,
        List.take_of_length_le hlen.le]
    · cases h
  · unfold Hello.payload at heq
    obtain ⟨heq, hrows⟩ := List.append_inj' heq (by simp)
    obtain ⟨heq, hcols⟩ := List.append_inj' heq (by simp)
    obtain ⟨heq, htoken⟩ := List.append_inj' heq (by rw [m.token.2, m'.token.2])
    obtain ⟨hprotocol, hid⟩ := List.append_inj' heq (by rw [m.sessionId.2, m'.sessionId.2])
    cases m
    cases m'
    congr
    · exact toLe_inj h.1 h'.1 hprotocol
    · exact Subtype.ext hid
    · exact Subtype.ext htoken
    · exact toLe_inj h.2.1 h'.2.1 hcols
    · exact toLe_inj h.2.2 h'.2.2 hrows

/-- The payload of `HelloOk::encode`. -/
def HelloOk.payload (h : HelloOk) : Bytes :=
  toLe 2 h.protocol ++ h.sessionId.1 ++ toLe 8 h.version ++ toLe 2 h.cols ++ toLe 2 h.rows

/-- The numbers of a `HelloOk` are in range. -/
def HelloOk.Typed (h : HelloOk) : Prop :=
  h.protocol < 2 ^ 16 ∧ h.version < 2 ^ 64 ∧ h.cols < 2 ^ 16 ∧ h.rows < 2 ^ 16

/-- A `HelloOk` has 30 bytes. -/
theorem HelloOk.length_payload (h : HelloOk) : h.payload.length = 30 := by
  simp [HelloOk.payload, h.sessionId.2]

/-- **A `HelloOk` is decoded from its payload alone.** -/
theorem HelloOk.decode_iff (p : Bytes) (m : HelloOk) :
    HelloOk.decode p = .ok m ↔ HelloOk.Typed m ∧ p = m.payload := by
  refine decode_eq_ok HelloOk.decode (n := 30) (fun p m h => ?_)
    (fun p h => ⟨_, dif_pos h⟩) HelloOk.length_payload (fun m m' h h' heq => ?_) p m
  · unfold HelloOk.decode at h
    split at h
    · rename_i hlen
      cases h
      refine ⟨⟨leAt_lt p 0 2, leAt_lt p 18 8, leAt_lt p 26 2, leAt_lt p 28 2⟩, ?_⟩
      simp only [HelloOk.payload, FixedBytes.slice]
      rw [toLe_leAt (by omega), toLe_leAt (by omega), toLe_leAt (by omega), toLe_leAt (by omega),
        List.drop_zero, take_append_slice, take_append_slice, take_append_slice,
        take_append_slice, List.take_of_length_le hlen.le]
    · cases h
  · unfold HelloOk.payload at heq
    obtain ⟨heq, hrows⟩ := List.append_inj' heq (by simp)
    obtain ⟨heq, hcols⟩ := List.append_inj' heq (by simp)
    obtain ⟨heq, hversion⟩ := List.append_inj' heq (by simp)
    obtain ⟨hprotocol, hid⟩ := List.append_inj' heq (by rw [m.sessionId.2, m'.sessionId.2])
    cases m
    cases m'
    congr
    · exact toLe_inj h.1 h'.1 hprotocol
    · exact Subtype.ext hid
    · exact toLe_inj h.2.1 h'.2.1 hversion
    · exact toLe_inj h.2.2.1 h'.2.2.1 hcols
    · exact toLe_inj h.2.2.2 h'.2.2.2 hrows

/-- The numbers of an `AuthHello` are in range. -/
def AuthHello.Typed (h : AuthHello) : Prop := h.cols < 2 ^ 16 ∧ h.rows < 2 ^ 16

/-- An `AuthHello` has 84 bytes. -/
theorem AuthHello.length_payload (h : AuthHello) : h.payload.length = 84 := by
  simp [AuthHello.payload, h.authToken.2, h.sessionId.2, h.sessionToken.2]

/-- **An `AuthHello` is decoded from its payload alone.** -/
theorem AuthHello.decode_iff (p : Bytes) (m : AuthHello) :
    AuthHello.decode p = .ok m ↔ AuthHello.Typed m ∧ p = m.payload := by
  refine decode_eq_ok AuthHello.decode (n := 84) (fun p m h => ?_)
    (fun p h => ⟨_, dif_pos h⟩) AuthHello.length_payload (fun m m' h h' heq => ?_) p m
  · unfold AuthHello.decode at h
    split at h
    · rename_i hlen
      cases h
      refine ⟨⟨leAt_lt p 80 2, leAt_lt p 82 2⟩, ?_⟩
      simp only [AuthHello.payload, FixedBytes.slice]
      rw [toLe_leAt (by omega), toLe_leAt (by omega), List.drop_zero, take_append_slice,
        take_append_slice, take_append_slice, take_append_slice, List.take_of_length_le hlen.le]
    · cases h
  · unfold AuthHello.payload at heq
    obtain ⟨heq, hrows⟩ := List.append_inj' heq (by simp)
    obtain ⟨heq, hcols⟩ := List.append_inj' heq (by simp)
    obtain ⟨heq, htoken⟩ := List.append_inj' heq (by rw [m.sessionToken.2, m'.sessionToken.2])
    obtain ⟨hauth, hid⟩ := List.append_inj' heq (by rw [m.sessionId.2, m'.sessionId.2])
    cases m
    cases m'
    congr
    · exact Subtype.ext hauth
    · exact Subtype.ext hid
    · exact Subtype.ext htoken
    · exact toLe_inj h.1 h'.1 hcols
    · exact toLe_inj h.2 h'.2 hrows

/-! ### Messages of counted fields -/

/-- The payload of `Challenge::encode`. -/
def Challenge.payload (c : Challenge) : Bytes :=
  c.challenge.1 ++ (toLe 1 (asBytes c.rpId).length ++ asBytes c.rpId ++
    (toLe 1 c.hashes.length ++ c.hashes.flatMap fun h => h.1))

/-- The limits of a `Challenge`. -/
def Challenge.Fits (c : Challenge) : Prop :=
  (asBytes c.rpId).length ≤ 255 ∧ c.hashes.length ≤ maxChainHashes

/-- A challenge is written if its texts fit. -/
theorem Challenge.encode_iff (c : Challenge) (frame : Bytes) :
    c.encode = .ok frame ↔ c.Fits ∧ frame = encodeFrame msgChallenge c.payload := by
  have hputs : (do
      let hashes ← putHashes c.hashes
      return encodeFrame msgChallenge
        (c.challenge.1 ++ toLe 1 (asBytes c.rpId).length ++ asBytes c.rpId ++ hashes)) = .ok frame ↔
      c.hashes.length ≤ maxChainHashes ∧ frame = encodeFrame msgChallenge c.payload := by
    rw [except_bind_eq_ok]
    constructor
    · rintro ⟨hashes, hh, h⟩
      obtain ⟨hle, rfl⟩ := putHashes_eq_ok.1 hh
      cases h
      exact ⟨hle, by simp only [payload, List.append_assoc]⟩
    · rintro ⟨hle, rfl⟩
      exact ⟨_, putHashes_eq_ok.2 ⟨hle, rfl⟩, by simp only [payload, List.append_assoc]; rfl⟩
  by_cases hlong : (asBytes c.rpId).length > 255
  · unfold encode
    rw [if_pos hlong]
    exact ⟨fun h => (by cases h), fun h => absurd h.1.1 (Nat.not_le.2 hlong)⟩
  · unfold encode
    rw [if_neg hlong]
    exact hputs.trans ⟨fun h => ⟨⟨Nat.not_lt.1 hlong, h.1⟩, h.2⟩, fun h => ⟨h.1.2, h.2⟩⟩

/-- A challenge is read back. -/
theorem Challenge.inverts_read : Inverts Challenge.read Challenge.payload Challenge.Fits := by
  refine ((inverts_readArray ProtoError.truncated 32).bind Challenge.challenge Fits
    fun challenge _ => ?_).congr fun _ => and_iff_right trivial
  refine (((inverts_counted 1).utf8 ProtoError.frame).bind Challenge.rpId
    (fun c => c.hashes.length ≤ maxChainHashes ∧ c.challenge = challenge)
    fun rpId _ => ?_).congr fun c => ?_
  · refine (inverts_takeHashes.last Challenge.hashes
      (fun c => c.challenge = challenge ∧ c.rpId = rpId) fun hashes c => ?_).congr
      fun c => and_assoc.symm
    cases c
    simp [and_assoc]
  · rw [Fits, and_assoc]
    exact and_congr_left fun _ => Nat.lt_succ_iff

/-- The payload of `Enroll::encode`. -/
def Enroll.payload (e : Enroll) : Bytes :=
  e.nonce.1 ++ (toLe 2 e.clientDataJson.length ++ e.clientDataJson ++
    (toLe 2 e.attestationObject.length ++ e.attestationObject))

/-- The limits of an `Enroll`. -/
def Enroll.Fits (e : Enroll) : Prop :=
  e.clientDataJson.length ≤ 65535 ∧ e.attestationObject.length ≤ 65535

/-- An enrolment is written if its fields fit. -/
theorem Enroll.encode_iff (e : Enroll) (frame : Bytes) :
    e.encode = .ok frame ↔ e.Fits ∧ frame = encodeFrame msgEnroll e.payload := by
  simp only [encode, except_bind_eq_ok, putN_eq_ok]
  constructor
  · rintro ⟨_, ⟨hc, rfl⟩, _, ⟨ha, rfl⟩, h⟩
    cases h
    exact ⟨⟨hc, ha⟩, by simp only [payload, List.append_assoc]⟩
  · rintro ⟨⟨hc, ha⟩, rfl⟩
    exact ⟨_, ⟨hc, rfl⟩, _, ⟨ha, rfl⟩, by simp only [payload, List.append_assoc]; rfl⟩

/-- An enrolment is read back. -/
theorem Enroll.inverts_read : Inverts Enroll.read Enroll.payload Enroll.Fits := by
  refine ((inverts_readArray ProtoError.truncated 16).bind Enroll.nonce Fits
    fun nonce _ => ?_).congr fun _ => and_iff_right trivial
  refine (inverts_takeN.bind Enroll.clientDataJson
    (fun e => e.attestationObject.length ≤ 65535 ∧ e.nonce = nonce)
    fun clientDataJson _ => ?_).congr fun e => and_assoc.symm
  refine (inverts_takeN.last Enroll.attestationObject
    (fun e => e.nonce = nonce ∧ e.clientDataJson = clientDataJson)
    fun attestationObject e => ?_).congr fun e => and_assoc.symm
  cases e
  simp [and_assoc]

/-- The payload of `Assert::encode`. -/
def Assert.payload (a : Assert) : Bytes :=
  toLe 2 a.credentialId.length ++ a.credentialId ++
    (toLe 2 a.authenticatorData.length ++ a.authenticatorData ++
      (toLe 2 a.clientDataJson.length ++ a.clientDataJson ++
        (toLe 2 a.signature.length ++ a.signature)))

/-- The limits of an `Assert`. -/
def Assert.Fits (a : Assert) : Prop :=
  a.credentialId.length ≤ 65535 ∧ a.authenticatorData.length ≤ 65535 ∧
    a.clientDataJson.length ≤ 65535 ∧ a.signature.length ≤ 65535

/-- An assertion is written if its fields fit. -/
theorem Assert.encode_iff (a : Assert) (frame : Bytes) :
    a.encode = .ok frame ↔ a.Fits ∧ frame = encodeFrame msgAssert a.payload := by
  simp only [encode, except_bind_eq_ok, putN_eq_ok]
  constructor
  · rintro ⟨_, ⟨hi, rfl⟩, _, ⟨ha, rfl⟩, _, ⟨hc, rfl⟩, _, ⟨hs, rfl⟩, h⟩
    cases h
    exact ⟨⟨hi, ha, hc, hs⟩, by simp only [payload, List.append_assoc]⟩
  · rintro ⟨⟨hi, ha, hc, hs⟩, rfl⟩
    exact ⟨_, ⟨hi, rfl⟩, _, ⟨ha, rfl⟩, _, ⟨hc, rfl⟩, _, ⟨hs, rfl⟩,
      by simp only [payload, List.append_assoc]; rfl⟩

/-- An assertion is read back. -/
theorem Assert.inverts_read : Inverts Assert.read Assert.payload Assert.Fits := by
  refine inverts_takeN.bind Assert.credentialId _ fun credentialId _ => ?_
  refine (inverts_takeN.bind Assert.authenticatorData
    (fun a => (a.clientDataJson.length ≤ 65535 ∧ a.signature.length ≤ 65535) ∧
      a.credentialId = credentialId) fun authenticatorData _ => ?_).congr fun a => and_assoc.symm
  refine (inverts_takeN.bind Assert.clientDataJson
    (fun a => a.signature.length ≤ 65535 ∧ a.credentialId = credentialId ∧
      a.authenticatorData = authenticatorData) fun clientDataJson _ => ?_).congr
    fun a => by rw [and_assoc, and_assoc]
  refine (inverts_takeN.last Assert.signature
    (fun a => a.credentialId = credentialId ∧ a.authenticatorData = authenticatorData ∧
      a.clientDataJson = clientDataJson) fun signature a => ?_).congr
    fun a => by rw [and_assoc, and_assoc]
  cases a
  simp [and_assoc]

/-- The payload of `AuthOk::encode`. -/
def AuthOk.payload (a : AuthOk) : Bytes :=
  a.authToken.1 ++ (toLe 4 a.uid ++ (a.sessionId.1 ++ (a.sessionToken.1 ++
    (toLe 1 a.hashes.length ++ a.hashes.flatMap fun h => h.1))))

/-- The limit of an `AuthOk`. -/
def AuthOk.Fits (a : AuthOk) : Prop := a.hashes.length ≤ maxChainHashes

/-- The number of an `AuthOk` is in range. -/
def AuthOk.Typed (a : AuthOk) : Prop := a.uid < 2 ^ 32

/-- An answer is written if its hashes fit. -/
theorem AuthOk.encode_iff (a : AuthOk) (frame : Bytes) :
    a.encode = .ok frame ↔ a.Fits ∧ frame = encodeFrame msgAuthOk a.payload := by
  simp only [encode, except_bind_eq_ok, putHashes_eq_ok]
  constructor
  · rintro ⟨_, ⟨hh, rfl⟩, h⟩
    cases h
    exact ⟨hh, by simp only [payload, List.append_assoc]⟩
  · rintro ⟨hh, rfl⟩
    exact ⟨_, ⟨hh, rfl⟩, by simp only [payload, List.append_assoc]; rfl⟩

/-- An answer is read back. -/
theorem AuthOk.inverts_read :
    Inverts AuthOk.read AuthOk.payload fun a => a.Typed ∧ a.Fits := by
  refine ((inverts_readArray ProtoError.truncated 32).bind AuthOk.authToken
    (fun a => a.Typed ∧ a.Fits) fun authToken _ => ?_).congr fun _ => and_iff_right trivial
  refine ((inverts_readLe ProtoError.truncated 4).bind AuthOk.uid
    (fun a => a.Fits ∧ a.authToken = authToken) fun uid _ => ?_).congr
    fun a => and_assoc.symm
  refine ((inverts_readArray ProtoError.truncated 16).bind AuthOk.sessionId
    (fun a => (a.Fits ∧ a.authToken = authToken) ∧ a.uid = uid) fun sessionId _ => ?_).congr
    fun _ => and_iff_right trivial
  refine ((inverts_readArray ProtoError.truncated 32).bind AuthOk.sessionToken
    (fun a => ((a.Fits ∧ a.authToken = authToken) ∧ a.uid = uid) ∧ a.sessionId = sessionId)
    fun sessionToken _ => ?_).congr fun _ => and_iff_right trivial
  refine (inverts_takeHashes.last AuthOk.hashes
    (fun a => a.authToken = authToken ∧ a.uid = uid ∧ a.sessionId = sessionId ∧
      a.sessionToken = sessionToken) fun hashes a => ?_).congr
    fun a => by rw [Fits, and_assoc, and_assoc, and_assoc]
  cases a
  simp [and_assoc]

/-- The payload of `AuthFail::encode`. -/
def AuthFail.payload (a : AuthFail) : Bytes :=
  toLe 2 (asBytes a.reason).length ++ asBytes a.reason

/-- The limit of an `AuthFail`. -/
def AuthFail.Fits (a : AuthFail) : Prop := (asBytes a.reason).length ≤ 65535

/-- A refusal is written if its reason fits. -/
theorem AuthFail.encode_iff (a : AuthFail) (frame : Bytes) :
    a.encode = .ok frame ↔ a.Fits ∧ frame = encodeFrame msgAuthFail a.payload := by
  simp only [encode, except_bind_eq_ok, putN_eq_ok]
  constructor
  · rintro ⟨_, ⟨hr, rfl⟩, h⟩
    cases h
    exact ⟨hr, rfl⟩
  · rintro ⟨hr, rfl⟩
    exact ⟨_, ⟨hr, rfl⟩, rfl⟩

/-- A refusal is read back. -/
theorem AuthFail.inverts_read : Inverts AuthFail.read AuthFail.payload AuthFail.Fits := by
  refine ((inverts_takeN.utf8 ProtoError.frame).last AuthFail.reason (fun _ => True)
    fun reason a => ?_).congr fun a => and_iff_left trivial
  cases a
  simp

/-! ### The eight messages -/

/-- No message comes near the bound of a frame. -/
theorem length_hashes (hashes : List (FixedBytes 32)) :
    (hashes.flatMap fun h => h.1).length = 32 * hashes.length := by
  induction hashes with
  | nil => rfl
  | cons h hashes ih =>
    rw [List.flatMap_cons, List.length_append, h.2, ih, List.length_cons]
    omega

/-- A message of counted fields. -/
theorem Codec.of_inverts {μ : Type} {typ : UInt8} {Typed Fits : μ → Prop}
    {encode : μ → Except ProtoError Bytes} {r : Reader ProtoError μ} {payload : μ → Bytes}
    (hencode : ∀ m frame, encode m = .ok frame ↔ Fits m ∧ frame = encodeFrame typ (payload m))
    (hread : Inverts r payload fun m => Typed m ∧ Fits m)
    (hlen : ∀ m, Fits m → (payload m).length < maxFrame) :
    Codec typ Typed Fits encode (complete .frame r) :=
  .of_decode hencode (fun _ _ => hread.complete_iff .frame) hlen

/-- A message of one length, whose encoder cannot fail. -/
theorem Codec.of_fixed {μ : Type} {typ : UInt8} {Typed : μ → Prop}
    {decode : Bytes → Except ProtoError μ} (payload : μ → Bytes)
    (hdecode : ∀ p m, decode p = .ok m ↔ Typed m ∧ p = payload m)
    (hlen : ∀ m, (payload m).length < maxFrame) :
    Codec typ Typed (fun _ => True) (fun m => .ok (encodeFrame typ (payload m))) decode :=
  .of_decode (fun _ _ => ⟨fun h => ⟨trivial, (Except.ok.inj h).symm⟩, fun h => congrArg _ h.2.symm⟩)
    (fun p m => (hdecode p m).trans (and_congr_left fun _ => (and_iff_left trivial).symm))
    fun m _ => hlen m

/-- **The handshake codecs are bijections onto what they accept.**  Three have a payload of
a fixed length; the others are written only if their counts fit, and then the payload fits a
frame. -/
theorem handshake_codecs :
    Codec msgHello Hello.Typed (fun _ => True) (fun h => .ok h.encode) Hello.decode ∧
    Codec msgHelloOk HelloOk.Typed (fun _ => True) (fun h => .ok h.encode) HelloOk.decode ∧
    Codec msgAuthHello AuthHello.Typed (fun _ => True) (fun h => .ok h.encode)
      AuthHello.decode ∧
    Codec msgChallenge (fun _ => True) Challenge.Fits Challenge.encode Challenge.decode ∧
    Codec msgEnroll (fun _ => True) Enroll.Fits Enroll.encode Enroll.decode ∧
    Codec msgAssert (fun _ => True) Assert.Fits Assert.encode Assert.decode ∧
    Codec msgAuthOk AuthOk.Typed AuthOk.Fits AuthOk.encode AuthOk.decode ∧
    Codec msgAuthFail (fun _ => True) AuthFail.Fits AuthFail.encode AuthFail.decode := by
  refine ⟨.of_fixed Hello.payload Hello.decode_iff fun m => ?_,
    .of_fixed HelloOk.payload HelloOk.decode_iff fun m => ?_,
    .of_fixed AuthHello.payload AuthHello.decode_iff fun m => ?_,
    .of_inverts Challenge.encode_iff
      (Challenge.inverts_read.congr fun _ => (and_iff_right trivial).symm) fun m h => ?_,
    .of_inverts Enroll.encode_iff
      (Enroll.inverts_read.congr fun _ => (and_iff_right trivial).symm) fun m h => ?_,
    .of_inverts Assert.encode_iff
      (Assert.inverts_read.congr fun _ => (and_iff_right trivial).symm) fun m h => ?_,
    .of_inverts AuthOk.encode_iff AuthOk.inverts_read fun m h => ?_,
    .of_inverts AuthFail.encode_iff
      (AuthFail.inverts_read.congr fun _ => (and_iff_right trivial).symm) fun m h => ?_⟩
  · rw [Hello.length_payload]
    decide
  · rw [HelloOk.length_payload]
    decide
  · rw [AuthHello.length_payload]
    decide
  · obtain ⟨hr, hh⟩ := h
    have := m.challenge.2
    simp only [Challenge.payload, List.length_append, length_toLe, length_hashes]
    unfold maxChainHashes at hh
    unfold maxFrame
    omega
  · obtain ⟨hc, ha⟩ := h
    have := m.nonce.2
    simp only [Enroll.payload, List.length_append, length_toLe]
    unfold maxFrame
    omega
  · obtain ⟨hi, ha, hc, hs⟩ := h
    simp only [Assert.payload, List.length_append, length_toLe]
    unfold maxFrame
    omega
  · have := m.authToken.2
    have := m.sessionId.2
    have := m.sessionToken.2
    simp only [AuthOk.payload, List.length_append, length_toLe, length_hashes]
    unfold AuthOk.Fits maxChainHashes at h
    unfold maxFrame
    omega
  · simp only [AuthFail.payload, List.length_append, length_toLe]
    unfold AuthFail.Fits at h
    unfold maxFrame
    omega

end Quosh
