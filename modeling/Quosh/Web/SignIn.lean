/-
# Signing in from a browser

`web/src/auth.ts`, `runAuth`, over `FrameBuffer` and the codecs of
`crates/quosh-proto-wasm/src/lib.rs`: a hello goes out, a challenge may come back and is answered
with what a ceremony makes of it, and the verdict is the next frame.

`runAuth` waits for two things, bytes of the control stream and its ceremony, and what it does
between two waits is a function of a `Browser`: `read` and `eof` for the stream, `respond` for the
ceremony.  What an authenticator does with a challenge is outside (`Quosh.Server.Authenticator`),
so what a ceremony ends with comes from outside.

`take_append` says all that `runAuth` asks of the stream: what it makes of a frame does not depend
on how the bytes of it came.
-/

import Quosh.Bytes.Hex
import Quosh.Proto.AuthMessage
import Quosh.Proto.Chunks

namespace Quosh

open Bytes

namespace Web

/-! ### What goes out -/

/-- `arr16` and `arr32`. -/
def toArray (n : ℕ) (b : Bytes) : Except String (FixedBytes n) :=
  if h : b.length = n then .ok ⟨b, h⟩ else .error ("expected " ++ toString n ++ " bytes")

/-- The options of `runAuth`; of a ceremony, whether there is one. -/
structure AuthOptions where
  authToken : Option Bytes := none
  sessionId : Option Bytes := none
  sessionToken : Option Bytes := none
  cols : UInt16
  rows : UInt16
  ceremony : Bool

/-- The arguments of `encodeAuthHello`. -/
def AuthOptions.hello (o : AuthOptions) : Except String AuthHello := do
  let authToken ← toArray 32 (o.authToken.getD (List.replicate 32 0))
  let sessionId ← toArray 16 (o.sessionId.getD (List.replicate 16 0))
  let sessionToken ← toArray 32 (o.sessionToken.getD (List.replicate 32 0))
  return { authToken, sessionId, sessionToken, cols := o.cols.toNat, rows := o.rows.toNat }

/-- The hello of a browser has fields that fit. -/
theorem AuthOptions.typed_hello {o : AuthOptions} {hello : AuthHello} (h : o.hello = .ok hello) :
    hello.Typed := by
  unfold AuthOptions.hello at h
  obtain ⟨authToken, -, h⟩ := except_bind_eq_ok.1 h
  obtain ⟨sessionId, -, h⟩ := except_bind_eq_ok.1 h
  obtain ⟨sessionToken, -, h⟩ := except_bind_eq_ok.1 h
  cases h
  exact ⟨o.cols.toNat_lt, o.rows.toNat_lt⟩

/-- What a ceremony answers a challenge with. -/
inductive Reply where
  | enroll (e : Enroll)
  | assert (a : Assert)

/-- `encodeEnroll` and `encodeAssert`. -/
def Reply.encode : Reply → Except ProtoError Bytes
  | .enroll e => e.encode
  | .assert a => a.encode

/-- A reply is one frame. -/
theorem Reply.exists_of_encode {r : Reply} {bytes : Bytes} (h : r.encode = .ok bytes) :
    ∃ typ payload, bytes = encodeFrame typ payload ∧ payload.length < maxFrame := by
  cases r with
  | enroll e =>
    obtain ⟨hfits, rfl⟩ := (e.encode_iff bytes).1 h
    refine ⟨_, _, rfl, ?_⟩
    obtain ⟨hc, ha⟩ := hfits
    have := e.nonce.2
    simp only [Enroll.payload, List.length_append, length_toLe]
    unfold maxFrame
    omega
  | assert a =>
    obtain ⟨hfits, rfl⟩ := (a.encode_iff bytes).1 h
    refine ⟨_, _, rfl, ?_⟩
    obtain ⟨hi, ha, hc, hs⟩ := hfits
    simp only [Assert.payload, List.length_append, length_toLe]
    unfold maxFrame
    omega

/-! ### What comes back -/

/-- `AuthResult`. -/
structure AuthResult where
  authToken : FixedBytes 32
  uid : ℕ
  sessionId : FixedBytes 16
  sessionToken : FixedBytes 32
  hashes : List String
  remaining : Bytes

/-- The fields of `decodeAuthOk`, and what is left in the buffer. -/
def AuthResult.of (a : AuthOk) (remaining : Bytes) : AuthResult where
  authToken := a.authToken
  uid := a.uid
  sessionId := a.sessionId
  sessionToken := a.sessionToken
  hashes := a.hashes.map fun h => hexEncode h.1
  remaining

/-- How `runAuth` fails: by its own errors, by what a decoder throws, and by what an encoder or
the ceremony throws. -/
inductive AuthError where
  | needsPasskey
  | rejected (reason : String)
  | unexpected (typ : UInt8)
  | closed
  | unreadable (e : ProtoError)
  | unsent (message : String)

/-- It comes from the ceremony: there is none, or what it ended with is not sent. -/
def AuthError.ofCeremony : AuthError → Bool
  | .needsPasskey | .unsent _ => true
  | _ => false

/-- Where `runAuth` is: it waits for its first frame, for the ceremony, or for the frame behind
the reply, or it has ended.  Then the client that `establish` makes of the result may have
begun. -/
inductive SignIn where
  | asking
  | prompting (challenge : FixedBytes 32) (rpId : String)
  | answering
  | done (r : Except AuthError AuthResult)
  | joined (r : AuthResult)

/-- There is a wait for bytes. -/
def SignIn.awaits : SignIn → Bool
  | .asking | .answering => true
  | _ => false

/-- There is a result. -/
def SignIn.result : SignIn → Option AuthResult
  | .done (.ok r) | .joined r => some r
  | _ => none

/-- A call of `runAuth`: its options, the buffer, and what it has written. -/
structure Browser where
  options : AuthOptions
  stage : SignIn := .asking
  fb : FrameBuffer := {}
  sent : Bytes := []

/-- What `runAuth` returns for the frame that decides, with what is left behind it. -/
def verdict (f : Frame) (remaining : Bytes) : Except AuthError AuthResult :=
  if f.1 = msgAuthFail then
    match AuthFail.decode f.2 with
    | .error e => .error (.unreadable e)
    | .ok m => .error (.rejected m.reason)
  else if f.1 ≠ msgAuthOk then .error (.unexpected f.1)
  else
    match AuthOk.decode f.2 with
    | .error e => .error (.unreadable e)
    | .ok a => .ok (.of a remaining)

namespace Browser

/-- The first frame: a challenge goes to the ceremony. -/
def onFirst (b : Browser) (f : Frame) : Browser :=
  if f.1 = msgChallenge then
    if b.options.ceremony = false then { b with stage := .done (.error .needsPasskey) }
    else
      match Challenge.decode f.2 with
      | .error e => { b with stage := .done (.error (.unreadable e)) }
      | .ok c => { b with stage := .prompting c.challenge c.rpId }
  else { b with stage := .done (verdict f b.fb.buf) }

/-- `nextFrame` up to where it waits for bytes, and what follows it when it does not. -/
def take (b : Browser) : Browser :=
  match b.stage with
  | .asking =>
    match b.fb.take with
    | (.error e, fb) => { b with fb, stage := .done (.error (.unreadable e)) }
    | (.ok none, fb) => { b with fb }
    | (.ok (some f), fb) => ({ b with fb } : Browser).onFirst f
  | .answering =>
    match b.fb.take with
    | (.error e, fb) => { b with fb, stage := .done (.error (.unreadable e)) }
    | (.ok none, fb) => { b with fb }
    | (.ok (some f), fb) => { b with fb, stage := .done (verdict f fb.buf) }
  | _ => b

/-- `runAuth` waits for bytes. -/
def awaits (b : Browser) : Bool := b.stage.awaits

/-- Bytes of the control stream. -/
def read (b : Browser) (bytes : Bytes) : Browser :=
  if b.awaits then ({ b with fb := b.fb.push bytes } : Browser).take else b

/-- The end of the control stream. -/
def eof (b : Browser) : Browser :=
  if b.awaits then { b with stage := .done (.error .closed) } else b

/-- The end of the ceremony. -/
def respond (b : Browser) (r : Except String Reply) : Browser :=
  match b.stage with
  | .prompting _ _ =>
    match r with
    | .error message => { b with stage := .done (.error (.unsent message)) }
    | .ok reply =>
      match reply.encode with
      | .error e => { b with stage := .done (.error (.unsent e.display)) }
      | .ok bytes => ({ b with stage := .answering, sent := b.sent ++ bytes } : Browser).take
  | _ => b

/-- `runAuth` up to its first wait, where the buffer is empty. -/
def start (o : AuthOptions) : Browser :=
  match o.hello with
  | .error message => { options := o, stage := .done (.error (.unsent message)) }
  | .ok hello => { options := o, sent := hello.encode }

/-- The hello of a client that `establish` makes of a result. -/
def helloOf (r : AuthResult) (cols rows : UInt16) : Hello where
  protocol := protocolVersion
  sessionId := r.sessionId
  token := r.sessionToken
  cols := cols.toNat
  rows := rows.toNat

/-- `establish` behind `runAuth`: the client begins its connection. -/
def join (b : Browser) (cols rows : UInt16) : Browser :=
  match b.stage with
  | .done (.ok r) => { b with stage := .joined r, sent := b.sent ++ (helloOf r cols rows).encode }
  | _ => b

/-- What the client writes further on. -/
def say (b : Browser) (bytes : Bytes) : Browser :=
  match b.stage with
  | .joined _ => { b with sent := b.sent ++ bytes }
  | _ => b

/-- What `runAuth` has returned. -/
def result (b : Browser) : Option AuthResult := b.stage.result

/-! ### What is read of the stream -/

variable {b : Browser}

/-- A frame that is taken sends nothing. -/
theorem sent_take (b : Browser) : b.take.sent = b.sent := by
  unfold take
  split
  · split
    · rfl
    · rfl
    · unfold onFirst
      split
      · split
        · rfl
        · split <;> rfl
      · rfl
  · split <;> rfl
  · rfl

/-- `runAuth` has taken all frames that it could. -/
def Settled (b : Browser) : Prop := b.awaits = true → b.fb.take = (.ok none, b.fb)

/-- There is nothing to take. -/
theorem take_eq_self (h : b.Settled) : b.take = b := by
  unfold take
  split
  · rename_i hstage
    have hawaits : b.awaits = true := by
      unfold awaits
      rw [hstage]
      rfl
    rw [h hawaits]
  · rename_i hstage
    have hawaits : b.awaits = true := by
      unfold awaits
      rw [hstage]
      rfl
    rw [h hawaits]
  · rfl

end Browser

/-- An empty buffer has no frame. -/
theorem take_of_nil {fb : FrameBuffer} (h : fb.buf = []) : fb.take = (.ok none, fb) := by
  obtain ⟨buf⟩ := fb
  subst h
  rfl

/-- **What is taken does not depend on how the bytes came**: a frame that the bytes begin with is
taken when it is there. -/
theorem take_append {fb : FrameBuffer} {ahead x payload : Bytes} {typ : UInt8}
    (hlen : payload.length < maxFrame) (h : fb.buf ++ ahead = encodeFrame typ payload ++ x) :
    fb.take = (.ok none, fb) ∨
      ∃ fb', fb.take = (.ok (some (typ, payload)), fb') ∧ fb'.buf ++ ahead = x := by
  have hwhole : splitFrame (fb.buf ++ ahead) = (.ok (some (typ, payload)), x) := by
    rw [h]
    exact splitFrame_encode hlen x
  unfold FrameBuffer.take
  generalize hsplit : splitFrame fb.buf = r
  obtain ⟨r, rest⟩ := r
  cases r with
  | error e =>
    have herror := splitFrame_append_error hsplit ahead
    rw [hwhole] at herror
    cases herror
  | ok f =>
    cases f with
    | none =>
      obtain rfl := splitFrame_of_not_some hsplit fun f hf => by cases hf
      exact .inl rfl
    | some f =>
      have hframe := splitFrame_append hsplit ahead
      rw [hwhole] at hframe
      obtain ⟨hf, hrest⟩ := Prod.mk.inj hframe
      cases hf
      exact .inr ⟨_, rfl, hrest.symm⟩

end Web
end Quosh
