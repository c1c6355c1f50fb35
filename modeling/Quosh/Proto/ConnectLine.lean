/-
# The line that SSH brings

`crates/quosh-proto/src/lib.rs`: `format_connect_line` and `parse_connect_line`, and their two
callers in `crates/quosh-cli/src/main.rs`: `helper`, which prints the line at the end of SSH that
the daemon is at, and `client`, which looks for it in everything that SSH has printed.

`client` finds what `helper` printed among whatever else a login prints (`readConnection_around`),
unless the line does not begin where a line does.
-/

import Quosh.Data.Words
import Quosh.Server.Requests

namespace Quosh

open Bytes Words

/-- `CONNECT_PREFIX`. -/
def connectPrefix : List Char := "QUOSH CONNECT".toList

/-- `DEFAULT_PORT`. -/
def defaultPort : ℕ := 443

/-- `ConnectBits`. -/
structure ConnectBits where
  port : UInt16
  certHash : FixedBytes 32
  session : FixedBytes 16
  token : FixedBytes 32
  deriving DecidableEq

/-- `hex_16` and `hex_32`. -/
def hexArray (n : ℕ) (cs : List Char) : Except ProtoError (FixedBytes n) :=
  match hexDecode (String.ofList cs) with
  | .error _ => .error .frame
  | .ok v => if h : v.length = n then .ok ⟨v, h⟩ else .error .frame

/-- `parse_connect_line`. -/
def parseConnectLine (line : List Char) : Except ProtoError ConnectBits :=
  let line := trim line
  if connectPrefix.isPrefixOf line = false then .error .frame
  else
    match words (trim (line.drop connectPrefix.length)) with
    | port :: hash :: session :: token :: _ => do
      let some port := readU16 port | .error .frame
      let certHash ← hexArray 32 hash
      let session ← hexArray 16 session
      let token ← hexArray 32 token
      return { port, certHash, session, token }
    | _ => .error .frame

/-- `format_connect_line`. -/
def formatConnectLine (b : ConnectBits) : List Char :=
  connectPrefix ++ ' ' :: (Nat.toDigits 10 b.port.toNat ++
    ' ' :: ((hexEncode b.certHash.1).toList ++
      ' ' :: ((hexEncode b.session.1).toList ++ ' ' :: (hexEncode b.token.1).toList)))

/-- `hex16` and `hex32` of the command line. -/
def requiredHex (n : ℕ) (missing wrong : String) : Option String → Except String (FixedBytes n)
  | none => .error missing
  | some s => do
    let v ← hexDecode s
    if h : v.length = n then .ok ⟨v, h⟩ else .error wrong

/-- What `helper` prints for an answer to its request for a session. -/
def connectOutput (resp : HelperResponse) : Except String (List Char) :=
  if resp.ok = false then .error (resp.error.getD "create failed")
  else do
    let certHash ← requiredHex 32 "missing hex" "hex32" resp.certSha256
    let session ← requiredHex 16 "missing session_id" "session_id" resp.sessionId
    let token ← requiredHex 32 "missing hex" "hex32" resp.token
    return formatConnectLine
      { port := UInt16.ofNat (resp.port.getD defaultPort), certHash, session, token } ++ ['\n']

/-- What `client` makes of the output of SSH: the last line with the prefix is parsed. -/
def readConnection (out : List Char) : Except String ConnectBits :=
  match (lines out).reverse.find? (connectPrefix.isPrefixOf ·) with
  | none => .error "no QUOSH CONNECT line from server (is quosh-server running?)"
  | some line => (parseConnectLine line).mapError ProtoError.display

/-! ### What is printed is read -/

/-- The letters of a hex text are digits. -/
theorem mem_hexEncode {bs : Bytes} {c : Char} (h : c ∈ (hexEncode bs).toList) :
    ∃ n < 16, c = hexDigit n := by
  unfold hexEncode at h
  rw [String.toList_ofList] at h
  obtain ⟨b, -, hc⟩ := List.mem_flatMap.1 h
  have hb := b.toNat_lt
  rcases List.mem_pair.1 hc with rfl | rfl
  · exact ⟨_, by omega, rfl⟩
  · exact ⟨_, Nat.mod_lt _ (by decide), rfl⟩

/-- A hex text is a word. -/
theorem isWord_hexEncode {n : ℕ} (hn : n ≠ 0) (b : FixedBytes n) :
    IsWord (hexEncode b.1).toList := by
  refine ⟨?_, fun c hc => ?_⟩
  · obtain ⟨b, hb⟩ := b
    cases b with
    | nil => exact absurd hb.symm hn
    | cons x xs =>
      unfold hexEncode
      rw [String.toList_ofList]
      exact List.cons_ne_nil _ _
  · obtain ⟨m, hm, rfl⟩ := mem_hexEncode hc
    have hall : ∀ m : Fin 16, isSpace (hexDigit m) = false := by decide
    exact hall ⟨m, hm⟩

/-- A hex text is read back. -/
theorem hexArray_hexEncode {n : ℕ} (b : FixedBytes n) :
    hexArray n (hexEncode b.1).toList = .ok b := by
  unfold hexArray
  rw [String.ofList_toList, hexDecode_hexEncode]
  dsimp only
  rw [dif_pos b.2]

/-- A field that is there is read back. -/
theorem requiredHex_hexEncode {n : ℕ} (missing wrong : String) (b : FixedBytes n) :
    requiredHex n missing wrong (some (hexEncode b.1)) = .ok b := by
  unfold requiredHex
  dsimp only
  rw [hexDecode_hexEncode]
  exact dif_pos b.2

/-- What stands behind the prefix of a line. -/
def ConnectBits.fields (b : ConnectBits) : List Char :=
  Nat.toDigits 10 b.port.toNat ++ ' ' :: ((hexEncode b.certHash.1).toList ++
    ' ' :: ((hexEncode b.session.1).toList ++ ' ' :: (hexEncode b.token.1).toList))

/-- The fields behind the prefix. -/
theorem trim_fields (b : ConnectBits) : trim (' ' :: b.fields) = b.fields := by
  have hsplit : b.fields = Nat.toDigits 10 b.port.toNat ++
      ((' ' :: ((hexEncode b.certHash.1).toList ++
        ' ' :: ((hexEncode b.session.1).toList ++ [' ']))) ++ (hexEncode b.token.1).toList) := by
    unfold ConnectBits.fields
    simp only [List.append_assoc, List.cons_append, List.nil_append]
  rw [trim_space, hsplit]
  exact trim_between (isWord_toDigits _) _ (isWord_hexEncode (by decide) b.token)

/-- **The fields are four words.** -/
theorem words_fields (b : ConnectBits) :
    words b.fields = [Nat.toDigits 10 b.port.toNat, (hexEncode b.certHash.1).toList,
      (hexEncode b.session.1).toList, (hexEncode b.token.1).toList] := by
  have hhash := isWord_hexEncode (by decide) b.certHash
  have hsession := isWord_hexEncode (by decide) b.session
  have htoken := isWord_hexEncode (by decide) b.token
  unfold ConnectBits.fields
  simp only [words_append, words_eq_single (isWord_toDigits _), words_eq_single hhash,
    words_eq_single hsession, words_eq_single htoken, List.singleton_append]

/-- The line has no space around it. -/
theorem trim_format (b : ConnectBits) :
    trim (formatConnectLine b) = connectPrefix ++ ' ' :: b.fields := by
  have hall : "QUOSH".toList.all (fun c => decide (isSpace c = false)) = true := by decide
  have hfirst : IsWord "QUOSH".toList :=
    ⟨by decide, fun c hc => of_decide_eq_true (List.all_eq_true.1 hall c hc)⟩
  have hsplit : formatConnectLine b = "QUOSH".toList ++ ((" CONNECT".toList ++
      ' ' :: (Nat.toDigits 10 b.port.toNat ++ ' ' :: ((hexEncode b.certHash.1).toList ++
        ' ' :: ((hexEncode b.session.1).toList ++ [' '])))) ++ (hexEncode b.token.1).toList) := by
    unfold formatConnectLine
    rw [show connectPrefix = "QUOSH".toList ++ " CONNECT".toList by decide]
    simp only [List.append_assoc, List.cons_append, List.nil_append]
  rw [hsplit, trim_between hfirst _ (isWord_hexEncode (by decide) b.token), ← hsplit]
  rfl

/-- **The line is parsed** as what it was formatted from. -/
theorem parseConnectLine_format (b : ConnectBits) :
    parseConnectLine (formatConnectLine b) = .ok b := by
  have hstarts : connectPrefix.isPrefixOf (connectPrefix ++ ' ' :: b.fields) = true :=
    List.isPrefixOf_iff_prefix.2 (List.prefix_append ..)
  unfold parseConnectLine
  dsimp only
  rw [trim_format, if_neg (by rw [hstarts]; decide), List.drop_left, trim_fields, words_fields]
  dsimp only
  rw [readU16_toDigits]
  dsimp only
  rw [hexArray_hexEncode, hexArray_hexEncode, hexArray_hexEncode]
  rfl

/-- There is no space in the line but ' '. -/
theorem eq_space_of_mem {b : ConnectBits} {c : Char} (h : c ∈ formatConnectLine b)
    (hspace : isSpace c = true) : c = ' ' := by
  have hne {cs : List Char} (hword : IsWord cs) (hc : c ∈ cs) : c = ' ' := by
    rw [hword.2 c hc] at hspace
    cases hspace
  unfold formatConnectLine at h
  simp only [List.mem_append, List.mem_cons] at h
  rcases h with h | rfl | h | rfl | h | rfl | h | rfl | h
  · have hall : connectPrefix.all (fun c => decide (isSpace c = true → c = ' ')) = true := by
      decide
    exact of_decide_eq_true (List.all_eq_true.1 hall c h) hspace
  · rfl
  · exact hne (isWord_toDigits _) h
  · rfl
  · exact hne (isWord_hexEncode (by decide) b.certHash) h
  · rfl
  · exact hne (isWord_hexEncode (by decide) b.session) h
  · rfl
  · exact hne (isWord_hexEncode (by decide) b.token) h

/-- **`client` reads what `helper` printed** out of everything that SSH has printed, if it begins
where a line does, and no line behind it has the prefix. -/
theorem readConnection_around (b : ConnectBits) {before after : List Char}
    (hbefore : before = [] ∨ ∃ text, before = text ++ ['\n'])
    (hafter : ∀ l ∈ lines after, connectPrefix.isPrefixOf l = false) :
    readConnection (before ++ (formatConnectLine b ++ ['\n']) ++ after) = .ok b := by
  have hline : '\n' ∉ formatConnectLine b := fun hmem =>
    absurd (eq_space_of_mem hmem (by decide)) (by decide)
  have hchomp : chomp (formatConnectLine b) = formatConnectLine b := by
    refine if_neg fun hlast => ?_
    exact absurd (eq_space_of_mem (List.mem_of_getLast? hlast) (by decide)) (by decide)
  have hstarts : connectPrefix.isPrefixOf (formatConnectLine b) = true :=
    List.isPrefixOf_iff_prefix.2 (List.prefix_append ..)
  have hout : before ++ (formatConnectLine b ++ ['\n']) ++ after =
      before ++ formatConnectLine b ++ '\n' :: after := by
    simp only [List.append_assoc, List.singleton_append]
  obtain ⟨ls, hlines⟩ := lines_around after hbefore hline
  have hnone : (lines after).reverse.find? (connectPrefix.isPrefixOf ·) = none :=
    List.find?_eq_none.2 fun l hl => by
      rw [hafter l (List.mem_reverse.1 hl)]
      exact Bool.false_ne_true
  unfold readConnection
  rw [hout, hlines, hchomp, List.reverse_append, List.reverse_cons, List.append_assoc,
    List.find?_append, hnone, Option.none_or, List.singleton_append, List.find?_cons_of_pos hstarts]
  dsimp only
  rw [parseConnectLine_format]
  rfl

/-- **What `helper` prints for a session** that was created. -/
theorem connectOutput_eq {resp : HelperResponse} (b : ConnectBits) (hok : resp.ok = true)
    (hport : resp.port = some b.port.toNat)
    (hcert : resp.certSha256 = some (hexEncode b.certHash.1))
    (hsession : resp.sessionId = some (hexEncode b.session.1))
    (htoken : resp.token = some (hexEncode b.token.1)) :
    connectOutput resp = .ok (formatConnectLine b ++ ['\n']) := by
  unfold connectOutput
  rw [if_neg (by rw [hok]; decide), hport, hcert, hsession, htoken, requiredHex_hexEncode,
    requiredHex_hexEncode, requiredHex_hexEncode]
  show Except.ok _ = _
  rw [Option.getD_some, UInt16.ofNat_toNat]

end Quosh
