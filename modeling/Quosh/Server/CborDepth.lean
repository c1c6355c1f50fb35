/-
# How deep the CBOR reader recurses

`read_cbor` of `crates/quosh-server/src/webauthn.rs` calls itself for every item of an array,
for every key and value of a map and for what is under a tag.  `cborDepth` is how many of its
calls are open at most at a time, whether they end well or not.

A call is open in another one where a head announces more items than stand complete before
it, so `cborDepth` counts heads that are open inside each other (`lt_cborDepth_iff`).  A head
takes a byte or more, and nothing else limits it: a buffer of `n` bytes can have `n + 1` calls
open, the last of which finds it empty (`cborDepth_tags`).

What gets to the reader comes out of an ENROLL or an ASSERT frame: an attestation object, or
the key behind a credential id in authenticator data.  So a bound holds for the frames of a
size if and only if it exceeds the bytes that such a frame can carry (`cborDepth_bounded_iff`).
-/

import Quosh.Proto.AuthMessage
import Quosh.Server.Cbor

namespace Quosh

open Bytes

/-! ### Calls inside calls -/

/-- How many calls `read_cbor` makes for a major type and an argument, if none fails. -/
def nestedCalls : ℕ → ℕ → ℕ
  | 4, val => val
  | 5, val => 2 * val
  | 6, _ => 1
  | _, _ => 0

/-- The greatest depth of so many calls one after the other: the next one starts where the
last one ended, and there is none after a failure. -/
def deepest (again : Reader String Cbor) (deep : Bytes → ℕ) : ℕ → Bytes → ℕ
  | 0, _ => 0
  | n + 1, buf =>
    max (deep buf)
      (match again buf with
      | .ok (_, rest) => deepest again deep n rest
      | .error _ => 0)

/-- How many calls are open at most in a call, itself included, where a nested one reads as
`again` and has `deep` of them. -/
def openCalls (again : Reader String Cbor) (deep : Bytes → ℕ) (buf : Bytes) : ℕ :=
  match readHead buf with
  | .ok ((major, _, val), rest) => deepest again deep (nestedCalls major val) rest + 1
  | .error _ => 1

/-- How many calls of `readCborWithin` are open at most, the one that finds the buffer empty
among them. -/
def activations : ℕ → Bytes → ℕ
  | 0 => fun _ => 1
  | fuel + 1 => openCalls (readCborWithin fuel) (activations fuel)

/-- How many calls of `read_cbor` are open at most. -/
def cborDepth (buf : Bytes) : ℕ := activations buf.length buf

/-! ### Heads that are open inside each other -/

/-- `buf` starts with `k` heads, each open when the next comes: fewer items are complete
between the two than the head announces. -/
inductive Opens : ℕ → Bytes → Prop
  | here (buf : Bytes) : Opens 0 buf
  | inside {k major n : ℕ} {w : Width} {items : List Item} {rest : Bytes} (hmajor : major < 8)
      (hfits : w.Fits n) (hitems : ∀ i ∈ items, i.Laid ∧ i.Every true TextOk)
      (hlen : items.length < nestedCalls major n) (h : Opens k rest) :
      Opens (k + 1) (head major w n ++ (items.flatMap Item.encode ++ rest))

variable {k n fuel : ℕ} {buf : Bytes} {again : Reader String Cbor} {deep : Bytes → ℕ}
  {ok : Item → Prop}

/-- Every head takes a byte. -/
theorem Opens.le_length (h : Opens k buf) : k ≤ buf.length := by
  induction h with
  | here buf => exact Nat.zero_le _
  | inside hmajor hfits hitems hlen h ih =>
    simp only [head, List.length_append, List.length_cons]
    omega

/-- **One of several calls is deep** if and only if the calls before it end well, and it
is.  The induction is on the number of calls, each of which begins where the one before has
ended. -/
theorem lt_deepest_iff (hreads : ReadsAs again Item.encode readAs ok) :
    k < deepest again deep n buf ↔ ∃ (items : List Item) (rest : Bytes), items.length < n ∧
      (∀ i ∈ items, ok i) ∧ buf = items.flatMap Item.encode ++ rest ∧ k < deep rest := by
  induction n generalizing buf with
  | zero => exact ⟨fun hk => absurd hk (Nat.not_lt_zero k), fun ⟨_, _, hlen, _⟩ => nomatch hlen⟩
  | succ n ih =>
    rw [deepest, lt_max_iff]
    constructor
    · rintro (hk | hk)
      · exact ⟨[], buf, Nat.succ_pos n, fun i hi => (nomatch hi), rfl, hk⟩
      · split at hk
        · rename_i v mid hread
          obtain ⟨item, hitem, rfl, -⟩ := hreads.sound buf v mid hread
          obtain ⟨items, rest, hlen, hitems, rfl, hdeep⟩ := ih.1 hk
          refine ⟨item :: items, rest, Nat.succ_lt_succ hlen,
            List.forall_mem_cons.2 ⟨hitem, hitems⟩, ?_, hdeep⟩
          rw [List.flatMap_cons, List.append_assoc]
        · exact absurd hk (Nat.not_lt_zero k)
    · rintro ⟨items, rest, hlen, hitems, rfl, hk⟩
      cases items with
      | nil => exact .inl hk
      | cons item items =>
        obtain ⟨hitem, hitems⟩ := List.forall_mem_cons.1 hitems
        rw [List.flatMap_cons, List.append_assoc, hreads.reads item hitem]
        exact .inr (ih.2 ⟨items, rest, Nat.lt_of_succ_lt_succ hlen, hitems, rfl, hk⟩)

/-- **One call**: where the nested ones read what the reader reads and are as deep as there are
heads open inside each other, so is the call. -/
theorem lt_openCalls_iff (hreads : ReadsAs again Item.encode readAs ok)
    (hok : ∀ i : Item, i.encode.length < buf.length → (ok i ↔ i.Laid ∧ i.Every true TextOk))
    (hdepth : ∀ rest : Bytes, rest.length < buf.length → ∀ k, k < deep rest ↔ Opens k rest) :
    k < openCalls again deep buf ↔ Opens k buf := by
  have hshort : ∀ {major w n} {items : List Item} {rest : Bytes},
      buf = head major w n ++ (items.flatMap Item.encode ++ rest) →
        rest.length < buf.length ∧ ∀ i ∈ items, i.encode.length < buf.length := by
    rintro major w n items rest rfl
    simp only [head, List.length_append, List.length_cons]
    refine ⟨by omega, fun i hi => ?_⟩
    have hle : i.encode.length ≤ (items.flatMap Item.encode).length :=
      (List.infix_of_mem_flatten (List.mem_map_of_mem hi)).length_le
    omega
  unfold openCalls
  cases k with
  | zero =>
    refine iff_of_true ?_ (.here buf)
    split
    · exact Nat.succ_pos _
    · exact Nat.one_pos
  | succ k =>
    constructor
    · intro hk
      split at hk
      · rename_i major info val mid hhead
        obtain ⟨w, hmajor, hfits, -, hbuf⟩ := readHead_eq_ok hhead
        obtain ⟨items, rest, hlen, hitems, rfl, hdeep⟩ :=
          (lt_deepest_iff hreads).1 (Nat.lt_of_succ_lt_succ hk)
        obtain ⟨hrest, hshort⟩ := hshort hbuf
        rw [hbuf]
        exact .inside hmajor hfits (fun i hi => (hok i (hshort i hi)).1 (hitems i hi)) hlen
          ((hdepth rest hrest k).1 hdeep)
      · exact absurd hk (Nat.not_lt_of_le (Nat.le_add_left 1 k))
    · intro h
      cases h with
      | inside hmajor hfits hitems hlen h =>
        obtain ⟨hrest, hshort⟩ := hshort rfl
        rw [reads_readHead hmajor hfits]
        exact Nat.succ_lt_succ ((lt_deepest_iff hreads).2 ⟨_, _, hlen,
          fun i hi => (hok i (hshort i hi)).2 (hitems i hi), rfl, (hdepth _ hrest k).2 h⟩)

/-- With as many calls as the buffer has bytes none is cut off. -/
theorem lt_activations_iff (hfuel : buf.length ≤ fuel) :
    k < activations fuel buf ↔ Opens k buf := by
  induction fuel generalizing k buf with
  | zero =>
    obtain rfl := List.eq_nil_of_length_eq_zero (Nat.le_zero.1 hfuel)
    rw [activations, Nat.lt_one_iff]
    exact ⟨fun hk => hk ▸ .here [], fun h => Nat.le_zero.1 h.le_length⟩
  | succ fuel ih =>
    refine lt_openCalls_iff (readsAs_readCborWithin fuel) (fun i hi => ?_) fun rest hrest k =>
      ih (by omega)
    have hdepth := i.depth_le_length
    exact ⟨fun h => ⟨h.laid, h.texts⟩, fun h => ⟨h.1, h.2, by omega⟩⟩

/-- **The calls that are open are at heads that are open**: more than `k` calls can be if and
only if the buffer starts with `k` such heads inside each other. -/
theorem lt_cborDepth_iff : k < cborDepth buf ↔ Opens k buf := lt_activations_iff le_rfl

/-- The reader without a count of calls. -/
theorem readsAs_readCbor : ReadsAs readCbor Item.encode readAs fun i =>
    i.Laid ∧ i.Every true TextOk where
  reads i h _ := readCbor_eq_ok_iff.2 ⟨i, h.1, h.2, rfl, rfl⟩
  sound _ _ _ h :=
    have ⟨i, hlaid, htexts, hbuf, hv⟩ := readCbor_eq_ok_iff.1 h
    ⟨i, ⟨hlaid, htexts⟩, hbuf, hv⟩

/-- **What `cborDepth` counts**: a call of `read_cbor`, and the deepest of those that it makes. -/
theorem cborDepth_eq (buf : Bytes) : cborDepth buf = openCalls readCbor cborDepth buf :=
  eq_of_forall_lt_iff fun _ => lt_cborDepth_iff.trans
    (lt_openCalls_iff readsAs_readCbor (fun _ _ => Iff.rfl) fun _ _ _ => lt_cborDepth_iff).symm

/-- **No more calls are open than there are bytes**, and one that finds none. -/
theorem cborDepth_le (buf : Bytes) : cborDepth buf ≤ buf.length + 1 :=
  Nat.le_of_not_lt fun hlt => Nat.not_succ_le_self _ (lt_cborDepth_iff.1 hlt).le_length

/-- Tags, each under the one before it. -/
theorem opens_tags (n : ℕ) : Opens n (List.replicate n 0xc0) := by
  induction n with
  | zero => exact .here []
  | succ n ih =>
    exact @Opens.inside n 6 0 .short [] _ (by decide) (by decide) (fun i hi => nomatch hi)
      Nat.one_pos ih

/-- **Tags take a call for a byte.** -/
theorem cborDepth_tags (n : ℕ) : cborDepth (List.replicate n 0xc0) = n + 1 := by
  refine Nat.le_antisymm ?_ (lt_cborDepth_iff.2 (opens_tags n))
  have hle := cborDepth_le (List.replicate n 0xc0)
  rwa [List.length_replicate] at hle

/-! ### What gets to the reader -/

/-- `Cbor::as_text`. -/
def Cbor.asText : Cbor → Option String
  | .text s => some s
  | _ => none

/-- `map_get`. -/
def mapGet (entries : List (Cbor × Cbor)) (key : String) : Option Cbor :=
  (entries.find? fun e => e.1.asText == some key).map Prod.snd

/-- `FLAG_AT`. -/
def flagAt : UInt8 := 0x40

/-- What `parse_auth_data` hands to the reader, if it gets there: the bytes behind the
credential id. -/
def authDataKey (data : Bytes) : Option Bytes :=
  if data.length < 37 then none
  else if data.getD 32 0 &&& flagAt = 0 then none
  else
    let p := data.drop 37
    if p.length < 18 then none
    else
      let credLen := fromBe ((p.drop 16).take 2)
      let p := p.drop 18
      if p.length < credLen then none else some (p.drop credLen)

/-- What `verify_registration` hands to the reader when the client data are accepted: the
attestation object, and the key in its authenticator data. -/
def registrationCalls (attestationObject : Bytes) : List Bytes :=
  attestationObject ::
    match readCbor attestationObject with
    | .ok (.map entries, _) =>
      if (mapGet entries "fmt").bind Cbor.asText = some "none" then
        match (mapGet entries "authData").bind Cbor.asBytes with
        | some authData => (authDataKey authData).toList
        | none => []
      else []
    | _ => []

/-- What is checked in front of the reader: of an ENROLL frame that the nonce is outstanding,
of an ASSERT frame that the credential is known, and of both the client data. -/
structure Gate where
  enrolls : FixedBytes 16 → Bytes → Prop
  asserts : Bytes → Bytes → Prop

variable {g : Gate} {limit : ℕ} {payload data b : Bytes}

/-- The bytes `b` get to the reader through the payload of a frame. -/
def Gate.Reaches (g : Gate) (payload b : Bytes) : Prop :=
  (∃ e, Enroll.decode payload = .ok e ∧ g.enrolls e.nonce e.clientDataJson ∧
    b ∈ registrationCalls e.attestationObject) ∨
  ∃ a, Assert.decode payload = .ok a ∧ g.asserts a.credentialId a.clientDataJson ∧
    authDataKey a.authenticatorData = some b

/-- A payload of `limit` bytes has room for `n` bytes that get to the reader. -/
def Gate.Carries (g : Gate) (limit n : ℕ) : Prop :=
  (∃ nonce clientDataJson, g.enrolls nonce clientDataJson ∧ clientDataJson.length ≤ 65535 ∧
    n ≤ 65535 ∧ 20 + clientDataJson.length + n ≤ limit) ∨
  ∃ credentialId clientDataJson, g.asserts credentialId clientDataJson ∧
    credentialId.length ≤ 65535 ∧ clientDataJson.length ≤ 65535 ∧ 55 + n ≤ 65535 ∧
      63 + credentialId.length + clientDataJson.length + n ≤ limit

/-- A key is behind the fixed part of authenticator data. -/
theorem length_authDataKey (h : authDataKey data = some b) : 55 + b.length ≤ data.length := by
  unfold authDataKey at h
  dsimp only at h
  split_ifs at h with hshort hflag hcred hid
  cases h
  simp only [List.length_drop] at *
  omega

/-- Only a map is read as one. -/
theorem eq_map_of_readAs {item : Item} {entries : List (Cbor × Cbor)}
    (h : readAs item = .map entries) : ∃ w items, item = .map w items ∧
      entries = readEntriesAs items := by
  cases item with
  | map w items => exact ⟨w, items, rfl, (Cbor.map.inj h).symm⟩
  | special w n =>
    rw [readAs] at h
    unfold simpleValue at h
    split at h <;> cases h
  | _ => cases h

/-- The bytes of an item are no longer than the item. -/
theorem length_of_readAs {item : Item} (h : (readAs item).asBytes = some data) :
    data.length ≤ item.encode.length := by
  cases item with
  | bytes w bs =>
    cases h
    rw [Item.encode, List.length_append]
    exact Nat.le_add_left ..
  | special w n =>
    rw [readAs] at h
    unfold simpleValue at h
    split at h <;> cases h
  | _ => cases h

/-- What a map has under a name is no longer than what it was read from. -/
theorem length_mapGet {entries : List (Cbor × Cbor)} {rest : Bytes} {key : String}
    (hread : readCbor b = .ok (.map entries, rest))
    (hget : (mapGet entries key).bind Cbor.asBytes = some data) : data.length ≤ b.length := by
  obtain ⟨item, -, -, rfl, hitem⟩ := readCbor_eq_ok_iff.1 hread
  obtain ⟨v, hv, hbytes⟩ := Option.bind_eq_some_iff.1 hget
  obtain ⟨entry, hfind, rfl⟩ := Option.map_eq_some_iff.1 hv
  obtain ⟨w, items, rfl, rfl⟩ := eq_map_of_readAs hitem
  rw [readEntriesAs_eq_map] at hfind
  obtain ⟨e, he, rfl⟩ := List.mem_map.1 (List.mem_of_find?_eq_some hfind)
  have hle := Item.length_entry_le he
  have hvalue := length_of_readAs hbytes
  rw [Item.encode, List.length_append, List.length_append]
  omega

/-- What a registration is parsed from is in its object. -/
theorem length_registrationCalls {attestationObject : Bytes}
    (h : b ∈ registrationCalls attestationObject) : b.length ≤ attestationObject.length := by
  rcases List.mem_cons.1 h with rfl | h
  · exact le_rfl
  · split at h
    · rename_i entries rest hread
      split at h
      · split at h
        · rename_i authData hget
          have hkey := length_authDataKey (Option.mem_toList.1 h)
          have hle := length_mapGet hread hget
          omega
        · cases h
      · cases h
    · cases h

/-- **What gets to the reader** had room in the frame. -/
theorem Gate.Reaches.carries (h : g.Reaches payload b) (hlen : payload.length ≤ limit) :
    g.Carries limit b.length := by
  rcases h with ⟨e, he, hg, hb⟩ | ⟨a, ha, hg, hb⟩
  · obtain ⟨⟨hc, ho⟩, rfl⟩ := (Enroll.inverts_read.complete_iff _).1 he
    have hle := length_registrationCalls hb
    simp only [Enroll.payload, List.length_append, length_toLe, e.nonce.2] at hlen
    exact .inl ⟨e.nonce, e.clientDataJson, hg, hc, by omega, by omega⟩
  · obtain ⟨⟨hi, hd, hc, -⟩, rfl⟩ := (Assert.inverts_read.complete_iff _).1 ha
    have hle := length_authDataKey hb
    simp only [Assert.payload, List.length_append, length_toLe] at hlen
    exact .inr ⟨a.credentialId, a.clientDataJson, hg, hi, hc, by omega, by omega⟩

/-- Authenticator data with any bytes for the key. -/
def authDataWith (key : Bytes) : Bytes :=
  List.replicate 32 0 ++ (flagAt :: (List.replicate 22 0 ++ key))

/-- The length of the data with a key. -/
theorem length_authDataWith (key : Bytes) : (authDataWith key).length = 55 + key.length := by
  simp only [authDataWith, List.length_append, List.length_cons, List.length_replicate]
  omega

/-- The key is what is behind an empty credential id. -/
theorem authDataKey_with (key : Bytes) : authDataKey (authDataWith key) = some key := by
  have hdrop : (authDataWith key).drop 37 = List.replicate 18 0 ++ key := rfl
  have hflag : (authDataWith key).getD 32 0 = flagAt := rfl
  have hlen := length_authDataWith key
  unfold authDataKey
  rw [if_neg (by omega), hflag, if_neg (by decide), hdrop, if_neg (by simp)]
  exact if_neg (Nat.not_lt_zero _)

/-- **Where there is room**, any bytes get to the reader. -/
theorem exists_reaches (h : g.Carries limit b.length) :
    ∃ payload : Bytes, payload.length ≤ limit ∧ g.Reaches payload b := by
  rcases h with ⟨nonce, c, hg, hc, hn, hroom⟩ | ⟨i, c, hg, hi, hc, hn, hroom⟩
  · set e : Enroll := { nonce, clientDataJson := c, attestationObject := b } with he
    refine ⟨e.payload, ?_, .inl ⟨e, ?_, hg, List.mem_cons_self⟩⟩
    · simp only [Enroll.payload, List.length_append, length_toLe, nonce.2, he]
      omega
    · exact (Enroll.inverts_read.complete_iff _).2 ⟨⟨hc, hn⟩, rfl⟩
  · have hlen := length_authDataWith b
    set a : Assert :=
      { credentialId := i
        authenticatorData := authDataWith b
        clientDataJson := c
        signature := [] } with ha
    refine ⟨a.payload, ?_, .inr ⟨a, ?_, hg, authDataKey_with b⟩⟩
    · simp only [Assert.payload, List.length_append, length_toLe, ha, hlen, List.length_nil]
      omega
    · have hd : a.authenticatorData.length ≤ 65535 := hlen.trans_le hn
      exact (Assert.inverts_read.complete_iff _).2 ⟨⟨hi, hd, hc, Nat.zero_le _⟩, rfl⟩

/-- **A bound on the calls** holds for what gets to the reader through payloads of `limit` bytes
if and only if it exceeds what such a payload can carry. -/
theorem cborDepth_bounded_iff (g : Gate) (limit bound : ℕ) :
    (∀ payload : Bytes, payload.length ≤ limit → ∀ b, g.Reaches payload b → cborDepth b ≤ bound) ↔
      ∀ n, g.Carries limit n → n < bound := by
  constructor
  · intro h n hn
    have hlen : (List.replicate n (0xc0 : UInt8)).length = n := List.length_replicate
    obtain ⟨payload, hpayload, hreach⟩ := exists_reaches (b := List.replicate n 0xc0) (hlen ▸ hn)
    have hle := h payload hpayload _ hreach
    rw [cborDepth_tags] at hle
    exact hle
  · intro h payload hpayload b hreach
    exact (cborDepth_le b).trans (h _ (hreach.carries hpayload))

/-- Client data for a challenge of zeros. -/
def zeroClientData : Bytes :=
  asBytes ("\x7b\"type\":\"webauthn.create\",\"challenge\":\"" ++
    "AAAAAAAAAAAAAAAAAAAAAAAAAAAAAAAAAAAAAAAAAAA" ++
    "\",\"origin\":\"https://quosh.jtcs.dev\"\x7d")

/-- A daemon with one nonce outstanding, that has sent a challenge of zeros. -/
def zeroGate : Gate where
  enrolls nonce clientDataJson :=
    nonce = constBytes 16 0 ∧ clientDataJson = zeroClientData
  asserts _ _ := False

/-- **No constant bounds the calls**, and an ENROLL frame of 65535 bytes, with the nonce and
client data for the challenge, has more than 65000 of them open. -/
theorem cborDepth_grows : (¬∃ bound, ∀ b, cborDepth b ≤ bound) ∧ ∃ payload b : Bytes,
    payload.length ≤ 65535 ∧ zeroGate.Reaches payload b ∧ 65000 < cborDepth b := by
  constructor
  · rintro ⟨bound, hbound⟩
    have hle := hbound (List.replicate bound 0xc0)
    rw [cborDepth_tags] at hle
    omega
  · obtain ⟨n, hn⟩ : ∃ n, n = 65000 := ⟨_, rfl⟩
    have hlen : zeroClientData.length ≤ 400 := by decide +kernel
    have hcarries : zeroGate.Carries 65535 (List.replicate n (0xc0 : UInt8)).length := by
      rw [List.length_replicate]
      exact .inl ⟨_, zeroClientData, ⟨rfl, rfl⟩, by omega, by omega, by omega⟩
    obtain ⟨payload, hpayload, hreach⟩ := exists_reaches hcarries
    refine ⟨payload, _, hpayload, hreach, ?_⟩
    rw [cborDepth_tags]
    omega

end Quosh
