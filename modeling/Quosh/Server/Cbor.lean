/-
# The CBOR reader of the daemon

`webauthn.rs` has a CBOR reader of its own for what a browser hands over at a
registration: the attestation object, and the COSE key inside the authenticator data.  It
runs before anything has been verified.  `readCbor` is that reader, with its errors, and
`coseP256` takes the point out of a COSE key.

An `Item` is the syntax of an encoding, with the width of every head.  `readCbor` accepts
exactly the items whose arguments fit and whose texts are UTF-8, and returns `readAs` of
the item (`readCbor_eq_ok_iff`).  What the item stands for is `value`.  The two part in one
place: `-1 - val as i64` wraps for an argument of 2 ^ 63 or more, so a large negative
integer is read as a small number.  And a simple value below 32 that is written in two
bytes is accepted, which no well-formed item has.  Where neither is in front of a string the
reader is exact (`readsExactly_iff`), and every encoding of a value that it supports is
read as that value (`readCbor_of_encodes`).
-/

import Quosh.Bytes.DataItem
import Mathlib.Tactic.IntervalCases

namespace Quosh

open Bytes

/-! ### Values -/

/-- `enum Cbor`. -/
inductive Cbor
  | uint (v : ℕ)
  | nint (v : ℤ)
  | bytes (b : Bytes)
  | text (s : String)
  | array (items : List Cbor)
  | map (entries : List (Cbor × Cbor))
  | bool (b : Bool)
  | null
  | other
  deriving Repr

namespace Cbor

/-- `Cbor::as_uint`. -/
def asUint : Cbor → Option ℕ
  | uint v => some v
  | _ => none

/-- `Cbor::as_i64`, with the `i64::try_from` of an unsigned integer. -/
def asI64 : Cbor → Option ℤ
  | uint v => if v < 2 ^ 63 then some v else none
  | nint v => some v
  | _ => none

/-- `Cbor::as_bytes`. -/
def asBytes : Cbor → Option Bytes
  | bytes b => some b
  | _ => none

end Cbor

/-- `map_get_int`. -/
def mapGetInt (entries : List (Cbor × Cbor)) (key : ℤ) : Option Cbor :=
  (entries.find? fun e => e.1.asI64 == some key).map Prod.snd

/-! ### The reader -/

/-- `n as i64` for an unsigned integer of 64 bits. -/
def asSigned (n : ℕ) : ℤ := if n < 2 ^ 63 then n else n - 2 ^ 64

/-- `split_first`. -/
def splitFirst (e : String) : Reader String UInt8 := fun
  | [] => .error e
  | b :: rest => .ok (b, rest)

/-- `read_len`. -/
def readLen (info : ℕ) : Reader String ℕ :=
  if info ≤ 23 then pure info
  else if info = 24 then readBe "cbor byte" 1
  else if info = 25 then readBe "cbor u16" 2
  else if info = 26 then readBe "cbor u32" 4
  else if info = 27 then readBe "cbor u64" 8
  else throw ("reserved CBOR additional info " ++ toString info)

/-- The head in front of an item: the major type, the five bits beside it and the argument. -/
def readHead : Reader String (ℕ × ℕ × ℕ) := do
  let first ← splitFirst "cbor empty"
  let info := (first &&& 0x1f).toNat
  let val ← readLen info
  return ((first >>> 5).toNat, info, val)

/-- The values of major type 7: what is not a boolean, null or undefined is not
interpreted. -/
def simpleValue (info : ℕ) : Cbor :=
  match info with
  | 20 => .bool false
  | 21 => .bool true
  | 22 | 23 => .null
  | _ => .other

/-- The part of `read_cbor` after the head, where `again` reads a nested item. -/
def readContent (again : Reader String Cbor) (major info val : ℕ) : Reader String Cbor :=
  match major with
  | 0 => return .uint val
  | 1 => return .nint (-1 - asSigned val)
  | 2 => do
    let b ← readExact "cbor bytes" val
    return .bytes b
  | 3 => do
    let s ← readUtf8 "cbor utf8" (readExact "cbor text" val)
    return .text s
  | 4 => do
    let items ← readMany again val
    return .array items
  | 5 => do
    let items ← readMany (do
      let k ← again
      let v ← again
      return (k, v)) val
    return .map items
  | 6 => do
    let _ ← again
    return .other
  | _ => return simpleValue info

/-- `read_cbor` with at most so many calls open at a time.  A nested call has a shorter
buffer, so with as many as the buffer has bytes the last of them finds it empty. -/
def readCborWithin : ℕ → Reader String Cbor
  | 0 => throw "cbor empty"
  | depth + 1 => do
    let first ← splitFirst "cbor empty"
    let major := (first >>> 5).toNat
    let info := (first &&& 0x1f).toNat
    let val ← readLen info
    readContent (readCborWithin depth) major info val

/-- `read_cbor`: a value and the bytes after it. -/
def readCbor (buf : Bytes) : Except String (Cbor × Bytes) := readCborWithin buf.length buf

/-! ### COSE keys -/

/-- `COSE_KTY_EC2`. -/
def coseKtyEc2 : ℕ := 2

/-- `COSE_ALG_ES256`. -/
def coseAlgEs256 : ℤ := -7

/-- `COSE_CRV_P256`. -/
def coseCrvP256 : ℤ := 1

/-- How an optional integer is shown in an error. -/
def debugOption {α : Type} [ToString α] : Option α → String
  | none => "None"
  | some a => "Some(" ++ toString a ++ ")"

/-- `cose_p256`: the uncompressed point of an `EC2`/`ES256`/`P-256` key. -/
def coseP256 (cbor : Cbor) : Except String Bytes :=
  match cbor with
  | .map entries => do
    let kty := (mapGetInt entries 1).bind Cbor.asUint
    if kty ≠ some coseKtyEc2 then
      throw ("COSE kty " ++ debugOption kty ++ " != EC2")
    let alg := (mapGetInt entries 3).bind Cbor.asI64
    if alg ≠ some coseAlgEs256 then
      throw ("COSE alg " ++ debugOption alg ++ " != ES256")
    let crv := (mapGetInt entries (-1)).bind Cbor.asI64
    if crv ≠ some coseCrvP256 then
      throw ("COSE crv " ++ debugOption crv ++ " != P-256")
    let x := (mapGetInt entries (-2)).bind Cbor.asBytes
    let y := (mapGetInt entries (-3)).bind Cbor.asBytes
    match x, y with
    | some x, some y =>
      if x.length = 32 ∧ y.length = 32 then
        return 0x04 :: (x ++ y)
      else throw "COSE x/y missing or not 32 bytes"
    | _, _ => throw "COSE x/y missing or not 32 bytes"
  | _ => throw "COSE key is not a map"

/-- `verify_p256_point`. -/
def verifyP256Point (point : Bytes) : Except String Unit :=
  if point.length ≠ 65 ∨ point.head? ≠ some 0x04 then
    throw "public key is not an uncompressed P-256 point"
  else return ()

/-- **A COSE key that is accepted has a point that is accepted.** -/
theorem verifyP256Point_coseP256 {cbor : Cbor} {point : Bytes} (h : coseP256 cbor = .ok point) :
    verifyP256Point point = .ok () := by
  unfold coseP256 at h
  split at h
  · simp only [bind, Except.bind, pure, Except.pure, throw, throwThe, MonadExceptOf.throw] at h
    split_ifs at h
    split at h
    · split_ifs at h with hlen
      cases h
      simp [verifyP256Point, hlen.1, hlen.2, pure, Except.pure]
    · cases h
  · cases h

/-! ### Heads -/

section Heads

variable {i n info depth : ℕ} {w : Width} {bs rest content : Bytes} {v : Cbor}

/-- An argument is read in the width that the five bits say. -/
theorem reads_readLen (hfits : w.Fits n) : Reads (readLen (w.info n)) (toBe w.size n) n := by
  cases w with
  | short =>
    have hle : n ≤ 23 := Nat.le_of_lt_succ hfits
    rw [Width.info, readLen, if_pos hle]
    exact reads_pure n
  | one => exact (inverts_readBe _ 1).reads n hfits
  | two => exact (inverts_readBe _ 2).reads n hfits
  | four => exact (inverts_readBe _ 4).reads n hfits
  | eight => exact (inverts_readBe _ 8).reads n hfits

/-- **An argument that is read** was written in some width. -/
theorem readLen_eq_ok (h : readLen info bs = .ok (n, rest)) :
    ∃ w : Width, w.Fits n ∧ w.info n = info ∧ bs = toBe w.size n ++ rest := by
  unfold readLen at h
  split_ifs at h with hshort h24 h25 h26 h27
  · cases h
    exact ⟨.short, Nat.lt_succ_of_le hshort, rfl, rfl⟩
  · obtain ⟨hfits, hbs⟩ := (inverts_readBe _ 1).sound bs n rest h
    exact ⟨.one, hfits, h24.symm, hbs⟩
  · obtain ⟨hfits, hbs⟩ := (inverts_readBe _ 2).sound bs n rest h
    exact ⟨.two, hfits, h25.symm, hbs⟩
  · obtain ⟨hfits, hbs⟩ := (inverts_readBe _ 4).sound bs n rest h
    exact ⟨.four, hfits, h26.symm, hbs⟩
  · obtain ⟨hfits, hbs⟩ := (inverts_readBe _ 8).sound bs n rest h
    exact ⟨.eight, hfits, h27.symm, hbs⟩
  · cases h

/-- The major type of a first byte. -/
theorem toNat_shiftRight_five (b : UInt8) : (b >>> 5).toNat = b.toNat / 32 := by
  rw [UInt8.toNat_shiftRight]
  exact Nat.shiftRight_eq_div_pow b.toNat 5

/-- The low bits of a first byte. -/
theorem toNat_and_low (b : UInt8) : (b &&& 0x1f).toNat = b.toNat % 32 := by
  rw [UInt8.toNat_and]
  exact Nat.and_two_pow_sub_one_eq_mod b.toNat 5

/-- The initial byte holds the major type and the five bits. -/
theorem toNat_initial (hi : i < 8) (hinfo : info < 28) :
    (UInt8.ofNat (32 * i + info)).toNat = 32 * i + info :=
  UInt8.toNat_ofNat_of_lt' (by show _ < 256; omega)

/-- A head is read back, the five bits of its width with it. -/
theorem reads_readHead (hi : i < 8) (hfits : w.Fits n) :
    Reads readHead (head i w n) (i, w.info n, n) := by
  intro rest
  have hbyte := toNat_initial hi hfits.info_lt
  have hinfo := hfits.info_lt
  have hmajor : ((UInt8.ofNat (32 * i + w.info n)) >>> 5).toNat = i := by
    rw [toNat_shiftRight_five, hbyte]
    omega
  have hlow : ((UInt8.ofNat (32 * i + w.info n)) &&& 0x1f).toNat = w.info n := by
    rw [toNat_and_low, hbyte]
    omega
  rw [head, List.cons_append]
  refine bind_eq_ok.2 ⟨_, _, rfl, ?_⟩
  rw [hmajor, hlow]
  exact bind_eq_ok.2 ⟨n, rest, reads_readLen hfits _, rfl⟩

/-- Nothing else is read as a head. -/
theorem readHead_eq_ok (h : readHead bs = .ok ((i, info, n), rest)) :
    ∃ w : Width, i < 8 ∧ w.Fits n ∧ w.info n = info ∧ bs = head i w n ++ rest := by
  obtain ⟨b, mid, hb, hread⟩ := bind_eq_ok.1 h
  obtain ⟨n', mid', hn, hpure⟩ := bind_eq_ok.1 hread
  cases hpure
  cases bs with
  | nil => cases hb
  | cons b' bs =>
    cases hb
    rw [toNat_and_low] at hn ⊢
    rw [toNat_shiftRight_five]
    obtain ⟨w, hfits, hinfo, rfl⟩ := readLen_eq_ok hn
    have hlt := b.toNat_lt
    refine ⟨w, by omega, hfits, hinfo, ?_⟩
    have hbyte : 32 * (b.toNat / 32) + w.info n = b.toNat := by omega
    rw [head, hbyte, UInt8.ofNat_toNat, List.cons_append]

/-- A call reads a head and what comes after it. -/
theorem readCborWithin_succ (depth : ℕ) : readCborWithin (depth + 1) =
    readHead >>= fun h => readContent (readCborWithin depth) h.1 h.2.1 h.2.2 := by
  simp only [readCborWithin, readHead, bind_assoc, pure_bind]

/-- A head in front of its content. -/
theorem reads_head (hi : i < 8) (hfits : w.Fits n)
    (h : Reads (readContent (readCborWithin depth) i (w.info n) n) content v) :
    Reads (readCborWithin (depth + 1)) (head i w n ++ content) v := by
  rw [readCborWithin_succ]
  exact (reads_readHead hi hfits).bind h

/-- What is accepted starts with a head, and its content is read behind it. -/
theorem readCborWithin_eq_ok (h : readCborWithin (depth + 1) bs = .ok (v, rest)) :
    ∃ i w n mid, i < 8 ∧ w.Fits n ∧ bs = head i w n ++ mid ∧
      readContent (readCborWithin depth) i (w.info n) n mid = .ok (v, rest) := by
  rw [readCborWithin_succ] at h
  obtain ⟨⟨i, info, n⟩, mid, hhead, hcontent⟩ := bind_eq_ok.1 h
  obtain ⟨w, hi, hfits, rfl, rfl⟩ := readHead_eq_ok hhead
  exact ⟨i, w, n, mid, hi, hfits, rfl, hcontent⟩

end Heads

/-! ### What is read, and what is meant -/

mutual

/-- What the reader makes of an item. -/
def readAs : Item → Cbor
  | .uint _ n => .uint n
  | .nint _ n => .nint (-1 - asSigned n)
  | .bytes _ bs => .bytes bs
  | .text _ bs => .text (fromUtf8Lossy bs)
  | .array _ items => .array (readAllAs items)
  | .map _ entries => .map (readEntriesAs entries)
  | .tag _ _ _ => .other
  | .special w n => simpleValue (w.info n)

/-- What the reader makes of items one after the other. -/
def readAllAs : List Item → List Cbor
  | [] => []
  | i :: is => readAs i :: readAllAs is

/-- What the reader makes of entries one after the other. -/
def readEntriesAs : List (Item × Item) → List (Cbor × Cbor)
  | [] => []
  | (k, v) :: es => (readAs k, readAs v) :: readEntriesAs es

end

mutual

/-- **The value of an item**, if `Cbor` has it: an integer exactly, a text if its bytes are
UTF-8; tags, floats and the simple values without a meaning are `other`, and undefined is
null. -/
def value : Item → Option Cbor
  | .uint _ n => some (.uint n)
  | .nint _ n => if n < 2 ^ 63 then some (.nint (-1 - n)) else none
  | .bytes _ bs => some (.bytes bs)
  | .text _ bs => (fromUtf8 bs).map .text
  | .array _ items => (valueAll items).map .array
  | .map _ entries => (valueEntries entries).map .map
  | .tag _ _ _ => some .other
  | .special .short 20 => some (.bool false)
  | .special .short 21 => some (.bool true)
  | .special .short 22 => some .null
  | .special .short 23 => some .null
  | .special _ _ => some .other

/-- The values of items, if `Cbor` has all of them. -/
def valueAll : List Item → Option (List Cbor)
  | [] => some []
  | i :: is =>
    match value i, valueAll is with
    | some v, some vs => some (v :: vs)
    | _, _ => none

/-- The values of entries, if `Cbor` has all of them. -/
def valueEntries : List (Item × Item) → Option (List (Cbor × Cbor))
  | [] => some []
  | (k, v) :: es =>
    match value k, value v, valueEntries es with
    | some k, some v, some es => some ((k, v) :: es)
    | _, _, _ => none

end

/-! ### What is accepted -/

/-- A text is UTF-8. -/
def TextOk : Item → Prop
  | .text _ bs => ∃ s, Bytes.asBytes s = bs
  | _ => True

/-- The items of an array are read one by one. -/
theorem readAllAs_eq_map (items : List Item) : readAllAs items = items.map readAs := by
  induction items with
  | nil => rfl
  | cons i is ih => rw [readAllAs, ih, List.map_cons]

/-- So are the entries of a map. -/
theorem readEntriesAs_eq_map (entries : List (Item × Item)) :
    readEntriesAs entries = entries.map fun e => (readAs e.1, readAs e.2) := by
  induction entries with
  | nil => rfl
  | cons e es ih =>
    obtain ⟨k, v⟩ := e
    rw [readEntriesAs, ih, List.map_cons]

/-- The items that are read with at most `depth` calls open. -/
structure Readable (depth : ℕ) (item : Item) : Prop where
  laid : item.Laid
  texts : item.Every true TextOk
  depth_le : item.depth ≤ depth

section Succ

variable {depth : ℕ} (ih : ReadsAs (readCborWithin depth) Item.encode readAs (Readable depth))

include ih

/-- One more call reads the items whose content is readable, by the major type: a head
alone, bytes that are counted, or items that the calls below read (`Reads.many`). -/
theorem reads_succ {item : Item} (h : Readable (depth + 1) item) :
    Reads (readCborWithin (depth + 1)) item.encode (readAs item) := by
  obtain ⟨hlaid, htexts, hdepth⟩ := h
  have hfits : item.width.Fits item.argument := hlaid.self
  cases item with
  | uint w n =>
    have hhead : Reads (readCborWithin (depth + 1)) (head 0 w n ++ []) _ :=
      reads_head (by omega) hfits (reads_pure _)
    rwa [List.append_nil] at hhead
  | nint w n =>
    have hhead : Reads (readCborWithin (depth + 1)) (head 1 w n ++ []) _ :=
      reads_head (by omega) hfits (reads_pure _)
    rwa [List.append_nil] at hhead
  | bytes w bs => exact reads_head (by omega) hfits (reads_readExact _ rfl).bind_pure
  | text w bs =>
    obtain ⟨s, rfl⟩ := Item.every_text.1 htexts
    have hexact := inverts_readExact "cbor text" (Bytes.asBytes s).length
    have hs := (hexact.utf8 "cbor utf8").reads s rfl
    rw [readAs, fromUtf8Lossy_asBytes]
    exact reads_head (by omega) hfits hs.bind_pure
  | array w items =>
    have hall : ∀ i ∈ items, Readable depth i := fun i hi =>
      ⟨(Item.every_array.1 hlaid).2 i hi, (Item.every_array.1 htexts).2 i hi,
        Item.allDepth_le_iff.1 (Nat.le_of_succ_le_succ hdepth) i hi⟩
    rw [Item.encode, readAs, Item.encodeAll_eq_flatMap, readAllAs_eq_map]
    exact reads_head (by omega) hfits ((ih.many _).reads items ⟨rfl, hall⟩).bind_pure
  | map w entries =>
    have hall : ∀ e ∈ entries, Readable depth e.1 ∧ Readable depth e.2 := fun e he =>
      have hlaid := (Item.every_map.1 hlaid).2 e he
      have htexts := (Item.every_map.1 htexts).2 e he
      have hdepth := Item.entryDepth_le_iff.1 (Nat.le_of_succ_le_succ hdepth) e he
      ⟨⟨hlaid.1, htexts.1, hdepth.1⟩, ⟨hlaid.2, htexts.2, hdepth.2⟩⟩
    rw [Item.encode, readAs, Item.encodeEntries_eq_flatMap, readEntriesAs_eq_map]
    exact reads_head (by omega) hfits ((ih.pair.many _).reads entries ⟨rfl, hall⟩).bind_pure
  | tag w n item =>
    have hinner : Readable depth item :=
      ⟨(Item.every_tag.1 hlaid).2 rfl, (Item.every_tag.1 htexts).2 rfl,
        Nat.le_of_succ_le_succ hdepth⟩
    exact reads_head (by omega) hfits (ih.reads item hinner).bind_pure
  | special w n =>
    have hhead : Reads (readCborWithin (depth + 1)) (head 7 w n ++ []) _ :=
      reads_head (by omega) hfits (reads_pure _)
    rwa [List.append_nil] at hhead

/-- Only these are accepted.  By the major type of the head that was read, the item is put
together again from its content, and its depth is one more than that of the content. -/
theorem sound_succ {bs rest : Bytes} {v : Cbor}
    (h : readCborWithin (depth + 1) bs = .ok (v, rest)) :
    ∃ item, Readable (depth + 1) item ∧ bs = item.encode ++ rest ∧ readAs item = v := by
  obtain ⟨i, w, n, mid, hi, hfits, rfl, hcontent⟩ := readCborWithin_eq_ok h
  have hle : 1 ≤ depth + 1 := Nat.le_add_left ..
  match i, hi, hcontent with
  | 0, _, hcontent =>
    cases hcontent
    exact ⟨.uint w n, ⟨Item.every_uint.2 hfits, Item.every_uint.2 trivial, hle⟩, rfl, rfl⟩
  | 1, _, hcontent =>
    cases hcontent
    exact ⟨.nint w n, ⟨Item.every_nint.2 hfits, Item.every_nint.2 trivial, hle⟩, rfl, rfl⟩
  | 2, _, hcontent =>
    obtain ⟨bs, mid', hbs, hv⟩ := bind_eq_ok.1 hcontent
    cases hv
    obtain ⟨rfl, rfl⟩ := (inverts_readExact _ n).sound mid bs rest hbs
    refine ⟨.bytes w bs, ⟨Item.every_bytes.2 hfits, Item.every_bytes.2 trivial, hle⟩, ?_, rfl⟩
    rw [Item.encode, List.append_assoc]
  | 3, _, hcontent =>
    obtain ⟨s, mid', hs, hv⟩ := bind_eq_ok.1 hcontent
    cases hv
    obtain ⟨rfl, rfl⟩ := ((inverts_readExact _ n).utf8 _).sound mid s rest hs
    refine ⟨.text w (Bytes.asBytes s),
      ⟨Item.every_text.2 hfits, Item.every_text.2 ⟨s, rfl⟩, hle⟩, ?_, ?_⟩
    · rw [Item.encode, List.append_assoc]
    · rw [readAs, fromUtf8Lossy_asBytes]
  | 4, _, hcontent =>
    obtain ⟨vs, mid', hvs, hv⟩ := bind_eq_ok.1 hcontent
    cases hv
    obtain ⟨items, ⟨rfl, hall⟩, rfl, rfl⟩ := (ih.many n).sound mid vs rest hvs
    refine ⟨.array w items, ⟨Item.every_array.2 ⟨hfits, fun i hi => (hall i hi).laid⟩,
      Item.every_array.2 ⟨trivial, fun i hi => (hall i hi).texts⟩,
      Nat.succ_le_succ (Item.allDepth_le_iff.2 fun i hi => (hall i hi).depth_le)⟩, ?_, ?_⟩
    · rw [Item.encode, Item.encodeAll_eq_flatMap, List.append_assoc]
    · rw [readAs, readAllAs_eq_map]
  | 5, _, hcontent =>
    obtain ⟨vs, mid', hvs, hv⟩ := bind_eq_ok.1 hcontent
    cases hv
    obtain ⟨entries, ⟨rfl, hall⟩, rfl, rfl⟩ := (ih.pair.many n).sound mid vs rest hvs
    refine ⟨.map w entries,
      ⟨Item.every_map.2 ⟨hfits, fun e he => ⟨(hall e he).1.laid, (hall e he).2.laid⟩⟩,
        Item.every_map.2 ⟨trivial, fun e he => ⟨(hall e he).1.texts, (hall e he).2.texts⟩⟩,
        Nat.succ_le_succ (Item.entryDepth_le_iff.2 fun e he =>
          ⟨(hall e he).1.depth_le, (hall e he).2.depth_le⟩)⟩, ?_, ?_⟩
    · rw [Item.encode, Item.encodeEntries_eq_flatMap, List.append_assoc]
    · rw [readAs, readEntriesAs_eq_map]
  | 6, _, hcontent =>
    obtain ⟨_, mid', hinner, hv⟩ := bind_eq_ok.1 hcontent
    cases hv
    obtain ⟨item, hitem, rfl, -⟩ := ih.sound mid _ rest hinner
    refine ⟨.tag w n item, ⟨Item.every_tag.2 ⟨hfits, fun _ => hitem.laid⟩,
      Item.every_tag.2 ⟨trivial, fun _ => hitem.texts⟩, Nat.succ_le_succ hitem.depth_le⟩, ?_, rfl⟩
    rw [Item.encode, List.append_assoc]
  | 7, _, hcontent =>
    cases hcontent
    exact ⟨.special w n, ⟨Item.every_special.2 hfits, Item.every_special.2 trivial, hle⟩, rfl, rfl⟩

end Succ

/-- **What is read within a depth**: the items of that depth with arguments that fit and texts in
UTF-8. -/
theorem readsAs_readCborWithin (depth : ℕ) :
    ReadsAs (readCborWithin depth) Item.encode readAs (Readable depth) := by
  induction depth with
  | zero =>
    constructor
    · intro item h
      have := item.depth_pos
      have := h.depth_le
      omega
    · intro bs v rest h
      cases h
  | succ depth ih => exact ⟨fun item h => reads_succ ih h, fun bs v rest h => sound_succ ih h⟩

/-- **What is accepted**: a laid item whose texts are UTF-8, with anything behind it, and it
is read as `readAs` says. -/
theorem readCbor_eq_ok_iff {b rest : Bytes} {v : Cbor} : readCbor b = .ok (v, rest) ↔
    ∃ item : Item, item.Laid ∧ item.Every true TextOk ∧ b = item.encode ++ rest ∧
      readAs item = v := by
  constructor
  · intro h
    obtain ⟨item, hitem, hb, hv⟩ := (readsAs_readCborWithin b.length).sound b v rest h
    exact ⟨item, hitem.laid, hitem.texts, hb, hv⟩
  · rintro ⟨item, hlaid, htexts, rfl, rfl⟩
    refine (readsAs_readCborWithin _).reads item ⟨hlaid, htexts, ?_⟩ rest
    rw [List.length_append]
    exact item.depth_le_length.trans (Nat.le_add_right ..)

/-! ### Where reading is exact -/

/-- `-1 - n` is an integer of 64 bits. -/
def SmallNint : Item → Prop
  | .nint _ n => n < 2 ^ 63
  | _ => True

/-- Outside of tags no integer is too small for 64 bits. -/
def Representable (item : Item) : Prop := item.Every false SmallNint

/-- Only in one byte does a simple value have a meaning. -/
theorem value_special {w : Width} {n : ℕ} (hfits : w.Fits n) :
    value (.special w n) = some (simpleValue (w.info n)) := by
  cases w with
  | short =>
    have hn : n < 24 := hfits
    interval_cases n <;> rfl
  | _ => rfl

/-- Reading is exact on the item if and only if its value can be represented. -/
def Exact (item : Item) : Prop :=
  ∀ v, value item = some v ↔ Representable item ∧ readAs item = v

/-- The value of a list, if the first item and the others have one. -/
theorem valueAll_cons {i : Item} {is : List Item} {vs : List Cbor} :
    valueAll (i :: is) = some vs ↔
      ∃ v, value i = some v ∧ ∃ vs', valueAll is = some vs' ∧ v :: vs' = vs := by
  rw [valueAll]
  cases value i <;> cases valueAll is <;> simp

/-- The value of the entries, if the first one and the others have one. -/
theorem valueEntries_cons {e : Item × Item} {es : List (Item × Item)} {vs : List (Cbor × Cbor)} :
    valueEntries (e :: es) = some vs ↔
      ∃ k, value e.1 = some k ∧ ∃ v, value e.2 = some v ∧
        ∃ vs', valueEntries es = some vs' ∧ (k, v) :: vs' = vs := by
  rw [valueEntries]
  cases value e.1 <;> cases value e.2 <;> cases valueEntries es <;> simp

/-- An array of items that are read exactly. -/
theorem Exact.all {items : List Item} (h : ∀ i ∈ items, Exact i) {vs : List Cbor} :
    valueAll items = some vs ↔ (∀ i ∈ items, Representable i) ∧ readAllAs items = vs := by
  induction items generalizing vs with
  | nil => simp [valueAll, readAllAs]
  | cons i is ih =>
    obtain ⟨hi, his⟩ := List.forall_mem_cons.1 h
    rw [valueAll_cons]
    constructor
    · rintro ⟨v, hv, vs', hvs, rfl⟩
      obtain ⟨hrep, rfl⟩ := (hi v).1 hv
      obtain ⟨hall, rfl⟩ := (ih his).1 hvs
      exact ⟨List.forall_mem_cons.2 ⟨hrep, hall⟩, rfl⟩
    · rintro ⟨hall, rfl⟩
      obtain ⟨hrep, hall⟩ := List.forall_mem_cons.1 hall
      exact ⟨_, (hi _).2 ⟨hrep, rfl⟩, _, (ih his).2 ⟨hall, rfl⟩, rfl⟩

/-- A map of items that are read exactly. -/
theorem Exact.entries {es : List (Item × Item)} (h : ∀ e ∈ es, Exact e.1 ∧ Exact e.2)
    {vs : List (Cbor × Cbor)} : valueEntries es = some vs ↔
      (∀ e ∈ es, Representable e.1 ∧ Representable e.2) ∧ readEntriesAs es = vs := by
  induction es generalizing vs with
  | nil => simp [valueEntries, readEntriesAs]
  | cons e es ih =>
    obtain ⟨⟨hk, hv⟩, hes⟩ := List.forall_mem_cons.1 h
    rw [valueEntries_cons]
    constructor
    · rintro ⟨k, hk', v, hv', vs', hvs, rfl⟩
      obtain ⟨hrepk, rfl⟩ := (hk k).1 hk'
      obtain ⟨hrepv, rfl⟩ := (hv v).1 hv'
      obtain ⟨hall, rfl⟩ := (ih hes).1 hvs
      exact ⟨List.forall_mem_cons.2 ⟨⟨hrepk, hrepv⟩, hall⟩, rfl⟩
    · rintro ⟨hall, rfl⟩
      obtain ⟨⟨hrepk, hrepv⟩, hall⟩ := List.forall_mem_cons.1 hall
      exact ⟨_, (hk _).2 ⟨hrepk, rfl⟩, _, (hv _).2 ⟨hrepv, rfl⟩, _, (ih hes).2 ⟨hall, rfl⟩, rfl⟩

/-- **Reading is exact** on an item with texts in UTF-8 if and only if its value can be
represented. -/
theorem exact_of_texts {item : Item} (hlaid : item.Laid) (htexts : item.Every true TextOk) :
    Exact item := by
  induction item using Item.induct with
  | uint w n => simp [Exact, value, Representable, SmallNint, readAs]
  | nint w n =>
    intro v
    by_cases hn : n < 2 ^ 63
    · rw [value, if_pos hn, readAs, asSigned, if_pos hn, Option.some_inj]
      exact ⟨fun h => ⟨Item.every_nint.2 hn, h⟩, fun h => h.2⟩
    · rw [value, if_neg hn]
      constructor
      · intro h
        cases h
      · intro h
        exact absurd (Item.every_nint.1 h.1) hn
  | bytes w bs => simp [Exact, value, Representable, SmallNint, readAs]
  | text w bs =>
    obtain ⟨s, rfl⟩ := Item.every_text.1 htexts
    have hs : fromUtf8 (Bytes.asBytes s) = some s := fromUtf8_eq_some.2 rfl
    simp [Exact, value, Representable, SmallNint, readAs, hs]
  | tag w n item ih => simp [Exact, value, Representable, SmallNint, readAs]
  | special w n =>
    have hv := value_special (w := w) (n := n) hlaid.self
    simp [Exact, hv, Representable, SmallNint, readAs]
  | array w items ih =>
    have hall : ∀ i ∈ items, Exact i := fun i hi =>
      ih i hi ((Item.every_array.1 hlaid).2 i hi) ((Item.every_array.1 htexts).2 i hi)
    intro v
    simp only [value, Option.map_eq_some_iff, Exact.all hall, readAs, Representable,
      Item.every_array, SmallNint, true_and]
    constructor
    · rintro ⟨vs, ⟨h, rfl⟩, hv⟩
      exact ⟨h, hv⟩
    · rintro ⟨h, hv⟩
      exact ⟨_, ⟨h, rfl⟩, hv⟩
  | map w entries ih =>
    have hall : ∀ e ∈ entries, Exact e.1 ∧ Exact e.2 := fun e he =>
      have hlaid := (Item.every_map.1 hlaid).2 e he
      have htexts := (Item.every_map.1 htexts).2 e he
      ⟨(ih e he).1 hlaid.1 htexts.1, (ih e he).2 hlaid.2 htexts.2⟩
    intro v
    simp only [value, Option.map_eq_some_iff, Exact.entries hall, readAs, Representable,
      Item.every_map, SmallNint, true_and]
    constructor
    · rintro ⟨vs, ⟨h, rfl⟩, hv⟩
      exact ⟨h, hv⟩
    · rintro ⟨h, hv⟩
      exact ⟨_, ⟨h, rfl⟩, hv⟩

/-- **Reading `b` is exact**: what is returned is the value of a well-formed item in front,
with the bytes behind it, and an item whose value cannot be represented is rejected. -/
structure ReadsExactly (b : Bytes) : Prop where
  read : ∀ v rest, readCbor b = .ok (v, rest) → ∃ item : Item, item.WellFormed ∧
    item.encode ≠ [] ∧ b = item.encode ++ rest ∧ value item = some v
  rejected : ∀ (item : Item) rest, item.WellFormed → b = item.encode ++ rest → value item = none →
    ∃ e, readCbor b = .error e

/-- **The reader is exact on `b`** if and only if no item in front of it, with arguments
that fit and texts in UTF-8, has a simple value below 32 in two bytes, or outside of tags a
negative integer with an argument of `2 ^ 63` or more. -/
theorem readsExactly_iff (b : Bytes) : ReadsExactly b ↔
    ∀ (item : Item) rest, b = item.encode ++ rest → item.Laid → item.Every true TextOk →
      item.Every true Item.PlainSimple ∧ item.Every false SmallNint := by
  constructor
  · rintro h item rest rfl hlaid htexts
    have hok : readCbor (item.encode ++ rest) = .ok (readAs item, rest) :=
      readCbor_eq_ok_iff.2 ⟨item, hlaid, htexts, rfl, rfl⟩
    obtain ⟨item', hwell, -, hb, hv⟩ := h.read _ _ hok
    obtain ⟨rfl, -⟩ := hlaid.encode_append_inj hwell.1 hb
    exact ⟨hwell.2, ((exact_of_texts hlaid htexts _).1 hv).1⟩
  · intro h
    constructor
    · intro v rest hok
      obtain ⟨item, hlaid, htexts, hb, hv⟩ := readCbor_eq_ok_iff.1 hok
      obtain ⟨hplain, hsmall⟩ := h item rest hb hlaid htexts
      exact ⟨item, ⟨hlaid, hplain⟩, item.encode_ne_nil, hb,
        (exact_of_texts hlaid htexts _).2 ⟨hsmall, hv⟩⟩
    · intro item rest hwell hb hnone
      cases hread : readCbor b with
      | error e => exact ⟨e, rfl⟩
      | ok p =>
        obtain ⟨item', hlaid, htexts, hb', hv⟩ := readCbor_eq_ok_iff.1 hread
        obtain ⟨rfl, -⟩ := hwell.1.encode_append_inj hlaid (hb.symm.trans hb')
        obtain ⟨-, hsmall⟩ := h item rest hb hlaid htexts
        have := (exact_of_texts hlaid htexts _).2 ⟨hsmall, hv⟩
        rw [hnone] at this
        cases this

/-- A negative integer far below those of 64 bits is read as the number 3, which is the COSE
label of an algorithm. -/
theorem readsExactly_wrapped :
    ¬ ReadsExactly [0x3b, 0xff, 0xff, 0xff, 0xff, 0xff, 0xff, 0xff, 0xfc] := by
  intro h
  obtain ⟨e, he⟩ := h.rejected (.nint .eight (2 ^ 64 - 4)) [] (by
    refine ⟨Item.every_nint.2 ?_, Item.every_nint.2 trivial⟩
    show 2 ^ 64 - 4 < 256 ^ 8
    decide) (by decide) (by decide)
  cases he

/-! ### Supported encodings -/

/-- An item of the kinds that the reader interprets: no tag, and of the values of major
type 7 the booleans and null, in one byte. -/
def Interpreted : Item → Prop
  | .tag .. => False
  | .special w n => w = .short ∧ (n = 20 ∨ n = 21 ∨ n = 22)
  | _ => True

/-- `e` is an encoding of `v`, in whatever widths, out of the kinds of item that the reader
interprets. -/
def Encodes (v : Cbor) (e : Bytes) : Prop :=
  ∃ item : Item, item.WellFormed ∧ item.Every true TextOk ∧ item.Every true Interpreted ∧
    value item = some v ∧ item.encode = e

/-- **Every supported encoding is accepted**, in any widths and with anything behind it, and
read as the value that it encodes. -/
theorem readCbor_of_encodes {v : Cbor} {e : Bytes} (h : Encodes v e) (x : Bytes) :
    readCbor (e ++ x) = .ok (v, x) := by
  obtain ⟨item, hwell, htexts, -, hv, rfl⟩ := h
  obtain ⟨-, hread⟩ := (exact_of_texts hwell.1 htexts v).1 hv
  exact readCbor_eq_ok_iff.2 ⟨item, hwell.1, htexts, rfl, hread⟩

/-- A map from a text in a long head to an array, with an integer in four bytes and null. -/
def nestedItem : Item :=
  .map .two [(.text .one [0x61], .array .short [.nint .four 6, .special .short 22])]

/-- The hypothesis of `readCbor_of_encodes` is satisfiable: a nested value in heads that are longer
than they need to be, and bytes behind it. -/
theorem readCbor_of_encodes_nested :
    readCbor ([0xb9, 0, 1, 0x78, 1, 0x61, 0x82, 0x3a, 0, 0, 0, 6, 0xf6] ++ [7, 7]) =
      .ok (.map [(.text "a", .array [.nint (-7), .null])], [7, 7]) := by
  have ha : fromUtf8 [0x61] = some "a" := fromUtf8_eq_some.2 (by decide +kernel)
  refine readCbor_of_encodes ⟨nestedItem, ⟨?_, ?_⟩, ?_, ?_, ?_, ?_⟩ _
  · simp [nestedItem, Item.Laid, Item.width, Item.argument, Width.Fits, Width.size]
  · simp [nestedItem, Item.PlainSimple]
  · simp [nestedItem, TextOk, ← fromUtf8_eq_some, ha]
  · simp [nestedItem, Interpreted]
  · simp [nestedItem, value, valueAll, valueEntries, ha]
  · decide

end Quosh
