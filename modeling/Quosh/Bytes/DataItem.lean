/-
# Data items behind a major type and an argument

A binary format for nested data in which every item starts with a head: three bits of
major type and five bits that hold a small argument or say in how many bytes after them
the argument is, most significant byte first.  An argument has an encoding in every width
that holds it, so an `Item` is the syntax tree of an encoding and not the value it stands
for: it keeps the width of each head.

`encode` writes the bytes of an item.  `Every` says of an item that all the items it is
made of have a property, those under a tag included or not; an item is `Laid` when every
argument fits its width, and `WellFormed` when moreover no simple value that has a short
form is written in two bytes.  Whatever follows, the bytes of a laid item can be read in
one way only (`Laid.encode_append_inj`).
-/

import Quosh.Bytes.Layout

namespace Quosh
namespace Bytes

/-! ### Big-endian integers -/

/-- The `w` big-endian bytes of `n`, the higher ones dropped. -/
def toBe (w n : ℕ) : Bytes := (toLe w n).reverse

/-- The integer a big-endian byte string stands for. -/
def fromBe (bs : Bytes) : ℕ := fromLe bs.reverse

/-- `w` bytes are written. -/
@[simp] theorem length_toBe (w n : ℕ) : (toBe w n).length = w := by
  simp [toBe]

/-- A number that fits its bytes is read back. -/
theorem fromBe_toBe {w n : ℕ} (h : n < 256 ^ w) : fromBe (toBe w n) = n := by
  rw [fromBe, toBe, List.reverse_reverse, fromLe_toLe h]

/-- What is read from some bytes fits them. -/
theorem fromBe_lt (bs : Bytes) : fromBe bs < 256 ^ bs.length := by
  have := fromLe_lt bs.reverse
  rwa [List.length_reverse] at this

/-- What is read is written the same again. -/
theorem toBe_fromBe (bs : Bytes) : toBe bs.length (fromBe bs) = bs := by
  have := toLe_fromLe bs.reverse
  rw [List.length_reverse] at this
  rw [toBe, fromBe, this, List.reverse_reverse]

/-- Two numbers that fit are told apart. -/
theorem toBe_inj {w m n : ℕ} (hm : m < 256 ^ w) (hn : n < 256 ^ w) (h : toBe w m = toBe w n) :
    m = n := by
  rw [← fromBe_toBe hm, h, fromBe_toBe hn]

/-- Take a big-endian integer of `w` bytes. -/
def readBe {ε : Type} (e : ε) (w : ℕ) : Reader ε ℕ := do
  return fromBe (← readExact e w)

/-- Reading takes the bytes of a number off the front. -/
theorem inverts_readBe {ε : Type} (e : ε) (w : ℕ) :
    Inverts (readBe e w) (toBe w) fun n => n < 256 ^ w where
  reads n h := by
    have hb := (reads_readExact e (length_toBe w n)).bind_pure (f := fromBe)
    rwa [fromBe_toBe h] at hb
  sound bs n rest h := by
    obtain ⟨a, mid, ha, hn⟩ := bind_eq_ok.1 h
    obtain ⟨hlen, rfl⟩ := (inverts_readExact e w).sound bs a mid ha
    cases hn
    refine ⟨hlen ▸ fromBe_lt a, ?_⟩
    rw [← hlen, toBe_fromBe]

/-! ### Heads -/

/-- Where the argument of a head is: in the initial byte, or in the bytes after it. -/
inductive Width
  | short | one | two | four | eight
  deriving Repr, DecidableEq

namespace Width

/-- How many bytes after the initial byte hold the argument. -/
def size : Width → ℕ
  | short => 0
  | one => 1
  | two => 2
  | four => 4
  | eight => 8

/-- The low five bits of the initial byte. -/
def info : Width → ℕ → ℕ
  | short, n => n
  | one, _ => 24
  | two, _ => 25
  | four, _ => 26
  | eight, _ => 27

/-- The width holds the argument. -/
def Fits : Width → ℕ → Prop
  | short, n => n < 24
  | w, n => n < 256 ^ w.size

instance (w : Width) (n : ℕ) : Decidable (w.Fits n) := by
  cases w <;> exact inferInstanceAs (Decidable (_ < _))

variable {w w' : Width} {m n : ℕ}

/-- The low five bits of a head say in how many bytes the argument is. -/
theorem Fits.info_lt (h : w.Fits n) : w.info n < 28 := by
  cases w <;> simp only [Fits, info] at h ⊢ <;> omega

/-- The five bits say the width. -/
theorem eq_of_info_eq (h : w.Fits n) (h' : w'.Fits m) (hinfo : w.info n = w'.info m) : w = w' := by
  cases w <;> cases w' <;> simp only [Fits, info] at h h' hinfo ⊢ <;> omega

/-- Beyond the initial byte the argument is what its bytes stand for. -/
theorem Fits.eq_of_toBe_eq (h : w.Fits n) (h' : w.Fits m) (hinfo : w.info n = w.info m)
    (hbytes : toBe w.size n = toBe w.size m) : n = m := by
  cases w
  case short => exact hinfo
  all_goals exact toBe_inj h h' hbytes

end Width

/-- The head of an item: its major type and its argument. -/
def head (major : ℕ) (w : Width) (n : ℕ) : Bytes :=
  UInt8.ofNat (32 * major + w.info n) :: toBe w.size n

/-- A head has at least one byte. -/
theorem head_ne_nil (major : ℕ) (w : Width) (n : ℕ) : head major w n ≠ [] :=
  List.cons_ne_nil _ _

/-- **A head is read in one way**, whatever follows it. -/
theorem head_append_inj {i j m n : ℕ} {w w' : Width} {x y : Bytes} (hi : i < 8) (hj : j < 8)
    (hw : w.Fits m) (hw' : w'.Fits n) (h : head i w m ++ x = head j w' n ++ y) :
    i = j ∧ w = w' ∧ m = n ∧ x = y := by
  obtain ⟨hbyte, hrest⟩ := List.cons.inj h
  have hm := hw.info_lt
  have hn := hw'.info_lt
  have hnat : 32 * i + w.info m = 32 * j + w'.info n := by
    have := congrArg UInt8.toNat hbyte
    rwa [UInt8.toNat_ofNat_of_lt' (by show _ < 256; omega),
      UInt8.toNat_ofNat_of_lt' (by show _ < 256; omega)] at this
  have hij : i = j := by omega
  have hinfo : w.info m = w'.info n := by omega
  obtain rfl := Width.eq_of_info_eq hw hw' hinfo
  obtain ⟨hbytes, hxy⟩ := List.append_inj hrest (by simp)
  exact ⟨hij, rfl, hw.eq_of_toBe_eq hw' hinfo hbytes, hxy⟩

/-! ### Items -/

/-- An encoded item: what its head holds, and the items or bytes after it. -/
inductive Item
  | uint (w : Width) (n : ℕ)
  | nint (w : Width) (n : ℕ)
  | bytes (w : Width) (bs : Bytes)
  | text (w : Width) (bs : Bytes)
  | array (w : Width) (items : List Item)
  | map (w : Width) (entries : List (Item × Item))
  | tag (w : Width) (n : ℕ) (item : Item)
  | special (w : Width) (n : ℕ)
  deriving Repr

namespace Item

/-- **Induction over an item**, with the hypothesis for each item of an array and for
both sides of each entry of a map. -/
@[elab_as_elim] theorem induct {P : Item → Prop} (uint : ∀ w n, P (uint w n))
    (nint : ∀ w n, P (nint w n)) (bytes : ∀ w bs, P (bytes w bs)) (text : ∀ w bs, P (text w bs))
    (array : ∀ w items, (∀ i ∈ items, P i) → P (array w items))
    (map : ∀ w entries, (∀ e ∈ entries, P e.1 ∧ P e.2) → P (map w entries))
    (tag : ∀ w n item, P item → P (tag w n item)) (special : ∀ w n, P (special w n))
    (item : Item) : P item := by
  refine item.rec (motive_1 := P) (motive_2 := fun is => ∀ i ∈ is, P i)
    (motive_3 := fun es => ∀ e ∈ es, P e.1 ∧ P e.2) (motive_4 := fun e => P e.1 ∧ P e.2)
    uint nint bytes text array map tag special ?_ ?_ ?_ ?_ ?_
  · simp
  · intro i is hi his
    simpa using ⟨hi, his⟩
  · simp
  · intro e es he hes f hf
    rcases List.mem_cons.1 hf with rfl | hf
    · exact he
    · exact hes f hf
  · intro k v hk hv
    exact ⟨hk, hv⟩

/-- The major type. -/
def major : Item → ℕ
  | uint .. => 0
  | nint .. => 1
  | bytes .. => 2
  | text .. => 3
  | array .. => 4
  | map .. => 5
  | tag .. => 6
  | special .. => 7

/-- The width of the head. -/
def width : Item → Width
  | uint w _ | nint w _ | bytes w _ | text w _ | array w _ | map w _ | tag w _ _ | special w _ => w

/-- The argument of the head: a number, or how much comes after it. -/
def argument : Item → ℕ
  | uint _ n | nint _ n | tag _ n _ | special _ n => n
  | bytes _ bs | text _ bs => bs.length
  | array _ items => items.length
  | map _ entries => entries.length

/-- A major type has three bits. -/
theorem major_lt (item : Item) : item.major < 8 := by
  cases item <;> simp [major]

mutual

/-- The bytes of an item. -/
def encode : Item → Bytes
  | uint w n => head 0 w n
  | nint w n => head 1 w n
  | bytes w bs => head 2 w bs.length ++ bs
  | text w bs => head 3 w bs.length ++ bs
  | array w items => head 4 w items.length ++ encodeAll items
  | map w entries => head 5 w entries.length ++ encodeEntries entries
  | tag w n item => head 6 w n ++ encode item
  | special w n => head 7 w n

/-- The bytes of items one after the other. -/
def encodeAll : List Item → Bytes
  | [] => []
  | i :: is => encode i ++ encodeAll is

/-- The bytes of entries one after the other, each key before its value. -/
def encodeEntries : List (Item × Item) → Bytes
  | [] => []
  | (k, v) :: es => (encode k ++ encode v) ++ encodeEntries es

end

mutual

/-- The items an item is made of, itself included, and those under a tag with `tags`. -/
def parts (tags : Bool) : Item → List Item
  | uint w n => [uint w n]
  | nint w n => [nint w n]
  | bytes w bs => [bytes w bs]
  | text w bs => [text w bs]
  | array w items => array w items :: allParts tags items
  | map w entries => map w entries :: entryParts tags entries
  | tag w n item => tag w n item :: if tags then parts tags item else []
  | special w n => [special w n]

/-- The items that a list of items is made of. -/
def allParts (tags : Bool) : List Item → List Item
  | [] => []
  | i :: is => parts tags i ++ allParts tags is

/-- The items that a list of entries is made of. -/
def entryParts (tags : Bool) : List (Item × Item) → List Item
  | [] => []
  | (k, v) :: es => (parts tags k ++ parts tags v) ++ entryParts tags es

end

mutual

/-- How deep items are nested in the item, itself included. -/
def depth : Item → ℕ
  | array _ items => allDepth items + 1
  | map _ entries => entryDepth entries + 1
  | tag _ _ item => depth item + 1
  | uint .. | nint .. | bytes .. | text .. | special .. => 1

/-- The depth of the deepest of several items. -/
def allDepth : List Item → ℕ
  | [] => 0
  | i :: is => max (depth i) (allDepth is)

/-- The depth of the deepest key or value. -/
def entryDepth : List (Item × Item) → ℕ
  | [] => 0
  | (k, v) :: es => max (max (depth k) (depth v)) (entryDepth es)

end

/-- All the items that the item is made of have the property. -/
def Every (tags : Bool) (p : Item → Prop) (item : Item) : Prop := ∀ part ∈ item.parts tags, p part

section Every

variable {tags : Bool} {p q : Item → Prop} {w : Width} {n : ℕ} {bs : Bytes} {item : Item}
  {items : List Item} {entries : List (Item × Item)}

/-- The parts of a list are those of its items. -/
theorem mem_allParts {part : Item} :
    part ∈ allParts tags items ↔ ∃ i ∈ items, part ∈ i.parts tags := by
  induction items with
  | nil => simp [allParts]
  | cons i is ih => simp [allParts, ih]

/-- The parts of a map are those of its keys and values. -/
theorem mem_entryParts {part : Item} : part ∈ entryParts tags entries ↔
    ∃ e ∈ entries, part ∈ e.1.parts tags ∨ part ∈ e.2.parts tags := by
  induction entries with
  | nil => simp [entryParts]
  | cons e es ih =>
    obtain ⟨k, v⟩ := e
    simp [entryParts, ih, or_assoc]

/-- A number has no parts but itself. -/
@[simp] theorem every_uint : (uint w n).Every tags p ↔ p (uint w n) := by
  simp [Every, parts]

/-- Nor has a negative number. -/
@[simp] theorem every_nint : (nint w n).Every tags p ↔ p (nint w n) := by
  simp [Every, parts]

/-- Nor has a byte string. -/
@[simp] theorem every_bytes : (bytes w bs).Every tags p ↔ p (bytes w bs) := by
  simp [Every, parts]

/-- Nor has a text. -/
@[simp] theorem every_text : (text w bs).Every tags p ↔ p (text w bs) := by
  simp [Every, parts]

/-- Nor has a simple value. -/
@[simp] theorem every_special : (special w n).Every tags p ↔ p (special w n) := by
  simp [Every, parts]

/-- An array and its items. -/
@[simp] theorem every_array :
    (array w items).Every tags p ↔ p (array w items) ∧ ∀ i ∈ items, i.Every tags p := by
  simp only [Every, parts, List.forall_mem_cons, mem_allParts]
  exact and_congr_right fun _ =>
    ⟨fun h i hi part hpart => h part ⟨i, hi, hpart⟩, fun h part ⟨i, hi, hpart⟩ => h i hi part hpart⟩

/-- A map, its keys and its values. -/
@[simp] theorem every_map : (map w entries).Every tags p ↔
    p (map w entries) ∧ ∀ e ∈ entries, e.1.Every tags p ∧ e.2.Every tags p := by
  simp only [Every, parts, List.forall_mem_cons, mem_entryParts]
  refine and_congr_right fun _ => ⟨fun h e he => ?_, fun h part hpart => ?_⟩
  · exact ⟨fun part hpart => h part ⟨e, he, .inl hpart⟩,
      fun part hpart => h part ⟨e, he, .inr hpart⟩⟩
  · obtain ⟨e, he, hpart | hpart⟩ := hpart
    · exact (h e he).1 part hpart
    · exact (h e he).2 part hpart

/-- A tag, and what it is on if tags are looked under. -/
@[simp] theorem every_tag :
    (tag w n item).Every tags p ↔ p (tag w n item) ∧ (tags = true → item.Every tags p) := by
  cases tags <;> simp [Every, parts]

/-- An item is a part of itself. -/
theorem self_mem_parts (tags : Bool) (item : Item) : item ∈ item.parts tags := by
  cases item <;> simp [parts]

/-- What every part has the item has. -/
theorem Every.self (h : item.Every tags p) : p item := h item (self_mem_parts tags item)

/-- Two properties of every part. -/
theorem Every.and (h : item.Every tags p) (h' : item.Every tags q) :
    item.Every tags fun i => p i ∧ q i :=
  fun part hpart => ⟨h part hpart, h' part hpart⟩

/-- A weaker property. -/
theorem Every.mono (h : item.Every tags p) (hpq : ∀ i, p i → q i) : item.Every tags q :=
  fun part hpart => hpq part (h part hpart)

end Every

/-- Every argument fits its width. -/
def Laid (item : Item) : Prop := item.Every true fun i => i.width.Fits i.argument

/-- A simple value below 32 is not written in two bytes. -/
def PlainSimple : Item → Prop
  | special .one n => 32 ≤ n
  | _ => True

/-- **The well-formed items**: every argument fits its width, and the two-byte form is
kept for the simple values that have no other. -/
def WellFormed (item : Item) : Prop := item.Laid ∧ item.Every true PlainSimple

/-! ### The bytes of an item -/

/-- An encoding begins with the head of its item. -/
theorem encode_eq_head (item : Item) :
    ∃ content, item.encode = head item.major item.width item.argument ++ content := by
  cases item
  case uint | nint | special => exact ⟨[], by simp [encode, major, width, argument]⟩
  all_goals exact ⟨_, rfl⟩

/-- An encoding has at least one byte. -/
theorem encode_ne_nil (item : Item) : item.encode ≠ [] := by
  obtain ⟨content, h⟩ := item.encode_eq_head
  rw [h]
  exact List.append_ne_nil_of_left_ne_nil (head_ne_nil _ _ _) _

/-- The items of an array are written one after the other. -/
theorem encodeAll_eq_flatMap (items : List Item) : encodeAll items = items.flatMap encode := by
  induction items with
  | nil => rfl
  | cons i is ih => rw [encodeAll, ih, List.flatMap_cons]

/-- The entries of a map are, the key in front of its value. -/
theorem encodeEntries_eq_flatMap (entries : List (Item × Item)) :
    encodeEntries entries = entries.flatMap fun e => encode e.1 ++ encode e.2 := by
  induction entries with
  | nil => rfl
  | cons e es ih =>
    obtain ⟨k, v⟩ := e
    rw [encodeEntries, ih, List.flatMap_cons]

/-- The depth of a list bounds that of its items. -/
theorem allDepth_le_iff {items : List Item} {n : ℕ} :
    allDepth items ≤ n ↔ ∀ i ∈ items, i.depth ≤ n := by
  induction items with
  | nil => simp [allDepth]
  | cons i is ih => simp [allDepth, ih]

/-- The depth of a map bounds that of its keys and values. -/
theorem entryDepth_le_iff {entries : List (Item × Item)} {n : ℕ} :
    entryDepth entries ≤ n ↔ ∀ e ∈ entries, e.1.depth ≤ n ∧ e.2.depth ≤ n := by
  induction entries with
  | nil => simp [entryDepth]
  | cons e es ih =>
    obtain ⟨k, v⟩ := e
    simp [entryDepth, ih, and_assoc]

/-- An item is a level of its own. -/
theorem depth_pos (item : Item) : 0 < item.depth := by
  cases item <;> simp [depth]

/-- A key and its value are no longer than the map. -/
theorem length_entry_le {entries : List (Item × Item)} {e : Item × Item} (he : e ∈ entries) :
    e.1.encode.length + e.2.encode.length ≤ (encodeEntries entries).length := by
  rw [encodeEntries_eq_flatMap, ← List.length_append]
  exact (List.infix_of_mem_flatten
    (List.mem_map_of_mem (f := fun e => encode e.1 ++ encode e.2) he)).length_le

/-- **Every level of an item takes a byte.** -/
theorem depth_le_length (item : Item) : item.depth ≤ item.encode.length := by
  induction item using induct with
  | uint | nint | bytes | text | special => simp [depth, encode, head]
  | tag w n item ih =>
    simp only [depth, encode, head, List.length_append, List.length_cons]
    omega
  | array w items ih =>
    have hall : allDepth items ≤ (encodeAll items).length := by
      refine allDepth_le_iff.2 fun i hi => (ih i hi).trans ?_
      rw [encodeAll_eq_flatMap]
      exact (List.infix_of_mem_flatten (List.mem_map_of_mem hi)).length_le
    simp only [depth, encode, head, List.length_append, List.length_cons]
    omega
  | map w entries ih =>
    have hall : entryDepth entries ≤ (encodeEntries entries).length := by
      refine entryDepth_le_iff.2 fun e he => ?_
      have hle := length_entry_le he
      have hkey := (ih e he).1
      have hvalue := (ih e he).2
      constructor <;> omega
    simp only [depth, encode, head, List.length_append, List.length_cons]
    omega

/-- The bytes of `a` can be read in one way only among values with the property `p`. -/
def ReadOnce {α : Type} (bytes : α → Bytes) (p : α → Prop) (a : α) : Prop :=
  p a ∧ ∀ b x y, p b → bytes a ++ x = bytes b ++ y → a = b ∧ x = y

/-- As many values as there are, each read in one way, are read in one way. -/
theorem flatMap_append_inj {α : Type} {bytes : α → Bytes} {p : α → Prop} {as : List α}
    (has : ∀ a ∈ as, ReadOnce bytes p a) :
    ∀ {bs : List α} {x y : Bytes}, as.length = bs.length → (∀ b ∈ bs, p b) →
      as.flatMap bytes ++ x = bs.flatMap bytes ++ y → as = bs ∧ x = y := by
  induction as with
  | nil =>
    intro bs x y hlen _ h
    obtain rfl := List.eq_nil_of_length_eq_zero hlen.symm
    exact ⟨rfl, h⟩
  | cons a as ih =>
    intro bs x y hlen hbs h
    obtain ⟨b, bs, rfl⟩ := List.exists_cons_of_length_eq_add_one hlen.symm
    obtain ⟨ha, has⟩ := List.forall_mem_cons.1 has
    rw [List.flatMap_cons, List.flatMap_cons, List.append_assoc, List.append_assoc] at h
    obtain ⟨rfl, htail⟩ := ha.2 b _ _ (hbs b (List.mem_cons_self ..)) h
    have hbs : ∀ c ∈ bs, p c := fun c hc => hbs c (List.mem_cons_of_mem _ hc)
    obtain ⟨rfl, rfl⟩ := ih has (Nat.succ.inj hlen) hbs htail
    exact ⟨rfl, rfl⟩

/-- A key and its value are read in one way when both are. -/
theorem ReadOnce.entry {p : Item → Prop} {e : Item × Item} (hk : ReadOnce encode p e.1)
    (hv : ReadOnce encode p e.2) :
    ReadOnce (fun e : Item × Item => encode e.1 ++ encode e.2) (fun e => p e.1 ∧ p e.2) e := by
  refine ⟨⟨hk.1, hv.1⟩, fun f x y hf h => ?_⟩
  rw [List.append_assoc, List.append_assoc] at h
  obtain ⟨hkey, h⟩ := hk.2 f.1 _ _ hf.1 h
  obtain ⟨hvalue, h⟩ := hv.2 f.2 _ _ hf.2 h
  exact ⟨Prod.ext hkey hvalue, h⟩

/-- Items with the same bytes in front have the same head. -/
theorem Laid.head_inj {a b : Item} {x y : Bytes} (ha : a.Laid) (hb : b.Laid)
    (h : a.encode ++ x = b.encode ++ y) :
    a.major = b.major ∧ a.width = b.width ∧ a.argument = b.argument := by
  obtain ⟨_, hae⟩ := a.encode_eq_head
  obtain ⟨_, hbe⟩ := b.encode_eq_head
  rw [hae, hbe, List.append_assoc, List.append_assoc] at h
  obtain ⟨hmajor, hwidth, hargument, -⟩ :=
    head_append_inj a.major_lt b.major_lt (Every.self ha) (Every.self hb) h
  exact ⟨hmajor, hwidth, hargument⟩

/-- The bytes of a laid item can be read in one way only.  The head gives the kind, the
width and the argument, so another item with the same bytes is of the same kind; the
argument says how many bytes or items follow, and those are read in one way by the
induction. -/
theorem Laid.readOnce {a : Item} (ha : a.Laid) : ReadOnce encode Laid a := by
  induction a using induct with
  | uint w n | nint w n | special w n =>
    refine ⟨ha, fun b x y hb h => ?_⟩
    obtain ⟨hmajor, hwidth, hargument⟩ := ha.head_inj hb h
    cases b <;> simp only [major, width, argument, reduceCtorEq,
      Nat.reduceEqDiff] at hmajor hwidth hargument
    subst hwidth hargument
    exact ⟨rfl, List.append_cancel_left h⟩
  | bytes w bs | text w bs =>
    refine ⟨ha, fun b x y hb h => ?_⟩
    obtain ⟨hmajor, hwidth, hlen⟩ := ha.head_inj hb h
    cases b <;> simp only [major, width, argument, reduceCtorEq,
      Nat.reduceEqDiff] at hmajor hwidth hlen
    subst hwidth
    simp only [encode, hlen, List.append_assoc, List.append_cancel_left_eq] at h
    obtain ⟨rfl, rfl⟩ := List.append_inj h hlen
    exact ⟨rfl, rfl⟩
  | array w is ih =>
    refine ⟨ha, fun b x y hb h => ?_⟩
    obtain ⟨hmajor, hwidth, hlen⟩ := ha.head_inj hb h
    cases b with
    | array w' is' =>
      obtain rfl : w = w' := hwidth
      have hlen : is.length = is'.length := hlen
      simp only [encode, hlen, List.append_assoc, List.append_cancel_left_eq,
        encodeAll_eq_flatMap] at h
      have hread : ∀ i ∈ is, ReadOnce encode Laid i := fun i hi =>
        ih i hi ((every_array.1 ha).2 i hi)
      obtain ⟨rfl, rfl⟩ := flatMap_append_inj hread hlen (every_array.1 hb).2 h
      exact ⟨rfl, rfl⟩
    | _ => simp [major] at hmajor
  | map w es ih =>
    refine ⟨ha, fun b x y hb h => ?_⟩
    obtain ⟨hmajor, hwidth, hlen⟩ := ha.head_inj hb h
    cases b with
    | map w' es' =>
      obtain rfl : w = w' := hwidth
      have hlen : es.length = es'.length := hlen
      simp only [encode, hlen, List.append_assoc, List.append_cancel_left_eq,
        encodeEntries_eq_flatMap] at h
      have hread : ∀ e ∈ es, ReadOnce (fun e : Item × Item => encode e.1 ++ encode e.2)
          (fun e => Laid e.1 ∧ Laid e.2) e := fun e he =>
        have hlaid := (every_map.1 ha).2 e he
        .entry ((ih e he).1 hlaid.1) ((ih e he).2 hlaid.2)
      obtain ⟨rfl, rfl⟩ := flatMap_append_inj hread hlen (every_map.1 hb).2 h
      exact ⟨rfl, rfl⟩
    | _ => simp [major] at hmajor
  | tag w n i ih =>
    refine ⟨ha, fun b x y hb h => ?_⟩
    obtain ⟨hmajor, hwidth, hargument⟩ := ha.head_inj hb h
    cases b with
    | tag w' m j =>
      obtain ⟨rfl, rfl⟩ : w = w' ∧ n = m := ⟨hwidth, hargument⟩
      simp only [encode, List.append_assoc, List.append_cancel_left_eq] at h
      obtain ⟨rfl, rfl⟩ := (ih ((every_tag.1 ha).2 rfl)).2 j x y ((every_tag.1 hb).2 rfl) h
      exact ⟨rfl, rfl⟩
    | _ => simp [major] at hmajor

/-- **The bytes of a laid item are read in one way**, whatever follows them. -/
theorem Laid.encode_append_inj {a b : Item} {x y : Bytes} (ha : a.Laid) (hb : b.Laid)
    (h : a.encode ++ x = b.encode ++ y) : a = b ∧ x = y :=
  ha.readOnce.2 b x y hb h

end Item
end Bytes
end Quosh
