import Pochtecatl.AbiWords

namespace Abi

variable {α β : Type}

/-! ### Heads and tails -/

/-- A component of a sequence. A dynamic one stands in the tail and leaves its offset in the
head. -/
structure Item where
  dynamic : Bool
  words : List Word

namespace Item

/-- Offsets are counted in bytes. -/
def head (offset : Nat) (item : Item) : List Word :=
  if item.dynamic then [BitVec.ofNat 256 (32 * offset)] else item.words

def tail (item : Item) : List Word :=
  if item.dynamic then item.words else []

def headSize (item : Item) : Nat :=
  if item.dynamic then 1 else item.words.length

theorem length_head (offset : Nat) (item : Item) : (item.head offset).length = item.headSize := by
  unfold head headSize
  split <;> rfl

end Item

def headSize : List Item → Nat
  | [] => 0
  | item :: items => item.headSize + headSize items

/-- The heads, with the tails starting at an offset. -/
def heads (offset : Nat) : List Item → List Word
  | [] => []
  | item :: items => item.head offset ++ heads (offset + item.tail.length) items

def tails (items : List Item) : List Word :=
  items.flatMap Item.tail

def layout (items : List Item) : List Word :=
  heads (headSize items) items ++ tails items

@[simp] theorem tails_cons (item : Item) (items : List Item) :
    tails (item :: items) = item.tail ++ tails items :=
  List.flatMap_cons

theorem length_heads (offset : Nat) (items : List Item) :
    (heads offset items).length = headSize items := by
  induction items generalizing offset with
  | nil => rfl
  | cons item items ih => rw [heads, List.length_append, Item.length_head, ih, headSize]

theorem heads_append_tails (items : List Item) :
    heads (headSize items) items ++ tails items = layout items := rfl

theorem length_layout (items : List Item) :
    (layout items).length = headSize items + (tails items).length := by
  rw [layout, List.length_append, length_heads]

/-- The tails of the items stand at an offset of the words, behind all heads, and their offsets
fit into a word. -/
structure Placed (words : List Word) (offset : Nat) (items : List Item) : Prop where
  heads_le : headSize items ≤ offset
  fits : 32 * (offset + (tails items).length) < 2 ^ 256
  tails_prefix : tails items <+: words.drop offset

namespace Placed

variable {words : List Word} {offset : Nat} {item : Item} {items : List Item}

theorem layout (rest : List Word) (h : 32 * (layout items).length < 2 ^ 256) :
    Placed (Abi.layout items ++ rest) (headSize items) items := by
  refine ⟨Nat.le_refl _, by rwa [← length_layout], rest, ?_⟩
  rw [Abi.layout, List.append_assoc, List.drop_left' (length_heads _ items)]

theorem next (h : Placed words offset (item :: items)) :
    Placed words (offset + item.tail.length) items := by
  obtain ⟨hheads, hfits, rest, hrest⟩ := h
  rw [tails_cons] at hfits hrest
  rw [List.length_append] at hfits
  rw [headSize] at hheads
  refine ⟨by omega, by omega, rest, ?_⟩
  rw [← List.drop_drop, ← hrest, List.append_assoc, List.drop_left]

/-- The words of the first item are no more than the tails reach to. -/
theorem words_fit (h : Placed words offset (item :: items)) :
    32 * item.words.length < 2 ^ 256 := by
  obtain ⟨hheads, hfits, -⟩ := h
  rw [tails_cons, List.length_append] at hfits
  rw [headSize] at hheads
  have hword : item.words.length ≤ item.headSize + item.tail.length := by
    unfold Item.headSize Item.tail
    split <;> omega
  omega

end Placed

/-! ### Types -/

/-- A type of the ABI. A static value takes `size` words; a dynamic one takes an offset in the
head. The decoder reads what it needs and leaves what follows. -/
structure Codec (α : Type) where
  dynamic : Bool
  size : Nat
  encode : α → List Word
  decode : List Word → Option α
  Valid : α → Prop
  size_pos : 0 < size
  length_encode : dynamic = false → ∀ a, (encode a).length = size
  decode_encode : ∀ a rest, Valid a → 32 * (encode a).length < 2 ^ 256 →
    decode (encode a ++ rest) = some a

namespace Codec

def item (c : Codec α) (a : α) : Item :=
  ⟨c.dynamic, c.encode a⟩

/-- Reads a component of the sequence `words`, and the heads behind it. -/
def readField (c : Codec α) (words : List Word) : List Word → Option (α × List Word)
  | [] => none
  | head :: more =>
    if c.dynamic then (c.decode (words.drop (head.toNat / 32))).map fun a => (a, more)
    else (c.decode (head :: more)).map fun a => (a, (head :: more).drop c.size)

theorem readField_heads {c : Codec α} {a : α} {words : List Word} {offset : Nat}
    {items : List Item} (hvalid : c.Valid a) (h : Placed words offset (c.item a :: items))
    (more : List Word) :
    c.readField words (heads offset (c.item a :: items) ++ more) =
      some (a, heads (offset + (c.item a).tail.length) items ++ more) := by
  have hwords : 32 * (c.encode a).length < 2 ^ 256 := h.words_fit
  obtain ⟨-, hfits, rest, hrest⟩ := h
  rw [tails_cons] at hfits hrest
  rw [List.length_append] at hfits
  rw [heads, List.append_assoc]
  cases hdynamic : c.dynamic with
  | true =>
    have hhead : (c.item a).head offset = [BitVec.ofNat 256 (32 * offset)] := by
      simp [Item.head, item, hdynamic]
    have htail : (c.item a).tail = c.encode a := by
      simp [Item.tail, item, hdynamic]
    have hoffset : (BitVec.ofNat 256 (32 * offset)).toNat / 32 = offset := by
      rw [BitVec.toNat_ofNat, Nat.mod_eq_of_lt (by omega)]
      omega
    have hdecode : c.decode (words.drop offset) = some a := by
      rw [← hrest, htail, List.append_assoc]
      exact c.decode_encode a _ hvalid hwords
    rw [hhead, List.singleton_append, readField, if_pos hdynamic, hoffset, hdecode,
      Option.map_some]
  | false =>
    have hhead : (c.item a).head offset = c.encode a := by
      simp [Item.head, item, hdynamic]
    have hlength := c.length_encode hdynamic a
    have hdecode := c.decode_encode a (heads (offset + (c.item a).tail.length) items ++ more)
      hvalid hwords
    have hdrop : (c.encode a ++ (heads (offset + (c.item a).tail.length) items ++ more)).drop
        c.size = heads (offset + (c.item a).tail.length) items ++ more :=
      List.drop_left' hlength
    rw [hhead]
    cases hencode : c.encode a with
    | nil =>
      rw [hencode, List.length_nil] at hlength
      exact absurd hlength (Nat.ne_of_lt c.size_pos)
    | cons word encoded =>
      rw [hencode, List.cons_append] at hdecode hdrop
      rw [List.cons_append, readField, if_neg (by simp [hdynamic]), hdecode, hdrop,
        Option.map_some]

/-- A number of at most `bits` bits that is held in `w` bits. What does not fit is masked. -/
def uint (bits : Nat) {w : Nat} (h : w ≤ 256) : Codec (BitVec w) where
  dynamic := false
  size := 1
  encode v := [BitVec.ofNat 256 (v.toNat % 2 ^ bits)]
  decode
    | [] => none
    | word :: _ => if word.toNat < 2 ^ bits then some (word.setWidth w) else none
  Valid v := v.toNat < 2 ^ bits
  size_pos := Nat.one_pos
  length_encode _ _ := rfl
  decode_encode v rest hvalid _ := by
    have hfits : v.toNat < 2 ^ 256 :=
      Nat.lt_of_lt_of_le v.isLt (Nat.pow_le_pow_right (by omega) h)
    have hword : (BitVec.ofNat 256 (v.toNat % 2 ^ bits)).toNat = v.toNat := by
      rw [BitVec.toNat_ofNat, Nat.mod_eq_of_lt hvalid, Nat.mod_eq_of_lt hfits]
    have hback : (BitVec.ofNat 256 (v.toNat % 2 ^ bits)).setWidth w = v := by
      apply BitVec.eq_of_toNat_eq
      rw [BitVec.toNat_setWidth, hword, Nat.mod_eq_of_lt v.isLt]
    rw [List.singleton_append]
    simp only [hword, hback]
    exact if_pos hvalid

/-- A number of at most `bits` bits that is held in a word. -/
def uintWord (bits : Nat) : Codec Word :=
  uint bits (Nat.le_refl 256)

def uint256 : Codec Word :=
  uintWord 256

def uint8 : Codec Byte :=
  uint 8 (by omega)

def uint24 : Codec (BitVec 32) :=
  uint 24 (by decide)

def address : Codec (Fin (2 ^ 160)) where
  dynamic := false
  size := 1
  encode a := [BitVec.ofNat 256 a.val]
  decode
    | [] => none
    | word :: _ => if h : word.toNat < 2 ^ 160 then some ⟨word.toNat, h⟩ else none
  Valid _ := True
  size_pos := Nat.one_pos
  length_encode _ _ := rfl
  decode_encode a rest _ _ := by
    have hword : (BitVec.ofNat 256 a.val).toNat = a.val := by
      rw [BitVec.toNat_ofNat]
      omega
    rw [List.singleton_append]
    simp only [hword, a.isLt, dif_pos]

def bool : Codec Bool where
  dynamic := false
  size := 1
  encode b := [if b then 1 else 0]
  decode
    | [] => none
    | word :: _ => if word = 0 then some false else if word = 1 then some true else none
  Valid _ := True
  size_pos := Nat.one_pos
  length_encode _ _ := rfl
  decode_encode b rest _ _ := by
    cases b <;> rfl

theorem length_bytesToWords_padBytes (bytes : List Byte) :
    (bytesToWords (padBytes bytes)).length = (bytes.length + 31) / 32 := by
  rw [bytesToWords, List.length_map, List.length_chunks, padBytes, List.length_append,
    List.length_replicate]
  omega

/-- The length, and the bytes up to the end of a word. -/
def bytes : Codec (List Byte) where
  dynamic := true
  size := 1
  encode data := BitVec.ofNat 256 data.length :: bytesToWords (padBytes data)
  decode
    | [] => none
    | length :: words =>
      let data := (wordsToBytes (words.take ((length.toNat + 31) / 32))).take length.toNat
      if data.length = length.toNat then some data else none
  Valid _ := True
  size_pos := Nat.one_pos
  length_encode h := by cases h
  decode_encode data rest _ hfits := by
    have hwords := length_bytesToWords_padBytes data
    rw [List.length_cons, hwords] at hfits
    have hlength : (BitVec.ofNat 256 data.length).toNat = data.length := by
      rw [BitVec.toNat_ofNat]
      omega
    have hdata : (wordsToBytes ((bytesToWords (padBytes data) ++ rest).take
        ((data.length + 31) / 32))).take data.length = data := by
      rw [List.take_left' hwords, wordsToBytes_bytesToWords (dvd_length_padBytes data),
        take_length_padBytes]
    rw [List.cons_append]
    simp only [hlength, hdata, if_true]

/-! ### Arrays -/

def readElements (c : Codec α) (words : List Word) : Nat → List Word → Option (List α)
  | 0, _ => some []
  | n + 1, heads => (c.readField words heads).bind fun (a, more) =>
    (readElements c words n more).map (a :: ·)

theorem readElements_heads {c : Codec α} {words : List Word} {offset : Nat} {l : List α}
    (hvalid : ∀ a ∈ l, c.Valid a) (h : Placed words offset (l.map c.item)) (more : List Word) :
    c.readElements words l.length (heads offset (l.map c.item) ++ more) = some l := by
  induction l generalizing offset with
  | nil => rfl
  | cons a l ih =>
    have ha := hvalid a List.mem_cons_self
    have hl : ∀ a ∈ l, c.Valid a := fun b hb => hvalid b (List.mem_cons_of_mem _ hb)
    rw [List.map_cons] at h ⊢
    rw [List.length_cons, readElements, readField_heads ha h more, Option.bind_some]
    dsimp only
    rw [ih hl h.next, Option.map_some]

/-- Each element has a word in the heads. -/
theorem length_le_headSize (c : Codec α) (l : List α) : l.length ≤ headSize (l.map c.item) := by
  induction l with
  | nil => exact Nat.zero_le _
  | cons a l ih =>
    have hitem : 0 < (c.item a).headSize := by
      unfold Item.headSize item
      split
      next => exact Nat.one_pos
      next hdynamic =>
        rw [c.length_encode (by simpa using hdynamic) a]
        exact c.size_pos
    rw [List.length_cons, List.map_cons, headSize]
    omega

/-- The length, and the elements as a sequence. -/
def array (c : Codec α) : Codec (List α) where
  dynamic := true
  size := 1
  encode l := BitVec.ofNat 256 l.length :: layout (l.map c.item)
  decode
    | [] => none
    | length :: words => c.readElements words length.toNat words
  Valid l := ∀ a ∈ l, c.Valid a
  size_pos := Nat.one_pos
  length_encode h := by cases h
  decode_encode l rest hvalid hfits := by
    rw [List.length_cons] at hfits
    have hsize := c.length_le_headSize l
    have hlayout := length_layout (l.map c.item)
    have hlength : (BitVec.ofNat 256 l.length).toNat = l.length := by
      rw [BitVec.toNat_ofNat]
      omega
    have hplaced := Placed.layout rest (show 32 * (layout (l.map c.item)).length < 2 ^ 256 by omega)
    have hread := readElements_heads hvalid hplaced (tails (l.map c.item) ++ rest)
    rw [List.cons_append]
    simp only [hlength]
    rw [← List.append_assoc] at hread
    exact hread

/-- The encoding of a value on its own. -/
def abiEncode (c : Codec α) (a : α) : List Byte :=
  wordsToBytes (layout [c.item a])

/-- The elements of a static type take the same number of words. -/
theorem length_layout_of_static {c : Codec α} (h : c.dynamic = false) (l : List α) :
    (layout (l.map c.item)).length = l.length * c.size := by
  rw [length_layout]
  induction l with
  | nil => simp [headSize, tails]
  | cons a l ih =>
    have hhead : (c.item a).headSize = c.size := by
      simp [Item.headSize, item, h, c.length_encode h]
    have htail : (c.item a).tail = [] := by
      simp [Item.tail, item, h]
    rw [List.map_cons, headSize, hhead, tails_cons, htail, List.nil_append, List.length_cons,
      Nat.succ_mul]
    omega

/-- A dynamic value on its own stands behind its offset. -/
theorem abiEncode_of_dynamic {c : Codec α} (h : c.dynamic = true) (a : α) :
    c.abiEncode a = wordBytes 32 ++ wordsToBytes (c.encode a) := by
  have hlayout : layout [c.item a] = 32 :: c.encode a := by
    simp [layout, heads, headSize, tails, Item.head, Item.tail, Item.headSize, item, h]
  rw [abiEncode, hlayout, wordsToBytes_cons]

theorem take_abiEncode_of_dynamic {c : Codec α} (h : c.dynamic = true) (a : α) :
    (c.abiEncode a).take 4 = [0, 0, 0, 0] := by
  have hoffset : (wordBytes 32).take 4 = [0, 0, 0, 0] := by decide
  have hle : 4 ≤ (wordBytes 32).length := by
    rw [length_wordBytes]
    omega
  rw [abiEncode_of_dynamic h, List.take_append_of_le_length hle, hoffset]

end Codec

/-! ### Bytes -/

/-- A dynamic type that holds bytes, with at most a word for each. -/
structure BytesEncoding extends Codec (List Byte) where
  dynamic_eq : dynamic = true
  length_encode_le : ∀ data, (encode data).length ≤ data.length + 1

namespace BytesEncoding

def bytes : BytesEncoding where
  toCodec := .bytes
  dynamic_eq := rfl
  length_encode_le data := by
    have hwords := Codec.length_bytesToWords_padBytes data
    show (BitVec.ofNat 256 data.length :: bytesToWords (padBytes data)).length ≤ data.length + 1
    rw [List.length_cons, hwords]
    omega

/-- Each byte takes a word. -/
def uint8Array : BytesEncoding where
  toCodec := .array .uint8
  dynamic_eq := rfl
  length_encode_le data := by
    have hlayout : (layout (data.map Codec.uint8.item)).length = data.length * 1 :=
      Codec.length_layout_of_static rfl data
    show (BitVec.ofNat 256 data.length :: layout (data.map Codec.uint8.item)).length ≤
      data.length + 1
    rw [List.length_cons, hlayout, Nat.mul_one]

theorem length_abiEncode_le (encoding : BytesEncoding) (data : List Byte) :
    (encoding.abiEncode data).length ≤ 64 + 32 * data.length := by
  have hlength := encoding.length_encode_le data
  rw [Codec.abiEncode_of_dynamic encoding.dynamic_eq, List.length_append, length_wordBytes,
    length_wordsToBytes]
  omega

end BytesEncoding

end Abi
