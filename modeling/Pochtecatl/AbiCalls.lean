import Pochtecatl.AbiCodec

namespace Abi

variable {α β : Type}

/-! ### Sequences of types -/

/-- The components of a tuple, a struct or an argument list. -/
structure Fields (α : Type) where
  dynamic : Bool
  size : Nat
  items : α → List Item
  read : List Word → List Word → Option (α × List Word)
  Valid : α → Prop
  static_items : dynamic = false → ∀ a, headSize (items a) = size ∧ tails (items a) = []
  read_heads : ∀ {a words offset}, Valid a → Placed words offset (items a) → ∀ more,
    read words (heads offset (items a) ++ more) = some (a, more)

namespace Fields

def nil : Fields Unit where
  dynamic := false
  size := 0
  items _ := []
  read _ heads := some ((), heads)
  Valid _ := True
  static_items _ _ := ⟨rfl, rfl⟩
  read_heads _ _ _ := rfl

def cons (c : Codec α) (f : Fields β) : Fields (α × β) where
  dynamic := c.dynamic || f.dynamic
  size := c.size + f.size
  items a := c.item a.1 :: f.items a.2
  read words heads := (c.readField words heads).bind fun first =>
    (f.read words first.2).map fun rest => ((first.1, rest.1), rest.2)
  Valid a := c.Valid a.1 ∧ f.Valid a.2
  static_items h a := by
    obtain ⟨hc, hf⟩ := Bool.or_eq_false_iff.mp h
    obtain ⟨hsize, htails⟩ := f.static_items hf a.2
    have hhead : (c.item a.1).headSize = c.size := by
      simp [Item.headSize, Codec.item, hc, c.length_encode hc]
    have htail : (c.item a.1).tail = [] := by
      simp [Item.tail, Codec.item, hc]
    rw [headSize, hhead, hsize, tails_cons, htail, htails]
    exact ⟨rfl, rfl⟩
  read_heads hvalid hplaced more := by
    rw [Codec.readField_heads hvalid.1 hplaced more, Option.bind_some]
    dsimp only
    rw [f.read_heads hvalid.2 hplaced.next more, Option.map_some]

/-- The components under the names of a struct. -/
def struct (f : Fields α) (toFields : β → α) (ofFields : α → β)
    (h : ∀ b, ofFields (toFields b) = b) : Fields β where
  dynamic := f.dynamic
  size := f.size
  items b := f.items (toFields b)
  read words heads := (f.read words heads).map fun fields => (ofFields fields.1, fields.2)
  Valid b := f.Valid (toFields b)
  static_items hdynamic b := f.static_items hdynamic (toFields b)
  read_heads hvalid hplaced more := by
    rw [f.read_heads hvalid hplaced more, Option.map_some, h]

theorem read_layout {f : Fields α} {a : α} (hvalid : f.Valid a)
    (hfits : 32 * (layout (f.items a)).length < 2 ^ 256) (rest : List Word) :
    (f.read (layout (f.items a) ++ rest) (layout (f.items a) ++ rest)).map Prod.fst = some a := by
  have hread := f.read_heads hvalid (Placed.layout rest hfits) (tails (f.items a) ++ rest)
  rw [← List.append_assoc, heads_append_tails] at hread
  rw [hread, Option.map_some]

/-- The components as one type. -/
def codec (f : Fields α) (h : 0 < f.size) : Codec α where
  dynamic := f.dynamic
  size := if f.dynamic then 1 else f.size
  encode a := layout (f.items a)
  decode words := (f.read words words).map Prod.fst
  Valid := f.Valid
  size_pos := by
    split <;> omega
  length_encode hdynamic a := by
    obtain ⟨hsize, htails⟩ := f.static_items hdynamic a
    rw [length_layout, hsize, htails, if_neg (by simp [hdynamic])]
    rfl
  decode_encode a rest hvalid hfits := f.read_layout hvalid hfits rest

end Fields

/-! ### Calls -/

/-- A function, called by a selector of four bytes and its arguments. -/
structure SolCall (α : Type) where
  selector : BitVec 32
  arguments : Fields α

namespace SolCall

variable (call : SolCall α)

def selectorBytes : List Byte :=
  beBytes 4 call.selector.toNat

def abiEncode (a : α) : List Byte :=
  call.selectorBytes ++ wordsToBytes (layout (call.arguments.items a))

/-- Only what encodes to the data is decoded. -/
def abiDecode (data : List Byte) : Option α :=
  if data.take 4 = call.selectorBytes then
    let words := bytesToWords (data.drop 4)
    ((call.arguments.read words words).map Prod.fst).filter fun a => call.abiEncode a = data
  else none

variable {call}

theorem length_selectorBytes : call.selectorBytes.length = 4 :=
  length_beBytes 4 call.selector.toNat

theorem length_abiEncode (a : α) : (call.abiEncode a).length =
    4 + 32 * (layout (call.arguments.items a)).length := by
  rw [abiEncode, List.length_append, length_selectorBytes, length_wordsToBytes]

theorem abiDecode_abiEncode {a : α} (hvalid : call.arguments.Valid a)
    (hfits : (call.abiEncode a).length < 2 ^ 256) : call.abiDecode (call.abiEncode a) = some a := by
  rw [length_abiEncode] at hfits
  have htake : (call.abiEncode a).take 4 = call.selectorBytes :=
    List.take_left' length_selectorBytes
  have hdrop : (call.abiEncode a).drop 4 = wordsToBytes (layout (call.arguments.items a)) :=
    List.drop_left' length_selectorBytes
  have hread := Fields.read_layout hvalid (by omega) []
  rw [List.append_nil] at hread
  unfold abiDecode
  rw [if_pos htake, hdrop, bytesToWords_wordsToBytes]
  dsimp only
  rw [hread, Option.filter_some, if_pos (decide_eq_true rfl)]

/-- The call is told by its first four bytes. -/
theorem abiDecode_eq_none {data : List Byte} (h : data.take 4 ≠ call.selectorBytes) :
    call.abiDecode data = none := by
  unfold abiDecode
  exact if_neg h

/-- Data that is encoded again as a dynamic value begins with the bytes of an offset. -/
theorem abiDecode_encodedTwice {c : Codec β} (hdynamic : c.dynamic = true)
    (hselector : call.selectorBytes ≠ [0, 0, 0, 0]) (b : β) :
    call.abiDecode (c.abiEncode b) = none := by
  apply abiDecode_eq_none
  rw [Codec.take_abiEncode_of_dynamic hdynamic]
  exact hselector.symm

end SolCall

end Abi
