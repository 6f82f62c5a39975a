import Mathlib.Data.BitVec
import Pochtecatl.ListChunks

namespace Abi

abbrev Byte := BitVec 8

abbrev Word := BitVec 256

/-! ### Numbers as big-endian bytes -/

/-- The last `k` base-256 digits of a number, the highest first. -/
def beBytes : Nat → Nat → List Byte
  | 0, _ => []
  | k + 1, n => beBytes k (n / 256) ++ [BitVec.ofNat 8 n]

def ofBE (bytes : List Byte) : Nat :=
  bytes.foldl (fun n byte => n * 256 + byte.toNat) 0

@[simp] theorem length_beBytes (k n : Nat) : (beBytes k n).length = k := by
  induction k generalizing n with
  | zero => rfl
  | succ k ih => rw [beBytes, List.length_append, ih, List.length_singleton]

theorem ofBE_concat (bytes : List Byte) (byte : Byte) :
    ofBE (bytes ++ [byte]) = ofBE bytes * 256 + byte.toNat := by
  rw [ofBE, List.foldl_append, List.foldl_cons, List.foldl_nil, ofBE]

theorem ofBE_beBytes {k n : Nat} (h : n < 256 ^ k) : ofBE (beBytes k n) = n := by
  induction k generalizing n with
  | zero =>
    have hn : n = 0 := by omega
    rw [hn]
    rfl
  | succ k ih =>
    have hdiv : n / 256 < 256 ^ k := by
      rw [Nat.pow_succ] at h
      omega
    have hbyte : (BitVec.ofNat 8 n).toNat = n % 256 := BitVec.toNat_ofNat n 8
    rw [beBytes, ofBE_concat, ih hdiv, hbyte]
    omega

theorem beBytes_ofBE (bytes : List Byte) : beBytes bytes.length (ofBE bytes) = bytes := by
  induction bytes using List.reverseRecOn with
  | nil => rfl
  | append_singleton bytes byte ih =>
    have hbyte : byte.toNat < 256 := byte.isLt
    have hdiv : (ofBE bytes * 256 + byte.toNat) / 256 = ofBE bytes := by omega
    have hlast : BitVec.ofNat 8 (ofBE bytes * 256 + byte.toNat) = byte := by
      apply BitVec.eq_of_toNat_eq
      rw [BitVec.toNat_ofNat]
      omega
    rw [List.length_append, List.length_singleton, ofBE_concat, beBytes, hdiv, ih, hlast]

theorem ofBE_lt (bytes : List Byte) : ofBE bytes < 256 ^ bytes.length := by
  induction bytes using List.reverseRecOn with
  | nil => exact Nat.one_pos
  | append_singleton bytes byte ih =>
    have hbyte : byte.toNat < 256 := byte.isLt
    rw [ofBE_concat, List.length_append, List.length_singleton, Nat.pow_succ]
    omega

/-! ### Words -/

def wordBytes (word : Word) : List Byte :=
  beBytes 32 word.toNat

def wordOfBytes (bytes : List Byte) : Word :=
  BitVec.ofNat 256 (ofBE bytes)

@[simp] theorem length_wordBytes (word : Word) : (wordBytes word).length = 32 :=
  length_beBytes 32 word.toNat

@[simp] theorem wordOfBytes_wordBytes (word : Word) : wordOfBytes (wordBytes word) = word := by
  have hlt : word.toNat < 256 ^ 32 := word.isLt
  rw [wordOfBytes, wordBytes, ofBE_beBytes hlt, BitVec.ofNat_toNat, BitVec.setWidth_eq]

theorem wordBytes_wordOfBytes {bytes : List Byte} (h : bytes.length = 32) :
    wordBytes (wordOfBytes bytes) = bytes := by
  have hlt := ofBE_lt bytes
  rw [h] at hlt
  have hnat : (wordOfBytes bytes).toNat = ofBE bytes := by
    rw [wordOfBytes, BitVec.toNat_ofNat]
    omega
  rw [wordBytes, hnat, ← h, beBytes_ofBE]

def wordsToBytes (words : List Word) : List Byte :=
  words.flatMap wordBytes

def bytesToWords (bytes : List Byte) : List Word :=
  (bytes.chunks 32).map wordOfBytes

@[simp] theorem wordsToBytes_cons (word : Word) (words : List Word) :
    wordsToBytes (word :: words) = wordBytes word ++ wordsToBytes words :=
  List.flatMap_cons

@[simp] theorem length_wordsToBytes (words : List Word) :
    (wordsToBytes words).length = 32 * words.length := by
  induction words with
  | nil => rfl
  | cons word words ih =>
    rw [wordsToBytes_cons, List.length_append, ih, length_wordBytes, List.length_cons]
    omega

@[simp] theorem bytesToWords_wordsToBytes (words : List Word) :
    bytesToWords (wordsToBytes words) = words := by
  have hchunks : (wordsToBytes words).chunks 32 = words.map wordBytes :=
    List.chunks_flatMap (by omega) words fun word _ => length_wordBytes word
  rw [bytesToWords, hchunks, List.map_map]
  have hid : wordOfBytes ∘ wordBytes = id := funext wordOfBytes_wordBytes
  rw [hid, List.map_id]

/-- Bytes that fill their words. -/
theorem wordsToBytes_bytesToWords {bytes : List Byte} (h : 32 ∣ bytes.length) :
    wordsToBytes (bytesToWords bytes) = bytes := by
  have hfull : ∀ chunk ∈ bytes.chunks 32, (wordBytes ∘ wordOfBytes) chunk = id chunk := by
    intro chunk hchunk
    exact wordBytes_wordOfBytes (List.length_of_mem_chunks h hchunk)
  rw [wordsToBytes, bytesToWords, List.flatMap_def, List.map_map, List.map_congr_left hfull,
    List.map_id, List.flatten_chunks (by omega)]

/-! ### Byte strings -/

/-- Zeros up to the end of a word. -/
def padBytes (bytes : List Byte) : List Byte :=
  bytes ++ List.replicate ((32 - bytes.length % 32) % 32) 0

theorem dvd_length_padBytes (bytes : List Byte) : 32 ∣ (padBytes bytes).length := by
  rw [padBytes, List.length_append, List.length_replicate]
  omega

theorem take_length_padBytes (bytes : List Byte) : (padBytes bytes).take bytes.length = bytes := by
  rw [padBytes, List.take_left]

end Abi
