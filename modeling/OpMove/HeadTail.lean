import OpMove.Primitives

/-!
Sequences in head and tail form, as contract ABIs lay them out. A part of fixed size stands in
the head; a part of variable size stands in the tail, with its offset from the start of the
sequence in the head. Offsets and lengths are 32-byte words, and byte strings are filled up
with zeros to whole words.
-/

namespace OpMove.HeadTail

open Primitives

/-- A number as a big-endian word. -/
def word (n : ℕ) : Bytes := (leBytes 32 n).reverse

/-- How many zeros fill a string up to whole words. -/
def padding (bytes : Bytes) : ℕ := (32 - bytes.length % 32) % 32

def padRight (bytes : Bytes) : Bytes := bytes ++ List.replicate (padding bytes) 0

structure Part where
  isDynamic : Bool
  bytes : Bytes
  deriving DecidableEq, Repr

def Part.headSize (part : Part) : ℕ := if part.isDynamic then 32 else part.bytes.length

/-- The heads, where the next tail starts at the given offset. -/
def heads : ℕ → List Part → Bytes
  | _, [] => []
  | offset, part :: parts =>
      if part.isDynamic then word offset ++ heads (offset + part.bytes.length) parts
      else part.bytes ++ heads offset parts

def tails (parts : List Part) : Bytes :=
  (parts.filter fun part => part.isDynamic).flatMap fun part => part.bytes

def encodeParts (parts : List Part) : Bytes :=
  heads ((parts.map Part.headSize).sum) parts ++ tails parts

/-- Bytes of variable length with their length in front. -/
def packed (bytes : Bytes) : Part := ⟨true, word bytes.length ++ padRight bytes⟩

/-- A sequence of variable length with its length in front. -/
def counted (parts : List Part) : Part := ⟨true, word parts.length ++ encodeParts parts⟩

/-- A sequence of fixed length has a fixed size if all its parts have one. -/
def joined (parts : List Part) : Part := ⟨parts.any fun part => part.isDynamic, encodeParts parts⟩

@[simp] theorem length_word (n : ℕ) : (word n).length = 32 := by
  rw [word, List.length_reverse, length_leBytes]

theorem leBytes_leNat (bytes : Bytes) : leBytes bytes.length (leNat bytes) = bytes := by
  induction bytes with
  | nil => rfl
  | cons b rest ih =>
    have hb := b.toNat_lt
    have hmod : (b.toNat + 256 * leNat rest) % 256 = b.toNat := by omega
    have hdiv : (b.toNat + 256 * leNat rest) / 256 = leNat rest := by omega
    rw [List.length_cons, leBytes_succ, leNat, hmod, hdiv, ih, UInt8.ofNat_toNat]

theorem beNat_eq_leNat_reverse (bytes : Bytes) : beNat bytes = leNat bytes.reverse := by
  induction bytes using List.reverseRecOn with
  | nil => rfl
  | append_singleton bytes b ih =>
    rw [List.reverse_append, List.reverse_singleton, List.singleton_append, leNat, ← ih]
    simp only [beNat, List.foldl_append, List.foldl_cons, List.foldl_nil]
    omega

theorem leNat_lt (bytes : Bytes) : leNat bytes < 256 ^ bytes.length := by
  induction bytes with
  | nil => simp [leNat]
  | cons b rest ih =>
    have hb := b.toNat_lt
    rw [leNat, List.length_cons, Nat.pow_succ]
    omega

/-- Thirty-two bytes are the word of their number. -/
theorem word_beNat {bytes : Bytes} (h : bytes.length = 32) : word (beNat bytes) = bytes := by
  have hlength : bytes.reverse.length = 32 := by rw [List.length_reverse, h]
  rw [word, beNat_eq_leNat_reverse, ← hlength, leBytes_leNat, List.reverse_reverse]

theorem beNat_lt {bytes : Bytes} (h : bytes.length = 32) : beNat bytes < 2 ^ 256 := by
  have hlt := leNat_lt bytes.reverse
  rw [List.length_reverse, h] at hlt
  rw [beNat_eq_leNat_reverse]
  exact hlt.trans_eq (by norm_num)

theorem beNat_word {n : ℕ} (h : n < 2 ^ 256) : beNat (word n) = n := by
  rw [beNat_eq_leNat_reverse, word, List.reverse_reverse, leNat_leBytes]
  exact Nat.mod_eq_of_lt (h.trans_eq (by norm_num))

/-- A small number needs only the last bytes of a word. -/
theorem word_eq_of_lt {len n : ℕ} (hlen : len ≤ 32) (h : n < 256 ^ len) :
    word n = List.replicate (32 - len) 0 ++ (leBytes len n).reverse := by
  have hsplit : leBytes 32 n = leBytes len n ++ List.replicate (32 - len) 0 := by
    apply List.ext_getElem
    · simp only [length_leBytes, List.length_append, List.length_replicate]
      omega
    · intro i hi _
      rw [length_leBytes] at hi
      simp only [leBytes, List.getElem_map, List.getElem_range, List.getElem_append,
        List.length_map, List.length_range, List.getElem_replicate]
      split
      · rfl
      · rename_i hlt
        have hle : 256 ^ len ≤ 256 ^ i := Nat.pow_le_pow_right (by norm_num) (by omega)
        rw [Nat.div_eq_of_lt (h.trans_le hle)]
        rfl
  rw [word, hsplit, List.reverse_append, List.reverse_replicate]

theorem encodeParts_singleton (bytes : Bytes) : encodeParts [⟨true, bytes⟩] = word 32 ++ bytes := by
  simp [encodeParts, heads, tails, Part.headSize]

/-- A sequence of one empty string reads like a string of 32 zeros. -/
theorem joined_packed_nil : joined [packed []] = packed (List.replicate 32 0) := by decide

end OpMove.HeadTail
