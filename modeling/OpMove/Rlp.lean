import Mathlib.Data.Nat.Digits.Lemmas

/-!
Recursive length prefixes. A code is self-delimiting on a set of values when each of them can
be read off the front of any string that starts with its codeword; such codes compose, and a
concatenation of nonempty codewords is read back in one way. Byte strings of up to 55 bytes,
numbers of that many bytes and short lists are encoded so. The length of a list of any size
together with its header is strictly monotone in the size. Short strings are decoded again.
-/

namespace OpMove.Rlp

section Codes

variable {α β γ : Type}

structure SelfDelimiting (valid : α → Prop) (encode : α → List β) : Prop where
  read : ∀ {a b x y}, valid a → valid b → encode a ++ x = encode b ++ y → a = b ∧ x = y

namespace SelfDelimiting

variable {valid : α → Prop} {encode : α → List β}

theorem comp (h : SelfDelimiting valid encode) {valid' : γ → Prop} {f : γ → α}
    (hvalid : ∀ c, valid' c → valid (f c))
    (hinj : ∀ c d, valid' c → valid' d → f c = f d → c = d) :
    SelfDelimiting valid' fun c => encode (f c) := by
  refine ⟨fun {c d x y} hc hd heq => ?_⟩
  obtain ⟨hsame, hrest⟩ := h.read (hvalid c hc) (hvalid d hd) heq
  exact ⟨hinj c d hc hd hsame, hrest⟩

/-- A concatenation of codewords has one reading. -/
theorem flatMap_injective (h : SelfDelimiting valid encode)
    (hne : ∀ a, valid a → encode a ≠ []) {as bs : List α} (has : ∀ a ∈ as, valid a)
    (hbs : ∀ b ∈ bs, valid b) (heq : as.flatMap encode = bs.flatMap encode) : as = bs := by
  induction as generalizing bs with
  | nil =>
    cases bs with
    | nil => rfl
    | cons b bs =>
      rw [List.flatMap_nil, List.flatMap_cons] at heq
      exact absurd (List.append_eq_nil_iff.mp heq.symm).1 (hne b (hbs b List.mem_cons_self))
  | cons a as ih =>
    cases bs with
    | nil =>
      rw [List.flatMap_nil, List.flatMap_cons] at heq
      exact absurd (List.append_eq_nil_iff.mp heq).1 (hne a (has a List.mem_cons_self))
    | cons b bs =>
      rw [List.flatMap_cons, List.flatMap_cons] at heq
      obtain ⟨rfl, hrest⟩ := h.read (has a List.mem_cons_self) (hbs b List.mem_cons_self) heq
      rw [ih (fun c hc => has c (List.mem_cons_of_mem _ hc))
        (fun c hc => hbs c (List.mem_cons_of_mem _ hc)) hrest]

end SelfDelimiting

end Codes

section Encoding

/-- Big-endian bytes of a number, without leading zeros. -/
def beBytes (n : ℕ) : List UInt8 := ((Nat.digits 256 n).map UInt8.ofNat).reverse

/-- The header of a string (`offset` is `0x80`) or of a list (`0xc0`). -/
def header (offset len : ℕ) : List UInt8 :=
  if len ≤ 55 then [UInt8.ofNat (offset + len)]
  else UInt8.ofNat (offset + 55 + (beBytes len).length) :: beBytes len

/-- A single byte below `0x80` stands for itself. -/
def encodeString : List UInt8 → List UInt8
  | [b] => if b.toNat < 0x80 then [b] else header 0x80 1 ++ [b]
  | bytes => header 0x80 bytes.length ++ bytes

def encodeNat (n : ℕ) : List UInt8 := encodeString (beBytes n)

/-- A list of encoded items. -/
def encodeList (items : List (List UInt8)) : List UInt8 :=
  header 0xc0 items.flatten.length ++ items.flatten

theorem beBytes_injective : Function.Injective beBytes := by
  intro m n h
  have hmap := List.reverse_injective h
  have hvals := congrArg (List.map UInt8.toNat) hmap
  rw [List.map_map, List.map_map] at hvals
  have hdigits : ∀ k : ℕ, (Nat.digits 256 k).map (UInt8.toNat ∘ UInt8.ofNat) = Nat.digits 256 k := by
    intro k
    conv_rhs => rw [← List.map_id (Nat.digits 256 k)]
    refine List.map_congr_left fun d hd => ?_
    have hlt := Nat.digits_lt_base (by norm_num) hd
    simp only [Function.comp, id, UInt8.toNat_ofNat']
    omega
  rw [hdigits, hdigits] at hvals
  exact Nat.digits_inj_iff.mp hvals

theorem length_beBytes_le {n k : ℕ} (h : n < 256 ^ k) : (beBytes n).length ≤ k := by
  rw [beBytes, List.length_reverse, List.length_map]
  exact (Nat.digits_length_le_iff (by norm_num) n).mpr h

/-- The header of a short string or list is one byte, which tells the length. -/
theorem header_short {offset len : ℕ} (h : len ≤ 55) :
    header offset len = [UInt8.ofNat (offset + len)] := if_pos h

theorem toNat_ofNat_add {offset len : ℕ} (hlen : len ≤ 55) (hoffset : offset ≤ 0xc0) :
    (UInt8.ofNat (offset + len)).toNat = offset + len := by
  rw [UInt8.toNat_ofNat']
  omega

theorem encodeString_cases (bytes : List UInt8) :
    (∃ b, bytes = [b] ∧ b.toNat < 0x80 ∧ encodeString bytes = [b]) ∨
      encodeString bytes = header 0x80 bytes.length ++ bytes := by
  match bytes with
  | [] => exact Or.inr rfl
  | [b] =>
    by_cases hb : b.toNat < 0x80
    · exact Or.inl ⟨b, rfl, hb, if_pos hb⟩
    · exact Or.inr (if_neg hb)
  | b :: c :: rest => exact Or.inr rfl

theorem header_ne_nil (offset len : ℕ) : header offset len ≠ [] := by
  unfold header
  split_ifs <;> simp

theorem length_encodeString_le {bytes : List UInt8} (h : bytes.length ≤ 55) :
    (encodeString bytes).length ≤ bytes.length + 1 := by
  rcases encodeString_cases bytes with ⟨b, rfl, -, hb⟩ | hb
  · simp [hb]
  · rw [hb, header_short h, List.length_append, List.length_singleton]
    omega

theorem selfDelimiting_encodeString :
    SelfDelimiting (fun bytes : List UInt8 => bytes.length ≤ 55) encodeString := by
  refine ⟨fun {a b x y} ha hb h => ?_⟩
  have hbyte : ∀ {c : UInt8} {len : ℕ}, len ≤ 55 → c.toNat < 0x80 →
      c = UInt8.ofNat (0x80 + len) → False := by
    intro c len hlen hc heq
    have hval := congrArg UInt8.toNat heq
    rw [toNat_ofNat_add hlen (by omega)] at hval
    omega
  rcases encodeString_cases a with ⟨c, rfl, hc, hca⟩ | hca <;>
    rcases encodeString_cases b with ⟨d, rfl, hd, hdb⟩ | hdb
  · rw [hca, hdb] at h
    obtain ⟨rfl, rfl⟩ := List.cons.inj h
    exact ⟨rfl, rfl⟩
  · rw [hca, hdb, header_short hb] at h
    exact (hbyte hb hc (List.cons.inj h).1).elim
  · rw [hca, hdb, header_short ha] at h
    exact (hbyte ha hd (List.cons.inj h).1.symm).elim
  · rw [hca, hdb, header_short ha, header_short hb] at h
    obtain ⟨hhead, hrest⟩ := List.cons.inj h
    have hval := congrArg UInt8.toNat hhead
    rw [toNat_ofNat_add ha (by omega), toNat_ofNat_add hb (by omega)] at hval
    exact List.append_inj hrest (by omega)

theorem selfDelimiting_encodeNat : SelfDelimiting (fun n => n < 256 ^ 55) encodeNat :=
  selfDelimiting_encodeString.comp (fun _ h => length_beBytes_le h)
    fun _ _ _ _ h => beBytes_injective h

/-- A short list of items that can be read back. -/
theorem selfDelimiting_encodeList {α : Type} {valid : α → Prop} {items : α → List (List UInt8)}
    (h : SelfDelimiting valid fun a => (items a).flatten)
    (hshort : ∀ a, valid a → (items a).flatten.length ≤ 55) :
    SelfDelimiting valid fun a => encodeList (items a) := by
  refine ⟨fun {a b x y} ha hb heq => ?_⟩
  simp only [encodeList, header_short (hshort a ha), header_short (hshort b hb)] at heq
  exact h.read ha hb (List.cons.inj heq).2

/-- Longer contents have a longer encoding. -/
theorem header_length_strictMono (offset : ℕ) :
    StrictMono fun len => (header offset len).length + len := by
  intro m n h
  have hbytes : (beBytes m).length ≤ (beBytes n).length := by
    simp only [beBytes, List.length_reverse, List.length_map]
    exact Nat.le_length_digits_le 256 m n h.le
  simp only [header]
  split_ifs <;> simp only [List.length_cons, List.length_nil] <;> omega

end Encoding

section Decoding

/-- Reads a string of up to 55 bytes that takes the whole input; only the shortest encoding of
a string is read. -/
def decodeString : List UInt8 → Option (List UInt8)
  | [] => none
  | [b] => if b.toNat < 0x80 then some [b] else if b.toNat = 0x80 then some [] else none
  | [head, b] => if head.toNat = 0x81 ∧ 0x80 ≤ b.toNat then some [b] else none
  | head :: rest => if head.toNat = 0x80 + rest.length ∧ rest.length ≤ 55 then some rest else none

theorem decodeString_encodeString {bytes : List UInt8} (h : bytes.length ≤ 55) :
    decodeString (encodeString bytes) = some bytes := by
  match bytes with
  | [] => rfl
  | [b] =>
    by_cases hb : b.toNat < 0x80
    · simp [encodeString, decodeString, hb]
    · have hle : 0x80 ≤ b.toNat := by omega
      rw [encodeString, if_neg hb, header_short (by omega)]
      simp [decodeString, hle]
  | b :: c :: rest =>
    have hhead := toNat_ofNat_add h (show 0x80 ≤ 0xc0 by omega)
    rw [encodeString, header_short h, List.singleton_append, decodeString]
    · rw [if_pos ⟨hhead, h⟩]
    all_goals simp

/-- The shortest bytes of a number do not start with a zero. -/
theorem head?_beBytes (n : ℕ) : (beBytes n).head? ≠ some 0 := by
  intro h
  rw [beBytes, List.head?_reverse, List.getLast?_map, Option.map_eq_some_iff] at h
  obtain ⟨d, hd, hzero⟩ := h
  have hlt : d < 256 := Nat.digits_lt_base (by norm_num) (List.mem_of_getLast? hd)
  have hval := congrArg UInt8.toNat hzero
  rw [UInt8.toNat_ofNat', Nat.mod_eq_of_lt hlt] at hval
  have hne : Nat.digits 256 n ≠ [] := by
    intro hnil
    rw [hnil] at hd
    cases hd
  have hlast := Nat.getLast_digit_ne_zero 256 (Nat.digits_ne_nil_iff_ne_zero.mp hne)
  rw [List.getLast?_eq_some_getLast hne, Option.some.injEq] at hd
  exact hlast (hd.trans hval)

end Decoding

end OpMove.Rlp
