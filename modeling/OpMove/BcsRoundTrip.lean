import OpMove.AbiShapes
import OpMove.HeadTail

/-!
Serialised Move values are read back. The serialisation is by the value alone and the reading by
a layout alone, so a reader that stands at the bytes of a value of its layout takes exactly these
bytes, whatever follows them.
-/

namespace OpMove.BcsRoundTrip

open Primitives MoveTypes AbiShapes HeadTail

section Prefixes

/-- A small length is one byte. -/
theorem readUleb_of_lt (fuel : ℕ) {n : ℕ} (h : n < 128) (rest : Bytes) :
    readUleb (fuel + 1) (ulebBytes (fuel + 1) n ++ rest) = some (n, rest) := by
  have hbyte : (UInt8.ofNat n).toNat = n := by
    rw [UInt8.toNat_ofNat']
    omega
  simp [ulebBytes, readUleb, h, hbyte]

/-- The length in front of a sequence is read back. -/
theorem readUleb_ulebBytes (fuel n : ℕ) (h : n < 128 ^ (fuel + 1)) (rest : Bytes) :
    readUleb (fuel + 1) (ulebBytes (fuel + 1) n ++ rest) = some (n, rest) := by
  induction fuel generalizing n with
  | zero => exact readUleb_of_lt 0 (by simpa using h) rest
  | succ fuel ih =>
    by_cases hsmall : n < 128
    · exact readUleb_of_lt (fuel + 1) hsmall rest
    · have hbyte : (UInt8.ofNat (128 + n % 128)).toNat = 128 + n % 128 := by
        rw [UInt8.toNat_ofNat']
        omega
      have hhigh : n / 128 < 128 ^ (fuel + 1) := by
        rw [Nat.pow_succ] at h
        omega
      have hvalue : 128 + n % 128 - 128 + 128 * (n / 128) = n := by omega
      have hlarge : ¬ 128 + n % 128 < 128 := by omega
      rw [ulebBytes, if_neg hsmall, List.cons_append, readUleb, hbyte, if_neg hlarge, ih _ hhigh]
      simp only [Option.bind_eq_bind, Option.bind_some, hvalue]

theorem take_append_of_length {bytes : Bytes} {n : ℕ} (h : bytes.length = n) (rest : Bytes) :
    (bytes ++ rest).take n = bytes ∧ (bytes ++ rest).drop n = rest := by
  subst h
  exact ⟨List.take_left, List.drop_left⟩

end Prefixes

section Layouts

/-- Values of the layout are read back from what they are serialised to. -/
def Decodes (layout : MoveTypeLayout) : Prop :=
  ∀ value bytes rest, HasLayout layout value → simpleSerialize value = some bytes →
    decodeLayout layout (bytes ++ rest) = some (value, rest)

def FieldsDecode (fields : List MoveTypeLayout) : Prop :=
  ∀ values bytes rest, HaveLayouts fields values → serializeAll values = some bytes →
    decodeFields fields (bytes ++ rest) = some (values, rest)

/-- A reader of the right width takes one word. -/
theorem decodePrimitive_append {type : PrimitiveType} {bytes : Bytes}
    (h : bytes.length = type.width) (rest : Bytes) :
    decodePrimitive type (bytes ++ rest) =
      (decodePrimitive type bytes).map fun read => (read.1, rest) := by
  obtain ⟨htake, hdrop⟩ := take_append_of_length h rest
  obtain ⟨htake', hdrop'⟩ := take_append_of_length h []
  rw [List.append_nil] at htake' hdrop'
  have hlong : ¬ (bytes ++ rest).length < type.width := by
    rw [List.length_append]
    omega
  have hlong' : ¬ bytes.length < type.width := by omega
  unfold decodePrimitive
  rw [if_neg hlong, if_neg hlong']
  simp only [htake, hdrop, htake', hdrop']
  cases type with
  | bool => split_ifs <;> rfl
  | signer =>
    dsimp only
    split <;> rfl
  | _ => rfl

/-- The little-endian bytes of a number give it back. -/
theorem ofNat_leNat_leBytes {w : ℕ} (len : ℕ) (hw : w = 8 * len) (x : BitVec w) :
    BitVec.ofNat w (leNat (leBytes len x.toNat)) = x := by
  subst hw
  have hlt : x.toNat < 256 ^ len := by
    have hpow : 256 ^ len = 2 ^ (8 * len) := by rw [Nat.pow_mul]
    rw [hpow]
    exact x.isLt
  rw [leNat_leBytes, Nat.mod_eq_of_lt hlt, BitVec.ofNat_toNat, BitVec.setWidth_eq]

theorem ofNat_beNat_word (x : AccountAddress) :
    BitVec.ofNat 256 (beNat (leBytes 32 x.toNat).reverse) = x := by
  rw [beNat_eq_leNat_reverse, List.reverse_reverse]
  exact ofNat_leNat_leBytes 32 rfl x

/-- A primitive value is one word of its width. -/
theorem decodePrimitive_word {type : PrimitiveType} {value : MoveValue} {bytes : Bytes}
    (hlayout : HasLayout (.primitive type) value) (hbytes : simpleSerialize value = some bytes) :
    bytes.length = type.width ∧ decodePrimitive type bytes = some (value, []) := by
  cases type <;> cases value <;> try exact hlayout.elim
  all_goals
    obtain rfl := Option.some.inj hbytes
  case bool.bool x => cases x <;> exact ⟨rfl, rfl⟩
  case u8.u8 x => exact ⟨rfl, by simp [decodePrimitive, PrimitiveType.width, leNat]⟩
  case address.address x =>
    refine ⟨by simp [PrimitiveType.width], ?_⟩
    simp [decodePrimitive, PrimitiveType.width, List.take_of_length_le, ofNat_beNat_word]
  case signer.signer x =>
    refine ⟨by simp [PrimitiveType.width], ?_⟩
    simp [decodePrimitive, PrimitiveType.width, List.take_of_length_le, ofNat_beNat_word]
  -- the wider integers
  all_goals
    refine ⟨length_leBytes _ _, ?_⟩
    simp [decodePrimitive, PrimitiveType.width, List.take_of_length_le, ofNat_leNat_leBytes]

theorem decodes_primitive (type : PrimitiveType) : Decodes (.primitive type) := by
  intro value bytes rest hlayout hbytes
  obtain ⟨hlength, hword⟩ := decodePrimitive_word hlayout hbytes
  rw [decodeLayout, decodePrimitive_append hlength, hword]
  rfl

theorem decodeMany_serializeAll {layout : MoveTypeLayout} (ih : Decodes layout)
    (values : List MoveValue) {bytes : Bytes} (rest : Bytes)
    (hlayout : ∀ value ∈ values, HasLayout layout value)
    (hbytes : serializeAll values = some bytes) :
    decodeMany (decodeLayout layout) values.length (bytes ++ rest) = some (values, rest) := by
  induction values generalizing bytes with
  | nil =>
    obtain rfl := Option.some.inj hbytes
    rfl
  | cons value values ihvalues =>
    simp only [serializeAll, Option.bind_eq_bind, Option.bind_eq_some_iff, Option.some.injEq]
      at hbytes
    obtain ⟨head, hhead, tail, htail, rfl⟩ := hbytes
    have hfirst := ih value head (tail ++ rest) (hlayout value (by simp)) hhead
    have hothers := ihvalues (fun other hmem => hlayout other (by simp [hmem])) htail
    rw [List.append_assoc, List.length_cons, decodeMany, hfirst]
    simp [hothers]

theorem decodes_vector {inner : MoveTypeLayout} (ih : Decodes inner) : Decodes (.vector inner) := by
  intro value bytes rest hlayout hbytes
  cases value <;> try exact hlayout.elim
  rename_i elements
  rw [HasLayout] at hlayout
  rw [simpleSerialize] at hbytes
  split_ifs at hbytes with hlength
  simp only [Option.bind_eq_bind, Option.bind_eq_some_iff, Option.some.injEq] at hbytes
  obtain ⟨body, hbody, rfl⟩ := hbytes
  have hfits : elements.length < 128 ^ (4 + 1) := by
    unfold maxSequenceLength at hlength
    omega
  have hcount := readUleb_ulebBytes 4 elements.length hfits (body ++ rest)
  have helements := decodeMany_serializeAll ih elements rest hlayout hbody
  rw [decodeLayout, List.append_assoc, hcount]
  simp [helements]

theorem fieldsDecode_cons {field : MoveTypeLayout} {fields : List MoveTypeLayout}
    (ih : Decodes field) (ihfields : FieldsDecode fields) : FieldsDecode (field :: fields) := by
  intro values bytes rest hlayout hbytes
  cases values with
  | nil => exact hlayout.elim
  | cons value values =>
    obtain ⟨hfirst, hothers⟩ := hlayout
    simp only [serializeAll, Option.bind_eq_bind, Option.bind_eq_some_iff, Option.some.injEq]
      at hbytes
    obtain ⟨head, hhead, tail, htail, rfl⟩ := hbytes
    rw [List.append_assoc, decodeFields, ih value head (tail ++ rest) hfirst hhead]
    simp [ihfields values tail rest hothers htail]

theorem fieldsDecode_nil : FieldsDecode [] := by
  intro values bytes rest hlayout hbytes
  cases values with
  | nil =>
    obtain rfl := Option.some.inj hbytes
    rfl
  | cons value values => exact hlayout.elim

mutual

/-- Every layout reads back the values it has. -/
theorem decodes : (layout : MoveTypeLayout) → Decodes layout
  | .primitive type => decodes_primitive type
  | .vector inner => decodes_vector (decodes inner)
  | .structUntagged fields => by
      intro value bytes rest hlayout hbytes
      cases value <;> try exact hlayout.elim
      rw [decodeLayout, fieldsDecode fields _ bytes rest hlayout hbytes]
      rfl
  | .structWithTypes _ fields => by
      intro value bytes rest hlayout hbytes
      cases value <;> try exact hlayout.elim
      rw [decodeLayout, fieldsDecode fields _ bytes rest hlayout hbytes]
      rfl
  | .structVariants => fun _ _ _ hlayout => hlayout.elim
  | .native inner => fun value bytes rest hlayout hbytes => by
      rw [HasLayout] at hlayout
      rw [decodeLayout]
      exact decodes inner value bytes rest hlayout hbytes

theorem fieldsDecode : (fields : List MoveTypeLayout) → FieldsDecode fields
  | [] => fieldsDecode_nil
  | field :: fields => fieldsDecode_cons (decodes field) (fieldsDecode fields)

end

/-- What a value of the layout is serialised to is read as the value. -/
theorem deserialize_simpleSerialize {layout : MoveTypeLayout} {value : MoveValue} {bytes : Bytes}
    (hlayout : HasLayout layout value) (hbytes : simpleSerialize value = some bytes) :
    deserialize layout bytes = some value := by
  have hread := decodes layout value bytes [] hlayout hbytes
  rw [List.append_nil] at hread
  rw [deserialize, hread]

end Layouts

end OpMove.BcsRoundTrip
