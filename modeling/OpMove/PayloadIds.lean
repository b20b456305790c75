import OpMove.BlockStore

/-!
Payload ids. What is hashed for a request is the concatenation of its head, timestamp, randao
value and fee recipient, all of fixed width, the RLP list of its withdrawals, and the beacon
root. The concatenation is read back in one way, so two requests with the same bytes agree in
every field that is hashed; the transactions and the gas limit are not.
-/

namespace OpMove.PayloadIds

open Primitives Transactions BlockBuilding BlockAgreement Multimaps BlockStore

section Inputs

structure NewPayloadIdInput where
  parent : B256
  timestamp : ℕ
  random : B256
  feeRecipient : Address
  withdrawals : List Withdrawal
  beaconRoot : Option B256
  version : UInt8

namespace NewPayloadIdInput

def newV3 (parent : B256) (timestamp : ℕ) (random : B256) (feeRecipient : Address) :
    NewPayloadIdInput :=
  ⟨parent, timestamp, random, feeRecipient, [], none, 3⟩

def withWithdrawals (input : NewPayloadIdInput) (withdrawals : List Withdrawal) :
    NewPayloadIdInput :=
  { input with withdrawals := withdrawals }

def withBeaconRoot (input : NewPayloadIdInput) (beaconRoot : B256) : NewPayloadIdInput :=
  { input with beaconRoot := some beaconRoot }

end NewPayloadIdInput

def toPayloadIdInput (payload : Payload) (head : B256) : NewPayloadIdInput :=
  ((NewPayloadIdInput.newV3 head payload.timestamp payload.prevRandao
    payload.suggestedFeeRecipient).withBeaconRoot payload.parentBeaconBlockRoot).withWithdrawals
      payload.withdrawals

def wordBytes (word : B256) : Bytes := (leBytes 32 word.toNat).reverse

/-- What `new_payload_id` feeds to the hasher, in order. -/
def hashedBytes (input : NewPayloadIdInput) : Bytes :=
  wordBytes input.parent ++ ((leBytes 8 input.timestamp).reverse ++
    (wordBytes input.random ++ (addressBytes input.feeRecipient ++
      (Rlp.encodeList (input.withdrawals.map Withdrawal.encode) ++
        (input.beaconRoot.map wordBytes).getD []))))

/-- The first eight bytes of the hash, with the version in place of the first one. -/
def newPayloadId (sha256 : Bytes → Bytes) (input : NewPayloadIdInput) : ℕ :=
  beNat ((sha256 (hashedBytes input)).set 0 input.version |>.take 8)

end Inputs

section Reading

theorem wordBytes_inj {a b : B256} (h : wordBytes a = wordBytes b) : a = b :=
  BitVec.eq_of_toNat_eq (leBytes_inj a.isLt b.isLt (List.reverse_injective h))

theorem length_encodeNat_le (n : BitVec 64) : (Rlp.encodeNat n.toNat).length ≤ 9 := by
  have hbytes : (Rlp.beBytes n.toNat).length ≤ 8 := Rlp.length_beBytes_le n.isLt
  have hle := Rlp.length_encodeString_le (hbytes.trans (by omega))
  exact hle.trans (by omega)

/-- A withdrawal can be read off the front of any byte string. -/
theorem selfDelimiting_encode : Rlp.SelfDelimiting (fun _ => True) Withdrawal.encode := by
  have hword : ∀ n : BitVec 64, n.toNat < 256 ^ 55 := fun n => n.isLt.trans (by norm_num)
  refine Rlp.selfDelimiting_encodeList ?_ ?_
  · refine ⟨fun {a b x y} _ _ h => ?_⟩
    simp only [List.flatten_cons, List.flatten_nil, List.append_nil, List.append_assoc] at h
    obtain ⟨hindex, h⟩ := Rlp.selfDelimiting_encodeNat.read (hword _) (hword _) h
    obtain ⟨hvalidator, h⟩ := Rlp.selfDelimiting_encodeNat.read (hword _) (hword _) h
    obtain ⟨haddress, h⟩ := Rlp.selfDelimiting_encodeString.read
      (by simp [length_addressBytes]) (by simp [length_addressBytes]) h
    obtain ⟨hamount, hrest⟩ := Rlp.selfDelimiting_encodeNat.read (hword _) (hword _) h
    obtain ⟨⟩ := a
    obtain ⟨⟩ := b
    obtain rfl := BitVec.eq_of_toNat_eq hindex
    obtain rfl := BitVec.eq_of_toNat_eq hvalidator
    obtain rfl := BitVec.eq_of_toNat_eq hamount
    obtain rfl := addressBytes_inj haddress
    exact ⟨rfl, hrest⟩
  · intro a _
    have hindex := length_encodeNat_le a.index
    have hvalidator := length_encodeNat_le a.validatorIndex
    have hamount := length_encodeNat_le a.amount
    have haddress := Rlp.length_encodeString_le ((length_addressBytes a.address).trans_le
      (show 20 ≤ 55 by omega))
    rw [length_addressBytes] at haddress
    simp only [List.flatten_cons, List.flatten_nil, List.append_nil, List.length_append]
    omega

/-- The lengths tell where the list of withdrawals ends and the beacon root begins. -/
theorem withdrawals_inj {as bs : List Withdrawal} {x y : Bytes} (hlen : x.length = y.length)
    (h : Rlp.encodeList (as.map Withdrawal.encode) ++ x =
      Rlp.encodeList (bs.map Withdrawal.encode) ++ y) : as = bs ∧ x = y := by
  have htotal := congrArg List.length h
  simp only [Rlp.encodeList, List.length_append] at htotal
  have hsize : (as.map Withdrawal.encode).flatten.length =
      (bs.map Withdrawal.encode).flatten.length :=
    (Rlp.header_length_strictMono 0xc0).injective (by omega)
  simp only [Rlp.encodeList, List.append_assoc] at h
  rw [hsize, List.append_cancel_left_eq] at h
  obtain ⟨hbytes, hrest⟩ := List.append_inj h hsize
  refine ⟨selfDelimiting_encode.flatMap_injective ?_ (fun _ _ => trivial) (fun _ _ => trivial) ?_,
    hrest⟩
  · intro a _
    simp [Withdrawal.encode, Rlp.encodeList, Rlp.header_ne_nil]
  · rw [List.flatMap_def, List.flatMap_def]
    exact hbytes

/-- The request of `engine_forkchoiceUpdatedV3`: a head and the attributes of the payload. -/
structure Request where
  head : B256
  payload : Payload

def Request.input (request : Request) : NewPayloadIdInput :=
  toPayloadIdInput request.payload request.head

/-- The requests agree in every field that is hashed. -/
structure SameHashed (first second : Request) : Prop where
  head : first.head = second.head
  timestamp : first.payload.timestamp = second.payload.timestamp
  prevRandao : first.payload.prevRandao = second.payload.prevRandao
  suggestedFeeRecipient :
    first.payload.suggestedFeeRecipient = second.payload.suggestedFeeRecipient
  withdrawals : first.payload.withdrawals = second.payload.withdrawals
  parentBeaconBlockRoot :
    first.payload.parentBeaconBlockRoot = second.payload.parentBeaconBlockRoot

theorem length_wordBytes (word : B256) : (wordBytes word).length = 32 := by
  rw [wordBytes, List.length_reverse, length_leBytes]

/-- The hashed bytes are equal exactly when every hashed field is. -/
theorem hashedBytes_eq_iff {first second : Request} (hfirst : first.payload.timestamp < 2 ^ 64)
    (hsecond : second.payload.timestamp < 2 ^ 64) :
    hashedBytes first.input = hashedBytes second.input ↔ SameHashed first second := by
  constructor
  · intro h
    obtain ⟨hhead, h⟩ := List.append_inj h (by simp only [length_wordBytes])
    obtain ⟨htime, h⟩ := List.append_inj h (by simp only [List.length_reverse, length_leBytes])
    obtain ⟨hrandom, h⟩ := List.append_inj h (by simp only [length_wordBytes])
    obtain ⟨hfee, h⟩ := List.append_inj h (by simp only [length_addressBytes])
    have hroots : ∀ request : Request,
        (request.input.beaconRoot.map wordBytes).getD [] =
          wordBytes request.payload.parentBeaconBlockRoot := fun _ => rfl
    rw [hroots, hroots] at h
    obtain ⟨hwithdrawals, hroot⟩ := withdrawals_inj
      (by simp only [length_wordBytes]) h
    exact ⟨wordBytes_inj hhead, leBytes_inj hfirst hsecond (List.reverse_injective htime),
      wordBytes_inj hrandom, addressBytes_inj hfee, hwithdrawals, wordBytes_inj hroot⟩
  · intro h
    have hinput : first.input = second.input := by
      simp only [Request.input, toPayloadIdInput, h.head, h.timestamp, h.prevRandao,
        h.suggestedFeeRecipient, h.withdrawals, h.parentBeaconBlockRoot]
    rw [hinput]

end Reading

section Requests

theorem le_foldl_beNat (bytes : Bytes) (acc : ℕ) :
    acc ≤ bytes.foldl (fun acc b => acc * 256 + b.toNat) acc := by
  induction bytes generalizing acc with
  | nil => exact le_refl acc
  | cons b rest ih =>
    have hnext := ih (acc * 256 + b.toNat)
    rw [List.foldl_cons]
    omega

/-- An id starts with the version, so it is not the default id. -/
theorem newPayloadId_ne_zero {sha256 : Bytes → Bytes} {input : NewPayloadIdInput}
    (hsha : (sha256 (hashedBytes input)).length = 32) (hversion : input.version ≠ 0) :
    newPayloadId sha256 input ≠ 0 := by
  have hlen : 0 < (sha256 (hashedBytes input)).length := by omega
  obtain ⟨b, rest, hhash⟩ := List.exists_cons_of_length_pos hlen
  rw [newPayloadId, hhash, List.set_cons_zero, List.take_succ_cons, beNat, List.foldl_cons]
  have hle := le_foldl_beNat (rest.take 7) (0 * 256 + input.version.toNat)
  have hpos : input.version.toNat ≠ 0 := by
    intro hzero
    exact hversion (UInt8.toNat_inj.mp hzero)
  omega

variable {σ χ : Type} (env : Env σ χ) (pick : List ExtendedBlock → Option ExtendedBlock)
variable (sha256 : Bytes → Bytes)

def Request.id (request : Request) : ℕ := newPayloadId sha256 request.input

/-- Equal hashed bytes mean equal requests, and a request that finds a block under its id finds
its own. -/
structure Separated (first second : Request) : Prop where
  bytes : hashedBytes first.input = hashedBytes second.input → first = second
  discards : ∀ (before later : App σ) drained built,
    buildBlock env before first.payload (first.id sha256) drained = some built →
      (memoryOf later.blocks).byPayloadId pick (second.id sha256) = some built.block → first = second

variable {pick sha256}

/-- Two requests are separated unless they differ in the transactions or the gas limit only. -/
theorem separated_iff (hpick : Picks pick) {first second : Request}
    (hfirst : first.payload.timestamp < 2 ^ 64) (hsecond : second.payload.timestamp < 2 ^ 64)
    (hsha : first.id sha256 = second.id sha256 →
      hashedBytes first.input = hashedBytes second.input) :
    Separated env pick sha256 first second ↔
      (SameHashed first second → first.payload.transactions = second.payload.transactions ∧
        first.payload.gasLimit = second.payload.gasLimit) := by
  constructor
  · intro hseparated hsame
    rw [hseparated.bytes ((hashedBytes_eq_iff hfirst hsecond).mpr hsame)]
    exact ⟨rfl, rfl⟩
  · intro hrest
    have hbytes : hashedBytes first.input = hashedBytes second.input → first = second := by
      intro h
      have hsame := (hashedBytes_eq_iff hfirst hsecond).mp h
      obtain ⟨htransactions, hgas⟩ := hrest hsame
      obtain ⟨hhead, htime, hrandom, hfee, hwithdrawals, hroot⟩ := hsame
      obtain ⟨head, ⟨⟩⟩ := first
      obtain ⟨head', ⟨⟩⟩ := second
      dsimp only at hhead htime hrandom hfee hwithdrawals hroot htransactions hgas
      subst hhead htime hrandom hfee hwithdrawals hroot htransactions hgas
      rfl
    refine ⟨hbytes, fun before later drained built hbuilt hfound => hbytes (hsha ?_)⟩
    obtain ⟨-, -, -, -, hid, -⟩ := buildBlock_block env hbuilt
    exact hid.symm.trans (mem_payloadIds.mp (Multimap.mem_of_getOne hpick hfound)).2

end Requests

section Samples

/-- A request on top of the sample genesis block. -/
def sampleRequest (timestamp : ℕ) (transactions : List Bytes) : Request :=
  ⟨0, { samplePayload transactions with timestamp := timestamp }⟩

/-- SHA-256 of what is hashed for the requests with timestamps 1 and 2. -/
def sampleSha256 (bytes : Bytes) : Bytes :=
  if bytes = hashedBytes (sampleRequest 1 []).input then
    (leBytes 32 0x93b7b08aea0111f61f2dc50d2ca3bfac0f293534d4ce22be129706e429270be3).reverse
  else if bytes = hashedBytes (sampleRequest 2 []).input then
    (leBytes 32 0x387991fb726fb4d39ae30a6c9768764696ca8425dbd7c050b5d099e02c232b02).reverse
  else List.replicate 32 0

theorem length_sampleSha256 (bytes : Bytes) : (sampleSha256 bytes).length = 32 := by
  unfold sampleSha256
  split_ifs <;> simp

/-- A request with a transaction is discarded because one without was built. -/
theorem transactions_not_hashed :
    sampleRequest 1 [] ≠ sampleRequest 1 [sampleBytes] ∧
      hashedBytes (sampleRequest 1 []).input = hashedBytes (sampleRequest 1 [sampleBytes]).input ∧
      (∃ next, buildInMemory sampleEnv List.head? sampleApp (samplePayload [])
          ((sampleRequest 1 []).id sampleSha256) [] = some next ∧
        buildInMemory sampleEnv List.head? next (samplePayload [sampleBytes])
          ((sampleRequest 1 [sampleBytes]).id sampleSha256) [] = some next ∧
        next.transactions = []) ∧
      ¬ Separated sampleEnv List.head? sampleSha256 (sampleRequest 1 [])
        (sampleRequest 1 [sampleBytes]) := by
  have hne : sampleRequest 1 [] ≠ sampleRequest 1 [sampleBytes] := by
    intro h
    have htransactions := congrArg (fun request => request.payload.transactions.length) h
    simp [sampleRequest, samplePayload] at htransactions
  have hbytes : hashedBytes (sampleRequest 1 []).input =
      hashedBytes (sampleRequest 1 [sampleBytes]).input := rfl
  have hfirst : (buildInMemory sampleEnv List.head? sampleApp (samplePayload [])
      ((sampleRequest 1 []).id sampleSha256) []).map (fun next => (next.transactions,
        ((memoryOf next.blocks).byPayloadId List.head?
          ((sampleRequest 1 [sampleBytes]).id sampleSha256)).isSome)) = some ([], true) := by
    decide +kernel
  obtain ⟨next, hnext, hpair⟩ := Option.map_eq_some_iff.mp hfirst
  obtain ⟨htransactions, hknown⟩ := Prod.mk.inj hpair
  have hsecond : buildInMemory sampleEnv List.head? next (samplePayload [sampleBytes])
      ((sampleRequest 1 [sampleBytes]).id sampleSha256) [] = some next := if_pos hknown
  exact ⟨hne, hbytes, ⟨next, hnext, hsecond, htransactions⟩, fun h => hne (h.bytes hbytes)⟩

theorem separated_timestamps :
    Separated sampleEnv List.head? sampleSha256 (sampleRequest 1 [sampleBytes])
      (sampleRequest 2 [sampleBytes]) := by
  refine (separated_iff sampleEnv picks_head (by decide) (by decide) ?_).mpr ?_
  · intro h
    have hne : (sampleRequest 1 [sampleBytes]).id sampleSha256 ≠
        (sampleRequest 2 [sampleBytes]).id sampleSha256 := by decide +kernel
    exact absurd h hne
  · intro hsame
    exact absurd hsame.timestamp (by decide)

end Samples

end OpMove.PayloadIds
