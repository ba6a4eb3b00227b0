import Vds.Kernel.Canonical
import Vds.LogSync.Build
import Vds.LogSync.DagInvariant

/-! What identifies a block. The id is the hash of all bytes, the signature covers the fields only,
and `create` takes more than one form of the same fields; of the canonical forms there is one. -/

namespace Vds.LogSync

open BinarySerializer BinaryDeserializer StateError

/-! ### Lists of items -/

section Items

variable {α : Type} {item : BinaryDeserializer α} {put : α → ConstDataBuffer} {P : α → Prop}
  (hitem : ∀ {d rest x}, item d = .ok x rest ↔ P x ∧ d = put x ++ rest)
include hitem

theorem getMany_eq_ok {n : Nat} {d rest : ConstDataBuffer} {xs : List α} :
    getMany item n d = .ok xs rest ↔
      xs.length = n ∧ (∀ x ∈ xs, P x) ∧ d = xs.flatMap put ++ rest := by
  induction n generalizing d rest xs with
  | zero =>
    rw [List.length_eq_zero_iff]
    constructor
    · intro h
      cases h
      exact ⟨rfl, fun _ hx => absurd hx List.not_mem_nil, rfl⟩
    · rintro ⟨rfl, -, rfl⟩
      rfl
  | succ n ih =>
    unfold getMany
    rw [bind_eq_ok]
    constructor
    · rintro ⟨x, d₁, hx, h⟩
      obtain ⟨hp, rfl⟩ := hitem.mp hx
      obtain ⟨xs, d₂, hxs, hdone⟩ := bind_eq_ok.mp h
      obtain ⟨hl, hps, rfl⟩ := ih.mp hxs
      cases hdone
      refine ⟨congrArg (· + 1) hl, List.forall_mem_cons.mpr ⟨hp, hps⟩, ?_⟩
      rw [List.flatMap_cons, List.append_assoc]
    · rintro ⟨hl, hps, rfl⟩
      obtain ⟨x, xs, rfl⟩ := List.exists_cons_of_length_eq_add_one hl
      obtain ⟨hp, hps⟩ := List.forall_mem_cons.mp hps
      refine ⟨x, xs.flatMap put ++ rest, hitem.mpr ⟨hp, ?_⟩, ?_⟩
      · rw [List.flatMap_cons, List.append_assoc]
      · rw [bind_of_ok (ih.mpr ⟨Nat.succ_injective hl, hps, rfl⟩)]
        rfl

end Items

theorem getMany_of_getMany {α : Type} {item item' : BinaryDeserializer α}
    (hitem : ∀ {d rest x}, item d = .ok x rest → item' d = .ok x rest) {n : Nat}
    {d rest : ConstDataBuffer} {xs : List α} (h : getMany item n d = .ok xs rest) :
    getMany item' n d = .ok xs rest := by
  induction n generalizing d rest xs with
  | zero => exact h
  | succ n ih =>
    unfold getMany at h ⊢
    obtain ⟨x, d₁, hx, h⟩ := bind_eq_ok.mp h
    obtain ⟨xs, d₂, hxs, h⟩ := bind_eq_ok.mp h
    rw [bind_of_ok (hitem hx), bind_of_ok (ih hxs)]
    exact h

/-- The reader of a set that takes the items in their order only. -/
def getSetAscending : BinaryDeserializer (List ConstDataBuffer) := do
  let count ← readShortest
  let items ← getMany getDataShortest count.toNat
  if SortedMap.Ascending bufferLess items then return items
  else throw (.runtimeError "Invalid data")

/-- The sets that are read back as they are written. -/
structure FitsSet (items : List ConstDataBuffer) : Prop where
  count : items.length < 2 ^ 64
  sizes : ∀ x ∈ items, x.length ≤ maxData
  ascending : SortedMap.Ascending bufferLess items

theorem getSetAscending_eq_ok {d rest : ConstDataBuffer} {items : List ConstDataBuffer} :
    getSetAscending d = .ok items rest ↔ FitsSet items ∧ d = putAll putData items ++ rest := by
  unfold getSetAscending putAll
  rw [bind_eq_ok]
  constructor
  · rintro ⟨count, d₁, hc, h⟩
    rw [readShortest_eq_ok] at hc
    subst hc
    obtain ⟨xs, d₂, hxs, hdone⟩ := bind_eq_ok.mp h
    obtain ⟨hl, hps, rfl⟩ := (getMany_eq_ok getDataShortest_eq_ok).mp hxs
    split_ifs at hdone with hasc
    · cases hdone
      refine ⟨⟨hl ▸ count.toNat_lt, hps, hasc⟩, ?_⟩
      rw [hl, UInt64.ofNat_toNat, List.append_assoc]
    · cases hdone
  · rintro ⟨hf, rfl⟩
    have hn : (UInt64.ofNat items.length).toNat = items.length := UInt64.toNat_ofNat_of_lt' hf.count
    refine ⟨UInt64.ofNat items.length, items.flatMap putData ++ rest, ?_, ?_⟩
    · rw [readShortest_eq_ok, List.append_assoc]
    · rw [hn, bind_of_ok ((getMany_eq_ok getDataShortest_eq_ok).mpr ⟨rfl, hf.sizes, rfl⟩),
        if_pos hf.ascending]
      rfl

theorem getSet_of_getSetAscending {d rest : ConstDataBuffer} {items : List ConstDataBuffer}
    (h : getSetAscending d = .ok items rest) : TransactionBlock.getSet d = .ok items rest := by
  unfold getSetAscending at h
  unfold TransactionBlock.getSet getVector
  obtain ⟨count, d₁, hc, h⟩ := bind_eq_ok.mp h
  obtain ⟨xs, d₂, hxs, h⟩ := bind_eq_ok.mp h
  split_ifs at h with hasc
  · cases h
    rw [bind_assoc, bind_of_ok (readNumber_of_readShortest hc),
      bind_of_ok (getMany_of_getMany getData_of_getDataShortest hxs)]
    have hset := @SortedMap.emplaceAll_ascending _ _ bufferLess _ _ bufferKey bufferLess_iff [] items
      hasc
    rw [hset]
    rfl
  · cases h

/-! ### Blocks -/

namespace TransactionBlock

/-- The reader of a block that takes each field only as it is written. -/
def getBlockCanonical (id : ConstDataBuffer) : BinaryDeserializer TransactionBlock := do
  let version ← getUInt32
  if version ≠ currentVersion then throw (.runtimeError "Invalid block version")
  else do
    let timePoint ← getUInt64
    -- a time that the clock does not hold comes back as another one
    if toTimeT (fromTimeT timePoint.toInt64) ≠ timePoint.toInt64 then
      throw (.runtimeError "Invalid data")
    else do
      let orderNo ← getUInt64
      let writePublicKeyId ← getDataShortest
      let ancestors ← getSetAscending
      let blockMessages ← getDataShortest
      let signature ← getDataShortest
      return { version, timePoint := fromTimeT timePoint.toInt64, id, orderNo, writePublicKeyId,
               ancestors, blockMessages, signature }

/-- The bytes are a block in its canonical form, with nothing after it. -/
def Canonical (data : ConstDataBuffer) : Prop := ∃ block, getBlockCanonical [] data = .ok block []

/-- The blocks that are read back as they are written. -/
structure Fits (block : TransactionBlock) : Prop where
  version : block.version = currentVersion
  time : fromTimeT (toTimeT block.timePoint) = block.timePoint
  author : block.writePublicKeyId.length ≤ maxData
  ancestors : FitsSet block.ancestors
  messages : block.blockMessages.length ≤ maxData
  signature : block.signature.length ≤ maxData

theorem serialize_append (block : TransactionBlock) (rest : ConstDataBuffer) :
    block.serialize ++ rest = putUInt32 block.version ++ (putUInt64 (toTimeT block.timePoint).toUInt64 ++
      (putUInt64 block.orderNo ++ (putData block.writePublicKeyId ++ (putAll putData block.ancestors ++
        (putData block.blockMessages ++ (putData block.signature ++ rest)))))) := by
  simp only [serialize, signedData, List.append_assoc]

theorem getBlockCanonical_eq_ok {id d rest : ConstDataBuffer} {block : TransactionBlock} :
    getBlockCanonical id d = .ok block rest ↔
      block.id = id ∧ block.Fits ∧ d = block.serialize ++ rest := by
  unfold getBlockCanonical
  rw [bind_eq_ok]
  constructor
  · rintro ⟨version, d₁, hv, h⟩
    rw [getUInt32_eq_ok] at hv
    subst hv
    split_ifs at h with hversion
    · cases h
    obtain ⟨time, d₂, ht, h₁⟩ := bind_eq_ok.mp h
    rw [getUInt64_eq_ok] at ht
    subst ht
    split_ifs at h₁ with htime
    · cases h₁
    obtain ⟨orderNo, d₃, ho, h₂⟩ := bind_eq_ok.mp h₁
    rw [getUInt64_eq_ok] at ho
    subst ho
    obtain ⟨author, d₄, ha, h₃⟩ := bind_eq_ok.mp h₂
    obtain ⟨hauthor, rfl⟩ := getDataShortest_eq_ok.mp ha
    obtain ⟨ancestors, d₅, hs, h₄⟩ := bind_eq_ok.mp h₃
    obtain ⟨hset, rfl⟩ := getSetAscending_eq_ok.mp hs
    obtain ⟨messages, d₆, hm, h₅⟩ := bind_eq_ok.mp h₄
    obtain ⟨hmessages, rfl⟩ := getDataShortest_eq_ok.mp hm
    obtain ⟨signature, d₇, hg, h₆⟩ := bind_eq_ok.mp h₅
    obtain ⟨hsignature, rfl⟩ := getDataShortest_eq_ok.mp hg
    cases h₆
    rw [not_not] at hversion htime
    refine ⟨rfl, ⟨hversion, ?_, hauthor, hset, hmessages, hsignature⟩, ?_⟩
    · change fromTimeT (toTimeT (fromTimeT time.toInt64)) = fromTimeT time.toInt64
      rw [htime]
    · rw [serialize_append]
      simp only [htime, UInt64.toUInt64_toInt64]
  · rintro ⟨rfl, hf, rfl⟩
    have htime : (toTimeT block.timePoint).toUInt64.toInt64 = toTimeT block.timePoint :=
      Int64.toInt64_toUInt64 _
    rw [serialize_append]
    refine ⟨_, _, getUInt32_eq_ok.mpr rfl, ?_⟩
    rw [if_neg (not_not.mpr hf.version), bind_of_ok (getUInt64_eq_ok.mpr rfl), htime, hf.time,
      if_neg (not_not.mpr rfl), bind_of_ok (getUInt64_eq_ok.mpr rfl),
      bind_of_ok (getDataShortest_eq_ok.mpr ⟨hf.author, rfl⟩),
      bind_of_ok (getSetAscending_eq_ok.mpr ⟨hf.ancestors, rfl⟩),
      bind_of_ok (getDataShortest_eq_ok.mpr ⟨hf.messages, rfl⟩),
      bind_of_ok (getDataShortest_eq_ok.mpr ⟨hf.signature, rfl⟩)]
    rfl

theorem getBlock_of_getBlockCanonical {id d rest : ConstDataBuffer} {block : TransactionBlock}
    (h : getBlockCanonical id d = .ok block rest) : getBlock id d = .ok block rest := by
  unfold getBlockCanonical at h
  unfold getBlock
  obtain ⟨version, d₁, hv, h⟩ := bind_eq_ok.mp h
  rw [bind_of_ok hv]
  split_ifs at h ⊢ with hversion
  · exact h
  obtain ⟨time, d₂, ht, h⟩ := bind_eq_ok.mp h
  rw [bind_of_ok ht]
  split_ifs at h with htime
  · cases h
  obtain ⟨orderNo, d₃, ho, h⟩ := bind_eq_ok.mp h
  obtain ⟨author, d₄, ha, h⟩ := bind_eq_ok.mp h
  obtain ⟨ancestors, d₅, hs, h⟩ := bind_eq_ok.mp h
  obtain ⟨messages, d₆, hm, h⟩ := bind_eq_ok.mp h
  obtain ⟨signature, d₇, hg, h⟩ := bind_eq_ok.mp h
  rw [bind_of_ok ho, bind_of_ok (getData_of_getDataShortest ha),
    bind_of_ok (getSet_of_getSetAscending hs), bind_of_ok (getData_of_getDataShortest hm),
    bind_of_ok (getData_of_getDataShortest hg)]
  exact h

/-- A block that fits is read back, whatever follows it. -/
theorem create_serialize_append (crypto : Crypto) {block : TransactionBlock} (hf : block.Fits)
    (rest : ConstDataBuffer) :
    create crypto (block.serialize ++ rest) =
      .ok { block with id := crypto.sha256 (block.serialize ++ rest) } := by
  have h : getBlockCanonical (crypto.sha256 (block.serialize ++ rest)) (block.serialize ++ rest) =
      .ok { block with id := crypto.sha256 (block.serialize ++ rest) } rest :=
    getBlockCanonical_eq_ok.mpr
      ⟨rfl, ⟨hf.version, hf.time, hf.author, hf.ancestors, hf.messages, hf.signature⟩, rfl⟩
  unfold create
  rw [getBlock_of_getBlockCanonical h]

theorem create_serialize (crypto : Crypto) {block : TransactionBlock} (hf : block.Fits) :
    create crypto block.serialize = .ok { block with id := crypto.sha256 block.serialize } := by
  have h := create_serialize_append crypto hf []
  rwa [List.append_nil] at h

theorem canonical_serialize {block : TransactionBlock} (hf : block.Fits) :
    Canonical block.serialize := by
  refine ⟨{ block with id := [] }, getBlockCanonical_eq_ok.mpr ⟨rfl, ?_, ?_⟩⟩
  · exact ⟨hf.version, hf.time, hf.author, hf.ancestors, hf.messages, hf.signature⟩
  · rw [List.append_nil]
    rfl

/-- A canonical block is what the serializer makes of the fields. -/
theorem eq_serialize_of_canonical {crypto : Crypto} {data : ConstDataBuffer} {block : TransactionBlock}
    (hc : Canonical data) (h : create crypto data = .ok block) : data = block.serialize := by
  obtain ⟨b, hb⟩ := hc
  obtain ⟨-, hf, hd⟩ := getBlockCanonical_eq_ok.mp hb
  rw [List.append_nil] at hd
  rw [hd, create_serialize crypto hf] at h
  cases h
  exact hd

/-- Two canonical blocks with the same signature over the same fields are one. -/
theorem eq_of_canonical {crypto : Crypto} {data₁ data₂ : ConstDataBuffer}
    {block₁ block₂ : TransactionBlock} (h₁ : create crypto data₁ = .ok block₁)
    (h₂ : create crypto data₂ = .ok block₂) (hfields : block₁.signedData = block₂.signedData)
    (hsignature : block₁.signature = block₂.signature) (hc₁ : Canonical data₁)
    (hc₂ : Canonical data₂) : data₁ = data₂ ∧ block₁.id = block₂.id := by
  have hd : data₁ = data₂ := by
    rw [eq_serialize_of_canonical hc₁ h₁, eq_serialize_of_canonical hc₂ h₂]
    unfold serialize
    rw [hfields, hsignature]
  subst hd
  rw [h₁] at h₂
  cases h₂
  exact ⟨rfl, rfl⟩

end TransactionBlock

/-! ### One signature, two blocks -/

/-- A block of the first node that issues ten to the wallet. -/
def sampleIssueBlock : TransactionBlock :=
  { version := TransactionBlock.currentVersion, timePoint := 0, id := sampleId 2, orderNo := 2,
    writePublicKeyId := sampleNode 1, ancestors := [sampleId 1],
    blockMessages := (sampleIssue 10).serialize, signature := [2] }

theorem sampleIssueBlock_fits : sampleIssueBlock.Fits where
  version := rfl
  time := by decide +kernel
  author := by decide +kernel
  ancestors := ⟨by decide +kernel, by decide +kernel, by decide +kernel⟩
  messages := by decide +kernel
  signature := by decide +kernel

theorem eq_of_canonical_sample : ∃ block₁ block₂ : TransactionBlock,
    TransactionBlock.create sampleProvider.crypto sampleIssueBlock.serialize = .ok block₁ ∧
      TransactionBlock.create sampleProvider.crypto sampleIssueBlock.serialize = .ok block₂ ∧
      block₁.id = block₂.id := by
  have h := TransactionBlock.create_serialize sampleProvider.crypto sampleIssueBlock_fits
  have hc := TransactionBlock.canonical_serialize sampleIssueBlock_fits
  exact ⟨_, _, h, h, (TransactionBlock.eq_of_canonical h h rfl rfl hc hc).2⟩

/-- One more byte behind the signature makes another block of it, and both are stored. -/
theorem signed_twice : ∃ data₁ data₂ block₁ block₂ key,
    TransactionBlock.create sampleProvider.crypto data₁ = .ok block₁ ∧
      TransactionBlock.create sampleProvider.crypto data₂ = .ok block₂ ∧
      block₁.validate sampleProvider.crypto key = .ok true ∧
      block₂.validate sampleProvider.crypto key = .ok true ∧
      block₁.signedData = block₂.signedData ∧ block₁.signature = block₂.signature ∧
      data₁ ≠ data₂ ∧ block₁.id ≠ block₂.id ∧
      ∃ journal db, Run sampleProvider {} [data₂, data₁, sampleRoot] journal db ∧
        dataOf db block₁.id = some data₁ ∧ dataOf db block₂.id = some data₂ := by
  have hs : (saveAll sampleProvider 9 [sampleRoot, sampleIssueBlock.serialize,
      sampleIssueBlock.serialize ++ [7]] { db := {} }).any (fun t =>
        dataOf t.db (sampleId 2) = some sampleIssueBlock.serialize ∧
          dataOf t.db (sampleId 7) = some (sampleIssueBlock.serialize ++ [7])) = true := by
    decide +kernel
  obtain ⟨t, ht, hd⟩ := (Option.any_eq_true ..).mp hs
  obtain ⟨hd₁, hd₂⟩ := of_decide_eq_true hd
  have hid₁ : sampleProvider.crypto.sha256 sampleIssueBlock.serialize = sampleId 2 := by
    decide +kernel
  have hid₂ : sampleProvider.crypto.sha256 (sampleIssueBlock.serialize ++ [7]) = sampleId 7 := by
    decide +kernel
  have h₁ := TransactionBlock.create_serialize sampleProvider.crypto sampleIssueBlock_fits
  have h₂ := TransactionBlock.create_serialize_append sampleProvider.crypto sampleIssueBlock_fits [7]
  rw [hid₁] at h₁
  rw [hid₂] at h₂
  have hrun := Run.saveAll (t := { db := {} }) .refl ht
  refine ⟨_, _, _, _, ⟨sampleNode 1⟩, h₁, h₂, rfl, rfl, rfl, rfl, ?_, ?_, _, _, hrun, hd₁, hd₂⟩
  · exact fun h => absurd (List.self_eq_append_right.mp h) (List.cons_ne_nil _ _)
  · change sampleId 2 ≠ sampleId 7
    decide

end Vds.LogSync
