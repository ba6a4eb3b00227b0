import Vds.DhtNetwork.ReplicaStorage
import Vds.LogSync.Build

/-! The rows of the replicas stay within the reserved size of their storage, and an exclusive
storage holds only rows of its owner. -/

namespace Vds.DhtNetwork

open StateError NodeState

/-- What the rows of the replicas owe to the storages. -/
structure NodeTables.Fits (tables : NodeTables) : Prop where
  sizes : ∀ key row, tables.localData.lookup key = some row → 0 ≤ row.replicaSize.toInt
  /-- The recorded sizes are within the reserved size, where anything is recorded. -/
  quota : ∀ id storage, tables.nodeStorages.lookup id = some storage →
    (∀ key row, tables.localData.lookup key = some row → row.storageId ≠ id) ∨
      recordedSize tables id ≤ storage.reservedSize.toInt
  exclusive : ∀ id storage key row, tables.nodeStorages.lookup id = some storage →
    tables.localData.lookup key = some row → row.storageId = id →
    storage.usageType = .exclusive → key.2 = storage.ownerId

/-- The storage has room for a replica of the owner. -/
def Room (tables : NodeTables) (owner : ConstDataBuffer) (storageId : ConstDataBuffer) (size : Nat) :
    Prop :=
  size < 2 ^ 63 ∧ ∃ storage, tables.nodeStorages.lookup storageId = some storage ∧
    storage.usable owner = true ∧
    recordedSize tables storageId + size ≤ storage.reservedSize.toInt

variable {tables : NodeTables} {owner : ConstDataBuffer}

theorem recordedSize_nonneg (h : tables.Fits) (id : ConstDataBuffer) :
    0 ≤ recordedSize tables id := by
  unfold recordedSize Table.total
  apply List.sum_nonneg
  intro x hx
  obtain ⟨e, he, rfl⟩ := List.mem_map.1 hx
  have hsize : 0 ≤ e.2.replicaSize.toInt := h.sizes e.1 e.2 (AList.mem_lookup_iff.2 he)
  dsimp only
  split_ifs
  · exact hsize
  · exact le_rfl

theorem dataSize_eq_ok {id : ConstDataBuffer} {size : Int64} (h : dataSize tables id = .ok size) :
    size.toInt = recordedSize tables id := by
  unfold dataSize at h
  dsimp only at h
  split_ifs at h with hrange
  cases h
  exact Int64.toInt_ofInt_of_le hrange.1 hrange.2

/-- The free space of a storage, as the unsigned difference of the two columns. -/
theorem toNat_free {reserved size : Int64} (hsize : 0 ≤ size.toInt) (h : reserved > size) :
    ((reserved - size).toUInt64.toNat : Int) = reserved.toInt - size.toInt := by
  have hlt : size.toInt < reserved.toInt := Int64.lt_iff_toInt_lt.1 h
  have hzero : (0 : Int64) ≤ size := Int64.le_iff_toInt_le.2 (by rwa [Int64.toInt_zero])
  have hle : size ≤ reserved := Int64.le_iff_toInt_le.2 hlt.le
  have hsub : (reserved - size).toInt = reserved.toInt - size.toInt :=
    Int64.toInt_sub_of_le reserved size hzero hle
  have hnonneg : (0 : Int64) ≤ reserved - size := by
    rw [Int64.le_iff_toInt_le, Int64.toInt_zero, hsub]
    omega
  rw [Int64.toNat_toUInt64_of_le hnonneg, Int64.cast_toNatClampNeg _ hnonneg, hsub]

/-- What is chosen so far is no storage, or one that the owner may use with its free space. -/
def Selected.Free (tables : NodeTables) (owner : ConstDataBuffer) (s : Selected) : Prop :=
  s.localPath = [] ∨ ∃ storage, tables.nodeStorages.lookup s.storageId = some storage ∧
    storage.usable owner = true ∧ storage.localPath = s.localPath ∧
    (s.allowedSize.toNat : Int) = storage.reservedSize.toInt - recordedSize tables s.storageId

theorem Selected.Free.offer {s : Selected} (hs : s.Free tables owner) (h : tables.Fits)
    {id : ConstDataBuffer} {storage : NodeStorage} (hid : tables.nodeStorages.lookup id = some storage)
    (husable : storage.usable owner = true) {size : Int64} (hsize : dataSize tables id = .ok size) :
    (s.offer id storage size).Free tables owner := by
  have hrecorded := dataSize_eq_ok hsize
  unfold Selected.offer
  split_ifs with hfree
  · refine .inr ⟨storage, hid, husable, rfl, ?_⟩
    have hnonneg : 0 ≤ size.toInt := hrecorded ▸ recordedSize_nonneg h id
    rw [toNat_free hnonneg hfree.1, hrecorded]
  · exact hs

theorem selectLoop_free (h : tables.Fits) {storages : List (ConstDataBuffer × NodeStorage)}
    (hstorages : ∀ id storage, (id, storage) ∈ storages →
      tables.nodeStorages.lookup id = some storage ∧ storage.usable owner = true)
    {s s' : Selected} (hs : s.Free tables owner)
    (hloop : selectLoop tables storages s = .ok s') : s'.Free tables owner := by
  induction storages generalizing s with
  | nil =>
    cases hloop
    exact hs
  | cons row storages ih =>
    obtain ⟨id, storage⟩ := row
    obtain ⟨hid, husable⟩ := hstorages id storage List.mem_cons_self
    rw [selectLoop] at hloop
    cases hsize : dataSize tables id with
    | error e =>
      rw [hsize] at hloop
      cases hloop
    | ok size =>
      rw [hsize] at hloop
      refine ih (fun id' storage' hm => hstorages id' storage' (List.mem_cons_of_mem _ hm)) ?_ hloop
      exact hs.offer h hid husable hsize

theorem selectStorage_free (h : tables.Fits) {s : Selected}
    (hs : selectStorage tables owner = .ok s) : s.Free tables owner := by
  refine selectLoop_free h ?_ (.inl rfl) hs
  intro id storage hm
  exact Table.mem_select.1 hm

theorem room_of_free {s : Selected} (hs : s.Free tables owner) {size : Nat}
    (hspace : ¬(s.localPath.isEmpty = true ∨ s.allowedSize.toNat < size)) (h : tables.Fits) :
    Room tables owner s.storageId size := by
  push Not at hspace
  obtain ⟨hpath, hsize⟩ := hspace
  obtain hempty | ⟨storage, hid, husable, -, hfree⟩ := hs
  · rw [hempty] at hpath
    exact absurd rfl hpath
  · have hrecorded := recordedSize_nonneg h s.storageId
    have hreserved : storage.reservedSize.toInt < 2 ^ 63 := storage.reservedSize.toInt_lt
    refine ⟨?_, storage, hid, husable, ?_⟩ <;> omega

/-! ### The new row -/

theorem recordedSize_insert {key : ConstDataBuffer × ConstDataBuffer} {row : LocalData}
    (hkey : tables.localData.lookup key = none) (id : ConstDataBuffer) :
    recordedSize { tables with localData := tables.localData.insert key row } id =
      (if row.storageId = id then row.replicaSize.toInt else 0) + recordedSize tables id :=
  Table.total_insert hkey

theorem fits_insert (h : tables.Fits) {dataHash : ConstDataBuffer} {storageId : ConstDataBuffer}
    {size : Nat} (hroom : Room tables owner storageId size)
    (hkey : tables.localData.lookup (dataHash, owner) = none) (path : StdString) (lastAccess : Int64) :
    NodeTables.Fits { tables with
      localData := tables.localData.insert (dataHash, owner)
        ⟨storageId, Int64.ofNat size, path, lastAccess⟩ } := by
  obtain ⟨hsize, storage, hid, husable, hspace⟩ := hroom
  have hof : (Int64.ofNat size).toInt = size := Int64.toInt_ofNat_of_lt hsize
  refine ⟨?_, ?_, ?_⟩
  · intro key row hrow
    rw [Table.lookup_insert_eq] at hrow
    split_ifs at hrow with hk
    · cases hrow
      rw [hof]
      omega
    · exact h.sizes key row hrow
  · intro id storage' hid'
    rw [recordedSize_insert hkey]
    by_cases hsame : storageId = id
    · subst hsame
      have hstorage : storage' = storage := Option.some.inj (hid'.symm.trans hid)
      subst hstorage
      right
      rw [if_pos rfl, hof]
      omega
    · rw [if_neg hsame, zero_add]
      refine (h.quota id storage' hid').imp ?_ fun hle => hle
      intro hnone key row hrow
      rw [Table.lookup_insert_eq] at hrow
      split_ifs at hrow with hk
      · cases hrow
        exact hsame
      · exact hnone key row hrow
  · intro id storage' key row hid' hrow hstorageId hexclusive
    rw [Table.lookup_insert_eq] at hrow
    split_ifs at hrow with hk
    · cases hrow
      cases hstorageId
      have hstorage : storage' = storage := Option.some.inj (hid'.symm.trans hid)
      subst hstorage
      rw [hk]
      simp only [NodeStorage.usable, hexclusive] at husable
      have howner : storage'.ownerId = owner := by simpa using husable
      exact howner.symm
    · exact h.exclusive id storage' key row hid' hrow hstorageId hexclusive

/-! ### The three variants -/

variable {T : NodeTables}

/-- The tables are `T`; what a call does to its files is of no concern here. -/
abbrev Shows (T : NodeTables) (s : NodeState) : Prop := s.tables = T

theorem shows_nextOutcome : Triple (Shows T) nextOutcome (fun _ => Shows T) (fun _ => Shows T) :=
  fun _ h => h

theorem shows_attempt (what : String) :
    Triple (Shows T) (attempt what) (fun _ => Shows T) (fun _ => Shows T) := by
  refine shows_nextOutcome.bind fun outcome => ?_
  cases outcome with
  | done => exact Triple.pure fun _ h => h
  | refused => exact Triple.throw fun _ h => h
  | torn rest => exact Triple.throw fun _ h => h

/-- A select reads the tables. -/
theorem shows_select {α : Type} (rows : NodeTables → α) :
    Triple (Shows T) (select rows) (fun a s => Shows T s ∧ a = rows T) (fun _ => Shows T) := by
  refine (shows_attempt _).bind fun _ => ?_
  refine (Triple.get fun s h => ⟨rfl, h⟩ :
    Triple (Shows T) get (fun a s => a = s ∧ Shows T s) (fun _ => Shows T)).bind fun s => ?_
  refine Triple.pure ?_
  rintro _ ⟨rfl, hs⟩
  exact ⟨hs, congrArg rows hs⟩

theorem shows_writeAll (fn : StdString) (data : ConstDataBuffer) :
    Triple (Shows T) (writeAll fn data) (fun _ => Shows T) (fun _ => Shows T) := by
  refine shows_nextOutcome.bind fun outcome => ?_
  cases outcome with
  | done => exact fun _ h => h
  | refused => exact Triple.throw fun _ h => h
  | torn rest => exact fun _ h => h

theorem shows_fileLength (fn : StdString) :
    Triple (Shows T) (fileLength fn) (fun _ => Shows T) (fun _ => Shows T) := by
  refine (shows_attempt _).bind fun _ => ?_
  refine (Triple.get fun s h => h : Triple (Shows T) get (fun _ => Shows T) (fun _ => Shows T)).bind
    fun s => ?_
  cases s.files.lookup fn with
  | some data => exact Triple.pure fun _ h => h
  | none => exact Triple.throw fun _ h => h

theorem shows_move (source target : StdString) :
    Triple (Shows T) (move source target) (fun _ => Shows T) (fun _ => Shows T) := by
  refine (shows_attempt _).bind fun _ => Triple.getBind fun s hs => ?_
  cases s.files.lookup source with
  | some data =>
    rintro _ rfl
    exact hs
  | none =>
    refine Triple.throw ?_
    rintro _ rfl
    exact hs

theorem shows_getExpected {α : Type} (a : Expected α) :
    Triple (Shows T) (getExpected a) (fun v s => Shows T s ∧ a = .ok v) (fun _ => Shows T) := by
  cases a with
  | ok v => exact Triple.pure fun _ h => ⟨h, rfl⟩
  | error e => exact Triple.throw fun _ h => h

/-- The file is prepared in a storage with room for the replica. -/
theorem shows_prepareFile (hT : T.Fits) (dataHash owner : ConstDataBuffer) {size : NodeM Nat}
    (hsize : Triple (Shows T) size (fun _ => Shows T) (fun _ => Shows T)) :
    Triple (Shows T) (prepareFile dataHash owner size)
      (fun r s => Shows T s ∧ Room T owner r.1.storageId r.2.2) (fun _ => Shows T) := by
  refine (shows_select _).bind fun selected => Triple.assume fun hselected => ?_
  refine (shows_getExpected selected).bind fun s => Triple.assume fun hs => ?_
  have hfree : s.Free T owner := selectStorage_free hT (hselected ▸ hs)
  refine hsize.bind fun n => Triple.ite (fun _ => Triple.throw fun _ h => h) fun hspace => ?_
  refine (shows_attempt _).bind fun _ => (shows_attempt _).bind fun _ =>
    (shows_attempt _).bind fun _ => Triple.pure fun _ h => ⟨h, ?_⟩
  exact room_of_free hfree hspace hT

theorem fits_insertLocalData (hT : T.Fits) {selected : Selected} {owner : ConstDataBuffer}
    {size : Nat} (hroom : Room T owner selected.storageId size) (dataHash : ConstDataBuffer) :
    Triple (Shows T) (insertLocalData selected dataHash owner size)
      (fun _ s => s.tables.Fits) (fun _ s => s.tables.Fits) := by
  have hattempt : Triple (Shows T) (attempt "SQL error") (fun _ => Shows T)
      (fun _ s => s.tables.Fits) :=
    (shows_attempt _).conseq (fun _ h => h) (fun _ _ h => h) (fun _ _ h => h ▸ hT)
  refine hattempt.bind fun _ => Triple.getBind fun s hs => ?_
  cases hkey : s.tables.localData.lookup (dataHash, owner) with
  | some row =>
    refine Triple.throw ?_
    rintro _ rfl
    exact hs ▸ hT
  | none =>
    rintro _ rfl
    subst hs
    exact fits_insert hT hroom hkey _ _

/-- What keeps the tables keeps what they satisfy. -/
theorem fits_of_shows {α : Type} {x : NodeM α} (hT : T.Fits)
    {Q : α → NodeState → Prop} (h : Triple (Shows T) x Q (fun _ => Shows T)) :
    Triple (Shows T) x Q (fun _ s => s.tables.Fits) :=
  h.conseq (fun _ h => h) (fun _ _ h => h) (fun _ _ h => h ▸ hT)

/-- The end of all three variants: the file is prepared, written and recorded. -/
theorem fits_place (hT : T.Fits) (dataHash owner : ConstDataBuffer) {size : NodeM Nat}
    (hsize : Triple (Shows T) size (fun _ => Shows T) (fun _ => Shows T))
    {put : StdString → NodeM Unit}
    (hput : ∀ fn, Triple (Shows T) (put fn) (fun _ => Shows T) (fun _ => Shows T))
    {α : Type} (result : StdString → α) :
    Triple (Shows T)
      (do
        let (selected, fn, size) ← prepareFile dataHash owner size
        put fn
        insertLocalData selected dataHash owner size
        return result fn)
      (fun _ s => s.tables.Fits) (fun _ s => s.tables.Fits) := by
  refine (fits_of_shows hT (shows_prepareFile hT dataHash owner hsize)).bind fun r => ?_
  refine Triple.assume fun hroom => ?_
  refine (fits_of_shows hT (hput _)).bind fun _ => ?_
  exact (fits_insertLocalData hT hroom dataHash).bind fun _ => Triple.pure fun _ h => h

theorem fits_saveData (hT : T.Fits) (dataHash data owner : ConstDataBuffer) :
    Triple (Shows T) (saveData dataHash data owner)
      (fun _ s => s.tables.Fits) (fun _ s => s.tables.Fits) := by
  refine (fits_of_shows hT (shows_select _)).bind fun rows => Triple.assume fun _ => ?_
  refine Triple.ite (fun _ => Triple.throw fun _ h => h ▸ hT) fun _ => ?_
  refine (fits_of_shows hT (shows_select _)).bind fun found => Triple.assume fun _ => ?_
  cases found with
  | some found => exact Triple.pure fun _ h => h ▸ hT
  | none =>
    exact fits_place hT dataHash owner (Triple.pure fun _ h => h)
      (fun fn => shows_writeAll fn data) id

theorem fits_saveDataFile (hT : T.Fits) (dataHash : ConstDataBuffer) (originalFile : StdString)
    (owner : ConstDataBuffer) :
    Triple (Shows T) (saveDataFile dataHash originalFile owner)
      (fun _ s => s.tables.Fits) (fun _ s => s.tables.Fits) := by
  refine (fits_of_shows hT (shows_select _)).bind fun found => Triple.assume fun _ => ?_
  cases found with
  | some found => exact Triple.pure fun _ h => h ▸ hT
  | none =>
    exact fits_place hT dataHash owner (shows_fileLength originalFile)
      (fun fn => shows_move originalFile fn) id

theorem fits_saveReplica (sp : ServiceProvider) (hT : T.Fits) (data owner : ConstDataBuffer)
    (replica : Nat) :
    Triple (Shows T) (saveReplica sp data owner replica)
      (fun _ s => s.tables.Fits) (fun _ s => s.tables.Fits) := by
  refine (fits_of_shows hT (shows_select _)).bind fun found => Triple.assume fun _ => ?_
  cases found with
  | some found => exact Triple.pure fun _ h => h ▸ hT
  | none =>
    refine (fits_of_shows hT (shows_prepareFile hT _ owner (Triple.pure fun _ h => h))).bind
      fun r => Triple.assume fun hroom => ?_
    refine (fits_of_shows hT (shows_writeAll _ _)).bind fun _ => ?_
    exact fits_insertLocalData hT hroom _

theorem fits_saveDataObject (sp : ServiceProvider) (data owner : ConstDataBuffer) :
    Triple (fun s => s.tables.Fits) (saveDataObject sp data owner)
      (fun _ s => s.tables.Fits) (fun _ s => s.tables.Fits) := by
  let I : List Nat → NodeState → Prop := fun _ s => s.tables.Fits
  refine Triple.forM (I := I) ?_ _
  intro replica _ s hs
  exact fits_saveReplica sp hs data owner replica s rfl

/-! ### Runs of calls -/

/-- A call of `save_data` in one of its variants. -/
inductive SaveCall
  | bytes (dataHash data owner : ConstDataBuffer)
  | file (dataHash : ConstDataBuffer) (originalFile : StdString) (owner : ConstDataBuffer)
  | object (data owner : ConstDataBuffer)

def SaveCall.run (sp : ServiceProvider) : SaveCall → NodeM Unit
  | .bytes dataHash data owner => do
    let _ ← saveData dataHash data owner
  | .file dataHash originalFile owner => do
    let _ ← saveDataFile dataHash originalFile owner
  | .object data owner => saveDataObject sp data owner

/-- A node with the tables that a rollback goes back to. -/
structure Saving where
  committed : NodeTables
  node : NodeState

/-- A call, the end of its transaction, or anything that happens to files and clock around them. -/
inductive Saving.Step (sp : ServiceProvider) (s : Saving) : Saving → Prop
  | call (call : SaveCall) : Step sp s { s with node := final (call.run sp s.node) }
  | commit : Step sp s { s with committed := s.node.tables }
  | rollback : Step sp s { s with node := { s.node with tables := s.committed } }
  | around (node : NodeState) (htables : node.tables = s.node.tables) : Step sp s { s with node }

theorem fits_run (sp : ServiceProvider) (call : SaveCall) (s : NodeState) (h : s.tables.Fits) :
    (final (call.run sp s)).tables.Fits := by
  have htriple : Triple (Shows s.tables) (call.run sp)
      (fun _ s => s.tables.Fits) (fun _ s => s.tables.Fits) := by
    cases call with
    | bytes dataHash data owner =>
      exact (fits_saveData h dataHash data owner).bind fun _ => Triple.pure fun _ h => h
    | file dataHash originalFile owner =>
      exact (fits_saveDataFile h dataHash originalFile owner).bind fun _ => Triple.pure fun _ h => h
    | object data owner =>
      exact (fits_saveDataObject sp data owner).conseq (fun _ hs => hs ▸ h) (fun _ _ h => h)
        (fun _ _ h => h)
  cases hrun : call.run sp s with
  | ok _ s' => exact htriple.ok rfl hrun
  | error e s' => exact htriple.error rfl hrun

theorem Saving.Step.fits {sp : ServiceProvider} {s s' : Saving} (hs : Saving.Step sp s s')
    (h : s.committed.Fits ∧ s.node.tables.Fits) : s'.committed.Fits ∧ s'.node.tables.Fits := by
  cases hs with
  | call call => exact ⟨h.1, fits_run sp call s.node h.2⟩
  | commit => exact ⟨h.2, h.2⟩
  | rollback => exact ⟨h.1, h.1⟩
  | around node htables => exact ⟨h.1, htables ▸ h.2⟩

/-- Whatever is saved, committed and rolled back, the rows fit their storages. -/
theorem fits_of_saving (sp : ServiceProvider) (tables : NodeTables) (h : tables.Fits)
    (node : NodeState) (hnode : node.tables = tables) (s : Saving)
    (hrun : Relation.ReflTransGen (Saving.Step sp) ⟨tables, node⟩ s) :
    s.committed.Fits ∧ s.node.tables.Fits := by
  induction hrun with
  | refl => exact ⟨h, hnode ▸ h⟩
  | tail _ hstep ih => exact hstep.fits ih

/-- A node with one storage for everybody, of four bytes. -/
def smallTables : NodeTables where
  nodeStorages := AList.insert [1] ⟨[0x73], [], 4, .share⟩ ∅

theorem smallTables_fits : smallTables.Fits where
  sizes key row h := by cases h
  quota id storage _ := .inl fun key row h => (by cases h)
  exclusive id storage key row _ h := by cases h

/-- Three bytes fit and a second replica of three bytes does not. -/
theorem fits_of_saving_small :
    (final ((SaveCall.bytes [2] [5, 6, 7] []).run LogSync.sampleProvider
      (final ((SaveCall.bytes [1] [2, 3, 4] []).run LogSync.sampleProvider
        { tables := smallTables })))).tables.Fits := by
  have hrun : Relation.ReflTransGen (Saving.Step LogSync.sampleProvider)
      ⟨smallTables, { tables := smallTables }⟩ _ :=
    (Relation.ReflTransGen.single (.call (.bytes [1] [2, 3, 4] []))).tail
      (.call (.bytes [2] [5, 6, 7] []))
  exact (fits_of_saving LogSync.sampleProvider smallTables smallTables_fits _ rfl _ hrun).2

end Vds.DhtNetwork
