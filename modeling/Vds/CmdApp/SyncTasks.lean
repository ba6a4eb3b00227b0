import Vds.CmdApp.SyncFiles

/-! What a run of `sync_files` has to do, file by file and name by name, and what each part does to the disk. -/

namespace Vds.CmdApp

open StateError Foldername UrlParser
open Library.CallbackWalk (AllGoOn allGoOn_concat)

/-! ### What the calls do -/

/-- The files and the events of a world, whatever answers are left. -/
def World.Is (s : World) (files : Place → Option ConstDataBuffer) (events : List Event) : Prop :=
  s.files = files ∧ s.events = events

theorem World.Is.trans {s s' : World} {files : Place → Option ConstDataBuffer} {events : List Event}
    (h' : s'.Is s.files s.events) (h : s.Is files events) : s'.Is files events :=
  ⟨h'.1.trans h.1, h'.2.trans h.2⟩

/-- What a run has left of the answers is not looked at. -/
def World.with (s : World) (answers : List Answer) : World := { s with answers }

@[simp] theorem with_files (s : World) (answers : List Answer) : (s.with answers).files = s.files := rfl

@[simp] theorem with_events (s : World) (answers : List Answer) : (s.with answers).events = s.events := rfl

/-- The events of a file that takes the place of what is there. -/
def replaced (s : World) (place : Place) (data : ConstDataBuffer) : List Event :=
  (match s.files place with
  | some old => [.deleted place old]
  | none => []) ++ [.moved place none data]

section Calls

variable {sys : System} {s : World} {fn : StdString}

theorem call_spec (what : StdString) (s : World) :
    (∃ data s', call what s = .ok data s' ∧ s'.Is s.files s.events) ∨
      ∃ e s', call what s = .error e s' ∧ s'.Is s.files s.events := by
  obtain ⟨files, answers, events⟩ := s
  match answers with
  | [] => exact .inr ⟨_, _, rfl, rfl, rfl⟩
  | none :: answers => exact .inr ⟨_, _, rfl, rfl, rfl⟩
  | some data :: answers => exact .inl ⟨_, _, rfl, rfl, rfl⟩

theorem readFile_spec (sys : System) (fn : StdString) (s : World) :
    (∃ data s', readFile sys fn s = .ok data s' ∧ fileAt sys s fn = some data ∧ s'.Is s.files s.events) ∨
      ∃ e s', readFile sys fn s = .error e s' ∧ s'.Is s.files s.events := by
  unfold readFile
  rcases call_spec (WsApi.text "Unable to open file " ++ fn) s with ⟨_, s₁, hcall, h⟩ | ⟨e, s₁, hcall, h⟩
  · rw [bind_of_ok hcall, bind_of_ok (get_apply s₁)]
    have hfile : fileAt sys s₁ fn = fileAt sys s fn := by
      unfold fileAt
      rw [h.1]
    rw [hfile]
    cases fileAt sys s fn with
    | none => exact .inr ⟨_, s₁, rfl, h⟩
    | some data => exact .inl ⟨data, s₁, rfl, rfl, h⟩
  · rw [bind_of_error hcall]
    exact .inr ⟨e, s₁, rfl, h⟩

theorem deleteFile_spec (sys : System) (fn : StdString) (s : World) :
    (∃ s' place old, deleteFile sys fn s = .ok () s' ∧ sys.locate fn = some place ∧
      s.files place = some old ∧
      s'.Is (Function.update s.files place none) (s.events ++ [.deleted place old])) ∨
      ∃ e s', deleteFile sys fn s = .error e s' ∧ s'.Is s.files s.events := by
  unfold deleteFile
  rcases call_spec (WsApi.text "Unable to delete file " ++ fn) s with ⟨_, s₁, hcall, h⟩ | ⟨e, s₁, hcall, h⟩
  · rw [bind_of_ok hcall, bind_of_ok (get_apply s₁)]
    cases hplace : sys.locate fn with
    | none => exact .inr ⟨_, s₁, rfl, h⟩
    | some place =>
      cases hold : s₁.files place with
      | none =>
        simp only [hold]
        exact .inr ⟨_, s₁, rfl, h⟩
      | some old =>
        simp only [hold]
        refine .inl ⟨_, place, old, rfl, rfl, h.1 ▸ hold, ?_, ?_⟩
        · rw [← h.1]
        · rw [← h.2]
  · rw [bind_of_error hcall]
    exact .inr ⟨e, s₁, rfl, h⟩

theorem moveFile_spec (sys : System) (data : ConstDataBuffer) (fn : StdString) (s : World) :
    (∃ s' place, moveFile sys data fn s = .ok () s' ∧ sys.locate fn = some place ∧
      s'.Is (Function.update s.files place (some data)) (s.events ++ [.moved place (s.files place) data])) ∨
      ∃ e s', moveFile sys data fn s = .error e s' ∧ s'.Is s.files s.events := by
  unfold moveFile
  rcases call_spec (WsApi.text "Rename file  to " ++ fn) s with ⟨_, s₁, hcall, h⟩ | ⟨e, s₁, hcall, h⟩
  · rw [bind_of_ok hcall, bind_of_ok (get_apply s₁)]
    cases hplace : sys.locate fn with
    | none => exact .inr ⟨_, s₁, rfl, h⟩
    | some place =>
      refine .inl ⟨_, place, rfl, rfl, ?_, ?_⟩
      · rw [← h.1]
      · rw [← h.1, ← h.2]
  · rw [bind_of_error hcall]
    exact .inr ⟨e, s₁, rfl, h⟩

theorem sendFile_spec (sys : System) (fn name : StdString) (s : World) :
    (∃ s' data, sendFile sys fn name s = .ok () s' ∧ fileAt sys s fn = some data ∧
      s'.Is s.files (s.events ++ [.uploaded name data])) ∨
      ∃ e s', sendFile sys fn name s = .error e s' ∧ s'.Is s.files s.events := by
  unfold sendFile
  rcases readFile_spec sys fn s with ⟨data, s₁, hread, hdata, h₁⟩ | ⟨e, s₁, hread, h₁⟩
  · rw [bind_of_ok hread]
    rcases call_spec (WsApi.text "Upload failed ") s₁ with ⟨_, s₂, hcall, h₂⟩ | ⟨e, s₂, hcall, h₂⟩
    · rw [bind_of_ok hcall]
      refine .inl ⟨_, data, rfl, hdata, h₂.1.trans h₁.1, ?_⟩
      change s₂.events ++ _ = _
      rw [h₂.2, h₁.2]
    · rw [bind_of_error hcall]
      exact .inr ⟨e, s₂, rfl, h₂.trans h₁⟩
  · rw [bind_of_error hread]
    exact .inr ⟨e, s₁, rfl, h₁⟩

theorem uploadFile_spec (sys : System) (fn name : StdString) (fileHash : ConstDataBuffer) (s : World) :
    (∃ s' data, uploadFile sys fn name fileHash s = .ok () s' ∧ fileAt sys s fn = some data ∧
      s'.Is s.files (s.events ++ [.uploaded name data])) ∨
      ∃ e s', uploadFile sys fn name fileHash s = .error e s' ∧ s'.Is s.files s.events := by
  unfold uploadFile
  split_ifs
  · rcases readFile_spec sys fn s with ⟨_, s₁, hread, -, h₁⟩ | ⟨e, s₁, hread, h₁⟩
    · rw [bind_of_ok hread]
      rcases sendFile_spec sys fn name s₁ with ⟨s', data, hsend, hdata, h'⟩ | ⟨e, s', hsend, h'⟩
      · refine .inl ⟨s', data, hsend, ?_, h'.1.trans h₁.1, ?_⟩
        · unfold fileAt at hdata ⊢
          rwa [h₁.1] at hdata
        · rw [h'.2, h₁.2]
      · exact .inr ⟨e, s', hsend, h'.trans h₁⟩
    · rw [bind_of_error hread]
      exact .inr ⟨e, s₁, rfl, h₁⟩
  · exact sendFile_spec sys fn name s

theorem replaceFile_spec (sys : System) (data : ConstDataBuffer) (fn : StdString) (s : World) :
    (∃ s' place, replaceFile sys data fn s = .ok () s' ∧ sys.locate fn = some place ∧
      s'.Is (Function.update s.files place (some data)) (s.events ++ replaced s place data)) ∨
    (∃ e s', replaceFile sys data fn s = .error e s' ∧ s'.Is s.files s.events) ∨
      ∃ e s' place old, replaceFile sys data fn s = .error e s' ∧ sys.locate fn = some place ∧
        s.files place = some old ∧
        s'.Is (Function.update s.files place none) (s.events ++ [.deleted place old]) := by
  unfold replaceFile
  rw [bind_of_ok (get_apply s)]
  split_ifs with hexists
  · rcases deleteFile_spec sys fn s with ⟨s₁, place, old, hdelete, hplace, hold, h₁⟩ | ⟨e, s₁, hdelete, h₁⟩
    · rw [bind_of_ok hdelete]
      rcases moveFile_spec sys data fn s₁ with ⟨s₂, place', hmove, hplace', h₂⟩ | ⟨e, s₂, hmove, h₂⟩
      · obtain rfl : place = place' := Option.some.inj (hplace.symm.trans hplace')
        refine .inl ⟨s₂, place, hmove, hplace, ?_, ?_⟩
        · rw [h₂.1, h₁.1, Function.update_idem]
        · rw [h₂.2, h₁.1, h₁.2, Function.update_self, List.append_assoc]
          unfold replaced
          rw [hold]
      · exact .inr (.inr ⟨e, s₂, place, old, hmove, hplace, hold, h₂.trans h₁⟩)
    · rw [bind_of_error hdelete]
      exact .inr (.inl ⟨e, s₁, rfl, h₁⟩)
  · rcases moveFile_spec sys data fn s with ⟨s', place, hmove, hplace, h'⟩ | ⟨e, s', hmove, h'⟩
    · have hnone : s.files place = none := by
        unfold fileAt at hexists
        rw [hplace] at hexists
        exact Option.not_isSome_iff_eq_none.1 hexists
      refine .inl ⟨s', place, hmove, hplace, h'.1, ?_⟩
      rw [h'.2]
      unfold replaced
      rw [hnone]
      rfl
    · exact .inr (.inl ⟨e, s', hmove, h'⟩)

theorem downloadFile_spec (sys : System) (fn : StdString) {fileId : ConstDataBuffer} (hid : fileId ≠ [])
    (s : World) :
    (∃ s' place data, downloadFile sys fn fileId s = .ok () s' ∧ sys.locate fn = some place ∧
      sys.sha256 data = fileId ∧
      s'.Is (Function.update s.files place (some data)) (s.events ++ replaced s place data)) ∨
    (∃ e s', downloadFile sys fn fileId s = .error e s' ∧ s'.Is s.files s.events) ∨
      ∃ e s' place old, downloadFile sys fn fileId s = .error e s' ∧ sys.locate fn = some place ∧
        s.files place = some old ∧ (∃ data, sys.sha256 data = fileId) ∧
        s'.Is (Function.update s.files place none) (s.events ++ [.deleted place old]) := by
  unfold downloadFile
  rcases call_spec (WsApi.text "Unable to open file ") s with ⟨_, s₁, htmp, h₁⟩ | ⟨e, s₁, htmp, h₁⟩
  case inr =>
    rw [bind_of_error htmp]
    exact .inr (.inl ⟨e, s₁, rfl, h₁⟩)
  rw [bind_of_ok htmp]
  rcases call_spec (WsApi.text "File download failed: ") s₁ with ⟨data, s₂, hget, h₂⟩ | ⟨e, s₂, hget, h₂⟩
  case inr =>
    rw [bind_of_error hget]
    exact .inr (.inl ⟨e, s₂, rfl, h₂.trans h₁⟩)
  rw [bind_of_ok hget]
  have h : s₂.Is s.files s.events := h₂.trans h₁
  by_cases hhash : fileId ≠ [] ∧ fileId ≠ sys.sha256 data
  · rw [if_pos hhash]
    exact .inr (.inl ⟨_, s₂, rfl, h⟩)
  rw [if_neg hhash]
  have hsha : sys.sha256 data = fileId := (not_ne_iff.1 fun hne => hhash ⟨hid, hne⟩).symm
  have hreplaced (place : Place) : replaced s₂ place data = replaced s place data := by
    unfold replaced
    rw [h.1]
  rcases replaceFile_spec sys data fn s₂ with ⟨s', place, hok, hplace, h'⟩ | ⟨e, s', herror, h'⟩ |
    ⟨e, s', place, old, herror, hplace, hold, h'⟩
  · refine .inl ⟨s', place, data, hok, hplace, hsha, ?_⟩
    rwa [hreplaced, h.1, h.2] at h'
  · exact .inr (.inl ⟨e, s', herror, h'.trans h⟩)
  · refine .inr (.inr ⟨e, s', place, old, herror, hplace, h.1 ▸ hold, ⟨data, hsha⟩, ?_⟩)
    rwa [h.1, h.2] at h'

end Calls

/-! ### Calls that go well -/

/-- With the right answers `x` returns `a` from `s`, in `s'`. -/
def Able {α : Type} (x : SyncM α) (s : World) (a : α) (s' : World) : Prop :=
  ∃ need, ∀ rest, x (s.with (need ++ rest)) = .ok a (s'.with rest)

section Able

variable {sys : System} {s : World} {fn : StdString}

theorem Able.bind {α β : Type} {x : SyncM α} {f : α → SyncM β} {s s' s'' : World} {a : α} {b : β}
    (h : Able x s a s') (h' : Able (f a) s' b s'') : Able (x >>= f) s b s'' := by
  obtain ⟨need, hx⟩ := h
  obtain ⟨need', hf⟩ := h'
  refine ⟨need ++ need', fun rest => ?_⟩
  rw [List.append_assoc, bind_of_ok (hx (need' ++ rest))]
  exact hf rest

theorem able_call (what : StdString) (data : ConstDataBuffer) (s : World) : Able (call what) s data s :=
  ⟨[some data], fun _ => rfl⟩

theorem able_readFile {data : ConstDataBuffer} (h : fileAt sys s fn = some data) :
    Able (readFile sys fn) s data s := by
  refine Able.bind (able_call _ [] s) ⟨[], fun rest => ?_⟩
  have hfile : fileAt sys (s.with rest) fn = some data := h
  rw [List.nil_append, bind_of_ok (get_apply _), hfile]
  rfl

theorem able_sendFile {data : ConstDataBuffer} (h : fileAt sys s fn = some data) (name : StdString) :
    Able (sendFile sys fn name) s () { s with events := s.events ++ [.uploaded name data] } :=
  (able_readFile h).bind ((able_call _ [] s).bind ⟨[], fun _ => rfl⟩)

theorem able_uploadFile {data : ConstDataBuffer} (h : fileAt sys s fn = some data) (name : StdString)
    (fileHash : ConstDataBuffer) :
    Able (uploadFile sys fn name fileHash) s () { s with events := s.events ++ [.uploaded name data] } := by
  unfold uploadFile
  split_ifs
  · exact (able_readFile h).bind (able_sendFile h name)
  · exact able_sendFile h name

theorem able_deleteFile {place : Place} {old : ConstDataBuffer} (hplace : sys.locate fn = some place)
    (hold : s.files place = some old) : ∃ s', Able (deleteFile sys fn) s () s' := by
  refine ⟨{ s with
      files := Function.update s.files place none
      events := s.events ++ [.deleted place old] },
    Able.bind (able_call _ [] s) ⟨[], fun rest => ?_⟩⟩
  rw [List.nil_append, bind_of_ok (get_apply _), hplace]
  simp only [with_files, hold]
  rfl

theorem able_moveFile {place : Place} (hplace : sys.locate fn = some place) (data : ConstDataBuffer) (s : World) :
    ∃ s', Able (moveFile sys data fn) s () s' := by
  refine ⟨{ s with
      files := Function.update s.files place (some data)
      events := s.events ++ [.moved place (s.files place) data] },
    Able.bind (able_call _ [] s) ⟨[], fun rest => ?_⟩⟩
  rw [List.nil_append, bind_of_ok (get_apply _), hplace]
  rfl

theorem able_replaceFile {place : Place} (hplace : sys.locate fn = some place) (data : ConstDataBuffer)
    (s : World) : ∃ s', Able (replaceFile sys data fn) s () s' := by
  cases hold : s.files place with
  | none =>
    obtain ⟨s', need, hmove⟩ := able_moveFile hplace data s
    refine ⟨s', need, fun rest => ?_⟩
    have hfile : fileAt sys (s.with (need ++ rest)) fn = none := by
      unfold fileAt
      rw [hplace]
      exact hold
    unfold replaceFile
    rw [bind_of_ok (get_apply _), hfile]
    exact hmove rest
  | some old =>
    obtain ⟨s₁, hdelete⟩ := able_deleteFile hplace hold
    obtain ⟨s', hmove⟩ := able_moveFile hplace data s₁
    obtain ⟨need, hboth⟩ := Able.bind (f := fun _ => moveFile sys data fn) hdelete hmove
    refine ⟨s', need, fun rest => ?_⟩
    have hfile : fileAt sys (s.with (need ++ rest)) fn = some old := by
      unfold fileAt
      rw [hplace]
      exact hold
    unfold replaceFile
    rw [bind_of_ok (get_apply _), hfile]
    exact hboth rest

theorem able_downloadFile {place : Place} (hplace : sys.locate fn = some place) (data : ConstDataBuffer)
    (s : World) : ∃ s', Able (downloadFile sys fn (sys.sha256 data)) s () s' := by
  obtain ⟨s', hreplace⟩ := able_replaceFile hplace data s
  refine ⟨s', (able_call _ [] s).bind ((able_call _ data s).bind ?_)⟩
  rw [if_neg fun h => h.2 rfl]
  exact hreplace

end Able

/-! ### The tasks of a run -/

inductive Task
  | upload (fn name : StdString)
  | sync (fn name : StdString) (history : List SyncFileInfo) (enableUpload : Bool)
  | download (fn name : StdString) (history : List SyncFileInfo)

/-- The object ids of the files on the disk. -/
abbrev Ids := Place → Option ConstDataBuffer

def known (ids : Ids) (place : Place) (history : List SyncFileInfo) : Prop :=
  ∃ info ∈ history, ids place = some info.objectId

instance (ids : Ids) (place : Place) (history : List SyncFileInfo) : Decidable (known ids place history) :=
  inferInstanceAs (Decidable (∃ info ∈ history, ids place = some info.objectId))

namespace Task

def fn : Task → StdString
  | upload fn _ => fn
  | sync fn _ _ _ => fn
  | download fn _ _ => fn

def history : Task → List SyncFileInfo
  | upload _ _ => []
  | sync _ _ history _ => history
  | download _ _ history => history

def run (sys : System) : Task → SyncM Unit
  | upload fn name => uploadFile sys fn name []
  | sync fn name history enableUpload => syncFile sys fn name history enableUpload
  | download fn _ history =>
    match history with
    | [] => throw .undefined
    | newest :: _ => downloadFile sys fn newest.objectId

/-- The newest version is at the place after the task. -/
def Updates (ids : Ids) (place : Place) : Task → Prop
  | upload _ _ => False
  | sync _ _ history _ => known ids place history
  | download _ _ _ => True

instance (ids : Ids) (place : Place) (t : Task) : Decidable (t.Updates ids place) :=
  match t with
  | upload _ _ => inferInstanceAs (Decidable False)
  | sync _ _ history _ => inferInstanceAs (Decidable (known ids place history))
  | download _ _ _ => inferInstanceAs (Decidable True)

/-- The ids after the task. -/
def after (sys : System) (ids : Ids) (t : Task) : Ids :=
  match sys.locate t.fn, t.history.head? with
  | some place, some newest =>
    if t.Updates ids place then Function.update ids place (some newest.objectId) else ids
  | _, _ => ids

/-- The task does not end the run: its file has a place, and a version that has to be there can be had. -/
def Passes (sys : System) (ids : Ids) (t : Task) : Prop :=
  ∃ place, sys.locate t.fn = some place ∧
    (t.Updates ids place → ∃ newest ∈ t.history.head?, ∃ data, sys.sha256 data = newest.objectId)

/-- The task starts with the bytes of its file. -/
def Reads : Task → Prop
  | upload _ _ => True
  | sync _ _ _ _ => True
  | download _ _ _ => False

/-- The task may upload. -/
def MayUpload : Task → Prop
  | upload _ _ => True
  | sync _ _ _ enableUpload => enableUpload = true
  | download _ _ _ => False

/-- The task uploads these bytes, if its file is still as it was at the start. -/
def Uploads (sys : System) (files : Place → Option ConstDataBuffer) (data : ConstDataBuffer) (t : Task) : Prop :=
  t.MayUpload ∧ ∃ place, sys.locate t.fn = some place ∧ files place = some data ∧
    ∀ info ∈ t.history, info.objectId ≠ sys.sha256 data

end Task

/-! ### What a task does -/

/-- The ids of the files. -/
def idsOf (sys : System) (files : Place → Option ConstDataBuffer) : Ids := fun place =>
  (files place).map sys.sha256

/-- How a task may end well. -/
inductive Task.Did (sys : System) (s : World) (t : Task) (s' : World) : Prop
  | skipped (place : Place) (hplace : sys.locate t.fn = some place)
    (hupdates : ¬ t.Updates (idsOf sys s.files) place) (hmay : ¬ t.MayUpload) (h : s'.Is s.files s.events)
  | current (place : Place) (data : ConstDataBuffer) (newest : SyncFileInfo)
    (hplace : sys.locate t.fn = some place) (hdata : s.files place = some data)
    (hnewest : newest ∈ t.history.head?) (hsha : sys.sha256 data = newest.objectId)
    (h : s'.Is s.files s.events)
  | uploaded (name : StdString) (place : Place) (data : ConstDataBuffer) (hplace : sys.locate t.fn = some place)
    (hdata : s.files place = some data) (hmay : t.MayUpload)
    (hunknown : ∀ info ∈ t.history, info.objectId ≠ sys.sha256 data)
    (h : s'.Is s.files (s.events ++ [.uploaded name data]))
  | fetched (place : Place) (newest : SyncFileInfo) (data : ConstDataBuffer)
    (hplace : sys.locate t.fn = some place) (hupdates : t.Updates (idsOf sys s.files) place)
    (hnewest : newest ∈ t.history.head?) (hsha : sys.sha256 data = newest.objectId)
    (h : s'.Is (Function.update s.files place (some data)) (s.events ++ replaced s place data))

/-- How a task may end the run. -/
inductive Task.Stopped (sys : System) (s : World) (t : Task) (s' : World) : Prop
  | before (h : s'.Is s.files s.events)
  | between (place : Place) (old : ConstDataBuffer) (newest : SyncFileInfo)
    (hplace : sys.locate t.fn = some place) (hold : s.files place = some old)
    (hupdates : t.Updates (idsOf sys s.files) place)
    (hnewest : newest ∈ t.history.head?) (hsha : ∃ data, sys.sha256 data = newest.objectId)
    (h : s'.Is (Function.update s.files place none) (s.events ++ [.deleted place old]))

section Tasks

variable {sys : System} {s : World}

theorem known_iff {place : Place} {data : ConstDataBuffer} {history : List SyncFileInfo}
    (hdata : s.files place = some data) :
    known (idsOf sys s.files) place history ↔ ∃ info ∈ history, info.objectId = sys.sha256 data := by
  have hid : idsOf sys s.files place = some (sys.sha256 data) := by
    unfold idsOf
    rw [hdata]
    rfl
  unfold known
  rw [hid]
  simp only [Option.some.injEq, eq_comm]

theorem fileAt_eq_some {fn : StdString} {data : ConstDataBuffer} (h : fileAt sys s fn = some data) :
    ∃ place, sys.locate fn = some place ∧ s.files place = some data :=
  Option.bind_eq_some_iff.1 h

theorem run_download {fn name : StdString} {history : List SyncFileInfo} :
    (∃ s', (Task.download fn name history).run sys s = .ok () s' ∧
      (Task.download fn name history).Did sys s s') ∨
      ∃ e s', (Task.download fn name history).run sys s = .error e s' ∧
        (Task.download fn name history).Stopped sys s s' := by
  cases history with
  | nil => exact .inr ⟨_, s, rfl, .before ⟨rfl, rfl⟩⟩
  | cons newest rest =>
    rcases downloadFile_spec sys fn newest.notEmpty s with ⟨s', place, data, hrun, hplace, hsha, h⟩ |
      ⟨e, s', hrun, h⟩ | ⟨e, s', place, old, hrun, hplace, hold, hsha, h⟩
    · exact .inl ⟨s', hrun, .fetched place newest data hplace trivial rfl hsha h⟩
    · exact .inr ⟨e, s', hrun, .before h⟩
    · exact .inr ⟨e, s', hrun, .between place old newest hplace hold trivial rfl hsha h⟩

theorem Task.run_spec (t : Task) (s : World) :
    (∃ s', t.run sys s = .ok () s' ∧ t.Did sys s s') ∨
      ∃ e s', t.run sys s = .error e s' ∧ t.Stopped sys s s' := by
  cases t with
  | download fn name history => exact run_download
  | upload fn name =>
    rcases uploadFile_spec sys fn name [] s with ⟨s', data, hrun, hfile, h⟩ | ⟨e, s', hrun, h⟩
    · obtain ⟨place, hplace, hdata⟩ := fileAt_eq_some hfile
      exact .inl ⟨s', hrun, .uploaded name place data hplace hdata trivial (fun _ h => by cases h) h⟩
    · exact .inr ⟨e, s', hrun, .before h⟩
  | sync fn name history enableUpload =>
    change (∃ s', syncFile sys fn name history enableUpload s = .ok () s' ∧ _) ∨
      ∃ e s', syncFile sys fn name history enableUpload s = .error e s' ∧ _
    unfold syncFile
    rcases readFile_spec sys fn s with ⟨data, s₁, hread, hfile, h₁⟩ | ⟨e, s₁, hread, h₁⟩
    case inr =>
      rw [bind_of_error hread]
      exact .inr ⟨e, s₁, rfl, .before h₁⟩
    rw [bind_of_ok hread]
    obtain ⟨place, hplace, hdata⟩ := fileAt_eq_some hfile
    have hknown : known (idsOf sys s.files) place history ↔
        ∃ info ∈ history, info.objectId = sys.sha256 data := known_iff hdata
    by_cases hunknown : ∀ hist ∈ history, hist.objectId ≠ sys.sha256 data
    · simp only [if_pos hunknown]
      have hupdates : ¬ known (idsOf sys s.files) place history := fun h => by
        obtain ⟨info, hinfo, heq⟩ := hknown.1 h
        exact hunknown info hinfo heq
      cases enableUpload with
      | false => exact .inl ⟨s₁, rfl, .skipped place hplace hupdates (fun h => by cases h) h₁⟩
      | true =>
        rcases uploadFile_spec sys fn name (sys.sha256 data) s₁ with ⟨s', data', hrun, hfile', h⟩ |
          ⟨e, s', hrun, h⟩
        · have heq : data' = data := by
            unfold fileAt at hfile hfile'
            rw [h₁.1, hfile] at hfile'
            exact (Option.some.inj hfile').symm
          refine .inl ⟨s', hrun, .uploaded name place data hplace hdata rfl hunknown ?_⟩
          rwa [heq, h₁.1, h₁.2] at h
        · exact .inr ⟨e, s', hrun, .before (h.trans h₁)⟩
    · simp only [if_neg hunknown]
      have hupdates : known (idsOf sys s.files) place history := by
        push Not at hunknown
        exact hknown.2 hunknown
      cases history with
      | nil => exact absurd (fun _ h => by cases h) hunknown
      | cons newest rest =>
        simp only
        by_cases hnewest : newest.objectId = sys.sha256 data
        · rw [if_pos hnewest]
          exact .inl ⟨s₁, rfl, .current place data newest hplace hdata rfl hnewest.symm h₁⟩
        · rw [if_neg hnewest]
          have hreplaced (data : ConstDataBuffer) (p : Place) : replaced s₁ p data = replaced s p data := by
            unfold replaced
            rw [h₁.1]
          rcases downloadFile_spec sys fn newest.notEmpty s₁ with ⟨s', place', new, hrun, hplace', hsha, h⟩ |
            ⟨e, s', hrun, h⟩ | ⟨e, s', place', old, hrun, hplace', hold, hsha, h⟩
          · obtain rfl : place = place' := Option.some.inj (hplace.symm.trans hplace')
            refine .inl ⟨s', hrun, .fetched place newest new hplace hupdates rfl hsha ?_⟩
            rwa [hreplaced, h₁.1, h₁.2] at h
          · exact .inr ⟨e, s', hrun, .before (h.trans h₁)⟩
          · obtain rfl : place = place' := Option.some.inj (hplace.symm.trans hplace')
            refine .inr ⟨e, s', hrun, .between place old newest hplace (h₁.1 ▸ hold) hupdates rfl hsha ?_⟩
            rwa [h₁.1, h₁.2] at h

theorem Task.able_run {t : Task} {place : Place} (hplace : sys.locate t.fn = some place)
    (hreads : t.Reads → (s.files place).isSome) (hpasses : t.Passes sys (idsOf sys s.files)) :
    ∃ s', Able (t.run sys) s () s' := by
  obtain ⟨place', hplace', hobtain⟩ := hpasses
  obtain rfl : place = place' := Option.some.inj (hplace.symm.trans hplace')
  cases t with
  | download fn name history =>
    obtain ⟨newest, hnewest, data, hsha⟩ := hobtain trivial
    obtain ⟨rest, rfl⟩ : ∃ rest, history = newest :: rest := List.head?_eq_some_iff.1 hnewest
    obtain ⟨s', h⟩ := able_downloadFile hplace data s
    rw [hsha] at h
    exact ⟨s', h⟩
  | upload fn name =>
    obtain ⟨data, hdata⟩ := Option.isSome_iff_exists.1 (hreads trivial)
    have hfile : fileAt sys s fn = some data := Option.bind_eq_some_iff.2 ⟨place, hplace, hdata⟩
    exact ⟨_, able_uploadFile hfile name []⟩
  | sync fn name history enableUpload =>
    obtain ⟨data, hdata⟩ := Option.isSome_iff_exists.1 (hreads trivial)
    have hfile : fileAt sys s fn = some data := Option.bind_eq_some_iff.2 ⟨place, hplace, hdata⟩
    have hrest : ∃ s', Able (if ∀ hist ∈ history, hist.objectId ≠ sys.sha256 data then
          if enableUpload then uploadFile sys fn name (sys.sha256 data) else return
        else
          match history with
          | [] => throw .undefined
          | newest :: _ =>
            if newest.objectId = sys.sha256 data then return else downloadFile sys fn newest.objectId)
        s () s' := by
      by_cases hunknown : ∀ hist ∈ history, hist.objectId ≠ sys.sha256 data
      · rw [if_pos hunknown]
        cases enableUpload with
        | false => exact ⟨s, [], fun _ => rfl⟩
        | true => exact ⟨_, able_uploadFile hfile name _⟩
      · rw [if_neg hunknown]
        cases history with
        | nil => exact absurd (fun _ h => by cases h) hunknown
        | cons newest rest =>
          push Not at hunknown
          obtain ⟨newest', hnewest, new, hsha⟩ := hobtain ((known_iff hdata).2 hunknown)
          obtain rfl : newest = newest' := Option.some.inj hnewest
          simp only
          split_ifs
          · exact ⟨s, [], fun _ => rfl⟩
          · rw [← hsha]
            exact able_downloadFile hplace new s
    obtain ⟨s', h⟩ := hrest
    exact ⟨s', (able_readFile hfile).bind h⟩

/-! ### A run of tasks -/

variable {files : Place → Option ConstDataBuffer} {version : Place → ConstDataBuffer → Prop}

variable (sys files) in
/-- The ids after some tasks. -/
def idsAfter (done : List Task) : Ids := done.foldl (fun ids t => t.after sys ids) (idsOf sys files)

variable (sys files) in
/-- None of the tasks ends the run. -/
def AllPass (done : List Task) : Prop :=
  ∀ before t after, done = before ++ t :: after → t.Passes sys (idsAfter sys files before)

theorem idsAfter_concat (done : List Task) (t : Task) :
    idsAfter sys files (done ++ [t]) = t.after sys (idsAfter sys files done) :=
  List.foldl_concat _ _ _ _

theorem Task.after_of_updates {t : Task} {ids : Ids} {place : Place} {newest : SyncFileInfo}
    (hplace : sys.locate t.fn = some place) (hnewest : newest ∈ t.history.head?)
    (hupdates : t.Updates ids place) : t.after sys ids = Function.update ids place (some newest.objectId) := by
  unfold Task.after
  rw [hplace, Option.mem_def.1 hnewest]
  exact if_pos hupdates

theorem Task.after_of_not_updates {t : Task} {ids : Ids} {place : Place} (hplace : sys.locate t.fn = some place)
    (hupdates : ¬ t.Updates ids place) : t.after sys ids = ids := by
  unfold Task.after
  rw [hplace]
  cases t.history.head? with
  | none => rfl
  | some newest => exact if_neg hupdates

/-- A task that finds its bytes among the versions updates, and one that does not may upload. -/
theorem Task.updates_iff {t : Task} {place : Place} {data : ConstDataBuffer} (hreads : t.Reads)
    (hdata : s.files place = some data) :
    t.Updates (idsOf sys s.files) place ↔ ∃ info ∈ t.history, info.objectId = sys.sha256 data := by
  cases t with
  | upload fn name => exact ⟨False.elim, fun h => by obtain ⟨info, hinfo, -⟩ := h; cases hinfo⟩
  | sync fn name history enableUpload => exact known_iff hdata
  | download fn name history => exact hreads.elim

/-- The versions that a task knows are those of its file. -/
def Task.Fits (sys : System) (version : Place → ConstDataBuffer → Prop) (t : Task) : Prop :=
  ∀ place, sys.locate t.fn = some place → ∀ info ∈ t.history, version place info.objectId

/-- What is known when these tasks are done. -/
structure After (sys : System) (files : Place → Option ConstDataBuffer)
    (version : Place → ConstDataBuffer → Prop) (done : List Task) (s : World) : Prop where
  tracks : idsOf sys s.files = idsAfter sys files done
  passes : AllPass sys files done
  uploads : ∀ data, (∃ name, Event.uploaded name data ∈ s.events) ↔ ∃ t ∈ done, t.Uploads sys files data
  present : ∀ place, (files place).isSome → (s.files place).isSome
  lost : ∀ place data, files place = some data →
    s.files place = some data ∨ Event.deleted place data ∈ s.events
  fresh : ∀ place data, s.files place = some data →
    files place = some data ∨ version place (sys.sha256 data)
  untouched : ∀ place, (∀ t ∈ done, sys.locate t.fn ≠ some place) → s.files place = files place

theorem after_nil (answers : List Answer) : After sys files version [] { files, answers } where
  tracks := rfl
  passes before t after h := by
    cases before <;> cases h
  uploads data := by
    constructor
    · rintro ⟨name, hname⟩
      cases hname
    · rintro ⟨t, ht, -⟩
      cases ht
  present _ h := h
  lost _ _ h := .inl h
  fresh _ _ h := .inl h
  untouched _ _ := rfl

theorem After.with {done : List Task} (h : After sys files version done s) (answers : List Answer) :
    After sys files version done (s.with answers) :=
  ⟨h.tracks, h.passes, h.uploads, h.present, h.lost, h.fresh, h.untouched⟩

theorem allPass_concat {done : List Task} {t : Task} :
    AllPass sys files (done ++ [t]) ↔ AllPass sys files done ∧ t.Passes sys (idsAfter sys files done) :=
  @allGoOn_concat Task Prop id (fun before t => t.Passes sys (idsAfter sys files before)) done t

theorem idsOf_update (disk : Place → Option ConstDataBuffer) (place : Place) (data : ConstDataBuffer) :
    idsOf sys (Function.update disk place (some data)) =
      Function.update (idsOf sys disk) place (some (sys.sha256 data)) := by
  funext p
  unfold idsOf
  by_cases hp : p = place
  · subst hp
    rw [Function.update_self, Function.update_self]
    rfl
  · rw [Function.update_of_ne hp, Function.update_of_ne hp]

theorem Task.reads_of_mayUpload {t : Task} (h : t.MayUpload) : t.Reads := by
  cases t with
  | upload => trivial
  | sync => trivial
  | download => exact h

theorem uploaded_not_mem_replaced {place : Place} {data : ConstDataBuffer} {name : StdString}
    {bytes : ConstDataBuffer} : Event.uploaded name bytes ∉ replaced s place data := by
  unfold replaced
  cases s.files place <;> simp

theorem deleted_mem_replaced {place : Place} {old : ConstDataBuffer} (hold : s.files place = some old)
    (data : ConstDataBuffer) : Event.deleted place old ∈ replaced s place data := by
  unfold replaced
  rw [hold]
  exact List.mem_cons_self

section Step

variable {done : List Task} {t : Task} {s' : World}

/-- The part of the step that leaves the disk alone. -/
theorem After.concat_same (h : After sys files version done s) (hfiles : s'.files = s.files)
    (hafter : t.after sys (idsAfter sys files done) = idsAfter sys files done)
    (hpasses : t.Passes sys (idsAfter sys files done)) (hevents : s.events <+: s'.events)
    (huploads : ∀ data, (∃ name, Event.uploaded name data ∈ s'.events) ↔
      (∃ name, Event.uploaded name data ∈ s.events) ∨ t.Uploads sys files data) :
    After sys files version (done ++ [t]) s' where
  tracks := by rw [hfiles, h.tracks, idsAfter_concat, hafter]
  passes := allPass_concat.2 ⟨h.passes, hpasses⟩
  uploads data := by
    rw [huploads, h.uploads]
    simp only [List.mem_append, List.mem_singleton, or_and_right, exists_or, exists_eq_left]
  present := hfiles ▸ h.present
  lost place data hdata := by
    rw [hfiles]
    exact (h.lost place data hdata).imp_right fun hmem => hevents.subset hmem
  fresh := hfiles ▸ h.fresh
  untouched place hplace := by
    rw [hfiles]
    exact h.untouched place fun t' ht' => hplace t' (List.mem_append_left _ ht')

/-- The file of a task that may upload is as it was at the start. -/
theorem After.file_eq (h : After sys files version done s) {place : Place}
    (hfirst : t.MayUpload → ∀ t' ∈ done, sys.locate t'.fn ≠ sys.locate t.fn)
    (hplace : sys.locate t.fn = some place) (hmay : t.MayUpload) : s.files place = files place :=
  h.untouched place fun t' ht' => hplace ▸ hfirst hmay t' ht'

/-- A task that updates does not upload. -/
theorem After.not_uploads (h : After sys files version done s) {place : Place}
    (hfirst : t.MayUpload → ∀ t' ∈ done, sys.locate t'.fn ≠ sys.locate t.fn)
    (hplace : sys.locate t.fn = some place) (hupdates : t.Updates (idsOf sys s.files) place)
    (bytes : ConstDataBuffer) : ¬ t.Uploads sys files bytes := by
  rintro ⟨hmay, place', hplace', hbytes, hunknown⟩
  obtain rfl : place = place' := Option.some.inj (hplace.symm.trans hplace')
  have hdata : s.files place = some bytes := (h.file_eq hfirst hplace hmay).trans hbytes
  obtain ⟨info, hinfo, heq⟩ := (Task.updates_iff (Task.reads_of_mayUpload hmay) hdata).1 hupdates
  exact hunknown info hinfo heq

theorem After.concat (h : After sys files version done s) (hfits : t.Fits sys version)
    (hfirst : t.MayUpload → ∀ t' ∈ done, sys.locate t'.fn ≠ sys.locate t.fn) (hdid : t.Did sys s s') :
    After sys files version (done ++ [t]) s' := by
  cases hdid with
  | skipped place hplace hupdates hmay h' =>
    rw [h.tracks] at hupdates
    refine h.concat_same h'.1 (Task.after_of_not_updates hplace hupdates)
      ⟨place, hplace, fun hu => absurd hu hupdates⟩ (h'.2 ▸ List.prefix_refl _) fun data => ?_
    rw [h'.2]
    exact ⟨.inl, fun hu => hu.resolve_right fun hu => hmay hu.1⟩
  | current place data newest hplace hdata hnewest hsha h' =>
    have hid : idsOf sys s.files place = some newest.objectId := by
      unfold idsOf
      rw [hdata, ← hsha]
      rfl
    have hafter : t.after sys (idsAfter sys files done) = idsAfter sys files done := by
      rw [← h.tracks]
      by_cases hupdates : t.Updates (idsOf sys s.files) place
      · rw [Task.after_of_updates hplace hnewest hupdates, ← hid, Function.update_eq_self]
      · exact Task.after_of_not_updates hplace hupdates
    refine h.concat_same h'.1 hafter ⟨place, hplace, fun _ => ⟨newest, hnewest, data, hsha⟩⟩
      (h'.2 ▸ List.prefix_refl _) fun bytes => ?_
    rw [h'.2]
    refine ⟨.inl, fun hu => hu.resolve_right ?_⟩
    rintro ⟨hmay, place', hplace', hbytes, hunknown⟩
    obtain rfl : place = place' := Option.some.inj (hplace.symm.trans hplace')
    rw [← h.file_eq hfirst hplace hmay, hdata] at hbytes
    exact hunknown newest (List.mem_of_mem_head? hnewest) (by rw [← hsha, Option.some.inj hbytes])
  | uploaded name place data hplace hdata hmay hunknown h' =>
    have hupdates : ¬ t.Updates (idsAfter sys files done) place := by
      rw [← h.tracks]
      intro hu
      obtain ⟨info, hinfo, heq⟩ := (Task.updates_iff (Task.reads_of_mayUpload hmay) hdata).1 hu
      exact hunknown info hinfo heq
    have hfile : files place = some data := (h.file_eq hfirst hplace hmay).symm.trans hdata
    refine h.concat_same h'.1 (Task.after_of_not_updates hplace hupdates)
      ⟨place, hplace, fun hu => absurd hu hupdates⟩ (h'.2 ▸ List.prefix_append _ _) fun bytes => ?_
    rw [h'.2]
    simp only [List.mem_append, List.mem_singleton, exists_or]
    refine or_congr_right ⟨fun hu => ?_, fun hu => ?_⟩
    · obtain ⟨name', heq⟩ := hu
      cases heq
      exact ⟨hmay, place, hplace, hfile, hunknown⟩
    · obtain ⟨-, place', hplace', hbytes, -⟩ := hu
      obtain rfl : place = place' := Option.some.inj (hplace.symm.trans hplace')
      obtain rfl : data = bytes := Option.some.inj (hfile.symm.trans hbytes)
      exact ⟨name, rfl⟩
  | fetched place newest data hplace hupdates hnewest hsha h' =>
    constructor
    case tracks =>
      rw [h'.1, idsOf_update, hsha, idsAfter_concat, ← h.tracks,
        Task.after_of_updates hplace hnewest hupdates]
    case passes =>
      exact allPass_concat.2 ⟨h.passes, place, hplace, fun _ => ⟨newest, hnewest, data, hsha⟩⟩
    case uploads =>
      intro bytes
      have hnot := h.not_uploads hfirst hplace hupdates bytes
      rw [h'.2]
      simp only [List.mem_append, uploaded_not_mem_replaced, or_false, h.uploads, List.mem_singleton,
        or_and_right, exists_or, exists_eq_left, hnot]
    case present =>
      intro p hp
      rw [h'.1]
      by_cases heq : p = place
      · rw [heq, Function.update_self]
        rfl
      · rw [Function.update_of_ne heq]
        exact h.present p hp
    case lost =>
      intro p bytes hbytes
      rw [h'.1, h'.2]
      rcases h.lost p bytes hbytes with hold | hdeleted
      · by_cases heq : p = place
        · subst heq
          exact .inr (List.mem_append_right _ (deleted_mem_replaced hold data))
        · rw [Function.update_of_ne heq]
          exact .inl hold
      · exact .inr (List.mem_append_left _ hdeleted)
    case fresh =>
      intro p bytes hbytes
      rw [h'.1] at hbytes
      by_cases heq : p = place
      · subst heq
        rw [Function.update_self] at hbytes
        rw [← Option.some.inj hbytes, hsha]
        exact .inr (hfits p hplace newest (List.mem_of_mem_head? hnewest))
      · rw [Function.update_of_ne heq] at hbytes
        exact h.fresh p bytes hbytes
    case untouched =>
      intro p hp
      have hne : p ≠ place := fun heq =>
        hp t (List.mem_append_right _ (List.mem_singleton_self t)) (heq ▸ hplace)
      rw [h'.1, Function.update_of_ne hne]
      exact h.untouched p fun t' ht' => hp t' (List.mem_append_left _ ht')

end Step

/-! ### What may be lost -/

section Kept

variable (sys : System) (version : Place → ConstDataBuffer → Prop) (inside excluded : Place → Prop)

/-- The bytes are a version of the file in the channel, or were uploaded before. -/
def Saved (before : List Event) (place : Place) (data : ConstDataBuffer) : Prop :=
  version place (sys.sha256 data) ∨ ∃ name, Event.uploaded name data ∈ before

def Event.Kept (before : List Event) : Event → Prop
  | uploaded _ _ => True
  | deleted place old => inside place ∧ ¬ excluded place ∧ Saved sys version before place old
  | moved place old _ => inside place ∧ ∀ data ∈ old, ¬ excluded place ∧ Saved sys version before place data

/-- Files are made, replaced and deleted inside of the folder only, and no file that is excluded or not saved is
replaced or deleted. -/
def Kept (events : List Event) : Prop :=
  ∀ before e after, events = before ++ e :: after → e.Kept sys version inside excluded before

variable {sys version inside excluded}

theorem kept_concat {events : List Event} {e : Event} :
    Kept sys version inside excluded (events ++ [e]) ↔
      Kept sys version inside excluded events ∧ e.Kept sys version inside excluded events :=
  @allGoOn_concat Event Prop id (fun before e => e.Kept sys version inside excluded before) events e

theorem Kept.shorten {events events' : List Event} (h : Kept sys version inside excluded events')
    (hle : events <+: events') : Kept sys version inside excluded events := by
  obtain ⟨more, rfl⟩ := hle
  exact @AllGoOn.of_append Event Prop id (fun before e => e.Kept sys version inside excluded before) events more h

theorem kept_nil : Kept sys version inside excluded [] := by
  intro before e after h
  cases before <;> cases h

theorem kept_replaced {s : World} {place : Place} (h : Kept sys version inside excluded s.events)
    (hinside : inside place)
    (hold : ∀ old, s.files place = some old → ¬ excluded place ∧ Saved sys version s.events place old)
    (data : ConstDataBuffer) : Kept sys version inside excluded (s.events ++ replaced s place data) := by
  have hmoved (before : List Event) :
      (Event.moved place none data).Kept sys version inside excluded before :=
    ⟨hinside, fun _ h => by cases h⟩
  unfold replaced
  cases hfile : s.files place with
  | none => exact kept_concat.2 ⟨h, hmoved _⟩
  | some old =>
    rw [← List.append_assoc]
    exact kept_concat.2 ⟨kept_concat.2 ⟨h, hinside, hold old hfile⟩, hmoved _⟩

/-- A task that only replaces what may be lost, whether it ends well or not. -/
theorem Kept.task {s : World} {t : Task} (h : Kept sys version inside excluded s.events)
    (hupdate : ∀ place, sys.locate t.fn = some place → t.Updates (idsOf sys s.files) place →
      (∃ newest ∈ t.history.head?, ∃ data, sys.sha256 data = newest.objectId) →
      inside place ∧ ∀ old, s.files place = some old →
        ¬ excluded place ∧ Saved sys version s.events place old) :
    (∀ s', t.Did sys s s' → Kept sys version inside excluded s'.events) ∧
      ∀ s', t.Stopped sys s s' → Kept sys version inside excluded s'.events := by
  constructor
  · intro s' hdid
    cases hdid with
    | skipped _ _ _ _ h' => rwa [h'.2]
    | current _ _ _ _ _ _ _ h' => rwa [h'.2]
    | uploaded name _ data _ _ _ _ h' =>
      rw [h'.2]
      exact kept_concat.2 ⟨h, trivial⟩
    | fetched place newest data hplace hupdates hnewest hsha h' =>
      obtain ⟨hinside, hold⟩ := hupdate place hplace hupdates ⟨newest, hnewest, data, hsha⟩
      rw [h'.2]
      exact kept_replaced h hinside hold data
  · intro s' hstopped
    cases hstopped with
    | before h' => rwa [h'.2]
    | between place old newest hplace hold hupdates hnewest hsha h' =>
      obtain ⟨hinside, hsaved⟩ := hupdate place hplace hupdates ⟨newest, hnewest, hsha⟩
      rw [h'.2]
      exact kept_concat.2 ⟨h, hinside, hsaved old hold⟩

end Kept

end Tasks

end Vds.CmdApp
