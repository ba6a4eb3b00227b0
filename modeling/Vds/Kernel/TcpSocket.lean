import Vds.Library.LabelledRun
import Vds.Kernel.NetworkService

/-! Reading from a TCP socket on Linux: `_read_socket_task` and what the socket does with the events
of epoll. The calls of `write_async` of the target end when they like, and in which order. -/

namespace Vds

open Library.LabelledRun

/-- The events of epoll that concern the reader. -/
structure EpollEvents where
  epollIn : Bool := false
  epollRdhup : Bool := false
  epollHup : Bool := false
  epollErr : Bool := false
  deriving DecidableEq, Repr

def EpollEvents.hangUp (events : EpollEvents) : Bool := events.epollRdhup || events.epollHup || events.epollErr

/-- What `read` returns. -/
inductive ReadOutcome
  /-- So many of the bytes that are there. -/
  | bytes (len : Nat)
  | endOfStream
  /-- `EAGAIN` -/
  | again
  | failed
  deriving DecidableEq, Repr

/-- What is to be done when a call of the target's `write_async` ends. -/
inductive Continuation
  /-- That of `process`, for a write of `len` bytes. -/
  | process (len : Nat)
  | resetTarget
  deriving DecidableEq, Repr

structure TcpSocket where
  association : Association := {}
  /-- The handle is not closed. -/
  isOpen : Bool := true
  /-- `read_task_` is set. -/
  readTask : Bool := false
  /-- `target_` is set. -/
  target : Bool := true
  /-- `process` is between its parts for `EPOLLIN` and for a hang-up, and there is one. -/
  hangUpDue : Bool := false
  /-- What the peer has sent. -/
  sent : ConstDataBuffer := []
  unread : ConstDataBuffer := []
  peerClosed : Bool := false
  isReset : Bool := false
  closedLocally : Bool := false
  /-- The data of the calls of the target's `write_async`. -/
  writes : List ConstDataBuffer := []
  /-- The calls of the target that have not ended. -/
  pending : List Continuation := []
  /-- The target has ended a call for data with an error. -/
  refused : Bool := false
  nullUsed : Bool := false
  deriving DecidableEq, Repr

namespace TcpSocket

inductive Action
  | send (data : ConstDataBuffer)
  | peerClose
  | reset
  /-- An event of epoll, up to the part for a hang-up. -/
  | event (events : EpollEvents) (outcome : ReadOutcome)
  /-- The part of `process` for a hang-up. -/
  | hangUp
  /-- A call of the target ends; if the reader goes on, it reads `outcome`. -/
  | complete (call : Nat) (hasError : Bool) (outcome : ReadOutcome)
  /-- The writer of the socket starts, or ceases, to wait for `EPOLLOUT`. -/
  | writerWaits
  | writerDone
  | close
  deriving DecidableEq, Repr

def eventMasks (s : TcpSocket) : EventMask := s.association.eventMasks

/-- The size of `buffer_`. -/
def bufferSize : Nat := 1024

/-- What `read` may return. -/
def canRead (s : TcpSocket) : ReadOutcome → Bool
  | .bytes len => 0 < len && len ≤ bufferSize && len ≤ s.unread.length
  | .endOfStream => (s.unread.isEmpty && s.peerClosed) || s.isReset
  | .again => true
  | .failed => s.isReset

/-- A call of the target's `write_async`. -/
def writeAsync (s : TcpSocket) (data : ConstDataBuffer) (continuation : Continuation) : TcpSocket :=
  if s.target then { s with writes := s.writes ++ [data], pending := s.pending ++ [continuation] }
  else { s with nullUsed := true }

/-- `change_mask` with what is done when it succeeds; the other component is whether it has. -/
def changeMask (s : TcpSocket) (events clearEvents : EventMask) (next : TcpSocket → TcpSocket) :
    TcpSocket × Bool :=
  match s.association.changeMask events clearEvents with
  | (association, .ok ()) => (next { s with association := association }, true)
  | (association, .error _) => ({ s with association := association }, false)

/-- `_read_socket_task::process` -/
def processRead (s : TcpSocket) (outcome : ReadOutcome) : TcpSocket × Bool :=
  if !s.isOpen then (s, false)
  else
    match outcome with
    | .again => s.changeMask .readable .zero id
    | .failed => s.changeMask .zero .readable fun s => s.writeAsync [] .resetTarget
    | .endOfStream => s.changeMask .zero .readable fun s => s.writeAsync [] (.process 0)
    | .bytes len =>
      let data := s.unread.take len
      { s with unread := s.unread.drop len }.changeMask .zero .readable fun s =>
        s.writeAsync data (.process len)

/-- `_read_socket_task::close_read`, and `read_task_.reset()` after it. -/
def closeRead (s : TcpSocket) : TcpSocket := { s.writeAsync [] .resetTarget with readTask := false }

/-- `_read_socket_task::start` -/
def start (s : TcpSocket) : TcpSocket := ({ s with readTask := true }.changeMask .readable .zero id).1

/-- The part of `_tcp_network_socket::process` for `EPOLLIN`. -/
def processEvents (s : TcpSocket) (events : EpollEvents) (outcome : ReadOutcome) : TcpSocket :=
  if !events.epollIn then { s with hangUpDue := events.hangUp }
  else if !s.eventMasks.epollIn then s
  else if !s.readTask then { s with nullUsed := true }
  else
    match s.processRead outcome with
    | (s, true) => { s with hangUpDue := events.hangUp }
    | (s, false) => s

def processHangUp (s : TcpSocket) : TcpSocket :=
  let s := { s with hangUpDue := false }
  if s.readTask then s.closeRead else s

/-- What runs at the end of a call of the target. -/
def continue' (s : TcpSocket) (continuation : Continuation) (hasError : Bool) (outcome : ReadOutcome) :
    TcpSocket :=
  match continuation with
  | .resetTarget => { s with target := false }
  | .process len =>
    if 0 < len ∧ !hasError then (s.processRead outcome).1
    else { s with refused := s.refused || decide (0 < len) }

/-- The rest of `close`, after `close_read`; without a writer that waits its bit is not in the mask. -/
def closeHandle (s : TcpSocket) : TcpSocket :=
  let s := (s.changeMask .zero .writable id).1
  if s.eventMasks = .zero then { s with isOpen := false }
  else
    match { s.association with eventMasks := .zero }.removeAssociation with
    | (association, .ok ()) => { s with association := association, isOpen := false }
    | (association, .error _) => { s with association := association }

/-- `_tcp_network_socket::close` -/
def close (s : TcpSocket) : TcpSocket :=
  if !s.isOpen then s
  else
    let s := { s with closedLocally := true }
    (if s.readTask then s.closeRead else s).closeHandle

/-- Events come while epoll has the handle, those for a hang-up once the peer has closed or the
connection is reset. After the use of a null pointer there is no step. -/
def step (s : TcpSocket) (a : Action) : Option TcpSocket :=
  if s.nullUsed then none
  else
    match a with
    | .send data =>
      if s.peerClosed || s.isReset then none
      else some { s with sent := s.sent ++ data, unread := s.unread ++ data }
    | .peerClose => some { s with peerClosed := true }
    | .reset => some { s with isReset := true }
    | .event events outcome =>
      if s.association.watched.isSome ∧ s.hangUpDue = false ∧
          (events.hangUp = true → s.peerClosed = true ∨ s.isReset = true) ∧ s.canRead outcome = true then
        some (s.processEvents events outcome)
      else none
    | .hangUp => if s.hangUpDue then some s.processHangUp else none
    | .complete call hasError outcome =>
      match s.pending[call]? with
      | some continuation =>
        if s.canRead outcome then
          some ({ s with pending := s.pending.eraseIdx call }.continue' continuation hasError outcome)
        else none
      | none => none
    | .writerWaits => if s.isOpen then some (s.changeMask .writable .zero id).1 else none
    | .writerDone => if s.isOpen then some (s.changeMask .zero .writable id).1 else none
    | .close => some s.close

/-- The end of the stream has been written. -/
def Ended (s : TcpSocket) : Prop := [] ∈ s.writes

instance decidableEnded (s : TcpSocket) : Decidable s.Ended := inferInstanceAs (Decidable ([] ∈ s.writes))

/-! ### Reading ends once -/

/-- What the target has got when it has got the data `pieces`, and perhaps the end after them. -/
def Written (s : TcpSocket) (pieces : List ConstDataBuffer) : Prop :=
  (∀ piece ∈ pieces, piece ≠ []) ∧ pieces.flatten <+: s.sent ∧
    (s.writes = pieces ∨ s.writes = pieces ++ [[]] ∧
      (s.peerClosed = true ∧ pieces.flatten = s.sent ∨
        s.isReset = true ∨ s.closedLocally = true ∨ s.refused = true))

/-- The target gets the bytes of the peer in order, in one call at a time, and at the end one empty
write; before the end a call of the target or an event is waited for. -/
structure ReadsOnce (s : TcpSocket) : Prop where
  notNull : s.nullUsed = false
  oneCall : s.pending.length ≤ 1
  written : ∃ pieces, s.Written pieces
  goesOn : s.Ended ∨ s.pending ≠ [] ∨ s.refused = true ∨
    s.readTask = true ∧ s.isOpen = true ∧ s.eventMasks.epollIn = true ∧
      s.association.watched = some s.eventMasks

/-- The reader may be closed: no call of the target is pending and the end is not written. -/
def MayClose (s : TcpSocket) : Prop := s.readTask = true → s.pending = [] ∧ ¬s.Ended

/-- A hang-up is handled and the socket closed only when the reader waits, a hang-up only when nothing
is unread, and after a hang-up there is no event for reading. -/
def Timely (s : TcpSocket) : Action → Prop
  | .event events _ => events.epollIn = true → s.eventMasks.epollIn = true → s.readTask = true
  | .hangUp => s.MayClose ∧
      (s.readTask = true → s.unread = [] ∨ s.isReset = true ∨ s.refused = true)
  | .close => s.isOpen = true → s.MayClose
  | _ => True

/-! ### The invariant -/

/-- What has been read has been written, and the end after it. -/
def Passed (s : TcpSocket) : Prop := ∃ pieces : List ConstDataBuffer, (∀ piece ∈ pieces, piece ≠ []) ∧
  pieces.flatten ++ s.unread = s.sent ∧ (s.writes = pieces ∨ s.writes = pieces ++ [[]])

/-- The end has been written for a reason. -/
def EndReason (s : TcpSocket) : Prop :=
  s.peerClosed = true ∧ s.unread = [] ∨ s.isReset = true ∨ s.closedLocally = true ∨ s.refused = true

/-- The reader may read. -/
structure Ready (s : TcpSocket) : Prop where
  notNull : s.nullUsed = false
  association : s.association = .ofMask s.eventMasks
  passed : s.Passed
  hangUp : s.hangUpDue = true → s.peerClosed = true ∨ s.isReset = true
  notEnded : ¬s.Ended
  isOpen : s.isOpen = true
  target : s.target = true
  readTask : s.readTask = true
  notClosed : s.closedLocally = false
  idle : s.pending = []

structure Inv (s : TcpSocket) : Prop where
  notNull : s.nullUsed = false
  association : s.association = .ofMask s.eventMasks
  passed : s.Passed
  hangUp : s.hangUpDue = true → s.peerClosed = true ∨ s.isReset = true
  reading : ¬s.Ended → s.isOpen = true ∧ s.target = true ∧ s.readTask = true ∧ s.closedLocally = false ∧
    (s.pending = [] ∧ (s.eventMasks.epollIn = true ∨ s.refused = true) ∨
      ∃ len, 0 < len ∧ s.pending = [.process len] ∧ s.eventMasks.epollIn = false)
  ended : s.Ended → (s.pending = [] ∨ s.pending = [.process 0] ∨ s.pending = [.resetTarget]) ∧
    (s.eventMasks.epollIn = true → s.readTask = false) ∧ s.EndReason

section Steps

variable {s t : TcpSocket}

theorem changeMask_eq (h : s.association = .ofMask s.eventMasks) (events clearEvents : EventMask)
    (next : TcpSocket → TcpSocket) : s.changeMask events clearEvents next =
      (next { s with association := .ofMask ((s.eventMasks.add events).clear clearEvents) }, true) := by
  unfold changeMask
  rw [h, Association.changeMask_ofMask]

theorem Passed.writes_cases (h : s.Passed) : ¬s.Ended ∧ (∀ piece ∈ s.writes, piece ≠ []) ∧
      s.writes.flatten ++ s.unread = s.sent ∨
    s.Ended ∧ ∃ pieces : List ConstDataBuffer, (∀ piece ∈ pieces, piece ≠ []) ∧
      pieces.flatten ++ s.unread = s.sent ∧ s.writes = pieces ++ [[]] := by
  obtain ⟨pieces, hne, hsent, hwrites | hwrites⟩ := h
  · refine .inl ⟨fun hend => ?_, ?_, ?_⟩
    · rw [Ended, hwrites] at hend
      exact hne [] hend rfl
    · rwa [hwrites]
    · rwa [hwrites]
  · refine .inr ⟨?_, pieces, hne, hsent, hwrites⟩
    rw [Ended, hwrites]
    exact List.mem_append_right _ List.mem_cons_self

theorem Ready.writes (h : s.Ready) :
    (∀ piece ∈ s.writes, piece ≠ []) ∧ s.writes.flatten ++ s.unread = s.sent := by
  rcases h.passed.writes_cases with ⟨-, hwrites⟩ | ⟨hend, -⟩
  · exact hwrites
  · exact absurd hend h.notEnded

/-- The end is written, and nothing is read for. -/
theorem Ready.inv_end (h : s.Ready) {mask : EventMask} {continuation : Continuation}
    {readTask isOpen closedLocally : Bool} (hmask : mask.epollIn = true → readTask = false)
    (hcontinuation : continuation = .process 0 ∨ continuation = .resetTarget)
    (hreason : s.EndReason ∨ closedLocally = true) :
    ({ s with
      association := .ofMask mask
      readTask := readTask
      isOpen := isOpen
      closedLocally := closedLocally
      writes := s.writes ++ [[]]
      pending := [continuation] } : TcpSocket).Inv where
  notNull := h.notNull
  association := rfl
  passed := ⟨s.writes, h.writes.1, h.writes.2, .inr rfl⟩
  hangUp := h.hangUp
  reading := fun hnot => absurd (List.mem_append_right _ List.mem_cons_self) hnot
  ended := fun _ => by
    refine ⟨by rcases hcontinuation with rfl | rfl <;> simp, hmask, ?_⟩
    rcases hreason with (hclosed | hreset | hlocal | hrefused) | hlocal
    · exact .inl hclosed
    · exact .inr (.inl hreset)
    · exact absurd (h.notClosed.symm.trans hlocal) Bool.false_ne_true
    · exact .inr (.inr (.inr hrefused))
    · exact .inr (.inr (.inl hlocal))

/-- What `process` does when the reader may read. -/
theorem Ready.processRead (h : s.Ready) {outcome : ReadOutcome} (hcan : s.canRead outcome = true) :
    (s.processRead outcome).1.Inv ∧ (s.processRead outcome).2 = true ∧
      (s.processRead outcome).1.peerClosed = s.peerClosed ∧ (s.processRead outcome).1.isReset = s.isReset := by
  have hclear : ((s.eventMasks.add .zero).clear .readable).epollIn = false := by
    simp [EventMask.readable, EventMask.zero]
  cases outcome with
  | again =>
    have heq : s.processRead .again =
        ({ s with association := .ofMask ((s.eventMasks.add .readable).clear .zero) }, true) := by
      simp [TcpSocket.processRead, h.isOpen, changeMask_eq h.association]
    rw [heq]
    refine ⟨?_, rfl, rfl, rfl⟩
    exact {
      notNull := h.notNull
      association := rfl
      passed := h.passed
      hangUp := h.hangUp
      reading := fun _ => ⟨h.isOpen, h.target, h.readTask, h.notClosed, .inl ⟨h.idle, .inl (by
        simp [eventMasks, EventMask.readable, EventMask.zero])⟩⟩
      ended := fun hend => absurd hend h.notEnded }
  | failed =>
    have heq : s.processRead .failed =
        ({ s with
          association := .ofMask ((s.eventMasks.add .zero).clear .readable)
          writes := s.writes ++ [[]]
          pending := [.resetTarget] }, true) := by
      simp [TcpSocket.processRead, writeAsync, h.isOpen, changeMask_eq h.association, h.target, h.idle]
    rw [heq]
    exact ⟨h.inv_end (fun hin => absurd (hclear.symm.trans hin) Bool.false_ne_true) (.inr rfl)
      (.inl (.inr (.inl hcan))), rfl, rfl, rfl⟩
  | endOfStream =>
    have heq : s.processRead .endOfStream =
        ({ s with
          association := .ofMask ((s.eventMasks.add .zero).clear .readable)
          writes := s.writes ++ [[]]
          pending := [.process 0] }, true) := by
      simp [TcpSocket.processRead, writeAsync, h.isOpen, changeMask_eq h.association, h.target, h.idle]
    rw [heq]
    refine ⟨h.inv_end (fun hin => absurd (hclear.symm.trans hin) Bool.false_ne_true) (.inl rfl) (.inl ?_), rfl, rfl, rfl⟩
    simp only [canRead, Bool.or_eq_true, Bool.and_eq_true, List.isEmpty_iff] at hcan
    rcases hcan with ⟨hunread, hclosed⟩ | hreset
    · exact .inl ⟨hclosed, hunread⟩
    · exact .inr (.inl hreset)
  | bytes len =>
    simp only [canRead, Bool.and_eq_true, decide_eq_true_iff] at hcan
    have hdata : s.unread.take len ≠ [] := by
      rw [Ne, List.take_eq_nil_iff]
      rintro (rfl | hnil)
      · exact absurd hcan.1.1 (lt_irrefl 0)
      · have hlen := hcan.2
        rw [hnil, List.length_nil] at hlen
        omega
    have hassociation : ({ s with unread := s.unread.drop len } : TcpSocket).association =
        .ofMask ({ s with unread := s.unread.drop len } : TcpSocket).eventMasks := h.association
    have heq : s.processRead (.bytes len) =
        ({ s with
          association := .ofMask ((s.eventMasks.add .zero).clear .readable)
          unread := s.unread.drop len
          writes := s.writes ++ [s.unread.take len]
          pending := [.process len] }, true) := by
      simp only [TcpSocket.processRead, changeMask_eq hassociation, writeAsync]
      simp [h.isOpen, h.target, h.idle, eventMasks]
    have hnot : [] ∉ s.writes ++ [s.unread.take len] := by
      intro hend
      rcases List.mem_append.mp hend with hin | hin
      · exact h.notEnded hin
      · exact hdata (List.mem_singleton.mp hin).symm
    rw [heq]
    refine ⟨?_, rfl, rfl, rfl⟩
    exact {
      notNull := h.notNull
      association := rfl
      passed := by
        refine ⟨s.writes ++ [s.unread.take len], fun piece hpiece => ?_, ?_, .inl rfl⟩
        · rcases List.mem_append.mp hpiece with hin | hin
          · exact h.writes.1 piece hin
          · exact List.mem_singleton.mp hin ▸ hdata
        · rw [List.flatten_append, List.flatten_singleton, List.append_assoc, List.take_append_drop]
          exact h.writes.2
      hangUp := h.hangUp
      reading := fun _ => ⟨h.isOpen, h.target, h.readTask, h.notClosed,
        .inr ⟨len, hcan.1.1, rfl, hclear⟩⟩
      ended := fun hend => absurd hend hnot }

/-- A call for data has ended, and the reader reads on. -/
theorem Inv.ready (h : s.Inv) (hnot : ¬s.Ended) : ({ s with pending := [] } : TcpSocket).Ready := by
  obtain ⟨hopen, htarget, htask, hclosed, -⟩ := h.reading hnot
  exact ⟨h.notNull, h.association, h.passed, h.hangUp, hnot, hopen, htarget, htask, hclosed, rfl⟩

theorem Inv.ready_of_idle (h : s.Inv) (hnot : ¬s.Ended) (hidle : s.pending = []) : s.Ready := by
  have hready := h.ready hnot
  rwa [← hidle] at hready

/-- A change of the writer's bit. -/
theorem Inv.writerMask (h : s.Inv) {mask : EventMask} (hin : mask.epollIn = s.eventMasks.epollIn) :
    ({ s with association := .ofMask mask } : TcpSocket).Inv where
  notNull := h.notNull
  association := rfl
  passed := h.passed
  hangUp := h.hangUp
  reading := fun hnot => by
    obtain ⟨hopen, htarget, htask, hclosed, hwait⟩ := h.reading hnot
    rw [← hin] at hwait
    exact ⟨hopen, htarget, htask, hclosed, hwait⟩
  ended := fun hend => by
    obtain ⟨hpending, hmask, hreason⟩ := h.ended hend
    rw [← hin] at hmask
    exact ⟨hpending, hmask, hreason⟩

theorem Inv.setHangUpDue (h : s.Inv) {due : Bool} (hdue : due = true → s.peerClosed = true ∨ s.isReset = true) :
    ({ s with hangUpDue := due } : TcpSocket).Inv where
  notNull := h.notNull
  association := h.association
  passed := h.passed
  hangUp := hdue
  reading := h.reading
  ended := h.ended

theorem Inv.processEvents (h : s.Inv) {events : EpollEvents} {outcome : ReadOutcome}
    (hhangUp : events.hangUp = true → s.peerClosed = true ∨ s.isReset = true)
    (hcan : s.canRead outcome = true) (htimely : s.Timely (.event events outcome)) :
    (s.processEvents events outcome).Inv := by
  unfold TcpSocket.processEvents
  split_ifs with hevent hmask htask
  · exact h.setHangUpDue hhangUp
  · exact h
  · simp only [Bool.not_eq_true, Bool.not_eq_true', Bool.not_eq_false] at hevent hmask htask
    rw [htimely hevent hmask] at htask
    cases htask
  · simp only [Bool.not_eq_true, Bool.not_eq_true', Bool.not_eq_false] at hevent hmask htask
    have hnot : ¬s.Ended := fun hend => by
      rw [(h.ended hend).2.1 hmask] at htask
      cases htask
    have hidle : s.pending = [] := by
      obtain ⟨-, -, -, -, ⟨hidle, -⟩ | ⟨len, -, -, hclear⟩⟩ := h.reading hnot
      · exact hidle
      · rw [hmask] at hclear
        cases hclear
    obtain ⟨hinv, hok, hclosed, hreset⟩ := (h.ready_of_idle hnot hidle).processRead hcan
    rw [← hclosed, ← hreset] at hhangUp
    cases hrun : s.processRead outcome with
    | mk t ok =>
      rw [hrun] at hinv hok hhangUp
      cases hok
      exact hinv.setHangUpDue hhangUp

/-- The end is written where the reader may be closed. -/
theorem Inv.closeRead (h : s.Inv) (htask : s.readTask = true) (hmay : s.MayClose) (hreason : s.EndReason) :
    s.closeRead.Inv := by
  obtain ⟨hidle, hnot⟩ := hmay htask
  have hready := h.ready_of_idle hnot hidle
  have heq : s.closeRead = { s with
      association := .ofMask s.eventMasks
      readTask := false
      writes := s.writes ++ [[]]
      pending := [.resetTarget] } := by
    simp [TcpSocket.closeRead, writeAsync, hready.target, hidle, ← h.association]
  rw [heq]
  exact hready.inv_end (fun _ => rfl) (.inr rfl) (.inl hreason)

theorem Inv.processHangUp (h : s.Inv) (hdue : s.hangUpDue = true) (htimely : s.Timely .hangUp) :
    s.processHangUp.Inv := by
  have hinv : ({ s with hangUpDue := false } : TcpSocket).Inv := h.setHangUpDue fun hf => (by cases hf)
  unfold TcpSocket.processHangUp
  by_cases htask : s.readTask = true
  · rw [if_pos htask]
    refine hinv.closeRead htask htimely.1 ?_
    rcases htimely.2 htask with hunread | hreset | hrefused
    · rcases h.hangUp hdue with hclosed | hreset
      · exact .inl ⟨hclosed, hunread⟩
      · exact .inr (.inl hreset)
    · exact .inr (.inl hreset)
    · exact .inr (.inr (.inr hrefused))
  · rw [if_neg htask]
    exact hinv

theorem closeRead_association (s : TcpSocket) : s.closeRead.association = s.association := by
  unfold TcpSocket.closeRead writeAsync
  split_ifs <;> rfl

theorem closeHandle_eq (h : s.association = .ofMask s.eventMasks) :
    s.closeHandle = { s with association := .ofMask .zero, isOpen := false } := by
  unfold closeHandle
  rw [changeMask_eq h]
  generalize (s.eventMasks.add .zero).clear .writable = mask
  by_cases hzero : mask = .zero
  · subst hzero
    rfl
  · simp [eventMasks, hzero, Association.ofMask, Association.removeAssociation]

theorem Inv.close (h : s.Inv) (htimely : s.Timely .close) : s.close.Inv := by
  by_cases hopen : s.isOpen = true
  · unfold TcpSocket.close
    rw [if_neg (by simp [hopen])]
    change ((if s.readTask = true then ({ s with closedLocally := true } : TcpSocket).closeRead
      else { s with closedLocally := true }).closeHandle).Inv
    by_cases htask : s.readTask = true
    · obtain ⟨hidle, hnot⟩ := htimely hopen htask
      have hready := h.ready_of_idle hnot hidle
      have heq : ({ s with closedLocally := true } : TcpSocket).closeRead =
          { s with
            closedLocally := true
            readTask := false
            writes := s.writes ++ [[]]
            pending := [.resetTarget] } := by
        simp [TcpSocket.closeRead, writeAsync, hready.target, hidle]
      rw [if_pos htask, heq, closeHandle_eq]
      · exact hready.inv_end (fun hin => (by cases hin)) (.inr rfl) (.inr rfl)
      · exact h.association
    · have hend : s.Ended := by
        by_contra hnot
        exact htask (h.reading hnot).2.2.1
      rw [if_neg htask, closeHandle_eq]
      · exact {
          notNull := h.notNull
          association := rfl
          passed := h.passed
          hangUp := h.hangUp
          reading := fun hnot => absurd hend hnot
          ended := fun _ => ⟨(h.ended hend).1, fun hin => (by cases hin), .inr (.inr (.inl rfl))⟩ }
      · exact h.association
  · unfold TcpSocket.close
    rw [if_pos (by simp [hopen])]
    exact h

/-- What the end of a call of the target does. -/
theorem Inv.complete (h : s.Inv) {call : Nat} {continuation : Continuation} {hasError : Bool}
    {outcome : ReadOutcome} (hcall : s.pending[call]? = some continuation)
    (hcan : s.canRead outcome = true) :
    ({ s with pending := s.pending.eraseIdx call }.continue' continuation hasError outcome).Inv := by
  have hempty : ∀ c : Continuation, s.pending = [c] → s.pending.eraseIdx call = [] ∧ c = continuation := by
    intro c hpending
    rw [hpending] at hcall ⊢
    cases call with
    | zero => exact ⟨rfl, Option.some_inj.mp hcall⟩
    | succ call => cases hcall
  by_cases hend : s.Ended
  · obtain ⟨hpending, hmask, hreason⟩ := h.ended hend
    have hinv : ∀ target refused : Bool, (s.refused = true → refused = true) → ({ s with
        pending := [], target := target, refused := refused } : TcpSocket).Inv := by
      intro target refused hrefused
      exact {
        notNull := h.notNull
        association := h.association
        passed := h.passed
        hangUp := h.hangUp
        reading := fun hnot => absurd hend hnot
        ended := fun _ => ⟨.inl rfl, hmask, hreason.imp id (Or.imp id (Or.imp id hrefused))⟩ }
    rcases hpending with hpending | hpending | hpending
    · rw [hpending] at hcall
      cases hcall
    · obtain ⟨herase, rfl⟩ := hempty _ hpending
      rw [herase]
      exact hinv s.target (s.refused || decide (0 < 0)) (by simp)
    · obtain ⟨herase, rfl⟩ := hempty _ hpending
      rw [herase]
      exact hinv false s.refused id
  · obtain ⟨hopen, htarget, htask, hclosed, ⟨hidle, -⟩ | ⟨len, hlen, hpending, -⟩⟩ := h.reading hend
    · rw [hidle] at hcall
      cases hcall
    · obtain ⟨herase, rfl⟩ := hempty _ hpending
      have hready := h.ready hend
      rw [herase]
      unfold continue'
      by_cases herror : hasError = true
      · simp only [herror, hlen, Bool.not_true, Bool.false_eq_true, and_false, if_false, decide_true,
          Bool.or_true]
        exact {
          notNull := h.notNull
          association := h.association
          passed := h.passed
          hangUp := h.hangUp
          reading := fun _ => ⟨hopen, htarget, htask, hclosed, .inl ⟨rfl, .inr rfl⟩⟩
          ended := fun hend' => absurd hend' hend }
      · rw [Bool.not_eq_true] at herror
        simp only [herror, hlen, Bool.not_false, and_self, if_true]
        exact (hready.processRead hcan).1

/-- A timely step keeps the invariant. -/
theorem Inv.step (h : s.Inv) {a : Action} (htimely : s.Timely a) (hstep : s.step a = some t) : t.Inv := by
  unfold TcpSocket.step at hstep
  rw [if_neg (by rw [h.notNull]; exact Bool.false_ne_true)] at hstep
  cases a with
  | send data =>
    simp only [Option.ite_none_left_eq_some, Option.some_inj, Bool.or_eq_true, not_or] at hstep
    obtain ⟨⟨hclosed, hreset⟩, rfl⟩ := hstep
    exact {
      notNull := h.notNull
      association := h.association
      passed := by
        obtain ⟨pieces, hne, hsent, hwrites⟩ := h.passed
        exact ⟨pieces, hne, by rw [← List.append_assoc, hsent], hwrites⟩
      hangUp := h.hangUp
      reading := h.reading
      ended := fun hend => by
        obtain ⟨hpending, hmask, ⟨hpeer, -⟩ | hreason⟩ := h.ended hend
        · exact absurd hpeer hclosed
        · exact ⟨hpending, hmask, .inr hreason⟩ }
  | peerClose =>
    cases hstep
    exact { h with
      hangUp := fun _ => .inl rfl
      ended := fun hend => ⟨(h.ended hend).1, (h.ended hend).2.1,
        (h.ended hend).2.2.imp (fun hboth => ⟨rfl, hboth.2⟩) id⟩ }
  | reset =>
    cases hstep
    exact { h with
      hangUp := fun _ => .inr rfl
      ended := fun hend => ⟨(h.ended hend).1, (h.ended hend).2.1, .inr (.inl rfl)⟩ }
  | event events outcome =>
    simp only [Option.ite_none_right_eq_some, Option.some_inj] at hstep
    obtain ⟨⟨-, -, hhangUp, hcan⟩, rfl⟩ := hstep
    exact h.processEvents hhangUp hcan htimely
  | hangUp =>
    simp only [Option.ite_none_right_eq_some, Option.some_inj] at hstep
    obtain ⟨hdue, rfl⟩ := hstep
    exact h.processHangUp hdue htimely
  | complete call hasError outcome =>
    cases hcall : s.pending[call]? with
    | none => simp [hcall] at hstep
    | some continuation =>
      simp only [hcall, Option.ite_none_right_eq_some, Option.some_inj] at hstep
      obtain ⟨hcan, rfl⟩ := hstep
      exact h.complete hcall hcan
  | writerWaits =>
    simp only [Option.ite_none_right_eq_some, Option.some_inj] at hstep
    obtain ⟨-, rfl⟩ := hstep
    rw [changeMask_eq h.association]
    exact h.writerMask (by simp [EventMask.writable, EventMask.zero])
  | writerDone =>
    simp only [Option.ite_none_right_eq_some, Option.some_inj] at hstep
    obtain ⟨-, rfl⟩ := hstep
    rw [changeMask_eq h.association]
    exact h.writerMask (by simp [EventMask.writable, EventMask.zero])
  | close =>
    cases hstep
    exact h.close htimely

/-- The invariant is what the target is promised. -/
theorem Inv.readsOnce (h : s.Inv) : s.ReadsOnce where
  notNull := h.notNull
  oneCall := by
    by_cases hend : s.Ended
    · rcases (h.ended hend).1 with hpending | hpending | hpending <;> simp [hpending]
    · obtain ⟨-, -, -, -, ⟨hpending, -⟩ | ⟨len, -, hpending, -⟩⟩ := h.reading hend <;> simp [hpending]
  written := by
    rcases h.passed.writes_cases with ⟨-, hne, hsent⟩ | ⟨hend, pieces, hne, hsent, hwrites⟩
    · exact ⟨s.writes, hne, ⟨s.unread, hsent⟩, .inl rfl⟩
    · refine ⟨pieces, hne, ⟨s.unread, hsent⟩, .inr ⟨hwrites, (h.ended hend).2.2.imp ?_ id⟩⟩
      rintro ⟨hclosed, hunread⟩
      rw [hunread, List.append_nil] at hsent
      exact ⟨hclosed, hsent⟩
  goesOn := by
    by_cases hend : s.Ended
    · exact .inl hend
    · obtain ⟨hopen, -, htask, -, ⟨-, hin | hrefused⟩ | ⟨len, -, hpending, -⟩⟩ := h.reading hend
      · have hne : s.eventMasks ≠ .zero := fun hz => by rw [hz] at hin; cases hin
        refine .inr (.inr (.inr ⟨htask, hopen, hin, ?_⟩))
        rw [h.association]
        exact Association.watched_of_eventMasks hne
      · exact .inr (.inr (.inl hrefused))
      · exact .inr (.inl (by rw [hpending]; exact List.cons_ne_nil _ _))

theorem inv_start : ({} : TcpSocket).start.Inv where
  notNull := rfl
  association := rfl
  passed := ⟨[], fun _ hp => (by cases hp), rfl, .inl rfl⟩
  hangUp := fun hdue => (by cases hdue)
  reading := fun _ => ⟨rfl, rfl, rfl, rfl, .inl ⟨rfl, .inl rfl⟩⟩
  ended := fun hend => (by cases hend)

theorem not_written_twice {writes pieces : List ConstDataBuffer} (hend : [] ∈ writes)
    (hne : ∀ piece ∈ pieces, piece ≠ []) : writes ++ [[]] ≠ pieces ∧ writes ++ [[]] ≠ pieces ++ [[]] := by
  constructor
  · rintro rfl
    exact hne [] (List.mem_append_right _ List.mem_cons_self) rfl
  · intro heq
    rw [List.append_cancel_right_eq] at heq
    exact hne [] (heq ▸ hend) rfl

/-- `close_read` while a call of the target is pending, or after the end. -/
theorem Inv.not_readsOnce (h : s.Inv) (hbad : ¬(s.pending = [] ∧ ¬s.Ended))
    (hnull : t.nullUsed = s.closeRead.nullUsed) (hwrites : t.writes = s.closeRead.writes)
    (hpending : t.pending = s.closeRead.pending) : ¬t.ReadsOnce := by
  intro hgood
  unfold TcpSocket.closeRead writeAsync at hnull hwrites hpending
  by_cases htarget : s.target = true
  · rw [if_pos htarget] at hwrites hpending
    by_cases hidle : s.pending = []
    · have hend : s.Ended := by
        by_contra hnot
        exact hbad ⟨hidle, hnot⟩
      obtain ⟨pieces, hne, -, heq | ⟨heq, -⟩⟩ := hgood.written
      · exact (not_written_twice hend hne).1 (hwrites.symm.trans heq)
      · exact (not_written_twice hend hne).2 (hwrites.symm.trans heq)
    · have hlen := hgood.oneCall
      rw [hpending, List.length_append, List.length_singleton] at hlen
      exact hidle (List.eq_nil_of_length_eq_zero (by omega))
  · rw [if_neg htarget] at hnull
    exact absurd (hgood.notNull.symm.trans hnull) Bool.false_ne_true

/-- A step that is not timely breaks what the target is promised. -/
theorem Inv.not_readsOnce_of_step (h : s.Inv) {a : Action} (hnot : ¬s.Timely a)
    (hstep : s.step a = some t) : ¬t.ReadsOnce := by
  unfold TcpSocket.step at hstep
  rw [if_neg (by rw [h.notNull]; exact Bool.false_ne_true)] at hstep
  cases a with
  | send data => exact absurd trivial hnot
  | peerClose => exact absurd trivial hnot
  | reset => exact absurd trivial hnot
  | complete call hasError outcome => exact absurd trivial hnot
  | writerWaits => exact absurd trivial hnot
  | writerDone => exact absurd trivial hnot
  | event events outcome =>
    simp only [Option.ite_none_right_eq_some, Option.some_inj] at hstep
    obtain ⟨-, rfl⟩ := hstep
    simp only [Timely, Classical.not_imp, Bool.not_eq_true] at hnot
    obtain ⟨hevent, hmask, htask⟩ := hnot
    intro hgood
    have hnull := hgood.notNull
    simp [TcpSocket.processEvents, hevent, hmask, htask] at hnull
  | hangUp =>
    simp only [Option.ite_none_right_eq_some, Option.some_inj] at hstep
    obtain ⟨hdue, rfl⟩ := hstep
    unfold TcpSocket.processHangUp
    by_cases hmay : s.MayClose
    · have hunread : ¬(s.readTask = true → s.unread = [] ∨ s.isReset = true ∨ s.refused = true) :=
        fun himp => hnot ⟨hmay, himp⟩
      simp only [Classical.not_imp, not_or] at hunread
      obtain ⟨htask, hunread, hreset, hrefused⟩ := hunread
      have hready := h.ready_of_idle (hmay htask).2 (hmay htask).1
      intro hgood
      have hwritten := hgood.written
      simp only [htask, if_true, TcpSocket.closeRead, writeAsync, hready.target] at hwritten
      obtain ⟨pieces, hne, -, heq | ⟨heq, hreason⟩⟩ := hwritten
      · exact hne [] (heq ▸ List.mem_append_right _ List.mem_cons_self) rfl
      · have hpieces : s.writes = pieces := List.append_cancel_right heq
        rcases hreason with ⟨-, hsent⟩ | hreason | hreason | hreason
        · have hall := hready.writes.2
          rw [hpieces, hsent, List.append_right_eq_self] at hall
          exact hunread hall
        · exact hreset hreason
        · exact absurd (hready.notClosed.symm.trans hreason) Bool.false_ne_true
        · exact hrefused hreason
    · simp only [MayClose, Classical.not_imp] at hmay
      obtain ⟨htask, hbad⟩ := hmay
      rw [if_pos htask]
      refine h.not_readsOnce hbad ?_ ?_ ?_ <;> (unfold TcpSocket.closeRead writeAsync; split_ifs <;> rfl)
  | close =>
    cases hstep
    simp only [Timely, MayClose, Classical.not_imp] at hnot
    obtain ⟨hopen, htask, hbad⟩ := hnot
    unfold TcpSocket.close
    rw [if_neg (by simp [hopen])]
    change ¬((if s.readTask = true then ({ s with closedLocally := true } : TcpSocket).closeRead
      else { s with closedLocally := true }).closeHandle).ReadsOnce
    rw [if_pos htask, closeHandle_eq]
    · refine h.not_readsOnce hbad ?_ ?_ ?_ <;> (unfold TcpSocket.closeRead writeAsync; split_ifs <;> rfl)
    · rw [eventMasks, closeRead_association]
      exact h.association

end Steps

/-! ### Whole runs -/

section Runs

variable {actions : List Action}

theorem always_inv (h : Always step ({} : TcpSocket).start actions ReadsOnce) :
    Always step ({} : TcpSocket).start actions Inv := by
  have hnext : EachStep step ({} : TcpSocket).start actions
      fun s a => ∀ t, s.step a = some t → t.ReadsOnce := by
    intro done a hdone s _ hs _ t hlast
    exact h (done ++ [a]) hdone t (run_concat_eq_some.2 ⟨s, hs, hlast⟩)
  refine always_of_eachStep inv_start (fun s a t hinv hgood hstep => ?_) hnext
  have htimely : s.Timely a := by
    by_contra hnot
    exact hinv.not_readsOnce_of_step hnot hstep (hgood t hstep)
  exact hinv.step htimely hstep

end Runs

end TcpSocket

end Vds
