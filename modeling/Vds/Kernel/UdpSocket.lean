import Vds.Library.LabelledRun
import Vds.Kernel.NetworkService

/-! A UDP socket on Linux: `read_async` and `write_async`, and what an event of epoll does with the
call that waits. The calls are numbered; each `set_value` of their results is recorded. -/

namespace Vds

open Library.LabelledRun

variable {α : Type}

/-- `udp_datagram`: `α` are the network addresses. -/
structure UdpDatagram (α : Type) where
  address : α
  data : ConstDataBuffer
  deriving DecidableEq, Repr

/-- What `recvfrom` returns; a datagram may be empty. -/
inductive Recvfrom (α : Type)
  | datagram (message : UdpDatagram α)
  | failed
  deriving DecidableEq, Repr

namespace Recvfrom

/-- The datagram, if `len` is not below or equal to zero. -/
def nonempty : Recvfrom α → Option (UdpDatagram α)
  | .datagram message => if message.data = [] then none else some message
  | .failed => none

end Recvfrom

/-- What `sendto` returns. -/
inductive Sendto
  | sent (len : Nat)
  | failed
  deriving DecidableEq, Repr

structure UdpSocket (α : Type) where
  association : Association := {}
  /-- `read_result_`: the call that it is the result of. -/
  readResult : Option Nat := none
  /-- `write_result_` -/
  writeResult : Option Nat := none
  writeMessage : Option (UdpDatagram α) := none
  /-- How many calls of `read_async` there were. -/
  reads : Nat := 0
  writes : Nat := 0
  readValues : List (Nat × Except NetworkError (UdpDatagram α)) := []
  writeValues : List (Nat × Except NetworkError Unit) := []
  /-- The datagrams that `recvfrom` has returned and that are not empty. -/
  received : List (UdpDatagram α) := []
  /-- A null pointer was used. -/
  nullUsed : Bool := false
  deriving DecidableEq

namespace UdpSocket

/-- `errno` may be that of an earlier call: a `recvfrom` that returns zero does not set it. -/
inductive Action (α : Type)
  | readAsync (outcome : Recvfrom α) (errno : Nat)
  | writeAsync (message : UdpDatagram α) (outcome : Sendto) (errno : Nat)
  /-- The part of `process` for `EPOLLIN`. What waits for a result that is set goes on in
  between the parts for the two events. -/
  | epollIn (outcome : Recvfrom α) (errno : Nat)
  | epollOut (outcome : Sendto) (errno : Nat)
  deriving DecidableEq, Repr

/-- The events of the mask. -/
def eventMasks (s : UdpSocket α) : EventMask := s.association.eventMasks

def setRead (s : UdpSocket α) (r : Option Nat) (value : Except NetworkError (UdpDatagram α)) : UdpSocket α :=
  match r with
  | some call => { s with readValues := s.readValues ++ [(call, value)] }
  | none => { s with nullUsed := true }

def setWrite (s : UdpSocket α) (r : Option Nat) (value : Except NetworkError Unit) : UdpSocket α :=
  match r with
  | some call => { s with writeValues := s.writeValues ++ [(call, value)] }
  | none => { s with nullUsed := true }

/-- `_udp_receive::read_async`; where `change_mask` fails, the task that is returned has the error. -/
def readAsync (s : UdpSocket α) (outcome : Recvfrom α) (errno : Nat) : UdpSocket α :=
  let r := s.reads
  let s := { s with reads := r + 1, received := s.received ++ outcome.nonempty.toList }
  match outcome.nonempty with
  | some message => s.setRead (some r) (.ok message)
  | none =>
    if errno = EAGAIN then
      let s := { s with readResult := some r }
      match s.association.changeMask .readable .zero with
      | (association, .ok ()) => { s with association := association }
      | (association, .error e) => { s with association := association }.setRead (some r) (.error e)
    else s.setRead (some r) (.error (.systemError errno "recvfrom"))

/-- `_udp_receive::process` -/
def processRead (s : UdpSocket α) (outcome : Recvfrom α) (errno : Nat) : UdpSocket α :=
  let r := s.readResult
  let s := { s with readResult := none, received := s.received ++ outcome.nonempty.toList }
  match outcome.nonempty with
  | some message =>
    match s.association.changeMask .zero .readable with
    | (association, .ok ()) => { s with association := association }.setRead r (.ok message)
    | (association, .error _) => { s with association := association }
  | none =>
    if errno = EAGAIN then s
    else
      match s.association.changeMask .zero .readable with
      | (association, .ok ()) =>
        { s with association := association }.setRead r (.error (.systemError errno "recvfrom"))
      | (association, .error _) => { s with association := association }

section Send

variable [ToString α]

/-- The error of a `sendto` that fails. -/
def sendError (errno : Nat) (message : UdpDatagram α) : NetworkError :=
  .systemError errno ("Send to " ++ toString message.address)

/-- The value for a `sendto` that has sent `len` bytes. -/
def sentValue (len : Nat) (message : UdpDatagram α) : Except NetworkError Unit :=
  if len ≠ message.data.length then .error (.runtimeError "Invalid send UDP") else .ok ()

/-- `_udp_send::write_async` -/
def writeAsync (s : UdpSocket α) (message : UdpDatagram α) (outcome : Sendto) (errno : Nat) : UdpSocket α :=
  let r := s.writes
  let s := { s with writes := r + 1 }
  match outcome with
  | .sent len => s.setWrite (some r) (sentValue len message)
  | .failed =>
    if errno = EAGAIN then
      let s := { s with writeMessage := some message, writeResult := some r }
      match s.association.changeMask .writable .zero with
      | (association, .ok ()) => { s with association := association }
      | (association, .error e) => { s with association := association }.setWrite (some r) (.error e)
    else s.setWrite (some r) (.error (sendError errno message))

/-- `_udp_send::process` -/
def processWrite (s : UdpSocket α) (outcome : Sendto) (errno : Nat) : UdpSocket α :=
  match s.writeMessage with
  | none => { s with nullUsed := true }
  | some message =>
    let r := s.writeResult
    let s := { s with writeResult := none }
    match outcome with
    | .sent len =>
      match s.association.changeMask .zero .writable with
      | (association, .ok ()) => { s with association := association }.setWrite r (sentValue len message)
      | (association, .error _) => { s with association := association }
    | .failed =>
      if errno = EAGAIN then s
      else
        match s.association.changeMask .zero .writable with
        | (association, .ok ()) =>
          { s with association := association }.setWrite r (.error (sendError errno message))
        | (association, .error _) => { s with association := association }

/-- A call of `read_async` whose result is not set. -/
def ReadWaits (s : UdpSocket α) (call : Nat) : Prop := call < s.reads ∧ call ∉ s.readValues.map Prod.fst

def WriteWaits (s : UdpSocket α) (call : Nat) : Prop := call < s.writes ∧ call ∉ s.writeValues.map Prod.fst

/-- There is no call of `read_async` whose result is not set. -/
def readDone (s : UdpSocket α) : Bool :=
  (List.range s.reads).all fun call => (s.readValues.map Prod.fst).contains call

def writeDone (s : UdpSocket α) : Bool :=
  (List.range s.writes).all fun call => (s.writeValues.map Prod.fst).contains call

/-- A call comes only when the one before has its result. An event whose bit is not in the mask is
answered with `Invalid state`. After the use of a null pointer there is no step. -/
def step (s : UdpSocket α) (a : Action α) : Option (UdpSocket α) :=
  if s.nullUsed then none
  else
    match a with
    | .readAsync outcome errno => if s.readDone then some (s.readAsync outcome errno) else none
    | .writeAsync message outcome errno =>
      if s.writeDone then some (s.writeAsync message outcome errno) else none
    | .epollIn outcome errno =>
      if s.eventMasks.epollIn then some (s.processRead outcome errno) else some s
    | .epollOut outcome errno =>
      if s.eventMasks.epollOut then some (s.processWrite outcome errno) else some s

end Send

/-! ### No operation is lost -/

/-- Each result is set at most once, a call that waits has its result object and its event, which
epoll watches for, and each datagram is the value of one call. -/
structure NeverLost (s : UdpSocket α) : Prop where
  notNull : s.nullUsed = false
  readOnce : (s.readValues.map Prod.fst).Nodup
  writeOnce : (s.writeValues.map Prod.fst).Nodup
  readWaits : ∀ call, s.ReadWaits call → s.readResult = some call ∧ s.eventMasks.epollIn = true ∧
    s.association.watched = some s.eventMasks
  writeWaits : ∀ call, s.WriteWaits call → s.writeResult = some call ∧ s.eventMasks.epollOut = true ∧
    s.association.watched = some s.eventMasks
  delivered : s.readValues.filterMap (fun value => value.2.toOption) = s.received

/-- A wake-up that is followed by `EAGAIN`, or by an empty datagram while `errno` is still `EAGAIN`. -/
def IdleWakeUp (s : UdpSocket α) : Action α → Prop
  | .epollIn outcome errno =>
    s.eventMasks.epollIn = true ∧ outcome.nonempty = none ∧ errno = EAGAIN
  | .epollOut outcome errno => s.eventMasks.epollOut = true ∧ outcome = .failed ∧ errno = EAGAIN
  | _ => False

/-! ### The invariant -/

/-- The calls got their results in order, the last one perhaps waits, and the mask says which wait. -/
structure Inv (s : UdpSocket α) : Prop where
  notNull : s.nullUsed = false
  association : s.association = .ofMask s.eventMasks
  readCalls : s.readValues.map Prod.fst ++ s.readResult.toList = List.range s.reads
  writeCalls : s.writeValues.map Prod.fst ++ s.writeResult.toList = List.range s.writes
  readMask : s.eventMasks.epollIn = s.readResult.isSome
  writeMask : s.eventMasks.epollOut = s.writeResult.isSome
  message : s.writeResult.isSome = true → s.writeMessage.isSome = true
  delivered : s.readValues.filterMap (fun value => value.2.toOption) = s.received

/-- One more value is recorded, and with it the datagram if it is one. -/
theorem delivered_concat (values : List (Nat × Except NetworkError (UdpDatagram α))) (call : Nat)
    (value : Except NetworkError (UdpDatagram α)) :
    (values ++ [(call, value)]).filterMap (fun value => value.2.toOption) =
      values.filterMap (fun value => value.2.toOption) ++ value.toOption.toList := by
  rw [List.filterMap_append]
  cases value <;> rfl

section Calls

variable {values : List Nat} {result : Option Nat} {calls : Nat}

theorem waiting_eq (h : values ++ result.toList = List.range calls) {call : Nat} (hlt : call < calls)
    (hnot : call ∉ values) : result = some call := by
  have hmem : call ∈ values ++ result.toList := by
    rw [h]
    exact List.mem_range.mpr hlt
  rcases List.mem_append.mp hmem with hin | hin
  · exact absurd hin hnot
  · exact Option.mem_toList.mp hin

theorem waits_of_result (h : values ++ result.toList = List.range calls) {call : Nat}
    (hresult : result = some call) : call < calls ∧ call ∉ values := by
  subst hresult
  have hnodup : (values ++ [call]).Nodup := by
    rw [show values ++ [call] = List.range calls from h]
    exact List.nodup_range
  constructor
  · rw [← List.mem_range, ← h]
    exact List.mem_append_right _ List.mem_cons_self
  · intro hin
    exact (List.nodup_append.mp hnodup).2.2 call hin call List.mem_cons_self rfl

/-- When each call has its result, nothing waits. -/
theorem result_eq_none (h : values ++ result.toList = List.range calls)
    (hdone : ((List.range calls).all fun call => values.contains call) = true) : result = none := by
  cases hresult : result with
  | none => rfl
  | some call =>
    obtain ⟨hlt, hnot⟩ := waits_of_result h hresult
    have hin := List.all_eq_true.mp hdone call (List.mem_range.mpr hlt)
    exact absurd (List.contains_iff_mem.mp hin) hnot

theorem nodup_values (h : values ++ result.toList = List.range calls) : values.Nodup :=
  (List.nodup_append.mp (h ▸ List.nodup_range)).1

end Calls

variable {s t : UdpSocket α}

theorem Inv.neverLost (h : s.Inv) : s.NeverLost where
  notNull := h.notNull
  readOnce := nodup_values h.readCalls
  writeOnce := nodup_values h.writeCalls
  readWaits := by
    rintro call ⟨hlt, hnot⟩
    have hresult := waiting_eq h.readCalls hlt hnot
    have hin : s.eventMasks.epollIn = true := by rw [h.readMask, hresult, Option.isSome_some]
    have hne : s.eventMasks ≠ .zero := fun hz => by rw [hz] at hin; cases hin
    refine ⟨hresult, hin, ?_⟩
    rw [h.association]
    exact Association.watched_of_eventMasks hne
  writeWaits := by
    rintro call ⟨hlt, hnot⟩
    have hresult := waiting_eq h.writeCalls hlt hnot
    have hout : s.eventMasks.epollOut = true := by rw [h.writeMask, hresult, Option.isSome_some]
    have hne : s.eventMasks ≠ .zero := fun hz => by rw [hz] at hout; cases hout
    refine ⟨hresult, hout, ?_⟩
    rw [h.association]
    exact Association.watched_of_eventMasks hne
  delivered := h.delivered

theorem inv_start : ({} : UdpSocket α).Inv := by
  constructor <;> first | rfl | exact fun h => (by cases h)

/-- `change_mask` with the bit for reading. -/
theorem Inv.changeMask (h : s.Inv) (events clearEvents : EventMask) :
    s.association.changeMask events clearEvents =
      (.ofMask ((s.eventMasks.add events).clear clearEvents), .ok ()) := by
  rw [h.association, Association.changeMask_ofMask]

theorem Inv.readAsync (h : s.Inv) (hdone : s.readDone = true) (outcome : Recvfrom α) (errno : Nat) :
    (s.readAsync outcome errno).Inv := by
  have hnone : s.readResult = none := result_eq_none h.readCalls hdone
  have hcalls : s.readValues.map Prod.fst = List.range s.reads := by
    have := h.readCalls
    rwa [hnone, Option.toList_none, List.append_nil] at this
  have hmask : s.eventMasks.epollIn = false := by rw [h.readMask, hnone, Option.isSome_none]
  unfold UdpSocket.readAsync
  cases hout : outcome.nonempty with
  | some message =>
    exact { h with
      readCalls := by simp [setRead, hnone, hcalls, List.range_succ]
      delivered := (delivered_concat _ _ _).trans (by rw [h.delivered]; rfl) }
  | none =>
    by_cases herr : errno = EAGAIN
    · simp only [herr, if_true, h.changeMask]
      exact { h with
        association := rfl
        readCalls := by simp [hcalls, List.range_succ]
        readMask := by simp [eventMasks, EventMask.readable, EventMask.zero]
        writeMask := by simpa [eventMasks, EventMask.readable, EventMask.zero] using h.writeMask
        delivered := by simp [h.delivered] }
    · simp only [herr, if_false]
      exact { h with
        readCalls := by simp [setRead, hnone, hcalls, List.range_succ]
        delivered := (delivered_concat _ _ _).trans (by rw [h.delivered]; rfl) }

theorem Inv.processRead (h : s.Inv) {outcome : Recvfrom α} {errno : Nat} (hin : s.eventMasks.epollIn = true)
    (hidle : ¬(outcome.nonempty = none ∧ errno = EAGAIN)) : (s.processRead outcome errno).Inv := by
  obtain ⟨call, hcall⟩ := Option.isSome_iff_exists.mp (h.readMask ▸ hin)
  have hcalls : s.readValues.map Prod.fst ++ [call] = List.range s.reads := by
    rw [← h.readCalls, hcall, Option.toList_some]
  unfold UdpSocket.processRead
  cases hout : outcome.nonempty with
  | some message =>
    simp only [hcall, setRead, h.changeMask]
    exact { h with
      association := rfl
      readCalls := by simp [hcalls]
      readMask := by simp [eventMasks, EventMask.readable, EventMask.zero]
      writeMask := by simpa [eventMasks, EventMask.readable, EventMask.zero] using h.writeMask
      delivered := (delivered_concat _ _ _).trans (by rw [h.delivered]; rfl) }
  | none =>
    have herr : errno ≠ EAGAIN := fun herr => hidle ⟨hout, herr⟩
    simp only [hcall, setRead, herr, if_false, h.changeMask]
    exact { h with
      association := rfl
      readCalls := by simp [hcalls]
      readMask := by simp [eventMasks, EventMask.readable, EventMask.zero]
      writeMask := by simpa [eventMasks, EventMask.readable, EventMask.zero] using h.writeMask
      delivered := (delivered_concat _ _ _).trans (by rw [h.delivered]; rfl) }

section Send

variable [ToString α]

theorem Inv.writeAsync (h : s.Inv) (hdone : s.writeDone = true) (message : UdpDatagram α) (outcome : Sendto)
    (errno : Nat) : (s.writeAsync message outcome errno).Inv := by
  have hnone : s.writeResult = none := result_eq_none h.writeCalls hdone
  have hcalls : s.writeValues.map Prod.fst = List.range s.writes := by
    have := h.writeCalls
    rwa [hnone, Option.toList_none, List.append_nil] at this
  unfold UdpSocket.writeAsync
  cases outcome with
  | sent len =>
    exact { h with
      writeCalls := by simp [setWrite, hnone, hcalls, List.range_succ] }
  | failed =>
    by_cases herr : errno = EAGAIN
    · simp only [herr, if_true, h.changeMask]
      exact { h with
        association := rfl
        writeCalls := by simp [hcalls, List.range_succ]
        readMask := by simpa [eventMasks, EventMask.writable, EventMask.zero] using h.readMask
        writeMask := by simp [eventMasks, EventMask.writable, EventMask.zero]
        message := fun _ => rfl }
    · simp only [herr, if_false]
      exact { h with
        writeCalls := by simp [setWrite, hnone, hcalls, List.range_succ] }

theorem Inv.processWrite (h : s.Inv) {outcome : Sendto} {errno : Nat} (hout : s.eventMasks.epollOut = true)
    (hidle : ¬(outcome = .failed ∧ errno = EAGAIN)) : (s.processWrite outcome errno).Inv := by
  obtain ⟨call, hcall⟩ := Option.isSome_iff_exists.mp (h.writeMask ▸ hout)
  have hcalls : s.writeValues.map Prod.fst ++ [call] = List.range s.writes := by
    rw [← h.writeCalls, hcall, Option.toList_some]
  obtain ⟨message, hmessage⟩ :=
    Option.isSome_iff_exists.mp (h.message (by rw [hcall]; rfl))
  -- both outcomes set the result and take the bit away
  have hset : ∀ value, ({ s with
      writeResult := none
      writeMessage := some message
      association := .ofMask ((s.eventMasks.add .zero).clear .writable)
      writeValues := s.writeValues ++ [(call, value)] } : UdpSocket α).Inv := fun value =>
    { h with
      association := rfl
      writeCalls := by simp [hcalls]
      readMask := by simpa [eventMasks, EventMask.writable, EventMask.zero] using h.readMask
      writeMask := by simp [eventMasks, EventMask.writable, EventMask.zero]
      message := fun hsome => (by cases hsome) }
  unfold UdpSocket.processWrite
  simp only [hmessage, hcall]
  cases outcome with
  | sent len =>
    simp only [h.changeMask]
    exact hset _
  | failed =>
    have herr : errno ≠ EAGAIN := fun herr => hidle ⟨rfl, herr⟩
    simp only [herr, if_false, h.changeMask]
    exact hset _

/-- A step that is no idle wake-up keeps the invariant. -/
theorem Inv.step (h : s.Inv) {a : Action α} (hidle : ¬s.IdleWakeUp a) (hstep : s.step a = some t) : t.Inv := by
  unfold UdpSocket.step at hstep
  rw [if_neg (by rw [h.notNull]; exact Bool.false_ne_true)] at hstep
  cases a with
  | readAsync outcome errno =>
    obtain ⟨hdone, heq⟩ := Option.ite_none_right_eq_some.mp hstep
    exact Option.some_inj.mp heq ▸ h.readAsync hdone outcome errno
  | writeAsync message outcome errno =>
    obtain ⟨hdone, heq⟩ := Option.ite_none_right_eq_some.mp hstep
    exact Option.some_inj.mp heq ▸ h.writeAsync hdone message outcome errno
  | epollIn outcome errno =>
    by_cases hin : s.eventMasks.epollIn = true
    · simp only [hin, if_true, Option.some_inj] at hstep
      exact hstep ▸ h.processRead hin fun hboth => hidle ⟨hin, hboth⟩
    · simp only [hin, Bool.false_eq_true, if_false, Option.some_inj] at hstep
      exact hstep ▸ h
  | epollOut outcome errno =>
    by_cases hout : s.eventMasks.epollOut = true
    · simp only [hout, if_true, Option.some_inj] at hstep
      exact hstep ▸ h.processWrite hout fun hboth => hidle ⟨hout, hboth⟩
    · simp only [hout, Bool.false_eq_true, if_false, Option.some_inj] at hstep
      exact hstep ▸ h

/-- After an idle wake-up the call that waited is lost. -/
theorem Inv.lost_of_idleWakeUp (h : s.Inv) {a : Action α} (hidle : s.IdleWakeUp a)
    (hstep : s.step a = some t) : ¬t.NeverLost := by
  unfold UdpSocket.step at hstep
  rw [if_neg (by rw [h.notNull]; exact Bool.false_ne_true)] at hstep
  intro hgood
  cases a with
  | readAsync outcome errno => exact hidle
  | writeAsync message outcome errno => exact hidle
  | epollIn outcome errno =>
    obtain ⟨hin, hout, herr⟩ := hidle
    obtain ⟨call, hcall⟩ := Option.isSome_iff_exists.mp (h.readMask ▸ hin)
    simp only [hin, if_true, Option.some_inj, UdpSocket.processRead, hout, herr] at hstep
    subst hstep
    have hwaits : s.ReadWaits call := waits_of_result h.readCalls hcall
    have hresult := (hgood.readWaits call hwaits).1
    cases hresult
  | epollOut outcome errno =>
    obtain ⟨hout, hfailed, herr⟩ := hidle
    obtain ⟨call, hcall⟩ := Option.isSome_iff_exists.mp (h.writeMask ▸ hout)
    obtain ⟨message, hmessage⟩ := Option.isSome_iff_exists.mp (h.message (by rw [hcall]; rfl))
    simp only [hout, if_true, Option.some_inj, UdpSocket.processWrite, hmessage, hfailed, herr] at hstep
    subst hstep
    have hwaits : s.WriteWaits call := waits_of_result h.writeCalls hcall
    have hresult := (hgood.writeWaits call hwaits).1
    cases hresult

end Send

/-! ### Whole runs -/

section Runs

variable [ToString α] {actions : List (Action α)}

theorem always_inv (h : Always step ({} : UdpSocket α) actions NeverLost) :
    Always step ({} : UdpSocket α) actions Inv := by
  have hnext : EachStep step ({} : UdpSocket α) actions
      fun t a => ∀ t', t.step a = some t' → t'.NeverLost := by
    intro done a hdone t t' ht _ t'' hlast
    exact h (done ++ [a]) hdone t'' (run_concat_eq_some.2 ⟨t, ht, hlast⟩)
  refine always_of_eachStep inv_start (fun t a t' hinv hgood hstep => ?_) hnext
  exact hinv.step (fun hidle => hinv.lost_of_idleWakeUp hidle hstep (hgood t' hstep)) hstep

end Runs

end UdpSocket

end Vds
