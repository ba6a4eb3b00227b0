import Vds.Kernel.Core

/-! The events that a socket asks of `_network_service` on Linux: `change_mask` and the calls of
`epoll_ctl` behind it. -/

namespace Vds

/-- The errors of the sockets. -/
inductive NetworkError
  | systemError (code : Nat) (what : String)
  | runtimeError (what : String)
  deriving DecidableEq, Repr

/-- The values of `errno` that the code or `epoll_ctl` distinguishes. -/
def ENOENT : Nat := 2
def EAGAIN : Nat := 11
def EEXIST : Nat := 17

/-- The bits `EPOLLIN` and `EPOLLOUT`. -/
structure EventMask where
  epollIn : Bool := false
  epollOut : Bool := false
  deriving DecidableEq, Repr

namespace EventMask

def zero : EventMask := {}

def readable : EventMask := { epollIn := true }

def writable : EventMask := { epollOut := true }

/-- `mask | events` -/
def add (mask events : EventMask) : EventMask where
  epollIn := mask.epollIn || events.epollIn
  epollOut := mask.epollOut || events.epollOut

/-- `mask & ~events` -/
def clear (mask events : EventMask) : EventMask where
  epollIn := mask.epollIn && !events.epollIn
  epollOut := mask.epollOut && !events.epollOut

@[simp] theorem add_epollIn (mask events : EventMask) :
    (mask.add events).epollIn = (mask.epollIn || events.epollIn) := rfl

@[simp] theorem add_epollOut (mask events : EventMask) :
    (mask.add events).epollOut = (mask.epollOut || events.epollOut) := rfl

@[simp] theorem clear_epollIn (mask events : EventMask) :
    (mask.clear events).epollIn = (mask.epollIn && !events.epollIn) := rfl

@[simp] theorem clear_epollOut (mask events : EventMask) :
    (mask.clear events).epollOut = (mask.epollOut && !events.epollOut) := rfl

end EventMask

/-- A socket and epoll: the socket's `event_masks_`, and the events for which epoll has the handle. -/
structure Association where
  eventMasks : EventMask := {}
  watched : Option EventMask := none
  deriving DecidableEq, Repr

namespace Association

/-- `associate` -/
def associate (a : Association) (eventMask : EventMask) : Association × Except NetworkError Unit :=
  match a.watched with
  | none => ({ a with watched := some eventMask }, .ok ())
  | some _ => (a, .error (.systemError EEXIST "epoll_ctl(EPOLL_CTL_ADD)"))

/-- `set_events` -/
def setEvents (a : Association) (eventMask : EventMask) : Association × Except NetworkError Unit :=
  match a.watched with
  | some _ => ({ a with watched := some eventMask }, .ok ())
  | none => (a, .error (.systemError ENOENT "epoll_ctl(EPOLL_CTL_MOD)"))

/-- `remove_association` -/
def removeAssociation (a : Association) : Association × Except NetworkError Unit :=
  match a.watched with
  | some _ => ({ a with watched := none }, .ok ())
  | none => (a, .error (.systemError ENOENT "epoll_ctl(EPOLL_CTL_DEL)"))

/-- The rest of `change_mask`, once the new mask is known. The flags that a TCP socket adds for epoll
are always the same and left out. -/
def setMask (a : Association) (mask : EventMask) : Association × Except NetworkError Unit :=
  if a.eventMasks = mask then (a, .ok ())
  else if a.eventMasks ≠ .zero ∧ mask ≠ .zero then { a with eventMasks := mask }.setEvents mask
  else if mask = .zero then { a with eventMasks := mask }.removeAssociation
  else { a with eventMasks := mask }.associate mask

/-- `change_mask` -/
def changeMask (a : Association) (setEvents clearEvents : EventMask) :
    Association × Except NetworkError Unit := a.setMask ((a.eventMasks.add setEvents).clear clearEvents)

/-- What epoll has for the handle when its mask is `mask`. -/
def ofMask (mask : EventMask) : Association where
  eventMasks := mask
  watched := if mask = .zero then none else some mask

@[simp] theorem ofMask_eventMasks (mask : EventMask) : (ofMask mask).eventMasks = mask := rfl

/-- As long as epoll has what the mask says, it takes every change. -/
theorem setMask_ofMask (mask new : EventMask) : (ofMask mask).setMask new = (ofMask new, .ok ()) := by
  unfold setMask
  rw [ofMask_eventMasks]
  by_cases hsame : mask = new
  · rw [if_pos hsame, hsame]
  · rw [if_neg hsame]
    by_cases hnew : new = .zero
    · have hzero : mask ≠ .zero := fun h => hsame (h.trans hnew.symm)
      simp [ofMask, removeAssociation, hzero, hnew]
    · by_cases hzero : mask = .zero
      · simp [ofMask, associate, hzero, hnew]
      · simp [ofMask, setEvents, hzero, hnew]

@[simp] theorem changeMask_ofMask (mask events clearEvents : EventMask) :
    (ofMask mask).changeMask events clearEvents = (ofMask ((mask.add events).clear clearEvents), .ok ()) :=
  setMask_ofMask mask _

/-- Epoll watches for an event that stands in the mask. -/
theorem watched_of_eventMasks {mask : EventMask} (h : mask ≠ .zero) : (ofMask mask).watched = some mask := by
  simp [ofMask, h]

end Association

end Vds
