import Vds.Library.LabelledRun
import Vds.Kernel.Core

/-! The thread pool `_mt_service`. Each section under the mutex is one step; between them the
callers of `do_async` and the work threads go on in any order, and a handler runs as long as it
likes. -/

namespace Vds

open Library.LabelledRun

variable {α : Type}

/-- Where a work thread stands. -/
inductive Worker (α : Type)
  /-- Before it takes the lock to look at the queue. -/
  | looking
  /-- In `cond_.wait`. -/
  | waiting
  /-- Woken up, before it has the lock again. -/
  | notified
  | running (handler : α)
  /-- It has left `work_thread`; its entry stays in `work_threads_`. -/
  | ended
  deriving DecidableEq, Repr

namespace Worker

def isLooking : Worker α → Bool
  | .looking => true
  | _ => false

def isWaiting : Worker α → Bool
  | .waiting => true
  | _ => false

def isNotified : Worker α → Bool
  | .notified => true
  | _ => false

def isRunning : Worker α → Bool
  | .running _ => true
  | _ => false

end Worker

structure MtService (α : Type) where
  queue : List α := []
  freeThreads : Nat := 0
  isShutingDown : Bool := false
  workThreads : List (Worker α) := []
  deriving DecidableEq, Repr

namespace MtService

/-- How many work threads there may be. -/
def maxThreads (hardwareConcurrency : Nat) : Nat := 16 * max 1 hardwareConcurrency

inductive Action (α : Type)
  /-- `do_async` with the handler; if threads wait, `notify_one` wakes the one named. -/
  | doAsync (handler : α) (woken : Nat)
  /-- The locked section at the head of the loop of `work_thread`. -/
  | look (worker : Nat)
  /-- What a woken thread does once it has the lock again. -/
  | wake (worker : Nat)
  /-- The handler returns. -/
  | return (worker : Nat)
  /-- A wake-up without a `notify`. -/
  | spurious (worker : Nat)
  | stop
  deriving DecidableEq, Repr

def setWorker (s : MtService α) (worker : Nat) (phase : Worker α) : MtService α :=
  { s with workThreads := s.workThreads.set worker phase }

/-- `cond_.notify_one()` -/
def notifyOne (s : MtService α) (woken : Nat) : Option (MtService α) :=
  if s.workThreads.any Worker.isWaiting then
    match s.workThreads[woken]? with
    | some .waiting => some (s.setWorker woken .notified)
    | _ => none
  else some s

def doAsync (hardwareConcurrency : Nat) (s : MtService α) (handler : α) (woken : Nat) :
    Option (MtService α) :=
  let s := { s with queue := s.queue ++ [handler] }
  if s.freeThreads = 0 ∧ s.workThreads.length < maxThreads hardwareConcurrency then
    some { s with workThreads := s.workThreads ++ [.looking] }
  else s.notifyOne woken

def look (s : MtService α) (worker : Nat) : Option (MtService α) :=
  match s.workThreads[worker]?, s.queue with
  | some .looking, [] =>
    if 8 < s.freeThreads + 1 ∨ s.isShutingDown then some (s.setWorker worker .ended)
    else some { s.setWorker worker .waiting with freeThreads := s.freeThreads + 1 }
  | some .looking, handler :: queue =>
    some { s.setWorker worker (.running handler) with queue := queue }
  | _, _ => none

def wake (s : MtService α) (worker : Nat) : Option (MtService α) :=
  match s.workThreads[worker]? with
  | some .notified =>
    if s.isShutingDown then
      some { s.setWorker worker .looking with freeThreads := s.freeThreads - 1 }
    else
      match s.queue with
      | [] => some (s.setWorker worker .waiting)
      | handler :: queue =>
        some { s.setWorker worker (.running handler) with
          queue := queue, freeThreads := s.freeThreads - 1 }
  | _ => none

def return' (s : MtService α) (worker : Nat) : Option (MtService α) :=
  match s.workThreads[worker]? with
  | some (.running _) => some (s.setWorker worker .looking)
  | _ => none

def spurious (s : MtService α) (worker : Nat) : Option (MtService α) :=
  match s.workThreads[worker]? with
  | some .waiting => some (s.setWorker worker .notified)
  | _ => none

/-- The flag and `notify_all`; the threads are then joined. -/
def stop (s : MtService α) : MtService α :=
  { s with
    isShutingDown := true
    workThreads := s.workThreads.map fun w => if w.isWaiting then .notified else w }

def step (hardwareConcurrency : Nat) (s : MtService α) : Action α → Option (MtService α)
  | .doAsync handler woken => s.doAsync hardwareConcurrency handler woken
  | .look worker => s.look worker
  | .wake worker => s.wake worker
  | .return worker => s.return' worker
  | .spurious worker => s.spurious worker
  | .stop => some s.stop

/-! The threads by where they stand. -/

def lookingThreads (s : MtService α) : Nat := s.workThreads.countP Worker.isLooking

def waitingThreads (s : MtService α) : Nat := s.workThreads.countP Worker.isWaiting

def notifiedThreads (s : MtService α) : Nat := s.workThreads.countP Worker.isNotified

/-- The threads that are alive and busy. -/
def runningThreads (s : MtService α) : Nat := s.workThreads.countP Worker.isRunning

/-- The idle threads: waiting or already notified. -/
def idleThreads (s : MtService α) : Nat := s.waitingThreads + s.notifiedThreads

/-- There is a thread for each queued handler, or all threads that the pool may have are busy. -/
def Served (hardwareConcurrency : Nat) (s : MtService α) : Prop :=
  s.queue.length ≤ s.idleThreads + s.lookingThreads ∨
    maxThreads hardwareConcurrency ≤ s.runningThreads

/-- A handler is queued and nothing but a return of a running handler can get it going, although
there are fewer busy threads than there may be. -/
def Blocked (hardwareConcurrency : Nat) (s : MtService α) : Prop :=
  s.queue ≠ [] ∧ s.notifiedThreads + s.lookingThreads = 0 ∧
    s.runningThreads < maxThreads hardwareConcurrency

/-- No task is stranded, as long as the pool is not shut down. -/
def NotStranded (hardwareConcurrency : Nat) (s : MtService α) : Prop :=
  s.isShutingDown = false → s.Served hardwareConcurrency ∧ ¬s.Blocked hardwareConcurrency

/-- A handler is put into the queue where a new thread is started, where an idle or looking thread
has no handler to take yet, or where all threads are busy; and with all threads busy a handler
returns only to a queue that one thread can empty. -/
def Spares (hardwareConcurrency : Nat) (s : MtService α) (a : Action α) : Prop :=
  s.isShutingDown = false →
    match a with
    | .doAsync _ _ =>
      s.freeThreads = 0 ∧ s.workThreads.length < maxThreads hardwareConcurrency ∨
        s.queue.length < s.idleThreads + s.lookingThreads ∨
        maxThreads hardwareConcurrency ≤ s.runningThreads
    | .return _ => maxThreads hardwareConcurrency ≤ s.runningThreads → s.queue.length ≤ 1
    | _ => True

/-! What a step does to the numbers of threads. -/

variable {hardwareConcurrency : Nat} {s s' : MtService α}

/-- A thread that goes from one place to another is counted there and no longer here. -/
theorem countP_setWorker (p : Worker α → Bool) {worker : Nat} {old : Worker α} (new : Worker α)
    (h : s.workThreads[worker]? = some old) :
    (s.setWorker worker new).workThreads.countP p + (p old).toNat =
      s.workThreads.countP p + (p new).toNat := by
  obtain ⟨hi, hold⟩ := List.getElem?_eq_some_iff.1 h
  change (s.workThreads.set worker new).countP p + _ = _
  have hset := @List.countP_set _ p s.workThreads worker new hi
  have hone : (p old).toNat ≤ s.workThreads.countP p := by
    cases hp : p old with
    | false => exact Nat.zero_le _
    | true => exact List.countP_pos_iff.2 ⟨old, hold ▸ List.getElem_mem hi, hp⟩
  rw [hset, hold]
  cases hp : p old <;> cases hq : p new <;> simp_all <;> omega

/-- The numbers after a thread has gone from one place to another. -/
structure Moved (s s' : MtService α) (old new : Worker α) : Prop where
  looking : s'.lookingThreads + old.isLooking.toNat = s.lookingThreads + new.isLooking.toNat
  waiting : s'.waitingThreads + old.isWaiting.toNat = s.waitingThreads + new.isWaiting.toNat
  notified : s'.notifiedThreads + old.isNotified.toNat = s.notifiedThreads + new.isNotified.toNat
  running : s'.runningThreads + old.isRunning.toNat = s.runningThreads + new.isRunning.toNat
  length : s'.workThreads.length = s.workThreads.length

theorem moved_setWorker {worker : Nat} {old : Worker α} (new : Worker α)
    (h : s.workThreads[worker]? = some old)
    (hthreads : s'.workThreads = (s.setWorker worker new).workThreads) : Moved s s' old new where
  looking := by
    unfold lookingThreads
    rw [hthreads]
    exact countP_setWorker Worker.isLooking new h
  waiting := by
    unfold waitingThreads
    rw [hthreads]
    exact countP_setWorker Worker.isWaiting new h
  notified := by
    unfold notifiedThreads
    rw [hthreads]
    exact countP_setWorker Worker.isNotified new h
  running := by
    unfold runningThreads
    rw [hthreads]
    exact countP_setWorker Worker.isRunning new h
  length := by
    rw [hthreads]
    exact List.length_set

/-- The threads in the four places are among all threads. -/
theorem places_le (s : MtService α) :
    s.lookingThreads + s.idleThreads + s.runningThreads ≤ s.workThreads.length := by
  unfold idleThreads lookingThreads waitingThreads notifiedThreads runningThreads
  induction s.workThreads with
  | nil => simp
  | cons w ws ih =>
    simp only [List.countP_cons, List.length_cons]
    cases w <;> simp [Worker.isLooking, Worker.isWaiting, Worker.isNotified, Worker.isRunning] <;>
      omega

/-- A step of a call of `do_async`: a new thread looks at the queue, a waiting one is notified, or
nobody waits. -/
theorem doAsync_eq_some {handler : α} {woken : Nat}
    (h : s.doAsync hardwareConcurrency handler woken = some s') :
    s'.queue = s.queue ++ [handler] ∧ s'.freeThreads = s.freeThreads ∧
      s'.isShutingDown = s.isShutingDown ∧
      ((s.freeThreads = 0 ∧ s.workThreads.length < maxThreads hardwareConcurrency) ∧
          s'.workThreads = s.workThreads ++ [.looking] ∨
        ¬(s.freeThreads = 0 ∧ s.workThreads.length < maxThreads hardwareConcurrency) ∧
          (Moved s s' .waiting .notified ∨
            s.waitingThreads = 0 ∧ s'.workThreads = s.workThreads)) := by
  unfold doAsync at h
  dsimp only at h
  split at h
  · rename_i hroom
    cases h
    exact ⟨rfl, rfl, rfl, Or.inl ⟨hroom, rfl⟩⟩
  · rename_i hroom
    unfold notifyOne at h
    split at h
    · split at h
      · rename_i hwoken
        cases h
        exact ⟨rfl, rfl, rfl, Or.inr ⟨hroom, Or.inl (moved_setWorker .notified hwoken rfl)⟩⟩
      · cases h
    · rename_i hnone
      cases h
      have hwaiting : s.waitingThreads = 0 := by
        refine List.countP_eq_zero.2 fun w hw hwait => hnone ?_
        exact List.any_eq_true.2 ⟨w, hw, hwait⟩
      exact ⟨rfl, rfl, rfl, Or.inr ⟨hroom, Or.inr ⟨hwaiting, rfl⟩⟩⟩

/-- A thread that looks ends or waits at an empty queue, and takes the first handler of another. -/
theorem look_eq_some {worker : Nat} (h : s.look worker = some s') :
    s'.isShutingDown = s.isShutingDown ∧
      (s.queue = [] ∧ s'.queue = [] ∧
          (s'.freeThreads = s.freeThreads ∧ Moved s s' .looking .ended ∨
            s'.freeThreads = s.freeThreads + 1 ∧ Moved s s' .looking .waiting) ∨
        ∃ handler, s.queue = handler :: s'.queue ∧ s'.freeThreads = s.freeThreads ∧
          Moved s s' .looking (.running handler)) := by
  unfold look at h
  split at h
  · rename_i hworker hqueue
    split at h
    · cases h
      exact ⟨rfl, Or.inl ⟨hqueue, hqueue, Or.inl ⟨rfl, moved_setWorker .ended hworker rfl⟩⟩⟩
    · cases h
      exact ⟨rfl, Or.inl ⟨hqueue, hqueue, Or.inr ⟨rfl, moved_setWorker .waiting hworker rfl⟩⟩⟩
  · rename_i handler queue hworker hqueue
    cases h
    exact ⟨rfl, Or.inr ⟨handler, hqueue, rfl, moved_setWorker (.running handler) hworker rfl⟩⟩
  · cases h

/-- A woken thread goes back to sleep at an empty queue, and else takes the first handler. -/
theorem wake_eq_some {worker : Nat} (h : s.wake worker = some s') :
    s'.isShutingDown = s.isShutingDown ∧
      (s.isShutingDown = true ∧ s'.freeThreads = s.freeThreads - 1 ∧
          Moved s s' .notified .looking ∨
        s.queue = [] ∧ s'.queue = [] ∧ s'.freeThreads = s.freeThreads ∧
          Moved s s' .notified .waiting ∨
        ∃ handler, s.queue = handler :: s'.queue ∧ s'.freeThreads = s.freeThreads - 1 ∧
          Moved s s' .notified (.running handler)) := by
  unfold wake at h
  split at h
  · rename_i hworker
    split at h
    · rename_i hstop
      cases h
      exact ⟨rfl, Or.inl ⟨hstop, rfl, moved_setWorker .looking hworker rfl⟩⟩
    · split at h
      · rename_i hqueue
        cases h
        exact ⟨rfl, Or.inr (Or.inl
          ⟨hqueue, hqueue, rfl, moved_setWorker .waiting hworker rfl⟩)⟩
      · rename_i handler queue hqueue
        cases h
        exact ⟨rfl, Or.inr (Or.inr
          ⟨handler, hqueue, rfl, moved_setWorker (.running handler) hworker rfl⟩)⟩
  · cases h

theorem return_eq_some {worker : Nat} (h : s.return' worker = some s') :
    s'.queue = s.queue ∧ s'.freeThreads = s.freeThreads ∧
      s'.isShutingDown = s.isShutingDown ∧ ∃ handler, Moved s s' (.running handler) .looking := by
  unfold return' at h
  split at h
  · rename_i handler hworker
    cases h
    exact ⟨rfl, rfl, rfl, handler, moved_setWorker .looking hworker rfl⟩
  · cases h

theorem spurious_eq_some {worker : Nat} (h : s.spurious worker = some s') :
    s'.queue = s.queue ∧ s'.freeThreads = s.freeThreads ∧
      s'.isShutingDown = s.isShutingDown ∧ Moved s s' .waiting .notified := by
  unfold spurious at h
  split at h
  · rename_i hworker
    cases h
    exact ⟨rfl, rfl, rfl, moved_setWorker .notified hworker rfl⟩
  · cases h

/-- `stop` moves the waiting threads to the notified ones. -/
theorem stop_threads (s : MtService α) :
    s.stop.idleThreads = s.idleThreads ∧ s.stop.workThreads.length = s.workThreads.length := by
  refine ⟨?_, List.length_map _⟩
  unfold idleThreads waitingThreads notifiedThreads stop
  dsimp only
  induction s.workThreads with
  | nil => rfl
  | cons w ws ih =>
    simp only [List.map_cons, List.countP_cons]
    cases w <;> simp [Worker.isWaiting, Worker.isNotified] at ih ⊢ <;> omega

/-- A new thread that looks at the queue. -/
theorem spawned (h : s'.workThreads = s.workThreads ++ [.looking]) :
    s'.lookingThreads = s.lookingThreads + 1 ∧ s'.idleThreads = s.idleThreads ∧
      s'.notifiedThreads = s.notifiedThreads ∧ s'.runningThreads = s.runningThreads ∧
      s'.workThreads.length = s.workThreads.length + 1 := by
  unfold idleThreads lookingThreads waitingThreads notifiedThreads runningThreads
  rw [h]
  simp [List.countP_append, Worker.isLooking, Worker.isWaiting, Worker.isNotified,
    Worker.isRunning]

/-- The numbers behind a call of `do_async` that starts no thread: a waiting thread is notified,
or there is none. -/
theorem notified_numbers (h : Moved s s' .waiting .notified ∨
    s.waitingThreads = 0 ∧ s'.workThreads = s.workThreads) :
    s'.lookingThreads = s.lookingThreads ∧ s'.idleThreads = s.idleThreads ∧
      s'.runningThreads = s.runningThreads ∧ s'.workThreads.length = s.workThreads.length ∧
      (s'.notifiedThreads = s.notifiedThreads + 1 ∨
        s'.notifiedThreads = s.notifiedThreads ∧ s.notifiedThreads = s.idleThreads) := by
  unfold idleThreads
  obtain hmoved | ⟨hnone, hsame⟩ := h
  · obtain ⟨hlooking, hwaiting, hnotified, hrunning, hlength⟩ := hmoved
    simp only [Worker.isLooking, Worker.isWaiting, Worker.isNotified, Worker.isRunning,
      Bool.toNat_true, Bool.toNat_false] at hlooking hwaiting hnotified hrunning
    omega
  · unfold lookingThreads notifiedThreads runningThreads waitingThreads
    unfold waitingThreads at hnone
    rw [hsame]
    omega

/-- `free_threads_` counts the idle threads, and there are no more entries than allowed. -/
structure Inv (hardwareConcurrency : Nat) (s : MtService α) : Prop where
  free : s.freeThreads = s.idleThreads
  room : s.workThreads.length ≤ maxThreads hardwareConcurrency

theorem inv_start : Inv hardwareConcurrency ({} : MtService α) where
  free := rfl
  room := Nat.zero_le _

theorem Inv.moved (h : Inv hardwareConcurrency s) {old new : Worker α} (hmoved : Moved s s' old new)
    (hfree : s'.freeThreads + (old.isWaiting || old.isNotified).toNat =
      s.freeThreads + (new.isWaiting || new.isNotified).toNat) : Inv hardwareConcurrency s' where
  free := by
    have hold := h.free
    have hwaiting := hmoved.waiting
    have hnotified := hmoved.notified
    unfold idleThreads at hold ⊢
    cases old <;> cases new <;>
      simp [Worker.isWaiting, Worker.isNotified] at hfree hwaiting hnotified <;> omega
  room := hmoved.length ▸ h.room

theorem Inv.step (h : Inv hardwareConcurrency s) (a : Action α)
    (hstep : s.step hardwareConcurrency a = some s') : Inv hardwareConcurrency s' := by
  cases a with
  | doAsync handler woken =>
    obtain ⟨-, hfree, -, ⟨⟨hzero, hroom⟩, hthreads⟩ | ⟨-, hthreads⟩⟩ := doAsync_eq_some hstep
    · obtain ⟨-, hidle, -, -, hlength⟩ := spawned hthreads
      exact ⟨by rw [hfree, hidle, h.free], hlength ▸ hroom⟩
    · obtain ⟨-, hidle, -, hlength, -⟩ := notified_numbers hthreads
      exact ⟨by rw [hfree, hidle, h.free], hlength ▸ h.room⟩
  | look worker =>
    obtain ⟨-, ⟨-, -, ⟨hfree, hmoved⟩ | ⟨hfree, hmoved⟩⟩ | ⟨handler, -, hfree, hmoved⟩⟩ :=
      look_eq_some hstep
    · exact h.moved hmoved hfree
    · exact h.moved hmoved hfree
    · exact h.moved hmoved hfree
  | wake worker =>
    -- the woken thread is among those that are counted
    have hpos {new : Worker α} (hmoved : Moved s s' .notified new)
        (hnew : new.isNotified = false) : 1 ≤ s.freeThreads := by
      have hfree := h.free
      have hnotified := hmoved.notified
      unfold idleThreads at hfree
      rw [hnew] at hnotified
      simp only [Worker.isNotified, Bool.toNat_true, Bool.toNat_false] at hnotified
      omega
    obtain ⟨-, ⟨-, hfree, hmoved⟩ | ⟨-, -, hfree, hmoved⟩ | ⟨handler, -, hfree, hmoved⟩⟩ :=
      wake_eq_some hstep
    · have hone := hpos hmoved rfl
      exact h.moved hmoved (by rw [hfree]; exact Nat.sub_add_cancel hone)
    · exact h.moved hmoved (by rw [hfree]; rfl)
    · have hone := hpos hmoved rfl
      exact h.moved hmoved (by rw [hfree]; exact Nat.sub_add_cancel hone)
  | «return» worker =>
    obtain ⟨-, hfree, -, handler, hmoved⟩ := return_eq_some hstep
    exact h.moved hmoved hfree
  | spurious worker =>
    obtain ⟨-, hfree, -, hmoved⟩ := spurious_eq_some hstep
    exact h.moved hmoved (by rw [hfree]; rfl)
  | stop =>
    cases hstep
    obtain ⟨hidle, hlength⟩ := stop_threads s
    exact ⟨h.free.trans hidle.symm, hlength ▸ h.room⟩

/-- Each queued handler has a thread that is on its way to the queue, or all threads are busy. -/
def Ready (hardwareConcurrency : Nat) (s : MtService α) : Prop :=
  s.isShutingDown = false →
    s.queue.length ≤ s.notifiedThreads + s.lookingThreads ∨
      maxThreads hardwareConcurrency ≤ s.runningThreads

theorem Ready.notStranded (h : Ready hardwareConcurrency s) :
    s.NotStranded hardwareConcurrency := by
  intro hrun
  have hready := h hrun
  constructor
  · unfold Served idleThreads
    omega
  · rintro ⟨hqueue, hnobody, hbusy⟩
    have hlength : s.queue.length ≠ 0 := fun hzero => hqueue (List.length_eq_zero_iff.1 hzero)
    omega

/-- With all threads that may be there busy, no other is idle or looks at the queue. -/
theorem Inv.saturated (h : Inv hardwareConcurrency s)
    (hbusy : maxThreads hardwareConcurrency ≤ s.runningThreads) :
    s.lookingThreads = 0 ∧ s.idleThreads = 0 ∧
      s.runningThreads = maxThreads hardwareConcurrency := by
  have hplaces := places_le s
  have hroom := h.room
  omega

theorem Ready.step (hinv : Inv hardwareConcurrency s) (h : Ready hardwareConcurrency s)
    {a : Action α} (hspares : s.Spares hardwareConcurrency a)
    (hstep : s.step hardwareConcurrency a = some s') : Ready hardwareConcurrency s' := by
  intro hrun'
  cases a with
  | doAsync handler woken =>
    obtain ⟨hqueue, -, hstop, hthreads⟩ := doAsync_eq_some hstep
    have hrun : s.isShutingDown = false := hstop ▸ hrun'
    have hready := h hrun
    have hspare := hspares hrun
    rw [hqueue, List.length_append, List.length_singleton]
    obtain ⟨-, hthreads⟩ | ⟨hroom, hthreads⟩ := hthreads
    · obtain ⟨hlooking, -, hnotified, hrunning, -⟩ := spawned hthreads
      omega
    · obtain ⟨hlooking, -, hrunning, -, hnotified⟩ := notified_numbers hthreads
      have hspare := hspare.resolve_left hroom
      omega
  | look worker =>
    obtain ⟨hstop, hcase⟩ := look_eq_some hstep
    have hready := h (hstop ▸ hrun')
    obtain ⟨-, hempty, -⟩ | ⟨handler, hqueue, -, hmoved⟩ := hcase
    · exact Or.inl (by simp [hempty])
    · obtain ⟨hlooking, -, hnotified, hrunning, -⟩ := hmoved
      simp only [hqueue, List.length_cons] at hready
      simp only [Worker.isLooking, Worker.isNotified, Worker.isRunning, Bool.toNat_true,
        Bool.toNat_false] at hlooking hnotified hrunning
      omega
  | wake worker =>
    obtain ⟨hstop, hcase⟩ := wake_eq_some hstep
    have hrun : s.isShutingDown = false := hstop ▸ hrun'
    have hready := h hrun
    obtain ⟨hdown, -⟩ | ⟨-, hempty, -⟩ | ⟨handler, hqueue, -, hmoved⟩ := hcase
    · rw [hrun] at hdown
      cases hdown
    · exact Or.inl (by simp [hempty])
    · obtain ⟨hlooking, -, hnotified, hrunning, -⟩ := hmoved
      simp only [hqueue, List.length_cons] at hready
      simp only [Worker.isLooking, Worker.isNotified, Worker.isRunning, Bool.toNat_true,
        Bool.toNat_false] at hlooking hnotified hrunning
      omega
  | «return» worker =>
    obtain ⟨hqueue, -, hstop, handler, hmoved⟩ := return_eq_some hstep
    have hrun : s.isShutingDown = false := hstop ▸ hrun'
    have hready := h hrun
    have hspare : maxThreads hardwareConcurrency ≤ s.runningThreads → s.queue.length ≤ 1 :=
      hspares hrun
    obtain ⟨hlooking, -, hnotified, hrunning, -⟩ := hmoved
    rw [hqueue]
    simp only [Worker.isLooking, Worker.isNotified, Worker.isRunning, Bool.toNat_true,
      Bool.toNat_false] at hlooking hnotified hrunning
    omega
  | spurious worker =>
    obtain ⟨hqueue, -, hstop, hmoved⟩ := spurious_eq_some hstep
    have hready := h (hstop ▸ hrun')
    obtain ⟨hlooking, -, hnotified, hrunning, -⟩ := hmoved
    rw [hqueue]
    simp only [Worker.isLooking, Worker.isNotified, Worker.isRunning, Bool.toNat_true,
      Bool.toNat_false] at hlooking hnotified hrunning
    omega
  | stop =>
    cases hstep
    cases hrun'

/-- A step between states in which no task is stranded has a thread to spare. -/
theorem spares_of_notStranded (hinv : Inv hardwareConcurrency s)
    (h' : s'.NotStranded hardwareConcurrency) {a : Action α}
    (hstep : s.step hardwareConcurrency a = some s') : s.Spares hardwareConcurrency a := by
  intro hrun
  cases a with
  | doAsync handler woken =>
    obtain ⟨hqueue, -, hstop, hthreads⟩ := doAsync_eq_some hstep
    have hserved : s'.Served hardwareConcurrency := (h' (hstop.trans hrun)).1
    unfold Served at hserved
    rw [hqueue, List.length_append, List.length_singleton] at hserved
    obtain ⟨hroom, -⟩ | ⟨-, hthreads⟩ := hthreads
    · exact Or.inl hroom
    · obtain ⟨hlooking, hidle, hrunning, -, -⟩ := notified_numbers hthreads
      change _ ∨ s.queue.length < s.idleThreads + s.lookingThreads ∨
        maxThreads hardwareConcurrency ≤ s.runningThreads
      omega
  | «return» worker =>
    obtain ⟨hqueue, -, hstop, handler, hmoved⟩ := return_eq_some hstep
    intro hbusy
    have hserved : s'.Served hardwareConcurrency := (h' (hstop.trans hrun)).1
    obtain ⟨hlooking, hidle, hrunning⟩ := hinv.saturated hbusy
    obtain ⟨hlooking', hwaiting', hnotified', hrunning', -⟩ := hmoved
    unfold Served at hserved
    unfold idleThreads at hidle hserved
    rw [hqueue] at hserved
    simp only [Worker.isLooking, Worker.isWaiting, Worker.isNotified, Worker.isRunning,
      Bool.toNat_true, Bool.toNat_false] at hlooking' hwaiting' hnotified' hrunning'
    omega
  | look worker => trivial
  | wake worker => trivial
  | spurious worker => trivial
  | stop => trivial

/-- In a run no task is stranded in any state exactly if each step has a thread to spare. -/
theorem never_stranded_iff (hardwareConcurrency : Nat) (actions : List (Action α)) :
    Always (step hardwareConcurrency) {} actions (NotStranded hardwareConcurrency) ↔
      EachStep (step hardwareConcurrency) {} actions (Spares hardwareConcurrency) := by
  constructor
  · intro h
    have hinv : Always (step hardwareConcurrency) {} actions (Inv hardwareConcurrency) :=
      always_of_invariant inv_start fun t a t' ht hstep => ht.step a hstep
    exact eachStep_of_always (fun t a t' ht ht' hstep => spares_of_notStranded ht.1 ht'.2 hstep)
      (hinv.and h)
  · intro h
    have hstart : Inv hardwareConcurrency ({} : MtService α) ∧
        Ready hardwareConcurrency ({} : MtService α) :=
      ⟨inv_start, fun _ => Or.inl (Nat.zero_le _)⟩
    have hready : Always (step hardwareConcurrency) {} actions fun t : MtService α =>
        Inv hardwareConcurrency t ∧ Ready hardwareConcurrency t :=
      always_of_eachStep hstart
        (fun t a t' ht hspares hstep => ⟨ht.1.step a hstep, ht.2.step ht.1 hspares hstep⟩) h
    exact hready.imp fun t ht => ht.2.notStranded

/-- Two calls come before the one idle thread wakes up: the second starts no thread, because that
thread is still counted as free, and its handler is left behind. -/
theorem burst_strands :
    let actions : List (Action Nat) :=
      [.doAsync 0 0, .look 0, .return 0, .look 0, .doAsync 1 0, .doAsync 2 0, .wake 0]
    ¬Always (step 1) ({} : MtService Nat) actions (NotStranded 1) := by
  intro actions h
  have hlast := h actions (List.prefix_refl _)
    { queue := [2], workThreads := [.running 1] } (by decide) rfl
  exact hlast.2 ⟨by decide, by decide, by decide⟩

end MtService
end Vds
