import Vds.Library.LabelledRun
import Vds.Kernel.Core

/-! The timers of `task_manager` and the `state_machine` that `start`, `stop` and the executions of a
timer share. A section under a mutex is one step; a mutex that is kept beyond its section has an
owner. -/

namespace Vds

open Library.LabelledRun

/-- `state_machine`: `σ` are the states, `κ` the calls of its methods. -/
structure StateMachine (σ κ : Type) where
  state : σ
  /-- The suspended call that keeps `state_mutex_`. -/
  stateMutex : Option κ := none
  /-- Under the state a call waits for: the state it sets then, and the call. -/
  stateExpectants : σ → Option (σ × κ) := fun _ => none

namespace StateMachine

variable {σ κ : Type} [DecidableEq σ]

/-- The end of the other branch of `change_state` and of `wait`: the call is suspended inside the
scope of its `unique_lock`. -/
def suspend (m : StateMachine σ κ) (caller : κ) (expectedState newState : σ) : StateMachine σ κ :=
  { m with
    stateMutex := some caller
    stateExpectants := Function.update m.stateExpectants expectedState (some (newState, caller)) }

/-- `change_state` up to its first `unlock`, or up to its suspension. -/
def changeState (m : StateMachine σ κ) (caller : κ) (expectedState newState : σ) :
    Option (StateMachine σ κ × Bool) :=
  if m.stateMutex.isSome then none
  else if expectedState = m.state then some ({ m with state := newState }, true)
  else some (m.suspend caller expectedState newState, false)

/-- One turn of the loop of `change_state`: the call whose callback is called, if there is one. -/
def callback (m : StateMachine σ κ) : Option (StateMachine σ κ × Option κ) :=
  if m.stateMutex.isSome then none
  else
    match m.stateExpectants m.state with
    | some (newState, caller) =>
      some ({ m with
        state := newState
        stateExpectants := Function.update m.stateExpectants m.state none }, some caller)
    | none => some (m, none)

def wait (m : StateMachine σ κ) (caller : κ) (expectedState : σ) :
    Option (StateMachine σ κ × Bool) :=
  if m.stateMutex.isSome then none
  else if expectedState ≠ m.state then some (m.suspend caller expectedState expectedState, false)
  else some (m, true)

/-- A suspended call goes on, and the destructor of its `unique_lock` runs. -/
def release (m : StateMachine σ κ) : StateMachine σ κ := { m with stateMutex := none }

end StateMachine

/-- `timer::state_t` -/
inductive TimerState
  | bof
  | scheduled
  | inHandler
  | eof
  deriving DecidableEq, Repr

/-- Where a call of `start` or `execute` stands. -/
inductive Activity
  /-- An execution in the queue of `mt_service`. -/
  | pending
  /-- Before the first locked section of `change_state`. -/
  | changing (expectedState newState : TimerState)
  /-- Between the locked sections of `change_state`. -/
  | changed (newState : TimerState)
  | suspended (newState : TimerState)
  | inHandler
  /-- At the head of `schedule`. -/
  | scheduling
  /-- Before the lock of `schedule`. -/
  | pushing
  | ended
  deriving DecidableEq, Repr

namespace Activity

/-- What follows a `change_state` to the state. -/
def afterChange : TimerState → Activity
  | .inHandler => .inHandler
  | .scheduled => .scheduling
  | _ => .ended

end Activity

/-- Where the call of `stop` stands. -/
inductive StopPhase
  | notCalled
  /-- It holds `scheduled_mutex_` and has set the flag, and comes to `wait`. -/
  | waiting
  | suspended
  | returned
  deriving DecidableEq, Repr

/-- A call of a method of the state machine: by `stop`, or by the activity with that number. -/
inductive Caller
  | stop
  | activity (number : Nat)
  deriving DecidableEq, Repr

structure Timer where
  currentState : StateMachine TimerState Caller := { state := .bof }
  isShutingDown : Bool := false
  /-- `start` has set `sp_`. -/
  started : Bool := false
  stop : StopPhase := .notCalled
  activities : List Activity := []

namespace Timer

def setActivity (x : Timer) (number : Nat) (a : Activity) : Timer :=
  { x with activities := x.activities.set number a }

/-- The activities that have not ended. -/
def live (x : Timer) : List Activity := x.activities.filter (· ≠ .ended)

end Timer

/-- Where the work thread stands: not there yet, before it looks at the flag, before it takes
`scheduled_mutex_`, or at its end. -/
inductive WorkThread
  | absent
  | atFlag
  | atLock
  | ended
  deriving DecidableEq, Repr

structure TaskManager where
  timers : Nat → Timer := fun _ => {}
  scheduled : List Nat := []
  /-- The timer whose `stop` holds `scheduled_mutex_`. -/
  scheduledMutex : Option Nat := none
  workThread : WorkThread := .absent
  isShutingDown : Bool := false
  isDisabled : Bool := false
  /-- The shutdown event of the service provider. -/
  shutdownEvent : Bool := false

namespace TaskManager

inductive Action
  | start (t : Nat)
  /-- An execution begins and looks at the flag. -/
  | execute (t number : Nat)
  | change (t number : Nat)
  | callback (t number : Nat)
  /-- The handler is over, with its result or an error. -/
  | handled (t number : Nat) (result : Option Bool)
  | schedule (t number : Nat)
  | push (t number : Nat)
  | stop (t : Nat)
  | wait (t : Nat)
  /-- The work thread looks at `is_shuting_down_`. -/
  | check
  /-- The locked section of the work thread, with the first task that is due. -/
  | scan (due : Option Nat)
  | prepareToStop
  | disableTimers
  | shutdown
  deriving DecidableEq, Repr

def setTimer (s : TaskManager) (t : Nat) (x : Timer) : TaskManager :=
  { s with timers := Function.update s.timers t x }

def start (s : TaskManager) (t : Nat) : Option TaskManager :=
  let x := s.timers t
  if x.started then none
  else some (s.setTimer t
    { x with started := true, activities := x.activities ++ [.changing .bof .scheduled] })

def execute (s : TaskManager) (t number : Nat) : Option TaskManager :=
  let x := s.timers t
  match x.activities[number]? with
  | some .pending =>
    if x.isShutingDown then some (s.setTimer t (x.setActivity number (.changing .scheduled .eof)))
    else some (s.setTimer t (x.setActivity number (.changing .scheduled .inHandler)))
  | _ => none

def change (s : TaskManager) (t number : Nat) : Option TaskManager :=
  let x := s.timers t
  match x.activities[number]? with
  | some (.changing expectedState newState) =>
    match x.currentState.changeState (.activity number) expectedState newState with
    | some (m, true) =>
      some (s.setTimer t { x.setActivity number (.changed newState) with currentState := m })
    | some (m, false) =>
      some (s.setTimer t { x.setActivity number (.suspended newState) with currentState := m })
    | none => none
  | _ => none

/-- The call whose callback was called goes on behind its `co_await`. -/
def resume (s : TaskManager) (t : Nat) (caller : Caller) : TaskManager :=
  let x := s.timers t
  match caller with
  | .stop =>
    { s.setTimer t { x with stop := .returned, currentState := x.currentState.release } with
      scheduledMutex := none }
  | .activity number =>
    match x.activities[number]? with
    | some (.suspended newState) =>
      s.setTimer t { x.setActivity number (.afterChange newState) with
        currentState := x.currentState.release }
    | _ => s

def callback (s : TaskManager) (t number : Nat) : Option TaskManager :=
  let x := s.timers t
  match x.activities[number]? with
  | some (.changed newState) =>
    match x.currentState.callback with
    | some (m, some caller) => some ((s.setTimer t { x with currentState := m }).resume t caller)
    | some (m, none) =>
      some (s.setTimer t { x.setActivity number (.afterChange newState) with currentState := m })
    | none => none
  | _ => none

def handled (s : TaskManager) (t number : Nat) (result : Option Bool) : Option TaskManager :=
  let x := s.timers t
  match x.activities[number]? with
  | some .inHandler =>
    match result with
    | some true => some (s.setTimer t (x.setActivity number (.changing .inHandler .scheduled)))
    | some false => some (s.setTimer t (x.setActivity number (.changing .inHandler .eof)))
    | none => some (s.setTimer t (x.setActivity number .ended))
  | _ => none

def schedule (s : TaskManager) (t number : Nat) : Option TaskManager :=
  let x := s.timers t
  match x.activities[number]? with
  | some .scheduling =>
    if s.shutdownEvent ∨ s.isDisabled then some (s.setTimer t (x.setActivity number .ended))
    else some (s.setTimer t (x.setActivity number .pushing))
  | _ => none

def push (s : TaskManager) (t number : Nat) : Option TaskManager :=
  let x := s.timers t
  match x.activities[number]?, s.scheduledMutex with
  | some .pushing, none =>
    some { s.setTimer t (x.setActivity number .ended) with
      scheduled := s.scheduled ++ [t]
      workThread := if s.workThread = .absent then .atFlag else s.workThread }
  | _, _ => none

/-- `stop` up to its `wait`; it needs `sp_`. -/
def stop (s : TaskManager) (t : Nat) : Option TaskManager :=
  let x := s.timers t
  if x.started ∧ x.stop = .notCalled ∧ s.scheduledMutex = none then
    some { s.setTimer t { x with stop := .waiting, isShutingDown := true } with
      scheduled := s.scheduled.filter (· ≠ t)
      scheduledMutex := some t }
  else none

def wait (s : TaskManager) (t : Nat) : Option TaskManager :=
  let x := s.timers t
  match x.stop with
  | .waiting =>
    match x.currentState.wait .stop .eof with
    | some (m, true) =>
      some { s.setTimer t { x with stop := .returned, currentState := m } with
        scheduledMutex := none }
    | some (m, false) => some (s.setTimer t { x with stop := .suspended, currentState := m })
    | none => none
  | _ => none

def check (s : TaskManager) : Option TaskManager :=
  if s.workThread = .atFlag then
    some { s with workThread := if s.isShutingDown then .ended else .atLock }
  else none

def scan (s : TaskManager) (due : Option Nat) : Option TaskManager :=
  if s.workThread = .atLock ∧ s.scheduledMutex = none then
    match due with
    | none => some { s with workThread := .atFlag }
    | some t =>
      let x := s.timers t
      if t ∈ s.scheduled then
        some { s.setTimer t { x with activities := x.activities ++ [.pending] } with
          scheduled := s.scheduled.filter (· ≠ t)
          workThread := .atFlag }
      else none
  else none

def step (s : TaskManager) : Action → Option TaskManager
  | .start t => s.start t
  | .execute t number => s.execute t number
  | .change t number => s.change t number
  | .callback t number => s.callback t number
  | .handled t number result => s.handled t number result
  | .schedule t number => s.schedule t number
  | .push t number => s.push t number
  | .stop t => s.stop t
  | .wait t => s.wait t
  | .check => s.check
  | .scan due => s.scan due
  | .prepareToStop => some { s with isShutingDown := true }
  | .disableTimers => some { s with isDisabled := true }
  | .shutdown => some { s with shutdownEvent := true }

/-- `stop` waits for the state `eof`. -/
def StopWaits (s : TaskManager) (t : Nat) : Prop := (s.timers t).stop = .suspended

/-- `stop` waits, and whatever happens, it will go on waiting. -/
def Deadlocked (s : TaskManager) (t : Nat) : Prop :=
  s.StopWaits t ∧ ∀ actions s', run step s actions = some s' → s'.StopWaits t

/-- A call of the state machine keeps `state_mutex_` while it is suspended. -/
def KeepsMutex (s : TaskManager) (t : Nat) : Prop :=
  let x := s.timers t
  x.currentState.stateMutex = some .stop ∧ x.stop = .suspended ∨
    ∃ number newState, x.currentState.stateMutex = some (.activity number) ∧
      x.activities[number]? = some (.suspended newState)

def DeadlockFree (s : TaskManager) : Prop := ∀ t, ¬s.Deadlocked t ∧ ¬s.KeepsMutex t

/-- When `stop` comes to look at the state, the timer is at its end already. -/
def FindsEof (s : TaskManager) (a : Action) : Prop :=
  ∀ t, a = .wait t → (s.timers t).currentState.state = .eof

/-! The one place where a timer is: its activity that has not ended, or its entry in the list. -/

/-- What the state of the machine is while an activity stands at its place. -/
def activityFits (state : TimerState) : Activity → Prop
  | .pending => state = .scheduled
  | .changing expectedState _ => state = expectedState
  | .changed newState => state = newState
  | .inHandler => state = .inHandler
  | .scheduling => state = .scheduled
  | .pushing => state = .scheduled
  | .suspended _ => False
  | .ended => False

inductive Stage
  | unstarted
  | live (a : Activity)
  | listed
  /-- Nothing will execute the timer any more. -/
  | gone

namespace Stage

/-- The timer and how often the list holds it. -/
def fits (x : Timer) (count : Nat) : Stage → Prop
  | .unstarted =>
    x.live = [] ∧ count = 0 ∧ x.started = false ∧ x.currentState.state = .bof
  | .live a =>
    x.live = [a] ∧ count = 0 ∧ x.started = true ∧ activityFits x.currentState.state a
  | .listed =>
    x.live = [] ∧ count = 1 ∧ x.started = true ∧ x.currentState.state = .scheduled
  | .gone => x.live = [] ∧ count = 0 ∧ x.started = true

end Stage

/-- The timer is at one place, and nobody keeps its mutex. -/
structure TimerInv (x : Timer) (count : Nat) : Prop where
  stage : ∃ stage : Stage, stage.fits x count
  mutex : x.currentState.stateMutex = none
  expectants : ∀ state, x.currentState.stateExpectants state = none
  stop : x.stop ≠ .suspended

def Inv (s : TaskManager) : Prop := ∀ t, TimerInv (s.timers t) (s.scheduled.count t)

theorem inv_start : Inv {} := fun _ =>
  ⟨⟨.unstarted, rfl, rfl, rfl, rfl⟩, rfl, fun _ => rfl, fun h => (by cases h)⟩

variable {s s' : TaskManager} {t number : Nat} {x : Timer} {count : Nat}

/-- A step of one timer leaves the others where they are. -/
theorem Inv.update (h : Inv s) (htimers : s'.timers = Function.update s.timers t x)
    (hx : TimerInv x (s'.scheduled.count t))
    (hcount : ∀ u, u ≠ t → s'.scheduled.count u = s.scheduled.count u) : Inv s' := by
  intro u
  rw [htimers]
  by_cases hu : u = t
  · subst hu
    rw [Function.update_self]
    exact hx
  · rw [Function.update_of_ne hu, hcount u hu]
    exact h u

/-- The activity that takes a step is the live one, and the list does not hold the timer. -/
theorem TimerInv.live_of_activity (h : TimerInv x count) {a : Activity}
    (ha : x.activities[number]? = some a) (hlive : a ≠ .ended) :
    x.live = [a] ∧ count = 0 ∧ x.started = true ∧ activityFits x.currentState.state a := by
  have hmem : a ∈ x.live :=
    List.mem_filter.2 ⟨List.mem_of_getElem? ha, decide_eq_true hlive⟩
  obtain ⟨stage, hfits⟩ := h.stage
  cases stage with
  | live b =>
    obtain ⟨hb, hrest⟩ := hfits
    rw [hb, List.mem_singleton] at hmem
    subst hmem
    exact ⟨hb, hrest⟩
  | unstarted =>
    rw [hfits.1] at hmem
    cases hmem
  | listed =>
    rw [hfits.1] at hmem
    cases hmem
  | gone =>
    rw [hfits.1] at hmem
    cases hmem

theorem filter_set {xs : List Activity} {a b : Activity}
    (ha : xs[number]? = some a) (hlive : xs.filter (· ≠ .ended) = [a]) (hne : a ≠ .ended) :
    (xs.set number b).filter (· ≠ .ended) = if b = .ended then [] else [b] := by
  induction xs generalizing number with
  | nil => cases ha
  | cons c xs ih =>
    cases number with
    | zero =>
      obtain rfl : c = a := Option.some.inj ha
      rw [List.filter_cons, if_pos (decide_eq_true hne)] at hlive
      have hrest : xs.filter (· ≠ .ended) = [] := (List.cons.inj hlive).2
      rw [List.set_cons_zero]
      by_cases hb : b = .ended
      · rw [List.filter_cons, if_neg (by simp [hb]), hrest, if_pos hb]
      · rw [List.filter_cons, if_pos (by simp [hb]), hrest, if_neg hb]
    | succ number =>
      have ha : xs[number]? = some a := ha
      rw [List.set_cons_succ]
      by_cases hc : c = .ended
      · rw [List.filter_cons, if_neg (by simp [hc])] at hlive ⊢
        exact ih ha hlive
      · -- the head and the element behind it would be two live ones
        rw [List.filter_cons, if_pos (by simp [hc])] at hlive
        have hmem : a ∈ xs.filter (· ≠ .ended) :=
          List.mem_filter.2 ⟨List.mem_of_getElem? ha, decide_eq_true hne⟩
        rw [(List.cons.inj hlive).2] at hmem
        cases hmem

/-- The live activity goes on to its next place. -/
theorem TimerInv.setActivity (h : TimerInv x count) {a : Activity}
    (ha : x.activities[number]? = some a) (hlive : a ≠ .ended) (b : Activity)
    {m : StateMachine TimerState Caller} (hmutex : m.stateMutex = none)
    (hexpectants : ∀ state, m.stateExpectants state = none)
    (hb : b ≠ .ended → activityFits m.state b) :
    TimerInv { x.setActivity number b with currentState := m } count := by
  obtain ⟨hx, hcount, hstarted, -⟩ := h.live_of_activity ha hlive
  refine ⟨?_, hmutex, hexpectants, h.stop⟩
  have hset : (x.activities.set number b).filter (· ≠ .ended) = if b = .ended then [] else [b] :=
    filter_set ha hx hlive
  by_cases hend : b = .ended
  · rw [if_pos hend] at hset
    exact ⟨.gone, hset, hcount, hstarted⟩
  · rw [if_neg hend] at hset
    exact ⟨.live b, hset, hcount, hstarted, hb hend⟩

theorem activityFits_afterChange {state : TimerState} (h : Activity.afterChange state ≠ .ended) :
    activityFits state (.afterChange state) := by
  cases state with
  | bof => exact absurd rfl h
  | eof => exact absurd rfl h
  | scheduled => rfl
  | inHandler => rfl

theorem count_filter_ne (xs : List Nat) {u : Nat} (hu : u ≠ t) :
    (xs.filter (· ≠ t)).count u = xs.count u := List.count_filter (by simpa using hu)

theorem count_filter_self (xs : List Nat) : (xs.filter (· ≠ t)).count t = 0 :=
  List.count_eq_zero.2 fun hmem => by simpa using (List.mem_filter.1 hmem).2

theorem Inv.start (h : Inv s) (hstep : s.start t = some s') : Inv s' := by
  unfold TaskManager.start at hstep
  dsimp only at hstep
  split at hstep
  · cases hstep
  · rename_i hstarted
    cases hstep
    refine h.update rfl ?_ fun _ _ => rfl
    obtain ⟨⟨stage, hfits⟩, hmutex, hexpectants, hstop⟩ := h t
    cases stage with
    | unstarted =>
      obtain ⟨hlive, hcount, -, hstate⟩ := hfits
      refine ⟨⟨.live (.changing .bof .scheduled), ?_, hcount, rfl, hstate⟩, hmutex, hexpectants, hstop⟩
      change ((s.timers t).activities ++ _).filter _ = _
      rw [List.filter_append]
      exact congrArg (· ++ _) hlive
    | live a => exact absurd hfits.2.2.1 hstarted
    | listed => exact absurd hfits.2.2.1 hstarted
    | gone => exact absurd hfits.2.2 hstarted

theorem Inv.execute (h : Inv s) (hstep : s.execute t number = some s') : Inv s' := by
  unfold TaskManager.execute at hstep
  dsimp only at hstep
  split at hstep
  · rename_i ha
    have hne : Activity.pending ≠ .ended := fun hx => (by cases hx)
    obtain ⟨-, -, -, hstate⟩ := (h t).live_of_activity ha hne
    have hmutex := (h t).mutex
    have hexpectants := (h t).expectants
    split at hstep
    · cases hstep
      exact h.update rfl ((h t).setActivity ha hne _ hmutex hexpectants fun _ => hstate)
        fun _ _ => rfl
    · cases hstep
      exact h.update rfl ((h t).setActivity ha hne _ hmutex hexpectants fun _ => hstate)
        fun _ _ => rfl
  · cases hstep

/-- The state is the expected one, so `change_state` is not suspended. -/
theorem Inv.change (h : Inv s) (hstep : s.change t number = some s') : Inv s' := by
  unfold TaskManager.change at hstep
  dsimp only at hstep
  split at hstep
  · rename_i expectedState newState ha
    have hne : Activity.changing expectedState newState ≠ .ended := fun hx => (by cases hx)
    obtain ⟨-, -, -, hstate⟩ := (h t).live_of_activity ha hne
    have hstate : expectedState = (s.timers t).currentState.state := hstate.symm
    have hmutex := (h t).mutex
    have hchange : (s.timers t).currentState.changeState (.activity number) expectedState newState =
        some ({ (s.timers t).currentState with state := newState }, true) := by
      simp [StateMachine.changeState, hmutex, hstate]
    rw [hchange] at hstep
    cases hstep
    exact h.update rfl ((h t).setActivity ha hne _ hmutex (h t).expectants fun _ => rfl)
      fun _ _ => rfl
  · cases hstep

/-- Nobody is suspended, so `change_state` calls no callback. -/
theorem Inv.callback (h : Inv s) (hstep : s.callback t number = some s') : Inv s' := by
  unfold TaskManager.callback at hstep
  dsimp only at hstep
  split at hstep
  · rename_i newState ha
    have hne : Activity.changed newState ≠ .ended := fun hx => (by cases hx)
    obtain ⟨-, -, -, hstate⟩ := (h t).live_of_activity ha hne
    have hstate : (s.timers t).currentState.state = newState := hstate
    have hmutex := (h t).mutex
    have hcallback : (s.timers t).currentState.callback =
        some ((s.timers t).currentState, none) := by
      unfold StateMachine.callback
      rw [hmutex, if_neg (by simp), (h t).expectants]
    rw [hcallback] at hstep
    cases hstep
    refine h.update rfl ((h t).setActivity ha hne _ hmutex (h t).expectants fun hlive => ?_)
      fun _ _ => rfl
    rw [hstate]
    exact activityFits_afterChange hlive
  · cases hstep

theorem Inv.handled (h : Inv s) {result : Option Bool}
    (hstep : s.handled t number result = some s') : Inv s' := by
  unfold TaskManager.handled at hstep
  dsimp only at hstep
  split at hstep
  · rename_i ha
    have hne : Activity.inHandler ≠ .ended := fun hx => (by cases hx)
    obtain ⟨-, -, -, hstate⟩ := (h t).live_of_activity ha hne
    have hmutex := (h t).mutex
    have hexpectants := (h t).expectants
    split at hstep
    · cases hstep
      exact h.update rfl ((h t).setActivity ha hne _ hmutex hexpectants fun _ => hstate)
        fun _ _ => rfl
    · cases hstep
      exact h.update rfl ((h t).setActivity ha hne _ hmutex hexpectants fun _ => hstate)
        fun _ _ => rfl
    · cases hstep
      exact h.update rfl ((h t).setActivity ha hne _ hmutex hexpectants fun hx => absurd rfl hx)
        fun _ _ => rfl
  · cases hstep

theorem Inv.schedule (h : Inv s) (hstep : s.schedule t number = some s') : Inv s' := by
  unfold TaskManager.schedule at hstep
  dsimp only at hstep
  split at hstep
  · rename_i ha
    have hne : Activity.scheduling ≠ .ended := fun hx => (by cases hx)
    obtain ⟨-, -, -, hstate⟩ := (h t).live_of_activity ha hne
    have hmutex := (h t).mutex
    have hexpectants := (h t).expectants
    split at hstep
    · cases hstep
      exact h.update rfl ((h t).setActivity ha hne _ hmutex hexpectants fun hx => absurd rfl hx)
        fun _ _ => rfl
    · cases hstep
      exact h.update rfl ((h t).setActivity ha hne _ hmutex hexpectants fun _ => hstate)
        fun _ _ => rfl
  · cases hstep

theorem Inv.push (h : Inv s) (hstep : s.push t number = some s') : Inv s' := by
  unfold TaskManager.push at hstep
  dsimp only at hstep
  split at hstep
  · rename_i ha hfree
    cases hstep
    have hne : Activity.pushing ≠ .ended := fun hx => (by cases hx)
    obtain ⟨hlive, hcount, hstarted, hstate⟩ := (h t).live_of_activity ha hne
    refine h.update rfl ?_ fun u hu => ?_
    · have hset := @filter_set number _ _ Activity.ended ha hlive hne
      refine ⟨⟨.listed, hset, ?_, hstarted, hstate⟩, (h t).mutex, (h t).expectants, (h t).stop⟩
      change (s.scheduled ++ [t]).count t = 1
      rw [List.count_append, hcount, List.count_singleton_self]
    · change (s.scheduled ++ [t]).count u = _
      rw [List.count_append, List.count_singleton, if_neg (by simpa using hu.symm)]
      rfl
  · cases hstep

/-- Taken out of the list, the timer is over, if it was there. -/
theorem TimerInv.unlisted (h : TimerInv x count) (hstarted : x.started = true) :
    ∃ stage : Stage, stage.fits x 0 := by
  obtain ⟨stage, hfits⟩ := h.stage
  cases stage with
  | unstarted =>
    rw [hfits.2.2.1] at hstarted
    cases hstarted
  | live a => exact ⟨.live a, hfits.1, rfl, hfits.2.2⟩
  | listed => exact ⟨.gone, hfits.1, rfl, hstarted⟩
  | gone => exact ⟨.gone, hfits.1, rfl, hstarted⟩

theorem Inv.stop (h : Inv s) (hstep : s.stop t = some s') : Inv s' := by
  unfold TaskManager.stop at hstep
  dsimp only at hstep
  split at hstep
  · rename_i hcond
    cases hstep
    obtain ⟨hstarted, -, -⟩ := hcond
    refine h.update rfl ?_ fun u hu => count_filter_ne s.scheduled hu
    obtain ⟨stage, hfits⟩ := (h t).unlisted hstarted
    rw [show (s.scheduled.filter (· ≠ t)).count t = 0 from count_filter_self s.scheduled]
    refine ⟨⟨stage, ?_⟩, (h t).mutex, (h t).expectants, fun hx => (by cases hx)⟩
    cases stage <;> exact hfits
  · cases hstep

/-- With the machine in `eof`, `stop` returns. -/
theorem Inv.wait (h : Inv s) (heof : (s.timers t).currentState.state = .eof)
    (hstep : s.wait t = some s') : Inv s' := by
  unfold TaskManager.wait at hstep
  dsimp only at hstep
  split at hstep
  · have hmutex := (h t).mutex
    have hwait : (s.timers t).currentState.wait Caller.stop TimerState.eof =
        some ((s.timers t).currentState, true) := by
      unfold StateMachine.wait
      rw [hmutex, if_neg (by simp), if_neg (by simp [heof])]
    rw [hwait] at hstep
    cases hstep
    refine h.update rfl ?_ fun _ _ => rfl
    obtain ⟨stage, hfits⟩ := (h t).stage
    refine ⟨⟨stage, ?_⟩, hmutex, (h t).expectants, fun hx => (by cases hx)⟩
    cases stage <;> exact hfits
  · cases hstep

theorem Inv.scan (h : Inv s) {due : Option Nat} (hstep : s.scan due = some s') : Inv s' := by
  unfold TaskManager.scan at hstep
  split at hstep
  · cases due with
    | none =>
      cases hstep
      exact h
    | some t =>
      dsimp only at hstep
      split at hstep
      · rename_i hmem
        cases hstep
        refine h.update rfl ?_ fun u hu => count_filter_ne s.scheduled hu
        rw [show (s.scheduled.filter (· ≠ t)).count t = 0 from count_filter_self s.scheduled]
        have hpos : s.scheduled.count t ≠ 0 := fun hzero => List.count_eq_zero.1 hzero hmem
        obtain ⟨⟨stage, hfits⟩, hmutex, hexpectants, hstop⟩ := h t
        cases stage with
        | listed =>
          obtain ⟨hlive, -, hstarted, hstate⟩ := hfits
          refine ⟨⟨.live .pending, ?_, rfl, hstarted, hstate⟩, hmutex, hexpectants, hstop⟩
          change ((s.timers t).activities ++ _).filter _ = _
          rw [List.filter_append]
          exact congrArg (· ++ _) hlive
        | unstarted => exact absurd hfits.2.1 hpos
        | live a => exact absurd hfits.2.1 hpos
        | gone => exact absurd hfits.2.1 hpos
      · cases hstep
  · cases hstep

theorem Inv.step (h : Inv s) {a : Action} (hfinds : s.FindsEof a) (hstep : s.step a = some s') :
    Inv s' := by
  cases a with
  | start t => exact h.start hstep
  | execute t number => exact h.execute hstep
  | change t number => exact h.change hstep
  | callback t number => exact h.callback hstep
  | handled t number result => exact h.handled hstep
  | schedule t number => exact h.schedule hstep
  | push t number => exact h.push hstep
  | stop t => exact h.stop hstep
  | wait t => exact h.wait (hfinds t rfl) hstep
  | check =>
    change TaskManager.check s = some s' at hstep
    unfold TaskManager.check at hstep
    split at hstep
    · cases hstep
      exact h
    · cases hstep
  | scan due => exact h.scan hstep
  | prepareToStop =>
    cases hstep
    exact h
  | disableTimers =>
    cases hstep
    exact h
  | shutdown =>
    cases hstep
    exact h

theorem Inv.deadlockFree (h : Inv s) : s.DeadlockFree := by
  intro t
  have hmutex := (h t).mutex
  constructor
  · exact fun hdead => (h t).stop hdead.1
  · rintro (⟨hkeeps, -⟩ | ⟨number, newState, hkeeps, -⟩)
    · rw [hmutex] at hkeeps
      cases hkeeps
    · rw [hmutex] at hkeeps
      cases hkeeps

/-- `stop` waits and keeps `state_mutex_` meanwhile. -/
def Stuck (x : Timer) : Prop := x.stop = .suspended ∧ x.currentState.stateMutex = some .stop

theorem Stuck.changeState (h : Stuck x) (caller : Caller) (expectedState newState : TimerState) :
    x.currentState.changeState caller expectedState newState = none := by
  unfold StateMachine.changeState
  rw [h.2]
  rfl

theorem Stuck.callback (h : Stuck x) : x.currentState.callback = none := by
  unfold StateMachine.callback
  rw [h.2]
  rfl

/-- What is left of a step of a timer whose `stop` is stuck. -/
theorem stuck_update {u : Nat} (h : Stuck (s.timers t))
    (htimers : s'.timers = Function.update s.timers u x) (hx : u = t → Stuck x) :
    Stuck (s'.timers t) := by
  rw [htimers]
  by_cases hu : u = t
  · subst hu
    rw [Function.update_self]
    exact hx rfl
  · rw [Function.update_of_ne (Ne.symm hu)]
    exact h

theorem stuck_setActivity {u : Nat} (h : Stuck (s.timers t)) (a : Activity)
    (htimers : s'.timers = Function.update s.timers u ((s.timers u).setActivity number a)) :
    Stuck (s'.timers t) :=
  stuck_update h htimers fun hu => (by subst hu; exact h)

theorem resume_timers_of_ne {u : Nat} (caller : Caller) (hu : t ≠ u) :
    (s.resume u caller).timers t = s.timers t := by
  unfold TaskManager.resume
  dsimp only
  split
  · exact Function.update_of_ne hu _ _
  · split
    · exact Function.update_of_ne hu _ _
    · rfl

/-- No step lets a stuck `stop` go on: each of them that could needs `state_mutex_`. -/
theorem stuck_step (h : Stuck (s.timers t)) {a : Action} (hstep : s.step a = some s') :
    Stuck (s'.timers t) := by
  cases a with
  | start u =>
    change TaskManager.start s u = some s' at hstep
    unfold TaskManager.start at hstep
    dsimp only at hstep
    split at hstep
    · cases hstep
    · cases hstep
      exact stuck_update h rfl fun hu => (by subst hu; exact h)
  | execute u number =>
    change TaskManager.execute s u number = some s' at hstep
    unfold TaskManager.execute at hstep
    dsimp only at hstep
    split at hstep
    · split at hstep
      · cases hstep
        exact stuck_setActivity h _ rfl
      · cases hstep
        exact stuck_setActivity h _ rfl
    · cases hstep
  | change u number =>
    change TaskManager.change s u number = some s' at hstep
    unfold TaskManager.change at hstep
    dsimp only at hstep
    split at hstep
    · rename_i expectedState newState ha
      have hnone (hu : u = t) : (s.timers u).currentState.changeState (.activity number)
          expectedState newState = none := by
        subst hu
        exact h.changeState _ _ _
      split at hstep
      · rename_i hsome
        cases hstep
        refine stuck_update h rfl fun hu => ?_
        rw [hnone hu] at hsome
        cases hsome
      · rename_i hsome
        cases hstep
        refine stuck_update h rfl fun hu => ?_
        rw [hnone hu] at hsome
        cases hsome
      · cases hstep
    · cases hstep
  | callback u number =>
    change TaskManager.callback s u number = some s' at hstep
    unfold TaskManager.callback at hstep
    dsimp only at hstep
    split at hstep
    · have hnone (hu : u = t) : (s.timers u).currentState.callback = none := by
        subst hu
        exact h.callback
      split at hstep
      · rename_i caller hsome
        cases hstep
        by_cases hu : u = t
        · rw [hnone hu] at hsome
          cases hsome
        · rw [resume_timers_of_ne caller (Ne.symm hu)]
          exact stuck_update h rfl fun hu' => absurd hu' hu
      · rename_i hsome
        cases hstep
        refine stuck_update h rfl fun hu => ?_
        rw [hnone hu] at hsome
        cases hsome
      · cases hstep
    · cases hstep
  | handled u number result =>
    change TaskManager.handled s u number result = some s' at hstep
    unfold TaskManager.handled at hstep
    dsimp only at hstep
    split at hstep
    · split at hstep
      · cases hstep
        exact stuck_setActivity h _ rfl
      · cases hstep
        exact stuck_setActivity h _ rfl
      · cases hstep
        exact stuck_setActivity h _ rfl
    · cases hstep
  | schedule u number =>
    change TaskManager.schedule s u number = some s' at hstep
    unfold TaskManager.schedule at hstep
    dsimp only at hstep
    split at hstep
    · split at hstep
      · cases hstep
        exact stuck_setActivity h _ rfl
      · cases hstep
        exact stuck_setActivity h _ rfl
    · cases hstep
  | push u number =>
    change TaskManager.push s u number = some s' at hstep
    unfold TaskManager.push at hstep
    dsimp only at hstep
    split at hstep
    · cases hstep
      exact stuck_setActivity h _ rfl
    · cases hstep
  | stop u =>
    change TaskManager.stop s u = some s' at hstep
    unfold TaskManager.stop at hstep
    dsimp only at hstep
    split at hstep
    · rename_i hcond
      cases hstep
      refine stuck_update h rfl fun hu => ?_
      subst hu
      rw [h.1] at hcond
      cases hcond.2.1
    · cases hstep
  | wait u =>
    change TaskManager.wait s u = some s' at hstep
    unfold TaskManager.wait at hstep
    dsimp only at hstep
    split at hstep
    · rename_i hwaiting
      have hne : u ≠ t := by
        intro hu
        subst hu
        rw [h.1] at hwaiting
        cases hwaiting
      split at hstep
      · cases hstep
        exact stuck_update h rfl fun hu => absurd hu hne
      · cases hstep
        exact stuck_update h rfl fun hu => absurd hu hne
      · cases hstep
    · cases hstep
  | check =>
    change TaskManager.check s = some s' at hstep
    unfold TaskManager.check at hstep
    split at hstep
    · cases hstep
      exact h
    · cases hstep
  | scan due =>
    change TaskManager.scan s due = some s' at hstep
    unfold TaskManager.scan at hstep
    split at hstep
    · cases due with
      | none =>
        cases hstep
        exact h
      | some u =>
        dsimp only at hstep
        split at hstep
        · cases hstep
          exact stuck_update h rfl fun hu => (by subst hu; exact h)
        · cases hstep
    · cases hstep
  | prepareToStop =>
    cases hstep
    exact h
  | disableTimers =>
    cases hstep
    exact h
  | shutdown =>
    cases hstep
    exact h

theorem deadlocked_of_stuck (h : Stuck (s.timers t)) : s.Deadlocked t := by
  refine ⟨h.1, fun actions s' hrun => ?_⟩
  have hstuck := @run_invariant _ _ step s s' (fun s => Stuck (s.timers t)) h
    (fun _ _ _ ht hstep => stuck_step ht hstep) actions hrun
  exact hstuck.1

/-- A `stop` that comes to look at another state than `eof` is stuck. -/
theorem stuck_of_wait (hne : (s.timers t).currentState.state ≠ .eof)
    (hstep : s.wait t = some s') : Stuck (s'.timers t) := by
  unfold TaskManager.wait at hstep
  dsimp only at hstep
  split at hstep
  · cases hmutex : (s.timers t).currentState.stateMutex with
    | some caller => simp [StateMachine.wait, hmutex] at hstep
    | none =>
      have hwait : (s.timers t).currentState.wait Caller.stop TimerState.eof =
          some ((s.timers t).currentState.suspend .stop .eof .eof, false) := by
        simp [StateMachine.wait, hmutex, hne.symm]
      rw [hwait] at hstep
      cases hstep
      simp [Stuck, setTimer, StateMachine.suspend]
  · cases hstep

/-- In a run no state has a deadlock, or a suspended call that keeps `state_mutex_`, exactly if each
`stop` that comes to look at the state finds `eof`. -/
theorem deadlockFree_iff (actions : List Action) :
    Always step {} actions DeadlockFree ↔ EachStep step {} actions FindsEof := by
  constructor
  · refine eachStep_of_always fun s a s' _ hfree hstep t ha => ?_
    subst ha
    by_contra hne
    exact (hfree t).1 (deadlocked_of_stuck (stuck_of_wait hne hstep))
  · intro h
    have hinv : Always step {} actions Inv :=
      always_of_eachStep inv_start (fun s a s' hs hfinds hstep => hs.step hfinds hstep) h
    exact hinv.imp fun s hs => hs.deadlockFree

/-- A timer is started and stopped before its first execution: `stop` takes it out of the list and
then waits for `eof`. -/
theorem stop_deadlocks :
    ∃ s, run step {} [.start 0, .change 0 0, .callback 0 0, .schedule 0 0, .push 0 0, .stop 0,
      .wait 0] = some s ∧ s.Deadlocked 0 :=
  ⟨_, rfl, deadlocked_of_stuck ⟨rfl, rfl⟩⟩

end TaskManager
end Vds
