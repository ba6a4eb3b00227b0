import Vds.Library.LabelledRun
import Vds.Kernel.Core

/-! The queue of callbacks that are called one after another (`thread_apartment`). Each section
under the mutex is one step; the callers and the runners take their steps in any order. -/

namespace Vds

open Library.LabelledRun

variable {α : Type}

/-- Where a runner, the closure that `schedule` gives to `mt_service::async`, stands. -/
inductive Phase (α : Type)
  /-- Before it takes the lock to look at the front of the queue. -/
  | entering
  /-- In the callback, outside of the lock. -/
  | calling (f : α)
  /-- After the callback, before it takes the lock to pop. -/
  | returned
  deriving DecidableEq, Repr

/-- The apartment, the threads in it and what has happened so far. -/
structure ThreadApartment (α : Type) where
  taskQueue : List α := []
  isStopping : Bool := false
  emptyQuery : Bool := false
  /-- Callers that left the lock with `need_start` and have not reached `mt_service::async`. -/
  starting : Nat := 0
  /-- Runners in the queue of `mt_service`. -/
  waiting : Nat := 0
  runners : List (Phase α) := []
  scheduled : List α := []
  started : List α := []
  finished : List α := []
  /-- How many callbacks had been scheduled when `prepare_to_stop` was called. -/
  stopAt : Option Nat := none
  /-- How often the result of `prepare_to_stop` was set. -/
  sets : Nat := 0
  deriving DecidableEq, Repr

namespace ThreadApartment

inductive Action (α : Type)
  | schedule (f : α)
  | async
  | launch
  | front (runner : Nat)
  | return (runner : Nat)
  | pop (runner : Nat)
  | prepareToStop
  deriving DecidableEq, Repr

/-- A step that needs nobody to call `schedule` or `prepare_to_stop`. -/
def Action.isInternal : Action α → Bool
  | .schedule _ => false
  | .prepareToStop => false
  | _ => true

/-- The locked section of `schedule`. -/
def schedule (s : ThreadApartment α) (f : α) : ThreadApartment α :=
  let needStart := s.taskQueue.isEmpty
  { s with
    taskQueue := s.taskQueue ++ [f]
    starting := if needStart then s.starting + 1 else s.starting
    scheduled := s.scheduled ++ [f] }

/-- A caller hands its runner to `mt_service`. -/
def async (s : ThreadApartment α) : Option (ThreadApartment α) :=
  if s.starting = 0 then none
  else some { s with starting := s.starting - 1, waiting := s.waiting + 1 }

/-- A work thread takes a runner out of the queue of `mt_service`. -/
def launch (s : ThreadApartment α) : Option (ThreadApartment α) :=
  if s.waiting = 0 then none
  else some { s with waiting := s.waiting - 1, runners := s.runners ++ [.entering] }

/-- A runner reads the front under the lock, unlocks and calls it. -/
def front (s : ThreadApartment α) (runner : Nat) : Option (ThreadApartment α) :=
  match s.runners[runner]?, s.taskQueue with
  | some .entering, f :: _ =>
    some { s with runners := s.runners.set runner (.calling f), started := s.started ++ [f] }
  | _, _ => none

/-- The callback returns; an error of it is only logged. -/
def return' (s : ThreadApartment α) (runner : Nat) : Option (ThreadApartment α) :=
  match s.runners[runner]? with
  | some (.calling f) =>
    some { s with runners := s.runners.set runner .returned, finished := s.finished ++ [f] }
  | _ => none

/-- A runner pops under the lock; at an empty queue it answers `prepare_to_stop` and ends. -/
def pop (s : ThreadApartment α) (runner : Nat) : Option (ThreadApartment α) :=
  match s.runners[runner]?, s.taskQueue with
  | some .returned, _ :: queue =>
    if queue.isEmpty then
      some { s with
        taskQueue := queue
        emptyQuery := false
        sets := if s.emptyQuery then s.sets + 1 else s.sets
        runners := s.runners.eraseIdx runner }
    else some { s with taskQueue := queue, runners := s.runners.set runner .entering }
  | _, _ => none

/-- The one call of `prepare_to_stop`. -/
def prepareToStop (s : ThreadApartment α) : Option (ThreadApartment α) :=
  if s.isStopping then none
  else if s.taskQueue.isEmpty then
    some { s with isStopping := true, stopAt := some s.scheduled.length, sets := s.sets + 1 }
  else
    some { s with isStopping := true, stopAt := some s.scheduled.length, emptyQuery := true }

def step (s : ThreadApartment α) : Action α → Option (ThreadApartment α)
  | .schedule f => some (s.schedule f)
  | .async => s.async
  | .launch => s.launch
  | .front runner => s.front runner
  | .return runner => s.return' runner
  | .pop runner => s.pop runner
  | .prepareToStop => s.prepareToStop

/-! The runner that is started or active, and what it says of the queue. -/

inductive Stage (α : Type)
  | idle
  | starting
  | waiting
  | running (phase : Phase α)

namespace Stage

/-- The threads that belong to the stage: nobody else starts, waits or runs. -/
def threads : Stage α → Nat × Nat × List (Phase α)
  | .idle => (0, 0, [])
  | .starting => (1, 0, [])
  | .waiting => (0, 1, [])
  | .running phase => (0, 0, [phase])

/-- What the queue holds: the callbacks not yet finished, and the one just finished before `pop`. -/
def fits (s : ThreadApartment α) : Stage α → Prop
  | .idle => s.taskQueue = [] ∧ s.started = s.finished ∧ s.scheduled = s.finished
  | .running (.calling f) =>
    s.taskQueue.head? = some f ∧ s.started = s.finished ++ [f] ∧
      s.scheduled = s.finished ++ s.taskQueue
  | .running .returned =>
    s.taskQueue ≠ [] ∧ s.started = s.finished ∧ s.scheduled = s.finished ++ s.taskQueue.tail
  | _ =>
    s.taskQueue ≠ [] ∧ s.started = s.finished ∧ s.scheduled = s.finished ++ s.taskQueue

/-- The internal steps taken for the callback at hand. -/
def work : Stage α → Int
  | .idle => 0
  | .starting => 0
  | .waiting => 1
  | .running .entering => 2
  | .running (.calling _) => 3
  | .running .returned => -1

end Stage

/-- Where the answer to `prepare_to_stop` stands. -/
def stopFits (s : ThreadApartment α) : Prop :=
  match s.stopAt with
  | none => s.isStopping = false ∧ s.emptyQuery = false ∧ s.sets = 0
  | some n =>
    s.isStopping = true ∧ n ≤ s.scheduled.length ∧
      (s.emptyQuery = true ∧ s.sets = 0 ∧ s.taskQueue ≠ [] ∨
        s.emptyQuery = false ∧ s.sets = 1 ∧ n ≤ s.finished.length)

/-- The invariant of the apartment after the actions. -/
structure Inv (actions : List (Action α)) (s : ThreadApartment α) : Prop where
  stage : ∃ stage : Stage α, (s.starting, s.waiting, s.runners) = stage.threads ∧ stage.fits s ∧
    (actions.countP Action.isInternal : Int) ≤ 5 * s.finished.length + stage.work
  stop : s.stopFits

theorem inv_start : Inv [] ({} : ThreadApartment α) where
  stage := ⟨.idle, rfl, ⟨rfl, rfl, rfl⟩, by simp [Stage.work]⟩
  stop := ⟨rfl, rfl, rfl⟩

variable {s s' : ThreadApartment α} {actions : List (Action α)}

theorem countP_concat (a : Action α) :
    (actions ++ [a]).countP Action.isInternal =
      actions.countP Action.isInternal + if a.isInternal then 1 else 0 := by
  rw [List.countP_append, List.countP_singleton]

/-- The answer to `prepare_to_stop` is not touched, and no callback is taken back. -/
theorem stopFits_mono (h : s.stopFits) (hat : s'.stopAt = s.stopAt)
    (hstopping : s'.isStopping = s.isStopping) (hquery : s'.emptyQuery = s.emptyQuery)
    (hsets : s'.sets = s.sets) (hqueue : s.taskQueue ≠ [] → s'.taskQueue ≠ [])
    (hscheduled : s.scheduled.length ≤ s'.scheduled.length)
    (hfinished : s.finished.length ≤ s'.finished.length) : s'.stopFits := by
  unfold stopFits at h ⊢
  rw [hat, hstopping, hquery, hsets]
  cases hn : s.stopAt with
  | none => simpa only [hn] using h
  | some n =>
    simp only [hn] at h ⊢
    obtain ⟨hs, hle, hcase⟩ := h
    refine ⟨hs, hle.trans hscheduled, hcase.imp ?_ ?_⟩
    · exact fun ⟨hq, hset, hne⟩ => ⟨hq, hset, hqueue hne⟩
    · exact fun ⟨hq, hset, hn⟩ => ⟨hq, hset, hn.trans hfinished⟩

/-- The threads of a stage with a runner are that runner alone. -/
theorem stage_of_runner {stage : Stage α} {runner : Nat} {phase : Phase α}
    (h : (s.starting, s.waiting, s.runners) = stage.threads)
    (hphase : s.runners[runner]? = some phase) :
    stage = .running phase ∧ runner = 0 ∧ s.runners = [phase] := by
  have hrunners : s.runners = stage.threads.2.2 := congrArg (·.2.2) h
  rw [hrunners] at hphase ⊢
  cases stage with
  | running p =>
    obtain ⟨hi, hp⟩ := List.getElem?_eq_some_iff.1 hphase
    have hzero : runner = 0 := by simpa [Stage.threads] using hi
    subst hzero
    have hp : p = phase := hp
    subst hp
    exact ⟨rfl, rfl, rfl⟩
  | idle => cases hphase
  | starting => cases hphase
  | waiting => cases hphase

theorem Inv.schedule (h : Inv actions s) (f : α) :
    Inv (actions ++ [.schedule f]) (s.schedule f) where
  stage := by
    rw [countP_concat]
    obtain ⟨stage, hthreads, hfits, hwork⟩ := h.stage
    cases stage with
    | idle =>
      refine ⟨.starting, ?_, ?_, hwork⟩
      · simp_all [ThreadApartment.schedule, Stage.threads, Stage.fits]
      · simp_all [ThreadApartment.schedule, Stage.fits]
    | starting =>
      refine ⟨.starting, ?_, ?_, hwork⟩ <;>
        simp_all [ThreadApartment.schedule, Stage.threads, Stage.fits]
    | waiting =>
      refine ⟨.waiting, ?_, ?_, hwork⟩ <;>
        simp_all [ThreadApartment.schedule, Stage.threads, Stage.fits]
    | running phase =>
      refine ⟨.running phase, ?_, ?_, hwork⟩
      · cases hqueue : s.taskQueue <;> cases phase <;>
          simp_all [ThreadApartment.schedule, Stage.threads, Stage.fits]
      · cases hqueue : s.taskQueue <;> cases phase <;>
          simp_all [ThreadApartment.schedule, Stage.fits]
  stop := by
    refine stopFits_mono h.stop rfl rfl rfl rfl ?_ ?_ le_rfl
    · intro _
      simp [ThreadApartment.schedule]
    · simp [ThreadApartment.schedule]

theorem Inv.async (h : Inv actions s) (hstep : s.async = some s') :
    Inv (actions ++ [.async]) s' := by
  unfold ThreadApartment.async at hstep
  split at hstep
  · cases hstep
  · rename_i hne
    cases hstep
    refine ⟨?_, stopFits_mono h.stop rfl rfl rfl rfl id le_rfl le_rfl⟩
    rw [countP_concat]
    obtain ⟨stage, hthreads, hfits, hwork⟩ := h.stage
    cases stage with
    | starting =>
      refine ⟨.waiting, ?_, hfits, ?_⟩
      · simp_all [Stage.threads]
      · simp only [Action.isInternal, Stage.work] at hwork ⊢
        push_cast
        omega
    | idle => simp_all [Stage.threads]
    | waiting => simp_all [Stage.threads]
    | running phase => simp_all [Stage.threads]

theorem Inv.launch (h : Inv actions s) (hstep : s.launch = some s') :
    Inv (actions ++ [.launch]) s' := by
  unfold ThreadApartment.launch at hstep
  split at hstep
  · cases hstep
  · rename_i hne
    cases hstep
    refine ⟨?_, stopFits_mono h.stop rfl rfl rfl rfl id le_rfl le_rfl⟩
    rw [countP_concat]
    obtain ⟨stage, hthreads, hfits, hwork⟩ := h.stage
    cases stage with
    | waiting =>
      refine ⟨.running .entering, ?_, hfits, ?_⟩
      · simp_all [Stage.threads]
      · simp only [Action.isInternal, Stage.work] at hwork ⊢
        push_cast
        omega
    | idle => simp_all [Stage.threads]
    | starting => simp_all [Stage.threads]
    | running phase => simp_all [Stage.threads]

/-- What `front` does: the runner that enters calls the first callback of the queue. -/
theorem front_eq_some {runner : Nat} (hstep : s.front runner = some s') :
    ∃ f queue, s.runners[runner]? = some .entering ∧ s.taskQueue = f :: queue ∧
      s' = { s with
        runners := s.runners.set runner (.calling f), started := s.started ++ [f] } := by
  unfold ThreadApartment.front at hstep
  split at hstep
  · rename_i f queue hrunner hqueue
    exact ⟨f, queue, hrunner, hqueue, (Option.some.inj hstep).symm⟩
  · cases hstep

theorem Inv.front (h : Inv actions s) {runner : Nat} (hstep : s.front runner = some s') :
    Inv (actions ++ [.front runner]) s' := by
  obtain ⟨f, queue, hrunner, hqueue, rfl⟩ := front_eq_some hstep
  refine ⟨?_, stopFits_mono h.stop rfl rfl rfl rfl id le_rfl le_rfl⟩
  rw [countP_concat]
  obtain ⟨stage, hthreads, hfits, hwork⟩ := h.stage
  obtain ⟨rfl, rfl, hrunners⟩ := stage_of_runner hthreads hrunner
  obtain ⟨hne, hstarted, hscheduled⟩ := hfits
  refine ⟨.running (.calling f), ?_, ⟨?_, ?_, hscheduled⟩, ?_⟩
  · simp_all [Stage.threads]
  · change s.taskQueue.head? = some f
    rw [hqueue, List.head?_cons]
  · change s.started ++ [f] = s.finished ++ [f]
    rw [hstarted]
  · simp only [Action.isInternal, Stage.work] at hwork ⊢
    push_cast
    omega

theorem return_eq_some {runner : Nat} (hstep : s.return' runner = some s') :
    ∃ f, s.runners[runner]? = some (.calling f) ∧
      s' = { s with
        runners := s.runners.set runner .returned, finished := s.finished ++ [f] } := by
  unfold ThreadApartment.return' at hstep
  split at hstep
  · rename_i f hrunner
    exact ⟨f, hrunner, (Option.some.inj hstep).symm⟩
  · cases hstep

theorem Inv.return (h : Inv actions s) {runner : Nat} (hstep : s.return' runner = some s') :
    Inv (actions ++ [.return runner]) s' := by
  obtain ⟨f, hrunner, rfl⟩ := return_eq_some hstep
  refine ⟨?_, stopFits_mono h.stop rfl rfl rfl rfl id le_rfl (by simp)⟩
  rw [countP_concat]
  obtain ⟨stage, hthreads, hfits, hwork⟩ := h.stage
  obtain ⟨rfl, rfl, hrunners⟩ := stage_of_runner hthreads hrunner
  obtain ⟨hhead, hstarted, hscheduled⟩ := hfits
  obtain ⟨queue, hqueue⟩ := List.head?_eq_some_iff.1 hhead
  refine ⟨.running .returned, ?_, ⟨?_, hstarted, ?_⟩, ?_⟩
  · simp_all [Stage.threads]
  · change s.taskQueue ≠ []
    rw [hqueue]
    exact List.cons_ne_nil f queue
  · change s.scheduled = s.finished ++ [f] ++ s.taskQueue.tail
    rw [hscheduled, hqueue, List.append_assoc]
    rfl
  · simp only [Action.isInternal, Stage.work, List.length_append, List.length_singleton] at hwork ⊢
    push_cast
    omega

/-- What `pop` does: the runner goes on with the next callback or, at an empty queue, ends. -/
theorem pop_eq_some {runner : Nat} (hstep : s.pop runner = some s') :
    ∃ f queue, s.runners[runner]? = some .returned ∧ s.taskQueue = f :: queue ∧
      (queue = [] ∧ s' = { s with
          taskQueue := [], emptyQuery := false
          sets := if s.emptyQuery then s.sets + 1 else s.sets
          runners := s.runners.eraseIdx runner } ∨
        queue ≠ [] ∧ s' = { s with
          taskQueue := queue, runners := s.runners.set runner .entering }) := by
  unfold ThreadApartment.pop at hstep
  split at hstep
  · rename_i f queue hrunner hqueue
    refine ⟨f, queue, hrunner, hqueue, ?_⟩
    cases queue with
    | nil => exact .inl ⟨rfl, (Option.some.inj hstep).symm⟩
    | cons g queue => exact .inr ⟨List.cons_ne_nil g queue, (Option.some.inj hstep).symm⟩
  · cases hstep

theorem Inv.pop (h : Inv actions s) {runner : Nat} (hstep : s.pop runner = some s') :
    Inv (actions ++ [.pop runner]) s' := by
  obtain ⟨f, queue, hrunner, hqueue, hcase⟩ := pop_eq_some hstep
  obtain ⟨stage, hthreads, hfits, hwork⟩ := h.stage
  obtain ⟨rfl, rfl, hrunners⟩ := stage_of_runner hthreads hrunner
  obtain ⟨hne, hstarted, hscheduled⟩ := hfits
  rw [hqueue, List.tail_cons] at hscheduled
  have hstop := h.stop
  obtain ⟨rfl, rfl⟩ | ⟨hrest, rfl⟩ := hcase
  · rw [List.append_nil] at hscheduled
    refine ⟨⟨.idle, ?_, ⟨rfl, hstarted, hscheduled⟩, ?_⟩, ?_⟩
    · simp_all [Stage.threads]
    · rw [countP_concat]
      simp only [Action.isInternal, Stage.work] at hwork ⊢
      push_cast
      omega
    · -- every callback has finished, those before `prepare_to_stop` among them
      unfold stopFits at hstop ⊢
      cases hat : s.stopAt with
      | none => simp_all
      | some n =>
        rw [hat] at hstop
        obtain ⟨hstopping, hle, hcase⟩ := hstop
        have hfinished : n ≤ s.finished.length := hscheduled ▸ hle
        refine ⟨hstopping, hle, .inr ⟨?_, ?_, hfinished⟩⟩
        · rfl
        obtain ⟨hquery, hsets, -⟩ | ⟨hquery, hsets, -⟩ := hcase
        · rw [hquery, hsets]
          rfl
        · rw [hquery, hsets]
          rfl
  · refine ⟨⟨.running .entering, ?_, ⟨hrest, hstarted, hscheduled⟩, ?_⟩,
      stopFits_mono h.stop rfl rfl rfl rfl (fun _ => hrest) le_rfl le_rfl⟩
    · simp_all [Stage.threads]
    · rw [countP_concat]
      simp only [Action.isInternal, Stage.work] at hwork ⊢
      push_cast
      omega

theorem Inv.prepareToStop (h : Inv actions s) (hstep : s.prepareToStop = some s') :
    Inv (actions ++ [.prepareToStop]) s' := by
  have hstop := h.stop
  obtain ⟨stage, hthreads, hfits, hwork⟩ := h.stage
  have hnone : s.isStopping = false → s.emptyQuery = false ∧ s.sets = 0 := by
    intro hstopping
    unfold stopFits at hstop
    cases hat : s.stopAt <;> simp_all
  unfold ThreadApartment.prepareToStop at hstep
  split at hstep
  · cases hstep
  · rename_i hstopping
    obtain ⟨hquery, hsets⟩ := hnone (by simpa using hstopping)
    split at hstep
    · rename_i hempty
      cases hstep
      refine ⟨⟨stage, hthreads, ?_, ?_⟩, ?_⟩
      · cases stage with
        | running phase => cases phase <;> exact hfits
        | _ => exact hfits
      · rw [countP_concat]
        exact hwork
      · have hfinished : s.scheduled = s.finished := by
          have hempty : s.taskQueue = [] := by simpa using hempty
          cases stage with
          | idle => exact hfits.2.2
          | starting => exact absurd hempty hfits.1
          | waiting => exact absurd hempty hfits.1
          | running phase =>
            cases phase with
            | entering => exact absurd hempty hfits.1
            | calling f => simp [Stage.fits, hempty] at hfits
            | returned => exact absurd hempty hfits.1
        exact ⟨rfl, le_rfl, .inr ⟨hquery, by rw [hsets], hfinished ▸ le_rfl⟩⟩
    · rename_i hne
      cases hstep
      refine ⟨⟨stage, hthreads, ?_, ?_⟩, ?_⟩
      · cases stage with
        | running phase => cases phase <;> exact hfits
        | _ => exact hfits
      · rw [countP_concat]
        exact hwork
      · exact ⟨rfl, le_rfl, .inl ⟨rfl, hsets, by simpa using hne⟩⟩

theorem Inv.step (h : Inv actions s) {a : Action α} (hstep : s.step a = some s') :
    Inv (actions ++ [a]) s' := by
  cases a with
  | schedule f =>
    cases hstep
    exact h.schedule f
  | async => exact h.async hstep
  | launch => exact h.launch hstep
  | front runner => exact h.front hstep
  | «return» runner => exact h.return hstep
  | pop runner => exact h.pop hstep
  | prepareToStop => exact h.prepareToStop hstep

theorem inv_of_run (h : run step ({} : ThreadApartment α) actions = some s) : Inv actions s :=
  run_induct inv_start (fun _ _ _ _ ht hstep => ht.step hstep) h

/-! What a caller can rely on. -/

def isCalling : Phase α → Bool
  | .calling _ => true
  | _ => false

/-- Callbacks start in the order of the queue and each finishes before the next one starts. -/
theorem Inv.order (h : Inv actions s) :
    s.finished <+: s.started ∧ s.started <+: s.scheduled ∧
      s.started.length = s.finished.length + s.runners.countP isCalling ∧
      s.runners.countP isCalling ≤ 1 := by
  obtain ⟨stage, hthreads, hfits, -⟩ := h.stage
  have hrunners : s.runners = stage.threads.2.2 := congrArg (·.2.2) hthreads
  rw [hrunners]
  cases stage with
  | idle =>
    obtain ⟨-, hstarted, hscheduled⟩ := hfits
    simp [hstarted, hscheduled, Stage.threads]
  | starting =>
    obtain ⟨-, hstarted, hscheduled⟩ := hfits
    simp [hstarted, hscheduled, Stage.threads]
  | waiting =>
    obtain ⟨-, hstarted, hscheduled⟩ := hfits
    simp [hstarted, hscheduled, Stage.threads]
  | running phase =>
    cases phase with
    | entering =>
      obtain ⟨-, hstarted, hscheduled⟩ := hfits
      simp [hstarted, hscheduled, Stage.threads, isCalling]
    | calling f =>
      obtain ⟨hhead, hstarted, hscheduled⟩ := hfits
      obtain ⟨queue, hqueue⟩ := List.head?_eq_some_iff.1 hhead
      simp [hstarted, hscheduled, hqueue, Stage.threads, isCalling]
    | returned =>
      obtain ⟨-, hstarted, hscheduled⟩ := hfits
      simp [hstarted, hscheduled, Stage.threads, isCalling]

/-- One runner is started or active while the queue is not empty, and none otherwise. -/
theorem Inv.runner (h : Inv actions s) :
    s.starting + s.waiting + s.runners.length = if s.taskQueue = [] then 0 else 1 := by
  obtain ⟨stage, hthreads, hfits, -⟩ := h.stage
  have hstarting : s.starting = stage.threads.1 := congrArg (·.1) hthreads
  have hwaiting : s.waiting = stage.threads.2.1 := congrArg (·.2.1) hthreads
  have hrunners : s.runners = stage.threads.2.2 := congrArg (·.2.2) hthreads
  rw [hstarting, hwaiting, hrunners]
  cases stage with
  | idle => rw [if_pos hfits.1]; rfl
  | starting => rw [if_neg hfits.1]; rfl
  | waiting => rw [if_neg hfits.1]; rfl
  | running phase =>
    have hne : s.taskQueue ≠ [] := by
      cases phase with
      | entering => exact hfits.1
      | calling f =>
        obtain ⟨queue, hqueue⟩ := List.head?_eq_some_iff.1 hfits.1
        rw [hqueue]
        exact List.cons_ne_nil f queue
      | returned => exact hfits.1
    rw [if_neg hne]
    rfl

/-- While the queue is not empty some thread can take its next step. -/
theorem Inv.progress (h : Inv actions s) (hne : s.taskQueue ≠ []) :
    ∃ a : Action α, a.isInternal = true ∧ (s.step a).isSome = true := by
  obtain ⟨stage, hthreads, hfits, -⟩ := h.stage
  have hstarting : s.starting = stage.threads.1 := congrArg (·.1) hthreads
  have hwaiting : s.waiting = stage.threads.2.1 := congrArg (·.2.1) hthreads
  have hrunners : s.runners = stage.threads.2.2 := congrArg (·.2.2) hthreads
  obtain ⟨g, queue, hqueue⟩ := List.exists_cons_of_ne_nil hne
  cases stage with
  | idle => exact absurd hfits.1 hne
  | starting =>
    exact ⟨.async, rfl, by simp [ThreadApartment.step, ThreadApartment.async, hstarting, Stage.threads]⟩
  | waiting =>
    exact ⟨.launch, rfl, by simp [ThreadApartment.step, ThreadApartment.launch, hwaiting, Stage.threads]⟩
  | running phase =>
    cases phase with
    | entering =>
      exact ⟨.front 0, rfl, by simp [ThreadApartment.step, ThreadApartment.front, hrunners, hqueue, Stage.threads]⟩
    | calling f =>
      exact ⟨.return 0, rfl, by simp [ThreadApartment.step, ThreadApartment.return', hrunners, Stage.threads]⟩
    | returned =>
      refine ⟨.pop 0, rfl, ?_⟩
      simp only [ThreadApartment.step, ThreadApartment.pop, hrunners, hqueue, Stage.threads, List.getElem?_cons_zero]
      split <;> rfl

/-- Five internal steps for each callback are enough to finish it. -/
theorem Inv.finishes (h : Inv actions s) {n : Nat} (hn : n ≤ s.scheduled.length)
    (hwork : 5 * n ≤ actions.countP Action.isInternal) : n ≤ s.finished.length := by
  obtain ⟨stage, hthreads, hfits, hle⟩ := h.stage
  cases stage with
  | idle => exact hfits.2.2 ▸ hn
  | starting => simp only [Stage.work] at hle; omega
  | waiting => simp only [Stage.work] at hle; omega
  | running phase =>
    cases phase <;>
    · simp only [Stage.work] at hle
      omega

/-- The answer to `prepare_to_stop` is set once, when all that was queued before it is finished:
at the latest with the queue empty. -/
theorem Inv.answer (h : Inv actions s) :
    s.sets ≤ 1 ∧ (s.stopAt = none → s.sets = 0) ∧
      ∀ n, s.stopAt = some n →
        (s.sets = 1 → s.scheduled.take n <+: s.finished) ∧ (s.taskQueue = [] → s.sets = 1) := by
  have hstop := h.stop
  have hprefix : s.finished <+: s.scheduled := h.order.1.trans h.order.2.1
  unfold stopFits at hstop
  cases hat : s.stopAt with
  | none =>
    rw [hat] at hstop
    obtain ⟨-, -, hsets⟩ := hstop
    refine ⟨by omega, fun _ => hsets, fun n hn => (by cases hn)⟩
  | some n =>
    rw [hat] at hstop
    obtain ⟨-, hle, hcase⟩ := hstop
    obtain ⟨-, hsets, hne⟩ | ⟨-, hsets, hn⟩ := hcase
    · refine ⟨by omega, fun h => (by cases h), ?_⟩
      rintro m -
      exact ⟨fun h => (by omega), fun hempty => absurd hempty hne⟩
    · refine ⟨by omega, fun h => (by cases h), ?_⟩
      rintro m hm
      cases hm
      refine ⟨fun _ => ?_, fun _ => hsets⟩
      exact List.prefix_of_prefix_length_le (List.take_prefix n s.scheduled) hprefix
        ((List.length_take_le n s.scheduled).trans hn)

/-- A serial executor, seen after the actions of a run. -/
structure Serial (actions : List (Action α)) (s : ThreadApartment α) : Prop where
  /-- What has started is the beginning of what was queued, each callback once. -/
  inOrder : s.started <+: s.scheduled
  /-- What has finished is all that has started, but for the one callback being called. -/
  oneAtATime : s.finished <+: s.started ∧
    s.started.length = s.finished.length + s.runners.countP isCalling ∧
    s.runners.countP isCalling ≤ 1
  oneRunner : s.starting + s.waiting + s.runners.length = if s.taskQueue = [] then 0 else 1
  /-- Nothing is left in the queue when no thread can go on. -/
  progress : s.taskQueue ≠ [] → ∃ a : Action α, a.isInternal = true ∧ (s.step a).isSome = true
  /-- The first `n` callbacks have finished after five internal steps for each. -/
  finishes : ∀ n, n ≤ s.scheduled.length → 5 * n ≤ actions.countP Action.isInternal →
    s.scheduled.take n <+: s.finished
  /-- An empty queue means that every scheduled callback has finished. -/
  drained : s.taskQueue = [] → s.finished = s.scheduled
  setOnce : s.sets ≤ 1 ∧ (s.stopAt = none → s.sets = 0)
  setAfter : ∀ n, s.stopAt = some n →
    (s.sets = 1 → s.scheduled.take n <+: s.finished) ∧ (s.taskQueue = [] → s.sets = 1)

theorem Inv.drained (h : Inv actions s) (hempty : s.taskQueue = []) : s.finished = s.scheduled := by
  obtain ⟨stage, hthreads, hfits, -⟩ := h.stage
  cases stage with
  | idle => exact hfits.2.2.symm
  | starting => exact absurd hempty hfits.1
  | waiting => exact absurd hempty hfits.1
  | running phase =>
    cases phase with
    | entering => exact absurd hempty hfits.1
    | calling f =>
      rw [Stage.fits, hempty] at hfits
      cases hfits.1
    | returned => exact absurd hempty hfits.1

/-- Two callers, a stop request between them and the second callback queued while the first runs. -/
def sampleActions : List (Action Nat) :=
  [.schedule 7, .async, .launch, .front 0, .schedule 8, .prepareToStop, .return 0, .pop 0,
    .front 0, .return 0, .pop 0]

end ThreadApartment

end Vds
