import Mathlib

/-! `async_mutex`: the list of those who hold it or wait for it, and the results that have been
set. -/

namespace Vds

structure AsyncMutex (α : Type) where
  /-- The holder and behind it those who wait. -/
  tasks : List α := []
  /-- Those whose result has been set, in this order. -/
  granted : List α := []
  /-- `pop_front` of an empty list. -/
  undefined : Bool := false
  deriving DecidableEq, Repr

namespace AsyncMutex

variable {α : Type}

def lock (m : AsyncMutex α) (task : α) : AsyncMutex α where
  tasks := m.tasks ++ [task]
  granted := if m.tasks.isEmpty then m.granted ++ [task] else m.granted
  undefined := m.undefined

theorem granted_lock {m : AsyncMutex α} {a task : α} (h : a ∈ m.granted) :
    a ∈ (m.lock task).granted := by
  rw [lock]
  dsimp only
  split
  · exact List.mem_append_left _ h
  · exact h

/-- Nothing tells the caller from another who has the mutex. -/
def unlock (m : AsyncMutex α) : AsyncMutex α :=
  match m.tasks with
  | [] => { m with undefined := true }
  | _ :: tasks => { m with tasks := tasks, granted := m.granted ++ tasks.head?.toList }

theorem granted_unlock {m : AsyncMutex α} {a : α} (h : a ∈ m.granted) : a ∈ m.unlock.granted := by
  rw [unlock]
  cases m.tasks with
  | nil => exact h
  | cons holder tasks => exact List.mem_append_left _ h

/-- After these calls of `lock` the mutex has been granted in their order, to the front of the
list and to those who have released it. -/
structure Fair (m : AsyncMutex α) (calls : List α) : Prop where
  defined : m.undefined = false
  order : ∃ released, calls = released ++ m.tasks ∧
    m.granted = released ++ m.tasks.head?.toList

theorem fair_new : Fair ({} : AsyncMutex α) [] := ⟨rfl, [], rfl, rfl⟩

section

variable {m : AsyncMutex α} {calls : List α}

theorem Fair.lock (h : Fair m calls) (task : α) : Fair (m.lock task) (calls ++ [task]) := by
  obtain ⟨released, hcalls, hgranted⟩ := h.order
  refine ⟨h.defined, released, ?_, ?_⟩
  · rw [hcalls, List.append_assoc]
    rfl
  · rw [AsyncMutex.lock]
    cases htasks : m.tasks with
    | nil =>
      rw [htasks] at hgranted
      rw [hgranted]
      simp
    | cons first tasks =>
      rw [htasks] at hgranted
      exact hgranted

theorem Fair.unlock (h : Fair m calls) {holder : α} {tasks : List α}
    (htasks : m.tasks = holder :: tasks) : Fair m.unlock calls ∧ m.unlock.tasks = tasks := by
  obtain ⟨released, hcalls, hgranted⟩ := h.order
  have hunlock : m.unlock =
      { m with tasks := tasks, granted := m.granted ++ tasks.head?.toList } := by
    rw [AsyncMutex.unlock, htasks]
  rw [hunlock]
  refine ⟨⟨h.defined, released ++ [holder], ?_, ?_⟩, rfl⟩
  · rw [hcalls, htasks, List.append_assoc]
    rfl
  · rw [hgranted, htasks]
    rfl

/-- Who has the mutex and has not released it is at the front. -/
theorem Fair.front (h : Fair m calls) (hcalls : calls.Nodup) {task : α} (htask : task ∈ m.tasks)
    (hgranted : task ∈ m.granted) : ∃ tasks, m.tasks = task :: tasks := by
  obtain ⟨released, hsplit, hgrants⟩ := h.order
  cases htasks : m.tasks with
  | nil =>
    rw [htasks] at htask
    cases htask
  | cons first tasks =>
    rw [hsplit] at hcalls
    rw [hgrants, htasks, List.mem_append] at hgranted
    rcases hgranted with hreleased | hfirst
    · exact absurd htask (List.disjoint_of_nodup_append hcalls hreleased)
    · have hsame : task = first := by simpa using hfirst
      exact ⟨tasks, by rw [hsame]⟩

/-- While anyone waits, the front of the list has the mutex. -/
theorem Fair.granted_front (h : Fair m calls) {first : α} {tasks : List α}
    (htasks : m.tasks = first :: tasks) : first ∈ m.granted := by
  obtain ⟨released, -, hgranted⟩ := h.order
  rw [hgranted, htasks]
  simp

end

end AsyncMutex

end Vds
