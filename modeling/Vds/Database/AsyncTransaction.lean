import Vds.Kernel.ThreadApartment

/-! `_database::async_transaction`: the callback between `BEGIN` and `COMMIT` or `ROLLBACK`, each of
which may fail, in the queue of the database's apartment. -/

namespace Vds.DatabaseThread

variable {σ : Type}

/-- How sqlite ends a statement that the state of the connection allows. -/
inductive Fault
  | none
  /-- The statement fails and a transaction stays open (`SQLITE_BUSY`). -/
  | refused (what : String)
  /-- The statement fails and sqlite has rolled the transaction back by itself. -/
  | rolledBack (what : String)
  deriving DecidableEq

inductive Statement
  | beginTransaction
  | commitTransaction
  | rollbackTransaction
  deriving DecidableEq

/-- What is in the file, and what the open transaction sees of it. -/
structure Connection (σ : Type) where
  saved : σ
  work : Option σ := .none

namespace Connection

/-- `sqlite3_exec` of a control statement. -/
def execute (c : Connection σ) (statement : Statement) (fault : Fault) :
    Connection σ × Expected Unit :=
  match statement, c.work, fault with
  | .beginTransaction, some _, _ =>
    (c, .error (.runtimeError "cannot start a transaction within a transaction"))
  | .beginTransaction, .none, .none => ({ c with work := some c.saved }, .ok ())
  | .beginTransaction, .none, .refused what => (c, .error (.runtimeError what))
  | .beginTransaction, .none, .rolledBack what => (c, .error (.runtimeError what))
  | .commitTransaction, .none, _ =>
    (c, .error (.runtimeError "cannot commit - no transaction is active"))
  | .rollbackTransaction, .none, _ =>
    (c, .error (.runtimeError "cannot rollback - no transaction is active"))
  | .commitTransaction, some work, .none => ({ saved := work }, .ok ())
  | .rollbackTransaction, some _, .none => ({ saved := c.saved }, .ok ())
  | _, some _, .refused what => (c, .error (.runtimeError what))
  | _, some _, .rolledBack what => ({ saved := c.saved }, .error (.runtimeError what))

end Connection

/-- A call of `async_transaction`, with what sqlite will answer to its statements. -/
structure TransactionCall (σ : Type) where
  callback : σ → σ × Expected Bool
  beginFault : Fault := .none
  endFault : Fault := .none

/-- What happened in a call: the statements, the callback's result and each `set_value`. -/
structure TransactionRecord where
  openAtStart : Bool
  log : List (Statement × Expected Unit)
  result : Option (Expected Bool) := none
  answers : List (Expected Unit) := []

/-- The statement that honours the callback's verdict. -/
def endStatement : Expected Bool → Statement
  | .error _ => .rollbackTransaction
  | .ok true => .commitTransaction
  | .ok false => .rollbackTransaction

/-- What the result is set to once the verdict is honoured. -/
def answer : Expected Bool → Expected Unit
  | .error e => .error e
  | .ok _ => .ok ()

/-- The closure that `async_transaction` schedules. -/
def asyncTransaction (c : Connection σ) (call : TransactionCall σ) :
    Connection σ × TransactionRecord :=
  let begun := c.execute .beginTransaction call.beginFault
  let record : TransactionRecord :=
    { openAtStart := c.work.isSome, log := [(.beginTransaction, begun.2)] }
  match begun.2 with
  | .error _ => (begun.1, record)   -- `CHECK_EXPECTED` leaves without `set_value`
  | .ok () =>
    let (work, result) := call.callback (begun.1.work.getD begun.1.saved)
    let ended := { begun.1 with work := some work }.execute (endStatement result) call.endFault
    let record :=
      { record with
        log := record.log ++ [(endStatement result, ended.2)]
        result := some result }
    match ended.2 with
    | .error _ => (ended.1, record)
    | .ok () => (ended.1, { record with answers := [answer result] })

/-- The calls one after another on one connection. -/
def transactionRecords (c : Connection σ) : List (TransactionCall σ) → List TransactionRecord
  | [] => []
  | call :: calls =>
    (asyncTransaction c call).2 :: transactionRecords (asyncTransaction c call).1 calls

namespace TransactionRecord

def Committed (record : TransactionRecord) : Prop :=
  (Statement.commitTransaction, .ok ()) ∈ record.log

/-- The callback or a statement needed for its verdict failed. -/
def Failed (record : TransactionRecord) : Prop :=
  (∃ entry ∈ record.log, entry.2.hasError = true) ∨ ∃ e, record.result = some (.error e)

/-- The call found no open transaction and its result was set once, to what came of it. -/
def Answered (record : TransactionRecord) : Prop :=
  record.openAtStart = false ∧ ∃ value, record.answers = [value] ∧
    (record.Committed → value = .ok ()) ∧ (record.Failed → ∃ e, value = .error e)

end TransactionRecord

/-- sqlite carries out both statements of the call. -/
def TransactionCall.Honoured (call : TransactionCall σ) : Prop :=
  call.beginFault = .none ∧ call.endFault = .none

variable {c : Connection σ} {call : TransactionCall σ}

/-- An honoured call on a closed connection closes it again and keeps what was committed. -/
theorem asyncTransaction_of_honoured (hwork : c.work = none) (h : call.Honoured) :
    asyncTransaction c call =
      ({ saved := if endStatement (call.callback c.saved).2 = .commitTransaction
          then (call.callback c.saved).1 else c.saved },
        { openAtStart := false
          log := [(.beginTransaction, .ok ()), (endStatement (call.callback c.saved).2, .ok ())]
          result := some (call.callback c.saved).2
          answers := [answer (call.callback c.saved).2] }) := by
  obtain ⟨hbegin, hend⟩ := h
  obtain ⟨saved, work⟩ := c
  obtain ⟨callback, beginFault, endFault⟩ := call
  have hwork : work = none := hwork
  have hbegin : beginFault = .none := hbegin
  have hend : endFault = .none := hend
  subst hwork hbegin hend
  cases hresult : callback saved with
  | mk work result =>
    cases result with
    | error e => simp [asyncTransaction, Connection.execute, hresult, endStatement]
    | ok verdict =>
      cases verdict <;> simp [asyncTransaction, Connection.execute, hresult, endStatement]

theorem answered_of_honoured (hwork : c.work = none) (h : call.Honoured) :
    (asyncTransaction c call).2.Answered := by
  rw [asyncTransaction_of_honoured hwork h]
  refine ⟨rfl, _, rfl, ?_, ?_⟩
  · intro hcommitted
    cases hresult : (call.callback c.saved).2 with
    | error e => simp [TransactionRecord.Committed, hresult, endStatement] at hcommitted
    | ok verdict => rfl
  · intro hfailed
    obtain ⟨entry, hentry, herror⟩ | ⟨e, he⟩ := hfailed
    · have hok : entry.2 = .ok () := by
        simp only [List.mem_cons, List.not_mem_nil, or_false] at hentry
        obtain rfl | rfl := hentry <;> rfl
      rw [hok] at herror
      cases herror
    · have he : (call.callback c.saved).2 = .error e := Option.some.inj he
      rw [he]
      exact ⟨e, rfl⟩

/-- Where sqlite fails one of the two statements the result is never set. -/
theorem answers_of_not_honoured (hwork : c.work = none) (h : ¬call.Honoured) :
    (asyncTransaction c call).2.answers = [] := by
  obtain ⟨saved, work⟩ := c
  obtain ⟨callback, beginFault, endFault⟩ := call
  have hwork : work = none := hwork
  subst hwork
  cases beginFault with
  | none =>
    cases hresult : callback saved with
    | mk work result =>
      cases endFault with
      | none => exact absurd ⟨rfl, rfl⟩ h
      | refused what =>
        cases result with
        | error e => simp [asyncTransaction, Connection.execute, hresult, endStatement]
        | ok verdict =>
          cases verdict <;> simp [asyncTransaction, Connection.execute, hresult, endStatement]
      | rolledBack what =>
        cases result with
        | error e => simp [asyncTransaction, Connection.execute, hresult, endStatement]
        | ok verdict =>
          cases verdict <;> simp [asyncTransaction, Connection.execute, hresult, endStatement]
  | refused what => simp [asyncTransaction, Connection.execute]
  | rolledBack what => simp [asyncTransaction, Connection.execute]

theorem records_answered_iff (hwork : c.work = none) (calls : List (TransactionCall σ)) :
    (∀ record ∈ transactionRecords c calls, record.Answered) ↔ ∀ call ∈ calls, call.Honoured := by
  induction calls generalizing c with
  | nil => simp [transactionRecords]
  | cons call calls ih =>
    rw [transactionRecords, List.forall_mem_cons, List.forall_mem_cons]
    by_cases hcall : call.Honoured
    · have hclosed : (asyncTransaction c call).1.work = none := by
        rw [asyncTransaction_of_honoured hwork hcall]
      have hanswered := answered_of_honoured hwork hcall
      rw [ih hclosed]
      exact ⟨fun h => ⟨hcall, h.2⟩, fun h => ⟨hanswered, h.2⟩⟩
    · have hnone := answers_of_not_honoured hwork hcall
      constructor
      · rintro ⟨⟨-, value, hvalue, -⟩, -⟩
        rw [hnone] at hvalue
        cases hvalue
      · rintro ⟨h, -⟩
        exact absurd h hcall

/-- In every interleaving of the callers the finished calls are all answered exactly when sqlite
carries out their statements; once the queue is empty these are all the calls. -/
theorem answered_iff_honoured (saved : σ) (actions : List (ThreadApartment.Action (TransactionCall σ)))
    (s : ThreadApartment (TransactionCall σ))
    (h : Library.LabelledRun.run ThreadApartment.step {} actions = some s) :
    ((∀ record ∈ transactionRecords { saved } s.finished, record.Answered) ↔
      ∀ call ∈ s.finished, call.Honoured) ∧
    (s.taskQueue = [] → s.finished = s.scheduled) :=
  ⟨records_answered_iff rfl s.finished, (ThreadApartment.inv_of_run h).drained⟩

/-- Adds one and asks for the commit. -/
def increment : TransactionCall Nat where
  callback n := (n + 1, .ok true)

def lockedIncrement : TransactionCall Nat where
  callback n := (n + 1, .ok true)
  endFault := .refused "database is locked"

/-- Two calls, the second one queued while the first runs. -/
def twoCalls (first second : TransactionCall Nat) :
    List (ThreadApartment.Action (TransactionCall Nat)) :=
  [.schedule first, .async, .launch, .front 0, .schedule second, .return 0, .pop 0, .front 0,
    .return 0, .pop 0]

theorem answered_iff_honoured_twoCalls :
    ((∀ record ∈ transactionRecords { saved := 0 } [increment, increment], record.Answered) ↔
      ∀ call ∈ [increment, increment], call.Honoured) ∧
    (([] : List (TransactionCall Nat)) = [] → [increment, increment] = [increment, increment]) :=
  answered_iff_honoured 0 (twoCalls increment increment)
    ((Library.LabelledRun.run ThreadApartment.step {} (twoCalls increment increment)).getD {}) rfl

/-- A refused `COMMIT` leaves its own call and the next one, whose callback is never called, without
an answer. -/
theorem locked_not_answered :
    (Library.LabelledRun.run ThreadApartment.step {} (twoCalls lockedIncrement increment)).map
        (·.finished) = some [lockedIncrement, increment] ∧
    (transactionRecords { saved := 0 } [lockedIncrement, increment]).map (·.answers) = [[], []] ∧
    (transactionRecords { saved := 0 } [lockedIncrement, increment]).map (·.openAtStart) =
      [false, true] ∧
    ¬∀ record ∈ transactionRecords { saved := 0 } [lockedIncrement, increment], record.Answered := by
  refine ⟨rfl, rfl, rfl, ?_⟩
  intro h
  obtain ⟨-, value, hvalue, -⟩ := h _ List.mem_cons_self
  cases hvalue

end Vds.DatabaseThread
