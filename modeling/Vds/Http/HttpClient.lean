import Vds.Http.HttpBodies

/-! `http_client`: calls one after another, and the two handlers that a call leaves for its
response. -/

namespace Vds.Http

open StateError HttpParser

namespace HttpClient

/-! ### The client -/

inductive HandlerAnswer
  | failed
  /-- A null pointer in the place of the stream. -/
  | noStream
  | stream
  deriving DecidableEq, Repr

/-- A `response_handler_` and the stream that it gives. -/
structure ResponseHandler where
  /-- The call that has set it. -/
  call : Nat
  answer : List StdString → HandlerAnswer
  /-- Does this write to the stream succeed? -/
  writes : Nat → Bool

structure Response where
  /-- Its place among the responses of the connection. -/
  number : Nat
  headers : List StdString
  body : ConstDataBuffer
  deriving DecidableEq, Repr

def hasLength (headers : List StdString) : Bool :=
  (getHeader headers (bytesOf "Content-Length")).isSome

def Response.add (r : Response) (data : ConstDataBuffer) : Response :=
  { r with body := r.body ++ data }

/-- All bytes that `Content-Length` announces are there. -/
def Response.Complete (r : Response) : Prop :=
  hasLength r.headers → contentLengthOf r.headers = .ok r.body.length

/-- The functions `send` and `send_headers`; both come with a stream or with the collected body. -/
inductive CallKind
  | send
  | sendHeaders
  deriving DecidableEq, Repr

inductive CallPhase
  | idle
  /-- In `start_message`. -/
  | sendingHeaders
  /-- In the end of the request, or in the body callback. -/
  | sendingBody
  /-- In `get_future`. -/
  | waiting
  deriving DecidableEq, Repr

abbrev Result := Except String Unit

structure Client where
  /-- The calls so far. -/
  begun : Nat := 0
  kind : CallKind := .send
  phase : CallPhase := .idle
  responseHandler : Option ResponseHandler := none
  /-- The call that has set `final_handler_`. -/
  finalHandler : Option Nat := none
  /-- The responses so far. -/
  responses : Nat := 0
  /-- The handler that has given the stream, and the number of writes to it. -/
  stream : Option ResponseHandler := none
  written : Nat := 0
  /-- The last response. -/
  response : Option Response := none
  /-- What the final handler has been called with. -/
  completed : Option Result := none
  /-- What the calls have returned. -/
  answers : List (Nat × Except String (Option Response)) := []
  /-- An empty handler has been invoked. -/
  emptyInvoked : Bool := false
  /-- A handler of a call that has returned has been invoked. -/
  dangling : Bool := false

namespace Client

/-- The call returns. -/
def finish (c : Client) (result : Result) : Client :=
  { c with
    phase := .idle
    completed := none
    answers := c.answers ++ [(c.begun - 1, result.map fun _ => c.response)] }

/-- Is this the call that is running? -/
def IsRunning (c : Client) (call : Nat) : Prop := c.phase ≠ .idle ∧ call + 1 = c.begun

instance (c : Client) (call : Nat) : Decidable (c.IsRunning call) :=
  inferInstanceAs (Decidable (_ ∧ _))

/-- The final handler sets the result, for which the call may be waiting. -/
def complete (c : Client) (call : Nat) (result : Result) : Client :=
  if c.IsRunning call then
    if c.phase = .waiting then c.finish result else { c with completed := some result }
  else { c with dangling := true }

/-- The response handler is swapped out and gets the headers. -/
def takeHandler (c : Client) (handler : ResponseHandler) (headers : List StdString) : Client :=
  { c with
    responseHandler := none
    responses := c.responses + 1
    dangling := c.dangling || !decide (c.IsRunning handler.call)
    response := some { number := c.responses, headers := headers, body := [] } }

def wrote (c : Client) (data : ConstDataBuffer) : Client :=
  { c with
    written := c.written + 1
    response := c.response.map fun r => r.add data }

end Client

/-! ### The callbacks of the parser -/

abbrev ClientM := EStateM String Client

/-- The message callback that `start` has given to the parser. -/
def messageCallback (headers : List StdString) : ClientM Bool := do
  let c ← get
  match c.responseHandler with
  | none => do
    set { c with emptyInvoked := true }
    throw "empty handler"
  | some handler => do
    match handler.answer headers with
    | .failed => do
      set (c.takeHandler handler headers)
      throw "response handler"
    | .noStream => do
      set (c.takeHandler handler headers)
      return false
    | .stream => do
      set { c.takeHandler handler headers with stream := some handler, written := 0 }
      return true

def writeStream (data : ConstDataBuffer) : ClientM Unit := do
  let c ← get
  match c.stream with
  | none => throw "no stream"
  | some handler =>
    if handler.writes c.written then set (c.wrote data) else throw "stream"

/-- `client_pipeline::finish_message`. -/
def finishMessage : ClientM Unit := do
  let c ← get
  match c.finalHandler with
  | none => do
    set { c with emptyInvoked := true }
    throw "empty handler"
  | some call => set ({ c with finalHandler := none }.complete call (.ok ()))

/-- `client_pipeline::before_close`. -/
def beforeClose : ClientM Unit := do
  let c ← get
  match c.finalHandler with
  | none => pure ()
  | some call =>
    set ({ c with finalHandler := none }.complete call
      (.error "Network connection has been closed"))

def clientPipeline : Callbacks Client where
  message := messageCallback
  write := writeStream
  finishMessage := finishMessage
  beforeClose := beforeClose

/-! ### The connection -/

structure Connection where
  parser : HttpParser := create
  client : Client := {}
  /-- What is left of the read. -/
  pending : ConstDataBuffer := []
  /-- A read has failed, and there are no more of them. -/
  stopped : Bool := false
  /-- An exception has left the loop of the reader, or a null pointer was followed. -/
  crashed : Bool := false

inductive Event
  | begin (kind : CallKind) (answer : List StdString → HandlerAnswer) (writes : Nat → Bool)
  /-- The write in `start_message` is done. -/
  | headersDone (result : Result)
  /-- The body callback has returned; the end of the request in `send` always succeeds. -/
  | bodyDone (result : Result)
  | read (data : ConstDataBuffer)
  /-- The next turn of the parser in its read. -/
  | turn
  | close

namespace Connection

def withClient (s : Connection) (c : Client) : Connection := { s with client := c }

/-- An error that no caller of the parser handles. -/
def crashes : HttpError → Bool
  | .invalidArgument | .outOfRange | .undefined => true
  | .logicError _ | .runtimeError _ | .callback _ | .running => false

/-- After a turn; an error ends the reading. -/
def settle (s : Connection) :
    EStateM.Result HttpError (HttpParser × Client) ConstDataBuffer → Connection
  | .ok rest t => { s with parser := t.1, client := t.2, pending := rest }
  | .error e t => { s with
      parser := t.1, client := t.2, pending := [], stopped := true, crashed := crashes e }

def afterHeaders (s : Connection) : Result → Connection
  | .ok () => s.withClient { s.client with phase := .sendingBody }
  | .error e => s.withClient (s.client.finish (.error e))

/-- The call waits, unless its response has come; the end of the request in `send` has no error. -/
def afterBody (s : Connection) : Result → Option Connection
  | .ok () =>
    match s.client.completed with
    | none => some (s.withClient { s.client with phase := .waiting })
    | some completed => some (s.withClient (s.client.finish completed))
  | .error e =>
    if s.client.kind = .sendHeaders then some (s.withClient (s.client.finish (.error e))) else none

/-- One step of a program that has not crashed; none if it cannot be taken. -/
def advance (s : Connection) : Event → Option Connection
  | .begin kind answer writes =>
    if s.client.phase = .idle then
      some (s.withClient { s.client with
        begun := s.client.begun + 1
        kind := kind
        phase := .sendingHeaders
        completed := none
        responseHandler := some { call := s.client.begun, answer := answer, writes := writes }
        finalHandler := some s.client.begun })
    else none
  | .headersDone result =>
    if s.client.phase = .sendingHeaders then some (s.afterHeaders result) else none
  | .bodyDone result =>
    if s.client.phase = .sendingBody then s.afterBody result else none
  | .read data =>
    if s.pending = [] ∧ data ≠ [] ∧ s.stopped = false ∧ s.parser.eof = false then
      some { s with pending := data }
    else none
  | .turn =>
    if s.pending ≠ [] then
      some (s.settle (HttpParser.turn clientPipeline s.pending (s.parser, s.client)))
    else none
  | .close =>
    if s.pending = [] then
      match HttpParser.close clientPipeline (s.parser, s.client) with
      | .ok _ t => some { s with parser := t.1, client := t.2 }
      | .error e t => some { s with
          parser := t.1, client := t.2, stopped := true, crashed := crashes e }
    else none

def step (s : Connection) (e : Event) : Option Connection :=
  if s.crashed then none else s.advance e

def run (s : Connection) : List Event → Option Connection
  | [] => some s
  | e :: events => (s.step e).bind fun t => run t events

end Connection

end HttpClient

end Vds.Http
