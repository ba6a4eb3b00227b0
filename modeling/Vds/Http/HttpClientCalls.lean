import Vds.Http.HttpClient

/-! The calls of `http_client` return once, with their own response, as long as every response is
asked for, comes whole, and is taken by its handler. -/

namespace Vds.Http

open StateError HttpParser

namespace HttpClient

/-! ### What the calls are promised -/

namespace Client

/-- The calls that have returned. -/
def returned (c : Client) : Nat := if c.phase = .idle then c.begun else c.begun - 1

/-- The response to the last call is there as a whole. -/
def Answered (c : Client) : Prop :=
  ∃ r, c.response = some r ∧ r.number + 1 = c.begun ∧ r.Complete

/-- The response to the last call has not begun, or more of it may come. -/
def Awaits (c : Client) : Prop :=
  c.responseHandler.isSome ∨
    ∃ r, c.response = some r ∧ (hasLength r.headers = false ∨ ¬ r.Complete)

end Client

structure Served (s : Connection) : Prop where
  noEmpty : s.client.emptyInvoked = false
  noDangling : s.client.dangling = false
  alive : s.crashed = false
  /-- After a call no handler is left. -/
  cleared : s.client.phase = .idle → s.client.responseHandler = none ∧ s.client.finalHandler = none
  once : s.client.answers.map Prod.fst = List.range s.client.returned
  own : ∀ call response, (call, .ok response) ∈ s.client.answers →
    ∃ r, response = some r ∧ r.number = call ∧ r.Complete
  /-- A call waits only while the connection is open and its response is not whole. -/
  waits : s.client.phase = .waiting → s.parser.eof = false ∧ s.client.Awaits

/-! ### The condition -/

namespace Connection

/-- A response that begins has been asked for, it can be read, and its handler takes it. -/
def GoodResponse (s : Connection) : Prop :=
  match s.client.responseHandler, contentLengthOf s.parser.headers with
  | some handler, .ok length =>
    s.client.phase ≠ .sendingHeaders ∧ isChunked s.parser.headers = false ∧
      match handler.answer s.parser.headers with
      | .failed => False
      | .noStream => hasLength s.parser.headers = true → length = 0
      | .stream => length = 0 → handler.writes 0 = true
  | _, _ => False

instance (s : Connection) : Decidable s.GoodResponse := by
  unfold GoodResponse
  split
  · exact @instDecidableAnd _ _ _ (@instDecidableAnd _ _ _ (by split <;> infer_instance))
  · exact instDecidableFalse

/-- The stream takes the next write, and the one behind it if the body ends here. -/
def GoodWrite (s : Connection) : Prop :=
  match s.client.stream with
  | none => True
  | some handler =>
    handler.writes s.client.written = true ∧
      (s.parser.contentLength ≤ s.pending.length → handler.writes (s.client.written + 1) = true)

instance (s : Connection) : Decidable s.GoodWrite := by
  unfold GoodWrite
  split <;> infer_instance

def GoodTurn (s : Connection) : Prop :=
  match s.parser.state with
  | .parseHeader =>
    match lineEnd s.pending with
    | none => True
    | some size =>
      stripReturn (s.parser.parseBuffer ++ s.pending.take size) = [] → s.parser.headers ≠ [] →
        s.GoodResponse
  | .parseBody => s.GoodWrite
  | _ => True

instance (s : Connection) : Decidable s.GoodTurn := by
  unfold GoodTurn
  split
  · split <;> infer_instance
  · infer_instance
  · infer_instance

/-- The body in which the stream ends has no length, and its stream takes the end. -/
def GoodEnd (s : Connection) : Prop :=
  match s.client.response, s.client.stream with
  | some r, some handler =>
    hasLength r.headers = false ∧ handler.writes s.client.written = true
  | _, _ => True

instance (s : Connection) : Decidable s.GoodEnd := by
  unfold GoodEnd
  split <;> infer_instance

/-- No response is expected, or the end of the stream is the end of its body. -/
def GoodClose (s : Connection) : Prop :=
  s.client.responseHandler.isNone ∧ (s.parser.state = .parseBody → s.GoodEnd)

instance (s : Connection) : Decidable s.GoodClose := inferInstanceAs (Decidable (_ ∧ _))

def Meets (s : Connection) : Event → Prop
  | .begin _ _ _ => s.parser.eof = false
  | .headersDone result | .bodyDone result => result.isOk ∨ s.client.finalHandler.isNone
  | .read _ => True
  | .turn => s.GoodTurn
  | .close => s.GoodClose

instance (s : Connection) (e : Event) : Decidable (s.Meets e) := by
  cases e <;> unfold Meets <;> infer_instance

/-- The condition for all steps of a run. -/
def AllMeet (s : Connection) : List Event → Prop
  | [] => True
  | e :: events => s.Meets e ∧
    match s.step e with
    | some t => AllMeet t events
    | none => True

def decidableAllMeet (s : Connection) : (events : List Event) → Decidable (s.AllMeet events)
  | [] => instDecidableTrue
  | e :: events =>
    match h : s.step e with
    | some t =>
      have := decidableAllMeet t events
      decidable_of_iff (s.Meets e ∧ t.AllMeet events) (by rw [AllMeet, h])
    | none => decidable_of_iff (s.Meets e) (by rw [AllMeet, h, and_true])

instance (s : Connection) (events : List Event) : Decidable (s.AllMeet events) :=
  decidableAllMeet s events

section

variable {s : Connection}

theorem GoodResponse.answer (h : s.GoodResponse) :
    ∃ handler length, s.client.responseHandler = some handler ∧
      isChunked s.parser.headers = false ∧ contentLengthOf s.parser.headers = .ok length ∧
      (handler.answer s.parser.headers = .stream ∧ (length = 0 → handler.writes 0 = true) ∨
        handler.answer s.parser.headers = .noStream ∧
          (hasLength s.parser.headers = true → length = 0)) := by
  unfold GoodResponse at h
  cases hhandler : s.client.responseHandler with
  | none =>
    rw [hhandler] at h
    exact absurd h (fun hfalse => hfalse)
  | some handler =>
    cases hlength : contentLengthOf s.parser.headers with
    | error e =>
      rw [hhandler, hlength] at h
      exact absurd h (fun hfalse => hfalse)
    | ok length =>
      rw [hhandler, hlength] at h
      obtain ⟨-, hplain, hanswer⟩ := h
      refine ⟨handler, length, rfl, hplain, rfl, ?_⟩
      cases hkind : handler.answer s.parser.headers with
      | failed =>
        rw [hkind] at hanswer
        exact absurd hanswer (fun hfalse => hfalse)
      | noStream =>
        rw [hkind] at hanswer
        exact .inr ⟨rfl, hanswer⟩
      | stream =>
        rw [hkind] at hanswer
        exact .inl ⟨rfl, hanswer⟩

theorem GoodWrite.writes (h : s.GoodWrite) {handler : ResponseHandler}
    (hstream : s.client.stream = some handler) :
    handler.writes s.client.written = true ∧
      (s.parser.contentLength ≤ s.pending.length →
        handler.writes (s.client.written + 1) = true) := by
  rw [GoodWrite, hstream] at h
  exact h

theorem GoodTurn.header (h : s.GoodTurn) (hstate : s.parser.state = .parseHeader) {size : Nat}
    (hline : lineEnd s.pending = some size)
    (hblank : stripReturn (s.parser.parseBuffer ++ s.pending.take size) = [])
    (hheaders : s.parser.headers ≠ []) : s.GoodResponse := by
  rw [GoodTurn, hstate] at h
  dsimp only at h
  rw [hline] at h
  exact h hblank hheaders

theorem GoodTurn.body (h : s.GoodTurn) (hstate : s.parser.state = .parseBody) : s.GoodWrite := by
  rw [GoodTurn, hstate] at h
  exact h

theorem GoodEnd.writes (h : s.GoodEnd) {r : Response} {handler : ResponseHandler}
    (hr : s.client.response = some r) (hstream : s.client.stream = some handler) :
    hasLength r.headers = false ∧ handler.writes s.client.written = true := by
  rw [GoodEnd, hr, hstream] at h
  exact h

end

end Connection

/-! ### The invariant -/

/-- What holds of the client at any time. -/
structure Sound (c : Client) : Prop where
  noEmpty : c.emptyInvoked = false
  noDangling : c.dangling = false
  once : c.answers.map Prod.fst = List.range c.returned
  own : ∀ call response, (call, .ok response) ∈ c.answers →
    ∃ r, response = some r ∧ r.number = call ∧ r.Complete
  started : c.phase ≠ .idle → 0 < c.begun
  completed : ∀ result, c.completed = some result →
    (result = .ok () → c.Answered) ∧ c.phase ≠ .idle ∧ c.phase ≠ .waiting

/-- No response is expected. -/
structure Quiet (p : HttpParser) (c : Client) : Prop where
  state : p.state = .parseHeader
  message : p.currentMessage = false
  responseHandler : c.responseHandler = none
  finalHandler : c.finalHandler = none
  done : c.phase = .idle ∨ c.completed ≠ none
  responses : p.eof = false → c.responses = c.begun

/-- The response to the last call has not begun. -/
structure Asked (p : HttpParser) (c : Client) : Prop where
  state : p.state = .parseHeader
  message : p.currentMessage = false
  opened : p.eof = false
  responseHandler : ∃ handler, c.responseHandler = some handler ∧ c.IsRunning handler.call
  finalHandler : ∃ call, c.finalHandler = some call ∧ c.IsRunning call
  notDone : c.completed = none
  responses : c.responses + 1 = c.begun

/-- In the body of the response to the last call. -/
structure Receiving (p : HttpParser) (c : Client) : Prop where
  state : p.state = .parseBody
  message : p.currentMessage = true
  plain : p.chunkedEncoding = false
  left : 0 < p.contentLength
  opened : p.eof = false
  responseHandler : c.responseHandler = none
  finalHandler : ∃ call, c.finalHandler = some call ∧ c.IsRunning call
  notDone : c.completed = none
  responses : c.responses = c.begun
  stream : c.stream.isSome
  response : ∃ r, c.response = some r ∧ r.number + 1 = c.begun ∧
    (hasLength r.headers = true →
      contentLengthOf r.headers = .ok (r.body.length + p.contentLength))

def Proceeds (p : HttpParser) (c : Client) : Prop := Quiet p c ∨ Asked p c ∨ Receiving p c

structure Inv (s : Connection) : Prop where
  alive : s.crashed = false
  sound : Sound s.client
  proceeds : Proceeds s.parser s.client

theorem not_idle_of_running {c : Client} {call : Nat} (h : c.IsRunning call) : c.phase ≠ .idle := h.1

theorem Inv.served {s : Connection} (h : Inv s) : Served s := by
  refine ⟨h.sound.noEmpty, h.sound.noDangling, h.alive, ?_, h.sound.once, h.sound.own, ?_⟩
  · intro hidle
    rcases h.proceeds with hquiet | hasked | hreceiving
    · exact ⟨hquiet.responseHandler, hquiet.finalHandler⟩
    · obtain ⟨call, -, hrunning⟩ := hasked.finalHandler
      exact absurd hidle hrunning.1
    · obtain ⟨call, -, hrunning⟩ := hreceiving.finalHandler
      exact absurd hidle hrunning.1
  · intro hwaiting
    rcases h.proceeds with hquiet | hasked | hreceiving
    · rcases hquiet.done with hidle | hdone
      · rw [hidle] at hwaiting
        cases hwaiting
      · obtain ⟨result, hresult⟩ := Option.ne_none_iff_exists'.mp hdone
        exact absurd hwaiting (h.sound.completed result hresult).2.2
    · obtain ⟨handler, hhandler, -⟩ := hasked.responseHandler
      refine ⟨hasked.opened, .inl ?_⟩
      rw [hhandler]
      rfl
    · refine ⟨hreceiving.opened, .inr ?_⟩
      obtain ⟨r, hr, -, hlength⟩ := hreceiving.response
      refine ⟨r, hr, ?_⟩
      cases hknown : hasLength r.headers with
      | false => exact .inl rfl
      | true =>
        right
        intro hcomplete
        have hwhole := (hlength hknown).symm.trans (hcomplete hknown)
        have hcount := Except.ok.inj hwhole
        have hleft := hreceiving.left
        omega

/-! ### The end of a call -/

section

variable {c : Client}

theorem finish_sound (h : Sound c) (hphase : c.phase ≠ .idle) {result : Result}
    (hanswered : result = .ok () → c.Answered) : Sound (c.finish result) := by
  have hstarted := h.started hphase
  have hbefore : c.returned = c.begun - 1 := by rw [Client.returned, if_neg hphase]
  have hafter : (c.finish result).returned = c.begun := by
    exact if_pos rfl
  refine ⟨h.noEmpty, h.noDangling, ?_, ?_, fun hidle => absurd rfl hidle, ?_⟩
  · rw [hafter, Client.finish, List.map_append, h.once, hbefore]
    have hlast : c.begun = c.begun - 1 + 1 := by omega
    rw [hlast, List.range_succ]
    rfl
  · intro call response hmem
    rcases List.mem_append.mp hmem with hold | hnew
    · exact h.own call response hold
    · rw [List.mem_singleton, Prod.mk.injEq] at hnew
      obtain ⟨rfl, hresponse⟩ := hnew
      cases result with
      | error e => cases hresponse
      | ok u =>
        obtain ⟨r, hr, hnumber, hcomplete⟩ := hanswered rfl
        refine ⟨r, ?_, by omega, hcomplete⟩
        rw [← hr]
        exact Except.ok.inj hresponse
  · intro result' hresult
    cases hresult

/-- The final handler ends the call, or leaves its result for it. -/
theorem complete_sound (h : Sound c) {call : Nat} (hrunning : c.IsRunning call) {result : Result}
    (hanswered : result = .ok () → c.Answered) :
    Sound (c.complete call result) ∧
      ((c.complete call result).phase = .idle ∨ (c.complete call result).completed ≠ none) := by
  rw [Client.complete, if_pos hrunning]
  by_cases hwaiting : c.phase = .waiting
  · rw [if_pos hwaiting]
    exact ⟨finish_sound h hrunning.1 hanswered, .inl rfl⟩
  · rw [if_neg hwaiting]
    refine ⟨⟨h.noEmpty, h.noDangling, h.once, h.own, h.started, ?_⟩, .inr (by simp)⟩
    intro result' hresult
    cases hresult
    exact ⟨hanswered, hrunning.1, hwaiting⟩

@[simp] theorem complete_responseHandler (c : Client) (call : Nat) (result : Result) :
    (c.complete call result).responseHandler = c.responseHandler := by
  rw [Client.complete]
  split
  · split <;> rfl
  · rfl

@[simp] theorem complete_finalHandler (c : Client) (call : Nat) (result : Result) :
    (c.complete call result).finalHandler = c.finalHandler := by
  rw [Client.complete]
  split
  · split <;> rfl
  · rfl

@[simp] theorem complete_counts (c : Client) (call : Nat) (result : Result) :
    (c.complete call result).begun = c.begun ∧
      (c.complete call result).responses = c.responses := by
  rw [Client.complete]
  split
  · split <;> exact ⟨rfl, rfl⟩
  · exact ⟨rfl, rfl⟩

/-- The client behind the end of a response. -/
def responded (c : Client) (call : Nat) (result : Result) : Client :=
  { c with finalHandler := none }.complete call result

theorem responded_quiet (h : Sound c) {call : Nat} (hrunning : c.IsRunning call) (result : Result)
    (hanswered : result = .ok () → c.Answered) (hhandler : c.responseHandler = none)
    {p : HttpParser} (hstate : p.state = .parseHeader) (hmessage : p.currentMessage = false)
    (hresponses : p.eof = false → c.responses = c.begun) :
    Sound (responded c call result) ∧ Quiet p (responded c call result) := by
  have hcleared : Sound { c with finalHandler := none } :=
    ⟨h.noEmpty, h.noDangling, h.once, h.own, h.started, h.completed⟩
  obtain ⟨hsound, hdone⟩ := complete_sound hcleared hrunning hanswered
  obtain ⟨hbegun, hcount⟩ := complete_counts { c with finalHandler := none } call result
  refine ⟨hsound, hstate, hmessage, ?_, ?_, hdone, fun heof => ?_⟩
  · rw [responded, complete_responseHandler]
    exact hhandler
  · rw [responded, complete_finalHandler]
  · rw [responded, hbegun, hcount]
    exact hresponses heof

end

/-! ### The callbacks -/

section

variable {p : HttpParser} {c : Client}

theorem finishMessage_run {call : Nat} (h : c.finalHandler = some call) (p : HttpParser) :
    HttpParser.call clientPipeline.finishMessage (p, c) = .ok () (p, responded c call (.ok ())) := by
  have hrun : finishMessage c = .ok () (responded c call (.ok ())) := by
    rw [finishMessage, bind_of_ok (get_apply c)]
    rw [h]
    rfl
  exact call_of_ok hrun p

theorem finishBody_noStream (hmessage : p.currentMessage = false) (hplain : p.chunkedEncoding = false)
    {call : Nat} (hfinal : c.finalHandler = some call) :
    finishBody clientPipeline (p, c) =
      .ok () ({ p with state := .parseHeader }, responded c call (.ok ())) := by
  have hend : endMessage clientPipeline (p, c) = .ok () (p, c) := by
    rw [endMessage, bind_of_ok (get_apply _), if_neg (by rw [hmessage]; decide)]
    rfl
  rw [finishBody, bind_of_ok hend, bind_of_ok (get_apply _)]
  rw [if_neg (by rw [hplain]; decide)]
  exact bind_of_ok (finishMessage_run hfinal p)

theorem writeStream_run {handler : ResponseHandler} (hstream : c.stream = some handler)
    (hwrites : handler.writes c.written = true) (data : ConstDataBuffer) :
    clientPipeline.write data c = .ok () (c.wrote data) := by
  change writeStream data c = _
  rw [writeStream, bind_of_ok (get_apply c)]
  rw [hstream]
  dsimp only
  rw [if_pos hwrites]
  rfl

theorem finishBody_stream (hmessage : p.currentMessage = true) (hplain : p.chunkedEncoding = false)
    {call : Nat} (hfinal : c.finalHandler = some call) {handler : ResponseHandler}
    (hstream : c.stream = some handler) (hwrites : handler.writes c.written = true) :
    finishBody clientPipeline (p, c) = .ok ()
      ({ p with currentMessage := false, state := .parseHeader },
        responded (c.wrote []) call (.ok ())) := by
  have hend : endMessage clientPipeline (p, c) =
      .ok () ({ p with currentMessage := false }, c.wrote []) := by
    rw [endMessage, bind_of_ok (get_apply _), if_pos hmessage,
      bind_of_ok (call_of_ok (writeStream_run hstream hwrites []) p)]
    rfl
  rw [finishBody, bind_of_ok hend, bind_of_ok (get_apply _)]
  rw [if_neg (by rw [hplain]; decide)]
  exact bind_of_ok (finishMessage_run (c := c.wrote []) hfinal _)

end

/-! ### Turns -/

section

variable {p : HttpParser} {c : Client}

theorem takeHandler_sound (h : Sound c) {handler : ResponseHandler}
    (hrunning : c.IsRunning handler.call) (hdone : c.completed = none) (headers : List StdString) :
    Sound (c.takeHandler handler headers) := by
  refine ⟨h.noEmpty, ?_, h.once, h.own, h.started, fun result hresult => ?_⟩
  · rw [Client.takeHandler, h.noDangling, decide_eq_true hrunning]
    rfl
  · rw [Client.takeHandler, hdone] at hresult
    cases hresult

theorem wrote_sound (h : Sound c) (hdone : c.completed = none) (data : ConstDataBuffer) :
    Sound (c.wrote data) := by
  refine ⟨h.noEmpty, h.noDangling, h.once, h.own, h.started, fun result hresult => ?_⟩
  rw [Client.wrote, hdone] at hresult
  cases hresult

theorem wrote_response {r : Response} (h : c.response = some r) (data : ConstDataBuffer) :
    (c.wrote data).response = some (r.add data) := by
  rw [Client.wrote, h]
  rfl

theorem messageCallback_stream {handler : ResponseHandler} (h : c.responseHandler = some handler)
    {headers : List StdString} (hanswer : handler.answer headers = .stream) :
    messageCallback headers c =
      .ok true { c.takeHandler handler headers with stream := some handler, written := 0 } := by
  rw [messageCallback, bind_of_ok (get_apply c)]
  rw [h]
  dsimp only
  rw [hanswer]
  rfl

theorem messageCallback_noStream {handler : ResponseHandler} (h : c.responseHandler = some handler)
    {headers : List StdString} (hanswer : handler.answer headers = .noStream) :
    messageCallback headers c = .ok false (c.takeHandler handler headers) := by
  rw [messageCallback, bind_of_ok (get_apply c)]
  rw [h]
  dsimp only
  rw [hanswer]
  rfl

/-- A response begins, and with it its body; or it is over at once. -/
theorem endHeaders_good (hsound : Sound c) (hasked : Asked p c) (hheaders : p.headers ≠ [])
    {s : Connection} (hp : s.parser.headers = p.headers) (hc : s.client = c)
    (hgood : s.GoodResponse) :
    ∃ t, endHeaders clientPipeline (p, c) = .ok () t ∧ Sound t.2 ∧ Proceeds t.1 t.2 := by
  obtain ⟨handler, length, hhandler, hchunked, hlength, hanswer⟩ := hgood.answer
  rw [hp] at hchunked hlength hanswer
  rw [hc] at hhandler
  have hrunning : c.IsRunning handler.call := by
    obtain ⟨handler', hhandler', hrunning'⟩ := hasked.responseHandler
    rw [hhandler'] at hhandler
    cases hhandler
    exact hrunning'
  obtain ⟨call, hfinal, hcall⟩ := hasked.finalHandler
  have htaken := takeHandler_sound hsound hrunning hasked.notDone p.headers
  rcases hanswer with ⟨hstream, hwrites⟩ | ⟨hnoStream, hknown⟩
  · have hrun := endHeaders_ok clientPipeline false true (s := (p, c)) hheaders hchunked hlength
      (messageCallback_stream hhandler hstream)
    have hcount : (if true = true then length else 0) = length := if_pos rfl
    have hopened : Sound { c.takeHandler handler p.headers with stream := some handler, written := 0 } :=
      ⟨htaken.noEmpty, htaken.noDangling, htaken.once, htaken.own, htaken.started, htaken.completed⟩
    by_cases hempty : length = 0
    · rw [if_pos (hcount.trans hempty)] at hrun
      refine ⟨_, hrun.trans (finishBody_stream rfl rfl hfinal rfl (hwrites hempty)), ?_⟩
      refine (responded_quiet (wrote_sound hopened hasked.notDone []) hcall _ (fun _ => ?_) rfl rfl rfl
        (fun _ => hasked.responses)).imp_right .inl
      refine ⟨_, rfl, hasked.responses, fun _ => ?_⟩
      rw [hempty] at hlength
      exact hlength
    · rw [if_neg (fun h => hempty (hcount.symm.trans h))] at hrun
      refine ⟨_, hrun, hopened, .inr (.inr ?_)⟩
      refine ⟨rfl, rfl, rfl, Nat.pos_of_ne_zero hempty, hasked.opened, rfl, ⟨call, hfinal, hcall⟩,
        hasked.notDone, hasked.responses, rfl, _, rfl, hasked.responses, fun _ => ?_⟩
      exact hlength.trans (by rw [hcount, List.length_nil, Nat.zero_add])
  · have hrun := endHeaders_ok clientPipeline false false (s := (p, c)) hheaders hchunked hlength
      (messageCallback_noStream hhandler hnoStream)
    have hzero : (if false = true then length else 0) = 0 := rfl
    rw [if_pos hzero] at hrun
    refine ⟨_, hrun.trans (finishBody_noStream rfl rfl hfinal), ?_⟩
    refine (responded_quiet htaken hcall _ (fun _ => ?_) rfl rfl rfl
      (fun _ => hasked.responses)).imp_right .inl
    refine ⟨_, rfl, hasked.responses, fun hlong => ?_⟩
    rw [hknown hlong] at hlength
    exact hlength

/-- The lines of the headers do not matter to the calls. -/
theorem Proceeds.line (h : Proceeds p c) (hstate : p.state = .parseHeader) (buffer : StdString)
    (headers : List StdString) :
    Proceeds { p with parseBuffer := buffer, headers := headers } c := by
  rcases h with hquiet | hasked | hreceiving
  · exact .inl ⟨hquiet.state, hquiet.message, hquiet.responseHandler, hquiet.finalHandler,
      hquiet.done, hquiet.responses⟩
  · exact .inr (.inl ⟨hasked.state, hasked.message, hasked.opened, hasked.responseHandler,
      hasked.finalHandler, hasked.notDone, hasked.responses⟩)
  · rw [hreceiving.state] at hstate
    cases hstate

/-- A response that begins well finds its call. -/
theorem asked_of_good {s : Connection} (h : Proceeds s.parser s.client)
    (hstate : s.parser.state = .parseHeader) (hgood : s.GoodResponse) :
    Asked s.parser s.client := by
  obtain ⟨handler, -, hhandler, -⟩ := hgood.answer
  rcases h with hquiet | hasked | hreceiving
  · rw [hquiet.responseHandler] at hhandler
    cases hhandler
  · exact hasked
  · rw [hreceiving.state] at hstate
    cases hstate

theorem settle_ok {s : Connection} (halive : s.crashed = false) {rest : ConstDataBuffer}
    {t : HttpParser × Client} (hsound : Sound t.2) (hproceeds : Proceeds t.1 t.2) :
    Inv (s.settle (.ok rest t)) := ⟨halive, hsound, hproceeds⟩

/-- A turn in the headers. -/
theorem headerTurn_inv {s : Connection} (h : Inv s) (hstate : s.parser.state = .parseHeader)
    (hgood : s.GoodTurn) :
    Inv (s.settle (headerTurn clientPipeline s.pending (s.parser, s.client))) := by
  cases hline : lineEnd s.pending with
  | none =>
    rw [headerTurn_none clientPipeline hline]
    exact settle_ok h.alive h.sound (h.proceeds.line hstate _ s.parser.headers)
  | some size =>
    rw [headerTurn_some clientPipeline hline]
    by_cases hblank : stripReturn (s.parser.parseBuffer ++ s.pending.take size) = []
    · have hend := headerLine_blank clientPipeline (s := ({ s.parser with
        parseBuffer := s.parser.parseBuffer ++ s.pending.take size }, s.client)) hblank
      by_cases hheaders : s.parser.headers = []
      · have hstart : endHeaders clientPipeline ({ s.parser with parseBuffer := [] }, s.client) =
            .error (.logicError (bytesOf "Invalid request"))
              ({ s.parser with parseBuffer := [] }, s.client) := by
          rw [endHeaders, bind_of_ok (get_apply _)]
          rw [if_pos hheaders]
          rfl
        rw [bind_of_error (hend.trans hstart)]
        exact ⟨rfl, h.sound, h.proceeds.line hstate [] s.parser.headers⟩
      · have hresponse := hgood.header hstate hline hblank hheaders
        have hasked := asked_of_good h.proceeds hstate hresponse
        have hasked' : Asked { s.parser with parseBuffer := [] } s.client :=
          ⟨hasked.state, hasked.message, hasked.opened, hasked.responseHandler,
            hasked.finalHandler, hasked.notDone, hasked.responses⟩
        obtain ⟨t, hbegin, hsound, hproceeds⟩ :=
          endHeaders_good h.sound hasked' hheaders rfl rfl hresponse
        rw [bind_of_ok (hend.trans hbegin)]
        exact settle_ok h.alive hsound hproceeds
    · have hkeep := headerLine_keep clientPipeline (s := ({ s.parser with
        parseBuffer := s.parser.parseBuffer ++ s.pending.take size }, s.client)) hblank
      rw [bind_of_ok hkeep]
      exact settle_ok h.alive h.sound (h.proceeds.line hstate _ _)

/-- A turn in the body of a response. -/
theorem bodyTurn_inv {s : Connection} (h : Inv s) (hreceiving : Receiving s.parser s.client)
    (hgood : s.GoodWrite) :
    Inv (s.settle (bodyTurn clientPipeline s.pending (s.parser, s.client))) := by
  obtain ⟨handler, hhandler⟩ := Option.isSome_iff_exists.mp hreceiving.stream
  obtain ⟨hfirst, hlast⟩ := hgood.writes hhandler
  obtain ⟨call, hfinal, hrunning⟩ := hreceiving.finalHandler
  obtain ⟨r, hr, hnumber, hlength⟩ := hreceiving.response
  have hleft := hreceiving.left
  have hcount : (s.pending.take (min s.pending.length s.parser.contentLength)).length =
      min s.pending.length s.parser.contentLength := by
    rw [List.length_take]
    omega
  have hresponse := wrote_response hr
    (s.pending.take (min s.pending.length s.parser.contentLength))
  have hsound := wrote_sound h.sound hreceiving.notDone
    (s.pending.take (min s.pending.length s.parser.contentLength))
  rw [bodyTurn_ok clientPipeline hleft hreceiving.message (writeStream_run hhandler hfirst _)]
  by_cases hend : s.parser.contentLength ≤ s.pending.length
  · have hzero : s.parser.contentLength - min s.pending.length s.parser.contentLength = 0 := by
      omega
    have hfinish := finishBody_stream
      (p := { s.parser with
        contentLength := s.parser.contentLength - min s.pending.length s.parser.contentLength })
      (c := s.client.wrote (s.pending.take (min s.pending.length s.parser.contentLength)))
      hreceiving.message hreceiving.plain hfinal hhandler (hlast hend)
    rw [bind_of_ok ((endOfBody_end clientPipeline hzero).trans hfinish)]
    have hanswered : ((s.client.wrote
        (s.pending.take (min s.pending.length s.parser.contentLength))).wrote []).Answered := by
      refine ⟨_, wrote_response hresponse [], hnumber, fun hknown => ?_⟩
      refine (hlength hknown).trans (congrArg Except.ok ?_)
      rw [Response.add, Response.add, List.append_nil, List.length_append, hcount]
      omega
    obtain ⟨hresponded, hquiet⟩ := responded_quiet (wrote_sound hsound hreceiving.notDone [])
      hrunning (.ok ()) (fun _ => hanswered) hreceiving.responseHandler
      (p := { s.parser with
        contentLength := s.parser.contentLength - min s.pending.length s.parser.contentLength
        currentMessage := false
        state := .parseHeader })
      rfl rfl (fun _ => hreceiving.responses)
    exact settle_ok h.alive hresponded (.inl hquiet)
  · have hmore : s.parser.contentLength - min s.pending.length s.parser.contentLength ≠ 0 := by
      omega
    rw [bind_of_ok (endOfBody_open clientPipeline hmore)]
    refine settle_ok h.alive hsound (.inr (.inr ?_))
    refine ⟨hreceiving.state, hreceiving.message, hreceiving.plain, Nat.pos_of_ne_zero hmore,
      hreceiving.opened, hreceiving.responseHandler, ⟨call, hfinal, hrunning⟩, hreceiving.notDone,
      hreceiving.responses, hreceiving.stream, _, hresponse, hnumber, fun hknown => ?_⟩
    refine (hlength hknown).trans (congrArg Except.ok ?_)
    change _ = (r.body ++ _).length + _
    rw [List.length_append, hcount]
    dsimp only
    omega

theorem turn_inv {s : Connection} (h : Inv s) (hgood : s.GoodTurn) :
    Inv (s.settle (HttpParser.turn clientPipeline s.pending (s.parser, s.client))) := by
  rw [turn_run]
  by_cases hstate : s.parser.state = .parseHeader
  · dsimp only
    rw [hstate]
    exact headerTurn_inv h hstate hgood
  · have hreceiving : Receiving s.parser s.client := by
      rcases h.proceeds with hquiet | hasked | hreceiving
      · exact absurd hquiet.state hstate
      · exact absurd hasked.state hstate
      · exact hreceiving
    dsimp only
    rw [hreceiving.state]
    exact bodyTurn_inv h hreceiving (hgood.body hreceiving.state)

end

/-! ### The other steps -/

section

variable {s t : Connection}

@[simp] theorem withClient_client (s : Connection) (c : Client) : (s.withClient c).client = c := rfl

theorem begin_inv (h : Inv s) {kind : CallKind} {answer : List StdString → HandlerAnswer}
    {writes : Nat → Bool} (hopened : s.parser.eof = false) (hidle : s.client.phase = .idle) :
    Inv (s.withClient { s.client with
      begun := s.client.begun + 1
      kind := kind
      phase := .sendingHeaders
      completed := none
      responseHandler := some { call := s.client.begun, answer := answer, writes := writes }
      finalHandler := some s.client.begun }) := by
  have hquiet : Quiet s.parser s.client := by
    rcases h.proceeds with hquiet | hasked | hreceiving
    · exact hquiet
    · obtain ⟨call, -, hrunning⟩ := hasked.finalHandler
      exact absurd hidle hrunning.1
    · obtain ⟨call, -, hrunning⟩ := hreceiving.finalHandler
      exact absurd hidle hrunning.1
  have hreturned : s.client.returned = s.client.begun := by rw [Client.returned, if_pos hidle]
  refine ⟨h.alive, ⟨h.sound.noEmpty, h.sound.noDangling, ?_, h.sound.own,
    fun _ => Nat.succ_pos _, fun result hresult => (by cases hresult)⟩, .inr (.inl ?_)⟩
  · have honce := h.sound.once
    rw [hreturned] at honce
    exact honce
  · exact ⟨hquiet.state, hquiet.message, hopened, ⟨_, rfl, by simp [Client.IsRunning]⟩,
      ⟨_, rfl, by simp [Client.IsRunning]⟩, rfl,
      congrArg (· + 1) (hquiet.responses hopened)⟩

/-- No final handler is left, so that no response is expected. -/
theorem quiet_of_finalHandler {p : HttpParser} {c : Client} (h : Proceeds p c)
    (hfinal : c.finalHandler = none) : Quiet p c := by
  rcases h with hquiet | hasked | hreceiving
  · exact hquiet
  · obtain ⟨call, hcall, -⟩ := hasked.finalHandler
    rw [hfinal] at hcall
    cases hcall
  · obtain ⟨call, hcall, -⟩ := hreceiving.finalHandler
    rw [hfinal] at hcall
    cases hcall

theorem finish_inv (h : Inv s) (hquiet : Quiet s.parser s.client)
    (hphase : s.client.phase ≠ .idle) {result : Result}
    (hanswered : result = .ok () → s.client.Answered) :
    Inv (s.withClient (s.client.finish result)) :=
  ⟨h.alive, finish_sound h.sound hphase hanswered, .inl ⟨hquiet.state, hquiet.message,
    hquiet.responseHandler, hquiet.finalHandler, .inl rfl, hquiet.responses⟩⟩

/-- The call goes on to another phase. -/
theorem phase_inv (h : Inv s) (hphase : s.client.phase ≠ .idle) {phase : CallPhase}
    (hnext : phase ≠ .idle) (hwaiting : phase = .waiting → s.client.completed = none) :
    Inv (s.withClient { s.client with phase := phase }) := by
  have hreturned : Client.returned { s.client with phase := phase } = s.client.returned := by
    rw [Client.returned, Client.returned, if_neg hphase, if_neg hnext]
  have hrunning {call : Nat} (hrun : s.client.IsRunning call) :
      Client.IsRunning { s.client with phase := phase } call := ⟨hnext, hrun.2⟩
  refine ⟨h.alive, ⟨h.sound.noEmpty, h.sound.noDangling, ?_, h.sound.own,
    fun _ => h.sound.started hphase, fun result hresult => ?_⟩, ?_⟩
  · rw [withClient_client, hreturned]
    exact h.sound.once
  · refine ⟨(h.sound.completed result hresult).1, hnext, fun hwait => ?_⟩
    have hdone := hwaiting hwait
    rw [withClient_client] at hresult
    dsimp only at hresult
    rw [hdone] at hresult
    cases hresult
  · rcases h.proceeds with hquiet | hasked | hreceiving
    · refine .inl ⟨hquiet.state, hquiet.message, hquiet.responseHandler, hquiet.finalHandler, ?_,
        hquiet.responses⟩
      exact .inr (hquiet.done.resolve_left hphase)
    · obtain ⟨handler, hhandler, hrun⟩ := hasked.responseHandler
      obtain ⟨call, hcall, hrun'⟩ := hasked.finalHandler
      exact .inr (.inl ⟨hasked.state, hasked.message, hasked.opened,
        ⟨handler, hhandler, hrunning hrun⟩, ⟨call, hcall, hrunning hrun'⟩, hasked.notDone,
        hasked.responses⟩)
    · obtain ⟨call, hcall, hrun⟩ := hreceiving.finalHandler
      exact .inr (.inr ⟨hreceiving.state, hreceiving.message, hreceiving.plain, hreceiving.left,
        hreceiving.opened, hreceiving.responseHandler, ⟨call, hcall, hrunning hrun⟩,
        hreceiving.notDone, hreceiving.responses, hreceiving.stream, hreceiving.response⟩)

theorem beforeClose_none {c : Client} (h : c.finalHandler = none) :
    clientPipeline.beforeClose c = .ok () c := by
  change beforeClose c = _
  rw [beforeClose, bind_of_ok (get_apply c)]
  rw [h]
  rfl

theorem close_header {p : HttpParser} {c : Client} (hstate : p.state = .parseHeader)
    (hfinal : c.finalHandler = none) :
    HttpParser.close clientPipeline (p, c) = .ok () ({ p with eof := true }, c) := by
  cases p
  subst hstate
  exact call_of_ok (beforeClose_none hfinal) _

theorem close_body {p p' : HttpParser} {c c' : Client} (hstate : p.state = .parseBody)
    (hfinish : finishBody clientPipeline ({ p with eof := true }, c) = .ok () (p', c'))
    (hfinal : c'.finalHandler = none) :
    HttpParser.close clientPipeline (p, c) = .ok () (p', c') := by
  cases p
  subst hstate
  have hend := call_of_ok (beforeClose_none hfinal) p'
  exact (bind_of_ok hfinish).trans hend

/-- The end of the stream ends a body without a length. -/
theorem close_inv (h : Inv s) (hgood : s.GoodClose) :
    ∃ p c, HttpParser.close clientPipeline (s.parser, s.client) = .ok () (p, c) ∧
      Sound c ∧ Proceeds p c := by
  obtain ⟨hhandler, hbody⟩ := hgood
  rcases h.proceeds with hquiet | hasked | hreceiving
  · exact ⟨{ s.parser with eof := true }, s.client, close_header hquiet.state hquiet.finalHandler,
      h.sound, .inl ⟨hquiet.state, hquiet.message, hquiet.responseHandler, hquiet.finalHandler,
        hquiet.done, fun heof => (by cases heof)⟩⟩
  · obtain ⟨handler, hsome, -⟩ := hasked.responseHandler
    rw [hsome] at hhandler
    cases hhandler
  · obtain ⟨handler, hstream⟩ := Option.isSome_iff_exists.mp hreceiving.stream
    obtain ⟨call, hfinal, hrunning⟩ := hreceiving.finalHandler
    obtain ⟨r, hr, hnumber, -⟩ := hreceiving.response
    obtain ⟨hlength, hwrites⟩ := (hbody hreceiving.state).writes hr hstream
    have hanswered : (s.client.wrote []).Answered := by
      refine ⟨_, wrote_response hr [], hnumber, fun hknown => ?_⟩
      have hunknown : hasLength (r.add []).headers = false := hlength
      rw [hunknown] at hknown
      cases hknown
    have hfinish := finishBody_stream (p := { s.parser with eof := true }) hreceiving.message
      hreceiving.plain hfinal hstream hwrites
    obtain ⟨hsound, hquiet⟩ := responded_quiet (wrote_sound h.sound hreceiving.notDone []) hrunning
      (.ok ()) (fun _ => hanswered) hreceiving.responseHandler
      (p := { s.parser with eof := true, currentMessage := false, state := .parseHeader })
      rfl rfl (fun heof => (by cases heof))
    exact ⟨_, _, close_body hreceiving.state hfinish hquiet.finalHandler, hsound, .inl hquiet⟩

theorem headersDone_inv (h : Inv s) {result : Result} (hmeets : s.Meets (.headersDone result))
    (hstep : s.advance (.headersDone result) = some t) : Inv t := by
  rw [Connection.advance] at hstep
  by_cases hphase : s.client.phase = .sendingHeaders
  · have hbusy : s.client.phase ≠ .idle := by
      rw [hphase]
      decide
    rw [if_pos hphase] at hstep
    cases result with
    | ok u =>
      cases hstep
      exact phase_inv h hbusy (by decide) (fun hwait => (by cases hwait))
    | error e =>
      cases hstep
      have hfinal := Option.isNone_iff_eq_none.mp (hmeets.resolve_left (fun heq => (by cases heq)))
      exact finish_inv h (quiet_of_finalHandler h.proceeds hfinal) hbusy
        (fun heq => (by cases heq))
  · rw [if_neg hphase] at hstep
    cases hstep

theorem bodyDone_inv (h : Inv s) {result : Result} (hmeets : s.Meets (.bodyDone result))
    (hstep : s.advance (.bodyDone result) = some t) : Inv t := by
  rw [Connection.advance] at hstep
  by_cases hphase : s.client.phase = .sendingBody
  · have hbusy : s.client.phase ≠ .idle := by
      rw [hphase]
      decide
    rw [if_pos hphase] at hstep
    cases result with
    | ok u =>
      cases hcompleted : s.client.completed with
      | none =>
        rw [Connection.afterBody, hcompleted] at hstep
        cases hstep
        exact phase_inv h hbusy (by decide) (fun _ => hcompleted)
      | some completed =>
        rw [Connection.afterBody, hcompleted] at hstep
        cases hstep
        have hquiet : Quiet s.parser s.client := by
          rcases h.proceeds with hquiet | hasked | hreceiving
          · exact hquiet
          · rw [hasked.notDone] at hcompleted
            cases hcompleted
          · rw [hreceiving.notDone] at hcompleted
            cases hcompleted
        exact finish_inv h hquiet hbusy (h.sound.completed completed hcompleted).1
    | error e =>
      rw [Connection.afterBody] at hstep
      by_cases hkind : s.client.kind = .sendHeaders
      · rw [if_pos hkind] at hstep
        cases hstep
        have hfinal := Option.isNone_iff_eq_none.mp (hmeets.resolve_left (fun heq => (by cases heq)))
        exact finish_inv h (quiet_of_finalHandler h.proceeds hfinal) hbusy
          (fun heq => (by cases heq))
      · rw [if_neg hkind] at hstep
        cases hstep
  · rw [if_neg hphase] at hstep
    cases hstep

/-- A step that meets the condition keeps the invariant. -/
theorem step_inv (h : Inv s) {e : Event} (hmeets : s.Meets e) (hstep : s.step e = some t) :
    Inv t := by
  rw [Connection.step, if_neg (by rw [h.alive]; decide)] at hstep
  cases e with
  | begin kind answer writes =>
    rw [Connection.advance] at hstep
    by_cases hidle : s.client.phase = .idle
    · rw [if_pos hidle] at hstep
      cases hstep
      exact begin_inv h hmeets hidle
    · rw [if_neg hidle] at hstep
      cases hstep
  | headersDone result => exact headersDone_inv h hmeets hstep
  | bodyDone result => exact bodyDone_inv h hmeets hstep
  | read data =>
    rw [Connection.advance] at hstep
    split at hstep
    · cases hstep
      exact ⟨h.alive, h.sound, h.proceeds⟩
    · cases hstep
  | turn =>
    rw [Connection.advance] at hstep
    split at hstep
    · cases hstep
      exact turn_inv h hmeets
    · cases hstep
  | close =>
    obtain ⟨p, c, hclose, hsound, hproceeds⟩ := close_inv h hmeets
    rw [Connection.advance] at hstep
    split at hstep
    · rw [hclose] at hstep
      cases hstep
      exact ⟨h.alive, hsound, hproceeds⟩
    · cases hstep

theorem inv_new : Inv {} where
  alive := rfl
  sound := ⟨rfl, rfl, rfl, fun call response hmem => (by cases hmem), fun hphase => absurd rfl hphase,
    fun result hresult => (by cases hresult)⟩
  proceeds := .inl ⟨rfl, rfl, rfl, rfl, .inl rfl, fun _ => rfl⟩

theorem run_inv (events : List Event) (h : Inv s) (hmeets : s.AllMeet events)
    (hrun : s.run events = some t) : Inv t := by
  induction events generalizing s with
  | nil =>
    cases hrun
    exact h
  | cons e events ih =>
    obtain ⟨s₁, hstep, hrest⟩ := Option.bind_eq_some_iff.mp hrun
    obtain ⟨hfirst, hothers⟩ := hmeets
    rw [hstep] at hothers
    exact ih (step_inv h hfirst hstep) hothers hrest

/-- In a run whose steps meet the condition every state serves its calls. -/
theorem served_of_run (events : List Event) (hmeets : Connection.AllMeet {} events)
    (hrun : Connection.run {} events = some t) : Served t :=
  (run_inv events inv_new hmeets hrun).served

/-- A call whose handler gives a stream for every response. -/
def sendCall : List Event :=
  [.begin .send (fun _ => .stream) (fun _ => true), .headersDone (.ok ()), .bodyDone (.ok ())]

/-- A response with two bytes, of which the second comes in a read of its own. -/
def answeredCall : List Event :=
  sendCall ++ [.read (bytesOf "HTTP/1.1 200 OK\r\nContent-Length: 2\r\n\r\no"), .turn, .turn, .turn,
    .turn, .read (bytesOf "k"), .turn]

theorem served_of_run_answered :
    Served ((Connection.run {} answeredCall).get (by decide +kernel)) :=
  served_of_run answeredCall (by decide +kernel) (by simp)

/-- The stream ends behind the first of two bytes. -/
def cutCall : List Event :=
  sendCall ++ [.read (bytesOf "HTTP/1.1 200 OK\r\nContent-Length: 2\r\n\r\no"), .turn, .turn, .turn,
    .turn, .close]

def cutResponse : Response where
  number := 0
  headers := [bytesOf "HTTP/1.1 200 OK", bytesOf "Content-Length: 2"]
  body := bytesOf "o"

/-- A response that no call has asked for. -/
def unaskedResponse : List Event := [.read (bytesOf "HTTP/1.1 200 OK\r\n\r\n"), .turn, .turn]

/-- A response that nobody asked for calls an empty handler; a body that is cut off is handed out as
a whole response; and a request that cannot be written leaves both handlers. -/
theorem not_served :
    (∀ t, Connection.run {} unaskedResponse = some t → ¬ Served t) ∧
      (∀ t, Connection.run {} cutCall = some t → ¬ Served t) ∧
      ∀ t, Connection.run {} (sendCall.take 1 ++ [.headersDone (.error "Send TCP")]) = some t →
        ¬ Served t := by
  refine ⟨fun t ht h => ?_, fun t ht h => ?_, fun t ht h => ?_⟩
  · have hempty : (Connection.run {} unaskedResponse).map (·.client.emptyInvoked) = some true := by
      decide +kernel
    rw [ht, Option.map_some, h.noEmpty] at hempty
    cases hempty
  · have hanswers : (Connection.run {} cutCall).map (·.client.answers) =
        some [(0, .ok (some cutResponse))] := by decide +kernel
    rw [ht, Option.map_some, Option.some.injEq] at hanswers
    obtain ⟨r, hr, -, hcomplete⟩ := h.own 0 (some cutResponse) (by rw [hanswers]; simp)
    cases hr
    have hlength := hcomplete (by decide +kernel)
    revert hlength
    decide +kernel
  · have hleft : (Connection.run {} (sendCall.take 1 ++ [.headersDone (.error "Send TCP")])).map
        (fun s => (s.client.phase, s.client.finalHandler)) = some (.idle, some 0) := by
      decide +kernel
    rw [ht, Option.map_some, Option.some.injEq, Prod.mk.injEq] at hleft
    have hcleared := (h.cleared hleft.1).2
    rw [hleft.2] at hcleared
    cases hcleared

end

end HttpClient

end Vds.Http
