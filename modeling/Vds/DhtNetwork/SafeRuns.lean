import Vds.DhtNetwork.DatagramSafety

/-! The runs of a session in which every call reads inside its datagram, computes no size below zero and
comes back. -/

namespace Vds.DhtNetwork.Checked

open BinaryDeserializer StateError

variable {hmac : Hmac} {s : Session}

/-! ### The calls of a session -/

inductive Call
  | datagram (d : ConstDataBuffer)
  | message (m : Outgoing)
  | timer
  | mtu (value : Nat)

/-- A call, the time it comes at and the writes that the transport refuses meanwhile. -/
structure Event where
  now : Int
  refuses : List Bool
  call : Call

def Event.start (e : Event) (s : Session) : Session := { s with now := e.now, refuses := e.refuses }

def Call.run (hmac : Hmac) : Call → CheckedM Unit
  | datagram d => processDatagram hmac d
  | message m => plainM (sendMessage hmac m.messageType m.targetNode m.hops m.message)
  | timer => plainM onTimer
  | mtu value => plainM (setMtu value)

/-- The session behind a call, whether it returns or fails. -/
def Event.after (hmac : Hmac) (e : Event) (s : Session) : Session := final (e.call.run hmac (e.start s))

/-- Each datagram finds a session at which `P` holds. -/
def AtDatagrams (hmac : Hmac) (P : ConstDataBuffer → Session → Prop) : Session → List Event → Prop
  | _, [] => True
  | s, e :: events =>
    (∀ d, e.call = .datagram d → P d (e.start s)) ∧ AtDatagrams hmac P (e.after hmac s) events

/-! ### Sends and the timer leave the received datagrams alone -/

theorem frames_modifySelf {f : DatagramProtocol → DatagramProtocol}
    (hf : ∀ s : Session, inputSide { s with self := f s.self } = inputSide s) : Frames inputSide (modifySelf f) :=
  fun s => hf s

theorem frames_writeAsync (d : ConstDataBuffer) : Frames inputSide (writeAsync d) := by
  intro s
  obtain ⟨refuses, h | h⟩ := writeAsync_final d s
  · rw [h]
    rfl
  · rw [h]
    rfl

theorem frames_resend (index : Nat) : Frames inputSide (resend index) := by
  intro s
  unfold resend
  rw [bind_of_ok (get_apply s)]
  cases s.self.outputMessages.find index with
  | none => rfl
  | some d => exact frames_writeAsync d s

theorem frames_addDatagram (command : UInt8) (body : ConstDataBuffer) :
    Frames inputSide (addDatagram hmac command body) := frames_modifySelf fun _ => rfl

theorem frames_addContinueData (size n : Nat) (rest : ConstDataBuffer) :
    Frames inputSide (addContinueData hmac size n rest) := by
  induction n generalizing rest with
  | zero => exact Moves.throw _
  | succ n ih =>
    unfold addContinueData
    refine Moves.bind (frames_addDatagram _ _) fun _ => ?_
    exact Moves.ite (fun _ => Moves.pure _) fun _ => ih _

theorem frames_prepareToSend (messageType : UInt8) (targetNode : ConstDataBuffer) (hops : List ConstDataBuffer)
    (message : ConstDataBuffer) : Frames inputSide (prepareToSend hmac messageType targetNode hops message) := by
  unfold prepareToSend
  refine Moves.bind Moves.get fun s => ?_
  -- what follows the two branches
  have hfinish : Frames inputSide (get >>= fun s' => if s'.self.lastOutputIndex < s.self.lastOutputIndex then
      (modifySelf fun p => { p with failedState := true }) >>= fun _ => throw (.runtimeError "Overflow pipeline")
      else return (s.self.lastOutputIndex, s'.self.lastOutputIndex) : SessionM (Nat × Nat)) := by
    refine Moves.bind Moves.get fun s' => Moves.ite (fun _ => ?_) fun _ => Moves.pure _
    exact Moves.bind (frames_modifySelf fun _ => rfl) fun _ => Moves.throw _
  refine Moves.ite (fun _ => ?_) fun _ => ?_
  · exact Moves.bind (frames_addDatagram _ _) fun _ => hfinish
  · refine Moves.bind (frames_addDatagram _ _) fun _ => ?_
    exact Moves.bind (frames_addContinueData _ _ _) fun _ => hfinish

theorem frames_sendMessage (m : Outgoing) :
    Frames inputSide (sendMessage hmac m.messageType m.targetNode m.hops m.message) := by
  unfold sendMessage
  refine Moves.bind (frames_prepareToSend _ _ _ _) fun indexes => ?_
  exact Moves.forM fun index _ => frames_resend index

theorem frames_onTimer : Frames inputSide onTimer := by
  unfold onTimer
  refine Moves.bind (frames_modifySelf fun _ => rfl) fun _ => Moves.bind (fun s => ?_) fun _ => fun s => ?_
  · unfold testMtu
    rw [bind_of_ok (get_apply s)]
    split_ifs with hmtu
    · change inputSide (final ((tryCatch (writeAsync (mtuTest s.self.mtu)) fun _ => pure ()) s)) = inputSide s
      rw [final_tryCatch]
      exact frames_writeAsync _ s
    · rfl
  · unfold sendAcknowledgment
    rw [bind_of_ok (get_apply s)]
    exact frames_writeAsync _ s

theorem sound_start (e : Event) (hs : Sound s.self) : Sound (e.start s).self := hs

theorem sound_after (e : Event) (hs : Sound s.self) : Sound (e.after hmac s).self := by
  have hstart := sound_start e hs
  unfold Event.after
  cases e.call with
  | datagram d => exact sound_processDatagram hstart
  | message m =>
    change Sound (final (plainM _ (e.start s))).self
    rw [final_plainM]
    exact sound_of_inputSide (frames_sendMessage m (e.start s)) hstart
  | timer =>
    change Sound (final (plainM _ (e.start s))).self
    rw [final_plainM]
    exact sound_of_inputSide (frames_onTimer (e.start s)) hstart
  | mtu value => exact ⟨hstart.keys, hstart.stored, hstart.expected, hstart.last⟩

theorem sound_fresh (thisNodeId partnerNodeId sessionKey : ConstDataBuffer) (now : Int) :
    Sound (fresh thisNodeId partnerNodeId sessionKey now).self := by
  have hzero : 0 < indexMod := by decide
  refine ⟨fun i hi => absurd rfl hi, fun i d hd => ?_, hzero, hzero⟩
  cases hd

/-! ### Runs -/

theorem atDatagrams_safe_iff (hs : Sound s.self) (events : List Event) :
    AtDatagrams hmac (Safe hmac) s events ↔ AtDatagrams hmac Harmless s events := by
  induction events generalizing s with
  | nil => exact Iff.rfl
  | cons e events ih =>
    refine and_congr (forall_congr' fun d => imp_congr_right fun _ => ?_) (ih (sound_after e hs))
    exact safe_iff_harmless (sound_start e hs)

/-- In a run from a new session, every datagram is processed inside its bounds and to the end just if every
one is harmless when it comes. -/
theorem run_safe_iff (hmac : Hmac) (thisNodeId partnerNodeId sessionKey : ConstDataBuffer) (now : Int)
    (events : List Event) :
    AtDatagrams hmac (Safe hmac) (fresh thisNodeId partnerNodeId sessionKey now) events ↔
      AtDatagrams hmac Harmless (fresh thisNodeId partnerNodeId sessionKey now) events :=
  atDatagrams_safe_iff (sound_fresh thisNodeId partnerNodeId sessionKey now) events

/-- A datagram of the partner, signed, whose header says that it is for another node but has no place for
that node. -/
def headless : ConstDataBuffer := signed sampleHmac [1] 0 (MessageType.routeSingleData, [])

theorem not_safe_headless : ValidSignature sampleHmac [1] headless ∧
    ¬∀ (hmac : Hmac) (thisNodeId partnerNodeId sessionKey : ConstDataBuffer) (now : Int) (events : List Event),
      AtDatagrams hmac (Safe hmac) (fresh thisNodeId partnerNodeId sessionKey now) events := by
  refine ⟨⟨by decide +kernel, by decide +kernel⟩, fun h => ?_⟩
  have hrun := (h sampleHmac (sampleNode 2) (sampleNode 1) [1] 0 [⟨0, [], .datagram headless⟩]).1 headless rfl
  exact hrun .underflow _ (eq_error_of_failure (by decide +kernel)) trivial

end Vds.DhtNetwork.Checked
