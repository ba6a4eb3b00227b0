import Vds.DhtNetwork.Delivery

/-! What a session does to its queue when an acknowledgment comes, and what it writes on a timer. -/

namespace Vds.DhtNetwork

open BinarySerializer BinaryDeserializer StateError

variable {hmac : Hmac}

/-- A session without its queue and its clocks. -/
def receivingSide (s : Session) : Session :=
  { s with
    written := []
    now := 0
    refuses := []
    self := { s.self with
      failedState := false
      checkMtu := 0
      lastSent := 0
      mtu := 0
      inputMtu := 0
      outputMessages := .empty } }

/-- Datagrams in front of `last` may leave the queue, others stay, and only queued ones are written. -/
structure Serves (last : Nat) (s s' : Session) : Prop where
  receiving : receivingSide s' = receivingSide s
  queued : ∀ i d, s'.self.outputMessages.find i = some d → s.self.outputMessages.find i = some d
  erased : ∀ i, s'.self.outputMessages.find i = none → s.self.outputMessages.find i = none ∨ i < last
  written : ∀ d ∈ s'.written, d ∈ s.written ∨ ∃ i, s.self.outputMessages.find i = some d
  mtu : s.self.mtu ≤ s'.self.mtu

instance serves_refl (last : Nat) : Std.Refl (Serves last) :=
  ⟨fun _ => ⟨rfl, fun _ _ h => h, fun _ h => .inl h, fun _ h => .inl h, le_rfl⟩⟩

instance serves_trans (last : Nat) : IsTrans Session (Serves last) := by
  refine ⟨fun s s' s'' h h' => ⟨h'.receiving.trans h.receiving, fun i d hd => h.queued i d (h'.queued i d hd),
    fun i hi => ?_, fun d hd => ?_, h.mtu.trans h'.mtu⟩⟩
  · rcases h'.erased i hi with hi | hi
    · exact h.erased i hi
    · exact .inr hi
  · rcases h'.written d hd with hd | ⟨i, hd⟩
    · exact h.written d hd
    · exact .inr ⟨i, h.queued i d hd⟩

/-- A datagram is written, or the transport refuses it. -/
theorem writeAsync_final (d : ConstDataBuffer) (s : Session) :
    ∃ refuses, final (writeAsync d s) = { s with refuses } ∨
      final (writeAsync d s) = { s with refuses, written := s.written ++ [d] } := by
  unfold writeAsync
  rw [bind_of_ok (get_apply s)]
  obtain ⟨self, processed, written, now, refuses⟩ := s
  cases refuses with
  | nil => exact ⟨[], .inr rfl⟩
  | cons refused refuses =>
    cases refused with
    | true => exact ⟨refuses, .inl rfl⟩
    | false => exact ⟨refuses, .inr rfl⟩

theorem serves_writeAsync (last : Nat) {s : Session} {i : Nat} {d : ConstDataBuffer}
    (hd : s.self.outputMessages.find i = some d) : Serves last s (final (writeAsync d s)) := by
  obtain ⟨refuses, h | h⟩ := writeAsync_final d s
  · rw [h]
    exact ⟨rfl, fun _ _ hx => hx, fun _ hx => .inl hx, fun _ hx => .inl hx, le_rfl⟩
  · rw [h]
    refine ⟨rfl, fun _ _ hx => hx, fun _ hx => .inl hx, fun x hx => ?_, le_rfl⟩
    rcases List.mem_append.mp hx with hx | hx
    · exact .inl hx
    · exact .inr ⟨i, (List.mem_singleton.mp hx) ▸ hd⟩

theorem moves_resend (last index : Nat) : Moves (Serves last) (resend index) := by
  intro s
  unfold resend
  rw [bind_of_ok (get_apply s)]
  cases hd : s.self.outputMessages.find index with
  | none => exact refl_of (Serves last) s
  | some d => exact serves_writeAsync last hd

theorem eraseAcknowledged_spec (last n : Nat) (s : Session) :
    Serves last s { s with self := eraseAcknowledged last n s.self } := by
  induction n generalizing s with
  | zero => exact refl_of (Serves last) s
  | succ n ih =>
    unfold eraseAcknowledged
    cases hf : s.self.outputMessages.front with
    | none => exact refl_of (Serves last) s
    | some e =>
      obtain ⟨index, d⟩ := e
      dsimp only
      split_ifs with hlt
      · have hfind := OrderedMap.find_eraseFront hf
        refine trans_of (Serves last) ?_
          (ih { s with self := { s.self with outputMessages := s.self.outputMessages.eraseFront, lastSent := 0 } })
        refine ⟨rfl, fun i d' hd' => ?_, fun i hi => ?_, fun d' hd' => .inl hd', le_rfl⟩
        · change s.self.outputMessages.eraseFront.find i = some d' at hd'
          rw [hfind] at hd'
          split_ifs at hd'
          exact hd'
        · change s.self.outputMessages.eraseFront.find i = none at hi
          rw [hfind] at hi
          split_ifs at hi with hx
          · exact .inr (hx ▸ hlt)
          · exact .inl hi
      · exact refl_of (Serves last) s

theorem moves_liftExcept {α : Type} (last : Nat) (v : Except ProtocolError α) :
    Moves (Serves last) (liftExcept v) := by
  intro s
  cases v with
  | ok a => exact refl_of (Serves last) s
  | error e => exact refl_of (Serves last) s

/-- An acknowledgment erases only what stands in front of its number. -/
theorem serves_processAcknowledgment {last : Nat} {d : ConstDataBuffer} (hd : numberAt d 1 4 = .ok last) :
    Moves (Serves last) (processAcknowledgment d) := by
  intro s
  unfold processAcknowledgment
  rw [bind_of_ok (liftExcept_ok hd s)]
  refine Moves.bind ?_ (fun _ => Moves.bind (moves_resend last last) fun _ =>
    Moves.bind (moves_liftExcept last _) fun mask => Moves.bind ?_ fun _ =>
    Moves.bind (moves_liftExcept last _) fun mtu => ?_) s
  · exact fun s => eraseAcknowledged_spec last s.self.outputMessages.size s
  · refine Moves.forM fun i _ => ?_
    exact Moves.ite (fun _ => moves_resend last _) fun _ => Moves.pure _
  · exact fun s => ⟨rfl, fun _ _ h => h, fun _ h => .inl h, fun _ h => .inl h, le_max_left _ _⟩

/-! ### The timer -/

/-- A session writes nothing but tests of the MTU and acknowledgments. -/
structure Ticks (s s' : Session) : Prop where
  receiving : receivingSide s' = receivingSide s
  queued : s'.self.outputMessages = s.self.outputMessages
  written : ∀ d ∈ s'.written, d ∈ s.written ∨ (∃ mtu, d = mtuTest mtu) ∨
    ∃ tail, d = MessageType.acknowledgment :: (indexBytes s.self.lastInputIndex ++ tail)
  mtu : s'.self.mtu = s.self.mtu

instance ticks_refl : Std.Refl Ticks := ⟨fun _ => ⟨rfl, rfl, fun _ h => .inl h, rfl⟩⟩

instance ticks_trans : IsTrans Session Ticks := by
  refine ⟨fun s s' s'' h h' => ⟨h'.receiving.trans h.receiving, h'.queued.trans h.queued, fun d hd => ?_,
    h'.mtu.trans h.mtu⟩⟩
  have hlast : (receivingSide s').self.lastInputIndex = (receivingSide s).self.lastInputIndex := by
    rw [h.receiving]
  rcases h'.written d hd with hd | hd | ⟨tail, hd⟩
  · exact h.written d hd
  · exact .inr (.inl hd)
  · change d = MessageType.acknowledgment :: (indexBytes (receivingSide s').self.lastInputIndex ++ tail) at hd
    rw [hlast] at hd
    exact .inr (.inr ⟨tail, hd⟩)

theorem ticks_writeAsync {s : Session} {d : ConstDataBuffer}
    (hd : (∃ mtu, d = mtuTest mtu) ∨
      ∃ tail, d = MessageType.acknowledgment :: (indexBytes s.self.lastInputIndex ++ tail)) :
    Ticks s (final (writeAsync d s)) := by
  obtain ⟨refuses, h | h⟩ := writeAsync_final d s
  · rw [h]
    exact ⟨rfl, rfl, fun _ hx => .inl hx, rfl⟩
  · rw [h]
    refine ⟨rfl, rfl, fun x hx => ?_, rfl⟩
    rcases List.mem_append.mp hx with hx | hx
    · exact .inl hx
    · exact .inr ((List.mem_singleton.mp hx) ▸ hd)

theorem moves_sendAcknowledgment : Moves Ticks sendAcknowledgment := by
  intro s
  unfold sendAcknowledgment
  rw [bind_of_ok (get_apply s)]
  have hack : ∃ tail, acknowledgment s.self =
      MessageType.acknowledgment :: (indexBytes s.self.lastInputIndex ++ tail) := by
    unfold acknowledgment
    rw [List.cons_append, List.cons_append, List.append_assoc]
    exact ⟨_, rfl⟩
  exact ticks_writeAsync (.inr hack)

theorem moves_testMtu : Moves Ticks testMtu := by
  intro s
  unfold testMtu
  rw [bind_of_ok (get_apply s)]
  have htest : Ticks s (final (writeAsync (mtuTest s.self.mtu) s)) := ticks_writeAsync (.inl ⟨_, rfl⟩)
  split_ifs with hmtu
  · change Ticks s (final ((tryCatch (writeAsync (mtuTest s.self.mtu)) fun _ => pure ()) s))
    rwa [final_tryCatch]
  · exact refl_of Ticks s

theorem moves_onTimer : Moves Ticks onTimer := by
  unfold onTimer
  refine Moves.bind (fun s => ⟨rfl, rfl, fun _ h => .inl h, rfl⟩) fun _ => ?_
  exact Moves.bind moves_testMtu fun _ => moves_sendAcknowledgment

end Vds.DhtNetwork
