import Intcode.Channel.Endpoint

/-!
# Contents of channels

What a use of a wire or a tape does, told by the list of its values. How a queue is split into an
old and a new half is of no interest here. Of an endpoint of any kind it is said what a use that
does not go through leaves behind.
-/

namespace Intcode

theorem Fifo.pop?_of_cons {α : Type} {q : Fifo α} {a : α} {rest : List α}
    (h : q.toList = a :: rest) : ∃ r, q.pop? = some (a, r) ∧ r.toList = rest := by
  cases popped : q.pop? with
  | none =>
    rw [Fifo.pop?_eq_none_iff.mp popped] at h
    cases h
  | some p =>
    obtain ⟨b, r⟩ := p
    rw [Fifo.toList_of_pop? popped] at h
    obtain ⟨rfl, rfl⟩ := List.cons.inj h
    exact ⟨r, rfl, rfl⟩

namespace Wire

@[simp] theorem toList_ofList (ws : List Word) : (ofList ws).toList = ws :=
  Fifo.toList_ofList ws

theorem take_of_cons {w : Wire} {v : Word} {rest : List Word} (h : w.toList = v :: rest) :
    ∃ w' : Wire, Channel.take w = (.ok v, w') ∧ w'.toList = rest ∧ w'.closed = w.closed := by
  obtain ⟨queue, popped, left⟩ := Fifo.pop?_of_cons h
  exact ⟨{ w with queue }, by simp only [Channel.take, take, popped], left, rfl⟩

theorem take_of_nil {w : Wire} (h : w.toList = []) :
    Channel.take w = (.error (if w.closed then .fault .notConnected else .blocked), w) := by
  have empty : w.queue.pop? = none := Fifo.pop?_eq_none_iff.mpr h
  simp only [Channel.take, take, empty]

theorem closed_take (w : Wire) : (Channel.take w).2.closed = w.closed := by
  cases contents : w.toList with
  | nil => rw [take_of_nil contents]
  | cons v rest =>
    obtain ⟨w', taken, _, same⟩ := take_of_cons contents
    rw [taken]
    exact same

theorem poll_of_cons {w : Wire} {v : Word} {rest : List Word} (h : w.toList = v :: rest) :
    ∃ w' : Wire, Channel.poll w = (.ok (some v), w') ∧ w'.toList = rest ∧ w'.closed = w.closed := by
  obtain ⟨queue, popped, left⟩ := Fifo.pop?_of_cons h
  exact ⟨{ w with queue }, by simp only [Channel.poll, poll, popped], left, rfl⟩

theorem poll_of_nil {w : Wire} (h : w.toList = []) :
    Channel.poll w = (if w.closed then .error (.fault .notConnected) else .ok none, w) := by
  have empty : w.queue.pop? = none := Fifo.pop?_eq_none_iff.mpr h
  simp only [Channel.poll, poll, empty]

/-- Polling a wire fails only for lack of a connection, and neither opens nor closes the wire. -/
theorem poll_or_fault (w : Wire) :
    ∃ (got : Except Stop (Option Word)) (w' : Wire), Channel.poll w = (got, w') ∧
      w'.closed = w.closed ∧ (got = .error (.fault .notConnected) ∨ ∃ v, got = .ok v) := by
  cases contents : w.toList with
  | nil =>
    rw [poll_of_nil contents]
    cases closed : w.closed with
    | true => exact ⟨_, w, rfl, closed, .inl rfl⟩
    | false => exact ⟨_, w, rfl, closed, .inr ⟨none, rfl⟩⟩
  | cons v rest =>
    obtain ⟨w', polled, -, same⟩ := poll_of_cons contents
    exact ⟨_, w', polled, same, .inr ⟨some v, rfl⟩⟩

theorem put_of_closed {w : Wire} (h : w.closed = true) (v : Word) :
    Channel.put w v = (.error (.fault .notConnected), w) := by
  simp only [Channel.put, put, h, if_true]

theorem put_of_open {w : Wire} (h : w.closed = false) (v : Word) :
    ∃ w' : Wire, Channel.put w v = (.ok (), w') ∧ w'.toList = w.toList ++ [v] ∧
      w'.closed = false := by
  refine ⟨{ w with queue := w.queue.push v }, ?_, Fifo.toList_push w.queue v, h⟩
  simp only [Channel.put, put, h, Bool.false_eq_true, if_false]

theorem pending_eq (w : Wire) : Channel.pending w = w.toList.length :=
  (Fifo.length_toList w.queue).symm

end Wire

namespace Tape

@[simp] theorem toList_ofList (ws : List Word) : (ofList ws).toList = ws :=
  Fifo.toList_ofList ws

@[simp] theorem toList_push (t : Tape) (v : Word) : (t.push v).toList = t.toList ++ [v] :=
  Fifo.toList_push t.queue v

theorem take_of_cons {t : Tape} {v : Word} {rest : List Word} (h : t.toList = v :: rest) :
    ∃ t' : Tape, Channel.take t = (.ok v, t') ∧ t'.toList = rest := by
  obtain ⟨queue, popped, left⟩ := Fifo.pop?_of_cons h
  exact ⟨{ queue }, by simp only [Channel.take, take, popped], left⟩

theorem take_of_nil {t : Tape} (h : t.toList = []) :
    Channel.take t = (.error (.fault .inputExhausted), t) := by
  have empty : t.queue.pop? = none := Fifo.pop?_eq_none_iff.mpr h
  simp only [Channel.take, take, empty]

theorem poll_of_cons {t : Tape} {v : Word} {rest : List Word} (h : t.toList = v :: rest) :
    ∃ t' : Tape, Channel.poll t = (.ok (some v), t') ∧ t'.toList = rest := by
  obtain ⟨queue, popped, left⟩ := Fifo.pop?_of_cons h
  exact ⟨{ queue }, by simp only [Channel.poll, poll, popped], left⟩

theorem poll_of_nil {t : Tape} (h : t.toList = []) : Channel.poll t = (.ok none, t) := by
  have empty : t.queue.pop? = none := Fifo.pop?_eq_none_iff.mpr h
  simp only [Channel.poll, poll, empty]

end Tape

namespace Endpoint

theorem take_error {e e' : Endpoint} {s : Stop} (h : Channel.take e = (.error s, e')) : e' = e := by
  cases e with
  | tape t =>
    simp only [Channel.take, Endpoint.take, Tape.take] at h
    split at h <;> cases h
    rfl
  | wire w =>
    simp only [Channel.take, Endpoint.take, Wire.take] at h
    split at h <;> cases h
    rfl
  | joystick j => cases h
  | unplugged | broken =>
    cases h
    rfl

theorem put_error {e e' : Endpoint} {v : Word} {s : Stop}
    (h : Channel.put e v = (.error s, e')) : e' = e := by
  cases e with
  | wire w =>
    simp only [Channel.put, Endpoint.put, Wire.put] at h
    split at h <;> cases h
    rfl
  | tape t | joystick j => cases h
  | unplugged | broken =>
    cases h
    rfl

/-- An endpoint that refuses a value lacks its connection, and closing it makes no difference. -/
theorem put_refused {e e' : Endpoint} {v : Word} {s : Stop} (whole : e ≠ broken)
    (h : Channel.put e v = (.error s, e')) :
    s = .fault .notConnected ∧ Channel.close e' = e' := by
  cases e with
  | wire w =>
    obtain ⟨queue, closed⟩ := w
    simp only [Channel.put, Endpoint.put, Wire.put] at h
    cases closed <;> cases h
    exact ⟨rfl, rfl⟩
  | tape t | joystick j => cases h
  | unplugged =>
    cases h
    exact ⟨rfl, rfl⟩
  | broken => exact absurd rfl whole

theorem close_take {e : Endpoint} (closed : Channel.close e = e) :
    Channel.close (Channel.take e).2 = (Channel.take e).2 := by
  cases e with
  | wire w =>
    have same : w.closed = true := by
      have closing : Wire.close w = w := Endpoint.wire.inj closed
      rw [← closing]
      rfl
    have still := (Wire.closed_take w).trans same
    show Endpoint.wire (Wire.close (Channel.take w).2) = Endpoint.wire (Channel.take w).2
    rw [Wire.close, ← still]
  | tape t | joystick j | unplugged | broken => rfl

theorem take_ne_broken {e : Endpoint} (whole : e ≠ broken) : (Channel.take e).2 ≠ broken := by
  cases e with
  | broken => exact absurd rfl whole
  | _ => nofun

theorem put_ne_broken {e : Endpoint} (whole : e ≠ broken) (v : Word) :
    (Channel.put e v).2 ≠ broken := by
  cases e with
  | broken => exact absurd rfl whole
  | _ => nofun

theorem close_ne_broken {e : Endpoint} (whole : e ≠ broken) : Channel.close e ≠ broken := by
  cases e with
  | broken => exact absurd rfl whole
  | _ => nofun

end Endpoint

end Intcode
