import Intcode.Proofs.Channel.Contents

/-!
# Channels that others use

A unit shares its channels: between two of its acts, others may use them in any way. A channel that
has been closed stays closed through all of that, and who reads a closed wire gets what is still
queued and then, every time, the fault that there is no connection.
-/

namespace Intcode

/-- A use of a channel by somebody else. -/
inductive Use where
  | take
  | put (value : Word)
  | poll
  | close
  deriving DecidableEq, Repr

namespace Use

variable {σ : Type} [Channel σ]

def on (c : σ) : Use → σ
  | take => (Channel.take c).2
  | put v => (Channel.put c v).2
  | poll => (Channel.poll c).2
  | close => Channel.close c

def accepted (c : σ) : Use → List Word
  | put v =>
    match (Channel.put c v).1 with
    | .ok () => [v]
    | .error _ => []
  | take | poll | close => []

end Use

/-- Closing a channel makes it `shut`, and no use of it undoes that. -/
structure Channel.Seals {σ : Type} [Channel σ] (shut : σ → Prop) : Prop where
  close : ∀ c, shut (Channel.close c)
  take : ∀ c, shut c → shut (Channel.take c).2
  put : ∀ c v, shut c → shut (Channel.put c v).2
  poll : ∀ c, shut c → shut (Channel.poll c).2

theorem Channel.Seals.use {σ : Type} [Channel σ] {shut : σ → Prop} (seals : Channel.Seals shut)
    {c : σ} (closed : shut c) (use : Use) : shut (use.on c) := by
  cases use with
  | take => exact seals.take c closed
  | put v => exact seals.put c v closed
  | poll => exact seals.poll c closed
  | close => exact seals.close c

/-- The channel holds a list of values: one that it accepts comes behind all others, and neither one
that it refuses nor closing changes the list. -/
structure Channel.Stores {σ : Type} [Channel σ] (contents : σ → List Word) : Prop where
  accepted : ∀ {c c' v}, Channel.put c v = (.ok (), c') → contents c' = contents c ++ [v]
  refused : ∀ {c c' v s}, Channel.put c v = (.error s, c') → contents c' = contents c
  close : ∀ c, contents (Channel.close c) = contents c

namespace Wire

theorem stores_toList : Channel.Stores Wire.toList where
  accepted {w w' v} given := by
    cases closed : w.closed with
    | true => cases (put_of_closed closed v).symm.trans given
    | false =>
      obtain ⟨w'', same, appended, -⟩ := put_of_open closed v
      cases same.symm.trans given
      exact appended
  refused {w w' v s} refused := by
    cases closed : w.closed with
    | true =>
      cases (put_of_closed closed v).symm.trans refused
      rfl
    | false =>
      obtain ⟨w'', same, -⟩ := put_of_open closed v
      cases same.symm.trans refused
  close _ := rfl

theorem seals_closed : Channel.Seals fun w : Wire => w.closed = true where
  close _ := rfl
  take w closed := (closed_take w).trans closed
  put w v closed := by
    rw [put_of_closed closed]
    exact closed
  poll w closed := by
    obtain ⟨got, w', polled, same, -⟩ := poll_or_fault w
    rw [polled]
    exact same.trans closed

/-- No put on a wire waits. -/
theorem put_prompt (w : Wire) (v : Word) : (Channel.put w v).1 ≠ .error .blocked := by
  cases closed : w.closed with
  | true =>
    rw [put_of_closed closed]
    nofun
  | false =>
    obtain ⟨w', given, -⟩ := put_of_open closed v
    rw [given]
    nofun

/-- No take from a closed wire waits. -/
theorem take_prompt {w : Wire} (closed : w.closed = true) :
    (Channel.take w).1 ≠ .error .blocked := by
  cases contents : w.toList with
  | nil =>
    rw [take_of_nil contents, closed]
    nofun
  | cons v queued =>
    obtain ⟨w', taken, -⟩ := take_of_cons contents
    rw [taken]
    nofun

/-- What the next `n` takes from a wire come to, if nobody else uses it. -/
def reads : Nat → Wire → List (Except Stop Word)
  | 0, _ => []
  | n + 1, w => (Channel.take w).1 :: reads n (Channel.take w).2

/-- No read of a closed wire waits: first comes what is queued, and then there is no connection. -/
theorem reads_of_closed (n : Nat) {w : Wire} (closed : w.closed = true) :
    w.reads n = (w.toList.take n).map .ok ++
      .replicate (n - w.toList.length) (.error (.fault .notConnected)) := by
  induction n generalizing w with
  | zero => simp [reads]
  | succ n ih =>
    have still := seals_closed.take w closed
    cases contents : w.toList with
    | nil =>
      have empty := take_of_nil contents
      simp only [closed, if_true] at empty
      have rest := ih closed
      rw [contents] at rest
      rw [reads, empty, rest]
      simp [List.replicate_succ]
    | cons v queued =>
      obtain ⟨w', taken, left, -⟩ := take_of_cons contents
      rw [taken] at still
      rw [reads, taken, ih still, left]
      simp

/-- What others do to a wire on which they only put and which they may close. -/
theorem use_feeds (w : Wire) {use : Use} (feeds : use ≠ .take ∧ use ≠ .poll) :
    (use.on w).toList = w.toList ++ use.accepted w ∧
      (w.closed = true → (use.on w).closed = true ∧ use.accepted w = []) := by
  cases use with
  | take => exact absurd rfl feeds.1
  | poll => exact absurd rfl feeds.2
  | close => exact ⟨(List.append_nil _).symm, fun _ => ⟨rfl, rfl⟩⟩
  | put v =>
    cases closed : w.closed with
    | true =>
      simp only [Use.on, Use.accepted, put_of_closed closed, List.append_nil, true_and]
      exact fun _ => ⟨closed, trivial⟩
    | false =>
      obtain ⟨w', given, appended, -⟩ := put_of_open closed v
      simp only [Use.on, Use.accepted, given]
      exact ⟨appended, nofun⟩

end Wire

end Intcode
