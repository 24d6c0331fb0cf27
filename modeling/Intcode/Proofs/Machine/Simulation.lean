import Intcode.Proofs.Machine.Refinement

/-!
# Runs of machines and of the ideal machine

Step for step a machine shows what the ideal machine over the same program shows, on any channels,
as long as every instruction has an address behind it. Nothing that a machine ever shows depends on
how its memory is stored.
-/

namespace Intcode

/-- What the first `n` steps show and what they lead to. A step that does not go through is
followed by another attempt. -/
def watch {σ α : Type} (step : σ → α × σ) : Nat → σ → List α × σ
  | 0, s => ([], s)
  | n + 1, s => ((step s).1 :: (watch step n (step s).2).1, (watch step n (step s).2).2)

/-- A simulation of steps is one of runs. The condition on a step may be one on the state of the
simulating side only. -/
theorem watch_of_step {σ τ α : Type} {step : σ → α × σ} {step' : τ → α × τ} {R : σ → τ → Prop}
    {P : τ → Prop}
    (simulates : ∀ s t, R s t → P t → (step s).1 = (step' t).1 ∧ R (step s).2 (step' t).2)
    {s : σ} {t : τ} (start : R s t) (n : Nat) (fine : ∀ k < n, P (watch step' k t).2) :
    (watch step n s).1 = (watch step' n t).1 ∧ R (watch step n s).2 (watch step' n t).2 := by
  induction n generalizing s t with
  | zero => exact ⟨rfl, start⟩
  | succ n ih =>
    obtain ⟨shown, next⟩ := simulates s t start (fine 0 (Nat.zero_lt_succ n))
    obtain ⟨rest, last⟩ := ih next fun k below => fine (k + 1) (Nat.succ_lt_succ below)
    exact ⟨List.cons_eq_cons.mpr ⟨shown, rest⟩, last⟩

/-- An instruction spans at most four words. -/
theorem Ideal.inRange_of_ip {s : Ideal} (h : s.ip < 0x7ffffffffffffffc) : s.InRange := by
  intro o _
  have most : span o ≤ 4 := by cases o <;> decide
  omega

/-- A memory reads the same after it has grown. -/
theorem Machine.grow_resembles (m : Machine) (size : Nat) :
    { m with memory := m.memory.grow size }.Resembles m := by
  refine ⟨fun a => ?_, rfl, rfl, rfl⟩
  simp only [Memory.read, Memory.get_grow]

theorem Machine.load_refines (p : Program) (label : String) (debug : Bool) :
    (Machine.load p label debug).Refines (.load p) := by
  refine ⟨fun a nonneg => ?_, rfl, rfl, rfl⟩
  obtain ⟨n, number⟩ := Int.eq_ofNat_of_zero_le nonneg
  rw [Memory.read, Word.toNat?_eq_some_iff.mpr number, number, Int.toNat_natCast]
  simp only [load, Memory.ofArray, Memory.get, Ideal.load, Array.getD_eq_getD_getElem?,
    Except.ok.injEq]
  cases p.words[n]? <;> rfl

variable {ι ω : Type} [Channel ι] [Channel ω]

theorem Rig.Resembles.advance_eq {r r' : Rig ι ω} (same : r.Resembles r') :
    r.advance.1 = r'.advance.1 ∧ r.advance.2.Resembles r'.advance.2 := by
  obtain ⟨results, traffic, next⟩ := same.step
  exact ⟨Prod.ext results traffic, next⟩

/-- Machines run as the ideal machine does, and machines that read the same run alike. -/
theorem Rig.runs_refine_ideal (p : Program) (label : String) (debug : Bool) (input : ι)
    (output : ω) :
    (∀ n, (∀ k < n, (watch Bench.step k ⟨.load p, input, output⟩).2.ideal.InRange) →
      (watch Rig.advance n ⟨.load p label debug, input, output, #[]⟩).1 =
          (watch Bench.step n ⟨.load p, input, output⟩).1 ∧
        (watch Rig.advance n ⟨.load p label debug, input, output, #[]⟩).2.Matches
          (watch Bench.step n ⟨.load p, input, output⟩).2) ∧
      ∀ r r' : Rig ι ω, r.Resembles r' → ∀ n,
        (watch Rig.advance n r).1 = (watch Rig.advance n r').1 ∧
          (watch Rig.advance n r).2.Resembles (watch Rig.advance n r').2 := by
  constructor
  · intro n inRange
    have start : Rig.Matches ⟨.load p label debug, input, output, #[]⟩
        ⟨Ideal.load p, input, output⟩ := ⟨Machine.load_refines p label debug, rfl, rfl⟩
    exact watch_of_step (fun _ _ same fine => same.step fine) start n inRange
  · intro r r' same n
    exact watch_of_step (P := fun _ => True) (fun _ _ same _ => same.advance_eq) same n
      fun _ _ => trivial

/-- A program that stores a sum far behind its end and emits it from there. -/
def reaching : Program := ⟨#[1101, 2, 3, 2097152, 4, 2097152, 99]⟩

def reachingBench : Bench Tape Tape := ⟨.load reaching, .ofList [], .ofList []⟩

def reachingRig : Rig Tape Tape := ⟨.load reaching, .ofList [], .ofList [], #[]⟩

/-- The same machine over a memory that holds more zeros. -/
def paddedRig : Rig Tape Tape :=
  { reachingRig with
    machine := { reachingRig.machine with memory := reachingRig.machine.memory.grow 20 } }

/-- The three steps of the reaching program, over either memory. -/
theorem reaching_refines :
    (∀ k < 3, (watch Bench.step k reachingBench).2.ideal.InRange) ∧
      (watch Rig.advance 3 reachingRig).1 = (watch Bench.step 3 reachingBench).1 ∧
      (watch Rig.advance 3 reachingRig).2.Matches (watch Bench.step 3 reachingBench).2 ∧
      paddedRig.Resembles reachingRig ∧
      (watch Rig.advance 3 paddedRig).1 = (watch Rig.advance 3 reachingRig).1 ∧
      (watch Rig.advance 3 reachingRig).1 =
        [(.ok .running, none), (.ok .running, some (.sent 5)), (.ok .halted, none)] := by
  have inRange : ∀ k < 3, (watch Bench.step k reachingBench).2.ideal.InRange := by
    intro k below
    obtain rfl | rfl | rfl : k = 0 ∨ k = 1 ∨ k = 2 := by omega
    · exact Ideal.inRange_of_ip (by decide +kernel)
    · exact Ideal.inRange_of_ip (by decide +kernel)
    · exact Ideal.inRange_of_ip (by decide +kernel)
  have padded : paddedRig.Resembles reachingRig :=
    ⟨reachingRig.machine.grow_resembles 20, rfl, rfl⟩
  obtain ⟨refines, alike⟩ :=
    Rig.runs_refine_ideal reaching "main" false (Tape.ofList []) (Tape.ofList [])
  obtain ⟨shown, last⟩ := refines 3 inRange
  exact ⟨inRange, shown, last, padded, (alike paddedRig reachingRig padded 3).1, by rfl⟩

end Intcode
