import Intcode.Proofs.Circuit.Account
import Intcode.Proofs.Circuit.Report
import Intcode.Proofs.Schedule

/-!
# Rings come to one end

What the first stage of a ring is fed always begins the phase, the signal and all that the last
stage emits, and a stage that has seen more of its input only went further along one and the same
run. So any two runs that end agree.
-/

namespace Intcode

namespace Ring

variable {p : Program} {debug : Bool} {phase signal : Word} {phases sent relayed : List Word}

theorem tailOver?_actRelay (r : Ring) :
    Stage.tailOver? r.actRelay.1.stages = Stage.tailOver? r.stages := by
  obtain ⟨stages, outlet, relay⟩ := r
  cases stages with
  | nil => rfl
  | cons s rest => exact Stage.tailOver?_feed s.cpu s.inbox _ rest

/-- A ring on its way to the end that another one has reached. -/
theorem Sound.agree {sent' relayed' : List Word} {r r' : Ring}
    (sound : Sound p debug phase signal phases sent relayed r)
    (sound' : Sound p debug phase signal phases sent' relayed' r')
    (finished : none ∉ Stage.overs r.stages) (begins' : relayed' <+: sent)
    (whole' : Stage.headOver? r'.stages = some (.error .notConnected) → sent = relayed') :
    sent' <+: sent ∧ (Stage.tailOver? r'.stages ≠ none → sent' = sent) ∧
      (none ∉ Stage.overs r'.stages → Stage.overs r'.stages = Stage.overs r.stages) := by
  refine sound.row.agree sound'.row (phase :: signal :: sent) ?_ ?_ ?_ ?_ finished
  · exact List.cons_prefix_cons.mpr ⟨rfl, List.cons_prefix_cons.mpr ⟨rfl, sound.relayed_prefix⟩⟩
  · exact List.cons_prefix_cons.mpr ⟨rfl, List.cons_prefix_cons.mpr ⟨rfl, begins'⟩⟩
  · intro starved
    rw [(sound.starved starved).2]
  · intro starved
    rw [whole' starved]

theorem sound_of_observed {r : Ring}
    (run : Observed sentByTail (load p (phase :: phases) signal debug) sent r) :
    ∃ relayed, Sound p debug phase signal phases sent relayed r := by
  induction run with
  | refl => exact ⟨[], sound_load p debug phase signal phases⟩
  | act i run here ih =>
    rename_i sent r
    obtain ⟨relayed, sound⟩ := ih
    by_cases stage : i < r.stages.length
    · simp only [System.act, if_pos stage]
      exact ⟨relayed, sound.actStage stage⟩
    · have silent : sentByTail r i = [] := if_neg (by omega)
      simp only [System.act, if_neg stage, silent, List.append_nil]
      exact sound.actRelay

/-- Beside a run that has reached its end, what has been relayed begins what the last stage emits
there. This is where the ring is closed: what is relayed was emitted, and what is emitted depends on
what was relayed before. -/
theorem relayed_of_observed {sent' : List Word} {r r' : Ring}
    (sound : Sound p debug phase signal phases sent relayed r)
    (finished : none ∉ Stage.overs r.stages)
    (run : Observed sentByTail (load p (phase :: phases) signal debug) sent' r') :
    ∃ relayed', Sound p debug phase signal phases sent' relayed' r' ∧ relayed' <+: sent ∧
      (Stage.headOver? r'.stages = some (.error .notConnected) → sent = relayed') := by
  induction run with
  | refl => exact ⟨[], sound_load p debug phase signal phases, List.nil_prefix, nofun⟩
  | act i run here ih =>
    rename_i sent' r'
    obtain ⟨relayed', sound', begins', whole'⟩ := ih
    obtain ⟨grows, ends, -⟩ := sound.agree sound' finished begins' whole'
    by_cases stage : i < r'.stages.length
    · refine ⟨relayed', ?_, begins', ?_⟩
      · simp only [System.act, if_pos stage]
        exact sound'.actStage stage
      · simp only [System.act, if_pos stage]
        intro starved
        obtain ⟨tail, all⟩ := sound'.before_starving stage starved
        rw [all, ends tail]
    · have silent : sentByTail r' i = [] := if_neg (by omega)
      obtain ⟨relayed'', sound''⟩ := sound'.actRelay
      simp only [System.act, if_neg stage, silent, List.append_nil]
      refine ⟨relayed'', sound'', sound''.relayed_prefix.trans grows, ?_⟩
      intro starved
      obtain ⟨tail, all⟩ := sound''.starved starved
      rw [tailOver?_actRelay] at tail
      rw [all, ends tail]

theorem Sound.relay_ok {r : Ring} (sound : Sound p debug phase signal phases sent relayed r)
    {o : Relay.Outcome} (ended : r.relay.outcome? = some o) : r.relay.phase = .ended (.ok ()) := by
  have phase := Relay.phase_of_outcome ended
  obtain ⟨rfl, -⟩ := sound.ending o (by rw [phase]; rfl)
  exact phase

/-- A ring that has ended reports its outcomes and the last value that came out of the chain. -/
theorem Sound.result {r : Ring} (sound : Sound p debug phase signal phases sent relayed r)
    (ended : System.ended r = true) :
    ∃ outcomes, Stage.outcomes? r.stages = some outcomes ∧
      r.result = match faultOf outcomes with
        | some f => .error (.fault f)
        | none => .ok sent.getLast? := by
  obtain ⟨stagesEnded, relayEnded⟩ := Bool.and_eq_true_iff.mp ended
  obtain ⟨outcomes, all⟩ := Option.isSome_iff_exists.mp stagesEnded
  obtain ⟨o, relayOver⟩ := Option.isSome_iff_exists.mp relayEnded
  have at' := sound.relay_ok relayOver
  have account := sound.account
  have last := sound.last
  simp only [at', Relay.Phase.hand, Relay.Phase.reply, List.append_nil] at account last
  refine ⟨outcomes, all, ?_⟩
  have relayed : r.relay.outcome? = some (.ok ()) := by rw [Relay.outcome?, at']
  rw [← account, List.getLast?_append, ← last]
  cases cause : faultOf outcomes <;> simp only [Ring.result, all, relayed, cause]

/-- Whatever the order of the acts, a ring that has ended comes to the same result, which reports
the outcomes of its stages and the last value that its last stage emitted. Its relay never fails. -/
theorem ended_agree (p : Program) (phases : List Word) (signal : Word) (debug : Bool)
    (nonempty : phases ≠ []) :
    (∀ r f, Reaches (load p phases signal debug) r → r.relay.outcome? ≠ some (.error f)) ∧
      ∀ sent sent' r r', Observed sentByTail (load p phases signal debug) sent r →
        Observed sentByTail (load p phases signal debug) sent' r' →
        System.ended r = true → System.ended r' = true →
        r.result = r'.result ∧
          ∃ outcomes, Stage.outcomes? r.stages = some outcomes ∧
            Reported outcomes sent r.result := by
  cases phases with
  | nil => exact absurd rfl nonempty
  | cons phase phases =>
    constructor
    · intro r f reached failed
      obtain ⟨sent, run⟩ := reached.observed sentByTail
      obtain ⟨relayed, sound⟩ := sound_of_observed run
      have at' := sound.relay_ok failed
      rw [Relay.outcome?, at'] at failed
      cases failed
    · intro sent sent' r r' run run' ended ended'
      obtain ⟨relayed, sound⟩ := sound_of_observed run
      obtain ⟨outcomes, all, result⟩ := sound.result ended
      have finished := Stage.outcomes_over all
      obtain ⟨relayed', sound', begins', whole'⟩ := relayed_of_observed sound finished run'
      obtain ⟨outcomes', all', result'⟩ := sound'.result ended'
      have over' := Stage.outcomes_over all'
      obtain ⟨-, ends, same⟩ := sound.agree sound' finished begins' whole'
      obtain rfl := Stage.outcomes_eq all all' (same over')
      obtain rfl := ends (sound'.row.tail_over over')
      refine ⟨result.trans result'.symm, outcomes', all, ?_⟩
      rw [result]
      exact reported_faultOf outcomes' sent'

/-- Two stages that send a signal round the ring three times, doubling it and adding their phase. -/
def circling : Ring :=
  load ⟨#[3, 26, 3, 27, 102, 2, 27, 27, 1, 26, 27, 27, 4, 27, 101, -1, 25, 25, 1005, 25, 2, 99, 0,
    0, 0, 3, 0, 0]⟩ [1, 2] 1 false

/-- The circling ring after two runs, of which one lets the first stage act first and one the
relay. -/
theorem circling_agree :
    ∃ sent sent', Observed sentByTail circling sent (settle 300 circling) ∧
      Observed sentByTail circling sent' (settleFrom 300 2 0 circling) ∧
      System.ended (settle 300 circling) = true ∧
      System.ended (settleFrom 300 2 0 circling) = true ∧
      (settle 300 circling).result = (settleFrom 300 2 0 circling).result ∧
      ∃ outcomes, Stage.outcomes? (settle 300 circling).stages = some outcomes ∧
        Reported outcomes sent (settle 300 circling).result := by
  obtain ⟨sent, run⟩ := (reaches_settle 300 circling).observed sentByTail
  obtain ⟨sent', run'⟩ := (reaches_settleFrom 300 2 0 circling).observed sentByTail
  have ended : System.ended (settle 300 circling) = true := by decide +kernel
  have ended' : System.ended (settleFrom 300 2 0 circling) = true := by decide +kernel
  exact ⟨sent, sent', run, run', ended, ended',
    (ended_agree _ [1, 2] 1 false nofun).2 sent sent' _ _ run run' ended ended'⟩

end Ring

end Intcode
