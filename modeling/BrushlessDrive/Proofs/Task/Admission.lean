import BrushlessDrive.Proofs.Scalar.Sum
import BrushlessDrive.Proofs.Task.Parameters
import BrushlessDrive.Proofs.Task.Release

/-!
# What a context vouches for

The tasks compute with the parameters of their context and check none of them again. `Context.make` checks
them all, and names the first group that breaks its rules. Every scalar of a configuration that is let through
is finite and at least zero, whichever way round its rules are written (`Config.Usable`), and a start with it
is the one that it asks for (`Spinup.AsConfigured`).
-/

set_option autoImplicit false

namespace BrushlessDrive

/-! ## Scalars -/

namespace Scalar

variable {x y : Scalar}

def IsQuantity (x : Scalar) : Prop := 0 ≤ x ∧ x.isFinite = true

theorem isQuantity_of_isPositive (h : isPositive x = true) : IsQuantity x :=
  ⟨Scalar.le_of_lt (isPositive_iff.1 h).1, (isPositive_iff.1 h).2⟩

theorem isQuantity_of_le (h0 : 0 ≤ x) (h : x ≤ y) (hy : y.isFinite = true) : IsQuantity x :=
  ⟨h0, isFinite_of_le_of_le isFinite_zero hy h0 h⟩

end Scalar

/-! ## Groups of parameters -/

namespace ControllerParams

def scalars (p : ControllerParams) : List Scalar :=
  [p.speedKp, p.speedKi, p.maxVoltage, p.spinupVoltage, p.spinupAcceleration, p.spinupTarget,
    p.spinupTimeout]

theorem isQuantity_of_isValid {p : ControllerParams} (h : p.isValid = true) :
    ∀ x ∈ p.scalars, x.IsQuantity := by
  simp only [isValid, Bool.and_eq_true, decide_eq_true_eq] at h
  obtain ⟨⟨⟨⟨⟨⟨⟨⟨⟨hp, hpf⟩, hi⟩, hif⟩, hmax⟩, hv⟩, -⟩, ha⟩, ht⟩, hto⟩ := h
  simp only [scalars, List.forall_mem_cons]
  exact ⟨⟨hp, hpf⟩, ⟨hi, hif⟩, Scalar.isQuantity_of_isPositive hmax, Scalar.isQuantity_of_isPositive hv,
    Scalar.isQuantity_of_isPositive ha, Scalar.isQuantity_of_isPositive ht,
    Scalar.isQuantity_of_isPositive hto, List.forall_mem_nil _⟩

end ControllerParams

namespace MotorParams

def scalars (p : MotorParams) : List Scalar :=
  [p.phaseResistance, p.phaseInductance, p.fieldFlux, p.maxCurrent]

theorem isQuantity_of_isValid {p : MotorParams} (h : p.isValid = true) :
    ∀ x ∈ p.scalars, x.IsQuantity := by
  simp only [isValid, Bool.and_eq_true] at h
  obtain ⟨⟨⟨⟨-, hr⟩, hl⟩, hf⟩, hc⟩ := h
  simp only [scalars, List.forall_mem_cons]
  exact ⟨Scalar.isQuantity_of_isPositive hr, Scalar.isQuantity_of_isPositive hl,
    Scalar.isQuantity_of_isPositive hf, Scalar.isQuantity_of_isPositive hc, List.forall_mem_nil _⟩

theorem exists_kv_of_isValid {p : MotorParams} (h : p.isValid = true) : ∃ k, p.kv = .ok k := by
  simp only [isValid, Bool.and_eq_true] at h
  obtain ⟨⟨⟨⟨hp, -⟩, -⟩, hf⟩, -⟩ := h
  rw [kv, Units.kvOfFluxLinkage_eq, if_pos hp, if_pos (Scalar.isPositive_iff.1 hf).1]
  exact ⟨_, rfl⟩

end MotorParams

namespace ObserverParams

def scalars (p : ObserverParams) : List Scalar :=
  [p.currentNoiseD, p.currentNoiseQ, p.speedNoise, p.measurementNoiseAlpha, p.measurementNoiseBeta,
    p.crossCoupling]

theorem isQuantity_of_isValid {p : ObserverParams} (h : p.isValid = true) :
    ∀ x ∈ p.scalars, x.IsQuantity := by
  simp only [isValid, Bool.and_eq_true, decide_eq_true_eq] at h
  obtain ⟨⟨⟨⟨⟨⟨hd, hq⟩, hs⟩, ha⟩, hb⟩, h0⟩, h1⟩ := h
  simp only [scalars, List.forall_mem_cons]
  exact ⟨Scalar.isQuantity_of_isPositive hd, Scalar.isQuantity_of_isPositive hq,
    Scalar.isQuantity_of_isPositive hs, Scalar.isQuantity_of_isPositive ha,
    Scalar.isQuantity_of_isPositive hb, Scalar.isQuantity_of_le h0 h1 Scalar.isFinite_one,
    List.forall_mem_nil _⟩

end ObserverParams

namespace PwmParams

theorem deadTime_lt_of_isValid {p : PwmParams} (h : p.isValid = true) : p.deadTime < p.period / 10 := by
  simp only [isValid, Bool.and_eq_true, decide_eq_true_eq] at h
  exact h.2

/-- The frequency is not zero, so that there is a period for the dead time to be less than. -/
theorem isQuantity_deadTime {p : PwmParams} (h : p.isValid = true) : p.deadTime.IsQuantity := by
  obtain ⟨hf, -, -⟩ := p.period_bounds h
  have hlt := deadTime_lt_of_isValid h
  simp only [isValid, Bool.and_eq_true, decide_eq_true_eq] at h
  obtain ⟨⟨-, h0⟩, -⟩ := h
  have hten : (p.period / 10).isFinite = true :=
    Scalar.isFinite_div_of_one_le hf (by rfl) (by decide +kernel)
  exact Scalar.isQuantity_of_le h0 (Scalar.le_of_lt hlt) hten

end PwmParams

/-! ## Configurations -/

namespace Config

def scalars (c : Config) : List Scalar :=
  c.controller.scalars ++ c.motor.scalars ++ c.observer.scalars ++ [c.pwm.deadTime]

/-- What the tasks take for granted. -/
structure Usable (c : Config) : Prop where
  isQuantity : ∀ x ∈ c.scalars, x.IsQuantity
  spinupVoltage_le : c.controller.spinupVoltage ≤ c.controller.maxVoltage
  exists_kv : ∃ k, c.motor.kv = .ok k
  deadTime_lt : c.pwm.deadTime < c.pwm.period / 10

end Config

namespace ConfigError

def order : List ConfigError := [controller, motor, observer, pwm]

end ConfigError

namespace Context

variable {config : Config} {board : Board}

theorem usable (c : Context) : c.config.Usable := by
  obtain ⟨hc, hm, ho, hp⟩ := Config.validate_eq_ok_iff.1 c.config_valid
  obtain ⟨⟨-, hle⟩, -⟩ := c.start_valid
  refine ⟨?_, hle, MotorParams.exists_kv_of_isValid hm, PwmParams.deadTime_lt_of_isValid hp⟩
  simp only [Config.scalars, List.forall_mem_append, List.forall_mem_singleton]
  exact ⟨⟨⟨ControllerParams.isQuantity_of_isValid hc, MotorParams.isQuantity_of_isValid hm⟩,
    ObserverParams.isQuantity_of_isValid ho⟩, PwmParams.isQuantity_deadTime hp⟩

/-! ## Outcomes -/

theorem make_eq_ok_iff {t : Context} :
    make config board = .ok t ↔ t.config = config ∧ t.board = board := by
  constructor
  · intro h
    unfold make at h
    split at h
    · cases h
    · split at h
      · cases h
        exact ⟨rfl, rfl⟩
      · cases h
  · rintro ⟨rfl, rfl⟩
    unfold make
    split
    · rename_i e he
      rw [t.config_valid] at he
      cases he
    · exact dif_pos t.period_pos

/-- Whether a group keeps its rules. The PWM group also answers for the period of the board. -/
def accepts (config : Config) (board : Board) : ConfigError → Bool
  | .controller => config.controller.isValid
  | .motor => config.motor.isValid
  | .observer => config.observer.isValid
  | .pwm => config.pwm.isValid && decide (0 < board.pwm.period)

theorem find?_of_validate_error {e : ConfigError} (h : config.validate = .error e) :
    ConfigError.order.find? (!accepts config board ·) = some e := by
  unfold Config.validate at h
  simp only [ConfigError.order, List.find?_cons, accepts]
  cases hc : config.controller.isValid <;> cases hm : config.motor.isValid <;>
    cases ho : config.observer.isValid <;> cases hp : config.pwm.isValid <;> simp_all

theorem find?_of_validate_ok (h : config.validate = .ok ()) :
    ConfigError.order.find? (!accepts config board ·) =
      if 0 < board.pwm.period then none else some .pwm := by
  obtain ⟨hc, hm, ho, hp⟩ := Config.validate_eq_ok_iff.1 h
  simp only [ConfigError.order, List.find?_cons, accepts, hc, hm, ho, hp]
  by_cases h0 : 0 < board.pwm.period <;> simp [h0]

theorem make_eq_error_iff {e : ConfigError} :
    make config board = .error e ↔ ConfigError.order.find? (!accepts config board ·) = some e := by
  unfold make
  split
  · rename_i he
    rw [find?_of_validate_error he, Except.error.injEq, Option.some_inj]
  · rename_i hok
    rw [find?_of_validate_ok hok]
    split <;> simp

end Context

/-! ## Starts -/

namespace Spinup

/-- The start does what its configuration says. -/
structure AsConfigured (t : Spinup) (c : Config) : Prop where
  voltage : t.voltage = c.controller.spinupVoltage
  acceleration : Units.electricalOfMechanical (Units.angularVelocityOfRpm c.controller.spinupAcceleration)
    c.motor.poles = .ok t.acceleration
  targetVelocity : Units.electricalOfMechanical (Units.angularVelocityOfRpm c.controller.spinupTarget)
    c.motor.poles = .ok t.targetVelocity

theorem electricalOfMechanical_eq_ok {poles : UInt32} (h : Units.isPoleCount poles = true) (rpm : Scalar) :
    Units.electricalOfMechanical (Units.angularVelocityOfRpm rpm) poles =
      .ok (electricalVelocity rpm poles) := by
  rw [electricalVelocity, Units.electricalOfMechanical_of_isPoleCount h]
  rfl

theorem asConfigured_make (c : Context) : AsConfigured (make c) c.config := by
  obtain ⟨-, -, -, -, hp⟩ := c.start_valid
  exact ⟨voltage_make c, electricalOfMechanical_eq_ok hp _, electricalOfMechanical_eq_ok hp _⟩

end Spinup

/-! ## Admission -/

namespace Context

/-- **What a context vouches for**: it is made exactly if all groups keep their rules, and then every task can
rely on them; otherwise the error names the first group at fault. -/
theorem admission_law (config : Config) (board : Board) :
    ((∃ t, make config board = .ok t) ↔
      (config.controller.isValid = true ∧ config.motor.isValid = true ∧
        config.observer.isValid = true ∧ config.pwm.isValid = true) ∧ 0 < board.pwm.period) ∧
    (∀ e, make config board = .error e ↔
      ConfigError.order.find? (!accepts config board ·) = some e) ∧
    (∀ t, make config board = .ok t →
      (t.config = config ∧ t.board = board) ∧ config.Usable ∧ (Spinup.make t).AsConfigured config) := by
  refine ⟨⟨?_, ?_⟩, fun e => make_eq_error_iff, fun t ht => ?_⟩
  · rintro ⟨t, ht⟩
    obtain ⟨rfl, rfl⟩ := make_eq_ok_iff.1 ht
    exact ⟨Config.validate_eq_ok_iff.1 t.config_valid, t.period_pos⟩
  · rintro ⟨hv, hp⟩
    exact ⟨⟨config, board, Config.validate_eq_ok_iff.2 hv, hp⟩, make_eq_ok_iff.2 ⟨rfl, rfl⟩⟩
  · obtain ⟨rfl, rfl⟩ := make_eq_ok_iff.1 ht
    exact ⟨⟨rfl, rfl⟩, t.usable, Spinup.asConfigured_make t⟩

theorem admission_law_of_default :
    let board : Board := ⟨.ofParams {}, .current⟩
    ∃ t, make {} board = .ok t ∧ Config.Usable {} ∧ (Spinup.make t).AsConfigured {} := by
  intro board
  obtain ⟨hok, -, husable⟩ := admission_law {} board
  obtain ⟨t, ht⟩ := hok.2 ⟨Config.validate_eq_ok_iff.1 Config.validate_default, PwmTiming.period_default_pos⟩
  exact ⟨t, ht, (husable t ht).2⟩

end Context

end BrushlessDrive
