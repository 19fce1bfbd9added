import BrushlessDrive.Board

/-!
# Task contexts

A task reads its parameters from a `Context`, which is fixed when the task is made. `Context.make`
is the only way to one: it accepts a valid configuration and a board whose PWM period is above
zero, and a context carries the proof of both.
-/

set_option autoImplicit false

namespace BrushlessDrive

/-- An accepted configuration together with the board that it is for. -/
structure Context where
  config : Config
  board : Board
  config_valid : config.validate = .ok ()
  period_pos : 0 < board.pwm.period

namespace Context

/-- Two contexts are equal when all their parameters are; a parameter that is no number is not
equal to itself. -/
instance : BEq Context := ⟨fun x y => x.config == y.config && x.board == y.board⟩

/-- The context of a configuration and a board, or the parameter group to blame. A board without a
PWM period counts as a fault of the PWM group. -/
def make (config : Config) (board : Board) : Except ConfigError Context :=
  match h : config.validate with
  | .error e => .error e
  | .ok () =>
    if hp : 0 < board.pwm.period then .ok ⟨config, board, h, hp⟩ else .error .pwm

def ofDefaults : Context :=
  ⟨{}, ⟨.ofParams {}, .current⟩, Config.validate_default, PwmTiming.period_default_pos⟩

end Context

end BrushlessDrive
