import Rumble.Fault

namespace Rumble

inductive Register where
  | activate
  | duration
  | state
  | effectDuration
  | effectIndex
  | effectQueue
  | effectScale
  | globalScale
  | aspEnable
  | gpioFallIndex
  | gpioFallScale
  | gpioRiseIndex
  | gpioRiseScale
  | f0
  | redc
  | q
  deriving DecidableEq, Repr, Inhabited

namespace Register

/-- Every register, in the order in which they are opened and checked. -/
def all : List Register :=
  [f0, redc, q, activate, duration, state, effectDuration, effectIndex, effectQueue, effectScale,
    globalScale, aspEnable, gpioFallIndex, gpioFallScale, gpioRiseIndex, gpioRiseScale]

/-- Every register, in the order in which configurations list them. -/
def listed : List Register :=
  [activate, duration, state, effectDuration, effectIndex, effectQueue, effectScale, globalScale,
    aspEnable, gpioFallIndex, gpioFallScale, gpioRiseIndex, gpioRiseScale, f0, redc, q]

def name : Register → String
  | activate => "activate"
  | duration => "duration"
  | state => "state"
  | effectDuration => "effect_duration"
  | effectIndex => "effect_index"
  | effectQueue => "effect_queue"
  | effectScale => "effect_scale"
  | globalScale => "global_scale"
  | aspEnable => "asp_enable"
  | gpioFallIndex => "gpio_fall_index"
  | gpioFallScale => "gpio_fall_scale"
  | gpioRiseIndex => "gpio_rise_index"
  | gpioRiseScale => "gpio_rise_scale"
  | f0 => "f0"
  | redc => "redc"
  | q => "q"

def ofName? (s : String) : Option Register := listed.find? (·.name = s)

def defaultPath : Register → String
  | activate => "/sys/class/leds/vibrator/activate"
  | duration => "/sys/class/leds/vibrator/duration"
  | state => "/sys/class/leds/vibrator/state"
  | effectDuration => "/sys/class/leds/vibrator/device/cp_trigger_duration"
  | effectIndex => "/sys/class/leds/vibrator/device/cp_trigger_index"
  | effectQueue => "/sys/class/leds/vibrator/device/cp_trigger_queue"
  | effectScale => "/sys/class/leds/vibrator/device/cp_dig_scale"
  | globalScale => "/sys/class/leds/vibrator/device/dig_scale"
  | aspEnable => "/sys/class/leds/vibrator/device/asp_enable"
  | gpioFallIndex => "/sys/class/leds/vibrator/device/gpio1_fall_index"
  | gpioFallScale => "/sys/class/leds/vibrator/device/gpio1_fall_dig_scale"
  | gpioRiseIndex => "/sys/class/leds/vibrator/device/gpio1_rise_index"
  | gpioRiseScale => "/sys/class/leds/vibrator/device/gpio1_rise_dig_scale"
  | f0 => "/sys/class/leds/vibrator/device/f0_stored"
  | redc => "/sys/class/leds/vibrator/device/redc_stored"
  | q => "/sys/class/leds/vibrator/device/q_stored"

def pathVariable : Register → String
  | activate => "ACTIVATE_PATH"
  | duration => "DURATION_PATH"
  | state => "STATE_PATH"
  | effectDuration => "EFFECT_DURATION_PATH"
  | effectIndex => "EFFECT_INDEX_PATH"
  | effectQueue => "EFFECT_QUEUE_PATH"
  | effectScale => "EFFECT_SCALE_PATH"
  | globalScale => "GLOBAL_SCALE_PATH"
  | aspEnable => "ASP_ENABLE_PATH"
  | gpioFallIndex => "GPIO_FALL_INDEX"
  | gpioFallScale => "GPIO_FALL_SCALE"
  | gpioRiseIndex => "GPIO_RISE_INDEX"
  | gpioRiseScale => "GPIO_RISE_SCALE"
  | f0 => "F0_FILEPATH"
  | redc => "REDC_FILEPATH"
  | q => "Q_FILEPATH"

theorem mem_all (r : Register) : r ∈ all := by cases r <;> decide

theorem mem_listed (r : Register) : r ∈ listed := by cases r <;> decide

theorem ofName?_name (r : Register) : ofName? r.name = some r := by cases r <;> decide

end Register

inductive ChannelError where
  /-- The register was not there when the registers were opened. -/
  | unavailable (r : Register)
  | io (r : Register) (fault : Fault)
  /-- What was read is no number. -/
  | parse (r : Register)
  deriving DecidableEq, Repr

def ChannelError.message : ChannelError → String
  | unavailable r => r.name ++ ": channel unavailable"
  | io r fault => r.name ++ ": I/O error (" ++ fault.text ++ ")"
  | parse r => r.name ++ ": unparsable value"

end Rumble
