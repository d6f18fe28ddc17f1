/-
The tags under which devices are registered. Devices find each other
through them when they are attached, so the order of registration does
not matter.
-/
namespace HomeZ80

/-- The place a device has in the machine. -/
inductive DeviceKey where
  /-- The lines into the CPU. -/
  | lines
  /-- The interrupt controller. -/
  | controller
  /-- The tick source of the vertical retrace. -/
  | retraceTimer
  /-- The tick source of the real-time clock. -/
  | clockTimer
  deriving DecidableEq, Repr, Inhabited

/-- The name of a place, as messages show it. -/
def DeviceKey.name : DeviceKey → String
  | .lines => "CpuSignals"
  | .controller => "InterruptController"
  | .retraceTimer => "VrtcTimer"
  | .clockTimer => "RtcTimer"

end HomeZ80
