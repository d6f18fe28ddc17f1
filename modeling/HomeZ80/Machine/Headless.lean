/-
Running a machine without a screen: it boots from its ROM images, runs
for a span of time and is stopped. What remains is the register file, or
the fault on which the CPU stopped before.
-/
import HomeZ80.Machine.Basic

namespace HomeZ80

namespace Headless

/-- A machine with its ROMs installed. -/
def boot (n88 : ByteArray) (nBasic : Option ByteArray) (log : Log) :
    Machine :=
  let m := (Machine.new {} log).install .n88 n88
  match nBasic with
  | some image => m.install .nBasic image
  | none => m

/-- A session of a given length. -/
def session (span : Duration) (traces : Bool) :
    Session Banked :=
  { notesFetches := traces, deadline := some span.nanos }

/-- A number of turns that no run of this length can use up. -/
def turnLimit (span : Duration) : Nat :=
  span.nanos / Session.leastTime + 2

/-- Run for a span of time. Also returns the log. -/
def run (n88 : ByteArray) (nBasic : Option ByteArray)
    (span : Duration) (traces : Bool) (log : Log) :
    Except Fault Registers × Log :=
  let w := session span traces
  let m := (boot n88 nBasic log).onBoard w.observeDeadline
  match (m.note (.runningFor span)).run (turnLimit span) w with
  | some (.ok (), _, m) =>
    (.ok m.computer.cpu.regs, m.computer.board.log)
  | some (.error fault, _, m) =>
    (.error fault, (m.note .stoppedEarly).computer.board.log)
  | none => (.ok m.computer.cpu.regs, m.computer.board.log)

/-- What is reported when the CPU stopped on a fault. -/
def complaint : String := "CPU stopped on a bus fault"

end Headless
end HomeZ80
