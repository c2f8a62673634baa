-- SUMMARY: The module `state_audio`: the state machine that starts the codec and hands it one sample after the other.
import Mathlib.Data.Nat.Basic

/-!
# state_audio

The state register of `state_audio.sv`, clocked by `posedge Clk`, and its outputs.
-/

namespace StateAudio

inductive State where
  | HOLD
  | START
  | WRITE
  | DONE
  deriving DecidableEq, Repr

def nextState (state : State) (RUN INIT_FINISH dataOver : Bool) : State :=
  match state with
  | .HOLD => if RUN then .START else .HOLD
  | .START => if INIT_FINISH then .WRITE else .START
  | .WRITE => if dataOver then .DONE else .WRITE
  | .DONE => if !dataOver then .WRITE else .DONE

/-- The state after a `posedge Clk`. -/
def posedge (state : State) (Reset_h RUN INIT_FINISH dataOver : Bool) : State :=
  if Reset_h then .START else nextState state RUN INIT_FINISH dataOver

/-- `LDATA` and `RDATA`: the channel `c`, or nothing. -/
def data (state : State) (c : BitVec 16) : BitVec 16 :=
  match state with
  | .WRITE => c
  | _ => 0#16

end StateAudio
