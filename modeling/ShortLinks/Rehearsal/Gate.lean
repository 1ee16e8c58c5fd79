/-!
# The gate

Where deletion calls can be held up. A call passes when the gate is open or has a
permit left, in the order in which the calls came. Crashes can be ordered for the
calls that pass next.
-/

namespace ShortLinks.Rehearsal

set_option autoImplicit false

structure Caller where
  crew : Nat
  worker : Nat
  deriving DecidableEq, Repr

structure Gate where
  closed : Bool
  permits : Nat
  line : List Caller
  begun : Nat
  ended : Nat
  crashes : Nat
  deriving DecidableEq, Repr

namespace Gate

def wideOpen : Gate := ⟨false, 0, [], 0, 0, 0⟩

def close (gate : Gate) : Gate := { gate with closed := true, permits := 0 }

/-- Lets so many calls through, or all from now on. -/
def letThrough (gate : Gate) : Option Nat → Gate
  | some permits => { gate with permits := gate.permits + permits }
  | none => { gate with closed := false, permits := 0 }

def orderCrash (gate : Gate) : Gate := { gate with crashes := gate.crashes + 1 }

def arrive (gate : Gate) (caller : Caller) : Gate :=
  { gate with line := gate.line ++ [caller], begun := gate.begun + 1 }

/-- The call that passes next, whether it crashes, and the gate behind it. -/
def pass? (gate : Gate) : Option (Caller × Bool × Gate) :=
  match gate.line with
  | [] => none
  | caller :: behind =>
      if gate.closed && gate.permits == 0 then none
      else
        some (caller, 0 < gate.crashes,
          { gate with
            line := behind
            permits := if gate.closed then gate.permits - 1 else gate.permits
            crashes := gate.crashes - 1 })

def leave (gate : Gate) : Gate := { gate with ended := gate.ended + 1 }

end Gate

end ShortLinks.Rehearsal
