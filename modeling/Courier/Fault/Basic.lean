import Courier.Fault.Kind
import Courier.Fault.SystemMessage

/-!
# Faults

A fault is a failed call on a stream or a file: of a bare kind, with the number the operating
system gave, or with words of its own.
-/

namespace Courier

inductive Fault where
  | bare (kind : FaultKind)
  | system (number : Int)
  | described (kind : FaultKind) (text : String)
deriving DecidableEq, Repr, Inhabited

namespace Fault

def kind : Fault → FaultKind
  | bare kind => kind
  | system number => FaultKind.ofNumber number
  | described kind _ => kind

def text : Fault → String
  | bare kind => kind.text
  | system number => s!"{SystemMessage.text number} (os error {number})"
  | described _ text => text

/-- A call that was interrupted is made again and never counts as failed. -/
def isInterruption (f : Fault) : Bool :=
  f.kind = .interrupted

/-! ## The numbers that file operations and connections give -/

def noEntry : Fault := system 2
def alreadyThere : Fault := system 17
def notADirectory : Fault := system 20
def isADirectory : Fault := system 21
def busy : Fault := system 16
def tooLarge : Fault := system 27
def nameTooLong : Fault := system 36
def directoryNotEmpty : Fault := system 39
def tooManyLinks : Fault := system 40
def addressInUse : Fault := system 98
def addressNotAvailable : Fault := system 99
def connectionRefused : Fault := system 111

/-! ## Faults that are found before or after the call itself -/

def strayNul : Fault :=
  described .invalidInput "file name contained an unexpected NUL byte"

def notText : Fault :=
  described .invalidData "stream did not contain valid UTF-8"

def shortWrite : Fault :=
  described .writeZero "failed to write whole buffer"

end Fault

end Courier
