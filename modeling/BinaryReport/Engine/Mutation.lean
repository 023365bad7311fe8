import BinaryReport.Engine
import BinaryReport.Report.Basic

/-!
# Changes to a program

Renaming a symbol and retyping data, by text. A change that cannot be made leaves the engine as it
was and says why. Something is raised only where there is no text to say it with.
-/

namespace BinaryReport

/-- What an address text comes to. -/
inductive AddressReading where
  /-- An address. -/
  | address (a : Address)
  /-- No address; the message says why. -/
  | unreadable (message : String)
deriving DecidableEq

/-- Why a change is not made. -/
inductive ChangeProblem where
  /-- The text denotes no address; the message says why. -/
  | unreadable (message : String)
  /-- There is no symbol at the address. -/
  | noSymbol
  /-- There is no data at the address. -/
  | noData
  /-- Something was raised. -/
  | raised (r : Raised)

/-- What is said about a change that is not made. -/
def ChangeProblem.message : ChangeProblem → Except Raised String
  | .unreadable message => .ok message
  | .noSymbol => .ok "No symbol found at address"
  | .noData => .ok "No data at address"
  | .raised r => r.message

namespace Engine

/-- Reads an address. Text that denotes none is not raised. -/
def readAddress (e : Engine) (text : String) : Except Raised AddressReading :=
  match e.parseAddress text with
  | .ok a => .ok (.address a)
  | .error (.failure f) =>
    if f.kind = .addressParse then .ok (.unreadable f.message) else .error (.failure f)
  | .error r => .error r

/-- The address of a text. -/
def addressOf (e : Engine) (text : String) : Except ChangeProblem Address :=
  match e.readAddress text with
  | .ok (.address a) => .ok a
  | .ok (.unreadable message) => .error (.unreadable message)
  | .error r => .error (.raised r)

/-- The outcome of a change that was tried: the new engine and what is said. -/
def conclude (e : Engine) (done : String) :
    Except ChangeProblem Engine → Engine × Except Raised MutationResult
  | .ok e' => (e', .ok ⟨true, done⟩)
  | .error p => (e, p.message.map fun message => ⟨false, message⟩)

/-! ## Renaming -/

/-- Tries to name the first symbol at an address. -/
def tryRename (e : Engine) (address name : String) : Except ChangeProblem Engine :=
  match e.addressOf address with
  | .error p => .error p
  | .ok a =>
    match e.symbolsAt a with
    | .error r => .error (.raised r)
    | .ok [] => .error .noSymbol
    | .ok (_ :: _) =>
      (e.setName (e.program.symbols.findIdx (Program.isBoundAt a)) name .userDefined).mapError
        .raised

/-- Names the first symbol at an address, as a name given by the user. -/
def renameSymbol (e : Engine) (address name : String) : Engine × Except Raised MutationResult :=
  e.conclude ("Renamed to " ++ name) (e.tryRename address name)

/-! ## Retyping -/

/-- Tries to give the data at an address another type. -/
def tryRetype (e : Engine) (address type : String) : Except ChangeProblem Engine :=
  match e.addressOf address with
  | .error p => .error p
  | .ok a =>
    match e.dataAt a with
    | .error r => .error (.raised r)
    | .ok none => .error .noData
    | .ok (some _) =>
      match e.parseType type with
      | .error r => .error (.raised r)
      | .ok t => (e.placeData a t).mapError .raised

/-- Gives the data at an address another type. Where there is no data nothing is placed. -/
def retypeData (e : Engine) (address type : String) : Engine × Except Raised MutationResult :=
  e.conclude ("Set type to " ++ type) (e.tryRetype address type)

end Engine

end BinaryReport
