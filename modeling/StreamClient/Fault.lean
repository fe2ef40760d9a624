/-! Status codes of a remote call and the fault a failed call carries. -/

namespace StreamClient

/-- Only `unavailable` means that the broker could not be reached; the other codes are answers. -/
inductive Status where
  | unavailable
  | notFound
  | alreadyExists
  | deadlineExceeded
  | failedPrecondition
  | cancelled
  | other
  deriving DecidableEq, Repr, Inhabited

namespace Status

def text : Status → String
  | unavailable => "unavailable"
  | notFound => "not found"
  | alreadyExists => "already exists"
  | deadlineExceeded => "deadline exceeded"
  | failedPrecondition => "failed precondition"
  | cancelled => "cancelled"
  | other => "other"

end Status

structure Fault where
  status : Status
  message : String
  deriving DecidableEq, Repr, Inhabited

namespace Fault

def unavailable (message : String) : Fault := ⟨.unavailable, message⟩

def notFound (message : String) : Fault := ⟨.notFound, message⟩

def isUnavailable (f : Fault) : Bool := f.status == .unavailable

def text (f : Fault) : String := "RPC failed (" ++ f.status.text ++ "): " ++ f.message

theorem isUnavailable_iff (f : Fault) : f.isUnavailable = true ↔ f.status = .unavailable := by
  simp [isUnavailable]

end Fault
end StreamClient
