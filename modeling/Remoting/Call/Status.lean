/-! The categories of outcomes that a response states. -/

namespace Remoting

inductive ResultStatus
  | success | fail | systemError | methodNotFound | badRequest
deriving DecidableEq, Repr

namespace ResultStatus

def name : ResultStatus → String
  | success => "Success"
  | fail => "Fail"
  | systemError => "SystemError"
  | methodNotFound => "MethodNotFound"
  | badRequest => "BadRequest"

def byte : ResultStatus → UInt8
  | success => 0
  | fail => 1
  | systemError => 2
  | methodNotFound => 3
  | badRequest => 4

def ofByte? : UInt8 → Option ResultStatus
  | 0 => some success
  | 1 => some fail
  | 2 => some systemError
  | 3 => some methodNotFound
  | 4 => some badRequest
  | _ => none

@[simp] theorem ofByte?_byte (status : ResultStatus) : ofByte? status.byte = some status := by
  cases status <;> rfl

end ResultStatus

end Remoting
