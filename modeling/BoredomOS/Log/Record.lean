/-
What travels on `sdWriteQueue`: `SdRecord` of `src/include/SdRecord.h`, and the tasks that post
one: `TaskLogger` (`src/logger.cpp`), `logBattery` and `logClock` (`src/mavlink.cpp`).
-/
import Mathlib.Logic.Basic

namespace BoredomOS.Log

/-- Seven stack marks, in the order the labels of `SYS` declare them. -/
structure SdSysPayload where
  timeUs : UInt64
  heapFree : UInt16
  «stacks» : Vector UInt16 7
  deriving DecidableEq, Repr

structure SdPwrPayload where
  timeUs : UInt64
  millivolts : UInt16
  remaining : Int8
  deriving DecidableEq

structure SdTimePayload where
  timeUs : UInt64
  unixtime : UInt32
  source : UInt8
  deriving DecidableEq, Repr

/-- A request of the log protocol, with the port it arrived on and the answer leaves by. -/
structure SdLogRequestPayload where
  ofs : UInt32
  count : UInt32
  start : UInt16
  «end» : UInt16
  port : UInt8
  deriving DecidableEq, Repr

inductive SdRecord
  | sys (p : SdSysPayload)
  | pwr (p : SdPwrPayload)
  | time (p : SdTimePayload)
  | logList (p : SdLogRequestPayload)
  | logRead (p : SdLogRequestPayload)
  | logEnd (p : SdLogRequestPayload)
  deriving DecidableEq

/-- One of the three kinds that are not log records. -/
def SdRecord.isRequest : SdRecord → Bool
  | .logList _ | .logRead _ | .logEnd _ => true
  | .sys _ | .pwr _ | .time _ => false

inductive LogRequestKind
  | logList | logRead | logEnd
  deriving DecidableEq, Repr

def LogRequestKind.record (p : SdLogRequestPayload) : LogRequestKind → SdRecord
  | .logList => .logList p
  | .logRead => .logRead p
  | .logEnd => .logEnd p

/-- The record one pass of `TaskLogger` posts. -/
def taskLogger (sinceBootUsec : UInt64) (freeHeapSize : UInt16) (stackMarks : Vector UInt16 7) : SdRecord :=
  .sys { timeUs := sinceBootUsec, heapFree := freeHeapSize, «stacks» := stackMarks }

/-- The record `logBattery` posts: none with no consumer, and none before the ADC has been read. -/
def logBattery (taskSdWriteHandler : Bool) (millivolts : UInt16) (sinceBootUsec : UInt64) (remaining : Int8) :
    Option SdRecord :=
  if !taskSdWriteHandler then none
  else if millivolts = 0 then none
  else some (.pwr { timeUs := sinceBootUsec, millivolts, remaining })

def logClock (taskSdWriteHandler : Bool) (sinceBootUsec unixTime : UInt64) (source : UInt8) : Option SdRecord :=
  if !taskSdWriteHandler then none
  else some (.time { timeUs := sinceBootUsec, unixtime := unixTime.toUInt32, source })

theorem isRequest_record (k : LogRequestKind) (p : SdLogRequestPayload) : (k.record p).isRequest = true := by
  cases k <;> rfl

end BoredomOS.Log
