/-
What travels on a port's write queue: `LinkMsg` of `src/include/LinkMsg.h`, what a producer meant
before anything is packed. A message of `TaskSdWrite` is one of two kinds.
-/
import BoredomOS.Log.Download

namespace BoredomOS.Link

structure SystemTime where
  unixUsec : UInt64
  bootMs : UInt32
  deriving DecidableEq, Repr

structure Battery where
  millivolts : UInt16
  remaining : Int8
  deriving DecidableEq

structure Timesync where
  tc1 : Int64
  ts1 : Int64
  targetSystem : UInt8
  targetComponent : UInt8
  deriving DecidableEq

structure StatusText where
  severity : UInt8
  text : Vector UInt8 50
  deriving DecidableEq, Repr

structure CommandAck where
  command : UInt16
  result : UInt8
  deriving DecidableEq, Repr

/-- The name is the ten bytes of the table the pointer names. -/
structure NamedValueInt where
  name : Vector UInt8 10
  value : Int32
  deriving DecidableEq

structure SysStatus where
  sensors : UInt32
  voltageMv : UInt16
  batteryRemaining : Int8
  errorsComm : UInt16
  errorsCount1 : UInt16
  deriving DecidableEq

structure MessageInterval where
  intervalUs : Int32
  messageId : UInt16
  deriving DecidableEq

structure MissionCount where
  targetSystem : UInt8
  targetComponent : UInt8
  missionType : UInt8
  deriving DecidableEq, Repr

inductive LinkMsg
  | heartbeat
  | systemTime (m : SystemTime)
  | batteryStatus (m : Battery)
  | timesyncReply (m : Timesync)
  | statusText (m : StatusText)
  | commandAck (m : CommandAck)
  | namedValueInt (m : NamedValueInt)
  | autopilotVersion
  | sysStatus (m : SysStatus)
  | messageInterval (m : MessageInterval)
  | missionCount (m : MissionCount)
  | protocolVersion
  | logEntry (m : Log.LogEntry)
  | logData (m : Log.LogData)
  deriving DecidableEq

/-- `uartWriteQueue` and `usbWriteQueue` -/
def writeQueueDepth : Nat := 9

/-- A message of the log protocol, among the others. -/
def LinkMsg.ofLog : Log.LinkMsg → LinkMsg
  | .logEntry m => .logEntry m
  | .logData m => .logData m

end BoredomOS.Link
