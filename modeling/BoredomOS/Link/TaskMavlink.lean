/-
`TaskMavlink` of `src/mavlink.cpp`: the periodic messages of two ports, the answers to what arrives
on them, the reconciliation of the two clocks and the log records of this task. A pass is given what
it finds outside: the tick counts it looks at, the message it receives, and for every step that reads
a clock, a sensor or a queue what that step sees, whatever the other tasks did since the one before.
-/
import BoredomOS.Clock.Ladder
import BoredomOS.Link.Schedule
import BoredomOS.Link.WriteQueue
import BoredomOS.Log.Queue

namespace BoredomOS.Link

open Steps
open Clock (Meanwhile Source)
open Log (LogRequestKind SdLogRequestPayload SdRecord SdWriteQueue ascii)

/-! ## What is outside -/

/-- The tasks housekeeping can report, in the order of `kHousekeepingTasks`. -/
inductive HousekeepingTask
  | uartRead | uartWrite | usbRead | usbWrite | mavlink | logger | sdWrite
  deriving DecidableEq, Repr

/-- What one step finds: the sensors, and what became of the clocks and the queues since the last. -/
structure Readings where
  tickCount : UInt32
  meanwhile : Meanwhile
  millivolts : UInt16
  remaining : Int8
  rxDropCount : UInt16
  freeHeapSize : UInt32
  minimumEverFreeHeapSize : UInt32
  stackHighWaterMark : HousekeepingTask → UInt32
  writeQueue : List LinkMsg → List LinkMsg
  sdWriteQueue : SdWriteQueue → SdWriteQueue

structure CommandLong where
  command : UInt16
  param1 : Param
  param2 : Param

structure LogRequestList where
  start : UInt16
  «end» : UInt16

structure LogRequestData where
  ofs : UInt32
  count : UInt32
  id : UInt16

/-- A `mavlink_message_t`: its header, and what each decoder of the library reads from its payload. -/
structure MavlinkMessage where
  msgid : UInt32
  sysid : UInt8
  compid : UInt8
  commandLong : CommandLong
  missionRequestListType : UInt8
  logRequestList : LogRequestList
  logRequestData : LogRequestData
  systemTimeUnixUsec : UInt64
  timesync : Timesync

structure InboundMsg where
  msg : MavlinkMessage
  chan : Fin 2

/-- What a pass finds outside; the tick counts are milliseconds since the reset. The steps of the
reconciliation and of the dispatch are numbered, those of the firing loop named by port and row. -/
structure Pass where
  started : Nat
  reconcile : Nat → Readings
  battery : Readings
  received : Option InboundMsg
  dispatch : Nat → Readings
  resumed : Nat
  fire : Fin 2 → Fin 5 → Readings
  ended : Nat

/-- `xTaskGetTickCount() * portTICK_PERIOD_MS`, at a tick of one millisecond. -/
def tickMs (ms : Nat) : UInt32 := UInt32.ofNat ms

/-! ## The task -/

/-- What the task holds and what it works on. Kept for the record and never read: what it offered to
the write queues and to `sdWriteQueue`, refused or not, and the last wait it passed to `xQueueReceive`. -/
structure TaskMavlink where
  schedule : Fin 2 → Schedule
  housekeepingCursor : Fin 2 → Fin 9 := fun _ => 0
  outbound : Fin 2 → Outbound := fun _ => {}
  systemTime : Clock.SystemTime
  sdWriteQueue : SdWriteQueue := []
  lastReseedMs : UInt32
  lastBatteryLogMs : UInt32
  sdCardAvailable : Bool
  handles : HousekeepingTask → Bool
  bootMs : Nat
  running : Recovery.Running
  regs : Recovery.Regs
  offered : List (Fin 2 × LinkMsg) := []
  recorded : List SdRecord := []
  waited : Option UInt32 := none

namespace TaskMavlink

variable (s : TaskMavlink)

def reducedConfiguration : Bool := s.running.info.reducedConfiguration

/-- A call on the clock, with what happens around its steps. -/
def clock {α : Type} (call : Prog Clock.SystemTime α) (r : Readings) : α × TaskMavlink :=
  let o := call.runWith r.meanwhile.move 0 s.systemTime
  (o.1, { s with systemTime := o.2.2 })

/-! ### Sending -/

def enqueueWrite (port : Fin 2) (intent : LinkMsg) (r : Readings) : TaskMavlink :=
  let found : Outbound := { s.outbound port with writeQueue := r.writeQueue (s.outbound port).writeQueue }
  { s with
    outbound := Function.update s.outbound port (found.enqueueWrite intent)
    offered := s.offered ++ [(port, intent)] }

def sendHeartbeat (port : Fin 2) (r : Readings) : TaskMavlink := s.enqueueWrite port .heartbeat r

def sendSystemTime (port : Fin 2) (r : Readings) : TaskMavlink :=
  let (unixUsec, s) := if s.systemTime.source = .none then (0, s) else s.clock Clock.getUnixTimeUsec r
  s.enqueueWrite port (.systemTime { unixUsec := UInt64.ofNat unixUsec, bootMs := r.tickCount }) r

def sendStatusText (port : Fin 2) (text : List UInt8) (severity : UInt8) (r : Readings) : TaskMavlink :=
  s.enqueueWrite port (Link.sendStatusText text severity) r

def sendBootStatement (port : Fin 2) (r : Readings) : TaskMavlink :=
  s.enqueueWrite port (Link.sendBootStatement s.running.info) r

def sendCommandAck (port : Fin 2) (command : UInt16) (result : UInt8) (r : Readings) : TaskMavlink :=
  s.enqueueWrite port (.commandAck { command, result }) r

def sendAutopilotVersion (port : Fin 2) (r : Readings) : TaskMavlink := s.enqueueWrite port .autopilotVersion r

def sendProtocolVersion (port : Fin 2) (r : Readings) : TaskMavlink := s.enqueueWrite port .protocolVersion r

def sendMessageInterval (port : Fin 2) (messageId : UInt16) (intervalUs : Int32) (r : Readings) : TaskMavlink :=
  s.enqueueWrite port (.messageInterval { messageId, intervalUs }) r

def sendMissionCount (port : Fin 2) (targetSystem targetComponent missionType : UInt8) (r : Readings) : TaskMavlink :=
  s.enqueueWrite port (.missionCount { targetSystem, targetComponent, missionType }) r

def sendNoLogs (port : Fin 2) (r : Readings) : TaskMavlink :=
  s.enqueueWrite port (.logEntry { timeUtc := 0, size := 0, id := 0, numLogs := 0, lastLogNum := 0 }) r

def sendNoLogData (port : Fin 2) (id : UInt16) (ofs : UInt32) (r : Readings) : TaskMavlink :=
  s.enqueueWrite port (.logData { ofs, id, count := 0, data := Vector.replicate 90 0 }) r

def sendBatteryStatus (port : Fin 2) (r : Readings) : TaskMavlink :=
  s.enqueueWrite port (.batteryStatus { millivolts := r.millivolts, remaining := r.remaining }) r

def sendSysStatus (port : Fin 2) (r : Readings) : TaskMavlink :=
  let readings : SysReadings :=
    { sdCardAvailable := s.sdCardAvailable, reducedConfiguration := s.reducedConfiguration
      millivolts := r.millivolts, remaining := r.remaining, rxDropCount := r.rxDropCount }
  s.enqueueWrite port (.sysStatus ((s.outbound port).sysStatus readings)) r

/-! ### Housekeeping -/

def kHousekeepingTasks : Fin 7 → HousekeepingTask × List UInt8 :=
  ![(.uartRead, ascii "UartRead"), (.uartWrite, ascii "UartWrite"), (.usbRead, ascii "UsbRead"),
    (.usbWrite, ascii "UsbWrite"), (.mavlink, ascii "Mavlink"), (.logger, ascii "Logger"), (.sdWrite, ascii "SdWrite")]

/-- One position of the cycle: the two heap values, then the tasks. -/
def housekeepingValue (slot : Fin 9) (handles : HousekeepingTask → Bool) (r : Readings) : Option (List UInt8 × UInt32) :=
  Fin.cases (some (ascii "HeapFree", r.freeHeapSize)) (fun slot : Fin 8 =>
    Fin.cases (some (ascii "HeapMin", r.minimumEverFreeHeapSize)) (fun slot : Fin 7 =>
      let (task, name) := kHousekeepingTasks slot
      if handles task then some (name, r.stackHighWaterMark task) else none) slot) slot

/-- The tries left. A task that does not exist is skipped, the cursor going on. -/
def nextHousekeepingValueIn (port : Fin 2) (r : Readings) :
    Nat → TaskMavlink → Option (List UInt8 × UInt32) × TaskMavlink
  | 0, s => (none, s)
  | tries + 1, s =>
    let slot := s.housekeepingCursor port
    let s := { s with housekeepingCursor := Function.update s.housekeepingCursor port (finRotate 9 slot) }
    match housekeepingValue slot s.handles r with
    | some value => (some value, s)
    | none => nextHousekeepingValueIn port r tries s

def nextHousekeepingValue (port : Fin 2) (r : Readings) : Option (List UInt8 × UInt32) × TaskMavlink :=
  nextHousekeepingValueIn port r 9 s

def sendHousekeeping (port : Fin 2) (r : Readings) : TaskMavlink :=
  match s.nextHousekeepingValue port r with
  | (some (name, value), s) =>
    s.enqueueWrite port (.namedValueInt { name := Log.chars 10 name, value := value.toInt32 }) r
  | (none, s) => s

/-- What a row or an entry of `kMessages` points to. -/
def call (function : SendFunction) (port : Fin 2) (r : Readings) : TaskMavlink :=
  match function with
  | .sendHeartbeat => s.sendHeartbeat port r
  | .sendSystemTime => s.sendSystemTime port r
  | .sendBatteryStatus => s.sendBatteryStatus port r
  | .sendHousekeeping => s.sendHousekeeping port r
  | .sendSysStatus => s.sendSysStatus port r
  | .sendAutopilotVersion => s.sendAutopilotVersion port r
  | .sendProtocolVersion => s.sendProtocolVersion port r
  | .sendBootStatement => s.sendBootStatement port r

/-! ### The clock's origin and the log -/

def clockSourceText : Source → List UInt8
  | .ground => ascii "ground"
  | .ds1307 => ascii "ds1307"
  | .survived => ascii "survived"
  | .none => ascii "none"

/-- In a `char[50]`. -/
def clockStatusText (source : Source) (foundRunning : Bool) : List UInt8 :=
  let text := strncat [] (ascii "Clock: ") 49
  let text := strncat text (clockSourceText source) (49 - text.length)
  strncat text (if foundRunning then ascii ", found live" else ascii ", found none") (49 - text.length)

/-- `MAV_SEVERITY_INFO` -/
def severityInfo : UInt8 := 6

/-- `MAV_SEVERITY_WARNING` -/
def severityWarning : UInt8 := 4

def sendClockStatusText (r : Nat → Readings) : TaskMavlink :=
  let text := clockStatusText s.systemTime.source s.systemTime.foundRunning
  (s.sendStatusText linkChanUart text severityInfo (r 1)).sendStatusText linkChanUsb text severityInfo (r 2)

/-- A record of this task for `sdWriteQueue`, if there is one. -/
def record (record : Option SdRecord) (r : Readings) : TaskMavlink :=
  match record with
  | some record => { s with
      sdWriteQueue := (Log.xQueueSend (r.sdWriteQueue s.sdWriteQueue) record).2
      recorded := s.recorded ++ [record] }
  | none => s

def logBattery (r : Readings) : TaskMavlink :=
  if !s.handles .sdWrite || r.millivolts = 0 then s
  else
    let (sinceBootUsec, s) := s.clock Clock.sinceBootUsec r
    s.record (Log.logBattery true r.millivolts (UInt64.ofNat sinceBootUsec) r.remaining) r

def logClock (r : Nat → Readings) : TaskMavlink :=
  if !s.handles .sdWrite then s
  else
    let (sinceBootUsec, s) := s.clock Clock.sinceBootUsec (r 3)
    let (unixTime, s) := s.clock Clock.getUnixTime (r 4)
    let source := UInt8.ofNat s.systemTime.source.rank
    s.record (Log.logClock true (UInt64.ofNat sinceBootUsec) (UInt64.ofNat unixTime) source) (r 4)

def forwardLogRequest (kind : LogRequestKind) (port : Fin 2) (start «end» : UInt16) (ofs count : UInt32) (r : Readings) :
    TaskMavlink :=
  let request : SdLogRequestPayload := { ofs, count, start, «end», port := UInt8.ofNat port }
  let found := r.sdWriteQueue s.sdWriteQueue
  { s with
    sdWriteQueue := Log.forwardLogRequest kind request found
    recorded := if Log.uxQueueSpacesAvailable found < 2 then s.recorded else s.recorded ++ [kind.record request] }

/-! ### A command -/

/-- `MAV_RESULT_ACCEPTED` and the others of its enumeration. -/
def resultAccepted : UInt8 := 0
def resultTemporarilyRejected : UInt8 := 1
def resultDenied : UInt8 := 2
def resultUnsupported : UInt8 := 3

def cmdPreflightRebootShutdown : UInt16 := 246
def cmdGetMessageInterval : UInt16 := 510
def cmdSetMessageInterval : UInt16 := 511
def cmdRequestMessage : UInt16 := 512
def cmdRequestAutopilotCapabilities : UInt16 := 520

/-- `MAVLINK_MSG_ID_NAMED_VALUE_INT` -/
def msgIdNamedValueInt : UInt16 := 252

def setRow (port : Fin 2) (row : Fin 5) (entry : ScheduleEntry) : TaskMavlink :=
  { s with schedule := Function.update s.schedule port (Function.update (s.schedule port) row entry) }

/-- Up to the `NVIC_SystemReset()` behind the acknowledgement. -/
def preflightRebootShutdown (port : Fin 2) (r : Nat → Readings) : TaskMavlink :=
  let s := s.sendCommandAck port cmdPreflightRebootShutdown resultAccepted (r 0)
  { s with
    regs := (Recovery.rebootCommand.run s.regs).2
    running := { s.running with resetting := some .commanded } }

/-- `now` is the tick count this pass began with. -/
def setMessageInterval (c : Conversion) (now : UInt32) (port : Fin 2) (command : CommandLong) (r : Nat → Readings) :
    TaskMavlink :=
  if c.toUInt16 command.param1 = msgIdNamedValueInt then
    let housekeeping := s.schedule port kHousekeepingScheduleIndex
    let requestedUs := c.toInt32 command.param2
    if requestedUs ≤ 0 then
      let s := s.setRow port kHousekeepingScheduleIndex { housekeeping with enabled := false }
      s.sendCommandAck port cmdSetMessageInterval resultAccepted (r 0)
    else
      let requestedMs := requestedUs.toUInt32 / 1000
      if requestedMs < 1000 then s.sendCommandAck port cmdSetMessageInterval resultDenied (r 0)
      else
        let s := s.setRow port kHousekeepingScheduleIndex
          { housekeeping with intervalMs := requestedMs, lastMs := now, enabled := true }
        s.sendCommandAck port cmdSetMessageInterval resultAccepted (r 0)
  else s.sendCommandAck port cmdSetMessageInterval resultDenied (r 0)

def requestMessage (c : Conversion) (port : Fin 2) (command : CommandLong) (r : Nat → Readings) : TaskMavlink :=
  match (messageIdFromParam c command.param1).bind findMessage with
  | none => s.sendCommandAck port cmdRequestMessage resultDenied (r 0)
  | some entry => match entry.send with
    | none => s.sendCommandAck port cmdRequestMessage resultDenied (r 0)
    | some send =>
      if entry.scheduleRow.any fun row => !(s.schedule port row).enabled then
        s.sendCommandAck port cmdRequestMessage resultTemporarilyRejected (r 0)
      else (s.sendCommandAck port cmdRequestMessage resultAccepted (r 0)).call send port (r 1)

/-- What `MESSAGE_INTERVAL` carries for an id: 0 for an unknown message, -1 for one that is off. -/
def intervalUs (port : Fin 2) (id : UInt16) : Int32 :=
  match findMessage id with
  | none => 0
  | some entry => match entry.scheduleRow with
    | none => -1
    | some row =>
      if (s.schedule port row).enabled then ((s.schedule port row).intervalMs * 1000).toInt32 else -1

def getMessageInterval (c : Conversion) (port : Fin 2) (command : CommandLong) (r : Nat → Readings) : TaskMavlink :=
  match messageIdFromParam c command.param1 with
  | none => s.sendCommandAck port cmdGetMessageInterval resultDenied (r 0)
  | some id =>
    let s := s.sendCommandAck port cmdGetMessageInterval resultAccepted (r 0)
    s.sendMessageInterval port id (s.intervalUs port id) (r 1)

def commandLong (c : Conversion) (now : UInt32) (port : Fin 2) (command : CommandLong) (r : Nat → Readings) : TaskMavlink :=
  if command.command = cmdRequestAutopilotCapabilities then
    (s.sendAutopilotVersion port (r 0)).sendCommandAck port command.command resultAccepted (r 1)
  else if command.command = cmdPreflightRebootShutdown then s.preflightRebootShutdown port r
  else if command.command = cmdSetMessageInterval then s.setMessageInterval c now port command r
  else if command.command = cmdRequestMessage then s.requestMessage c port command r
  else if command.command = cmdGetMessageInterval then s.getMessageInterval c port command r
  else s.sendCommandAck port command.command resultUnsupported (r 0)

/-! ### A message -/

def msgIdHeartbeat : UInt32 := 0
def msgIdSystemTime : UInt32 := 2
def msgIdParamRequestList : UInt32 := 21
def msgIdMissionRequestList : UInt32 := 43
def msgIdRequestDataStream : UInt32 := 66
def msgIdCommandLong : UInt32 := 76
def msgIdFileTransferProtocol : UInt32 := 110
def msgIdTimesync : UInt32 := 111
def msgIdLogRequestList : UInt32 := 117
def msgIdLogRequestData : UInt32 := 119
def msgIdLogErase : UInt32 := 121
def msgIdLogRequestEnd : UInt32 := 122

/-- The messages that are recognised and left alone. -/
def ignored : List UInt32 :=
  [msgIdHeartbeat, msgIdParamRequestList, msgIdRequestDataStream, msgIdLogErase, msgIdFileTransferProtocol]

/-- The `SYSTEM_TIME` of a ground station; `time_unix_usec / USEC_PER_SEC` is a `time_t`. -/
def onSystemTime (unixUsec : UInt64) (r : Nat → Readings) : TaskMavlink :=
  let unixTime : Int := (unixUsec / 1000000).toNat
  let before := s.systemTime.source
  let ((accepted, clockMoved), s) := s.clock (Clock.setUnixTime unixTime .ground) (r 0)
  if accepted then
    let s := if clockMoved || s.systemTime.source ≠ before then s.logClock r else s
    if s.systemTime.source ≠ before then s.sendClockStatusText r else s
  else s

def onTimesync (port : Fin 2) (timesync : Timesync) (r : Nat → Readings) : TaskMavlink :=
  if timesync.tc1 = 0 then
    let (sinceBootUsec, s) := s.clock Clock.sinceBootUsec (r 0)
    let sinceBootNsec := (UInt64.ofNat sinceBootUsec * 1000).toInt64
    s.enqueueWrite port (.timesyncReply { timesync with tc1 := sinceBootNsec }) (r 1)
  else s

/-- The `switch` on a received message. -/
def dispatch (c : Conversion) (now : UInt32) (inbound : InboundMsg) (r : Nat → Readings) : TaskMavlink :=
  let msg := inbound.msg
  let port := inbound.chan
  if msg.msgid ∈ ignored then s
  else if msg.msgid = msgIdCommandLong then s.commandLong c now port msg.commandLong r
  else if msg.msgid = msgIdMissionRequestList then
    s.sendMissionCount port msg.sysid msg.compid msg.missionRequestListType (r 0)
  else if msg.msgid = msgIdLogRequestList then
    let request := msg.logRequestList
    if !s.handles .sdWrite then s.sendNoLogs port (r 0)
    else s.forwardLogRequest .logList port request.start request.end 0 0 (r 0)
  else if msg.msgid = msgIdLogRequestData then
    let request := msg.logRequestData
    if !s.handles .sdWrite then s.sendNoLogData port request.id request.ofs (r 0)
    else s.forwardLogRequest .logRead port request.id 0 request.ofs request.count (r 0)
  else if msg.msgid = msgIdLogRequestEnd then
    if s.handles .sdWrite then s.forwardLogRequest .logEnd port 0 0 0 0 (r 0) else s
  else if msg.msgid = msgIdSystemTime then s.onSystemTime msg.systemTimeUnixUsec r
  else if msg.msgid = msgIdTimesync then s.onTimesync port msg.timesync r
  else s.sendStatusText port (ascii "Unhandled message received") severityWarning (r 0)

/-! ### A pass -/

def kClockReseedIntervalMs : UInt32 := 6 * 60 * 60 * 1000

def kBatteryLogIntervalMs : UInt32 := 2000

/-- The reconciliation of the two clocks, in the direction the ladder gives. -/
def reconcile (now : UInt32) (r : Nat → Readings) : TaskMavlink :=
  if now - s.lastReseedMs < kClockReseedIntervalMs then s
  else
    let s := { s with lastReseedMs := s.lastReseedMs + kClockReseedIntervalMs }
    let before := s.systemTime.source
    let ((reconciled, clockMoved), s) :=
      if before = .ground then
        let (pushed, s) := s.clock Clock.pushToDs1307 (r 0)
        ((pushed, false), s)
      else s.clock Clock.reseedFromDs1307 (r 0)
    let changed := reconciled && s.systemTime.source ≠ before
    let s := if changed then s.sendClockStatusText r else s
    if clockMoved || changed then s.logClock r else s

def recordBattery (now : UInt32) (r : Readings) : TaskMavlink :=
  if !s.reducedConfiguration && kBatteryLogIntervalMs ≤ now - s.lastBatteryLogMs then
    { s with lastBatteryLogMs := s.lastBatteryLogMs + kBatteryLogIntervalMs }.logBattery r
  else s

/-- The rows of both ports, in the order of the two loops. -/
def rows : List (Fin 2 × Fin 5) := [linkChanUart, linkChanUsb].flatMap fun p => (List.finRange 5).map fun row => (p, row)

/-- The least of what is left of the enabled rows. -/
def waitMs (now : UInt32) : UInt32 :=
  rows.foldl (fun waitMs (p, row) =>
    if !(s.schedule p row).enabled then waitMs
    else if (s.schedule p row).due now < waitMs then (s.schedule p row).due now else waitMs) 0xFFFFFFFF

/-- At a tick of one millisecond, in 32 bits. -/
def pdMS_TO_TICKS (ms : UInt32) : UInt32 := ms * 1000 / 1000

/-- One row of the firing loop. -/
def fireRow (now : UInt32) (r : Fin 2 → Fin 5 → Readings) (s : TaskMavlink) (row : Fin 2 × Fin 5) : TaskMavlink :=
  let entry := s.schedule row.1 row.2
  if entry.isDue now then
    let s := s.call entry.function row.1 (r row.1 row.2)
    s.setRow row.1 row.2 (s.schedule row.1 row.2).advance
  else s

def fire (now : UInt32) (r : Fin 2 → Fin 5 → Readings) : TaskMavlink := rows.foldl (fireRow now r) s

/-- The stability clear and the retry, at this tick. -/
def endPass (ended : Nat) : TaskMavlink :=
  let o := (Recovery.endOfPass { s.running with elapsed := ended - s.bootMs }).run s.regs
  { s with running := o.1, regs := o.2 }

/-- The body of the loop. A reset does not come back from its call. -/
def pass (c : Conversion) (e : Pass) : TaskMavlink :=
  let now := tickMs e.started
  let s := s.reconcile now e.reconcile
  let s := s.recordBattery now e.battery
  let s := { s with waited := some (pdMS_TO_TICKS (s.waitMs now)) }
  let s := match e.received with
    | some inbound => s.dispatch c now inbound e.dispatch
    | none => s
  if s.running.resetting.isSome then s
  else (s.fire (tickMs e.resumed) e.fire).endPass e.ended

end TaskMavlink

/-! ## Runs -/

/-- What the task finds as it begins. -/
structure Start where
  bootMs : Nat
  systemTime : Clock.SystemTime
  sdCardAvailable : Bool
  handles : HousekeepingTask → Bool
  running : Recovery.Running
  regs : Recovery.Regs
  boot : Fin 2 → Readings
  clock : Nat → Readings

/-- The two texts of a boot, then the tables. -/
def Start.task (b : Start) : TaskMavlink :=
  let s : TaskMavlink :=
    { schedule := fun _ => schedule (tickMs b.bootMs) b.running.info.reducedConfiguration
      systemTime := b.systemTime
      lastReseedMs := tickMs b.bootMs
      lastBatteryLogMs := tickMs b.bootMs - TaskMavlink.kBatteryLogIntervalMs
      sdCardAvailable := b.sdCardAvailable, handles := b.handles, bootMs := b.bootMs, running := b.running, regs := b.regs }
  let s := (s.sendBootStatement linkChanUart (b.boot linkChanUart)).sendBootStatement linkChanUsb (b.boot linkChanUsb)
  s.sendClockStatusText b.clock

/-- One pass, as long as no reset is under way. -/
def TaskMavlink.step (c : Conversion) (s : TaskMavlink) (e : Pass) : Option TaskMavlink :=
  if s.running.resetting.isSome then none else some (s.pass c e)

/-! ## A quiet board -/

/-- Nothing happens around the steps, and no queue changes by itself. -/
def quiet : Readings where
  tickCount := 0
  meanwhile := { ticks := fun _ => 0, ds1307 := fun _ ds1307 => ds1307 }
  millivolts := 3700
  remaining := 80
  rxDropCount := 0
  freeHeapSize := 4096
  minimumEverFreeHeapSize := 2048
  stackHighWaterMark := fun _ => 100
  writeQueue := id
  sdWriteQueue := id

/-- A board in the normal configuration with a card, half a second after its reset, whose RTC was stopped
and whose DS1307 kept the time. -/
def freshStart : Start where
  bootMs := 500
  systemTime := (Clock.begin.run Clock.seeded).2
  sdCardAvailable := true
  handles := fun _ => true
  running := { info := {
    previousBootPhase := .start, previousFaultTask := [], previousResetReason := .powerOn
    reducedConfiguration := false, bootConsecutiveCount := 0, bootCumulativeCount := 1 } }
  regs := fun _ => 0
  boot := fun _ => quiet
  clock := fun _ => quiet

/-- A message of a ground station, with nothing in it. -/
def groundMessage (msgid : UInt32) : MavlinkMessage where
  msgid := msgid
  sysid := 255
  compid := 190
  commandLong := { command := 0, param1 := .nan, param2 := .nan }
  missionRequestListType := 0
  logRequestList := { start := 0, «end» := 0 }
  logRequestData := { ofs := 0, count := 0, id := 0 }
  systemTimeUnixUsec := 0
  timesync := { tc1 := 0, ts1 := 0, targetSystem := 0, targetComponent := 0 }

def longCommand (command : UInt16) (param1 param2 : Param) : InboundMsg where
  chan := linkChanUsb
  msg := { groundMessage TaskMavlink.msgIdCommandLong with commandLong := { command, param1, param2 } }

def groundTime (unixUsec : UInt64) : InboundMsg where
  chan := linkChanUsb
  msg := { groundMessage TaskMavlink.msgIdSystemTime with systemTimeUnixUsec := unixUsec }

/-- A pass that takes no time. -/
def quietPass (ms : Nat) (received : Option InboundMsg) : Pass where
  started := ms
  reconcile := fun _ => quiet
  battery := quiet
  received := received
  dispatch := fun _ => quiet
  resumed := ms
  fire := fun _ _ => quiet
  ended := ms

theorem quiet_move : quiet.meanwhile.move = fun _ s => s := by
  funext k s
  show { s.wait 0 with ds1307 := s.ds1307 } = s
  rw [s.wait_zero]

end BoredomOS.Link
