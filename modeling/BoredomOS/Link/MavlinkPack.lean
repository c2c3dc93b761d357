/-
`mavlinkPack` of `src/mavlink.cpp`: what a queued message becomes on the wire. The MAVLink library
is not part of the repository; `MavlinkLibrary` is what the firmware relies on of it.
-/
import BoredomOS.Link.BootStatement

namespace BoredomOS.Link

open Recovery (BootInfo Regs)

/-- The calls of `mavlink_msg_*_pack_chan`, with what is passed for the message. -/
inductive MavMessage
  | heartbeat (type autopilot baseMode : UInt8) (customMode : UInt32) (systemStatus : UInt8)
  | autopilotVersion (capabilities : UInt64) (flightSw middlewareSw osSw board : UInt32)
      (flightCustom middlewareCustom osCustom : Vector UInt8 8) (vendorId productId : UInt16) (uid : UInt64)
      (uid2 : Vector UInt8 18)
  | protocolVersion (version minVersion maxVersion : UInt16) (specHash libraryHash : Vector UInt8 8)
  | messageInterval (messageId : UInt16) (intervalUs : Int32)
  | logEntry (id numLogs lastLogNum : UInt16) (timeUtc size : UInt32)
  | logData (id : UInt16) (ofs : UInt32) (count : UInt8) (data : Vector UInt8 90)
  | missionCount (targetSystem targetComponent : UInt8) (count : UInt16) (missionType : UInt8) (opaqueId : UInt32)
  | systemTime (unixUsec : UInt64) (bootMs : UInt32)
  | batteryStatus (id function type : UInt8) (temperature : Int16) (voltages : Vector UInt16 10) (current : Int16)
      (consumed energy : Int32) (remaining : Int8) (timeRemaining : Int32) (chargeState : UInt8)
      (voltagesExt : Vector UInt16 4) (mode : UInt8) (faults : UInt32)
  | sysStatus (present enabled health : UInt32) (load voltage : UInt16) (current : Int16) (remaining : Int8)
      (dropRate errorsComm errorsCount1 errorsCount2 errorsCount3 errorsCount4 : UInt16)
      (presentExt enabledExt healthExt : UInt32)
  | timesync (tc1 ts1 : Int64) (targetSystem targetComponent : UInt8)
  | statustext (severity : UInt8) (text : Vector UInt8 50) (id : UInt16) (chunkSeq : UInt8)
  | commandAck (command : UInt16) (result progress : UInt8) (resultParam2 : Int32) (targetSystem targetComponent : UInt8)
  | namedValueInt (bootMs : UInt32) (name : Vector UInt8 10) (value : Int32)
  deriving DecidableEq

/-- The `MAVLINK_MSG_ID_*` of each. -/
def MavMessage.msgid : MavMessage → UInt16
  | .heartbeat .. => 0
  | .sysStatus .. => 1
  | .systemTime .. => 2
  | .missionCount .. => 44
  | .commandAck .. => 77
  | .timesync .. => 111
  | .logEntry .. => 118
  | .logData .. => 120
  | .batteryStatus .. => 147
  | .autopilotVersion .. => 148
  | .messageInterval .. => 244
  | .namedValueInt .. => 252
  | .statustext .. => 253
  | .protocolVersion .. => 300

/-- `MAVLINK_MAX_PACKET_LEN` -/
def maxPacketLen : Nat := 280

/-- What `_pack_chan` makes of the `current_tx_seq` of its channel and a message: a frame that carries
that number, and the number the next one gets. -/
structure MavlinkLibrary where
  Frame : Type
  packChan : (currentTxSeq : UInt8) → (chan : Fin 2) → (sysid compid : UInt8) → MavMessage → Frame × UInt8
  seq : Frame → UInt8
  sendBuffer : Frame → List UInt8
  stamps : ∀ currentTxSeq chan sysid compid m, seq (packChan currentTxSeq chan sysid compid m).1 = currentTxSeq
  increments : ∀ currentTxSeq chan sysid compid m, (packChan currentTxSeq chan sysid compid m).2 = currentTxSeq + 1
  length_le : ∀ f, (sendBuffer f).length ≤ maxPacketLen

/-- What `mavlinkPack` reads beside the message. -/
structure PackState where
  info : BootInfo
  regs : Regs
  tickMs : UInt32

def kCapabilityMavlink2 : UInt64 := 8192

/-- The fields of each kind; the constants are those of the MAVLink enumerations. -/
def message (st : PackState) : LinkMsg → MavMessage
  | .heartbeat =>
    let baseMode : UInt8 := if st.info.reducedConfiguration then 128 else 128 ||| 4
    .heartbeat 9 0 baseMode (packCustomMode st.info st.regs) (if st.info.reducedConfiguration then 5 else 4)
  | .autopilotVersion =>
    let zero8 := Vector.replicate 8 0
    .autopilotVersion kCapabilityMavlink2 0 0 0 0 zero8 zero8 zero8 0 0 0 (Vector.replicate 18 0)
  | .protocolVersion => .protocolVersion 200 200 200 (Vector.replicate 8 0) (Vector.replicate 8 0)
  | .messageInterval m => .messageInterval m.messageId m.intervalUs
  | .logEntry m => .logEntry m.id m.numLogs m.lastLogNum m.timeUtc m.size
  | .logData m => .logData m.id m.ofs m.count m.data
  | .missionCount m => .missionCount m.targetSystem m.targetComponent 0 m.missionType 0
  | .systemTime m => .systemTime m.unixUsec m.bootMs
  | .batteryStatus m =>
    let voltages := (Vector.replicate 10 0xFFFF).set 0 m.millivolts
    .batteryStatus 0 1 1 32767 voltages (-1) (-1) (-1) m.remaining 0 0 (Vector.replicate 4 0) 0 0
  | .sysStatus m =>
    .sysStatus m.sensors m.sensors m.sensors 0 m.voltageMv (-1) m.batteryRemaining 0 m.errorsComm m.errorsCount1 0 0 0 0 0 0
  | .timesyncReply m => .timesync m.tc1 m.ts1 m.targetSystem m.targetComponent
  | .statusText m => .statustext m.severity m.text 0 0
  | .commandAck m => .commandAck m.command m.result 0 0 0 0
  | .namedValueInt m => .namedValueInt st.tickMs m.name m.value

/-- Every kind is packed once, for the port's own channel, as system 1, component 1. -/
def mavlinkPack (lib : MavlinkLibrary) (st : PackState) (currentTxSeq : UInt8) (chan : Fin 2) (intent : LinkMsg) :
    lib.Frame × UInt8 :=
  lib.packChan currentTxSeq chan 1 1 (message st intent)

theorem mavlinkPack_spec (lib : MavlinkLibrary) (st : PackState) (currentTxSeq : UInt8) (chan : Fin 2) (intent : LinkMsg) :
    lib.seq (mavlinkPack lib st currentTxSeq chan intent).1 = currentTxSeq ∧
      (mavlinkPack lib st currentTxSeq chan intent).2 = currentTxSeq + 1 :=
  ⟨lib.stamps .., lib.increments ..⟩

end BoredomOS.Link
