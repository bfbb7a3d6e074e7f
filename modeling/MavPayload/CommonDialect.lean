import MavPayload.CommonDialect.Enumerations
import MavPayload.Dialect

/-!
A part of the common dialect: its record types, and the dialect and the registry that they
make up. Both are built from the same declarations, so they agree on every layout.
-/

namespace MavPayload.CommonDialect

def heartbeat : RecordType where
  name := "HEARTBEAT"
  id := 0
  members := [
    ⟨"type",.enumeration mavType,false⟩,
    ⟨"autopilot",.enumeration mavAutopilot,false⟩,
    ⟨"base_mode",.enumeration mavModeFlag,false⟩,
    ⟨"custom_mode",.number .uint32,false⟩,
    ⟨"system_status",.enumeration mavState,false⟩,
    ⟨"mavlink_version",.number .uint8,false⟩]

def sysStatus : RecordType where
  name := "SYS_STATUS"
  id := 1
  members := [
    ⟨"onboard_control_sensors_present",.enumeration mavSysStatusSensor,false⟩,
    ⟨"onboard_control_sensors_enabled",.enumeration mavSysStatusSensor,false⟩,
    ⟨"onboard_control_sensors_health",.enumeration mavSysStatusSensor,false⟩,
    ⟨"load",.number .uint16,false⟩,
    ⟨"voltage_battery",.number .uint16,false⟩,
    ⟨"current_battery",.number .int16,false⟩,
    ⟨"battery_remaining",.number .int8,false⟩,
    ⟨"drop_rate_comm",.number .uint16,false⟩,
    ⟨"errors_comm",.number .uint16,false⟩,
    ⟨"errors_count1",.number .uint16,false⟩,
    ⟨"errors_count2",.number .uint16,false⟩,
    ⟨"errors_count3",.number .uint16,false⟩,
    ⟨"errors_count4",.number .uint16,false⟩,
    ⟨"onboard_control_sensors_present_extended",.enumeration mavSysStatusSensorExtended,true⟩,
    ⟨"onboard_control_sensors_enabled_extended",.enumeration mavSysStatusSensorExtended,true⟩,
    ⟨"onboard_control_sensors_health_extended",.enumeration mavSysStatusSensorExtended,true⟩]

def paramValue : RecordType where
  name := "PARAM_VALUE"
  id := 22
  members := [
    ⟨"param_id",.text 16,false⟩,
    ⟨"param_value",.number .float,false⟩,
    ⟨"param_type",.enumeration mavParamType,false⟩,
    ⟨"param_count",.number .uint16,false⟩,
    ⟨"param_index",.number .uint16,false⟩]

def gpsRawInt : RecordType where
  name := "GPS_RAW_INT"
  id := 24
  members := [
    ⟨"time_usec",.number .uint64,false⟩,
    ⟨"fix_type",.enumeration gpsFixType,false⟩,
    ⟨"lat",.number .int32,false⟩,
    ⟨"lon",.number .int32,false⟩,
    ⟨"alt",.number .int32,false⟩,
    ⟨"eph",.number .uint16,false⟩,
    ⟨"epv",.number .uint16,false⟩,
    ⟨"vel",.number .uint16,false⟩,
    ⟨"cog",.number .uint16,false⟩,
    ⟨"satellites_visible",.number .uint8,false⟩,
    ⟨"alt_ellipsoid",.number .int32,true⟩,
    ⟨"h_acc",.number .uint32,true⟩,
    ⟨"v_acc",.number .uint32,true⟩,
    ⟨"vel_acc",.number .uint32,true⟩,
    ⟨"hdg_acc",.number .uint32,true⟩,
    ⟨"yaw",.number .uint16,true⟩]

def attitude : RecordType where
  name := "ATTITUDE"
  id := 30
  members := [
    ⟨"time_boot_ms",.number .uint32,false⟩,
    ⟨"roll",.number .float,false⟩,
    ⟨"pitch",.number .float,false⟩,
    ⟨"yaw",.number .float,false⟩,
    ⟨"rollspeed",.number .float,false⟩,
    ⟨"pitchspeed",.number .float,false⟩,
    ⟨"yawspeed",.number .float,false⟩]

def vfrHud : RecordType where
  name := "VFR_HUD"
  id := 74
  members := [
    ⟨"airspeed",.number .float,false⟩,
    ⟨"groundspeed",.number .float,false⟩,
    ⟨"heading",.number .int16,false⟩,
    ⟨"throttle",.number .uint16,false⟩,
    ⟨"alt",.number .float,false⟩,
    ⟨"climb",.number .float,false⟩]

def attPosMocap : RecordType where
  name := "ATT_POS_MOCAP"
  id := 138
  members := [
    ⟨"time_usec",.number .uint64,false⟩,
    ⟨"q",.numbers .float 4,false⟩,
    ⟨"x",.number .float,false⟩,
    ⟨"y",.number .float,false⟩,
    ⟨"z",.number .float,false⟩,
    ⟨"covariance",.numbers .float 21,true⟩]

def statusText : RecordType where
  name := "STATUSTEXT"
  id := 253
  members := [
    ⟨"severity",.enumeration mavSeverity,false⟩,
    ⟨"text",.text 50,false⟩,
    ⟨"id",.number .uint16,true⟩,
    ⟨"chunk_seq",.number .uint8,true⟩]

def setupSigning : RecordType where
  name := "SETUP_SIGNING"
  id := 256
  members := [
    ⟨"target_system",.number .uint8,false⟩,
    ⟨"target_component",.number .uint8,false⟩,
    ⟨"secret_key",.numbers .uint8 32,false⟩,
    ⟨"initial_timestamp",.number .uint64,false⟩]

/-- The record types in ascending order of their ids. -/
def recordTypes : List RecordType :=
  [heartbeat,sysStatus,paramValue,gpsRawInt,attitude,vfrHud,attPosMocap,statusText,
   setupSigning]

def registry : Except Error Registry :=
  Registry.ofTypes recordTypes

def dialect : Except Error Dialect :=
  Dialect.ofDefinitions "common" 3 <| recordTypes.map fun type =>
    { id := type.id, name := type.name, fields := type.specs }

end MavPayload.CommonDialect
