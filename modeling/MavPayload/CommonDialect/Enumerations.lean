import MavPayload.Enumeration

/-!
The enumerations of the common dialect that its messages use.
-/

namespace MavPayload.CommonDialect

def mavType : Enumeration where
  type := .uint8
  entries := [
    ("MAV_TYPE_GENERIC",0),
    ("MAV_TYPE_FIXED_WING",1),
    ("MAV_TYPE_QUADROTOR",2),
    ("MAV_TYPE_COAXIAL",3),
    ("MAV_TYPE_HELICOPTER",4),
    ("MAV_TYPE_ANTENNA_TRACKER",5),
    ("MAV_TYPE_GCS",6),
    ("MAV_TYPE_AIRSHIP",7),
    ("MAV_TYPE_FREE_BALLOON",8),
    ("MAV_TYPE_ROCKET",9),
    ("MAV_TYPE_GROUND_ROVER",10),
    ("MAV_TYPE_SURFACE_BOAT",11),
    ("MAV_TYPE_SUBMARINE",12),
    ("MAV_TYPE_HEXAROTOR",13),
    ("MAV_TYPE_OCTOROTOR",14),
    ("MAV_TYPE_TRICOPTER",15),
    ("MAV_TYPE_FLAPPING_WING",16),
    ("MAV_TYPE_KITE",17),
    ("MAV_TYPE_ONBOARD_CONTROLLER",18)]

def mavAutopilot : Enumeration where
  type := .uint8
  entries := [
    ("MAV_AUTOPILOT_GENERIC",0),
    ("MAV_AUTOPILOT_RESERVED",1),
    ("MAV_AUTOPILOT_SLUGS",2),
    ("MAV_AUTOPILOT_ARDUPILOTMEGA",3),
    ("MAV_AUTOPILOT_OPENPILOT",4),
    ("MAV_AUTOPILOT_GENERIC_WAYPOINTS_ONLY",5),
    ("MAV_AUTOPILOT_GENERIC_WAYPOINTS_AND_SIMPLE_NAVIGATION_ONLY",6),
    ("MAV_AUTOPILOT_GENERIC_MISSION_FULL",7),
    ("MAV_AUTOPILOT_INVALID",8),
    ("MAV_AUTOPILOT_PPZ",9),
    ("MAV_AUTOPILOT_UDB",10),
    ("MAV_AUTOPILOT_FP",11),
    ("MAV_AUTOPILOT_PX4",12)]

def mavModeFlag : Enumeration where
  type := .uint8
  entries := [
    ("MAV_MODE_FLAG_CUSTOM_MODE_ENABLED",1),
    ("MAV_MODE_FLAG_TEST_ENABLED",2),
    ("MAV_MODE_FLAG_AUTO_ENABLED",4),
    ("MAV_MODE_FLAG_GUIDED_ENABLED",8),
    ("MAV_MODE_FLAG_STABILIZE_ENABLED",16),
    ("MAV_MODE_FLAG_HIL_ENABLED",32),
    ("MAV_MODE_FLAG_MANUAL_INPUT_ENABLED",64),
    ("MAV_MODE_FLAG_SAFETY_ARMED",128)]

def mavState : Enumeration where
  type := .uint8
  entries := [
    ("MAV_STATE_UNINIT",0),
    ("MAV_STATE_BOOT",1),
    ("MAV_STATE_CALIBRATING",2),
    ("MAV_STATE_STANDBY",3),
    ("MAV_STATE_ACTIVE",4),
    ("MAV_STATE_CRITICAL",5),
    ("MAV_STATE_EMERGENCY",6),
    ("MAV_STATE_POWEROFF",7),
    ("MAV_STATE_FLIGHT_TERMINATION",8)]

def mavSysStatusSensor : Enumeration where
  type := .uint32
  entries := [
    ("MAV_SYS_STATUS_SENSOR_3D_GYRO",1),
    ("MAV_SYS_STATUS_SENSOR_3D_ACCEL",2),
    ("MAV_SYS_STATUS_SENSOR_3D_MAG",4),
    ("MAV_SYS_STATUS_SENSOR_ABSOLUTE_PRESSURE",8),
    ("MAV_SYS_STATUS_SENSOR_DIFFERENTIAL_PRESSURE",16),
    ("MAV_SYS_STATUS_SENSOR_GPS",32),
    ("MAV_SYS_STATUS_SENSOR_OPTICAL_FLOW",64),
    ("MAV_SYS_STATUS_SENSOR_VISION_POSITION",128),
    ("MAV_SYS_STATUS_SENSOR_LASER_POSITION",256),
    ("MAV_SYS_STATUS_SENSOR_EXTERNAL_GROUND_TRUTH",512),
    ("MAV_SYS_STATUS_SENSOR_ANGULAR_RATE_CONTROL",1024),
    ("MAV_SYS_STATUS_SENSOR_ATTITUDE_STABILIZATION",2048),
    ("MAV_SYS_STATUS_SENSOR_YAW_POSITION",4096),
    ("MAV_SYS_STATUS_SENSOR_Z_ALTITUDE_CONTROL",8192),
    ("MAV_SYS_STATUS_SENSOR_XY_POSITION_CONTROL",16384),
    ("MAV_SYS_STATUS_SENSOR_MOTOR_OUTPUTS",32768),
    ("MAV_SYS_STATUS_SENSOR_RC_RECEIVER",65536),
    ("MAV_SYS_STATUS_SENSOR_GEOFENCE",1048576),
    ("MAV_SYS_STATUS_SENSOR_AHRS",2097152),
    ("MAV_SYS_STATUS_SENSOR_TERRAIN",4194304),
    ("MAV_SYS_STATUS_SENSOR_LOGGING",16777216),
    ("MAV_SYS_STATUS_SENSOR_BATTERY",33554432),
    ("MAV_SYS_STATUS_SENSOR_PROXIMITY",67108864),
    ("MAV_SYS_STATUS_SENSOR_PREARM_CHECK",268435456),
    ("MAV_SYS_STATUS_EXTENSION_USED",2147483648)]

def mavSysStatusSensorExtended : Enumeration where
  type := .uint32
  entries := [
    ("MAV_SYS_STATUS_RECOVERY_SYSTEM",1)]

def mavParamType : Enumeration where
  type := .uint8
  entries := [
    ("MAV_PARAM_TYPE_UINT8",1),
    ("MAV_PARAM_TYPE_INT8",2),
    ("MAV_PARAM_TYPE_UINT16",3),
    ("MAV_PARAM_TYPE_INT16",4),
    ("MAV_PARAM_TYPE_UINT32",5),
    ("MAV_PARAM_TYPE_INT32",6),
    ("MAV_PARAM_TYPE_UINT64",7),
    ("MAV_PARAM_TYPE_INT64",8),
    ("MAV_PARAM_TYPE_REAL32",9),
    ("MAV_PARAM_TYPE_REAL64",10)]

def gpsFixType : Enumeration where
  type := .uint8
  entries := [
    ("GPS_FIX_TYPE_NO_GPS",0),
    ("GPS_FIX_TYPE_NO_FIX",1),
    ("GPS_FIX_TYPE_2D_FIX",2),
    ("GPS_FIX_TYPE_3D_FIX",3),
    ("GPS_FIX_TYPE_DGPS",4),
    ("GPS_FIX_TYPE_RTK_FLOAT",5),
    ("GPS_FIX_TYPE_RTK_FIXED",6),
    ("GPS_FIX_TYPE_STATIC",7),
    ("GPS_FIX_TYPE_PPP",8)]

def mavSeverity : Enumeration where
  type := .uint8
  entries := [
    ("MAV_SEVERITY_EMERGENCY",0),
    ("MAV_SEVERITY_ALERT",1),
    ("MAV_SEVERITY_CRITICAL",2),
    ("MAV_SEVERITY_ERROR",3),
    ("MAV_SEVERITY_WARNING",4),
    ("MAV_SEVERITY_NOTICE",5),
    ("MAV_SEVERITY_INFO",6),
    ("MAV_SEVERITY_DEBUG",7)]

end MavPayload.CommonDialect
