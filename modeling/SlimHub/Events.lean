import SlimHub.Config

/-! Events that travel between the daemon's parts. -/

namespace SlimHub
open Text Nus

structure RawDataEvent where
  timestamp : ℚ
  mac : Str
  location : Str
  packet : RawDataPacket
  payload : Bytes
  deviceType : Str := defaultDeviceType
  deriving DecidableEq

structure AlertEvent where
  timestamp : ℚ
  mac : Str
  location : Str
  packet : AlertPacket
  payload : Bytes
  deviceType : Str := defaultDeviceType
  deriving DecidableEq

structure CommandEvent where
  address : Str
  command : Str
  location : Str
  deriving DecidableEq

end SlimHub
