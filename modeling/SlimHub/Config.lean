import SlimHub.Lib.Files
import SlimHub.Protocol.Nus

/-! Configuration: where the hub keeps its files, and where a device stands and what it is, with the
    defaults that empty fields are filled with. -/

namespace SlimHub
open Text Nus

def defaultLocation : Str := str "undefined"

def defaultDeviceType : Str := defaultDeviceName

/-- `x or default` on strings. -/
def orDefault (x default : Str) : Str := if x = [] then default else x

structure AppPaths where
  baseDir : Files.Path
  deriving DecidableEq

namespace AppPaths

def programdataDir (self : AppPaths) : Files.Path := Files.join self.baseDir (str "programdata")

def configDir (self : AppPaths) : Files.Path := Files.join self.programdataDir (str "config")

def dataDir (self : AppPaths) : Files.Path := Files.join self.baseDir (str "data")

def ensure (self : AppPaths) (refuses : ℕ → Option ℕ) : Files.Op Unit := do
  Files.mkdirs refuses self.programdataDir
  Files.mkdirs refuses self.configDir
  Files.mkdirs refuses self.dataDir

end AppPaths

structure DeviceConfig where
  address : Str
  type : Str := defaultDeviceType
  name : Str := []
  location : Str := defaultLocation
  deriving DecidableEq

end SlimHub
