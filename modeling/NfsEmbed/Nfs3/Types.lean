import NfsEmbed.Vfs.Types

/-!
# NFSv3 status codes (`nfs3/types.rs`)
-/

namespace NfsEmbed.Nfs3

open Vfs

def PROGRAM : UInt32 := 100003

def VERSION : UInt32 := 3

inductive NfsStatus where
  | ok | permission | notFound | io | noDeviceOrAddress | access | exists | crossDevice | noDevice
  | notDirectory | isDirectory | invalid | fileTooLarge | noSpace | readOnly | tooManyLinks
  | nameTooLong | notEmpty | quota | stale | remote | badHandle | notSynchronized | badCookie
  | notSupported | tooSmall | serverFault | badType | jukebox
deriving DecidableEq, Repr

namespace NfsStatus

/-- The discriminant of the `repr(u32)` enumeration. -/
def code : NfsStatus → UInt32
  | ok => 0
  | permission => 1
  | notFound => 2
  | io => 5
  | noDeviceOrAddress => 6
  | access => 13
  | .exists => 17
  | crossDevice => 18
  | noDevice => 19
  | notDirectory => 20
  | isDirectory => 21
  | invalid => 22
  | fileTooLarge => 27
  | noSpace => 28
  | readOnly => 30
  | tooManyLinks => 31
  | nameTooLong => 63
  | notEmpty => 66
  | quota => 69
  | stale => 70
  | remote => 71
  | badHandle => 10001
  | notSynchronized => 10002
  | badCookie => 10003
  | notSupported => 10004
  | tooSmall => 10005
  | serverFault => 10006
  | badType => 10007
  | jukebox => 10008

def fromCode (value : UInt32) : Option NfsStatus :=
  match value with
  | 0 => some ok
  | 1 => some permission
  | 2 => some notFound
  | 5 => some io
  | 6 => some noDeviceOrAddress
  | 13 => some access
  | 17 => some .exists
  | 18 => some crossDevice
  | 19 => some noDevice
  | 20 => some notDirectory
  | 21 => some isDirectory
  | 22 => some invalid
  | 27 => some fileTooLarge
  | 28 => some noSpace
  | 30 => some readOnly
  | 31 => some tooManyLinks
  | 63 => some nameTooLong
  | 66 => some notEmpty
  | 69 => some quota
  | 70 => some stale
  | 71 => some remote
  | 10001 => some badHandle
  | 10002 => some notSynchronized
  | 10003 => some badCookie
  | 10004 => some notSupported
  | 10005 => some tooSmall
  | 10006 => some serverFault
  | 10007 => some badType
  | 10008 => some jukebox
  | _ => none

/-- `From<NfsError>`. -/
def ofError : NfsError → NfsStatus
  | .permission => permission
  | .notFound => notFound
  | .io => io
  | .noDeviceOrAddress => noDeviceOrAddress
  | .access => access
  | .exists => .exists
  | .crossDevice => crossDevice
  | .noDevice => noDevice
  | .notDirectory => notDirectory
  | .isDirectory => isDirectory
  | .invalid => invalid
  | .fileTooLarge => fileTooLarge
  | .noSpace => noSpace
  | .readOnly => readOnly
  | .tooManyLinks => tooManyLinks
  | .nameTooLong => nameTooLong
  | .notEmpty => notEmpty
  | .quota => quota
  | .stale => stale
  | .remote => remote
  | .notSynchronized => notSynchronized
  | .badCookie => badCookie
  | .notSupported => notSupported
  | .tooSmall => tooSmall
  | .serverFault => serverFault
  | .badType => badType
  | .jukebox => jukebox

theorem fromCode_code (status : NfsStatus) : fromCode status.code = some status := by
  cases status <;> rfl

theorem ofError_ne_ok (error : NfsError) : ofError error ≠ ok := by
  cases error <;> decide

end NfsStatus

structure WccData where
  before : Option WccAttributes := none
  after : Option FileAttributes := none
deriving DecidableEq, Repr

end NfsEmbed.Nfs3
